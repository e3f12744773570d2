import SoqTracker.Decimal

/- JSON as Python's json module reads and writes it: loads with its recursion
   limit, and dumps with the default separators and ASCII escapes. Strings are
   lists of code points, so that lone surrogates are values too. -/
namespace SoqTracker.Json
open ExtendedNumber Decimal

abbrev Text := List Nat

inductive Value (α : Type) where
  | null
  | bool (value : Bool)
  | int (value : Int)
  | float (value : Number α)
  | str (value : Text)
  | arr (items : List (Value α))
  | obj (members : List (Text × Value α))

/-- outOfFuel is an artefact of the bounded loops below and never returned by loads. -/
inductive Refusal where
  | malformed
  | tooDeep
  | tooLong
  | outOfFuel
  deriving DecidableEq, Repr

/-- Nested containers, and digits of an integer's text where there is a limit;
    the interpreter sets that one no lower than 640. -/
structure Limits where
  nesting : Nat
  digits : Option Nat
  digits_floor : ∀ most ∈ digits, 640 ≤ most

def Limits.standard : Limits := ⟨900, some 4300, by simp⟩

abbrev Scanned (α : Type) := Except Refusal (Value α × List Char)

def skipSpace (text : List Char) : List Char :=
  text.dropWhile fun c => c = ' ' || c = '\t' || c = '\n' || c = '\r'

/- Strings. -/

def simpleEscape (c : Char) : Option Nat :=
  if c = '"' then some 34
  else if c = '\\' then some 92
  else if c = '/' then some 47
  else if c = 'b' then some 8
  else if c = 'f' then some 12
  else if c = 'n' then some 10
  else if c = 'r' then some 13
  else if c = 't' then some 9
  else none

def hexQuad (a b c d : Char) : Option Nat :=
  match hexValue a, hexValue b, hexValue c, hexValue d with
  | some w, some x, some y, some z => some (4096 * w + 256 * x + 16 * y + z)
  | _, _, _, _ => none

def scanUnits : List Char → Option (List Nat × List Char)
  | [] => none
  | c :: text =>
      if c = '"' then some ([], text)
      else if c = '\\' then
        match text with
        | [] => none
        | e :: text =>
            if e = 'u' then
              match text with
              | a :: b :: c :: d :: text =>
                  match hexQuad a b c d with
                  | some n => (scanUnits text).map fun r => (n :: r.1, r.2)
                  | none => none
              | _ => none
            else
              match simpleEscape e with
              | some n => (scanUnits text).map fun r => (n :: r.1, r.2)
              | none => none
      else if c.toNat < 32 then none
      else (scanUnits text).map fun r => (c.toNat :: r.1, r.2)

def isHigh (n : Nat) : Bool := 0xD800 ≤ n && n < 0xDC00
def isLow (n : Nat) : Bool := 0xDC00 ≤ n && n < 0xE000

def joinSurrogates : List Nat → Text
  | [] => []
  | [n] => [n]
  | high :: low :: units =>
      if isHigh high && isLow low then
        (0x10000 + (high - 0xD800) * 1024 + (low - 0xDC00)) :: joinSurrogates units
      else high :: joinSurrogates (low :: units)

def scanString (text : List Char) : Option (Text × List Char) :=
  (scanUnits text).map fun r => (joinSurrogates r.1, r.2)

/- Numbers. -/

def integerPart : List Char → Option (List Char × List Char)
  | [] => none
  | c :: text =>
      if c = '0' then some (['0'], text)
      else if c.isDigit then
        some (c :: text.takeWhile Char.isDigit, text.dropWhile Char.isDigit)
      else none

/-- A point counts only before a digit. -/
def optionalFraction (text : List Char) : List Char × List Char :=
  let fraction := scanFraction Char.isDigit text
  if fraction.1 = [] then ([], text) else fraction

def scanMinus : List Char → Bool × List Char
  | '-' :: text => (true, text)
  | text => (false, text)

section Parse
variable {α : Type} [Field α] [LinearOrder α]

def scanNumber (text : List Char) : Option (Value α × List Char) :=
  let signed := scanMinus text
  (integerPart signed.2).map fun whole =>
    let fraction := optionalFraction whole.2
    let exponent := scanExponent ['e', 'E'] fraction.2
    if fraction.1 = [] ∧ exponent.2 = fraction.2 then
      let size : Int := Nat.ofDigitChars 10 whole.1 0
      (.int (if signed.1 then -size else size), whole.2)
    else
      (.float (ofLiteral 10 signed.1
        ⟨Nat.ofDigitChars 10 (whole.1 ++ fraction.1) 0, exponent.1 - fraction.1.length⟩),
        exponent.2)

def keywords : List (List Char × Value α) :=
  [("null".toList, .null), ("true".toList, .bool true), ("false".toList, .bool false),
    ("NaN".toList, .float .nan), ("Infinity".toList, .float .posInf),
    ("-Infinity".toList, .float .negInf)]

def scanKeyword (text : List Char) : Option (Value α × List Char) :=
  (keywords.find? fun word => word.1.isPrefixOf text).map fun word =>
    (word.2, text.drop word.1.length)

/-- A JSON integer has no leading zeros, so its own text is the one converted. -/
def checkDigits (digits : Option Nat) (found : Value α × List Char) : Scanned α :=
  match found.1 with
  | .int value => if fitsDigits digits (natText value.natAbs) then .ok found else .error .tooLong
  | _ => .ok found

def scanScalar (digits : Option Nat) (text : List Char) : Scanned α :=
  match scanKeyword text with
  | some found => .ok found
  | none =>
      match scanNumber text with
      | some found => checkDigits digits found
      | none => .error .malformed

/-- A dict keeps the place of a key's first value and the last value itself. -/
def insertKey (key : Text) (value : Value α) : List (Text × Value α) → List (Text × Value α)
  | [] => [(key, value)]
  | member :: later =>
      if member.1 = key then (key, value) :: later else member :: insertKey key value later

def scanItems (inner : List Char → Scanned α) : Nat → List (Value α) → List Char → Scanned α
  | 0, _, _ => .error .outOfFuel
  | fuel + 1, items, text =>
      match inner text with
      | .error refusal => .error refusal
      | .ok (item, text) =>
          match skipSpace text with
          | ']' :: text => .ok (.arr (items ++ [item]), text)
          | ',' :: text => scanItems inner fuel (items ++ [item]) (skipSpace text)
          | _ => .error .malformed

def scanMember (inner : List Char → Scanned α) (text : List Char) :
    Except Refusal ((Text × Value α) × List Char) :=
  match text with
  | '"' :: text =>
      match scanString text with
      | none => .error .malformed
      | some (key, text) =>
          match skipSpace text with
          | ':' :: text => (inner (skipSpace text)).map fun r => ((key, r.1), r.2)
          | _ => .error .malformed
  | _ => .error .malformed

def scanMembers (inner : List Char → Scanned α) :
    Nat → List (Text × Value α) → List Char → Scanned α
  | 0, _, _ => .error .outOfFuel
  | fuel + 1, members, text =>
      match scanMember inner text with
      | .error refusal => .error refusal
      | .ok (member, text) =>
          match skipSpace text with
          | '\x7d' :: text => .ok (.obj (insertKey member.1 member.2 members), text)
          | ',' :: text =>
              scanMembers inner fuel (insertKey member.1 member.2 members) (skipSpace text)
          | _ => .error .malformed

def scanArray (inner : List Char → Scanned α) (text : List Char) : Scanned α :=
  match skipSpace text with
  | ']' :: text => .ok (.arr [], text)
  | text => scanItems inner (text.length + 1) [] text

def scanObject (inner : List Char → Scanned α) (text : List Char) : Scanned α :=
  match skipSpace text with
  | '\x7d' :: text => .ok (.obj [], text)
  | text => scanMembers inner (text.length + 1) [] text

/-- One value; without an inner parser the recursion limit is reached, and
    only containers notice. -/
def scanValue (digits : Option Nat) (inner : Option (List Char → Scanned α)) :
    List Char → Scanned α
  | [] => .error .malformed
  | c :: text =>
      if c = '"' then
        match scanString text with
        | some (value, text) => .ok (.str value, text)
        | none => .error .malformed
      else if c = '\x7b' then
        match inner with
        | some inner => scanObject inner text
        | none => .error .tooDeep
      else if c = '[' then
        match inner with
        | some inner => scanArray inner text
        | none => .error .tooDeep
      else scanScalar digits (c :: text)

def parseValue (digits : Option Nat) : Nat → List Char → Scanned α
  | 0 => scanValue digits none
  | depth + 1 => scanValue digits (some (parseValue digits depth))

def loads (limits : Limits) (text : List Char) : Except Refusal (Value α) :=
  match parseValue limits.digits limits.nesting (skipSpace text) with
  | .error refusal => .error refusal
  | .ok (value, text) => if skipSpace text = [] then .ok value else .error .malformed

end Parse

/- Reading a parsed value. -/

section Read
variable {α : Type}

def lookup (key : Text) (members : List (Text × Value α)) : Option (Value α) :=
  (members.find? fun member => member.1 = key).map Prod.snd

def truthy [Field α] [DecidableEq α] : Value α → Bool
  | .null => false
  | .bool value => value
  | .int value => value ≠ 0
  | .float value => value ≠ .finite 0
  | .str value => value ≠ []
  | .arr items => !items.isEmpty
  | .obj members => !members.isEmpty

end Read

/- Writing. -/

def unicodeEscape (n : Nat) : List Char :=
  ['\\', 'u', Nat.digitChar (n / 4096), Nat.digitChar (n / 256 % 16),
    Nat.digitChar (n / 16 % 16), Nat.digitChar (n % 16)]

def unitsOf (n : Nat) : List Nat :=
  if n < 0x10000 then [n]
  else [0xD800 + (n - 0x10000) / 1024, 0xDC00 + (n - 0x10000) % 1024]

def escaped (n : Nat) : List Char :=
  if n = 34 then ['\\', '"']
  else if n = 92 then ['\\', '\\']
  else if n = 10 then ['\\', 'n']
  else if n = 13 then ['\\', 'r']
  else if n = 9 then ['\\', 't']
  else if n = 8 then ['\\', 'b']
  else if n = 12 then ['\\', 'f']
  else if 32 ≤ n ∧ n < 127 then [Char.ofNat n]
  else (unitsOf n).flatMap unicodeEscape

def stringText (value : Text) : List Char := '"' :: (value.flatMap escaped ++ ['"'])

section Write
variable {α : Type} (repr : α → List Char)

def numberText : Number α → List Char
  | .finite x => repr x
  | .nan => "NaN".toList
  | .posInf => "Infinity".toList
  | .negInf => "-Infinity".toList

mutual
def text : Value α → List Char
  | .null => "null".toList
  | .bool true => "true".toList
  | .bool false => "false".toList
  | .int value => intText value
  | .float value => numberText repr value
  | .str value => stringText value
  | .arr items => '[' :: (itemsText items ++ [']'])
  | .obj members => '\x7b' :: (membersText members ++ ['\x7d'])

def itemsText : List (Value α) → List Char
  | [] => []
  | item :: later => text item ++ laterItemsText later

def laterItemsText : List (Value α) → List Char
  | [] => []
  | item :: later => ',' :: ' ' :: (text item ++ laterItemsText later)

def membersText : List (Text × Value α) → List Char
  | [] => []
  | (key, value) :: later => stringText key ++ ':' :: ' ' :: (text value ++ laterMembersText later)

def laterMembersText : List (Text × Value α) → List Char
  | [] => []
  | (key, value) :: later =>
      ',' :: ' ' :: (stringText key ++ ':' :: ' ' :: (text value ++ laterMembersText later))
end

mutual
def depth : Value α → Nat
  | .arr items => 1 + itemsDepth items
  | .obj members => 1 + membersDepth members
  | _ => 0

def itemsDepth : List (Value α) → Nat
  | [] => 0
  | item :: later => max (depth item) (itemsDepth later)

def membersDepth : List (Text × Value α) → Nat
  | [] => 0
  | (_, value) :: later => max (depth value) (membersDepth later)
end

/-- json.dumps, with the number of nested containers the interpreter allows. An
    integer too long to be written is too long to have been read. -/
def dumps (limit : Nat) (value : Value α) : Except Refusal (List Char) :=
  if depth value ≤ limit then .ok (text repr value) else .error .tooDeep

end Write

end SoqTracker.Json
