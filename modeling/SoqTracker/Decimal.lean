import SoqTracker.ExtendedNumber

/- Numbers written as text: decimal literals, the float and int spellings Python
   accepts, and the C library's atof. Characters are Unicode scalars. -/
namespace SoqTracker.Decimal
open ExtendedNumber

structure Literal where
  digits : Nat
  exponent : Int
  deriving DecidableEq, Repr

section Value
variable {α : Type} [Field α]

def Literal.value (base : Nat) (l : Literal) : α :=
  if 0 ≤ l.exponent then (l.digits : α) * (base : α) ^ l.exponent.toNat
  else (l.digits : α) / (base : α) ^ (-l.exponent).toNat

variable [LinearOrder α]

def ofLiteral (base : Nat) (negative : Bool) (l : Literal) : Number α :=
  Number.ofExact (if negative then -l.value base else l.value base)

end Value

def scanSign : List Char → Bool × List Char
  | '-' :: text => (true, text)
  | '+' :: text => (false, text)
  | text => (false, text)

/-- An exponent part, marked by one of the letters; nothing is consumed unless
    at least one digit follows. -/
def scanExponent (letters : List Char) : List Char → Int × List Char
  | [] => (0, [])
  | c :: text =>
      if c ∈ letters then
        let signed := scanSign text
        let digits := signed.2.takeWhile Char.isDigit
        if digits = [] then (0, c :: text)
        else
          let size : Int := Nat.ofDigitChars 10 digits 0
          (if signed.1 then -size else size, signed.2.dropWhile Char.isDigit)
      else (0, c :: text)

def scanFraction (isDigit : Char → Bool) : List Char → List Char × List Char
  | '.' :: text => (text.takeWhile isDigit, text.dropWhile isDigit)
  | text => ([], text)

def scanLiteral (text : List Char) : Option (Literal × List Char) :=
  let whole := text.takeWhile Char.isDigit
  let fraction := scanFraction Char.isDigit (text.dropWhile Char.isDigit)
  if whole = [] ∧ fraction.1 = [] then none
  else
    let exponent := scanExponent ['e', 'E'] fraction.2
    some (⟨Nat.ofDigitChars 10 (whole ++ fraction.1) 0, exponent.1 - fraction.1.length⟩,
      exponent.2)

def beginsWith (word text : List Char) : Bool :=
  (text.take word.length).map Char.toLower = word

/- Python's float and int. -/

def isAsciiSpace (c : Char) : Bool :=
  c = ' ' || (9 ≤ c.toNat && c.toNat ≤ 13)

/-- Python's str.isspace, which strip and split use. -/
def isSpace (c : Char) : Bool :=
  isAsciiSpace c || (0x1C ≤ c.toNat && c.toNat ≤ 0x1F) ||
    c.toNat ∈ [0x85, 0xA0, 0x1680, 0x2028, 0x2029, 0x202F, 0x205F, 0x3000] ||
    (0x2000 ≤ c.toNat && c.toNat ≤ 0x200A)

def stripBy (space : Char → Bool) (text : List Char) : List Char :=
  ((text.dropWhile space).reverse.dropWhile space).reverse

def strip (text : List Char) : List Char := stripBy isSpace text

/-- First code points of the decimal digit blocks of Unicode 14. -/
def digitBlocks : List Nat :=
  [0x30, 0x660, 0x6F0, 0x7C0, 0x966, 0x9E6, 0xA66, 0xAE6, 0xB66, 0xBE6, 0xC66, 0xCE6, 0xD66,
    0xDE6, 0xE50, 0xED0, 0xF20, 0x1040, 0x1090, 0x17E0, 0x1810, 0x1946, 0x19D0, 0x1A80,
    0x1A90, 0x1B50, 0x1BB0, 0x1C40, 0x1C50, 0xA620, 0xA8D0, 0xA900, 0xA9D0, 0xA9F0, 0xAA50,
    0xABF0, 0xFF10, 0x104A0, 0x10D30, 0x11066, 0x110F0, 0x11136, 0x111D0, 0x112F0, 0x11450,
    0x114D0, 0x11650, 0x116C0, 0x11730, 0x118E0, 0x11950, 0x11C50, 0x11D50, 0x11DA0, 0x16A60,
    0x16AC0, 0x16B50, 0x1D7CE, 0x1D7D8, 0x1D7E2, 0x1D7EC, 0x1D7F6, 0x1E140, 0x1E2F0, 0x1E950,
    0x1FBF0]

/-- Decimal digits and spaces become their ASCII forms; any other character
    beyond ASCII becomes one that no number contains. -/
def normalized (c : Char) : Char :=
  if c.toNat < 127 then c
  else if isSpace c then ' '
  else match digitBlocks.find? (fun first => first ≤ c.toNat && c.toNat < first + 10) with
    | some first => Nat.digitChar (c.toNat - first)
    | none => '?'

/-- Underscores may stand between two digits only; they are dropped. -/
def withoutUnderscores (afterDigit : Bool) : List Char → Option (List Char)
  | [] => some []
  | '_' :: c :: text =>
      if afterDigit && c.isDigit then (withoutUnderscores true text).map (c :: ·) else none
  | ['_'] => none
  | c :: text => (withoutUnderscores c.isDigit text).map (c :: ·)

def numberText (text : List Char) : Option (List Char) :=
  withoutUnderscores false (stripBy isAsciiSpace (text.map normalized))

def pyFloat {α : Type} [Field α] [LinearOrder α] (text : List Char) : Option (Number α) :=
  (numberText text).bind fun plain =>
    let signed := scanSign plain
    let lower := signed.2.map Char.toLower
    if lower = ['i', 'n', 'f'] ∨ lower = ['i', 'n', 'f', 'i', 'n', 'i', 't', 'y'] then
      some (if signed.1 then .negInf else .posInf)
    else if lower = ['n', 'a', 'n'] then some .nan
    else match scanLiteral signed.2 with
      | some (literal, []) => some (ofLiteral 10 signed.1 literal)
      | _ => none

/-- Interpreters may limit the digits of an integer's text. -/
def fitsDigits (digits : Option Nat) (text : List Char) : Bool :=
  digits.all fun most => text.length ≤ most

def pyInt (digits : Option Nat) (text : List Char) : Option Int :=
  (numberText text).bind fun plain =>
    let signed := scanSign plain
    if signed.2 ≠ [] ∧ signed.2.all Char.isDigit ∧ fitsDigits digits signed.2 then
      let size : Int := Nat.ofDigitChars 10 signed.2 0
      some (if signed.1 then -size else size)
    else none

/- C's atof: leading white space, then the longest number at the head. -/

def hexValue (c : Char) : Option Nat :=
  if c.isDigit then some (c.toNat - 48)
  else if 'a' ≤ c ∧ c ≤ 'f' then some (c.toNat - 87)
  else if 'A' ≤ c ∧ c ≤ 'F' then some (c.toNat - 55)
  else none

def isHexDigit (c : Char) : Bool := (hexValue c).isSome

def ofHexDigits (digits : List Char) : Nat :=
  digits.foldl (fun n c => 16 * n + (hexValue c).getD 0) 0

/-- A hexadecimal literal after its 0x, as a power of two times its digits. -/
def scanHex (text : List Char) : Option Literal :=
  let whole := text.takeWhile isHexDigit
  let fraction := scanFraction isHexDigit (text.dropWhile isHexDigit)
  if whole = [] ∧ fraction.1 = [] then none
  else
    let exponent := scanExponent ['p', 'P'] fraction.2
    some ⟨ofHexDigits (whole ++ fraction.1), exponent.1 - 4 * fraction.1.length⟩

def hexBody : List Char → Option (List Char)
  | '0' :: x :: text => if x = 'x' ∨ x = 'X' then some text else none
  | _ => none

def atofText {α : Type} [Field α] [LinearOrder α] (text : List Char) : Number α :=
  let signed := scanSign (text.dropWhile isAsciiSpace)
  if beginsWith ['i', 'n', 'f'] signed.2 then (if signed.1 then .negInf else .posInf)
  else if beginsWith ['n', 'a', 'n'] signed.2 then .nan
  else match (hexBody signed.2).bind scanHex with
    | some literal => ofLiteral 2 signed.1 literal
    | none =>
        match scanLiteral signed.2 with
        | some (literal, _) => ofLiteral 10 signed.1 literal
        | none => .finite 0

def atof {α : Type} [Field α] [LinearOrder α] (bytes : List UInt8) : Number α :=
  atofText (bytes.map fun b => Char.ofNat b.toNat)

/- Printing. -/

def natText (n : Nat) : List Char := Nat.toDigits 10 n

def intText (n : Int) : List Char :=
  if n < 0 then '-' :: natText n.natAbs else natText n.natAbs

end SoqTracker.Decimal
