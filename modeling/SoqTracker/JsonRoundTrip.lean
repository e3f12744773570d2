import SoqTracker.JsonScan
import SoqTracker.DecimalText

/- What json.dumps writes, json.loads reads back. -/
namespace SoqTracker.Json
open ExtendedNumber Decimal

/- Writing. -/

section Write
variable {α : Type} (repr : α → List Char)

theorem laterMembersText_append (front back : List (Text × Value α)) :
    laterMembersText repr (front ++ back) =
      laterMembersText repr front ++ laterMembersText repr back := by
  induction front with
  | nil => simp [laterMembersText]
  | cons member front ih => simp [laterMembersText, ih]

theorem member_text (front back : List (Text × Value α)) (key : Text) :
    ∃ before after, ∀ value, text repr (.obj (front ++ (key, value) :: back)) =
      before ++ text repr value ++ after := by
  cases front with
  | nil =>
    refine ⟨'\x7b' :: (stringText key ++ [':', ' ']), laterMembersText repr back ++ ['\x7d'], ?_⟩
    intro value
    simp [text, membersText]
  | cons member front =>
    refine ⟨'\x7b' :: (stringText member.1 ++ ':' :: ' ' :: (text repr member.2 ++
      laterMembersText repr front)) ++ ',' :: ' ' :: (stringText key ++ [':', ' ']),
      laterMembersText repr back ++ ['\x7d'], ?_⟩
    intro value
    simp [text, membersText, laterMembersText, laterMembersText_append]

end Write

/- Strings: code points in range, without a high surrogate before a low one. -/

def SoundText : Text → Prop
  | [] => True
  | [n] => n < 0x110000
  | high :: low :: later =>
      high < 0x110000 ∧ ¬ (isHigh high ∧ isLow low) ∧ SoundText (low :: later)

theorem soundText_cons {n : Nat} {later : Text} (sound : SoundText (n :: later)) :
    n < 0x110000 ∧ SoundText later ∧ ∀ m ∈ later.head?, ¬ (isHigh n ∧ isLow m) := by
  cases later with
  | nil => exact ⟨sound, trivial, by simp⟩
  | cons m later =>
    obtain ⟨bound, apart, rest⟩ := sound
    exact ⟨bound, rest, by simpa using apart⟩

theorem soundText_push {n : Nat} {later : Text} (bound : n < 0x110000) (sound : SoundText later)
    (apart : ∀ m ∈ later.head?, ¬ (isHigh n ∧ isLow m)) : SoundText (n :: later) := by
  cases later with
  | nil => exact bound
  | cons m later => exact ⟨bound, apart m rfl, sound⟩

theorem hexValue_digitChar : ∀ d < 16, hexValue (Nat.digitChar d) = some d := by decide

theorem charCode : ∀ n < 127, (Char.ofNat n).toNat = n := by decide

theorem hexQuad_digits {n : Nat} (small : n < 0x10000) :
    hexQuad (Nat.digitChar (n / 4096)) (Nat.digitChar (n / 256 % 16))
      (Nat.digitChar (n / 16 % 16)) (Nat.digitChar (n % 16)) = some n := by
  have first := hexValue_digitChar (n / 4096) (by omega)
  have second := hexValue_digitChar (n / 256 % 16) (by omega)
  have third := hexValue_digitChar (n / 16 % 16) (by omega)
  have fourth := hexValue_digitChar (n % 16) (by omega)
  simp only [hexQuad, first, second, third, fourth, Option.some.injEq]
  omega

def pushUnit (n : Nat) (scanned : Option (List Nat × List Char)) : Option (List Nat × List Char) :=
  scanned.map fun r => (n :: r.1, r.2)

theorem scanUnits_escape {n : Nat} (small : n < 0x10000) (later : List Char) :
    scanUnits (unicodeEscape n ++ later) = pushUnit n (scanUnits later) := by
  simp only [unicodeEscape, List.cons_append, List.nil_append]
  rw [scanUnits.eq_def]
  simp [hexQuad_digits small, pushUnit]

theorem scanUnits_escaped {n : Nat} (bound : n < 0x110000) (later : List Char) :
    scanUnits (escaped n ++ later) =
      (scanUnits later).map fun r => (unitsOf n ++ r.1, r.2) := by
  have short : ∀ (c e : Char) (m : Nat), c = '\\' → e ≠ 'u' → simpleEscape e = some m →
      m < 0x10000 → scanUnits (c :: e :: later) =
        (scanUnits later).map fun r => (unitsOf m ++ r.1, r.2) := by
    intro c e m back plain simple fits
    rw [scanUnits.eq_def]
    simp [back, plain, simple, unitsOf, fits]
  unfold escaped
  split_ifs with quote back feed ret tab backspace form plain
  · exact short _ _ n rfl (by decide) (by rw [quote]; rfl) (by omega)
  · exact short _ _ n rfl (by decide) (by rw [back]; rfl) (by omega)
  · exact short _ _ n rfl (by decide) (by rw [feed]; rfl) (by omega)
  · exact short _ _ n rfl (by decide) (by rw [ret]; rfl) (by omega)
  · exact short _ _ n rfl (by decide) (by rw [tab]; rfl) (by omega)
  · exact short _ _ n rfl (by decide) (by rw [backspace]; rfl) (by omega)
  · exact short _ _ n rfl (by decide) (by rw [form]; rfl) (by omega)
  · have code : (Char.ofNat n).toNat = n := by
      exact charCode n (by omega)
    have noQuote : Char.ofNat n ≠ '"' := by
      intro same
      exact quote (by rw [← code, same]; rfl)
    have noBack : Char.ofNat n ≠ '\\' := by
      intro same
      exact back (by rw [← code, same]; rfl)
    have visible : ¬ n < 32 := by omega
    have fits : n < 0x10000 := by omega
    rw [List.singleton_append, scanUnits.eq_def]
    simp [noQuote, noBack, code, visible, unitsOf, fits]
  · unfold unitsOf
    split_ifs with basic
    · simpa [pushUnit] using scanUnits_escape basic later
    · have high : 0xD800 + (n - 0x10000) / 1024 < 0x10000 := by omega
      have low : 0xDC00 + (n - 0x10000) % 1024 < 0x10000 := by omega
      simp only [List.flatMap_cons, List.flatMap_nil, List.append_nil, List.append_assoc]
      rw [scanUnits_escape high, scanUnits_escape low]
      simp only [pushUnit, Option.map_map]
      rfl

theorem scanUnits_text {value : Text} (bound : ∀ n ∈ value, n < 0x110000) (later : List Char) :
    scanUnits (value.flatMap escaped ++ '"' :: later) = some (value.flatMap unitsOf, later) := by
  induction value with
  | nil => simp [scanUnits.eq_def]
  | cons n value ih =>
    rw [List.flatMap_cons, List.append_assoc, scanUnits_escaped (bound n (by simp)),
      ih (fun m mem => bound m (by simp [mem]))]
    rfl

theorem soundText_bound {value : Text} (sound : SoundText value) : ∀ n ∈ value, n < 0x110000 := by
  induction value with
  | nil => simp
  | cons n value ih =>
    obtain ⟨bound, later, _⟩ := soundText_cons sound
    intro m mem
    rcases List.mem_cons.mp mem with here | there
    · rw [here]
      exact bound
    · exact ih later m there

theorem unitsOf_head {value : Text} {u : Nat} (bound : ∀ n ∈ value, n < 0x110000)
    (first : u ∈ (value.flatMap unitsOf).head?) (low : isLow u) : ∃ m ∈ value.head?, isLow m := by
  cases value with
  | nil => simp at first
  | cons m value =>
    refine ⟨m, rfl, ?_⟩
    rw [List.flatMap_cons] at first
    unfold unitsOf at first
    by_cases basic : m < 0x10000
    · simp only [basic, if_true, List.singleton_append, List.head?_cons, Option.mem_def,
        Option.some.injEq] at first
      rw [first]
      exact low
    · simp only [basic, if_false, List.cons_append, List.head?_cons, Option.mem_def,
        Option.some.injEq] at first
      rw [← first] at low
      simp only [isLow, Bool.and_eq_true, decide_eq_true_eq] at low
      have small := bound m (by simp)
      omega

theorem joinSurrogates_cons {n : Nat} {units : List Nat}
    (apart : ∀ u ∈ units.head?, ¬ (isHigh n ∧ isLow u)) :
    joinSurrogates (n :: units) = n :: joinSurrogates units := by
  cases units with
  | nil => rfl
  | cons u units =>
    have other := apart u rfl
    rw [joinSurrogates]
    simp only [Bool.and_eq_true]
    rw [if_neg other]

theorem joinSurrogates_units {value : Text} (sound : SoundText value) :
    joinSurrogates (value.flatMap unitsOf) = value := by
  induction value with
  | nil => rfl
  | cons n value ih =>
    obtain ⟨bound, later, apart⟩ := soundText_cons sound
    rw [List.flatMap_cons]
    by_cases basic : n < 0x10000
    · have unit : unitsOf n = [n] := if_pos basic
      rw [unit, List.singleton_append, joinSurrogates_cons, ih later]
      rintro u first ⟨high, low⟩
      obtain ⟨m, here, isLow⟩ := unitsOf_head (soundText_bound later) first low
      exact apart m here ⟨high, isLow⟩
    · have pair : unitsOf n = [0xD800 + (n - 0x10000) / 1024, 0xDC00 + (n - 0x10000) % 1024] :=
        if_neg basic
      rw [pair, List.cons_append, List.singleton_append, joinSurrogates]
      have high : isHigh (0xD800 + (n - 0x10000) / 1024) := by
        simp only [isHigh, Bool.and_eq_true, decide_eq_true_eq]
        omega
      have low : isLow (0xDC00 + (n - 0x10000) % 1024) := by
        simp only [isLow, Bool.and_eq_true, decide_eq_true_eq]
        omega
      have value : 0x10000 + (0xD800 + (n - 0x10000) / 1024 - 0xD800) * 1024 +
          (0xDC00 + (n - 0x10000) % 1024 - 0xDC00) = n := by omega
      simp only [high, low, Bool.and_self, if_true, value]
      rw [ih later]

theorem scanString_text {value : Text} (sound : SoundText value) (later : List Char) :
    scanString (value.flatMap escaped ++ '"' :: later) = some (value, later) := by
  rw [scanString, scanUnits_text (soundText_bound sound)]
  simp [joinSurrogates_units sound]

/- Numbers: a text that the reader takes as one number before what may follow. -/

def NumberEnds (later : List Char) : Prop := ∀ c ∈ later.head?, c ∈ [',', ']', '\x7d']

section Numbers
variable {α : Type} [Field α] [LinearOrder α]

/-- repr of a float is ASCII text that reads back as the same float. -/
def Readable (repr : α → List Char) (x : α) : Prop :=
  Utf8.Ascii (repr x) ∧
    ∀ later, NumberEnds later → scanNumber (repr x ++ later) = some (.float (.finite x), later)

theorem scanNumber_shape {text : List Char} {r : Value α × List Char}
    (scanned : scanNumber text = some r) :
    ∃ d later, d.isDigit ∧ (text = d :: later ∨ text = '-' :: d :: later) := by
  obtain ⟨whole, found, _⟩ := Option.map_eq_some_iff.mp scanned
  have digit : ∀ {body : List Char}, integerPart body = some whole →
      ∃ d later, d.isDigit ∧ body = d :: later := by
    intro body found
    cases body with
    | nil => simp [integerPart] at found
    | cons c body =>
      refine ⟨c, body, ?_, rfl⟩
      by_cases zero : c = '0'
      · rw [zero]
        rfl
      · by_contra other
        simp [integerPart, zero, other] at found
  unfold scanMinus at found
  split at found
  · obtain ⟨d, later, isDigit, same⟩ := digit found
    exact ⟨d, later, isDigit, Or.inr (congrArg _ same)⟩
  · obtain ⟨d, later, isDigit, same⟩ := digit found
    exact ⟨d, later, isDigit, Or.inl same⟩

omit [Field α] [LinearOrder α] in
theorem scanKeyword_number {text : List Char}
    (shape : ∃ d later, d.isDigit ∧ (text = d :: later ∨ text = '-' :: d :: later)) :
    scanKeyword (α := α) text = none := by
  obtain ⟨d, later, digit, rfl | rfl⟩ := shape
  · have n : 'n' ≠ d := (digit_ne digit rfl).symm
    have t : 't' ≠ d := (digit_ne digit rfl).symm
    have f : 'f' ≠ d := (digit_ne digit rfl).symm
    have capitalN : 'N' ≠ d := (digit_ne digit rfl).symm
    have i : 'I' ≠ d := (digit_ne digit rfl).symm
    have minus : '-' ≠ d := (digit_ne digit rfl).symm
    simp [scanKeyword, keywords, List.isPrefixOf, n, t, f, capitalN, i, minus]
  · have i : 'I' ≠ d := (digit_ne digit rfl).symm
    simp [scanKeyword, keywords, List.isPrefixOf, i]

theorem scanValue_number {digits : Option Nat} (inner : Option (List Char → Scanned α))
    {text : List Char} {r : Value α × List Char} (scanned : scanNumber text = some r)
    (checked : checkDigits digits r = .ok r) : scanValue digits inner text = .ok r := by
  have shape := scanNumber_shape scanned
  have scalar : scanScalar digits text = .ok r := by
    rw [scanScalar, scanKeyword_number shape, scanned]
    exact checked
  obtain ⟨d, later, digit, rfl | rfl⟩ := shape
  · have quote : d ≠ '"' := digit_ne digit rfl
    have brace : d ≠ '\x7b' := digit_ne digit rfl
    have bracket : d ≠ '[' := digit_ne digit rfl
    simp only [scanValue, quote, brace, bracket, if_false]
    exact scalar
  · simp only [scanValue, Char.reduceEq, if_false]
    exact scalar

theorem numberEnds_digit {later : List Char} (ends : NumberEnds later) :
    ∀ c ∈ later.head?, c.isDigit = false ∧ c ≠ '.' ∧ c ∉ ['e', 'E'] := by
  have each : ∀ c ∈ [',', ']', '\x7d'], c.isDigit = false ∧ c ≠ '.' ∧ c ∉ ['e', 'E'] :=
    each_char (by decide)
  intro c first
  exact each c (ends c first)

theorem integerPart_natText (n : Nat) {later : List Char}
    (ends : ∀ c ∈ later.head?, c.isDigit = false) :
    integerPart (natText n ++ later) = some (natText n, later) := by
  obtain ⟨c, rest, same, digit⟩ := natText_starts n
  have digits : Digits rest := fun d mem => natText_digits n d (by simp [same, mem])
  obtain ⟨taken, dropped⟩ := takeWhile_digits digits ends
  by_cases zero : n = 0
  · have one : natText n = ['0'] := by rw [zero]; rfl
    rw [one]
    rfl
  · have head := natText_head (Nat.pos_of_ne_zero zero)
    rw [same, List.head?_cons, ne_eq, Option.some.injEq] at head
    rw [same, List.cons_append, integerPart, if_neg head, if_pos digit, taken, dropped]

theorem scanMinus_natText (n : Nat) (later : List Char) :
    scanMinus (natText n ++ later) = (false, natText n ++ later) := by
  obtain ⟨c, rest, same, digit⟩ := natText_starts n
  have minus : c ≠ '-' := digit_ne digit rfl
  rw [same, List.cons_append]
  unfold scanMinus
  split
  · rename_i eq
    exact absurd (List.cons.inj eq).1 minus
  · rfl

theorem scanNumber_tenths (w : Nat) {d : Nat} (digit : d < 10) {later : List Char}
    (ends : NumberEnds later) :
    scanNumber (natText w ++ '.' :: (natText d ++ later)) =
      some ((.float (ofLiteral 10 false ⟨10 * w + d, -1⟩) : Value α), later) := by
  have one : natText d = [Nat.digitChar d] := Nat.toDigits_of_lt_base digit
  have value : Nat.ofDigitChars 10 (natText w ++ [Nat.digitChar d]) 0 = 10 * w + d := by
    rw [Nat.ofDigitChars_append, natText_value, Nat.ofDigitChars_cons_digitChar_of_lt_ten digit,
      Nat.ofDigitChars_nil]
  have plainEnds : ∀ c ∈ later.head?, c.isDigit = false :=
    fun c first => (numberEnds_digit ends c first).1
  have digits := natText_digits d
  rw [one] at digits ⊢
  have point : ∀ c ∈ ('.' :: ([Nat.digitChar d] ++ later)).head?, c.isDigit = false := by simp
  obtain ⟨taken, dropped⟩ := takeWhile_digits digits plainEnds
  have fraction : optionalFraction ('.' :: ([Nat.digitChar d] ++ later)) =
      ([Nat.digitChar d], later) := by
    simp only [optionalFraction, scanFraction, taken, dropped]
    rfl
  have exponent : scanExponent ['e', 'E'] later = (0, later) :=
    scanExponent_free fun c first => (numberEnds_digit ends c first).2.2
  rw [scanNumber, scanMinus_natText, integerPart_natText w point]
  simp only [Option.map_some, fraction, exponent, value]
  rfl

theorem scanNumber_int (value : Int) {later : List Char} (ends : NumberEnds later) :
    scanNumber (intText value ++ later) = some ((.int value : Value α), later) := by
  have fraction : optionalFraction later = ([], later) := by
    unfold optionalFraction scanFraction
    split
    · rename_i digits
      exact absurd rfl (numberEnds_digit ends '.' rfl).2.1
    · simp
  have exponent : scanExponent ['e', 'E'] later = (0, later) :=
    scanExponent_free fun c first => (numberEnds_digit ends c first).2.2
  have plainEnds : ∀ c ∈ later.head?, c.isDigit = false :=
    fun c first => (numberEnds_digit ends c first).1
  rcases intText_cases value with ⟨text, positive⟩ | ⟨text, negative⟩
  · rw [text, scanNumber, scanMinus_natText, integerPart_natText _ plainEnds]
    simp [fraction, exponent, natText_value, positive]
  · have signed : scanMinus ('-' :: (natText value.natAbs ++ later)) =
        (true, natText value.natAbs ++ later) := rfl
    rw [text, List.cons_append, scanNumber, signed, integerPart_natText _ plainEnds]
    simp only [Option.map_some, fraction, exponent, natText_value, if_true, and_self]
    have size : -(value.natAbs : Int) = value := by omega
    rw [size]

end Numbers

/- Values. -/

section Values
variable {α : Type}

/- Values that json.loads can return. -/

section Sound
variable (digits : Option Nat)

mutual
/-- Strings and keys without paired surrogates, no key twice, and no integer
    longer than the interpreter reads. -/
def Sound : Value α → Prop
  | .int value => fitsDigits digits (natText value.natAbs)
  | .str value => SoundText value
  | .arr items => ItemsSound items
  | .obj members => (members.map Prod.fst).Nodup ∧ MembersSound members
  | _ => True

def ItemsSound : List (Value α) → Prop
  | [] => True
  | item :: later => Sound item ∧ ItemsSound later

def MembersSound : List (Text × Value α) → Prop
  | [] => True
  | (key, value) :: later => SoundText key ∧ Sound value ∧ MembersSound later
end

end Sound

mutual
def floats : Value α → List α
  | .float (.finite x) => [x]
  | .arr items => itemsFloats items
  | .obj members => membersFloats members
  | _ => []

def itemsFloats : List (Value α) → List α
  | [] => []
  | item :: later => floats item ++ itemsFloats later

def membersFloats : List (Text × Value α) → List α
  | [] => []
  | (_, value) :: later => floats value ++ membersFloats later
end

variable [Field α] [LinearOrder α] {repr : α → List Char} {digits : Option Nat}

def AllReadable (repr : α → List Char) (xs : List α) : Prop := ∀ x ∈ xs, Readable repr x

omit [Field α] [LinearOrder α] in
theorem skipSpace_blank (later : List Char) : skipSpace (' ' :: later) = skipSpace later := by
  simp [skipSpace]

omit [Field α] [LinearOrder α] in
theorem skipSpace_solid {c : Char} (later : List Char) (solid : c ∉ [' ', '\t', '\n', '\r']) :
    skipSpace (c :: later) = c :: later := by
  simp only [List.mem_cons, List.not_mem_nil, or_false, not_or] at solid
  simp [skipSpace, solid]

theorem text_starts (value : Value α) (readable : AllReadable repr (floats value)) :
    ∃ c later, text repr value = c :: later ∧ c ∉ [' ', '\t', '\n', '\r', ']'] := by
  have number : ∀ {body : List Char},
      (∃ d later, d.isDigit ∧ (body = d :: later ∨ body = '-' :: d :: later)) →
        ∃ c later, body = c :: later ∧ c ∉ [' ', '\t', '\n', '\r', ']'] := by
    rintro body ⟨d, later, digit, rfl | rfl⟩
    · refine ⟨d, later, rfl, ?_⟩
      intro mem
      simp only [List.mem_cons, List.not_mem_nil, or_false] at mem
      rcases mem with rfl | rfl | rfl | rfl | rfl
      all_goals exact absurd digit (by decide)
    · exact ⟨'-', d :: later, rfl, by decide⟩
  have ends : NumberEnds [] := by simp [NumberEnds]
  cases value with
  | null => exact ⟨'n', _, rfl, by decide⟩
  | bool value => cases value <;> exact ⟨_, _, rfl, by decide⟩
  | int value =>
    have scanned := scanNumber_int (α := α) value ends
    rw [List.append_nil] at scanned
    exact number (scanNumber_shape scanned)
  | float value =>
    cases value with
    | finite x =>
      have scanned := (readable x (by simp [floats])).2 [] ends
      rw [List.append_nil] at scanned
      exact number (scanNumber_shape scanned)
    | posInf => exact ⟨'I', _, rfl, by decide⟩
    | negInf => exact ⟨'-', _, rfl, by decide⟩
    | nan => exact ⟨'N', _, rfl, by decide⟩
  | str value => exact ⟨'"', _, rfl, by decide⟩
  | arr items => exact ⟨'[', _, rfl, by decide⟩
  | obj members => exact ⟨'\x7b', _, rfl, by decide⟩

omit [Field α] [LinearOrder α] in
theorem laterItemsText_cons (item : Value α) (later : List (Value α)) :
    laterItemsText repr (item :: later) = ',' :: ' ' :: itemsText repr (item :: later) := rfl

omit [Field α] [LinearOrder α] in
theorem laterMembersText_cons (member : Text × Value α) (later : List (Text × Value α)) :
    laterMembersText repr (member :: later) = ',' :: ' ' :: membersText repr (member :: later) := by
  obtain ⟨key, value⟩ := member
  rfl

omit [Field α] [LinearOrder α] in
theorem insertKey_new {key : Text} {members : List (Text × Value α)}
    (fresh : key ∉ members.map Prod.fst) (value : Value α) :
    insertKey key value members = members ++ [(key, value)] := by
  induction members with
  | nil => rfl
  | cons member members ih =>
    rw [List.map_cons, List.mem_cons, not_or] at fresh
    rw [insertKey, if_neg (Ne.symm fresh.1), ih fresh.2]
    rfl

/- One item or member, and what separates it from the next. -/

omit [Field α] [LinearOrder α] in
theorem laterItems_end (items : List (Value α)) (later : List Char) :
    NumberEnds (laterItemsText repr items ++ ']' :: later) := by
  cases items with
  | nil => simp [laterItemsText, NumberEnds]
  | cons item items => simp [laterItemsText_cons, NumberEnds]

omit [Field α] [LinearOrder α] in
theorem laterMembers_end (members : List (Text × Value α)) (later : List Char) :
    NumberEnds (laterMembersText repr members ++ '\x7d' :: later) := by
  cases members with
  | nil => simp [laterMembersText, NumberEnds]
  | cons member members => simp [laterMembersText_cons, NumberEnds]

omit [Field α] [LinearOrder α] in
theorem itemsText_length (repr : α → List Char) (items : List (Value α)) :
    items.length ≤ (itemsText repr items).length + 1 := by
  have later : ∀ items : List (Value α), items.length ≤ (laterItemsText repr items).length := by
    intro items
    induction items with
    | nil => simp
    | cons item items ih =>
      simp only [laterItemsText, List.length_cons, List.length_append]
      omega
  cases items with
  | nil => simp
  | cons item items =>
    have rest := later items
    simp only [itemsText, List.length_cons, List.length_append]
    omega

omit [Field α] [LinearOrder α] in
theorem membersText_length (repr : α → List Char) (members : List (Text × Value α)) :
    members.length ≤ (membersText repr members).length + 1 := by
  have later : ∀ members : List (Text × Value α),
      members.length ≤ (laterMembersText repr members).length := by
    intro members
    induction members with
    | nil => simp
    | cons member members ih =>
      simp only [laterMembersText, List.length_cons, List.length_append]
      omega
  cases members with
  | nil => simp
  | cons member members =>
    have rest := later members
    simp only [membersText, List.length_cons, List.length_append]
    omega

theorem itemsText_starts (item : Value α) (items : List (Value α))
    (readable : AllReadable repr (itemsFloats (item :: items))) :
    ∃ c later, itemsText repr (item :: items) = c :: later ∧
      c ∉ [' ', '\t', '\n', '\r', ']'] := by
  obtain ⟨c, rest, same, solid⟩ :=
    text_starts item fun x mem => readable x (by simp [itemsFloats, mem])
  exact ⟨c, _, by rw [itemsText, same]; rfl, solid⟩

theorem skipSpace_items (item : Value α) (items : List (Value α))
    (readable : AllReadable repr (itemsFloats (item :: items))) (later : List Char) :
    skipSpace (itemsText repr (item :: items) ++ later) = itemsText repr (item :: items) ++ later := by
  obtain ⟨c, rest, same, solid⟩ := itemsText_starts item items readable
  rw [same, List.cons_append]
  apply skipSpace_solid
  exact fun mem => solid (List.mem_append_left [']'] mem)

theorem scanArray_items (inner : List Char → Scanned α) (item : Value α) (items : List (Value α))
    (readable : AllReadable repr (itemsFloats (item :: items))) (later : List Char) :
    scanArray inner (itemsText repr (item :: items) ++ later) =
      scanItems inner ((itemsText repr (item :: items) ++ later).length + 1) []
        (itemsText repr (item :: items) ++ later) := by
  obtain ⟨c, rest, same, solid⟩ := itemsText_starts item items readable
  have open_ended : c ≠ ']' := fun bracket => solid (by simp [bracket])
  unfold scanArray
  rw [skipSpace_items item items readable, same, List.cons_append]
  split
  · rename_i eq
    exact absurd (List.cons.inj eq).1 open_ended
  · rfl

omit [Field α] [LinearOrder α] in
theorem scanObject_members (inner : List Char → Scanned α) (member : Text × Value α)
    (members : List (Text × Value α)) (later : List Char) :
    scanObject inner (membersText repr (member :: members) ++ later) =
      scanMembers inner ((membersText repr (member :: members) ++ later).length + 1) []
        (membersText repr (member :: members) ++ later) := by
  obtain ⟨key, value⟩ := member
  rfl

theorem scanItems_step {inner : List Char → Scanned α} {item : Value α} {items : List (Value α)}
    {later : List Char} (readable : AllReadable repr (itemsFloats items))
    (read : inner (text repr item ++ (laterItemsText repr items ++ ']' :: later)) =
      .ok (item, laterItemsText repr items ++ ']' :: later))
    (fuel : Nat) (front : List (Value α)) :
    scanItems inner (fuel + 1) front (itemsText repr (item :: items) ++ ']' :: later) =
      if items = [] then .ok (.arr (front ++ [item]), later)
      else scanItems inner fuel (front ++ [item]) (itemsText repr items ++ ']' :: later) := by
  rw [itemsText, List.append_assoc, scanItems, read]
  cases items with
  | nil => simp [laterItemsText, skipSpace]
  | cons next items =>
    have comma : skipSpace (laterItemsText repr (next :: items) ++ ']' :: later) =
        ',' :: ' ' :: (itemsText repr (next :: items) ++ ']' :: later) := by
      rw [laterItemsText_cons]
      exact skipSpace_solid _ (by decide)
    have space : skipSpace (' ' :: (itemsText repr (next :: items) ++ ']' :: later)) =
        itemsText repr (next :: items) ++ ']' :: later := by
      rw [skipSpace_blank, skipSpace_items next items readable]
    simp only [comma, space, reduceCtorEq, if_false]

theorem scanMember_opens {inner : List Char → Scanned α} {key : Text} {value : Value α}
    {later : List Char} (sound : SoundText key) (readable : AllReadable repr (floats value)) :
    scanMember inner (stringText key ++ ':' :: ' ' :: (text repr value ++ later)) =
      (inner (text repr value ++ later)).map fun r => ((key, r.1), r.2) := by
  obtain ⟨c, rest, same, solid⟩ := text_starts value readable
  have quoted : stringText key ++ ':' :: ' ' :: (text repr value ++ later) =
      '"' :: (key.flatMap escaped ++ '"' :: ':' :: ' ' :: (text repr value ++ later)) := by
    simp [stringText]
  have space : skipSpace (' ' :: (text repr value ++ later)) = text repr value ++ later := by
    rw [skipSpace_blank, same, List.cons_append]
    exact skipSpace_solid _ fun mem => solid (List.mem_append_left [']'] mem)
  have colon : skipSpace (':' :: ' ' :: (text repr value ++ later)) =
      ':' :: ' ' :: (text repr value ++ later) := skipSpace_solid _ (by decide)
  rw [quoted]
  simp only [scanMember, scanString_text sound, colon, space]

theorem scanMember_text {inner : List Char → Scanned α} {key : Text} {value : Value α}
    {later : List Char} (sound : SoundText key) (readable : AllReadable repr (floats value))
    (read : inner (text repr value ++ later) = .ok (value, later)) :
    scanMember inner (stringText key ++ ':' :: ' ' :: (text repr value ++ later)) =
      .ok ((key, value), later) := by
  rw [scanMember_opens sound readable, read]
  rfl

omit [Field α] [LinearOrder α] in
theorem membersText_first (key : Text) (value : Value α) (members : List (Text × Value α))
    (later : List Char) :
    membersText repr ((key, value) :: members) ++ '\x7d' :: later =
      stringText key ++ ':' :: ' ' ::
        (text repr value ++ (laterMembersText repr members ++ '\x7d' :: later)) := by
  simp [membersText]

omit [Field α] [LinearOrder α] in
theorem key_fresh {key : Text} {value : Value α} {front members : List (Text × Value α)}
    (distinct : ((front ++ (key, value) :: members).map Prod.fst).Nodup) :
    key ∉ front.map Prod.fst := by
  rw [List.map_append, List.nodup_append] at distinct
  intro mem
  exact distinct.2.2 key mem key (by simp) rfl

theorem parseValue_array (limit : Nat) (item : Value α) (items : List (Value α))
    (readable : AllReadable repr (itemsFloats (item :: items))) (later : List Char) :
    parseValue (α := α) digits (limit + 1) (text repr (.arr (item :: items)) ++ later) =
      scanItems (parseValue digits limit)
        ((itemsText repr (item :: items) ++ ']' :: later).length + 1) []
        (itemsText repr (item :: items) ++ ']' :: later) := by
  have opened : text repr (.arr (item :: items)) ++ later =
      '[' :: (itemsText repr (item :: items) ++ ']' :: later) := by
    simp [text]
  rw [opened, parseValue]
  simp only [scanValue, Char.reduceEq, if_false, if_true]
  exact scanArray_items _ item items readable (']' :: later)

theorem parseValue_object (limit : Nat) (member : Text × Value α)
    (members : List (Text × Value α)) (later : List Char) :
    parseValue (α := α) digits (limit + 1) (text repr (.obj (member :: members)) ++ later) =
      scanMembers (parseValue digits limit)
        ((membersText repr (member :: members) ++ '\x7d' :: later).length + 1) []
        (membersText repr (member :: members) ++ '\x7d' :: later) := by
  have opened : text repr (.obj (member :: members)) ++ later =
      '\x7b' :: (membersText repr (member :: members) ++ '\x7d' :: later) := by
    simp [text]
  rw [opened, parseValue]
  simp only [scanValue, Char.reduceEq, if_false, if_true]
  exact scanObject_members _ member members ('\x7d' :: later)

theorem scanMembers_step {inner : List Char → Scanned α} {key : Text} {value : Value α}
    {members : List (Text × Value α)} {later : List Char} (sound : SoundText key)
    (readable : AllReadable repr (floats value))
    (read : inner (text repr value ++ (laterMembersText repr members ++ '\x7d' :: later)) =
      .ok (value, laterMembersText repr members ++ '\x7d' :: later))
    (fuel : Nat) {front : List (Text × Value α)} (fresh : key ∉ front.map Prod.fst) :
    scanMembers inner (fuel + 1) front
        (membersText repr ((key, value) :: members) ++ '\x7d' :: later) =
      if members = [] then .ok (.obj (front ++ [(key, value)]), later)
      else scanMembers inner fuel (front ++ [(key, value)])
        (membersText repr members ++ '\x7d' :: later) := by
  rw [membersText_first, scanMembers, scanMember_text sound readable read]
  simp only [insertKey_new fresh]
  cases members with
  | nil => simp [laterMembersText, skipSpace]
  | cons next members =>
    have comma : skipSpace (laterMembersText repr (next :: members) ++ '\x7d' :: later) =
        ',' :: ' ' :: (membersText repr (next :: members) ++ '\x7d' :: later) := by
      rw [laterMembersText_cons]
      exact skipSpace_solid _ (by decide)
    have space : skipSpace (' ' :: (membersText repr (next :: members) ++ '\x7d' :: later)) =
        membersText repr (next :: members) ++ '\x7d' :: later := by
      obtain ⟨key, value⟩ := next
      rfl
    simp only [comma, space, reduceCtorEq, if_false]

mutual
theorem parseValue_text : ∀ (value : Value α) (limit : Nat) (later : List Char),
    Sound digits value → AllReadable repr (floats value) → depth value ≤ limit → NumberEnds later →
      parseValue digits limit (text repr value ++ later) = .ok (value, later)
  | .null, limit, later, _, _, _, _ => by cases limit <;> rfl
  | .bool true, limit, later, _, _, _, _ => by cases limit <;> rfl
  | .bool false, limit, later, _, _, _, _ => by cases limit <;> rfl
  | .float .posInf, limit, later, _, _, _, _ => by cases limit <;> rfl
  | .float .negInf, limit, later, _, _, _, _ => by cases limit <;> rfl
  | .float .nan, limit, later, _, _, _, _ => by cases limit <;> rfl
  | .float (.finite x), limit, later, _, readable, _, ends => by
    have scanned := (readable x (by simp [floats])).2 later ends
    cases limit with
    | zero => exact scanValue_number none scanned rfl
    | succ limit => exact scanValue_number _ scanned rfl
  | .int value, limit, later, sound, _, _, ends => by
    have scanned := scanNumber_int (α := α) value ends
    have checked : checkDigits digits ((.int value : Value α), later) = .ok (.int value, later) :=
      if_pos sound
    cases limit with
    | zero => exact scanValue_number none scanned checked
    | succ limit => exact scanValue_number _ scanned checked
  | .str value, limit, later, sound, _, _, _ => by
    have read := scanString_text sound later
    have opened : text repr (.str value) ++ later =
        '"' :: (value.flatMap escaped ++ '"' :: later) := by
      simp [text, stringText]
    rw [opened]
    cases limit with
    | zero => simp [parseValue, scanValue, read]
    | succ limit => simp [parseValue, scanValue, read]
  | .arr [], limit, later, _, _, shallow, _ => by
    cases limit with
    | zero => simp [depth] at shallow
    | succ limit => simp [parseValue, scanValue, text, itemsText, scanArray, skipSpace]
  | .arr (item :: items), limit, later, sound, readable, shallow, _ => by
    cases limit with
    | zero => simp [depth] at shallow
    | succ limit =>
      rw [depth] at shallow
      have length := itemsText_length repr (item :: items)
      have read := scanItems_text (item :: items) limit
        ((itemsText repr (item :: items) ++ ']' :: later).length + 1) [] later (by simp) sound
        readable (by omega) (by rw [List.length_append]; omega)
      rw [parseValue_array _ item items readable]
      exact read
  | .obj [], limit, later, _, _, shallow, _ => by
    cases limit with
    | zero => simp [depth] at shallow
    | succ limit => simp [parseValue, scanValue, text, membersText, scanObject, skipSpace]
  | .obj (member :: members), limit, later, sound, readable, shallow, _ => by
    cases limit with
    | zero => simp [depth] at shallow
    | succ limit =>
      rw [depth] at shallow
      have length := membersText_length repr (member :: members)
      have read := scanMembers_text (member :: members) limit
        ((membersText repr (member :: members) ++ '\x7d' :: later).length + 1) [] later (by simp)
        (by simpa using sound.1) sound.2 readable (by omega) (by rw [List.length_append]; omega)
      rw [parseValue_object]
      exact read

theorem scanItems_text : ∀ (items : List (Value α)) (limit fuel : Nat) (front : List (Value α))
    (later : List Char), items ≠ [] → ItemsSound digits items → AllReadable repr (itemsFloats items) →
      itemsDepth items ≤ limit → items.length ≤ fuel →
      scanItems (parseValue digits limit) fuel front (itemsText repr items ++ ']' :: later) =
        .ok (.arr (front ++ items), later)
  | [], _, _, _, _, filled, _, _, _, _ => absurd rfl filled
  | item :: items, limit, 0, front, later, _, _, _, _, fuelled => by simp at fuelled
  | item :: items, limit, fuel + 1, front, later, _, sound, readable, deep, fuelled => by
    rw [itemsDepth] at deep
    have behind : AllReadable repr (itemsFloats items) :=
      fun x mem => readable x (by simp [itemsFloats, mem])
    have first := parseValue_text item limit (laterItemsText repr items ++ ']' :: later) sound.1
      (fun x mem => readable x (by simp [itemsFloats, mem])) (by omega) (laterItems_end items later)
    rw [scanItems_step behind first]
    by_cases last : items = []
    · simp [last]
    · rw [if_neg last, scanItems_text items limit fuel (front ++ [item]) later last sound.2 behind
        (by omega) (by simpa using fuelled)]
      simp

theorem scanMembers_text : ∀ (members : List (Text × Value α)) (limit fuel : Nat)
    (front : List (Text × Value α)) (later : List Char), members ≠ [] →
      ((front ++ members).map Prod.fst).Nodup → MembersSound digits members →
      AllReadable repr (membersFloats members) → membersDepth members ≤ limit →
      members.length ≤ fuel →
      scanMembers (parseValue digits limit) fuel front (membersText repr members ++ '\x7d' :: later) =
        .ok (.obj (front ++ members), later)
  | [], _, _, _, _, filled, _, _, _, _, _ => absurd rfl filled
  | member :: members, limit, 0, front, later, _, _, _, _, _, fuelled => by simp at fuelled
  | (key, value) :: members, limit, fuel + 1, front, later, _, distinct, sound, readable, deep,
      fuelled => by
    rw [membersDepth] at deep
    have here : AllReadable repr (floats value) :=
      fun x mem => readable x (by simp [membersFloats, mem])
    have behind : AllReadable repr (membersFloats members) :=
      fun x mem => readable x (by simp [membersFloats, mem])
    have first := parseValue_text value limit (laterMembersText repr members ++ '\x7d' :: later)
      sound.2.1 here (by omega) (laterMembers_end members later)
    rw [scanMembers_step sound.1 here first fuel (key_fresh distinct)]
    by_cases last : members = []
    · simp [last]
    · rw [if_neg last, scanMembers_text members limit fuel (front ++ [(key, value)]) later last
        (by simpa using distinct) sound.2.2 behind (by omega) (by simpa using fuelled)]
      simp
end

/- Values nested deeper than the reader allows. -/

omit [Field α] [LinearOrder α] in
theorem scanItems_refused {inner : List Char → Scanned α} {item : Value α} {items : List (Value α)}
    {later : List Char} {refusal : Refusal}
    (refused : inner (text repr item ++ (laterItemsText repr items ++ ']' :: later)) =
      .error refusal)
    (fuel : Nat) (front : List (Value α)) :
    scanItems inner (fuel + 1) front (itemsText repr (item :: items) ++ ']' :: later) =
      .error refusal := by
  rw [itemsText, List.append_assoc, scanItems, refused]

theorem scanMember_refused {inner : List Char → Scanned α} {key : Text} {value : Value α}
    {later : List Char} {refusal : Refusal} (sound : SoundText key)
    (readable : AllReadable repr (floats value))
    (refused : inner (text repr value ++ later) = .error refusal) :
    scanMember inner (stringText key ++ ':' :: ' ' :: (text repr value ++ later)) =
      .error refusal := by
  rw [scanMember_opens sound readable, refused]
  rfl

theorem scanMembers_refused {inner : List Char → Scanned α} {key : Text} {value : Value α}
    {members : List (Text × Value α)} {later : List Char} {refusal : Refusal}
    (sound : SoundText key) (readable : AllReadable repr (floats value))
    (refused : inner (text repr value ++ (laterMembersText repr members ++ '\x7d' :: later)) =
      .error refusal)
    (fuel : Nat) (front : List (Text × Value α)) :
    scanMembers inner (fuel + 1) front
        (membersText repr ((key, value) :: members) ++ '\x7d' :: later) = .error refusal := by
  rw [membersText_first, scanMembers, scanMember_refused sound readable refused]

mutual
theorem parseValue_deep : ∀ (value : Value α) (limit : Nat) (later : List Char),
    Sound digits value → AllReadable repr (floats value) → limit < depth value →
      parseValue (α := α) digits limit (text repr value ++ later) = .error .tooDeep
  | .null, _, _, _, _, deep => by simp [depth] at deep
  | .bool _, _, _, _, _, deep => by simp [depth] at deep
  | .int _, _, _, _, _, deep => by simp [depth] at deep
  | .float _, _, _, _, _, deep => by simp [depth] at deep
  | .str _, _, _, _, _, deep => by simp [depth] at deep
  | .arr items, 0, later, _, _, _ => by simp [parseValue, scanValue, text]
  | .obj members, 0, later, _, _, _ => by simp [parseValue, scanValue, text]
  | .arr [], limit + 1, _, _, _, deep => by
    rw [depth, itemsDepth] at deep
    omega
  | .obj [], limit + 1, _, _, _, deep => by
    rw [depth, membersDepth] at deep
    omega
  | .arr (item :: items), limit + 1, later, sound, readable, deep => by
    rw [depth] at deep
    have length := itemsText_length repr (item :: items)
    have refused := scanItems_deep (item :: items) limit
      ((itemsText repr (item :: items) ++ ']' :: later).length + 1) [] later sound
      readable (by omega) (by rw [List.length_append]; omega)
    rw [parseValue_array _ item items readable]
    exact refused
  | .obj (member :: members), limit + 1, later, sound, readable, deep => by
    rw [depth] at deep
    have length := membersText_length repr (member :: members)
    have refused := scanMembers_deep (member :: members) limit
      ((membersText repr (member :: members) ++ '\x7d' :: later).length + 1) [] later
      (by simpa using sound.1) sound.2 readable (by omega) (by rw [List.length_append]; omega)
    rw [parseValue_object]
    exact refused

theorem scanItems_deep : ∀ (items : List (Value α)) (limit fuel : Nat) (front : List (Value α))
    (later : List Char), ItemsSound digits items → AllReadable repr (itemsFloats items) →
      limit < itemsDepth items → items.length ≤ fuel →
      scanItems (parseValue digits limit) fuel front (itemsText repr items ++ ']' :: later) =
        .error .tooDeep
  | [], _, _, _, _, _, _, deep, _ => by simp [itemsDepth] at deep
  | item :: items, limit, 0, front, later, _, _, _, fuelled => by simp at fuelled
  | item :: items, limit, fuel + 1, front, later, sound, readable, deep, fuelled => by
    rw [itemsDepth] at deep
    have here : AllReadable repr (floats item) :=
      fun x mem => readable x (by simp [itemsFloats, mem])
    have behind : AllReadable repr (itemsFloats items) :=
      fun x mem => readable x (by simp [itemsFloats, mem])
    by_cases first : limit < depth item
    · exact scanItems_refused (parseValue_deep item limit _ sound.1 here first) fuel front
    · have read := parseValue_text item limit (laterItemsText repr items ++ ']' :: later) sound.1
        here (by omega) (laterItems_end items later)
      have filled : items ≠ [] := by
        intro none
        simp only [none, itemsDepth] at deep
        omega
      rw [scanItems_step behind read, if_neg filled]
      exact scanItems_deep items limit fuel (front ++ [item]) later sound.2 behind (by omega)
        (by simpa using fuelled)

theorem scanMembers_deep : ∀ (members : List (Text × Value α)) (limit fuel : Nat)
    (front : List (Text × Value α)) (later : List Char),
      ((front ++ members).map Prod.fst).Nodup → MembersSound digits members →
      AllReadable repr (membersFloats members) → limit < membersDepth members →
      members.length ≤ fuel →
      scanMembers (parseValue digits limit) fuel front
        (membersText repr members ++ '\x7d' :: later) = .error .tooDeep
  | [], _, _, _, _, _, _, _, deep, _ => by simp [membersDepth] at deep
  | member :: members, limit, 0, front, later, _, _, _, _, fuelled => by simp at fuelled
  | (key, value) :: members, limit, fuel + 1, front, later, distinct, sound, readable, deep,
      fuelled => by
    rw [membersDepth] at deep
    have here : AllReadable repr (floats value) :=
      fun x mem => readable x (by simp [membersFloats, mem])
    have behind : AllReadable repr (membersFloats members) :=
      fun x mem => readable x (by simp [membersFloats, mem])
    by_cases first : limit < depth value
    · exact scanMembers_refused sound.1 here (parseValue_deep value limit _ sound.2.1 here first)
        fuel front
    · have read := parseValue_text value limit (laterMembersText repr members ++ '\x7d' :: later)
        sound.2.1 here (by omega) (laterMembers_end members later)
      have filled : members ≠ [] := by
        intro none
        simp only [none, membersDepth] at deep
        omega
      rw [scanMembers_step sound.1 here read fuel (key_fresh distinct), if_neg filled]
      exact scanMembers_deep members limit fuel (front ++ [(key, value)]) later
        (by simpa using distinct) sound.2.2 behind (by omega) (by simpa using fuelled)
end

/-- The reader's limit on nesting is all that can keep a written value from it. -/
theorem loads_text {value : Value α} {limits : Limits} (sound : Sound limits.digits value)
    (readable : AllReadable repr (floats value)) :
    loads limits (text repr value) =
      if depth value ≤ limits.nesting then .ok value else .error .tooDeep := by
  obtain ⟨c, rest, same, solid⟩ := text_starts value readable
  have open_text : skipSpace (text repr value) = text repr value := by
    rw [same]
    exact skipSpace_solid rest fun mem => solid (List.mem_append_left [']'] mem)
  rw [loads, open_text]
  by_cases shallow : depth value ≤ limits.nesting
  · have read := parseValue_text value limits.nesting [] sound readable shallow (by simp [NumberEnds])
    rw [List.append_nil] at read
    rw [if_pos shallow, read]
    simp [skipSpace]
  · have refused := parseValue_deep value limits.nesting [] sound readable (Nat.lt_of_not_le shallow)
    rw [List.append_nil] at refused
    rw [if_neg shallow, refused]

end Values

end SoqTracker.Json
