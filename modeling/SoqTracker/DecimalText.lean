import SoqTracker.Decimal
import SoqTracker.Utf8

/- Decimal texts read back: digits, integers and decimal fractions through
   Python's float and int and through C's atof. -/
namespace SoqTracker.Decimal
open ExtendedNumber

def Digits (text : List Char) : Prop := ∀ c ∈ text, c.isDigit

theorem each_char {p : Char → Prop} [DecidablePred p] {text : List Char}
    (all : text.all fun c => p c) : ∀ c ∈ text, p c := by
  intro c mem
  exact of_decide_eq_true (List.all_eq_true.mp all c mem)

theorem digit_range {c : Char} (digit : c.isDigit) : 48 ≤ c.toNat ∧ c.toNat ≤ 57 :=
  Char.isDigit_iff_toNat.mp digit

theorem digit_ne {c d : Char} (digit : c.isDigit) (other : d.isDigit = false) : c ≠ d := by
  rintro rfl
  simp [digit] at other

theorem natText_digits (n : Nat) : Digits (natText n) := by
  intro c mem
  exact Nat.isDigit_of_mem_toDigits (by decide) (by decide) mem

theorem natText_filled (n : Nat) : natText n ≠ [] := Nat.toDigits_ne_nil

theorem natText_value (n : Nat) : Nat.ofDigitChars 10 (natText n) 0 = n :=
  Nat.ofDigitChars_ten_toDigits

theorem digitChar_head : ∀ d < 10, 0 < d → [Nat.digitChar d].head? ≠ some '0' := by decide

theorem natText_head {n : Nat} (positive : 0 < n) : (natText n).head? ≠ some '0' := by
  induction n using Nat.strong_induction_on with
  | _ n ih =>
    unfold natText at ih ⊢
    by_cases small : n < 10
    · rw [Nat.toDigits_of_lt_base small]
      exact digitChar_head n small positive
    · rw [Nat.toDigits_of_base_le (by decide) (Nat.le_of_not_lt small),
        List.head?_append_of_ne_nil _ Nat.toDigits_ne_nil]
      exact ih (n / 10) (by omega) (by omega)

theorem takeWhile_digits {text : List Char} (digits : Digits text) {later : List Char}
    (ends : ∀ c ∈ later.head?, c.isDigit = false) :
    (text ++ later).takeWhile Char.isDigit = text ∧
      (text ++ later).dropWhile Char.isDigit = later := by
  rw [List.takeWhile_append_of_pos digits, List.dropWhile_append_of_pos digits]
  cases later with
  | nil => simp
  | cons c later =>
    have stop := ends c rfl
    simp [stop]

/- Python's readers on plain text. -/

def Plain (c : Char) : Prop := c.toNat < 127 ∧ isSpace c = false ∧ c ≠ '_'

theorem digit_plain {c : Char} (digit : c.isDigit) : Plain c := by
  obtain ⟨low, high⟩ := digit_range digit
  refine ⟨by omega, ?_, digit_ne digit rfl⟩
  have blank : c ≠ ' ' := digit_ne digit rfl
  simp only [isSpace, isAsciiSpace, blank, decide_false, Bool.false_or, Bool.or_eq_false_iff,
    Bool.and_eq_false_iff, decide_eq_false_iff_not, List.mem_cons, List.not_mem_nil, or_false]
  omega

theorem stripBy_free {space : Char → Bool} {text : List Char}
    (free : ∀ c ∈ text, space c = false) : stripBy space text = text := by
  have keep : ∀ line : List Char, (∀ c ∈ line, space c = false) → line.dropWhile space = line := by
    intro line solid
    cases line with
    | nil => rfl
    | cons c line => simp [solid c (by simp)]
  rw [stripBy, keep text free, keep text.reverse (by simpa using free), List.reverse_reverse]

theorem withoutUnderscores_free {text : List Char} (free : '_' ∉ text) (afterDigit : Bool) :
    withoutUnderscores afterDigit text = some text := by
  induction text generalizing afterDigit with
  | nil => simp [withoutUnderscores]
  | cons c text ih =>
    simp only [List.mem_cons, not_or] at free
    rw [withoutUnderscores.eq_def]
    have other : c ≠ '_' := Ne.symm free.1
    have later := ih free.2 c.isDigit
    split
    · rename_i eq
      simp at eq
    · rename_i eq
      simp only [List.cons.injEq] at eq
      exact absurd eq.1 other
    · rename_i eq
      simp only [List.cons.injEq] at eq
      exact absurd eq.1 other
    · rename_i eq
      simp only [List.cons.injEq] at eq
      rw [← eq.1, ← eq.2, later]
      rfl

theorem numberText_plain {text : List Char} (plain : ∀ c ∈ text, Plain c) :
    numberText text = some text := by
  have same : text.map normalized = text := by
    conv_rhs => rw [← List.map_id text]
    apply List.map_congr_left
    intro c mem
    simp [normalized, (plain c mem).1]
  have solid : ∀ c ∈ text, isAsciiSpace c = false := by
    intro c mem
    have space := (plain c mem).2.1
    simp only [isSpace, Bool.or_eq_false_iff] at space
    exact space.1.1.1
  rw [numberText, same, stripBy_free solid]
  exact withoutUnderscores_free (fun mem => (plain '_' mem).2.2 rfl) false

/- Scanning. -/

theorem scanSign_digit {c : Char} (text : List Char) (digit : c.isDigit) :
    scanSign (c :: text) = (false, c :: text) := by
  have minus : c ≠ '-' := digit_ne digit rfl
  have plus : c ≠ '+' := digit_ne digit rfl
  unfold scanSign
  split
  · rename_i eq
    exact absurd (List.cons.inj eq).1 minus
  · rename_i eq
    exact absurd (List.cons.inj eq).1 plus
  · rfl

theorem scanExponent_free {letters text : List Char} (free : ∀ c ∈ text.head?, c ∉ letters) :
    scanExponent letters text = (0, text) := by
  cases text with
  | nil => rfl
  | cons c text => simp [scanExponent, free c rfl]

theorem scanLiteral_digits {text : List Char} (digits : Digits text) (filled : text ≠ []) :
    scanLiteral text = some (⟨Nat.ofDigitChars 10 text 0, 0⟩, []) := by
  have ends : ∀ c ∈ ([] : List Char).head?, c.isDigit = false := by simp
  obtain ⟨taken, dropped⟩ := takeWhile_digits digits ends
  rw [List.append_nil] at taken dropped
  simp [scanLiteral, taken, dropped, scanFraction, scanExponent, filled]

theorem scanLiteral_decimal {whole fraction : List Char} (digits : Digits whole)
    (digits' : Digits fraction) (filled : whole ≠ []) :
    scanLiteral (whole ++ '.' :: fraction) =
      some (⟨Nat.ofDigitChars 10 (whole ++ fraction) 0, -fraction.length⟩, []) := by
  have point : ∀ c ∈ ('.' :: fraction).head?, c.isDigit = false := by simp
  have ends : ∀ c ∈ ([] : List Char).head?, c.isDigit = false := by simp
  obtain ⟨taken, dropped⟩ := takeWhile_digits digits point
  obtain ⟨taken', dropped'⟩ := takeWhile_digits digits' ends
  rw [List.append_nil] at taken' dropped'
  simp [scanLiteral, taken, dropped, taken', dropped', scanFraction, scanExponent, filled]

theorem toLower_digit {c : Char} (digit : c.isDigit) : c.toLower = c := by
  obtain ⟨_, high⟩ := digit_range digit
  have upper : ¬ ('A'.val ≤ c.val ∧ c.val ≤ 'Z'.val) := by
    rintro ⟨low, _⟩
    have code : 65 ≤ c.toNat := UInt32.le_iff_toNat_le.mp low
    omega
  unfold Char.toLower
  exact dif_neg upper

theorem pyFloat_literal {α : Type} [Field α] [LinearOrder α] {text : List Char} {literal : Literal}
    (plain : ∀ c ∈ text, Plain c) (starts : ∃ c ∈ text.head?, c.isDigit)
    (scanned : scanLiteral text = some (literal, [])) :
    pyFloat text = some (ofLiteral 10 false literal : Number α) := by
  obtain ⟨c, first, digit⟩ := starts
  obtain ⟨later, same⟩ := List.head?_eq_some_iff.mp first
  subst same
  have i : c ≠ 'i' := digit_ne digit rfl
  have n : c ≠ 'n' := digit_ne digit rfl
  simp [pyFloat, numberText_plain plain, scanSign_digit later digit, toLower_digit digit, i, n,
    scanned]

theorem pyFloat_decimal {α : Type} [Field α] [LinearOrder α] {whole fraction : List Char}
    (digits : Digits whole) (digits' : Digits fraction) (filled : whole ≠ []) :
    pyFloat (whole ++ '.' :: fraction) =
      some (ofLiteral 10 false
        ⟨Nat.ofDigitChars 10 (whole ++ fraction) 0, -fraction.length⟩ : Number α) := by
  apply pyFloat_literal
  · intro c mem
    rcases List.mem_append.mp mem with left | right
    · exact digit_plain (digits c left)
    · rcases List.mem_cons.mp right with point | tail
      · rw [point]
        exact ⟨by decide, by decide, by decide⟩
      · exact digit_plain (digits' c tail)
  · obtain ⟨c, later, same⟩ := List.exists_cons_of_ne_nil filled
    exact ⟨c, by simp [same], digits c (by simp [same])⟩
  · exact scanLiteral_decimal digits digits' filled

theorem pyInt_digits {most : Option Nat} {text : List Char} (digits : Digits text)
    (filled : text ≠ []) (fits : fitsDigits most text) :
    pyInt most text = some (Nat.ofDigitChars 10 text 0 : Int) := by
  have plain : ∀ c ∈ text, Plain c := fun c mem => digit_plain (digits c mem)
  obtain ⟨c, later, same⟩ := List.exists_cons_of_ne_nil filled
  subst same
  have all : (c :: later).all Char.isDigit = true := List.all_eq_true.mpr digits
  rw [pyInt, numberText_plain plain]
  simp only [Option.bind_some, scanSign_digit later (digits c (by simp)), all, fits, ne_eq,
    filled, not_false_eq_true, and_self, if_true]
  rfl

theorem pyInt_long {most : Option Nat} {text : List Char} (digits : Digits text)
    (filled : text ≠ []) (long : ¬ fitsDigits most text) : pyInt most text = none := by
  have plain : ∀ c ∈ text, Plain c := fun c mem => digit_plain (digits c mem)
  obtain ⟨c, later, same⟩ := List.exists_cons_of_ne_nil filled
  subst same
  rw [pyInt, numberText_plain plain]
  simp only [Option.bind_some, scanSign_digit later (digits c (by simp)), long]
  simp

/- C's atof on an integer. -/

theorem intText_cases (n : Int) :
    intText n = natText n.natAbs ∧ 0 ≤ n ∨ intText n = '-' :: natText n.natAbs ∧ n < 0 := by
  unfold intText
  by_cases negative : n < 0
  · exact Or.inr ⟨if_pos negative, negative⟩
  · exact Or.inl ⟨if_neg negative, Int.not_lt.mp negative⟩

theorem intText_chars {n : Int} {c : Char} (mem : c ∈ intText n) : c = '-' ∨ c.isDigit := by
  rcases intText_cases n with ⟨text, _⟩ | ⟨text, _⟩
  · rw [text] at mem
    exact Or.inr (natText_digits _ c mem)
  · rw [text] at mem
    rcases List.mem_cons.mp mem with sign | digit
    · exact Or.inl sign
    · exact Or.inr (natText_digits _ c digit)

theorem intText_ascii (n : Int) : Utf8.Ascii (intText n) := by
  intro c mem
  rcases intText_chars mem with rfl | digit
  · decide
  · have range := digit_range digit
    omega

theorem natText_starts (n : Nat) : ∃ c later, natText n = c :: later ∧ c.isDigit := by
  obtain ⟨c, later, same⟩ := List.exists_cons_of_ne_nil (natText_filled n)
  exact ⟨c, later, same, natText_digits n c (by simp [same])⟩

theorem scanSign_int (n : Int) :
    scanSign ((intText n).dropWhile isAsciiSpace) = (decide (n < 0), natText n.natAbs) := by
  obtain ⟨c, later, same, digit⟩ := natText_starts n.natAbs
  have solid : isAsciiSpace c = false := by
    have plain := (digit_plain digit).2.1
    simp only [isSpace, Bool.or_eq_false_iff] at plain
    exact plain.1.1.1
  have dash : isAsciiSpace '-' = false := by decide
  rcases intText_cases n with ⟨text, positive⟩ | ⟨text, negative⟩
  · rw [text, same, List.dropWhile_cons, solid]
    simp only [Bool.false_eq_true, if_false]
    rw [scanSign_digit later digit, decide_eq_false (Int.not_lt.mpr positive)]
  · rw [text, List.dropWhile_cons, dash]
    simp [scanSign, negative]

theorem hexBody_digits {text : List Char} (digits : Digits text) : hexBody text = none := by
  unfold hexBody
  split
  · rename_i x later
    have digit := digits x (by simp)
    have small : x ≠ 'x' := digit_ne digit rfl
    have large : x ≠ 'X' := digit_ne digit rfl
    simp [small, large]
  · rfl

theorem atofText_int {α : Type} [Field α] [LinearOrder α] (n : Int) :
    atofText (intText n) = (Number.ofExact (n : α)) := by
  obtain ⟨c, later, same, digit⟩ := natText_starts n.natAbs
  have i : c ≠ 'i' := digit_ne digit rfl
  have m : c ≠ 'n' := digit_ne digit rfl
  have infinite : beginsWith ['i', 'n', 'f'] (natText n.natAbs) = false := by
    simp [beginsWith, same, toLower_digit digit, i]
  have nan : beginsWith ['n', 'a', 'n'] (natText n.natAbs) = false := by
    simp [beginsWith, same, toLower_digit digit, m]
  simp only [atofText, scanSign_int, infinite, nan, hexBody_digits (natText_digits n.natAbs),
    Option.bind_none, scanLiteral_digits (natText_digits n.natAbs) (natText_filled n.natAbs),
    natText_value, Bool.false_eq_true, if_false, ofLiteral]
  congr 1
  have whole : Literal.value 10 ⟨n.natAbs, 0⟩ = (n.natAbs : α) := by simp [Literal.value]
  rw [whole]
  by_cases negative : n < 0
  · have size : (n.natAbs : Int) = -n := by omega
    have cast : ((n.natAbs : Int) : α) = ((-n : Int) : α) := by rw [size]
    push_cast at cast
    simp [negative, cast]
  · have size : (n.natAbs : Int) = n := by omega
    have cast : ((n.natAbs : Int) : α) = (n : α) := by rw [size]
    push_cast at cast
    simp [negative, cast]

end SoqTracker.Decimal
