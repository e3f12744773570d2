import SoqTracker.Json

/- Every scanner of the JSON reader leaves less text than it was given, so the
   bounds on its loops are never reached. A text that opens with a brace can only
   be read as an object. -/
namespace SoqTracker.Json
open ExtendedNumber Decimal

theorem skipSpace_length (text : List Char) : (skipSpace text).length ≤ text.length :=
  (List.dropWhile_suffix _).length_le

theorem scanFraction_length (isDigit : Char → Bool) (text : List Char) :
    (scanFraction isDigit text).2.length ≤ text.length := by
  unfold scanFraction
  split
  · rename_i digits
    have fewer := (List.dropWhile_suffix isDigit (l := digits)).length_le
    simp only [List.length_cons]
    omega
  · exact le_refl _

theorem optionalFraction_length (text : List Char) :
    (optionalFraction text).2.length ≤ text.length := by
  unfold optionalFraction
  simp only
  split
  · exact le_refl _
  · exact scanFraction_length Char.isDigit text

theorem scanSign_length (text : List Char) : (scanSign text).2.length ≤ text.length := by
  unfold scanSign
  split
  · simp
  · simp
  · exact le_refl _

theorem scanExponent_length (letters text : List Char) :
    (scanExponent letters text).2.length ≤ text.length := by
  cases text with
  | nil => simp [scanExponent]
  | cons c text =>
    unfold scanExponent
    by_cases marked : c ∈ letters
    · simp only [marked, if_true]
      split
      · exact le_refl _
      · have signed := scanSign_length text
        have digits := (List.dropWhile_suffix Char.isDigit (l := (scanSign text).2)).length_le
        simp only [List.length_cons]
        omega
    · simp [marked]

theorem scanMinus_length (text : List Char) : (scanMinus text).2.length ≤ text.length := by
  unfold scanMinus
  split
  · simp
  · exact le_refl _

theorem integerPart_length {text : List Char} {r : List Char × List Char}
    (found : integerPart text = some r) : r.2.length < text.length := by
  cases text with
  | nil => simp [integerPart] at found
  | cons c text =>
    simp only [integerPart] at found
    split at found
    · rw [← Option.some.inj found]
      simp
    · split at found
      · rw [← Option.some.inj found]
        have fewer := (List.dropWhile_suffix Char.isDigit (l := text)).length_le
        simp only [List.length_cons]
        omega
      · simp at found

theorem scanUnits_after {n : Nat} {text : List Char} {r : List Nat × List Char}
    (fewer : ∀ {r : List Nat × List Char}, scanUnits text = some r → r.2.length < text.length)
    (found : (scanUnits text).map (fun r => (n :: r.1, r.2)) = some r) :
    r.2.length < text.length := by
  obtain ⟨inner, read, same⟩ := Option.map_eq_some_iff.mp found
  have less := fewer read
  rw [← same]
  exact less

theorem scanUnits_length {text : List Char} {r : List Nat × List Char}
    (found : scanUnits text = some r) : r.2.length < text.length := by
  fun_induction scanUnits text generalizing r with
  | case1 => simp at found
  | case2 text =>
    rw [← Option.some.inj found]
    simp
  | case3 => simp at found
  | case4 a b c d text n quad _ ih =>
    have less := scanUnits_after ih found
    simp only [List.length_cons]
    omega
  | case5 => simp at found
  | case6 => simp at found
  | case7 e text _ n _ _ ih =>
    have less := scanUnits_after ih found
    simp only [List.length_cons]
    omega
  | case8 => simp at found
  | case9 => simp at found
  | case10 c text _ _ _ ih =>
    have less := scanUnits_after ih found
    simp only [List.length_cons]
    omega

theorem scanString_length {text : List Char} {r : Text × List Char}
    (found : scanString text = some r) : r.2.length < text.length := by
  obtain ⟨units, read, same⟩ := Option.map_eq_some_iff.mp found
  have less := scanUnits_length read
  rw [← same]
  exact less

section Reading
variable {α : Type}

theorem scanKeyword_length {text : List Char} {r : Value α × List Char}
    (found : scanKeyword text = some r) : r.2.length < text.length := by
  obtain ⟨word, read, same⟩ := Option.map_eq_some_iff.mp found
  have nonempty : ∀ word ∈ (keywords : List (List Char × Value α)), 0 < word.1.length := by
    simp [keywords]
  have long := nonempty word (List.mem_of_find?_eq_some read)
  have front : word.1 <+: text := by
    have matched := List.find?_some read
    exact List.isPrefixOf_iff_prefix.mp matched
  have fits := front.length_le
  rw [← same, List.length_drop]
  omega

def Shortens (read : List Char → Scanned α) : Prop :=
  ∀ text, read text ≠ .error .outOfFuel ∧
    ∀ r, read text = .ok r → r.2.length < text.length

theorem scanItems_shortens {inner : List Char → Scanned α} (shortens : Shortens inner) {fuel : Nat}
    (items : List (Value α)) {text : List Char} (enough : text.length < fuel) :
    scanItems inner fuel items text ≠ .error .outOfFuel ∧
      ∀ r, scanItems inner fuel items text = .ok r → r.2.length < text.length := by
  induction fuel generalizing items text with
  | zero => omega
  | succ fuel ih =>
    unfold scanItems
    cases first : inner text with
    | error refusal =>
      have never := (shortens text).1
      rw [first] at never
      simpa using never
    | ok found =>
      obtain ⟨item, later⟩ := found
      have less := (shortens text).2 _ first
      have space := skipSpace_length later
      simp only at less ⊢
      split
      · rename_i after closing
        rw [closing, List.length_cons] at space
        refine ⟨by simp, ?_⟩
        intro r same
        rw [← Except.ok.inj same]
        simp only
        omega
      · rename_i after comma
        rw [comma, List.length_cons] at space
        have space' := skipSpace_length after
        obtain ⟨never, shorter⟩ := @ih (items ++ [item]) (skipSpace after) (by omega)
        refine ⟨never, ?_⟩
        intro r same
        have less' := shorter r same
        omega
      · simp

theorem scanMember_shortens {inner : List Char → Scanned α} (shortens : Shortens inner)
    (text : List Char) : scanMember inner text ≠ .error .outOfFuel ∧
      ∀ r, scanMember inner text = .ok r → r.2.length < text.length := by
  unfold scanMember
  split
  · rename_i body
    cases name : scanString body with
    | none => simp
    | some found =>
      obtain ⟨key, later⟩ := found
      have quoted := scanString_length name
      have space := skipSpace_length later
      simp only at quoted ⊢
      split
      · rename_i after colon
        rw [colon, List.length_cons] at space
        have space' := skipSpace_length after
        obtain ⟨never, shorter⟩ := shortens (skipSpace after)
        cases value : inner (skipSpace after) with
        | error refusal =>
          rw [value] at never
          simpa [Except.map] using never
        | ok r =>
          refine ⟨by simp [Except.map], ?_⟩
          intro r' same
          have less := shorter r value
          rw [← Except.ok.inj same]
          simp only [List.length_cons]
          omega
      · simp
  · simp

theorem scanMembers_shortens {inner : List Char → Scanned α} (shortens : Shortens inner)
    {fuel : Nat} (members : List (Text × Value α)) {text : List Char}
    (enough : text.length < fuel) :
    scanMembers inner fuel members text ≠ .error .outOfFuel ∧
      ∀ r, scanMembers inner fuel members text = .ok r →
        r.2.length < text.length ∧ ∃ read, r.1 = .obj read := by
  induction fuel generalizing members text with
  | zero => omega
  | succ fuel ih =>
    unfold scanMembers
    obtain ⟨never, shorter⟩ := scanMember_shortens shortens text
    cases first : scanMember inner text with
    | error refusal =>
      rw [first] at never
      simpa using never
    | ok found =>
      obtain ⟨member, later⟩ := found
      have less := shorter _ first
      have space := skipSpace_length later
      simp only at less ⊢
      split
      · rename_i after closing
        rw [closing, List.length_cons] at space
        refine ⟨by simp, ?_⟩
        intro r same
        rw [← Except.ok.inj same]
        refine ⟨?_, _, rfl⟩
        simp only
        omega
      · rename_i after comma
        rw [comma, List.length_cons] at space
        have space' := skipSpace_length after
        obtain ⟨never', shorter'⟩ := @ih (insertKey member.1 member.2 members)
          (skipSpace after) (by omega)
        refine ⟨never', ?_⟩
        intro r same
        obtain ⟨less', object⟩ := shorter' r same
        exact ⟨by omega, object⟩
      · simp

theorem scanArray_shortens {inner : List Char → Scanned α} (shortens : Shortens inner) :
    Shortens (scanArray inner) := by
  intro text
  have space := skipSpace_length text
  unfold scanArray
  split
  · rename_i after closing
    rw [closing, List.length_cons] at space
    refine ⟨by simp, ?_⟩
    intro r same
    rw [← Except.ok.inj same]
    simp only
    omega
  · obtain ⟨never, shorter⟩ := scanItems_shortens shortens []
      (Nat.lt_succ_self (skipSpace text).length)
    refine ⟨never, ?_⟩
    intro r same
    have less := shorter r same
    omega

theorem scanObject_shortens {inner : List Char → Scanned α} (shortens : Shortens inner)
    (text : List Char) : scanObject inner text ≠ .error .outOfFuel ∧
      ∀ r, scanObject inner text = .ok r →
        r.2.length < text.length ∧ ∃ read, r.1 = .obj read := by
  have space := skipSpace_length text
  unfold scanObject
  split
  · rename_i after closing
    rw [closing, List.length_cons] at space
    refine ⟨by simp, ?_⟩
    intro r same
    rw [← Except.ok.inj same]
    refine ⟨?_, _, rfl⟩
    simp only
    omega
  · obtain ⟨never, shorter⟩ := scanMembers_shortens shortens []
      (Nat.lt_succ_self (skipSpace text).length)
    refine ⟨never, ?_⟩
    intro r same
    obtain ⟨less, object⟩ := shorter r same
    exact ⟨by omega, object⟩

variable [Field α] [LinearOrder α]

theorem scanNumber_length {text : List Char} {r : Value α × List Char}
    (found : scanNumber text = some r) : r.2.length < text.length := by
  obtain ⟨whole, read, same⟩ := Option.map_eq_some_iff.mp found
  have signed := scanMinus_length text
  have digits := integerPart_length read
  have fraction := optionalFraction_length whole.2
  have exponent := scanExponent_length ['e', 'E'] (optionalFraction whole.2).2
  rw [← same]
  simp only
  split
  · simp only
    omega
  · simp only
    omega

omit [Field α] [LinearOrder α] in
theorem checkDigits_ok {digits : Option Nat} {found r : Value α × List Char}
    (checked : checkDigits digits found = .ok r) :
    r = found ∧ ∀ n, found.1 = .int n → fitsDigits digits (natText n.natAbs) := by
  unfold checkDigits at checked
  split at checked
  · rename_i n whole
    by_cases fits : fitsDigits digits (natText n.natAbs)
    · rw [if_pos fits] at checked
      refine ⟨(Except.ok.inj checked).symm, ?_⟩
      intro m same
      rw [whole, Value.int.injEq] at same
      rw [← same]
      exact fits
    · simp [fits] at checked
  · rename_i other
    refine ⟨(Except.ok.inj checked).symm, ?_⟩
    intro n same
    exact absurd same (other n)

omit [Field α] [LinearOrder α] in
theorem checkDigits_fuelled (digits : Option Nat) (found : Value α × List Char) :
    checkDigits digits found ≠ .error .outOfFuel := by
  unfold checkDigits
  split
  · split
    · simp
    · simp
  · simp

theorem scanScalar_shortens (digits : Option Nat) : Shortens (scanScalar (α := α) digits) := by
  intro text
  unfold scanScalar
  cases word : scanKeyword (α := α) text with
  | some found => 
    refine ⟨by simp, ?_⟩
    intro r same
    rw [← Except.ok.inj same]
    exact scanKeyword_length word
  | none =>
    cases number : scanNumber (α := α) text with
    | some found =>
      refine ⟨checkDigits_fuelled digits found, ?_⟩
      intro r same
      rw [(checkDigits_ok same).1]
      exact scanNumber_length number
    | none => simp

theorem scanValue_shortens (digits : Option Nat) {inner : Option (List Char → Scanned α)}
    (shortens : ∀ read ∈ inner, Shortens read) : Shortens (scanValue digits inner) := by
  intro text
  cases text with
  | nil => simp [scanValue]
  | cons c text =>
    simp only [scanValue]
    by_cases quote : c = '"'
    · rw [if_pos quote]
      cases quoted : scanString text with
      | none => simp
      | some found =>
        have less := scanString_length quoted
        refine ⟨by simp, ?_⟩
        intro r same
        rw [← Except.ok.inj same]
        simp only [List.length_cons]
        omega
    · rw [if_neg quote]
      by_cases brace : c = '\x7b'
      · rw [if_pos brace]
        cases inner with
        | none => simp
        | some read =>
          obtain ⟨never, shorter⟩ := scanObject_shortens (shortens read rfl) text
          refine ⟨never, ?_⟩
          intro r same
          have less := (shorter r same).1
          simp only [List.length_cons]
          omega
      · rw [if_neg brace]
        by_cases bracket : c = '['
        · rw [if_pos bracket]
          cases inner with
          | none => simp
          | some read =>
            obtain ⟨never, shorter⟩ := scanArray_shortens (shortens read rfl) text
            refine ⟨never, ?_⟩
            intro r same
            have less := shorter r same
            simp only [List.length_cons]
            omega
        · rw [if_neg bracket]
          exact scanScalar_shortens digits (c :: text)

theorem parseValue_shortens (digits : Option Nat) (depth : Nat) :
    Shortens (parseValue (α := α) digits depth) := by
  induction depth with
  | zero => exact scanValue_shortens digits (by simp)
  | succ depth ih =>
    apply scanValue_shortens digits
    intro read here
    rw [← Option.some.inj here]
    exact ih

theorem loads_fuelled (limits : Limits) (text : List Char) :
    loads (α := α) limits text ≠ .error .outOfFuel := by
  unfold loads
  have never := (parseValue_shortens (α := α) limits.digits limits.nesting (skipSpace text)).1
  cases read : parseValue (α := α) limits.digits limits.nesting (skipSpace text) with
  | error refusal =>
    rw [read] at never
    simpa using never
  | ok found =>
    simp only
    split
    · simp
    · simp

theorem loads_brace {limits : Limits} {text : List Char} {value : Value α}
    (brace : text.head? = some '\x7b') (read : loads limits text = .ok value) :
    ∃ members, value = .obj members := by
  obtain ⟨body, same⟩ := List.head?_eq_some_iff.mp brace
  subst same
  have opened : skipSpace ('\x7b' :: body) = '\x7b' :: body := by
    simp [skipSpace]
  rw [loads, opened] at read
  cases nesting : limits.nesting with
  | zero => simp [nesting, parseValue, scanValue] at read
  | succ limit =>
    rw [nesting] at read
    simp only [parseValue, scanValue, Char.reduceEq, if_false, if_true] at read
    have object := (scanObject_shortens (parseValue_shortens (α := α) limits.digits limit) body).2
    cases whole : scanObject (parseValue (α := α) limits.digits limit) body with
    | error refusal => simp [whole] at read
    | ok found =>
      obtain ⟨_, members, same⟩ := object found whole
      obtain ⟨inside, later⟩ := found
      rw [whole] at read
      simp only at read same
      split at read
      · exact ⟨members, by rw [← Except.ok.inj read, same]⟩
      · simp at read

end Reading

end SoqTracker.Json
