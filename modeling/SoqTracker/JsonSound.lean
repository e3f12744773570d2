import SoqTracker.JsonRoundTrip

/- What json.loads returns: only values that json.dumps writes back. -/
namespace SoqTracker.Json
open ExtendedNumber Decimal

/- Strings. -/

theorem hexValue_small {c : Char} {n : Nat} (value : hexValue c = some n) : n < 16 := by
  have code : ∀ {a b : Char}, a ≤ b → a.toNat ≤ b.toNat := fun order => order
  unfold hexValue at value
  split_ifs at value with digit lower upper
  · rw [← Option.some.inj value]
    obtain ⟨_, high⟩ := digit_range digit
    omega
  · rw [← Option.some.inj value]
    have high : c.toNat ≤ 102 := code lower.2
    omega
  · rw [← Option.some.inj value]
    have high : c.toNat ≤ 70 := code upper.2
    omega

theorem hexQuad_small {a b c d : Char} {n : Nat} (quad : hexQuad a b c d = some n) :
    n < 0x10000 := by
  unfold hexQuad at quad
  split at quad
  · rename_i w x y z first second third fourth
    have one := hexValue_small first
    have two := hexValue_small second
    have three := hexValue_small third
    have four := hexValue_small fourth
    rw [← Option.some.inj quad]
    omega
  · simp at quad

theorem simpleEscape_small {c : Char} {n : Nat} (escape : simpleEscape c = some n) : n < 128 := by
  unfold simpleEscape at escape
  split_ifs at escape
  all_goals
    rw [← Option.some.inj escape]
    omega

theorem scanUnits_bound {text : List Char} {r : List Nat × List Char}
    (found : scanUnits text = some r) : ∀ u ∈ r.1, u < 0x110000 := by
  have push : ∀ {n : Nat} {scanned : Option (List Nat × List Char)} {r : List Nat × List Char},
      n < 0x110000 → (∀ {r : List Nat × List Char}, scanned = some r → ∀ u ∈ r.1, u < 0x110000) →
        scanned.map (fun r => (n :: r.1, r.2)) = some r → ∀ u ∈ r.1, u < 0x110000 := by
    intro n scanned r small rest found u mem
    obtain ⟨inner, read, same⟩ := Option.map_eq_some_iff.mp found
    rw [← same] at mem
    rcases List.mem_cons.mp mem with first | later
    · rw [first]
      exact small
    · exact rest read u later
  fun_induction scanUnits text generalizing r with
  | case1 => simp at found
  | case2 text =>
    rw [← Option.some.inj found]
    simp
  | case3 => simp at found
  | case4 a b c d text n quad _ ih =>
    have small := hexQuad_small quad
    exact push (by omega) ih found
  | case5 => simp at found
  | case6 => simp at found
  | case7 e text _ n escape _ ih =>
    have small := simpleEscape_small escape
    exact push (by omega) ih found
  | case8 => simp at found
  | case9 => simp at found
  | case10 c text _ _ _ ih =>
    have small : c.toNat < 0x110000 := by
      rcases c.valid with low | high
      · exact low.trans (by decide)
      · exact high.2
    exact push small ih found

theorem joinSurrogates_sound {units : List Nat} (bound : ∀ u ∈ units, u < 0x110000) :
    SoundText (joinSurrogates units) ∧
      ∀ m ∈ (joinSurrogates units).head?, isLow m → units.head? = some m := by
  fun_induction joinSurrogates units with
  | case1 => exact ⟨trivial, by simp⟩
  | case2 n => exact ⟨bound n (by simp), by simp⟩
  | case3 high low units pair ih =>
    obtain ⟨sound, _⟩ := ih fun u mem => bound u (by simp [mem])
    simp only [Bool.and_eq_true, isHigh, isLow, decide_eq_true_eq] at pair
    have size : 0x10000 + (high - 0xD800) * 1024 + (low - 0xDC00) < 0x110000 := by omega
    refine ⟨soundText_push size sound ?_, ?_⟩
    · rintro m _ ⟨isHigh', _⟩
      simp only [isHigh, Bool.and_eq_true, decide_eq_true_eq] at isHigh'
      omega
    · intro m first isLow'
      rw [← Option.some.inj first] at isLow'
      simp only [isLow, Bool.and_eq_true, decide_eq_true_eq] at isLow'
      omega
  | case4 high low units pair ih =>
    obtain ⟨sound, first⟩ := ih fun u mem => bound u (List.mem_cons_of_mem _ mem)
    refine ⟨soundText_push (bound high (by simp)) sound ?_, ?_⟩
    · rintro m here ⟨isHigh', isLow'⟩
      have same := first m here isLow'
      rw [List.head?_cons, Option.some.injEq] at same
      rw [same] at pair
      simp [isHigh', isLow'] at pair
    · intro m here _
      exact here

theorem scanString_sound {text : List Char} {r : Text × List Char}
    (found : scanString text = some r) : SoundText r.1 := by
  obtain ⟨units, read, same⟩ := Option.map_eq_some_iff.mp found
  rw [← same]
  exact (joinSurrogates_sound (scanUnits_bound read)).1

/- Containers. -/

section Containers
variable {α : Type} {digits : Option Nat}

theorem itemsSound_concat {items : List (Value α)} {item : Value α}
    (sound : ItemsSound digits items) (last : Sound digits item) :
    ItemsSound digits (items ++ [item]) := by
  induction items with
  | nil => exact ⟨last, trivial⟩
  | cons first items ih => exact ⟨sound.1, ih sound.2⟩

theorem insertKey_keys (key : Text) (value : Value α) (members : List (Text × Value α)) :
    (insertKey key value members).map Prod.fst =
      if key ∈ members.map Prod.fst then members.map Prod.fst
      else members.map Prod.fst ++ [key] := by
  induction members with
  | nil => rfl
  | cons member members ih =>
    by_cases same : member.1 = key
    · simp [insertKey, same]
    · rw [insertKey, if_neg same, List.map_cons, ih, List.map_cons]
      by_cases later : key ∈ members.map Prod.fst
      · rw [if_pos later, if_pos (List.mem_cons_of_mem _ later)]
      · have fresh : key ∉ member.1 :: members.map Prod.fst := by
          simp only [List.mem_cons, not_or]
          exact ⟨Ne.symm same, later⟩
        rw [if_neg later, if_neg fresh]
        rfl

theorem insertKey_members {key : Text} {value : Value α} {members : List (Text × Value α)}
    (sound : MembersSound digits members) (named : SoundText key) (inside : Sound digits value) :
    MembersSound digits (insertKey key value members) := by
  induction members with
  | nil => exact ⟨named, inside, trivial⟩
  | cons member members ih =>
    obtain ⟨first, read, later⟩ := sound
    by_cases same : member.1 = key
    · rw [insertKey, if_pos same]
      exact ⟨named, inside, later⟩
    · rw [insertKey, if_neg same]
      exact ⟨first, read, ih later⟩

theorem insertKey_sound {key : Text} {value : Value α} {members : List (Text × Value α)}
    (sound : Sound digits (.obj members)) (named : SoundText key) (inside : Sound digits value) :
    Sound digits (.obj (insertKey key value members)) := by
  obtain ⟨distinct, each⟩ := sound
  refine ⟨?_, insertKey_members each named inside⟩
  rw [insertKey_keys]
  by_cases known : key ∈ members.map Prod.fst
  · rw [if_pos known]
    exact distinct
  · rw [if_neg known]
    rw [List.nodup_append]
    refine ⟨distinct, by simp, ?_⟩
    intro k mem last single same
    rw [List.mem_singleton.mp single] at same
    exact known (by rw [← same]; exact mem)

def Yields (digits : Option Nat) (read : List Char → Scanned α) : Prop :=
  ∀ {text r}, read text = .ok r → Sound digits r.1

theorem scanItems_sound {inner : List Char → Scanned α} (yields : Yields digits inner)
    {fuel : Nat} {items : List (Value α)} (before : ItemsSound digits items) {text : List Char}
    {r : Value α × List Char} (found : scanItems inner fuel items text = .ok r) :
    Sound digits r.1 := by
  induction fuel generalizing items text with
  | zero => simp [scanItems] at found
  | succ fuel ih =>
    unfold scanItems at found
    split at found
    · simp at found
    · rename_i item later first
      have more := itemsSound_concat before (yields first)
      split at found
      · rw [← Except.ok.inj found]
        exact more
      · exact ih more found
      · simp at found

theorem scanMember_sound {inner : List Char → Scanned α} (yields : Yields digits inner)
    {text : List Char} {r : (Text × Value α) × List Char}
    (found : scanMember inner text = .ok r) : SoundText r.1.1 ∧ Sound digits r.1.2 := by
  unfold scanMember at found
  split at found
  · split at found
    · simp at found
    · rename_i key later named
      split at found
      · rename_i after colon
        cases read : inner (skipSpace after) with
        | error refusal => simp [read, Except.map] at found
        | ok value =>
          rw [read] at found
          rw [← Except.ok.inj found]
          exact ⟨scanString_sound named, yields read⟩
      · simp at found
  · simp at found

theorem scanMembers_sound {inner : List Char → Scanned α} (yields : Yields digits inner)
    {fuel : Nat} {members : List (Text × Value α)} (before : Sound digits (.obj members))
    {text : List Char} {r : Value α × List Char}
    (found : scanMembers inner fuel members text = .ok r) : Sound digits r.1 := by
  induction fuel generalizing members text with
  | zero => simp [scanMembers] at found
  | succ fuel ih =>
    unfold scanMembers at found
    split at found
    · simp at found
    · rename_i member later first
      obtain ⟨named, inside⟩ := scanMember_sound yields first
      have more := insertKey_sound before named inside
      split at found
      · rw [← Except.ok.inj found]
        exact more
      · exact ih more found
      · simp at found

theorem scanArray_sound {inner : List Char → Scanned α} (yields : Yields digits inner) :
    Yields digits (scanArray inner) := by
  intro text r found
  unfold scanArray at found
  split at found
  · rw [← Except.ok.inj found]
    trivial
  · have empty : ItemsSound digits ([] : List (Value α)) := trivial
    exact scanItems_sound yields empty found

theorem scanObject_sound {inner : List Char → Scanned α} (yields : Yields digits inner) :
    Yields digits (scanObject inner) := by
  intro text r found
  unfold scanObject at found
  split at found
  · rw [← Except.ok.inj found]
    exact ⟨List.nodup_nil, trivial⟩
  · have empty : Sound digits (.obj [] : Value α) := ⟨List.nodup_nil, trivial⟩
    exact scanMembers_sound yields empty found

end Containers

/- Values. -/

section Values
variable {α : Type} [Field α] [LinearOrder α] {digits : Option Nat}

theorem scanNumber_kind {text : List Char} {r : Value α × List Char}
    (found : scanNumber text = some r) : (∃ n, r.1 = .int n) ∨ ∃ x, r.1 = .float x := by
  obtain ⟨whole, _, same⟩ := Option.map_eq_some_iff.mp found
  rw [← same]
  simp only
  split
  · exact Or.inl ⟨_, rfl⟩
  · exact Or.inr ⟨_, rfl⟩

theorem scanScalar_sound : Yields digits (scanScalar (α := α) digits) := by
  intro text r found
  unfold scanScalar at found
  split at found
  · rename_i whole word
    rw [← Except.ok.inj found]
    obtain ⟨entry, listed, same⟩ := Option.map_eq_some_iff.mp word
    have known := List.mem_of_find?_eq_some listed
    rw [← same]
    simp only [keywords, List.mem_cons, List.not_mem_nil, or_false] at known
    rcases known with rfl | rfl | rfl | rfl | rfl | rfl
    all_goals trivial
  · split at found
    · rename_i whole number
      obtain ⟨same, fits⟩ := checkDigits_ok found
      rw [same]
      rcases scanNumber_kind number with ⟨n, int⟩ | ⟨x, float⟩
      · rw [int]
        exact fits n int
      · rw [float]
        trivial
    · simp at found

theorem scanValue_sound {inner : Option (List Char → Scanned α)}
    (yields : ∀ read ∈ inner, Yields digits read) : Yields digits (scanValue digits inner) := by
  intro text r found
  cases text with
  | nil => simp [scanValue] at found
  | cons c text =>
    simp only [scanValue] at found
    split_ifs at found with quote brace bracket
    · split at found
      · rename_i value later named
        rw [← Except.ok.inj found]
        exact scanString_sound named
      · simp at found
    · cases inner with
      | none => simp at found
      | some read => exact scanObject_sound (yields read rfl) found
    · cases inner with
      | none => simp at found
      | some read => exact scanArray_sound (yields read rfl) found
    · exact scanScalar_sound found

theorem parseValue_sound (nesting : Nat) : Yields digits (parseValue (α := α) digits nesting) := by
  induction nesting with
  | zero => exact scanValue_sound (by simp)
  | succ nesting ih =>
    apply scanValue_sound
    intro read here
    rw [← Option.some.inj here]
    exact ih

theorem loads_sound {limits : Limits} {text : List Char} {value : Value α}
    (read : loads limits text = .ok value) : Sound limits.digits value := by
  unfold loads at read
  split at read
  · simp at read
  · rename_i found later whole
    split at read
    · rw [← Except.ok.inj read]
      exact parseValue_sound limits.nesting whole
    · simp at read

end Values

/- The text of a value is ASCII, whatever its strings. -/

section Plain
open Utf8

theorem digitChar_ascii (n : Nat) : (Nat.digitChar n).toNat < 128 := by
  by_cases small : n < 16
  · have each : ∀ d < 16, (Nat.digitChar d).toNat < 128 := by decide
    exact each n small
  · have star : Nat.digitChar n = '*' := by
      unfold Nat.digitChar
      repeat rw [if_neg (by omega)]
    rw [star]
    decide

theorem escaped_ascii (n : Nat) : Ascii (escaped n) := by
  have unit : ∀ u, Ascii (unicodeEscape u) := by
    intro u
    simp [unicodeEscape, digitChar_ascii]
  unfold escaped
  split_ifs with quote back feed ret tab backspace form plain
  · simp
  · simp
  · simp
  · simp
  · simp
  · simp
  · simp
  · rw [ascii_cons, charCode n plain.2]
    exact ⟨by omega, ascii_nil⟩
  · intro c mem
    obtain ⟨u, _, inside⟩ := List.mem_flatMap.mp mem
    exact unit u c inside

theorem stringText_ascii (value : Text) : Ascii (stringText value) := by
  have body : Ascii (value.flatMap escaped) := by
    intro c mem
    obtain ⟨n, _, inside⟩ := List.mem_flatMap.mp mem
    exact escaped_ascii n c inside
  simp [stringText, body]

variable {α : Type} [Field α] [LinearOrder α] {repr : α → List Char}

mutual
theorem text_ascii : ∀ value : Value α, AllReadable repr (floats value) → Ascii (text repr value)
  | .null, _ => by simp [text]
  | .bool true, _ => by simp [text]
  | .bool false, _ => by simp [text]
  | .int n, _ => by
    rw [text]
    exact intText_ascii n
  | .float (.finite x), readable => by
    have spelled := readable x (by simp [floats])
    rw [text]
    exact spelled.1
  | .float .posInf, _ => by
    have word : Ascii "Infinity".toList := by simp
    exact word
  | .float .negInf, _ => by
    have word : Ascii "-Infinity".toList := by simp
    exact word
  | .float .nan, _ => by
    have word : Ascii "NaN".toList := by simp
    exact word
  | .str value, _ => by
    rw [text]
    exact stringText_ascii value
  | .arr [], _ => by simp [text, itemsText]
  | .arr (item :: items), readable => by
    have first := text_ascii item fun x mem => readable x (by simp [floats, itemsFloats, mem])
    have later := laterItems_ascii items fun x mem => readable x (by simp [floats, itemsFloats, mem])
    simp [text, itemsText, first, later]
  | .obj [], _ => by simp [text, membersText]
  | .obj ((key, value) :: members), readable => by
    have first := text_ascii value fun x mem => readable x (by simp [floats, membersFloats, mem])
    have later := laterMembers_ascii members
      fun x mem => readable x (by simp [floats, membersFloats, mem])
    simp [text, membersText, stringText_ascii, first, later]

theorem laterItems_ascii : ∀ items : List (Value α), AllReadable repr (itemsFloats items) →
    Ascii (laterItemsText repr items)
  | [], _ => by simp [laterItemsText]
  | item :: items, readable => by
    have first := text_ascii item fun x mem => readable x (by simp [itemsFloats, mem])
    have later := laterItems_ascii items fun x mem => readable x (by simp [itemsFloats, mem])
    simp [laterItemsText, first, later]

theorem laterMembers_ascii : ∀ members : List (Text × Value α),
    AllReadable repr (membersFloats members) → Ascii (laterMembersText repr members)
  | [], _ => by simp [laterMembersText]
  | (key, value) :: members, readable => by
    have first := text_ascii value fun x mem => readable x (by simp [membersFloats, mem])
    have later := laterMembers_ascii members fun x mem => readable x (by simp [membersFloats, mem])
    simp [laterMembersText, stringText_ascii, first, later]
end

end Plain

end SoqTracker.Json
