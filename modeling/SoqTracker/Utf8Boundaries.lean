import SoqTracker.Utf8
import Mathlib.Tactic.Common

/- Decoding a stream in pieces. A character belongs to the byte that starts it,
   and its other bytes start none themselves. So a text can be read off the
   positions of its bytes, and a cut loses the one character it falls inside. -/
namespace SoqTracker.Utf8

/-- A byte sequence that spells one character whatever follows it. -/
structure Spells (sequence : List UInt8) (c : Char) : Prop where
  filled : sequence ≠ []
  read : ∀ later, headScalar (sequence ++ later) = some (c, sequence.length)
  tails : ∀ b ∈ sequence.tail, isTail b
  wide : 1 < sequence.length → c ≠ '\n'

theorem isSecond_tail {a b : UInt8} (second : isSecond a b) : isTail b := by
  have within : ∀ {low high : UInt8}, 0x80 ≤ low → high ≤ 0xBF → (low ≤ b && b ≤ high) →
      isTail b := by
    intro low high above below inside
    simp only [isTail, Bool.and_eq_true, decide_eq_true_eq] at inside ⊢
    exact ⟨UInt8.le_trans above inside.1, UInt8.le_trans inside.2 below⟩
  unfold isSecond at second
  split at second
  · exact within (by decide) (by decide) second
  · split at second
    · exact within (by decide) (by decide) second
    · split at second
      · exact within (by decide) (by decide) second
      · split at second
        · exact within (by decide) (by decide) second
        · exact second

theorem headScalar_tail {b : UInt8} (tail : isTail b) (bytes : List UInt8) :
    headScalar (b :: bytes) = none := by
  simp [isTail, UInt8.le_iff_toNat_le] at tail
  have past : ¬ b.toNat < 128 := by omega
  have two : ¬ 194 ≤ b.toNat := by omega
  have three : ¬ 224 ≤ b.toNat := by omega
  have four : ¬ 240 ≤ b.toNat := by omega
  simp [headScalar, UInt8.lt_iff_toNat_lt, UInt8.le_iff_toNat_le, past, two, three, four]

theorem newline_code {n : Nat} (same : Char.ofNat n = '\n') : n = 10 := by
  by_cases valid : n.isValidChar
  · have value : (Char.ofNat n).toNat = n := by
      rw [Char.ofNat, dif_pos valid]
      rfl
    rw [same] at value
    exact value.symm
  · rw [Char.ofNat, dif_neg valid] at same
    exact absurd same (by decide)

/- The four lengths. -/

theorem spells_one {a : UInt8} (one : a < 0x80) : Spells [a] (Char.ofNat a.toNat) := by
  refine ⟨by simp, ?_, by simp, by simp⟩
  intro later
  exact headScalar_ascii a later one

theorem spells_two {a b : UInt8} (past : ¬ a < 0x80) (lead : (0xC2 ≤ a && a ≤ 0xDF) = true)
    (tail : isTail b) :
    Spells [a, b] (Char.ofNat ((a.toNat - 0xC0) * 64 + (b.toNat - 0x80))) := by
  refine ⟨by simp, ?_, by simpa using tail, ?_⟩
  · intro later
    simp [headScalar, past, lead, tail]
  · intro _ newline
    have code := newline_code newline
    simp only [Bool.and_eq_true, decide_eq_true_eq, UInt8.le_iff_toNat_le, UInt8.reduceToNat]
      at lead
    omega

theorem spells_three {a b c : UInt8} (past : ¬ a < 0x80)
    (past' : ¬ (0xC2 ≤ a && a ≤ 0xDF) = true) (lead : (0xE0 ≤ a && a ≤ 0xEF) = true)
    (second : isSecond a b) (tail : isTail c) :
    Spells [a, b, c] (Char.ofNat ((a.toNat - 0xE0) * 4096 + (b.toNat - 0x80) * 64 +
      (c.toNat - 0x80))) := by
  refine ⟨by simp, ?_, by simp [isSecond_tail second, tail], ?_⟩
  · intro later
    simp [headScalar, past, past', lead, second, tail]
  · intro _ newline
    have code := newline_code newline
    simp only [Bool.and_eq_true, decide_eq_true_eq, UInt8.le_iff_toNat_le, UInt8.reduceToNat]
      at lead
    have first : a = 0xE0 := by
      apply UInt8.toNat_inj.mp
      change a.toNat = 224
      omega
    subst first
    have above : 0xA0 ≤ b.toNat := by
      simp [isSecond, UInt8.le_iff_toNat_le] at second
      exact second.1
    omega

theorem spells_four {a b c d : UInt8} (past : ¬ a < 0x80)
    (past' : ¬ (0xC2 ≤ a && a ≤ 0xDF) = true) (past'' : ¬ (0xE0 ≤ a && a ≤ 0xEF) = true)
    (lead : (0xF0 ≤ a && a ≤ 0xF4) = true) (second : isSecond a b) (tail : isTail c)
    (tail' : isTail d) :
    Spells [a, b, c, d] (Char.ofNat ((a.toNat - 0xF0) * 262144 + (b.toNat - 0x80) * 4096 +
      (c.toNat - 0x80) * 64 + (d.toNat - 0x80))) := by
  refine ⟨by simp, ?_, by simp [isSecond_tail second, tail, tail'], ?_⟩
  · intro later
    simp [headScalar, past, past', past'', lead, second, tail, tail']
  · intro _ newline
    have code := newline_code newline
    simp only [Bool.and_eq_true, decide_eq_true_eq, UInt8.le_iff_toNat_le, UInt8.reduceToNat]
      at lead
    have first : a = 0xF0 := by
      apply UInt8.toNat_inj.mp
      change a.toNat = 240
      omega
    subst first
    have above : 0x90 ≤ b.toNat := by
      simp [isSecond, UInt8.le_iff_toNat_le] at second
      exact second.1
    omega

theorem headScalar_spells {bytes : List UInt8} {c : Char} {n : Nat}
    (read : headScalar bytes = some (c, n)) :
    ∃ sequence later, bytes = sequence ++ later ∧ sequence.length = n ∧ Spells sequence c := by
  unfold headScalar at read
  split at read
  · simp at read
  · rename_i a bytes
    split at read
    · rename_i one
      simp only [Option.some.injEq, Prod.mk.injEq] at read
      obtain ⟨rfl, rfl⟩ := read
      exact ⟨[a], bytes, rfl, rfl, spells_one one⟩
    · rename_i past
      split at read
      · rename_i lead
        split at read
        · rename_i b later
          split at read
          · rename_i tail
            simp only [Option.some.injEq, Prod.mk.injEq] at read
            obtain ⟨rfl, rfl⟩ := read
            exact ⟨[a, b], later, rfl, rfl, spells_two past lead tail⟩
          · simp at read
        · simp at read
      · rename_i past'
        split at read
        · rename_i lead
          split at read
          · rename_i b c later
            split at read
            · rename_i within
              rw [Bool.and_eq_true] at within
              simp only [Option.some.injEq, Prod.mk.injEq] at read
              obtain ⟨rfl, rfl⟩ := read
              exact ⟨[a, b, c], later, rfl, rfl, spells_three past past' lead within.1 within.2⟩
            · simp at read
          · simp at read
        · rename_i past''
          split at read
          · rename_i lead
            split at read
            · rename_i b c d later
              split at read
              · rename_i within
                rw [Bool.and_eq_true, Bool.and_eq_true] at within
                simp only [Option.some.injEq, Prod.mk.injEq] at read
                obtain ⟨rfl, rfl⟩ := read
                exact ⟨[a, b, c, d], later, rfl, rfl,
                  spells_four past past' past'' lead within.1.1 within.1.2 within.2⟩
              · simp at read
            · simp at read
          · simp at read

/- Reading a character out of a longer or shorter stream. -/

theorem headScalar_extends {xs : List UInt8} {c : Char} {n : Nat}
    (read : headScalar xs = some (c, n)) (ys : List UInt8) :
    headScalar (xs ++ ys) = some (c, n) := by
  obtain ⟨sequence, later, split, size, spells⟩ := headScalar_spells read
  rw [split, List.append_assoc, spells.read, size]

theorem headScalar_covered {xs ys : List UInt8} {c : Char} {n : Nat}
    (read : headScalar (xs ++ ys) = some (c, n)) (covered : n ≤ xs.length) :
    headScalar xs = some (c, n) := by
  obtain ⟨sequence, later, split, size, spells⟩ := headScalar_spells read
  have front : sequence <+: xs ++ ys := ⟨later, split.symm⟩
  obtain ⟨more, same⟩ := List.prefix_of_prefix_length_le front (List.prefix_append xs ys)
    (by omega)
  rw [← same, spells.read, size]

theorem decode_tails {tails : List UInt8} (all : ∀ b ∈ tails, isTail b) (later : List UInt8) :
    decodeIgnoring (tails ++ later) = decodeIgnoring later ∧
      decodeIgnoringFrom tails.length (tails ++ later) = decodeIgnoring later := by
  induction tails with
  | nil => exact ⟨rfl, rfl⟩
  | cons b tails ih =>
    obtain ⟨same, owed⟩ := ih (fun b mem => all b (by simp [mem]))
    constructor
    · rw [List.cons_append, decodeIgnoring, decodeIgnoringFrom, headScalar_tail (all b (by simp))]
      exact same
    · exact owed

theorem decodeIgnoring_cons (b : UInt8) (bytes : List UInt8) :
    decodeIgnoring (b :: bytes) =
      ((headScalar (b :: bytes)).map Prod.fst).toList ++ decodeIgnoring bytes := by
  cases read : headScalar (b :: bytes) with
  | none =>
    rw [decodeIgnoring, decodeIgnoringFrom, read]
    rfl
  | some found =>
    obtain ⟨c, n⟩ := found
    obtain ⟨sequence, later, split, size, spells⟩ := headScalar_spells read
    rw [decodeIgnoring, decodeIgnoringFrom, read]
    cases sequence with
    | nil => exact absurd rfl spells.filled
    | cons first tails =>
      rw [List.cons_append, List.cons.injEq] at split
      obtain ⟨same, owed⟩ := decode_tails spells.tails later
      rw [List.length_cons] at size
      have left : n - 1 = tails.length := by omega
      simp only [List.tail_cons] at same owed
      rw [split.2]
      change c :: decodeIgnoringFrom (n - 1) (tails ++ later) = c :: decodeIgnoring (tails ++ later)
      rw [left, owed, same]

/- Cuts. -/

/-- Some character begins before the cut and ends after it. -/
def Straddles (front back : List UInt8) : Prop :=
  ∃ earlier sequence, earlier ++ sequence = front ∧ sequence ≠ [] ∧
    ∃ c n, headScalar (sequence ++ back) = some (c, n) ∧ sequence.length < n

/-- A cut between characters loses nothing. -/
theorem decode_append {front back : List UInt8} (between : ¬ Straddles front back) :
    decodeIgnoring (front ++ back) = decodeIgnoring front ++ decodeIgnoring back := by
  induction front with
  | nil => rfl
  | cons b front ih =>
    have later : ¬ Straddles front back := by
      rintro ⟨earlier, sequence, split, begun, straddles⟩
      exact between ⟨b :: earlier, sequence, by simp [split], begun, straddles⟩
    have here : headScalar (b :: front ++ back) = headScalar (b :: front) := by
      cases read : headScalar (b :: front ++ back) with
      | none =>
        cases short : headScalar (b :: front) with
        | none => rfl
        | some found =>
          rw [headScalar_extends short] at read
          simp at read
      | some found =>
        by_cases covered : found.2 ≤ (b :: front).length
        · exact (headScalar_covered read covered).symm
        · exact absurd ⟨[], b :: front, rfl, by simp, found.1, found.2, read, by omega⟩ between
    rw [List.cons_append, decodeIgnoring_cons, ← List.cons_append, here, ih later,
      decodeIgnoring_cons, List.append_assoc]

theorem start_between (front : List UInt8) {b : UInt8} (start : ¬ isTail b)
    (back : List UInt8) : ¬ Straddles front (b :: back) := by
  rintro ⟨earlier, sequence, split, begun, c, n, read, past⟩
  obtain ⟨spelled, later, same, size, spells⟩ := headScalar_spells read
  have begins : sequence <+: spelled ++ later := ⟨b :: back, same⟩
  obtain ⟨remaining, whole⟩ :=
    List.prefix_of_prefix_length_le begins (List.prefix_append spelled later) (by omega)
  rw [← whole, List.append_assoc, List.append_cancel_left_eq] at same
  cases remaining with
  | nil =>
    have sizes := congrArg List.length whole
    rw [List.append_nil] at sizes
    omega
  | cons first remaining =>
    rw [List.cons_append, List.cons.injEq] at same
    obtain ⟨s, sequence', rfl⟩ := List.exists_cons_of_ne_nil begun
    have inside : b ∈ spelled.tail := by
      rw [← whole, same.1]
      simp
    exact start (spells.tails b inside)

/- Pieces. -/

def StartsWide (bytes : List UInt8) : Prop :=
  ∃ c n, headScalar bytes = some (c, n) ∧ 1 < n

def Narrow (front back : List UInt8) : Prop :=
  ∀ earlier later, earlier ++ later = front → later ≠ [] → ¬ StartsWide (later ++ back)

def Unbroken : List (List UInt8) → Prop
  | [] => True
  | piece :: pieces => ¬ Straddles piece pieces.flatten ∧ Unbroken pieces

theorem startsWide_extends {xs : List UInt8} (wide : StartsWide xs) (ys : List UInt8) :
    StartsWide (xs ++ ys) := by
  obtain ⟨c, n, read, several⟩ := wide
  exact ⟨c, n, headScalar_extends read ys, several⟩

theorem narrow_between {front back : List UInt8} (narrow : Narrow front back) :
    ¬ Straddles front back := by
  rintro ⟨earlier, sequence, split, begun, c, n, read, past⟩
  have length := List.length_pos_iff.mpr begun
  exact narrow earlier sequence split begun ⟨c, n, read, by omega⟩

theorem narrow_front {front middle back : List UInt8} (narrow : Narrow (front ++ middle) back) :
    Narrow front (middle ++ back) := by
  intro earlier later split filled wide
  refine narrow earlier (later ++ middle) (by rw [← List.append_assoc, split]) (by simp [filled]) ?_
  rwa [List.append_assoc]

theorem narrow_back {front middle back : List UInt8} (narrow : Narrow (front ++ middle) back) :
    Narrow middle back := by
  intro earlier later split filled
  exact narrow (front ++ earlier) later (by rw [List.append_assoc, split]) filled

theorem narrow_shorter {front back more : List UInt8} (narrow : Narrow front (back ++ more)) :
    Narrow front back := by
  intro earlier later split filled wide
  have longer := startsWide_extends wide more
  rw [List.append_assoc] at longer
  exact narrow earlier later split filled longer

theorem narrow_unbroken {pieces : List (List UInt8)} (narrow : Narrow pieces.flatten []) :
    Unbroken pieces := by
  induction pieces with
  | nil => trivial
  | cons piece pieces ih =>
    rw [List.flatten_cons] at narrow
    have here := narrow_between (narrow_front narrow)
    rw [List.append_nil] at here
    exact ⟨here, ih (narrow_back narrow)⟩

theorem first_wide (bytes : List UInt8) :
    Narrow bytes [] ∨ ∃ front back, front ++ back = bytes ∧ StartsWide back ∧ Narrow front back := by
  induction bytes with
  | nil =>
    refine Or.inl ?_
    intro earlier later split filled
    exact absurd (List.append_eq_nil_iff.mp split).2 filled
  | cons b bytes ih =>
    by_cases here : StartsWide (b :: bytes)
    · refine Or.inr ⟨[], b :: bytes, rfl, here, ?_⟩
      intro earlier later split filled
      exact absurd (List.append_eq_nil_iff.mp split).2 filled
    · have longer : ∀ {front back : List UInt8}, Narrow front back → front ++ back = bytes →
          Narrow (b :: front) back := by
        intro front back narrow whole earlier later split filled
        cases earlier with
        | nil =>
          rw [List.nil_append] at split
          rwa [split, List.cons_append, whole]
        | cons first earlier =>
          rw [List.cons_append, List.cons.injEq] at split
          exact narrow earlier later split.2 filled
      rcases ih with narrow | ⟨front, back, split, wide, narrow⟩
      · exact Or.inl (longer narrow (List.append_nil bytes))
      · exact Or.inr ⟨b :: front, back, by rw [List.cons_append, split], wide, longer narrow split⟩

theorem decode_pieces {pieces : List (List UInt8)} (unbroken : Unbroken pieces) :
    pieces.flatMap decodeIgnoring = decodeIgnoring pieces.flatten := by
  induction pieces with
  | nil => rfl
  | cons piece pieces ih =>
    rw [List.flatMap_cons, List.flatten_cons, decode_append unbroken.1, ih unbroken.2]

theorem decode_front {pieces : List (List UInt8)} {front back : List UInt8}
    (narrow : Narrow front back) (whole : pieces.flatten = front ++ back) :
    decodeIgnoring front <+: pieces.flatMap decodeIgnoring := by
  induction pieces generalizing front with
  | nil =>
    have empty : front = [] := (List.append_eq_nil_iff.mp whole.symm).1
    rw [empty]
    exact List.nil_prefix
  | cons piece pieces ih =>
    rw [List.flatten_cons] at whole
    rw [List.flatMap_cons]
    rcases List.append_eq_append_iff.mp whole with ⟨more, rfl, same⟩ | ⟨more, rfl, same⟩
    · rw [decode_append (narrow_between (narrow_shorter (narrow_front narrow))),
        List.prefix_append_right_inj]
      exact ih (narrow_back narrow) same
    · subst same
      rw [decode_append (narrow_between (narrow_shorter narrow)), List.append_assoc]
      exact List.prefix_append _ _

/-- A wide character spells one letter, and nothing once it is cut. -/
theorem wide_cut {bytes : List UInt8} (wide : StartsWide bytes) :
    ∃ b tails later c, bytes = b :: tails ++ later ∧ c ≠ '\n' ∧ ¬ isTail b ∧
      decodeIgnoring (b :: tails) = [c] ∧ decodeIgnoring [b] = [] ∧ decodeIgnoring tails = [] := by
  obtain ⟨c, n, read, several⟩ := wide
  obtain ⟨sequence, later, split, size, spells⟩ := headScalar_spells read
  obtain ⟨b, tails, rfl⟩ := List.exists_cons_of_ne_nil spells.filled
  have whole := spells.read []
  obtain ⟨empty, _⟩ := decode_tails spells.tails []
  rw [List.append_nil] at whole empty
  have nothing : decodeIgnoring tails = [] := empty
  have begun : ¬ isTail b := by
    intro tail
    rw [headScalar_tail tail] at whole
    simp at whole
  have cut : headScalar [b] = none := by
    cases short : headScalar [b] with
    | none => rfl
    | some found =>
      have same := headScalar_extends short tails
      rw [List.singleton_append, whole, Option.some.injEq] at same
      obtain ⟨piece, _, fits, length, _⟩ := headScalar_spells short
      have sizes := congrArg List.length fits
      rw [List.length_append, List.length_singleton, length] at sizes
      have several' := congrArg Prod.snd same
      simp only at several'
      omega
  refine ⟨b, tails, later, c, split, spells.wide (by omega), begun, ?_, ?_, nothing⟩
  · rw [decodeIgnoring_cons, whole, nothing]
    rfl
  · rw [decodeIgnoring_cons, cut]
    rfl

end SoqTracker.Utf8
