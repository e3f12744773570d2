import Mathlib.Algebra.Order.Field.Basic
import Mathlib.Algebra.Order.BigOperators.Group.List
import Mathlib.Order.Interval.Set.Basic
import Mathlib.Tactic.Linarith
import Mathlib.Tactic.Ring

/- Extremes, means and exponential averages. A value between two bounds stays
   between them however often it is averaged, and a start value fades
   geometrically. -/
namespace SoqTracker.Averages

section Extremes
variable {α : Type} [LinearOrder α]

theorem foldl_min_le (xs : List α) (x : α) :
    xs.foldl min x ≤ x ∧ ∀ y ∈ xs, xs.foldl min x ≤ y := by
  induction xs generalizing x with
  | nil => simp
  | cons z xs ih =>
    obtain ⟨start, later⟩ := ih (min x z)
    constructor
    · exact start.trans (min_le_left x z)
    · intro y mem
      rcases List.mem_cons.mp mem with rfl | inside
      · exact start.trans (min_le_right x y)
      · exact later y inside

theorem le_foldl_max (xs : List α) (x : α) :
    x ≤ xs.foldl max x ∧ ∀ y ∈ xs, y ≤ xs.foldl max x :=
  @foldl_min_le αᵒᵈ _ xs x

theorem exists_extremes {xs : List α} (filled : xs ≠ []) :
    ∃ low ∈ xs, ∃ high ∈ xs, ∀ x ∈ xs, x ∈ Set.Icc low high := by
  induction xs with
  | nil => exact absurd rfl filled
  | cons x xs ih =>
    rcases eq_or_ne xs [] with rfl | more
    · refine ⟨x, by simp, x, by simp, ?_⟩
      intro y mem
      rw [List.mem_singleton.mp mem]
      exact ⟨le_refl x, le_refl x⟩
    · obtain ⟨low, lowMem, high, highMem, inside⟩ := ih more
      refine ⟨min x low, ?_, max x high, ?_, ?_⟩
      · rcases min_choice x low with same | same <;> simp [same, lowMem]
      · rcases max_choice x high with same | same <;> simp [same, highMem]
      · intro y mem
        rcases List.mem_cons.mp mem with rfl | later
        · exact ⟨min_le_left _ _, le_max_left _ _⟩
        · obtain ⟨below, above⟩ := inside y later
          exact ⟨(min_le_right _ _).trans below, above.trans (le_max_right _ _)⟩

end Extremes

variable {α : Type} [Field α]

/-- The exponential average with weight a for the newest value; newest first. -/
def average (a start : α) : List α → α
  | [] => start
  | x :: older => a * x + (1 - a) * average a start older

theorem average_append (a start : α) (newer older : List α) :
    average a start (newer ++ older) = average a (average a start older) newer := by
  induction newer with
  | nil => rfl
  | cons x newer ih => rw [List.cons_append, average, ih, average]

theorem average_replicate (a start x : α) (n : ℕ) :
    average a start (List.replicate n x) = x + (1 - a) ^ n * (start - x) := by
  induction n with
  | zero => simp [average]
  | succ n ih =>
    rw [List.replicate_succ, average, ih, pow_succ]
    ring

variable [LinearOrder α] [IsStrictOrderedRing α]

theorem blend_mem {a x y low high : α} (nonneg : 0 ≤ a) (atMost : a ≤ 1)
    (first : x ∈ Set.Icc low high) (second : y ∈ Set.Icc low high) :
    a * x + (1 - a) * y ∈ Set.Icc low high := by
  have rest : 0 ≤ 1 - a := by linarith
  have below := mul_le_mul_of_nonneg_left first.1 nonneg
  have below' := mul_le_mul_of_nonneg_left second.1 rest
  have above := mul_le_mul_of_nonneg_left first.2 nonneg
  have above' := mul_le_mul_of_nonneg_left second.2 rest
  constructor
  · linarith
  · linarith

theorem average_mem {a start low high : α} (nonneg : 0 ≤ a) (atMost : a ≤ 1) {xs : List α}
    (begins : start ∈ Set.Icc low high) (inside : ∀ x ∈ xs, x ∈ Set.Icc low high) :
    average a start xs ∈ Set.Icc low high := by
  induction xs with
  | nil => exact begins
  | cons x xs ih =>
    have older := ih fun y mem => inside y (by simp [mem])
    exact blend_mem nonneg atMost (inside x (by simp)) older

theorem average_fades {a start r : α} (nonneg : 0 ≤ a) (atMost : a ≤ 1) {xs : List α}
    (small : ∀ x ∈ xs, |x| ≤ r) :
    |average a start xs| ≤ (1 - a) ^ xs.length * |start| + (1 - (1 - a) ^ xs.length) * r := by
  induction xs with
  | nil => simp [average]
  | cons x xs ih =>
    have older := ih fun y mem => small y (by simp [mem])
    have rest : 0 ≤ 1 - a := by linarith
    calc |a * x + (1 - a) * average a start xs|
        ≤ |a * x| + |(1 - a) * average a start xs| := abs_add_le _ _
      _ = a * |x| + (1 - a) * |average a start xs| := by
          rw [abs_mul, abs_mul, abs_of_nonneg nonneg, abs_of_nonneg rest]
      _ ≤ a * r + (1 - a) * ((1 - a) ^ xs.length * |start| + (1 - (1 - a) ^ xs.length) * r) :=
          add_le_add (mul_le_mul_of_nonneg_left (small x (by simp)) nonneg)
            (mul_le_mul_of_nonneg_left older rest)
      _ = (1 - a) ^ (x :: xs).length * |start| + (1 - (1 - a) ^ (x :: xs).length) * r := by
          rw [List.length_cons, pow_succ]
          ring

theorem sum_between {low high : α} {xs : List α} (inside : ∀ x ∈ xs, x ∈ Set.Icc low high) :
    low * xs.length ≤ xs.sum ∧ xs.sum ≤ high * xs.length := by
  induction xs with
  | nil => simp
  | cons x xs ih =>
    obtain ⟨below, above⟩ := ih fun y mem => inside y (by simp [mem])
    obtain ⟨low', high'⟩ := inside x (by simp)
    rw [List.sum_cons, List.length_cons]
    push_cast
    constructor
    · linarith
    · linarith

theorem mean_mem {low high : α} {xs : List α} (filled : xs ≠ [])
    (inside : ∀ x ∈ xs, x ∈ Set.Icc low high) : xs.sum / xs.length ∈ Set.Icc low high := by
  have positive : (0 : α) < xs.length := by
    rw [Nat.cast_pos]
    exact List.length_pos_of_ne_nil filled
  obtain ⟨below, above⟩ := sum_between inside
  constructor
  · rw [le_div_iff₀ positive]
    exact below
  · rw [div_le_iff₀ positive]
    exact above

end SoqTracker.Averages
