import SoqTracker.HistoryPanel
import SoqTracker.Buckets
import Mathlib.Algebra.Field.Rat
import Mathlib.Algebra.Order.Ring.Rat

/- The bins of the history chart as an account of the points. Every point falls into
   one bin, later points never into earlier bins, and what the bins hold is what the
   points hold, in whatever order they are counted. -/
namespace SoqTracker.HistoryBins
open Controller HistoryPanel Buckets

variable {α : Type} [Field α] [LinearOrder α]

attribute [ext] Bin

/- One point. -/

def measured (point : Point α) : Option α := if point.valid then point.value else none

def IsLocked (point : Point α) : Prop :=
  (measured point).isSome = true ∧ point.state = key "LOCKED"

theorem count_activity (bin : Bin α) (point : Point α) :
    (bin.count point).activity = max bin.activity point.activity := by
  unfold Bin.count
  split <;> rfl

theorem count_validCount (bin : Bin α) (point : Point α) :
    (bin.count point).validCount = bin.validCount + (measured point).toList.length := by
  rcases point with ⟨t, value, valid, activity, state⟩
  cases valid <;> cases value <;> simp [Bin.count, measured]

theorem count_angleSum (bin : Bin α) (point : Point α) :
    (bin.count point).angleSum = bin.angleSum + (measured point).toList.sum := by
  rcases point with ⟨t, value, valid, activity, state⟩
  cases valid <;> cases value <;> simp [Bin.count, measured]

theorem count_state (bin : Bin α) (point : Point α) :
    (bin.count point).state =
      if (measured point).isSome then
        if point.state = key "LOCKED" ∨ bin.state = key "LOCKED" then key "LOCKED"
        else key "TRACKING"
      else bin.state := by
  rcases point with ⟨t, value, valid, activity, state⟩
  cases valid with
  | false => simp [Bin.count, measured]
  | true =>
    cases value with
    | none => simp [Bin.count, measured]
    | some value =>
      by_cases own : state = key "LOCKED"
      · simp [Bin.count, measured, own]
      · by_cases before : bin.state = key "LOCKED"
        · simp [Bin.count, measured, own, before]
        · simp [Bin.count, measured, own, before]

theorem count_locked (bin : Bin α) (point : Point α) :
    (bin.count point).state = key "LOCKED" ↔ bin.state = key "LOCKED" ∨ IsLocked point := by
  have different : key "TRACKING" ≠ key "LOCKED" := by decide
  rw [count_state]
  by_cases counted : (measured point).isSome = true
  · by_cases locked : point.state = key "LOCKED" ∨ bin.state = key "LOCKED"
    · simp only [counted, locked, IsLocked, if_true, true_and, true_iff]
      exact locked.symm
    · obtain ⟨own, before⟩ := not_or.mp locked
      simp [counted, own, before, IsLocked, different]
  · simp [counted, IsLocked]

theorem count_commute (bin : Bin α) (first second : Point α) :
    (bin.count first).count second = (bin.count second).count first := by
  have activity : ((bin.count first).count second).activity =
      ((bin.count second).count first).activity := by
    simp only [count_activity]
    exact max_right_comm _ _ _
  have validCount : ((bin.count first).count second).validCount =
      ((bin.count second).count first).validCount := by
    simp only [count_validCount]
    exact Nat.add_right_comm _ _ _
  have angleSum : ((bin.count first).count second).angleSum =
      ((bin.count second).count first).angleSum := by
    simp only [count_angleSum]
    exact add_right_comm _ _ _
  have state : ((bin.count first).count second).state =
      ((bin.count second).count first).state := by
    rw [count_state, count_state (bin.count second), count_state bin first, count_state bin second]
    by_cases one : (measured first).isSome = true
    · by_cases two : (measured second).isSome = true
      · by_cases locked : first.state = key "LOCKED" <;>
          by_cases locked' : second.state = key "LOCKED" <;>
          by_cases before : bin.state = key "LOCKED" <;>
          simp [one, two, locked, locked', before]
      · simp [one, two]
    · simp [one]
  exact Bin.ext activity validCount angleSum state

theorem fold_locked (bin : Bin α) (points : List (Point α)) :
    (points.foldl Bin.count bin).state = key "LOCKED" ↔
      bin.state = key "LOCKED" ∨ ∃ point ∈ points, IsLocked point := by
  induction points generalizing bin with
  | nil => simp
  | cons point points ih =>
    rw [List.foldl_cons, ih, count_locked, or_assoc]
    simp

theorem fold_counted (bin : Bin α) (points : List (Point α)) :
    (points.foldl Bin.count bin).validCount ≠ 0 ↔
      bin.validCount ≠ 0 ∨ ∃ point ∈ points, (measured point).isSome = true := by
  induction points generalizing bin with
  | nil => simp
  | cons point points ih =>
    rw [List.foldl_cons, ih, count_validCount]
    cases counted : measured point <;> simp [counted]

/- All points. -/

variable [FloorRing α]

theorem binCount_positive (w : α) : 0 < binCount w :=
  lt_of_lt_of_le (by decide) (le_max_left 80 _)

def slot (w now : α) (point : Point α) : Nat := (binIndex (binCount w) now point).toNat

variable [IsStrictOrderedRing α]

theorem binIndex_range {count : Nat} (positive : 0 < count) (now : α) (point : Point α) :
    0 ≤ binIndex count now point ∧ binIndex count now point ≤ count - 1 := by
  have bins : (0 : α) < count := Nat.cast_pos.mpr positive
  have least : 0 ≤ clamp ((point.timestamp - (now - 10)) / 10) 0 (999999 / 1000000 : α) :=
    le_max_left _ _
  have most : clamp ((point.timestamp - (now - 10)) / 10) 0 (999999 / 1000000 : α) < 1 := by
    apply max_lt
    · norm_num
    · exact (min_le_left _ _).trans_lt (by norm_num)
  unfold binIndex
  constructor
  · exact Int.floor_nonneg.mpr (mul_nonneg least bins.le)
  · have below : ⌊clamp ((point.timestamp - (now - 10)) / 10) 0 (999999 / 1000000 : α) *
        count⌋ < (count : Int) := by
      rw [Int.floor_lt, Int.cast_natCast]
      exact mul_lt_of_lt_one_left bins most
    omega

theorem binIndex_mono (count : Nat) (now : α) {first second : Point α}
    (order : first.timestamp ≤ second.timestamp) :
    binIndex count now first ≤ binIndex count now second := by
  have ratio : (first.timestamp - (now - 10)) / 10 ≤ (second.timestamp - (now - 10)) / 10 := by
    apply div_le_div_of_nonneg_right
    · linarith
    · norm_num
  apply Int.floor_mono
  apply mul_le_mul_of_nonneg_right _ (Nat.cast_nonneg count)
  exact max_le_max le_rfl (min_le_min le_rfl ratio)

theorem slot_cast (w now : α) (point : Point α) :
    (slot w now point : Int) = binIndex (binCount w) now point :=
  Int.toNat_of_nonneg (binIndex_range (binCount_positive w) now point).1

theorem slot_lt (w now : α) (point : Point α) : slot w now point < binCount w := by
  have high := (binIndex_range (binCount_positive w) now point).2
  rw [← slot_cast] at high
  omega

theorem countPoint_eq (w now : α) {counted : List (Bin α)} (size : counted.length = binCount w)
    (point : Point α) : countPoint (binCount w) now counted point =
      some (counted.modify (slot w now point) fun bin => bin.count point) := by
  have inside : slot w now point < counted.length := by
    rw [size]
    exact slot_lt w now point
  unfold countPoint
  rw [← slot_cast]
  simp [List.getElem?_eq_getElem inside, List.modify_eq_set_getElem?]

theorem foldlM_countPoint (w now : α) {counted : List (Bin α)}
    (size : counted.length = binCount w) (points : List (Point α)) :
    points.foldlM (countPoint (binCount w) now) counted =
      some (fill (slot w now) Bin.count counted points) := by
  induction points generalizing counted with
  | nil => rfl
  | cons point points ih =>
    rw [List.foldlM_cons, countPoint_eq w now size, fill_cons]
    exact ih (by rw [List.length_modify, size])

/-- Every bin that is asked for exists, and the bins are the points in their slots. -/
theorem bins_eq (w now : α) (points : List (Point α)) : bins w now points =
    some (fill (slot w now) Bin.count (List.replicate (binCount w) emptyBin) points) :=
  foldlM_countPoint w now List.length_replicate points

theorem bins_cell {w now : α} {points : List (Point α)} {counted : List (Bin α)}
    (all : bins w now points = some counted) {i : Nat} {bin : Bin α}
    (found : counted[i]? = some bin) :
    bin = (inSlot (slot w now) i points).foldl Bin.count emptyBin := by
  rw [bins_eq, Option.some.injEq] at all
  rw [← all, fill_cell] at found
  obtain ⟨begun, start, folded⟩ := Option.map_eq_some_iff.mp found
  have empty : begun = emptyBin := List.eq_of_mem_replicate (List.mem_of_getElem? start)
  rw [← folded, empty]

omit [LinearOrder α] [FloorRing α] [IsStrictOrderedRing α] in
theorem sum_measured (points : List (Point α)) :
    (points.map fun point => (measured point).toList.sum).sum =
      (points.filterMap measured).sum := by
  induction points with
  | nil => rfl
  | cons point points ih =>
    cases counted : measured point <;> simp [counted, ih]

omit [Field α] [LinearOrder α] [FloorRing α] [IsStrictOrderedRing α] in
theorem length_measured (points : List (Point α)) :
    (points.map fun point => (measured point).toList.length).sum =
      (points.filterMap measured).length := by
  induction points with
  | nil => rfl
  | cons point points ih =>
    cases counted : measured point with
    | none => simp [counted, ih]
    | some value =>
      simp [counted, ih]
      omega

theorem bins_validCount {w now : α} {points : List (Point α)} {counted : List (Bin α)}
    (all : bins w now points = some counted) :
    (counted.map Bin.validCount).sum = (points.filterMap measured).length := by
  rw [bins_eq, Option.some.injEq] at all
  rw [← all, fill_sum Bin.validCount _ count_validCount, length_measured]
  · simp [emptyBin]
  · intro point _
    rw [List.length_replicate]
    exact slot_lt w now point

theorem bins_angleSum {w now : α} {points : List (Point α)} {counted : List (Bin α)}
    (all : bins w now points = some counted) :
    (counted.map Bin.angleSum).sum = (points.filterMap measured).sum := by
  rw [bins_eq, Option.some.injEq] at all
  rw [← all, fill_sum Bin.angleSum _ count_angleSum, sum_measured]
  · simp [emptyBin]
  · intro point _
    rw [List.length_replicate]
    exact slot_lt w now point

theorem bin_locked_iff {w now : α} {points : List (Point α)} {counted : List (Bin α)}
    (all : bins w now points = some counted) {i : Nat} {bin : Bin α}
    (found : counted[i]? = some bin) : bin.state = key "LOCKED" ↔
      ∃ point ∈ points, binIndex (binCount w) now point = i ∧ IsLocked point := by
  have idle : (emptyBin : Bin α).state ≠ key "LOCKED" := by
    simp only [emptyBin]
    decide
  rw [bins_cell all found, fold_locked]
  simp only [idle, false_or, mem_inSlot, ← slot_cast, Nat.cast_inj, and_assoc]

theorem bins_perm (w now : α) {points points' : List (Point α)} (same : points.Perm points') :
    bins w now points = bins w now points' := by
  rw [bins_eq, bins_eq, fill_perm _ count_commute _ same]

/-- The binning accounts for every point, once, in its place in time. -/
theorem bins_account (w now : α) (points : List (Point α)) :
    ∃ counted, bins w now points = some counted ∧ counted.length = binCount w ∧
      (∀ (i : Nat) (bin : Bin α), counted[i]? = some bin →
        bin = (points.filter fun point => binIndex (binCount w) now point = i).foldl Bin.count
          emptyBin) ∧
      (∀ point ∈ points, 0 ≤ binIndex (binCount w) now point ∧
        binIndex (binCount w) now point ≤ binCount w - 1) ∧
      (counted.map Bin.validCount).sum = (points.filterMap measured).length ∧
      (counted.map Bin.angleSum).sum = (points.filterMap measured).sum ∧
      (∀ first ∈ points, ∀ second ∈ points, first.timestamp ≤ second.timestamp →
        binIndex (binCount w) now first ≤ binIndex (binCount w) now second) ∧
      (∀ (i : Nat) (bin : Bin α), counted[i]? = some bin → (bin.state = key "LOCKED" ↔
        ∃ point ∈ points, binIndex (binCount w) now point = i ∧ IsLocked point)) ∧
      ∀ points', points.Perm points' → bins w now points' = some counted := by
  have all := bins_eq w now points
  refine ⟨_, all, ?_, ?_, ?_, bins_validCount all, bins_angleSum all, ?_, ?_, ?_⟩
  · rw [fill_length, List.length_replicate]
  · intro i bin found
    rw [bins_cell all found, inSlot]
    simp only [← slot_cast, Nat.cast_inj]
  · intro point _
    exact binIndex_range (binCount_positive w) now point
  · intro first _ second _ order
    exact binIndex_mono (binCount w) now order
  · intro i bin found
    exact bin_locked_iff all found
  · intro points' same
    rw [← bins_perm w now same, all]

/- Two measurements four seconds apart, and an invalid point between them. -/

def benchPoint (timestamp : ℚ) (valid : Bool) : Point ℚ :=
  { timestamp := timestamp
    value := some 3
    valid := valid
    activity := 1 / 2
    state := key "TRACKING" }

def gapPoints : List (Point ℚ) := [benchPoint 1 true, benchPoint 3 false, benchPoint 5 true]

theorem gap_account : ∃ counted, bins (320 : ℚ) 10 gapPoints = some counted ∧
    counted.length = 80 ∧ (counted.map Bin.validCount).sum = 2 ∧
    (counted.map Bin.angleSum).sum = 6 ∧ bins (320 : ℚ) 10 gapPoints.reverse = some counted := by
  obtain ⟨counted, all, size, _, _, count, sum, _, _, order⟩ := bins_account (320 : ℚ) 10 gapPoints
  refine ⟨counted, all, ?_, count, ?_, order _ gapPoints.reverse_perm.symm⟩
  · rw [size]
    decide +kernel
  · rw [sum]
    decide +kernel

end SoqTracker.HistoryBins
