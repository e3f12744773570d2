import SoqTracker.Controller
import SoqTracker.Averages

/- The history chart, HistoryPanel.qml, up to the points of the drawn track. On
   each repaint the history is counted into bins from the oldest time shown to
   now. The drawing itself is left out here. -/
namespace SoqTracker.HistoryPanel
open Json Controller

variable {α : Type} [Field α] [LinearOrder α]

/-- A history entry with numbers for its time, value and activity. -/
structure Point (α : Type) where
  timestamp : α
  value : Option α
  valid : Bool
  activity : α
  state : Text

structure Bin (α : Type) where
  activity : α
  validCount : Nat
  angleSum : α
  state : Text

structure TrackPoint (α : Type) where
  x : α
  y : α
  state : Text
  activity : α

def clamp (value low high : α) : α := max low (min high value)

def mapY (h value : α) : α := h - clamp ((value + 90) / 180) 0 1 * h

/- Binning. -/

def emptyBin : Bin α := ⟨0, 0, 0, key "IDLE"⟩

def Bin.count (bin : Bin α) (point : Point α) : Bin α :=
  let active := { bin with activity := max bin.activity point.activity }
  match point.valid, point.value with
  | true, some value =>
      { active with
        validCount := bin.validCount + 1
        angleSum := bin.angleSum + value
        state :=
          if point.state = key "LOCKED" then key "LOCKED"
          else if bin.state ≠ key "LOCKED" then key "TRACKING" else bin.state }
  | _, _ => active

variable [FloorRing α]

def binCount (w : α) : Nat := max 80 ⌊w / 4⌋.toNat

def binIndex (binCount : Nat) (now : α) (point : Point α) : Int :=
  ⌊clamp ((point.timestamp - (now - 10)) / 10) 0 (999999 / 1000000) * binCount⌋

/-- The bins with one point more; none where bins[index] does not exist. -/
def countPoint (binCount : Nat) (now : α) (bins : List (Bin α)) (point : Point α) :
    Option (List (Bin α)) :=
  match binIndex binCount now point with
  | .ofNat index => bins[index]?.map fun bin => bins.set index (bin.count point)
  | .negSucc _ => none

def bins (w now : α) (points : List (Point α)) : Option (List (Bin α)) :=
  points.foldlM (countPoint (binCount w) now) (List.replicate (binCount w) emptyBin)

def trackPoint (w h : α) (bin : Bin α × Nat) : Option (TrackPoint α) :=
  if bin.1.validCount = 0 then none
  else some
    { x := (bin.2 + 1 / 2) / (binCount w : α) * w
      y := mapY h (bin.1.angleSum / bin.1.validCount)
      state := bin.1.state
      activity := bin.1.activity }

def trackPoints (w h : α) (bins : List (Bin α)) : List (TrackPoint α) :=
  bins.zipIdx.filterMap (trackPoint w h)

/- The angles of the bins. -/

def AnglesWithin (low high : α) (bin : Bin α) : Prop :=
  low * bin.validCount ≤ bin.angleSum ∧ bin.angleSum ≤ high * bin.validCount

variable [IsStrictOrderedRing α]

omit [FloorRing α] in
theorem count_within {low high : α} {bin : Bin α} (within : AnglesWithin low high bin)
    {point : Point α} (inside : ∀ v ∈ point.value, v ∈ Set.Icc low high) :
    AnglesWithin low high (bin.count point) := by
  unfold Bin.count
  split
  · rename_i value valid given
    obtain ⟨below, above⟩ := inside value given
    constructor
    · push_cast
      linarith [within.1]
    · push_cast
      linarith [within.2]
  · exact within

theorem countPoint_within {low high : α} {count : Nat} {now : α} {bins bins' : List (Bin α)}
    {point : Point α} (counted : countPoint count now bins point = some bins')
    (within : ∀ bin ∈ bins, AnglesWithin low high bin)
    (inside : ∀ v ∈ point.value, v ∈ Set.Icc low high) :
    ∀ bin ∈ bins', AnglesWithin low high bin := by
  unfold countPoint at counted
  split at counted
  · rename_i index _
    obtain ⟨old, found, same⟩ := Option.map_eq_some_iff.mp counted
    intro bin mem
    rw [← same] at mem
    rcases List.mem_or_eq_of_mem_set mem with kept | new
    · exact within bin kept
    · rw [new]
      exact count_within (within old (List.mem_of_getElem? found)) inside
  · simp at counted

theorem bins_within {low high w now : α} {points : List (Point α)} {counted : List (Bin α)}
    (all : bins w now points = some counted)
    (inside : ∀ point ∈ points, ∀ v ∈ point.value, v ∈ Set.Icc low high) :
    ∀ bin ∈ counted, AnglesWithin low high bin := by
  have started : ∀ bin ∈ List.replicate (binCount w) (emptyBin : Bin α),
      AnglesWithin low high bin := by
    intro bin mem
    rw [List.eq_of_mem_replicate mem]
    simp [AnglesWithin, emptyBin]
  unfold bins at all
  generalize List.replicate (binCount w) (emptyBin : Bin α) = begun at all started
  induction points generalizing begun with
  | nil =>
    rw [← Option.some.inj all]
    exact started
  | cons point points ih =>
    rw [List.foldlM_cons] at all
    obtain ⟨bins', step, later⟩ := Option.bind_eq_some_iff.mp all
    have next := countPoint_within step started (inside point (by simp))
    exact ih (fun p mem => inside p (by simp [mem])) bins' later next

omit [Field α] [FloorRing α] [IsStrictOrderedRing α] in
theorem clamp_inside {value low high : α} (inside : value ∈ Set.Icc low high) :
    clamp value low high = value := by
  rw [clamp, min_eq_right inside.2, max_eq_right inside.1]

theorem mapY_inside (h : α) {value : α} (inside : value ∈ Set.Icc (-90) 90) :
    mapY h value = h - (value + 90) / 180 * h := by
  have ratio : (value + 90) / 180 ∈ Set.Icc (0 : α) 1 := by
    constructor
    · apply div_nonneg
      · linarith [inside.1]
      · norm_num
    · rw [div_le_one (by norm_num)]
      linarith [inside.2]
  rw [mapY, clamp_inside ratio]

theorem trackPoint_bin {low high w h : α} {bins : List (Bin α)}
    (within : ∀ bin ∈ bins, AnglesWithin low high bin) {track : TrackPoint α}
    (drawn : track ∈ trackPoints w h bins) :
    ∃ bin ∈ bins, track.y = mapY h (bin.angleSum / bin.validCount) ∧
      bin.angleSum / bin.validCount ∈ Set.Icc low high := by
  obtain ⟨⟨bin, i⟩, placed, shown⟩ := List.mem_filterMap.mp drawn
  have mem : bin ∈ bins := List.fst_mem_of_mem_zipIdx placed
  unfold trackPoint at shown
  by_cases empty : bin.validCount = 0
  · simp [empty] at shown
  · simp only [empty, if_false, Option.some.injEq] at shown
    have positive : (0 : α) < bin.validCount := by
      rw [Nat.cast_pos]
      exact Nat.pos_of_ne_zero empty
    obtain ⟨below, above⟩ := within bin mem
    refine ⟨bin, mem, by rw [← shown], ?_, ?_⟩
    · rw [le_div_iff₀ positive]
      exact below
    · rw [div_le_iff₀ positive]
      exact above

end SoqTracker.HistoryPanel
