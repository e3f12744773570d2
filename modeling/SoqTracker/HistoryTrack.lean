import SoqTracker.HistoryBins

/- The track that HistoryPanel.qml draws through its bins. Lines are drawn between
   neighbours in the list of track points, which no longer shows the bins that were
   left out between them. -/
namespace SoqTracker.HistoryTrack
open Json Controller HistoryPanel HistoryBins Buckets

/- Neighbours. -/

section Neighbours
variable {τ : Type}

def neighbours (points : List τ) : List (τ × τ) := points.zip points.tail

theorem neighbours_cons (first second : τ) (points : List τ) :
    neighbours (first :: second :: points) = (first, second) :: neighbours (second :: points) := rfl

theorem neighbours_map {σ : Type} (f : τ → σ) (points : List τ) :
    neighbours (points.map f) = (neighbours points).map (Prod.map f f) := by
  rw [neighbours, ← List.map_tail, List.zip_map, neighbours]

theorem exists_neighbours_around {place : τ → Nat} {points : List τ}
    (sorted : points.Pairwise fun first second => place first < place second) {a b : τ}
    (left : a ∈ points) (right : b ∈ points) {i : Nat} (above : place a < i) (below : i < place b)
    (missing : ∀ c ∈ points, place c ≠ i) :
    ∃ pair ∈ neighbours points, place pair.1 < i ∧ i < place pair.2 := by
  induction points generalizing a with
  | nil => simp at left
  | cons first points ih =>
    obtain ⟨least, rest⟩ := List.pairwise_cons.mp sorted
    have later : b ∈ points := by
      rcases List.mem_cons.mp right with rfl | later
      · rcases List.mem_cons.mp left with rfl | after
        · omega
        · have order := least a after
          omega
      · exact later
    cases points with
    | nil => simp at later
    | cons second points =>
      rcases Nat.lt_or_gt_of_ne (missing second (by simp)) with before | beyond
      · obtain ⟨pair, mem, around⟩ := ih rest (by simp) later before
          (fun c mem => missing c (by simp [mem]))
        refine ⟨pair, ?_, around⟩
        rw [neighbours_cons]
        exact List.mem_cons_of_mem _ mem
      · have start : a = first := by
          rcases List.mem_cons.mp left with same | after
          · exact same
          · rcases List.mem_cons.mp after with rfl | further
            · omega
            · have order := (List.pairwise_cons.mp rest).1 a further
              omega
        subst start
        exact ⟨(a, second), by simp [neighbours_cons], above, beyond⟩

end Neighbours

/- Drawing. -/

variable {α : Type} [Field α]

inductive PathStep (α : Type) where
  | moveTo (x y : α)
  | quadraticCurveTo (cx cy x y : α)
  | lineTo (x y : α)

structure Stroke (α : Type) where
  path : List (PathStep α)
  lineWidth : Nat
  strokeStyle : Text

def curve (prev curr : TrackPoint α) : PathStep α :=
  .quadraticCurveTo prev.x prev.y ((prev.x + curr.x) / 2) ((prev.y + curr.y) / 2)

def underlay (points : List (TrackPoint α)) : Stroke α :=
  { path :=
      (points.head?.toList.map fun first => .moveTo first.x first.y) ++
        ((neighbours points).map fun pair => curve pair.1 pair.2) ++
        points.getLast?.toList.map fun last => .lineTo last.x last.y
    lineWidth := 16
    strokeStyle := key "rgba(10,132,255,0.10)" }

omit [Field α] in
def segment (prev curr : TrackPoint α) : Stroke α :=
  { path := [.moveTo prev.x prev.y, .lineTo curr.x curr.y]
    lineWidth := 4
    strokeStyle :=
      if prev.state = key "LOCKED" ∨ curr.state = key "LOCKED" then key "#30d158"
      else key "#0a84ff" }

def strokes (points : List (TrackPoint α)) : List (Stroke α) :=
  if 2 ≤ points.length then
    underlay points :: (neighbours points).map fun pair => segment pair.1 pair.2
  else []

/- The bins behind the points. -/

variable [LinearOrder α] [FloorRing α]

def placed (w h : α) (bins : List (Bin α)) : List (Nat × TrackPoint α) :=
  bins.zipIdx.filterMap fun bin => (trackPoint w h bin).map fun point => (bin.2, point)

def lines (w h : α) (bins : List (Bin α)) : List ((Nat × TrackPoint α) × (Nat × TrackPoint α)) :=
  neighbours (placed w h bins)

theorem placed_points (w h : α) (bins : List (Bin α)) :
    (placed w h bins).map Prod.snd = trackPoints w h bins := by
  rw [placed, trackPoints, List.map_filterMap]
  congr 1
  funext bin
  cases trackPoint w h bin <;> rfl

theorem strokes_lines (w h : α) (bins : List (Bin α))
    (several : 2 ≤ (trackPoints w h bins).length) :
    (underlay (trackPoints w h bins)).path =
        ((trackPoints w h bins).head?.toList.map fun first => PathStep.moveTo first.x first.y) ++
          ((lines w h bins).map fun line => curve line.1.2 line.2.2) ++
          (trackPoints w h bins).getLast?.toList.map (fun last => PathStep.lineTo last.x last.y) ∧
      strokes (trackPoints w h bins) = underlay (trackPoints w h bins) ::
        (lines w h bins).map fun line => segment line.1.2 line.2.2 := by
  have ends : neighbours (trackPoints w h bins) =
      (lines w h bins).map (Prod.map Prod.snd Prod.snd) := by
    rw [← placed_points, neighbours_map, lines]
  constructor
  · rw [underlay, ends, List.map_map]
    rfl
  · rw [strokes, if_pos several, ends, List.map_map]
    rfl

theorem mem_placed_iff (w h : α) (bins : List (Bin α)) (i : Nat) :
    (∃ point, (i, point) ∈ placed w h bins) ↔
      ∃ bin, bins[i]? = some bin ∧ bin.validCount ≠ 0 := by
  simp only [placed, List.mem_filterMap, Option.map_eq_some_iff, Prod.mk.injEq, Prod.exists,
    List.mem_zipIdx_iff_getElem?]
  constructor
  · rintro ⟨point, bin, j, found, point', shown, rfl, rfl⟩
    refine ⟨bin, found, ?_⟩
    intro empty
    simp [trackPoint, empty] at shown
  · rintro ⟨bin, found, filled⟩
    exact ⟨_, bin, i, found, _, by rw [trackPoint, if_neg filled], rfl, rfl⟩

theorem placed_sorted (w h : α) (bins : List (Bin α)) :
    (placed w h bins).Pairwise fun first second => first.1 < second.1 := by
  have numbered : bins.zipIdx.Pairwise fun first second => first.2 < second.2 := by
    rw [← List.pairwise_map (f := Prod.snd) (R := fun i j : Nat => i < j), List.zipIdx_map_snd]
    exact List.pairwise_lt_range'
  apply numbered.filterMap
  intro first second order one shown two shown'
  obtain ⟨_, _, rfl⟩ := Option.map_eq_some_iff.mp shown
  obtain ⟨_, _, rfl⟩ := Option.map_eq_some_iff.mp shown'
  exact order

/- Gaps. -/

/-- No line passes over a bin without valid measurements. -/
def GapsShown (w h now : α) (points : List (Point α)) : Prop :=
  ∀ counted, bins w now points = some counted → ∀ line ∈ lines w h counted,
    ∀ (i : Nat) (bin : Bin α), line.1.1 < i → i < line.2.1 → counted[i]? = some bin →
      bin.validCount ≠ 0

/-- Between the bins of two valid measurements every bin has one. -/
def Unbroken (w now : α) (points : List (Point α)) : Prop :=
  ∀ first ∈ points, ∀ second ∈ points, (measured first).isSome = true →
    (measured second).isSome = true → ∀ i : Int, binIndex (binCount w) now first < i →
    i < binIndex (binCount w) now second → ∃ point ∈ points, (measured point).isSome = true ∧
      binIndex (binCount w) now point = i

variable [IsStrictOrderedRing α]

theorem filled_iff {w now : α} {points : List (Point α)} {counted : List (Bin α)}
    (all : bins w now points = some counted) (i : Nat) :
    (∃ bin, counted[i]? = some bin ∧ bin.validCount ≠ 0) ↔
      ∃ point ∈ points, (measured point).isSome = true ∧ slot w now point = i := by
  have content : ∀ bin, counted[i]? = some bin → (bin.validCount ≠ 0 ↔
      ∃ point ∈ points, (measured point).isSome = true ∧ slot w now point = i) := by
    intro bin found
    rw [bins_cell all found, fold_counted]
    simp only [emptyBin, ne_eq, not_true, false_or, mem_inSlot, and_assoc, and_comm]
  constructor
  · rintro ⟨bin, found, filled⟩
    exact (content bin found).mp filled
  · rintro ⟨point, mem, valid, placed⟩
    have inside : i < counted.length := by
      have same := all
      rw [bins_eq, Option.some.injEq] at same
      rw [← same, fill_length, List.length_replicate, ← placed]
      exact slot_lt w now point
    have found := List.getElem?_eq_getElem inside
    exact ⟨_, found, (content _ found).mpr ⟨point, mem, valid, placed⟩⟩

/-- Where gaps are shown there are none: the two ends of a gap would be neighbours. -/
theorem unbroken_of_shown {w h now : α} {points : List (Point α)}
    (shown : GapsShown w h now points) : Unbroken w now points := by
  intro first mem second mem' valid valid' i above below
  obtain ⟨counted, all⟩ : ∃ counted, bins w now points = some counted := ⟨_, bins_eq w now points⟩
  lift i to ℕ using (slot_cast w now first ▸ Int.natCast_nonneg _).trans above.le
  simp only [← slot_cast, Nat.cast_lt, Nat.cast_inj] at above below ⊢
  rw [← filled_iff all]
  by_cases here : ∃ point, (i, point) ∈ placed w h counted
  · exact (mem_placed_iff w h counted i).mp here
  · obtain ⟨a, left⟩ := (mem_placed_iff w h counted (slot w now first)).mpr
      ((filled_iff all _).mpr ⟨first, mem, valid, rfl⟩)
    obtain ⟨b, right⟩ := (mem_placed_iff w h counted (slot w now second)).mpr
      ((filled_iff all _).mpr ⟨second, mem', valid', rfl⟩)
    obtain ⟨line, drawn, start, stop⟩ := exists_neighbours_around (placed_sorted w h counted)
      left right above below (fun c mem same => here ⟨c.2, by rw [← same]; exact mem⟩)
    have inside : i < counted.length := by
      obtain ⟨bin, found, _⟩ := (filled_iff all _).mpr ⟨second, mem', valid', rfl⟩
      exact below.trans (List.getElem?_eq_some_iff.mp found).1
    have found := List.getElem?_eq_getElem inside
    exact ⟨_, found, shown counted all line drawn i _ start stop found⟩

omit [IsStrictOrderedRing α] in
theorem line_ends {w h : α} {bins : List (Bin α)}
    {line : (Nat × TrackPoint α) × (Nat × TrackPoint α)} (drawn : line ∈ lines w h bins) :
    (∃ bin, bins[line.1.1]? = some bin ∧ bin.validCount ≠ 0) ∧
      ∃ bin, bins[line.2.1]? = some bin ∧ bin.validCount ≠ 0 := by
  obtain ⟨start, stop⟩ := List.of_mem_zip drawn
  constructor
  · exact (mem_placed_iff w h bins _).mp ⟨line.1.2, start⟩
  · exact (mem_placed_iff w h bins _).mp ⟨line.2.2, List.mem_of_mem_tail stop⟩

theorem shown_of_unbroken {w h now : α} {points : List (Point α)}
    (unbroken : Unbroken w now points) : GapsShown w h now points := by
  intro counted all line drawn i bin above below found
  obtain ⟨start, stop⟩ := line_ends drawn
  obtain ⟨first, mem, valid, left⟩ := (filled_iff all _).mp start
  obtain ⟨second, mem', valid', right⟩ := (filled_iff all _).mp stop
  rw [← left] at above
  rw [← right] at below
  have between := unbroken first mem second mem' valid valid' i
  simp only [← slot_cast, Nat.cast_lt, Nat.cast_inj] at between
  obtain ⟨bin', found', filled⟩ := (filled_iff all i).mpr (between above below)
  rw [found, Option.some.injEq] at found'
  rwa [found']

/-- Gaps are shown exactly in a chart that has none. -/
theorem gaps_shown_iff (w h now : α) (points : List (Point α)) :
    (∀ counted, bins w now points = some counted → 2 ≤ (trackPoints w h counted).length →
      (underlay (trackPoints w h counted)).path =
        ((trackPoints w h counted).head?.toList.map fun first => .moveTo first.x first.y) ++
          ((lines w h counted).map fun line => curve line.1.2 line.2.2) ++
          (trackPoints w h counted).getLast?.toList.map (fun last => .lineTo last.x last.y) ∧
      strokes (trackPoints w h counted) = underlay (trackPoints w h counted) ::
        (lines w h counted).map fun line => segment line.1.2 line.2.2) ∧
    (GapsShown w h now points ↔ Unbroken w now points) := by
  constructor
  · intro counted _ several
    exact strokes_lines w h counted several
  · exact ⟨unbroken_of_shown, shown_of_unbroken⟩

/- Points on a chart of 80 bins. -/

/-- The track runs straight through the seconds without a valid measurement. -/
theorem track_bridges_gap : ¬ GapsShown 320 100 10 gapPoints := by
  intro shown
  obtain ⟨point, mem, valid, placed⟩ := unbroken_of_shown shown
    (benchPoint 1 true) (by simp [gapPoints]) (benchPoint 5 true) (by simp [gapPoints]) rfl rfl
    20 (by decide +kernel) (by decide +kernel)
  have vacant : ∀ point ∈ gapPoints, ¬ ((measured point).isSome = true ∧
      binIndex (binCount (320 : ℚ)) 10 point = 20) := by
    decide +kernel
  exact vacant point mem ⟨valid, placed⟩

def steadyPoints : List (Point ℚ) :=
  [benchPoint 1 true, benchPoint (9 / 8) true, benchPoint (5 / 4) true]

theorem steady_track_shown : GapsShown 320 100 10 steadyPoints := by
  refine (gaps_shown_iff 320 100 10 steadyPoints).2.mpr ?_
  have near : ∀ point ∈ steadyPoints, 8 ≤ binIndex (binCount (320 : ℚ)) 10 point ∧
      binIndex (binCount (320 : ℚ)) 10 point ≤ 10 := by
    decide +kernel
  intro first mem second mem' _ _ i above below
  obtain ⟨low, _⟩ := near first mem
  obtain ⟨_, high⟩ := near second mem'
  have middle : i = 9 := by omega
  rw [middle]
  exact ⟨benchPoint (9 / 8) true, by simp [steadyPoints], rfl, by decide +kernel⟩

end SoqTracker.HistoryTrack
