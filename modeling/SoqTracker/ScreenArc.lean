import SoqTracker.ScreenHeading

/- The arc of headings that the screen shows, clockwise from its left edge to its
   right. On the arc a heading is placed in proportion. Off the arc it is always put
   at the right edge, since the distance clockwise from the left edge is then beyond
   the whole arc; the left edge is never the one clamped to. -/
namespace SoqTracker.ScreenArc
open ExtendedNumber TelemetryBridge DisplayArithmetic ScreenHeading

variable {α : Type} [Field α] [LinearOrder α] [FloorRing α]

def circularDistance (first second : α) : α :=
  min (clockwise first second) (clockwise second first)

/-- A place at an edge of the screen that is no farther away than the other one. -/
def AtNearerEdge (value leftDeg rightDeg place : α) : Prop :=
  place = -1 ∧ circularDistance value leftDeg ≤ circularDistance value rightDeg ∨
    place = 1 ∧ circularDistance value rightDeg ≤ circularDistance value leftDeg

/-- What a heading's place on the screen should be. -/
structure ArcReading (value leftDeg rightDeg : α) : Prop where
  leftEdge : normalizeHeadingForScreen (.finite leftDeg) leftDeg rightDeg = .finite (-1)
  rightEdge : normalizeHeadingForScreen (.finite rightDeg) leftDeg rightDeg = .finite 1
  increasing : 0 < 2 / clockwise leftDeg rightDeg
  affine : ∀ t, 0 ≤ t → t ≤ clockwise leftDeg rightDeg →
    normalizeHeadingForScreen (.finite (leftDeg + t)) leftDeg rightDeg =
      .finite (2 / clockwise leftDeg rightDeg * t - 1)
  turns : ∀ i j k : Int,
    normalizeHeadingForScreen (.finite (value + 360 * i)) (leftDeg + 360 * j)
        (rightDeg + 360 * k) =
      normalizeHeadingForScreen (.finite value) leftDeg rightDeg
  outside : clockwise leftDeg rightDeg < clockwise leftDeg value → ∃ place,
    normalizeHeadingForScreen (.finite value) leftDeg rightDeg = .finite place ∧
    AtNearerEdge value leftDeg rightDeg place

variable [IsStrictOrderedRing α]

/- Distances. -/

theorem clockwise_turns (start stop : α) (j k : Int) :
    clockwise (start + 360 * j) (stop + 360 * k) = clockwise start stop := by
  obtain ⟨low, high⟩ := clockwise_range start stop
  apply clockwise_unique (k := ⌊(stop - start) / 360⌋ + k - j) _ low high
  rw [clockwise]
  push_cast
  ring

theorem clockwise_ahead (start : α) {t : α} (low : 0 ≤ t) (high : t < 360) :
    clockwise start (start + t) = t :=
  clockwise_unique (k := 0) (by push_cast; ring) low high

theorem clockwise_back {start stop : α} (apart : clockwise start stop ≠ 0) :
    clockwise stop start = 360 - clockwise start stop := by
  obtain ⟨low, high⟩ := clockwise_range start stop
  have positive := lt_of_le_of_ne low apart.symm
  apply clockwise_unique (k := -⌊(stop - start) / 360⌋ - 1)
  · rw [clockwise]
    push_cast
    ring
  · linarith
  · linarith

theorem clockwise_past {leftDeg rightDeg value : α}
    (outside : clockwise leftDeg rightDeg < clockwise leftDeg value) :
    clockwise rightDeg value = clockwise leftDeg value - clockwise leftDeg rightDeg := by
  obtain ⟨low, _⟩ := clockwise_range leftDeg rightDeg
  obtain ⟨_, high⟩ := clockwise_range leftDeg value
  apply clockwise_unique (k := ⌊(value - leftDeg) / 360⌋ - ⌊(rightDeg - leftDeg) / 360⌋)
  · rw [clockwise, clockwise]
    push_cast
    ring
  · linarith
  · linarith

theorem span_positive {leftDeg rightDeg : α} (span : clockwise leftDeg rightDeg ≠ 0) :
    0 < clockwise leftDeg rightDeg :=
  lt_of_le_of_ne (clockwise_range _ _).1 span.symm

theorem right_nearer_iff {leftDeg rightDeg value : α} (span : clockwise leftDeg rightDeg ≠ 0)
    (outside : clockwise leftDeg rightDeg < clockwise leftDeg value) :
    circularDistance value rightDeg ≤ circularDistance value leftDeg ↔
      2 * clockwise leftDeg value ≤ clockwise leftDeg rightDeg + 360 := by
  have positive := span_positive span
  obtain ⟨_, high⟩ := clockwise_range leftDeg value
  have past := clockwise_past outside
  have fromLeft : clockwise value leftDeg = 360 - clockwise leftDeg value :=
    clockwise_back (by linarith)
  have fromRight : clockwise value rightDeg = 360 - clockwise rightDeg value :=
    clockwise_back (by linarith)
  unfold circularDistance
  rw [fromLeft, fromRight, past]
  constructor
  · intro nearer
    by_contra beyond
    have left := min_le_left (360 - clockwise leftDeg value) (clockwise leftDeg value)
    rcases min_le_iff.mp (nearer.trans left) with around | back
    · linarith
    · linarith
  · intro half
    apply le_min
    · exact (min_le_right _ _).trans (by linarith)
    · exact (min_le_right _ _).trans (by linarith)

/- Places. -/

variable {leftDeg rightDeg : α}

theorem normalize_on_arc (span : clockwise leftDeg rightDeg ≠ 0) {t : α} (low : 0 ≤ t)
    (high : t ≤ clockwise leftDeg rightDeg) :
    normalizeHeadingForScreen (.finite (leftDeg + t)) leftDeg rightDeg =
      .finite (2 / clockwise leftDeg rightDeg * t - 1) := by
  have positive := span_positive span
  have least : 0 ≤ t / clockwise leftDeg rightDeg := div_nonneg low positive.le
  have most : t / clockwise leftDeg rightDeg ≤ 1 := (div_le_one positive).mpr high
  have shape : 2 * (t / clockwise leftDeg rightDeg) = 2 / clockwise leftDeg rightDeg * t := by ring
  rw [normalize_finite _ span, clockwise_ahead leftDeg low (high.trans_lt (clockwise_range _ _).2),
    min_eq_right (by linarith), max_eq_right (by linarith), shape]

theorem normalize_off_arc {value : α} (span : clockwise leftDeg rightDeg ≠ 0)
    (outside : clockwise leftDeg rightDeg < clockwise leftDeg value) :
    normalizeHeadingForScreen (.finite value) leftDeg rightDeg = .finite 1 := by
  have beyond : 1 < clockwise leftDeg value / clockwise leftDeg rightDeg :=
    (one_lt_div (span_positive span)).mpr outside
  rw [normalize_finite _ span, min_eq_left (by linarith), max_eq_right (by linarith)]

theorem normalize_turns (value : α) (span : clockwise leftDeg rightDeg ≠ 0) (i j k : Int) :
    normalizeHeadingForScreen (.finite (value + 360 * i)) (leftDeg + 360 * j)
        (rightDeg + 360 * k) =
      normalizeHeadingForScreen (.finite value) leftDeg rightDeg := by
  rw [normalize_finite _ span, normalize_finite _ (by rwa [clockwise_turns]), clockwise_turns,
    clockwise_turns]

theorem nearer_edge_iff {value : α} (span : clockwise leftDeg rightDeg ≠ 0)
    (outside : clockwise leftDeg rightDeg < clockwise leftDeg value) :
    (∃ place, normalizeHeadingForScreen (.finite value) leftDeg rightDeg = .finite place ∧
      AtNearerEdge value leftDeg rightDeg place) ↔
      2 * clockwise leftDeg value ≤ clockwise leftDeg rightDeg + 360 := by
  rw [← right_nearer_iff span outside]
  constructor
  · rintro ⟨place, reading, nearer⟩
    rw [normalize_off_arc span outside, Number.finite.injEq] at reading
    subst reading
    rcases nearer with ⟨left, _⟩ | ⟨_, right⟩
    · norm_num at left
    · exact right
  · intro right
    exact ⟨1, normalize_off_arc span outside, Or.inr ⟨rfl, right⟩⟩

/-- The screen shows a heading where it should exactly on the arc and on the half of
    the rest of the circle that is nearer to the right edge. -/
theorem arc_reading_iff (value leftDeg rightDeg : α) (span : clockwise leftDeg rightDeg ≠ 0) :
    ArcReading value leftDeg rightDeg ↔
      2 * clockwise leftDeg value ≤ clockwise leftDeg rightDeg + 360 := by
  obtain ⟨_, short⟩ := clockwise_range leftDeg rightDeg
  have positive := span_positive span
  constructor
  · intro reading
    rcases lt_or_ge (clockwise leftDeg rightDeg) (clockwise leftDeg value) with outside | inside
    · exact (nearer_edge_iff span outside).mp (reading.outside outside)
    · linarith
  · intro half
    have left := normalize_on_arc span le_rfl positive.le
    have right : clockwise leftDeg rightDeg =
        rightDeg - leftDeg - 360 * ⌊(rightDeg - leftDeg) / 360⌋ := rfl
    have turned := normalize_turns (leftDeg + clockwise leftDeg rightDeg) span
      ⌊(rightDeg - leftDeg) / 360⌋ 0 0
    constructor
    · simpa using left
    · have back : leftDeg + clockwise leftDeg rightDeg + 360 * ⌊(rightDeg - leftDeg) / 360⌋ =
          rightDeg := by
        rw [right]
        ring
      have edge := normalize_on_arc span positive.le le_rfl
      rw [div_mul_cancel₀ _ span] at edge
      rw [edge, back] at turned
      norm_num at turned
      exact turned
    · exact div_pos two_pos positive
    · intro t low high
      exact normalize_on_arc span low high
    · exact normalize_turns value span
    · intro outside
      exact (nearer_edge_iff span outside).mpr half

/- Ten degrees past the left edge. -/

theorem benchSpan : clockwise (screenLeftHeadingDeg : ℚ) screenRightHeadingDeg ≠ 0 := by
  rw [screen_span]
  norm_num

/-- A tracker turned ten degrees past the left edge is drawn at the right one. -/
theorem left_of_screen_drawn_right :
    headingNormalized (benchBridge (.finite 20)) = .finite 1 ∧
    circularDistance 20 screenLeftHeadingDeg < circularDistance (20 : ℚ) screenRightHeadingDeg ∧
    ¬ ArcReading (20 : ℚ) screenLeftHeadingDeg screenRightHeadingDeg := by
  have place : clockwise (screenLeftHeadingDeg : ℚ) 20 = 350 := by decide +kernel
  refine ⟨by decide +kernel, by decide +kernel, ?_⟩
  intro reading
  have half := (nearer_edge_iff benchSpan (by rw [screen_span, place]; norm_num)).mp
    (reading.outside (by rw [screen_span, place]; norm_num))
  rw [screen_span, place] at half
  norm_num at half

theorem right_of_screen_reads :
    ArcReading (200 : ℚ) screenLeftHeadingDeg screenRightHeadingDeg := by
  have place : clockwise (screenLeftHeadingDeg : ℚ) 200 = 170 := by decide +kernel
  refine (arc_reading_iff 200 _ _ benchSpan).mpr ?_
  rw [screen_span, place]
  norm_num

end SoqTracker.ScreenArc
