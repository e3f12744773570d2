import SoqTracker.DisplayArithmetic
import Mathlib.Algebra.Field.Rat
import Mathlib.Algebra.Order.Ring.Rat

/- The two heading readouts of the dashboard: the displayed angle, signed about
   zero, and the tilt of the tracker glyph between the two screen edges. Only the
   first of them is centred on the heading zero. -/
namespace SoqTracker.ScreenHeading
open ExtendedNumber Json TelemetryBridge DisplayArithmetic

variable {α : Type} [Field α] [LinearOrder α]

/- The properties. -/

def trackerHeadingDeg (b : Bridge α) : Number α := b.trackerHeadingDeg.getD (.finite 0)

def imuValid (b : Bridge α) : Bool := b.imuValid && b.trackerHeadingDeg.isSome

def headingAvailable (b : Bridge α) : Bool := b.trackerHeadingDeg.isSome

section Properties
variable [FloorRing α]

def headingNormalized (b : Bridge α) : Number α :=
  if !imuValid b then .finite 0
  else
    normalizeHeadingForScreen ((trackerHeadingDeg b).add (.finite headingOffsetDeg))
      screenLeftHeadingDeg screenRightHeadingDeg

def displayAngleDeg (b : Bridge α) : Number α :=
  if !headingAvailable b then .finite 0
  else headingToDisplayAngleDeg ((trackerHeadingDeg b).add (.finite headingOffsetDeg))

def trackerTiltDeg (b : Bridge α) : Number α := (headingNormalized b).scale 26

end Properties

/- Signs. -/

def SameSide (x y : Number α) : Prop :=
  ((Number.finite 0).lt x = true ↔ (Number.finite 0).lt y = true) ∧
    (x.lt (.finite 0) = true ↔ y.lt (.finite 0) = true) ∧ (x = .finite 0 ↔ y = .finite 0)

instance (x y : Number α) : Decidable (SameSide x y) := by
  unfold SameSide; infer_instance

theorem clamp_side {v low high : α} (left : low < 0) (right : 0 < high) :
    (0 < max low (min high v) ↔ 0 < v) ∧ (max low (min high v) < 0 ↔ v < 0) ∧
      (max low (min high v) = 0 ↔ v = 0) := by
  have positive : 0 < max low (min high v) ↔ 0 < v := by
    simp [right, left.not_gt]
  have negative : max low (min high v) < 0 ↔ v < 0 := by
    simp [left, right.not_gt]
  refine ⟨positive, negative, ?_⟩
  have sides := lt_trichotomy v 0
  have sides' := lt_trichotomy (max low (min high v)) 0
  constructor
  · intro zero
    rcases sides with below | same | above
    · exact absurd (negative.mpr below) (by simp [zero])
    · exact same
    · exact absurd (positive.mpr above) (by simp [zero])
  · intro zero
    rcases sides' with below | same | above
    · exact absurd (negative.mp below) (by simp [zero])
    · exact same
    · exact absurd (positive.mp above) (by simp [zero])

theorem sameSide_clamped {v w low high low' high' : α} (left : low < 0) (right : 0 < high)
    (left' : low' < 0) (right' : 0 < high') :
    SameSide (.finite (max low (min high v))) (.finite (max low' (min high' w))) ↔
      (0 < v ↔ 0 < w) ∧ (v < 0 ↔ w < 0) ∧ (v = 0 ↔ w = 0) := by
  obtain ⟨positive, negative, zero⟩ := clamp_side (v := v) left right
  obtain ⟨positive', negative', zero'⟩ := clamp_side (v := w) left' right'
  simp only [SameSide, Number.lt_finite, decide_eq_true_eq, Number.finite.injEq, positive,
    negative, zero, positive', negative', zero']

/- The glyph on finite headings. -/

variable [FloorRing α] [IsStrictOrderedRing α]

theorem screen_span : clockwise (screenLeftHeadingDeg : α) screenRightHeadingDeg = 157 :=
  clockwise_unique (k := 0) (by norm_num [screenLeftHeadingDeg, screenRightHeadingDeg])
    (by norm_num) (by norm_num)

theorem screen_finite (x : α) {k : Int} (low : -180 < x - 360 * k) (high : x - 360 * k ≤ 180) :
    normalizeHeadingForScreen (.finite x) screenLeftHeadingDeg screenRightHeadingDeg =
      .finite (max (-1) (min 1 (2 * (1 / 157 *
        if x - 360 * k < 30 then x - 360 * k + 330 else x - 360 * k - 30) - 1))) := by
  have place : clockwise screenLeftHeadingDeg x =
      if x - 360 * k < 30 then x - 360 * k + 330 else x - 360 * k - 30 := by
    by_cases before : x - 360 * k < 30
    · rw [if_pos before]
      apply clockwise_unique (k := k - 1)
      · push_cast [screenLeftHeadingDeg]
        ring
      · linarith
      · linarith
    · rw [if_neg before]
      apply clockwise_unique (k := k)
      · push_cast [screenLeftHeadingDeg]
        ring
      · linarith
      · linarith
  rw [normalize_finite x (by rw [screen_span]; norm_num), screen_span, place,
    ← one_div_mul_eq_div]

/-- The readouts of one heading agree on its side only on two arcs to its right. -/
theorem finite_sides (x : α) :
    SameSide (headingToDisplayAngleDeg (.finite x))
        (normalizeHeadingForScreen (.finite x) screenLeftHeadingDeg screenRightHeadingDeg) ↔
      ∃ k : Int, 0 < x - 360 * k ∧ x - 360 * k < 30 ∨
        217 / 2 < x - 360 * k ∧ x - 360 * k ≤ 180 := by
  obtain ⟨k, wrapped, low, high⟩ := wrapSigned_spec x
  rw [headingToDisplayAngleDeg, wrapped, clamp_finite, screen_finite x low high,
    sameSide_clamped (by norm_num) (by norm_num) (by norm_num) (by norm_num)]
  constructor
  · rintro ⟨right, _, _⟩
    refine ⟨k, ?_⟩
    by_cases before : x - 360 * k < 30
    · rw [if_pos before] at right
      exact Or.inl ⟨right.mpr (by linarith), before⟩
    · rw [if_neg before] at right
      have ahead := right.mp (by linarith)
      exact Or.inr ⟨by linarith, high⟩
  · rintro ⟨j, near | far⟩
    · obtain rfl := turn_unique (j := j) (by linarith [near.1]) (by linarith [near.2]) low high
      rw [if_pos near.2]
      refine ⟨⟨fun _ => by linarith, fun _ => near.1⟩, ⟨?_, ?_⟩, ⟨?_, ?_⟩⟩
      all_goals
        intro side
        linarith [near.1]
    · obtain rfl := turn_unique (j := j) (by linarith [far.1]) far.2 low high
      rw [if_neg (by linarith [far.1])]
      refine ⟨⟨fun _ => by linarith [far.1], fun _ => by linarith [far.1]⟩, ⟨?_, ?_⟩, ⟨?_, ?_⟩⟩
      all_goals
        intro side
        linarith [far.1]

theorem nonfinite_sides {v : Number α} (lost : ¬ v.IsFinite) :
    SameSide (headingToDisplayAngleDeg v)
      (normalizeHeadingForScreen v screenLeftHeadingDeg screenRightHeadingDeg) := by
  have remainder : v.modulo 360 = .nan := by
    cases v with
    | finite x => exact absurd trivial lost
    | posInf => rfl
    | negInf => rfl
    | nan => rfl
  have shifted : (v.add (.finite 180)).modulo 360 = .nan := by
    cases v with
    | finite x => exact absurd trivial lost
    | posInf => rfl
    | negInf => rfl
    | nan => rfl
  have angle : headingToDisplayAngleDeg v = .finite 90 := by
    simp only [headingToDisplayAngleDeg, wrapSignedDegrees, shifted, Number.sub, Number.nan_add]
    rw [if_neg (by simp), clamp_nan _ _ (by norm_num)]
  have place : normalizeHeadingForScreen v screenLeftHeadingDeg screenRightHeadingDeg =
      .finite (1 : α) := by
    have wrapped : wrapDegrees v = .nan := by simp [wrapDegrees, remainder]
    have width : (screenRightHeadingDeg : α) - screenLeftHeadingDeg -
        360 * ⌊((screenRightHeadingDeg : α) - screenLeftHeadingDeg) / 360⌋ = 157 := screen_span
    simp only [normalizeHeadingForScreen, width, wrapped, Number.sub, Number.nan_add, Number.modulo,
      Number.scale]
    rw [if_neg (by norm_num), clamp_nan _ _ (by norm_num)]
  rw [angle, place]
  norm_num [SameSide]

/- The readouts of the dashboard. -/

omit [FloorRing α] in
theorem scale_side {c : α} (positive : 0 < c) (x : Number α) : SameSide x (x.scale c) := by
  cases x with
  | finite v => simp [SameSide, positive, positive.ne', mul_neg_iff, positive.not_gt]
  | posInf => simp [SameSide, Number.scale, positive]
  | negInf => simp [SameSide, Number.scale, positive]
  | nan => simp [SameSide, Number.scale]

/-- With a valid IMU the angle and the glyph name the same side exactly when the
    heading lies on one of two arcs, or is no finite number. -/
theorem readouts_agree_iff {b : Bridge α} (valid : imuValid b = true) :
    SameSide (headingNormalized b) (trackerTiltDeg b) ∧
    (SameSide (displayAngleDeg b) (headingNormalized b) ↔
      ∀ x, b.trackerHeadingDeg = some (.finite x) → ∃ k : Int,
        0 < x - 360 * k ∧ x - 360 * k < 30 ∨ 217 / 2 < x - 360 * k ∧ x - 360 * k ≤ 180) := by
  refine ⟨scale_side (by norm_num) _, ?_⟩
  have available : b.trackerHeadingDeg.isSome = true := by
    simp only [imuValid, Bool.and_eq_true] at valid
    exact valid.2
  obtain ⟨heading, given⟩ := Option.isSome_iff_exists.mp available
  have angle : displayAngleDeg b = headingToDisplayAngleDeg (heading.add (.finite 0)) := by
    simp [displayAngleDeg, headingAvailable, trackerHeadingDeg, headingOffsetDeg, given]
  have place : headingNormalized b = normalizeHeadingForScreen (heading.add (.finite 0))
      screenLeftHeadingDeg screenRightHeadingDeg := by
    simp [headingNormalized, valid, trackerHeadingDeg, headingOffsetDeg, given]
  rw [angle, place, given]
  cases heading with
  | finite x =>
    rw [Number.add_finite, add_zero, finite_sides]
    simp
  | posInf =>
    have same := nonfinite_sides (v := (.posInf : Number α)) (by simp [Number.IsFinite])
    simpa [Number.add] using same
  | negInf =>
    have same := nonfinite_sides (v := (.negInf : Number α)) (by simp [Number.IsFinite])
    simpa [Number.add] using same
  | nan =>
    have same := nonfinite_sides (v := (.nan : Number α)) (by simp [Number.IsFinite])
    simpa using same

/- A right turn of a quarter circle. -/

def benchBridge (heading : Number ℚ) : Bridge ℚ :=
  { initial 10 with trackerHeadingDeg := some heading, imuValid := true }

/-- At 90 degrees the angle says right and the glyph leans left. -/
theorem quarter_right_leans_left : imuValid (benchBridge (.finite 90)) = true ∧
    displayAngleDeg (benchBridge (.finite 90)) = .finite 90 ∧
    (headingNormalized (benchBridge (.finite 90))).lt (.finite 0) = true ∧
    ¬ SameSide (displayAngleDeg (benchBridge (.finite 90)))
      (headingNormalized (benchBridge (.finite 90))) := by
  decide +kernel

theorem far_right_agrees : SameSide (displayAngleDeg (benchBridge (.finite 150)))
    (headingNormalized (benchBridge (.finite 150))) := by
  refine (readouts_agree_iff (by decide +kernel)).2.mpr ?_
  intro x same
  have value : x = 150 := by simpa [benchBridge] using same.symm
  exact ⟨0, Or.inr (by norm_num [value])⟩

end SoqTracker.ScreenHeading
