import SoqTracker.DisplayArithmetic
import Mathlib.Data.Sign.Basic
import Mathlib.Topology.Instances.Real.Lemmas

/- The heading readouts on the circle. A heading is first brought into the half-open
   turn about zero; both readouts then follow it at most linearly, so the only place
   where they can jump is the end of that turn, straight behind. -/
namespace SoqTracker.HeadingCircle
open ExtendedNumber TelemetryBridge DisplayArithmetic

variable {α : Type} [Field α] [LinearOrder α]

/- Readouts that follow a change. -/

/-- A change that is nothing or goes the way of its cause, and no further. -/
def Follows (cause change : α) : Prop :=
  (change = 0 ∨ SignType.sign change = SignType.sign cause) ∧ |change| ≤ |cause|

section Limits
variable [IsStrictOrderedRing α]

theorem follows_of_between {cause change : α} (up : 0 ≤ cause → 0 ≤ change ∧ change ≤ cause)
    (down : cause ≤ 0 → cause ≤ change ∧ change ≤ 0) : Follows cause change := by
  rcases lt_trichotomy cause 0 with negative | none | positive
  · obtain ⟨low, high⟩ := down negative.le
    constructor
    · rcases high.lt_or_eq with moved | still
      · exact Or.inr (by rw [sign_neg moved, sign_neg negative])
      · exact Or.inl still
    · rw [abs_of_nonpos high, abs_of_nonpos negative.le]
      linarith
  · obtain ⟨low, high⟩ := up none.ge
    have still : change = 0 := by linarith
    exact ⟨Or.inl still, by rw [still, none]⟩
  · obtain ⟨low, high⟩ := up positive.le
    constructor
    · rcases low.lt_or_eq with moved | still
      · exact Or.inr (by rw [sign_pos moved, sign_pos positive])
      · exact Or.inl still.symm
    · rw [abs_of_nonneg low, abs_of_nonneg positive.le]
      exact high

theorem limited_raise (low high v : α) {δ : α} (up : 0 ≤ δ) :
    max low (min high v) ≤ max low (min high (v + δ)) ∧
      max low (min high (v + δ)) ≤ max low (min high v) + δ := by
  constructor
  · exact max_le_max le_rfl (min_le_min le_rfl (le_add_of_nonneg_right up))
  · rw [← max_add_add_right, ← min_add_add_right]
    refine max_le_max (le_add_of_nonneg_right up) (min_le_min (le_add_of_nonneg_right up) le_rfl)

theorem limited_follows (low high v δ : α) :
    Follows δ (max low (min high (v + δ)) - max low (min high v)) := by
  apply follows_of_between
  · intro up
    obtain ⟨least, most⟩ := limited_raise low high v up
    constructor
    · linarith
    · linarith
  · intro down
    obtain ⟨least, most⟩ := limited_raise low high (v + δ) (neg_nonneg.mpr down)
    rw [add_neg_cancel_right] at least most
    constructor
    · linarith
    · linarith

end Limits

/- The circle. -/

section Circle
variable [FloorRing α]

def signedDegrees (x : α) : α := x - 360 * ⌈(x - 180) / 360⌉

def displayAngle (x : α) : α := max (-90) (min 90 (signedDegrees x))

def audioDot (x : α) : α :=
  max (-1) (min 1 (-(1 / audioDotEdgeHeadingDeg) * signedDegrees x))

variable [IsStrictOrderedRing α]

theorem signedDegrees_range (x : α) : -180 < signedDegrees x ∧ signedDegrees x ≤ 180 := by
  have above : (x - 180) / 360 ≤ ⌈(x - 180) / 360⌉ := Int.le_ceil _
  have below : (⌈(x - 180) / 360⌉ : α) < (x - 180) / 360 + 1 := Int.ceil_lt_add_one _
  rw [div_le_iff₀ (by norm_num)] at above
  rw [← sub_lt_iff_lt_add, lt_div_iff₀ (by norm_num)] at below
  unfold signedDegrees
  constructor
  · linarith
  · linarith

theorem signedDegrees_unique {x : α} {k : Int} (low : -180 < x - 360 * k)
    (high : x - 360 * k ≤ 180) : signedDegrees x = x - 360 * k := by
  obtain ⟨low', high'⟩ := signedDegrees_range x
  rw [signedDegrees, turn_unique low' high' low high]

theorem wrapSigned_finite (x : α) : wrapSignedDegrees (.finite x) = .finite (signedDegrees x) := by
  obtain ⟨low, high⟩ := signedDegrees_range x
  exact wrapSigned_unique low high

theorem displayAngle_heading (x : α) :
    headingToDisplayAngleDeg (.finite x) = .finite (displayAngle x) := by
  rw [headingToDisplayAngleDeg, wrapSigned_finite, clamp_finite, displayAngle]

theorem audioDot_heading (x : α) :
    headingToAudioDotNormalized (.finite x) = .finite (audioDot x) := by
  rw [headingToAudioDotNormalized, wrapSigned_finite, Number.scale_finite, clamp_finite, audioDot]

theorem signedDegrees_turns (x : α) (k : Int) : signedDegrees (x + 360 * k) = signedDegrees x := by
  obtain ⟨low, high⟩ := signedDegrees_range x
  have back : x + 360 * k - 360 * ((⌈(x - 180) / 360⌉ + k : Int) : α) = signedDegrees x := by
    rw [signedDegrees]
    push_cast
    ring
  rw [signedDegrees_unique (k := ⌈(x - 180) / 360⌉ + k) (by rwa [back]) (by rwa [back]), back]

theorem signedDegrees_add {x δ : α} (low : -180 < signedDegrees x + δ)
    (high : signedDegrees x + δ ≤ 180) : signedDegrees (x + δ) = signedDegrees x + δ := by
  have same : x + δ - 360 * (⌈(x - 180) / 360⌉ : α) = signedDegrees x + δ := by
    rw [signedDegrees]
    ring
  rw [signedDegrees_unique (k := ⌈(x - 180) / 360⌉) (by rwa [same]) (by rwa [same]), same]

theorem displayAngle_follows {x δ : α} (low : -180 < signedDegrees x + δ)
    (high : signedDegrees x + δ ≤ 180) : Follows δ (displayAngle (x + δ) - displayAngle x) := by
  rw [displayAngle, displayAngle, signedDegrees_add low high]
  exact limited_follows _ _ _ _

theorem audioDot_follows {x δ : α} (low : -180 < signedDegrees x + δ)
    (high : signedDegrees x + δ ≤ 180) :
    Follows (-(δ / audioDotEdgeHeadingDeg)) (audioDot (x + δ) - audioDot x) := by
  have spread : -(1 / audioDotEdgeHeadingDeg) * (signedDegrees x + δ) =
      -(1 / audioDotEdgeHeadingDeg) * signedDegrees x + -(δ / (audioDotEdgeHeadingDeg : α)) := by
    ring
  rw [audioDot, audioDot, signedDegrees_add low high, spread]
  exact limited_follows _ _ _ _

theorem signedDegrees_past {x t : α} (behind : signedDegrees x = 180) (positive : 0 < t)
    (short : t ≤ 1) : signedDegrees (x + t) = t - 180 := by
  have same : x + t - 360 * ((⌈(x - 180) / 360⌉ + 1 : Int) : α) = t - 180 := by
    rw [signedDegrees] at behind
    push_cast
    linarith
  rw [signedDegrees_unique (k := ⌈(x - 180) / 360⌉ + 1) (by linarith) (by linarith), same]

theorem behind_iff (x : α) : signedDegrees x = 180 ↔ ∃ k : Int, x = 180 + 360 * k := by
  constructor
  · intro behind
    refine ⟨⌈(x - 180) / 360⌉, ?_⟩
    rw [signedDegrees] at behind
    linarith
  · rintro ⟨k, rfl⟩
    rw [signedDegrees_turns, signedDegrees_unique (k := 0) (by norm_num) (by norm_num)]
    norm_num

end Circle

/- Jumps. -/

theorem continuousAt_of_follows {f : ℝ → ℝ} {x r c : ℝ} (radius : 0 < r) (scale : 0 < c)
    (near : ∀ δ, |δ| < r → |f (x + δ) - f x| ≤ c * |δ|) : ContinuousAt f x := by
  rw [Metric.continuousAt_iff]
  intro ε positive
  refine ⟨min r (ε / c), lt_min radius (div_pos positive scale), ?_⟩
  intro y close
  rw [Real.dist_eq] at close ⊢
  have bound := near (y - x) (close.trans_le (min_le_left _ _))
  rw [add_sub_cancel] at bound
  have small := close.trans_le (min_le_right r (ε / c))
  rw [lt_div_iff₀ scale] at small
  linarith

theorem not_continuousAt_of_jump {f : ℝ → ℝ} {x y : ℝ} (apart : f x ≠ y)
    (past : ∀ t, 0 < t → t ≤ 1 → f (x + t) = y) : ¬ ContinuousAt f x := by
  intro continuous
  rw [Metric.continuousAt_iff] at continuous
  obtain ⟨δ, positive, near⟩ := continuous |f x - y| (abs_pos.mpr (sub_ne_zero.mpr apart))
  have step : 0 < min (δ / 2) 1 := lt_min (half_pos positive) one_pos
  have short : min (δ / 2) 1 < δ := (min_le_left _ _).trans_lt (half_lt_self positive)
  have close := near (x := x + min (δ / 2) 1) (by
    rw [Real.dist_eq, add_sub_cancel_left, abs_of_pos step]
    exact short)
  rw [past _ step (min_le_right _ _), Real.dist_eq, abs_sub_comm] at close
  exact lt_irrefl _ close

/-- A readout that follows the heading inside the turn jumps at its end only. -/
theorem continuousAt_iff_of_follows {f : ℝ → ℝ} {c y : ℝ} (scale : 0 < c)
    (follows : ∀ x δ, -180 < signedDegrees x + δ → signedDegrees x + δ ≤ 180 →
      |f (x + δ) - f x| ≤ c * |δ|)
    (past : ∀ x t, signedDegrees x = 180 → 0 < t → t ≤ 1 → f (x + t) = y ∧ f x ≠ y) (h : ℝ) :
    ContinuousAt f h ↔ ¬ ∃ k : ℤ, h = 180 + 360 * k := by
  rw [← behind_iff]
  obtain ⟨low, high⟩ := signedDegrees_range h
  constructor
  · intro continuous behind
    have jump := past h 1 behind one_pos le_rfl
    refine not_continuousAt_of_jump jump.2 ?_ continuous
    intro t positive short
    exact (past h t behind positive short).1
  · intro ahead
    have inside := lt_of_le_of_ne high ahead
    apply continuousAt_of_follows (r := min (signedDegrees h + 180) (180 - signedDegrees h))
      (lt_min (by linarith) (by linarith)) scale
    intro δ close
    obtain ⟨below, above⟩ := abs_lt.mp close
    have left := min_le_left (signedDegrees h + 180) (180 - signedDegrees h)
    have right := min_le_right (signedDegrees h + 180) (180 - signedDegrees h)
    exact follows h δ (by linarith) (by linarith)

theorem displayAngle_past (x t : ℝ) (behind : signedDegrees x = 180) (positive : 0 < t)
    (short : t ≤ 1) : displayAngle (x + t) = -90 ∧ displayAngle x ≠ -90 := by
  rw [displayAngle, displayAngle, signedDegrees_past behind positive short, behind]
  constructor
  · rw [min_eq_right (by linarith), max_eq_left (by linarith)]
  · norm_num

theorem audioDot_past (x t : ℝ) (behind : signedDegrees x = 180) (positive : 0 < t)
    (short : t ≤ 1) : audioDot (x + t) = 1 ∧ audioDot x ≠ 1 := by
  rw [audioDot, audioDot, signedDegrees_past behind positive short, behind, audioDotEdgeHeadingDeg]
  constructor
  · rw [min_eq_left (by linarith), max_eq_right (by norm_num)]
  · norm_num

theorem displayAngle_continuousAt_iff (h : ℝ) :
    ContinuousAt displayAngle h ↔ ¬ ∃ k : ℤ, h = 180 + 360 * k := by
  apply continuousAt_iff_of_follows one_pos _ displayAngle_past
  intro x δ low high
  rw [one_mul]
  exact (displayAngle_follows low high).2

theorem audioDot_continuousAt_iff (h : ℝ) :
    ContinuousAt audioDot h ↔ ¬ ∃ k : ℤ, h = 180 + 360 * k := by
  have scale : 0 < 1 / (audioDotEdgeHeadingDeg : ℝ) := by norm_num [audioDotEdgeHeadingDeg]
  apply continuousAt_iff_of_follows scale _ audioDot_past
  intro x δ low high
  have bound := (audioDot_follows low high).2
  rw [abs_neg, abs_div, abs_of_pos (one_div_pos.mp scale)] at bound
  rw [one_div_mul_eq_div]
  exact bound

/-- Both readouts follow the heading through zero, and jump nowhere but behind. -/
theorem readouts_jump_only_behind (h : ℝ) :
    (headingToDisplayAngleDeg (.finite h) = .finite (displayAngle h) ∧
      headingToAudioDotNormalized (.finite h) = .finite (audioDot h)) ∧
    (∀ s δ, wrapSignedDegrees (.finite h) = .finite s → -180 < s + δ → s + δ ≤ 180 →
      Follows δ (displayAngle (h + δ) - displayAngle h) ∧
      Follows (-(δ / audioDotEdgeHeadingDeg)) (audioDot (h + δ) - audioDot h)) ∧
    (∀ k : ℤ, headingToDisplayAngleDeg (.finite (h + 360 * k)) =
        headingToDisplayAngleDeg (.finite h) ∧
      headingToAudioDotNormalized (.finite (h + 360 * k)) =
        headingToAudioDotNormalized (.finite h)) ∧
    (ContinuousAt displayAngle h ↔ ¬ ∃ k : ℤ, h = 180 + 360 * k) ∧
    (ContinuousAt audioDot h ↔ ¬ ∃ k : ℤ, h = 180 + 360 * k) := by
  refine ⟨⟨displayAngle_heading h, audioDot_heading h⟩, ?_, ?_, displayAngle_continuousAt_iff h,
    audioDot_continuousAt_iff h⟩
  · intro s δ wrapped low high
    rw [wrapSigned_finite, Number.finite.injEq] at wrapped
    subst wrapped
    exact ⟨displayAngle_follows low high, audioDot_follows low high⟩
  · intro k
    rw [displayAngle_heading, displayAngle_heading, audioDot_heading, audioDot_heading]
    simp only [displayAngle, audioDot, signedDegrees_turns, and_self]

end SoqTracker.HeadingCircle
