import SoqTracker.TelemetryBridge

/- The arithmetic of visualizer.py that turns a heading into a place on the
   screen, on finite headings. -/
namespace SoqTracker.DisplayArithmetic
open ExtendedNumber TelemetryBridge

variable {α : Type} [Field α] [LinearOrder α]

def screenLeftHeadingDeg : α := 30
def screenRightHeadingDeg : α := 187

section Definitions
variable [FloorRing α]

def wrapDegrees (value : Number α) : Number α :=
  let wrapped := value.modulo 360
  if wrapped.lt (.finite 0) then wrapped.add (.finite 360) else wrapped

/-- Both screen edges are numbers; only the heading can be anything. -/
def normalizeHeadingForScreen (value : Number α) (leftDeg rightDeg : α) : Number α :=
  let span := rightDeg - leftDeg - 360 * ⌊(rightDeg - leftDeg) / 360⌋
  if span = 0 then .finite 0
  else
    let relative := ((wrapDegrees value).sub (wrapDegrees (.finite leftDeg))).modulo 360
    let normalized := relative.scale (1 / span)
    clamp ((normalized.scale 2).sub (.finite 1)) (.finite (-1)) (.finite 1)

def headingToDisplayAngleDeg (headingDeg : Number α) : Number α :=
  clamp (wrapSignedDegrees headingDeg) (.finite (-90)) (.finite 90)

def clockwise (start stop : α) : α := stop - start - 360 * ⌊(stop - start) / 360⌋

end Definitions

omit [Field α] in
theorem clamp_finite (value low high : α) :
    clamp (.finite value) (.finite low) (.finite high) = .finite (max low (min high value)) := by
  have least : pyMin (.finite high) (.finite value) = Number.finite (min high value) := by
    simp only [pyMin, Number.lt_finite, decide_eq_true_eq]
    rcases lt_or_ge value high with below | above
    · rw [if_pos below, min_eq_right below.le]
    · rw [if_neg (not_lt.mpr above), min_eq_left above]
  simp only [clamp, least, pyMax, Number.lt_finite, decide_eq_true_eq]
  rcases lt_or_ge low (min high value) with above | below
  · rw [if_pos above, max_eq_right above.le]
  · rw [if_neg (not_lt.mpr below), max_eq_left below]

omit [Field α] in
theorem clamp_nan (low high : α) (ordered : low < high) :
    clamp .nan (.finite low) (.finite high) = .finite high := by
  simp [clamp, pyMin, pyMax, ordered]

variable [FloorRing α] [IsStrictOrderedRing α]

theorem wrapSigned_spec (x : α) : ∃ k : Int, wrapSignedDegrees (.finite x) = .finite (x - 360 * k) ∧
    -180 < x - 360 * k ∧ x - 360 * k ≤ 180 := by
  obtain ⟨low, high⟩ := Number.modulo_range (m := 360) (x := x + 180) (by norm_num)
  unfold wrapSignedDegrees
  simp only [Number.add_finite, Number.modulo, Number.sub_finite, Number.finite.injEq]
  by_cases edge : x + 180 - 360 * ⌊(x + 180) / 360⌋ - 180 = (-180 : α)
  · refine ⟨⌊(x + 180) / 360⌋ - 1, ?_, ?_, ?_⟩
    · rw [if_pos edge]
      push_cast
      congr 1
      linarith
    · push_cast
      linarith
    · push_cast
      linarith
  · have above := lt_of_le_of_ne low (fun same => edge (by linarith))
    refine ⟨⌊(x + 180) / 360⌋, ?_, ?_, ?_⟩
    · rw [if_neg edge]
      congr 1
      ring
    · linarith
    · linarith

theorem turn_unique {x : α} {j k : Int} (low : -180 < x - 360 * j) (high : x - 360 * j ≤ 180)
    (low' : -180 < x - 360 * k) (high' : x - 360 * k ≤ 180) : j = k := by
  have below : ((j - k : Int) : α) < 1 := by
    push_cast
    linarith
  have above : (-1 : α) < ((j - k : Int) : α) := by
    push_cast
    linarith
  have below' : j - k < 1 := by exact_mod_cast below
  have above' : -1 < j - k := by exact_mod_cast above
  omega

theorem wrapSigned_unique {x : α} {k : Int} (low : -180 < x - 360 * k)
    (high : x - 360 * k ≤ 180) : wrapSignedDegrees (.finite x) = .finite (x - 360 * k) := by
  obtain ⟨j, wrapped, low', high'⟩ := wrapSigned_spec x
  obtain rfl := turn_unique low' high' low high
  exact wrapped

theorem audioDot_finite (x : α) : ∃ t ∈ Set.Icc (-1 : α) 1,
    headingToAudioDotNormalized (.finite x) = .finite t := by
  obtain ⟨k, wrapped, _⟩ := wrapSigned_spec x
  refine ⟨_, ⟨le_max_left _ _, ?_⟩, by
    rw [headingToAudioDotNormalized, wrapped, Number.scale_finite, clamp_finite]⟩
  exact max_le (by norm_num) (min_le_left _ _)

theorem clockwise_range (start stop : α) :
    0 ≤ clockwise start stop ∧ clockwise start stop < 360 :=
  Number.modulo_range (by norm_num)

theorem clockwise_unique {start stop r : α} {k : Int} (split : stop = start + r + 360 * k)
    (low : 0 ≤ r) (high : r < 360) : clockwise start stop = r :=
  Number.modulo_unique (k := k) (by linarith) low high

theorem wrapDegrees_finite (x : α) : wrapDegrees (.finite x) = .finite (x - 360 * ⌊x / 360⌋) := by
  obtain ⟨nonneg, _⟩ := Number.modulo_range (m := 360) (x := x) (by norm_num)
  simp [wrapDegrees, Number.modulo, not_lt.mpr nonneg]

theorem normalize_finite (value : α) {leftDeg rightDeg : α}
    (span : clockwise leftDeg rightDeg ≠ 0) :
    normalizeHeadingForScreen (.finite value) leftDeg rightDeg =
      .finite (max (-1) (min 1
        (2 * (clockwise leftDeg value / clockwise leftDeg rightDeg) - 1))) := by
  obtain ⟨low, high⟩ := clockwise_range leftDeg value
  have relative : value - 360 * ⌊value / 360⌋ - (leftDeg - 360 * ⌊leftDeg / 360⌋) -
      360 * ⌊(value - 360 * ⌊value / 360⌋ - (leftDeg - 360 * ⌊leftDeg / 360⌋)) / 360⌋ =
      clockwise leftDeg value := by
    apply Number.modulo_unique
      (k := ⌊(value - leftDeg) / 360⌋ - ⌊value / 360⌋ + ⌊leftDeg / 360⌋) _ low high
    rw [clockwise]
    push_cast
    ring
  have width : rightDeg - leftDeg - 360 * ⌊(rightDeg - leftDeg) / 360⌋ =
      clockwise leftDeg rightDeg := rfl
  unfold normalizeHeadingForScreen
  simp only [width, wrapDegrees_finite, Number.sub_finite, Number.modulo, relative,
    Number.scale_finite, clamp_finite]
  rw [if_neg span, one_div_mul_eq_div]

end SoqTracker.DisplayArithmetic
