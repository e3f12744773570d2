import SoqTracker.DisplayRanges
import SoqTracker.AudioDot
import Mathlib.Analysis.SpecialFunctions.Trigonometric.Basic

/- The orbit of the source dot in HeroStage.qml, over the reals: half a circle
   below the tracker, from its left to its right. -/
namespace SoqTracker.HeroOrbit
open ExtendedNumber Json Controller Runs TelemetryBridge TelemetryLink DisplayRanges
open DatagramEffects (Reading ReadWhole readFields readPoint ok_bind ok_of_bind)
open AudioDot (target placeAfter sinceLoss sinceLoss_some follows_run)
open DisplayArithmetic (wrapSigned_unique clamp_finite)

structure Stage where
  width : ℝ
  height : ℝ
  width_nonneg : 0 ≤ width
  height_nonneg : 0 ≤ height

variable (stage : Stage)

noncomputable def trackerX : ℝ := stage.width * 0.5
noncomputable def trackerY : ℝ := stage.height * 0.18
noncomputable def orbitRadius : ℝ := min stage.width stage.height * 0.32

def sourceOrbitDeg (audioDotNormalized : ℝ) : ℝ := 90 - audioDotNormalized * 90

noncomputable def sourceX (audioDotNormalized : ℝ) : ℝ :=
  trackerX stage + Real.cos (sourceOrbitDeg audioDotNormalized * Real.pi / 180.0) * orbitRadius stage

noncomputable def sourceY (audioDotNormalized : ℝ) : ℝ :=
  trackerY stage + Real.sin (sourceOrbitDeg audioDotNormalized * Real.pi / 180.0) * orbitRadius stage

theorem orbit_angle (dot : ℝ) :
    sourceOrbitDeg dot * Real.pi / 180.0 = Real.pi / 2 - dot * (Real.pi / 2) := by
  unfold sourceOrbitDeg
  norm_num
  ring

theorem sourceX_sin (dot : ℝ) :
    sourceX stage dot = trackerX stage + Real.sin (dot * (Real.pi / 2)) * orbitRadius stage := by
  rw [sourceX, orbit_angle, Real.cos_pi_div_two_sub]

theorem sourceY_cos (dot : ℝ) :
    sourceY stage dot = trackerY stage + Real.cos (dot * (Real.pi / 2)) * orbitRadius stage := by
  rw [sourceY, orbit_angle, Real.sin_pi_div_two_sub]

theorem radius_bounds : 0 ≤ orbitRadius stage ∧ orbitRadius stage ≤ stage.width * 0.32 ∧
    orbitRadius stage ≤ stage.height * 0.32 := by
  have wide := stage.width_nonneg
  have tall := stage.height_nonneg
  have least : 0 ≤ min stage.width stage.height := le_min wide tall
  have first := min_le_left stage.width stage.height
  have second := min_le_right stage.width stage.height
  unfold orbitRadius
  refine ⟨by positivity, ?_, ?_⟩
  · nlinarith
  · nlinarith

theorem on_orbit {dot : ℝ} (low : -1 ≤ dot) (high : dot ≤ 1) :
    (sourceX stage dot - trackerX stage) ^ 2 + (sourceY stage dot - trackerY stage) ^ 2 =
        orbitRadius stage ^ 2 ∧
      0 ≤ sourceX stage dot ∧ sourceX stage dot ≤ stage.width ∧
      trackerY stage ≤ sourceY stage dot ∧ sourceY stage dot ≤ stage.height := by
  have pi := Real.pi_pos
  have tall := stage.height_nonneg
  obtain ⟨radius, wide, deep⟩ := radius_bounds stage
  have below : 0 ≤ Real.cos (dot * (Real.pi / 2)) :=
    Real.cos_nonneg_of_neg_pi_div_two_le_of_le (by nlinarith) (by nlinarith)
  have side := Real.neg_one_le_sin (dot * (Real.pi / 2))
  have side' := Real.sin_le_one (dot * (Real.pi / 2))
  have depth := Real.cos_le_one (dot * (Real.pi / 2))
  rw [sourceX_sin, sourceY_cos, trackerX, trackerY]
  norm_num at wide deep
  refine ⟨?_, ?_, ?_, ?_, ?_⟩
  · have circle := Real.sin_sq_add_cos_sq (dot * (Real.pi / 2))
    nlinarith
  all_goals norm_num
  all_goals nlinarith

theorem orbit_side {dot : ℝ} (low : -1 ≤ dot) (high : dot ≤ 1) (drawn : 0 < orbitRadius stage) :
    (trackerX stage < sourceX stage dot ↔ 0 < dot) ∧
      (sourceX stage dot < trackerX stage ↔ dot < 0) := by
  have pi := Real.pi_pos
  have inside : dot * (Real.pi / 2) ∈ Set.Icc (-(Real.pi / 2)) (Real.pi / 2) :=
    ⟨by nlinarith, by nlinarith⟩
  have centre : (0 : ℝ) ∈ Set.Icc (-(Real.pi / 2)) (Real.pi / 2) := ⟨by linarith, by linarith⟩
  have right := Real.strictMonoOn_sin.lt_iff_lt centre inside
  have left := Real.strictMonoOn_sin.lt_iff_lt inside centre
  rw [Real.sin_zero] at right left
  have turn : 0 < Real.pi / 2 := by linarith
  have negative : ∀ {x c : ℝ}, 0 < c → (x * c < 0 ↔ x < 0) := fun positive =>
    ⟨fun product => by nlinarith, fun below => mul_neg_of_neg_of_pos below positive⟩
  rw [sourceX_sin, lt_add_iff_pos_right, add_lt_iff_neg_left, mul_pos_iff_of_pos_right drawn, right,
    mul_pos_iff_of_pos_right turn, negative drawn, left, negative turn]
  exact ⟨Iff.rfl, Iff.rfl⟩

/-- In every run, under any datagrams, the dot is on its half circle within the
    stage, and on the side that its place says. -/
theorem dot_on_orbit {desktop : Desktop ℝ} {start : ℝ}
    {ticks : List (Transition (Dashboard ℝ) (Tick ℝ))} {d : Dashboard ℝ}
    (run : Run (tick desktop) (dashboard start) ticks d) :
    ∃ dot, audioDotNormalized d.bridge = .finite dot ∧ ∀ stage : Stage,
      (sourceX stage dot - trackerX stage) ^ 2 + (sourceY stage dot - trackerY stage) ^ 2 =
          orbitRadius stage ^ 2 ∧
        0 ≤ sourceX stage dot ∧ sourceX stage dot ≤ stage.width ∧
        trackerY stage ≤ sourceY stage dot ∧ sourceY stage dot ≤ stage.height ∧
        (0 < orbitRadius stage → (trackerX stage < sourceX stage dot ↔ 0 < dot) ∧
          (sourceX stage dot < trackerX stage ↔ dot < 0)) := by
  obtain ⟨dot, place, low, high⟩ := dot_within run
  refine ⟨dot, place, fun stage => ?_⟩
  obtain ⟨circle, left, right, top, bottom⟩ := on_orbit stage low high
  exact ⟨circle, left, right, top, bottom, orbit_side stage low high⟩

/- A datagram at the loudness whose ratio is one, on a square stage. -/

def squareStage : Stage := ⟨1, 1, zero_le_one, zero_le_one⟩

def levelDesktop : Desktop ℝ :=
  { limits := Limits.standard
    str := fun value =>
      match value with
      | .str text => .ok text
      | _ => .error .valueError
    logRatio := fun _ => .ok (.finite 0)
    str_text := fun _ => rfl }

def levelDatagram : List UInt8 :=
  Utf8.encode ("\x7b\"timestamp\": 4, \"state\": \"IDLE\", \"measurement_valid\": false, ".toList ++
    "\"rms\": 560000, \"smoothed_error_deg\": 2, \"tracker_heading_deg\": 17\x7d".toList)

theorem fields_heading {desktop : Desktop ℝ} {payload : List UInt8}
    {fields : DatagramEffects.Fields ℝ}
    (converted : readFields desktop payload = .ok fields) :
    floatOrNone fields.locals.heading = .ok fields.heading := by
  unfold readFields at converted
  obtain ⟨locals, _, converted⟩ := ok_of_bind converted
  obtain ⟨rms, _, converted⟩ := ok_of_bind converted
  obtain ⟨rawError, _, converted⟩ := ok_of_bind converted
  obtain ⟨smoothedError, _, converted⟩ := ok_of_bind converted
  obtain ⟨heading, given, converted⟩ := ok_of_bind converted
  obtain ⟨imuValid, _, converted⟩ := ok_of_bind converted
  rw [← Except.ok.inj converted]
  exact given

def intOf : Value ℝ → Option Int
  | .int n => some n
  | _ => none

theorem intOf_some {value : Value ℝ} {n : Int} (int : intOf value = some n) : value = .int n := by
  cases value <;> cases int
  rfl

/-- By evaluation, in which no reals are compared: the datagram's numbers are ints. -/
theorem level_read : ∃ r : Reading ℝ,
    DatagramEffects.read levelDesktop levelDatagram = .ok r ∧ r.heading = some (.finite 17) := by
  have turned : (readFields levelDesktop levelDatagram).toOption.bind
      (fun f => intOf f.locals.heading) = some 17 := by decide +kernel
  have entered : ((readFields levelDesktop levelDatagram).toOption.map fun f =>
      (historyValue f.locals).isOk) = some true := by decide +kernel
  cases converted : readFields levelDesktop levelDatagram with
  | error error =>
    rw [converted] at turned
    cases turned
  | ok fields =>
    rw [converted] at turned entered
    have heading : fields.heading = some (.finite 17) := by
      have given := fields_heading converted
      rw [intOf_some turned] at given
      have small : ¬ Number.overflowBound ≤ (17 : Int).natAbs := by decide +kernel
      rw [floatOrNone, toFloat, if_neg small] at given
      · rw [← Except.ok.inj given]
        norm_num
      · simp
    cases entry : historyValue fields.locals with
    | error error =>
      rw [Except.toOption, Option.map_some, entry] at entered
      cases entered
    | ok value =>
      obtain ⟨height, level⟩ : ∃ height, activity levelDesktop fields.rms = .ok height := by
        unfold activity rmsToRelativeDb
        split
        · exact ⟨_, rfl⟩
        · exact ⟨_, rfl⟩
      refine ⟨⟨fields, ⟨fields.locals.timestamp, value, fields.locals.measurementValid, height,
        fields.locals.state⟩⟩, ?_, heading⟩
      rw [DatagramEffects.read, converted, ok_bind, readPoint, entry, ok_bind, level]
      rfl

/-- A heading of 17 degrees, drawn on the left. -/
theorem dot_on_orbit_bench :
    ∃ (ticks : List (Transition (Dashboard ℝ) (Tick ℝ))) (d : Dashboard ℝ) (dot : ℝ),
      Run (tick levelDesktop) (dashboard 9) ticks d ∧
        audioDotNormalized d.bridge = .finite dot ∧ dot = -(1 / 5) ∧
        (sourceX squareStage dot - trackerX squareStage) ^ 2 +
          (sourceY squareStage dot - trackerY squareStage) ^ 2 = orbitRadius squareStage ^ 2 ∧
        sourceX squareStage dot < trackerX squareStage := by
  have begin : Run (tick levelDesktop) (dashboard 9) [] (dashboard 9) := .start
  obtain ⟨d, run⟩ : ∃ d, Run (tick levelDesktop) (dashboard 9)
      [⟨dashboard 9, ⟨[levelDatagram], 11⟩, d⟩] d := ⟨_, begin.go ⟨[levelDatagram], 11⟩ rfl⟩
  obtain ⟨dot, place, drawn⟩ := dot_on_orbit run
  obtain ⟨r, read, turned⟩ := level_read
  have follows := follows_run run (.cons read .nil)
  have there : target (.finite 17 : Number ℝ) = .finite (-(1 / 5)) := by
    have straight : wrapSignedDegrees (.finite (17 : ℝ)) = .finite (17 - 360 * (0 : ℤ)) :=
      wrapSigned_unique (by norm_num) (by norm_num)
    rw [target, Number.add_finite, headingOffsetDeg, add_zero, headingToAudioDotNormalized,
      straight, Number.scale_finite, clamp_finite, audioDotEdgeHeadingDeg]
    norm_num
  have alone : sinceLoss [some (.finite 17 : Number ℝ)] = [.finite 17] := sinceLoss_some [] _
  have same : dot = -(1 / 5) := by
    have known : d.bridge.trackerHeadingDeg = some (.finite 17) :=
      follows.heading.trans turned
    have dotted := follows.place
    rw [List.map_singleton, turned, alone, placeAfter, List.foldl_nil, there] at dotted
    rw [audioDotNormalized, known] at place
    exact Number.finite.inj (place.symm.trans dotted)
  obtain ⟨circle, _, _, _, _, side⟩ := drawn squareStage
  refine ⟨_, _, dot, run, place, same, circle, ?_⟩
  have radius : 0 < orbitRadius squareStage := by
    rw [orbitRadius, squareStage, min_self]
    norm_num
  exact (side radius).2.mpr (by rw [same]; norm_num)

end SoqTracker.HeroOrbit
