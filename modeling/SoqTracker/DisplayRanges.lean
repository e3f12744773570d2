import SoqTracker.DashboardRuns
import SoqTracker.ScreenHeading

/- The drawn quantities of the dashboard stay on their scales, whatever the
   datagrams say. Everything shown goes through a clamp, which also catches
   not-a-number, and the average of the audio dot stays between its clamped targets. -/
namespace SoqTracker.DisplayRanges
open ExtendedNumber Json Controller Runs TelemetryBridge DatagramEffects TelemetryLink
open DisplayArithmetic ScreenHeading DashboardRuns

variable {α : Type} [Field α] [LinearOrder α]

/- The properties. -/

def rawDbLevel (desktop : Desktop α) (b : Bridge α) : Except PyError (Number α) :=
  rmsToRelativeDb desktop b.displayRms

def dbLevel (desktop : Desktop α) (b : Bridge α) : Except PyError (Number α) :=
  (rawDbLevel desktop b).map (pyMax (.finite 0))

def energy (desktop : Desktop α) (b : Bridge α) (now : α) : Except PyError (Number α) :=
  (activity desktop b.displayRms).map fun value =>
    let value := if !b.measurementValid then value.scale 0.35 else value
    if audioStale b now then value.scale 0.08 else value

def sourceOffsetNormalized (b : Bridge α) : Number α :=
  match b.measurementValid, b.rawErrorDeg with
  | true, some raw => clamp (raw.scale (1 / 90)) (.finite (-1)) (.finite 1)
  | _, _ => .finite 0

def audioDotNormalized (b : Bridge α) : Number α :=
  match b.trackerHeadingDeg with
  | none => .finite 0
  | some _ => b.audioDotNormalized

/- Scales. -/

def Within (low high : α) (x : Number α) : Prop := ∃ v, x = .finite v ∧ low ≤ v ∧ v ≤ high

omit [Field α] in
theorem within_self {low high v : α} (above : low ≤ v) (below : v ≤ high) :
    Within low high (.finite v) := ⟨v, rfl, above, below⟩

omit [Field α] in
/-- A clamp gives a number on the scale for every value, not-a-number included. -/
theorem clamp_within {low high : α} (ordered : low ≤ high) (value : Number α) :
    Within low high (clamp value (.finite low) (.finite high)) := by
  have top : Within low high (pyMax (.finite low) (.finite high)) := by
    unfold pyMax
    split
    · exact within_self ordered le_rfl
    · exact within_self le_rfl ordered
  cases value with
  | finite v =>
    rw [clamp_finite]
    exact within_self (le_max_left _ _) (max_le ordered (min_le_left _ _))
  | posInf => exact top
  | negInf => exact within_self le_rfl ordered
  | nan => exact top

variable [IsStrictOrderedRing α]

theorem scale_within {c : α} (positive : 0 ≤ c) (shrinks : c ≤ 1) {x : Number α}
    (inside : Within 0 1 x) : Within 0 1 (x.scale c) := by
  obtain ⟨v, rfl, above, below⟩ := inside
  exact within_self (mul_nonneg positive above) (mul_le_one₀ shrinks above below)

theorem ema_within {a low high : α} (least : 0 ≤ a) (most : a ≤ 1) {x y : Number α}
    (new : Within low high x) (old : Within low high y) : Within low high (ema a x y) := by
  obtain ⟨v, rfl, above, below⟩ := new
  obtain ⟨w, rfl, above', below'⟩ := old
  refine ⟨a * v + (1 - a) * w, rfl, ?_, ?_⟩
  · nlinarith
  · nlinarith

omit [Field α] [LinearOrder α] [IsStrictOrderedRing α] in
theorem map_ok {f : Number α → Number α} {r : Except PyError (Number α)} {y : Number α}
    (done : r.map f = .ok y) : ∃ x, r = .ok x ∧ f x = y := by
  cases r with
  | error error => cases done
  | ok x => exact ⟨x, rfl, Except.ok.inj done⟩

theorem rmsToRelativeDb_within {desktop : Desktop α} {rms db : Number α}
    (level : rmsToRelativeDb desktop rms = .ok db) : Within (-60) 24 db := by
  unfold rmsToRelativeDb at level
  split at level
  · rw [← Except.ok.inj level]
    exact within_self le_rfl (by norm_num)
  · obtain ⟨ratio, _, same⟩ := map_ok level
    rw [← same]
    exact clamp_within (by norm_num) _

theorem activity_within {desktop : Desktop α} {rms value : Number α}
    (level : activity desktop rms = .ok value) : Within 0 1 value := by
  unfold activity at level
  cases db : rmsToRelativeDb desktop rms with
  | error error =>
    rw [db] at level
    cases level
  | ok db' =>
    rw [db] at level
    rw [← Except.ok.inj level]
    exact clamp_within zero_le_one _

theorem read_activity {desktop : Desktop α} {payload : List UInt8} {reading : Reading α}
    (whole : read desktop payload = .ok reading) : Within 0 1 reading.point.activity := by
  have entry := (read_parts whole).2
  unfold readPoint at entry
  cases value : historyValue reading.locals with
  | error error => simp [value, error_bind] at entry
  | ok value' =>
    cases level : activity desktop reading.rms with
    | error error => simp [value, level, ok_bind] at entry
    | ok height =>
      simp only [value, level, ok_bind] at entry
      rw [← Except.ok.inj entry]
      exact activity_within level

variable [FloorRing α]

structure OnScale (b : Bridge α) : Prop where
  dot : Within (-1) 1 b.audioDotNormalized
  history : ∀ point ∈ b.history, Within 0 1 point.activity

theorem target_within (heading : Number α) :
    Within (-1) 1 (headingToAudioDotNormalized heading) := clamp_within (by norm_num) _

theorem moveDot_within (previous : Option (Number α)) {b : Bridge α}
    (inside : Within (-1) 1 b.audioDotNormalized) :
    Within (-1) 1 (moveDot previous b).audioDotNormalized := by
  unfold moveDot
  split
  · exact within_self (by norm_num) (by norm_num)
  · rename_i heading _
    split
    · exact target_within _
    · exact ema_within (by norm_num [audioDotPositionEmaAlpha])
        (by norm_num [audioDotPositionEmaAlpha]) (target_within _) inside

theorem shown_onScale {b : Bridge α} (scaled : OnScale b)
    (fields : DatagramEffects.Fields α) :
    OnScale (shown fields b) := by
  constructor
  · exact moveDot_within _ scaled.dot
  · rw [(shown_frame fields b).1]
    exact scaled.history

theorem effect_onScale {b : Bridge α} (scaled : OnScale b) (desktop : Desktop α)
    (payload : List UInt8) : OnScale (effect desktop b payload) := by
  rcases effect_spec desktop b payload with ⟨reading, whole, same⟩ | ⟨error, _, stopped⟩
  · rw [same]
    have shown := shown_onScale scaled reading.toFields
    refine ⟨shown.dot, ?_⟩
    intro point mem
    rcases List.mem_append.mp mem with old | new
    · exact scaled.history point old
    · rw [List.mem_singleton.mp new]
      exact read_activity whole
  · generalize effect desktop b payload = b' at stopped
    cases stopped with
    | locals raised => exact scaled
    | rms found raised => exact ⟨scaled.dot, scaled.history⟩
    | rawError found level raised => exact ⟨scaled.dot, scaled.history⟩
    | smoothedError found level measurement raised => exact ⟨scaled.dot, scaled.history⟩
    | heading found level measurement average raised => exact ⟨scaled.dot, scaled.history⟩
    | point converted raised => exact shown_onScale scaled _

omit [IsStrictOrderedRing α] [FloorRing α] in
theorem prune_onScale {b : Bridge α} (scaled : OnScale b) (cutoff : α) :
    OnScale (prune cutoff b) := by
  unfold prune
  split
  · exact ⟨scaled.dot, fun point mem => scaled.history point (List.mem_of_mem_filter mem)⟩
  · exact scaled

theorem onScale_run {desktop : Desktop α} {start : α}
    {ticks : List (Transition (Dashboard α) (Tick α))} {d : Dashboard α}
    (run : Run (tick desktop) (dashboard start) ticks d) : OnScale d.bridge := by
  have first : OnScale (TelemetryBridge.initial start) :=
    ⟨within_self (by norm_num) (by norm_num), by simp [TelemetryBridge.initial]⟩
  obtain ⟨_, _, scaled⟩ := ticks_invariant (fun _ b => OnScale b) first
    (fun _ _ payload scaled => effect_onScale scaled desktop payload)
    (fun _ _ cutoff scaled => prune_onScale scaled cutoff) run
  exact scaled

theorem dot_within {desktop : Desktop α} {start : α}
    {ticks : List (Transition (Dashboard α) (Tick α))} {d : Dashboard α}
    (run : Run (tick desktop) (dashboard start) ticks d) :
    Within (-1) 1 (audioDotNormalized d.bridge) := by
  unfold audioDotNormalized
  split
  · exact within_self (by norm_num) (by norm_num)
  · exact (onScale_run run).dot

/-- In every run, under any datagrams, every drawn quantity that has a value has
    one on its scale. -/
theorem scales_hold {desktop : Desktop α} {start : α}
    {ticks : List (Transition (Dashboard α) (Tick α))} {d : Dashboard α}
    (run : Run (tick desktop) (dashboard start) ticks d) (now : α) :
    Within (-1) 1 (audioDotNormalized d.bridge) ∧
      Within (-1) 1 (sourceOffsetNormalized d.bridge) ∧
      Within (-1) 1 (headingNormalized d.bridge) ∧ Within (-90) 90 (displayAngleDeg d.bridge) ∧
      (∀ point ∈ d.bridge.history, Within 0 1 point.activity) ∧
      (∀ level, dbLevel desktop d.bridge = .ok level → Within 0 24 level) ∧
      ∀ value, energy desktop d.bridge now = .ok value → Within 0 1 value := by
  refine ⟨dot_within run, ?_, ?_, ?_, (onScale_run run).history, ?_, ?_⟩
  · unfold sourceOffsetNormalized
    split
    · exact clamp_within (by norm_num) _
    · exact within_self (by norm_num) (by norm_num)
  · unfold headingNormalized normalizeHeadingForScreen
    split
    · exact within_self (by norm_num) (by norm_num)
    · dsimp only
      split
      · exact within_self (by norm_num) (by norm_num)
      · exact clamp_within (by norm_num) _
  · unfold displayAngleDeg
    split
    · exact within_self (by norm_num) (by norm_num)
    · exact clamp_within (by norm_num) _
  · intro level found
    obtain ⟨db, raw, rfl⟩ := map_ok found
    obtain ⟨v, rfl, above, below⟩ := rmsToRelativeDb_within raw
    unfold pyMax
    split
    · rename_i positive
      exact within_self (of_decide_eq_true positive).le below
    · exact within_self le_rfl (by norm_num)
  · intro value found
    obtain ⟨height, raw, rfl⟩ := map_ok found
    have full := activity_within raw
    have measured : Within 0 1
        (if !d.bridge.measurementValid then height.scale 0.35 else height) := by
      split
      · exact scale_within (by norm_num) (by norm_num) full
      · exact full
    dsimp only
    split
    · exact scale_within (by norm_num) (by norm_num) measured
    · exact measured

/- Numbers that JSON does not have, but json.loads does. -/

def wildDatagram : List UInt8 :=
  Utf8.encode ("\x7b\"timestamp\": NaN, \"state\": \"IDLE\", \"measurement_valid\": 1, ".toList ++
    "\"rms\": Infinity, \"raw_error_deg\": -Infinity, \"smoothed_error_deg\": NaN, ".toList ++
    "\"tracker_heading_deg\": NaN, \"imu_valid\": true\x7d".toList)

def wildTick : Tick ℚ := ⟨[wildDatagram], 11⟩

theorem scales_hold_bench : ∃ (ticks : List (Transition (Dashboard ℚ) (Tick ℚ))) (d : Dashboard ℚ),
    Run (tick benchDesktop) (dashboard 9) ticks d ∧ d.bridge.trackerHeadingDeg = some .nan ∧
      d.bridge.rms = .posInf ∧ Within (-1) 1 (audioDotNormalized d.bridge) ∧
      Within (-1) 1 (sourceOffsetNormalized d.bridge) := by
  have first : Run (tick benchDesktop) (dashboard 9) [] (dashboard 9) := .start
  have run := first.go wildTick (by decide +kernel)
  obtain ⟨dot, offset, _⟩ := scales_hold run 11
  exact ⟨_, _, run, by decide +kernel, by decide +kernel, dot, offset⟩

end SoqTracker.DisplayRanges
