import SoqTracker.CommandLink
import SoqTracker.InputTotality
import SoqTracker.SmoothedError
import SoqTracker.HistoryPanel
import Mathlib.Analysis.Real.Pi.Bounds
import Mathlib.Analysis.SpecialFunctions.Trigonometric.Bounds
import Mathlib.Analysis.SpecialFunctions.Trigonometric.Inverse

/- How large the angles of the system become, in exact real arithmetic. The
   steepest accepted measurement is the arcsine of nine tenths; averages, commands
   and the chart stay within what is measured. -/
namespace SoqTracker.AngleRange
open ExtendedNumber Decimal Json TrackerLoop Runs Controller SteeringCommands Averages CommandLink
open SmoothedError
open InputTotality (packetBuilt next_iff)
open Firmware (readError)
open HistoryPanel (Point Bin TrackPoint bins trackPoints mapY)

theorem extremes {α : Type} [Field α] [LinearOrder α] {x : α} {xs : List α} (mem : x ∈ xs) :
    minimum xs ≤ x ∧ x ≤ maximum xs := by
  cases xs with
  | nil => simp at mem
  | cons y ys =>
    obtain ⟨first, least⟩ := foldl_min_le ys y
    obtain ⟨last, greatest⟩ := le_foldl_max ys y
    rcases List.mem_cons.mp mem with rfl | later
    · exact ⟨first, last⟩
    · exact ⟨least x later, greatest x later⟩

/- Exact real arithmetic, with any delay estimate. -/

theorem real_arcsin_range (x : ℝ) :
    -90 ≤ Real.arcsin x * 180 / Real.pi ∧ Real.arcsin x * 180 / Real.pi ≤ 90 := by
  have positive := Real.pi_pos
  have low := Real.neg_pi_div_two_le_arcsin x
  have high := Real.arcsin_le_pi_div_two x
  constructor
  · rw [le_div_iff₀ positive]
    linarith
  · rw [div_le_iff₀ positive]
    linarith

noncomputable def realDsp (gccPhat : List ℝ → List ℝ → ℝ) : Dsp ℝ where
  gccPhat := gccPhat
  sqrt := Real.sqrt
  arcsin := Real.arcsin
  degrees := fun x => x * 180 / Real.pi

theorem realDsp_rightAngled (gccPhat : List ℝ → List ℝ → ℝ) : (realDsp gccPhat).RightAngled :=
  fun x _ _ => real_arcsin_range x

noncomputable def steepest : ℝ := Real.arcsin (9 / 10) * 180 / Real.pi

/-- By the complementary angle, whose cosine is bounded at a quarter of it. -/
theorem steepest_bound : steepest < 321 / 5 := by
  have positive := Real.pi_pos
  have pi_bound := Real.pi_lt_d4
  have quarter : 99366 / 100000 ≤ Real.cos (43 / 300 * Real.pi / 4) := by
    have series := @Real.one_sub_sq_div_two_le_cos (43 / 300 * Real.pi / 4)
    nlinarith
  have half : 97472 / 100000 ≤ Real.cos (43 / 300 * Real.pi / 2) := by
    have double := Real.cos_two_mul (43 / 300 * Real.pi / 4)
    rw [show 2 * (43 / 300 * Real.pi / 4) = 43 / 300 * Real.pi / 2 by ring] at double
    nlinarith
  have whole : 9 / 10 < Real.cos (43 / 300 * Real.pi) := by
    have double := Real.cos_two_mul (43 / 300 * Real.pi / 2)
    rw [show 2 * (43 / 300 * Real.pi / 2) = 43 / 300 * Real.pi by ring] at double
    nlinarith
  have angle : Real.arcsin (9 / 10) < 107 / 300 * Real.pi := by
    rw [Real.arcsin_lt_iff_lt_sin ⟨by norm_num, by norm_num⟩ ⟨by linarith, by linarith⟩,
      ← Real.cos_pi_div_two_sub]
    rw [show Real.pi / 2 - 107 / 300 * Real.pi = 43 / 300 * Real.pi by ring]
    exact whole
  rw [steepest, div_lt_iff₀ positive]
  linarith

theorem steepest_nonneg : 0 ≤ steepest := by
  have angle : 0 ≤ Real.arcsin (9 / 10) := Real.arcsin_nonneg.mpr (by norm_num)
  have positive := Real.pi_pos
  unfold steepest
  positivity

theorem accepted_range {gccPhat : List ℝ → List ℝ → ℝ} {raw : List UInt8}
    (accepted : Accepted (realDsp gccPhat) raw) :
    rawErrorDeg (realDsp gccPhat) raw ∈ Set.Icc (-steepest) steepest := by
  obtain ⟨low, high⟩ := abs_le.mp accepted.2
  have positive := Real.pi_pos
  have above := Real.arcsin_le_arcsin high
  have below := Real.arcsin_le_arcsin low
  rw [Real.arcsin_neg] at below
  constructor
  · rw [steepest, ← neg_div, ← neg_mul]
    exact div_le_div_of_nonneg_right (mul_le_mul_of_nonneg_right below (by norm_num)) positive.le
  · rw [steepest]
    exact div_le_div_of_nonneg_right (mul_le_mul_of_nonneg_right above (by norm_num)) positive.le

theorem acceptedErrors_range {gccPhat : List ℝ → List ℝ → ℝ} (history : List (Block ℝ)) :
    ∀ e ∈ acceptedErrors (realDsp gccPhat) history, e ∈ Set.Icc (-steepest) steepest := by
  intro e mem
  obtain ⟨b, kept, rfl⟩ := List.mem_map.mp mem
  exact accepted_range (of_decide_eq_true (List.mem_filter.mp kept).2)

/-- What holds of every angle that a run has produced, and of the command of one
    pass more. -/
structure AngleLaw (py : Python ℝ) (dsp : Dsp ℝ) (history : List (Block ℝ)) (tracker : Tracker ℝ) :
    Prop where
  measured : ∀ b ∈ history, ∀ packet ∈ blockPackets py dsp b, ∀ r ∈ packet.1.rawErrorDeg,
    |r| ≤ steepest ∧ |r| < 642 / 10
  smoothed : ∀ b older, b :: older <:+ history → ∀ packet ∈ blockPackets py dsp b,
    minimum (0 :: acceptedErrors dsp (b :: older)) ≤ packet.1.smoothedErrorDeg ∧
      packet.1.smoothedErrorDeg ≤ maximum (0 :: acceptedErrors dsp (b :: older))
  commands : ∀ pass, passWrites py dsp tracker pass = [] ∨ ∃ c : Int,
    passWrites py dsp tracker pass = [commandBytes c] ∧ -64 ≤ c ∧ c ≤ 64 ∧
      (Loud dsp pass.raw → ∃ t : Triple dsp history pass,
        truncate (minimum t.errors) ≤ c ∧ c ≤ truncate (maximum t.errors)) ∧
      readError (commandLine c) = Number.scale (-1 : ℝ) (atof (commandLine c))
  chart : ∀ points : List (Point ℝ), (∀ point ∈ points, ∀ v ∈ point.value, ∃ b ∈ history,
      ∃ packet ∈ blockPackets py dsp b, v = packet.1.smoothedErrorDeg) →
    ∀ w h now counted, bins w now points = some counted → ∀ track ∈ trackPoints w h counted,
      ∃ bin ∈ counted, track.y = mapY h (bin.angleSum / bin.validCount) ∧
        mapY h (bin.angleSum / bin.validCount) =
          h - (bin.angleSum / bin.validCount + 90) / 180 * h

variable {py : Python ℝ} {gccPhat : List ℝ → List ℝ → ℝ}

theorem smoothed_between {history : List (Block ℝ)} {tracker : Tracker ℝ} {low high : ℝ}
    (run : Run (next py (realDsp gccPhat)) initial history tracker)
    (inside : ∀ e ∈ 0 :: acceptedErrors (realDsp gccPhat) history, e ∈ Set.Icc low high) :
    tracker.smoothedError ∈ Set.Icc low high := by
  rw [smoothed_run run]
  apply average_mem
  · unfold errorEmaAlpha; norm_num
  · unfold errorEmaAlpha; norm_num
  · exact inside 0 (by simp)
  · intro e mem
    exact inside e (by simp [mem])

theorem smoothed_steepest {history : List (Block ℝ)} {tracker : Tracker ℝ}
    (run : Run (next py (realDsp gccPhat)) initial history tracker) :
    tracker.smoothedError ∈ Set.Icc (-steepest) steepest := by
  have nonneg := steepest_nonneg
  apply smoothed_between run
  intro e mem
  rcases List.mem_cons.mp mem with rfl | later
  · constructor <;> linarith
  · exact acceptedErrors_range history e later

theorem triple_errors_range {history : List (Block ℝ)} {pass : Pass ℝ}
    (t : Triple (realDsp gccPhat) history pass) :
    ∀ e ∈ t.errors, e ∈ Set.Icc (-steepest) steepest := by
  intro e mem
  simp only [Triple.errors, List.mem_cons, List.not_mem_nil, or_false] at mem
  rcases mem with rfl | rfl | rfl
  · exact accepted_range t.firstAccepted
  · exact accepted_range t.secondAccepted
  · exact accepted_range t.accepted

theorem command_between {history : List (Block ℝ)} {pass : Pass ℝ}
    (t : Triple (realDsp gccPhat) history pass) :
    truncate (minimum t.errors) ≤ truncate (mean t.errors) ∧
      truncate (mean t.errors) ≤ truncate (maximum t.errors) ∧ |truncate (mean t.errors)| ≤ 64 := by
  have filled : t.errors ≠ [] := by simp [Triple.errors]
  obtain ⟨least, greatest⟩ := mean_mem filled fun e mem => extremes mem
  obtain ⟨low, high⟩ := mean_mem filled (triple_errors_range t)
  have bound := steepest_bound
  refine ⟨truncate_mono least, truncate_mono greatest, ?_⟩
  apply truncate_below
  · unfold mean
    push_cast
    linarith
  · unfold mean
    push_cast
    linarith

theorem small_command {c : Int} (small : |c| ≤ 64) : -64 ≤ c ∧ c ≤ 64 ∧
    readError (commandLine c) = Number.scale (-1 : ℝ) (atof (commandLine c)) := by
  have within : |c| ≤ 90 := by omega
  obtain ⟨low, high⟩ := abs_le.mp small
  refine ⟨low, high, ?_⟩
  rw [readError_command within, atof_command within]
  simp

theorem angle_law {history : List (Block ℝ)} {tracker : Tracker ℝ}
    (run : Run (next py (realDsp gccPhat)) initial history tracker) :
    AngleLaw py (realDsp gccPhat) history tracker := by
  have bound := steepest_bound
  constructor
  case measured =>
    intro b mem packet sent r given
    obtain ⟨_, _, _, moved⟩ := run_member run mem
    obtain ⟨accepted, same⟩ := (packet_errors moved packet sent).2 r given
    obtain ⟨low, high⟩ := accepted_range accepted
    have within : |r| ≤ steepest := by
      rw [same]
      exact abs_le.mpr ⟨low, high⟩
    exact ⟨within, by linarith⟩
  case smoothed =>
    intro b older placed packet sent
    obtain ⟨newer, rfl⟩ := placed
    obtain ⟨_, front⟩ := run_older run
    obtain ⟨_, moved, after⟩ := run_head front
    rw [(packet_errors moved packet sent).1, ← after]
    exact smoothed_between front fun e mem => extremes mem
  case commands =>
    intro pass
    by_cases silent : passWrites py (realDsp gccPhat) tracker pass = []
    · exact Or.inl silent
    · right
      by_cases loud : Loud (realDsp gccPhat) pass.raw
      · obtain ⟨t, _, wrote⟩ := loud_command (buffer_run run) loud silent
        obtain ⟨least, greatest, small⟩ := command_between t
        obtain ⟨low, high, same⟩ := small_command small
        exact ⟨_, wrote, low, high, fun _ => ⟨t, least, greatest⟩, same⟩
      · have read : Processed py tracker pass := by
          by_contra unread
          exact silent (writes_unprocessed unread)
        obtain ⟨low, high, same⟩ := small_command (show |(0 : Int)| ≤ 64 by decide)
        exact ⟨0, writes_quiet read loud, low, high, fun sound => absurd sound loud, same⟩
  case chart =>
    intro points given w h now counted all track drawn
    have inside : ∀ point ∈ points, ∀ v ∈ point.value, v ∈ Set.Icc (-steepest) steepest := by
      intro point mem v value
      obtain ⟨b, placed, packet, sent, rfl⟩ := given point mem v value
      obtain ⟨older, ⟨newer, rfl⟩, earlier, moved⟩ := run_member run placed
      rw [(packet_errors moved packet sent).1]
      exact smoothed_steepest (earlier.step moved)
    obtain ⟨bin, mem, height, low, high⟩ :=
      HistoryPanel.trackPoint_bin (HistoryPanel.bins_within all inside) drawn
    exact ⟨bin, mem, height, HistoryPanel.mapY_inside h ⟨by linarith, by linarith⟩⟩

/- A bench over the reals, for the block with equal impulses. -/

noncomputable def realPython : Python ℝ :=
  { benchPython with
    floatRepr := fun x =>
      if x = 10 then "10.0".toList else if x = 8000000 then "8000000.0".toList
      else "0.0".toList }

noncomputable def straightDsp : Dsp ℝ := realDsp fun _ _ => 0

noncomputable def realPass : Pass ℝ := ⟨onAxisRaw, [], fun _ => 10, 10⟩

theorem straight_rms : rms straightDsp onAxisRaw = 8000000 := by
  have squares : ∀ xs : List Int,
      ((xs.map (Int.cast : Int → ℝ)).map (· ^ 2)).sum = (((xs.map fun x : Int => x ^ 2).sum : Int) : ℝ) := by
    intro xs
    induction xs with
    | nil => simp
    | cons x xs ih =>
      simp only [List.map_cons, List.sum_cons, ih]
      push_cast
      ring
  have total : ((channel 0 (samples onAxisRaw)).map (· ^ 2)).sum = 8192000000000000 := by
    decide +kernel
  have count : (channel 0 (samples onAxisRaw)).length = 128 := by decide +kernel
  have mean_eq : mean (((mic1 onAxisRaw : List ℝ)).map (· ^ 2)) = 8000000 ^ 2 := by
    rw [mean, mic1, squares, total, List.length_map, List.length_map, count]
    norm_num
  unfold rms
  rw [mean_eq]
  exact Real.sqrt_sq (by norm_num)

theorem straight_error : rawErrorDeg straightDsp onAxisRaw = 0 := by
  simp [rawErrorDeg, ratio, straightDsp, realDsp, clip]

theorem straight_accepted : Accepted straightDsp onAxisRaw := by
  constructor
  · rw [Loud, straight_rms, threshold]
  · simp only [OnAxis, ratio, straightDsp, realDsp, clip]
    norm_num

theorem straight_packet (imu : ImuState ℝ) (silent : imu.trackerHeadingDeg = none) :
    trackingPacket straightDsp initial imu realPass =
      ⟨10, 8000000, true, some 0, 0, none, false, imu.imuCalibration, .tracking⟩ := by
  have average : smoothed straightDsp initial onAxisRaw = 0 := by
    simp [smoothed, straight_error, initial]
  have state : (trackingState straightDsp initial realPass).1 = .tracking := by
    simp only [trackingState, deriveState, realPass, average]
    norm_num [initial, lockBandDeg, lockHoldSeconds]
  simp only [trackingPacket, state]
  simp [realPass, straight_rms, straight_error, average, silent, imuIsFresh]

theorem real_texts : realPython.floatRepr 10 = "10.0".toList ∧
    realPython.floatRepr 8000000 = "8000000.0".toList ∧
    realPython.floatRepr 0 = "0.0".toList := by
  simp only [realPython]
  norm_num

theorem short_packet {repr : ℝ → List Char} {time level zero : ℝ}
    (first : repr time = "10.0".toList) (second : repr level = "8000000.0".toList)
    (third : repr zero = "0.0".toList) :
    (Utf8.encode (text repr (⟨time, level, true, some zero, zero, none, false, .null, .tracking⟩ :
      Packet ℝ).toJson)).length ≤ 65507 := by
  have finite : ∀ x, Json.numberText repr (.finite x) = repr x := fun x => rfl
  simp only [Packet.toJson, Packet.fields, Option.map_some, optionalFloat, text, membersText,
    laterMembersText, finite]
  rw [first, second, third]
  decide +kernel

theorem straight_moves : (next realPython straightDsp initial realPass).isSome := by
  obtain ⟨loud, ahead⟩ := straight_accepted
  obtain ⟨ten, level, zero⟩ := real_texts
  rw [next_iff _ _ _ _ (by decide +kernel)]
  constructor
  · intro line mem
    simp [linesTaken, timed, realPass, pendingText, initial, Utf8.decodeIgnoring,
      Utf8.decodeIgnoringFrom, Delimited.segments] at mem
  · intro packet built
    have idle : afterPoll realPython realPass.lineTime initial.imu realPass.serial =
        initial.imu := rfl
    have accepted : packetBuilt straightDsp initial initial.imu realPass =
        some (trackingPacket straightDsp initial initial.imu realPass) := by
      simp only [packetBuilt, realPass, loud, ahead, not_true_eq_false, if_false]
    rw [idle, accepted, straight_packet initial.imu rfl] at built
    rw [← Option.some.inj built]
    constructor
    · decide
    · have fits := short_packet ten level zero
      have null : (Utf8.encode (text realPython.floatRepr (.null : Value ℝ))).length = 4 := rfl
      show (Utf8.encode (text realPython.floatRepr (.null : Value ℝ))).length +
        (Utf8.encode (text realPython.floatRepr (⟨10, 8000000, true, some 0, 0, none, false, .null,
          .tracking⟩ : Packet ℝ).toJson)).length ≤ 65507 + 4
      omega

/-- One accepted block straight ahead. -/
theorem straight_block_in_range :
    ∃ (history : List (Block ℝ)) (tracker : Tracker ℝ),
      Run (next realPython straightDsp) initial history tracker ∧ history.length = 1 ∧
      (∀ b ∈ history, Accepted straightDsp b.input.raw) ∧
      AngleLaw realPython straightDsp history tracker := by
  have begun : Run (next realPython straightDsp) initial [] initial := Run.start
  have run := begun.go realPass straight_moves
  refine ⟨_, _, run, rfl, ?_, angle_law run⟩
  intro b mem
  rw [List.mem_singleton.mp mem]
  exact straight_accepted

end SoqTracker.AngleRange
