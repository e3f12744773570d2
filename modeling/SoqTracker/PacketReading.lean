import SoqTracker.HeardLines
import SoqTracker.JsonSound
import SoqTracker.DatagramEffects

/- A packet of the tracker, as the dashboard reads it. The calibration value comes
   from a controller line, so it is one that json.dumps writes and json.loads
   reads back. -/
namespace SoqTracker.PacketReading
open ExtendedNumber Decimal Json Controller TrackerLoop HeardLines Runs
open TelemetryBridge (Desktop Locals decode item floatItem getItem floatOrNone readLocals)
open DatagramEffects (readFields shownTime ok_bind error_bind)

/- Integers that int() accepted are short enough to be read again. -/

theorem ofDigits_bound {text : List Char} (digits : Digits text) (start : Nat) :
    Nat.ofDigitChars 10 text start < (start + 1) * 10 ^ text.length := by
  induction text generalizing start with
  | nil => simp
  | cons c text ih =>
    obtain ⟨low, high⟩ := digit_range (digits c (by simp))
    have later := ih (fun d mem => digits d (by simp [mem])) (10 * start + (c.toNat - 48))
    have size : (10 * start + (c.toNat - 48) + 1) * 10 ^ text.length ≤
        (start + 1) * 10 * 10 ^ text.length := Nat.mul_le_mul_right _ (by omega)
    have zero : ('0' : Char).toNat = 48 := rfl
    rw [Nat.ofDigitChars_cons, zero, List.length_cons, Nat.pow_succ']
    calc Nat.ofDigitChars 10 text (10 * start + (c.toNat - 48))
        < (10 * start + (c.toNat - 48) + 1) * 10 ^ text.length := later
      _ ≤ (start + 1) * 10 * 10 ^ text.length := size
      _ = (start + 1) * (10 * 10 ^ text.length) := Nat.mul_assoc _ _ _

theorem pyInt_fits {most : Option Nat} {text : List Char} {value : Int}
    (read : pyInt most text = some value) : fitsDigits most (natText value.natAbs) := by
  obtain ⟨plain, _, converted⟩ := Option.bind_eq_some_iff.mp read
  simp only at converted
  split at converted
  · rename_i shape
    obtain ⟨filled, digits, fits⟩ := shape
    have size : value.natAbs = Nat.ofDigitChars 10 (scanSign plain).2 0 := by
      rw [← Option.some.inj converted]
      split
      · simp
      · simp
    have bound := ofDigits_bound (fun c mem => List.all_eq_true.mp digits c mem) 0
    have shorter : (natText value.natAbs).length ≤ (scanSign plain).2.length := by
      refine (Nat.length_toDigits_le_iff (by decide) (List.length_pos_of_ne_nil filled)).mpr ?_
      rw [size]
      simpa using bound
    rw [fitsDigits, Option.all_eq_true] at fits ⊢
    intro limit limited
    have enough := of_decide_eq_true (fits limit limited)
    exact decide_eq_true (shorter.trans enough)
  · simp at converted

/- The calibration value. -/

section Calibration
variable {α : Type} [Field α] [LinearOrder α]

omit [Field α] [LinearOrder α] in
theorem getField_sound {digits : Option Nat} {payload : List (Text × Value α)}
    (sound : Sound digits (.obj payload)) (name : String) :
    Sound digits (getField name payload) := by
  have members := sound.2
  clear sound
  unfold getField lookup
  induction payload with
  | nil => trivial
  | cons member payload ih =>
    rw [List.find?_cons]
    by_cases found : member.1 = key name
    · simpa [found] using members.2.1
    · simpa [found] using ih members.2.2

theorem readPart_calibration {py : Python α} {read read' : Fields α} {part : List Char}
    (done : readPart py read part = some read') (sound : Sound py.limits.digits read.calibration) :
    Sound py.limits.digits read'.calibration := by
  unfold readPart at done
  split_ifs at done with heading calibration imu
  · obtain ⟨value, _, same⟩ := Option.map_eq_some_iff.mp done
    rw [← same]
    exact sound
  · split at done
    · rename_i value read
      rw [← Option.some.inj done]
      exact pyInt_fits read
    · rw [← Option.some.inj done]
      trivial
  · rw [← Option.some.inj done]
    exact sound
  · rw [← Option.some.inj done]
    exact sound

theorem readParts_calibration {py : Python α} {parts : List (List Char)} {read read' : Fields α}
    (done : parts.foldlM (readPart py) read = some read')
    (sound : Sound py.limits.digits read.calibration) :
    Sound py.limits.digits read'.calibration := by
  induction parts generalizing read with
  | nil =>
    rw [← Option.some.inj done]
    exact sound
  | cons part parts ih =>
    rw [List.foldlM_cons] at done
    obtain ⟨middle, first, later⟩ := Option.bind_eq_some_iff.mp done
    exact ih later (readPart_calibration first sound)

theorem report_calibration {py : Python α} {line : List Char} {parsed : Parsed α}
    (reported : report py line = some parsed) : Sound py.limits.digits parsed.calibration := by
  rcases report_cases reported with ⟨_, whole⟩ | ⟨_, fields⟩
  · obtain ⟨payload, read, _, _, same⟩ := parseJsonLine_spec whole
    rw [same]
    exact getField_sound (loads_sound read) "calibration"
  · unfold parseFieldLine at fields
    split at fields
    · rename_i heading imuValid calibration read
      rw [← Option.some.inj fields]
      exact readParts_calibration read trivial
    · simp at fields

variable [FloorRing α]

theorem headingState_calibration (py : Python α) (buffer : List Char)
    (lines : List (List Char × α)) :
    Sound py.limits.digits (headingState py buffer lines).imuCalibration := by
  unfold headingState
  cases last : lastReport py lines with
  | none => trivial
  | some report =>
    have mem := List.mem_of_getLast? last
    obtain ⟨line, _, found⟩ := List.mem_filterMap.mp mem
    obtain ⟨parsed, reported, same⟩ := Option.map_eq_some_iff.mp found
    rw [← same]
    exact report_calibration reported

theorem calibration_run {py : Python α} {dsp : Dsp α} {history : List (Block α)}
    {tracker : Tracker α} (run : Run (next py dsp) initial history tracker) :
    Sound py.limits.digits tracker.imu.imuCalibration := by
  rw [imu_run run]
  exact headingState_calibration py _ _

end Calibration

/- The packet. -/

section Packet
variable {α : Type} [Field α] [LinearOrder α]

theorem soundText_low {value : Text} (low : ∀ n ∈ value, n < 0xD800) : SoundText value := by
  induction value with
  | nil => trivial
  | cons n value ih =>
    have small := low n (by simp)
    refine soundText_push (by omega) (ih fun m mem => low m (by simp [mem])) ?_
    rintro m _ ⟨high, _⟩
    simp only [isHigh, Bool.and_eq_true, decide_eq_true_eq] at high
    omega

omit [Field α] [LinearOrder α] in
theorem packet_sound {digits : Option Nat} {packet : Packet α}
    (sound : Sound digits packet.imuCalibration) : Sound digits packet.toJson := by
  have flat : ∀ x : Option (Number α), Sound digits (optionalFloat x) := by
    intro x
    cases x with
    | none => trivial
    | some value => trivial
  have names : ∀ name ∈ packet.fields.map Prod.fst, SoundText name := by
    have low : ∀ name ∈ packet.fields.map Prod.fst, ∀ n ∈ name, n < 0xD800 := by
      simp only [Packet.fields, List.map_cons, List.map_nil]
      decide
    intro name mem
    exact soundText_low (low name mem)
  have state : SoundText (key packet.state.name) := by
    apply soundText_low
    cases packet.state with
    | idle => decide
    | tracking => decide
    | locked => decide
  refine ⟨?_, ?_⟩
  · simp only [Packet.fields, List.map_cons, List.map_nil]
    decide
  · simp only [Packet.fields, List.map_cons, List.map_nil, List.mem_cons, List.not_mem_nil,
      or_false, forall_eq_or_imp, forall_eq] at names
    obtain ⟨one, two, three, four, five, six, seven, eight, nine⟩ := names
    exact ⟨one, trivial, two, trivial, three, trivial, four, flat _, five, trivial, six, flat _,
      seven, trivial, eight, sound, nine, state, trivial⟩

def packetLocals (packet : Packet α) : Locals α :=
  { packet := packet.toJson
    timestamp := .finite packet.timestamp
    state := key packet.state.name
    measurementValid := packet.measurementValid
    rawError := optionalFloat (packet.rawErrorDeg.map .finite)
    heading := optionalFloat packet.trackerHeadingDeg }

theorem readLocals_packet {desktop : Desktop α} {repr : α → List Char} {packet : Packet α}
    (sound : Sound desktop.limits.digits packet.imuCalibration)
    (readable : AllReadable repr (floats packet.toJson)) :
    readLocals desktop (Utf8.encode (text repr packet.toJson)) =
      if depth packet.imuCalibration < desktop.limits.nesting then .ok (packetLocals packet)
      else .error .recursionError := by
  have spelled : decode (Utf8.encode (text repr packet.toJson)) =
      .ok (text repr packet.toJson) := by
    rw [decode, Utf8.decode_ascii _ (text_ascii packet.toJson readable)]
  have loaded : loads desktop.limits (text repr packet.toJson) =
      if depth packet.toJson ≤ desktop.limits.nesting then .ok packet.toJson
      else .error .tooDeep := loads_text (packet_sound sound) readable
  rw [packet_depth] at loaded
  unfold readLocals
  rw [spelled, ok_bind]
  by_cases shallow : depth packet.imuCalibration < desktop.limits.nesting
  · have inside : 1 + depth packet.imuCalibration ≤ desktop.limits.nesting := by omega
    rw [if_pos inside] at loaded
    rw [if_pos shallow, jsonLoads, loaded]
    have timestamp : floatItem "timestamp" packet.toJson = .ok (.finite packet.timestamp) := rfl
    have state : item "state" packet.toJson = .ok (.str (key packet.state.name)) := rfl
    have valid : item "measurement_valid" packet.toJson = .ok (.bool packet.measurementValid) := rfl
    have rawError : getItem "raw_error_deg" .null packet.toJson =
        .ok (optionalFloat (packet.rawErrorDeg.map .finite)) := rfl
    have heading : getItem "tracker_heading_deg" .null packet.toJson =
        .ok (optionalFloat packet.trackerHeadingDeg) := rfl
    simp only [ok_bind, timestamp, state, valid, rawError, heading, desktop.str_text]
    rfl
  · have outside : ¬ 1 + depth packet.imuCalibration ≤ desktop.limits.nesting := by omega
    rw [if_neg outside] at loaded
    rw [if_neg shallow, jsonLoads, loaded]
    rfl

theorem floatOrNone_optional (x : Option (Number α)) : floatOrNone (optionalFloat x) = .ok x := by
  cases x with
  | none => rfl
  | some value => rfl

theorem shownTime_packet {desktop : Desktop α} {repr : α → List Char} {packet : Packet α}
    (sound : Sound desktop.limits.digits packet.imuCalibration)
    (readable : AllReadable repr (floats packet.toJson)) :
    shownTime desktop (Utf8.encode (text repr packet.toJson)) =
      if depth packet.imuCalibration < desktop.limits.nesting then
        some (.finite packet.timestamp) else none := by
  unfold shownTime readFields
  rw [readLocals_packet sound readable]
  by_cases shallow : depth packet.imuCalibration < desktop.limits.nesting
  · rw [if_pos shallow, if_pos shallow]
    have rms : floatItem "rms" packet.toJson = .ok (.finite packet.rms) := rfl
    have smoothed : floatItem "smoothed_error_deg" packet.toJson =
        .ok (.finite packet.smoothedErrorDeg) := rfl
    have valid : getItem "imu_valid" (.bool false) packet.toJson = .ok (.bool packet.imuValid) := rfl
    simp only [packetLocals, ok_bind, rms, smoothed, valid, floatOrNone_optional]
    rfl
  · rw [if_neg shallow, if_neg shallow]
    rfl

end Packet

end SoqTracker.PacketReading
