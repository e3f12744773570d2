import SoqTracker.Polling
import SoqTracker.TrackerLoop
import SoqTracker.JsonRoundTrip

/- Which controller input stops the tracker. A line raises when its JSON is
   nested too deep, has an integer of too many digits or too large a heading, and
   a calibration value may be too deep or too long for a packet. -/
namespace SoqTracker.InputTotality
open ExtendedNumber Decimal Json Controller Delimited TrackerLoop Runs

variable {α : Type} [Field α] [LinearOrder α]

/- Packets. -/

/-- The calibration value leaves room for the rest of its packet: the same
    packet with null in its place. -/
def CalibrationFits (py : Python α) (packet : Packet α) : Prop :=
  depth packet.imuCalibration < py.dumpsLimit ∧
    (Utf8.encode (text py.floatRepr packet.imuCalibration)).length +
      (Utf8.encode (text py.floatRepr { packet with imuCalibration := .null }.toJson)).length ≤
        py.maxDatagram + 4

omit [Field α] [LinearOrder α] in
theorem packet_length (repr : α → List Char) (packet : Packet α) :
    (Utf8.encode (text repr packet.toJson)).length + 4 =
      (Utf8.encode (text repr packet.imuCalibration)).length +
        (Utf8.encode (text repr { packet with imuCalibration := .null }.toJson)).length := by
  obtain ⟨before, after, spelled⟩ :=
    member_text repr (packet.fields.take 7) (packet.fields.drop 8) (key "imu_calibration")
  have whole : text repr packet.toJson = before ++ text repr packet.imuCalibration ++ after :=
    spelled packet.imuCalibration
  have bare : text repr { packet with imuCalibration := .null }.toJson =
      before ++ text repr .null ++ after := spelled .null
  have null : (Utf8.encode (text repr (.null : Value α))).length = 4 := rfl
  rw [whole, bare]
  simp only [Utf8.encode_append, List.length_append, null]
  omega

omit [Field α] [LinearOrder α] in
theorem sendPacket_iff (py : Python α) (packet : Packet α) :
    (∃ payload, sendPacket py packet = .ok payload) ↔ CalibrationFits py packet := by
  have size := packet_length py.floatRepr packet
  unfold sendPacket dumps CalibrationFits
  rw [packet_depth]
  by_cases shallow : 1 + depth packet.imuCalibration ≤ py.dumpsLimit
  · rw [if_pos shallow]
    by_cases small : (Utf8.encode (text py.floatRepr packet.toJson)).length ≤ py.maxDatagram
    · simp only [small, if_true, Except.ok.injEq, exists_eq', true_iff]
      constructor
      · omega
      · omega
    · simp only [small, if_false]
      constructor
      · simp
      · rintro ⟨_, fits⟩
        omega
  · rw [if_neg shallow]
    constructor
    · simp
    · rintro ⟨deep, _⟩
      omega

variable [FloorRing α]

/- Passes. -/

def packetBuilt (dsp : Dsp α) (tracker : Tracker α) (imu : ImuState α) (pass : Pass α) :
    Option (Packet α) :=
  if ¬ Loud dsp pass.raw then some (quietPacket dsp tracker imu pass)
  else if ¬ OnAxis dsp pass.raw then none
  else some (trackingPacket dsp tracker imu pass)

/-- The controller input of a pass cannot stop it: no line it completes raises,
    and the calibration then known fits the packet. -/
def Harmless (py : Python α) (dsp : Dsp α) (tracker : Tracker α) (pass : Pass α) : Prop :=
  (∀ line ∈ linesTaken pass.lineTime tracker.imu pass.serial, ¬ RaisingLine py line.1) ∧
    ∀ packet ∈ packetBuilt dsp tracker (afterPoll py pass.lineTime tracker.imu pass.serial) pass,
      CalibrationFits py packet

omit [Field α] [LinearOrder α] [FloorRing α] in
theorem finish_goes_on (py : Python α) (before : List (Event α)) (packet : Packet α)
    (tracker : Tracker α) :
    (finish py before packet tracker).next.toOption.isSome ↔
      ∃ payload, sendPacket py packet = .ok payload := by
  unfold finish
  cases sendPacket py packet with
  | error error => simp [Except.toOption]
  | ok payload => simp [Except.toOption]

theorem poll_iff (py : Python α) (clock : Nat → α) (imu : ImuState α) (waiting : List UInt8) :
    (∃ imu', pollControllerHeading py clock imu waiting = .ok imu') ↔
      ∀ line ∈ linesTaken clock imu waiting, ¬ RaisingLine py line.1 := by
  simp only [← parseControllerLine_raises_iff]
  constructor
  · rintro ⟨imu', polled⟩
    exact (poll_eq polled).2
  · intro fine
    exact ⟨_, poll_ok fine⟩

theorem next_iff (py : Python α) (dsp : Dsp α) (tracker : Tracker α) (pass : Pass α)
    (full : blockBytes ≤ pass.raw.length) :
    (next py dsp tracker pass).isSome ↔ Harmless py dsp tracker pass := by
  unfold next mainLoop Harmless packetBuilt
  rw [if_neg (Nat.not_lt.mpr full), ← poll_iff]
  cases polled : pollControllerHeading py pass.lineTime tracker.imu pass.serial with
  | error error => simp [Except.toOption]
  | ok imu =>
    rw [← (poll_eq polled).1]
    by_cases loud : Loud dsp pass.raw
    · by_cases ahead : OnAxis dsp pass.raw
      · simp [loud, ahead, finish_goes_on, sendPacket_iff]
      · simp [loud, ahead, Except.toOption]
    · simp [loud, finish_goes_on, sendPacket_iff]

/-- Lines, polls, packets and whole runs over full blocks: each goes on exactly
    when its controller input is harmless. -/
theorem runs_on_iff_harmless (py : Python α) (dsp : Dsp α) :
    (∀ line, (∃ parsed, parseControllerLine py line = .ok parsed) ↔ ¬ RaisingLine py line) ∧
    (∀ clock imu waiting, (∃ imu', pollControllerHeading py clock imu waiting = .ok imu') ↔
      ∀ line ∈ linesTaken clock imu waiting, ¬ RaisingLine py line.1) ∧
    (∀ packet, (∃ payload, sendPacket py packet = .ok payload) ↔ CalibrationFits py packet) ∧
    ∀ passes : List (Pass α), (∀ pass ∈ passes, blockBytes ≤ pass.raw.length) →
      ((replay (next py dsp) [] initial passes).isSome ↔
        EachStep (next py dsp) (Harmless py dsp) initial passes) := by
  refine ⟨?lines, poll_iff py, sendPacket_iff py, ?runs⟩
  case lines =>
    intro line
    rw [← parseControllerLine_raises_iff]
    unfold Raises
    cases parseControllerLine py line with
    | error error => simp
    | ok parsed => simp
  case runs =>
    intro passes full
    exact replay_completes_iff (next_iff py dsp) passes full [] initial

def exit? (outcome : Outcome α) : Option Exit :=
  match outcome.next with
  | .error exit => some exit
  | .ok _ => none

def powerLine (zeros : Nat) : List UInt8 :=
  Utf8.encode ("\x7b\"heading_deg\": 1".toList ++ List.replicate zeros '0' ++ ['\x7d', '\n'])

/-- A heading of 10^309 in a JSON line raises OverflowError, which nothing catches. -/
theorem large_heading_raises :
    blockBytes ≤ quietRaw.length ∧
      exit? (mainLoop benchPython benchDsp initial (benchPass quietRaw (powerLine 309) 10)) =
        some (.raised .overflowError) := by
  decide +kernel

/-- One of 10^2 does not stop the tracker. -/
theorem small_heading_runs_on :
    EachStep (next benchPython benchDsp) (Harmless benchPython benchDsp) initial
      [benchPass quietRaw (powerLine 2) 10, benchPass onAxisRaw [] 11] := by
  refine ((runs_on_iff_harmless benchPython benchDsp).2.2.2 _ ?full).mp ?completes
  case full =>
    intro pass mem
    simp only [List.mem_cons, List.not_mem_nil, or_false] at mem
    rcases mem with rfl | rfl
    · decide +kernel
    · decide +kernel
  case completes => decide +kernel

end SoqTracker.InputTotality
