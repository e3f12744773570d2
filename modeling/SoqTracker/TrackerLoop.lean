import SoqTracker.Controller
import SoqTracker.Runs
import Mathlib.Algebra.Field.Rat
import Mathlib.Algebra.Order.Ring.Rat

/- The main loop of read_kinect.py. One pass reads an audio block, polls the
   controller, and then takes the quiet path, the off-axis path or the tracking
   path. The numpy functions and the delay estimate are parameters, so that the
   results hold for any loudness and any measured delay. Diagnostics printed to
   stderr are left out. -/
namespace SoqTracker.TrackerLoop
open ExtendedNumber Decimal Json Controller Runs

variable {α : Type} [Field α] [LinearOrder α]

structure Dsp (α : Type) [Field α] [LinearOrder α] where
  gccPhat : List α → List α → α
  sqrt : α → α
  arcsin : α → α
  degrees : α → α

/-- Arcsines reach from -90 to 90 degrees. -/
def Dsp.RightAngled (dsp : Dsp α) : Prop :=
  ∀ x, -1 ≤ x → x ≤ 1 → -90 ≤ dsp.degrees (dsp.arcsin x) ∧ dsp.degrees (dsp.arcsin x) ≤ 90

def micSpacing : α := 226 / 1000
def speedOfSound : α := 343
def blockSize : Nat := 128
def blockBytes : Nat := blockSize * 4 * 4
def threshold : α := 8000000
def lockBandDeg : α := 5
def lockHoldSeconds : α := 1
def idleHoldSeconds : α := 1 / 2
def errorEmaAlpha : α := 3 / 10
def imuStaleSeconds : α := 3 / 4

/- Audio: little-endian int32 samples, four microphones to a frame. -/

def int32 (a b c d : UInt8) : Int :=
  (BitVec.ofNat 32 (a.toNat + 256 * b.toNat + 65536 * c.toNat + 16777216 * d.toNat)).toInt

def samples : List UInt8 → List Int
  | a :: b :: c :: d :: bytes => int32 a b c d :: samples bytes
  | _ => []

def channel (mic : Nat) : List Int → List Int
  | a :: b :: c :: d :: later => [a, b, c, d].getD mic 0 :: channel mic later
  | _ => []

def mic1 (raw : List UInt8) : List α := (channel 0 (samples raw)).map Int.cast
def mic4 (raw : List UInt8) : List α := (channel 3 (samples raw)).map Int.cast

def mean (xs : List α) : α := xs.sum / xs.length

def rms (dsp : Dsp α) (raw : List UInt8) : α := dsp.sqrt (mean ((mic1 raw).map (· ^ 2)))

def clip (x low high : α) : α := min high (max low x)

def ratio (dsp : Dsp α) (raw : List UInt8) : α :=
  clip (dsp.gccPhat (mic1 raw) (mic4 raw) * speedOfSound / micSpacing) (-1) 1

def rawErrorDeg (dsp : Dsp α) (raw : List UInt8) : α := dsp.degrees (dsp.arcsin (ratio dsp raw))

/- Presentation state. -/

inductive TrackState where
  | idle
  | tracking
  | locked
  deriving DecidableEq, Repr

def TrackState.name : TrackState → String
  | idle => "IDLE"
  | tracking => "TRACKING"
  | locked => "LOCKED"

def deriveState (signalPresent measurementValid : Bool) (smoothedErrorDeg : α)
    (inLockSince : Option α) (now : α) : TrackState × Option α :=
  if !signalPresent then (.idle, none)
  else if measurementValid ∧ |smoothedErrorDeg| ≤ lockBandDeg then
    let since := inLockSince.getD now
    if lockHoldSeconds ≤ now - since then (.locked, some since) else (.tracking, some since)
  else (.tracking, none)

/- Packets. -/

structure Packet (α : Type) where
  timestamp : α
  rms : α
  measurementValid : Bool
  rawErrorDeg : Option α
  smoothedErrorDeg : α
  trackerHeadingDeg : Option (Number α)
  imuValid : Bool
  imuCalibration : Value α
  state : TrackState

def optionalFloat : Option (Number α) → Value α
  | none => .null
  | some x => .float x

def Packet.fields (packet : Packet α) : List (Text × Value α) :=
  [(key "timestamp", .float (.finite packet.timestamp)),
    (key "rms", .float (.finite packet.rms)),
    (key "measurement_valid", .bool packet.measurementValid),
    (key "raw_error_deg", optionalFloat (packet.rawErrorDeg.map .finite)),
    (key "smoothed_error_deg", .float (.finite packet.smoothedErrorDeg)),
    (key "tracker_heading_deg", optionalFloat packet.trackerHeadingDeg),
    (key "imu_valid", .bool packet.imuValid),
    (key "imu_calibration", packet.imuCalibration),
    (key "state", .str (key packet.state.name))]

def Packet.toJson (packet : Packet α) : Value α := .obj packet.fields

omit [Field α] [LinearOrder α] in
theorem packet_depth (packet : Packet α) : depth packet.toJson = 1 + depth packet.imuCalibration := by
  have flat : ∀ x : Option (Number α), depth (optionalFloat x) = 0 := by
    intro x
    cases x with
    | none => rfl
    | some value => rfl
  simp [Packet.toJson, Packet.fields, depth, membersDepth, flat]

def sendPacket (py : Python α) (packet : Packet α) : Except PyError (List UInt8) :=
  match dumps py.floatRepr py.dumpsLimit packet.toJson with
  | .error _ => .error .recursionError
  | .ok text =>
      if (Utf8.encode text).length ≤ py.maxDatagram then .ok (Utf8.encode text)
      else .error .osError

/- Steering. -/

variable [FloorRing α]

def commandBytes (command : Int) : List UInt8 := Utf8.encode (intText command ++ ['\n'])

def maximum : List α → α
  | [] => 0
  | x :: xs => xs.foldl max x

def minimum : List α → α
  | [] => 0
  | x :: xs => xs.foldl min x

def steer (lastErrors : List α) : List α × Option Int :=
  if 3 ≤ lastErrors.length then
    let recent := lastErrors.drop (lastErrors.length - 3)
    if maximum recent - minimum recent < 15 then ([], some (truncate (mean recent)))
    else if 5 < lastErrors.length then (lastErrors.drop 1, none)
    else (lastErrors, none)
  else (lastErrors, none)

/- The loop. -/

structure Tracker (α : Type) where
  lastErrors : List α
  smoothedError : α
  lastSignalTime : α
  inLockSince : Option α
  imu : ImuState α

def initial : Tracker α :=
  { lastErrors := []
    smoothedError := 0
    lastSignalTime := 0
    inLockSince := none
    imu := { imuLastUpdate := 0 } }

/-- What one pass reads: the audio, the bytes waiting on the serial port, and
    the clock for each controller line and for the block. -/
structure Pass (α : Type) where
  raw : List UInt8
  serial : List UInt8
  lineTime : Nat → α
  now : α

inductive Event (α : Type) where
  | write (bytes : List UInt8)
  | send (packet : Packet α) (payload : List UInt8)

inductive Exit where
  | endOfAudio
  | raised (error : PyError)
  deriving DecidableEq, Repr

structure Outcome (α : Type) where
  events : List (Event α)
  next : Except Exit (Tracker α)

def imuIsFresh (imu : ImuState α) (now : α) : Bool :=
  imu.trackerHeadingDeg.isSome && imu.imuValidFlag &&
    decide (now - imu.imuLastUpdate ≤ imuStaleSeconds)

/-- Send the packet after what the pass has written, then go on. -/
def finish (py : Python α) (written : List (Event α)) (packet : Packet α)
    (tracker : Tracker α) : Outcome α :=
  match sendPacket py packet with
  | .error error => ⟨written, .error (.raised error)⟩
  | .ok payload => ⟨written ++ [.send packet payload], .ok tracker⟩

/- The quiet path. -/

def quietState (tracker : Tracker α) (now : α) : TrackState × Option α :=
  deriveState (decide (now - tracker.lastSignalTime < idleHoldSeconds)) false
    tracker.smoothedError tracker.inLockSince now

def quietPacket (dsp : Dsp α) (tracker : Tracker α) (imu : ImuState α) (pass : Pass α) :
    Packet α :=
  { timestamp := pass.now
    rms := rms dsp pass.raw
    measurementValid := false
    rawErrorDeg := none
    smoothedErrorDeg := tracker.smoothedError
    trackerHeadingDeg := imu.trackerHeadingDeg
    imuValid := imuIsFresh imu pass.now
    imuCalibration := imu.imuCalibration
    state := (quietState tracker pass.now).1 }

def afterQuiet (tracker : Tracker α) (imu : ImuState α) (pass : Pass α) : Tracker α :=
  { tracker with
    lastErrors := []
    inLockSince := (quietState tracker pass.now).2
    imu := imu }

/- The tracking path. -/

def smoothed (dsp : Dsp α) (tracker : Tracker α) (raw : List UInt8) : α :=
  errorEmaAlpha * rawErrorDeg dsp raw + (1 - errorEmaAlpha) * tracker.smoothedError

def steered (dsp : Dsp α) (tracker : Tracker α) (raw : List UInt8) : List α × Option Int :=
  steer (tracker.lastErrors ++ [rawErrorDeg dsp raw])

def trackingState (dsp : Dsp α) (tracker : Tracker α) (pass : Pass α) :
    TrackState × Option α :=
  deriveState true true (smoothed dsp tracker pass.raw) tracker.inLockSince pass.now

def trackingPacket (dsp : Dsp α) (tracker : Tracker α) (imu : ImuState α) (pass : Pass α) :
    Packet α :=
  { timestamp := pass.now
    rms := rms dsp pass.raw
    measurementValid := true
    rawErrorDeg := some (rawErrorDeg dsp pass.raw)
    smoothedErrorDeg := smoothed dsp tracker pass.raw
    trackerHeadingDeg := imu.trackerHeadingDeg
    imuValid := imuIsFresh imu pass.now
    imuCalibration := imu.imuCalibration
    state := (trackingState dsp tracker pass).1 }

def afterTracking (dsp : Dsp α) (tracker : Tracker α) (imu : ImuState α) (pass : Pass α) :
    Tracker α :=
  { lastErrors := (steered dsp tracker pass.raw).1
    smoothedError := smoothed dsp tracker pass.raw
    lastSignalTime := pass.now
    inLockSince := (trackingState dsp tracker pass).2
    imu := imu }

def commandWrites (command : Option Int) : List (Event α) :=
  command.toList.map fun value => .write (commandBytes value)

/- One pass. -/

def Loud (dsp : Dsp α) (raw : List UInt8) : Prop := threshold ≤ rms dsp raw
def OnAxis (dsp : Dsp α) (raw : List UInt8) : Prop := |ratio dsp raw| ≤ 9 / 10

instance (dsp : Dsp α) (raw : List UInt8) : Decidable (Loud dsp raw) :=
  inferInstanceAs (Decidable (threshold ≤ rms dsp raw))

instance (dsp : Dsp α) (raw : List UInt8) : Decidable (OnAxis dsp raw) :=
  inferInstanceAs (Decidable (|ratio dsp raw| ≤ 9 / 10))

/-- A loud block whose direction is not accepted leaves the pass at once. -/
def mainLoop (py : Python α) (dsp : Dsp α) (tracker : Tracker α) (pass : Pass α) : Outcome α :=
  if pass.raw.length < blockBytes then ⟨[], .error .endOfAudio⟩
  else
    match pollControllerHeading py pass.lineTime tracker.imu pass.serial with
    | .error error => ⟨[], .error (.raised error)⟩
    | .ok imu =>
        if ¬ Loud dsp pass.raw then
          finish py [.write [48, 10]] (quietPacket dsp tracker imu pass)
            (afterQuiet tracker imu pass)
        else if ¬ OnAxis dsp pass.raw then ⟨[], .ok { tracker with imu := imu }⟩
        else
          finish py (commandWrites (steered dsp tracker pass.raw).2)
            (trackingPacket dsp tracker imu pass) (afterTracking dsp tracker imu pass)

def next (py : Python α) (dsp : Dsp α) (tracker : Tracker α) (pass : Pass α) :
    Option (Tracker α) :=
  (mainLoop py dsp tracker pass).next.toOption

/- What a pass did, read off its events and its block. -/

def Event.written? : Event α → Option (List UInt8)
  | .write bytes => some bytes
  | .send _ _ => none

def Event.sent? : Event α → Option (Packet α × List UInt8)
  | .write _ => none
  | .send packet payload => some (packet, payload)

def written (events : List (Event α)) : List (List UInt8) := events.filterMap Event.written?

def sent (events : List (Event α)) : List (Packet α × List UInt8) :=
  events.filterMap Event.sent?

omit [Field α] [LinearOrder α] [FloorRing α] in
theorem written_commands (command : Option Int) (later : List (Event α)) :
    written (commandWrites command ++ later) =
      command.toList.map commandBytes ++ written later := by
  cases command with
  | none => rfl
  | some value => rfl

omit [Field α] [LinearOrder α] [FloorRing α] in
theorem sent_commands (command : Option Int) (later : List (Event α)) :
    sent (commandWrites command ++ later) = sent later := by
  cases command with
  | none => rfl
  | some value => rfl

def OffAxis (dsp : Dsp α) (raw : List UInt8) : Prop := Loud dsp raw ∧ ¬ OnAxis dsp raw

def Accepted (dsp : Dsp α) (raw : List UInt8) : Prop := Loud dsp raw ∧ OnAxis dsp raw

instance (dsp : Dsp α) (raw : List UInt8) : Decidable (OffAxis dsp raw) := by
  unfold OffAxis; infer_instance

instance (dsp : Dsp α) (raw : List UInt8) : Decidable (Accepted dsp raw) := by
  unfold Accepted; infer_instance

/-- Everything a completed pass can have done: the state it leaves, the bytes it
    wrote to the controller and the packets it sent. -/
inductive Moved (py : Python α) (dsp : Dsp α) (tracker : Tracker α) (pass : Pass α)
    (imu : ImuState α) :
    Tracker α → List (List UInt8) → List (Packet α × List UInt8) → Prop where
  | quiet {payload : List UInt8} (low : ¬ Loud dsp pass.raw)
      (sends : sendPacket py (quietPacket dsp tracker imu pass) = .ok payload) :
      Moved py dsp tracker pass imu (afterQuiet tracker imu pass)
        [[48, 10]] [(quietPacket dsp tracker imu pass, payload)]
  | offAxis (aside : OffAxis dsp pass.raw) :
      Moved py dsp tracker pass imu { tracker with imu := imu } [] []
  | tracking {payload : List UInt8} (accepted : Accepted dsp pass.raw)
      (sends : sendPacket py (trackingPacket dsp tracker imu pass) = .ok payload) :
      Moved py dsp tracker pass imu (afterTracking dsp tracker imu pass)
        ((steered dsp tracker pass.raw).2.toList.map commandBytes)
        [(trackingPacket dsp tracker imu pass, payload)]

omit [Field α] [LinearOrder α] [FloorRing α] in
theorem finish_next {py : Python α} {before : List (Event α)} {packet : Packet α}
    {tracker tracker' : Tracker α}
    (moved : (finish py before packet tracker).next.toOption = some tracker') :
    ∃ payload, sendPacket py packet = .ok payload ∧ tracker' = tracker ∧
      (finish py before packet tracker).events = before ++ [.send packet payload] := by
  unfold finish at moved ⊢
  cases sends : sendPacket py packet with
  | error error => simp [sends, Except.toOption] at moved
  | ok payload =>
    simp only [sends, Except.toOption, Option.some.injEq] at moved
    exact ⟨payload, rfl, moved.symm, rfl⟩

theorem mainLoop_moved {py : Python α} {dsp : Dsp α} {tracker tracker' : Tracker α}
    {pass : Pass α} (moved : next py dsp tracker pass = some tracker') :
    blockBytes ≤ pass.raw.length ∧ ∃ imu,
      pollControllerHeading py pass.lineTime tracker.imu pass.serial = .ok imu ∧
      Moved py dsp tracker pass imu tracker' (written (mainLoop py dsp tracker pass).events)
        (sent (mainLoop py dsp tracker pass).events) := by
  unfold next mainLoop at moved
  unfold mainLoop
  by_cases short : pass.raw.length < blockBytes
  · simp [short, Except.toOption] at moved
  · simp only [short, if_false] at moved ⊢
    refine ⟨Nat.le_of_not_lt short, ?_⟩
    cases polled : pollControllerHeading py pass.lineTime tracker.imu pass.serial with
    | error error => simp [polled, Except.toOption] at moved
    | ok imu =>
      refine ⟨imu, rfl, ?_⟩
      simp only [polled] at moved ⊢
      by_cases loud : Loud dsp pass.raw
      · by_cases ahead : OnAxis dsp pass.raw
        · simp only [loud, ahead, not_true_eq_false, if_false] at moved ⊢
          obtain ⟨payload, sends, same, events⟩ := finish_next moved
          rw [same, events, written_commands, sent_commands]
          simp only [written, sent, List.filterMap_cons, Event.written?, Event.sent?,
            List.filterMap_nil, List.append_nil]
          exact Moved.tracking ⟨loud, ahead⟩ sends
        · simp only [loud, ahead, not_true_eq_false, not_false_eq_true, if_false, if_true,
            Except.toOption, Option.some.injEq] at moved ⊢
          rw [← moved]
          exact Moved.offAxis ⟨loud, ahead⟩
      · simp only [loud, not_false_eq_true, if_true] at moved ⊢
        obtain ⟨payload, sends, same, events⟩ := finish_next moved
        rw [same, events]
        exact Moved.quiet loud sends

theorem next_moved {py : Python α} {dsp : Dsp α} {tracker tracker' : Tracker α} {pass : Pass α}
    (moved : next py dsp tracker pass = some tracker') :
    ∃ imu writes packets, blockBytes ≤ pass.raw.length ∧
      pollControllerHeading py pass.lineTime tracker.imu pass.serial = .ok imu ∧
      written (mainLoop py dsp tracker pass).events = writes ∧
      sent (mainLoop py dsp tracker pass).events = packets ∧
      Moved py dsp tracker pass imu tracker' writes packets := by
  obtain ⟨full, imu, polled, move⟩ := mainLoop_moved moved
  exact ⟨imu, _, _, full, polled, rfl, rfl, move⟩

/- The bytes a pass wrote, whether or not it raised afterwards. -/

def passWrites (py : Python α) (dsp : Dsp α) (tracker : Tracker α) (pass : Pass α) :
    List (List UInt8) :=
  written (mainLoop py dsp tracker pass).events

def Processed (py : Python α) (tracker : Tracker α) (pass : Pass α) : Prop :=
  blockBytes ≤ pass.raw.length ∧
    ∃ imu, pollControllerHeading py pass.lineTime tracker.imu pass.serial = .ok imu

omit [Field α] [LinearOrder α] [FloorRing α] in
theorem finish_written (py : Python α) (before : List (Event α)) (packet : Packet α)
    (tracker : Tracker α) : written (finish py before packet tracker).events = written before := by
  unfold finish
  cases sendPacket py packet with
  | error error => rfl
  | ok payload => simp [written, Event.written?]

theorem writes_unprocessed {py : Python α} {dsp : Dsp α} {tracker : Tracker α} {pass : Pass α}
    (unread : ¬ Processed py tracker pass) : passWrites py dsp tracker pass = [] := by
  unfold passWrites mainLoop
  by_cases short : pass.raw.length < blockBytes
  · simp [short, written]
  · cases polled : pollControllerHeading py pass.lineTime tracker.imu pass.serial with
    | error error => simp [short, written]
    | ok imu => exact absurd ⟨Nat.le_of_not_lt short, imu, polled⟩ unread

theorem writes_quiet {py : Python α} {dsp : Dsp α} {tracker : Tracker α} {pass : Pass α}
    (read : Processed py tracker pass) (low : ¬ Loud dsp pass.raw) :
    passWrites py dsp tracker pass = [[48, 10]] := by
  obtain ⟨full, imu, polled⟩ := read
  simp only [passWrites, mainLoop, Nat.not_lt.mpr full, polled, low, if_false, not_false_eq_true,
    if_true]
  exact finish_written py _ _ _

theorem writes_offAxis {py : Python α} {dsp : Dsp α} {tracker : Tracker α} {pass : Pass α}
    (aside : OffAxis dsp pass.raw) : passWrites py dsp tracker pass = [] := by
  by_cases read : Processed py tracker pass
  · obtain ⟨full, imu, polled⟩ := read
    simp [passWrites, mainLoop, Nat.not_lt.mpr full, polled, aside.1, aside.2, written]
  · exact writes_unprocessed read

theorem writes_tracking {py : Python α} {dsp : Dsp α} {tracker : Tracker α} {pass : Pass α}
    (read : Processed py tracker pass) (accepted : Accepted dsp pass.raw) :
    passWrites py dsp tracker pass =
      (steered dsp tracker pass.raw).2.toList.map commandBytes := by
  obtain ⟨full, imu, polled⟩ := read
  simp only [passWrites, mainLoop, Nat.not_lt.mpr full, polled, accepted.1, accepted.2, if_false,
    not_true_eq_false]
  rw [finish_written]
  simpa [written] using written_commands (steered dsp tracker pass.raw).2 ([] : List (Event α))

theorem next_processed {py : Python α} {dsp : Dsp α} {tracker tracker' : Tracker α}
    {pass : Pass α} (moved : next py dsp tracker pass = some tracker') :
    Processed py tracker pass := by
  obtain ⟨full, imu, polled, _⟩ := mainLoop_moved moved
  exact ⟨full, imu, polled⟩

theorem sent_completes {py : Python α} {dsp : Dsp α} {tracker : Tracker α} {pass : Pass α}
    {packet : Packet α × List UInt8} (mem : packet ∈ sent (mainLoop py dsp tracker pass).events) :
    ∃ tracker', next py dsp tracker pass = some tracker' := by
  have from_finish : ∀ (before : List (Event α)) (built : Packet α) (after : Tracker α),
      sent before = [] → packet ∈ sent (finish py before built after).events →
        ∃ tracker', (finish py before built after).next.toOption = some tracker' := by
    intro before built after silent mem
    unfold finish at mem ⊢
    cases sends : sendPacket py built with
    | error error => simp [sends, silent] at mem
    | ok payload => exact ⟨after, rfl⟩
  unfold next
  unfold mainLoop at mem ⊢
  by_cases short : pass.raw.length < blockBytes
  · simp [short, sent] at mem
  · simp only [short, if_false] at mem ⊢
    cases polled : pollControllerHeading py pass.lineTime tracker.imu pass.serial with
    | error error => simp [polled, sent] at mem
    | ok imu =>
      simp only [polled] at mem ⊢
      by_cases loud : Loud dsp pass.raw
      · by_cases ahead : OnAxis dsp pass.raw
        · simp only [loud, ahead, not_true_eq_false, if_false] at mem ⊢
          refine from_finish _ _ _ ?_ mem
          simpa [sent] using sent_commands (steered dsp tracker pass.raw).2 ([] : List (Event α))
        · simp [loud, ahead, sent] at mem
      · simp only [loud, not_false_eq_true, if_true] at mem ⊢
        exact from_finish _ _ _ rfl mem

/- Histories, newest block first. -/

abbrev Block (α : Type) := Transition (Tracker α) (Pass α)

/-- Clock readings never go back. -/
def Nondecreasing (history : List (Block α)) : Prop :=
  history.Pairwise fun later earlier => earlier.input.now ≤ later.input.now

instance (history : List (Block α)) : Decidable (Nondecreasing history) := by
  unfold Nondecreasing; infer_instance

def blockWrites (py : Python α) (dsp : Dsp α) (b : Block α) : List (List UInt8) :=
  passWrites py dsp b.before b.input

def blockPackets (py : Python α) (dsp : Dsp α) (b : Block α) : List (Packet α × List UInt8) :=
  sent (mainLoop py dsp b.before b.input).events

/- A bench over the rationals for runs on fixed inputs. Its numpy functions and
   its delay estimate agree with the real ones on the blocks below: silence, two
   equal impulses on both outer microphones, and the same impulses reaching the
   first one eleven samples later. -/

def benchPython : Python ℚ :=
  { floatRepr := fun x =>
      intText (truncate x) ++ '.' :: natText ((truncate (10 * x)).natAbs % 10)
    limits := Limits.standard
    dumpsLimit := 900
    maxDatagram := 65507 }

def benchDsp : Dsp ℚ :=
  { gccPhat := fun sig refsig => if sig = refsig then 0 else 11 / 16000
    sqrt := fun x => if x = 64000000000000 then 8000000 else 0
    arcsin := id
    degrees := id }

/-- For impulses that reach the first microphone one sample later: 5.43 degrees, where
    the arcsine gives 5.44. -/
def slantedDsp : Dsp ℚ :=
  { benchDsp with
    gccPhat := fun sig refsig => if sig = refsig then 0 else 1 / 16000
    degrees := fun x => 57296 / 1000 * x }

theorem slantedDsp_rightAngled : slantedDsp.RightAngled := by
  intro x low high
  show -90 ≤ 57296 / 1000 * x ∧ 57296 / 1000 * x ≤ 90
  constructor <;> linarith

def impulse : List UInt8 := [0, 144, 208, 3]
def silence (count : Nat) : List UInt8 := List.replicate (4 * count) 0

def quietRaw : List UInt8 := silence 512

def onAxisRaw : List UInt8 :=
  impulse ++ silence 2 ++ impulse ++ impulse ++ silence 2 ++ impulse ++ silence 504

def offAxisRaw : List UInt8 :=
  silence 3 ++ impulse ++ silence 3 ++ impulse ++ silence 36 ++ impulse ++ silence 3 ++
    impulse ++ silence 463

def slantedRaw : List UInt8 :=
  silence 3 ++ impulse ++ impulse ++ silence 2 ++ impulse ++ impulse ++ silence 503

def benchPass (raw : List UInt8) (serial : List UInt8) (now : ℚ) : Pass ℚ :=
  ⟨raw, serial, fun _ => now, now⟩

theorem bench_start : Run (next benchPython benchDsp) initial [] initial := Run.start

end SoqTracker.TrackerLoop
