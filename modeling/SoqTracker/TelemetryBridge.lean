import SoqTracker.Controller

/- The TelemetryBridge of visualizer.py: what a datagram does to the telemetry
   fields and the history, statement by statement, and the polling of the socket.
   A computation keeps the state it had reached when it raises. Of the standard
   library str() and the logarithm of a level ratio are parameters. -/
namespace SoqTracker.TelemetryBridge
open ExtendedNumber Json Controller

variable {α : Type} [Field α] [LinearOrder α] [FloorRing α]

def timelineSeconds : α := 10
def audioStaleSeconds : α := 6 / 10
def headingOffsetDeg : α := 0
def levelEmaAlpha : α := 4 / 100
def audioDotPositionEmaAlpha : α := 22 / 100
def audioDotEdgeHeadingDeg : α := 85

/-- logRatio is math.log10(rms / RMS_REFERENCE), which raises when the quotient
    underflows. -/
structure Desktop (α : Type) where
  limits : Limits
  str : Value α → Except PyError Text
  logRatio : Number α → Except PyError (Number α)
  str_text : ∀ text, str (.str text) = .ok text

structure HistoryPoint (α : Type) where
  timestamp : Number α
  value : Option (Number α)
  valid : Bool
  activity : Number α
  state : Text

structure Bridge (α : Type) where
  timestamp : Number α
  rms : Number α
  displayRms : Number α
  measurementValid : Bool
  rawErrorDeg : Option (Number α)
  smoothedErrorDeg : Number α
  trackerHeadingDeg : Option (Number α)
  imuValid : Bool
  state : Text
  lastPacketTime : Number α
  stateSince : Number α
  history : List (HistoryPoint α)
  audioDotNormalized : Number α
  audioDotInitialized : Bool

def initial (now : α) : Bridge α :=
  { timestamp := .finite now
    rms := .finite 0
    displayRms := .finite 0
    measurementValid := false
    rawErrorDeg := none
    smoothedErrorDeg := .finite 0
    trackerHeadingDeg := none
    imuValid := false
    state := key "IDLE"
    lastPacketTime := .finite 0
    stateSince := .finite now
    history := []
    audioDotNormalized := .finite 0
    audioDotInitialized := false }

/- Display arithmetic. -/

/-- Python's min and max keep their first argument unless the other is strictly
    beyond it. -/
def pyMin (x y : Number α) : Number α := if y.lt x then y else x
def pyMax (x y : Number α) : Number α := if x.lt y then y else x

def clamp (value low high : Number α) : Number α := pyMax low (pyMin high value)

def rmsToRelativeDb (desktop : Desktop α) (rms : Number α) : Except PyError (Number α) :=
  if rms.le (.finite 0) then .ok (.finite (-60))
  else (desktop.logRatio rms).map fun ratio =>
    clamp (ratio.scale 20) (.finite (-60)) (.finite 24)

def wrapSignedDegrees (value : Number α) : Number α :=
  let wrapped := ((value.add (.finite 180)).modulo 360).sub (.finite 180)
  if wrapped = .finite (-180) then .finite 180 else wrapped

def headingToAudioDotNormalized (headingDeg : Number α) : Number α :=
  clamp ((wrapSignedDegrees headingDeg).scale (-(1 / audioDotEdgeHeadingDeg)))
    (.finite (-1)) (.finite 1)

def ema (alpha : α) (value previous : Number α) : Number α :=
  (value.scale alpha).add (previous.scale (1 - alpha))

/- One datagram. -/

/-- packet[name], which only a dict with the key allows. -/
def item (name : String) : Value α → Except PyError (Value α)
  | .obj members =>
      match lookup (key name) members with
      | some value => .ok value
      | none => .error .keyError
  | _ => .error .typeError

def getItem (name : String) (default : Value α) : Value α → Except PyError (Value α)
  | .obj members => .ok ((lookup (key name) members).getD default)
  | _ => .error .attributeError

def decode (payload : List UInt8) : Except PyError (List Char) :=
  match Utf8.decode payload with
  | some text => .ok text
  | none => .error .unicodeDecodeError

def floatOrNone : Value α → Except PyError (Option (Number α))
  | .null => .ok none
  | value => (toFloat value).map some

def floatItem (name : String) (packet : Value α) : Except PyError (Number α) := do
  let value ← item name packet
  toFloat value

/-- The local variables set before the first field is. -/
structure Locals (α : Type) where
  packet : Value α
  timestamp : Number α
  state : Text
  measurementValid : Bool
  rawError : Value α
  heading : Value α

def readLocals (desktop : Desktop α) (payload : List UInt8) : Except PyError (Locals α) := do
  let text ← decode payload
  let packet ← jsonLoads desktop.limits text
  let timestamp ← floatItem "timestamp" packet
  let state ← item "state" packet
  let state ← desktop.str state
  let measurementValid ← item "measurement_valid" packet
  let rawError ← getItem "raw_error_deg" .null packet
  let heading ← getItem "tracker_heading_deg" .null packet
  return ⟨packet, timestamp, state, truthy measurementValid, rawError, heading⟩

abbrev Updating (α : Type) := EStateM PyError (Bridge α)

def attempt {β : Type} : Except PyError β → Updating α β
  | .ok value => pure value
  | .error error => throw error

def moveDot (previousHeading : Option (Number α)) (bridge : Bridge α) : Bridge α :=
  match bridge.trackerHeadingDeg with
  | none => { bridge with audioDotNormalized := .finite 0, audioDotInitialized := false }
  | some heading =>
      let target := headingToAudioDotNormalized (heading.add (.finite headingOffsetDeg))
      if previousHeading.isNone ∨ ¬ bridge.audioDotInitialized then
        { bridge with audioDotNormalized := target, audioDotInitialized := true }
      else
        { bridge with
          audioDotNormalized := ema audioDotPositionEmaAlpha target bridge.audioDotNormalized }

def activity (desktop : Desktop α) (rms : Number α) : Except PyError (Number α) := do
  let db ← rmsToRelativeDb desktop rms
  return clamp ((db.add (.finite 36)).scale (1 / 42)) (.finite 0) (.finite 1)

/-- The value of a history entry converts smoothed_error_deg once more. -/
def historyValue (locals : Locals α) : Except PyError (Option (Number α)) :=
  match locals.rawError with
  | .null => .ok none
  | _ => (floatItem "smoothed_error_deg" locals.packet).map some

def updateFields (locals : Locals α) : Updating α Unit := do
  modify fun b =>
    { b with stateSince := if locals.state ≠ b.state then locals.timestamp else b.stateSince }
  modify fun b => { b with timestamp := locals.timestamp }
  let rms ← attempt (floatItem "rms" locals.packet)
  modify fun b => { b with rms := rms }
  modify fun b =>
    { b with
      displayRms :=
        if b.displayRms.le (.finite 0) then b.rms else ema levelEmaAlpha b.rms b.displayRms }
  modify fun b => { b with measurementValid := locals.measurementValid }
  let rawError ← attempt (floatOrNone locals.rawError)
  modify fun b => { b with rawErrorDeg := rawError }
  let smoothedError ← attempt (floatItem "smoothed_error_deg" locals.packet)
  modify fun b => { b with smoothedErrorDeg := smoothedError }
  let previousHeading := (← get).trackerHeadingDeg
  let heading ← attempt (floatOrNone locals.heading)
  modify fun b => { b with trackerHeadingDeg := heading }
  let imuValid ← attempt (getItem "imu_valid" (.bool false) locals.packet)
  modify fun b => { b with imuValid := truthy imuValid }
  modify fun b => { b with state := locals.state }
  modify fun b => { b with lastPacketTime := locals.timestamp }
  modify (moveDot previousHeading)

def appendPoint (desktop : Desktop α) (locals : Locals α) : Updating α Unit := do
  let value ← attempt (historyValue locals)
  let activity ← attempt (activity desktop (← get).rms)
  modify fun b =>
    { b with
      history := b.history ++
        [⟨locals.timestamp, value, locals.measurementValid, activity, locals.state⟩] }

def receive (desktop : Desktop α) (payload : List UInt8) : Updating α Unit := do
  let locals ← attempt (readLocals desktop payload)
  updateFields locals
  appendPoint desktop locals

/- Polling. -/

inductive ChangeSignal where
  | telemetryChanged
  | staleChanged
  | historyChanged
  deriving DecidableEq, Repr

/-- What a call of poll_socket leaves: the fields, the datagrams still waiting,
    the signals emitted and the exception that left the call. -/
structure Polled (α : Type) where
  bridge : Bridge α
  waiting : List (List UInt8)
  signals : List ChangeSignal
  raised : Option PyError

def drain (desktop : Desktop α) : List (List UInt8) → Bridge α →
    Bridge α × List (List UInt8) × Option PyError
  | [], bridge => (bridge, [], none)
  | payload :: later, bridge =>
      match receive desktop payload bridge with
      | .ok _ bridge => drain desktop later bridge
      | .error error bridge => (bridge, later, some error)

def timedOut (cutoff : α) (bridge : Bridge α) : Bool :=
  match bridge.history with
  | [] => false
  | point :: _ => point.timestamp.lt (.finite cutoff)

def prune (cutoff : α) (bridge : Bridge α) : Bridge α :=
  if timedOut cutoff bridge then
    { bridge with
      history := bridge.history.filter fun point => (Number.finite cutoff).le point.timestamp }
  else bridge

def pollSocket (desktop : Desktop α) (now : α) (waiting : List (List UInt8))
    (bridge : Bridge α) : Polled α :=
  match drain desktop waiting bridge with
  | (bridge, waiting, some error) => ⟨bridge, waiting, [], some error⟩
  | (drained, _, none) =>
      let cutoff := now - timelineSeconds
      let changed := waiting ≠ []
      let historyChanged := waiting ≠ [] ∨ timedOut cutoff drained
      ⟨prune cutoff drained, [],
        (if changed then [.telemetryChanged, .staleChanged] else []) ++
          (if historyChanged then [.historyChanged] else []), none⟩

def audioStale (bridge : Bridge α) (now : α) : Bool :=
  if bridge.lastPacketTime = .finite 0 then true
  else (Number.finite audioStaleSeconds).lt ((Number.finite now).sub bridge.lastPacketTime)

end SoqTracker.TelemetryBridge
