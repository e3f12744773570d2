import SoqTracker.Json
import SoqTracker.Delimited
import SoqTracker.Utf8

/- The controller side of read_kinect.py: one line of text to a heading record,
   and the polling of the serial port that feeds the lines. The interpreter's
   float texts, its limits and the largest datagram it can send are parameters. -/
namespace SoqTracker.Controller
open ExtendedNumber Decimal Json Delimited

structure Python (α : Type) where
  floatRepr : α → List Char
  limits : Limits
  dumpsLimit : Nat
  maxDatagram : Nat

inductive PyError where
  | jsonDecodeError
  | unicodeDecodeError
  | recursionError
  | overflowError
  | typeError
  | valueError
  | keyError
  | attributeError
  | osError
  deriving DecidableEq, Repr

variable {α : Type} [Field α] [LinearOrder α]

def jsonLoads (limits : Limits) (text : List Char) : Except PyError (Value α) :=
  match loads limits text with
  | .ok value => .ok value
  | .error .malformed => .error .jsonDecodeError
  | .error .tooLong => .error .valueError
  | .error _ => .error .recursionError

def toFloat : Value α → Except PyError (Number α)
  | .null => .error .typeError
  | .bool value => .ok (.finite (if value then 1 else 0))
  | .int value =>
      if Number.overflowBound ≤ value.natAbs then .error .overflowError else .ok (.finite value)
  | .float value => .ok value
  | .str value =>
      match pyFloat (value.map Char.ofNat) with
      | some x => .ok x
      | none => .error .valueError
  | .arr _ => .error .typeError
  | .obj _ => .error .typeError

def key (name : String) : Text := name.toList.map Char.toNat

def getField (name : String) (payload : List (Text × Value α)) : Value α :=
  (lookup (key name) payload).getD .null

structure Parsed (α : Type) where
  headingDeg : Number α
  imuValid : Bool
  calibration : Value α

def parseJsonLine (py : Python α) (line : List Char) : Except PyError (Option (Parsed α)) :=
  match jsonLoads py.limits line with
  | .error .jsonDecodeError => .ok none
  | .error error => .error error
  | .ok (.obj payload) =>
      match getField "heading_deg" payload with
      | .null => .ok none
      | heading =>
          match toFloat heading with
          | .error .typeError => .ok none
          | .error .valueError => .ok none
          | .error error => .error error
          | .ok headingDeg =>
              .ok (some {
                headingDeg := headingDeg
                imuValid :=
                  match getField "imu_valid" payload with
                  | .null => true
                  | imuValid => truthy imuValid
                calibration := getField "calibration" payload })
  | .ok _ => .error .attributeError

def startsWith (word : String) (text : List Char) : Bool := word.toList.isPrefixOf text

def afterColon (part : List Char) : List Char := (part.dropWhile (· ≠ ':')).drop 1

/-- str.lower on the characters whose lower case is an ASCII letter; no other
    character can appear in the words it is compared with. -/
def lower (c : Char) : Char := if c.toNat = 0x212A then 'k' else c.toLower

def liveWords : List (List Char) :=
  ["1".toList, "true".toList, "live".toList, "ok".toList, "valid".toList]

def readImuFlag (part : List Char) : Bool := (strip (afterColon part)).map lower ∈ liveWords

structure Fields (α : Type) where
  heading : Option (Number α) := none
  imuValid : Bool := true
  calibration : Value α := .null

/-- One part of a comma line; none is the early return on a bad heading. -/
def readPart (py : Python α) (read : Fields α) (part : List Char) : Option (Fields α) :=
  if startsWith "H:" part then
    (pyFloat (afterColon part)).map fun heading => { read with heading := some heading }
  else if startsWith "CAL:" part then
    match pyInt py.limits.digits (afterColon part) with
    | some calibration => some { read with calibration := .int calibration }
    | none => some { read with calibration := .null }
  else if startsWith "IMU:" part then some { read with imuValid := readImuFlag part }
  else some read

def parts (line : List Char) : List (List Char) :=
  ((fields ',' line).map strip).filter (· ≠ [])

def parseFieldLine (py : Python α) (line : List Char) : Option (Parsed α) :=
  match (parts line).foldlM (readPart py) ({} : Fields α) with
  | some { heading := some heading, imuValid, calibration } =>
      some ⟨heading, imuValid, calibration⟩
  | _ => none

def parseControllerLine (py : Python α) (line : List Char) :
    Except PyError (Option (Parsed α)) :=
  let text := strip line
  if text = [] then .ok none
  else if text.head? = some '\x7b' then parseJsonLine py text
  else .ok (parseFieldLine py text)

/- Polling. -/

structure ImuState (α : Type) where
  trackerHeadingDeg : Option (Number α) := none
  imuValidFlag : Bool := false
  imuCalibration : Value α := .null
  imuLastUpdate : α
  controllerBuffer : List Char := []

variable [FloorRing α]

def heard (imu : ImuState α) (parsed : Parsed α) (time : α) : ImuState α :=
  { imu with
    trackerHeadingDeg := some (parsed.headingDeg.modulo 360)
    imuValidFlag := parsed.imuValid
    imuCalibration := parsed.calibration
    imuLastUpdate := time }

def takeLine (py : Python α) (imu : ImuState α) (line : List Char × α) :
    Except PyError (ImuState α) :=
  match parseControllerLine py line.1 with
  | .error error => .error error
  | .ok none => .ok imu
  | .ok (some parsed) => .ok (heard imu parsed line.2)

def timed (clock : Nat → α) (lines : List (List Char)) : List (List Char × α) :=
  lines.zipIdx.map fun line => (line.1, clock line.2)

def pendingText (imu : ImuState α) (waiting : List UInt8) : List Char :=
  imu.controllerBuffer ++ Utf8.decodeIgnoring waiting

/-- The loop takes the lines off the buffer one by one; an empty read leaves
    the buffer as it is. -/
def pollControllerHeading (py : Python α) (clock : Nat → α) (imu : ImuState α)
    (waiting : List UInt8) : Except PyError (ImuState α) :=
  let pending := pendingText imu waiting
  (timed clock (segments '\n' pending)).foldlM (takeLine py)
    { imu with controllerBuffer := rest '\n' pending }

end SoqTracker.Controller
