import SoqTracker.Decimal
import Mathlib.Algebra.Field.Rat
import Mathlib.Algebra.Order.Ring.Rat
import Mathlib.Tactic.NormNum

/- The servo controller, soqv1.ino. One call of loop reads the bytes that are
   waiting, updates the servo when that is due, and reports the heading when that
   is due. The PID library and the heading sensor are parameters; millis is a
   32-bit counter. -/
namespace SoqTracker.Firmware
open ExtendedNumber Decimal

variable {α : Type} [Field α] [LinearOrder α]

/-- The PID library with its memory, after setup. -/
structure Pid (α Memory : Type) where
  start : Memory
  run : Memory → UInt32 → Number α → Number α × Memory

/-- The output limits that setup gives to panPID. -/
def Pid.Limited {Memory : Type} (pid : Pid α Memory) : Prop :=
  ∀ memory now input, ¬ input.IsNan →
    ∃ y, (pid.run memory now input).1 = .finite y ∧ -20 ≤ y ∧ y ≤ 20

/-- The limits are kept by comparisons, which let not-a-number through. -/
def Pid.KeepsNan {Memory : Type} (pid : Pid α Memory) : Prop :=
  ∀ memory now, (pid.run memory now .nan).1 = .nan

def constrain (amt low high : Number α) : Number α :=
  if Number.lt amt low then low else if Number.lt high amt then high else amt

/- The serial reader. -/

def sizeofSerialBuffer : Nat := 32

/-- The bytes before serialIndex. One place is left for the closing zero. -/
structure SerialBuffer where
  bytes : List UInt8
  fits : bytes.length ≤ sizeofSerialBuffer - 1

namespace SerialBuffer

def empty : SerialBuffer := ⟨[], Nat.zero_le _⟩

def serialIndex (b : SerialBuffer) : Nat := b.bytes.length

def push (b : SerialBuffer) (c : UInt8) (room : b.serialIndex < sizeofSerialBuffer - 1) :
    SerialBuffer :=
  ⟨b.bytes ++ [c], by rw [List.length_append, List.length_singleton]; exact room⟩

end SerialBuffer

structure State (α Memory : Type) where
  error : Number α
  correction : Number α
  servoPos : Number α
  lastPidUpdateMs : UInt32
  lastImuReportMs : UInt32
  imuReady : Bool
  panPID : Memory
  serialBuffer : SerialBuffer

variable {Memory : Type}

def readError (line : List UInt8) : Number α :=
  constrain (Number.scale (-1) (atof line)) (.finite (-90)) (.finite 90)

def readByte (s : State α Memory) (c : UInt8) : State α Memory :=
  if c = 13 then s
  else if c = 10 then
    if 0 < s.serialBuffer.serialIndex then
      { s with error := readError s.serialBuffer.bytes, serialBuffer := .empty }
    else { s with serialBuffer := .empty }
  else if room : s.serialBuffer.serialIndex < sizeofSerialBuffer - 1 then
    { s with serialBuffer := s.serialBuffer.push c room }
  else { s with serialBuffer := .empty }

def readIncomingError (s : State α Memory) (waiting : List UInt8) : State α Memory :=
  waiting.foldl readByte s

def lineRead (s : State α Memory) (c : UInt8) : Option (List UInt8) :=
  if c = 10 ∧ 0 < s.serialBuffer.serialIndex then some s.serialBuffer.bytes else none

def linesRead (s : State α Memory) : List UInt8 → List (List UInt8)
  | [] => []
  | c :: waiting => (lineRead s c).toList ++ linesRead (readByte s c) waiting

/- The heading report. -/

def pidUpdateMs : UInt32 := 20
def imuReportMs : UInt32 := 50

/-- What a call of loop meets: the clock, the bytes it reads, the free space for
    output and the sensor's readings. -/
structure Turn (α : Type) where
  millis : UInt32
  waiting : List UInt8
  availableForWrite : Nat
  eulerX : Number α
  sysCal : UInt8

section Reports
variable [FloorRing α]

/-- Print::print of a double with one digit after the point. -/
def printTenths : Number α → List Char
  | .nan => "nan".toList
  | .posInf => "inf".toList
  | .negInf => "inf".toList
  | .finite x =>
      if 4294967040 < |x| then "ovf".toList
      else
        let rounded := |x| + 1 / 20
        let whole := ⌊rounded⌋
        let digits := natText whole.natAbs ++ '.' :: natText ⌊(rounded - whole) * 10⌋.natAbs
        if x < 0 then '-' :: digits else digits

def reportText (imuReady : Bool) (turn : Turn α) : List Char :=
  if imuReady then
    "H:".toList ++ printTenths turn.eulerX ++ ",IMU:1,CAL:".toList ++ natText turn.sysCal.toNat ++
      ['\r', '\n']
  else "IMU:0".toList ++ ['\r', '\n']

def reportImuHeading (s : State α Memory) (turn : Turn α) : State α Memory × List Char :=
  if turn.millis - s.lastImuReportMs < imuReportMs then (s, [])
  else if turn.availableForWrite < 24 then (s, [])
  else ({ s with lastImuReportMs := turn.millis }, reportText s.imuReady turn)

end Reports

/- The loop. -/

def updateServo (pid : Pid α Memory) (s : State α Memory) (now : UInt32) : State α Memory :=
  let ran := pid.run s.panPID now s.error
  { s with
    lastPidUpdateMs := now
    panPID := ran.2
    correction := ran.1
    servoPos := constrain (Number.add s.servoPos ran.1) (.finite 0) (.finite 180) }

def PidDue (s : State α Memory) (turn : Turn α) : Prop :=
  pidUpdateMs ≤ turn.millis - s.lastPidUpdateMs

instance (s : State α Memory) (turn : Turn α) : Decidable (PidDue s turn) :=
  inferInstanceAs (Decidable (pidUpdateMs ≤ turn.millis - s.lastPidUpdateMs))

/-- The value a turn passes to panPID.Run, if it updates the servo. -/
def pidInput (s : State α Memory) (turn : Turn α) : Option (Number α) :=
  if PidDue s turn then some (readIncomingError s turn.waiting).error else none

def afterServo (pid : Pid α Memory) (s : State α Memory) (turn : Turn α) : State α Memory :=
  let read := readIncomingError s turn.waiting
  if PidDue s turn then updateServo pid read turn.millis else read

/-- What a turn does outside: the position whose integer part panServo.write gets,
    and the text printed to the serial port. -/
structure Output (α : Type) where
  servo : Option (Number α)
  report : List Char

def loop [FloorRing α] (pid : Pid α Memory) (s : State α Memory) (turn : Turn α) :
    State α Memory × Output α :=
  let moved := afterServo pid s turn
  let reported := reportImuHeading moved turn
  (reported.1, ⟨if PidDue s turn then some moved.servoPos else none, reported.2⟩)

def start (pid : Pid α Memory) (imuReady : Bool) : State α Memory :=
  { error := .finite 0
    correction := .finite 0
    servoPos := .finite 90
    lastPidUpdateMs := 0
    lastImuReportMs := 0
    imuReady := imuReady
    panPID := pid.start
    serialBuffer := .empty }

def next [FloorRing α] (pid : Pid α Memory) (s : State α Memory) (turn : Turn α) :
    Option (State α Memory) :=
  some (loop pid s turn).1

/- A bench for runs on fixed inputs: the proportional part of the PID, which is
   all of it as long as the input does not change. -/

def proportional : Number ℚ → Number ℚ
  | .nan => .nan
  | .posInf => .finite (-20)
  | .negInf => .finite 20
  | .finite x => .finite (max (-20) (min 20 (-(6 / 100) * x)))

def benchPid : Pid ℚ Unit where
  start := ()
  run := fun _ _ input => (proportional input, ())

theorem benchPid_limited : benchPid.Limited := by
  intro _ _ input given
  cases input with
  | nan => exact absurd trivial given
  | posInf => exact ⟨-20, rfl, by norm_num, by norm_num⟩
  | negInf => exact ⟨20, rfl, by norm_num, by norm_num⟩
  | finite x => exact ⟨_, rfl, le_max_left _ _, max_le (by norm_num) (min_le_left _ _)⟩

def benchTurn (millis : UInt32) (waiting : List UInt8) : Turn ℚ := ⟨millis, waiting, 0, .finite 0, 3⟩

end SoqTracker.Firmware
