import SoqTracker.Firmware
import SoqTracker.LineAssembler
import SoqTracker.Runs

/- The firmware's serial reader is a line assembler for lines of at most 31
   bytes, and error is always the reading of the last line it gave. -/
namespace SoqTracker.SerialReader
open ExtendedNumber Decimal Firmware LineAssembler Runs

def commandFraming : Framing UInt8 := ⟨10, 13, 31⟩

def assembled (bytes : List UInt8) : List UInt8 × List (List UInt8) :=
  assemble commandFraming [] bytes

variable {α Memory : Type} [Field α] [LinearOrder α]

def lastError (lines : List (List UInt8)) : Number α :=
  match lines.getLast? with
  | none => .finite 0
  | some line => readError line

structure ReaderMeans (s : State α Memory) (bytes : List UInt8) : Prop where
  buffer : s.serialBuffer.bytes = (assembled bytes).1
  error : s.error = lastError (assembled bytes).2

theorem assembled_byte (bytes : List UInt8) (c : UInt8) :
    assembled (bytes ++ [c]) =
      ((accept commandFraming (assembled bytes).1 c).1,
        (assembled bytes).2 ++ (accept commandFraming (assembled bytes).1 c).2.toList) := by
  rw [assembled, assemble_push]
  rfl

theorem lastError_byte (lines : List (List UInt8)) (line : Option (List UInt8)) :
    lastError (lines ++ line.toList) = (line.map readError).getD (lastError lines : Number α) := by
  cases line with
  | none => simp
  | some line => simp [lastError]

theorem readByte_spec (s : State α Memory) (c : UInt8) :
    (readByte s c).serialBuffer.bytes = (accept commandFraming s.serialBuffer.bytes c).1 ∧
      lineRead s c = (accept commandFraming s.serialBuffer.bytes c).2 ∧
      (readByte s c).error = ((lineRead s c).map readError).getD s.error := by
  unfold readByte lineRead accept
  by_cases skipped : c = 13
  · simp [skipped, commandFraming]
  · by_cases mark : c = 10
    · by_cases filled : s.serialBuffer.bytes = []
      · have empty : ¬ 0 < s.serialBuffer.serialIndex := by simp [SerialBuffer.serialIndex, filled]
        simp [mark, commandFraming, empty, filled, SerialBuffer.empty]
      · have index : 0 < s.serialBuffer.serialIndex := List.length_pos_iff.mpr filled
        simp [mark, commandFraming, index, filled, SerialBuffer.empty]
    · by_cases room : s.serialBuffer.serialIndex < sizeofSerialBuffer - 1
      · have fits : s.serialBuffer.bytes.length < 31 := room
        simp [skipped, mark, commandFraming, room, fits, SerialBuffer.push]
      · have full : ¬ s.serialBuffer.bytes.length < 31 := room
        simp [skipped, mark, commandFraming, room, full, SerialBuffer.empty]

theorem readByte_frame (s : State α Memory) (c : UInt8) :
    (readByte s c).servoPos = s.servoPos ∧ (readByte s c).panPID = s.panPID ∧
      (readByte s c).lastPidUpdateMs = s.lastPidUpdateMs ∧
      (readByte s c).lastImuReportMs = s.lastImuReportMs ∧
      (readByte s c).imuReady = s.imuReady := by
  unfold readByte
  by_cases skipped : c = 13
  · simp [skipped]
  · by_cases mark : c = 10
    · by_cases filled : 0 < s.serialBuffer.serialIndex
      · simp [mark, filled]
      · simp [mark, filled]
    · by_cases room : s.serialBuffer.serialIndex < sizeofSerialBuffer - 1
      · simp [skipped, mark, room]
      · simp [skipped, mark, room]

theorem reads_frame (s : State α Memory) (waiting : List UInt8) :
    (readIncomingError s waiting).servoPos = s.servoPos ∧
      (readIncomingError s waiting).panPID = s.panPID ∧
      (readIncomingError s waiting).lastPidUpdateMs = s.lastPidUpdateMs ∧
      (readIncomingError s waiting).lastImuReportMs = s.lastImuReportMs ∧
      (readIncomingError s waiting).imuReady = s.imuReady := by
  induction waiting generalizing s with
  | nil => exact ⟨rfl, rfl, rfl, rfl, rfl⟩
  | cons c waiting ih =>
    have later := ih (readByte s c)
    have first := readByte_frame s c
    simp only [readIncomingError, List.foldl_cons] at later ⊢
    rw [first.1, first.2.1, first.2.2.1, first.2.2.2.1, first.2.2.2.2] at later
    exact later

theorem reads_mean {s : State α Memory} {bytes : List UInt8} (means : ReaderMeans s bytes)
    (waiting : List UInt8) :
    ReaderMeans (readIncomingError s waiting) (bytes ++ waiting) ∧
      (assembled bytes).2 ++ linesRead s waiting = (assembled (bytes ++ waiting)).2 := by
  induction waiting generalizing s bytes with
  | nil => simpa [readIncomingError, linesRead] using means
  | cons c waiting ih =>
    obtain ⟨buffer, line, error⟩ := readByte_spec s c
    rw [means.buffer] at buffer line
    have step : ReaderMeans (readByte s c) (bytes ++ [c]) := by
      constructor
      · rw [buffer, assembled_byte]
      · rw [error, assembled_byte, lastError_byte, line, means.error]
    obtain ⟨later, lines⟩ := ih step
    rw [List.append_assoc, List.singleton_append] at later lines
    refine ⟨later, ?_⟩
    rw [linesRead, ← lines, assembled_byte, line, List.append_assoc]

/- Runs. -/

abbrev Cycle (α Memory : Type) := Transition (State α Memory) (Turn α)

def bytesRead (history : List (Cycle α Memory)) : List UInt8 :=
  history.reverse.flatMap fun t => t.input.waiting

def linesConverted (history : List (Cycle α Memory)) : List (List UInt8) :=
  history.reverse.flatMap fun t => linesRead t.before t.input.waiting

omit [Field α] [LinearOrder α] in
theorem bytesRead_cons (t : Cycle α Memory) (history : List (Cycle α Memory)) :
    bytesRead (t :: history) = bytesRead history ++ t.input.waiting := by
  simp [bytesRead]

omit [Field α] [LinearOrder α] in
theorem bytesRead_earlier {t : Cycle α Memory} {older history : List (Cycle α Memory)}
    (placed : t :: older <:+ history) : bytesRead (t :: older) <+: bytesRead history := by
  obtain ⟨newer, rfl⟩ := placed
  refine ⟨bytesRead newer, ?_⟩
  simp [bytesRead]

theorem linesConverted_cons (t : Cycle α Memory) (history : List (Cycle α Memory)) :
    linesConverted (t :: history) = linesConverted history ++ linesRead t.before t.input.waiting := by
  simp [linesConverted]

variable [FloorRing α]

theorem report_frame (s : State α Memory) (turn : Turn α) :
    (reportImuHeading s turn).1.serialBuffer = s.serialBuffer ∧
      (reportImuHeading s turn).1.error = s.error ∧
      (reportImuHeading s turn).1.servoPos = s.servoPos := by
  unfold reportImuHeading
  split
  · simp
  · split
    · simp
    · simp

theorem loop_reader (pid : Pid α Memory) (s : State α Memory) (turn : Turn α) :
    (loop pid s turn).1.serialBuffer = (readIncomingError s turn.waiting).serialBuffer ∧
      (loop pid s turn).1.error = (readIncomingError s turn.waiting).error := by
  obtain ⟨buffer, error, _⟩ := report_frame (afterServo pid s turn) turn
  unfold loop
  rw [buffer, error]
  unfold afterServo updateServo
  by_cases due : PidDue s turn
  · simp [due]
  · simp [due]

theorem loop_servo (pid : Pid α Memory) (s : State α Memory) (turn : Turn α) :
    (loop pid s turn).1.servoPos =
      if PidDue s turn then
        constrain (Number.add s.servoPos
          (pid.run s.panPID turn.millis (readIncomingError s turn.waiting).error).1)
          (.finite 0) (.finite 180)
      else s.servoPos := by
  obtain ⟨_, _, position⟩ := report_frame (afterServo pid s turn) turn
  obtain ⟨same, memory, _⟩ := reads_frame s turn.waiting
  unfold loop
  rw [position]
  unfold afterServo updateServo
  by_cases due : PidDue s turn
  · simp only [due, if_true]
    rw [same, memory]
  · simp only [due, if_false]
    exact same

/-- An update runs panPID on the turn's pidInput and writes where that moves the servo. -/
theorem loop_updates (pid : Pid α Memory) {s : State α Memory} {turn : Turn α} {x : Number α}
    (passed : x ∈ pidInput s turn) :
    let ran := pid.run s.panPID turn.millis x
    let moved := constrain (Number.add s.servoPos ran.1) (.finite 0) (.finite 180)
    (afterServo pid s turn).correction = ran.1 ∧ (afterServo pid s turn).panPID = ran.2 ∧
      (loop pid s turn).1.servoPos = moved ∧ (loop pid s turn).2.servo = some moved := by
  intro ran moved
  unfold pidInput at passed
  by_cases due : PidDue s turn
  · rw [if_pos due, Option.mem_some_iff] at passed
    obtain ⟨same, memory, _⟩ := reads_frame s turn.waiting
    have position : (loop pid s turn).1.servoPos = moved := by
      rw [loop_servo, if_pos due, passed]
    refine ⟨?_, ?_, position, ?_⟩
    · rw [afterServo, if_pos due, updateServo, passed, memory]
    · rw [afterServo, if_pos due, updateServo, passed, memory]
    · obtain ⟨_, _, written⟩ := report_frame (afterServo pid s turn) turn
      rw [← position]
      simp only [loop, if_pos due, written]
  · simp [due] at passed

theorem loop_rests (pid : Pid α Memory) {s : State α Memory} {turn : Turn α}
    (rests : pidInput s turn = none) :
    (loop pid s turn).1.servoPos = s.servoPos ∧ (loop pid s turn).2.servo = none := by
  have early : ¬ PidDue s turn := by
    intro due
    simp [pidInput, due] at rests
  exact ⟨(loop_servo pid s turn).trans (if_neg early), if_neg early⟩

theorem reader_run {pid : Pid α Memory} {imuReady : Bool} {history : List (Cycle α Memory)}
    {s : State α Memory} (run : Run (next pid) (start pid imuReady) history s) :
    ReaderMeans s (bytesRead history) ∧
      linesConverted history = (assembled (bytesRead history)).2 := by
  induction run with
  | start => exact ⟨⟨rfl, rfl⟩, rfl⟩
  | step earlier moved ih =>
    rename_i older before after turn
    obtain ⟨read, lines⟩ := reads_mean ih.1 turn.waiting
    obtain ⟨buffer, error⟩ := loop_reader pid before turn
    rw [← Option.some.inj moved]
    constructor
    · rw [bytesRead_cons]
      constructor
      · rw [buffer, read.buffer]
      · rw [error, read.error]
    · rw [linesConverted_cons, bytesRead_cons, ih.2]
      exact lines

theorem pidInput_last {pid : Pid α Memory} {imuReady : Bool} {t : Cycle α Memory}
    {older history : List (Cycle α Memory)} {s : State α Memory}
    (run : Run (next pid) (start pid imuReady) history s) (placed : t :: older <:+ history)
    {x : Number α} (passed : x ∈ pidInput t.before t.input) :
    x = lastError (assembled (bytesRead (t :: older))).2 := by
  obtain ⟨earlier, _⟩ := run_placed run placed
  have means := (reader_run earlier).1
  obtain ⟨read, _⟩ := reads_mean means t.input.waiting
  rw [bytesRead_cons, ← read.error]
  unfold pidInput at passed
  by_cases due : PidDue t.before t.input
  · rw [if_pos due] at passed
    exact (Option.some.inj passed).symm
  · simp [due] at passed

theorem turn_error {pid : Pid α Memory} {imuReady : Bool} {history : List (Cycle α Memory)}
    {s : State α Memory} (run : Run (next pid) (start pid imuReady) history s) (turn : Turn α)
    (s' : State α Memory) :
    (readIncomingError s turn.waiting).error =
      lastError (assembled (bytesRead (⟨s, turn, s'⟩ :: history))).2 := by
  rw [bytesRead_cons]
  exact (reads_mean (reader_run run).1 turn.waiting).1.error

end SoqTracker.SerialReader
