import SoqTracker.SerialReader
import Mathlib.Algebra.Order.Group.MinMax

/- The servo position over whole runs of the firmware. The clamp compares, and
   not-a-number compares with nothing, so one such line is enough to lose the
   position for good. -/
namespace SoqTracker.ServoSafety
open ExtendedNumber Decimal Firmware LineAssembler Runs SerialReader

variable {α Memory : Type} [Field α] [LinearOrder α]

def InRange (x : Number α) : Prop := ∃ v, x = .finite v ∧ 0 ≤ v ∧ v ≤ 180

/-- The last line given by the bytes, if any, reads as not-a-number. -/
def NanLatest (α : Type) [Field α] [LinearOrder α] (bytes : List UInt8) : Prop :=
  ∃ line ∈ (assembled bytes).2.getLast?, (atof line : Number α).IsNan

/-- The position stays in range, moves by at most 20 and only in updates, and each
    update answers the last line. -/
structure Safe (pid : Pid α Memory) (t : Cycle α Memory) (bytes : List UInt8) : Prop where
  range : InRange t.after.servoPos
  small : ∃ v w, t.before.servoPos = .finite v ∧ t.after.servoPos = .finite w ∧ |w - v| ≤ 20
  still : ¬ PidDue t.before t.input → t.after.servoPos = t.before.servoPos
  steers : PidDue t.before t.input → ∃ v y, t.before.servoPos = .finite v ∧
    (pid.run t.before.panPID t.input.millis (lastError (assembled bytes).2)).1 = .finite y ∧
      t.after.servoPos = .finite (max 0 (min 180 (v + y)))

instance (bytes : List UInt8) : Decidable (NanLatest α bytes) := by
  unfold NanLatest; infer_instance

/- The clamp. -/

omit [Field α] in
theorem constrain_finite {x low high : α} (ordered : low ≤ high) :
    constrain (.finite x) (.finite low) (.finite high) = .finite (max low (min high x)) := by
  unfold constrain
  simp only [Number.lt_finite, decide_eq_true_eq]
  by_cases under : x < low
  · rw [if_pos under, min_eq_right (under.le.trans ordered), max_eq_left under.le]
  · rw [if_neg under]
    by_cases above : high < x
    · rw [if_pos above, min_eq_left above.le, max_eq_right ordered]
    · rw [if_neg above, min_eq_right (not_lt.mp above), max_eq_right (not_lt.mp under)]

omit [Field α] in
theorem constrain_nan_iff (amt : Number α) {low high : α} :
    (constrain amt (.finite low) (.finite high)).IsNan ↔ amt.IsNan := by
  unfold constrain
  cases amt with
  | nan => simp [Number.IsNan]
  | posInf => simp [Number.lt, Number.IsNan]
  | negInf => simp [Number.lt, Number.IsNan]
  | finite x =>
    simp only [Number.lt_finite, decide_eq_true_eq]
    split
    · simp [Number.IsNan]
    · split
      · simp [Number.IsNan]
      · simp [Number.IsNan]

variable [IsStrictOrderedRing α]

theorem readError_nan_iff (line : List UInt8) :
    (readError line : Number α).IsNan ↔ (atof line : Number α).IsNan := by
  rw [readError, constrain_nan_iff]
  exact Number.scale_nan_iff (by norm_num) _

theorem lastError_nan_iff (bytes : List UInt8) :
    (lastError (assembled bytes).2 : Number α).IsNan ↔ NanLatest α bytes := by
  unfold lastError NanLatest
  cases (assembled bytes).2.getLast? with
  | none => simp [Number.IsNan]
  | some line => simp [readError_nan_iff]

theorem clamp_step {v y : α} (low : 0 ≤ v) (high : v ≤ 180) (small : |y| ≤ 20) :
    |max 0 (min 180 (v + y)) - v| ≤ 20 := by
  have inside : max 0 (min 180 v) = v := by rw [min_eq_right high, max_eq_right low]
  calc |max 0 (min 180 (v + y)) - v|
      = |max 0 (min 180 (v + y)) - max 0 (min 180 v)| := by rw [inside]
    _ ≤ max |0 - 0| |min 180 (v + y) - min 180 v| := abs_max_sub_max_le_max _ _ _ _
    _ ≤ max |0 - 0| (max |180 - 180| |v + y - v|) :=
        max_le_max le_rfl (abs_min_sub_min_le_max _ _ _ _)
    _ = |y| := by simp
    _ ≤ 20 := small

variable [FloorRing α]

theorem safe_step {pid : Pid α Memory} (limited : pid.Limited) {s : State α Memory}
    {turn : Turn α} {bytes : List UInt8} (range : InRange s.servoPos)
    (error : (readIncomingError s turn.waiting).error = lastError (assembled bytes).2)
    (number : PidDue s turn → ¬ NanLatest α bytes) :
    Safe pid ⟨s, turn, (loop pid s turn).1⟩ bytes := by
  obtain ⟨v, position, low, high⟩ := range
  have moved := loop_servo pid s turn
  by_cases due : PidDue s turn
  · rw [if_pos due, error] at moved
    have given : ¬ (lastError (assembled bytes).2 : Number α).IsNan := by
      rw [lastError_nan_iff]
      exact number due
    obtain ⟨y, correction, down, up⟩ := limited s.panPID turn.millis _ given
    rw [correction, position, Number.add_finite, constrain_finite (by norm_num)] at moved
    have small : |y| ≤ 20 := abs_le.mpr ⟨down, up⟩
    refine ⟨⟨_, moved, le_max_left _ _, max_le (by norm_num) (min_le_left _ _)⟩,
      ⟨v, _, position, moved, clamp_step low high small⟩, fun rest => absurd due rest, ?_⟩
    intro _
    exact ⟨v, y, position, correction, moved⟩
  · rw [if_neg due] at moved
    refine ⟨⟨v, moved.trans position, low, high⟩, ⟨v, v, position, moved.trans position, ?_⟩,
      fun _ => moved, fun now => absurd now due⟩
    simp

theorem nan_step {pid : Pid α Memory} (keepsNan : pid.KeepsNan) {s : State α Memory}
    {turn : Turn α} {bytes : List UInt8}
    (error : (readIncomingError s turn.waiting).error = lastError (assembled bytes).2)
    (due : PidDue s turn) (nan : NanLatest α bytes) : (loop pid s turn).1.servoPos = .nan := by
  have input : (lastError (assembled bytes).2 : Number α) = .nan := by
    have isNan := (lastError_nan_iff (α := α) bytes).mpr nan
    cases given : (lastError (assembled bytes).2 : Number α) with
    | nan => rfl
    | posInf => simp [given, Number.IsNan] at isNan
    | negInf => simp [given, Number.IsNan] at isNan
    | finite x => simp [given, Number.IsNan] at isNan
  rw [loop_servo, if_pos due, error, input, keepsNan, Number.add_nan]
  rfl

/- Runs. -/

theorem safe_run {pid : Pid α Memory} (limited : pid.Limited) {imuReady : Bool}
    {cycles : List (Cycle α Memory)} {s : State α Memory}
    (run : Run (next pid) (start pid imuReady) cycles s)
    (numbers : ∀ t older, t :: older <:+ cycles → PidDue t.before t.input →
      ¬ NanLatest α (bytesRead (t :: older))) :
    InRange s.servoPos ∧
      ∀ t older, t :: older <:+ cycles → Safe pid t (bytesRead (t :: older)) := by
  induction run with
  | start => exact ⟨⟨90, rfl, by norm_num, by norm_num⟩, by simp⟩
  | step earlier moved ih =>
    rename_i history before after turn
    obtain ⟨range, safe⟩ := ih fun t older placed =>
      numbers t older (placed.trans (List.suffix_cons _ _))
    have same := Option.some.inj moved
    subst same
    have here := safe_step limited range (turn_error earlier turn (loop pid before turn).1)
      (numbers _ history List.suffix_rfl)
    exact ⟨here.range, placed_cons here safe⟩

/-- Exactly the runs without an update on a not-a-number line are safe. -/
theorem servo_safe_iff {pid : Pid α Memory} (limited : pid.Limited) (keepsNan : pid.KeepsNan)
    {imuReady : Bool} {cycles : List (Cycle α Memory)} {s : State α Memory}
    (run : Run (next pid) (start pid imuReady) cycles s) :
    (∀ t older, t :: older <:+ cycles → Safe pid t (bytesRead (t :: older))) ↔
      ∀ t older, t :: older <:+ cycles → PidDue t.before t.input →
        ¬ NanLatest α (bytesRead (t :: older)) := by
  constructor
  · intro safe t older placed due nan
    obtain ⟨v, position, _⟩ := (safe t older placed).range
    obtain ⟨before, moved⟩ := run_placed run placed
    have lost := nan_step keepsNan (turn_error before t.input t.after) due nan
    rw [← Option.some.inj moved, lost] at position
    simp at position
  · intro numbers
    exact (safe_run limited run numbers).2

omit [IsStrictOrderedRing α] in
/-- Once lost, the position never recovers, whatever arrives afterwards. -/
theorem nan_stays {pid : Pid α Memory} {cycles : List (Cycle α Memory)} {s s' : State α Memory}
    (lost : s.servoPos = .nan) (run : Run (next pid) s cycles s') : s'.servoPos = .nan := by
  refine run_invariant (fun t => t.servoPos = .nan) lost ?_ run
  intro before turn after moved here
  rw [← Option.some.inj moved, loop_servo, here, Number.nan_add]
  split
  · rfl
  · rfl

/-- The line nan loses the position, and the valid command after it no longer
    steers the servo. -/
theorem nan_line_loses_servo :
    ∃ (cycles : List (Cycle ℚ Unit)) (s : State ℚ Unit),
      Run (next benchPid) (start benchPid true) cycles s ∧
        linesConverted cycles = [[110, 97, 110], [53]] ∧ ¬ InRange s.servoPos := by
  have begin : Run (next benchPid) (start benchPid true) [] _ := Run.start
  have run := (begin.go (benchTurn 20 [110, 97, 110, 10]) rfl).go (benchTurn 40 [53, 10]) rfl
  refine ⟨_, _, run, rfl, ?_⟩
  rintro ⟨v, position, _⟩
  have lost : (Number.nan : Number ℚ) = .finite v := position
  simp at lost

/-- Plain commands steer it. -/
theorem plain_commands_steer :
    ∃ cycles : List (Cycle ℚ Unit), linesConverted cycles = [[53], [45, 55]] ∧
      ∀ t older, t :: older <:+ cycles → Safe benchPid t (bytesRead (t :: older)) := by
  have begin : Run (next benchPid) (start benchPid true) [] _ := Run.start
  have run := (begin.go (benchTurn 20 [53, 10]) rfl).go (benchTurn 40 [45, 55, 10]) rfl
  refine ⟨_, rfl, (servo_safe_iff benchPid_limited (fun _ _ => rfl) run).mpr ?_⟩
  refine placed_cons ?_ (placed_cons ?_ placed_nil)
  all_goals
    intro _
    decide +kernel

end SoqTracker.ServoSafety
