import SoqTracker.SerialReader

/- The firmware's two timers in true time. The counter it reads wraps every
   2^32 milliseconds; differences of readings stay exact because an update is never
   overdue by more than one turn, and a wrapped difference is never too large. -/
namespace SoqTracker.FirmwareTiming
open Firmware SerialReader Runs

/- Wrapped readings. -/

theorem wrapped_difference {earlier later : Nat} (order : earlier ≤ later) :
    (UInt32.ofNat later - UInt32.ofNat earlier).toNat = (later - earlier) % 2 ^ 32 := by
  rw [UInt32.toNat_sub, UInt32.toNat_ofNat', UInt32.toNat_ofNat']
  omega

theorem difference_exact {earlier later : Nat} (order : earlier ≤ later)
    (near : later - earlier < 2 ^ 32) :
    (UInt32.ofNat later - UInt32.ofNat earlier).toNat = later - earlier := by
  rw [wrapped_difference order, Nat.mod_eq_of_lt near]

theorem difference_le {earlier later : Nat} (order : earlier ≤ later) :
    (UInt32.ofNat later - UInt32.ofNat earlier).toNat ≤ later - earlier := by
  rw [wrapped_difference order]
  exact Nat.mod_le _ _

/- Turns with their true time. -/

/-- A turn at a true time, in milliseconds since the start, which it sees wrapped. -/
structure TimedTurn (α : Type) where
  time : Nat
  turn : Turn α
  seen : turn.millis = UInt32.ofNat time

variable {α Memory : Type} [Field α] [LinearOrder α]

abbrev TimedCycle (α Memory : Type) := Transition (State α Memory) (TimedTurn α)

section Definitions
variable [FloorRing α]

def timedNext (pid : Pid α Memory) (s : State α Memory) (timed : TimedTurn α) :
    Option (State α Memory) :=
  next pid s timed.turn

def Updates (pid : Pid α Memory) (t : TimedCycle α Memory) : Prop :=
  (loop pid t.before t.input.turn).2.servo.isSome = true

def Reports (pid : Pid α Memory) (t : TimedCycle α Memory) : Prop :=
  (loop pid t.before t.input.turn).2.report ≠ []

instance (pid : Pid α Memory) (t : TimedCycle α Memory) : Decidable (Updates pid t) :=
  inferInstanceAs (Decidable (_ = true))

instance (pid : Pid α Memory) (t : TimedCycle α Memory) : Decidable (Reports pid t) :=
  inferInstanceAs (Decidable (¬ _ = []))

def lastTime : List (TimedCycle α Memory) → Nat
  | [] => 0
  | t :: _ => t.input.time

end Definitions

/-- Times that never go back, with no gap of more than one wrap less twenty
    milliseconds, the first from the start. -/
def Paced : List (TimedCycle α Memory) → Prop
  | [] => True
  | t :: older => lastTime older ≤ t.input.time ∧
      t.input.time ≤ lastTime older + (2 ^ 32 - 20) ∧ Paced older

omit [Field α] [LinearOrder α] in
theorem paced_clock {history : List (TimedCycle α Memory)} (paced : Paced history) :
    (∀ t ∈ history, t.input.time ≤ lastTime history) ∧
      history.Pairwise fun later earlier => earlier.input.time ≤ later.input.time := by
  induction history with
  | nil => simp
  | cons t older ih =>
    obtain ⟨order, _, rest⟩ := paced
    obtain ⟨bound, clock⟩ := ih rest
    have later : ∀ u ∈ older, u.input.time ≤ t.input.time := by
      intro u mem
      exact (bound u mem).trans order
    constructor
    · intro u mem
      rcases List.mem_cons.mp mem with rfl | earlier
      · exact le_rfl
      · exact later u earlier
    · exact List.pairwise_cons.mpr ⟨later, clock⟩

def latestTime (kind : TimedCycle α Memory → Prop) [DecidablePred kind] :
    List (TimedCycle α Memory) → Nat :=
  latest TimedTurn.time 0 kind

omit [Field α] [LinearOrder α] in
theorem latestTime_cons (kind : TimedCycle α Memory → Prop) [DecidablePred kind]
    (t : TimedCycle α Memory) (older : List (TimedCycle α Memory)) :
    latestTime kind (t :: older) = if kind t then t.input.time else latestTime kind older := rfl

omit [Field α] [LinearOrder α] in
theorem latestTime_le (kind : TimedCycle α Memory → Prop) [DecidablePred kind]
    {history : List (TimedCycle α Memory)} (paced : Paced history) :
    latestTime kind history ≤ lastTime history := by
  obtain ⟨bound, clock⟩ := paced_clock paced
  exact (latest_le_iff clock (Nat.zero_le _)).mpr fun t mem _ => bound t mem

omit [Field α] [LinearOrder α] in
theorem le_latestTime {kind : TimedCycle α Memory → Prop} [DecidablePred kind]
    {history : List (TimedCycle α Memory)} (paced : Paced history) {u : TimedCycle α Memory}
    (mem : u ∈ history) (found : kind u) : u.input.time ≤ latestTime kind history :=
  (latest_le_iff (paced_clock paced).2 (Nat.zero_le _)).mp le_rfl u mem found

omit [Field α] [LinearOrder α] in
theorem paced_front {older history : List (TimedCycle α Memory)} (paced : Paced history)
    (placed : older <:+ history) : Paced older := by
  obtain ⟨newer, rfl⟩ := placed
  induction newer with
  | nil => exact paced
  | cons t newer ih => exact ih paced.2.2

/- One turn. -/

variable [FloorRing α]

theorem updates_input (pid : Pid α Memory) (t : TimedCycle α Memory) :
    Updates pid t ↔ (pidInput t.before t.input.turn).isSome := by
  unfold Updates
  cases given : pidInput t.before t.input.turn with
  | none =>
    rw [(loop_rests pid given).2]
  | some x =>
    rw [(loop_updates pid given).2.2.2]
    exact Iff.rfl

theorem updates_iff (pid : Pid α Memory) (t : TimedCycle α Memory) :
    Updates pid t ↔ PidDue t.before t.input.turn := by
  rw [updates_input, pidInput]
  by_cases due : PidDue t.before t.input.turn
  · simp [due]
  · simp [due]

theorem reportText_filled (imuReady : Bool) (turn : Turn α) : reportText imuReady turn ≠ [] := by
  cases imuReady <;> simp [reportText]

theorem report_timer (s : State α Memory) (turn : Turn α) :
    ((reportImuHeading s turn).2 = [] ∧
        (reportImuHeading s turn).1.lastImuReportMs = s.lastImuReportMs) ∨
      ((reportImuHeading s turn).2 ≠ [] ∧
        (reportImuHeading s turn).1.lastImuReportMs = turn.millis ∧
        imuReportMs ≤ turn.millis - s.lastImuReportMs) := by
  unfold reportImuHeading
  by_cases early : turn.millis - s.lastImuReportMs < imuReportMs
  · rw [if_pos early]
    exact Or.inl ⟨rfl, rfl⟩
  · by_cases full : turn.availableForWrite < 24
    · rw [if_neg early, if_pos full]
      exact Or.inl ⟨rfl, rfl⟩
    · rw [if_neg early, if_neg full]
      exact Or.inr ⟨reportText_filled _ _, rfl, UInt32.not_lt.mp early⟩

theorem report_updates (s : State α Memory) (turn : Turn α) :
    (reportImuHeading s turn).1.lastPidUpdateMs = s.lastPidUpdateMs := by
  unfold reportImuHeading
  split
  · rfl
  · split
    · rfl
    · rfl

omit [FloorRing α] in
theorem servo_timers (pid : Pid α Memory) (s : State α Memory) (turn : Turn α) :
    (afterServo pid s turn).lastPidUpdateMs =
        (if PidDue s turn then turn.millis else s.lastPidUpdateMs) ∧
      (afterServo pid s turn).lastImuReportMs = s.lastImuReportMs := by
  obtain ⟨_, _, update, report, _⟩ := reads_frame s turn.waiting
  unfold afterServo updateServo
  by_cases due : PidDue s turn
  · simp [due, report]
  · simp [due, update, report]

theorem turn_timers (pid : Pid α Memory) (t : TimedCycle α Memory)
    (moved : timedNext pid t.before t.input = some t.after) :
    (t.after.lastPidUpdateMs =
      if Updates pid t then UInt32.ofNat t.input.time else t.before.lastPidUpdateMs) ∧
    ((¬ Reports pid t ∧ t.after.lastImuReportMs = t.before.lastImuReportMs) ∨
      (Reports pid t ∧ t.after.lastImuReportMs = UInt32.ofNat t.input.time ∧
        imuReportMs ≤ UInt32.ofNat t.input.time - t.before.lastImuReportMs)) := by
  obtain ⟨update, kept⟩ := servo_timers pid t.before t.input.turn
  have after : t.after = (reportImuHeading (afterServo pid t.before t.input.turn) t.input.turn).1 :=
    (Option.some.inj moved).symm
  constructor
  · rw [after, report_updates, update, t.input.seen]
    simp only [updates_iff]
  · rw [after, ← kept, ← t.input.seen]
    rcases report_timer (afterServo pid t.before t.input.turn) t.input.turn with silent | printed
    · exact Or.inl ⟨fun reported => reported silent.1, silent.2⟩
    · exact Or.inr printed

/- Runs. -/

structure Tracks (pid : Pid α Memory) (history : List (TimedCycle α Memory))
    (s : State α Memory) : Prop where
  update : s.lastPidUpdateMs = UInt32.ofNat (latestTime (Updates pid) history)
  soon : lastTime history < latestTime (Updates pid) history + 20
  report : s.lastImuReportMs = UInt32.ofNat (latestTime (Reports pid) history)

section Turns
variable {pid : Pid α Memory} {t : TimedCycle α Memory} {older : List (TimedCycle α Memory)}

theorem due_iff (tracks : Tracks pid older t.before) (paced : Paced (t :: older)) :
    Updates pid t ↔ latestTime (Updates pid) older + 20 ≤ t.input.time := by
  obtain ⟨order, gap, rest⟩ := paced
  have before := latestTime_le (Updates pid) rest
  have soon := tracks.soon
  have difference : (UInt32.ofNat t.input.time - t.before.lastPidUpdateMs).toNat =
      t.input.time - latestTime (Updates pid) older := by
    rw [tracks.update]
    exact difference_exact (by omega) (by omega)
  have period : pidUpdateMs.toNat = 20 := rfl
  rw [updates_iff, PidDue, t.input.seen, UInt32.le_iff_toNat_le, difference, period]
  omega

theorem report_apart (tracks : Tracks pid older t.before) (paced : Paced (t :: older))
    (due : imuReportMs ≤ UInt32.ofNat t.input.time - t.before.lastImuReportMs)
    {u : TimedCycle α Memory} (mem : u ∈ older) (printed : Reports pid u) :
    u.input.time + 50 ≤ t.input.time := by
  obtain ⟨order, _, rest⟩ := paced
  have before := (latestTime_le (Reports pid) rest).trans order
  have wrapped : (UInt32.ofNat t.input.time - t.before.lastImuReportMs).toNat ≤
      t.input.time - latestTime (Reports pid) older := by
    rw [tracks.report]
    exact difference_le before
  have bound : 50 ≤ (UInt32.ofNat t.input.time - t.before.lastImuReportMs).toNat :=
    UInt32.le_iff_toNat_le.mp due
  have newest := le_latestTime rest mem printed
  omega

theorem tracks_step (tracks : Tracks pid older t.before) (paced : Paced (t :: older))
    (moved : timedNext pid t.before t.input = some t.after) :
    Tracks pid (t :: older) t.after := by
  obtain ⟨update, report⟩ := turn_timers pid t moved
  constructor
  · rw [update, tracks.update, latestTime_cons]
    split
    · rfl
    · rfl
  · rw [latestTime_cons, lastTime]
    by_cases updates : Updates pid t
    · rw [if_pos updates]
      omega
    · rw [if_neg updates]
      rw [due_iff tracks paced] at updates
      omega
  · rw [latestTime_cons]
    rcases report with ⟨silent, kept⟩ | ⟨printed, now, _⟩
    · rw [if_neg silent, kept, tracks.report]
    · rw [if_pos printed, now]

end Turns

section Histories
variable {pid : Pid α Memory} {imuReady : Bool} {history : List (TimedCycle α Memory)}
  {s : State α Memory}

theorem tracks_run (run : Run (timedNext pid) (start pid imuReady) history s)
    (paced : Paced history) : Tracks pid history s := by
  induction run with
  | start =>
    constructor
    · rfl
    · simp [latestTime, latest, lastTime]
    · rfl
  | step earlier moved ih => exact tracks_step (ih paced.2.2) paced moved

/-- In true time the servo is updated as soon as twenty milliseconds have passed, and
    reports are fifty apart, over any number of wraps of the counter. -/
theorem timers_keep_true_time (run : Run (timedNext pid) (start pid imuReady) history s)
    (paced : Paced history) :
    ∀ t older, t :: older <:+ history →
      (Updates pid t ↔ latestTime (Updates pid) older + 20 ≤ t.input.time) ∧
      (Reports pid t → ∀ u ∈ older, Reports pid u → u.input.time + 50 ≤ t.input.time) := by
  intro t older placed
  obtain ⟨earlier, moved⟩ := run_placed run placed
  have whole := paced_front paced placed
  have tracks := tracks_run earlier whole.2.2
  refine ⟨due_iff tracks whole, ?_⟩
  intro reports u mem printed
  rcases (turn_timers pid t moved).2 with ⟨silent, _⟩ | ⟨_, _, due⟩
  · exact absurd reports silent
  · exact report_apart tracks whole due mem printed

end Histories

/- A turn just before the counter wraps and one just after. -/

def timedTurn (time : Nat) : TimedTurn ℚ := ⟨time, ⟨UInt32.ofNat time, [], 24, .finite 0, 3⟩, rfl⟩

theorem update_across_wrap : ∃ history : List (TimedCycle ℚ Unit),
    history.map (fun t => t.input.time) = [4294967316, 4294967276] ∧
      ∀ t older, t :: older <:+ history →
        (Updates benchPid t ↔ latestTime (Updates benchPid) older + 20 ≤ t.input.time) ∧
        (Reports benchPid t → ∀ u ∈ older, Reports benchPid u →
          u.input.time + 50 ≤ t.input.time) := by
  have begin : Run (timedNext benchPid) (start benchPid true) [] _ := Run.start
  have run := (begin.go (timedTurn 4294967276) rfl).go (timedTurn 4294967316) rfl
  refine ⟨_, rfl, timers_keep_true_time run ?_⟩
  simp [Paced, lastTime, timedTurn]

end SoqTracker.FirmwareTiming
