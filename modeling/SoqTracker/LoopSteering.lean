import SoqTracker.ClosedLoop

/- Steering in the closed loop. Nothing but commands is on the line to the
   controller, so that the lines which harm the servo never come. -/
namespace SoqTracker.LoopSteering
open ExtendedNumber Decimal Controller TrackerLoop Runs Delimited LineAssembler Components ClosedLoop
open SerialReader ServoSafety CommandLink

variable {α Memory : Type} [Field α] [LinearOrder α] [IsStrictOrderedRing α]
  [FloorRing α]

theorem assembled_commands {commands : List Int} (small : ∀ c ∈ commands, |c| ≤ 90)
    {part : List UInt8} (arrived : part <+: (commands.map commandBytes).flatten) :
    (assembled part).2 = (commands.take (part.count 10)).map commandLine := by
  have carried : ∀ line ∈ commands.map commandLine, Carried commandFraming line := by
    intro line mem
    obtain ⟨c, inside, rfl⟩ := List.mem_map.mp mem
    exact commandLine_carried (small c inside)
  have unmarked : ∀ line ∈ commands.map commandLine, (10 : UInt8) ∉ line :=
    fun line mem => (carried line mem).unmarked
  rw [commands_joined] at arrived
  rw [assembled, assemble_delivered (f := commandFraming) (by decide) carried arrived,
    List.map_take]
  exact segments_delivered 10 _ part unmarked arrived

theorem commands_numbers {commands : List Int} (small : ∀ c ∈ commands, |c| ≤ 90)
    {part : List UInt8} (arrived : part <+: (commands.map commandBytes).flatten) :
    ¬ NanLatest α part := by
  rintro ⟨line, last, nan⟩
  rw [assembled_commands small arrived] at last
  obtain ⟨c, inside, rfl⟩ := List.mem_map.mp (List.mem_of_getLast? last)
  rw [atof_command (small c (List.mem_of_mem_take inside))] at nan
  exact nan

variable {p : Programs α Memory} {imuReady : Bool} {unheard : Nat} {now : α}
  {history : List (Moment α Memory)} {s : System α Memory}

theorem commands_written (angled : p.dsp.RightAngled) {earlier : List (Block α)} {tracker : Tracker α}
    (run : Run (next p.py p.dsp) initial earlier tracker) :
    ∃ commands : List Int, commandsWritten p earlier = (commands.map commandBytes).flatten ∧
      ∀ c ∈ commands, |c| ≤ 90 := by
  -- a pass without audio adds nothing to what the run has written
  have all := run_commands angled run ⟨[], [], fun _ => 0, 0⟩
  have nothing : passWrites p.py p.dsp tracker ⟨[], [], fun _ => 0, 0⟩ = [] := rfl
  rw [runWrites, nothing, List.append_nil] at all
  obtain ⟨commands, same, small⟩ := all
  refine ⟨commands, ?_, small⟩
  rw [commandsWritten, along_flatten, ← same]
  rfl

omit [IsStrictOrderedRing α] in
theorem commands_arrived (run : Run (step p) (begin p imuReady unheard now) history s)
    {commands : List Int}
    (written : commandsWritten p (blocks history) = (commands.map commandBytes).flatten) :
    bytesRead (turns history) <+: (commands.map commandBytes).flatten := by
  rw [← written, commands_kept run]
  exact List.prefix_append _ _

theorem update_input (run : Run (step p) (begin p imuReady unheard now) history s)
    {commands : List Int}
    (written : commandsWritten p (blocks history) = (commands.map commandBytes).flatten)
    (small : ∀ c ∈ commands, |c| ≤ 90) {t : Cycle α Memory} {older : List (Cycle α Memory)}
    (placed : t :: older <:+ turns history) :
    ∀ x ∈ Firmware.pidInput t.before t.input,
      x = .finite (-(latest commands ((bytesRead (t :: older)).count 10) : α)) := by
  intro x passed
  rw [pidInput_last (turns_run run) placed passed, assembled_commands small
    ((bytesRead_earlier placed).trans (commands_arrived run written)), List.map_take,
    lastError_commands small]

/-- However the programs take turns: the servo stays in range and moves only in
    updates, by at most 20, and each update runs on the last command that has
    arrived whole, negated. -/
theorem loop_steers (angled : p.dsp.RightAngled) (limited : p.pid.Limited)
    (run : Run (step p) (begin p imuReady unheard now) history s) :
    InRange s.controller.servoPos ∧ ∃ commands : List Int,
      commandsWritten p (blocks history) = (commands.map commandBytes).flatten ∧
      linesConverted (turns history) =
        (commands.take ((bytesRead (turns history)).count 10)).map commandLine ∧
      ∀ t older, t :: older <:+ turns history → Safe p.pid t (bytesRead (t :: older)) ∧
        ∀ x ∈ Firmware.pidInput t.before t.input,
          x = .finite (-(latest commands ((bytesRead (t :: older)).count 10) : α)) := by
  obtain ⟨commands, written, small⟩ := commands_written angled (blocks_run run)
  have turning := turns_run run
  have arrived := commands_arrived run written
  have number : ∀ t older, t :: older <:+ turns history → Firmware.PidDue t.before t.input →
      ¬ NanLatest α (bytesRead (t :: older)) :=
    fun t older placed _ => commands_numbers small ((bytesRead_earlier placed).trans arrived)
  obtain ⟨range, safe⟩ := safe_run limited turning number
  refine ⟨range, commands, written, ?_, ?_⟩
  · rw [(reader_run turning).2, assembled_commands small arrived]
  · intro t older placed
    exact ⟨safe t older placed, update_input run written small placed⟩

/-- Three slanted blocks' command steers the servo. -/
theorem loop_steers_bench :
    ∃ (p : Programs ℚ Unit) (history : List (Moment ℚ Unit)) (s : System ℚ Unit)
      (commands : List Int),
      Run (step p) (begin p true 0 9) history s ∧ linesConverted (turns history) = [[53]] ∧
        InRange s.controller.servoPos ∧ s.controller.servoPos ≠ .finite 90 ∧
        linesConverted (turns history) =
          (commands.take ((bytesRead (turns history)).count 10)).map commandLine := by
  let p : Programs ℚ Unit := { benchPrograms with dsp := slantedDsp }
  have fresh : Run (step p) (begin p true 0 9) [] (begin p true 0 9) := Run.start
  have run := (((fresh.go (.pass (benchPass slantedRaw [] 10)) (by decide +kernel)).go
    (.pass (benchPass slantedRaw [] 11)) (by decide +kernel)).go
    (.pass (benchPass slantedRaw [] 12)) (by decide +kernel)).go
    (.turn (benchSensing 60 [53, 10])) (by decide +kernel)
  obtain ⟨range, commands, _, lines, _⟩ :=
    loop_steers slantedDsp_rightAngled Firmware.benchPid_limited run
  exact ⟨p, _, _, commands, run, by decide +kernel, range, by decide +kernel, lines⟩

end SoqTracker.LoopSteering
