import SoqTracker.SteeringCommands
import SoqTracker.SerialReader
import SoqTracker.DecimalText
import SoqTracker.Utf8
import SoqTracker.Averages

/- The command link from the tracker to the servo controller: every PID update
   runs on the negated value of the last command delivered whole. -/
namespace SoqTracker.CommandLink
open ExtendedNumber Decimal Controller TrackerLoop SteeringCommands Runs Delimited LineAssembler
open SerialReader Averages

variable {α : Type} [Field α] [LinearOrder α] [IsStrictOrderedRing α]

/- What a command can be. -/

theorem clip_range (x : α) : -1 ≤ clip x (-1) 1 ∧ clip x (-1) 1 ≤ 1 := by
  unfold clip
  constructor
  · exact le_min (by linarith) (le_max_left _ _)
  · exact min_le_left _ _

theorem rawErrorDeg_range {dsp : Dsp α} (angled : dsp.RightAngled) (raw : List UInt8) :
    -90 ≤ rawErrorDeg dsp raw ∧ rawErrorDeg dsp raw ≤ 90 := by
  obtain ⟨low, high⟩ := clip_range (dsp.gccPhat (mic1 raw) (mic4 raw) * speedOfSound / micSpacing)
  exact angled _ low high

variable [FloorRing α]

variable {py : Python α} {dsp : Dsp α}

theorem triple_command_range (angled : dsp.RightAngled) {history : List (Block α)} {pass : Pass α}
    (t : Triple dsp history pass) : |truncate (mean t.errors)| ≤ 90 := by
  have inside : ∀ e ∈ t.errors, e ∈ Set.Icc (-90 : α) 90 := by
    intro e mem
    simp only [Triple.errors, List.mem_cons, List.not_mem_nil, or_false] at mem
    rcases mem with rfl | rfl | rfl
    · exact rawErrorDeg_range angled _
    · exact rawErrorDeg_range angled _
    · exact rawErrorDeg_range angled _
  obtain ⟨low, high⟩ := mean_mem (by simp [Triple.errors]) inside
  apply truncate_below
  · unfold mean
    push_cast
    linarith
  · unfold mean
    push_cast
    linarith

def AreCommands (writes : List (List UInt8)) : Prop :=
  ∃ commands : List Int, writes = commands.map commandBytes ∧ ∀ c ∈ commands, |c| ≤ 90

theorem commands_append {front back : List (List UInt8)} (first : AreCommands front)
    (second : AreCommands back) : AreCommands (front ++ back) := by
  obtain ⟨commands, same, small⟩ := first
  obtain ⟨more, same', small'⟩ := second
  refine ⟨commands ++ more, ?_, ?_⟩
  · rw [same, same', List.map_append]
  · intro c mem
    rcases List.mem_append.mp mem with left | right
    · exact small c left
    · exact small' c right

theorem pass_command (angled : dsp.RightAngled) {history : List (Block α)} {tracker : Tracker α}
    (run : Run (next py dsp) initial history tracker) (pass : Pass α) :
    AreCommands (passWrites py dsp tracker pass) := by
  have buffer := buffer_run run
  by_cases silent : passWrites py dsp tracker pass = []
  · exact ⟨[], silent, by simp⟩
  · by_cases loud : Loud dsp pass.raw
    · obtain ⟨t, _, wrote⟩ := loud_command buffer loud silent
      refine ⟨[truncate (mean t.errors)], ?_, ?_⟩
      · rw [wrote]
        rfl
      · intro c mem
        rw [List.mem_singleton.mp mem]
        exact triple_command_range angled t
    · have read : Processed py tracker pass := by
        by_contra unread
        exact silent (writes_unprocessed unread)
      refine ⟨[0], ?_, ?_⟩
      · rw [writes_quiet read loud]
        rfl
      · intro c mem
        rw [List.mem_singleton.mp mem]
        decide

def runWrites (py : Python α) (dsp : Dsp α) (history : List (Block α)) (tracker : Tracker α)
    (pass : Pass α) : List (List UInt8) :=
  (history.reverse.flatMap fun b => blockWrites py dsp b) ++ passWrites py dsp tracker pass

theorem run_commands (angled : dsp.RightAngled) {history : List (Block α)} {tracker : Tracker α}
    (run : Run (next py dsp) initial history tracker) (pass : Pass α) :
    AreCommands (runWrites py dsp history tracker pass) := by
  have earlier : AreCommands (history.reverse.flatMap fun b => blockWrites py dsp b) := by
    induction run with
    | start => exact ⟨[], rfl, by simp⟩
    | step before moved ih =>
      rw [List.reverse_cons, List.flatMap_append, List.flatMap_singleton]
      exact commands_append ih (pass_command angled before _)
  exact commands_append earlier (pass_command angled run pass)

/- A command on the line. -/

def commandLine (c : Int) : List UInt8 := Utf8.encode (intText c)

theorem commandBytes_line (c : Int) : commandBytes c = commandLine c ++ [10] := by
  rw [commandBytes, Utf8.encode_append]
  rfl

theorem commands_joined (commands : List Int) :
    (commands.map commandBytes).flatten = joined 10 (commands.map commandLine) := by
  induction commands with
  | nil => rfl
  | cons c commands ih =>
    rw [List.map_cons, List.flatten_cons, ih, commandBytes_line, List.map_cons, joined_cons]
    simp

theorem commandLine_carried {c : Int} (small : |c| ≤ 90) : Carried commandFraming (commandLine c) := by
  have plain := intText_ascii c
  have bytes : commandLine c = (intText c).map fun d => d.toNat.toUInt8 :=
    Utf8.encode_ascii _ plain
  have size : c.natAbs ≤ 90 := by
    rw [abs_le] at small
    omega
  have digits : (natText c.natAbs).length ≤ 2 :=
    (Nat.length_toDigits_le_iff (by decide) (by decide)).mpr (by omega)
  have short : (intText c).length ≤ 3 := by
    rcases intText_cases c with ⟨text, _⟩ | ⟨text, _⟩
    · rw [text]
      omega
    · rw [text, List.length_cons]
      omega
  have codes : ∀ b ∈ commandLine c, 45 ≤ b.toNat := by
    intro b mem
    rw [bytes] at mem
    obtain ⟨d, inside, rfl⟩ := List.mem_map.mp mem
    have code : d.toNat.toUInt8.toNat = d.toNat := by
      have limit := plain d inside
      simp
      omega
    rw [code]
    rcases intText_chars inside with rfl | digit
    · decide
    · have range := digit_range digit
      omega
  constructor
  · rw [bytes]
    rcases intText_cases c with ⟨text, _⟩ | ⟨text, _⟩
    · rw [text]
      simpa using natText_filled c.natAbs
    · rw [text]
      simp
  · rw [bytes, List.length_map]
    exact short.trans (by decide)
  · intro mem
    exact absurd (codes 10 mem) (by decide)
  · intro mem
    exact absurd (codes 13 mem) (by decide)

theorem atof_command {c : Int} (small : |c| ≤ 90) : atof (commandLine c) = Number.finite (c : α) := by
  obtain ⟨_, spells⟩ := Utf8.encode_bytes _ (intText_ascii c)
  rw [atof, commandLine, spells, atofText_int]
  apply Number.ofExact_small (n := 90)
  · have cast : ((|c| : Int) : α) ≤ ((90 : Int) : α) := Int.cast_le.mpr small
    push_cast at cast ⊢
    exact cast
  · decide

theorem readError_command {c : Int} (small : |c| ≤ 90) :
    Firmware.readError (commandLine c) = Number.finite (-(c : α)) := by
  have cast : |(c : α)| ≤ 90 := by
    have bound : ((|c| : Int) : α) ≤ ((90 : Int) : α) := Int.cast_le.mpr small
    push_cast at bound
    exact bound
  obtain ⟨low, high⟩ := abs_le.mp cast
  have notLow : ¬ -(c : α) < -90 := by linarith
  have notHigh : ¬ 90 < -(c : α) := by linarith
  rw [Firmware.readError, atof_command small]
  simp [Firmware.constrain, notLow, notHigh]

/-- The last of the first j commands; zero before the first. -/
def latest (commands : List Int) (j : Nat) : Int := (commands.take j).getLast?.getD 0

theorem lastError_commands {commands : List Int} (small : ∀ c ∈ commands, |c| ≤ 90) (j : Nat) :
    lastError ((commands.map commandLine).take j) = Number.finite (-(latest commands j : α)) := by
  rw [lastError, latest, ← List.map_take, List.getLast?_map]
  cases last : (commands.take j).getLast? with
  | none => simp
  | some c => 
    have mem := List.mem_of_mem_take (List.mem_of_getLast? last)
    exact readError_command (small c mem)

/- The link. -/

variable {Memory : Type} {pid : Firmware.Pid α Memory}

/-- Whatever part of the tracker's writes has arrived, and however it was cut
    into turns: the lines converted are the commands delivered whole, each once
    and in order, and every update runs on the last of them, negated. -/
theorem updates_follow_commands (angled : dsp.RightAngled) {history : List (Block α)}
    {tracker : Tracker α}
    (run : Run (next py dsp) initial history tracker) (pass : Pass α) {imuReady : Bool}
    {cycles : List (Cycle α Memory)} {s : Firmware.State α Memory}
    (turns : Run (Firmware.next pid) (Firmware.start pid imuReady) cycles s)
    (delivered : bytesRead cycles <+: (runWrites py dsp history tracker pass).flatten) :
    ∃ commands : List Int, runWrites py dsp history tracker pass = commands.map commandBytes ∧
      linesConverted cycles = (commands.take ((bytesRead cycles).count 10)).map commandLine ∧
      ∀ t older, t :: older <:+ cycles → ∀ x ∈ Firmware.pidInput t.before t.input,
        x = .finite (-(latest commands ((bytesRead (t :: older)).count 10) : α)) := by
  obtain ⟨commands, written, small⟩ := run_commands angled run pass
  have carried : ∀ line ∈ commands.map commandLine, Carried commandFraming line := by
    intro line mem
    obtain ⟨c, inside, rfl⟩ := List.mem_map.mp mem
    exact commandLine_carried (small c inside)
  have unmarked : ∀ line ∈ commands.map commandLine, (10 : UInt8) ∉ line :=
    fun line mem => (carried line mem).unmarked
  rw [written, commands_joined] at delivered
  have lines : ∀ part, part <+: joined 10 (commands.map commandLine) →
      (assembled part).2 = (commands.map commandLine).take (part.count 10) := by
    intro part arrived
    rw [assembled, assemble_delivered (f := commandFraming) (by decide) carried arrived]
    exact segments_delivered 10 _ part unmarked arrived
  refine ⟨commands, written, ?_, ?_⟩
  · rw [(reader_run turns).2, lines _ delivered, List.map_take]
  · intro t older placed x passed
    rw [pidInput_last turns placed passed,
      lines _ ((bytesRead_earlier placed).trans delivered), lastError_commands small]

/-- Three slanted blocks' command, arriving in two turns. -/
theorem slanted_command_arrives :
    ∃ (history : List (Block ℚ)) (tracker : Tracker ℚ) (cycles : List (Cycle ℚ Unit)),
      bytesRead cycles = [53, 10] ∧ ∃ commands : List Int,
        runWrites benchPython slantedDsp history tracker (benchPass slantedRaw [] 12) =
          commands.map commandBytes ∧
        linesConverted cycles = (commands.take ((bytesRead cycles).count 10)).map commandLine ∧
        ∀ t older, t :: older <:+ cycles → ∀ x ∈ Firmware.pidInput t.before t.input,
          x = .finite (-(latest commands ((bytesRead (t :: older)).count 10) : ℚ)) := by
  have fresh : Run (next benchPython slantedDsp) initial [] initial := Run.start
  have run := (fresh.go (benchPass slantedRaw [] 10) (by decide +kernel)).go
    (benchPass slantedRaw [] 11) (by decide +kernel)
  have begin : Run (Firmware.next Firmware.benchPid) (Firmware.start Firmware.benchPid true) [] _ :=
    Run.start
  have turns := (begin.go (Firmware.benchTurn 15 [53]) rfl).go (Firmware.benchTurn 30 [10]) rfl
  exact ⟨_, _, _, rfl, updates_follow_commands slantedDsp_rightAngled run
    (benchPass slantedRaw [] 12) turns (by decide +kernel)⟩

end SoqTracker.CommandLink
