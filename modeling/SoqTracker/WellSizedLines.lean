import SoqTracker.SerialReader

/- Which lines of the byte stream the firmware converts. A line that outgrows
   the buffer is not discarded up to its LF: the byte that no longer fits is
   dropped, the buffer starts again in the middle of the line, and the tail that
   is left over is converted as if it were a line. -/
namespace SoqTracker.WellSizedLines
open ExtendedNumber Firmware Blocks Delimited LineAssembler SerialReader Runs

def lines (bytes : List UInt8) : List (List UInt8) :=
  segments 10 (bytes.filter (· ≠ 13))

def WellSized (line : List UInt8) : Prop :=
  1 ≤ line.length ∧ line.length ≤ 31

instance (line : List UInt8) : Decidable (WellSized line) := by
  unfold WellSized; infer_instance

/-- No tail is left over: the line fits, or its overflows use up all of it. -/
def Tailless (line : List UInt8) : Prop :=
  line.length ≤ 31 ∨ 32 ∣ line.length

theorem assembled_lines (bytes : List UInt8) :
    (assembled bytes).2 = ((lines bytes).map (leftover 32)).filter (· ≠ []) := by
  have unskipped : commandFraming.skipped ∉ bytes.filter (· ≠ commandFraming.skipped) := by
    simp
  rw [assembled, assemble_skips, assemble_leftovers (by decide) unskipped]
  rfl

theorem kept_lines (given : List (List UInt8)) :
    (given.map (leftover 32)).filter (· ≠ []) =
      (given.filter (¬ 32 ∣ ·.length)).map (leftover 32) := by
  rw [List.filter_map]
  congr 1
  apply List.filter_congr
  intro line _
  simp [leftover_nil_iff]

theorem well_sized_kept {line : List UInt8} (sized : WellSized line) :
    ¬ 32 ∣ line.length ∧ leftover 32 line = line := by
  obtain ⟨filled, fits⟩ := sized
  constructor
  · omega
  · exact leftover_short (by omega)

theorem kept_iff {line : List UInt8} (tailless : Tailless line) :
    ¬ 32 ∣ line.length ↔ WellSized line := by
  rw [WellSized]
  rcases tailless with fits | uses_up
  · constructor
    · intro kept
      have filled : line.length ≠ 0 := by
        intro nothing
        simp [nothing] at kept
      omega
    · intro sized
      omega
  · constructor
    · intro kept
      exact absurd uses_up kept
    · intro sized
      omega

section Values
variable {Value : Type} (read : List UInt8 → Value)

/-- The values converted are those of the well-sized lines exactly when no line
    leaves a tail: each such tail is one value more. -/
theorem values_agree_iff (given : List (List UInt8)) :
    ((given.map (leftover 32)).filter (· ≠ [])).map read = (given.filter WellSized).map read ↔
      ∀ line ∈ given, Tailless line := by
  rw [kept_lines]
  constructor
  · intro agree line mem
    have sizes := congrArg List.length agree
    simp only [List.length_map] at sizes
    have weaker : List.Sublist (given.filter WellSized) (given.filter (¬ 32 ∣ ·.length)) := by
      apply List.monotone_filter_right
      intro line sized
      simpa using (well_sized_kept (by simpa using sized)).1
    have same := weaker.eq_of_length sizes.symm
    by_cases uses_up : 32 ∣ line.length
    · exact Or.inr uses_up
    · have kept : line ∈ given.filter (¬ 32 ∣ ·.length) :=
        List.mem_filter.mpr ⟨mem, by simpa using uses_up⟩
      rw [← same, List.mem_filter] at kept
      have sized : WellSized line := by simpa using kept.2
      exact Or.inl sized.2
  · intro tailless
    have same : given.filter (¬ 32 ∣ ·.length) = given.filter WellSized := by
      apply List.filter_congr
      intro line mem
      simp only [kept_iff (tailless line mem)]
    rw [same, List.map_map]
    apply List.map_congr_left
    intro line mem
    have sized : WellSized line := by simpa using (List.mem_filter.mp mem).2
    simp [(well_sized_kept sized).2]

end Values

variable {α Memory : Type}

theorem index_inside (s : State α Memory) : s.serialBuffer.serialIndex ≤ 31 := s.serialBuffer.fits

theorem line_marked {s : State α Memory} {c : UInt8} (given : (lineRead s c).isSome) : c = 10 := by
  unfold lineRead at given
  by_contra other
  simp [other] at given

variable [Field α] [LinearOrder α] [FloorRing α]

/-- What the reader is to do over a run: change error only where an LF gives a
    line, to the reading of that line, keep every write inside the buffer, and so
    assign the readings of the well-sized lines in order. -/
structure ReadsWellSized (history : List (Cycle α Memory)) : Prop where
  assigns : ∀ (s : State α Memory) (c : UInt8),
    (readByte s c).error = ((lineRead s c).map readError).getD s.error ∧
      ((lineRead s c).isSome → c = 10)
  inside : ∀ s : State α Memory,
    s.serialBuffer.serialIndex ≤ 31 ∧ s.serialBuffer.serialIndex < sizeofSerialBuffer
  values : ((linesConverted history).map readError : List (Number α)) =
    ((lines (bytesRead history)).filter WellSized).map readError

/-- In every run that holds exactly when no line longer than 31 bytes leaves a
    tail, which is when its length is a multiple of 32. -/
theorem reads_well_sized_iff {pid : Pid α Memory} {imuReady : Bool}
    {history : List (Cycle α Memory)} {s : State α Memory}
    (run : Run (next pid) (start pid imuReady) history s) :
    ReadsWellSized history ↔ ∀ line ∈ lines (bytesRead history), Tailless line := by
  rw [← values_agree_iff (readError : List UInt8 → Number α), ← assembled_lines,
    ← (reader_run run).2]
  constructor
  · intro reads
    exact reads.values
  · intro values
    constructor
    · intro s c
      exact ⟨(readByte_spec s c).2.2, line_marked⟩
    · intro s
      exact ⟨index_inside s, Nat.lt_succ_of_le (index_inside s)⟩
    · exact values

/- Runs on fixed lines. -/

/-- Thirty-two zeros and a seven overflow the buffer, and the seven is obeyed. -/
theorem long_line_tail_obeyed :
    ∃ (history : List (Cycle ℚ Unit)) (s : State ℚ Unit),
      Run (next benchPid) (start benchPid true) history s ∧
        bytesRead history = List.replicate 32 48 ++ [55, 10] ∧
        s.error = .finite (-7) ∧ ¬ ReadsWellSized history := by
  have begin : Run (next benchPid) (start benchPid true) [] _ := Run.start
  have run := begin.go (benchTurn 15 (List.replicate 32 48 ++ [55, 10])) rfl
  refine ⟨_, _, run, rfl, by decide +kernel, ?_⟩
  rw [reads_well_sized_iff run]
  intro tailless
  have long := tailless (List.replicate 32 48 ++ [55]) (by decide +kernel)
  revert long
  simp [Tailless]

/-- Short and empty lines are read as they are to be, CRs and all. -/
theorem short_lines_read :
    ∃ history : List (Cycle ℚ Unit), bytesRead history = [53, 13, 10, 10, 45, 55, 10] ∧
      ReadsWellSized history := by
  have begin : Run (next benchPid) (start benchPid true) [] _ := Run.start
  have run := (begin.go (benchTurn 15 [53, 13, 10, 10, 45]) rfl).go (benchTurn 30 [55, 10]) rfl
  refine ⟨_, rfl, (reads_well_sized_iff run).mpr ?_⟩
  intro line mem
  have short : line ∈ [[53], [], [45, 55]] := mem
  simp only [List.mem_cons, List.not_mem_nil, or_false] at short
  rcases short with rfl | rfl | rfl
  · simp [Tailless]
  · simp [Tailless]
  · simp [Tailless]

end SoqTracker.WellSizedLines
