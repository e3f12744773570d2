import SoqTracker.Controller
import SoqTracker.JsonScan

/- What a poll of the serial port leaves behind: the state after the last line
   that parsed as a heading, or an error when some line raises. -/
namespace SoqTracker.Controller
open ExtendedNumber Decimal Json Delimited

variable {α : Type} [Field α] [LinearOrder α]

/- Which lines raise. -/

def Raises (py : Python α) (line : List Char) : Prop :=
  ∃ error, parseControllerLine py line = .error error

/-- A JSON line beyond the interpreter's limits, or whose heading is an integer
    too large for a float. -/
def RaisingLine (py : Python α) (line : List Char) : Prop :=
  (strip line).head? = some '\x7b' ∧
    ((∃ refusal ∈ [.tooDeep, .tooLong],
        loads (α := α) py.limits (strip line) = .error refusal) ∨
      ∃ payload value, loads py.limits (strip line) = .ok (.obj payload) ∧
        getField "heading_deg" payload = (.int value : Value α) ∧
          Number.overflowBound ≤ value.natAbs)

theorem toFloat_raises {value : Value α} {error : PyError} (raised : toFloat value = .error error) :
    error = .typeError ∨ error = .valueError ∨
      error = .overflowError ∧ ∃ n, value = .int n ∧ Number.overflowBound ≤ n.natAbs := by
  cases value with
  | null => exact Or.inl (by simpa [toFloat, eq_comm] using raised)
  | bool value => simp [toFloat] at raised
  | int n =>
    by_cases large : Number.overflowBound ≤ n.natAbs
    · rw [toFloat, if_pos large] at raised
      exact Or.inr (Or.inr ⟨(Except.error.inj raised).symm, n, rfl, large⟩)
    · rw [toFloat, if_neg large] at raised
      simp at raised
  | float value => simp [toFloat] at raised
  | str value =>
    simp only [toFloat] at raised
    split at raised
    · simp at raised
    · exact Or.inr (Or.inl (Except.error.inj raised).symm)
  | arr items => exact Or.inl (by simpa [toFloat, eq_comm] using raised)
  | obj members => exact Or.inl (by simpa [toFloat, eq_comm] using raised)

theorem toFloat_overflow {n : Int} (large : Number.overflowBound ≤ n.natAbs) :
    toFloat (.int n : Value α) = .error .overflowError := by
  rw [toFloat, if_pos large]

theorem jsonLoads_ok {limits : Limits} {text : List Char} {value : Value α}
    (read : jsonLoads limits text = .ok value) : loads limits text = .ok value := by
  unfold jsonLoads at read
  split at read
  · rename_i found whole
    rw [whole, Except.ok.inj read]
  · simp at read
  · simp at read
  · simp at read

theorem jsonLoads_raises {limits : Limits} {text : List Char} {error : PyError}
    (raised : jsonLoads (α := α) limits text = .error error) :
    error = .jsonDecodeError ∨
      ∃ refusal ∈ [.tooDeep, .tooLong], loads (α := α) limits text = .error refusal := by
  unfold jsonLoads at raised
  have fuelled := loads_fuelled (α := α) limits text
  cases read : loads (α := α) limits text with
  | ok value => simp [read] at raised
  | error refusal =>
    rw [read] at raised fuelled
    cases refusal with
    | malformed => exact Or.inl (Except.error.inj raised).symm
    | tooDeep => exact Or.inr ⟨.tooDeep, by simp, rfl⟩
    | tooLong => exact Or.inr ⟨.tooLong, by simp, rfl⟩
    | outOfFuel => exact absurd rfl fuelled

theorem parseJsonLine_raises_iff (py : Python α) {text : List Char}
    (brace : text.head? = some '\x7b') :
    (∃ error, parseJsonLine py text = .error error) ↔
      (∃ refusal ∈ [.tooDeep, .tooLong], loads (α := α) py.limits text = .error refusal) ∨
        ∃ payload value, loads py.limits text = .ok (.obj payload) ∧
          getField "heading_deg" payload = (.int value : Value α) ∧
            Number.overflowBound ≤ value.natAbs := by
  constructor
  · rintro ⟨error, raised⟩
    unfold parseJsonLine at raised
    cases read : jsonLoads (α := α) py.limits text with
    | error refusal =>
      rcases jsonLoads_raises read with malformed | beyond
      · simp [read, malformed] at raised
      · exact Or.inl beyond
    | ok value =>
      obtain ⟨payload, same⟩ := loads_brace brace (jsonLoads_ok read)
      subst same
      simp only [read] at raised
      refine Or.inr ⟨payload, ?_⟩
      generalize getField "heading_deg" payload = heading at raised ⊢
      split at raised
      · simp at raised
      · split at raised
        · simp at raised
        · simp at raised
        · rename_i kind mistyped misread converted
          rcases toFloat_raises converted with typed | valued | ⟨_, n, same, large⟩
          · exact absurd typed mistyped
          · exact absurd valued misread
          · exact ⟨n, jsonLoads_ok read, same, large⟩
        · simp at raised
  · rintro (⟨refusal, kind, beyond⟩ | ⟨payload, value, read, heading, large⟩)
    · simp only [List.mem_cons, List.not_mem_nil, or_false] at kind
      rcases kind with rfl | rfl
      · exact ⟨.recursionError, by simp [parseJsonLine, jsonLoads, beyond]⟩
      · exact ⟨.valueError, by simp [parseJsonLine, jsonLoads, beyond]⟩
    · refine ⟨.overflowError, ?_⟩
      simp [parseJsonLine, jsonLoads, read, heading, toFloat_overflow large]

theorem parseControllerLine_raises_iff (py : Python α) (line : List Char) :
    Raises py line ↔ RaisingLine py line := by
  unfold Raises RaisingLine parseControllerLine
  by_cases brace : (strip line).head? = some '\x7b'
  · have filled : strip line ≠ [] := by
      intro empty
      simp [empty] at brace
    simp only [filled, brace, if_false, if_true, true_and]
    exact parseJsonLine_raises_iff py brace
  · by_cases empty : strip line = []
    · simp [empty]
    · simp [empty, brace]

/- Field lines: the last part of a kind decides. -/

theorem startsWith_head {word : String} {c : Char} {part : List Char}
    (first : word.toList.head? = some c) (starts : startsWith word part) : part.head? = some c := by
  obtain ⟨rest, same⟩ := List.isPrefixOf_iff_prefix.mp starts
  obtain ⟨later, spelled⟩ := List.head?_eq_some_iff.mp first
  rw [← same, spelled]
  rfl

theorem readPart_spec {py : Python α} {part : List Char} {read read' : Fields α}
    (done : readPart py read part = some read') :
    read'.heading = (if startsWith "H:" part then pyFloat (afterColon part) else read.heading) ∧
      read'.imuValid = if startsWith "IMU:" part then readImuFlag part else read.imuValid := by
  have apart : ∀ {word : String} (word' : String) {c d : Char}, word.toList.head? = some c →
      word'.toList.head? = some d → c ≠ d → startsWith word part → ¬ startsWith word' part := by
    intro word word' c d first first' other starts starts'
    have same := (startsWith_head first starts).symm.trans (startsWith_head first' starts')
    exact other (Option.some.inj same)
  unfold readPart at done
  by_cases heading : startsWith "H:" part
  · have imu := apart "IMU:" rfl rfl (by decide) heading
    rw [if_pos heading] at done ⊢
    rw [if_neg imu]
    obtain ⟨value, converted, same⟩ := Option.map_eq_some_iff.mp done
    rw [← same, converted]
    exact ⟨rfl, rfl⟩
  · rw [if_neg heading] at done ⊢
    by_cases calibration : startsWith "CAL:" part
    · have imu := apart "IMU:" rfl rfl (by decide) calibration
      rw [if_pos calibration] at done
      rw [if_neg imu]
      split at done
      · rw [← Option.some.inj done]
        exact ⟨rfl, rfl⟩
      · rw [← Option.some.inj done]
        exact ⟨rfl, rfl⟩
    · rw [if_neg calibration] at done
      by_cases imu : startsWith "IMU:" part
      · rw [if_pos imu] at done ⊢
        rw [← Option.some.inj done]
        exact ⟨rfl, rfl⟩
      · rw [if_neg imu] at done ⊢
        rw [← Option.some.inj done]
        exact ⟨rfl, rfl⟩

theorem readParts_last {py : Python α} {Quantity : Type} (quantity : Fields α → Quantity)
    (kind : List Char → Bool) (value : List Char → Quantity)
    (sets : ∀ {part read read'}, readPart py read part = some read' →
      quantity read' = if kind part then value part else quantity read)
    {parts : List (List Char)} {read read' : Fields α}
    (done : parts.foldlM (readPart py) read = some read') :
    quantity read' = ((parts.filter kind).getLast?.map value).getD (quantity read) := by
  induction parts generalizing read with
  | nil =>
    rw [← Option.some.inj done]
    rfl
  | cons part parts ih =>
    rw [List.foldlM_cons] at done
    obtain ⟨middle, first, later⟩ := Option.bind_eq_some_iff.mp done
    rw [ih later, sets first, List.filter_cons]
    by_cases here : kind part
    · simp only [here, if_true, List.getLast?_cons]
      cases (parts.filter kind).getLast? with
      | none => rfl
      | some last => rfl
    · simp [here]

theorem parseFieldLine_spec {py : Python α} {line : List Char} {parsed : Parsed α}
    (done : parseFieldLine py line = some parsed) :
    ((parts line).filter (startsWith "H:")).getLast?.bind (fun part => pyFloat (afterColon part)) =
        some parsed.headingDeg ∧
      parsed.imuValid =
        (((parts line).filter (startsWith "IMU:")).getLast?.map readImuFlag).getD true := by
  unfold parseFieldLine at done
  split at done
  · rename_i heading imuValid calibration read
    have last := readParts_last Fields.heading (startsWith "H:") (fun part => pyFloat (afterColon part))
      (fun first => (readPart_spec first).1) read
    have flag := readParts_last Fields.imuValid (startsWith "IMU:") readImuFlag
      (fun first => (readPart_spec first).2) read
    rw [← Option.some.inj done]
    refine ⟨?_, flag⟩
    refine Eq.trans ?_ last.symm
    cases ((parts line).filter (startsWith "H:")).getLast? with
    | none => rfl
    | some part => rfl
  · simp at done

/- JSON lines. -/

theorem parseJsonLine_spec {py : Python α} {text : List Char} {parsed : Parsed α}
    (done : parseJsonLine py text = .ok (some parsed)) :
    ∃ payload, loads py.limits text = .ok (.obj payload) ∧
      toFloat (getField "heading_deg" payload) = .ok parsed.headingDeg ∧
      parsed.imuValid = (match getField "imu_valid" payload with
        | .null => true
        | imuValid => truthy imuValid) ∧
      parsed.calibration = getField "calibration" payload := by
  unfold parseJsonLine at done
  split at done
  · simp at done
  · simp at done
  · rename_i payload read
    refine ⟨payload, jsonLoads_ok read, ?_⟩
    split at done
    · simp at done
    · split at done
      · simp at done
      · simp at done
      · simp at done
      · rename_i headingDeg converted
        rw [Except.ok.injEq, Option.some.injEq] at done
        rw [← done]
        exact ⟨converted, rfl, rfl⟩
  · simp at done

/- Hearing lines. -/

def report (py : Python α) (line : List Char) : Option (Parsed α) :=
  match parseControllerLine py line with
  | .ok parsed => parsed
  | .error _ => none

theorem report_cases {py : Python α} {line : List Char} {parsed : Parsed α}
    (reported : report py line = some parsed) :
    (strip line).head? = some '\x7b' ∧ parseJsonLine py (strip line) = .ok (some parsed) ∨
      (strip line).head? ≠ some '\x7b' ∧ parseFieldLine py (strip line) = some parsed := by
  unfold report parseControllerLine at reported
  by_cases empty : strip line = []
  · simp [empty] at reported
  · simp only [empty, if_false] at reported
    by_cases brace : (strip line).head? = some '\x7b'
    · simp only [brace, if_true] at reported
      cases whole : parseJsonLine py (strip line) with
      | error error => simp [whole] at reported
      | ok found =>
        rw [whole] at reported
        exact Or.inl ⟨brace, congrArg Except.ok reported⟩
    · simp only [brace, if_false] at reported
      exact Or.inr ⟨brace, reported⟩

def lastReport (py : Python α) (lines : List (List Char × α)) : Option (Parsed α × α) :=
  (lines.filterMap fun line => (report py line.1).map fun parsed => (parsed, line.2)).getLast?

theorem lastReport_append (py : Python α) (earlier later : List (List Char × α)) :
    lastReport py (earlier ++ later) = (lastReport py later).or (lastReport py earlier) := by
  rw [lastReport, List.filterMap_append, List.getLast?_append]
  rfl

theorem lastReport_untimed (py : Python α) (lines : List (List Char × α)) :
    (lastReport py lines).map Prod.fst =
      ((lines.map Prod.fst).filterMap (report py)).getLast? := by
  rw [lastReport, ← List.getLast?_map, List.map_filterMap, List.filterMap_map]
  congr 1
  apply List.filterMap_congr
  intro line _
  cases found : report py line.1 with
  | none => simp [found]
  | some parsed => simp [found]

variable [FloorRing α]

def settle (imu : ImuState α) : Option (Parsed α × α) → ImuState α
  | none => imu
  | some (parsed, time) => heard imu parsed time

theorem settle_settle (imu : ImuState α) (first second : Option (Parsed α × α)) :
    settle (settle imu first) second = settle imu (second.or first) := by
  cases second with
  | none => rfl
  | some later =>
    cases first with
    | none => rfl
    | some earlier => rfl

@[simp] theorem settle_buffer (imu : ImuState α) (heading : Option (Parsed α × α)) :
    (settle imu heading).controllerBuffer = imu.controllerBuffer := by
  cases heading with
  | none => rfl
  | some report => rfl

theorem settle_rebuffer (imu : ImuState α) (heading : Option (Parsed α × α))
    (buffer : List Char) :
    { settle imu heading with controllerBuffer := buffer } =
      settle { imu with controllerBuffer := buffer } heading := by
  cases heading with
  | none => rfl
  | some report => rfl

theorem takeLine_ok {py : Python α} {line : List Char × α} (fine : ¬ Raises py line.1)
    (imu : ImuState α) : takeLine py imu line = .ok (settle imu (lastReport py [line])) := by
  unfold takeLine lastReport report
  cases read : parseControllerLine py line.1 with
  | error error => exact absurd ⟨error, read⟩ fine
  | ok parsed =>
    cases parsed with
    | none => simp [read, settle]
    | some parsed => simp [read, settle]

theorem takeLines_ok {py : Python α} {lines : List (List Char × α)}
    (fine : ∀ line ∈ lines, ¬ Raises py line.1) (imu : ImuState α) :
    lines.foldlM (takeLine py) imu = .ok (settle imu (lastReport py lines)) := by
  induction lines generalizing imu with
  | nil => rfl
  | cons line lines ih =>
    have later := ih (fun l mem => fine l (by simp [mem])) (settle imu (lastReport py [line]))
    rw [List.foldlM_cons, takeLine_ok (fine line (by simp))]
    refine later.trans ?_
    rw [settle_settle, ← lastReport_append, List.singleton_append]

theorem takeLines_raises {py : Python α} {lines : List (List Char × α)}
    (bad : ∃ line ∈ lines, Raises py line.1) (imu : ImuState α) :
    ∃ error, lines.foldlM (takeLine py) imu = .error error := by
  induction lines generalizing imu with
  | nil => simp at bad
  | cons line lines ih =>
    rw [List.foldlM_cons]
    by_cases here : Raises py line.1
    · obtain ⟨error, raised⟩ := here
      exact ⟨error, by rw [takeLine, raised]; rfl⟩
    · rw [takeLine_ok here]
      refine ih ?_ (settle imu (lastReport py [line]))
      obtain ⟨line', mem, raises⟩ := bad
      rcases List.mem_cons.mp mem with same | there
      · rw [same] at raises
        exact absurd raises here
      · exact ⟨line', there, raises⟩

/- A whole poll. -/

def linesTaken (clock : Nat → α) (imu : ImuState α) (waiting : List UInt8) :
    List (List Char × α) :=
  timed clock (segments '\n' (pendingText imu waiting))

def afterPoll (py : Python α) (clock : Nat → α) (imu : ImuState α) (waiting : List UInt8) :
    ImuState α :=
  settle { imu with controllerBuffer := rest '\n' (pendingText imu waiting) }
    (lastReport py (linesTaken clock imu waiting))

theorem poll_ok {py : Python α} {clock : Nat → α} {imu : ImuState α} {waiting : List UInt8}
    (fine : ∀ line ∈ linesTaken clock imu waiting, ¬ Raises py line.1) :
    pollControllerHeading py clock imu waiting = .ok (afterPoll py clock imu waiting) :=
  takeLines_ok fine _

theorem poll_raises {py : Python α} {clock : Nat → α} {imu : ImuState α} {waiting : List UInt8}
    (bad : ∃ line ∈ linesTaken clock imu waiting, Raises py line.1) :
    ∃ error, pollControllerHeading py clock imu waiting = .error error :=
  takeLines_raises bad _

theorem poll_eq {py : Python α} {clock : Nat → α} {imu imu' : ImuState α} {waiting : List UInt8}
    (polled : pollControllerHeading py clock imu waiting = .ok imu') :
    imu' = afterPoll py clock imu waiting ∧
      ∀ line ∈ linesTaken clock imu waiting, ¬ Raises py line.1 := by
  have fine : ∀ line ∈ linesTaken clock imu waiting, ¬ Raises py line.1 := by
    intro line mem raises
    obtain ⟨error, raised⟩ := poll_raises ⟨line, mem, raises⟩
    rw [raised] at polled
    simp at polled
  rw [poll_ok fine] at polled
  exact ⟨(Except.ok.inj polled).symm, fine⟩

/- Successive polls. -/

/-- A read from the port: its bytes, and the clock for its lines. -/
abbrev Read (α : Type) := List UInt8 × (Nat → α)

def pollAll (py : Python α) (imu : ImuState α) (reads : List (Read α)) :
    Except PyError (ImuState α) :=
  reads.foldlM (fun imu read => pollControllerHeading py read.2 imu read.1) imu

def received (imu : ImuState α) (reads : List (Read α)) : List Char :=
  imu.controllerBuffer ++ reads.flatMap fun read => Utf8.decodeIgnoring read.1

omit [Field α] [LinearOrder α] [FloorRing α] in
theorem timed_texts (clock : Nat → α) (lines : List (List Char)) :
    (timed clock lines).map Prod.fst = lines := by
  rw [timed, List.map_map]
  exact List.zipIdx_map_fst 0 lines

omit [Field α] [LinearOrder α] [FloorRing α] in
theorem received_cons (imu : ImuState α) (read : Read α) (reads : List (Read α)) :
    received imu (read :: reads) =
      pendingText imu read.1 ++ reads.flatMap fun read => Utf8.decodeIgnoring read.1 := by
  simp [received, pendingText]

theorem pollAll_cons {py : Python α} {imu : ImuState α} {read : Read α} {reads : List (Read α)}
    (fine : ∀ line ∈ segments '\n' (pendingText imu read.1), ¬ Raises py line) :
    pollAll py imu (read :: reads) = pollAll py (afterPoll py read.2 imu read.1) reads ∧
      '\n' ∉ (afterPoll py read.2 imu read.1).controllerBuffer ∧
      segments '\n' (received imu (read :: reads)) =
        segments '\n' (pendingText imu read.1) ++
          segments '\n' (received (afterPoll py read.2 imu read.1) reads) ∧
      rest '\n' (received imu (read :: reads)) =
        rest '\n' (received (afterPoll py read.2 imu read.1) reads) := by
  have now : ∀ line ∈ linesTaken read.2 imu read.1, ¬ Raises py line.1 := by
    intro line mem
    apply fine
    rw [← timed_texts read.2 (segments '\n' (pendingText imu read.1))]
    exact List.mem_map_of_mem mem
  have after : received (afterPoll py read.2 imu read.1) reads =
      rest '\n' (pendingText imu read.1) ++
        reads.flatMap fun read => Utf8.decodeIgnoring read.1 := by
    simp [received, afterPoll]
  rw [received_cons, segments_append, rest_append, after]
  refine ⟨?_, ?_, rfl, rfl⟩
  · rw [pollAll, List.foldlM_cons, poll_ok now]
    rfl
  · simpa [afterPoll] using rest_free '\n' (pendingText imu read.1)

/-- However the text is cut into reads, the polls take its complete lines in
    order and keep the rest. -/
theorem pollAll_ok {py : Python α} {imu : ImuState α} {reads : List (Read α)}
    (free : reads = [] → '\n' ∉ imu.controllerBuffer)
    (fine : ∀ line ∈ segments '\n' (received imu reads), ¬ Raises py line) :
    ∃ lines, lines.map Prod.fst = segments '\n' (received imu reads) ∧
      pollAll py imu reads = .ok (settle
        { imu with controllerBuffer := rest '\n' (received imu reads) } (lastReport py lines)) := by
  induction reads generalizing imu with
  | nil =>
    have whole := cut_unmarked '\n' imu.controllerBuffer (free rfl)
    exact ⟨[], by simp [received, segments, whole], by simp [received, rest, whole, pollAll,
      lastReport, settle, pure, Except.pure]⟩
  | cons read reads ih =>
    have first : ∀ line ∈ segments '\n' (pendingText imu read.1), ¬ Raises py line := by
      intro line mem
      apply fine
      rw [received_cons, segments_append]
      exact List.mem_append_left _ mem
    obtain ⟨step, settled, texts, kept⟩ := pollAll_cons first
    rw [texts] at fine
    obtain ⟨lines, later, done⟩ :=
      ih (fun _ => settled) (fun line mem => fine line (List.mem_append_right _ mem))
    refine ⟨linesTaken read.2 imu read.1 ++ lines, ?_, ?_⟩
    · rw [texts, List.map_append, later, linesTaken, timed_texts]
    · rw [step, done, kept, lastReport_append, ← settle_settle, afterPoll, settle_rebuffer]

theorem pollAll_raises {py : Python α} {imu : ImuState α} {reads : List (Read α)}
    (free : reads = [] → '\n' ∉ imu.controllerBuffer)
    (bad : ∃ line ∈ segments '\n' (received imu reads), Raises py line) :
    ∃ error, pollAll py imu reads = .error error := by
  induction reads generalizing imu with
  | nil =>
    have whole := cut_unmarked '\n' imu.controllerBuffer (free rfl)
    simp [received, segments, whole] at bad
  | cons read reads ih =>
    by_cases first : ∃ line ∈ segments '\n' (pendingText imu read.1), Raises py line
    · obtain ⟨line, mem, raises⟩ := first
      rw [← timed_texts read.2 (segments '\n' (pendingText imu read.1)), List.mem_map] at mem
      obtain ⟨taken, among, same⟩ := mem
      rw [← same] at raises
      obtain ⟨error, raised⟩ := poll_raises ⟨taken, among, raises⟩
      refine ⟨error, ?_⟩
      rw [pollAll, List.foldlM_cons, raised]
      rfl
    · have fine : ∀ line ∈ segments '\n' (pendingText imu read.1), ¬ Raises py line :=
        fun line mem raises => first ⟨line, mem, raises⟩
      obtain ⟨step, settled, texts, _⟩ := pollAll_cons fine
      obtain ⟨line, mem, raises⟩ := bad
      rw [texts, List.mem_append] at mem
      rw [step]
      rcases mem with now | later
      · exact absurd raises (fine line now)
      · exact ih (fun _ => settled) ⟨line, later, raises⟩

end SoqTracker.Controller
