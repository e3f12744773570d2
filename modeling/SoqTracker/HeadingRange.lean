import SoqTracker.HeardLines

/- The range of tracker_heading_deg. The modulo brings every finite heading into
   [0, 360) and turns the non-finite ones, which float() accepts, into
   not-a-number. -/
namespace SoqTracker.HeadingRange
open ExtendedNumber Decimal Json Controller TrackerLoop HeardLines Runs

variable {α : Type} [Field α] [LinearOrder α]

def LegalHeading (heading : Option (Number α)) : Prop :=
  ∀ x ∈ heading, ∃ h, x = .finite h ∧ 0 ≤ h ∧ h < 360

/- Texts and values that float() turns into something not finite. -/

def ReadsNonFinite : Value α → Prop
  | .float x => ¬ x.IsFinite
  | .str s => ∃ x, pyFloat (s.map Char.ofNat) = some (x : Number α) ∧ ¬ x.IsFinite
  | _ => False

/-- The heading a line spells, in either format, is not finite. -/
def SpellsNonFinite (py : Python α) (line : List Char) : Prop :=
  if (strip line).head? = some '\x7b' then
    ∃ payload, loads py.limits (strip line) = .ok (.obj payload) ∧
      ReadsNonFinite (getField "heading_deg" payload : Value α)
  else ∃ part ∈ ((parts (strip line)).filter (startsWith "H:")).getLast?, ∃ x,
    pyFloat (afterColon part) = some (x : Number α) ∧ ¬ x.IsFinite

theorem toFloat_finite_iff {value : Value α} {x : Number α} (converted : toFloat value = .ok x) :
    ReadsNonFinite value ↔ ¬ x.IsFinite := by
  cases value with
  | null => simp [toFloat] at converted
  | bool value =>
    rw [← Except.ok.inj converted]
    simp [ReadsNonFinite, Number.IsFinite]
  | int value =>
    simp only [toFloat] at converted
    split at converted
    · simp at converted
    · rw [← Except.ok.inj converted]
      simp [ReadsNonFinite, Number.IsFinite]
  | float value =>
    rw [← Except.ok.inj converted]
    rfl
  | str value =>
    simp only [toFloat] at converted
    cases read : (pyFloat (value.map Char.ofNat) : Option (Number α)) with
    | none => simp [read] at converted
    | some y =>
      rw [read] at converted
      rw [← Except.ok.inj converted]
      simp [ReadsNonFinite, read]
  | arr items => simp [toFloat] at converted
  | obj members => simp [toFloat] at converted

theorem report_finite_iff {py : Python α} {line : List Char} {parsed : Parsed α}
    (reported : report py line = some parsed) :
    SpellsNonFinite py line ↔ ¬ parsed.headingDeg.IsFinite := by
  unfold SpellsNonFinite
  rcases report_cases reported with ⟨brace, whole⟩ | ⟨brace, fields⟩
  · simp only [brace, if_true]
    obtain ⟨payload, read, converted, _⟩ := parseJsonLine_spec whole
    rw [← toFloat_finite_iff converted]
    constructor
    · rintro ⟨payload', read', spells⟩
      rw [read, Except.ok.injEq, Value.obj.injEq] at read'
      rw [read']
      exact spells
    · intro spells
      exact ⟨payload, read, spells⟩
  · simp only [brace, if_false]
    obtain ⟨part, last, read⟩ := Option.bind_eq_some_iff.mp (parseFieldLine_spec fields).1
    constructor
    · rintro ⟨part', last', x, read', spells⟩
      rw [Option.mem_def, last, Option.some.injEq] at last'
      rw [← last', read, Option.some.injEq] at read'
      rw [read']
      exact spells
    · intro spells
      exact ⟨part, last, parsed.headingDeg, read, spells⟩

def lastHeading (py : Python α) (lines : List (List Char × α)) : Option (List Char × α) :=
  (lines.filter fun line => (report py line.1).isSome).getLast?

theorem lastHeading_report (py : Python α) (lines : List (List Char × α)) :
    lastReport py lines =
      (lastHeading py lines).bind fun line => (report py line.1).map fun parsed => (parsed, line.2) := by
  induction lines using List.reverseRecOn with
  | nil => rfl
  | append_singleton lines line ih =>
    rw [lastReport_append, lastHeading, List.filter_append]
    cases found : report py line.1 with
    | none =>
      have silent : lastReport py [line] = none := by simp [lastReport, found]
      have dropped : [line].filter (fun line => (report py line.1).isSome) = [] := by
        simp [found]
      rw [silent, dropped, List.append_nil, Option.none_or, ih, lastHeading]
    | some parsed => simp [lastReport, found]

theorem lastHeading_reported {py : Python α} {lines : List (List Char × α)}
    {line : List Char × α} (last : line ∈ lastHeading py lines) :
    ∃ parsed, report py line.1 = some parsed := by
  have mem := List.mem_of_getLast? last
  have parses : (report py line.1).isSome := by simpa using (List.mem_filter.mp mem).2
  exact Option.isSome_iff_exists.mp parses

variable [FloorRing α] [IsStrictOrderedRing α]

theorem modulo_legal_iff (x : Number α) : LegalHeading (some (x.modulo 360)) ↔ x.IsFinite := by
  rw [← Number.modulo_finite_iff 360 x]
  constructor
  · intro legal
    obtain ⟨h, same, _⟩ := legal _ rfl
    rw [same]
    trivial
  · intro finite y same
    rw [← Option.some.inj same]
    cases x with
    | finite v =>
      obtain ⟨low, high⟩ := Number.modulo_range (m := 360) (x := v) (by norm_num)
      exact ⟨_, rfl, low, high⟩
    | posInf => exact absurd finite (by simp [Number.modulo, Number.IsFinite])
    | negInf => exact absurd finite (by simp [Number.modulo, Number.IsFinite])
    | nan => exact absurd finite (by simp [Number.modulo, Number.IsFinite])

theorem headingState_legal_iff (py : Python α) (buffer : List Char)
    (lines : List (List Char × α)) :
    LegalHeading (headingState py buffer lines).trackerHeadingDeg ↔
      ∀ line ∈ lastHeading py lines, ¬ SpellsNonFinite py line.1 := by
  rw [headingState, lastHeading_report]
  cases last : lastHeading py lines with
  | none => simp [settle, initial, LegalHeading]
  | some line =>
    obtain ⟨parsed, reported⟩ := lastHeading_reported last
    simp only [Option.bind_some, reported, Option.map_some, settle, heard, Option.mem_def,
      Option.some.injEq, forall_eq']
    rw [modulo_legal_iff, report_finite_iff reported, not_not]

/-- At the top of the loop and after every poll, the heading is legal exactly
    when the last heading line did not spell a non-finite number; packets carry
    the heading of their own pass's poll. -/
theorem heading_legal_iff {py : Python α} {dsp : Dsp α} {history : List (Block α)}
    {tracker : Tracker α} (run : Run (next py dsp) initial history tracker) :
    (LegalHeading tracker.imu.trackerHeadingDeg ↔
      ∀ line ∈ lastHeading py (lineLog history), ¬ SpellsNonFinite py line.1) ∧
    ∀ (pass : Pass α) (imu : ImuState α),
      pollControllerHeading py pass.lineTime tracker.imu pass.serial = .ok imu →
      (LegalHeading imu.trackerHeadingDeg ↔
        ∀ line ∈ lastHeading py (lineLog history ++ passLines tracker pass),
          ¬ SpellsNonFinite py line.1) ∧
      ∀ packet ∈ sent (mainLoop py dsp tracker pass).events,
        packet.1.trackerHeadingDeg = imu.trackerHeadingDeg := by
  constructor
  · rw [imu_run run]
    exact headingState_legal_iff py _ _
  · intro pass imu polled
    constructor
    · rw [imu_step (imu_run run) polled]
      exact headingState_legal_iff py _ _
    · intro packet sends
      exact (packet_heading polled sends).1

def nanLine : List UInt8 := Utf8.encode "H:nan,IMU:1,CAL:3\n".toList
def negativeLine : List UInt8 := Utf8.encode "H:-45.5\n".toList

/-- The heading nan is taken over as it is. -/
theorem nan_heading_kept :
    ∃ (history : List (Block ℚ)) (tracker : Tracker ℚ),
      Run (next benchPython benchDsp) initial history tracker ∧
        ¬ LegalHeading tracker.imu.trackerHeadingDeg := by
  have run := bench_start.go (benchPass quietRaw nanLine 10) (by decide +kernel)
  refine ⟨_, _, run, ?_⟩
  intro legal
  obtain ⟨h, same, _⟩ := legal .nan (by decide +kernel)
  simp at same

theorem negative_heading_legal :
    ∃ tracker : Tracker ℚ, tracker.imu.trackerHeadingDeg = some (.finite (629 / 2)) ∧
      LegalHeading tracker.imu.trackerHeadingDeg := by
  have run := bench_start.go (benchPass quietRaw negativeLine 10) (by decide +kernel)
  refine ⟨_, by decide +kernel, (heading_legal_iff run).1.mpr ?_⟩
  intro line last spells
  obtain ⟨parsed, reported⟩ := lastHeading_reported last
  have finite : ∀ line ∈ lastHeading benchPython
      (lineLog [] ++ passLines initial (benchPass quietRaw negativeLine 10)),
      ∀ parsed ∈ report benchPython line.1, parsed.headingDeg.IsFinite := by decide +kernel
  rw [lineLog_cons] at last
  exact (report_finite_iff reported).mp spells (finite line last parsed reported)

end SoqTracker.HeadingRange
