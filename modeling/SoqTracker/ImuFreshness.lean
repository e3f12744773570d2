import SoqTracker.HeardLines

/- What imu_valid in a packet says about the controller lines before it. A line
   that declares the IMU not valid counts only if it parses as a heading too. -/
namespace SoqTracker.ImuFreshness
open ExtendedNumber Decimal Json Controller TrackerLoop HeardLines Runs

variable {α : Type} [Field α] [LinearOrder α]

/- The IMU field of a line, whatever else the line holds. -/

def imuParts (text : List Char) : List (List Char) := (parts text).filter (startsWith "IMU:")

def imuField (py : Python α) (line : List Char) : Option Bool :=
  let text := strip line
  if text.head? = some '\x7b' then
    match loads (α := α) py.limits text with
    | .ok (.obj payload) =>
        match getField "imu_valid" payload with
        | .null => none
        | imuValid => some (truthy imuValid)
    | _ => none
  else (imuParts text).getLast?.map readImuFlag

/-- It declares the IMU not valid but has no heading, so parsing returns None. -/
def HeadlessInvalid (py : Python α) (line : List Char) : Prop :=
  (report py line).isNone ∧ imuField py line = some false

instance (py : Python α) (line : List Char) : Decidable (HeadlessInvalid py line) := by
  unfold HeadlessInvalid; infer_instance

theorem report_flag {py : Python α} {line : List Char} {parsed : Parsed α}
    (reported : report py line = some parsed) :
    parsed.imuValid = (imuField py line).getD true := by
  unfold imuField
  rcases report_cases reported with ⟨brace, whole⟩ | ⟨brace, fields⟩
  · obtain ⟨payload, read, _, flag, _⟩ := parseJsonLine_spec whole
    simp only [brace, if_true, read, flag]
    cases getField "imu_valid" payload <;> rfl
  · simp only [brace, if_false]
    exact (parseFieldLine_spec fields).2

/- Packets. -/

/-- The valid flag of a packet stands for the last heading line: it declared the
    IMU valid or gave no IMU field, is recent, and no line after it declared the
    IMU not valid. -/
structure FreshHeading (py : Python α) (lines : List (List Char × α)) (packet : Packet α)
    (earlier : List (List Char × α)) (line : List Char) (time : α)
    (later : List (List Char × α)) (parsed : Parsed α) [FloorRing α] : Prop where
  split : lines = earlier ++ (line, time) :: later
  reported : report py line = some parsed
  latest : ∀ l ∈ later, report py l.1 = none
  heading : packet.trackerHeadingDeg = some (parsed.headingDeg.modulo 360)
  declared : imuField py line ≠ some false
  recent : packet.timestamp - time ≤ imuStaleSeconds
  unrevoked : ∀ l ∈ later, imuField py l.1 ≠ some false

theorem sinceHeading_eq {py : Python α} {earlier later : List (List Char × α)} {line : List Char}
    {time : α} {parsed : Parsed α} (reported : report py line = some parsed)
    (latest : ∀ l ∈ later, report py l.1 = none) :
    sinceHeading py (earlier ++ (line, time) :: later) = later := by
  induction later using List.reverseRecOn with
  | nil => simp [sinceHeading, List.rtakeWhile_concat_neg, reported]
  | append_singleton later last ih =>
    have silent := latest last (by simp)
    have before := ih fun l mem => latest l (by simp [mem])
    rw [sinceHeading] at before ⊢
    rw [← List.cons_append, ← List.append_assoc, List.rtakeWhile_concat_pos _ _ _ (by simp [silent]),
      before]

variable [FloorRing α]

theorem fresh_unrevoked {py : Python α} {lines earlier later : List (List Char × α)}
    {packet : Packet α} {line : List Char} {time : α} {parsed : Parsed α}
    (fresh : FreshHeading py lines packet earlier line time later parsed) :
    ∀ l ∈ sinceHeading py lines, ¬ HeadlessInvalid py l.1 := by
  rintro l mem ⟨_, invalid⟩
  rw [fresh.split, sinceHeading_eq fresh.reported fresh.latest] at mem
  exact fresh.unrevoked l mem invalid

/-- A valid packet is fresh in this sense exactly when no headless line that
    declared the IMU not valid came after the last heading line. -/
theorem fresh_iff_unrevoked {py : Python α} {dsp : Dsp α} {history : List (Block α)}
    {tracker : Tracker α} (run : Run (next py dsp) initial history tracker) {pass : Pass α}
    {packet : Packet α × List UInt8} (sends : packet ∈ sent (mainLoop py dsp tracker pass).events)
    (valid : packet.1.imuValid = true) :
    (∃ earlier line time later parsed,
      FreshHeading py (lineLog history ++ passLines tracker pass) packet.1 earlier line time later
        parsed) ↔
      ∀ l ∈ sinceHeading py (lineLog history ++ passLines tracker pass), ¬ HeadlessInvalid py l.1 := by
  constructor
  · rintro ⟨earlier, line, time, later, parsed, fresh⟩
    exact fresh_unrevoked fresh
  · intro unrevoked
    obtain ⟨tracker', moved⟩ := sent_completes sends
    obtain ⟨imu, _, _, _, polled, _, _, _⟩ := next_moved moved
    obtain ⟨heading, flag, timestamp⟩ := packet_heading polled sends
    have state := imu_step (imu_run run) polled
    have fresh := flag.symm.trans valid
    simp only [imuIsFresh, Bool.and_eq_true, decide_eq_true_eq] at fresh
    generalize lineLog history ++ passLines tracker pass = lines at state unrevoked ⊢
    cases last : lastReport py lines with
    | none =>
      rw [headingState, last] at state
      rw [state] at fresh
      simp [settle, initial] at fresh
    | some found =>
      obtain ⟨parsed, time⟩ := found
      obtain ⟨earlier, line, split, reported⟩ := lastReport_split last
      rw [headingState, last] at state
      rw [state] at fresh heading
      refine ⟨earlier, line, time, _, parsed, split, reported,
        fun l mem => sinceHeading_silent mem, heading, ?_, ?_, ?_⟩
      · intro invalid
        have declared := report_flag reported
        rw [invalid] at declared
        simp [settle, heard, declared] at fresh
      · rw [timestamp]
        exact fresh.2
      · intro l mem invalid
        exact unrevoked l mem ⟨by rw [sinceHeading_silent mem]; rfl, invalid⟩

def headingLine : List UInt8 := Utf8.encode "H:10.0,IMU:1,CAL:3\r\n".toList
def downLine : List UInt8 := Utf8.encode "IMU:0\r\n".toList

/-- The firmware's IMU:0 after a heading leaves imu_valid true. -/
theorem down_report_ignored :
    ∃ (history : List (Block ℚ)) (tracker : Tracker ℚ) (packet : Packet ℚ × List UInt8),
      Run (next benchPython benchDsp) initial history tracker ∧
      packet ∈ sent (mainLoop benchPython benchDsp tracker
        (benchPass quietRaw downLine (51 / 5))).events ∧ packet.1.imuValid = true ∧
      ¬ ∃ earlier line time later parsed, FreshHeading benchPython
        (lineLog history ++ passLines tracker (benchPass quietRaw downLine (51 / 5)))
        packet.1 earlier line time later parsed := by
  have run := bench_start.go (benchPass quietRaw headingLine 10) (by decide +kernel)
  obtain ⟨packet, sends, valid⟩ : ∃ packet ∈ sent (mainLoop benchPython benchDsp
      ((next benchPython benchDsp initial (benchPass quietRaw headingLine 10)).get
        (by decide +kernel)) (benchPass quietRaw downLine (51 / 5))).events,
      packet.1.imuValid = true := by decide +kernel
  refine ⟨_, _, packet, run, sends, valid, ?_⟩
  rintro ⟨earlier, line, time, later, parsed, fresh⟩
  exact absurd (fresh_unrevoked fresh) (by decide +kernel)

theorem heading_alone_is_fresh :
    ∃ (packet : Packet ℚ × List UInt8) (earlier : List (List Char × ℚ)) (line : List Char)
      (time : ℚ) (later : List (List Char × ℚ)) (parsed : Parsed ℚ),
      packet.1.imuValid = true ∧ FreshHeading benchPython
        (lineLog [] ++ passLines initial (benchPass quietRaw headingLine 10))
        packet.1 earlier line time later parsed := by
  obtain ⟨packet, sends, valid⟩ : ∃ packet ∈ sent (mainLoop benchPython benchDsp initial
      (benchPass quietRaw headingLine 10)).events, packet.1.imuValid = true := by decide +kernel
  obtain ⟨earlier, line, time, later, parsed, fresh⟩ :=
    (fresh_iff_unrevoked bench_start sends valid).mpr (by decide +kernel)
  exact ⟨packet, earlier, line, time, later, parsed, valid, fresh⟩

end SoqTracker.ImuFreshness
