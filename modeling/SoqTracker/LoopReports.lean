import SoqTracker.ClosedLoop
import SoqTracker.HeadingReports
import SoqTracker.InputTotality

/- The controller's reports in the closed loop. What the tracker hears is a part
   of a stream of reports, so that no line harms it, and its heading is that of
   the last report it heard whole. -/
namespace SoqTracker.LoopReports
open ExtendedNumber Decimal Json Controller TrackerLoop Runs Delimited Components ClosedLoop
open HeadingReports InputTotality SerialReader

variable {α Memory : Type} [Field α] [LinearOrder α] [FloorRing α]

/- One report. -/

theorem digitChar_digit {d : Nat} (small : d < 10) : (Nat.digitChar d).isDigit := by
  rw [Nat.isDigit_digitChar]
  exact decide_eq_true small

theorem floor_natAbs {y : α} (positive : 0 ≤ y) [IsStrictOrderedRing α] :
    ((⌊y⌋.natAbs : Nat) : α) = ⌊y⌋ := by
  rw [Nat.cast_natAbs, abs_of_nonneg (Int.floor_nonneg.mpr positive)]

section Report

def wholeDegrees (sensing : Sensing α) : Nat := ⌊sensing.degrees + 1 / 20⌋.natAbs

def tenthDegrees (sensing : Sensing α) : Nat :=
  ⌊(sensing.degrees + 1 / 20 - ⌊sensing.degrees + 1 / 20⌋) * 10⌋.natAbs

variable [IsStrictOrderedRing α]

theorem digits_bound (sensing : Sensing α) :
    tenthDegrees sensing < 10 ∧ 10 * wholeDegrees sensing + tenthDegrees sensing ≤ 3600 := by
  have low := sensing.low
  have high := sensing.high
  exact tenths_bound (by linarith) (by linarith)

omit [IsStrictOrderedRing α] in
theorem digits_value {whole tenth : Nat} (digit : tenth < 10) :
    Nat.ofDigitChars 10 (natText whole ++ [Nat.digitChar tenth]) 0 = 10 * whole + tenth := by
  rw [Nat.ofDigitChars_append, natText_value, Nat.ofDigitChars_cons_digitChar_of_lt_ten digit,
    Nat.ofDigitChars_nil]

def liveReport (sensing : Sensing α) : LiveReport where
  whole := natText (wholeDegrees sensing)
  tenth := Nat.digitChar (tenthDegrees sensing)
  calibration := natText sensing.turn.sysCal.toNat
  whole_digits := natText_digits _
  whole_filled := natText_filled _
  tenth_digit := digitChar_digit (digits_bound sensing).1
  calibration_digits := natText_digits _
  calibration_filled := natText_filled _
  bounded := by
    rw [digits_value (digits_bound sensing).1]
    exact (digits_bound sensing).2

def reportOf (imuReady : Bool) (sensing : Sensing α) : Report :=
  if imuReady then .live (liveReport sensing) else .down

theorem reportText_line (imuReady : Bool) (sensing : Sensing α) :
    Firmware.reportText imuReady sensing.turn = (reportOf imuReady sensing).line ++ ['\n'] := by
  cases imuReady with
  | false => rfl
  | true =>
    have small : ¬ 4294967040 < sensing.degrees := by linarith [sensing.high]
    have one : natText (tenthDegrees sensing) = [Nat.digitChar (tenthDegrees sensing)] :=
      Nat.toDigits_of_lt_base (digits_bound sensing).1
    have printed : Firmware.printTenths (.finite sensing.degrees) =
        natText (wholeDegrees sensing) ++ '.' :: [Nat.digitChar (tenthDegrees sensing)] := by
      rw [← one]
      simp only [Firmware.printTenths, abs_of_nonneg sensing.low, small, not_lt.mpr sensing.low,
        if_false]
      rfl
    rw [Firmware.reportText, if_pos rfl, sensing.reads, printed, reportOf, if_pos rfl]
    simp [Report.line, Report.text, LiveReport.headingPart, LiveReport.calibrationPart, liveReport]

theorem report_accurate (sensing : Sensing α) :
    |((liveReport sensing).degrees : α) - sensing.degrees| ≤ 1 / 20 := by
  have low := sensing.low
  have value : (liveReport sensing).tenths = 10 * wholeDegrees sensing + tenthDegrees sensing :=
    digits_value (digits_bound sensing).1
  have below := Int.floor_le (sensing.degrees + 1 / 20)
  have whole : ((wholeDegrees sensing : Nat) : α) = ⌊sensing.degrees + 1 / 20⌋ :=
    floor_natAbs (by linarith)
  have tenth : ((tenthDegrees sensing : Nat) : α) =
      ⌊(sensing.degrees + 1 / 20 - ⌊sensing.degrees + 1 / 20⌋) * 10⌋ :=
    floor_natAbs (by linarith)
  have down := Int.floor_le ((sensing.degrees + 1 / 20 - ⌊sensing.degrees + 1 / 20⌋) * 10)
  have up := Int.lt_floor_add_one ((sensing.degrees + 1 / 20 - ⌊sensing.degrees + 1 / 20⌋) * 10)
  rw [LiveReport.degrees, value]
  push_cast
  rw [whole, tenth, abs_le]
  constructor
  · linarith
  · linarith

end Report

/- The stream of reports. -/

omit [FloorRing α] in
theorem servo_ready (pid : Firmware.Pid α Memory) (s : Firmware.State α Memory)
    (turn : Firmware.Turn α) : (Firmware.afterServo pid s turn).imuReady = s.imuReady := by
  obtain ⟨_, _, _, _, ready⟩ := reads_frame s turn.waiting
  unfold Firmware.afterServo Firmware.updateServo
  split
  · exact ready
  · exact ready

theorem report_cases (s : Firmware.State α Memory) (turn : Firmware.Turn α) :
    (Firmware.reportImuHeading s turn).1.imuReady = s.imuReady ∧
      ((Firmware.reportImuHeading s turn).2 = [] ∨
        (Firmware.reportImuHeading s turn).2 = Firmware.reportText s.imuReady turn) := by
  unfold Firmware.reportImuHeading
  split
  · exact ⟨rfl, .inl rfl⟩
  · split
    · exact ⟨rfl, .inl rfl⟩
    · exact ⟨rfl, .inr rfl⟩

theorem turn_report (pid : Firmware.Pid α Memory) (s : Firmware.State α Memory)
    (turn : Firmware.Turn α) :
    (Firmware.loop pid s turn).1.imuReady = s.imuReady ∧
      ((Firmware.loop pid s turn).2.report = [] ∨
        (Firmware.loop pid s turn).2.report = Firmware.reportText s.imuReady turn) := by
  rw [← servo_ready pid s turn]
  exact report_cases (Firmware.afterServo pid s turn) turn

section Stream
variable [IsStrictOrderedRing α] (p : Programs α Memory)

def reported (t : Moment α Memory) : List Report :=
  match t.input with
  | .turn sensing =>
      if (Firmware.loop p.pid t.before.controller sensing.turn).2.report = [] then []
      else [reportOf t.before.controller.imuReady sensing]
  | _ => []

theorem stream_append (first second : List Report) :
    stream (first ++ second) = stream first ++ stream second := by
  simp [stream, joined]

theorem printed_reported (t : Moment α Memory) :
    printedAt p t = Utf8.encode (stream (reported p t)) := by
  obtain ⟨before, action, after⟩ := t
  cases action with
  | turn sensing =>
    unfold reported printedAt given printed
    dsimp only [turn?]
    split
    · rename_i silent
      rw [silent]
      rfl
    · rename_i prints
      rcases (turn_report p.pid before.controller sensing.turn).2 with silent | report
      · exact absurd silent prints
      · rw [report, reportText_line]
        simp [stream, joined]
  | pass pass => rfl
  | tick t => rfl
  | lose place => rfl

theorem prints_stream (history : List (Moment α Memory)) :
    reportsPrinted p (turns history) = Utf8.encode (stream (along (reported p) history)) := by
  rw [reportsPrinted, turns, ← along_given]
  induction history with
  | nil => rfl
  | cons t older ih =>
    rw [along_cons, along_cons, ih, stream_append, Utf8.encode_append]
    exact congrArg _ (printed_reported p t)

end Stream

/- What the tracker hears. -/

def reads (blocks : List (Block α)) : List (Read α) :=
  along (fun b => [(b.input.serial, b.input.lineTime)]) blocks

omit [Field α] [LinearOrder α] [FloorRing α] in
theorem reads_bytes (blocks : List (Block α)) :
    (reads blocks).flatMap Prod.fst = bytesHeard blocks := by
  simp [reads, bytesHeard, along, List.flatMap_assoc]

theorem pollAll_last {py : Python α} {imu imu' : ImuState α} {earlier : List (Read α)}
    (done : pollAll py imu earlier = .ok imu') (read : Read α) :
    pollAll py imu (earlier ++ [read]) = pollControllerHeading py read.2 imu' read.1 := by
  have first : earlier.foldlM (fun imu read => pollControllerHeading py read.2 imu read.1) imu =
      .ok imu' := done
  rw [pollAll, List.foldlM_append, first]
  exact bind_pure (m := Except PyError) _

theorem polls_run {py : Python α} {dsp : Dsp α} {blocks : List (Block α)} {tracker : Tracker α}
    (run : Run (next py dsp) initial blocks tracker) :
    pollAll py (initial : Tracker α).imu (reads blocks) = .ok tracker.imu := by
  induction run with
  | start => rfl
  | step earlier moved ih =>
    obtain ⟨imu, _, _, _, polled, _, _, move⟩ := next_moved moved
    rw [HeardLines.moved_imu move, reads, along_cons, ← reads, pollAll_last ih]
    exact polled

theorem part_of_stream {Symbol : Type} {stream part later : List Symbol} {start : Nat}
    (heard : stream.drop start = part ++ later) :
    part = (stream.take (start + part.length)).drop start := by
  rw [List.drop_take, Nat.add_sub_cancel_left, heard, List.take_left]

section Hearing
variable [IsStrictOrderedRing α] {p : Programs α Memory} {imuReady : Bool} {unheard : Nat}
  {now : α} {history : List (Moment α Memory)} {s : System α Memory}

/-- The last heading among the reports that lie whole within the first bytes heard. -/
def newestHeard (p : Programs α Memory) (unheard : Nat) (history : List (Moment α Memory))
    (bytes : List UInt8) : Option (Parsed α) :=
  ((wholeReports unheard (unheard + bytes.length) (along (reported p) history)).filterMap
    (Report.parsed p.py)).getLast?

theorem polls_settle (run : Run (step p) (begin p imuReady unheard now) history s)
    {rds : List (Read α)}
    (arrived : rds.flatMap Prod.fst <+: bytesHeard (blocks history) ++ s.toTracker) :
    ∃ buffer heading, pollAll p.py (initial : Tracker α).imu rds =
        .ok (settle { (initial : Tracker α).imu with controllerBuffer := buffer } heading) ∧
      heading.map Prod.fst = newestHeard p unheard history (rds.flatMap Prod.fst) := by
  obtain ⟨later, queue⟩ := arrived
  have kept := reports_kept run
  rw [prints_stream, ← queue] at kept
  have cut : rds.flatMap Prod.fst =
      delivered unheard (unheard + (rds.flatMap Prod.fst).length) (along (reported p) history) :=
    part_of_stream kept
  obtain ⟨heading, polled, last⟩ := polls_hear p.py _ _ _ (initial : Tracker α).imu rfl rds cut
  exact ⟨_, heading, polled, last⟩

theorem blocks_hear (run : Run (step p) (begin p imuReady unheard now) history s) {b : Block α}
    {older : List (Block α)} (placed : b :: older <:+ blocks history) :
    ∃ buffer heading, b.after.imu =
        settle { (initial : Tracker α).imu with controllerBuffer := buffer } heading ∧
      heading.map Prod.fst = newestHeard p unheard history (bytesHeard (b :: older)) := by
  obtain ⟨before, moved⟩ := run_placed (blocks_run run) placed
  have part : (reads (b :: older)).flatMap Prod.fst <+:
      bytesHeard (blocks history) ++ s.toTracker := by
    rw [reads_bytes]
    exact (along_suffix _ placed).trans (List.prefix_append _ _)
  obtain ⟨buffer, heading, polled, last⟩ := polls_settle run part
  rw [polls_run (before.step moved)] at polled
  rw [reads_bytes] at last
  exact ⟨buffer, heading, Except.ok.inj polled, last⟩

theorem pass_hears (run : Run (step p) (begin p imuReady unheard now) history s)
    {waiting : List UInt8} (arrived : waiting <+: s.toTracker) (clock : Nat → α) :
    ∃ buffer heading, pollControllerHeading p.py clock s.tracker.imu waiting =
        .ok (settle { (initial : Tracker α).imu with controllerBuffer := buffer } heading) ∧
      heading.map Prod.fst =
        newestHeard p unheard history (bytesHeard (blocks history) ++ waiting) := by
  have bytes : (reads (blocks history) ++ [(waiting, clock)]).flatMap Prod.fst =
      bytesHeard (blocks history) ++ waiting := by
    rw [List.flatMap_append, reads_bytes, List.flatMap_singleton]
  have part : (reads (blocks history) ++ [(waiting, clock)]).flatMap Prod.fst <+:
      bytesHeard (blocks history) ++ s.toTracker := by
    rw [bytes]
    exact (List.prefix_append_right_inj _).mpr arrived
  obtain ⟨buffer, heading, polled, last⟩ := polls_settle run part
  rw [pollAll_last (polls_run (blocks_run run))] at polled
  rw [bytes] at last
  exact ⟨buffer, heading, polled, last⟩

/- Which reports there are. -/

omit [Field α] [LinearOrder α] [FloorRing α] [IsStrictOrderedRing α] in
theorem whole_member {r : Report} {start stop : Nat} {reports : List Report}
    (whole : r ∈ wholeReports start stop reports) : r ∈ reports := by
  induction reports generalizing start stop with
  | nil => simp [wholeReports] at whole
  | cons first later ih =>
    unfold wholeReports at whole
    split at whole
    · rcases List.mem_cons.mp whole with here | there
      · exact List.mem_cons.mpr (.inl here)
      · exact List.mem_cons.mpr (.inr (ih there))
    · exact List.mem_cons.mpr (.inr (ih whole))

def Sensed (p : Programs α Memory) (history : List (Moment α Memory)) (sensing : Sensing α) : Prop :=
  ∃ t ∈ history, t.input = .turn sensing ∧ t.before.controller.imuReady = true ∧
    (Firmware.loop p.pid t.before.controller sensing.turn).2.report ≠ []

theorem reported_live {t : Moment α Memory} {r : LiveReport} (prints : .live r ∈ reported p t) :
    ∃ sensing, t.input = .turn sensing ∧ t.before.controller.imuReady = true ∧
      (Firmware.loop p.pid t.before.controller sensing.turn).2.report ≠ [] ∧
      r = liveReport sensing := by
  obtain ⟨before, action, after⟩ := t
  cases action with
  | turn sensing =>
    unfold reported at prints
    dsimp only at prints
    split at prints
    · simp at prints
    · rename_i told
      have same := List.mem_singleton.mp prints
      cases ready : before.controller.imuReady with
      | false => simp [reportOf, ready] at same
      | true =>
        rw [ready] at same
        exact ⟨sensing, rfl, rfl, told, Report.live.inj same⟩
  | pass pass => simp [reported] at prints
  | tick t => simp [reported] at prints
  | lose place => simp [reported] at prints

theorem status_short (sensing : Sensing α) : (liveReport sensing).calibration.length ≤ 3 := by
  have small := sensing.turn.sysCal.toNat_lt
  exact (Nat.length_toDigits_le_iff (by decide) (by decide)).mpr (by omega)

theorem heard_sensed {bytes : List UInt8} {parsed : Parsed α}
    (heard : newestHeard p unheard history bytes = some parsed) :
    ∃ sensing, Sensed p history sensing ∧ parsed =
      ⟨.finite (liveReport sensing).degrees, true, .int (liveReport sensing).sysCal⟩ := by
  obtain ⟨r, whole, spelled⟩ := List.mem_filterMap.mp (List.mem_of_getLast? heard)
  obtain ⟨t, mem, prints⟩ := List.mem_flatMap.mp (whole_member whole)
  cases r with
  | down => simp [Report.parsed] at spelled
  | live r =>
    obtain ⟨sensing, turned, ready, told, rfl⟩ := reported_live prints
    refine ⟨sensing, ⟨t, List.mem_reverse.mp mem, turned, ready, told⟩, ?_⟩
    have status := calibrationRead_short p.py (liveReport sensing)
      ((status_short sensing).trans (by decide))
    rw [← status]
    exact (Option.some.inj spelled).symm

end Hearing

/- Packets are short. -/

section Short
variable {repr : α → List Char}

omit [Field α] [LinearOrder α] [FloorRing α] in
theorem members_short {most : Nat} {members : List (Text × Value α)}
    (short : ∀ member ∈ members,
      (stringText member.1).length + (text repr member.2).length ≤ most) :
    (laterMembersText repr members).length ≤ members.length * (most + 4) := by
  induction members with
  | nil => simp [laterMembersText]
  | cons member later ih =>
    have here := short member (by simp)
    have rest := ih fun other mem => short other (by simp [mem])
    simp only [laterMembersText, List.length_cons, List.length_append, Nat.add_mul, Nat.one_mul]
    omega

omit [Field α] [LinearOrder α] [FloorRing α] in
theorem members_text (members : List (Text × Value α)) :
    (membersText repr members).length ≤ (laterMembersText repr members).length := by
  cases members with
  | nil => exact le_rfl
  | cons member later =>
    simp only [membersText, laterMembersText, List.length_cons]
    omega

theorem encode_length (text : List Char) : (Utf8.encode text).length ≤ 4 * text.length := by
  induction text with
  | nil => simp
  | cons c text ih =>
    have one : (String.utf8EncodeChar c).length ≤ 4 := by
      rw [String.length_utf8EncodeChar]
      exact Char.utf8Size_le_four c
    have split : Utf8.encode (c :: text) = String.utf8EncodeChar c ++ Utf8.encode text := rfl
    rw [split, List.length_append, List.length_cons]
    omega

omit [Field α] [LinearOrder α] [FloorRing α] in
theorem number_short (short : ∀ x, (repr x).length ≤ 24) (x : Number α) :
    (numberText repr x).length ≤ 24 := by
  cases x with
  | finite x => exact short x
  | nan => exact (by decide : 3 ≤ 24)
  | posInf => exact (by decide : 8 ≤ 24)
  | negInf => exact (by decide : 9 ≤ 24)

omit [Field α] [LinearOrder α] [FloorRing α] in
theorem packet_short (short : ∀ x, (repr x).length ≤ 24) {packet : Packet α}
    (status : (text repr packet.imuCalibration).length ≤ 24) :
    (text repr packet.toJson).length ≤ 443 := by
  have optional : ∀ x : Option (Number α), (text repr (optionalFloat x)).length ≤ 24 := by
    intro x
    cases x with
    | none => exact (by decide : 4 ≤ 24)
    | some x => exact number_short short x
  have flag : ∀ value : Bool, (text repr (.bool value : Value α)).length ≤ 24 := by
    intro value
    cases value with
    | false => exact (by decide : 5 ≤ 24)
    | true => exact (by decide : 4 ≤ 24)
  have state : (text repr (.str (key packet.state.name) : Value α)).length ≤ 24 := by
    cases packet.state with
    | idle => exact (by decide : 6 ≤ 24)
    | tracking => exact (by decide : 10 ≤ 24)
    | locked => exact (by decide : 8 ≤ 24)
  have names : ∀ member ∈ packet.fields, (stringText member.1).length ≤ 21 := by
    simp only [Packet.fields, List.mem_cons, List.not_mem_nil, or_false, forall_eq_or_imp, forall_eq]
    decide
  have values : ∀ member ∈ packet.fields, (text repr member.2).length ≤ 24 := by
    simp only [Packet.fields, List.mem_cons, List.not_mem_nil, or_false, forall_eq_or_imp, forall_eq]
    exact ⟨short _, short _, flag _, optional _, short _, optional _, flag _, status, state⟩
  have each : ∀ member ∈ packet.fields,
      (stringText member.1).length + (text repr member.2).length ≤ 45 :=
    fun member mem => Nat.add_le_add (names member mem) (values member mem)
  have all := (members_text packet.fields).trans (members_short each)
  have count : packet.fields.length = 9 := rfl
  rw [count] at all
  simp only [Packet.toJson, text, List.length_cons, List.length_append, List.length_nil]
  omega

end Short

/- The tracker goes on. -/

section Going
variable [IsStrictOrderedRing α] {p : Programs α Memory} {imuReady : Bool} {unheard : Nat}
  {now : α} {history : List (Moment α Memory)} {s : System α Memory}

def Plain (value : Value α) : Prop := value = .null ∨ ∃ n : Nat, n ≤ 255 ∧ value = .int n

theorem sysCal_small (sensing : Sensing α) : (liveReport sensing).sysCal ≤ 255 := by
  have value : (liveReport sensing).sysCal = sensing.turn.sysCal.toNat := natText_value _
  have small := sensing.turn.sysCal.toNat_lt
  omega

theorem settle_plain {buffer : List Char} {heading : Option (Parsed α × α)} {bytes : List UInt8}
    (heard : heading.map Prod.fst = newestHeard p unheard history bytes) :
    Plain (settle { (initial : Tracker α).imu with controllerBuffer := buffer }
      heading).imuCalibration := by
  cases heading with
  | none => exact .inl rfl
  | some heading =>
    obtain ⟨sensing, _, same⟩ := heard_sensed heard.symm
    refine .inr ⟨(liveReport sensing).sysCal, sysCal_small sensing, ?_⟩
    show heading.1.calibration = _
    rw [same]

omit [FloorRing α] [IsStrictOrderedRing α] in
theorem plain_fits {packet : Packet α} (plain : Plain packet.imuCalibration) :
    CalibrationFits p.py packet := by
  have status : (text p.py.floatRepr packet.imuCalibration).length ≤ 4 ∧
      depth packet.imuCalibration = 0 := by
    rcases plain with none | ⟨n, small, int⟩
    · rw [none]
      exact ⟨by rfl, rfl⟩
    · have digits : (natText n).length ≤ 3 :=
        (Nat.length_toDigits_le_iff (by decide) (by decide)).mpr (by omega)
      rw [int]
      exact ⟨digits.trans (by decide), rfl⟩
  have rest : (text p.py.floatRepr { packet with imuCalibration := .null }.toJson).length ≤ 443 :=
    packet_short p.repr_short (by decide : 4 ≤ 24)
  have bare := encode_length (text p.py.floatRepr { packet with imuCalibration := .null }.toJson)
  have own := encode_length (text p.py.floatRepr packet.imuCalibration)
  have room := p.datagram_room
  constructor
  · rw [status.2]
    exact p.dumps_room
  · omega

theorem pass_completes (run : Run (step p) (begin p imuReady unheard now) history s) {pass : Pass α}
    (arrived : pass.serial <+: s.toTracker) (full : blockBytes ≤ pass.raw.length) :
    (next p.py p.dsp s.tracker pass).isSome := by
  obtain ⟨buffer, heading, polled, last⟩ := pass_hears run arrived pass.lineTime
  rw [next_iff _ _ _ _ full]
  refine ⟨(poll_iff _ _ _ _).mp ⟨_, polled⟩, ?_⟩
  intro packet built
  apply plain_fits
  rw [← (poll_eq polled).1] at built
  have plain : Plain (settle { (initial : Tracker α).imu with controllerBuffer := buffer }
      heading).imuCalibration := settle_plain last
  unfold packetBuilt at built
  split at built
  · rw [← Option.some.inj built]
    exact plain
  · split at built
    · simp at built
    · rw [← Option.some.inj built]
      exact plain

/-- In the closed loop nothing that the controller sends stops the tracker: whatever
    part of it has arrived, a pass with a full block of audio completes. -/
theorem tracker_goes_on (run : Run (step p) (begin p imuReady unheard now) history s) {pass : Pass α}
    (arrived : pass.serial <+: s.toTracker) :
    (next p.py p.dsp s.tracker pass).isSome ↔ blockBytes ≤ pass.raw.length := by
  constructor
  · intro went
    obtain ⟨_, moved⟩ := Option.isSome_iff_exists.mp went
    obtain ⟨_, _, _, full, _⟩ := next_moved moved
    exact full
  · exact pass_completes run arrived

end Going

def benchReports : List UInt8 := Utf8.encode "3.4,IMU:1,CAL:3\r\nH:123.4,IMU:1,CAL:3\r\n".toList

theorem tracker_goes_on_bench : ∃ (history : List (Moment ℚ Unit)) (s : System ℚ Unit),
    Run (step benchPrograms) (begin benchPrograms true 4 9) history s ∧
      benchReports <+: s.toTracker ∧
      (next benchPrograms.py benchPrograms.dsp s.tracker
        (benchPass onAxisRaw benchReports 10)).isSome := by
  have run := ((bench_begin 4).go (.turn (benchSensing 60 [])) (by decide +kernel)).go
    (.turn (benchSensing 120 [])) (by decide +kernel)
  exact ⟨_, _, run, by decide +kernel,
    (tracker_goes_on run (by decide +kernel)).mpr (by decide +kernel)⟩

end SoqTracker.LoopReports
