import SoqTracker.TrackerLoop
import SoqTracker.Polling
import Mathlib.Data.List.DropRight

/- The controller lines behind the tracker's heading: in every run the IMU
   variables are those of the last line that parsed as a heading. -/
namespace SoqTracker.HeardLines
open ExtendedNumber Json Controller TrackerLoop Runs

variable {α : Type} [Field α] [LinearOrder α]

def passLines (tracker : Tracker α) (pass : Pass α) : List (List Char × α) :=
  linesTaken pass.lineTime tracker.imu pass.serial

def lineLog (history : List (Block α)) : List (List Char × α) :=
  history.reverse.flatMap fun b => passLines b.before b.input

omit [Field α] [LinearOrder α] in
theorem lineLog_cons (b : Block α) (history : List (Block α)) :
    lineLog (b :: history) = lineLog history ++ passLines b.before b.input := by
  simp [lineLog]

/- The last heading line. -/

def sinceHeading (py : Python α) (lines : List (List Char × α)) : List (List Char × α) :=
  lines.rtakeWhile fun line => (report py line.1).isNone

theorem lastReport_split {py : Python α} {lines : List (List Char × α)} {parsed : Parsed α}
    {time : α} (last : lastReport py lines = some (parsed, time)) :
    ∃ earlier line, lines = earlier ++ (line, time) :: sinceHeading py lines ∧
      report py line = some parsed := by
  induction lines using List.reverseRecOn with
  | nil => simp [lastReport] at last
  | append_singleton lines line ih =>
    rw [lastReport_append] at last
    cases found : report py line.1 with
    | none =>
      have silent : lastReport py [line] = none := by simp [lastReport, found]
      rw [silent, Option.none_or] at last
      obtain ⟨earlier, heading, split, reported⟩ := ih last
      refine ⟨earlier, heading, ?_, reported⟩
      rw [sinceHeading, List.rtakeWhile_concat_pos _ _ _ (by simp [found])]
      conv_lhs => rw [split]
      simp [sinceHeading]
    | some parsed' =>
      have here : lastReport py [line] = some (parsed', line.2) := by simp [lastReport, found]
      rw [here, Option.some_or, Option.some.injEq, Prod.mk.injEq] at last
      refine ⟨lines, line.1, ?_, by rw [found, last.1]⟩
      rw [sinceHeading, List.rtakeWhile_concat_neg _ _ _ (by simp [found]), ← last.2]

theorem sinceHeading_silent {py : Python α} {lines : List (List Char × α)}
    {line : List Char × α} (mem : line ∈ sinceHeading py lines) : report py line.1 = none := by
  have silent := List.mem_rtakeWhile_imp mem
  simpa using silent

/- Runs. -/

variable [FloorRing α]

def headingState (py : Python α) (buffer : List Char) (lines : List (List Char × α)) : ImuState α :=
  settle { (initial : Tracker α).imu with controllerBuffer := buffer } (lastReport py lines)

theorem imu_step {py : Python α} {lines : List (List Char × α)} {tracker : Tracker α}
    {pass : Pass α} {imu : ImuState α}
    (means : tracker.imu = headingState py tracker.imu.controllerBuffer lines)
    (polled : pollControllerHeading py pass.lineTime tracker.imu pass.serial = .ok imu) :
    imu = headingState py imu.controllerBuffer (lines ++ passLines tracker pass) := by
  have rebuffered : ∀ buffer, { tracker.imu with controllerBuffer := buffer } =
      headingState py buffer lines := by
    intro buffer
    exact (congrArg (fun i : ImuState α => { i with controllerBuffer := buffer }) means).trans
      (settle_rebuffer _ _ _)
  have after := (poll_eq polled).1
  rw [afterPoll, rebuffered] at after
  rw [after, settle_buffer, headingState, settle_settle, ← lastReport_append, headingState,
    settle_buffer]
  rfl

theorem moved_imu {py : Python α} {dsp : Dsp α} {tracker tracker' : Tracker α} {pass : Pass α}
    {imu : ImuState α} {writes : List (List UInt8)} {packets : List (Packet α × List UInt8)}
    (move : Moved py dsp tracker pass imu tracker' writes packets) : tracker'.imu = imu := by
  cases move with
  | quiet low sends => rfl
  | offAxis aside => rfl
  | tracking accepted sends => rfl

theorem imu_run {py : Python α} {dsp : Dsp α} {history : List (Block α)} {tracker : Tracker α}
    (run : Run (next py dsp) initial history tracker) :
    tracker.imu = headingState py tracker.imu.controllerBuffer (lineLog history) := by
  induction run with
  | start => rfl
  | step earlier moved ih =>
    obtain ⟨imu, writes, packets, _, polled, _, _, move⟩ := next_moved moved
    rw [moved_imu move, lineLog_cons]
    exact imu_step ih polled

theorem packet_heading {py : Python α} {dsp : Dsp α} {tracker : Tracker α} {pass : Pass α}
    {imu : ImuState α}
    (polled : pollControllerHeading py pass.lineTime tracker.imu pass.serial = .ok imu)
    {packet : Packet α × List UInt8} (mem : packet ∈ sent (mainLoop py dsp tracker pass).events) :
    packet.1.trackerHeadingDeg = imu.trackerHeadingDeg ∧
      packet.1.imuValid = imuIsFresh imu pass.now ∧ packet.1.timestamp = pass.now := by
  obtain ⟨tracker', moved⟩ := sent_completes mem
  obtain ⟨imu', writes, packets, _, polled', _, sends, move⟩ := next_moved moved
  rw [polled, Except.ok.injEq] at polled'
  subst polled'
  rw [sends] at mem
  cases move with
  | quiet low sends =>
    rw [List.mem_singleton.mp mem]
    exact ⟨rfl, rfl, rfl⟩
  | offAxis aside => simp at mem
  | tracking accepted sends =>
    rw [List.mem_singleton.mp mem]
    exact ⟨rfl, rfl, rfl⟩

end SoqTracker.HeardLines
