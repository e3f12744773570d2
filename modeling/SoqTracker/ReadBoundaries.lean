import SoqTracker.Polling
import SoqTracker.Utf8Boundaries
import SoqTracker.TrackerLoop

/- How far the outcome of polling depends on where the reads were cut. Lines are
   carried from read to read, but each read is decoded by itself, so a read that
   ends inside a character loses it. -/
namespace SoqTracker.ReadBoundaries
open ExtendedNumber Json Controller Delimited Utf8
open TrackerLoop (Tracker initial benchPython)

variable {α : Type} [Field α] [LinearOrder α] [FloorRing α]

/-- Everything a poll returns but the time of the last heading; nothing when it
    raises. -/
def outcome : Except PyError (ImuState α) →
    Option (Option (Number α) × Bool × Value α × List Char)
  | .ok imu =>
      some (imu.trackerHeadingDeg, imu.imuValidFlag, imu.imuCalibration, imu.controllerBuffer)
  | .error _ => none

def Partition (bytes : List UInt8) (reads : List (Read α)) : Prop :=
  reads ≠ [] ∧ reads.flatMap Prod.fst = bytes

def ReadsAgree (py : Python α) (imu : ImuState α) (bytes : List UInt8) : Prop :=
  ∀ first second, Partition bytes first → Partition bytes second →
    outcome (pollAll py imu first) = outcome (pollAll py imu second)

/-- A complete line of the text makes the parser raise. -/
def Halts (py : Python α) (text : List Char) : Prop :=
  ∃ line ∈ segments '\n' text, RaisingLine py line

omit [FloorRing α] in
theorem halts_longer {py : Python α} {text : List Char} (halts : Halts py text)
    (more : List Char) : Halts py (text ++ more) := by
  obtain ⟨line, mem, raising⟩ := halts
  refine ⟨line, ?_, raising⟩
  rw [segments_append]
  exact List.mem_append_left _ mem

/- The outcome is that of the text received. -/

theorem settled_outcome {imu : ImuState α} {first second : Option (Parsed α × α)}
    (same : first.map Prod.fst = second.map Prod.fst) :
    outcome (.ok (settle imu first)) = outcome (.ok (settle imu second)) := by
  cases first with
  | none =>
    cases second with
    | none => rfl
    | some later => simp at same
  | some earlier =>
    cases second with
    | none => simp at same
    | some later =>
      simp only [Option.map_some, Option.some.injEq] at same
      simp only [outcome, settle, heard, same]

theorem halted_outcome {py : Python α} {imu : ImuState α} {reads : List (Read α)}
    (polled : reads ≠ []) (halts : Halts py (received imu reads)) :
    outcome (pollAll py imu reads) = none := by
  obtain ⟨line, mem, raising⟩ := halts
  have raises := (parseControllerLine_raises_iff py line).mpr raising
  obtain ⟨error, raised⟩ :=
    pollAll_raises (fun none => absurd none polled) ⟨line, mem, raises⟩
  rw [raised]
  rfl

theorem settled_polls {py : Python α} {imu : ImuState α} {reads : List (Read α)}
    (polled : reads ≠ []) (running : ¬ Halts py (received imu reads)) :
    ∃ heading, outcome (pollAll py imu reads) =
        outcome (.ok (settle
          { imu with controllerBuffer := rest '\n' (received imu reads) } heading)) ∧
      heading.map Prod.fst = ((segments '\n' (received imu reads)).filterMap (report py)).getLast? := by
  have fine : ∀ line ∈ segments '\n' (received imu reads), ¬ Raises py line :=
    fun line mem raises => running ⟨line, mem, (parseControllerLine_raises_iff py line).mp raises⟩
  obtain ⟨lines, texts, done⟩ := pollAll_ok (fun none => absurd none polled) fine
  refine ⟨lastReport py lines, by rw [done], ?_⟩
  rw [lastReport_untimed, texts]

theorem same_text {py : Python α} {imu : ImuState α} {first second : List (Read α)}
    (polled : first ≠ []) (polled' : second ≠ [])
    (same : received imu first = received imu second) :
    outcome (pollAll py imu first) = outcome (pollAll py imu second) := by
  by_cases halts : Halts py (received imu first)
  · rw [halted_outcome polled halts, halted_outcome polled' (same ▸ halts)]
  · obtain ⟨heading, done, last⟩ := settled_polls polled halts
    obtain ⟨heading', done', last'⟩ := settled_polls polled' (same ▸ halts)
    rw [done, done', same]
    apply settled_outcome
    rw [last, last', same]

/- Partitions. -/

omit [Field α] [LinearOrder α] [FloorRing α] in
theorem partition_pieces {bytes : List UInt8} {reads : List (Read α)}
    (partition : Partition bytes reads) : (reads.map Prod.fst).flatten = bytes := by
  rw [← partition.2, List.flatMap]

omit [Field α] [LinearOrder α] [FloorRing α] in
theorem received_pieces (imu : ImuState α) (reads : List (Read α)) :
    received imu reads = imu.controllerBuffer ++ (reads.map Prod.fst).flatMap decodeIgnoring := by
  rw [received, List.flatMap_map]

theorem unbroken_reads_agree {py : Python α} {imu : ImuState α} {bytes : List UInt8}
    {first second : List (Read α)} (partition : Partition bytes first)
    (partition' : Partition bytes second) (unbroken : Unbroken (first.map Prod.fst))
    (unbroken' : Unbroken (second.map Prod.fst)) :
    outcome (pollAll py imu first) = outcome (pollAll py imu second) := by
  apply same_text partition.1 partition'.1
  rw [received_pieces, received_pieces, decode_pieces unbroken, decode_pieces unbroken',
    partition_pieces partition, partition_pieces partition']

theorem halted_front {py : Python α} {imu : ImuState α} {front back : List UInt8}
    {reads : List (Read α)} (partition : Partition (front ++ back) reads)
    (narrow : Narrow front back)
    (halts : Halts py (imu.controllerBuffer ++ decodeIgnoring front)) :
    outcome (pollAll py imu reads) = none := by
  obtain ⟨more, same⟩ := decode_front narrow (partition_pieces partition)
  apply halted_outcome partition.1
  rw [received_pieces, ← same, ← List.append_assoc]
  exact halts_longer halts more

/-- A wide character in a running stream tells the whole read from the cut one. -/
theorem wide_breaks {py : Python α} {imu : ImuState α} {front back : List UInt8}
    (wide : StartsWide back)
    (running : ¬ Halts py (imu.controllerBuffer ++ decodeIgnoring front)) :
    ∃ bytes, bytes <+: front ++ back ∧ ¬ ReadsAgree py imu bytes := by
  obtain ⟨b, tails, later, c, split, visible, begun, letter, nothing, nothing'⟩ := wide_cut wide
  have clock : Nat → α := fun _ => imu.imuLastUpdate
  obtain ⟨text, before⟩ : ∃ text, imu.controllerBuffer ++ decodeIgnoring front = text := ⟨_, rfl⟩
  have whole : received imu [(front ++ b :: tails, clock)] = text ++ [c] := by
    simp only [received_pieces, List.map_cons, List.map_nil, List.flatMap_singleton]
    rw [decode_append (start_between front begun tails), letter, ← List.append_assoc, before]
  have cut : received imu [(front ++ [b], clock), (tails, clock)] = text := by
    simp only [received_pieces, List.map_cons, List.map_nil, List.flatMap_cons, List.flatMap_nil]
    rw [decode_append (start_between front begun []), nothing, nothing', List.append_nil,
      List.append_nil, List.append_nil, before]
  rw [before] at running
  have running' : ¬ Halts py (text ++ [c]) := by
    rwa [Halts, segments_push, if_neg visible, List.append_nil]
  refine ⟨front ++ b :: tails, ⟨later, by rw [split, List.append_assoc]⟩, ?_⟩
  intro agree
  have same := agree [(front ++ b :: tails, clock)] [(front ++ [b], clock), (tails, clock)]
    ⟨by simp, by simp⟩ ⟨by simp, by simp⟩
  rw [← whole] at running'
  rw [← cut] at running
  obtain ⟨_, done, _⟩ := settled_polls (by simp) running'
  obtain ⟨_, done', _⟩ := settled_polls (by simp) running
  rw [done, done', whole, cut, rest_push, if_neg visible] at same
  have buffers := congrArg (Option.map fun view => view.2.2.2) same
  simp [outcome] at buffers

theorem wide_halted {py : Python α} {imu : ImuState α} {stream : List UInt8}
    (halts : ∀ front back, front ++ back = stream → StartsWide back →
      Halts py (imu.controllerBuffer ++ decodeIgnoring front))
    {bytes : List UInt8} (delivered : bytes <+: stream) : ReadsAgree py imu bytes := by
  obtain ⟨undelivered, whole⟩ := delivered
  intro first second partition partition'
  rcases first_wide bytes with narrow | ⟨front, back, split, wide, narrow⟩
  · have pieces := partition_pieces partition
    have pieces' := partition_pieces partition'
    exact unbroken_reads_agree partition partition' (narrow_unbroken (pieces ▸ narrow))
      (narrow_unbroken (pieces' ▸ narrow))
  · have before := halts front (back ++ undelivered) (by rw [← whole, ← split, List.append_assoc])
      (startsWide_extends wide undelivered)
    rw [← split] at partition partition'
    rw [halted_front partition narrow before, halted_front partition' narrow before]

/-- Over a stream of bytes the outcome never depends on the reads exactly when
    each character of more than one byte comes after a line that raises. -/
theorem reads_agree_iff (py : Python α) (imu : ImuState α) (stream : List UInt8) :
    let halted := ∀ front back, front ++ back = stream → StartsWide back →
      Halts py (imu.controllerBuffer ++ decodeIgnoring front)
    ((∀ bytes, bytes <+: stream → ReadsAgree py imu bytes) ↔ halted) ∧
      (halted → ReadsAgree py imu stream) := by
  intro halted
  refine ⟨⟨?_, fun halts bytes delivered => wide_halted halts delivered⟩,
    fun halts => wide_halted halts List.prefix_rfl⟩
  intro agree front back split wide
  by_contra running
  obtain ⟨bytes, delivered, differ⟩ := wide_breaks wide running
  rw [split] at delivered
  exact differ (agree bytes delivered)

/- A run on fixed bytes. -/

/-- Read whole, the line H:1é2 is no heading; cut inside the letter it is the
    heading 12. -/
theorem cut_letter_gives_heading :
    (outcome (pollAll benchPython (initial : Tracker ℚ).imu
        [([72, 58, 49, 0xC3, 0xA9, 50, 10], fun _ => 0)])).map (·.2.1) = some false ∧
      (outcome (pollAll benchPython (initial : Tracker ℚ).imu
        [([72, 58, 49, 0xC3], fun _ => 0), ([0xA9, 50, 10], fun _ => 0)])).map (·.1) =
          some (some (.finite 12)) ∧
      ¬ ReadsAgree benchPython (initial : Tracker ℚ).imu [72, 58, 49, 0xC3, 0xA9, 50, 10] := by
  have whole : (outcome (pollAll benchPython (initial : Tracker ℚ).imu
      [([72, 58, 49, 0xC3, 0xA9, 50, 10], fun _ => 0)])).map (·.2.1) = some false := by
    decide +kernel
  have cut : (outcome (pollAll benchPython (initial : Tracker ℚ).imu
      [([72, 58, 49, 0xC3], fun _ => 0), ([0xA9, 50, 10], fun _ => 0)])).map (·.2.1) =
        some true := by
    decide +kernel
  refine ⟨whole, by decide +kernel, ?_⟩
  intro agree
  have same := agree [([72, 58, 49, 0xC3, 0xA9, 50, 10], fun _ => 0)]
    [([72, 58, 49, 0xC3], fun _ => 0), ([0xA9, 50, 10], fun _ => 0)]
    ⟨by simp, by simp⟩ ⟨by simp, by simp⟩
  rw [same, cut] at whole
  simp at whole

end SoqTracker.ReadBoundaries
