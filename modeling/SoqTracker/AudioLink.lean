import SoqTracker.CaptureProgram

/- The whole way of the sound: the packets of the Kinect, the driver's windows, the
   pipe and the blocks of read_kinect.py. A window is two blocks, so a block is never
   cut across two packets of a microphone. -/
namespace SoqTracker.AudioLink
open TrackerLoop Runs Blocks Latches AudioCapture CaptureProgram
open Controller (Python)
open InputTotality (exit?)
open KinectAudio (Cells sample micHalves outerHalves assembled accepted reading silence)

def halvesOf (m : Fin 4) (windows : List Cells) : List (Vector Int32 128) :=
  windows.flatMap (micHalves m)

theorem halvesOf_length (m : Fin 4) (windows : List Cells) :
    (halvesOf m windows).length = 2 * windows.length := by
  simp [halvesOf, micHalves, List.length_flatMap, Nat.mul_comm]

theorem window_samples (cells : Cells) (m : Fin 4) :
    (List.range 256).map (sample cells m) = (cells (m, 0)).toList ++ (cells (m, 1)).toList := by
  apply List.ext_getElem
  · simp
  · intro i inside _
    have small : i < 256 := by simpa using inside
    rw [List.getElem_map, List.getElem_range, sample, List.getElem_append]
    by_cases first : i < 128
    · simp [first]
    · have later : i - 128 < 128 := by omega
      simp [first, later]

theorem stream_windows {mic : Callback → Nat → Int32} {m : Fin 4}
    (reads : ∀ cells, mic (assembled cells) = sample cells m) (windows : List Cells) :
    stream mic (windows.map assembled) = (halvesOf m windows).flatMap Vector.toList := by
  have counts : ∀ cells, (assembled cells).numSamples = 256 := fun _ => rfl
  induction windows with
  | nil => rfl
  | cons cells windows ih =>
    simp only [stream, halvesOf] at ih
    simp only [stream, halvesOf, micHalves, List.map_cons, List.flatMap_cons, List.flatMap_append,
      List.flatMap_nil, List.append_nil, counts, reads, window_samples, ih]

theorem block_half (halves : List (Vector Int32 128)) {b : Nat} (inside : b < halves.length) :
    block blockSize b (halves.flatMap Vector.toList) = halves[b].toList := by
  have uniform : ∀ half : Vector Int32 128, half.toList.length = blockSize := by simp [blockSize]
  have one := packed_take uniform 1 (halves.drop b)
  rw [Nat.mul_one] at one
  rw [block, packed_drop uniform, one, List.drop_eq_getElem_cons inside, List.take_succ_cons,
    List.take_zero, List.flatMap_cons, List.flatMap_nil, List.append_nil]

variable {α : Type} [Field α] [LinearOrder α] [FloorRing α]

def blockPairs (windows : List Cells) : List (List α × List α) :=
  (windows.flatMap outerHalves).map fun pair => (floats pair.1.toList, floats pair.2.toList)

omit [LinearOrder α] [FloorRing α] in
theorem blockPairs_zip (windows : List Cells) :
    (blockPairs windows : List (List α × List α)) =
      ((halvesOf 0 windows).zip (halvesOf 3 windows)).map fun pair =>
        (floats pair.1.toList, floats pair.2.toList) := by
  have zipped : windows.flatMap outerHalves = (halvesOf 0 windows).zip (halvesOf 3 windows) := by
    induction windows with
    | nil => rfl
    | cons cells windows ih =>
      simpa [outerHalves, halvesOf, micHalves] using ih
  rw [blockPairs, zipped]

omit [LinearOrder α] [FloorRing α] in
theorem block_pair (windows : List Cells) {b : Nat} (inside : b < 2 * windows.length)
    (placed : b < (blockPairs windows : List (List α × List α)).length) :
    ((mic1 ((block blockSize b (frames (windows.map assembled))).flatMap Frame.bytes) : List α),
      (mic4 ((block blockSize b (frames (windows.map assembled))).flatMap Frame.bytes) : List α)) =
        (blockPairs windows)[b] := by
  have first : b < (halvesOf 0 windows).length := by rwa [halvesOf_length]
  have last : b < (halvesOf 3 windows).length := by rwa [halvesOf_length]
  rw [mic1_block, mic4_block, @stream_windows Callback.mic1 0 fun _ => rfl,
    @stream_windows Callback.mic4 3 fun _ => rfl, block_half _ first, block_half _ last]
  simp only [blockPairs_zip, List.getElem_map, List.getElem_zip]

/-- The blocks of the tracker are the packets of the microphones: block by block, both
    channels read the newest packet of the block's half before the window turned, and
    the tracker ends when the windows do. -/
theorem blocks_are_packets {py : Python α} {dsp : Dsp α} {pkts : Nat}
    {inFates outFates : List IsoTransfers.Fate} {events : List (Transition Capture Event)}
    {s : Capture} (captured : Run CaptureProgram.next (startAudio pkts inFates outFates) events s)
    {passes : List (Transition (Host α) (Surround α))} {host : Host α}
    (run : Run (hostNext py dsp) (piped s.called) passes host) :
    let windows := (turns reading 0 [] (accepted (delivered pkts events))).map
      (latest reading silence)
    passes.reverse.map (fun t => (mic1 t.before.raw, mic4 t.before.raw)) =
      (blockPairs windows : List (List α × List α)).take passes.length ∧
    passes.length ≤ 2 * windows.length ∧
    ∀ around, exit py dsp host around = some .endOfAudio ↔ passes.length = 2 * windows.length := by
  intro windows
  have called : s.called = windows.map assembled := by
    rw [run_called captured, List.map_map]
    rfl
  rw [called] at run
  have counted : (frames (windows.map assembled)).length / blockSize = 2 * windows.length := by
    have each : (windows.map assembled).map Callback.numSamples = windows.map fun _ => 256 := by
      rw [List.map_map]
      rfl
    have size : blockSize = 128 := rfl
    have total : (windows.map fun _ => 256).sum = 256 * windows.length := by simp [Nat.mul_comm]
    rw [frames_length, each, total, size]
    omega
  have most := (unread_run run).1
  rw [counted] at most
  refine ⟨?_, most, fun around => ?_⟩
  · have pairs : (blockPairs windows : List (List α × List α)).length = 2 * windows.length := by
      rw [blockPairs_zip, List.length_map, List.length_zip, halvesOf_length, halvesOf_length, min_self]
    rw [blocks_read (fun raw => (mic1 raw, mic4 raw)) run]
    apply List.ext_getElem
    · simp [pairs, most]
    · intro b inside _
      have early : b < passes.length := by simpa using inside
      rw [List.getElem_map, List.getElem_range, List.getElem_take]
      exact block_pair windows (by omega) (by omega)
  · rw [exit_count run, counted]

/-- Two packets of one microphone, and the first block of what they are called for. -/
theorem blocks_bench : ∃ (events : List (Transition Capture Event)) (s : Capture)
    (passes : List (Transition (Host ℚ) (Surround ℚ))) (host : Host ℚ),
      Run CaptureProgram.next (startAudio 1 [.taken, .taken] []) events s ∧
      Run (hostNext benchPython benchDsp) (piped s.called) passes host ∧
      passes.reverse.map (fun t => ((mic1 t.before.raw : List ℚ), (mic4 t.before.raw : List ℚ))) =
        (blockPairs ((turns reading 0 [] (accepted (delivered 1 events))).map
          (latest reading silence)) : List (List ℚ × List ℚ)).take 1 := by
  obtain ⟨events, s, captured, reads⟩ : ∃ events s,
      Run CaptureProgram.next (startAudio 1 [.taken, .taken] []) events s ∧
        (hostNext benchPython benchDsp (piped s.called) benchSurround).isSome := by
    have begun : Run CaptureProgram.next (startAudio 1 [.taken, .taken] []) [] _ := Run.start
    have first := begun.go (.handInput 1 (benchXfer (KinectAudio.benchPacket 2 3 7)))
      (by decide +kernel)
    have second := first.go (.handInput 0 (benchXfer (KinectAudio.benchPacket 2 6 9)))
      (by decide +kernel)
    exact ⟨_, _, second, by decide +kernel⟩
  have pass := Run.start.go benchSurround reads
  exact ⟨events, s, _, _, captured, pass, (blocks_are_packets captured pass).1⟩

end SoqTracker.AudioLink
