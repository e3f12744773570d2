import SoqTracker.InputTotality
import SoqTracker.Blocks

/- audio_capture.c and the pipe into read_kinect.py. A callback writes its
   samples as interleaved frames; the main loop reads blocks of bytes, whatever
   the sizes of the callbacks. Both programs lay out an int32 in the same order
   of bytes, and every write is complete. -/
namespace SoqTracker.AudioCapture
open TrackerLoop Runs Blocks Controller
open InputTotality (exit?)

/- The capture program. -/

/-- One invocation of in_callback: the number of samples and the four arrays. -/
structure Callback where
  numSamples : Nat
  mic1 : Nat → Int32
  mic2 : Nat → Int32
  mic3 : Nat → Int32
  mic4 : Nat → Int32

structure Frame where
  mic1 : Int32
  mic2 : Int32
  mic3 : Int32
  mic4 : Int32

def frame (c : Callback) (i : Nat) : Frame := ⟨c.mic1 i, c.mic2 i, c.mic3 i, c.mic4 i⟩

def int32Bytes (x : Int32) : List UInt8 :=
  let n := x.toUInt32.toNat
  [n.toUInt8, (n / 256).toUInt8, (n / 65536).toUInt8, (n / 16777216).toUInt8]

def Frame.bytes (f : Frame) : List UInt8 := [f.mic1, f.mic2, f.mic3, f.mic4].flatMap int32Bytes

def inCallback (c : Callback) : List UInt8 :=
  (List.range c.numSamples).flatMap fun i => (frame c i).bytes

def captured (callbacks : List Callback) : List UInt8 := callbacks.flatMap inCallback

def stream (mic : Callback → Nat → Int32) (callbacks : List Callback) : List Int32 :=
  callbacks.flatMap fun c => (List.range c.numSamples).map (mic c)

def frames (callbacks : List Callback) : List Frame :=
  callbacks.flatMap fun c => (List.range c.numSamples).map (frame c)

theorem captured_frames (callbacks : List Callback) :
    captured callbacks = (frames callbacks).flatMap Frame.bytes := by
  simp only [captured, frames, List.flatMap_assoc, List.flatMap_map]
  rfl

theorem stream_frames {mic : Callback → Nat → Int32} {field : Frame → Int32}
    (reads : ∀ c i, field (frame c i) = mic c i) (callbacks : List Callback) :
    stream mic callbacks = (frames callbacks).map field := by
  simp [stream, frames, List.map_flatMap, Function.comp_def, reads]

theorem frames_length (callbacks : List Callback) :
    (frames callbacks).length = (callbacks.map Callback.numSamples).sum := by
  simp [frames, List.length_flatMap]

theorem frame_bytes_length (f : Frame) : f.bytes.length = 16 := rfl

/- Reading the bytes back. -/

theorem int32_bytes (x : Int32) (later : List UInt8) :
    samples (int32Bytes x ++ later) = x.toInt :: samples later := by
  have small : x.toUInt32.toNat < 4294967296 := x.toUInt32.toNat_lt
  have value : int32 x.toUInt32.toNat.toUInt8 (x.toUInt32.toNat / 256).toUInt8
      (x.toUInt32.toNat / 65536).toUInt8 (x.toUInt32.toNat / 16777216).toUInt8 = x.toInt := by
    have digits : x.toUInt32.toNat % 256 + 256 * (x.toUInt32.toNat / 256 % 256) +
        65536 * (x.toUInt32.toNat / 65536 % 256) + 16777216 * (x.toUInt32.toNat / 16777216 % 256) =
          x.toUInt32.toNat := by
      omega
    have word : BitVec.ofNat 32 x.toUInt32.toNat = x.toBitVec := by
      apply BitVec.eq_of_toNat_eq
      rw [BitVec.toNat_ofNat]
      exact Nat.mod_eq_of_lt small
    simp only [int32, UInt8.toNat_ofNat', Nat.toUInt8_eq, digits, word, Int32.toInt]
  simp only [int32Bytes, List.cons_append, List.nil_append, samples, value]

theorem words_samples (words : List Int32) (later : List UInt8) :
    samples (words.flatMap int32Bytes ++ later) = words.map Int32.toInt ++ samples later := by
  induction words with
  | nil => rfl
  | cons x words ih =>
    rw [List.flatMap_cons, List.append_assoc, int32_bytes, ih, List.map_cons, List.cons_append]

theorem frames_channel {mic : Nat} {field : Frame → Int32}
    (reads : ∀ f : Frame, [f.mic1.toInt, f.mic2.toInt, f.mic3.toInt, f.mic4.toInt].getD mic 0 =
      (field f).toInt) (fs : List Frame) :
    channel mic (samples (fs.flatMap Frame.bytes)) = fs.map fun f => (field f).toInt := by
  induction fs with
  | nil => rfl
  | cons f fs ih =>
    rw [List.flatMap_cons, Frame.bytes, words_samples]
    simp only [List.map_cons, List.map_nil, List.cons_append, List.nil_append, channel]
    rw [reads, ih]

section Floats
variable {α : Type} [Field α]

def floats (xs : List Int32) : List α := xs.map fun x => (x.toInt : α)

theorem mic1_frames (fs : List Frame) :
    (mic1 (fs.flatMap Frame.bytes) : List α) = floats (fs.map Frame.mic1) := by
  rw [mic1, frames_channel (fun f => rfl)]
  simp [floats]

theorem mic4_frames (fs : List Frame) :
    (mic4 (fs.flatMap Frame.bytes) : List α) = floats (fs.map Frame.mic4) := by
  rw [mic4, frames_channel (fun f => rfl)]
  simp [floats]

end Floats

/- The tracker at the end of the pipe. -/

variable {α : Type} [Field α] [LinearOrder α] [FloorRing α]

/-- What a pass meets besides the audio. -/
structure Surround (α : Type) where
  serial : List UInt8
  lineTime : Nat → α
  now : α

/-- The tracker and the bytes of standard input that it has not read. -/
structure Host (α : Type) where
  tracker : Tracker α
  stdin : List UInt8

def Host.raw (host : Host α) : List UInt8 := host.stdin.take blockBytes

def Host.pass (host : Host α) (around : Surround α) : Pass α :=
  ⟨host.raw, around.serial, around.lineTime, around.now⟩

def hostNext (py : Python α) (dsp : Dsp α) (host : Host α) (around : Surround α) :
    Option (Host α) :=
  (next py dsp host.tracker (host.pass around)).map fun tracker =>
    ⟨tracker, host.stdin.drop blockBytes⟩

def exit (py : Python α) (dsp : Dsp α) (host : Host α) (around : Surround α) : Option Exit :=
  exit? (mainLoop py dsp host.tracker (host.pass around))

/-- The tracker started on everything the callbacks write, then end of stream. -/
def piped (callbacks : List Callback) : Host α := ⟨initial, captured callbacks⟩

omit [Field α] [LinearOrder α] [FloorRing α] in
theorem finish_exit {py : Python α} {before : List (Event α)} {packet : Packet α}
    {tracker : Tracker α} : (finish py before packet tracker).next ≠ .error .endOfAudio := by
  unfold finish
  cases sendPacket py packet with
  | error error => simp
  | ok payload => simp

theorem exit_iff (py : Python α) (dsp : Dsp α) (host : Host α) (around : Surround α) :
    exit py dsp host around = some .endOfAudio ↔ host.stdin.length < blockBytes := by
  have size : (host.pass around).raw.length < blockBytes ↔ host.stdin.length < blockBytes := by
    simp only [Host.pass, Host.raw, List.length_take]
    omega
  have same : exit py dsp host around = some .endOfAudio ↔
      (mainLoop py dsp host.tracker (host.pass around)).next = .error .endOfAudio := by
    unfold exit exit?
    split
    · rename_i reason stopped
      simp [stopped]
    · rename_i after moved
      simp [moved]
  rw [same, ← size]
  unfold mainLoop
  by_cases short : (host.pass around).raw.length < blockBytes
  · simp [short]
  · simp only [short, if_false, iff_false]
    cases pollControllerHeading py (host.pass around).lineTime host.tracker.imu
        (host.pass around).serial with
    | error error => simp
    | ok imu =>
      simp only
      split
      · exact finish_exit
      · split
        · simp
        · exact finish_exit

/- What the tracker has read. -/

theorem packed_block (fs : List Frame) (b : Nat) :
    ((fs.drop (blockSize * b)).flatMap Frame.bytes).take blockBytes =
      (block blockSize b fs).flatMap Frame.bytes := by
  have bytes : blockBytes = 16 * blockSize := rfl
  rw [bytes, packed_take frame_bytes_length, block]

theorem unread_run {py : Python α} {dsp : Dsp α} {callbacks : List Callback}
    {history : List (Transition (Host α) (Surround α))} {host : Host α}
    (run : Run (hostNext py dsp) (piped callbacks) history host) :
    history.length ≤ (frames callbacks).length / blockSize ∧
      host.stdin = ((frames callbacks).drop (blockSize * history.length)).flatMap Frame.bytes ∧
      history.reverse.map (fun t => t.before.raw) = (List.range history.length).map fun b =>
        (block blockSize b (frames callbacks)).flatMap Frame.bytes := by
  induction run with
  | start => simp [piped, captured_frames]
  | step earlier moved ih =>
    rename_i older before after around
    obtain ⟨count, unread, raws⟩ := ih
    obtain ⟨tracker, went, same⟩ := Option.map_eq_some_iff.mp moved
    obtain ⟨_, _, _, full, _⟩ := next_moved went
    have raw : before.raw =
        (block blockSize older.length (frames callbacks)).flatMap Frame.bytes := by
      rw [Host.raw, unread, packed_block]
    refine ⟨?_, ?_, ?_⟩
    · simp only [Host.pass, Host.raw, unread, List.length_take, List.length_drop,
        packed_length frame_bytes_length] at full
      have size : blockSize = 128 := rfl
      have bytes : blockBytes = 2048 := rfl
      rw [size, bytes] at full
      rw [List.length_cons, size, Nat.le_div_iff_mul_le (by decide)]
      omega
    · have bytes : blockBytes = 16 * blockSize := rfl
      rw [← same, List.length_cons, Nat.mul_add, Nat.mul_one]
      simp only [unread]
      rw [bytes, packed_drop frame_bytes_length, List.drop_drop]
    · rw [List.reverse_cons, List.map_append, raws, List.length_cons, List.range_succ,
        List.map_append, List.map_singleton, List.map_singleton, raw]

theorem blocks_read {Value : Type} (f : List UInt8 → Value) {py : Python α} {dsp : Dsp α}
    {callbacks : List Callback} {history : List (Transition (Host α) (Surround α))} {host : Host α}
    (run : Run (hostNext py dsp) (piped callbacks) history host) :
    history.reverse.map (fun t => f t.before.raw) = (List.range history.length).map fun b =>
      f ((block blockSize b (frames callbacks)).flatMap Frame.bytes) := by
  obtain ⟨_, _, raws⟩ := unread_run run
  have mapped := congrArg (List.map f) raws
  rw [List.map_map, List.map_map] at mapped
  exact mapped

theorem next_block {py : Python α} {dsp : Dsp α} {callbacks : List Callback}
    {history : List (Transition (Host α) (Surround α))} {host : Host α}
    (run : Run (hostNext py dsp) (piped callbacks) history host) :
    host.raw = (block blockSize history.length (frames callbacks)).flatMap Frame.bytes := by
  obtain ⟨_, unread, _⟩ := unread_run run
  rw [Host.raw, unread, packed_block]

theorem exit_count {py : Python α} {dsp : Dsp α} {callbacks : List Callback}
    {history : List (Transition (Host α) (Surround α))} {host : Host α}
    (run : Run (hostNext py dsp) (piped callbacks) history host) (around : Surround α) :
    exit py dsp host around = some .endOfAudio ↔
      history.length = (frames callbacks).length / blockSize := by
  obtain ⟨counted, unread, _⟩ := unread_run run
  have size : blockSize = 128 := rfl
  have bytes : blockBytes = 2048 := rfl
  rw [exit_iff, unread, packed_length frame_bytes_length, List.length_drop, size, bytes]
  rw [size] at counted
  omega

theorem block_whole {py : Python α} {dsp : Dsp α} {start host : Host α}
    {history : List (Transition (Host α) (Surround α))}
    (run : Run (hostNext py dsp) start history host) :
    ∀ t ∈ history, t.before.raw.length = blockBytes := by
  intro t mem
  obtain ⟨_, _, _, moved⟩ := run_member run mem
  obtain ⟨tracker, went, _⟩ := Option.map_eq_some_iff.mp moved
  obtain ⟨_, _, _, full, _⟩ := next_moved went
  simp only [Host.pass, Host.raw, List.length_take] at full ⊢
  omega

omit [LinearOrder α] [FloorRing α] in
theorem mic1_block (b : Nat) (callbacks : List Callback) :
    mic1 ((block blockSize b (frames callbacks)).flatMap Frame.bytes) =
      (floats (block blockSize b (stream Callback.mic1 callbacks)) : List α) := by
  have spelled := @stream_frames Callback.mic1 Frame.mic1 (fun c i => rfl) callbacks
  rw [mic1_frames, spelled, block_map]

omit [LinearOrder α] [FloorRing α] in
theorem mic4_block (b : Nat) (callbacks : List Callback) :
    mic4 ((block blockSize b (frames callbacks)).flatMap Frame.bytes) =
      (floats (block blockSize b (stream Callback.mic4 callbacks)) : List α) := by
  have spelled := @stream_frames Callback.mic4 Frame.mic4 (fun c i => rfl) callbacks
  rw [mic4_frames, spelled, block_map]

/-- Every block is cut from the callbacks in order, microphone by microphone, and
    the input ends when only a remainder shorter than a block is left. -/
theorem framing_exact {py : Python α} {dsp : Dsp α} {callbacks : List Callback}
    {history : List (Transition (Host α) (Surround α))} {host : Host α}
    (run : Run (hostNext py dsp) (piped callbacks) history host) :
    let count := (callbacks.map Callback.numSamples).sum / blockSize
    let mic1Block := fun b =>
      (floats (block blockSize b (stream Callback.mic1 callbacks)) : List α)
    let mic4Block := fun b =>
      (floats (block blockSize b (stream Callback.mic4 callbacks)) : List α)
    (history.length ≤ count ∧
      ∀ around, exit py dsp host around = some .endOfAudio ↔ history.length = count) ∧
    (∀ t ∈ history, t.before.raw.length = blockBytes) ∧
    history.reverse.map (fun t => (mic1 t.before.raw, mic4 t.before.raw)) =
      (List.range history.length).map (fun b => (mic1Block b, mic4Block b)) ∧
    (history.length < count →
      (mic1 host.raw, mic4 host.raw) = (mic1Block history.length, mic4Block history.length)) := by
  intro count mic1Block mic4Block
  have total : count = (frames callbacks).length / blockSize := by rw [frames_length]
  have both : ∀ b, (mic1 ((block blockSize b (frames callbacks)).flatMap Frame.bytes),
      mic4 ((block blockSize b (frames callbacks)).flatMap Frame.bytes)) =
        (mic1Block b, mic4Block b) := by
    intro b
    rw [mic1_block, mic4_block]
  rw [total]
  refine ⟨⟨(unread_run run).1, exit_count run⟩, block_whole run, ?_, ?_⟩
  · rw [blocks_read (fun raw => (mic1 raw, mic4 raw)) run]
    exact List.map_congr_left fun b _ => both b
  · intro _
    rw [next_block run, both]

def benchCallback (numSamples : Nat) : Callback :=
  ⟨numSamples, fun _ => 0, fun _ => 0, fun _ => 0, fun i => Int32.ofNat i⟩

def benchSurround : Surround ℚ := ⟨[], fun _ => 10, 10⟩

/-- One block from two callbacks of other sizes; five frames are left. -/
theorem framing_two_callbacks :
    ∃ (history : List (Transition (Host ℚ) (Surround ℚ))) (host : Host ℚ),
      Run (hostNext benchPython benchDsp) (piped [benchCallback 100, benchCallback 33])
        history host ∧
      history.reverse.map (fun t => ((mic1 t.before.raw : List ℚ), (mic4 t.before.raw : List ℚ))) =
        [(floats (block blockSize 0
            (stream Callback.mic1 [benchCallback 100, benchCallback 33])),
          floats (block blockSize 0
            (stream Callback.mic4 [benchCallback 100, benchCallback 33])))] ∧
      exit benchPython benchDsp host benchSurround = some .endOfAudio := by
  have begun : Run (hostNext benchPython benchDsp)
      (piped [benchCallback 100, benchCallback 33]) [] _ := Run.start
  have run := begun.go benchSurround (by decide +kernel)
  have framed := framing_exact run
  exact ⟨_, _, run, framed.2.2.1, (framed.1.2 benchSurround).mpr rfl⟩

end SoqTracker.AudioCapture
