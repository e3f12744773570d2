import SoqTracker.AudioCapture

/- measure_rms.c, the tool that the loudness threshold is chosen with. It fills
   a buffer of one block, sample by sample, across callbacks of any size. -/
namespace SoqTracker.MeasureRms
open TrackerLoop Runs Blocks Controller AudioCapture

variable {α : Type} [Field α]

/-- The static variables, and the values computed for printing so far. -/
structure State (α : Type) where
  buf : Vector Int32 blockSize
  bufIdx : Nat
  computed : List α

def start : State α := ⟨Vector.replicate blockSize 0, 0, []⟩

def blockRms (sqrt : α → α) (buf : List Int32) : α :=
  sqrt (buf.foldl (fun rms x => rms + (x.toInt : α) * x.toInt) 0 / (blockSize : α))

/-- One sample; none is a write outside buf. -/
def sample (sqrt : α → α) (s : State α) (x : Int32) : Option (State α) :=
  if inside : s.bufIdx < blockSize then
    let buf := s.buf.set s.bufIdx x inside
    if blockSize ≤ s.bufIdx + 1 then
      some ⟨buf, 0, s.computed ++ [blockRms sqrt buf.toList]⟩
    else some ⟨buf, s.bufIdx + 1, s.computed⟩
  else none

def inCallback (sqrt : α → α) (s : State α) (c : Callback) : Option (State α) :=
  ((List.range c.numSamples).map c.mic1).foldlM (sample sqrt) s

def measured (sqrt : α → α) (callbacks : List Callback) : Option (State α) :=
  callbacks.foldlM (inCallback sqrt) start

/-- The state after the samples seen: the buffer begins with what is left over
    after the last complete block. -/
structure Holds (sqrt : α → α) (seen : List Int32) (s : State α) : Prop where
  position : s.bufIdx = seen.length % blockSize
  pending : s.buf.toList.take s.bufIdx = leftover blockSize seen
  values : s.computed = (blocks blockSize seen).map (blockRms sqrt)

theorem holds_inside {sqrt : α → α} {seen : List Int32} {s : State α} (holds : Holds sqrt seen s) :
    s.bufIdx < blockSize := by
  rw [holds.position]
  exact Nat.mod_lt _ (by decide)

theorem written_front {size : Nat} (buf : Vector Int32 size) {i : Nat} (inside : i < size)
    (x : Int32) : (buf.set i x inside).toList.take (i + 1) = buf.toList.take i ++ [x] := by
  have spot : i < buf.toList.length := by simpa using inside
  rw [Vector.toList_set, List.take_add_one, List.take_set_of_le (Nat.le_refl i)]
  simp [inside]

theorem sample_holds {sqrt : α → α} {seen : List Int32} {s : State α} (holds : Holds sqrt seen s)
    (x : Int32) : ∃ s', sample sqrt s x = some s' ∧ Holds sqrt (seen ++ [x]) s' := by
  have inside := holds_inside holds
  have front := written_front s.buf inside x
  rw [holds.pending] at front
  have pushed := blocks_push (show 0 < blockSize by decide) seen x
  have left := leftover_push (show 0 < blockSize by decide) seen x
  have place := holds.position
  by_cases fills : seen.length % blockSize + 1 = blockSize
  · have whole : (s.buf.set s.bufIdx x inside).toList = leftover blockSize seen ++ [x] := by
      rw [← front, List.take_of_length_le]
      rw [Vector.length_toList]
      omega
    have last : blockSize ≤ s.bufIdx + 1 := by omega
    have step : sample sqrt s x =
        some ⟨s.buf.set s.bufIdx x inside, 0,
          s.computed ++ [blockRms sqrt (s.buf.set s.bufIdx x inside).toList]⟩ := by
      simp only [sample, inside, last, dif_pos, if_true]
    rw [if_pos fills] at pushed left
    refine ⟨_, step, ?_, ?_, ?_⟩
    · rw [← leftover_length, left, List.length_nil]
    · rw [left, List.take_zero]
    · rw [pushed, whole, holds.values, List.map_append, List.map_singleton]
  · have more : ¬ blockSize ≤ s.bufIdx + 1 := by omega
    have step : sample sqrt s x =
        some ⟨s.buf.set s.bufIdx x inside, s.bufIdx + 1, s.computed⟩ := by
      simp only [sample, inside, more, dif_pos, if_false]
    rw [if_neg fills] at pushed left
    refine ⟨_, step, ?_, ?_, ?_⟩
    · rw [← leftover_length, left, List.length_append, List.length_singleton, leftover_length,
        ← place]
    · rw [left, front]
    · rw [pushed, List.append_nil, holds.values]

theorem samples_hold {sqrt : α → α} {seen : List Int32} {s : State α} (holds : Holds sqrt seen s)
    (xs : List Int32) : ∃ s', xs.foldlM (sample sqrt) s = some s' ∧ Holds sqrt (seen ++ xs) s' := by
  induction xs generalizing seen s with
  | nil => exact ⟨s, rfl, by rwa [List.append_nil]⟩
  | cons x xs ih =>
    obtain ⟨s₁, step, holds₁⟩ := sample_holds holds x
    obtain ⟨s₂, steps, holds₂⟩ := ih holds₁
    rw [List.append_assoc] at holds₂
    refine ⟨s₂, ?_, holds₂⟩
    rw [List.foldlM_cons, step]
    exact steps

theorem start_holds (sqrt : α → α) : Holds sqrt [] (start : State α) := by
  constructor
  · rfl
  · rfl
  · rfl

theorem measured_stream (sqrt : α → α) (callbacks : List Callback) :
    measured sqrt callbacks = (stream Callback.mic1 callbacks).foldlM (sample sqrt) start := by
  have grouped : ∀ s, callbacks.foldlM (inCallback sqrt) s =
      (stream Callback.mic1 callbacks).foldlM (sample sqrt) s := by
    induction callbacks with
    | nil => intro s; rfl
    | cons c callbacks ih =>
      intro s
      rw [stream, List.flatMap_cons, List.foldlM_append, List.foldlM_cons]
      exact bind_congr fun s' => ih s'
  exact grouped start

theorem sum_squares (xs : List Int32) (from' : α) :
    xs.foldl (fun rms x => rms + (x.toInt : α) * x.toInt) from' =
      from' + ((floats xs).map (· ^ 2)).sum := by
  induction xs generalizing from' with
  | nil => simp [floats]
  | cons x xs ih =>
    rw [List.foldl_cons, ih]
    simp only [floats, List.map_cons, List.sum_cons]
    ring

variable [LinearOrder α]

theorem rms_block (dsp : Dsp α) {callbacks : List Callback} {b : Nat}
    (whole : b < (stream Callback.mic1 callbacks).length / blockSize) :
    rms dsp ((block blockSize b (frames callbacks)).flatMap Frame.bytes) =
      blockRms dsp.sqrt (block blockSize b (stream Callback.mic1 callbacks)) := by
  have size := block_full whole
  rw [rms, mic1_block, blockRms, sum_squares, zero_add, mean, List.length_map, floats,
    List.length_map, size]

variable [FloorRing α]

/-- The tool never writes outside its buffer, its values are the tracker's for the
    same blocks, and at the end of the stream both have the same number. -/
theorem calibration_agrees {py : Python α} {dsp : Dsp α} {callbacks : List Callback}
    {history : List (Transition (Host α) (Surround α))} {host : Host α}
    (run : Run (hostNext py dsp) (piped callbacks) history host) :
    (∀ seen : List Int32, ∃ s, seen.foldlM (sample dsp.sqrt) start = some s ∧ s.bufIdx ≤ 127) ∧
    ∃ tool, measured dsp.sqrt callbacks = some tool ∧
      history.reverse.map (fun t => rms dsp t.before.raw) = tool.computed.take history.length ∧
      (history.length < tool.computed.length →
        tool.computed[history.length]? = some (rms dsp host.raw)) ∧
      ∀ around, exit py dsp host around = some .endOfAudio ↔
        history.length = tool.computed.length := by
  constructor
  · intro seen
    obtain ⟨s, filled, holds⟩ := samples_hold (start_holds dsp.sqrt) seen
    have inside := holds_inside holds
    have size : blockSize = 128 := rfl
    exact ⟨s, filled, by omega⟩
  · obtain ⟨tool, filled, holds⟩ :=
      samples_hold (start_holds dsp.sqrt) (stream Callback.mic1 callbacks)
    have values := holds.values
    rw [List.nil_append] at values
    have same : (frames callbacks).length = (stream Callback.mic1 callbacks).length := by
      rw [@stream_frames Callback.mic1 Frame.mic1 (fun c i => rfl), List.length_map]
    obtain ⟨counted, _, _⟩ := unread_run run
    rw [same] at counted
    refine ⟨tool, by rw [measured_stream, filled], ?_, ?_, ?_⟩
    · rw [blocks_read (rms dsp) run, values, blocks, List.map_map, ← List.map_take,
        List.take_range, Nat.min_eq_left counted]
      apply List.map_congr_left
      intro b mem
      exact rms_block dsp (Nat.lt_of_lt_of_le (List.mem_range.mp mem) counted)
    · intro more
      rw [values, List.length_map, blocks_length] at more
      rw [next_block run, rms_block dsp more, values, blocks, List.map_map, List.getElem?_map,
        List.getElem?_range more]
      rfl
    · intro around
      rw [exit_count run around, values, List.length_map, blocks_length, same]

def loudCallback (numSamples : Nat) : Callback :=
  ⟨numSamples, fun _ => 8000000, fun _ => 0, fun _ => 0, fun _ => 8000000⟩

/-- The values agree on the block of two callbacks that do not divide it. -/
theorem calibration_two_callbacks :
    ∃ (history : List (Transition (Host ℚ) (Surround ℚ))) (host : Host ℚ) (tool : State ℚ),
      Run (hostNext benchPython benchDsp) (piped [loudCallback 100, loudCallback 33])
        history host ∧
      measured benchDsp.sqrt [loudCallback 100, loudCallback 33] = some tool ∧
      history.reverse.map (fun t => rms benchDsp t.before.raw) = tool.computed.take 1 ∧
      tool.computed.take 1 = [8000000] := by
  have begun : Run (hostNext benchPython benchDsp)
      (piped [loudCallback 100, loudCallback 33]) [] _ := Run.start
  have run := begun.go benchSurround (by decide +kernel)
  obtain ⟨tool, filled, values, _⟩ := (calibration_agrees run).2
  refine ⟨_, _, tool, run, filled, values, ?_⟩
  refine values.symm.trans ?_
  decide +kernel

end SoqTracker.MeasureRms
