import SoqTracker.IsoTransfers
import SoqTracker.KinectAudio
import SoqTracker.OutgoingAudio

/- audio_capture.c on libfreenect: the program from the start of the audio to its
   end, with the events of libusb in any order. Both streams of the device are
   served by the same event loop, also while freenect_stop_audio waits for one of
   them. A step that the code does not survive is a fault. -/
namespace SoqTracker.CaptureProgram
open Runs Latches AudioCapture IsoTransfers
open KinectAudio (Packet Accepted InRange received accepted reading silence assembled)

/-- Where the program is: in its main loop, in freenect_stop_audio waiting for the
    one stream and then the other, or past it. -/
inductive Phase where
  | capturing
  | stoppingIn
  | stoppingOut
  | stopped
deriving DecidableEq

/-- The device, the buffers as long as they are allocated, the calls of in_callback
    and the packets prepared for sending. -/
structure Capture where
  phase : Phase
  deviceDead : Bool
  input : Pipe
  output : Pipe
  audio : Option KinectAudio.AudioStream
  out : OutgoingAudio.OutState
  called : List Callback
  sent : List (Vector UInt8 76)

def startAudio (pkts : Nat) (inFates outFates : List Fate) : Capture :=
  ⟨.capturing, false, fnusbStartIso pkts 524 inFates, fnusbStartIso pkts 76 outFates,
    some KinectAudio.started, OutgoingAudio.started, [], []⟩

/-- The events between two looks at the program: libusb hands back a transfer of a
    stream, a call of freenect_process_events comes to its end, or the wait of
    fnusb_stop_iso does. -/
inductive Event where
  | handInput (i : Nat) (xfer : HandedBack)
  | handOutput (i : Nat) (xfer : HandedBack)
  | processed (failed die : Bool)
  | inputWaited
  | outputWaited

inductive Step where
  | impossible
  | fault
  | moved (s : Capture)

def receive (audio : Option KinectAudio.AudioStream) (given : List Packet) :
    Option (Option KinectAudio.AudioStream × List Callback) :=
  match given with
  | [] => some (audio, [])
  | _ => audio.bind fun buffers =>
      (received true buffers given).map fun outcome => (some outcome.audio, outcome.called)

def handInput (s : Capture) (i : Nat) (xfer : HandedBack) : Step :=
  if i ∉ s.input.submitted then .impossible
  else if s.input.freed then .fault
  else
    let handled := isoCallback s.input.strm xfer
    match receive s.audio handled.given with
    | none => .fault
    | some (audio, called) => .moved { s with
        deviceDead := s.deviceDead || handled.foundDead
        input := handBack s.input i xfer
        audio := audio
        called := s.called ++ called }

def outBuffer (pkt : Packet) : Vector UInt8 76 := Vector.ofFn fun i => pkt.getD i 0

def handOutput (s : Capture) (i : Nat) (xfer : HandedBack) : Step :=
  if i ∉ s.output.submitted then .impossible
  else if s.output.freed then .fault
  else
    let handled := isoCallback s.output.strm xfer
    let sending := OutgoingAudio.prepared false s.out (handled.given.map outBuffer)
    .moved { s with
      deviceDead := s.deviceDead || handled.foundDead
      output := handBack s.output i xfer
      out := sending.1
      sent := s.sent ++ sending.2 }

/-- A dead device stops the audio inside of freenect_process_events; the loop ends
    then, on a failure and on SIGINT, and the main program stops it, once. Every
    transfer is cancelled, and one that was never allocated is a null pointer. -/
def processed (s : Capture) (failed die : Bool) : Step :=
  if s.phase ≠ .capturing then .impossible
  else if s.deviceDead || failed || die then
    if s.input.unallocated ≠ [] then .fault
    else .moved { s with phase := .stoppingIn, input := markDead s.input }
  else .moved s

/-- The transfers are freed, whether libusb holds them or not. -/
def inputWaited (s : Capture) : Step :=
  if s.phase ≠ .stoppingIn ∨ ¬ Drained s.input then .impossible
  else if s.input.submitted ≠ [] ∨ s.output.unallocated ≠ [] then .fault
  else .moved { s with
    phase := .stoppingOut
    input := { s.input with freed := true }
    output := markDead s.output }

def outputWaited (s : Capture) : Step :=
  if s.phase ≠ .stoppingOut ∨ ¬ Drained s.output then .impossible
  else if s.output.submitted ≠ [] then .fault
  else .moved { s with
    phase := .stopped
    output := { s.output with freed := true }
    audio := none }

def step (s : Capture) : Event → Step
  | .handInput i xfer => handInput s i xfer
  | .handOutput i xfer => handOutput s i xfer
  | .processed failed die => processed s failed die
  | .inputWaited => inputWaited s
  | .outputWaited => outputWaited s

def next (s : Capture) (e : Event) : Option Capture :=
  match step s e with
  | .moved s' => some s'
  | _ => none

theorem next_moved {s s' : Capture} {e : Event} : next s e = some s' ↔ step s e = .moved s' := by
  unfold next
  cases step s e <;> simp

/- What each event does. -/

theorem handInput_moved {s s' : Capture} {i : Nat} {xfer : HandedBack}
    (moved : handInput s i xfer = .moved s') :
    i ∈ s.input.submitted ∧ s.input.freed = false ∧ ∃ audio called,
      receive s.audio (isoCallback s.input.strm xfer).given = some (audio, called) ∧
      s' = { s with
        deviceDead := s.deviceDead || (isoCallback s.input.strm xfer).foundDead
        input := handBack s.input i xfer
        audio := audio
        called := s.called ++ called } := by
  simp only [handInput] at moved
  split at moved
  · cases moved
  · rename_i held
    split at moved
    · cases moved
    · rename_i kept
      split at moved
      · cases moved
      · rename_i audio called done
        exact ⟨not_not.mp held, by simpa using kept, audio, called, done, (Step.moved.inj moved).symm⟩

theorem handOutput_moved {s s' : Capture} {i : Nat} {xfer : HandedBack}
    (moved : handOutput s i xfer = .moved s') :
    i ∈ s.output.submitted ∧ s.output.freed = false ∧
      let sending := OutgoingAudio.prepared false s.out
        ((isoCallback s.output.strm xfer).given.map outBuffer)
      s' = { s with
        deviceDead := s.deviceDead || (isoCallback s.output.strm xfer).foundDead
        output := handBack s.output i xfer
        out := sending.1
        sent := s.sent ++ sending.2 } := by
  simp only [handOutput] at moved
  split at moved
  · cases moved
  · rename_i held
    split at moved
    · cases moved
    · rename_i kept
      exact ⟨not_not.mp held, by simpa using kept, (Step.moved.inj moved).symm⟩

theorem processed_moved {s s' : Capture} {failed die : Bool}
    (moved : processed s failed die = .moved s') :
    s.phase = .capturing ∧ (s' = s ∨
      s' = { s with phase := .stoppingIn, input := markDead s.input }) := by
  simp only [processed] at moved
  split at moved
  · cases moved
  · rename_i here
    refine ⟨not_not.mp here, ?_⟩
    split at moved
    · split at moved
      · cases moved
      · exact Or.inr (Step.moved.inj moved).symm
    · exact Or.inl (Step.moved.inj moved).symm

theorem inputWaited_moved {s s' : Capture} (moved : inputWaited s = .moved s') :
    s.phase = .stoppingIn ∧ s.input.submitted = [] ∧
      s' = { s with
        phase := .stoppingOut
        input := { s.input with freed := true }
        output := markDead s.output } := by
  simp only [inputWaited] at moved
  split at moved
  · cases moved
  · rename_i here
    split at moved
    · cases moved
    · rename_i free
      simp only [not_or, not_not] at here free
      exact ⟨here.1, free.1, (Step.moved.inj moved).symm⟩

theorem outputWaited_moved {s s' : Capture} (moved : outputWaited s = .moved s') :
    s.phase = .stoppingOut ∧ s.output.submitted = [] ∧
      s' = { s with
        phase := .stopped
        output := { s.output with freed := true }
        audio := none } := by
  simp only [outputWaited] at moved
  split at moved
  · cases moved
  · rename_i here
    split at moved
    · cases moved
    · rename_i free
      simp only [not_or, not_not] at here free
      exact ⟨here.1, free, (Step.moved.inj moved).symm⟩

/- The streams and the buffers in every state. -/

def Phase.inputOver (phase : Phase) : Bool := phase = .stoppingOut || phase = .stopped

structure Sound (s : Capture) : Prop where
  input : Accounted s.input
  output : Accounted s.output
  inputDead : s.input.strm.dead = !decide (s.phase = .capturing)
  outputDead : s.output.strm.dead = s.phase.inputOver
  inputFreed : s.input.freed = s.phase.inputOver
  outputFreed : s.output.freed = decide (s.phase = .stopped)
  inputGone : s.phase.inputOver → s.input.submitted = []
  outputGone : s.phase = .stopped → s.output.submitted = []
  buffers : s.audio.isSome = !decide (s.phase = .stopped)

theorem receive_kept {audio audio' : Option KinectAudio.AudioStream} {given : List Packet}
    {called : List Callback} (done : receive audio given = some (audio', called)) :
    audio'.isSome = audio.isSome := by
  unfold receive at done
  split at done
  · cases done
    rfl
  · obtain ⟨buffers, had, went⟩ := Option.bind_eq_some_iff.mp done
    obtain ⟨outcome, _, same⟩ := Option.map_eq_some_iff.mp went
    cases same
    simp [had]

theorem handBack_kept (pipe : Pipe) (i : Nat) (xfer : HandedBack) :
    (handBack pipe i xfer).freed = pipe.freed ∧
      (handBack pipe i xfer).unallocated = pipe.unallocated ∧
      (handBack pipe i xfer).strm.dead = pipe.strm.dead ∧
      (handBack pipe i xfer).strm.pkts = pipe.strm.pkts ∧
      (handBack pipe i xfer).strm.len = pipe.strm.len := by
  rw [handBack_cases]
  split <;> exact ⟨rfl, rfl, rfl, rfl, rfl⟩

theorem start_kept (fates : List Fate) (pipe : Pipe) (i : Nat) :
    (startXfers pipe i fates).freed = pipe.freed ∧
      (startXfers pipe i fates).strm.dead = pipe.strm.dead ∧
      (startXfers pipe i fates).strm.pkts = pipe.strm.pkts ∧
      (startXfers pipe i fates).strm.len = pipe.strm.len := by
  induction fates generalizing pipe i with
  | nil => exact ⟨rfl, rfl, rfl, rfl⟩
  | cons fate fates ih =>
    obtain ⟨freed, dead, pkts, len⟩ := ih (startXfer pipe i fate) (i + 1)
    rw [startXfers, freed, dead, pkts, len]
    cases fate <;> exact ⟨rfl, rfl, rfl, rfl⟩

theorem startAudio_sound (pkts : Nat) (inFates outFates : List Fate) :
    Sound (startAudio pkts inFates outFates) := by
  obtain ⟨inFreed, inDead, _⟩ := start_kept inFates
    ⟨⟨inFates.length, pkts, 524, false, 0⟩, [], [], false⟩ 0
  obtain ⟨outFreed, outDead, _⟩ := start_kept outFates
    ⟨⟨outFates.length, pkts, 76, false, 0⟩, [], [], false⟩ 0
  exact ⟨start_accounted pkts 524 inFates, start_accounted pkts 76 outFates, inDead, outDead,
    inFreed, outFreed, fun ended => absurd ended Bool.false_ne_true, by simp [startAudio], rfl⟩

theorem step_sound {s s' : Capture} {e : Event} (moved : step s e = .moved s') (sound : Sound s) :
    Sound s' := by
  cases e with
  | handInput i xfer =>
    obtain ⟨held, kept, audio, called, done, rfl⟩ := handInput_moved moved
    obtain ⟨freed, _, dead, _⟩ := handBack_kept s.input i xfer
    have going : s.phase.inputOver = false := sound.inputFreed ▸ kept
    exact { sound with
      input := handBack_accounted sound.input held xfer
      inputDead := dead.trans sound.inputDead
      inputFreed := freed.trans sound.inputFreed
      inputGone := fun ended => by simp [going] at ended
      buffers := (receive_kept done).trans sound.buffers }
  | handOutput i xfer =>
    obtain ⟨held, kept, rfl⟩ := handOutput_moved moved
    obtain ⟨freed, _, dead, _⟩ := handBack_kept s.output i xfer
    have going : ¬ s.phase = .stopped := by
      have open_ := sound.outputFreed
      rw [kept] at open_
      simpa using open_
    exact { sound with
      output := handBack_accounted sound.output held xfer
      outputDead := dead.trans sound.outputDead
      outputFreed := freed.trans sound.outputFreed
      outputGone := fun ended => absurd ended going }
  | processed failed die =>
    obtain ⟨here, rfl | rfl⟩ := processed_moved moved
    · exact sound
    · have outputDead := sound.outputDead
      have inputFreed := sound.inputFreed
      have outputFreed := sound.outputFreed
      have buffers := sound.buffers
      rw [here] at outputDead inputFreed outputFreed buffers
      exact ⟨markDead_accounted sound.input, sound.output, rfl, outputDead, inputFreed, outputFreed,
        fun ended => absurd ended Bool.false_ne_true, by simp, buffers⟩
  | inputWaited =>
    obtain ⟨here, gone, rfl⟩ := inputWaited_moved moved
    have inputDead := sound.inputDead
    have outputFreed := sound.outputFreed
    have buffers := sound.buffers
    rw [here] at inputDead outputFreed buffers
    exact ⟨⟨sound.input.once, sound.input.total⟩, markDead_accounted sound.output, inputDead, rfl, rfl,
      outputFreed, fun _ => gone, by simp, buffers⟩
  | outputWaited =>
    obtain ⟨here, gone, rfl⟩ := outputWaited_moved moved
    have inputDead := sound.inputDead
    have outputDead := sound.outputDead
    have inputFreed := sound.inputFreed
    have inputGone := sound.inputGone
    rw [here] at inputDead outputDead inputFreed inputGone
    exact ⟨sound.input, ⟨sound.output.once, sound.output.total⟩, inputDead, outputDead, inputFreed,
      rfl, fun _ => inputGone rfl, fun _ => gone, rfl⟩

theorem run_sound {pkts : Nat} {inFates outFates : List Fate}
    {history : List (Transition Capture Event)} {s : Capture}
    (run : Run next (startAudio pkts inFates outFates) history s) : Sound s :=
  run_invariant Sound (startAudio_sound pkts inFates outFates)
    (fun _ _ _ moved sound => step_sound (next_moved.mp moved) sound) run

/- What stays as it was started. -/

structure Framed (pkts : Nat) (inFates outFates : List Fate) (s : Capture) : Prop where
  pktsIn : s.input.strm.pkts = pkts
  lenIn : s.input.strm.len = 524
  missingIn : s.input.unallocated ≠ [] ↔ .noMemory ∈ inFates
  missingOut : s.output.unallocated ≠ [] ↔ .noMemory ∈ outFates

theorem start_missing (fates : List Fate) (pipe : Pipe) (i : Nat) :
    (startXfers pipe i fates).unallocated ≠ [] ↔ pipe.unallocated ≠ [] ∨ .noMemory ∈ fates := by
  induction fates generalizing pipe i with
  | nil => simp [startXfers]
  | cons fate fates ih =>
    rw [startXfers, ih]
    cases fate <;> simp [startXfer]

theorem startAudio_framed (pkts : Nat) (inFates outFates : List Fate) :
    Framed pkts inFates outFates (startAudio pkts inFates outFates) := by
  obtain ⟨_, _, pktsIn, lenIn⟩ := start_kept inFates
    ⟨⟨inFates.length, pkts, 524, false, 0⟩, [], [], false⟩ 0
  refine ⟨pktsIn, lenIn, ?_, ?_⟩
  · exact (start_missing _ _ _).trans (by simp)
  · exact (start_missing _ _ _).trans (by simp)

theorem step_framed {pkts : Nat} {inFates outFates : List Fate} {s s' : Capture} {e : Event}
    (moved : step s e = .moved s') (framed : Framed pkts inFates outFates s) :
    Framed pkts inFates outFates s' := by
  cases e with
  | handInput i xfer =>
    obtain ⟨_, _, audio, called, _, rfl⟩ := handInput_moved moved
    obtain ⟨_, missing, _, pktsIn, lenIn⟩ := handBack_kept s.input i xfer
    exact ⟨pktsIn.trans framed.pktsIn, lenIn.trans framed.lenIn,
      missing ▸ framed.missingIn, framed.missingOut⟩
  | handOutput i xfer =>
    obtain ⟨_, _, rfl⟩ := handOutput_moved moved
    obtain ⟨_, missing, _⟩ := handBack_kept s.output i xfer
    exact { framed with missingOut := missing ▸ framed.missingOut }
  | processed failed die =>
    obtain ⟨_, rfl | rfl⟩ := processed_moved moved
    · exact framed
    · exact ⟨framed.pktsIn, framed.lenIn, framed.missingIn, framed.missingOut⟩
  | inputWaited =>
    obtain ⟨_, _, rfl⟩ := inputWaited_moved moved
    exact ⟨framed.pktsIn, framed.lenIn, framed.missingIn, framed.missingOut⟩
  | outputWaited =>
    obtain ⟨_, _, rfl⟩ := outputWaited_moved moved
    exact ⟨framed.pktsIn, framed.lenIn, framed.missingIn, framed.missingOut⟩

theorem run_framed {pkts : Nat} {inFates outFates : List Fate}
    {history : List (Transition Capture Event)} {s : Capture}
    (run : Run next (startAudio pkts inFates outFates) history s) :
    Framed pkts inFates outFates s :=
  run_invariant (Framed pkts inFates outFates) (startAudio_framed pkts inFates outFates)
    (fun _ _ _ moved framed => step_framed (next_moved.mp moved) framed) run

/- Packets reach the callback only while the program captures. -/

def givenBy (pkts : Nat) (s : Capture) : Event → List Packet
  | .handInput _ xfer =>
      if s.phase = .capturing ∧ xfer.status = .completed then isoPackets pkts 524 xfer else []
  | _ => []

theorem given_here {pkts : Nat} {inFates outFates : List Fate} {s : Capture} (sound : Sound s)
    (framed : Framed pkts inFates outFates s) (i : Nat) (xfer : HandedBack) :
    (isoCallback s.input.strm xfer).given = givenBy pkts s (.handInput i xfer) := by
  have alive : s.input.strm.dead = false ↔ s.phase = .capturing := by
    rw [sound.inputDead]
    simp
  rw [callback_given, framed.pktsIn, framed.lenIn]
  simp only [alive, givenBy]

def benchXfer (buffer : Packet) : HandedBack := ⟨.completed, buffer, fun _ => buffer.length, .taken⟩

theorem bench_stopping : ∃ history s,
    Run next (startAudio 1 [.taken, .refused, .taken] [.taken]) history s ∧
      s.phase = .stoppingIn ∧ s.input.submitted.length = 2 := by
  have begun : Run next (startAudio 1 [.taken, .refused, .taken] [.taken]) [] _ := Run.start
  have first := begun.go (.handInput 2 (benchXfer (KinectAudio.benchPacket 2 3 7)))
    (by decide +kernel)
  have second := first.go (.handOutput 0 (benchXfer (List.replicate 76 0))) (by decide +kernel)
  have third := second.go (.handInput 0 (benchXfer (KinectAudio.benchPacket 2 6 9)))
    (by decide +kernel)
  have last := third.go (.processed false true) (by decide +kernel)
  exact ⟨_, _, last, by decide +kernel, by decide +kernel⟩

def delivered (pkts : Nat) (history : List (Transition Capture Event)) : List Packet :=
  history.reverse.flatMap fun t => givenBy pkts t.before t.input

theorem delivered_cons (pkts : Nat) (t : Transition Capture Event)
    (history : List (Transition Capture Event)) :
    delivered pkts (t :: history) = delivered pkts history ++ givenBy pkts t.before t.input := by
  simp [delivered]

theorem receive_some (buffers : KinectAudio.AudioStream) (given : List Packet) :
    receive (some buffers) given =
      (received true buffers given).map fun outcome => (some outcome.audio, outcome.called) := by
  cases given with
  | nil => rfl
  | cons pkt later => rfl

theorem run_received {pkts : Nat} {inFates outFates : List Fate}
    {history : List (Transition Capture Event)} {s : Capture}
    (run : Run next (startAudio pkts inFates outFates) history s) :
    ∃ outcome, received true KinectAudio.started (delivered pkts history) = some outcome ∧
      s.called = outcome.called ∧ (s.phase ≠ .stopped → s.audio = some outcome.audio) := by
  induction run with
  | start => exact ⟨_, rfl, rfl, fun _ => rfl⟩
  | step earlier moved ih =>
    rename_i older before after e
    have sound := run_sound earlier
    have framed := run_framed earlier
    obtain ⟨outcome, done, called, audio⟩ := ih
    rw [delivered_cons]
    have quiet : givenBy pkts before e = [] → after.called = before.called →
        (after.phase ≠ .stopped → before.phase ≠ .stopped ∧ after.audio = before.audio) →
        ∃ outcome, received true KinectAudio.started
            (delivered pkts older ++ givenBy pkts before e) = some outcome ∧
          after.called = outcome.called ∧
          (after.phase ≠ .stopped → after.audio = some outcome.audio) := by
      intro nothing same kept
      rw [nothing, List.append_nil]
      refine ⟨outcome, done, same.trans called, ?_⟩
      intro going
      rw [(kept going).2, audio (kept going).1]
    cases e with
    | handInput i xfer =>
      obtain ⟨held, _, audio', called', took, rfl⟩ := handInput_moved (next_moved.mp moved)
      have going : before.phase ≠ .stopped := by
        intro ended
        simp [sound.inputGone (by rw [ended]; rfl)] at held
      rw [audio going, receive_some, given_here sound framed i xfer] at took
      obtain ⟨rest, went, same⟩ := Option.map_eq_some_iff.mp took
      cases same
      refine ⟨⟨rest.audio, outcome.called ++ rest.called, outcome.logged ++ rest.logged⟩, ?_, ?_,
        fun _ => rfl⟩
      · rw [KinectAudio.received_append, done, Option.bind_some, went, Option.map_some]
      · simp only [called]
    | handOutput i xfer =>
      obtain ⟨_, _, rfl⟩ := handOutput_moved (next_moved.mp moved)
      exact quiet rfl rfl fun going => ⟨going, rfl⟩
    | processed failed die =>
      obtain ⟨here, rfl | rfl⟩ := processed_moved (next_moved.mp moved)
      · exact quiet rfl rfl fun going => ⟨going, rfl⟩
      · exact quiet rfl rfl fun _ => ⟨by simp [here], rfl⟩
    | inputWaited =>
      obtain ⟨here, _, rfl⟩ := inputWaited_moved (next_moved.mp moved)
      exact quiet rfl rfl fun _ => ⟨by simp [here], rfl⟩
    | outputWaited =>
      obtain ⟨_, _, rfl⟩ := outputWaited_moved (next_moved.mp moved)
      exact quiet rfl rfl fun going => absurd rfl going

theorem run_called {pkts : Nat} {inFates outFates : List Fate}
    {history : List (Transition Capture Event)} {s : Capture}
    (run : Run next (startAudio pkts inFates outFates) history s) :
    s.called = (turns reading 0 [] (accepted (delivered pkts history))).map fun before =>
      assembled (latest reading silence before) := by
  obtain ⟨outcome, done, called, _⟩ := run_received run
  rw [called, KinectAudio.windows_called done]

/-- The packets prepared for sending are numbered through, over all transfers. -/
theorem run_sent {pkts : Nat} {inFates outFates : List Fate}
    {history : List (Transition Capture Event)} {s : Capture}
    (run : Run next (startAudio pkts inFates outFates) history s) :
    s.out = OutgoingAudio.reached s.sent.length ∧
      s.sent = (List.range s.sent.length).map OutgoingAudio.outPacket := by
  refine run_invariant (fun s => s.out = OutgoingAudio.reached s.sent.length ∧
    s.sent = (List.range s.sent.length).map OutgoingAudio.outPacket) ⟨OutgoingAudio.reached_zero.symm, rfl⟩ ?_ run
  intro s e s' moved ih
  cases e with
  | handInput i xfer =>
    obtain ⟨_, _, _, _, _, rfl⟩ := handInput_moved (next_moved.mp moved)
    exact ih
  | handOutput i xfer =>
    obtain ⟨_, _, rfl⟩ := handOutput_moved (next_moved.mp moved)
    obtain ⟨out, sent⟩ := ih
    have going := OutgoingAudio.prepared_reached s.sent.length
      ((isoCallback s.output.strm xfer).given.map outBuffer)
    simp only [out, going, List.length_append, List.length_map, List.length_range]
    refine ⟨trivial, ?_⟩
    rw [List.range_add, List.map_append, ← sent, List.map_map]
    rfl
  | processed failed die =>
    obtain ⟨_, rfl | rfl⟩ := processed_moved (next_moved.mp moved) <;> exact ih
  | inputWaited =>
    obtain ⟨_, _, rfl⟩ := inputWaited_moved (next_moved.mp moved)
    exact ih
  | outputWaited =>
    obtain ⟨_, _, rfl⟩ := outputWaited_moved (next_moved.mp moved)
    exact ih

theorem run_sent_bench : ∃ history s,
    Run next (startAudio 1 [.taken, .refused, .taken] [.taken]) history s ∧
      s.out = OutgoingAudio.reached s.sent.length ∧
      s.sent = (List.range s.sent.length).map OutgoingAudio.outPacket := by
  obtain ⟨history, s, run, _⟩ := bench_stopping
  exact ⟨history, s, run, run_sent run⟩

/-- The stop waits until libusb has given every transfer of the stream back, which
    each of them brings nearer, and the callback is not called meanwhile. -/
theorem stop_waits {pkts : Nat} {inFates outFates : List Fate}
    {history : List (Transition Capture Event)} {s : Capture}
    (run : Run next (startAudio pkts inFates outFates) history s) (waiting : s.phase = .stoppingIn) :
    (Drained s.input ↔ s.input.submitted = []) ∧
      ∀ i ∈ s.input.submitted, ∀ xfer, ∃ s', step s (.handInput i xfer) = .moved s' ∧
        s'.phase = .stoppingIn ∧ s'.called = s.called ∧
        s'.input.submitted.length + 1 = s.input.submitted.length := by
  have sound := run_sound run
  refine ⟨drained_iff sound.input, ?_⟩
  intro i held xfer
  have dead : s.input.strm.dead = true := by rw [sound.inputDead, waiting]; rfl
  have kept : s.input.freed = false := by rw [sound.inputFreed, waiting]; rfl
  obtain ⟨given, erased⟩ := handBack_dead dead i xfer
  have size := List.length_erase_of_mem held
  have some := List.length_pos_of_mem held
  refine ⟨{ s with
    deviceDead := s.deviceDead || (isoCallback s.input.strm xfer).foundDead
    input := handBack s.input i xfer
    called := s.called ++ [] }, ?_, waiting, List.append_nil _, ?_⟩
  · simp [step, handInput, held, kept, given, receive]
  · simp only [erased]
    omega

theorem stop_waits_bench : ∃ history s,
    Run next (startAudio 1 [.taken, .refused, .taken] [.taken]) history s ∧
      s.phase = .stoppingIn ∧ ¬ Drained s.input := by
  obtain ⟨history, s, run, waiting, held⟩ := bench_stopping
  refine ⟨history, s, run, waiting, ?_⟩
  intro drained
  rw [(stop_waits run waiting).1.mp drained] at held
  cases held

end SoqTracker.CaptureProgram
