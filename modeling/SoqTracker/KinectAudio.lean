import SoqTracker.AudioCapture
import SoqTracker.Latches

/- The receiving side of libfreenect's audio.c. The Kinect sends each window of
   256 samples as packets of 128 samples, two for each microphone, and the
   driver calls back with its buffers when the window number changes. Fields are
   in the order of bytes of the machine, which is little-endian. -/
namespace SoqTracker.KinectAudio
open AudioCapture Latches

abbrev Packet := List UInt8

/- An audio block in memory. -/

def byteAt (pkt : Packet) (i : Nat) : Nat := (pkt.getD i 0).toNat

def uint16At (pkt : Packet) (i : Nat) : UInt16 := .ofNat (byteAt pkt i + 256 * byteAt pkt (i + 1))

def uint32At (pkt : Packet) (i : Nat) : UInt32 :=
  .ofNat (byteAt pkt i + 256 * byteAt pkt (i + 1) + 65536 * byteAt pkt (i + 2) +
    16777216 * byteAt pkt (i + 3))

structure AudioInBlock where
  magic : UInt32
  channel : UInt16
  window : UInt16
  samples : Vector Int32 128

def audioInBlock (pkt : Packet) : AudioInBlock :=
  ⟨uint32At pkt 0, uint16At pkt 4, uint16At pkt 8,
    Vector.ofFn fun i => (uint32At pkt (12 + 4 * i.val)).toInt32⟩

/- The driver. -/

structure AudioStream where
  inWindow : UInt16
  lastSeenWindow : Vector UInt16 10
  micBuffer : Vector (Vector Int32 256) 4
  cancelledBuffer : Vector Int16 256

def started : AudioStream :=
  ⟨0, .replicate 10 0, .replicate 4 (.replicate 256 0), .replicate 256 0⟩

inductive Message where
  | invalidMagic (magic : UInt32)
  | windowChanged (was now : UInt16)
  | noData (channel : Nat)
  | packetLoss (dropped : Int)
  | invalidChannel (channel : UInt16)
  | strangeLength (len : Nat)
deriving DecidableEq

/-- What the driver does with a packet: its new state, the calls of audio_in_cb
    and the messages in the log. -/
structure Outcome where
  audio : AudioStream
  called : List Callback
  logged : List Message

def audioIn (audio : AudioStream) : Callback :=
  let mic := fun (m : Fin 4) (i : Nat) => audio.micBuffer[m][i]?.getD 0
  ⟨256, mic 0, mic 1, mic 2, mic 3⟩

def unseen (audio : AudioStream) : List Message :=
  (List.finRange 10).filterMap fun t =>
    if audio.lastSeenWindow[t] ≠ audio.inWindow then some (.noData (t.val + 1)) else none

def loss (was now : UInt16) : List Message :=
  let ahead : Int := now.toNat - was.toNat
  if 3 < ahead then [.packetLoss ((ahead - 3).tdiv 3)] else []

def turnWindow (audioInCb : Bool) (audio : AudioStream) (block : AudioInBlock) : Outcome :=
  if block.window ≠ audio.inWindow then
    ⟨{ audio with inWindow := block.window }, if audioInCb then [audioIn audio] else [],
      .windowChanged audio.inWindow block.window ::
        (unseen audio ++ loss audio.inWindow block.window)⟩
  else ⟨audio, [], []⟩

def memcpy {α : Type} {n m : Nat} (dst : Vector α n) (offset : Nat) (src : Vector α m) :
    Vector α n :=
  Vector.ofFn fun i =>
    if inside : offset ≤ i.val ∧ i.val < offset + m then src[i.val - offset] else dst[i]

def halves (samples : Vector Int32 128) : Vector Int16 256 :=
  Vector.ofFn fun i =>
    let sample := samples[i.val / 2]
    if i.val % 2 = 0 then sample.toInt16 else (sample >>> 16).toInt16

def copySamples (audio : AudioStream) (block : AudioInBlock) : AudioStream :=
  let channel := block.channel.toNat
  if channel = 1 then { audio with cancelledBuffer := halves block.samples }
  else if mics : 2 ≤ channel ∧ channel ≤ 9 then
    let buffer := audio.micBuffer[(channel - 2) / 2]
    let filled := if channel % 2 = 1 then memcpy buffer 128 block.samples
      else memcpy buffer 0 block.samples
    { audio with micBuffer := audio.micBuffer.set ((channel - 2) / 2) filled }
  else audio

def channelMessages (block : AudioInBlock) : List Message :=
  if 1 ≤ block.channel.toNat ∧ block.channel.toNat ≤ 9 then [] else [.invalidChannel block.channel]

/-- The write to last_seen_window, of which the code has checked no bound. Past
    the ten entries the behaviour is undefined, and nothing is returned. -/
def noteWindow (audio : AudioStream) (block : AudioInBlock) : Option AudioStream :=
  if inside : 1 ≤ block.channel.toNat ∧ block.channel.toNat ≤ 10 then
    some { audio with
      lastSeenWindow := audio.lastSeenWindow.set (block.channel.toNat - 1) block.window }
  else none

def isoInCallback (audioInCb : Bool) (audio : AudioStream) (pkt : Packet) : Option Outcome :=
  if pkt.length = 524 then
    let block := audioInBlock pkt
    if block.magic ≠ 0x80000080 then some ⟨audio, [], [.invalidMagic block.magic]⟩
    else
      let turned := turnWindow audioInCb audio block
      (noteWindow (copySamples turned.audio block) block).map fun noted =>
        ⟨noted, turned.called, turned.logged ++ channelMessages block⟩
  else if pkt.length = 60 then some ⟨audio, [], []⟩
  else if pkt.length ≠ 0 then some ⟨audio, [], [.strangeLength pkt.length]⟩
  else some ⟨audio, [], []⟩

def received (audioInCb : Bool) (audio : AudioStream) : List Packet → Option Outcome
  | [] => some ⟨audio, [], []⟩
  | pkt :: later => do
      let first ← isoInCallback audioInCb audio pkt
      let rest ← received audioInCb first.audio later
      some ⟨rest.audio, first.called ++ rest.called, first.logged ++ rest.logged⟩

/- What the packets say. -/

abbrev channelOf (pkt : Packet) : Nat := (audioInBlock pkt).channel.toNat

abbrev windowOf (pkt : Packet) : UInt16 := (audioInBlock pkt).window

/-- An audio block of the right length and magic number. -/
def Accepted (pkt : Packet) : Prop := pkt.length = 524 ∧ (audioInBlock pkt).magic = 0x80000080

instance : DecidablePred Accepted := fun pkt =>
  inferInstanceAs (Decidable (pkt.length = 524 ∧ (audioInBlock pkt).magic = 0x80000080))

def InRange (pkt : Packet) : Prop := 1 ≤ channelOf pkt ∧ channelOf pkt ≤ 10

instance : DecidablePred InRange := fun pkt =>
  inferInstanceAs (Decidable (1 ≤ channelOf pkt ∧ channelOf pkt ≤ 10))

def accepted (pkts : List Packet) : List Packet := pkts.filter fun pkt => Accepted pkt

abbrev Cell := Fin 4 × Fin 2

def slot (pkt : Packet) : Option Cell :=
  if mics : 2 ≤ channelOf pkt ∧ channelOf pkt ≤ 9 then
    some (⟨(channelOf pkt - 2) / 2, by omega⟩, ⟨channelOf pkt % 2, by omega⟩)
  else none

abbrev Cells := Cell → Vector Int32 128

def reading : Reading Packet UInt16 Cell (Vector Int32 128) :=
  ⟨windowOf, slot, fun pkt => (audioInBlock pkt).samples⟩

def silence : Cells := fun _ => .replicate 128 0

def sample (cells : Cells) (m : Fin 4) (i : Nat) : Int32 :=
  if i < 128 then (cells (m, 0))[i]?.getD 0 else (cells (m, 1))[i - 128]?.getD 0

def micHalves (m : Fin 4) (cells : Cells) : List (Vector Int32 128) := [cells (m, 0), cells (m, 1)]

def outerHalves (cells : Cells) : List (Vector Int32 128 × Vector Int32 128) :=
  [(cells (0, 0), cells (3, 0)), (cells (0, 1), cells (3, 1))]

def assembled (cells : Cells) : Callback :=
  ⟨256, sample cells 0, sample cells 1, sample cells 2, sample cells 3⟩

/- The driver's buffers hold the newest packet of each channel. -/

def Holds (audio : AudioStream) (cells : Cells) : Prop :=
  ∀ m i, audio.micBuffer[m][i]?.getD 0 = sample cells m i

theorem started_holds : Holds started silence := by
  intro m i
  simp only [started, sample, silence, Vector.getElem_replicate, Fin.getElem_fin]
  by_cases first : i < 128
  · have within : i < 256 := by omega
    simp [first, within]
  · rw [if_neg first]
    by_cases within : i < 256
    · have later : i - 128 < 128 := by omega
      simp [within, later]
    · have past : ¬ i - 128 < 128 := by omega
      simp [within, past]

theorem audioIn_assembled {audio : AudioStream} {cells : Cells} (holds : Holds audio cells) :
    audioIn audio = assembled cells := by
  have mic : (fun (m : Fin 4) (i : Nat) => audio.micBuffer[m][i]?.getD 0) = sample cells :=
    funext fun m => funext (holds m)
  have seen : ∀ mic mic' : Fin 4 → Nat → Int32, mic = mic' →
      Callback.mk 256 (mic 0) (mic 1) (mic 2) (mic 3) =
        ⟨256, mic' 0, mic' 1, mic' 2, mic' 3⟩ := by
    rintro mic _ rfl
    rfl
  exact seen _ _ mic

theorem memcpy_first (dst : Vector Int32 256) (src : Vector Int32 128) (i : Nat) :
    (memcpy dst 0 src)[i]?.getD 0 = if i < 128 then src[i]?.getD 0 else dst[i]?.getD 0 := by
  by_cases within : i < 256
  · by_cases first : i < 128
    · simp [memcpy, within, first]
    · simp [memcpy, within, first]
  · have past : ¬ i < 128 := by omega
    simp [within, past]

theorem memcpy_second (dst : Vector Int32 256) (src : Vector Int32 128) (i : Nat) :
    (memcpy dst 128 src)[i]?.getD 0 =
      if i < 128 then dst[i]?.getD 0 else src[i - 128]?.getD 0 := by
  by_cases within : i < 256
  · by_cases first : i < 128
    · have before : ¬ 128 ≤ i := by omega
      simp [memcpy, within, first, before]
    · have from128 : 128 ≤ i := by omega
      have later : i - 128 < 128 := by omega
      simp [memcpy, within, first, from128, later]
  · have past : ¬ i < 128 := by omega
    have beyond : ¬ i - 128 < 128 := by omega
    simp [within, past, beyond]

theorem sample_first (cells : Cells) (m : Fin 4) (samples : Vector Int32 128) (i : Nat) :
    sample (Function.update cells (m, 0) samples) m i =
      if i < 128 then samples[i]?.getD 0 else sample cells m i := by
  unfold sample
  by_cases first : i < 128 <;> simp [first]

theorem sample_second (cells : Cells) (m : Fin 4) (samples : Vector Int32 128) (i : Nat) :
    sample (Function.update cells (m, 1) samples) m i =
      if i < 128 then sample cells m i else samples[i - 128]?.getD 0 := by
  unfold sample
  by_cases first : i < 128 <;> simp [first]

theorem sample_other (cells : Cells) {m mic : Fin 4} (other : m ≠ mic) (half : Fin 2)
    (samples : Vector Int32 128) (i : Nat) :
    sample (Function.update cells (mic, half) samples) m i = sample cells m i := by
  unfold sample
  simp [other]

theorem copy_other {audio : AudioStream} {block : AudioInBlock}
    (other : ¬ (2 ≤ block.channel.toNat ∧ block.channel.toNat ≤ 9)) :
    (copySamples audio block).micBuffer = audio.micBuffer := by
  simp only [copySamples, dif_neg other]
  split <;> rfl

theorem copy_mic {audio : AudioStream} {block : AudioInBlock}
    (mics : 2 ≤ block.channel.toNat ∧ block.channel.toNat ≤ 9) (m : Fin 4) :
    (copySamples audio block).micBuffer[m] =
      if (block.channel.toNat - 2) / 2 = m then
        if block.channel.toNat % 2 = 1 then memcpy audio.micBuffer[m] 128 block.samples
        else memcpy audio.micBuffer[m] 0 block.samples
      else audio.micBuffer[m] := by
  obtain ⟨m, small⟩ := m
  have others : block.channel.toNat ≠ 1 := by omega
  simp only [copySamples, if_neg others, dif_pos mics, Fin.getElem_fin]
  by_cases here : (block.channel.toNat - 2) / 2 = m
  · subst here
    simp
  · rw [if_neg here, Vector.getElem_set_ne _ _ here]

theorem copy_holds {audio : AudioStream} {cells : Cells} (pkt : Packet)
    (holds : Holds audio cells) :
    Holds (copySamples audio (audioInBlock pkt)) (write reading cells pkt) := by
  intro m i
  by_cases mics : 2 ≤ channelOf pkt ∧ channelOf pkt ≤ 9
  · have place : (channelOf pkt - 2) / 2 < 4 := by omega
    have own : reading.slot pkt =
        some (⟨(channelOf pkt - 2) / 2, place⟩, ⟨channelOf pkt % 2, by omega⟩) := dif_pos mics
    have written : reading.value pkt = (audioInBlock pkt).samples := rfl
    rw [copy_mic mics m]
    simp only [write, own, written]
    by_cases here : (channelOf pkt - 2) / 2 = m.val
    · have mic : (⟨(channelOf pkt - 2) / 2, place⟩ : Fin 4) = m := Fin.ext here
      rw [if_pos here]
      by_cases odd : channelOf pkt % 2 = 1
      · have half : (⟨channelOf pkt % 2, by omega⟩ : Fin 2) = 1 := Fin.ext odd
        rw [mic, half, sample_second, if_pos odd, memcpy_second, holds m i]
      · have half : (⟨channelOf pkt % 2, by omega⟩ : Fin 2) = 0 := Fin.ext (by simp; omega)
        rw [mic, half, sample_first, if_neg odd, memcpy_first, holds m i]
    · have mic : m ≠ ⟨(channelOf pkt - 2) / 2, place⟩ := fun same => here (by rw [same])
      rw [if_neg here, sample_other cells mic, holds m i]
  · have own : reading.slot pkt = none := dif_neg mics
    have kept : (copySamples audio (audioInBlock pkt)).micBuffer = audio.micBuffer := copy_other mics
    simp only [kept, write, own]
    exact holds m i

/- One packet. -/

theorem turn_spec (audioInCb : Bool) (audio : AudioStream) (block : AudioInBlock) :
    (turnWindow audioInCb audio block).audio = { audio with inWindow := block.window } ∧
      (turnWindow audioInCb audio block).called =
        if block.window = audio.inWindow then [] else if audioInCb then [audioIn audio] else [] := by
  unfold turnWindow
  by_cases same : block.window = audio.inWindow
  · simp [same]
  · simp [same]

theorem copy_frame (audio : AudioStream) (block : AudioInBlock) :
    (copySamples audio block).inWindow = audio.inWindow ∧
      (copySamples audio block).lastSeenWindow = audio.lastSeenWindow := by
  simp only [copySamples]
  split
  · exact ⟨rfl, rfl⟩
  · split <;> exact ⟨rfl, rfl⟩

theorem note_spec {audio noted : AudioStream} {block : AudioInBlock}
    (done : noteWindow audio block = some noted) :
    noted.inWindow = audio.inWindow ∧ noted.micBuffer = audio.micBuffer ∧
      ∀ t : Fin 10, noted.lastSeenWindow[t] =
        if block.channel.toNat = t + 1 then block.window else audio.lastSeenWindow[t] := by
  unfold noteWindow at done
  split at done
  · rename_i inside
    rw [← Option.some.inj done]
    refine ⟨rfl, rfl, ?_⟩
    intro t
    simp only [Fin.getElem_fin, Vector.getElem_set]
    have place : block.channel.toNat - 1 = t.val ↔ block.channel.toNat = t.val + 1 := by omega
    rw [if_congr place rfl rfl]
  · cases done

theorem iso_block {audioInCb : Bool} {audio : AudioStream} {pkt : Packet} (ok : Accepted pkt) :
    isoInCallback audioInCb audio pkt =
      let turned := turnWindow audioInCb audio (audioInBlock pkt)
      (noteWindow (copySamples turned.audio (audioInBlock pkt)) (audioInBlock pkt)).map fun noted =>
        ⟨noted, turned.called, turned.logged ++ channelMessages (audioInBlock pkt)⟩ := by
  unfold isoInCallback
  simp only [ok.1, ok.2, if_true, ne_eq, not_true_eq_false, if_false]

theorem iso_refused (audioInCb : Bool) (audio : AudioStream) {pkt : Packet}
    (refused : ¬ Accepted pkt) :
    ∃ logged, isoInCallback audioInCb audio pkt = some ⟨audio, [], logged⟩ := by
  unfold isoInCallback
  by_cases size : pkt.length = 524
  · have magic : (audioInBlock pkt).magic ≠ 0x80000080 := fun magic => refused ⟨size, magic⟩
    simp [size, magic]
  · simp only [size, if_false]
    split
    · exact ⟨_, rfl⟩
    · split <;> exact ⟨_, rfl⟩

theorem iso_accepted {audioInCb : Bool} {audio : AudioStream} {outcome : Outcome} {cells : Cells}
    {pkt : Packet} (done : isoInCallback audioInCb audio pkt = some outcome) (ok : Accepted pkt)
    (holds : Holds audio cells) :
    Holds outcome.audio (write reading cells pkt) ∧ outcome.audio.inWindow = windowOf pkt ∧
      outcome.called = if windowOf pkt = audio.inWindow then []
        else if audioInCb then [assembled cells] else [] := by
  rw [iso_block ok] at done
  obtain ⟨noted, wrote, rfl⟩ := Option.map_eq_some_iff.mp done
  obtain ⟨window, mics, _⟩ := note_spec wrote
  obtain ⟨turned, called⟩ := turn_spec audioInCb audio (audioInBlock pkt)
  have held : Holds (turnWindow audioInCb audio (audioInBlock pkt)).audio cells := by
    rw [turned]
    exact holds
  refine ⟨?_, ?_, ?_⟩
  · intro m i
    simp only [mics]
    exact copy_holds pkt held m i
  · rw [window, (copy_frame _ _).1, turned]
  · rw [called, audioIn_assembled holds]

/- All packets. -/

theorem received_cons (audioInCb : Bool) (audio : AudioStream) (pkt : Packet)
    (later : List Packet) :
    received audioInCb audio (pkt :: later) =
      (isoInCallback audioInCb audio pkt).bind fun first =>
        (received audioInCb first.audio later).map fun rest =>
          ⟨rest.audio, first.called ++ rest.called, first.logged ++ rest.logged⟩ := by
  rw [received]
  cases isoInCallback audioInCb audio pkt with
  | none => rfl
  | some first =>
    simp only [Option.bind_eq_bind, Option.bind_some]
    cases received audioInCb first.audio later <;> rfl

theorem received_append (audioInCb : Bool) (audio : AudioStream) (before later : List Packet) :
    received audioInCb audio (before ++ later) =
      (received audioInCb audio before).bind fun first =>
        (received audioInCb first.audio later).map fun rest =>
          ⟨rest.audio, first.called ++ rest.called, first.logged ++ rest.logged⟩ := by
  induction before generalizing audio with
  | nil => simp [received]
  | cons pkt before ih =>
    rw [List.cons_append, received_cons, received_cons]
    cases isoInCallback audioInCb audio pkt with
    | none => rfl
    | some first =>
      rw [Option.bind_some, Option.bind_some, ih]
      cases received audioInCb first.audio before with
      | none => rfl
      | some middle =>
        rw [Option.bind_some, Option.map_some, Option.bind_some, Option.map_map]
        congr 1
        funext rest
        simp [Function.comp_apply, List.append_assoc]

theorem received_shown {audioInCb : Bool} {audio : AudioStream} {outcome : Outcome} {cells : Cells}
    {pkts : List Packet} (done : received audioInCb audio pkts = some outcome)
    (holds : Holds audio cells) :
    Holds outcome.audio (latest reading cells (accepted pkts)) ∧
      outcome.called = if audioInCb
        then (shown reading audio.inWindow cells (accepted pkts)).map assembled else [] := by
  induction pkts generalizing audio cells outcome with
  | nil =>
    rw [← Option.some.inj done]
    exact ⟨holds, by simp [accepted, shown]⟩
  | cons pkt later ih =>
    rw [received_cons] at done
    obtain ⟨first, moved, went⟩ := Option.bind_eq_some_iff.mp done
    obtain ⟨rest, after, rfl⟩ := Option.map_eq_some_iff.mp went
    by_cases ok : Accepted pkt
    · obtain ⟨held, window, called⟩ := iso_accepted moved ok holds
      obtain ⟨kept, calls⟩ := ih after held
      have split : accepted (pkt :: later) = pkt :: accepted later := by simp [accepted, ok]
      rw [split, latest_cons]
      refine ⟨kept, ?_⟩
      rw [shown, called, calls, window]
      cases audioInCb with
      | false => simp
      | true =>
        by_cases same : windowOf pkt = audio.inWindow <;> simp [same, reading]
    · obtain ⟨logged, same⟩ := iso_refused audioInCb audio ok
      rw [moved, Option.some.injEq] at same
      subst same
      have split : accepted (pkt :: later) = accepted later := by simp [accepted, ok]
      rw [split]
      simpa using ih after holds

/- From the start of the audio. -/

def benchPacket (channel window level : UInt8) : Packet :=
  [0x80, 0, 0, 0x80, channel, 0, 0x0c, 0x02, window, 0, 0, 0] ++
    (List.replicate 128 [level, 0, 0, 0]).flatten

/-- A window is called out when the next one begins, each half as the newest packet
    of its channel left it, and silent where none came. -/
theorem windows_called {pkts : List Packet} {outcome : Outcome}
    (done : received true started pkts = some outcome) :
    outcome.called = (turns reading 0 [] (accepted pkts)).map fun before =>
      assembled (latest reading silence before) := by
  have called := (received_shown done started_holds).2
  have turned := shown_turns reading 0 silence [] (accepted pkts)
  have fresh : (started).inWindow = 0 := rfl
  rw [if_pos rfl, fresh] at called
  rw [latest_nil] at turned
  rw [called, turned, List.map_map]
  rfl

/-- Windows that arrive whole are called out whole, in order and none twice, after
    one call for what came before the first. The last window waits for its successor. -/
theorem whole_windows_called {pkts lead : List Packet} {windows : List (List Packet)}
    {outcome : Outcome} (done : received true started pkts = some outcome)
    (split : accepted pkts = lead ++ windows.flatten) (early : ∀ pkt ∈ lead, windowOf pkt = 0)
    (grouped : Grouped reading 0 windows) (whole : ∀ window ∈ windows, Covers reading window) :
    outcome.called = (assembled (latest reading silence lead) ::
      windows.map fun window => assembled (latest reading silence window)).dropLast := by
  have called := (received_shown done started_holds).2
  have fresh : (started).inWindow = 0 := rfl
  rw [if_pos rfl, fresh, split, shown_append reading 0 silence early,
    shown_groups grouped whole _ silence] at called
  rw [called, List.map_dropLast, List.map_cons, List.map_map]
  rfl

def benchWindow (window level : UInt8) : List Packet :=
  [1, 2, 3, 4, 5, 6, 7, 8, 9, 10].map fun channel => benchPacket channel window level

theorem bench_covers (window level : UInt8)
    (slots : (benchWindow window level).map slot = (benchWindow 3 7).map slot) :
    Covers reading (benchWindow window level) := by
  have listed : ∀ (mic : Fin 4) (half : Fin 2), some (mic, half) ∈ (benchWindow 3 7).map slot := by
    decide +kernel
  rintro ⟨mic, half⟩
  have mem := listed mic half
  rw [← slots] at mem
  exact List.mem_map.mp mem

theorem whole_windows_bench :
    ∃ outcome, received true started (benchPacket 2 0 4 :: benchWindow 3 7 ++ benchWindow 6 9) =
        some outcome ∧
      outcome.called = (assembled (latest reading silence [benchPacket 2 0 4]) ::
        [benchWindow 3 7, benchWindow 6 9].map fun window =>
          assembled (latest reading silence window)).dropLast := by
  have defined : (received true started
      (benchPacket 2 0 4 :: benchWindow 3 7 ++ benchWindow 6 9)).isSome := by decide +kernel
  obtain ⟨outcome, done⟩ := Option.isSome_iff_exists.mp defined
  refine ⟨outcome, done, whole_windows_called done ?_ ?_ ?_ ?_⟩
  · have all : ∀ pkt ∈ benchPacket 2 0 4 :: benchWindow 3 7 ++ benchWindow 6 9,
        Accepted pkt := by decide +kernel
    exact List.filter_eq_self.mpr fun pkt mem => decide_eq_true (all pkt mem)
  · decide +kernel
  · refine ⟨3, by decide, by simp [benchWindow], ?_, 6, by decide, by simp [benchWindow], ?_, trivial⟩
    · show ∀ pkt ∈ benchWindow 3 7, windowOf pkt = 3
      decide +kernel
    · show ∀ pkt ∈ benchWindow 6 9, windowOf pkt = 6
      decide +kernel
  · intro window mem
    simp only [List.mem_cons, List.not_mem_nil, or_false] at mem
    rcases mem with rfl | rfl
    · exact bench_covers 3 7 rfl
    · exact bench_covers 6 9 (by decide +kernel)

/-- Within a window the order of the packets does not matter, nor among those that
    come before the first. -/
theorem window_order {pkts pkts' lead lead' : List Packet} {windows windows' : List (List Packet)}
    {outcome outcome' : Outcome} (done : received true started pkts = some outcome)
    (done' : received true started pkts' = some outcome')
    (split : accepted pkts = lead ++ windows.flatten)
    (split' : accepted pkts' = lead' ++ windows'.flatten) (early : ∀ pkt ∈ lead, windowOf pkt = 0)
    (grouped : Grouped reading 0 windows)
    (distinct : ∀ window ∈ lead :: windows, Distinct reading window)
    (same : List.Forall₂ List.Perm (lead :: windows) (lead' :: windows')) :
    outcome.called = outcome'.called := by
  have called := (received_shown done started_holds).2
  have called' := (received_shown done' started_holds).2
  have fresh : (started).inWindow = 0 := rfl
  obtain ⟨leads, rest⟩ := List.forall₂_cons.mp same
  have early' : ∀ pkt ∈ lead', windowOf pkt = 0 := fun pkt mem => early pkt (leads.mem_iff.mpr mem)
  have here : Distinct reading lead := distinct lead List.mem_cons_self
  have later : ∀ window ∈ windows, Distinct reading window :=
    fun window mem => distinct window (List.mem_cons_of_mem lead mem)
  rw [fresh, split, shown_append reading 0 silence early, latest_perm here leads silence] at called
  rw [fresh, split', shown_append reading 0 silence early',
    ← shown_perm grouped later rest] at called'
  rw [called, called']

theorem window_order_bench :
    ∃ outcome outcome',
      received true started [benchPacket 4 0 2, benchPacket 2 0 1, benchPacket 2 3 7,
        benchPacket 3 3 5, benchPacket 2 6 9] = some outcome ∧
      received true started [benchPacket 2 0 1, benchPacket 4 0 2, benchPacket 3 3 5,
        benchPacket 2 3 7, benchPacket 2 6 9] = some outcome' ∧ outcome.called = outcome'.called := by
  let pkts := [benchPacket 4 0 2, benchPacket 2 0 1, benchPacket 2 3 7, benchPacket 3 3 5,
    benchPacket 2 6 9]
  let pkts' := [benchPacket 2 0 1, benchPacket 4 0 2, benchPacket 3 3 5, benchPacket 2 3 7,
    benchPacket 2 6 9]
  have defined : (received true started pkts).isSome := by decide +kernel
  have defined' : (received true started pkts').isSome := by decide +kernel
  obtain ⟨outcome, done⟩ := Option.isSome_iff_exists.mp defined
  obtain ⟨outcome', done'⟩ := Option.isSome_iff_exists.mp defined'
  have all : ∀ pkt ∈ pkts, Accepted pkt := by decide +kernel
  have all' : ∀ pkt ∈ pkts', Accepted pkt := by decide +kernel
  have split : accepted pkts = [benchPacket 4 0 2, benchPacket 2 0 1] ++
      [[benchPacket 2 3 7, benchPacket 3 3 5], [benchPacket 2 6 9]].flatten :=
    List.filter_eq_self.mpr fun pkt mem => decide_eq_true (all pkt mem)
  have split' : accepted pkts' = [benchPacket 2 0 1, benchPacket 4 0 2] ++
      [[benchPacket 3 3 5, benchPacket 2 3 7], [benchPacket 2 6 9]].flatten :=
    List.filter_eq_self.mpr fun pkt mem => decide_eq_true (all' pkt mem)
  refine ⟨outcome, outcome', done, done', window_order done done' split split' ?_ ?_ ?_ ?_⟩
  · decide +kernel
  · refine ⟨3, by decide, by simp, ?_, 6, by decide, by simp, ?_, trivial⟩
    · show ∀ pkt ∈ [benchPacket 2 3 7, benchPacket 3 3 5], windowOf pkt = 3
      decide +kernel
    · show ∀ pkt ∈ [benchPacket 2 6 9], windowOf pkt = 6
      decide +kernel
  · intro window mem
    simp only [List.mem_cons, List.not_mem_nil, or_false] at mem
    rcases mem with rfl | rfl | rfl
    · show ([benchPacket 4 0 2, benchPacket 2 0 1].filterMap slot).Nodup
      decide +kernel
    · show ([benchPacket 2 3 7, benchPacket 3 3 5].filterMap slot).Nodup
      decide +kernel
    · show ([benchPacket 2 6 9].filterMap slot).Nodup
      decide +kernel
  · exact .cons (List.Perm.swap _ _ _)
      (.cons (List.Perm.swap _ _ _) (.cons (List.Perm.refl _) .nil))

end SoqTracker.KinectAudio
