import SoqTracker.PacketReading

/- The tracker's packets at the dashboard: when the audio label says stale. An
   off-axis block sends no packet, so that a stretch of them looks like silence. -/
namespace SoqTracker.TelemetryLink
open ExtendedNumber Decimal Json Controller TrackerLoop HeardLines Runs PacketReading
open TelemetryBridge (Desktop Bridge Polled pollSocket audioStale audioStaleSeconds)
open DatagramEffects (shownTime latestTime latestTime_append poll_time benchDesktop)

variable {α : Type} [Field α] [LinearOrder α] [FloorRing α]

/- The tracker's side. -/

/-- Of what a pass starts from: it sends a packet that the dashboard can read. -/
def Reaches (py : Python α) (dsp : Dsp α) (desktop : Desktop α) (b : Block α) : Prop :=
  ¬ OffAxis dsp b.input.raw ∧
    depth (afterPoll py b.input.lineTime b.before.imu b.input.serial).imuCalibration <
      desktop.limits.nesting

instance (py : Python α) (dsp : Dsp α) (desktop : Desktop α) (b : Block α) :
    Decidable (Reaches py dsp desktop b) := by
  unfold Reaches; infer_instance

def payloads (py : Python α) (dsp : Dsp α) (history : List (Block α)) : List (List UInt8) :=
  history.reverse.flatMap fun b => (blockPackets py dsp b).map Prod.snd

/-- repr of every float sent is ASCII and reads back as that float. -/
def ReprRoundTrips (py : Python α) (dsp : Dsp α) (history : List (Block α)) : Prop :=
  ∀ b ∈ history, ∀ packet ∈ blockPackets py dsp b,
    AllReadable py.floatRepr (floats packet.1.toJson)

theorem after_imu {py : Python α} {dsp : Dsp α} {b : Block α}
    (moved : next py dsp b.before b.input = some b.after) :
    b.after.imu = afterPoll py b.input.lineTime b.before.imu b.input.serial := by
  obtain ⟨imu, writes, packets, _, polled, _, _, move⟩ := next_moved moved
  rw [moved_imu move]
  exact (poll_eq polled).1

omit [Field α] [LinearOrder α] [FloorRing α] in
theorem sendPacket_text {py : Python α} {packet : Packet α} {payload : List UInt8}
    (sends : sendPacket py packet = .ok payload) :
    payload = Utf8.encode (text py.floatRepr packet.toJson) := by
  unfold sendPacket dumps at sends
  by_cases shallow : depth packet.toJson ≤ py.dumpsLimit
  · simp only [if_pos shallow] at sends
    split at sends
    · exact (Except.ok.inj sends).symm
    · simp at sends
  · simp [shallow] at sends

theorem block_packets {py : Python α} {dsp : Dsp α} {b : Block α}
    (moved : next py dsp b.before b.input = some b.after) :
    if OffAxis dsp b.input.raw then blockPackets py dsp b = [] else
      ∃ packet, blockPackets py dsp b =
          [(packet, Utf8.encode (text py.floatRepr packet.toJson))] ∧
        packet.timestamp = b.input.now ∧
        packet.imuCalibration = b.after.imu.imuCalibration := by
  obtain ⟨imu, writes, packets, _, polled, _, sends, move⟩ := next_moved moved
  rw [blockPackets, sends]
  generalize b.after = tracker' at move ⊢
  cases move with
  | quiet low sent =>
    have aside : ¬ OffAxis dsp b.input.raw := fun off => low off.1
    rw [if_neg aside, sendPacket_text sent]
    exact ⟨_, rfl, rfl, rfl⟩
  | offAxis aside => rw [if_pos aside]
  | tracking accepted sent =>
    have aside : ¬ OffAxis dsp b.input.raw := fun off => off.2 accepted.2
    rw [if_neg aside, sendPacket_text sent]
    exact ⟨_, rfl, rfl, rfl⟩

theorem block_time {py : Python α} {dsp : Dsp α} {desktop : Desktop α} {b : Block α}
    (moved : next py dsp b.before b.input = some b.after)
    (sound : Sound desktop.limits.digits b.after.imu.imuCalibration)
    (readable : ∀ packet ∈ blockPackets py dsp b, AllReadable py.floatRepr (floats packet.1.toJson))
    (start : Number α) :
    latestTime desktop ((blockPackets py dsp b).map Prod.snd) start =
      if Reaches py dsp desktop b then .finite b.input.now else start := by
  have sends := block_packets moved
  have reaches : Reaches py dsp desktop b ↔ ¬ OffAxis dsp b.input.raw ∧
      depth b.after.imu.imuCalibration < desktop.limits.nesting := by
    rw [after_imu moved]
    rfl
  by_cases aside : OffAxis dsp b.input.raw
  · rw [if_pos aside] at sends
    rw [sends, if_neg (fun there => (reaches.mp there).1 aside)]
    rfl
  · rw [if_neg aside] at sends
    obtain ⟨packet, one, time, calibration⟩ := sends
    rw [← calibration] at sound reaches
    rw [one] at readable ⊢
    have shown := shownTime_packet sound (readable _ (List.mem_singleton_self _))
    by_cases shallow : depth packet.imuCalibration < desktop.limits.nesting
    · rw [if_pos (reaches.mpr ⟨aside, shallow⟩)]
      simp [latestTime, shown, shallow, time]
    · rw [if_neg (fun there => shallow (reaches.mp there).2)]
      simp [latestTime, shown, shallow]

theorem payloads_cons (py : Python α) (dsp : Dsp α) (b : Block α) (older : List (Block α)) :
    payloads py dsp (b :: older) =
      payloads py dsp older ++ (blockPackets py dsp b).map Prod.snd := by
  simp [payloads]

theorem latest_payload {py : Python α} {dsp : Dsp α} {desktop : Desktop α}
    (same : desktop.limits.digits = py.limits.digits) {history : List (Block α)}
    {tracker : Tracker α} (run : Run (next py dsp) initial history tracker)
    (readable : ReprRoundTrips py dsp history) (start : Number α) :
    latestTime desktop (payloads py dsp history) start =
      ((history.find? (Reaches py dsp desktop)).map fun b => .finite b.input.now).getD start := by
  induction run with
  | start => rfl
  | step earlier moved ih =>
    rename_i older before after pass
    have sound := calibration_run (earlier.step moved)
    rw [← same] at sound
    have now := block_time (b := ⟨before, pass, after⟩) moved sound
      (fun packet mem => readable _ (by simp) packet mem)
    rw [payloads_cons, latestTime_append, now, ih fun c mem => readable c (by simp [mem]),
      List.find?_cons]
    by_cases reaches : Reaches py dsp desktop ⟨before, pass, after⟩
    · simp [reaches]
    · simp [reaches]

/- The dashboard's side. -/

structure Dashboard (α : Type) where
  bridge : Bridge α
  waiting : List (List UInt8)

/-- One tick of the poll timer: the datagrams that came in since the last one,
    and the clock. -/
structure Tick (α : Type) where
  arrived : List (List UInt8)
  now : α

def dashboard (start : α) : Dashboard α := ⟨TelemetryBridge.initial start, []⟩

def tick (desktop : Desktop α) (d : Dashboard α) (t : Tick α) : Option (Dashboard α) :=
  let polled := pollSocket desktop t.now (d.waiting ++ t.arrived) d.bridge
  some ⟨polled.bridge, polled.waiting⟩

def arrivals (ticks : List (Transition (Dashboard α) (Tick α))) : List (List UInt8) :=
  ticks.reverse.flatMap fun t => t.input.arrived

omit [FloorRing α] [LinearOrder α] [Field α] in
theorem arrivals_cons (t : Transition (Dashboard α) (Tick α))
    (older : List (Transition (Dashboard α) (Tick α))) :
    arrivals (t :: older) = arrivals older ++ t.input.arrived := by
  simp [arrivals]

theorem ticks_time {desktop : Desktop α} {start : α}
    {ticks : List (Transition (Dashboard α) (Tick α))} {d : Dashboard α}
    (run : Run (tick desktop) (dashboard start) ticks d) :
    ∃ consumed, arrivals ticks = consumed ++ d.waiting ∧
      d.bridge.lastPacketTime = latestTime desktop consumed (.finite 0) := by
  induction run with
  | start => exact ⟨[], rfl, rfl⟩
  | step earlier moved ih =>
    rename_i older before after input
    obtain ⟨consumed, split, time⟩ := ih
    obtain ⟨more, taken, later⟩ :=
      poll_time desktop input.now (before.waiting ++ input.arrived) before.bridge
    rw [← Option.some.inj moved]
    refine ⟨consumed ++ more, ?_, ?_⟩
    · rw [Option.some.inj moved, arrivals_cons, split, List.append_assoc, taken, List.append_assoc,
        ← Option.some.inj moved]
    · rw [later, time, latestTime_append]

def Recent (t : α) (b : Block α) : Prop := t - audioStaleSeconds ≤ b.input.now

instance (t : α) (b : Block α) : Decidable (Recent t b) := by
  unfold Recent; infer_instance

omit [FloorRing α] in
theorem stale_iff (bridge : Bridge α) (t time : α) (last : bridge.lastPacketTime = .finite time) :
    audioStale bridge t = true ↔ time = 0 ∨ audioStaleSeconds < t - time := by
  unfold audioStale
  rw [last]
  by_cases zero : time = 0
  · simp [zero]
  · simp [zero]

/-- Once the dashboard has drained what the tracker sent, the audio label follows
    the newest block that reached it. A block is told of by exactly one packet
    unless it is off axis, and the label is right for as long as the newest block
    that reached the dashboard is recent too and was not read at clock time zero. -/
theorem never_stale_iff [IsStrictOrderedRing α] {py : Python α} {dsp : Dsp α}
    {desktop : Desktop α} (same : desktop.limits.digits = py.limits.digits)
    {history : List (Block α)} {tracker : Tracker α}
    (run : Run (next py dsp) initial history tracker) (readable : ReprRoundTrips py dsp history)
    {start : α} {ticks : List (Transition (Dashboard α) (Tick α))} {d : Dashboard α}
    (ticking : Run (tick desktop) (dashboard start) ticks d)
    (delivered : arrivals ticks = payloads py dsp history) (drained : d.waiting = []) (t : α) :
    (∀ b ∈ history, (blockPackets py dsp b).map (fun sent => sent.1.timestamp) = [b.input.now] ↔
      ¬ OffAxis dsp b.input.raw) ∧
    (((∃ b ∈ history, Recent t b) → audioStale d.bridge t = false) ↔
      ((∃ b ∈ history, Recent t b) → ∃ b ∈ history.find? (Reaches py dsp desktop),
        Recent t b ∧ b.input.now ≠ 0)) := by
  constructor
  · intro b mem
    obtain ⟨_, _, _, moved⟩ := run_member run mem
    have sends := block_packets moved
    by_cases aside : OffAxis dsp b.input.raw
    · rw [if_pos aside] at sends
      simp [sends, aside]
    · rw [if_neg aside] at sends
      obtain ⟨packet, one, time, _⟩ := sends
      simp [one, time, aside]
  · obtain ⟨consumed, split, time⟩ := ticks_time ticking
    rw [drained, List.append_nil, delivered] at split
    rw [← split, latest_payload same run readable] at time
    apply imp_congr_right
    intro _
    cases newest : history.find? (Reaches py dsp desktop) with
    | none =>
      rw [newest] at time
      have stale := (stale_iff d.bridge t 0 time).mpr (Or.inl rfl)
      simp [stale]
    | some b =>
      rw [newest] at time
      have stale := stale_iff d.bridge t b.input.now time
      constructor
      · intro fresh
        rw [fresh] at stale
        have live := mt stale.mpr (by simp)
        rw [not_or, not_lt] at live
        exact ⟨b, rfl, by unfold Recent; linarith [live.2], live.1⟩
      · rintro ⟨c, here, recent, nonzero⟩
        rw [← Option.some.inj here] at recent nonzero
        unfold Recent at recent
        cases label : audioStale d.bridge t with
        | false => rfl
        | true =>
          rcases stale.mp label with zero | late
          · exact absurd zero nonzero
          · linarith

/- Runs on fixed inputs. -/

def benchTick (history : List (Block ℚ)) : Tick ℚ :=
  ⟨payloads benchPython benchDsp history, 11⟩

def benchDashboard (history : List (Block ℚ)) : Dashboard ℚ :=
  let polled := pollSocket benchDesktop 11 (payloads benchPython benchDsp history)
    (TelemetryBridge.initial 9)
  ⟨polled.bridge, polled.waiting⟩

theorem bench_ticking (history : List (Block ℚ)) :
    Run (tick benchDesktop) (dashboard 9)
      [⟨dashboard 9, benchTick history, benchDashboard history⟩] (benchDashboard history) :=
  Run.start.step rfl

theorem bench_arrivals (history : List (Block ℚ)) :
    arrivals [⟨dashboard 9, benchTick history, benchDashboard history⟩] =
      payloads benchPython benchDsp history := by
  simp [arrivals, benchTick]

/-- A loud off-axis block just now, and the label says stale. -/
theorem off_axis_reads_stale :
    ∃ (history : List (Block ℚ)) (tracker : Tracker ℚ)
      (ticks : List (Transition (Dashboard ℚ) (Tick ℚ))) (d : Dashboard ℚ),
      Run (next benchPython benchDsp) initial history tracker ∧ Nondecreasing history ∧
      Run (tick benchDesktop) (dashboard 9) ticks d ∧
      arrivals ticks = payloads benchPython benchDsp history ∧ d.waiting = [] ∧
      (∃ b ∈ history, Recent 11 b) ∧ audioStale d.bridge 11 = true := by
  have run := (bench_start.go (benchPass onAxisRaw [] 10) (by decide +kernel)).go
    (benchPass offAxisRaw [] 11) (by decide +kernel)
  refine ⟨_, _, _, _, run, ?clock, bench_ticking _, bench_arrivals _, ?drained, ?recent, ?stale⟩
  case clock => decide +kernel
  case drained => decide +kernel
  case recent => decide +kernel
  case stale => decide +kernel

theorem bench_readable {w d : Nat} (digit : d < 10) {x : ℚ}
    (spelled : benchPython.floatRepr x = natText w ++ '.' :: natText d)
    (value : ofLiteral 10 false ⟨10 * w + d, -1⟩ = Number.finite x) :
    Readable benchPython.floatRepr x := by
  constructor
  · rw [spelled]
    intro c mem
    rcases List.mem_append.mp mem with whole | fraction
    · exact intText_ascii w c whole
    · rcases List.mem_cons.mp fraction with rfl | tenth
      · decide
      · exact intText_ascii d c tenth
  · intro later ends
    rw [spelled, List.append_assoc, List.cons_append, scanNumber_tenths w digit ends, value]

theorem bench_floats {x : ℚ} (known : x = 10 ∨ x = 8000000 ∨ x = 0) :
    Readable benchPython.floatRepr x := by
  rcases known with rfl | rfl | rfl
  · exact @bench_readable 10 0 (by decide) 10 (by decide +kernel) (by decide +kernel)
  · exact @bench_readable 8000000 0 (by decide) 8000000 (by decide +kernel) (by decide +kernel)
  · exact @bench_readable 0 0 (by decide) 0 (by decide +kernel) (by decide +kernel)

theorem on_axis_reads_live :
    ∃ (history : List (Block ℚ)) (d : Dashboard ℚ), (∃ b ∈ history, Recent (21 / 2) b) ∧
      audioStale d.bridge (21 / 2) = false := by
  have run := bench_start.go (benchPass onAxisRaw [] 10) (by decide +kernel)
  refine ⟨_, _, ?recent, (never_stale_iff rfl run ?readable (bench_ticking _) (bench_arrivals _)
    ?drained (21 / 2)).2.mpr ?reached ?recent⟩
  case readable =>
    intro b mem packet sent x inside
    apply bench_floats
    revert b packet x
    decide +kernel
  case drained => decide +kernel
  case recent => decide +kernel
  case reached =>
    intro _
    decide +kernel

end SoqTracker.TelemetryLink
