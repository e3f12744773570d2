import SoqTracker.TrackerLoop

/- What an IDLE packet says about the blocks before it. The reading last_signal_time
   stands for the newest accepted block; a loud block off the axis leaves the pass
   before it is written. -/
namespace SoqTracker.SilenceHold
open TrackerLoop Runs Controller

variable {α : Type} [Field α] [LinearOrder α]

def Recent (b c : Block α) : Prop := b.input.now - idleHoldSeconds < c.input.now

/-- A quiet block without a loud one in the hold time before it. -/
def Silence (dsp : Dsp α) (older : List (Block α)) (b : Block α) : Prop :=
  ¬ Loud dsp b.input.raw ∧ ∀ c ∈ older, Loud dsp c.input.raw → ¬ Recent b c

/-- No block off the axis in the hold time before a block, or an accepted one too. -/
def Vouched (dsp : Dsp α) (older : List (Block α)) (b : Block α) : Prop :=
  (∃ c ∈ older, OffAxis dsp c.input.raw ∧ Recent b c) →
    ∃ c ∈ older, Accepted dsp c.input.raw ∧ Recent b c

instance (b c : Block α) : Decidable (Recent b c) :=
  inferInstanceAs (Decidable (b.input.now - idleHoldSeconds < c.input.now))

instance (dsp : Dsp α) (older : List (Block α)) (b : Block α) : Decidable (Silence dsp older b) := by
  unfold Silence; infer_instance

instance (dsp : Dsp α) (older : List (Block α)) (b : Block α) : Decidable (Vouched dsp older b) := by
  unfold Vouched; infer_instance

/-- The reading at the newest accepted block, or the start value of the timestamp. -/
def latestSignal (dsp : Dsp α) : List (Block α) → α :=
  latest Pass.now 0 fun b => Accepted dsp b.input.raw

theorem latestSignal_cons (dsp : Dsp α) (b : Block α) (older : List (Block α)) :
    latestSignal dsp (b :: older) =
      if Accepted dsp b.input.raw then b.input.now else latestSignal dsp older := rfl

omit [Field α] in
theorem late_from_oldest {bound : α} {history : List (Block α)} (clock : Nondecreasing history)
    (late : ∀ b ∈ history.getLast?, bound ≤ b.input.now) : ∀ b ∈ history, bound ≤ b.input.now := by
  induction history with
  | nil => simp
  | cons b older ih =>
    obtain ⟨newest, order⟩ := List.pairwise_cons.mp clock
    cases older with
    | nil => simpa using late
    | cons c older =>
      have earlier := ih order (by simpa [List.getLast?_cons_cons] using late)
      intro d mem
      rcases List.mem_cons.mp mem with rfl | older_one
      · exact (earlier c (by simp)).trans (newest c (by simp))
      · exact earlier d older_one

/- The state of a packet. -/

theorem deriveState_idle_iff (signalPresent measurementValid : Bool) (smoothedErrorDeg : α)
    (inLockSince : Option α) (now : α) :
    (deriveState signalPresent measurementValid smoothedErrorDeg inLockSince now).1 = .idle ↔
      signalPresent = false := by
  unfold deriveState
  cases signalPresent with
  | false => simp
  | true =>
    by_cases inside : measurementValid = true ∧ |smoothedErrorDeg| ≤ lockBandDeg
    · by_cases long : lockHoldSeconds ≤ now - inLockSince.getD now
      · simp [inside, long]
      · simp [inside, long]
    · simp [inside]

theorem trackingState_active (dsp : Dsp α) (tracker : Tracker α) (pass : Pass α) :
    (trackingState dsp tracker pass).1 ≠ .idle := by
  intro idle
  have absent := (deriveState_idle_iff _ _ _ _ _).mp idle
  simp at absent

/-- The accepted blocks speak for all loud ones exactly where a block is vouched for. -/
theorem vouched_iff {dsp : Dsp α} {older : List (Block α)} {b : Block α}
    (low : ¬ Loud dsp b.input.raw) :
    ((∀ c ∈ older, Accepted dsp c.input.raw → ¬ Recent b c) ↔ Silence dsp older b) ↔
      Vouched dsp older b := by
  constructor
  · rintro same ⟨c, mem, aside, recent⟩
    by_contra unaccepted
    have none_accepted : ∀ c ∈ older, Accepted dsp c.input.raw → ¬ Recent b c := by
      intro a amem accepted near
      exact unaccepted ⟨a, amem, accepted, near⟩
    exact (same.mp none_accepted).2 c mem aside.1 recent
  · intro vouched
    constructor
    · intro none_accepted
      refine ⟨low, ?_⟩
      intro c mem loud recent
      by_cases ahead : OnAxis dsp c.input.raw
      · exact none_accepted c mem ⟨loud, ahead⟩ recent
      · obtain ⟨a, amem, accepted, near⟩ := vouched ⟨c, mem, ⟨loud, ahead⟩, recent⟩
        exact none_accepted a amem accepted near
    · intro silence c mem accepted
      exact silence.2 c mem accepted.1

section Signals
variable [IsStrictOrderedRing α]

theorem quietState_idle_iff (tracker : Tracker α) (now : α) :
    (quietState tracker now).1 = .idle ↔ tracker.lastSignalTime ≤ now - idleHoldSeconds := by
  rw [quietState, deriveState_idle_iff, decide_eq_false_iff_not, not_lt, le_sub_comm]

theorem latestSignal_early_iff {dsp : Dsp α} {older : List (Block α)} {b : Block α}
    (clock : Nondecreasing older) (late : idleHoldSeconds ≤ b.input.now) :
    latestSignal dsp older ≤ b.input.now - idleHoldSeconds ↔
      ∀ c ∈ older, Accepted dsp c.input.raw → ¬ Recent b c := by
  rw [latestSignal, latest_le_iff clock (sub_nonneg.mpr late)]
  simp only [Recent, not_lt]

end Signals

/- Runs. -/

variable [FloorRing α]

theorem signal_step {py : Python α} {dsp : Dsp α} {history : List (Block α)}
    {tracker tracker' : Tracker α} {pass : Pass α}
    (stands : tracker.lastSignalTime = latestSignal dsp history)
    (moved : next py dsp tracker pass = some tracker') :
    tracker'.lastSignalTime = latestSignal dsp (⟨tracker, pass, tracker'⟩ :: history) := by
  obtain ⟨imu, writes, packets, _, _, _, _, move⟩ := next_moved moved
  rw [latestSignal_cons]
  cases move with
  | quiet low sends =>
    rw [if_neg (fun accepted => low accepted.1)]
    exact stands
  | offAxis aside =>
    rw [if_neg (fun accepted => aside.2 accepted.2)]
    exact stands
  | tracking accepted sends =>
    rw [if_pos accepted]
    rfl

theorem signal_run {py : Python α} {dsp : Dsp α} {history : List (Block α)} {tracker : Tracker α}
    (run : Run (next py dsp) initial history tracker) :
    tracker.lastSignalTime = latestSignal dsp history := by
  induction run with
  | start => rfl
  | step earlier moved ih => exact signal_step ih moved

variable [IsStrictOrderedRing α]

theorem block_tells_iff {py : Python α} {dsp : Dsp α} {b : Block α} {older : List (Block α)}
    (earlier : Run (next py dsp) initial older b.before)
    (moved : next py dsp b.before b.input = some b.after) (clock : Nondecreasing older)
    (late : idleHoldSeconds ≤ b.input.now) :
    (∀ packet ∈ blockPackets py dsp b, (packet.1.state = .idle ↔ Silence dsp older b)) ↔
      (¬ Loud dsp b.input.raw → Vouched dsp older b) := by
  have stands := signal_run earlier
  have loud_silence : Loud dsp b.input.raw → ¬ Silence dsp older b := fun loud silence =>
    silence.1 loud
  obtain ⟨imu, writes, packets, _, _, _, sends, move⟩ := next_moved moved
  rw [blockPackets, sends]
  generalize b.after = tracker' at move
  cases move with
  | quiet low sent =>
    have state : (quietPacket dsp b.before imu b.input).state = .idle ↔
        ∀ c ∈ older, Accepted dsp c.input.raw → ¬ Recent b c := by
      rw [quietPacket, quietState_idle_iff, stands, latestSignal_early_iff clock late]
    simp only [List.mem_singleton, forall_eq, state, vouched_iff low, low, not_false_eq_true,
      forall_const]
  | offAxis aside => simp [aside.1]
  | tracking accepted sent =>
    have state : (trackingPacket dsp b.before imu b.input).state ≠ .idle :=
      trackingState_active dsp b.before b.input
    simp [state, accepted.1, loud_silence accepted.1]

/-- IDLE means silence held long enough exactly in the runs where every quiet block
    with an off-axis block in its hold time has an accepted one there too. -/
theorem idle_means_silence_iff {py : Python α} {dsp : Dsp α} {history : List (Block α)}
    {tracker : Tracker α} (run : Run (next py dsp) initial history tracker)
    (clock : Nondecreasing history)
    (late : ∀ b ∈ history.getLast?, idleHoldSeconds ≤ b.input.now) :
    (∀ b older, b :: older <:+ history → ∀ packet ∈ blockPackets py dsp b,
      (packet.1.state = .idle ↔ Silence dsp older b)) ↔
    ∀ b older, b :: older <:+ history → ¬ Loud dsp b.input.raw → Vouched dsp older b := by
  have each : ∀ b older, b :: older <:+ history →
      ((∀ packet ∈ blockPackets py dsp b, (packet.1.state = .idle ↔ Silence dsp older b)) ↔
        (¬ Loud dsp b.input.raw → Vouched dsp older b)) := by
    intro b older placed
    obtain ⟨earlier, moved⟩ := run_placed run placed
    obtain ⟨_, order⟩ := List.pairwise_cons.mp (clock.sublist placed.sublist)
    have started := late_from_oldest clock late b (placed.subset (by simp))
    exact block_tells_iff earlier moved order started
  constructor
  · intro tells b older placed
    exact (each b older placed).mp (tells b older placed)
  · intro vouched b older placed
    exact (each b older placed).mpr (vouched b older placed)

/-- A loud block off the axis, and a tenth of a second later a quiet one: the packet
    says IDLE. -/
theorem off_axis_reads_idle :
    ∃ (history : List (Block ℚ)) (tracker : Tracker ℚ),
      Run (next benchPython benchDsp) initial history tracker ∧ Nondecreasing history ∧
      (∀ b ∈ history.getLast?, idleHoldSeconds ≤ b.input.now) ∧
      ¬ ∀ b older, b :: older <:+ history → ∀ packet ∈ blockPackets benchPython benchDsp b,
        (packet.1.state = .idle ↔ Silence benchDsp older b) := by
  have run := (bench_start.go (benchPass offAxisRaw [] 10) (by decide +kernel)).go
    (benchPass quietRaw [] (101 / 10)) (by decide +kernel)
  refine ⟨_, _, run, by decide +kernel, by decide +kernel, ?_⟩
  intro tells
  have newest := tells _ _ List.suffix_rfl
  exact absurd newest (by decide +kernel)

/-- With an accepted block in between it does not. -/
theorem on_axis_holds_activity :
    ∃ history : List (Block ℚ), history.length = 3 ∧
      ∀ b older, b :: older <:+ history → ∀ packet ∈ blockPackets benchPython benchDsp b,
        (packet.1.state = .idle ↔ Silence benchDsp older b) := by
  have run := ((bench_start.go (benchPass offAxisRaw [] 10) (by decide +kernel)).go
    (benchPass onAxisRaw [] (101 / 10)) (by decide +kernel)).go
    (benchPass quietRaw [] (102 / 10)) (by decide +kernel)
  refine ⟨_, rfl, (idle_means_silence_iff run (by decide +kernel) (by decide +kernel)).mpr ?_⟩
  refine placed_cons ?_ (placed_cons ?_ (placed_cons ?_ placed_nil))
  all_goals decide +kernel

end SoqTracker.SilenceHold
