import SoqTracker.TrackerLoop

/- What a LOCKED packet says about the blocks before it. The timer in_lock_since
   stands for a stretch of blocks, which the off-axis path leaves unbroken. -/
namespace SoqTracker.LockHold
open TrackerLoop Runs Controller

variable {α : Type} [Field α] [LinearOrder α]

def InBand (dsp : Dsp α) (b : Block α) : Prop :=
  Accepted dsp b.input.raw ∧ |b.after.smoothedError| ≤ lockBandDeg

instance (dsp : Dsp α) (b : Block α) : Decidable (InBand dsp b) := by
  unfold InBand; infer_instance

def ReadBy (time : α) (b : Block α) : Prop := b.input.now ≤ time

def EntersBand (dsp : Dsp α) (tracker : Tracker α) (raw : List UInt8) : Prop :=
  Accepted dsp raw ∧ |smoothed dsp tracker raw| ≤ lockBandDeg

instance (dsp : Dsp α) (tracker : Tracker α) (raw : List UInt8) :
    Decidable (EntersBand dsp tracker raw) := by
  unfold EntersBand; infer_instance

instance (time : α) (b : Block α) : Decidable (ReadBy time b) := by
  unfold ReadBy; infer_instance

/-- A continuously held lock: every block in the window is in band, and the
    stretch of blocks in band began no later than the window. -/
def HeldLock (dsp : Dsp α) (history : List (Block α)) (now : α) : Prop :=
  (∀ b ∈ history, now - lockHoldSeconds ≤ b.input.now → InBand dsp b) ∧
    Since (InBand dsp) (ReadBy (now - lockHoldSeconds)) history

/-- The blocks the timer stands for: one in band at its reading, and since then
    only blocks in band or off axis. -/
def TimerMeans (dsp : Dsp α) (history : List (Block α)) (tracker : Tracker α) : Prop :=
  ∀ since, tracker.inLockSince = some since → ∃ stretch first older,
    history = stretch ++ first :: older ∧ first.input.now = since ∧ InBand dsp first ∧
      ∀ b ∈ stretch, InBand dsp b ∨ OffAxis dsp b.input.raw

theorem quietState_unlocks (tracker : Tracker α) (now : α) :
    (quietState tracker now).2 = none ∧ (quietState tracker now).1 ≠ .locked := by
  unfold quietState deriveState
  split
  · simp
  · simp

theorem trackingState_since {dsp : Dsp α} {tracker : Tracker α} {pass : Pass α} {since : α}
    (kept : (trackingState dsp tracker pass).2 = some since) :
    |smoothed dsp tracker pass.raw| ≤ lockBandDeg ∧
      (tracker.inLockSince = some since ∨ pass.now = since) := by
  unfold trackingState deriveState at kept
  by_cases inside : |smoothed dsp tracker pass.raw| ≤ lockBandDeg
  · refine ⟨inside, ?_⟩
    have value : tracker.inLockSince.getD pass.now = since := by
      by_cases long : lockHoldSeconds ≤ pass.now - tracker.inLockSince.getD pass.now
      · simpa [inside, long] using kept
      · simpa [inside, long] using kept
    cases old : tracker.inLockSince with
    | none => exact Or.inr (by simpa [old] using value)
    | some time => exact Or.inl (by simpa [old] using value)
  · simp [inside] at kept

theorem trackingState_locked {dsp : Dsp α} {tracker : Tracker α} {pass : Pass α}
    (locked : (trackingState dsp tracker pass).1 = .locked) :
    ∃ since, (trackingState dsp tracker pass).2 = some since ∧
      lockHoldSeconds ≤ pass.now - since := by
  unfold trackingState deriveState at locked ⊢
  by_cases inside : |smoothed dsp tracker pass.raw| ≤ lockBandDeg
  · by_cases long : lockHoldSeconds ≤ pass.now - tracker.inLockSince.getD pass.now
    · exact ⟨tracker.inLockSince.getD pass.now, by simp [inside, long], long⟩
    · simp [inside, long] at locked
  · simp [inside] at locked

theorem timer_since {dsp : Dsp α} {history : List (Block α)} {tracker : Tracker α} {since time : α}
    (means : TimerMeans dsp history tracker) (running : tracker.inLockSince = some since)
    (early : since ≤ time) :
    Since (fun b => InBand dsp b ∨ OffAxis dsp b.input.raw) (ReadBy time) history := by
  obtain ⟨stretch, first, older, split, same, band, rest⟩ := means since running
  refine ⟨stretch ++ [first], older, by simp [split], ?_, first, by simp, same.trans_le early⟩
  intro b mem
  rcases List.mem_append.mp mem with inside | last
  · exact rest b inside
  · exact Or.inl (by rw [List.mem_singleton.mp last]; exact band)

omit [Field α] in
theorem recent_in_stretch {stretch older : List (Block α)} {a b : Block α} {time : α}
    (clock : Nondecreasing (stretch ++ older)) (amem : a ∈ stretch)
    (early : a.input.now ≤ time) (bmem : b ∈ stretch ++ older) (late : time < b.input.now) :
    b ∈ stretch := by
  rcases List.mem_append.mp bmem with inside | outside
  · exact inside
  · have order := (List.pairwise_append.mp clock).2.2 a amem b outside
    exact absurd (lt_of_lt_of_le late (order.trans early)) (lt_irrefl _)

variable [FloorRing α]

def Sends (py : Python α) (dsp : Dsp α) (b : Block α) (state : TrackState) : Prop :=
  ∃ packet ∈ blockPackets py dsp b, packet.1.state = state

instance (py : Python α) (dsp : Dsp α) (b : Block α) (state : TrackState) :
    Decidable (Sends py dsp b state) := by
  unfold Sends; infer_instance

theorem timer_step {py : Python α} {dsp : Dsp α} {history : List (Block α)}
    {tracker tracker' : Tracker α} {pass : Pass α}
    (means : TimerMeans dsp history tracker)
    (moved : next py dsp tracker pass = some tracker') :
    TimerMeans dsp (⟨tracker, pass, tracker'⟩ :: history) tracker' := by
  intro since running
  obtain ⟨imu, writes, packets, _, _, _, sends, move⟩ := next_moved moved
  cases move with
  | quiet low sends => simp [afterQuiet, (quietState_unlocks tracker pass.now).1] at running
  | offAxis aside =>
    obtain ⟨stretch, first, older, split, time, band, rest⟩ := means since running
    refine ⟨_ :: stretch, first, older, by rw [split]; rfl, time, band, ?_⟩
    intro b mem
    rcases List.mem_cons.mp mem with here | there
    · exact Or.inr (by rw [here]; exact aside)
    · exact rest b there
  | tracking accepted sends =>
    obtain ⟨inside, old | fresh⟩ := trackingState_since running
    · obtain ⟨stretch, first, older, split, time, band, rest⟩ := means since old
      refine ⟨_ :: stretch, first, older, by rw [split]; rfl, time, band, ?_⟩
      intro b mem
      rcases List.mem_cons.mp mem with here | there
      · exact Or.inl (by rw [here]; exact ⟨accepted, inside⟩)
      · exact rest b there
    · exact ⟨[], _, history, rfl, fresh, ⟨accepted, inside⟩, by simp⟩

theorem timer_run {py : Python α} {dsp : Dsp α} {history : List (Block α)} {tracker : Tracker α}
    (run : Run (next py dsp) initial history tracker) : TimerMeans dsp history tracker := by
  induction run with
  | start => intro since running; simp [initial] at running
  | step earlier moved ih => exact timer_step ih moved

theorem inBand_iff {py : Python α} {dsp : Dsp α} {b : Block α}
    (moved : next py dsp b.before b.input = some b.after) :
    InBand dsp b ↔ EntersBand dsp b.before b.input.raw := by
  obtain ⟨imu, writes, packets, _, _, _, sends, move⟩ := next_moved moved
  unfold InBand EntersBand
  generalize b.after = tracker' at move ⊢
  apply and_congr_right
  intro accepted
  cases move with
  | quiet low sends => exact absurd accepted.1 low
  | offAxis aside => exact absurd accepted.2 aside.2
  | tracking _ sends => rfl

theorem locked_sender {py : Python α} {dsp : Dsp α} {b : Block α}
    (moved : next py dsp b.before b.input = some b.after) (locked : Sends py dsp b .locked) :
    ∃ since, b.after.inLockSince = some since ∧ lockHoldSeconds ≤ b.input.now - since := by
  obtain ⟨imu, writes, packets, _, _, _, sends, move⟩ := next_moved moved
  obtain ⟨packet, mem, state⟩ := locked
  rw [blockPackets, sends] at mem
  generalize b.after = tracker' at move ⊢
  cases move with
  | quiet low sends =>
    rw [List.mem_singleton.mp mem] at state
    exact absurd state (quietState_unlocks b.before b.input.now).2
  | offAxis aside => simp at mem
  | tracking accepted sends =>
    rw [List.mem_singleton.mp mem] at state
    exact trackingState_locked state

variable [IsStrictOrderedRing α]

/-- A LOCKED packet stands for a held lock exactly when no off-axis block was
    read since the last block at or before the window's start, and no block
    read at that very instant was out of band. -/
theorem locked_iff_held {py : Python α} {dsp : Dsp α} {b : Block α} {history : List (Block α)}
    {tracker : Tracker α} (run : Run (next py dsp) initial (b :: history) tracker)
    (clock : Nondecreasing (b :: history)) (locked : Sends py dsp b .locked) :
    HeldLock dsp (b :: history) b.input.now ↔
      Since (fun c => ¬ OffAxis dsp c.input.raw) (ReadBy (b.input.now - lockHoldSeconds)) (b :: history) ∧
        ∀ c ∈ b :: history, c.input.now = b.input.now - lockHoldSeconds →
          EntersBand dsp c.before c.input.raw := by
  have enters : ∀ c ∈ b :: history, InBand dsp c ↔ EntersBand dsp c.before c.input.raw := by
    intro c mem
    obtain ⟨_, _, _, moved⟩ := run_member run mem
    exact inBand_iff moved
  constructor
  · rintro ⟨window, stretch⟩
    constructor
    · refine since_weaken ?_ stretch
      intro c band aside
      exact aside.2 band.1.2
    · intro c mem edge
      exact (enters c mem).mp (window c mem edge.ge)
  · rintro ⟨straight, edge⟩
    obtain ⟨_, moved, same⟩ := run_head run
    obtain ⟨since, running, long⟩ := locked_sender moved locked
    have early : since ≤ b.input.now - lockHoldSeconds := by linarith
    have means := timer_run run
    rw [same] at means
    have held := since_weaken (fun c both => both.1.resolve_right both.2)
      (since_both (timer_since means running early) straight)
    refine ⟨?_, held⟩
    obtain ⟨stretch, older, split, all, a, amem, before⟩ := held
    intro c mem inside
    rcases inside.eq_or_lt with exact | late
    · exact (enters c mem).mpr (edge c mem exact.symm)
    · rw [split] at clock mem
      exact all c (recent_in_stretch clock amem before mem late)

/-- The lock outlives an off-axis block half a second before the packet. -/
theorem off_axis_keeps_lock :
    ∃ (b : Block ℚ) (history : List (Block ℚ)) (tracker : Tracker ℚ),
      Run (next benchPython benchDsp) initial (b :: history) tracker ∧
      Nondecreasing (b :: history) ∧ Sends benchPython benchDsp b .locked ∧
      ¬ HeldLock benchDsp (b :: history) b.input.now := by
  have run := ((bench_start.go (benchPass onAxisRaw [] 10) (by decide +kernel)).go
    (benchPass offAxisRaw [] (21 / 2)) (by decide +kernel)).go
    (benchPass onAxisRaw [] 11) (by decide +kernel)
  refine ⟨_, _, _, run, by decide +kernel, by decide +kernel, ?_⟩
  rintro ⟨window, _⟩
  have aside := window _ (List.mem_cons_of_mem _ List.mem_cons_self) (by decide +kernel)
  exact absurd aside (by decide +kernel)

theorem steady_lock_is_held :
    ∃ (b : Block ℚ) (history : List (Block ℚ)), Sends benchPython benchDsp b .locked ∧
      HeldLock benchDsp (b :: history) b.input.now := by
  have run := ((bench_start.go (benchPass onAxisRaw [] 10) (by decide +kernel)).go
    (benchPass onAxisRaw [] (21 / 2)) (by decide +kernel)).go
    (benchPass onAxisRaw [] 11) (by decide +kernel)
  refine ⟨_, _, ?locked, (locked_iff_held run ?clock ?locked).mpr
    ⟨⟨_, [], (List.append_nil _).symm, ?straight, ?early⟩, ?edge⟩⟩
  case locked => decide +kernel
  case clock => decide +kernel
  case straight => decide +kernel
  case early => decide +kernel
  case edge => decide +kernel

end SoqTracker.LockHold
