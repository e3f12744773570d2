import SoqTracker.SmoothedError
import SoqTracker.LockHold
import Mathlib.Algebra.Order.Ring.Pow

/- A source that stays near the axis is locked on. The average enters the band
   within a number of blocks that depends on where it started, stays there, and
   the timer then runs on without a break. -/
namespace SoqTracker.CentredLock
open ExtendedNumber TrackerLoop Runs Controller Averages SmoothedError LockHold

variable {α : Type} [Field α] [LinearOrder α]

def Centred (dsp : Dsp α) (r : α) (b : Block α) : Prop :=
  Accepted dsp b.input.raw ∧ |rawErrorDeg dsp b.input.raw| ≤ r

instance (dsp : Dsp α) (r : α) (b : Block α) : Decidable (Centred dsp r b) := by
  unfold Centred; infer_instance

theorem centred_errors {dsp : Dsp α} {r : α} {newer : List (Block α)}
    (centred : ∀ b ∈ newer, Centred dsp r b) :
    (acceptedErrors dsp newer).length = newer.length ∧ ∀ e ∈ acceptedErrors dsp newer, |e| ≤ r := by
  have all : (newer.filter fun b => Accepted dsp b.input.raw) = newer := by
    rw [List.filter_eq_self]
    intro b mem
    exact decide_eq_true (centred b mem).1
  rw [acceptedErrors, all]
  constructor
  · exact List.length_map _
  · intro e mem
    obtain ⟨b, inside, rfl⟩ := List.mem_map.mp mem
    exact (centred b inside).2

variable [FloorRing α] {py : Python α} {dsp : Dsp α}

theorem smoothed_newer {newer older : List (Block α)} {start tracker : Tracker α}
    (begun : Run (next py dsp) initial older start)
    (run : Run (next py dsp) initial (newer ++ older) tracker) :
    tracker.smoothedError =
      average errorEmaAlpha start.smoothedError (acceptedErrors dsp newer) := by
  rw [smoothed_run run, accepted_append, average_append, ← smoothed_run begun]

/- The timer. -/

omit [FloorRing α] in
theorem trackingState_inside {tracker : Tracker α} {pass : Pass α}
    (inside : |smoothed dsp tracker pass.raw| ≤ lockBandDeg) :
    trackingState dsp tracker pass =
      (if lockHoldSeconds ≤ pass.now - tracker.inLockSince.getD pass.now then .locked
        else .tracking, some (tracker.inLockSince.getD pass.now)) := by
  simp only [trackingState, deriveState, inside, Bool.not_true, Bool.false_eq_true, if_false,
    and_self, if_true]
  split
  · rfl
  · rfl

theorem band_block {b : Block α} (moved : next py dsp b.before b.input = some b.after)
    (band : InBand dsp b) :
    b.after.inLockSince = some (b.before.inLockSince.getD b.input.now) ∧
      (lockHoldSeconds ≤ b.input.now - b.before.inLockSince.getD b.input.now →
        ∀ packet ∈ blockPackets py dsp b, packet.1.state = .locked) := by
  obtain ⟨imu, writes, packets, _, _, _, sends, move⟩ := next_moved moved
  rw [blockPackets, sends]
  obtain ⟨accepted, inside⟩ := band
  generalize b.after = tracker' at move inside ⊢
  cases move with
  | quiet low sent => exact absurd accepted.1 low
  | offAxis aside => exact absurd accepted.2 aside.2
  | tracking _ sent =>
    have state : trackingState dsp b.before b.input = _ := trackingState_inside inside
    refine ⟨by simp only [afterTracking, state], ?_⟩
    intro long packet mem
    rw [List.mem_singleton.mp mem]
    simp only [trackingPacket, state, if_pos long]

theorem timer_held {later earlier : List (Block α)} {b : Block α} {tracker : Tracker α}
    (run : Run (next py dsp) initial (later ++ b :: earlier) tracker)
    (clock : Nondecreasing (b :: earlier)) (band : InBand dsp b)
    (bands : ∀ c ∈ later, InBand dsp c) :
    ∃ since ≤ b.input.now, tracker.inLockSince = some since := by
  induction later generalizing tracker with
  | nil =>
    obtain ⟨_, moved, after⟩ := run_head run
    have running := (band_block moved band).1
    refine ⟨_, ?_, by rw [after, running]⟩
    rw [← after] at running
    obtain ⟨stretch, first, older, split, time, _⟩ := timer_run run _ running
    rw [← time]
    have mem : first ∈ b :: earlier := by
      rw [List.nil_append] at split
      rw [split]
      simp
    rcases List.mem_cons.mp mem with rfl | before
    · exact le_refl _
    · exact (List.pairwise_cons.mp clock).1 first before
  | cons c later ih =>
    obtain ⟨front, moved, after⟩ := run_head run
    obtain ⟨since, early, running⟩ := ih front fun d mem => bands d (by simp [mem])
    have kept := (band_block moved (bands c (by simp))).1
    rw [running, Option.getD_some] at kept
    exact ⟨since, early, by rw [after, kept]⟩

theorem held_locks {later earlier : List (Block α)} {b c : Block α} {tracker : Tracker α}
    (run : Run (next py dsp) initial (c :: (later ++ b :: earlier)) tracker)
    (clock : Nondecreasing (b :: earlier)) (band : InBand dsp b)
    (bands : ∀ d ∈ c :: later, InBand dsp d)
    (long : b.input.now + lockHoldSeconds ≤ c.input.now) [IsStrictOrderedRing α] :
    ∀ packet ∈ blockPackets py dsp c, packet.1.state = .locked := by
  obtain ⟨front, moved, _⟩ := run_head run
  obtain ⟨since, early, running⟩ := timer_held front clock band fun d mem => bands d (by simp [mem])
  apply (band_block moved (bands c (by simp))).2
  rw [running, Option.getD_some]
  linarith

/- The band. -/

variable [IsStrictOrderedRing α]

def lockBlocks (s r : α) : Nat := ⌈7 * |s| / (3 * (lockBandDeg - r))⌉.toNat + 1

omit [IsStrictOrderedRing α] in
theorem errorWeight : 1 - errorEmaAlpha = (7 / 10 : α) := by
  unfold errorEmaAlpha
  norm_num

/-- By Bernoulli's inequality for the growth of the inverse power. -/
theorem fades_into_band {s r : α} (nonneg : 0 ≤ r) (small : r < lockBandDeg) {k : Nat}
    (enough : lockBlocks s r ≤ k) :
    (7 / 10) ^ k * |s| + (1 - (7 / 10) ^ k) * r ≤ lockBandDeg := by
  have room : 0 < 3 * (lockBandDeg - r) := by linarith
  have steps : 7 * |s| / (3 * (lockBandDeg - r)) ≤ k := by
    have ceiling : ⌈7 * |s| / (3 * (lockBandDeg - r))⌉ ≤ (k : Int) := by
      unfold lockBlocks at enough
      omega
    exact (Int.le_ceil _).trans (by exact_mod_cast ceiling)
  rw [div_le_iff₀ room] at steps
  have grows : 1 + (k : α) * (3 / 7) ≤ (10 / 7) ^ k := by
    have bernoulli := one_add_mul_le_pow (show (-2 : α) ≤ 3 / 7 by norm_num) k
    have base : (1 : α) + 3 / 7 = 10 / 7 := by norm_num
    rwa [base] at bernoulli
  have inverse : (7 / 10 : α) ^ k * (10 / 7) ^ k = 1 := by
    rw [← mul_pow]
    norm_num
  have positive : 0 ≤ (7 / 10 : α) ^ k := by positivity
  have fades : (7 / 10 : α) ^ k * (1 + k * (3 / 7)) ≤ 1 := by
    exact (mul_le_mul_of_nonneg_left grows positive).trans inverse.le
  have covered : |s| ≤ (1 + k * (3 / 7)) * (lockBandDeg - r) := by linarith
  have weighted := mul_le_mul_of_nonneg_left covered positive
  have bounded := mul_le_mul_of_nonneg_right fades (show 0 ≤ lockBandDeg - r by linarith)
  have rest : 0 ≤ (7 / 10 : α) ^ k * r := mul_nonneg positive nonneg
  linarith

theorem centred_bound {r : α} {newer older : List (Block α)} {start tracker : Tracker α}
    (begun : Run (next py dsp) initial older start)
    (run : Run (next py dsp) initial (newer ++ older) tracker)
    (centred : ∀ b ∈ newer, Centred dsp r b) :
    |tracker.smoothedError| ≤ (7 / 10) ^ newer.length * |start.smoothedError| +
      (1 - (7 / 10) ^ newer.length) * r := by
  obtain ⟨count, errors⟩ := centred_errors centred
  have fades : |average errorEmaAlpha start.smoothedError (acceptedErrors dsp newer)| ≤ _ :=
    average_fades (by unfold errorEmaAlpha; norm_num) (by unfold errorEmaAlpha; norm_num) errors
  rwa [← smoothed_newer begun run, errorWeight, count] at fades

theorem stays_in_band {r : α} (small : r < lockBandDeg) {newer older : List (Block α)}
    {start tracker : Tracker α} (begun : Run (next py dsp) initial older start)
    (run : Run (next py dsp) initial (newer ++ older) tracker)
    (centred : ∀ b ∈ newer, Centred dsp r b) (inside : |start.smoothedError| ≤ lockBandDeg) :
    |tracker.smoothedError| ≤ lockBandDeg := by
  obtain ⟨_, errors⟩ := centred_errors centred
  rw [smoothed_newer begun run, abs_le]
  apply average_mem
  · unfold errorEmaAlpha; norm_num
  · unfold errorEmaAlpha; norm_num
  · exact abs_le.mp inside
  · intro e mem
    exact abs_le.mp ((errors e mem).trans small.le)

theorem enters_band {r : α} (small : r < lockBandDeg) {b : Block α} {newer older : List (Block α)}
    {start tracker : Tracker α} (begun : Run (next py dsp) initial older start)
    (run : Run (next py dsp) initial (b :: newer ++ older) tracker)
    (centred : ∀ c ∈ b :: newer, Centred dsp r c)
    (enough : lockBlocks start.smoothedError r ≤ (b :: newer).length) :
    |b.after.smoothedError| ≤ lockBandDeg := by
  have nonneg : 0 ≤ r := (abs_nonneg _).trans (centred b (by simp)).2
  have bound := centred_bound begun run centred
  rw [(run_head run).2.2] at bound
  exact bound.trans (fades_into_band nonneg small enough)

theorem later_in_band {r : α} (small : r < lockBandDeg) {later rest : List (Block α)} {b : Block α}
    {tracker : Tracker α} (run : Run (next py dsp) initial (later ++ b :: rest) tracker)
    (centred : ∀ c ∈ later, Centred dsp r c) (inside : |b.after.smoothedError| ≤ lockBandDeg) :
    ∀ c ∈ later, |c.after.smoothedError| ≤ lockBandDeg := by
  intro c mem
  obtain ⟨front, back, split⟩ := List.append_of_mem mem
  rw [split, List.append_assoc] at run
  obtain ⟨state, middle⟩ := run_older run
  obtain ⟨state', begun⟩ := run_older middle
  have stays := stays_in_band small begun middle
    (fun d inner => centred d (by rw [split]; exact List.mem_append_right _ inner))
    (by rw [(run_head begun).2.2]; exact inside)
  rwa [(run_head middle).2.2] at stays

omit [IsStrictOrderedRing α] [FloorRing α] [LinearOrder α] [Field α] in
theorem oldest_with {Item : Type} {p : Item → Prop} {items : List Item} (found : ∃ x ∈ items, p x) :
    ∃ later x earlier, items = later ++ x :: earlier ∧ p x ∧ ∀ y ∈ earlier, ¬ p y := by
  induction items with
  | nil => simp at found
  | cons y items ih =>
    by_cases older : ∃ x ∈ items, p x
    · obtain ⟨later, x, earlier, split, holds, none⟩ := ih older
      exact ⟨y :: later, x, earlier, by rw [split]; rfl, holds, none⟩
    · obtain ⟨x, mem, holds⟩ := found
      rcases List.mem_cons.mp mem with rfl | inside
      · refine ⟨[], x, items, rfl, holds, ?_⟩
        intro z zmem zholds
        exact older ⟨z, zmem, zholds⟩
      · exact absurd ⟨x, inside, holds⟩ older

/-- From any reachable state, blocks near the axis bring the average into the
    band at a known rate, keep it there and, the hold later, lock. -/
theorem centred_source_locks {r : α} (small : r < lockBandDeg) {newer older : List (Block α)}
    {start tracker : Tracker α} (begun : Run (next py dsp) initial older start)
    (run : Run (next py dsp) initial (newer ++ older) tracker)
    (clock : Nondecreasing (newer ++ older)) (centred : ∀ b ∈ newer, Centred dsp r b) :
    |tracker.smoothedError| ≤ (7 / 10) ^ newer.length * |start.smoothedError| +
        (1 - (7 / 10) ^ newer.length) * r ∧
    (lockBlocks start.smoothedError r ≤ newer.length → ∃ later b earlier,
      newer = later ++ b :: earlier ∧ |b.after.smoothedError| ≤ lockBandDeg ∧
        (∀ c ∈ earlier, ¬ |c.after.smoothedError| ≤ lockBandDeg) ∧
        earlier.length < lockBlocks start.smoothedError r) ∧
    ∀ later b earlier, newer = later ++ b :: earlier → |b.after.smoothedError| ≤ lockBandDeg →
      ∀ c ∈ later, |c.after.smoothedError| ≤ lockBandDeg ∧
        (b.input.now + lockHoldSeconds ≤ c.input.now →
          ∀ packet ∈ blockPackets py dsp c, packet.1.state = .locked) := by
  refine ⟨centred_bound begun run centred, ?first, ?held⟩
  case first =>
    intro enough
    have inside : ∃ b ∈ newer, |b.after.smoothedError| ≤ lockBandDeg := by
      cases newer with
      | nil => simp [lockBlocks] at enough
      | cons b newer => exact ⟨b, by simp, enters_band small begun run centred enough⟩
    obtain ⟨later, b, earlier, split, holds, outside⟩ := oldest_with inside
    refine ⟨later, b, earlier, split, holds, outside, ?_⟩
    by_contra many
    rw [not_lt] at many
    cases earlier with
    | nil => simp [lockBlocks] at many
    | cons c earlier =>
      rw [split] at run centred
      have shape : later ++ b :: c :: earlier ++ older =
          (later ++ [b]) ++ (c :: earlier ++ older) := by simp
      rw [shape] at run
      obtain ⟨_, front⟩ := run_older run
      have entered := enters_band small begun front (fun d mem => centred d (by simp_all)) many
      exact outside c (by simp) entered
  case held =>
    intro later b earlier split holds c mem
    rw [split, List.append_assoc, List.cons_append] at run clock
    rw [split] at centred
    have inside := later_in_band small run (fun d inner => centred d (by simp [inner])) holds
    refine ⟨inside c mem, ?_⟩
    intro long
    obtain ⟨front, back, parts⟩ := List.append_of_mem mem
    have band : InBand dsp b := ⟨(centred b (by simp)).1, holds⟩
    have bands : ∀ d ∈ c :: back, InBand dsp d := by
      intro d inner
      have placed : d ∈ later := by
        rw [parts]
        exact List.mem_append_right _ inner
      exact ⟨(centred d (by simp [placed])).1, inside d placed⟩
    rw [parts, List.append_assoc] at run
    obtain ⟨_, middle⟩ := run_older run
    exact held_locks middle (List.pairwise_append.mp clock).2.1 band bands long

/-- Straight ahead from the start: in band at once, LOCKED a second later. -/
theorem straight_ahead_locks :
    ∃ (c b : Block ℚ) (tracker : Tracker ℚ),
      Run (next benchPython benchDsp) initial [c, b] tracker ∧
      (∀ d ∈ [c, b], Centred benchDsp 1 d) ∧
      ∀ packet ∈ blockPackets benchPython benchDsp c, packet.1.state = .locked := by
  have run := (bench_start.go (benchPass onAxisRaw [] 10) (by decide +kernel)).go
    (benchPass onAxisRaw [] 11) (by decide +kernel)
  have small : (1 : ℚ) < lockBandDeg := by
    unfold lockBandDeg
    norm_num
  refine ⟨_, _, _, run, ?centred, ?_⟩
  case centred => decide +kernel
  have parted : Run (next benchPython benchDsp) initial ([_, _] ++ []) _ := run
  obtain ⟨_, _, held⟩ :=
    centred_source_locks small bench_start parted (by decide +kernel) (by decide +kernel)
  exact (held [_] _ [] rfl (by decide +kernel) _ (by simp)).2 (by decide +kernel)

end SoqTracker.CentredLock
