import SoqTracker.LoopReports
import SoqTracker.LoopSteering
import SoqTracker.GccPhat
import SoqTracker.CentredLock
import SoqTracker.HeroOrbit

/- A source that keeps its direction, from the delay between the outer microphones
   to the input of the servo's updates. Every third block steers by its bearing. -/
namespace SoqTracker.SteadySource
open ExtendedNumber Controller TrackerLoop Runs Components Averages SteeringCommands SmoothedError
open CommandLink SerialReader ClosedLoop LoopSteering DiscreteFourier GccPhat
open AngleRange (realDsp real_arcsin_range realDsp_rightAngled)
open CentredLock (smoothed_newer errorWeight Centred centred_errors)

/- Blocks that measure one error. -/

section Blocks
variable {α : Type} [Field α] [LinearOrder α] {py : Python α} {dsp : Dsp α} {e : α}

def Measures (dsp : Dsp α) (e : α) (raw : List UInt8) : Prop :=
  OffAxis dsp raw ∨ Accepted dsp raw ∧ rawErrorDeg dsp raw = e

theorem accepted_aside {b : Block α} (aside : OffAxis dsp b.input.raw) (older : List (Block α)) :
    acceptedErrors dsp (b :: older) = acceptedErrors dsp older := by
  have refused : ¬ Accepted dsp b.input.raw := fun accepted => aside.2 accepted.2
  simp [acceptedErrors, refused]

theorem accepted_cons {b : Block α} (accepted : Accepted dsp b.input.raw)
    (older : List (Block α)) :
    acceptedErrors dsp (b :: older) = rawErrorDeg dsp b.input.raw :: acceptedErrors dsp older := by
  simp [acceptedErrors, accepted]

theorem accepted_replicate {newer : List (Block α)}
    (all : ∀ b ∈ newer, Measures dsp e b.input.raw) :
    acceptedErrors dsp newer = List.replicate (acceptedErrors dsp newer).length e := by
  rw [List.eq_replicate_iff]
  refine ⟨rfl, ?_⟩
  intro x mem
  obtain ⟨b, kept, rfl⟩ := List.mem_map.mp mem
  obtain ⟨inside, accepted⟩ := List.mem_filter.mp kept
  rcases all b inside with aside | ⟨_, same⟩
  · exact absurd (of_decide_eq_true accepted).2 aside.2
  · exact same

theorem rtake_replicate {Item : Type} (item : Item) (m n : ℕ) :
    (List.replicate n item).rtake m = List.replicate (min m n) item := by
  rw [List.rtake_eq_reverse_take_reverse, List.reverse_replicate, List.take_replicate,
    List.reverse_replicate]

variable [IsStrictOrderedRing α]

theorem consistent_replicate (n : ℕ) : Consistent (List.replicate n e) ↔ 3 ≤ n := by
  rw [Consistent, List.length_replicate, and_iff_left_iff_imp]
  intro three
  have level : spread (List.replicate 3 e) = 0 := by
    simp [spread, maximum, minimum, List.replicate_succ]
  rw [rtake_replicate, min_eq_left three, level]
  norm_num

theorem mean_replicate : mean (List.replicate 3 e) = e := by
  rw [mean, List.sum_replicate, List.length_replicate, nsmul_eq_mul]
  field_simp

variable [FloorRing α]

theorem steady_block {history : List (Block α)} {b : Block α} {m : ℕ} (buffered : m < 3)
    (buffer : BufferIs py dsp history b.before) (left : sinceReset py dsp history = List.replicate m e)
    (moved : next py dsp b.before b.input = some b.after) (accepted : Accepted dsp b.input.raw)
    (same : rawErrorDeg dsp b.input.raw = e) :
    blockWrites py dsp b = (if m = 2 then [commandBytes (truncate e)] else []) ∧
      sinceReset py dsp (b :: history) = List.replicate ((m + 1) % 3) e := by
  have grown : sinceReset py dsp history ++ [rawErrorDeg dsp b.input.raw] =
      List.replicate (m + 1) e := by
    rw [left, same, List.replicate_succ']
  have writes : blockWrites py dsp b = (if m = 2 then [commandBytes (truncate e)] else []) := by
    rw [blockWrites, writes_tracking (next_processed moved) accepted, steered_spec buffer, grown]
    by_cases third : m = 2
    · have whole : min 3 (m + 1) = 3 := by omega
      rw [if_pos ((consistent_replicate _).mpr (by omega)), rtake_replicate, whole, mean_replicate,
        if_pos third]
      rfl
    · rw [if_neg fun close => third (by have := (consistent_replicate _).mp close; omega),
        if_neg third]
      rfl
  refine ⟨writes, ?_⟩
  rw [sinceReset_accepted accepted, writes, grown]
  by_cases third : m = 2
  · simp [third]
  · have small : (m + 1) % 3 = m + 1 := Nat.mod_eq_of_lt (by omega)
    simp [third, small]

theorem steady_run {newer older : List (Block α)} {tracker : Tracker α}
    (run : Run (next py dsp) initial (newer ++ older) tracker)
    (reset : sinceReset py dsp older = [])
    (all : ∀ b ∈ newer, Measures dsp e b.input.raw) :
    along (blockWrites py dsp) newer =
        List.replicate ((acceptedErrors dsp newer).length / 3) (commandBytes (truncate e)) ∧
      sinceReset py dsp (newer ++ older) =
        List.replicate ((acceptedErrors dsp newer).length % 3) e := by
  induction newer generalizing tracker with
  | nil => exact ⟨by simp [along, acceptedErrors], by simpa [acceptedErrors] using reset⟩
  | cons b newer ih =>
    obtain ⟨front, moved, _⟩ := run_head run
    obtain ⟨wrote, left⟩ := ih front fun c mem => all c (List.mem_cons_of_mem b mem)
    rw [along_cons, wrote, List.cons_append]
    rcases all b List.mem_cons_self with aside | ⟨accepted, same⟩
    · have silent : blockWrites py dsp b = [] := writes_offAxis aside
      rw [accepted_aside aside, silent, List.append_nil, sinceReset, if_pos aside]
      exact ⟨rfl, left⟩
    · obtain ⟨writes, kept⟩ :=
        steady_block (Nat.mod_lt _ (by decide)) (buffer_run front) left moved accepted same
      rw [accepted_cons accepted, List.length_cons, writes]
      constructor
      · by_cases third : (acceptedErrors dsp newer).length % 3 = 2
        · have more : ((acceptedErrors dsp newer).length + 1) / 3 =
              (acceptedErrors dsp newer).length / 3 + 1 := by omega
          rw [if_pos third, more, List.replicate_succ']
        · have same : ((acceptedErrors dsp newer).length + 1) / 3 =
              (acceptedErrors dsp newer).length / 3 := by omega
          rw [if_neg third, same, List.append_nil]
      · exact kept.trans (by rw [Nat.mod_add_mod])

omit [IsStrictOrderedRing α] in
theorem quiet_resets {older : List (Block α)} (quiet : ∀ b ∈ older.head?, ¬ Loud dsp b.input.raw) :
    sinceReset py dsp older = [] := by
  cases older with
  | nil => rfl
  | cons b older =>
    have low : ¬ Loud dsp b.input.raw := quiet b rfl
    rw [sinceReset, if_neg fun aside => low aside.1, if_neg fun kept => low kept.1]

end Blocks

/- The bearing. -/

/-- The direction of a sound that reaches the first microphone d samples after the
    fourth, in degrees. -/
noncomputable def bearing (d : ℤ) : ℝ :=
  Real.arcsin (d / sampleRate * speedOfSound / micSpacing) * 180 / Real.pi

theorem bearing_angle (d : ℤ) : bearing d = Real.arcsin (d * (343 / 3616)) * 180 / Real.pi := by
  have ratio : (d : ℝ) / sampleRate * speedOfSound / micSpacing = d * (343 / 3616) := by
    rw [sampleRate, speedOfSound, micSpacing]
    ring
  rw [bearing, ratio]

theorem bearing_neg (d : ℤ) : bearing (-d) = -bearing d := by
  rw [bearing_angle, bearing_angle, Int.cast_neg, neg_mul, Real.arcsin_neg]
  ring

/-- By the sine, which is at most its angle. -/
theorem bearing_above {d : ℤ} (ahead : 0 ≤ d) (near : d ≤ 9) : 5 * (d : ℝ) ≤ bearing d := by
  have positive := Real.pi_pos
  have below := Real.pi_lt_d2
  have low : (0 : ℝ) ≤ d := Int.cast_nonneg ahead
  have high : (d : ℝ) ≤ 9 := by exact_mod_cast near
  have angle : (d : ℝ) * (343 / 3616) ≤ Real.arcsin (d * (343 / 3616)) := by
    rw [Real.le_arcsin_iff_sin_le ⟨by linarith, by linarith [Real.pi_gt_three]⟩
      ⟨by linarith, by linarith⟩]
    exact Real.sin_le (by linarith)
  rw [bearing_angle, le_div_iff₀ positive]
  have turned := mul_le_mul_of_nonneg_left below.le low
  linarith

theorem truncate_int (n : ℤ) : truncate (n : ℝ) = n := by
  unfold truncate
  split
  · exact Int.floor_intCast n
  · exact Int.ceil_intCast n

theorem command_right {d : ℤ} (ahead : 0 ≤ d) (near : d ≤ 9) : 5 * d ≤ truncate (bearing d) := by
  have order := truncate_mono (bearing_above ahead near)
  rwa [show 5 * (d : ℝ) = ((5 * d : ℤ) : ℝ) by push_cast; rfl, truncate_int] at order

theorem command_left {d : ℤ} (behind : d ≤ 0) (near : -9 ≤ d) : truncate (bearing d) ≤ 5 * d := by
  have above := bearing_above (d := -d) (by omega) (by omega)
  rw [bearing_neg] at above
  push_cast at above
  have order := truncate_mono (show bearing d ≤ 5 * (d : ℝ) by linarith)
  rwa [show 5 * (d : ℝ) = ((5 * d : ℤ) : ℝ) by push_cast; rfl, truncate_int] at order

theorem bearing_small {d : ℤ} (near : |d| ≤ 9) : |truncate (bearing d)| ≤ 90 := by
  obtain ⟨left, right⟩ := abs_le.mp near
  have low : (-9 : ℝ) ≤ d := by exact_mod_cast left
  have high : (d : ℝ) ≤ 9 := by exact_mod_cast right
  obtain ⟨least, greatest⟩ := real_arcsin_range (d * (343 / 3616))
  apply truncate_below
  · rw [bearing_angle]
    push_cast
    linarith
  · rw [bearing_angle]
    push_cast
    linarith

/- The source. -/

/-- A loud block whose first channel is its fourth one d samples later, around the
    circle of the transform. -/
structure SoundFrom (d : ℤ) (raw : List UInt8) : Prop where
  loud : Loud (realDsp gccPhat) raw
  shifted : Shifted (mic4 raw) (mic1 raw) (2 * (mic4 raw : List ℝ).length) d
  present : bin (mic4 raw) (2 * (mic4 raw : List ℝ).length) 1 ≠ 0

theorem fewer_than_four {Item : Type} {xs : List Item}
    (short : ∀ a b c d later, xs = a :: b :: c :: d :: later → False) : xs.length / 4 = 0 := by
  rcases xs with _ | ⟨a, _ | ⟨b, _ | ⟨c, _ | ⟨d, later⟩⟩⟩⟩
  · simp
  · simp
  · simp
  · simp
  · exact absurd rfl (short a b c d later)

theorem samples_length (raw : List UInt8) : (samples raw).length = raw.length / 4 := by
  induction raw using samples.induct with
  | case1 a b c d later ih =>
    rw [samples, List.length_cons, ih]
    simp only [List.length_cons]
    omega
  | case2 raw short =>
    rw [samples.eq_2 raw short, fewer_than_four short]
    rfl

theorem channel_samples (mic : ℕ) (xs : List ℤ) : (channel mic xs).length = xs.length / 4 := by
  induction xs using channel.induct with
  | case1 a b c d later ih =>
    rw [channel, List.length_cons, ih]
    simp only [List.length_cons]
    omega
  | case2 xs short =>
    rw [channel.eq_2 mic xs short, fewer_than_four short]
    rfl

theorem sound_accepted {d : ℤ} (near : |d| ≤ 9) {raw : List UInt8}
    (full : blockBytes ≤ raw.length) (sound : SoundFrom d raw) :
    Accepted (realDsp gccPhat) raw ∧ rawErrorDeg (realDsp gccPhat) raw = bearing d := by
  have long : 12 ≤ (mic4 raw : List ℝ).length := by
    have size : blockBytes = 2048 := rfl
    rw [mic4, List.length_map, channel_samples, samples_length]
    omega
  obtain ⟨ahead, same⟩ := delayed_block long (by omega) sound.shifted sound.present
  exact ⟨⟨sound.loud, ahead.mpr near⟩, (same near).trans (bearing_angle d).symm⟩

/- The loop. -/

section Loop
variable {Memory : Type} {p : Programs ℝ Memory} {imuReady : Bool} {unheard : Nat} {now : ℝ}
  {history : List (Moment ℝ Memory)} {s : System ℝ Memory}

/-- What the tracker and the controller do about a source d samples off the axis that
    has sounded in every block which the tracker did not pass over. -/
structure Follows (p : Programs ℝ Memory) (d : ℤ) (older newer : List (Block ℝ))
    (turns : List (Cycle ℝ Memory)) (tracker : Tracker ℝ) : Prop where
  commands : commandsWritten p (newer ++ older) = commandsWritten p older ++
    (List.replicate ((acceptedErrors p.dsp newer).length / 3)
      (commandBytes (truncate (bearing d)))).flatten
  buffered : tracker.lastErrors =
    List.replicate ((acceptedErrors p.dsp newer).length % 3) (bearing d)
  smoothed : ∀ start, Run (next p.py p.dsp) initial older start →
    tracker.smoothedError = bearing d +
      (7 / 10) ^ (acceptedErrors p.dsp newer).length * (start.smoothedError - bearing d)
  updates : ∀ t earlier, t :: earlier <:+ turns →
    (commandsWritten p older).count 10 < (bytesRead (t :: earlier)).count 10 →
      ∀ x ∈ Firmware.pidInput t.before t.input, x = .finite (-(truncate (bearing d) : ℝ))
  right : 0 ≤ d → 5 * d ≤ truncate (bearing d)
  left : d ≤ 0 → truncate (bearing d) ≤ 5 * d

theorem commands_lines {commands : List Int} (small : ∀ c ∈ commands, |c| ≤ 90) :
    ((commands.map commandBytes).flatten).count 10 = commands.length := by
  induction commands with
  | nil => rfl
  | cons c commands ih =>
    have unmarked : (10 : UInt8) ∉ commandLine c :=
      (commandLine_carried (small c List.mem_cons_self)).unmarked
    have line : (commandBytes c).count 10 = 1 := by
      rw [commandBytes_line, List.count_append, List.count_eq_zero.mpr unmarked]
      rfl
    rw [List.map_cons, List.flatten_cons, List.count_append, line,
      ih fun b mem => small b (List.mem_cons_of_mem c mem), List.length_cons, Nat.add_comm]

theorem latest_later {first : List Int} {c : Int} {n j : ℕ} (past : first.length < j)
    (some_later : n ≠ 0) : CommandLink.latest (first ++ List.replicate n c) j = c := by
  have few : min (j - first.length) n ≠ 0 := by omega
  rw [CommandLink.latest, List.take_append, List.take_replicate, List.take_of_length_le past.le,
    List.getLast?_append, List.getLast?_replicate, if_neg few]
  rfl

/-- Whatever was before: a source that sounds alone since a quiet block, or since the
    start, is steered to, one command for every three of its blocks. -/
theorem steady_source_followed (ears : p.dsp = realDsp gccPhat) {d : ℤ} (near : |d| ≤ 9)
    (run : Run (step p) (begin p imuReady unheard now) history s)
    {newer older : List (Block ℝ)} (split : blocks history = newer ++ older)
    (reset : ∀ b ∈ older.head?, ¬ Loud p.dsp b.input.raw)
    (steady : ∀ b ∈ newer, OffAxis p.dsp b.input.raw ∨ SoundFrom d b.input.raw) :
    Follows p d older newer (turns history) s.tracker := by
  have ran : Run (next p.py p.dsp) initial (newer ++ older) s.tracker := split ▸ blocks_run run
  have all : ∀ b ∈ newer, Measures p.dsp (bearing d) b.input.raw := by
    intro b mem
    rcases steady b mem with aside | sound
    · exact .inl aside
    · obtain ⟨_, _, _, moved⟩ := run_member ran (List.mem_append_left older mem)
      rw [ears]
      exact .inr (sound_accepted near (next_processed moved).1 sound)
  obtain ⟨wrote, left⟩ := steady_run ran (quiet_resets reset) all
  have appended : commandsWritten p (newer ++ older) = commandsWritten p older ++
      (List.replicate ((acceptedErrors p.dsp newer).length / 3)
        (commandBytes (truncate (bearing d)))).flatten := by
    rw [commandsWritten, along_append, along_flatten _ newer, wrote]
    rfl
  constructor
  case commands => exact appended
  case buffered =>
    have buffer : s.tracker.lastErrors = _ := buffer_run ran
    rw [buffer, left, rtake_replicate, min_eq_right (by omega)]
  case smoothed =>
    intro start begun
    rw [smoothed_newer begun ran, accepted_replicate all, average_replicate, errorWeight,
      List.length_replicate]
  case updates =>
    intro t earlier placed past x passed
    obtain ⟨_, earlierRun⟩ := run_older ran
    obtain ⟨first, written, small⟩ := commands_written (ears ▸ realDsp_rightAngled gccPhat) earlierRun
    have whole : commandsWritten p (blocks history) = ((first ++ List.replicate
        ((acceptedErrors p.dsp newer).length / 3) (truncate (bearing d))).map commandBytes).flatten := by
      rw [split, appended, written, List.map_append, List.flatten_append, List.map_replicate]
    have smallAll : ∀ c ∈ first ++ List.replicate ((acceptedErrors p.dsp newer).length / 3)
        (truncate (bearing d)), |c| ≤ 90 := by
      intro c mem
      rcases List.mem_append.mp mem with before | after
      · exact small c before
      · rw [List.eq_of_mem_replicate after]
        exact bearing_small near
    have most := ((bytesRead_earlier placed).trans (commands_arrived run whole)).sublist.count_le 10
    rw [commands_lines smallAll, List.length_append, List.length_replicate] at most
    rw [written, commands_lines small] at past
    rw [update_input run whole smallAll placed x passed, latest_later past (by omega)]
  case right => exact fun ahead => command_right ahead (abs_le.mp near).2
  case left => exact fun behind => command_left behind (abs_le.mp near).1

end Loop

/- A bench over the reals: a clap that reaches the first microphone three samples
   after the fourth. -/

def clap : List UInt8 := [0, 32, 161, 7]

def clapRaw : List UInt8 := silence 3 ++ clap ++ silence 8 ++ clap ++ silence 499

def impulseAt (p : ℕ) : List ℝ := (List.range 128).map fun j => if j = p then 128000000 else 0

theorem impulseAt_get {p : ℕ} (inside : p < 128) (i : ℕ) :
    (impulseAt p).getD i 0 = if i = p then 128000000 else 0 := by
  rw [impulseAt, List.getD_eq_getElem?_getD, List.getElem?_map]
  by_cases placed : i < 128
  · simp [List.getElem?_range placed]
  · have other : i ≠ p := by omega
    simp [placed, other]

theorem clap_channels : (mic1 clapRaw : List ℝ) = impulseAt 3 ∧ (mic4 clapRaw : List ℝ) = impulseAt 0 := by
  have first : channel 0 (samples clapRaw) =
      (List.range 128).map fun j => if j = 3 then 128000000 else 0 := by decide +kernel
  have fourth : channel 3 (samples clapRaw) =
      (List.range 128).map fun j => if j = 0 then 128000000 else 0 := by decide +kernel
  rw [mic1, mic4, first, fourth]
  simp only [impulseAt, List.map_map]
  constructor
  · apply List.map_congr_left
    intro j _
    simp
  · apply List.map_congr_left
    intro j _
    simp

theorem clap_sound : SoundFrom 3 clapRaw := by
  obtain ⟨first, fourth⟩ := clap_channels
  have size : (impulseAt 0).length = 128 := by simp [impulseAt]
  constructor
  case loud =>
    have total : ((channel 0 (samples clapRaw)).map (· ^ 2)).sum = 128000000 ^ 2 := by
      decide +kernel
    have count : (channel 0 (samples clapRaw)).length = 128 := by decide +kernel
    have squares : ((mic1 clapRaw : List ℝ).map (· ^ 2)).sum = 128000000 ^ 2 := by
      have cast := congrArg (Int.cast : ℤ → ℝ) total
      rw [Int.cast_list_sum, List.map_map] at cast
      rw [mic1, List.map_map]
      simp only [Function.comp_def, Int.cast_pow, Int.cast_ofNat] at cast ⊢
      exact cast
    rw [Loud, rms, mean, squares, List.length_map, mic1, List.length_map, count]
    apply Real.le_sqrt_of_sq_le
    norm_num [threshold]
  case shifted =>
    rw [first, fourth, size]
    intro i near
    rw [impulseAt_get (by decide), impulseAt_get (by decide)]
    by_cases here : i = 0
    · simp [here]
    · have away : ((i + (3 : ℤ)) % (2 * 128 : ℕ)).toNat ≠ 3 := by omega
      rw [if_neg here, if_neg away]
  case present =>
    rw [fourth, size, bin, Finset.sum_eq_single 0]
    · rw [impulseAt_get (by decide), if_pos rfl]
      simp [turn]
    · intro j _ other
      rw [impulseAt_get (by decide), if_neg other, Complex.ofReal_zero, zero_mul]
    · intro outside
      exact absurd (Finset.mem_range.mpr (by decide)) outside

noncomputable def clapPid : Firmware.Pid ℝ Unit where
  start := ()
  run := fun _ _ input =>
    (match input with
    | .nan => .nan
    | .posInf => .finite (-20)
    | .negInf => .finite 20
    | .finite x => .finite (max (-20) (min 20 (((-6 / 100 : ℚ) : ℝ) * x))), ())

noncomputable def clapPrograms : Programs ℝ Unit where
  pid := clapPid
  py :=
    { floatRepr := fun x =>
        (Decimal.intText (truncate x) ++ '.' :: Decimal.natText ((truncate (10 * x)).natAbs % 10)).take 24
      limits := Json.Limits.standard
      dumpsLimit := 900
      maxDatagram := 65507 }
  dsp := realDsp gccPhat
  desktop :=
    { HeroOrbit.levelDesktop with
      logRatio := fun _ => .ok (.finite (1154901959985743 / 10 ^ 15 : ℚ)) }
  repr_short := fun _ => List.length_take_le _ _
  dumps_room := by decide
  datagram_room := by decide
  loads_room := by decide

def clapPass : Pass ℝ := ⟨clapRaw, [], fun _ => 10, 10⟩

theorem claps_heard (n : ℕ) : ∃ (history : List (Moment ℝ Unit)) (s : System ℝ Unit),
    Run (step clapPrograms) (begin clapPrograms true 0 9) history s ∧
      (blocks history).length = n ∧ ∀ b ∈ blocks history, b.input.raw = clapRaw := by
  induction n with
  | zero => exact ⟨[], _, Run.start, rfl, by simp [blocks, steps]⟩
  | succ n ih =>
    obtain ⟨history, s, run, count, claps⟩ := ih
    have full : blockBytes ≤ clapRaw.length := by decide +kernel
    have arrived : clapPass.serial <+: s.toTracker := List.nil_prefix
    have goes : (step clapPrograms s (.pass clapPass)).isSome := by
      rw [step, if_pos arrived, Option.isSome_map]
      exact LoopReports.pass_completes run arrived full
    -- the newest block is this pass
    refine ⟨_, _, run.go _ goes, ?_, ?_⟩
    · exact congrArg (· + 1) count
    · exact List.forall_mem_cons.mpr ⟨rfl, claps⟩

/-- Three claps, and a command to the right. -/
theorem steady_source_bench : ∃ (history : List (Moment ℝ Unit)) (s : System ℝ Unit) (c : ℤ),
    Run (step clapPrograms) (begin clapPrograms true 0 9) history s ∧
      commandsWritten clapPrograms (blocks history) = commandBytes c ∧ 15 ≤ c := by
  obtain ⟨history, s, run, count, claps⟩ := claps_heard 3
  have full : blockBytes ≤ clapRaw.length := by decide +kernel
  obtain ⟨accepted, _⟩ := sound_accepted (by decide) full clap_sound
  have follows := steady_source_followed rfl (by decide : |(3 : ℤ)| ≤ 9) run
    (List.append_nil _).symm (by simp) fun b mem => .inr (claps b mem ▸ clap_sound)
  have all : (acceptedErrors clapPrograms.dsp (blocks history)).length = 3 := by
    rw [← count]
    refine (centred_errors (r := |rawErrorDeg clapPrograms.dsp clapRaw|) ?_).1
    intro b mem
    rw [Centred, claps b mem]
    exact ⟨accepted, le_refl _⟩
  have written := follows.commands
  rw [all, List.append_nil] at written
  refine ⟨history, s, truncate (bearing 3), run, ?_, follows.right (by decide)⟩
  simpa [commandsWritten, along] using written

end SoqTracker.SteadySource
