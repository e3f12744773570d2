import SoqTracker.TrackerLoop
import Mathlib.Data.List.DropRight
import Mathlib.Data.Finset.Basic
import Mathlib.Data.Finset.Insert

/- Which measurements a steering command comes from. The list last_errors is the
   end of the measurements accepted since the last command or quiet block, of
   which there may be any number. -/
namespace SoqTracker.SteeringCommands
open ExtendedNumber TrackerLoop Runs Controller

variable {α : Type} [Field α] [LinearOrder α]

/- One step of the buffer. -/

def spread (errors : List α) : α := maximum errors - minimum errors

def Consistent (errors : List α) : Prop := 3 ≤ errors.length ∧ spread (errors.rtake 3) < 15

instance (errors : List α) : Decidable (Consistent errors) := by
  unfold Consistent; infer_instance

theorem rtake_short {Item : Type} {items : List Item} {n : Nat} (short : items.length ≤ n) :
    items.rtake n = items := by
  rw [List.rtake, Nat.sub_eq_zero_of_le short, List.drop_zero]

theorem rtake_suffix {Item : Type} (items : List Item) (n : Nat) : items.rtake n <:+ items :=
  List.drop_suffix _ items

theorem rtake_length {Item : Type} (items : List Item) (n : Nat) :
    (items.rtake n).length = min n items.length := by
  rw [List.rtake, List.length_drop]
  omega

theorem rtake_rtake {Item : Type} (items : List Item) {m n : Nat} (fewer : m ≤ n) :
    (items.rtake n).rtake m = items.rtake m := by
  rw [List.rtake_eq_reverse_take_reverse, List.rtake_eq_reverse_take_reverse,
    List.rtake_eq_reverse_take_reverse, List.reverse_reverse, List.take_take, min_eq_left fewer]

/-- Forgetting old measurements changes nothing that a later one can see. -/
theorem rtake_forget {Item : Type} (items : List Item) (item : Item) {m n : Nat} (fewer : m ≤ n) :
    (items.rtake n ++ [item]).rtake (m + 1) = (items ++ [item]).rtake (m + 1) := by
  rw [List.rtake_concat_succ, List.rtake_concat_succ, rtake_rtake items fewer]

theorem consistent_forget (errors : List α) (error : α) :
    Consistent (errors.rtake 5 ++ [error]) ↔ Consistent (errors ++ [error]) := by
  unfold Consistent
  rw [rtake_forget errors error (by omega : 2 ≤ 5), List.length_append, List.length_append,
    rtake_length]
  simp only [List.length_singleton]
  constructor
  · rintro ⟨enough, close⟩
    exact ⟨by omega, close⟩
  · rintro ⟨enough, close⟩
    exact ⟨by omega, close⟩

theorem consistent_two {errors : List α} {error : α} (close : Consistent (errors ++ [error])) :
    2 ≤ errors.length := by
  have three := close.1
  rw [List.length_append, List.length_singleton] at three
  omega

variable [FloorRing α]

theorem steer_spec {errors : List α} (bounded : errors.length ≤ 6) :
    steer errors =
      if Consistent errors then ([], some (truncate (mean (errors.rtake 3))))
      else (errors.rtake 5, none) := by
  unfold steer Consistent
  by_cases enough : 3 ≤ errors.length
  · by_cases close : spread (errors.rtake 3) < 15
    · simp only [enough, close, and_self, if_true]
      rw [if_pos (by exact close)]
      rfl
    · simp only [enough, close, and_false, if_true, if_false]
      rw [if_neg (by exact close)]
      by_cases long : 5 < errors.length
      · have six : errors.length = 6 := by omega
        simp [six, List.rtake]
      · rw [if_neg long, rtake_short (by omega)]
  · simp only [enough, if_false, false_and]
    rw [rtake_short (by omega)]

/- The measurements behind the buffer. -/

/-- Measurements accepted since the last command or quiet block, oldest first. -/
def sinceReset (py : Python α) (dsp : Dsp α) : List (Block α) → List α
  | [] => []
  | b :: older =>
      if OffAxis dsp b.input.raw then sinceReset py dsp older
      else if Loud dsp b.input.raw ∧ blockWrites py dsp b = [] then
        sinceReset py dsp older ++ [rawErrorDeg dsp b.input.raw]
      else []

variable {py : Python α} {dsp : Dsp α}

theorem sinceReset_aside {gap : List (Block α)} (aside : ∀ b ∈ gap, OffAxis dsp b.input.raw)
    (older : List (Block α)) : sinceReset py dsp (gap ++ older) = sinceReset py dsp older := by
  induction gap with
  | nil => rfl
  | cons b gap ih =>
    rw [List.cons_append, sinceReset, if_pos (aside b (by simp))]
    exact ih (fun c mem => aside c (by simp [mem]))

theorem sinceReset_accepted {b : Block α} (accepted : Accepted dsp b.input.raw)
    (older : List (Block α)) :
    sinceReset py dsp (b :: older) =
      if blockWrites py dsp b = [] then
        sinceReset py dsp older ++ [rawErrorDeg dsp b.input.raw] else [] := by
  have ahead : ¬ OffAxis dsp b.input.raw := fun aside => aside.2 accepted.2
  simp [sinceReset, ahead, accepted.1]

theorem sinceReset_newest {history : List (Block α)} (some_left : sinceReset py dsp history ≠ []) :
    ∃ gap b older, history = gap ++ b :: older ∧ (∀ c ∈ gap, OffAxis dsp c.input.raw) ∧
      Accepted dsp b.input.raw ∧ blockWrites py dsp b = [] := by
  induction history with
  | nil => exact absurd rfl some_left
  | cons b older ih =>
    by_cases aside : OffAxis dsp b.input.raw
    · rw [sinceReset, if_pos aside] at some_left
      obtain ⟨gap, c, oldest, split, all, accepted, silent⟩ := ih some_left
      refine ⟨b :: gap, c, oldest, by rw [split]; rfl, ?_, accepted, silent⟩
      intro d mem
      rcases List.mem_cons.mp mem with here | there
      · rw [here]
        exact aside
      · exact all d there
    · rw [sinceReset, if_neg aside] at some_left
      by_cases kept : Loud dsp b.input.raw ∧ blockWrites py dsp b = []
      · refine ⟨[], b, older, rfl, by simp, ⟨kept.1, ?_⟩, kept.2⟩
        by_contra off
        exact aside ⟨kept.1, off⟩
      · exact absurd (if_neg kept) some_left

/- Three consecutive accepted measurements. -/

/-- The current pass and the last two accepted blocks before it. -/
structure Triple (dsp : Dsp α) (history : List (Block α)) (pass : Pass α) where
  gap : List (Block α)
  second : Block α
  gap' : List (Block α)
  first : Block α
  older : List (Block α)
  split : history = gap ++ second :: (gap' ++ first :: older)
  aside : ∀ b ∈ gap ++ gap', OffAxis dsp b.input.raw
  secondAccepted : Accepted dsp second.input.raw
  firstAccepted : Accepted dsp first.input.raw
  accepted : Accepted dsp pass.raw

namespace Triple
variable {history : List (Block α)} {pass : Pass α}

def errors (t : Triple dsp history pass) : List α :=
  [rawErrorDeg dsp t.first.input.raw, rawErrorDeg dsp t.second.input.raw,
    rawErrorDeg dsp pass.raw]

def positions (t : Triple dsp history pass) : Finset Nat :=
  {t.older.length, (t.gap' ++ t.first :: t.older).length, history.length}

omit [FloorRing α] in
theorem positions_bounds (t : Triple dsp history pass) :
    ∀ n ∈ t.positions, t.older.length ≤ n ∧ n ≤ history.length := by
  intro n mem
  have size := congrArg List.length t.split
  simp only [List.length_append, List.length_cons] at size
  simp only [positions, Finset.mem_insert, Finset.mem_singleton, List.length_append,
    List.length_cons] at mem
  rcases mem with oldest | middle | newest
  · omega
  · omega
  · omega

theorem unused (t : Triple dsp history pass) (two : 2 ≤ (sinceReset py dsp history).length) :
    blockWrites py dsp t.second = [] ∧ blockWrites py dsp t.first = [] := by
  have gap : ∀ b ∈ t.gap, OffAxis dsp b.input.raw := fun b mem => t.aside b (by simp [mem])
  have gap' : ∀ b ∈ t.gap', OffAxis dsp b.input.raw := fun b mem => t.aside b (by simp [mem])
  rw [t.split, sinceReset_aside gap, sinceReset_accepted t.secondAccepted,
    sinceReset_aside gap', sinceReset_accepted t.firstAccepted] at two
  by_cases second : blockWrites py dsp t.second = []
  · by_cases first : blockWrites py dsp t.first = []
    · exact ⟨second, first⟩
    · simp [second, first] at two
  · simp [second] at two

theorem errors_eq (t : Triple dsp history pass) (two : 2 ≤ (sinceReset py dsp history).length) :
    (sinceReset py dsp history ++ [rawErrorDeg dsp pass.raw]).rtake 3 = t.errors := by
  obtain ⟨second, first⟩ := t.unused two
  have gap : ∀ b ∈ t.gap, OffAxis dsp b.input.raw := fun b mem => t.aside b (by simp [mem])
  have gap' : ∀ b ∈ t.gap', OffAxis dsp b.input.raw := fun b mem => t.aside b (by simp [mem])
  have whole : sinceReset py dsp history =
      sinceReset py dsp t.older ++ [rawErrorDeg dsp t.first.input.raw] ++
        [rawErrorDeg dsp t.second.input.raw] := by
    refine (congrArg (sinceReset py dsp) t.split).trans ?_
    rw [sinceReset_aside gap, sinceReset_accepted t.secondAccepted, if_pos second,
      sinceReset_aside gap', sinceReset_accepted t.firstAccepted, if_pos first]
  rw [whole, List.rtake_concat_succ, List.rtake_concat_succ, List.rtake_concat_succ,
    List.rtake_zero]
  rfl

theorem exists_of_two {history : List (Block α)} {pass : Pass α}
    (accepted : Accepted dsp pass.raw) (two : 2 ≤ (sinceReset py dsp history).length) :
    Nonempty (Triple dsp history pass) := by
  have newest : sinceReset py dsp history ≠ [] := by
    intro none
    simp [none] at two
  obtain ⟨gap, second, rest, split, aside, secondAccepted, silent⟩ := sinceReset_newest newest
  rw [split, sinceReset_aside aside, sinceReset_accepted secondAccepted, if_pos silent] at two
  have another : sinceReset py dsp rest ≠ [] := by
    intro none
    simp [none] at two
  obtain ⟨gap', first, older, split', aside', firstAccepted, _⟩ := sinceReset_newest another
  refine ⟨⟨gap, second, gap', first, older, by rw [split, split'], ?_, secondAccepted,
    firstAccepted, accepted⟩⟩
  intro b mem
  rcases List.mem_append.mp mem with left | right
  · exact aside b left
  · exact aside' b right

end Triple

/- Runs. -/

def BufferIs (py : Python α) (dsp : Dsp α) (history : List (Block α)) (tracker : Tracker α) : Prop :=
  tracker.lastErrors = (sinceReset py dsp history).rtake 5

theorem steered_spec {history : List (Block α)} {tracker : Tracker α}
    (buffer : BufferIs py dsp history tracker) (raw : List UInt8) :
    steered dsp tracker raw =
      if Consistent (sinceReset py dsp history ++ [rawErrorDeg dsp raw]) then
        ([], some (truncate (mean ((sinceReset py dsp history ++ [rawErrorDeg dsp raw]).rtake 3))))
      else ((sinceReset py dsp history ++ [rawErrorDeg dsp raw]).rtake 5, none) := by
  have short : ((sinceReset py dsp history).rtake 5 ++ [rawErrorDeg dsp raw]).length ≤ 6 := by
    rw [List.length_append, rtake_length, List.length_singleton]
    omega
  rw [steered, buffer, steer_spec short, rtake_forget _ _ (by omega : 2 ≤ 5),
    rtake_forget _ _ (by omega : 4 ≤ 5)]
  simp only [consistent_forget]

theorem buffer_step {history : List (Block α)} {tracker tracker' : Tracker α} {pass : Pass α}
    (buffer : BufferIs py dsp history tracker) (moved : next py dsp tracker pass = some tracker') :
    BufferIs py dsp (⟨tracker, pass, tracker'⟩ :: history) tracker' := by
  have read := next_processed moved
  obtain ⟨imu, writes, packets, _, _, wrote, _, move⟩ := next_moved moved
  unfold BufferIs
  cases move with
  | quiet low sends =>
    have aside : ¬ OffAxis dsp pass.raw := fun off => low off.1
    simp [sinceReset, afterQuiet, aside, low]
  | offAxis aside =>
    rw [sinceReset, if_pos aside]
    exact buffer
  | tracking accepted sends =>
    rw [sinceReset_accepted accepted]
    simp only [afterTracking, blockWrites, writes_tracking read accepted,
      steered_spec buffer pass.raw]
    by_cases close : Consistent (sinceReset py dsp history ++ [rawErrorDeg dsp pass.raw])
    · simp [close]
    · simp [close]

theorem buffer_run {history : List (Block α)} {tracker : Tracker α}
    (run : Run (next py dsp) initial history tracker) : BufferIs py dsp history tracker := by
  induction run with
  | start => simp [BufferIs, initial, sinceReset]
  | step earlier moved ih => exact buffer_step ih moved

/-- What a pass writes after a run, whether or not it raises afterwards. -/
structure SteeringLaw (py : Python α) (dsp : Dsp α) (history : List (Block α))
    (tracker : Tracker α) (pass : Pass α) : Prop where
  buffer : tracker.lastErrors.length ≤ 5 ∧ tracker.lastErrors <:+ sinceReset py dsp history
  quiet : Processed py tracker pass → ¬ Loud dsp pass.raw →
    passWrites py dsp tracker pass = [commandBytes 0]
  justified : Loud dsp pass.raw → passWrites py dsp tracker pass = [] ∨
    ∃ t : Triple dsp history pass, spread t.errors < 15 ∧
      passWrites py dsp tracker pass = [commandBytes (truncate (mean t.errors))]
  disjoint : Loud dsp pass.raw → passWrites py dsp tracker pass ≠ [] →
    ∀ t : Triple dsp history pass, ∀ b older, b :: older <:+ history → Loud dsp b.input.raw →
      blockWrites py dsp b ≠ [] → ∀ t' : Triple dsp older b.input,
        Disjoint t.positions t'.positions
  complete : Processed py tracker pass → Accepted dsp pass.raw →
    Consistent (sinceReset py dsp history ++ [rawErrorDeg dsp pass.raw]) →
      passWrites py dsp tracker pass = [commandBytes (truncate (mean
        ((sinceReset py dsp history ++ [rawErrorDeg dsp pass.raw]).rtake 3)))]

theorem command_consistent {history : List (Block α)} {tracker : Tracker α} {pass : Pass α}
    (buffer : BufferIs py dsp history tracker) (loud : Loud dsp pass.raw)
    (wrote : passWrites py dsp tracker pass ≠ []) :
    Processed py tracker pass ∧ Accepted dsp pass.raw ∧
      Consistent (sinceReset py dsp history ++ [rawErrorDeg dsp pass.raw]) := by
  have read : Processed py tracker pass := by
    by_contra unread
    exact wrote (writes_unprocessed unread)
  have accepted : Accepted dsp pass.raw := by
    refine ⟨loud, ?_⟩
    by_contra aside
    exact wrote (writes_offAxis ⟨loud, aside⟩)
  refine ⟨read, accepted, ?_⟩
  by_contra apart
  rw [writes_tracking read accepted, steered_spec buffer, if_neg apart] at wrote
  exact wrote rfl

theorem consistent_writes {history : List (Block α)} {tracker : Tracker α} {pass : Pass α}
    (buffer : BufferIs py dsp history tracker) (read : Processed py tracker pass)
    (accepted : Accepted dsp pass.raw)
    (close : Consistent (sinceReset py dsp history ++ [rawErrorDeg dsp pass.raw])) :
    passWrites py dsp tracker pass = [commandBytes (truncate (mean
      ((sinceReset py dsp history ++ [rawErrorDeg dsp pass.raw]).rtake 3)))] := by
  rw [writes_tracking read accepted, steered_spec buffer, if_pos close]
  rfl

theorem loud_command {history : List (Block α)} {tracker : Tracker α} {pass : Pass α}
    (buffer : BufferIs py dsp history tracker) (loud : Loud dsp pass.raw)
    (wrote : passWrites py dsp tracker pass ≠ []) :
    ∃ t : Triple dsp history pass, spread t.errors < 15 ∧
      passWrites py dsp tracker pass = [commandBytes (truncate (mean t.errors))] := by
  obtain ⟨read, accepted, close⟩ := command_consistent buffer loud wrote
  have two := consistent_two close
  obtain ⟨t⟩ := Triple.exists_of_two accepted two
  have same := t.errors_eq two
  refine ⟨t, ?_, ?_⟩
  · rw [← same]
    exact close.2
  · rw [← same]
    exact consistent_writes buffer read accepted close

/-- An earlier command lies before the whole of a later command's triple. -/
theorem command_before_triple {history older : List (Block α)} {pass : Pass α} {b : Block α}
    (two : 2 ≤ (sinceReset py dsp history).length) (t : Triple dsp history pass)
    (placed : b :: older <:+ history) (wrote : blockWrites py dsp b ≠ []) :
    older.length < t.older.length := by
  by_contra far
  have within : b ∈ t.gap ++ t.second :: (t.gap' ++ [t.first]) := by
    have placed' : b :: older <:+ (t.gap ++ t.second :: (t.gap' ++ [t.first])) ++ t.older := by
      rw [t.split] at placed
      simpa using placed
    exact newer_of_suffix placed' (Nat.le_of_not_lt far)
  obtain ⟨second, first⟩ := t.unused two
  simp only [List.mem_append, List.mem_cons, List.not_mem_nil, or_false] at within
  rcases within with gap | rfl | gap' | rfl
  · exact wrote (writes_offAxis (t.aside b (by simp [gap])))
  · exact wrote second
  · exact wrote (writes_offAxis (t.aside b (by simp [gap'])))
  · exact wrote first

theorem steering_law {history : List (Block α)} {tracker : Tracker α}
    (run : Run (next py dsp) initial history tracker) (pass : Pass α) :
    SteeringLaw py dsp history tracker pass := by
  have buffer := buffer_run run
  constructor
  case buffer =>
    rw [buffer, rtake_length]
    exact ⟨min_le_left 5 _, rtake_suffix _ 5⟩
  case quiet =>
    intro read low
    exact writes_quiet read low
  case justified =>
    intro loud
    by_cases wrote : passWrites py dsp tracker pass = []
    · exact Or.inl wrote
    · exact Or.inr (loud_command buffer loud wrote)
  case disjoint =>
    intro loud wrote t b older placed _ wrote' t'
    have two := consistent_two (command_consistent buffer loud wrote).2.2
    have before := command_before_triple two t placed wrote'
    rw [Finset.disjoint_left]
    intro n mem mem'
    have newer := (t.positions_bounds n mem).1
    have bound := (t'.positions_bounds n mem').2
    omega
  case complete =>
    intro read accepted close
    exact consistent_writes buffer read accepted close

/-- Three blocks straight ahead: the third one writes a command. -/
theorem third_block_steers :
    ∃ (history : List (Block ℚ)) (tracker : Tracker ℚ), history.length = 2 ∧
      passWrites benchPython benchDsp tracker (benchPass onAxisRaw [] 12) = [[48, 10]] ∧
      SteeringLaw benchPython benchDsp history tracker (benchPass onAxisRaw [] 12) := by
  have run := (bench_start.go (benchPass onAxisRaw [] 10) (by decide +kernel)).go
    (benchPass onAxisRaw [] 11) (by decide +kernel)
  exact ⟨_, _, rfl, by decide +kernel, steering_law run _⟩

end SoqTracker.SteeringCommands
