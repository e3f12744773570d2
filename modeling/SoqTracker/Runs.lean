import Mathlib.Data.List.Basic
import Mathlib.Order.Defs.PartialOrder

/- Finite runs of a deterministic machine whose step may stop it. A history
   lists the completed transitions, newest first, so that the transitions after
   a given one are a front part of the list. -/
namespace SoqTracker.Runs

structure Transition (State Input : Type) where
  before : State
  input : Input
  after : State

variable {State Input : Type}

inductive Run (next : State → Input → Option State) (start : State) :
    List (Transition State Input) → State → Prop where
  | start : Run next start [] start
  | step {history : List (Transition State Input)} {state state' : State} {input : Input}
      (earlier : Run next start history state) (moved : next state input = some state') :
      Run next start (⟨state, input, state'⟩ :: history) state'

theorem Run.go {next : State → Input → Option State} {start state : State}
    {history : List (Transition State Input)} (run : Run next start history state)
    (input : Input) (moves : (next state input).isSome) :
    Run next start (⟨state, input, (next state input).get moves⟩ :: history)
      ((next state input).get moves) :=
  run.step (Option.some_get moves).symm

theorem run_head {next : State → Input → Option State} {start state : State}
    {t : Transition State Input} {history : List (Transition State Input)}
    (run : Run next start (t :: history) state) :
    Run next start history t.before ∧ next t.before t.input = some t.after ∧
      state = t.after := by
  cases run with
  | step earlier moved => exact ⟨earlier, moved, rfl⟩

theorem run_older {next : State → Input → Option State} {start state : State}
    {newer older : List (Transition State Input)}
    (run : Run next start (newer ++ older) state) :
    ∃ state', Run next start older state' := by
  induction newer generalizing state with
  | nil => exact ⟨state, run⟩
  | cons t newer ih => exact ih (run_head run).1

theorem run_placed {next : State → Input → Option State} {start state : State}
    {t : Transition State Input} {older history : List (Transition State Input)}
    (run : Run next start history state) (placed : t :: older <:+ history) :
    Run next start older t.before ∧ next t.before t.input = some t.after := by
  obtain ⟨newer, rfl⟩ := placed
  obtain ⟨_, front⟩ := run_older run
  obtain ⟨earlier, moved, _⟩ := run_head front
  exact ⟨earlier, moved⟩

theorem run_member {next : State → Input → Option State} {start state : State}
    {t : Transition State Input} {history : List (Transition State Input)}
    (run : Run next start history state) (member : t ∈ history) :
    ∃ older, (t :: older) <:+ history ∧ Run next start older t.before ∧
      next t.before t.input = some t.after := by
  obtain ⟨newer, older, split⟩ := List.append_of_mem member
  have placed : t :: older <:+ history := ⟨newer, split.symm⟩
  exact ⟨older, placed, run_placed run placed⟩

theorem run_invariant {next : State → Input → Option State} {start state : State}
    {history : List (Transition State Input)} (invariant : State → Prop)
    (first : invariant start)
    (preserved : ∀ s i s', next s i = some s' → invariant s → invariant s')
    (run : Run next start history state) : invariant state := by
  induction run with
  | start => exact first
  | step earlier moved ih => exact preserved _ _ _ moved ih

section Placed
variable {Item : Type} {P : Item → List Item → Prop}

theorem placed_nil : ∀ x older, x :: older <:+ ([] : List Item) → P x older := by
  intro x older placed
  simp at placed

theorem placed_cons {x : Item} {rest : List Item} (here : P x rest)
    (earlier : ∀ y older, y :: older <:+ rest → P y older) :
    ∀ y older, y :: older <:+ x :: rest → P y older := by
  intro y older placed
  rcases List.suffix_cons_iff.mp placed with newest | before
  · obtain ⟨rfl, rfl⟩ := List.cons.inj newest
    exact here
  · exact earlier y older before

end Placed

theorem newer_of_suffix {Item : Type} {x : Item} {older newer rest : List Item}
    (placed : x :: older <:+ newer ++ rest) (far : rest.length ≤ older.length) : x ∈ newer := by
  obtain ⟨front, split⟩ := placed
  rcases List.append_eq_append_iff.mp split with ⟨more, eq, same⟩ | ⟨more, eq, same⟩
  · cases more with
    | nil =>
      have size := congrArg List.length same
      simp only [List.nil_append, List.length_cons] at size
      omega
    | cons y more =>
      rw [List.cons_append, List.cons.injEq] at same
      rw [eq, same.1]
      simp
  · have size := congrArg List.length same
    simp only [List.length_append, List.length_cons] at size
    omega

def Since (p early : Transition State Input → Prop)
    (history : List (Transition State Input)) : Prop :=
  ∃ stretch older, history = stretch ++ older ∧ (∀ t ∈ stretch, p t) ∧ ∃ t ∈ stretch, early t

theorem since_weaken {p q early : Transition State Input → Prop}
    {history : List (Transition State Input)} (weaker : ∀ t, p t → q t)
    (since : Since p early history) : Since q early history := by
  obtain ⟨stretch, older, split, all, reached⟩ := since
  exact ⟨stretch, older, split, fun t mem => weaker t (all t mem), reached⟩

theorem since_both {p q early : Transition State Input → Prop}
    {history : List (Transition State Input)}
    (first : Since p early history) (second : Since q early history) :
    Since (fun t => p t ∧ q t) early history := by
  obtain ⟨front, older, split, all, reached⟩ := first
  obtain ⟨front', older', split', all', reached'⟩ := second
  rcases List.append_eq_append_iff.mp (split.symm.trans split') with ⟨more, eq, _⟩ | ⟨more, eq, _⟩
  · refine ⟨front, older, split, ?_, reached⟩
    intro t mem
    exact ⟨all t mem, all' t (by rw [eq]; exact List.mem_append_left more mem)⟩
  · refine ⟨front', older', split', ?_, reached'⟩
    intro t mem
    exact ⟨all t (by rw [eq]; exact List.mem_append_left more mem), all' t mem⟩

section Latest
variable {Time : Type}

def latest (time : Input → Time) (never : Time) (kind : Transition State Input → Prop)
    [DecidablePred kind] : List (Transition State Input) → Time
  | [] => never
  | t :: older => if kind t then time t.input else latest time never kind older

/-- With a clock that never goes back, the newest transition of a kind stands for all
    of them. -/
theorem latest_le_iff [Preorder Time] {time : Input → Time} {never bound : Time}
    {kind : Transition State Input → Prop} [DecidablePred kind]
    {history : List (Transition State Input)}
    (clock : history.Pairwise fun later earlier => time earlier.input ≤ time later.input)
    (start : never ≤ bound) :
    latest time never kind history ≤ bound ↔ ∀ t ∈ history, kind t → time t.input ≤ bound := by
  induction history with
  | nil => simp [latest, start]
  | cons t older ih =>
    obtain ⟨newest, rest⟩ := List.pairwise_cons.mp clock
    rw [latest]
    by_cases here : kind t
    · rw [if_pos here]
      constructor
      · intro early u mem _
        rcases List.mem_cons.mp mem with rfl | later
        · exact early
        · exact le_trans (newest u later) early
      · intro all
        exact all t (by simp) here
    · rw [if_neg here, ih rest]
      simp [here]

end Latest

def replay (next : State → Input → Option State) :
    List (Transition State Input) → State → List Input →
      Option (List (Transition State Input) × State)
  | history, state, [] => some (history, state)
  | history, state, input :: rest =>
      match next state input with
      | none => none
      | some state' => replay next (⟨state, input, state'⟩ :: history) state' rest

def EachStep (next : State → Input → Option State) (meets : State → Input → Prop) :
    State → List Input → Prop
  | _, [] => True
  | state, input :: rest =>
      meets state input ∧ ∀ state', next state input = some state' →
        EachStep next meets state' rest

theorem replay_completes_iff {next : State → Input → Option State}
    {meets : State → Input → Prop} {admitted : Input → Prop}
    (one : ∀ s i, admitted i → ((next s i).isSome ↔ meets s i))
    (inputs : List Input) (all : ∀ i ∈ inputs, admitted i)
    (history : List (Transition State Input)) (state : State) :
    (replay next history state inputs).isSome ↔ EachStep next meets state inputs := by
  induction inputs generalizing history state with
  | nil => simp [replay, EachStep]
  | cons input rest ih =>
    have here := one state input (all input (by simp))
    have later := ih (fun i mem => all i (by simp [mem]))
    cases moved : next state input with
    | none =>
      have refused : ¬ meets state input := by
        intro holds
        simpa [moved] using here.mpr holds
      simp [replay, EachStep, moved, refused]
    | some state' =>
      have holds : meets state input := here.mp (by simp [moved])
      simp only [replay, EachStep, moved]
      rw [later]
      simp [holds]

end SoqTracker.Runs
