import SoqTracker.Runs

/- Machines made of parts that move one at a time, and the queues between them.
   A run of the whole is a run of each part, and what was put into a queue is what
   was taken out of it and what it still holds, however the parts take turns. -/
namespace SoqTracker.Components
open Runs

variable {State Input Part Move Message : Type}

theorem run_only {next : State → Input → Option State} (allowed : Input → Prop)
    [DecidablePred allowed] {start state : State} {history : List (Transition State Input)}
    (run : Run next start history state) (all : ∀ t ∈ history, allowed t.input) :
    Run (fun s i => if allowed i then next s i else none) start history state := by
  induction run with
  | start => exact .start
  | step earlier moved ih =>
    refine (ih fun t mem => all t (List.mem_cons_of_mem _ mem)).step ?_
    rw [if_pos (all _ List.mem_cons_self)]
    exact moved

/- Parts. -/

section Parts
variable (view : State → Part) (move : Input → Option Move)

def steps (history : List (Transition State Input)) : List (Transition Part Move) :=
  history.filterMap fun t => (move t.input).map fun m => ⟨view t.before, m, view t.after⟩

variable {view move}

theorem steps_rest {t : Transition State Input} (rests : move t.input = none)
    (older : List (Transition State Input)) :
    steps view move (t :: older) = steps view move older :=
  List.filterMap_cons_none (by simp [rests])

theorem steps_moved {t : Transition State Input} {m : Move} (moves : move t.input = some m)
    (older : List (Transition State Input)) :
    steps view move (t :: older) = ⟨view t.before, m, view t.after⟩ :: steps view move older :=
  List.filterMap_cons_some (by simp [moves])

variable (view move) in
theorem run_part {next : State → Input → Option State} {next' : Part → Move → Option Part}
    (moves : ∀ s i s' m, next s i = some s' → move i = some m → next' (view s) m = some (view s'))
    (rests : ∀ s i s', next s i = some s' → move i = none → view s' = view s)
    {start state : State} {history : List (Transition State Input)}
    (run : Run next start history state) :
    Run next' (view start) (steps view move history) (view state) := by
  induction run with
  | start => exact .start
  | step earlier moved ih =>
    rename_i older before after input
    cases here : move input with
    | none =>
      rw [steps_rest here, rests _ _ _ moved here]
      exact ih
    | some m =>
      rw [steps_moved here]
      exact ih.step (moves _ _ _ _ moved here)

end Parts

/- Queues. -/

def along (f : Transition State Input → List Message) (history : List (Transition State Input)) :
    List Message :=
  history.reverse.flatMap f

theorem along_cons (f : Transition State Input → List Message) (t : Transition State Input)
    (older : List (Transition State Input)) : along f (t :: older) = along f older ++ f t := by
  simp [along]

theorem along_flatten (f : Transition State Input → List (List Message))
    (history : List (Transition State Input)) :
    along (fun t => (f t).flatten) history = (along f history).flatten := by
  induction history with
  | nil => rfl
  | cons t older ih => rw [along_cons, along_cons, ih, List.flatten_append]

theorem along_append (f : Transition State Input → List Message)
    (newer older : List (Transition State Input)) :
    along f (newer ++ older) = along f older ++ along f newer := by
  simp [along]

theorem along_suffix (f : Transition State Input → List Message)
    {older history : List (Transition State Input)} (placed : older <:+ history) :
    along f older <+: along f history := by
  obtain ⟨newer, rfl⟩ := placed
  exact ⟨along f newer, (along_append f newer older).symm⟩

section Queues

def given (view : State → Part) (move : Input → Option Move)
    (f : Transition Part Move → List Message) (t : Transition State Input) : List Message :=
  match move t.input with
  | some m => f ⟨view t.before, m, view t.after⟩
  | none => []

theorem along_given (view : State → Part) (move : Input → Option Move)
    (f : Transition Part Move → List Message) (history : List (Transition State Input)) :
    along (given view move f) history = along f (steps view move history) := by
  induction history with
  | nil => rfl
  | cons t older ih =>
    rw [along_cons, ih, given]
    cases here : move t.input with
    | none => rw [steps_rest here, List.append_nil]
    | some m => rw [steps_moved here, along_cons]

variable (queue : State → List Message) (put take : Transition State Input → List Message)
  {next : State → Input → Option State} {start state : State}
  {history : List (Transition State Input)}

theorem queue_run
    (each : ∀ s i s', next s i = some s' →
      queue s ++ put ⟨s, i, s'⟩ = take ⟨s, i, s'⟩ ++ queue s')
    (run : Run next start history state) (empty : queue start = []) :
    along put history = along take history ++ queue state := by
  induction run with
  | start => exact empty.symm
  | step earlier moved ih =>
    rename_i older before after input
    rw [along_cons, along_cons, ih, List.append_assoc, List.append_assoc]
    exact congrArg _ (each _ _ _ moved)

theorem lossy_run
    (each : ∀ s i s', next s i = some s' →
      (take ⟨s, i, s'⟩ ++ queue s').Sublist (queue s ++ put ⟨s, i, s'⟩))
    (run : Run next start history state) (empty : queue start = []) :
    (along take history ++ queue state).Sublist (along put history) := by
  induction run with
  | start =>
    rw [empty]
    exact .slnil
  | step earlier moved ih =>
    rename_i older before after input
    rw [along_cons, along_cons, List.append_assoc]
    have now := (each _ _ _ moved).append_left (along take older)
    have before := ih.append_right (put ⟨before, input, after⟩)
    rw [List.append_assoc] at before
    exact now.trans before

end Queues

end SoqTracker.Components
