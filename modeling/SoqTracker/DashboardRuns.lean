import SoqTracker.TelemetryLink

/- Runs of the dashboard under any datagrams, whatever they raise. Each datagram
   that a call takes leaves its effect on the fields; all else that a call does to
   them is to prune the history. -/
namespace SoqTracker.DashboardRuns
open ExtendedNumber Json Controller Runs TelemetryBridge DatagramEffects TelemetryLink

variable {α : Type} [Field α] [LinearOrder α] [FloorRing α]

def effect (desktop : Desktop α) (b : Bridge α) (payload : List UInt8) : Bridge α :=
  match receive desktop payload b with
  | .ok _ b' => b'
  | .error _ b' => b'

theorem effect_spec (desktop : Desktop α) (b : Bridge α) (payload : List UInt8) :
    (∃ reading, read desktop payload = .ok reading ∧
        effect desktop b payload = applied b reading) ∨
      ∃ error, read desktop payload = .error error ∧
        Stopped desktop payload b error (effect desktop b payload) := by
  rcases receive_spec desktop payload b with
    ⟨reading, whole, received⟩ | ⟨error, b', raised, received, stopped⟩
  · left
    exact ⟨reading, whole, by rw [effect, received]⟩
  · right
    refine ⟨error, raised, ?_⟩
    rw [effect, received]
    exact stopped

omit [FloorRing α] in
theorem read_parts {desktop : Desktop α} {payload : List UInt8} {reading : Reading α}
    (whole : read desktop payload = .ok reading) :
    readFields desktop payload = .ok reading.toFields ∧
      readPoint desktop reading.toFields = .ok reading.point := by
  unfold DatagramEffects.read at whole
  obtain ⟨fields, converted, whole⟩ := ok_of_bind whole
  obtain ⟨point, entry, whole⟩ := ok_of_bind whole
  rw [← Except.ok.inj whole]
  exact ⟨converted, entry⟩

theorem drain_effect (desktop : Desktop α) (waiting : List (List UInt8)) (b : Bridge α) :
    ∃ taken, waiting = taken ++ (drain desktop waiting b).2.1 ∧
      (drain desktop waiting b).1 = taken.foldl (effect desktop) b ∧
      ((drain desktop waiting b).2.2 = none → (drain desktop waiting b).2.1 = []) := by
  induction waiting generalizing b with
  | nil => exact ⟨[], rfl, rfl, fun _ => rfl⟩
  | cons payload waiting ih =>
    cases received : receive desktop payload b with
    | ok done b' =>
      have left : effect desktop b payload = b' := by rw [effect, received]
      obtain ⟨taken, split, fields, ends⟩ := ih b'
      rw [drain, received]
      refine ⟨payload :: taken, ?_, ?_, ends⟩
      · rw [List.cons_append, ← split]
      · rw [List.foldl_cons, left]
        exact fields
    | error error b' =>
      have left : effect desktop b payload = b' := by rw [effect, received]
      rw [drain, received]
      refine ⟨[payload], rfl, left.symm, ?_⟩
      intro ended
      cases ended

theorem poll_effect (desktop : Desktop α) (now : α) (waiting : List (List UInt8)) (b : Bridge α) :
    ∃ taken, waiting = taken ++ (pollSocket desktop now waiting b).waiting ∧
      ((pollSocket desktop now waiting b).bridge = taken.foldl (effect desktop) b ∨
        (pollSocket desktop now waiting b).bridge =
          prune (now - timelineSeconds) (taken.foldl (effect desktop) b)) := by
  obtain ⟨taken, split, fields, ends⟩ := drain_effect desktop waiting b
  refine ⟨taken, ?_⟩
  rw [← fields]
  unfold pollSocket
  rcases drained : drain desktop waiting b with ⟨b', later, raised⟩
  rw [drained] at split ends
  cases raised with
  | some error => exact ⟨split, .inl rfl⟩
  | none =>
    rw [ends rfl] at split
    exact ⟨split, .inr rfl⟩

/-- What one datagram keeps and pruning keeps holds in every run, of the datagrams
    taken so far. -/
theorem ticks_invariant (invariant : List (List UInt8) → Bridge α → Prop)
    {desktop : Desktop α} {start : α}
    (first : invariant [] (TelemetryBridge.initial start))
    (received : ∀ payloads b payload, invariant payloads b →
      invariant (payloads ++ [payload]) (effect desktop b payload))
    (pruned : ∀ payloads b cutoff, invariant payloads b → invariant payloads (prune cutoff b))
    {ticks : List (Transition (Dashboard α) (Tick α))} {d : Dashboard α}
    (run : Run (tick desktop) (dashboard start) ticks d) :
    ∃ taken, arrivals ticks = taken ++ d.waiting ∧ invariant taken d.bridge := by
  have along : ∀ more payloads b, invariant payloads b →
      invariant (payloads ++ more) (more.foldl (effect desktop) b) := by
    intro more
    induction more with
    | nil =>
      intro payloads b holds
      rw [List.append_nil]
      exact holds
    | cons payload more ih =>
      intro payloads b holds
      rw [List.append_cons]
      exact ih _ _ (received payloads b payload holds)
  induction run with
  | start => exact ⟨[], rfl, first⟩
  | step earlier moved ih =>
    rename_i older before after input
    obtain ⟨taken, split, holds⟩ := ih
    obtain ⟨more, rest, fields⟩ :=
      poll_effect desktop input.now (before.waiting ++ input.arrived) before.bridge
    have here := along more taken before.bridge holds
    obtain rfl := Option.some.inj moved
    refine ⟨taken ++ more, ?_, ?_⟩
    · rw [arrivals_cons, split, List.append_assoc, List.append_assoc]
      exact congrArg (taken ++ ·) rest
    · rcases fields with unpruned | cut
      · rw [unpruned]
        exact here
      · rw [cut]
        exact pruned _ _ _ here

end SoqTracker.DashboardRuns
