import Mathlib.Data.List.Infix
import SoqTracker.Blocks

/- Data cut into pieces of one size, the last of which may be shorter, and items
   delivered one after the other until one of them is refused. -/
namespace SoqTracker.Deliveries
open Blocks
variable {Item : Type}

def pieces (size : Nat) (xs : List Item) : List (List Item) :=
  (List.range ((xs.length + size - 1) / size)).map fun index => block size index xs

theorem pieces_nil {size : Nat} (positive : 0 < size) : pieces size ([] : List Item) = [] := by
  have none : (0 + size - 1) / size = 0 := Nat.div_eq_of_lt (by omega)
  rw [pieces, List.length_nil, none]
  rfl

theorem pieces_cons {size : Nat} (positive : 0 < size) {xs : List Item} (filled : xs ≠ []) :
    pieces size xs = xs.take size :: pieces size (xs.drop size) := by
  have some : 0 < xs.length := List.length_pos_of_ne_nil filled
  have count : (xs.length + size - 1) / size = ((xs.drop size).length + size - 1) / size + 1 := by
    rw [← Nat.add_div_right _ positive, List.length_drop]
    by_cases whole : size ≤ xs.length
    · congr 1
      omega
    · rw [Nat.div_eq_of_lt_le (k := 1) (by omega) (by omega),
        Nat.div_eq_of_lt_le (k := 1) (by omega) (by omega)]
  have first : block size 0 xs = xs.take size := by simp [block]
  have later : ∀ index, block size (index + 1) xs = block size index (xs.drop size) := by
    intro index
    rw [block, block, List.drop_drop, Nat.mul_succ, Nat.add_comm]
  rw [pieces, count, List.range_succ_eq_map, List.map_cons, List.map_map, first]
  simp only [Function.comp_def, Nat.succ_eq_add_one, later, pieces]

theorem pieces_induction (size : Nat) (positive : 0 < size) {P : List Item → Prop} (empty : P [])
    (further : ∀ xs, xs ≠ [] → P (xs.drop size) → P xs) (xs : List Item) : P xs := by
  induction count : xs.length using Nat.strongRecOn generalizing xs with
  | ind n ih =>
    by_cases filled : xs = []
    · rw [filled]
      exact empty
    · have some : 0 < xs.length := List.length_pos_of_ne_nil filled
      have fewer : (xs.drop size).length < n := by
        rw [List.length_drop]
        omega
      exact further xs filled (ih _ fewer _ rfl)

theorem pieces_flatten {size : Nat} (positive : 0 < size) (xs : List Item) :
    (pieces size xs).flatten = xs := by
  induction xs using pieces_induction size positive with
  | empty => rw [pieces_nil positive, List.flatten_nil]
  | further xs filled ih =>
    rw [pieces_cons positive filled, List.flatten_cons, ih, List.take_append_drop]

theorem pieces_short {size : Nat} {xs piece : List Item} (mem : piece ∈ pieces size xs) :
    piece.length ≤ size := by
  obtain ⟨index, _, rfl⟩ := List.mem_map.mp mem
  rw [block, List.length_take]
  exact Nat.min_le_left _ _

/- Deliveries. -/

section Attempts
variable (accepts : Nat → Item → Bool)

/-- Whether all items were accepted, and the items offered so far. The n-th offer
    is judged as such. -/
def attempt (offered : List Item) : List Item → Bool × List Item
  | [] => (true, offered)
  | item :: later =>
      if accepts offered.length item then attempt (offered ++ [item]) later
      else (false, offered ++ [item])

theorem attempt_append (offered first second : List Item) :
    attempt accepts offered (first ++ second) =
      if (attempt accepts offered first).1 then
        attempt accepts (attempt accepts offered first).2 second
      else attempt accepts offered first := by
  induction first generalizing offered with
  | nil => simp [attempt]
  | cons item first ih =>
    rw [List.cons_append, attempt, attempt]
    by_cases accepted : accepts offered.length item = true
    · rw [if_pos accepted, if_pos accepted, ih]
    · simp [accepted]

theorem attempt_take (offered plan : List Item) :
    (attempt accepts offered plan).2 = offered ++
      plan.take ((plan.zipIdx offered.length).findIdx (fun x => !accepts x.2 x.1) + 1) := by
  induction plan generalizing offered with
  | nil => simp [attempt]
  | cons item plan ih =>
    rw [attempt, List.zipIdx_cons, List.findIdx_cons]
    by_cases accepted : accepts offered.length item = true
    · have goes : (!accepts offered.length item) = false := by rw [accepted, Bool.not_true]
      rw [if_pos accepted, ih, goes, cond_false, List.take_succ_cons, List.length_append,
        List.length_singleton, List.append_assoc, List.singleton_append]
    · have stops : (!accepts offered.length item) = true :=
        (Bool.not_eq_true' _).mpr (Bool.eq_false_of_not_eq_true accepted)
      rw [if_neg accepted, stops, cond_true, List.take_succ_cons, List.take_zero]

theorem attempt_front (offered plan : List Item) :
    (attempt accepts offered plan).2 <+: offered ++ plan := by
  rw [attempt_take]
  exact (List.prefix_append_right_inj offered).mpr (List.take_prefix _ plan)

theorem attempt_done {offered plan : List Item} (done : (attempt accepts offered plan).1 = true) :
    (attempt accepts offered plan).2 = offered ++ plan := by
  induction plan generalizing offered with
  | nil => simp [attempt]
  | cons item plan ih =>
    rw [attempt] at done ⊢
    split at done
    · rename_i accepted
      rw [if_pos accepted, ih done]
      simp
    · cases done

theorem attempt_iff (offered plan : List Item) :
    (attempt accepts offered plan).1 = true ↔
      ∀ i item, plan[i]? = some item → accepts (offered.length + i) item = true := by
  induction plan generalizing offered with
  | nil => simp [attempt]
  | cons item plan ih =>
    rw [attempt]
    by_cases accepted : accepts offered.length item = true
    · rw [if_pos accepted, ih]
      constructor
      · intro rest i other placed
        cases i with
        | zero =>
          simp only [List.getElem?_cons_zero, Option.some.injEq] at placed
          simpa [placed] using accepted
        | succ i =>
          have later := rest i other (by simpa using placed)
          rwa [List.length_append, List.length_singleton, Nat.add_assoc, Nat.add_comm 1 i] at later
      · intro all i other placed
        rw [List.length_append, List.length_singleton, Nat.add_assoc, Nat.add_comm 1 i]
        exact all (i + 1) other (by simpa using placed)
    · rw [if_neg accepted]
      simp only [Bool.false_eq_true, false_iff, not_forall]
      exact ⟨0, item, by simp, by simpa using accepted⟩

end Attempts

/- What holds along a list of deliveries, wherever it breaks off. -/

section Throughout
variable {State : Type} (receive : State → Item → State) (holds : State → Prop)

def Throughout (s : State) (items : List Item) : Prop :=
  ∀ front, front <+: items → holds (front.foldl receive s)

variable {receive holds}

theorem throughout_nil {s : State} (now : holds s) : Throughout receive holds s [] := by
  intro front begins
  rw [List.prefix_nil.mp begins]
  exact now

theorem throughout_cons {s : State} {item : Item} {later : List Item} (now : holds s)
    (rest : Throughout receive holds (receive s item) later) :
    Throughout receive holds s (item :: later) := by
  intro front begins
  cases front with
  | nil => exact now
  | cons first front =>
    obtain ⟨same, begins⟩ := List.cons_prefix_cons.mp begins
    rw [same]
    exact rest front begins

theorem throughout_append {s : State} {first second : List Item}
    (start : Throughout receive holds s first)
    (rest : Throughout receive holds (first.foldl receive s) second) :
    Throughout receive holds s (first ++ second) := by
  intro front begins
  cases List.prefix_or_prefix_of_prefix begins (List.prefix_append first second) with
  | inl within => exact start front within
  | inr covered =>
    obtain ⟨more, rfl⟩ := covered
    rw [List.foldl_append]
    exact rest more ((List.prefix_append_right_inj first).mp begins)

end Throughout

end SoqTracker.Deliveries
