import Mathlib.Data.List.Induction
import Mathlib.Data.List.Perm.Basic
import Mathlib.Data.List.Flatten
import Mathlib.Logic.Function.Basic

/- Items that carry an epoch and may write one cell of a latch. When the epoch
   changes the cells are shown as they stand, and then the first item of the new
   epoch is written. Nothing is cleared between two epochs. -/
namespace SoqTracker.Latches

structure Reading (Item Epoch Cell Value : Type) where
  epoch : Item → Epoch
  slot : Item → Option Cell
  value : Item → Value

variable {Item Epoch Cell Value : Type} [DecidableEq Cell]

def write (r : Reading Item Epoch Cell Value) (cells : Cell → Value) (item : Item) : Cell → Value :=
  match r.slot item with
  | none => cells
  | some cell => Function.update cells cell (r.value item)

def latest (r : Reading Item Epoch Cell Value) (cells : Cell → Value) (items : List Item)
    (cell : Cell) : Value :=
  match items.reverse.find? fun item => r.slot item = some cell with
  | none => cells cell
  | some item => r.value item

@[simp] theorem latest_nil (r : Reading Item Epoch Cell Value) (cells : Cell → Value) :
    latest r cells [] = cells := rfl

theorem latest_snoc (r : Reading Item Epoch Cell Value) (cells : Cell → Value)
    (items : List Item) (item : Item) :
    latest r cells (items ++ [item]) = write r (latest r cells items) item := by
  funext cell
  unfold latest write
  rw [List.reverse_append, List.reverse_singleton, List.singleton_append, List.find?_cons]
  cases own : r.slot item with
  | none => simp
  | some written =>
    by_cases same : written = cell
    · subst same
      simp
    · simp [same, Function.update_of_ne (Ne.symm same)]

theorem latest_single (r : Reading Item Epoch Cell Value) (cells : Cell → Value) (item : Item) :
    latest r cells [item] = write r cells item := latest_snoc r cells [] item

theorem latest_append (r : Reading Item Epoch Cell Value) (cells : Cell → Value)
    (items later : List Item) :
    latest r cells (items ++ later) = latest r (latest r cells items) later := by
  induction later using List.reverseRecOn with
  | nil => simp
  | append_singleton later item ih => rw [← List.append_assoc, latest_snoc, latest_snoc, ih]

theorem latest_cons (r : Reading Item Epoch Cell Value) (cells : Cell → Value) (item : Item)
    (later : List Item) :
    latest r cells (item :: later) = latest r (write r cells item) later := by
  rw [← List.singleton_append, latest_append, latest_single]

theorem latest_fold (r : Reading Item Epoch Cell Value) (cells : Cell → Value)
    (items : List Item) : latest r cells items = items.foldl (write r) cells := by
  induction items using List.reverseRecOn with
  | nil => rfl
  | append_singleton items item ih =>
    rw [latest_snoc, List.foldl_append, ih, List.foldl_cons, List.foldl_nil]

theorem latest_written {r : Reading Item Epoch Cell Value} {items : List Item} {cell : Cell}
    (written : ∃ item ∈ items, r.slot item = some cell) (cells cells' : Cell → Value) :
    latest r cells items cell = latest r cells' items cell := by
  obtain ⟨item, mem, own⟩ := written
  unfold latest
  cases found : items.reverse.find? fun item => r.slot item = some cell with
  | none =>
    have none := List.find?_eq_none.mp found item (by simpa using mem)
    simp [own] at none
  | some last => rfl

def Covers (r : Reading Item Epoch Cell Value) (items : List Item) : Prop :=
  ∀ cell, ∃ item ∈ items, r.slot item = some cell

theorem latest_covered {r : Reading Item Epoch Cell Value} {items : List Item}
    (covers : Covers r items) (cells cells' : Cell → Value) :
    latest r cells items = latest r cells' items :=
  funext fun cell => latest_written (covers cell) cells cells'

def Distinct (r : Reading Item Epoch Cell Value) (items : List Item) : Prop :=
  (items.filterMap r.slot).Nodup

omit [DecidableEq Cell] in
theorem distinct_slots {r : Reading Item Epoch Cell Value} {items : List Item}
    (distinct : Distinct r items) {first second : Item} (mem : first ∈ items)
    (mem' : second ∈ items) {cell : Cell} (own : r.slot first = some cell)
    (own' : r.slot second = some cell) : first = second := by
  induction items with
  | nil => simp at mem
  | cons item items ih =>
    unfold Distinct at distinct
    rw [List.filterMap_cons] at distinct
    have alone : ∀ other ∈ items, r.slot item = some cell → r.slot other ≠ some cell := by
      intro other later here there
      rw [here] at distinct
      exact (List.nodup_cons.mp distinct).1 (List.mem_filterMap.mpr ⟨other, later, there⟩)
    rcases List.mem_cons.mp mem with rfl | later
    · rcases List.mem_cons.mp mem' with rfl | later'
      · rfl
      · exact absurd own' (alone second later' own)
    · rcases List.mem_cons.mp mem' with rfl | later'
      · exact absurd own (alone first later own')
      · refine ih ?_ later later'
        cases here : r.slot item with
        | none => simpa [here, Distinct] using distinct
        | some _ =>
          rw [here] at distinct
          exact (List.nodup_cons.mp distinct).2

theorem latest_perm {r : Reading Item Epoch Cell Value} {items items' : List Item}
    (distinct : Distinct r items) (same : items.Perm items') (cells : Cell → Value) :
    latest r cells items = latest r cells items' := by
  rw [latest_fold, latest_fold]
  refine same.foldl_eq' ?_ cells
  intro first mem second mem' start
  unfold write
  cases own : r.slot first with
  | none => rfl
  | some cell =>
    cases own' : r.slot second with
    | none => rfl
    | some cell' =>
      by_cases clash : cell = cell'
      · subst clash
        rw [distinct_slots distinct mem mem' own own']
      · exact Function.update_comm clash _ _ start

/- What is shown. -/

variable [DecidableEq Epoch]

def shown (r : Reading Item Epoch Cell Value) :
    Epoch → (Cell → Value) → List Item → List (Cell → Value)
  | _, _, [] => []
  | epoch, cells, item :: later =>
      (if r.epoch item = epoch then [] else [cells]) ++
        shown r (r.epoch item) (write r cells item) later

def turns (r : Reading Item Epoch Cell Value) : Epoch → List Item → List Item → List (List Item)
  | _, _, [] => []
  | epoch, seen, item :: later =>
      (if r.epoch item = epoch then [] else [seen]) ++
        turns r (r.epoch item) (seen ++ [item]) later

theorem shown_turns (r : Reading Item Epoch Cell Value) (epoch : Epoch) (cells : Cell → Value)
    (seen items : List Item) : shown r epoch (latest r cells seen) items =
      (turns r epoch seen items).map (latest r cells) := by
  induction items generalizing epoch seen with
  | nil => rfl
  | cons item later ih =>
    rw [shown, turns, ← latest_snoc, ih, List.map_append]
    by_cases same : r.epoch item = epoch <;> simp [same]

theorem shown_append (r : Reading Item Epoch Cell Value) (epoch : Epoch) (cells : Cell → Value)
    {items : List Item} (same : ∀ item ∈ items, r.epoch item = epoch) (later : List Item) :
    shown r epoch cells (items ++ later) = shown r epoch (latest r cells items) later := by
  induction items generalizing cells with
  | nil => rfl
  | cons item items ih =>
    have here := same item (by simp)
    have rest : ∀ other ∈ items, r.epoch other = epoch := fun other mem => same other (by simp [mem])
    rw [List.cons_append, shown, here, ih _ rest, latest_cons, if_pos rfl, List.nil_append]

def Grouped (r : Reading Item Epoch Cell Value) : Epoch → List (List Item) → Prop
  | _, [] => True
  | epoch, group :: groups => ∃ epoch', epoch' ≠ epoch ∧ group ≠ [] ∧
      (∀ item ∈ group, r.epoch item = epoch') ∧ Grouped r epoch' groups

theorem shown_group {r : Reading Item Epoch Cell Value} {epoch epoch' : Epoch}
    (other : epoch' ≠ epoch) {group : List Item} (nonempty : group ≠ [])
    (same : ∀ item ∈ group, r.epoch item = epoch') (cells : Cell → Value) (later : List Item) :
    shown r epoch cells (group ++ later) =
      cells :: shown r epoch' (latest r cells group) later := by
  cases group with
  | nil => exact absurd rfl nonempty
  | cons item items =>
    have here := same item (by simp)
    have rest : ∀ other ∈ items, r.epoch other = epoch' := fun other mem => same other (by simp [mem])
    rw [List.cons_append, shown, here, if_neg other, shown_append r epoch' _ rest, latest_cons,
      List.singleton_append]

theorem shown_groups {r : Reading Item Epoch Cell Value} {epoch : Epoch}
    {groups : List (List Item)} (grouped : Grouped r epoch groups)
    (whole : ∀ group ∈ groups, Covers r group) (cells blank : Cell → Value) :
    shown r epoch cells groups.flatten = (cells :: groups.map (latest r blank)).dropLast := by
  induction groups generalizing epoch cells with
  | nil => rfl
  | cons group groups ih =>
    obtain ⟨epoch', other, nonempty, same, rest⟩ := grouped
    rw [List.flatten_cons, shown_group other nonempty same,
      ih rest (fun g mem => whole g (by simp [mem])) (latest r cells group),
      latest_covered (whole group (by simp)) cells blank, List.map_cons,
      ← List.dropLast_cons_of_ne_nil (by simp)]

theorem shown_perm {r : Reading Item Epoch Cell Value} {epoch : Epoch}
    {groups groups' : List (List Item)} (grouped : Grouped r epoch groups)
    (distinct : ∀ group ∈ groups, Distinct r group) (same : List.Forall₂ List.Perm groups groups')
    (cells : Cell → Value) :
    shown r epoch cells groups.flatten = shown r epoch cells groups'.flatten := by
  induction same generalizing epoch cells with
  | nil => rfl
  | @cons group group' groups groups' here later ih =>
    obtain ⟨epoch', other, nonempty, all, rest⟩ := grouped
    have all' : ∀ item ∈ group', r.epoch item = epoch' :=
      fun item mem => all item (here.mem_iff.mpr mem)
    have nonempty' : group' ≠ [] := fun empty => nonempty (by simpa [empty] using here)
    rw [List.flatten_cons, List.flatten_cons, shown_group other nonempty all,
      shown_group other nonempty' all', latest_perm (distinct group (by simp)) here,
      ih rest fun g mem => distinct g (by simp [mem])]

end SoqTracker.Latches
