import Mathlib.Data.List.Perm.Basic
import Mathlib.Algebra.BigOperators.Group.List.Basic
import Mathlib.Tactic.Abel

/- Items sorted into numbered cells, where each cell folds the items of its own
   number. What a cell holds depends on its own items only, totals over the cells
   are totals over the items, and where steps commute the order of arrival is
   forgotten. -/
namespace SoqTracker.Buckets
variable {ι β : Type}

def fill (slot : ι → Nat) (step : β → ι → β) (cells : List β) (items : List ι) : List β :=
  items.foldl (fun cells item => cells.modify (slot item) fun cell => step cell item) cells

def inSlot (slot : ι → Nat) (i : Nat) (items : List ι) : List ι :=
  items.filter fun item => slot item = i

theorem mem_inSlot {slot : ι → Nat} {i : Nat} {items : List ι} {item : ι} :
    item ∈ inSlot slot i items ↔ item ∈ items ∧ slot item = i := by
  simp [inSlot]

@[simp] theorem fill_nil (slot : ι → Nat) (step : β → ι → β) (cells : List β) :
    fill slot step cells [] = cells := rfl

@[simp] theorem fill_cons (slot : ι → Nat) (step : β → ι → β) (cells : List β) (item : ι)
    (items : List ι) : fill slot step cells (item :: items) =
      fill slot step (cells.modify (slot item) fun cell => step cell item) items := rfl

@[simp] theorem fill_length (slot : ι → Nat) (step : β → ι → β) (cells : List β)
    (items : List ι) : (fill slot step cells items).length = cells.length := by
  induction items generalizing cells with
  | nil => rfl
  | cons item items ih => rw [fill_cons, ih, List.length_modify]

theorem fill_cell (slot : ι → Nat) (step : β → ι → β) (cells : List β) (items : List ι)
    (i : Nat) : (fill slot step cells items)[i]? =
      cells[i]?.map ((inSlot slot i items).foldl step) := by
  induction items generalizing cells with
  | nil => simp [inSlot]
  | cons item items ih =>
    rw [fill_cons, ih, List.getElem?_modify]
    by_cases own : slot item = i
    · cases found : cells[i]? <;> simp [inSlot, own]
    · cases found : cells[i]? <;> simp [inSlot, own]

theorem fill_perm (slot : ι → Nat) {step : β → ι → β}
    (commute : ∀ cell first second,
      step (step cell first) second = step (step cell second) first)
    (cells : List β) {items items' : List ι} (same : items.Perm items') :
    fill slot step cells items = fill slot step cells items' := by
  apply List.ext_getElem?
  intro i
  have own : (inSlot slot i items).Perm (inSlot slot i items') := same.filter _
  have folded : (inSlot slot i items).foldl step = (inSlot slot i items').foldl step := by
    funext cell
    exact own.foldl_eq' (fun first _ second _ cell => commute cell first second) cell
  rw [fill_cell, fill_cell, folded]

section Totals
variable {γ : Type} [AddCommMonoid γ]

theorem sum_modify (measure : β → γ) {change : β → β} {weight : γ}
    (adds : ∀ cell, measure (change cell) = measure cell + weight) {cells : List β} {i : Nat}
    (placed : i < cells.length) :
    ((cells.modify i change).map measure).sum = (cells.map measure).sum + weight := by
  induction cells generalizing i with
  | nil => simp at placed
  | cons cell cells ih =>
    cases i with
    | zero =>
      rw [List.modify_zero_cons, List.map_cons, List.map_cons, List.sum_cons, List.sum_cons, adds]
      abel
    | succ i =>
      rw [List.modify_succ_cons, List.map_cons, List.map_cons, List.sum_cons, List.sum_cons,
        ih (by simpa using placed)]
      abel

theorem fill_sum {slot : ι → Nat} {step : β → ι → β} (measure : β → γ) (weight : ι → γ)
    (adds : ∀ cell item, measure (step cell item) = measure cell + weight item)
    {cells : List β} {items : List ι} (placed : ∀ item ∈ items, slot item < cells.length) :
    ((fill slot step cells items).map measure).sum =
      (cells.map measure).sum + (items.map weight).sum := by
  induction items generalizing cells with
  | nil => simp
  | cons item items ih =>
    have first := placed item (by simp)
    have later : ∀ other ∈ items,
        slot other < (cells.modify (slot item) fun cell => step cell item).length := by
      intro other mem
      rw [List.length_modify]
      exact placed other (by simp [mem])
    rw [fill_cons, ih later, sum_modify measure (fun cell => adds cell item) first, List.map_cons,
      List.sum_cons]
    abel

end Totals

end SoqTracker.Buckets
