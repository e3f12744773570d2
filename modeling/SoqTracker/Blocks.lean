import Mathlib.Data.List.Basic
import Mathlib.Data.List.Flatten
import Mathlib.Tactic.Ring

/- Streams cut into blocks of one size, whatever the sizes in which they arrive.
   What is left over after the last complete block waits for more. -/
namespace SoqTracker.Blocks
variable {Item : Type}

def block (size index : Nat) (xs : List Item) : List Item :=
  (xs.drop (size * index)).take size

def blocks (size : Nat) (xs : List Item) : List (List Item) :=
  (List.range (xs.length / size)).map fun index => block size index xs

def leftover (size : Nat) (xs : List Item) : List Item := xs.drop (size * (xs.length / size))

@[simp] theorem blocks_length (size : Nat) (xs : List Item) :
    (blocks size xs).length = xs.length / size := by
  simp [blocks]

theorem block_full {size index : Nat} {xs : List Item} (inside : index < xs.length / size) :
    (block size index xs).length = size := by
  have whole : size * (index + 1) ≤ size * (xs.length / size) := Nat.mul_le_mul_left size inside
  have covered : size * (xs.length / size) ≤ xs.length := Nat.mul_div_le xs.length size
  rw [Nat.mul_add, Nat.mul_one] at whole
  simp only [block, List.length_take, List.length_drop]
  omega

theorem block_map {Other : Type} (f : Item → Other) (size index : Nat) (xs : List Item) :
    block size index (xs.map f) = (block size index xs).map f := by
  simp [block]

theorem leftover_length (size : Nat) (xs : List Item) :
    (leftover size xs).length = xs.length % size := by
  rw [leftover, List.length_drop]
  have division := Nat.div_add_mod xs.length size
  omega

theorem leftover_nothing (size : Nat) : leftover size ([] : List Item) = [] := by
  simp [leftover]

theorem leftover_short {size : Nat} {xs : List Item} (short : xs.length < size) :
    leftover size xs = xs := by
  rw [leftover, Nat.div_eq_of_lt short, Nat.mul_zero, List.drop_zero]

theorem leftover_nil_iff (size : Nat) (xs : List Item) :
    leftover size xs = [] ↔ size ∣ xs.length := by
  rw [← List.length_eq_zero_iff, leftover_length, Nat.dvd_iff_mod_eq_zero]

theorem block_append {size index : Nat} {xs : List Item} (ys : List Item)
    (inside : index < xs.length / size) :
    block size index (xs ++ ys) = block size index xs := by
  have whole : size * (index + 1) ≤ size * (xs.length / size) := Nat.mul_le_mul_left size inside
  have covered : size * (xs.length / size) ≤ xs.length := Nat.mul_div_le xs.length size
  rw [Nat.mul_add, Nat.mul_one] at whole
  rw [block, List.drop_append_of_le_length (by omega), List.take_append_of_le_length, block]
  rw [List.length_drop]
  omega

section Growing
variable {size : Nat} (positive : 0 < size) (xs : List Item) (x : Item)
include positive

theorem length_step : (xs.length + 1) / size =
    xs.length / size + if xs.length % size + 1 = size then 1 else 0 := by
  have division := Nat.div_add_mod xs.length size
  have small := Nat.mod_lt xs.length positive
  by_cases fills : xs.length % size + 1 = size
  · have exact : xs.length + 1 = size * (xs.length / size + 1) := by
      rw [Nat.mul_add, Nat.mul_one]
      omega
    rw [if_pos fills, exact, Nat.mul_div_cancel_left _ positive]
  · have within : xs.length + 1 = xs.length % size + 1 + size * (xs.length / size) := by omega
    have fits : xs.length % size + 1 < size := by omega
    rw [if_neg fills, within, Nat.add_mul_div_left _ _ positive, Nat.div_eq_of_lt fits]
    omega

theorem blocks_push : blocks size (xs ++ [x]) =
    blocks size xs ++ if xs.length % size + 1 = size then [leftover size xs ++ [x]] else [] := by
  have kept : (List.range (xs.length / size)).map (fun index => block size index (xs ++ [x])) =
      blocks size xs := by
    apply List.map_congr_left
    intro index mem
    exact block_append [x] (List.mem_range.mp mem)
  have steps := length_step positive xs
  rw [blocks, List.length_append, List.length_singleton, steps]
  by_cases fills : xs.length % size + 1 = size
  · simp only [if_pos fills]
    rw [List.range_succ, List.map_append, kept, List.map_singleton]
    have rest := leftover_length size xs
    have covered := Nat.mul_div_le xs.length size
    rw [block, List.drop_append_of_le_length covered, ← leftover, List.take_of_length_le]
    rw [List.length_append, List.length_singleton]
    omega
  · simp only [if_neg fills, Nat.add_zero, List.append_nil]
    exact kept

theorem leftover_push : leftover size (xs ++ [x]) =
    if xs.length % size + 1 = size then [] else leftover size xs ++ [x] := by
  have covered := Nat.mul_div_le xs.length size
  have division := Nat.div_add_mod xs.length size
  rw [leftover, List.length_append, List.length_singleton, length_step positive xs]
  by_cases fills : xs.length % size + 1 = size
  · rw [if_pos fills, if_pos fills, Nat.mul_add, Nat.mul_one]
    apply List.drop_of_length_le
    rw [List.length_append, List.length_singleton]
    omega
  · rw [if_neg fills, if_neg fills, Nat.add_zero, List.drop_append_of_le_length covered, leftover]

end Growing

/- Records of one width. -/

section Packed
variable {Record : Type} {spell : Record → List Item} {width : Nat}
  (uniform : ∀ r, (spell r).length = width)
include uniform

theorem packed_length (records : List Record) :
    (records.flatMap spell).length = width * records.length := by
  induction records with
  | nil => simp
  | cons r records ih =>
    rw [List.flatMap_cons, List.length_append, uniform, ih, List.length_cons]
    ring

theorem packed_drop (count : Nat) (records : List Record) :
    (records.flatMap spell).drop (width * count) = (records.drop count).flatMap spell := by
  induction count generalizing records with
  | zero => simp
  | succ count ih =>
    cases records with
    | nil => simp
    | cons r records =>
      have split : width * (count + 1) = (spell r).length + width * count := by
        rw [uniform]
        ring
      rw [List.flatMap_cons, split, List.drop_length_add_append, ih, List.drop_succ_cons]

theorem packed_take (count : Nat) (records : List Record) :
    (records.flatMap spell).take (width * count) = (records.take count).flatMap spell := by
  induction count generalizing records with
  | zero => simp
  | succ count ih =>
    cases records with
    | nil => simp
    | cons r records =>
      have split : width * (count + 1) = (spell r).length + width * count := by
        rw [uniform]
        ring
      rw [List.flatMap_cons, split, List.take_length_add_append, ih, List.take_succ_cons,
        List.flatMap_cons]

end Packed

end SoqTracker.Blocks
