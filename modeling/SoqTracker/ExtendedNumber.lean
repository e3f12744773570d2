import Mathlib.Algebra.Order.Floor.Ring
import Mathlib.Algebra.Order.Field.Basic
import Mathlib.Data.Rat.Floor
import Mathlib.Tactic.Linarith

/- Floating-point data over an exact ordered field: finite values, the two
   infinities and not-a-number. Finite results are exact, so rounding is left
   out; overflow of a conversion to infinity is kept. Comparisons with
   not-a-number are false, as in IEEE 754. -/
namespace SoqTracker.ExtendedNumber

/- The numerals that several modules write over an arbitrary field, each with
   one proof for all of them. -/

instance two : Nat.AtLeastTwo 2 := ⟨by decide⟩
instance three : Nat.AtLeastTwo 3 := ⟨by decide⟩
instance four : Nat.AtLeastTwo 4 := ⟨by decide⟩
instance seven : Nat.AtLeastTwo 7 := ⟨by decide⟩
instance nine : Nat.AtLeastTwo 9 := ⟨by decide⟩
instance ten : Nat.AtLeastTwo 10 := ⟨by decide⟩
instance fifteen : Nat.AtLeastTwo 15 := ⟨by decide⟩
instance twenty : Nat.AtLeastTwo 20 := ⟨by decide⟩
instance quarterTurn : Nat.AtLeastTwo 90 := ⟨by decide⟩
instance halfTurn : Nat.AtLeastTwo 180 := ⟨by decide⟩
instance fullTurn : Nat.AtLeastTwo 360 := ⟨by decide⟩
instance samplingRate : Nat.AtLeastTwo 16000 := ⟨by decide⟩
instance signalLevel : Nat.AtLeastTwo 8000000 := ⟨by decide⟩

/-- Conversion to an integer, toward zero. -/
def truncate {α : Type} [Field α] [LinearOrder α] [FloorRing α] (x : α) : Int :=
  if 0 ≤ x then ⌊x⌋ else ⌈x⌉

section Truncation
variable {α : Type} [Field α] [LinearOrder α] [FloorRing α]

theorem truncate_mono {x y : α} (order : x ≤ y) : truncate x ≤ truncate y := by
  unfold truncate
  by_cases first : 0 ≤ x
  · rw [if_pos first, if_pos (first.trans order)]
    exact Int.floor_mono order
  · rw [if_neg first]
    by_cases second : 0 ≤ y
    · rw [if_pos second]
      have below : ⌈x⌉ ≤ 0 := Int.ceil_le.mpr (by simpa using (not_le.mp first).le)
      exact below.trans (Int.floor_nonneg.mpr second)
    · rw [if_neg second]
      exact Int.ceil_mono order

theorem truncate_below [IsStrictOrderedRing α] {x : α} {n : Int} (low : -(n + 1 : α) < x)
    (high : x < n + 1) : |truncate x| ≤ n := by
  unfold truncate
  rw [abs_le]
  by_cases sign : 0 ≤ x
  · have whole : ⌊x⌋ < n + 1 := Int.floor_lt.mpr (by push_cast; exact high)
    have least : 0 ≤ ⌊x⌋ := Int.floor_nonneg.mpr sign
    rw [if_pos sign]
    constructor
    · omega
    · omega
  · have whole : -(n + 1) < ⌈x⌉ := Int.lt_ceil.mpr (by push_cast; linarith)
    have most : ⌈x⌉ ≤ 0 := Int.ceil_le.mpr (by simpa using (not_le.mp sign).le)
    rw [if_neg sign]
    constructor
    · omega
    · omega

end Truncation

inductive Number (α : Type) where
  | finite (value : α)
  | posInf
  | negInf
  | nan
  deriving DecidableEq, Repr

namespace Number
variable {α : Type}

def IsNan : Number α → Prop
  | nan => True
  | _ => False

def IsFinite : Number α → Prop
  | finite _ => True
  | _ => False

instance (x : Number α) : Decidable x.IsNan := by
  cases x <;> simp only [IsNan] <;> infer_instance

instance (x : Number α) : Decidable x.IsFinite := by
  cases x <;> simp only [IsFinite] <;> infer_instance

section Order
variable [LinearOrder α]

def lt : Number α → Number α → Bool
  | nan, _ => false
  | _, nan => false
  | finite x, finite y => decide (x < y)
  | negInf, negInf => false
  | negInf, _ => true
  | _, negInf => false
  | posInf, _ => false
  | finite _, posInf => true

def le : Number α → Number α → Bool
  | nan, _ => false
  | _, nan => false
  | finite x, finite y => decide (x ≤ y)
  | negInf, _ => true
  | _, posInf => true
  | _, negInf => false
  | posInf, finite _ => false

@[simp] theorem lt_finite (x y : α) : lt (finite x) (finite y) = decide (x < y) := rfl

@[simp] theorem nan_lt (x : Number α) : lt nan x = false := by cases x <;> rfl

@[simp] theorem lt_nan (x : Number α) : lt x nan = false := by cases x <;> rfl

end Order

section Arithmetic
variable [Field α]

def add : Number α → Number α → Number α
  | nan, _ => nan
  | _, nan => nan
  | finite x, finite y => finite (x + y)
  | posInf, negInf => nan
  | negInf, posInf => nan
  | posInf, _ => posInf
  | _, posInf => posInf
  | negInf, _ => negInf
  | _, negInf => negInf

@[simp] theorem add_finite (x y : α) : add (finite x) (finite y) = finite (x + y) := rfl

@[simp] theorem add_nan (x : Number α) : add x nan = nan := by cases x <;> rfl

@[simp] theorem nan_add (x : Number α) : add nan x = nan := by cases x <;> rfl

variable [LinearOrder α]

/-- A product with a finite factor; infinity times zero is not a number. -/
def scale (c : α) : Number α → Number α
  | finite x => finite (c * x)
  | nan => nan
  | posInf => if 0 < c then posInf else if c < 0 then negInf else nan
  | negInf => if 0 < c then negInf else if c < 0 then posInf else nan

@[simp] theorem scale_finite (c x : α) : scale c (finite x) = finite (c * x) := rfl

theorem scale_nan_iff {c : α} (nonzero : c ≠ 0) (x : Number α) :
    (scale c x).IsNan ↔ x.IsNan := by
  rcases lt_or_gt_of_ne nonzero with negative | positive
  · cases x <;> simp [scale, IsNan, negative, negative.not_gt]
  · cases x <;> simp [scale, IsNan, positive]

def sub (x y : Number α) : Number α := add x (scale (-1) y)

@[simp] theorem sub_finite (x y : α) : sub (finite x) (finite y) = finite (x - y) := by
  simp [sub, sub_eq_add_neg]

/-- Half a unit above the largest binary64 magnitude: what rounds to nearest
    overflows from here on. -/
def overflowBound : Nat := 2 ^ 1024 - 2 ^ 970

theorem overflowBound_large : 2 ^ 64 ≤ overflowBound := by decide +kernel

def ofExact (x : α) : Number α :=
  if (overflowBound : α) ≤ x then posInf
  else if x ≤ -(overflowBound : α) then negInf
  else finite x

theorem ofExact_bounded {x : α} (low : -(overflowBound : α) < x)
    (high : x < (overflowBound : α)) : ofExact x = finite x := by
  rw [ofExact, if_neg (not_le.mpr high), if_neg (not_le.mpr low)]

theorem ofExact_small [IsStrictOrderedRing α] {x : α} {n : Nat} (within : |x| ≤ n)
    (small : n < 2 ^ 64) : ofExact x = finite x := by
  have bound : (n : α) < (overflowBound : α) := by
    rw [Nat.cast_lt]
    exact lt_of_lt_of_le small overflowBound_large
  obtain ⟨low, high⟩ := abs_le.mp within
  apply ofExact_bounded
  · linarith
  · linarith

variable [FloorRing α]

/-- The modulo of a language whose result takes the divisor's sign. -/
def modulo (m : α) : Number α → Number α
  | finite x => finite (x - m * ⌊x / m⌋)
  | _ => nan

theorem modulo_finite_iff (m : α) (x : Number α) : (modulo m x).IsFinite ↔ x.IsFinite := by
  cases x <;> simp [modulo, IsFinite]

variable [IsStrictOrderedRing α]

theorem modulo_range {m x : α} (positive : 0 < m) :
    0 ≤ x - m * ⌊x / m⌋ ∧ x - m * ⌊x / m⌋ < m := by
  have low : m * ⌊x / m⌋ ≤ x := by
    have below := mul_le_mul_of_nonneg_left (Int.floor_le (x / m)) positive.le
    rwa [mul_div_cancel₀ x positive.ne'] at below
  have high : x < m * (⌊x / m⌋ + 1) := by
    have above := mul_lt_mul_of_pos_left (Int.lt_floor_add_one (x / m)) positive
    rwa [mul_div_cancel₀ x positive.ne'] at above
  constructor
  · linarith
  · linarith

theorem modulo_unique {m x r : α} {k : Int} (split : x = r + m * k) (low : 0 ≤ r) (high : r < m) :
    x - m * ⌊x / m⌋ = r := by
  have positive : 0 < m := lt_of_le_of_lt low high
  have floor : ⌊x / m⌋ = k := by
    rw [Int.floor_eq_iff, le_div_iff₀ positive, div_lt_iff₀ positive]
    constructor
    · linarith
    · linarith
  rw [floor]
  linarith

end Arithmetic

end Number

end SoqTracker.ExtendedNumber
