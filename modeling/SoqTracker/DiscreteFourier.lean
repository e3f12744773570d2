import Mathlib.Analysis.Fourier.ZMod
import Mathlib.Data.List.GetD

/- The discrete Fourier transform of a real block, in the form that keeps only
   the bins up to half the block length, and its inverse. -/
namespace SoqTracker.DiscreteFourier
open Complex ComplexConjugate

noncomputable def turn (n : ℕ) (m : ℤ) : ℂ := exp (2 * Real.pi * I * m / n)

noncomputable def bin (xs : List ℝ) (n k : ℕ) : ℂ :=
  ∑ j ∈ Finset.range n, (xs.getD j 0 : ℂ) * turn n (-(j * k))

noncomputable def rfft (xs : List ℝ) (n : ℕ) : List ℂ := (List.range (n / 2 + 1)).map (bin xs n)

/-- The value at a time of the real signal with this half spectrum. The first and
    the last bin count once and only by their real parts, all others twice. -/
noncomputable def signal (spectrum : List ℂ) (t : ℤ) : ℝ :=
  let half := spectrum.length - 1
  ((spectrum.getD 0 0).re +
    2 * ∑ k ∈ Finset.Ico 1 half, (spectrum.getD k 0 * turn (2 * half) (k * t)).re +
    (spectrum.getD half 0).re * (turn (2 * half) (half * t)).re) / (2 * half : ℕ)

noncomputable def irfft (spectrum : List ℂ) : List ℝ :=
  (List.range (2 * (spectrum.length - 1))).map fun t : ℕ => signal spectrum t

theorem irfft_length (spectrum : List ℂ) : (irfft spectrum).length = 2 * (spectrum.length - 1) := by
  simp [irfft]

theorem irfft_get (spectrum : List ℂ) {t : ℕ} (inside : t < (irfft spectrum).length) :
    (irfft spectrum)[t] = signal spectrum t := by
  simp [irfft]

/- Roots of unity. -/

section Turns
variable {n : ℕ} [NeZero n]

theorem turn_char (m : ℤ) : turn n m = ZMod.stdAddChar (m : ZMod n) := (ZMod.stdAddChar_coe m).symm

theorem turn_add (a b : ℤ) : turn n (a + b) = turn n a * turn n b := by
  simp only [turn_char, Int.cast_add, AddChar.map_add_eq_mul]

theorem conj_turn (m : ℤ) : conj (turn n m) = turn n (-m) := by
  rw [turn_char, turn_char, Int.cast_neg, AddChar.map_neg_eq_conj]

theorem norm_turn (m : ℤ) : ‖turn n m‖ = 1 := by
  rw [turn_char, AddChar.norm_apply]

theorem turn_congr {a b : ℤ} (same : (a : ZMod n) = (b : ZMod n)) : turn n a = turn n b := by
  rw [turn_char, turn_char, same]

theorem turn_one_iff (m : ℤ) : turn n m = 1 ↔ (n : ℤ) ∣ m := by
  rw [turn_char, ← AddChar.map_zero_eq_one (ZMod.stdAddChar (N := n)),
    ZMod.injective_stdAddChar.eq_iff, ZMod.intCast_zmod_eq_zero_iff_dvd]

theorem turn_re_le (m : ℤ) : (turn n m).re ≤ 1 := by
  have bound := re_le_norm (turn n m)
  rwa [norm_turn] at bound

theorem turn_re_lt {m : ℤ} (partway : ¬ (n : ℤ) ∣ m) : (turn n m).re < 1 := by
  refine lt_of_le_of_ne (turn_re_le m) ?_
  intro ahead
  apply partway
  rw [← turn_one_iff]
  have square := normSq_eq_norm_sq (turn n m)
  rw [norm_turn, normSq_apply, ahead] at square
  have level : (turn n m).im = 0 := by nlinarith
  exact Complex.ext ahead level

end Turns

/- Shifts. -/

section Shifts
variable {n : ℕ} [NeZero n]

theorem sum_char (f : ZMod n → ℂ) : ∑ j ∈ Finset.range n, f j = ∑ j, f j := by
  refine Finset.sum_nbij' (fun j => (j : ZMod n)) ZMod.val ?_ ?_ ?_ ?_ ?_
  · intro j _
    exact Finset.mem_univ _
  · intro j _
    exact Finset.mem_range.mpr (ZMod.val_lt j)
  · intro j mem
    exact ZMod.val_cast_of_lt (Finset.mem_range.mp mem)
  · intro j _
    exact ZMod.natCast_zmod_val j
  · intro j _
    rfl

theorem bin_char (xs : List ℝ) (k : ℕ) :
    bin xs n k =
      ∑ j : ZMod n, (xs.getD j.val 0 : ℂ) * ZMod.stdAddChar (-(j * (k : ZMod n))) := by
  rw [← sum_char]
  apply Finset.sum_congr rfl
  intro j mem
  rw [turn_char, ZMod.val_cast_of_lt (Finset.mem_range.mp mem)]
  push_cast
  rfl

/-- The filled-up block xs, moved d places on around the circle, is ys. -/
def Shifted (xs ys : List ℝ) (n : ℕ) (d : ℤ) : Prop :=
  ∀ i < n, ys.getD ((i + d) % n).toNat 0 = xs.getD i 0

theorem bin_shifted {xs ys : List ℝ} {d : ℤ} (shifted : Shifted xs ys n d) (k : ℕ) :
    bin ys n k = turn n (-(d * k)) * bin xs n k := by
  rw [bin_char, bin_char, turn_char, Finset.mul_sum, ← Equiv.sum_comp (Equiv.addRight (d : ZMod n))]
  apply Finset.sum_congr rfl
  intro j _
  have place : (j + (d : ZMod n)).val = ((j.val + d) % n).toNat := by
    have value := ZMod.val_intCast (n := n) (j.val + d)
    rw [Int.cast_add, Int.cast_natCast, ZMod.natCast_zmod_val] at value
    omega
  have moved := shifted j.val (ZMod.val_lt j)
  have split : -((j + (d : ZMod n)) * (k : ZMod n)) =
      ((-(d * k) : ℤ) : ZMod n) + -(j * (k : ZMod n)) := by
    push_cast
    ring
  rw [Equiv.coe_addRight, place, moved, split, AddChar.map_add_eq_mul]
  ring

end Shifts

/- Signals. -/

section Signals
variable {half : ℕ} [NeZero (2 * half)] {spectrum : List ℂ}

theorem signal_congr (size : spectrum.length = half + 1) {s t : ℤ}
    (same : (s : ZMod (2 * half)) = (t : ZMod (2 * half))) : signal spectrum s = signal spectrum t := by
  have bins : ∀ k : ℕ, turn (2 * half) (k * s) = turn (2 * half) (k * t) := by
    intro k
    apply turn_congr
    rw [Int.cast_mul, Int.cast_mul, same]
  simp only [signal, size, Nat.add_sub_cancel, bins]

theorem half_turn_level (m : ℤ) : (turn (2 * half) (half * m)).im = 0 := by
  have mirror : turn (2 * half) (-(half * m)) = turn (2 * half) (half * m) := by
    apply turn_congr
    rw [ZMod.intCast_eq_intCast_iff_dvd_sub]
    exact ⟨m, by push_cast; ring⟩
  rw [← conj_turn] at mirror
  have parts := congrArg im mirror
  rw [conj_im] at parts
  linarith

omit [NeZero (2 * half)] in
theorem conj_getD (spectrum : List ℂ) (k : ℕ) :
    (spectrum.map conj).getD k 0 = conj (spectrum.getD k 0) := by
  have mapped := List.getD_map (l := spectrum) (n := k) (d := 0) conj
  rwa [map_zero] at mapped

theorem signal_conj (size : spectrum.length = half + 1) (t : ℤ) :
    signal (spectrum.map conj) t = signal spectrum (-t) := by
  have back : ∀ k : ℕ, turn (2 * half) (k * -t) = conj (turn (2 * half) (k * t)) := by
    intro k
    rw [conj_turn, mul_neg]
  have turned : ∀ k : ℕ, ((spectrum.map conj).getD k 0 * turn (2 * half) (k * t)).re =
      (spectrum.getD k 0 * turn (2 * half) (k * -t)).re := by
    intro k
    rw [conj_getD, back, ← conj_re, map_mul, conj_conj]
  simp only [signal, List.length_map, size, Nat.add_sub_cancel, turned]
  rw [conj_getD, conj_getD, back half, conj_re, conj_re, conj_re]

/-- All bins have the phases of one pulse at time d, with real weights. -/
def Aimed (spectrum : List ℂ) (half : ℕ) (weight : ℕ → ℝ) (d : ℤ) : Prop :=
  ∀ k ≤ half, spectrum.getD k 0 = (weight k : ℂ) * turn (2 * half) (-(d * k))

variable {weight : ℕ → ℝ} {d : ℤ}

theorem aimed_signal (size : spectrum.length = half + 1) (aimed : Aimed spectrum half weight d)
    (t : ℤ) :
    signal spectrum t =
      (weight 0 + 2 * ∑ k ∈ Finset.Ico 1 half, weight k * (turn (2 * half) (k * (t - d))).re +
        weight half * (turn (2 * half) (half * (t - d))).re) / (2 * half : ℕ) := by
  have middle : ∀ k ∈ Finset.Ico 1 half, (spectrum.getD k 0 * turn (2 * half) (k * t)).re =
      weight k * (turn (2 * half) (k * (t - d))).re := by
    intro k mem
    have inside : k ≤ half := (Finset.mem_Ico.mp mem).2.le
    rw [aimed k inside, mul_assoc, ← turn_add, re_ofReal_mul]
    congr 3
    ring
  have first : (spectrum.getD 0 0).re = weight 0 := by
    have none : turn (2 * half) 0 = 1 := (turn_one_iff 0).mpr (dvd_zero _)
    have here := aimed 0 (Nat.zero_le half)
    rw [Nat.cast_zero, mul_zero, neg_zero, none, mul_one] at here
    rw [here, ofReal_re]
  have last : (spectrum.getD half 0).re * (turn (2 * half) (half * t)).re =
      weight half * (turn (2 * half) (half * (t - d))).re := by
    have split : (half : ℤ) * (t - d) = -(d * half) + half * t := by ring
    rw [aimed half le_rfl, re_ofReal_mul, split, turn_add, mul_re, half_turn_level]
    ring
  simp only [signal, size, Nat.add_sub_cancel]
  rw [first, last, Finset.sum_congr rfl middle]

theorem signal_peak (size : spectrum.length = half + 1) (several : 2 ≤ half)
    (aimed : Aimed spectrum half weight d) (nonneg : ∀ k, 0 ≤ weight k) (present : 0 < weight 1)
    {t : ℤ} (off : ¬ ((2 * half : ℕ) : ℤ) ∣ t - d) : signal spectrum t < signal spectrum d := by
  have whole : ∀ k : ℕ, turn (2 * half) (k * (d - d)) = 1 := by
    intro k
    rw [turn_one_iff, sub_self, mul_zero]
    exact dvd_zero _
  have below : ∀ k : ℕ, weight k * (turn (2 * half) (k * (t - d))).re ≤
      weight k * (turn (2 * half) (k * (d - d))).re := by
    intro k
    rw [whole, one_re]
    exact mul_le_mul_of_nonneg_left (turn_re_le _) (nonneg k)
  have strictly : weight 1 * (turn (2 * half) ((1 : ℕ) * (t - d))).re <
      weight 1 * (turn (2 * half) ((1 : ℕ) * (d - d))).re := by
    rw [whole, one_re, Nat.cast_one, one_mul]
    exact mul_lt_mul_of_pos_left (turn_re_lt off) present
  have sums : ∑ k ∈ Finset.Ico 1 half, weight k * (turn (2 * half) (k * (t - d))).re <
      ∑ k ∈ Finset.Ico 1 half, weight k * (turn (2 * half) (k * (d - d))).re :=
    Finset.sum_lt_sum (fun k _ => below k) ⟨1, Finset.mem_Ico.mpr ⟨le_rfl, several⟩, strictly⟩
  have positive : (0 : ℝ) < (2 * half : ℕ) := by
    rw [Nat.cast_pos]
    omega
  rw [aimed_signal size aimed, aimed_signal size aimed]
  apply div_lt_div_of_pos_right _ positive
  have ends := below half
  linarith

end Signals

/- There and back. -/

section RoundTrip
variable (xs : List ℝ)

section Full
variable {n : ℕ} [NeZero n]

theorem conj_bin {k : ℕ} (low : k ≤ n) : conj (bin xs n k) = bin xs n (n - k) := by
  rw [bin, bin, map_sum]
  apply Finset.sum_congr rfl
  intro j _
  rw [map_mul, conj_ofReal, conj_turn, neg_neg]
  congr 1
  apply turn_congr
  rw [ZMod.intCast_eq_intCast_iff_dvd_sub]
  exact ⟨-j, by push_cast [low]; ring⟩

theorem full_sum {t : ℕ} (inside : t < n) :
    ∑ k ∈ Finset.range n, bin xs n k * turn n (k * t) = n * (xs.getD t 0 : ℂ) := by
  have inverse := ZMod.invDFT_apply (ZMod.dft fun j : ZMod n => (xs.getD j.val 0 : ℂ)) (t : ZMod n)
  rw [LinearEquiv.symm_apply_apply, ZMod.val_cast_of_lt inside, smul_eq_mul, ← sum_char] at inverse
  rw [inverse, ← mul_assoc, mul_inv_cancel₀ (Nat.cast_ne_zero.mpr (NeZero.ne n)), one_mul]
  apply Finset.sum_congr rfl
  intro k _
  rw [bin_char, turn_char, ZMod.dft_apply, smul_eq_mul, mul_comm]
  push_cast
  congr 1
  apply Finset.sum_congr rfl
  intro j _
  rw [smul_eq_mul, mul_comm]

end Full

variable {half : ℕ} [NeZero (2 * half)]

theorem fold_sum (f : ℕ → ℝ) (mirror : ∀ k ∈ Finset.Ico 1 half, f (2 * half - k) = f k) :
    ∑ k ∈ Finset.range (2 * half), f k = f 0 + 2 * ∑ k ∈ Finset.Ico 1 half, f k + f half := by
  have positive : 0 < half := by
    have nonzero := NeZero.ne (2 * half)
    omega
  have low : ∑ k ∈ Finset.Ico 0 half, f k = f 0 + ∑ k ∈ Finset.Ico 1 half, f k :=
    Finset.sum_eq_sum_Ico_succ_bot positive f
  have high : ∑ k ∈ Finset.Ico half (2 * half), f k =
      f half + ∑ k ∈ Finset.Ico (half + 1) (2 * half), f k :=
    Finset.sum_eq_sum_Ico_succ_bot (by omega) f
  have reflected := Finset.sum_Ico_reflect f 1 (show half ≤ 2 * half + 1 by omega)
  have start : 2 * half + 1 - half = half + 1 := by omega
  rw [Finset.sum_congr rfl mirror, start, Nat.add_sub_cancel] at reflected
  rw [Finset.range_eq_Ico, ← Finset.sum_Ico_consecutive f (Nat.zero_le half) (by omega), low, high,
    ← reflected]
  ring

theorem rfft_get {n k : ℕ} (inside : k ≤ n / 2) : (rfft xs n).getD k 0 = bin xs n k := by
  have placed : k < (rfft xs n).length := by
    rw [rfft, List.length_map, List.length_range]
    omega
  rw [List.getD_eq_getElem _ _ placed]
  simp only [rfft, List.getElem_map, List.getElem_range]

theorem irfft_rfft {t : ℕ} (inside : t < 2 * half) :
    (irfft (rfft xs (2 * half))).getD t 0 = xs.getD t 0 := by
  have size : (rfft xs (2 * half)).length = half + 1 := by
    rw [rfft, List.length_map, List.length_range, Nat.mul_div_cancel_left half (by omega)]
  have width : 2 * half / 2 = half := Nat.mul_div_cancel_left half (by omega)
  have placed : t < (irfft (rfft xs (2 * half))).length := by
    rw [irfft_length, size]
    omega
  have mirror : ∀ k ∈ Finset.Ico 1 half,
      (bin xs (2 * half) (2 * half - k) * turn (2 * half) ((2 * half - k : ℕ) * t)).re =
        (bin xs (2 * half) k * turn (2 * half) (k * t)).re := by
    intro k mem
    have low : k ≤ 2 * half := by
      have below := (Finset.mem_Ico.mp mem).2
      omega
    have back : turn (2 * half) ((2 * half - k : ℕ) * t) = conj (turn (2 * half) (k * t)) := by
      rw [conj_turn]
      apply turn_congr
      rw [ZMod.intCast_eq_intCast_iff_dvd_sub]
      exact ⟨-t, by push_cast [low]; ring⟩
    rw [← conj_bin xs low, back, ← map_mul, conj_re]
  have last : (bin xs (2 * half) half * turn (2 * half) (half * t)).re =
      (bin xs (2 * half) half).re * (turn (2 * half) (half * t)).re := by
    rw [mul_re, half_turn_level, mul_zero, sub_zero]
  have first : (bin xs (2 * half) 0 * turn (2 * half) ((0 : ℕ) * t)).re = (bin xs (2 * half) 0).re := by
    have none : turn (2 * half) 0 = 1 := (turn_one_iff 0).mpr (dvd_zero _)
    rw [Nat.cast_zero, zero_mul, none, mul_one]
  have whole := congrArg re (full_sum xs inside)
  rw [re_sum, fold_sum _ mirror, first, last] at whole
  rw [List.getD_eq_getElem _ _ placed, irfft_get]
  have bins : ∀ k ≤ half, (rfft xs (2 * half)).getD k 0 = bin xs (2 * half) k := by
    intro k inner
    exact rfft_get xs (by omega)
  have middle : ∀ k ∈ Finset.Ico 1 half,
      ((rfft xs (2 * half)).getD k 0 * turn (2 * half) (k * t)).re =
        (bin xs (2 * half) k * turn (2 * half) (k * t)).re := by
    intro k mem
    rw [bins k (Finset.mem_Ico.mp mem).2.le]
  simp only [signal, size, Nat.add_sub_cancel]
  rw [bins 0 (Nat.zero_le half), bins half le_rfl, Finset.sum_congr rfl middle, whole,
    ← ofReal_natCast, re_ofReal_mul, ofReal_re]
  exact mul_div_cancel_left₀ _ (Nat.cast_ne_zero.mpr (NeZero.ne (2 * half)))

end RoundTrip

end SoqTracker.DiscreteFourier
