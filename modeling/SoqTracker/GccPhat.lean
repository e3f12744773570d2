import SoqTracker.DiscreteFourier
import SoqTracker.AngleRange

/- The delay between the outer microphones, gcc_phat of read_kinect.py, over the
   real numbers. The cross spectrum is whitened, turned back into a correlation,
   and the lag of its first greatest value is the delay in samples. -/
namespace SoqTracker.GccPhat
open ExtendedNumber TrackerLoop DiscreteFourier ComplexConjugate
open AngleRange (realDsp)

def argmax {Item : Type} [LinearOrder Item] (xs : List Item) : ℕ :=
  xs.findIdx fun x => ∀ y ∈ xs, y ≤ x

section Constants
variable {α : Type} [Field α]

def sampleRate : α := 16000
def maxTau : α := micSpacing / speedOfSound

end Constants

def maxShift : ℕ := (truncate (sampleRate * maxTau : ℚ)).natAbs + 1

noncomputable def whiten (crossPower : ℂ) : ℂ := crossPower / (‖crossPower‖ + 1 / 10 ^ 10 : ℝ)

noncomputable def whitened (sig refsig : List ℝ) : List ℂ :=
  let n := sig.length + refsig.length
  (List.zipWith (fun s r => s * conj r) (rfft sig n) (rfft refsig n)).map whiten

/-- The correlation at the lags from -maxShift to maxShift. -/
def nearLags {Item : Type} (correlation : List Item) : List Item :=
  correlation.drop (correlation.length - maxShift) ++ correlation.take (maxShift + 1)

noncomputable def gccPhat (sig refsig : List ℝ) : ℝ :=
  ((argmax (nearLags (irfft (whitened sig refsig))) - maxShift : ℤ) : ℝ) / sampleRate

/- Slices and places. -/

theorem maxShift_value : maxShift = 11 := by decide +kernel

theorem argmax_unique {Item : Type} [LinearOrder Item] {f : ℕ → Item} {size i : ℕ}
    (inside : i < size) (peak : ∀ j < size, j ≠ i → f j < f i) :
    argmax ((List.range size).map f) = i := by
  have here : i < ((List.range size).map f).length := by simpa using inside
  rw [argmax, List.findIdx_eq here]
  constructor
  · simp only [List.getElem_map, List.getElem_range, decide_eq_true_eq, List.mem_map, List.mem_range]
    rintro _ ⟨j, low, rfl⟩
    by_cases same : j = i
    · rw [same]
    · exact (peak j low same).le
  · intro j before
    simp only [List.getElem_map, List.getElem_range, decide_eq_false_iff_not]
    intro greatest
    have above := greatest (f i) (List.mem_map_of_mem (List.mem_range.mpr inside))
    exact absurd (peak j (by omega) (by omega)) (not_lt.mpr above)

theorem nearLags_irfft {half : ℕ} {spectrum : List ℂ} (size : spectrum.length = half + 1)
    (wide : 12 ≤ half) :
    nearLags (irfft spectrum) = (List.range 23).map fun i : ℕ => signal spectrum (i - 11) := by
  have positive : NeZero (2 * half) := ⟨by omega⟩
  have length : (irfft spectrum).length = 2 * half := by
    rw [irfft_length, size, Nat.add_sub_cancel]
  rw [nearLags, maxShift_value]
  apply List.ext_getElem
  · simp only [List.length_append, List.length_drop, List.length_take, length, List.length_map,
      List.length_range]
    omega
  · intro i near _
    rw [List.getElem_map, List.getElem_range]
    by_cases before : i < 11
    · rw [List.getElem_append_left (by rw [List.length_drop, length]; omega), List.getElem_drop]
      rw [irfft_get, length]
      apply signal_congr size
      have place : ((2 * half - 11 + i : ℕ) : ℤ) = (2 * half : ℕ) + ((i : ℤ) - 11) := by omega
      rw [place, Int.cast_add, Int.cast_natCast, ZMod.natCast_self, zero_add]
    · rw [List.getElem_append_right (by rw [List.length_drop, length]; omega), List.getElem_take]
      rw [irfft_get, List.length_drop, length]
      congr 1
      omega

theorem gccPhat_peak {half : ℕ} {sig refsig : List ℝ}
    (size : (whitened sig refsig).length = half + 1) (wide : 12 ≤ half) {d : ℤ} (near : |d| ≤ 11)
    (peak : ∀ t : ℤ, |t| ≤ 11 → t ≠ d →
      signal (whitened sig refsig) t < signal (whitened sig refsig) d) :
    gccPhat sig refsig = d / sampleRate := by
  obtain ⟨low, high⟩ := abs_le.mp near
  have place : ((d + 11).toNat : ℤ) - 11 = d := by omega
  have best : argmax (nearLags (irfft (whitened sig refsig))) = (d + 11).toNat := by
    rw [nearLags_irfft size wide]
    apply argmax_unique (by omega)
    intro j inside other
    rw [place]
    exact peak _ (abs_le.mpr ⟨by omega, by omega⟩) (by omega)
  rw [gccPhat, best, maxShift_value, Nat.cast_ofNat, place]

/- A delayed block. -/

noncomputable def binWeight (refsig : List ℝ) (n k : ℕ) : ℝ :=
  Complex.normSq (bin refsig n k) / (Complex.normSq (bin refsig n k) + 1 / 10 ^ 10)

theorem binWeight_nonneg (refsig : List ℝ) (n k : ℕ) : 0 ≤ binWeight refsig n k := by
  have power := Complex.normSq_nonneg (bin refsig n k)
  unfold binWeight
  positivity

theorem binWeight_pos {refsig : List ℝ} {n k : ℕ} (present : bin refsig n k ≠ 0) :
    0 < binWeight refsig n k := by
  have power := Complex.normSq_pos.mpr present
  unfold binWeight
  positivity

theorem whitened_length {sig refsig : List ℝ} (same : sig.length = refsig.length) :
    (whitened sig refsig).length = refsig.length + 1 := by
  simp only [whitened, rfft, List.length_map, List.length_zipWith, List.length_range, same]
  omega

theorem whitened_bin {sig refsig : List ℝ} (same : sig.length = refsig.length) {k : ℕ}
    (inside : k ≤ refsig.length) :
    (whitened sig refsig).getD k 0 =
      whiten (bin sig (2 * refsig.length) k * conj (bin refsig (2 * refsig.length) k)) := by
  have total : sig.length + refsig.length = 2 * refsig.length := by omega
  have placed : k < (whitened sig refsig).length := by
    rw [whitened_length same]
    omega
  rw [List.getD_eq_getElem _ _ placed]
  simp only [whitened, rfft, total, List.getElem_map, List.getElem_zipWith, List.getElem_range]

/-- A delay only turns the bins, so their whitened phases are those of the delay. -/
theorem whitened_aimed {sig refsig : List ℝ} (same : sig.length = refsig.length) {d : ℤ}
    [NeZero (2 * refsig.length)] (shifted : Shifted refsig sig (2 * refsig.length) d) :
    Aimed (whitened sig refsig) refsig.length (binWeight refsig (2 * refsig.length)) d := by
  intro k inside
  have power : bin sig (2 * refsig.length) k * conj (bin refsig (2 * refsig.length) k) =
      (Complex.normSq (bin refsig (2 * refsig.length) k) : ℂ) *
        turn (2 * refsig.length) (-(d * k)) := by
    rw [bin_shifted shifted, mul_assoc, Complex.mul_conj, mul_comm]
  have size : ‖(Complex.normSq (bin refsig (2 * refsig.length) k) : ℂ) *
      turn (2 * refsig.length) (-(d * k))‖ =
        Complex.normSq (bin refsig (2 * refsig.length) k) := by
    rw [norm_mul, norm_turn, mul_one, Complex.norm_real]
    exact abs_of_nonneg (Complex.normSq_nonneg _)
  rw [whitened_bin same inside, power, whiten, size, binWeight]
  push_cast
  ring

/-- The correlation of a block with its own shift is greatest at the shift alone. -/
theorem shifted_peak {sig refsig : List ℝ} {d : ℤ} (same : sig.length = refsig.length)
    (long : 12 ≤ refsig.length) (near : |d| ≤ 11)
    (shifted : Shifted refsig sig (2 * refsig.length) d)
    (present : bin refsig (2 * refsig.length) 1 ≠ 0) (t : ℤ) (close : |t| ≤ 11) (other : t ≠ d) :
    signal (whitened sig refsig) t < signal (whitened sig refsig) d := by
  have positive : NeZero (2 * refsig.length) := ⟨by omega⟩
  apply signal_peak (whitened_length same) (by omega) (whitened_aimed same shifted)
    (binWeight_nonneg refsig _) (binWeight_pos present)
  intro whole
  have small : |t - d| < ((2 * refsig.length : ℕ) : ℤ) := by
    rw [abs_le] at near close
    rw [abs_lt]
    omega
  have nothing := Int.eq_zero_of_abs_lt_dvd whole small
  omega

/-- The delay between two blocks that are circular shifts of each other is
    recovered, whatever their amplitude and spectrum. -/
theorem delay_recovered {sig refsig : List ℝ} {d : ℤ} (same : sig.length = refsig.length)
    (long : 12 ≤ refsig.length) (near : |d| ≤ 11)
    (shifted : Shifted refsig sig (2 * refsig.length) d)
    (present : bin refsig (2 * refsig.length) 1 ≠ 0) : gccPhat sig refsig = d / sampleRate := by
  apply gccPhat_peak (whitened_length same) long near
  intro t close other
  exact shifted_peak same long near shifted present t close other

/- A pulse of one sample. -/

def pulse (p : ℕ) : List ℝ := (List.range 12).map fun j => if j = p then 1 else 0

theorem pulse_get {p : ℕ} (inside : p < 12) (i : ℕ) :
    (pulse p).getD i 0 = if i = p then 1 else 0 := by
  rw [pulse, List.getD_eq_getElem?_getD, List.getElem?_map]
  by_cases placed : i < 12
  · simp [List.getElem?_range placed]
  · have other : i ≠ p := by omega
    have past : (List.range 12)[i]? = none := List.getElem?_eq_none (by simpa using placed)
    simp [past, other]

theorem pulse_shifted {p q : ℕ} (inside : p < 12) (inside' : q < 12) :
    Shifted (pulse p) (pulse q) 24 ((q : ℤ) - p) := by
  intro i near
  rw [pulse_get inside, pulse_get inside']
  by_cases here : i = p
  · have there : ((i + ((q : ℤ) - p)) % (24 : ℕ)).toNat = q := by omega
    rw [if_pos here, if_pos there]
  · have away : ((i + ((q : ℤ) - p)) % (24 : ℕ)).toNat ≠ q := by omega
    rw [if_neg here, if_neg away]

theorem pulse_bin {p : ℕ} (inside : p < 12) (k : ℕ) : bin (pulse p) 24 k = turn 24 (-(p * k)) := by
  rw [bin, Finset.sum_eq_single p]
  · rw [pulse_get inside, if_pos rfl, Complex.ofReal_one, one_mul]
  · intro j _ other
    rw [pulse_get inside, if_neg other, Complex.ofReal_zero, zero_mul]
  · intro outside
    exact absurd (Finset.mem_range.mpr (by omega)) outside

theorem pulse_length (p : ℕ) : (pulse p).length = 12 := by simp [pulse]

theorem pulse_present {p : ℕ} (inside : p < 12) : bin (pulse p) 24 1 ≠ 0 := by
  rw [pulse_bin inside, ← norm_ne_zero_iff, norm_turn]
  exact one_ne_zero

/-- A pulse that reaches the first microphone three samples early. -/
theorem early_pulse_recovered : gccPhat (pulse 0) (pulse 3) = ((-3 : ℤ) : ℝ) / sampleRate := by
  exact delay_recovered (by rw [pulse_length, pulse_length]) (pulse_length 3).ge (by decide)
    (by rw [pulse_length]; exact pulse_shifted (by omega) (by omega))
    (by rw [pulse_length]; exact pulse_present (by omega))

/- The bearing of a delayed block. -/

theorem channel_length (mic mic' : ℕ) (xs : List ℤ) :
    (channel mic xs).length = (channel mic' xs).length := by
  induction xs using channel.induct with
  | case1 a b c d later ih => simp [channel, ih]
  | case2 xs short => rw [channel.eq_2 mic xs short, channel.eq_2 mic' xs short]

theorem clip_within (x : ℝ) : |clip x (-1) 1| ≤ 9 / 10 ↔ |x| ≤ 9 / 10 := by
  unfold clip
  rw [abs_le, abs_le]
  constructor
  · rintro ⟨low, high⟩
    rcases min_le_iff.mp high with one | inside
    · linarith
    · obtain ⟨_, above⟩ := max_le_iff.mp inside
      refine ⟨?_, above⟩
      rcases le_max_iff.mp (le_min_iff.mp low).2 with edge | here
      · linarith
      · exact here
  · rintro ⟨low, high⟩
    constructor
    · exact le_min (by linarith) (le_max_of_le_right low)
    · exact min_le_of_right_le (max_le (by linarith) high)

/-- A delayed block is accepted when the delay is at most nine samples, and then
    its raw error is the bearing of that delay. -/
theorem delayed_block {raw : List UInt8} {d : ℤ} (long : 12 ≤ (mic4 raw : List ℝ).length)
    (near : |d| ≤ 11) (shifted : Shifted (mic4 raw) (mic1 raw) (2 * (mic4 raw : List ℝ).length) d)
    (present : bin (mic4 raw) (2 * (mic4 raw : List ℝ).length) 1 ≠ 0) :
    (OnAxis (realDsp gccPhat) raw ↔ |d| ≤ 9) ∧
      (|d| ≤ 9 → rawErrorDeg (realDsp gccPhat) raw =
        Real.arcsin (d * (343 / 3616)) * 180 / Real.pi) := by
  have same : (mic1 raw : List ℝ).length = (mic4 raw : List ℝ).length := by
    simp only [mic1, mic4, List.length_map]
    exact channel_length 0 3 _
  have found : gccPhat (mic1 raw) (mic4 raw) = d / sampleRate :=
    gccPhat_peak (whitened_length same) long near
      fun t close other => shifted_peak same long near shifted present t close other
  have measured : (realDsp gccPhat).gccPhat (mic1 raw) (mic4 raw) * speedOfSound / micSpacing =
      d * (343 / 3616) := by
    change gccPhat (mic1 raw) (mic4 raw) * speedOfSound / micSpacing = _
    rw [found, sampleRate, speedOfSound, micSpacing]
    ring
  have size : |(d : ℝ) * (343 / 3616)| = ((|d| : ℤ) : ℝ) * (343 / 3616) := by
    rw [abs_mul, Int.cast_abs, abs_of_nonneg (by norm_num : (0 : ℝ) ≤ 343 / 3616)]
  constructor
  · rw [OnAxis, ratio, measured, clip_within, size]
    constructor
    · intro accepted
      by_contra far
      have ten : ((10 : ℤ) : ℝ) ≤ ((|d| : ℤ) : ℝ) := Int.cast_le.mpr (by omega)
      push_cast at ten accepted
      linarith
    · intro close
      have nine : ((|d| : ℤ) : ℝ) ≤ ((9 : ℤ) : ℝ) := Int.cast_le.mpr close
      push_cast at nine ⊢
      linarith
  · intro close
    have nine : ((|d| : ℤ) : ℝ) ≤ ((9 : ℤ) : ℝ) := Int.cast_le.mpr close
    have inside : |(d : ℝ) * (343 / 3616)| ≤ 1 := by
      rw [size]
      push_cast at nine ⊢
      linarith
    obtain ⟨low, high⟩ := abs_le.mp inside
    rw [rawErrorDeg, ratio, measured, clip, max_eq_right low, min_eq_right high]
    rfl

end SoqTracker.GccPhat
