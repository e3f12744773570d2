import SoqTracker.GccPhat

/- What happens to a bearing when the outer microphones change places. The whitened
   spectrum is conjugated, so the correlation runs backwards in time, and the lags are
   cut out evenly about zero. -/
namespace SoqTracker.SwappedMicrophones
open TrackerLoop DiscreteFourier GccPhat ComplexConjugate
open AngleRange (realDsp)

def OnePeak (xs : List ℝ) : Prop :=
  ∃ i < xs.length, ∀ j < xs.length, j ≠ i → xs.getD j 0 < xs.getD i 0

/- The correlation. -/

theorem whiten_conj (c : ℂ) : whiten (conj c) = conj (whiten c) := by
  rw [whiten, whiten, map_div₀, Complex.conj_ofReal, Complex.norm_conj]

theorem whitened_swap (sig refsig : List ℝ) :
    whitened refsig sig = (whitened sig refsig).map conj := by
  rw [whitened, whitened, Nat.add_comm refsig.length, List.map_map, List.map_zipWith,
    List.map_zipWith, List.zipWith_comm]
  congr 1
  funext s r
  rw [Function.comp_apply, ← whiten_conj, map_mul, Complex.conj_conj, mul_comm]

section Blocks
variable {sig refsig : List ℝ}

theorem nearLags_length (same : sig.length = refsig.length) (long : 12 ≤ refsig.length) :
    (nearLags (irfft (whitened sig refsig))).length = 23 := by
  rw [nearLags_irfft (whitened_length same) long, List.length_map, List.length_range]

theorem nearLags_get (same : sig.length = refsig.length) (long : 12 ≤ refsig.length) {i : ℕ}
    (inside : i < 23) : (nearLags (irfft (whitened sig refsig))).getD i 0 =
      signal (whitened sig refsig) (i - 11) := by
  rw [nearLags_irfft (whitened_length same) long,
    List.getD_eq_getElem _ _ (by rwa [List.length_map, List.length_range]), List.getElem_map,
    List.getElem_range]

theorem onePeak_iff (same : sig.length = refsig.length) (long : 12 ≤ refsig.length) :
    OnePeak (nearLags (irfft (whitened sig refsig))) ↔
      ∃ d : ℤ, |d| ≤ 11 ∧ ∀ t : ℤ, |t| ≤ 11 → t ≠ d →
        signal (whitened sig refsig) t < signal (whitened sig refsig) d := by
  have lag : ∀ t : ℤ, |t| ≤ 11 → (t + 11).toNat < 23 ∧ (((t + 11).toNat : ℕ) : ℤ) - 11 = t := by
    intro t near
    rw [abs_le] at near
    omega
  rw [OnePeak, nearLags_length same long]
  constructor
  · rintro ⟨i, inside, peak⟩
    refine ⟨i - 11, abs_le.mpr ⟨by omega, by omega⟩, ?_⟩
    intro t near other
    obtain ⟨placed, back⟩ := lag t near
    have lower := peak (t + 11).toNat placed (by omega)
    rwa [nearLags_get same long placed, nearLags_get same long inside, back] at lower
  · rintro ⟨d, near, peak⟩
    obtain ⟨placed, back⟩ := lag d near
    refine ⟨(d + 11).toNat, placed, ?_⟩
    intro j inside other
    rw [nearLags_get same long inside, nearLags_get same long placed, back]
    exact peak _ (abs_le.mpr ⟨by omega, by omega⟩) (by omega)

theorem signal_swap (same : sig.length = refsig.length) (long : 12 ≤ refsig.length) (t : ℤ) :
    signal (whitened refsig sig) t = signal (whitened sig refsig) (-t) := by
  have positive : NeZero (2 * refsig.length) := ⟨by omega⟩
  rw [whitened_swap, signal_conj (whitened_length same)]

/-- The delay changes its sign. -/
theorem gccPhat_swap (same : sig.length = refsig.length) (long : 12 ≤ refsig.length)
    (one : OnePeak (nearLags (irfft (whitened sig refsig)))) :
    gccPhat refsig sig = -gccPhat sig refsig := by
  obtain ⟨d, near, peak⟩ := (onePeak_iff same long).mp one
  have forward := gccPhat_peak (whitened_length same) long near peak
  have backward : gccPhat refsig sig = ((-d : ℤ) : ℝ) / sampleRate := by
    apply gccPhat_peak (whitened_length same.symm) (by omega) (by rwa [abs_neg])
    intro t close other
    rw [signal_swap same long, signal_swap same long, neg_neg]
    exact peak (-t) (by rwa [abs_neg]) (by omega)
  rw [forward, backward]
  push_cast
  ring

end Blocks

/- The bearing. -/

theorem clip_neg (x : ℝ) : clip (-x) (-1) 1 = -clip x (-1) 1 := by
  have inner : max (-1) (-x) = -min 1 x := (max_neg_neg 1 x)
  have outer : min 1 (-min 1 x) = -max (-1) (min 1 x) := by
    rw [← min_neg_neg, neg_neg]
  have order : max (-1) (min 1 x) = min 1 (max (-1) x) := by
    rw [max_min_distrib_left, max_eq_right (by norm_num : (-1 : ℝ) ≤ 1)]
  rw [clip, clip, inner, outer, order]

theorem ratio_swap (dsp : Dsp ℝ) {raw raw' : List UInt8}
    (first : mic1 raw' = (mic4 raw : List ℝ)) (second : mic4 raw' = (mic1 raw : List ℝ))
    (delay : dsp.gccPhat (mic4 raw) (mic1 raw) = -dsp.gccPhat (mic1 raw) (mic4 raw)) :
    ratio dsp raw' = -ratio dsp raw := by
  have turned : -dsp.gccPhat (mic1 raw) (mic4 raw) * speedOfSound / micSpacing =
      -(dsp.gccPhat (mic1 raw) (mic4 raw) * speedOfSound / micSpacing) := by
    ring
  rw [ratio, ratio, first, second, delay, turned, clip_neg]

/-- Swapping the microphones keeps the decision to accept a block and mirrors its
    bearing. -/
theorem swapped_microphones {a b : List ℝ} (same : a.length = b.length) (long : 12 ≤ a.length)
    (one : OnePeak (nearLags (irfft (whitened a b)))) :
    gccPhat b a = -gccPhat a b ∧
      ∀ raw raw' : List UInt8, mic1 raw = a → mic4 raw = b → mic1 raw' = b → mic4 raw' = a →
        (OnAxis (realDsp gccPhat) raw' ↔ OnAxis (realDsp gccPhat) raw) ∧
          rawErrorDeg (realDsp gccPhat) raw' = -rawErrorDeg (realDsp gccPhat) raw := by
  have delay := gccPhat_swap same (by omega) one
  refine ⟨delay, ?_⟩
  rintro raw raw' rfl rfl first second
  have turned := ratio_swap (realDsp gccPhat) first second delay
  constructor
  · rw [OnAxis, OnAxis, turned, abs_neg]
  · rw [rawErrorDeg, rawErrorDeg, turned]
    simp only [realDsp, Real.arcsin_neg]
    ring

theorem swapped_pulses : gccPhat (pulse 3) (pulse 0) = -gccPhat (pulse 0) (pulse 3) ∧
    ∀ raw raw' : List UInt8, mic1 raw = pulse 0 → mic4 raw = pulse 3 → mic1 raw' = pulse 3 →
      mic4 raw' = pulse 0 →
      (OnAxis (realDsp gccPhat) raw' ↔ OnAxis (realDsp gccPhat) raw) ∧
        rawErrorDeg (realDsp gccPhat) raw' = -rawErrorDeg (realDsp gccPhat) raw := by
  have same : (pulse 0).length = (pulse 3).length := by rw [pulse_length, pulse_length]
  refine swapped_microphones same (pulse_length 0).ge
    ((onePeak_iff same (pulse_length 3).ge).mpr ⟨-3, by decide, ?_⟩)
  apply shifted_peak same (pulse_length 3).ge (by decide)
  · rw [pulse_length]
    exact pulse_shifted (by omega) (by omega)
  · rw [pulse_length]
    exact pulse_present (by omega)

end SoqTracker.SwappedMicrophones
