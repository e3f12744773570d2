import SoqTracker.TrackerLoop
import SoqTracker.Averages

/- The smoothed error of a run: an exponential average over every block accepted
   so far, which every packet carries. -/
namespace SoqTracker.SmoothedError
open ExtendedNumber TrackerLoop Runs Controller Averages

variable {α : Type} [Field α] [LinearOrder α]

def acceptedErrors (dsp : Dsp α) (history : List (Block α)) : List α :=
  (history.filter fun b => Accepted dsp b.input.raw).map fun b => rawErrorDeg dsp b.input.raw

theorem accepted_append (dsp : Dsp α) (newer older : List (Block α)) :
    acceptedErrors dsp (newer ++ older) = acceptedErrors dsp newer ++ acceptedErrors dsp older := by
  simp [acceptedErrors]

variable [FloorRing α] {py : Python α} {dsp : Dsp α}

theorem smoothed_run {history : List (Block α)} {tracker : Tracker α}
    (run : Run (next py dsp) initial history tracker) :
    tracker.smoothedError = average errorEmaAlpha 0 (acceptedErrors dsp history) := by
  induction run with
  | start => rfl
  | step earlier moved ih =>
    obtain ⟨imu, writes, packets, _, _, _, _, move⟩ := next_moved moved
    cases move with
    | quiet low sends =>
      have refused : ¬ Accepted dsp _ := fun accepted => low accepted.1
      simpa [acceptedErrors, afterQuiet, refused] using ih
    | offAxis aside =>
      have refused : ¬ Accepted dsp _ := fun accepted => aside.2 accepted.2
      simpa [acceptedErrors, refused] using ih
    | tracking accepted sends =>
      simp only [acceptedErrors, List.filter_cons, accepted, decide_true, if_true, List.map_cons,
        average, afterTracking, smoothed]
      rw [ih]
      rfl

theorem packet_errors {b : Block α} (moved : next py dsp b.before b.input = some b.after) :
    ∀ packet ∈ blockPackets py dsp b, packet.1.smoothedErrorDeg = b.after.smoothedError ∧
      ∀ r ∈ packet.1.rawErrorDeg,
        Accepted dsp b.input.raw ∧ r = rawErrorDeg dsp b.input.raw := by
  obtain ⟨imu, writes, packets, _, _, _, sends, move⟩ := next_moved moved
  rw [blockPackets, sends]
  generalize b.after = tracker' at move ⊢
  intro packet mem
  cases move with
  | quiet low sent =>
    rw [List.mem_singleton.mp mem]
    exact ⟨rfl, by simp [quietPacket]⟩
  | offAxis aside => simp at mem
  | tracking accepted sent =>
    rw [List.mem_singleton.mp mem]
    refine ⟨rfl, ?_⟩
    intro r given
    exact ⟨accepted, (Option.some.inj given).symm⟩

end SoqTracker.SmoothedError
