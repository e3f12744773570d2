import SoqTracker.PrunedHistory
import SoqTracker.DisplayArithmetic
import SoqTracker.Averages
import Mathlib.Data.List.DropRight
import Mathlib.Data.List.ReduceOption

/- The audio dot of the dashboard. It follows the headings by an exponential
   average that starts over after every packet without a heading. -/
namespace SoqTracker.AudioDot
open ExtendedNumber Json Controller Runs TelemetryBridge DatagramEffects TelemetryLink
open PrunedHistory DisplayArithmetic Averages

variable {α : Type} [Field α] [LinearOrder α] [FloorRing α]

/- The dot alone: what its fields do with one heading after another. -/

structure Dot (α : Type) where
  heading : Option (Number α)
  place : Number α
  known : Bool

def dotOf (b : Bridge α) : Dot α :=
  ⟨b.trackerHeadingDeg, b.audioDotNormalized, b.audioDotInitialized⟩

def target (heading : Number α) : Number α :=
  headingToAudioDotNormalized (heading.add (.finite headingOffsetDeg))

/-- Headings since the last packet without one, oldest first. -/
def sinceLoss (headings : List (Option (Number α))) : List (Number α) :=
  (headings.rtakeWhile Option.isSome).reduceOption

def placeAfter : List (Number α) → Number α
  | [] => .finite 0
  | first :: later =>
      later.foldl (fun place heading => ema audioDotPositionEmaAlpha (target heading) place)
        (target first)

/-- The dot after any headings: only those since the last loss count. -/
structure Follows (headings : List (Option (Number α))) (dot : Dot α) : Prop where
  heading : dot.heading = headings.getLast?.getD none
  known : dot.known = headings.getLast?.any Option.isSome
  place : dot.place = placeAfter (sinceLoss headings)

omit [Field α] [LinearOrder α] [FloorRing α] in
theorem sinceLoss_none (headings : List (Option (Number α))) :
    sinceLoss (headings ++ [none]) = [] := by
  simp [sinceLoss]

omit [Field α] [LinearOrder α] [FloorRing α] in
theorem sinceLoss_some (headings : List (Option (Number α))) (h : Number α) :
    sinceLoss (headings ++ [some h]) = sinceLoss headings ++ [h] := by
  simp [sinceLoss, List.reduceOption_append]

omit [Field α] [LinearOrder α] [FloorRing α] in
theorem sinceLoss_front (front later : List (Option (Number α))) :
    sinceLoss (front ++ none :: later) = sinceLoss (none :: later) := by
  induction later using List.reverseRecOn with
  | nil => rw [sinceLoss_none]; rfl
  | append_singleton later heading ih =>
    cases heading with
    | none =>
      rw [← List.cons_append, ← List.append_assoc, sinceLoss_none, sinceLoss_none]
    | some h =>
      rw [← List.cons_append, ← List.append_assoc, sinceLoss_some, sinceLoss_some, ih]

omit [Field α] [LinearOrder α] [FloorRing α] in
theorem sinceLoss_filled {headings : List (Option (Number α))} :
    sinceLoss headings ≠ [] ↔ headings.getLast?.any Option.isSome = true := by
  induction headings using List.reverseRecOn with
  | nil => simp [sinceLoss]
  | append_singleton headings heading ih =>
    cases heading with
    | none => simp [sinceLoss_none]
    | some h => simp [sinceLoss_some]

theorem placeAfter_append {headings : List (Number α)} (filled : headings ≠ []) (h : Number α) :
    placeAfter (headings ++ [h]) =
      ema audioDotPositionEmaAlpha (target h) (placeAfter headings) := by
  cases headings with
  | nil => exact absurd rfl filled
  | cons first later => simp [placeAfter]

/- The dot of the dashboard. -/

theorem follows_start (start : α) : Follows [] (dotOf (TelemetryBridge.initial start)) :=
  ⟨rfl, rfl, rfl⟩

theorem applied_none {b : Bridge α} {r : Reading α} (lost : r.heading = none) :
    dotOf (applied b r) = ⟨none, .finite 0, false⟩ := by
  simp [applied, shown, moveDot, dotOf, lost]

theorem moveDot_some (previous : Option (Number α)) {b : Bridge α} {h : Number α}
    (given : b.trackerHeadingDeg = some h) :
    dotOf (moveDot previous b) =
      if previous.isNone ∨ ¬ b.audioDotInitialized then ⟨some h, target h, true⟩
      else ⟨some h, ema audioDotPositionEmaAlpha (target h) b.audioDotNormalized,
        b.audioDotInitialized⟩ := by
  simp only [moveDot, given]
  by_cases fresh : previous.isNone ∨ ¬ b.audioDotInitialized
  · rw [if_pos fresh, if_pos fresh]
    simp only [dotOf, target]
  · rw [if_neg fresh, if_neg fresh]
    simp only [dotOf, target]

theorem applied_some {b : Bridge α} {r : Reading α} {h : Number α} (given : r.heading = some h) :
    dotOf (applied b r) =
      if (dotOf b).heading.isNone ∨ ¬ (dotOf b).known then ⟨some h, target h, true⟩
      else ⟨some h, ema audioDotPositionEmaAlpha (target h) (dotOf b).place, (dotOf b).known⟩ :=
  moveDot_some b.trackerHeadingDeg given

theorem follows_step {headings : List (Option (Number α))} {b : Bridge α}
    (follows : Follows headings (dotOf b)) (r : Reading α) :
    Follows (headings ++ [r.heading]) (dotOf (applied b r)) := by
  cases given : r.heading with
  | none =>
    rw [applied_none given]
    constructor
    · simp
    · simp
    · rw [sinceLoss_none]
      rfl
  | some h =>
    have filled := @sinceLoss_filled α headings
    rw [applied_some given, follows.heading, follows.known, follows.place]
    by_cases running : headings.getLast?.any Option.isSome = true
    · have last : (headings.getLast?.getD none).isNone = false := by
        cases newest : headings.getLast? with
        | none => simp [newest] at running
        | some heading => simpa [newest] using running
      rw [if_neg (by simp [last, running])]
      constructor
      · simp
      · simpa using running
      · rw [sinceLoss_some, placeAfter_append (filled.mpr running)]
    · have fresh : sinceLoss headings = [] := by
        by_contra some_left
        exact running (filled.mp some_left)
      rw [if_pos (Or.inr (by simpa using running))]
      constructor
      · simp
      · simp
      · rw [sinceLoss_some, fresh]
        rfl

theorem follows_readings {headings : List (Option (Number α))} {b : Bridge α}
    (follows : Follows headings (dotOf b)) (readings : List (Reading α)) :
    Follows (headings ++ readings.map fun r => r.heading) (dotOf (readings.foldl applied b)) := by
  induction readings generalizing headings b with
  | nil => simpa using follows
  | cons r readings ih =>
    have later := ih (follows_step follows r)
    rw [List.append_assoc] at later
    exact later

omit [Field α] [FloorRing α] in
theorem prune_dot (cutoff : α) (b : Bridge α) : dotOf (prune cutoff b) = dotOf b := by
  unfold prune
  split
  · rfl
  · rfl

theorem follows_run {desktop : Desktop α} {start : α}
    {ticks : List (Transition (Dashboard α) (Tick α))} {d : Dashboard α}
    (run : Run (tick desktop) (dashboard start) ticks d) {readings : List (Reading α)}
    (whole : ReadWhole desktop (arrivals ticks) readings) :
    Follows (readings.map fun r => r.heading) (dotOf d.bridge) := by
  have preserved : ∀ (ticks : List (Transition (Dashboard α) (Tick α))) (readings : List (Reading α))
      (b : Bridge α) (t : Tick α) (more : List (Reading α)),
      Follows (readings.map fun r => r.heading) (dotOf b) → ∀ before after : Dashboard α,
        Follows ((readings ++ more).map fun r => r.heading)
          (dotOf (prune (t.now - timelineSeconds) (more.foldl applied b))) := by
    intro ticks readings b t more follows before after
    rw [prune_dot, List.map_append]
    exact follows_readings follows more
  exact (whole_run (follows_start start) preserved run whole).1

theorem follows_drain {desktop : Desktop α} {start : α}
    {ticks : List (Transition (Dashboard α) (Tick α))} {d : Dashboard α}
    (run : Run (tick desktop) (dashboard start) ticks d) {done : List (List UInt8)}
    {readings : List (Reading α)} (whole : ReadWhole desktop (arrivals ticks ++ done) readings) :
    Follows (readings.map fun r => r.heading) (dotOf (drain desktop done d.bridge).1) := by
  obtain ⟨old, new, rfl, oldWhole, newWhole⟩ := whole_split whole
  rw [drain_whole newWhole, List.map_append]
  exact follows_readings (follows_run run oldWhole) new

/- Where the dot is. -/

variable [IsStrictOrderedRing α]

theorem targets_finite {headings : List (Number α)} (finite : ∀ h ∈ headings, h.IsFinite) :
    ∃ values : List α, headings.map target = values.map Number.finite ∧
      ∀ v ∈ values, v ∈ Set.Icc (-1 : α) 1 := by
  induction headings with
  | nil => exact ⟨[], rfl, by simp⟩
  | cons h headings ih =>
    obtain ⟨values, same, inside⟩ := ih fun g mem => finite g (by simp [mem])
    have here := finite h (by simp)
    cases h with
    | finite x =>
      obtain ⟨t, place, drawn⟩ := audioDot_finite (x + headingOffsetDeg)
      refine ⟨t :: values, ?_, ?_⟩
      · rw [List.map_cons, List.map_cons, same, target, Number.add_finite, drawn]
      · intro v mem
        rcases List.mem_cons.mp mem with rfl | later
        · exact place
        · exact inside v later
    | posInf => exact absurd here (by simp [Number.IsFinite])
    | negInf => exact absurd here (by simp [Number.IsFinite])
    | nan => exact absurd here (by simp [Number.IsFinite])

omit [FloorRing α] [IsStrictOrderedRing α] in
theorem ema_finite (a x y : α) : ema a (.finite x) (.finite y) = .finite (a * x + (1 - a) * y) := by
  simp [ema]

omit [IsStrictOrderedRing α] in
theorem placeAfter_average {headings : List (Number α)} {first : α} {values : List α}
    (drawn : headings.map target = (first :: values).map Number.finite) :
    placeAfter headings = .finite (average audioDotPositionEmaAlpha first values.reverse) := by
  cases headings with
  | nil => simp at drawn
  | cons h headings =>
    rw [List.map_cons, List.map_cons, List.cons.injEq] at drawn
    obtain ⟨start, later⟩ := drawn
    rw [placeAfter, start]
    clear start
    induction headings generalizing first values with
    | nil =>
      have none : values = [] := by simpa using later.symm
      rw [none]
      rfl
    | cons g headings ih =>
      cases values with
      | nil => simp at later
      | cons v values =>
        rw [List.map_cons, List.map_cons, List.cons.injEq] at later
        rw [List.foldl_cons, later.1, ema_finite, ih later.2, List.reverse_cons, average_append]
        rfl

theorem placeAfter_between {headings : List (Number α)} (filled : headings ≠ [])
    (finite : ∀ h ∈ headings, h.IsFinite) :
    ∃ x low high : α, placeAfter headings = .finite x ∧ .finite low ∈ headings.map target ∧
      .finite high ∈ headings.map target ∧ low ≤ x ∧ x ≤ high ∧ -1 ≤ x ∧ x ≤ 1 := by
  obtain ⟨values, drawn, inside⟩ := targets_finite finite
  cases values with
  | nil => exact absurd (by simpa using drawn) filled
  | cons first values =>
    have within : ∀ lower upper : α, (∀ v ∈ first :: values, v ∈ Set.Icc lower upper) →
        average audioDotPositionEmaAlpha first values.reverse ∈ Set.Icc lower upper := by
      intro lower upper all
      apply average_mem
      · unfold audioDotPositionEmaAlpha; norm_num
      · unfold audioDotPositionEmaAlpha; norm_num
      · exact all first (by simp)
      · intro v mem
        exact all v (by simp [List.mem_reverse.mp mem])
    obtain ⟨low, lowMem, high, highMem, all⟩ :=
      exists_extremes (List.cons_ne_nil first values)
    refine ⟨_, low, high, placeAfter_average drawn, ?_, ?_, (within low high all).1,
      (within low high all).2, (within (-1) 1 inside).1, (within (-1) 1 inside).2⟩
    · rw [drawn]
      exact List.mem_map_of_mem lowMem
    · rw [drawn]
      exact List.mem_map_of_mem highMem

def targets (readings : List (Reading α)) : List (Number α) :=
  (sinceLoss (readings.map fun r => r.heading)).map target

def Heard (readings : List (Reading α)) : Prop := ∃ r ∈ readings.getLast?, r.heading.isSome

structure DotLaw (readings : List (Reading α)) (b : Bridge α) : Prop where
  known : b.audioDotInitialized = true ↔ Heard readings
  cleared : ¬ Heard readings → b.audioDotNormalized = .finite 0
  between : Heard readings → ∃ x low high : α, b.audioDotNormalized = .finite x ∧
    .finite low ∈ targets readings ∧ .finite high ∈ targets readings ∧
      low ≤ x ∧ x ≤ high ∧ -1 ≤ x ∧ x ≤ 1
  snaps : ∀ earlier r h, readings = earlier ++ [r] → r.heading = some h → ¬ Heard earlier →
    b.audioDotNormalized = target h

omit [Field α] [LinearOrder α] [FloorRing α] [IsStrictOrderedRing α] in
theorem heard_iff (readings : List (Reading α)) : Heard readings ↔
    (readings.map fun r => r.heading).getLast?.any Option.isSome = true := by
  rw [List.getLast?_map, Heard]
  cases readings.getLast? with
  | none => simp
  | some r => simp

omit [Field α] [LinearOrder α] [FloorRing α] [IsStrictOrderedRing α] in
theorem sinceLoss_mem {headings : List (Option (Number α))} {h : Number α}
    (mem : h ∈ sinceLoss headings) : some h ∈ headings :=
  (List.rtakeWhile_suffix _ headings).subset (List.reduceOption_mem_iff.mp mem)

theorem follows_law {readings : List (Reading α)} {b : Bridge α}
    (follows : Follows (readings.map fun r => r.heading) (dotOf b))
    (finite : ∀ r ∈ readings, ∀ h ∈ r.heading, h.IsFinite) : DotLaw readings b := by
  have place : b.audioDotNormalized = placeAfter (sinceLoss (readings.map fun r => r.heading)) :=
    follows.place
  constructor
  case known =>
    rw [heard_iff, ← follows.known]
    rfl
  case cleared =>
    intro lost
    rw [heard_iff, ← sinceLoss_filled, not_not] at lost
    rw [place, lost]
    rfl
  case between =>
    intro heard
    rw [heard_iff, ← sinceLoss_filled] at heard
    rw [place]
    apply placeAfter_between heard
    intro h mem
    obtain ⟨r, inside, given⟩ := List.mem_map.mp (sinceLoss_mem mem)
    exact finite r inside h given
  case snaps =>
    intro earlier r h split given lost
    rw [heard_iff, ← sinceLoss_filled, not_not] at lost
    rw [place, split, List.map_append, List.map_singleton, given, sinceLoss_some, lost]
    rfl

/-- After each packet of any run, in any batching, the dot's fields say what they
    should; and two runs agree on the dot when they agree since a loss. -/
theorem dot_law {desktop : Desktop α} {start : α}
    {ticks : List (Transition (Dashboard α) (Tick α))} {d : Dashboard α}
    (run : Run (tick desktop) (dashboard start) ticks d) {done : List (List UInt8)}
    {readings : List (Reading α)} (whole : ReadWhole desktop (arrivals ticks ++ done) readings)
    (finite : ∀ r ∈ readings, ∀ h ∈ r.heading, h.IsFinite) :
    DotLaw readings (drain desktop done d.bridge).1 ∧
    ∀ (start' : α) (ticks' : List (Transition (Dashboard α) (Tick α))) (d' : Dashboard α)
      (done' : List (List UInt8)) (readings' : List (Reading α)),
      Run (tick desktop) (dashboard start') ticks' d' →
      ReadWhole desktop (arrivals ticks' ++ done') readings' →
      ∀ front front' lost lost' later, readings = front ++ lost :: later →
        readings' = front' ++ lost' :: later → lost.heading = none → lost'.heading = none →
        (drain desktop done d.bridge).1.audioDotNormalized =
          (drain desktop done' d'.bridge).1.audioDotNormalized := by
  have follows := follows_drain run whole
  refine ⟨follows_law follows finite, ?_⟩
  intro start' ticks' d' done' readings' run' whole' front front' lost lost' later split split'
    loss loss'
  have follows' := follows_drain run' whole'
  have place := follows.place
  have place' := follows'.place
  rw [split, List.map_append, List.map_cons, loss, sinceLoss_front] at place
  rw [split', List.map_append, List.map_cons, loss', sinceLoss_front] at place'
  exact place.trans place'.symm

def headingDatagram (heading : String) : List UInt8 :=
  Utf8.encode ("\x7b\"timestamp\": 4, \"state\": \"IDLE\", \"measurement_valid\": false, ".toList ++
    "\"rms\": 8000000, \"smoothed_error_deg\": 2.5, \"tracker_heading_deg\": ".toList ++
    heading.toList ++ ['\x7d'])

/-- A packet at -34 degrees, and then one at 17 in the call after it. -/
theorem dot_between_two_headings :
    ∃ (ticks : List (Transition (Dashboard ℚ) (Tick ℚ))) (d : Dashboard ℚ)
      (readings : List (Reading ℚ)), Run (tick benchDesktop) (dashboard 3) ticks d ∧
      ReadWhole benchDesktop (arrivals ticks ++ [headingDatagram "17"]) readings ∧
      Heard readings ∧ DotLaw readings (drain benchDesktop [headingDatagram "17"] d.bridge).1 := by
  obtain ⟨first, moved⟩ : ∃ first, tick benchDesktop (dashboard 3) ⟨[headingDatagram "-34"], 6⟩ =
    some first := ⟨_, rfl⟩
  have run := Run.start.step moved
  have whole : ReadWhole benchDesktop
      (arrivals [⟨dashboard 3, ⟨[headingDatagram "-34"], (6 : ℚ)⟩, first⟩] ++
        [headingDatagram "17"]) _ :=
    .cons (bench_read (headingDatagram "-34") (by decide +kernel))
      (.cons (bench_read (headingDatagram "17") (by decide +kernel)) .nil)
  have heard : Heard [benchReading (headingDatagram "-34") (by decide +kernel),
      benchReading (headingDatagram "17") (by decide +kernel)] :=
    ⟨_, rfl, by decide +kernel⟩
  exact ⟨_, _, _, run, whole, heard, (dot_law run whole (by decide +kernel)).1⟩

end SoqTracker.AudioDot
