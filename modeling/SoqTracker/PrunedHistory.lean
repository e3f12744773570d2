import SoqTracker.TelemetryLink

/- The history that the chart is drawn from. Only its first entry is tested for
   expiry, which is enough as long as the packets come in the order of their
   times. -/
namespace SoqTracker.PrunedHistory
open ExtendedNumber Json Controller Runs TelemetryBridge DatagramEffects TelemetryLink

variable {α : Type} [LinearOrder α]

/- Order of times, not-a-number aside. -/

theorem le_lower {c c' : α} (lower : c ≤ c') {x : Number α}
    (above : (Number.finite c').le x = true) : (Number.finite c).le x = true := by
  cases x with
  | finite x => simpa [Number.le] using lower.trans (by simpa [Number.le] using above)
  | posInf => rfl
  | negInf => simp [Number.le] at above
  | nan => simp [Number.le] at above

theorem le_later {c : α} {x y : Number α} (above : (Number.finite c).le x = true)
    (order : x.le y = true) : (Number.finite c).le y = true := by
  cases x with
  | finite x =>
    cases y with
    | finite y =>
      simp only [Number.le, decide_eq_true_eq] at above order ⊢
      exact above.trans order
    | posInf => rfl
    | negInf => simp [Number.le] at order
    | nan => simp [Number.le] at order
  | posInf =>
    cases y with
    | posInf => rfl
    | finite y => simp [Number.le] at order
    | negInf => simp [Number.le] at order
    | nan => simp [Number.le] at order
  | negInf => simp [Number.le] at above
  | nan => simp [Number.le] at above

theorem not_lt_le {c : α} {x : Number α} (known : ¬ x.IsNan) (late : x.lt (.finite c) = false) :
    (Number.finite c).le x = true := by
  cases x with
  | finite x => simpa [Number.le] using late
  | posInf => rfl
  | negInf => simp [Number.lt] at late
  | nan => exact absurd trivial known

/- Entries that have not expired. -/

def live (cutoff : α) (points : List (HistoryPoint α)) : List (HistoryPoint α) :=
  points.filter fun point => (Number.finite cutoff).le point.timestamp

def InOrder (points : List (HistoryPoint α)) : Prop :=
  (∀ point ∈ points, ¬ point.timestamp.IsNan) ∧
    points.Pairwise fun earlier later => earlier.timestamp.le later.timestamp = true

instance (points : List (HistoryPoint α)) : Decidable (InOrder points) := by
  unfold InOrder; infer_instance

theorem live_live {c c' : α} (later : c ≤ c') (points : List (HistoryPoint α)) :
    live c' (live c points) = live c' points := by
  unfold live
  rw [List.filter_filter]
  apply List.filter_congr
  intro point _
  by_cases above : (Number.finite c').le point.timestamp = true
  · simp [above, le_lower later above]
  · simp [above]

theorem live_append (c : α) (front back : List (HistoryPoint α)) :
    live c (front ++ back) = live c front ++ live c back := List.filter_append ..

theorem live_headed {c : α} {points : List (HistoryPoint α)} (ordered : InOrder points)
    (first : ∀ point ∈ points.head?, (Number.finite c).le point.timestamp = true) :
    live c points = points := by
  apply List.filter_eq_self.mpr
  intro point mem
  cases points with
  | nil => simp at mem
  | cons head points =>
    have fresh := first head rfl
    rcases List.mem_cons.mp mem with rfl | later
    · exact fresh
    · exact le_later fresh ((List.pairwise_cons.mp ordered.2).1 point later)

theorem prune_live {c : α} {b : Bridge α} (ordered : InOrder b.history) :
    (prune c b).history = live c b.history := by
  unfold prune timedOut
  cases entries : b.history with
  | nil => simp [entries, live]
  | cons point points =>
    rw [entries] at ordered
    by_cases early : point.timestamp.lt (.finite c) = true
    · simp [early, live]
    · have late : point.timestamp.lt (.finite c) = false := by simpa using early
      have known := ordered.1 point (by simp)
      have fresh : ∀ p ∈ (point :: points).head?, (Number.finite c).le p.timestamp = true := by
        intro p mem
        rw [← Option.some.inj mem]
        exact not_lt_le known late
      rw [live_headed ordered fresh]
      simp [late, entries]

theorem inOrder_sublist {points kept : List (HistoryPoint α)} (ordered : InOrder points)
    (part : kept.Sublist points) : InOrder kept :=
  ⟨fun point mem => ordered.1 point (part.subset mem), ordered.2.sublist part⟩

/- Polls of datagrams that are all read whole. -/

variable [Field α] [FloorRing α]

theorem drain_whole {desktop : Desktop α} {waiting : List (List UInt8)} {readings : List (Reading α)}
    (whole : ReadWhole desktop waiting readings) (b : Bridge α) :
    drain desktop waiting b = (readings.foldl applied b, [], none) := by
  induction whole generalizing b with
  | nil => rfl
  | cons read rest ih =>
    rename_i payload reading waiting readings
    rcases receive_spec desktop payload b with ⟨reading', read', received⟩ | ⟨_, _, raised, _⟩
    · have same : reading' = reading := Except.ok.inj (read'.symm.trans read)
      rw [same] at received
      simp only [drain, received]
      exact ih (applied b reading)
    · rw [read] at raised
      simp at raised

theorem tick_whole {desktop : Desktop α} {b : Bridge α} {t : Tick α} {readings : List (Reading α)}
    (whole : ReadWhole desktop t.arrived readings) :
    tick desktop ⟨b, []⟩ t =
      some ⟨prune (t.now - timelineSeconds) (readings.foldl applied b), []⟩ := by
  simp only [tick, List.nil_append, pollSocket, drain_whole whole b]

omit [FloorRing α] in
theorem whole_split {desktop : Desktop α} {front back : List (List UInt8)}
    {readings : List (Reading α)} (whole : ReadWhole desktop (front ++ back) readings) :
    ∃ old new, readings = old ++ new ∧ ReadWhole desktop front old ∧ ReadWhole desktop back new :=
  ⟨_, _, (List.take_append_drop front.length readings).symm,
    (List.forall₂_take_append readings front back whole.flip).flip,
    (List.forall₂_drop_append readings front back whole.flip).flip⟩

/-- Induction over the ticks of a run whose datagrams are all read whole. -/
theorem whole_run {desktop : Desktop α} {start : α}
    {invariant : List (Transition (Dashboard α) (Tick α)) → List (Reading α) → Bridge α → Prop}
    (first : invariant [] [] (TelemetryBridge.initial start))
    (preserved : ∀ ticks readings b t more, invariant ticks readings b →
      ∀ before after, invariant (⟨before, t, after⟩ :: ticks) (readings ++ more)
        (prune (t.now - timelineSeconds) (more.foldl applied b)))
    {ticks : List (Transition (Dashboard α) (Tick α))} {d : Dashboard α}
    (run : Run (tick desktop) (dashboard start) ticks d) {readings : List (Reading α)}
    (whole : ReadWhole desktop (arrivals ticks) readings) :
    invariant ticks readings d.bridge ∧ d.waiting = [] := by
  induction run generalizing readings with
  | start =>
    have none : readings = [] := by simpa [arrivals] using whole
    rw [none]
    exact ⟨first, rfl⟩
  | step earlier moved ih =>
    rename_i older before after t
    rw [arrivals_cons] at whole
    obtain ⟨old, more, split, oldWhole, newWhole⟩ := whole_split whole
    obtain ⟨holds, waiting⟩ := ih oldWhole
    have same : before = ⟨before.bridge, []⟩ := by rw [← waiting]
    have step := tick_whole (b := before.bridge) newWhole
    rw [← same, moved] at step
    rw [split, Option.some.inj step]
    exact ⟨preserved older old before.bridge t more holds before _, rfl⟩

/- The history after each call. -/

def ClockForward (ticks : List (Transition (Dashboard α) (Tick α))) : Prop :=
  ticks.Pairwise fun later earlier => earlier.input.now ≤ later.input.now

instance (ticks : List (Transition (Dashboard α) (Tick α))) : Decidable (ClockForward ticks) := by
  unfold ClockForward; infer_instance

def liveNow (ticks : List (Transition (Dashboard α) (Tick α))) (readings : List (Reading α)) :
    List (HistoryPoint α) :=
  match ticks with
  | [] => []
  | t :: _ => live (t.input.now - timelineSeconds) (readings.map Reading.point)

theorem applied_history (readings : List (Reading α)) (b : Bridge α) :
    (readings.foldl applied b).history = b.history ++ readings.map Reading.point := by
  induction readings generalizing b with
  | nil => simp
  | cons reading readings ih =>
    rw [List.foldl_cons, ih, List.map_cons, applied]
    simp

def HistoryIs (ticks : List (Transition (Dashboard α) (Tick α))) (readings : List (Reading α))
    (b : Bridge α) : Prop :=
  InOrder (readings.map Reading.point) → ClockForward ticks →
    b.history = liveNow ticks readings ∧ (ticks = [] → readings = [])

theorem history_step [IsStrictOrderedRing α] {ticks : List (Transition (Dashboard α) (Tick α))}
    {readings : List (Reading α)} {b : Bridge α} (t : Tick α) (more : List (Reading α))
    (holds : HistoryIs ticks readings b) (before after : Dashboard α) :
    HistoryIs (⟨before, t, after⟩ :: ticks) (readings ++ more)
      (prune (t.now - timelineSeconds) (more.foldl applied b)) := by
  intro ordered clock
  rw [List.map_append] at ordered
  obtain ⟨later, clock⟩ := List.pairwise_cons.mp clock
  obtain ⟨entries, begun⟩ := holds (inOrder_sublist ordered (List.sublist_append_left _ _)) clock
  have kept : b.history.Sublist (readings.map Reading.point) := by
    rw [entries]
    unfold liveNow
    split
    · exact List.nil_sublist _
    · exact List.filter_sublist
  have counted : live (t.now - timelineSeconds) b.history =
      live (t.now - timelineSeconds) (readings.map Reading.point) := by
    rw [entries]
    cases ticks with
    | nil => rw [begun rfl]; rfl
    | cons newest older =>
      have forward := later newest (by simp)
      exact live_live (sub_le_sub_right forward _) _
  have drained := applied_history more b
  have sound : InOrder (more.foldl applied b).history := by
    rw [drained]
    exact inOrder_sublist ordered (kept.append_right _)
  refine ⟨?_, by simp⟩
  rw [prune_live sound, drained, live_append, counted, ← live_append, ← List.map_append]
  rfl

/-- After each call the history is exactly the entries received so far that are
    no older than the call's cutoff, in the order in which they came. -/
theorem pruned_history_exact [IsStrictOrderedRing α] {desktop : Desktop α} {start : α}
    {ticks : List (Transition (Dashboard α) (Tick α))} {d : Dashboard α}
    (run : Run (tick desktop) (dashboard start) ticks d) {readings : List (Reading α)}
    (whole : ReadWhole desktop (arrivals ticks) readings)
    (ordered : InOrder (readings.map Reading.point)) (clock : ClockForward ticks) :
    ∀ t ∈ ticks.head?, d.bridge.history = (readings.map Reading.point).filter fun point =>
      (Number.finite (t.input.now - timelineSeconds)).le point.timestamp := by
  have first : HistoryIs [] [] (TelemetryBridge.initial start) := fun _ _ => ⟨rfl, fun _ => rfl⟩
  obtain ⟨holds, _⟩ := whole_run first
    (fun _ _ _ t more holds before after => history_step t more holds before after) run whole
  intro t newest
  rw [(holds ordered clock).1]
  cases ticks with
  | nil => simp at newest
  | cons u older =>
    rw [← Option.some.inj newest]
    rfl

/- A run on fixed inputs. -/

def lateDatagram : List UInt8 :=
  Utf8.encode ("\x7b\"timestamp\": 15, \"state\": \"IDLE\", \"measurement_valid\": false, ".toList ++
    "\"rms\": 8000000, \"smoothed_error_deg\": 2.5\x7d".toList)

def benchReading (payload : List UInt8) (reads : (read benchDesktop payload).toOption.isSome) :
    Reading ℚ :=
  (read benchDesktop payload).toOption.get reads

theorem bench_read (payload : List UInt8) (reads : (read benchDesktop payload).toOption.isSome) :
    read benchDesktop payload = .ok (benchReading payload reads) := by
  cases found : read benchDesktop payload with
  | error error => simp [found, Except.toOption] at reads
  | ok reading => simp [benchReading, found, Except.toOption]

/-- The entry of time 4 is gone at time 16, when the first window to hold only
    the other one has begun. -/
theorem early_entry_expires :
    ∃ (ticks : List (Transition (Dashboard ℚ) (Tick ℚ))) (d : Dashboard ℚ)
      (readings : List (Reading ℚ)), Run (tick benchDesktop) (dashboard 3) ticks d ∧
      arrivals ticks = [wholeDatagram, lateDatagram] ∧
      ReadWhole benchDesktop (arrivals ticks) readings ∧
      d.bridge.history = (readings.map Reading.point).filter fun point =>
        (Number.finite (16 - timelineSeconds)).le point.timestamp := by
  obtain ⟨first, moved⟩ : ∃ first, tick benchDesktop (dashboard 3) ⟨[wholeDatagram], 6⟩ =
    some first := ⟨_, rfl⟩
  obtain ⟨second, moved'⟩ : ∃ second, tick benchDesktop first ⟨[lateDatagram], 16⟩ =
    some second := ⟨_, rfl⟩
  have run := (Run.start.step moved).step moved'
  have whole : ReadWhole benchDesktop [wholeDatagram, lateDatagram] _ :=
    .cons (bench_read wholeDatagram (by decide +kernel))
      (.cons (bench_read lateDatagram (by decide +kernel)) .nil)
  have forward : ClockForward [⟨first, ⟨[lateDatagram], 16⟩, second⟩,
      ⟨dashboard 3, ⟨[wholeDatagram], (6 : ℚ)⟩, first⟩] := by
    simp only [ClockForward, List.pairwise_cons, List.mem_singleton, forall_eq]
    norm_num
  have told : arrivals [⟨first, ⟨[lateDatagram], 16⟩, second⟩,
      ⟨dashboard 3, ⟨[wholeDatagram], (6 : ℚ)⟩, first⟩] = [wholeDatagram, lateDatagram] := by
    simp [arrivals]
  have ordered : InOrder ([benchReading wholeDatagram (by decide +kernel),
      benchReading lateDatagram (by decide +kernel)].map Reading.point) := by
    decide +kernel
  rw [← told] at whole
  have kept := pruned_history_exact run whole ordered forward _ rfl
  exact ⟨_, _, _, run, told, whole, kept⟩

end SoqTracker.PrunedHistory
