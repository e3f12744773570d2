import SoqTracker.DashboardRuns

/- The dashboard as a mirror of the tracker's packets. What it shows is the newest
   packet it has read, and since when the state has been what it is. -/
namespace SoqTracker.DashboardMirror
open ExtendedNumber Json Controller TrackerLoop Runs TelemetryBridge DatagramEffects PacketReading
open TelemetryLink DashboardRuns

variable {α : Type}

/- Stretches of equal states. -/

section Stretches
variable {State Time : Type}

def StretchSince (log : List (State × Time)) (state : State) (since : Time) : Prop :=
  ∃ earlier later, log = earlier ++ (state, since) :: later ∧ (∀ entry ∈ later, entry.1 = state) ∧
    ∀ entry ∈ earlier.getLast?, entry.1 ≠ state

theorem stretch_newest {log : List (State × Time)} {state : State} {since : Time}
    (stretch : StretchSince log state since) : ∀ entry ∈ log.getLast?, entry.1 = state := by
  obtain ⟨earlier, later, rfl, same, _⟩ := stretch
  intro entry newest
  rw [List.getLast?_append, List.getLast?_cons] at newest
  cases last : later.getLast? with
  | none =>
    rw [last] at newest
    rw [← Option.some.inj newest]
    rfl
  | some other =>
    rw [last] at newest
    rw [← Option.some.inj newest]
    exact same other (List.mem_of_getLast? last)

theorem stretch_push [DecidableEq State] {log : List (State × Time)} {state : State} {since : Time}
    (stretch : StretchSince log state since) (state' : State) (time : Time) :
    StretchSince (log ++ [(state', time)]) state' (if state' ≠ state then time else since) := by
  by_cases changed : state' = state
  · subst changed
    obtain ⟨earlier, later, rfl, same, before⟩ := stretch
    refine ⟨earlier, later ++ [(state', time)], by simp, ?_, before⟩
    intro entry mem
    rcases List.mem_append.mp mem with old | new
    · exact same entry old
    · rw [List.mem_singleton.mp new]
  · refine ⟨log, [], by simp [changed], by simp, ?_⟩
    intro entry newest other
    rw [stretch_newest stretch entry newest] at other
    exact changed other.symm

end Stretches

variable [Field α] [LinearOrder α]

/- One packet. -/

structure Screen (α : Type) where
  timestamp : Number α
  rms : Number α
  measurementValid : Bool
  rawErrorDeg : Option (Number α)
  smoothedErrorDeg : Number α
  trackerHeadingDeg : Option (Number α)
  imuValid : Bool
  state : Text
  lastPacketTime : Number α

def screen (b : Bridge α) : Screen α :=
  ⟨b.timestamp, b.rms, b.measurementValid, b.rawErrorDeg, b.smoothedErrorDeg, b.trackerHeadingDeg,
    b.imuValid, b.state, b.lastPacketTime⟩

def packetScreen (packet : Packet α) : Screen α :=
  ⟨.finite packet.timestamp, .finite packet.rms, packet.measurementValid,
    packet.rawErrorDeg.map .finite, .finite packet.smoothedErrorDeg, packet.trackerHeadingDeg,
    packet.imuValid, key packet.state.name, .finite packet.timestamp⟩

def payloadOf (repr : α → List Char) (packet : Packet α) : List UInt8 :=
  Utf8.encode (text repr packet.toJson)

/-- A packet that the dashboard can read if it is not nested too deep. -/
structure Legible (desktop : Desktop α) (repr : α → List Char) (packet : Packet α) : Prop where
  sound : Sound desktop.limits.digits packet.imuCalibration
  readable : AllReadable repr (floats packet.toJson)

def packetFields (packet : Packet α) : DatagramEffects.Fields α :=
  { locals := packetLocals packet
    rms := .finite packet.rms
    rawError := packet.rawErrorDeg.map .finite
    smoothedError := .finite packet.smoothedErrorDeg
    heading := packet.trackerHeadingDeg
    imuValid := packet.imuValid }

theorem readFields_packet {desktop : Desktop α} {repr : α → List Char} {packet : Packet α}
    (legible : Legible desktop repr packet) :
    readFields desktop (payloadOf repr packet) =
      if depth packet.imuCalibration < desktop.limits.nesting then .ok (packetFields packet)
      else .error .recursionError := by
  unfold readFields payloadOf
  rw [readLocals_packet legible.sound legible.readable]
  by_cases shallow : depth packet.imuCalibration < desktop.limits.nesting
  · rw [if_pos shallow, if_pos shallow]
    have rms : floatItem "rms" packet.toJson = .ok (.finite packet.rms) := rfl
    have smoothed : floatItem "smoothed_error_deg" packet.toJson =
        .ok (.finite packet.smoothedErrorDeg) := rfl
    have valid : getItem "imu_valid" (.bool false) packet.toJson = .ok (.bool packet.imuValid) := rfl
    simp only [packetLocals, ok_bind, rms, smoothed, valid, floatOrNone_optional]
    rfl
  · rw [if_neg shallow, if_neg shallow]
    rfl

variable [FloorRing α]

theorem effect_shown {desktop : Desktop α} {payload : List UInt8}
    {fields : DatagramEffects.Fields α} (converted : readFields desktop payload = .ok fields)
    (b : Bridge α) :
    ∃ history, effect desktop b payload = { shown fields b with history := history } := by
  rcases effect_spec desktop b payload with ⟨reading, whole, same⟩ | ⟨error, _, stopped⟩
  · have here := (read_parts whole).1
    rw [converted] at here
    obtain rfl := Except.ok.inj here
    exact ⟨_, same⟩
  · generalize effect desktop b payload = b' at stopped
    cases stopped with
    | point converted' raised =>
      rw [converted] at converted'
      obtain rfl := Except.ok.inj converted'
      exact ⟨_, rfl⟩
    | locals raised => simp [readFields, raised, error_bind] at converted
    | rms found raised => simp [readFields, found, raised, ok_bind, error_bind] at converted
    | rawError found level raised =>
      simp [readFields, found, level, raised, ok_bind, error_bind] at converted
    | smoothedError found level measurement raised =>
      simp [readFields, found, level, measurement, raised, ok_bind, error_bind] at converted
    | heading found level measurement average raised =>
      simp [readFields, found, level, measurement, average, raised, ok_bind, error_bind] at converted

theorem effect_unread {desktop : Desktop α} {payload : List UInt8} {error : PyError}
    (raised : readLocals desktop payload = .error error) (b : Bridge α) :
    effect desktop b payload = b := by
  rcases effect_spec desktop b payload with ⟨reading, whole, _⟩ | ⟨_, _, stopped⟩
  · have converted := (read_parts whole).1
    simp [readFields, raised, error_bind] at converted
  · exact (stopped_frame stopped).unread ⟨error, raised⟩

theorem shown_screen (packet : Packet α) (b : Bridge α) :
    screen (shown (packetFields packet) b) = packetScreen packet ∧
      (shown (packetFields packet) b).stateSince =
        if key packet.state.name ≠ b.state then .finite packet.timestamp else b.stateSince := by
  obtain ⟨dot, known, same⟩ := moveDot_frame b.trackerHeadingDeg
    { measured (packetLocals packet) (.finite packet.rms) b with
      rawErrorDeg := packet.rawErrorDeg.map .finite
      smoothedErrorDeg := .finite packet.smoothedErrorDeg
      trackerHeadingDeg := packet.trackerHeadingDeg
      imuValid := packet.imuValid
      state := key packet.state.name
      lastPacketTime := .finite packet.timestamp }
  have moved : shown (packetFields packet) b = _ := same
  rw [moved]
  exact ⟨rfl, rfl⟩

/- Runs. -/

variable {desktop : Desktop α} {repr : α → List Char} {start : α}

def taken (desktop : Desktop α) (packets : List (Packet α)) : List (Packet α) :=
  packets.filter fun packet => depth packet.imuCalibration < desktop.limits.nesting

omit [Field α] [LinearOrder α] [FloorRing α] in
theorem taken_push (packets : List (Packet α)) (packet : Packet α) :
    taken desktop (packets ++ [packet]) =
      if depth packet.imuCalibration < desktop.limits.nesting then taken desktop packets ++ [packet]
      else taken desktop packets := by
  unfold taken
  by_cases shallow : depth packet.imuCalibration < desktop.limits.nesting
  · simp [shallow]
  · simp [shallow]

/-- The states told of, and when: the first one is the dashboard's own. -/
def stateLog (start : α) (packets : List (Packet α)) : List (Text × Number α) :=
  (key "IDLE", .finite start) ::
    packets.map fun packet => (key packet.state.name, .finite packet.timestamp)

structure Mirrors (start : α) (packets : List (Packet α)) (b : Bridge α) : Prop where
  shows : screen b = (packets.getLast?.map packetScreen).getD (screen (TelemetryBridge.initial start))
  since : StretchSince (stateLog start packets) b.state b.stateSince

omit [LinearOrder α] [FloorRing α] in
theorem mirrors_start (start : α) : Mirrors start [] (TelemetryBridge.initial start) :=
  ⟨rfl, [], [], rfl, by simp, by simp⟩

theorem mirrors_packet {packets : List (Packet α)} {b : Bridge α}
    (mirrors : Mirrors start (taken desktop packets) b) {packet : Packet α}
    (legible : Legible desktop repr packet) :
    Mirrors start (taken desktop (packets ++ [packet]))
      (effect desktop b (payloadOf repr packet)) := by
  rw [taken_push]
  by_cases shallow : depth packet.imuCalibration < desktop.limits.nesting
  · have fields := readFields_packet legible
    rw [if_pos shallow] at fields
    obtain ⟨history, same⟩ := effect_shown fields b
    obtain ⟨shows, since⟩ := shown_screen packet b
    rw [if_pos shallow, same]
    constructor
    · rw [List.getLast?_concat]
      exact shows
    · have grown := stretch_push mirrors.since (key packet.state.name) (.finite packet.timestamp)
      have told : (shown (packetFields packet) b).state = key packet.state.name :=
        congrArg Screen.state shows
      rw [← since, ← told] at grown
      simpa [stateLog, told] using grown
  · have unread := readLocals_packet legible.sound legible.readable
    rw [if_neg shallow] at unread
    rw [if_neg shallow, payloadOf, effect_unread unread b]
    exact mirrors

omit [FloorRing α] in
theorem mirrors_prune {packets : List (Packet α)} {b : Bridge α} (mirrors : Mirrors start packets b)
    (cutoff : α) : Mirrors start packets (prune cutoff b) := by
  unfold prune
  split
  · exact ⟨mirrors.shows, mirrors.since⟩
  · exact mirrors

theorem mirrors_run {ticks : List (Transition (Dashboard α) (Tick α))} {d : Dashboard α}
    (run : Run (tick desktop) (dashboard start) ticks d) {packets : List (Packet α)}
    (legible : ∀ packet ∈ packets, Legible desktop repr packet)
    {later : List (List UInt8)}
    (delivered : arrivals ticks ++ later = packets.map (payloadOf repr)) :
    ∃ seen unseen, packets = seen ++ unseen ∧ unseen.map (payloadOf repr) = d.waiting ++ later ∧
      Mirrors start (taken desktop seen) d.bridge := by
  have kept := ticks_invariant
    (fun payloads b => ∀ seen, payloads = seen.map (payloadOf repr) →
      (∀ packet ∈ seen, Legible desktop repr packet) → Mirrors start (taken desktop seen) b)
    ?first ?received ?pruned run
  case first =>
    intro seen none _
    rw [List.map_eq_nil_iff.mp none.symm]
    exact mirrors_start start
  case received =>
    intro payloads b payload holds seen grown legible
    obtain ⟨earlier, last, rfl, old, new⟩ := List.map_eq_append_iff.mp grown.symm
    obtain ⟨packet, rfl, rfl⟩ := List.map_eq_singleton_iff.mp new
    exact mirrors_packet (holds earlier old.symm fun other mem => legible other (by simp [mem]))
      (legible packet (by simp))
  case pruned =>
    intro payloads b cutoff holds seen same legible
    exact mirrors_prune (holds seen same legible) cutoff
  obtain ⟨payloads, split, mirrors⟩ := kept
  rw [split, List.append_assoc] at delivered
  obtain ⟨seen, unseen, rfl, old, rest⟩ := List.map_eq_append_iff.mp delivered.symm
  exact ⟨seen, unseen, rfl, rest, mirrors seen old.symm fun packet mem => legible packet (by simp [mem])⟩

/- The packets of a tracker. -/

def packetsSent (py : Python α) (dsp : Dsp α) (history : List (Block α)) : List (Packet α) :=
  history.reverse.flatMap fun b => (blockPackets py dsp b).map Prod.fst

theorem payloads_sent {py : Python α} {dsp : Dsp α} {history : List (Block α)}
    {tracker : Tracker α} (run : Run (next py dsp) initial history tracker) :
    payloads py dsp history = (packetsSent py dsp history).map (payloadOf py.floatRepr) := by
  unfold payloads packetsSent
  rw [List.map_flatMap]
  apply List.flatMap_congr
  intro b mem
  obtain ⟨_, _, _, moved⟩ := run_member run (List.mem_reverse.mp mem)
  have sends := block_packets moved
  split at sends
  · rw [sends]
    rfl
  · obtain ⟨packet, one, _⟩ := sends
    rw [one]
    rfl

theorem packets_legible {py : Python α} {dsp : Dsp α} {history : List (Block α)}
    {tracker : Tracker α} (run : Run (next py dsp) initial history tracker)
    (same : desktop.limits.digits = py.limits.digits) (readable : ReprRoundTrips py dsp history) :
    ∀ packet ∈ packetsSent py dsp history, Legible desktop py.floatRepr packet := by
  intro packet mem
  obtain ⟨b, inside, sends⟩ := List.mem_flatMap.mp mem
  obtain ⟨sent, among, rfl⟩ := List.mem_map.mp sends
  have here := List.mem_reverse.mp inside
  obtain ⟨_, _, before, moved⟩ := run_member run here
  refine ⟨?_, readable b here sent among⟩
  have told := block_packets moved
  split at told
  · rw [told] at among
    cases among
  · obtain ⟨packet, one, _, calibration⟩ := told
    rw [one] at among
    rw [List.mem_singleton.mp among, calibration, same]
    exact calibration_run (before.step moved)

def stateDuration (b : Bridge α) (now : α) : Number α :=
  pyMax (.finite 0) ((Number.finite now).sub b.stateSince)

omit [FloorRing α] in
theorem mirrors_duration {packets : List (Packet α)} {b : Bridge α}
    (mirrors : Mirrors start packets b) (now : α) :
    ∃ time, b.stateSince = .finite time ∧ stateDuration b now = .finite (max 0 (now - time)) := by
  obtain ⟨earlier, later, split, _⟩ := mirrors.since
  have mem : (b.state, b.stateSince) ∈ stateLog start packets := by
    rw [split]
    simp
  have time : ∃ time, b.stateSince = .finite time := by
    rcases List.mem_cons.mp mem with first | told
    · exact ⟨start, congrArg Prod.snd first⟩
    · obtain ⟨packet, _, same⟩ := List.mem_map.mp told
      exact ⟨packet.timestamp, (congrArg Prod.snd same).symm⟩
  obtain ⟨time, since⟩ := time
  refine ⟨time, since, ?_⟩
  simp only [stateDuration, since, Number.sub_finite, pyMax, Number.lt_finite, decide_eq_true_eq]
  by_cases later : 0 < now - time
  · rw [if_pos later, max_eq_right later.le]
  · rw [if_neg later, max_eq_left (not_lt.mp later)]

/-- Whatever reached the dashboard of a tracker's packets, in their order: it shows
    the newest one that it has read, and since when its state has been told of. -/
theorem display_mirrors {py : Python α} {dsp : Dsp α}
    (same : desktop.limits.digits = py.limits.digits)
    {history : List (Block α)} {tracker : Tracker α}
    (run : Run (next py dsp) initial history tracker) (readable : ReprRoundTrips py dsp history)
    {ticks : List (Transition (Dashboard α) (Tick α))} {d : Dashboard α}
    (ticking : Run (tick desktop) (dashboard start) ticks d)
    (delivered : (arrivals ticks).Sublist (payloads py dsp history)) :
    ∃ seen unseen, (seen ++ unseen).Sublist (packetsSent py dsp history) ∧
      arrivals ticks = (seen ++ unseen).map (payloadOf py.floatRepr) ∧
      d.waiting = unseen.map (payloadOf py.floatRepr) ∧
      Mirrors start (taken desktop seen) d.bridge ∧
      ∀ now, ∃ time, d.bridge.stateSince = .finite time ∧
        stateDuration d.bridge now = .finite (max 0 (now - time)) := by
  rw [payloads_sent run] at delivered
  obtain ⟨packets, among, arrived⟩ := List.sublist_map_iff.mp delivered
  have legible : ∀ packet ∈ packets, Legible desktop py.floatRepr packet :=
    fun packet mem => packets_legible run same readable packet (among.subset mem)
  obtain ⟨seen, unseen, rfl, rest, mirrors⟩ :=
    mirrors_run ticking legible ((List.append_nil _).trans arrived)
  rw [List.append_nil] at rest
  exact ⟨seen, unseen, among, arrived, rest.symm, mirrors, mirrors_duration mirrors⟩

theorem display_mirrors_bench :
    ∃ (history : List (Block ℚ)) (d : Dashboard ℚ) (seen unseen : List (Packet ℚ)),
      (seen ++ unseen).Sublist (packetsSent benchPython benchDsp history) ∧
        d.waiting = unseen.map (payloadOf benchPython.floatRepr) ∧
        Mirrors 9 (taken benchDesktop seen) d.bridge ∧ d.bridge.state = key "TRACKING" := by
  have run := bench_start.go (benchPass onAxisRaw [] 10) (by decide +kernel)
  obtain ⟨seen, unseen, among, _, waiting, mirrors, _⟩ := display_mirrors rfl run
    (by
      intro b mem packet sent x inside
      apply bench_floats
      revert b packet x
      decide +kernel)
    (bench_ticking _) (by rw [bench_arrivals])
  exact ⟨_, _, seen, unseen, among, waiting, mirrors, by decide +kernel⟩

end SoqTracker.DashboardMirror
