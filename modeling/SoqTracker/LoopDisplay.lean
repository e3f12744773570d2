import SoqTracker.LoopReports
import SoqTracker.DashboardMirror

/- From the sensor to the screen: what the dashboard shows of the heading was sensed
   by the controller, and reported, heard and sent since. -/
namespace SoqTracker.LoopDisplay
open ExtendedNumber Json Controller TrackerLoop Runs Components ClosedLoop LoopReports
open HeadingReports DashboardMirror
open TelemetryLink (ReprRoundTrips arrivals dashboard tick)

variable {α Memory : Type} [Field α] [LinearOrder α] [FloorRing α]
  {p : Programs α Memory} {imuReady : Bool} {unheard : Nat}
  {now : α} {history : List (Moment α Memory)} {s : System α Memory}

/- Datagrams. -/

def isLoss : Action α → Bool
  | .lose _ => true
  | _ => false

theorem datagrams_all (run : Run (step p) (begin p imuReady unheard now) history s)
    (lossless : ∀ t ∈ history, isLoss t.input = false) :
    TelemetryLink.payloads p.py p.dsp (blocks history) =
      arrivals (ticks history) ++ s.toDashboard := by
  have kept := queue_run System.toDashboard
    (given System.tracker pass? fun b => (blockPackets p.py p.dsp b).map Prod.snd)
    (given System.dashboard tick? fun t => t.input.arrived) ?each
    (run_only (fun action => isLoss action = false) run lossless) rfl
  case each =>
    intro s action s' moved
    obtain ⟨allowed, moved⟩ := Option.ite_none_right_eq_some.mp moved
    cases step_cases moved with
    | turn sensing arrived => simp [given, tick?, pass?, turned]
    | pass pass arrived passes => rfl
    | tick t arrived => simp [given, tick?, pass?, ticked, take_front arrived]
    | lose place => simp [isLoss] at allowed
  rw [along_given, along_given] at kept
  exact kept

variable [IsStrictOrderedRing α]

/- Headings. -/

/-- A heading on the circle that is the sensed one, but for its rounding. -/
def Shows (sensing : Sensing α) (h : Number α) : Prop :=
  ∃ v, h = .finite v ∧ 0 ≤ v ∧ v < 360 ∧
    (|v - sensing.degrees| ≤ 1 / 20 ∨ v = 0 ∧ 360 - 1 / 20 ≤ sensing.degrees)

theorem report_shows (sensing : Sensing α) :
    Shows sensing ((Number.finite (liveReport sensing).degrees).modulo 360) := by
  have accurate := report_accurate sensing
  have most : ((liveReport sensing).tenths : α) ≤ (3600 : Nat) :=
    Nat.cast_le.mpr (liveReport sensing).bounded
  have least : (0 : α) ≤ (liveReport sensing).tenths := Nat.cast_nonneg _
  unfold LiveReport.degrees at accurate ⊢
  generalize ((liveReport sensing).tenths : α) = tenths at accurate most least ⊢
  push_cast at most
  rw [Number.modulo]
  by_cases full : tenths / 10 < 360
  · have same : tenths / 10 - 360 * ⌊tenths / 10 / 360⌋ = tenths / 10 :=
      Number.modulo_unique (k := 0) (by push_cast; ring) (by positivity) full
    exact ⟨tenths / 10, by rw [same], by positivity, full, .inl accurate⟩
  · have whole : tenths / 10 = 360 := by linarith
    have zero : tenths / 10 - 360 * ⌊tenths / 10 / 360⌋ = 0 :=
      Number.modulo_unique (k := 1) (by push_cast; linarith) le_rfl (by norm_num)
    rw [whole] at accurate
    obtain ⟨_, close⟩ := abs_le.mp accurate
    exact ⟨0, by rw [zero], le_rfl, by norm_num, .inr ⟨rfl, by linarith⟩⟩

/- Packets. -/

omit [IsStrictOrderedRing α] in
theorem packet_block (run : Run (step p) (begin p imuReady unheard now) history s)
    {packet : Packet α} (sends : packet ∈ packetsSent p.py p.dsp (blocks history)) :
    ∃ b older, b :: older <:+ blocks history ∧ next p.py p.dsp b.before b.input = some b.after ∧
      ∃ payload, (packet, payload) ∈ blockPackets p.py p.dsp b := by
  obtain ⟨b, inside, told⟩ := List.mem_flatMap.mp sends
  obtain ⟨⟨_, payload⟩, among, rfl⟩ := List.mem_map.mp told
  obtain ⟨older, placed, _, moved⟩ := run_member (blocks_run run) (List.mem_reverse.mp inside)
  exact ⟨b, older, placed, moved, payload, among⟩

omit [IsStrictOrderedRing α] in
theorem settle_heading {buffer : List Char} {heading : Option (Parsed α × α)} :
    (settle { (TrackerLoop.initial : Tracker α).imu with controllerBuffer := buffer }
      heading).trackerHeadingDeg =
        (heading.map Prod.fst).map fun parsed => parsed.headingDeg.modulo 360 := by
  cases heading with
  | none => rfl
  | some heading => rfl

theorem packet_heard (run : Run (step p) (begin p imuReady unheard now) history s) {b : Block α}
    {older : List (Block α)} (placed : b :: older <:+ blocks history)
    {packet : Packet α × List UInt8} (sends : packet ∈ blockPackets p.py p.dsp b) :
    packet.1.trackerHeadingDeg = (newestHeard p unheard history (bytesHeard (b :: older))).map
        (fun parsed => parsed.headingDeg.modulo 360) ∧
      Plain packet.1.imuCalibration := by
  obtain ⟨_, moved⟩ := run_placed (blocks_run run) placed
  obtain ⟨imu, _, _, _, polled, _, _, move⟩ := next_moved moved
  obtain ⟨buffer, heading, state, heard⟩ := blocks_hear run placed
  have told := (HeardLines.packet_heading polled sends).1
  rw [← HeardLines.moved_imu move, state, settle_heading, heard] at told
  refine ⟨told, ?_⟩
  have one := TelemetryLink.block_packets moved
  split at one
  · rw [one] at sends
    cases sends
  · obtain ⟨sent, only, _, calibration⟩ := one
    rw [only] at sends
    rw [List.mem_singleton.mp sends, calibration, state]
    exact settle_plain heard

omit [FloorRing α] [Field α] [LinearOrder α] [IsStrictOrderedRing α] in
theorem plain_legible {value : Value α} (plain : Plain value) (digits : Option Nat)
    (floor : ∀ most ∈ digits, 640 ≤ most) : Sound digits value ∧ depth value = 0 := by
  rcases plain with rfl | ⟨n, small, rfl⟩
  · exact ⟨trivial, rfl⟩
  · have short : (Decimal.natText n).length ≤ 3 :=
      (Nat.length_toDigits_le_iff (by decide) (by decide)).mpr (by omega)
    refine ⟨?_, rfl⟩
    show Decimal.fitsDigits digits (Decimal.natText n) = true
    rw [Decimal.fitsDigits, Option.all_eq_true]
    intro most limited
    have enough := floor most limited
    exact decide_eq_true (by omega)

theorem sent_plain (run : Run (step p) (begin p imuReady unheard now) history s)
    {packet : Packet α} (sends : packet ∈ packetsSent p.py p.dsp (blocks history)) :
    Plain packet.imuCalibration := by
  obtain ⟨b, older, placed, _, payload, among⟩ := packet_block run sends
  exact (packet_heard run placed among).2

theorem taken_all (run : Run (step p) (begin p imuReady unheard now) history s)
    {seen : List (Packet α)} (among : ∀ packet ∈ seen, packet ∈ packetsSent p.py p.dsp (blocks history)) :
    taken p.desktop seen = seen := by
  unfold taken
  rw [List.filter_eq_self]
  intro packet mem
  obtain ⟨_, flat⟩ := plain_legible (sent_plain run (among packet mem)) _
    p.desktop.limits.digits_floor
  rw [flat]
  exact decide_eq_true p.loads_room

omit [LinearOrder α] [FloorRing α] [IsStrictOrderedRing α] in
theorem shown_heading {packets : List (Packet α)} {packet : Packet α} {b : TelemetryBridge.Bridge α}
    (mirrors : Mirrors now packets b) (newest : packets.getLast? = some packet) :
    b.trackerHeadingDeg = packet.trackerHeadingDeg := by
  have shows := mirrors.shows
  rw [newest] at shows
  exact congrArg Screen.trackerHeadingDeg shows

/-- What the dashboard shows has come from the sensor through all three programs:
    the newest datagram read, sent with the heading of the last report that was
    heard whole until then. Without losses no packet is passed over. -/
theorem sensor_to_screen (run : Run (step p) (begin p imuReady unheard now) history s)
    (readable : ReprRoundTrips p.py p.dsp (blocks history)) :
    ∃ seen unseen, (seen ++ unseen).Sublist (packetsSent p.py p.dsp (blocks history)) ∧
      ((∀ t ∈ history, isLoss t.input = false) →
        seen ++ unseen = packetsSent p.py p.dsp (blocks history)) ∧
      s.dashboard.waiting ++ s.toDashboard = unseen.map (payloadOf p.py.floatRepr) ∧
      Mirrors now seen s.dashboard.bridge ∧
      (∀ packet ∈ seen.getLast?, ∃ b older, b :: older <:+ blocks history ∧
        packet ∈ (blockPackets p.py p.dsp b).map Prod.fst ∧
        s.dashboard.bridge.trackerHeadingDeg =
          (newestHeard p unheard history (bytesHeard (b :: older))).map
            fun parsed => parsed.headingDeg.modulo 360) ∧
      ∀ h ∈ s.dashboard.bridge.trackerHeadingDeg, ∃ sensing, Sensed p history sensing ∧
        Shows sensing h := by
  have sends := payloads_sent (blocks_run run)
  have kept := datagrams_kept run
  rw [sends] at kept
  obtain ⟨packets, among, delivered⟩ := List.sublist_map_iff.mp kept
  have legible : ∀ packet ∈ packets, Legible p.desktop p.py.floatRepr packet := by
    intro packet mem
    obtain ⟨b, inside, told⟩ := List.mem_flatMap.mp (among.subset mem)
    obtain ⟨sent, written, rfl⟩ := List.mem_map.mp told
    have plain := sent_plain run (among.subset mem)
    exact ⟨(plain_legible plain _ p.desktop.limits.digits_floor).1,
      readable b (List.mem_reverse.mp inside) sent written⟩
  obtain ⟨seen, unseen, rfl, rest, mirrors⟩ := mirrors_run (ticks_run run) legible delivered
  rw [taken_all run fun packet mem => among.subset (List.mem_append_left _ mem)] at mirrors
  have newest : ∀ packet ∈ seen.getLast?, ∃ b older, b :: older <:+ blocks history ∧
      packet ∈ (blockPackets p.py p.dsp b).map Prod.fst ∧
      s.dashboard.bridge.trackerHeadingDeg =
        (newestHeard p unheard history (bytesHeard (b :: older))).map
          fun parsed => parsed.headingDeg.modulo 360 := by
    intro packet last
    have told := among.subset (List.mem_append_left _ (List.mem_of_getLast? last))
    obtain ⟨b, older, placed, _, payload, written⟩ := packet_block run told
    refine ⟨b, older, placed, List.mem_map_of_mem written, ?_⟩
    rw [shown_heading mirrors last]
    exact (packet_heard run placed written).1
  refine ⟨seen, unseen, among, ?lossless, rest.symm, mirrors, newest, ?sensed⟩
  case lossless =>
    intro lossless
    refine among.eq_of_length ?_
    have all := congrArg List.length (datagrams_all run lossless)
    rw [sends, delivered, List.length_map, List.length_map] at all
    exact all.symm
  case sensed =>
    intro h shown
    cases last : seen.getLast? with
    | none =>
      have blank := mirrors.shows
      rw [last] at blank
      have nothing : s.dashboard.bridge.trackerHeadingDeg = none :=
        congrArg Screen.trackerHeadingDeg blank
      rw [nothing] at shown
      cases shown
    | some packet =>
      obtain ⟨b, older, _, _, heading⟩ := newest packet last
      rw [shown] at heading
      obtain ⟨parsed, heard, same⟩ := Option.map_eq_some_iff.mp heading.symm
      obtain ⟨sensing, sensed, rfl⟩ := heard_sensed heard
      exact ⟨sensing, sensed, by rw [← same]; exact report_shows sensing⟩

/- One heading, from a report that the tracker joined within to the screen. -/

theorem bench_readable {x : ℚ} (known : x = 10 ∨ x = 8000000 ∨ x = 0 ∨ x = 617 / 5) :
    Readable benchPrograms.py.floatRepr x := by
  have kept : ∀ {y : ℚ}, (benchPython.floatRepr y).length ≤ 24 →
      Readable benchPython.floatRepr y → Readable benchPrograms.py.floatRepr y := by
    intro y short readable
    have same : benchPrograms.py.floatRepr y = benchPython.floatRepr y :=
      List.take_of_length_le short
    rw [Readable, same]
    exact readable
  rcases known with rfl | rfl | rfl | rfl
  · exact kept (by decide +kernel) (TelemetryLink.bench_floats (by simp))
  · exact kept (by decide +kernel) (TelemetryLink.bench_floats (by simp))
  · exact kept (by decide +kernel) (TelemetryLink.bench_floats (by simp))
  · exact kept (by decide +kernel) (@TelemetryLink.bench_readable 123 4 (by decide) (617 / 5)
      (by decide +kernel) (by decide +kernel))

def benchPacket : Packet ℚ :=
  { timestamp := 10, rms := 8000000, measurementValid := true, rawErrorDeg := some 0
    smoothedErrorDeg := 0, trackerHeadingDeg := some (.finite (617 / 5)), imuValid := true
    imuCalibration := .int 3, state := .tracking }

theorem sensor_to_screen_bench :
    ∃ (history : List (Moment ℚ Unit)) (s : System ℚ Unit) (sensing : Sensing ℚ),
      Run (step benchPrograms) (begin benchPrograms true 4 9) history s ∧
        s.dashboard.bridge.trackerHeadingDeg = some (.finite (617 / 5)) ∧
        Sensed benchPrograms history sensing ∧ Shows sensing (.finite (617 / 5)) := by
  have run := ((((bench_begin 4).go (.turn (benchSensing 60 [])) (by decide +kernel)).go
    (.turn (benchSensing 120 [])) (by decide +kernel)).go
    (.pass (benchPass onAxisRaw benchReports 10)) (by decide +kernel)).go
    (.tick ⟨[payloadOf benchPrograms.py.floatRepr benchPacket], 11⟩) (by decide +kernel)
  obtain ⟨_, _, _, _, _, _, _, sensed⟩ := sensor_to_screen run (by
    intro b mem packet sent x inside
    apply bench_readable
    revert b packet x
    decide +kernel)
  obtain ⟨sensing, turned, shows⟩ := sensed (.finite (617 / 5)) (by decide +kernel)
  exact ⟨_, _, sensing, run, by decide +kernel, turned, shows⟩

end SoqTracker.LoopDisplay
