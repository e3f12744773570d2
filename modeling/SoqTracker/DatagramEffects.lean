import SoqTracker.TelemetryBridge
import Mathlib.Algebra.Field.Rat
import Mathlib.Algebra.Order.Ring.Rat
import Mathlib.Data.List.Forall2

/- What a sequence of datagrams does to the telemetry fields. A datagram whose
   conversions all succeed is one update of every field; one that raises stops
   between two assignments and ends the call of poll_socket. -/
namespace SoqTracker.DatagramEffects
open ExtendedNumber Json Controller TelemetryBridge

variable {α : Type} [Field α] [LinearOrder α] [FloorRing α]

/- All conversions of a datagram, in the order in which they are made. -/

structure Fields (α : Type) where
  locals : Locals α
  rms : Number α
  rawError : Option (Number α)
  smoothedError : Number α
  heading : Option (Number α)
  imuValid : Bool

structure Reading (α : Type) extends Fields α where
  point : HistoryPoint α

def readFields (desktop : Desktop α) (payload : List UInt8) : Except PyError (Fields α) := do
  let locals ← readLocals desktop payload
  let rms ← floatItem "rms" locals.packet
  let rawError ← floatOrNone locals.rawError
  let smoothedError ← floatItem "smoothed_error_deg" locals.packet
  let heading ← floatOrNone locals.heading
  let imuValid ← getItem "imu_valid" (.bool false) locals.packet
  return ⟨locals, rms, rawError, smoothedError, heading, truthy imuValid⟩

def readPoint (desktop : Desktop α) (fields : Fields α) : Except PyError (HistoryPoint α) := do
  let value ← historyValue fields.locals
  let activity ← activity desktop fields.rms
  return ⟨fields.locals.timestamp, value, fields.locals.measurementValid, activity,
    fields.locals.state⟩

def read (desktop : Desktop α) (payload : List UInt8) : Except PyError (Reading α) := do
  let fields ← readFields desktop payload
  let point ← readPoint desktop fields
  return ⟨fields, point⟩

/- The state between the assignments. -/

def stamped (locals : Locals α) (b : Bridge α) : Bridge α :=
  { b with
    timestamp := locals.timestamp
    stateSince := if locals.state ≠ b.state then locals.timestamp else b.stateSince }

def measured (locals : Locals α) (rms : Number α) (b : Bridge α) : Bridge α :=
  { stamped locals b with
    rms := rms
    displayRms := if b.displayRms.le (.finite 0) then rms else ema levelEmaAlpha rms b.displayRms
    measurementValid := locals.measurementValid }

def shown (fields : Fields α) (b : Bridge α) : Bridge α :=
  moveDot b.trackerHeadingDeg
    { measured fields.locals fields.rms b with
      rawErrorDeg := fields.rawError
      smoothedErrorDeg := fields.smoothedError
      trackerHeadingDeg := fields.heading
      imuValid := fields.imuValid
      state := fields.locals.state
      lastPacketTime := fields.locals.timestamp }

def applied (b : Bridge α) (reading : Reading α) : Bridge α :=
  { shown reading.toFields b with history := b.history ++ [reading.point] }

/-- Where a datagram that raises can leave the state. -/
inductive Stopped (desktop : Desktop α) (payload : List UInt8) (b : Bridge α) :
    PyError → Bridge α → Prop where
  | locals {error : PyError} (raised : readLocals desktop payload = .error error) :
      Stopped desktop payload b error b
  | rms {locals : Locals α} {error : PyError} (read : readLocals desktop payload = .ok locals)
      (raised : floatItem "rms" locals.packet = .error error) :
      Stopped desktop payload b error (stamped locals b)
  | rawError {locals : Locals α} {rms : Number α} {error : PyError}
      (read : readLocals desktop payload = .ok locals)
      (level : floatItem "rms" locals.packet = .ok rms)
      (raised : floatOrNone locals.rawError = .error error) :
      Stopped desktop payload b error (measured locals rms b)
  | smoothedError {locals : Locals α} {rms : Number α} {raw : Option (Number α)}
      {error : PyError} (read : readLocals desktop payload = .ok locals)
      (level : floatItem "rms" locals.packet = .ok rms)
      (measurement : floatOrNone locals.rawError = .ok raw)
      (raised : floatItem "smoothed_error_deg" locals.packet = .error error) :
      Stopped desktop payload b error { measured locals rms b with rawErrorDeg := raw }
  | heading {locals : Locals α} {rms smoothed : Number α} {raw : Option (Number α)}
      {error : PyError} (read : readLocals desktop payload = .ok locals)
      (level : floatItem "rms" locals.packet = .ok rms)
      (measurement : floatOrNone locals.rawError = .ok raw)
      (average : floatItem "smoothed_error_deg" locals.packet = .ok smoothed)
      (raised : floatOrNone locals.heading = .error error) :
      Stopped desktop payload b error
        { measured locals rms b with rawErrorDeg := raw, smoothedErrorDeg := smoothed }
  | point {fields : Fields α} {error : PyError}
      (read : readFields desktop payload = .ok fields)
      (raised : readPoint desktop fields = .error error) :
      Stopped desktop payload b error (shown fields b)

/- One datagram. -/

omit [Field α] [LinearOrder α] [FloorRing α] in
theorem attempt_bind {β γ : Type} (r : Except PyError β) (k : β → Updating α γ) (b : Bridge α) :
    (attempt r >>= k) b = match r with
      | .ok value => k value b
      | .error error => .error error b := by
  cases r with
  | error error => rfl
  | ok value => rfl

omit [Field α] [LinearOrder α] [FloorRing α] in
theorem modify_bind {γ : Type} (f : Bridge α → Bridge α) (k : PUnit → Updating α γ)
    (b : Bridge α) : (modify f >>= k) b = k () (f b) := rfl

omit [Field α] [LinearOrder α] [FloorRing α] in
theorem get_bind {γ : Type} (k : Bridge α → Updating α γ) (b : Bridge α) :
    (get >>= k) b = k b b := rfl

omit [Field α] [LinearOrder α] [FloorRing α] in
theorem modify_last (f : Bridge α → Bridge α) (b : Bridge α) :
    (modify f : Updating α PUnit) b = .ok () (f b) := rfl

theorem ok_bind {β γ : Type} (value : β) (k : β → Except PyError γ) :
    (Except.ok value >>= k) = k value := rfl

theorem error_bind {β γ : Type} (error : PyError) (k : β → Except PyError γ) :
    (Except.error error >>= k) = .error error := rfl

theorem ok_of_bind {β γ : Type} {r : Except PyError β} {k : β → Except PyError γ} {value : γ}
    (done : (r >>= k) = .ok value) : ∃ first, r = .ok first ∧ k first = .ok value := by
  cases r with
  | error error => cases done
  | ok first => exact ⟨first, rfl, done⟩

omit [Field α] [LinearOrder α] [FloorRing α] in
theorem getItem_dict {name : String} {packet value : Value α} (found : item name packet = .ok value)
    (name' : String) (default : Value α) : ∃ other, getItem name' default packet = .ok other := by
  cases packet with
  | obj members => exact ⟨_, rfl⟩
  | null => simp [item] at found
  | bool value => simp [item] at found
  | int value => simp [item] at found
  | float value => simp [item] at found
  | str value => simp [item] at found
  | arr items => simp [item] at found

omit [FloorRing α] in
theorem floatItem_found {name : String} {packet : Value α} {x : Number α}
    (converted : floatItem name packet = .ok x) : ∃ value, item name packet = .ok value := by
  cases found : item name packet with
  | error error => simp [floatItem, found, error_bind] at converted
  | ok value => exact ⟨value, rfl⟩

theorem moveDot_frame (previous : Option (Number α)) (b : Bridge α) :
    ∃ x known, moveDot previous b =
      { b with audioDotNormalized := x, audioDotInitialized := known } := by
  unfold moveDot
  split
  · exact ⟨_, _, rfl⟩
  · split
    · exact ⟨_, _, rfl⟩
    · exact ⟨_, b.audioDotInitialized, rfl⟩

theorem shown_frame (fields : Fields α) (b : Bridge α) :
    (shown fields b).history = b.history ∧ (shown fields b).rms = fields.rms ∧
      (shown fields b).lastPacketTime = fields.locals.timestamp := by
  obtain ⟨x, known, same⟩ := moveDot_frame b.trackerHeadingDeg
    { measured fields.locals fields.rms b with
      rawErrorDeg := fields.rawError
      smoothedErrorDeg := fields.smoothedError
      trackerHeadingDeg := fields.heading
      imuValid := fields.imuValid
      state := fields.locals.state
      lastPacketTime := fields.locals.timestamp }
  rw [shown, same]
  exact ⟨rfl, rfl, rfl⟩

/-- The fields change together, or the first conversion that raises stops them. -/
theorem updateFields_spec {desktop : Desktop α} {payload : List UInt8} {l : Locals α}
    (locals : readLocals desktop payload = .ok l) (b : Bridge α) :
    (∃ fields, fields.locals = l ∧ readFields desktop payload = .ok fields ∧
        updateFields l b = .ok () (shown fields b)) ∨
      ∃ error b', readFields desktop payload = .error error ∧
        updateFields l b = .error error b' ∧ Stopped desktop payload b error b' := by
  simp only [updateFields, readFields, locals, ok_bind, attempt_bind, modify_bind, get_bind,
    modify_last]
  cases level : floatItem "rms" l.packet with
  | error error => exact Or.inr ⟨error, _, rfl, rfl, .rms locals level⟩
  | ok rms =>
    cases measurement : floatOrNone l.rawError with
    | error error => exact Or.inr ⟨error, _, rfl, rfl, .rawError locals level measurement⟩
    | ok raw =>
      cases average : floatItem "smoothed_error_deg" l.packet with
      | error error =>
        exact Or.inr ⟨error, _, rfl, rfl, .smoothedError locals level measurement average⟩
      | ok smoothed =>
        cases direction : floatOrNone l.heading with
        | error error =>
          exact Or.inr ⟨error, _, rfl, rfl, .heading locals level measurement average direction⟩
        | ok heading =>
          obtain ⟨_, dict⟩ := floatItem_found level
          obtain ⟨imuValid, known⟩ := getItem_dict dict "imu_valid" (.bool false)
          rw [known]
          exact Or.inl ⟨⟨l, rms, raw, smoothed, heading, truthy imuValid⟩, rfl, rfl, rfl⟩

omit [FloorRing α] in
theorem appendPoint_spec (desktop : Desktop α) (fields : Fields α) {b : Bridge α}
    (level : b.rms = fields.rms) :
    appendPoint desktop fields.locals b = match readPoint desktop fields with
      | .ok point => .ok () { b with history := b.history ++ [point] }
      | .error error => .error error b := by
  simp only [appendPoint, readPoint, attempt_bind, get_bind, modify_last, level]
  cases historyValue fields.locals with
  | error error => rfl
  | ok value =>
    cases activity desktop fields.rms with
    | error error => rfl
    | ok activity => rfl

/-- A datagram either makes the whole update or stops at the first of its
    conversions that raises. -/
theorem receive_spec (desktop : Desktop α) (payload : List UInt8) (b : Bridge α) :
    (∃ reading, read desktop payload = .ok reading ∧
        receive desktop payload b = .ok () (applied b reading)) ∨
      ∃ error b', read desktop payload = .error error ∧
        receive desktop payload b = .error error b' ∧ Stopped desktop payload b error b' := by
  cases locals : readLocals desktop payload with
  | error error =>
    refine Or.inr ⟨error, b, ?_, ?_, .locals locals⟩
    · simp only [read, readFields, locals, error_bind]
    · simp only [receive, attempt_bind, locals]
  | ok l =>
    have ran : receive desktop payload b = (updateFields l >>= fun _ => appendPoint desktop l) b := by
      simp only [receive, attempt_bind, locals]
    rcases updateFields_spec locals b with
      ⟨fields, same, converted, updated⟩ | ⟨error, b', raised, stopped, reached⟩
    · obtain ⟨kept, level, _⟩ := shown_frame fields b
      have appended := appendPoint_spec desktop fields level
      have step : receive desktop payload b = appendPoint desktop fields.locals (shown fields b) := by
        rw [ran, same]
        simp only [bind, EStateM.bind, updated]
      rw [step, appended]
      cases entry : readPoint desktop fields with
      | error error =>
        refine Or.inr ⟨error, _, ?_, rfl, .point converted entry⟩
        simp only [read, converted, entry, ok_bind, error_bind]
      | ok point =>
        refine Or.inl ⟨⟨fields, point⟩, ?_, ?_⟩
        · simp only [read, converted, entry, ok_bind]
          rfl
        · simp only [applied, kept]
    · refine Or.inr ⟨error, b', ?_, ?_, reached⟩
      · simp only [read, raised, error_bind]
      · rw [ran]
        simp only [bind, EStateM.bind, stopped]

/-- The fields that a datagram which raises leaves alone: the history in any case,
    all of them when it raises before the first assignment, and those that say
    what is shown unless only its history entry raises. -/
structure LeftAlone (desktop : Desktop α) (payload : List UInt8) (b b' : Bridge α) : Prop where
  history : b'.history = b.history
  unread : (∃ error, readLocals desktop payload = .error error) → b' = b
  shown : (∃ error, readFields desktop payload = .error error) →
    b'.trackerHeadingDeg = b.trackerHeadingDeg ∧ b'.imuValid = b.imuValid ∧
      b'.state = b.state ∧ b'.lastPacketTime = b.lastPacketTime ∧
      b'.audioDotNormalized = b.audioDotNormalized ∧
      b'.audioDotInitialized = b.audioDotInitialized

theorem stopped_frame {desktop : Desktop α} {payload : List UInt8} {b b' : Bridge α}
    {error : PyError} (stopped : Stopped desktop payload b error b') :
    LeftAlone desktop payload b b' := by
  cases stopped with
  | locals raised => exact ⟨rfl, fun _ => rfl, fun _ => ⟨rfl, rfl, rfl, rfl, rfl, rfl⟩⟩
  | rms found raised =>
    refine ⟨rfl, ?_, fun _ => ⟨rfl, rfl, rfl, rfl, rfl, rfl⟩⟩
    simp [found]
  | rawError found level raised =>
    refine ⟨rfl, ?_, fun _ => ⟨rfl, rfl, rfl, rfl, rfl, rfl⟩⟩
    simp [found]
  | smoothedError found level measurement raised =>
    refine ⟨rfl, ?_, fun _ => ⟨rfl, rfl, rfl, rfl, rfl, rfl⟩⟩
    simp [found]
  | heading found level measurement average raised =>
    refine ⟨rfl, ?_, fun _ => ⟨rfl, rfl, rfl, rfl, rfl, rfl⟩⟩
    simp [found]
  | point converted raised =>
    refine ⟨(shown_frame _ b).1, ?_, ?_⟩
    · rintro ⟨error, unread⟩
      simp [readFields, unread, error_bind] at converted
    · rintro ⟨error, unread⟩
      simp [unread] at converted

/- Calls of poll_socket. -/

abbrev ReadWhole (desktop : Desktop α) : List (List UInt8) → List (Reading α) → Prop :=
  List.Forall₂ fun payload reading => read desktop payload = .ok reading

theorem drain_spec (desktop : Desktop α) (waiting : List (List UInt8)) (b : Bridge α) :
    ∃ done later readings, waiting = done ++ later ∧ ReadWhole desktop done readings ∧
      (later = [] ∧ drain desktop waiting b = (readings.foldl applied b, [], none) ∨
        ∃ payload unread error b', later = payload :: unread ∧
          drain desktop waiting b = (b', unread, some error) ∧
          read desktop payload = .error error ∧
          Stopped desktop payload (readings.foldl applied b) error b') := by
  induction waiting generalizing b with
  | nil => exact ⟨[], [], [], rfl, .nil, Or.inl ⟨rfl, rfl⟩⟩
  | cons payload waiting ih =>
    rcases receive_spec desktop payload b with
      ⟨reading, whole, received⟩ | ⟨error, b', raised, received, stopped⟩
    · obtain ⟨done, later, readings, split, each, ends⟩ := ih (applied b reading)
      have step : drain desktop (payload :: waiting) b =
          drain desktop waiting (applied b reading) := by
        simp only [drain, received]
      refine ⟨payload :: done, later, reading :: readings, ?_, .cons whole each, ?_⟩
      · rw [split, List.cons_append]
      · rw [step]
        exact ends
    · refine ⟨[], payload :: waiting, [], rfl, .nil, Or.inr
        ⟨payload, waiting, error, b', rfl, ?_, raised, stopped⟩⟩
      simp only [drain, received]

/-- A call applies whole datagrams in order. It ends with the last of them, and
    then tells of the change, or with the first that raises, of which only the
    assignments before the raise were made and after which nothing is read or told. -/
theorem datagrams_in_order (desktop : Desktop α) (now : α) (waiting : List (List UInt8))
    (b : Bridge α) :
    ∃ done later readings, waiting = done ++ later ∧ ReadWhole desktop done readings ∧
      (later = [] ∧
          (pollSocket desktop now waiting b).bridge =
            prune (now - timelineSeconds) (readings.foldl applied b) ∧
          (pollSocket desktop now waiting b).waiting = [] ∧
          (pollSocket desktop now waiting b).raised = none ∧
          (done ≠ [] → ∀ signal, signal ∈ (pollSocket desktop now waiting b).signals) ∨
        ∃ payload unread error, later = payload :: unread ∧
          read desktop payload = .error error ∧
          Stopped desktop payload (readings.foldl applied b) error
            (pollSocket desktop now waiting b).bridge ∧
          LeftAlone desktop payload (readings.foldl applied b)
            (pollSocket desktop now waiting b).bridge ∧
          (pollSocket desktop now waiting b).waiting = unread ∧
          (pollSocket desktop now waiting b).raised = some error ∧
          (pollSocket desktop now waiting b).signals = []) := by
  obtain ⟨done, later, readings, split, each, ends⟩ := drain_spec desktop waiting b
  refine ⟨done, later, readings, split, each, ?_⟩
  rcases ends with ⟨last, drained⟩ | ⟨payload, unread, error, b', next, drained, raised, stopped⟩
  · have whole : done = waiting := by rw [split, last, List.append_nil]
    refine Or.inl ⟨last, ?_⟩
    simp only [pollSocket, drained]
    refine ⟨trivial, trivial, trivial, ?_⟩
    intro some_read signal
    rw [whole] at some_read
    cases signal <;> simp [some_read]
  · refine Or.inr ⟨payload, unread, error, next, raised, ?_⟩
    simp only [pollSocket, drained]
    exact ⟨stopped, stopped_frame stopped, trivial, trivial, trivial⟩

/- The time of the last packet shown. -/

/-- What a datagram sets the last packet time to, if it gets so far. -/
def shownTime (desktop : Desktop α) (payload : List UInt8) : Option (Number α) :=
  match readFields desktop payload with
  | .ok fields => some fields.locals.timestamp
  | .error _ => none

def latestTime (desktop : Desktop α) (payloads : List (List UInt8)) (start : Number α) :
    Number α :=
  ((payloads.filterMap (shownTime desktop)).getLast?).getD start

omit [FloorRing α] in
theorem latestTime_append (desktop : Desktop α) (earlier later : List (List UInt8))
    (start : Number α) : latestTime desktop (earlier ++ later) start =
      latestTime desktop later (latestTime desktop earlier start) := by
  unfold latestTime
  rw [List.filterMap_append, List.getLast?_append]
  cases (later.filterMap (shownTime desktop)).getLast? with
  | none => rfl
  | some time => rfl

theorem applied_time {desktop : Desktop α} {payload : List UInt8} {reading : Reading α}
    (whole : read desktop payload = .ok reading) (b : Bridge α) :
    (applied b reading).lastPacketTime = latestTime desktop [payload] b.lastPacketTime := by
  cases converted : readFields desktop payload with
  | error error => simp [read, converted, error_bind] at whole
  | ok fields =>
    cases entry : readPoint desktop fields with
    | error error => simp [read, converted, entry, ok_bind] at whole
    | ok point =>
      simp only [read, converted, entry, ok_bind] at whole
      have same : reading = ⟨fields, point⟩ := (Except.ok.inj whole).symm
      rw [same]
      simp [applied, (shown_frame fields b).2.2, latestTime, shownTime, converted]

theorem stopped_time {desktop : Desktop α} {payload : List UInt8} {b b' : Bridge α}
    {error : PyError} (stopped : Stopped desktop payload b error b') :
    b'.lastPacketTime = latestTime desktop [payload] b.lastPacketTime := by
  cases converted : readFields desktop payload with
  | error refusal =>
    have kept := ((stopped_frame stopped).shown ⟨refusal, converted⟩).2.2.2.1
    rw [kept]
    simp [latestTime, shownTime, converted]
  | ok fields =>
    cases stopped with
    | point converted' raised =>
      rw [(shown_frame _ b).2.2]
      simp [latestTime, shownTime, converted']
    | locals raised => simp [readFields, raised, error_bind] at converted
    | rms found raised => simp [readFields, found, raised, ok_bind, error_bind] at converted
    | rawError found level raised =>
      simp [readFields, found, level, raised, ok_bind, error_bind] at converted
    | smoothedError found level measurement raised =>
      simp [readFields, found, level, measurement, raised, ok_bind, error_bind] at converted
    | heading found level measurement average raised =>
      simp [readFields, found, level, measurement, average, raised, ok_bind, error_bind] at converted

theorem applied_times {desktop : Desktop α} {done : List (List UInt8)} {readings : List (Reading α)}
    (each : ReadWhole desktop done readings) (b : Bridge α) :
    (readings.foldl applied b).lastPacketTime = latestTime desktop done b.lastPacketTime := by
  induction each generalizing b with
  | nil => rfl
  | cons whole each ih =>
    rename_i payload reading done readings
    rw [List.foldl_cons, ih (applied b reading), applied_time whole,
      ← latestTime_append desktop [payload] done]
    rfl

theorem poll_time (desktop : Desktop α) (now : α) (waiting : List (List UInt8)) (b : Bridge α) :
    ∃ consumed, waiting = consumed ++ (pollSocket desktop now waiting b).waiting ∧
      (pollSocket desktop now waiting b).bridge.lastPacketTime =
        latestTime desktop consumed b.lastPacketTime := by
  obtain ⟨done, later, readings, split, each, ends⟩ := drain_spec desktop waiting b
  rcases ends with ⟨last, drained⟩ | ⟨payload, unread, error, b', next, drained, raised, stopped⟩
  · refine ⟨done, ?_, ?_⟩
    · simp only [pollSocket, drained]
      rw [split, last]
    · simp only [pollSocket, drained, prune]
      split
      · exact applied_times each b
      · exact applied_times each b
  · refine ⟨done ++ [payload], ?_, ?_⟩
    · simp only [pollSocket, drained]
      rw [split, next]
      simp
    · simp only [pollSocket, drained]
      rw [stopped_time stopped, applied_times each, latestTime_append]

/- A bench for fixed inputs: str() and the level ratio as they are on strings and
   on the loudness of the on-axis block. -/

def benchDesktop : Desktop ℚ :=
  { limits := Limits.standard
    str := fun value =>
      match value with
      | .str text => .ok text
      | _ => .error .valueError
    logRatio := fun _ => .ok (.finite (1154901959985743 / 10 ^ 15))
    str_text := fun _ => rfl }

def wholeDatagram : List UInt8 :=
  Utf8.encode ("\x7b\"timestamp\": 4, \"state\": \"TRACKING\", \"measurement_valid\": true, ".toList ++
    "\"rms\": 8000000, \"smoothed_error_deg\": 2.5\x7d".toList)

def bareDatagram : List UInt8 :=
  Utf8.encode "\x7b\"timestamp\": 5, \"state\": \"LOCKED\", \"measurement_valid\": true\x7d".toList

/-- The second datagram raises after its first two assignments, and the change
    that the first one made is not told. -/
theorem missing_rms_half_applied :
    let first := pollSocket benchDesktop 6 [wholeDatagram] (initial 3)
    let both := pollSocket benchDesktop 6 [wholeDatagram, bareDatagram] (initial 3)
    both.raised = some .keyError ∧ both.bridge.timestamp ≠ first.bridge.timestamp ∧
      both.bridge.stateSince ≠ first.bridge.stateSince ∧
      both.bridge.lastPacketTime = first.bridge.lastPacketTime ∧
      first.signals ≠ [] ∧ both.signals = [] := by
  decide +kernel

end SoqTracker.DatagramEffects
