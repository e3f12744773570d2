import SoqTracker.Components
import SoqTracker.CommandLink
import SoqTracker.ServoSafety
import SoqTracker.TelemetryLink

/- The whole system: the controller, the tracker and the dashboard, in any order
   of their moves. The serial line keeps its bytes in order in both directions,
   and any part of what is on it has arrived when a program reads. The tracker
   opens the port at any byte. Datagrams keep their order, and some get lost. -/
namespace SoqTracker.ClosedLoop
open ExtendedNumber Decimal Controller TrackerLoop Runs Components SerialReader
open TelemetryBridge (Desktop)
open TelemetryLink (Dashboard Tick dashboard tick arrivals)

variable {α Memory : Type} [Field α] [LinearOrder α]

/-- A turn of the controller whose sensor gives a heading of its range. -/
structure Sensing (α : Type) [Field α] [LinearOrder α] where
  turn : Firmware.Turn α
  degrees : α
  reads : turn.eulerX = .finite degrees
  low : 0 ≤ degrees
  high : degrees < 360

/-- Both interpreters have room for a packet, and repr gives at most 24 characters
    for a float. -/
structure Programs (α Memory : Type) [Field α] [LinearOrder α] where
  pid : Firmware.Pid α Memory
  py : Python α
  dsp : Dsp α
  desktop : Desktop α
  repr_short : ∀ x, (py.floatRepr x).length ≤ 24
  dumps_room : 0 < py.dumpsLimit
  datagram_room : 2000 ≤ py.maxDatagram
  loads_room : 0 < desktop.limits.nesting

/-- The programs, and what is on its way between them. The controller prints as
    many bytes as are unheard before the tracker opens the port. -/
structure System (α Memory : Type) where
  controller : Firmware.State α Memory
  tracker : Tracker α
  dashboard : Dashboard α
  toController : List UInt8
  toTracker : List UInt8
  toDashboard : List (List UInt8)
  unheard : Nat

inductive Action (α : Type) [Field α] [LinearOrder α] where
  | turn (sensing : Sensing α)
  | pass (pass : Pass α)
  | tick (tick : Tick α)
  | lose (place : Nat)

def begin (p : Programs α Memory) (imuReady : Bool) (unheard : Nat) (now : α) : System α Memory :=
  { controller := Firmware.start p.pid imuReady
    tracker := initial
    dashboard := dashboard now
    toController := []
    toTracker := []
    toDashboard := []
    unheard := unheard }

variable [FloorRing α] (p : Programs α Memory)

def printed (s : Firmware.State α Memory) (turn : Firmware.Turn α) : List UInt8 :=
  Utf8.encode (Firmware.loop p.pid s turn).2.report

def turned (s : System α Memory) (turn : Firmware.Turn α) : System α Memory :=
  { s with
    controller := (Firmware.loop p.pid s.controller turn).1
    toController := s.toController.drop turn.waiting.length
    toTracker := s.toTracker ++ (printed p s.controller turn).drop s.unheard
    unheard := s.unheard - (printed p s.controller turn).length }

def passed (s : System α Memory) (pass : Pass α) (tracker : Tracker α) : System α Memory :=
  { s with
    tracker := tracker
    toController := s.toController ++ (passWrites p.py p.dsp s.tracker pass).flatten
    toTracker := s.toTracker.drop pass.serial.length
    toDashboard :=
      s.toDashboard ++ (sent (mainLoop p.py p.dsp s.tracker pass).events).map Prod.snd }

def ticked (s : System α Memory) (t : Tick α) (d : Dashboard α) : System α Memory :=
  { s with
    dashboard := d
    toDashboard := s.toDashboard.drop t.arrived.length }

/-- A program reads what is at the front of its queue. A pass that stops the
    tracker is the end of its moves. -/
def step (s : System α Memory) : Action α → Option (System α Memory)
  | .turn sensing =>
      if sensing.turn.waiting <+: s.toController then some (turned p s sensing.turn) else none
  | .pass pass =>
      if pass.serial <+: s.toTracker then
        (next p.py p.dsp s.tracker pass).map (passed p s pass)
      else none
  | .tick t =>
      if t.arrived <+: s.toDashboard then
        (tick p.desktop s.dashboard t).map (ticked s t)
      else none
  | .lose place => some { s with toDashboard := s.toDashboard.eraseIdx place }

/- The parts. -/

abbrev Moment (α Memory : Type) [Field α] [LinearOrder α] :=
  Transition (System α Memory) (Action α)

def turn? : Action α → Option (Firmware.Turn α)
  | .turn sensing => some sensing.turn
  | _ => none

def pass? : Action α → Option (Pass α)
  | .pass pass => some pass
  | _ => none

def tick? : Action α → Option (Tick α)
  | .tick t => some t
  | _ => none

def turns (history : List (Moment α Memory)) : List (Cycle α Memory) :=
  steps System.controller turn? history

def blocks (history : List (Moment α Memory)) : List (Block α) :=
  steps System.tracker pass? history

def ticks (history : List (Moment α Memory)) : List (Transition (Dashboard α) (Tick α)) :=
  steps System.dashboard tick? history

inductive Stepped (s : System α Memory) : Action α → System α Memory → Prop where
  | turn (sensing : Sensing α) (arrived : sensing.turn.waiting <+: s.toController) :
      Stepped s (.turn sensing) (turned p s sensing.turn)
  | pass (pass : Pass α) (arrived : pass.serial <+: s.toTracker) {tracker : Tracker α}
      (moved : next p.py p.dsp s.tracker pass = some tracker) :
      Stepped s (.pass pass) (passed p s pass tracker)
  | tick (t : Tick α) (arrived : t.arrived <+: s.toDashboard) {d : Dashboard α}
      (moved : tick p.desktop s.dashboard t = some d) : Stepped s (.tick t) (ticked s t d)
  | lose (place : Nat) :
      Stepped s (.lose place) { s with toDashboard := s.toDashboard.eraseIdx place }

variable {p} {imuReady : Bool} {unheard : Nat} {now : α} {history : List (Moment α Memory)}
  {s s' : System α Memory}

theorem step_cases {action : Action α} (moved : step p s action = some s') :
    Stepped p s action s' := by
  cases action with
  | turn sensing =>
    obtain ⟨arrived, went⟩ := Option.ite_none_right_eq_some.mp moved
    obtain rfl := Option.some.inj went
    exact .turn sensing arrived
  | pass pass =>
    obtain ⟨arrived, went⟩ := Option.ite_none_right_eq_some.mp moved
    obtain ⟨tracker, passes, rfl⟩ := Option.map_eq_some_iff.mp went
    exact .pass pass arrived passes
  | tick t =>
    obtain ⟨arrived, went⟩ := Option.ite_none_right_eq_some.mp moved
    obtain ⟨d, ticks, rfl⟩ := Option.map_eq_some_iff.mp went
    exact .tick t arrived ticks
  | lose place =>
    obtain rfl := Option.some.inj moved
    exact .lose place

theorem turns_run (run : Run (step p) (begin p imuReady unheard now) history s) :
    Run (Firmware.next p.pid) (Firmware.start p.pid imuReady) (turns history) s.controller := by
  refine run_part System.controller turn? ?moves ?rests run
  case moves =>
    intro s action s' turn moved here
    cases step_cases moved with
    | turn sensing =>
      obtain rfl := Option.some.inj here
      rfl
    | pass pass => simp [turn?] at here
    | tick t => simp [turn?] at here
    | lose place => simp [turn?] at here
  case rests =>
    intro s action s' moved here
    cases step_cases moved with
    | turn sensing => simp [turn?] at here
    | pass pass => rfl
    | tick t => rfl
    | lose place => rfl

theorem blocks_run (run : Run (step p) (begin p imuReady unheard now) history s) :
    Run (next p.py p.dsp) initial (blocks history) s.tracker := by
  refine run_part System.tracker pass? ?moves ?rests run
  case moves =>
    intro s action s' pass moved here
    cases step_cases moved with
    | turn sensing => simp [pass?] at here
    | pass pass arrived passes =>
      obtain rfl := Option.some.inj here
      exact passes
    | tick t => simp [pass?] at here
    | lose place => simp [pass?] at here
  case rests =>
    intro s action s' moved here
    cases step_cases moved with
    | turn sensing => rfl
    | pass pass => simp [pass?] at here
    | tick t => rfl
    | lose place => rfl

theorem ticks_run (run : Run (step p) (begin p imuReady unheard now) history s) :
    Run (tick p.desktop) (dashboard now) (ticks history) s.dashboard := by
  refine run_part System.dashboard tick? ?moves ?rests run
  case moves =>
    intro s action s' t moved here
    cases step_cases moved with
    | turn sensing => simp [tick?] at here
    | pass pass => simp [tick?] at here
    | tick t arrived ticks =>
      obtain rfl := Option.some.inj here
      exact ticks
    | lose place => simp [tick?] at here
  case rests =>
    intro s action s' moved here
    cases step_cases moved with
    | turn sensing => rfl
    | pass pass => rfl
    | tick t => simp [tick?] at here
    | lose place => rfl

/- The queues. -/

def commandsWritten (p : Programs α Memory) (blocks : List (Block α)) : List UInt8 :=
  along (fun b => (blockWrites p.py p.dsp b).flatten) blocks

def reportsPrinted (p : Programs α Memory) (turns : List (Cycle α Memory)) : List UInt8 :=
  along (fun t => printed p t.before t.input) turns

def bytesHeard (blocks : List (Block α)) : List UInt8 := along (fun b => b.input.serial) blocks

theorem take_front {Message : Type} {front queue : List Message} (arrived : front <+: queue) :
    front ++ queue.drop front.length = queue := by
  obtain ⟨back, rfl⟩ := arrived
  rw [List.drop_left]

theorem commands_kept (run : Run (step p) (begin p imuReady unheard now) history s) :
    commandsWritten p (blocks history) = bytesRead (turns history) ++ s.toController := by
  have kept := queue_run System.toController
    (given System.tracker pass? fun b => (blockWrites p.py p.dsp b).flatten)
    (given System.controller turn? fun t => t.input.waiting) ?each run rfl
  case each =>
    intro s action s' moved
    cases step_cases moved with
    | turn sensing arrived => exact (List.append_nil _).trans (take_front arrived).symm
    | pass pass arrived passes => rfl
    | tick t => exact List.append_nil _
    | lose place => exact List.append_nil _
  rw [along_given, along_given] at kept
  exact kept

def printedAt (p : Programs α Memory) : Moment α Memory → List UInt8 :=
  given System.controller turn? fun t => printed p t.before t.input

theorem unheard_left (run : Run (step p) (begin p imuReady unheard now) history s) :
    s.unheard = unheard - (along (printedAt p) history).length := by
  induction run with
  | start => rfl
  | step earlier moved ih =>
    rw [along_cons, List.length_append, ← Nat.sub_sub, ← ih]
    cases step_cases moved with
    | turn sensing => rfl
    | pass pass => rfl
    | tick t => rfl
    | lose place => rfl

theorem heard_from (run : Run (step p) (begin p imuReady unheard now) history s) :
    along (fun t => (printedAt p t).drop t.before.unheard) history =
      (along (printedAt p) history).drop unheard := by
  induction run with
  | start => simp [along]
  | step earlier moved ih =>
    rw [along_cons, along_cons, ih, unheard_left earlier, List.drop_append]

theorem reports_kept (run : Run (step p) (begin p imuReady unheard now) history s) :
    (reportsPrinted p (turns history)).drop unheard = bytesHeard (blocks history) ++ s.toTracker := by
  have heard := queue_run System.toTracker (fun t => (printedAt p t).drop t.before.unheard)
    (given System.tracker pass? fun b => b.input.serial) ?each run rfl
  case each =>
    intro s action s' moved
    cases step_cases moved with
    | turn sensing => rfl
    | pass pass arrived passes =>
      simpa [printedAt, given, turn?, pass?, passed] using (take_front arrived).symm
    | tick t => simp [printedAt, given, turn?, pass?, ticked]
    | lose place => simp [printedAt, given, turn?, pass?]
  rw [heard_from run, printedAt, along_given, along_given] at heard
  exact heard

theorem datagrams_kept (run : Run (step p) (begin p imuReady unheard now) history s) :
    (arrivals (ticks history) ++ s.toDashboard).Sublist
      (TelemetryLink.payloads p.py p.dsp (blocks history)) := by
  have kept := lossy_run System.toDashboard
    (given System.tracker pass? fun b => (blockPackets p.py p.dsp b).map Prod.snd)
    (given System.dashboard tick? fun t => t.input.arrived) ?each run rfl
  case each =>
    intro s action s' moved
    cases step_cases moved with
    | turn sensing arrived => simp [given, tick?, pass?, turned]
    | pass pass arrived passes => exact .refl _
    | tick t arrived => simp [given, tick?, pass?, ticked, take_front arrived]
    | lose place => simpa [given, tick?, pass?] using List.eraseIdx_sublist _ _
  rw [along_given, along_given] at kept
  exact kept

/- A bench for runs on fixed inputs: the float texts of the tracker's bench, cut to
   the length that a float's has. -/

def benchPrograms : Programs ℚ Unit where
  pid := Firmware.benchPid
  py := { benchPython with floatRepr := fun x => (benchPython.floatRepr x).take 24 }
  dsp := benchDsp
  desktop := DatagramEffects.benchDesktop
  repr_short := fun _ => List.length_take_le _ _
  dumps_room := by decide
  datagram_room := by decide
  loads_room := by decide

def benchSensing (millis : UInt32) (waiting : List UInt8) : Sensing ℚ where
  turn := ⟨millis, waiting, 24, .finite (617 / 5), 3⟩
  degrees := 617 / 5
  reads := rfl
  low := by norm_num
  high := by norm_num

theorem bench_begin (unheard : Nat) :
    Run (step benchPrograms) (begin benchPrograms true unheard 9) []
      (begin benchPrograms true unheard 9) := Run.start

end SoqTracker.ClosedLoop
