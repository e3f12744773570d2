import Mathlib.Data.List.Nodup
import Mathlib.Data.List.Flatten

/- The isochronous streams of libfreenect's usb_libusb10.c. A stream owns a fixed
   number of transfers. libusb holds a submitted transfer until it hands it back
   through iso_callback, once for each submission, and the stream counts those
   that are not submitted again as dead. -/
namespace SoqTracker.IsoTransfers

/-- The status of a transfer handed back. The last case stands for errors,
    timeouts, stalls and overflows. -/
inductive Status where
  | completed
  | noDevice
  | cancelled
  | error
deriving DecidableEq

inductive Submission where
  | taken
  | noDevice
  | refused
deriving DecidableEq

structure IsocStream where
  numXfers : Nat
  pkts : Nat
  len : Nat
  dead : Bool
  deadXfers : Nat

/-- A transfer handed back, and libusb's answer should it be submitted again. -/
structure HandedBack where
  status : Status
  buffer : List UInt8
  actualLength : Nat → Nat
  again : Submission

/-- What iso_callback does: the stream, whether the device was found dead, the
    packets given to the stream's callback and whether libusb has the transfer again. -/
structure Handled where
  strm : IsocStream
  foundDead : Bool
  given : List (List UInt8)
  resubmitted : Bool

def isoPackets (pkts len : Nat) (xfer : HandedBack) : List (List UInt8) :=
  (List.range pkts).map fun i => (xfer.buffer.drop (len * i)).take (xfer.actualLength i)

def IsocStream.lose (strm : IsocStream) : IsocStream :=
  { strm with deadXfers := strm.deadXfers + 1 }

def resubmit (strm : IsocStream) (xfer : HandedBack) (given : List (List UInt8)) : Handled :=
  match xfer.again with
  | .taken => ⟨strm, false, given, true⟩
  | .noDevice => ⟨strm.lose, true, given, false⟩
  | .refused => ⟨strm.lose, false, given, false⟩

def isoCallback (strm : IsocStream) (xfer : HandedBack) : Handled :=
  if strm.dead then ⟨strm.lose, false, [], false⟩
  else
    match xfer.status with
    | .completed => resubmit strm xfer (isoPackets strm.pkts strm.len xfer)
    | .noDevice => ⟨strm.lose, true, [], false⟩
    | .cancelled => ⟨strm.lose, true, [], false⟩
    | .error => resubmit strm xfer []

/- A stream together with what libusb holds of it. -/

inductive Fate where
  | noMemory
  | refused
  | taken
deriving DecidableEq

structure Pipe where
  strm : IsocStream
  submitted : List Nat
  unallocated : List Nat
  freed : Bool

def startXfer (pipe : Pipe) (i : Nat) : Fate → Pipe
  | .noMemory => { pipe with strm := pipe.strm.lose, unallocated := i :: pipe.unallocated }
  | .refused => { pipe with strm := pipe.strm.lose }
  | .taken => { pipe with submitted := i :: pipe.submitted }

def startXfers (pipe : Pipe) (i : Nat) : List Fate → Pipe
  | [] => pipe
  | fate :: fates => startXfers (startXfer pipe i fate) (i + 1) fates

def fnusbStartIso (pkts len : Nat) (fates : List Fate) : Pipe :=
  startXfers ⟨⟨fates.length, pkts, len, false, 0⟩, [], [], false⟩ 0 fates

def handBack (pipe : Pipe) (i : Nat) (xfer : HandedBack) : Pipe :=
  let handled := isoCallback pipe.strm xfer
  let others := pipe.submitted.erase i
  { pipe with
    strm := handled.strm
    submitted := if handled.resubmitted then i :: others else others }

def markDead (pipe : Pipe) : Pipe := { pipe with strm := { pipe.strm with dead := true } }

/-- What fnusb_stop_iso waits for. -/
def Drained (pipe : Pipe) : Prop := ¬ pipe.strm.deadXfers < pipe.strm.numXfers

instance (pipe : Pipe) : Decidable (Drained pipe) :=
  inferInstanceAs (Decidable (¬ pipe.strm.deadXfers < pipe.strm.numXfers))

/- Each transfer is either with libusb or dead. -/

structure Accounted (pipe : Pipe) : Prop where
  once : pipe.submitted.Nodup
  total : pipe.submitted.length + pipe.strm.deadXfers = pipe.strm.numXfers

theorem drained_iff {pipe : Pipe} (accounted : Accounted pipe) :
    Drained pipe ↔ pipe.submitted = [] := by
  have total := accounted.total
  rw [Drained, ← List.length_eq_zero_iff]
  omega

theorem callback_counts (strm : IsocStream) (xfer : HandedBack) :
    (isoCallback strm xfer).strm = (if (isoCallback strm xfer).resubmitted then strm else strm.lose)
      ∧ (strm.dead → (isoCallback strm xfer).resubmitted = false ∧
        (isoCallback strm xfer).given = []) := by
  unfold isoCallback
  cases dead : strm.dead with
  | true => simp
  | false =>
    cases xfer.status with
    | completed => cases again : xfer.again <;> simp [resubmit, again]
    | noDevice => simp
    | cancelled => simp
    | error => cases again : xfer.again <;> simp [resubmit, again]

theorem callback_given (strm : IsocStream) (xfer : HandedBack) :
    (isoCallback strm xfer).given = if strm.dead = false ∧ xfer.status = .completed
      then isoPackets strm.pkts strm.len xfer else [] := by
  unfold isoCallback
  cases dead : strm.dead with
  | true => simp
  | false =>
    cases xfer.status with
    | completed => cases again : xfer.again <;> simp [resubmit, again]
    | noDevice => simp
    | cancelled => simp
    | error => cases again : xfer.again <;> simp [resubmit, again]

theorem handBack_cases (pipe : Pipe) (i : Nat) (xfer : HandedBack) :
    handBack pipe i xfer = (if (isoCallback pipe.strm xfer).resubmitted
      then { pipe with submitted := i :: pipe.submitted.erase i }
      else { pipe with strm := pipe.strm.lose, submitted := pipe.submitted.erase i }) := by
  obtain ⟨strm, _⟩ := callback_counts pipe.strm xfer
  unfold handBack
  cases again : (isoCallback pipe.strm xfer).resubmitted with
  | true =>
    rw [again, if_pos rfl] at strm
    simp [again, strm]
  | false =>
    rw [again, if_neg (by decide)] at strm
    simp [again, strm]

theorem handBack_accounted {pipe : Pipe} (accounted : Accounted pipe) {i : Nat}
    (held : i ∈ pipe.submitted) (xfer : HandedBack) : Accounted (handBack pipe i xfer) := by
  obtain ⟨once, total⟩ := accounted
  have size := List.length_erase_of_mem held
  have some := List.length_pos_of_mem held
  have absent : i ∉ pipe.submitted.erase i := fun mem => (once.mem_erase_iff.mp mem).1 rfl
  rw [handBack_cases]
  split
  · refine ⟨List.nodup_cons.mpr ⟨absent, once.erase i⟩, ?_⟩
    simp only [List.length_cons]
    omega
  · refine ⟨once.erase i, ?_⟩
    simp only [IsocStream.lose]
    omega

theorem markDead_accounted {pipe : Pipe} (accounted : Accounted pipe) :
    Accounted (markDead pipe) := ⟨accounted.once, accounted.total⟩

/-- A dead stream gives nothing on and takes nothing back to libusb. -/
theorem handBack_dead {pipe : Pipe} (dead : pipe.strm.dead) (i : Nat) (xfer : HandedBack) :
    (isoCallback pipe.strm xfer).given = [] ∧
      (handBack pipe i xfer).submitted = pipe.submitted.erase i := by
  obtain ⟨back, given⟩ := (callback_counts pipe.strm xfer).2 dead
  refine ⟨given, ?_⟩
  rw [handBack_cases, if_neg (by simp [back])]

/- Starting. -/

structure Making (n : Nat) (pipe : Pipe) : Prop where
  once : pipe.submitted.Nodup
  made : ∀ j ∈ pipe.submitted, j < n
  total : pipe.submitted.length + pipe.strm.deadXfers = n

theorem startXfer_making {n : Nat} {pipe : Pipe} (making : Making n pipe) (fate : Fate) :
    Making (n + 1) (startXfer pipe n fate) := by
  obtain ⟨once, made, total⟩ := making
  have later : ∀ j ∈ pipe.submitted, j < n + 1 := fun j mem => Nat.lt_succ_of_lt (made j mem)
  cases fate with
  | noMemory => exact ⟨once, later, by simp only [startXfer, IsocStream.lose]; omega⟩
  | refused => exact ⟨once, later, by simp only [startXfer, IsocStream.lose]; omega⟩
  | taken =>
    have fresh : n ∉ pipe.submitted := fun mem => Nat.lt_irrefl n (made n mem)
    refine ⟨List.nodup_cons.mpr ⟨fresh, once⟩, ?_, ?_⟩
    · intro j mem
      rcases List.mem_cons.mp mem with rfl | old
      · exact Nat.lt_succ_self _
      · exact later j old
    · simp only [startXfer, List.length_cons]
      omega

theorem startXfers_making (fates : List Fate) {n : Nat} {pipe : Pipe} (making : Making n pipe) :
    Making (n + fates.length) (startXfers pipe n fates) ∧
      (startXfers pipe n fates).strm.numXfers = pipe.strm.numXfers := by
  induction fates generalizing n pipe with
  | nil => exact ⟨making, rfl⟩
  | cons fate fates ih =>
    obtain ⟨done, same⟩ := ih (startXfer_making making fate)
    rw [startXfers, List.length_cons, Nat.add_right_comm, Nat.add_assoc] at *
    refine ⟨done, same.trans ?_⟩
    cases fate <;> rfl

theorem start_accounted (pkts len : Nat) (fates : List Fate) :
    Accounted (fnusbStartIso pkts len fates) := by
  have empty : Making 0 ⟨⟨fates.length, pkts, len, false, 0⟩, [], [], false⟩ :=
    ⟨List.nodup_nil, by simp, rfl⟩
  obtain ⟨⟨once, _, total⟩, same⟩ := startXfers_making fates empty
  refine ⟨once, ?_⟩
  unfold fnusbStartIso
  rw [total, same, Nat.zero_add]

end SoqTracker.IsoTransfers
