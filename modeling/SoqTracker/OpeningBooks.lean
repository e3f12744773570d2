import SoqTracker.Ledger
import SoqTracker.SubdeviceOpening
import Mathlib.Algebra.Order.Group.Multiset
import Mathlib.Data.Multiset.UnionInter
import Mathlib.Tactic.Abel

/- What the opening of subdevices does to the handles, the claimed interfaces and the
   lists of devices that the program holds. -/
namespace SoqTracker.OpeningBooks
open Ledger FirmwareUpload SubdeviceOpening

/- Calls. -/

def handleEffect (past : List Call) : Call → Effect Handle
  | .opened _ false => .takes past.length
  | .closed h => .gives h
  | .claimed h _ => .uses h
  | .released h => .uses h
  | .served h => .uses h
  | .serialRead h _ => .uses h
  | .uploaded h _ => .uses h
  | _ => .other

def claimEffect (_ : List Call) : Call → Effect Handle
  | .claimed h false => .takes h
  | .released h => .gives h
  | .closed h => .gives h
  | _ => .other

def listEffect (past : List Call) : Call → Effect Nat
  | .listed false => .takes past.length
  | .unlisted (some place) => .gives place
  | .unlisted none => .faults
  | _ => .other

def lastSerial : List Call → Option (List UInt8)
  | [] => none
  | .serialRead _ (.ok bytes) :: _ => some (cString bytes)
  | _ :: past => lastSerial past

/-- The serial number of the device that was sent its firmware last. -/
def wanted : List Call → Option (List UInt8)
  | [] => none
  | .uploaded _ _ :: past => lastSerial past
  | _ :: past => wanted past

/-- The handles of the devices met with another serial number than the wanted one. -/
def strays : List Call → Multiset Handle
  | [] => 0
  | .serialRead h (.ok bytes) :: past =>
      match wanted past with
      | none => strays past
      | some audioSerial =>
          if SameSerial audioSerial bytes then strays past else h ::ₘ strays past
  | _ :: past => strays past

/-- No list was refused while a device was awaited. -/
def Listable : List Call → Prop
  | [] => True
  | .listed true :: past => wanted past = none ∧ Listable past
  | _ :: past => Listable past

def naps : List Call → Nat
  | [] => 0
  | .slept :: past => naps past + 1
  | _ :: past => naps past

theorem strays_same {past : List Call} {audioSerial bytes : List UInt8}
    (want : wanted past = some audioSerial) (same : SameSerial audioSerial bytes) (h : Handle) :
    strays (.serialRead h (.ok bytes) :: past) = strays past := by
  simp only [strays, want, if_pos same]

theorem strays_differs {past : List Call} {audioSerial bytes : List UInt8}
    (want : wanted past = some audioSerial) (differs : ¬ SameSerial audioSerial bytes)
    (h : Handle) : strays (.serialRead h (.ok bytes) :: past) = h ::ₘ strays past := by
  simp only [strays, want, if_neg differs]

theorem held_below (calls : List Call) : ∀ h ∈ held handleEffect calls, h < calls.length := by
  induction calls with
  | nil => simp [held]
  | cons c past ih =>
    intro h mem
    rw [List.length_cons]
    cases does : handleEffect past c with
    | takes r =>
      rw [held_takes does, Multiset.mem_cons] at mem
      rcases mem with rfl | before
      · cases c <;> simp only [handleEffect] at does <;> grind
      · exact Nat.lt_succ_of_lt (ih h before)
    | gives r =>
      rw [held_gives does] at mem
      exact Nat.lt_succ_of_lt (ih h (Multiset.mem_of_mem_erase mem))
    | uses r =>
      rw [held_uses does] at mem
      exact Nat.lt_succ_of_lt (ih h mem)
    | faults =>
      rw [held_faults does] at mem
      exact Nat.lt_succ_of_lt (ih h mem)
    | other =>
      rw [held_other does] at mem
      exact Nat.lt_succ_of_lt (ih h mem)

theorem opened_fresh (past : List Call) (c : Call) (h : Handle)
    (takes : handleEffect past c = .takes h) : h ∉ held handleEffect past := by
  intro mem
  have below := held_below past h mem
  cases c <;> simp only [handleEffect] at takes <;> grind

theorem handles_nodup (calls : List Call) : (held handleEffect calls).Nodup :=
  held_nodup opened_fresh calls

theorem handles_faultless (calls : List Call) : Faultless handleEffect calls := by
  refine faultless_always (fun past c => ?_) calls
  unfold handleEffect
  split <;> exact nofun

theorem faultless_listing {past : List Call} {c : Call} (known : c ≠ .unlisted none) :
    Faultless listEffect (c :: past) ↔ Faultless listEffect past := by
  refine faultless_past fun faults => known ?_
  unfold listEffect at faults
  split at faults <;> first | rfl | cases faults

/- The device. -/

def single : Option Handle → Multiset Handle
  | none => 0
  | some h => {h}

def handles (dev : FreenectDevice) : Multiset Handle :=
  single dev.usbCam + single dev.usbMotor + single dev.usbAudio

theorem handles_put {dev : FreenectDevice} {kind : Kind} (free : dev.handle kind = none)
    (h : Handle) : handles (dev.put (some h) kind) = h ::ₘ handles dev := by
  rw [← Multiset.singleton_add]
  cases kind with
  | camera =>
    have empty : dev.usbCam = none := free
    simp only [handles, FreenectDevice.put, empty, single]
    abel
  | motor =>
    have empty : dev.usbMotor = none := free
    simp only [handles, FreenectDevice.put, empty, single]
    abel
  | audio =>
    have empty : dev.usbAudio = none := free
    simp only [handles, FreenectDevice.put, empty, single]
    abel

@[simp] theorem handle_put (dev : FreenectDevice) (h : Option Handle) (kind kind' : Kind) :
    (dev.put h kind).handle kind' = if kind' = kind then h else dev.handle kind' := by
  cases kind <;> cases kind' <;> rfl

theorem put_handle (dev : FreenectDevice) (h : Option Handle) (kind : Kind) :
    (dev.put h kind).handle kind = h := by simp

theorem put_same {dev : FreenectDevice} {kind : Kind} {h : Option Handle}
    (kept : dev.handle kind = h) : dev.put h kind = dev := by
  subst kept
  cases kind <;> rfl

theorem put_put (dev : FreenectDevice) (h h' : Option Handle) (kind : Kind) :
    (dev.put h kind).put h' kind = dev.put h' kind := by
  cases kind <;> rfl

theorem handles_taken {dev : FreenectDevice} {kind : Kind} {h : Handle}
    (taken : dev.handle kind = some h) : handles dev = h ::ₘ handles (dev.put none kind) := by
  have free : (dev.put none kind).handle kind = none := by simp
  rw [← handles_put free, put_put, put_same taken]

theorem handles_congr {dev dev' : FreenectDevice}
    (same : ∀ kind, dev'.handle kind = dev.handle kind) : handles dev' = handles dev := by
  have camera : dev'.usbCam = dev.usbCam := same .camera
  have motor : dev'.usbMotor = dev.usbMotor := same .motor
  have audio : dev'.usbAudio = dev.usbAudio := same .audio
  rw [handles, handles, camera, motor, audio]

theorem handle_member {dev : FreenectDevice} {kind : Kind} {h : Handle}
    (taken : dev.handle kind = some h) : h ∈ handles dev := by
  rw [handles_taken taken]
  exact Multiset.mem_cons_self _ _

/- The books. -/

def Session.after (s : Session) (c : Call) : Session := { s with calls := c :: s.calls }

/-- Every open handle is one of the device's, a stray or one of the others, and the
    device's have claimed their interfaces, except for one at most. -/
structure Books (others : Multiset Handle) (unclaimed : Option Handle) (s : Session) : Prop where
  owned : Owned handleEffect s.calls
  accounted : held handleEffect s.calls = handles s.dev + (strays s.calls + others)
  claimed : ∀ h ∈ handles s.dev, some h ≠ unclaimed → h ∈ held claimEffect s.calls
  lists : Owned listEffect s.calls
  ready : Faultless listEffect s.calls ↔ Listable s.calls

section Books
variable {others : Multiset Handle} {unclaimed : Option Handle} {s : Session} {h : Handle}

theorem Books.any (books : Books others none s) : Books others unclaimed s :=
  { books with claimed := fun h mem _ => books.claimed h mem (Option.some_ne_none _) }

theorem Books.own (books : Books others unclaimed s) (kept : h ∈ handles s.dev) :
    h ∈ held handleEffect s.calls := by
  rw [books.accounted]
  exact Multiset.mem_add.mpr (.inl kept)

theorem Books.other (books : Books (h ::ₘ others) unclaimed s) :
    h ∈ held handleEffect s.calls := by
  rw [books.accounted, Multiset.mem_add, Multiset.mem_add]
  exact .inr (.inr (Multiset.mem_cons_self _ _))

theorem Books.apart (books : Books (h ::ₘ others) unclaimed s) : h ∉ handles s.dev := by
  intro mem
  have once := handles_nodup s.calls
  rw [books.accounted, Multiset.nodup_add] at once
  refine Multiset.disjoint_left.mp once.2.2 mem ?_
  exact Multiset.mem_add.mpr (.inr (Multiset.mem_cons_self _ _))

theorem Books.still (books : Books others unclaimed s) {c : Call} (known : c ≠ .unlisted none)
    (listable : Listable (c :: s.calls) ↔ Listable s.calls) :
    Faultless listEffect (Session.after s c).calls ↔ Listable (Session.after s c).calls :=
  ((faultless_listing known).trans books.ready).trans listable.symm

theorem Books.plain (books : Books others unclaimed s) {c : Call}
    (does : handleEffect s.calls c = .other ∨
      ∃ h ∈ held handleEffect s.calls, handleEffect s.calls c = .uses h)
    (claims : claimEffect s.calls c = .other) (lists : listEffect s.calls c = .other)
    (listable : Listable (c :: s.calls) ↔ Listable s.calls)
    (same : strays (c :: s.calls) = strays s.calls) :
    Books others unclaimed (Session.after s c) where
  owned := by
    rcases does with other | ⟨h, mem, uses⟩
    · exact (owned_other other).mpr books.owned
    · exact (owned_uses uses).mpr ⟨books.owned, mem⟩
  accounted := by
    have same : strays (Session.after s c).calls = strays s.calls := same
    rw [same]
    rcases does with other | ⟨h, mem, uses⟩
    · exact (held_other other).trans books.accounted
    · exact (held_uses uses).trans books.accounted
  claimed := fun h mem kept => by
    have claimed := books.claimed h mem kept
    rwa [Session.after, held_other claims]
  lists := (owned_other lists).mpr books.lists
  ready := by
    refine books.still (fun unset => ?_) listable
    subst unset
    exact nomatch lists

theorem Books.served (books : Books others unclaimed s) (mem : h ∈ held handleEffect s.calls) :
    Books others unclaimed (Session.after s (.served h)) :=
  books.plain (.inr ⟨h, mem, rfl⟩) rfl rfl .rfl rfl

theorem Books.refused (books : Books others unclaimed s) (mem : h ∈ held handleEffect s.calls) :
    Books others unclaimed (Session.after s (.claimed h true)) :=
  books.plain (.inr ⟨h, mem, rfl⟩) rfl rfl .rfl rfl

theorem Books.serial (books : Books others unclaimed s) (mem : h ∈ held handleEffect s.calls)
    {serial : Except Failure (List UInt8)}
    (same : strays (.serialRead h serial :: s.calls) = strays s.calls) :
    Books others unclaimed (Session.after s (.serialRead h serial)) :=
  books.plain (.inr ⟨h, mem, rfl⟩) rfl rfl .rfl same

theorem Books.opened (books : Books others unclaimed s) (device : Device) :
    Books (s.calls.length ::ₘ others) unclaimed (Session.after s (.opened device false)) where
  owned := (owned_takes rfl).mpr books.owned
  accounted := by
    refine (held_takes rfl).trans ?_
    rw [books.accounted, Multiset.add_cons, Multiset.add_cons]
    rfl
  claimed := fun h mem kept => by
    have claimed := books.claimed h mem kept
    rwa [Session.after, held_other rfl]
  lists := (owned_other rfl).mpr books.lists
  ready := books.still nofun .rfl

theorem Books.closed (books : Books (h ::ₘ others) unclaimed s) :
    Books others unclaimed (Session.after s (.closed h)) where
  owned := (owned_gives rfl).mpr ⟨books.owned, books.other⟩
  accounted := by
    refine (held_gives rfl).trans ?_
    rw [books.accounted, Multiset.add_cons, Multiset.add_cons, Multiset.erase_cons_head]
    rfl
  claimed := fun k mem kept => by
    have distinct : k ≠ h := fun same => books.apart (same ▸ mem)
    rw [Session.after, held_gives rfl, Multiset.mem_erase_of_ne distinct]
    exact books.claimed k mem kept
  lists := (owned_other rfl).mpr books.lists
  ready := books.still nofun .rfl

theorem Books.released (books : Books (h ::ₘ others) unclaimed s) :
    Books (h ::ₘ others) unclaimed (Session.after s (.released h)) where
  owned := (owned_uses rfl).mpr ⟨books.owned, books.other⟩
  accounted := (held_uses rfl).trans books.accounted
  claimed := fun k mem kept => by
    have distinct : k ≠ h := fun same => books.apart (same ▸ mem)
    rw [Session.after, held_gives rfl, Multiset.mem_erase_of_ne distinct]
    exact books.claimed k mem kept
  lists := (owned_other rfl).mpr books.lists
  ready := books.still nofun .rfl

theorem Books.claims (books : Books others unclaimed s) (mem : h ∈ held handleEffect s.calls) :
    Books others unclaimed (Session.after s (.claimed h false)) where
  owned := (owned_uses rfl).mpr ⟨books.owned, mem⟩
  accounted := (held_uses rfl).trans books.accounted
  claimed := fun k inside kept => by
    rw [Session.after, held_takes rfl, Multiset.mem_cons]
    exact .inr (books.claimed k inside kept)
  lists := (owned_other rfl).mpr books.lists
  ready := books.still nofun .rfl

theorem Books.whole (books : Books others (some h) s) (mem : h ∈ held claimEffect s.calls) :
    Books others none s :=
  { books with
    claimed := fun k inside _ => by
      by_cases same : k = h
      · exact same ▸ mem
      · exact books.claimed k inside fun eq => same (Option.some.inj eq) }

theorem claimed_held (s : Session) (h : Handle) :
    h ∈ held claimEffect (Session.after s (.claimed h false)).calls := by
  rw [Session.after, held_takes rfl]
  exact Multiset.mem_cons_self _ _

theorem Books.completed (books : Books others (some h) s) (mem : h ∈ held handleEffect s.calls) :
    Books others none (Session.after s (.claimed h false)) :=
  (books.claims mem).whole (claimed_held s h)

theorem Books.listed (books : Books others unclaimed s) :
    Books others unclaimed (Session.after s (.listed false)) where
  owned := (owned_other rfl).mpr books.owned
  accounted := (held_other rfl).trans books.accounted
  claimed := fun k mem kept => by
    have claimed := books.claimed k mem kept
    rwa [Session.after, held_other rfl]
  lists := (owned_takes rfl).mpr books.lists
  ready := books.still nofun .rfl

theorem Books.unlisted (books : Books others unclaimed s) {place : Nat}
    (mem : place ∈ held listEffect s.calls) :
    Books others unclaimed (Session.after s (.unlisted (some place))) where
  owned := (owned_other rfl).mpr books.owned
  accounted := (held_other rfl).trans books.accounted
  claimed := fun k mem kept => by
    have claimed := books.claimed k mem kept
    rwa [Session.after, held_other rfl]
  lists := (owned_gives rfl).mpr ⟨books.lists, mem⟩
  ready := books.still nofun .rfl

theorem Books.unset (books : Books others unclaimed s) {audioSerial : List UInt8}
    (want : wanted s.calls = some audioSerial) :
    Books others unclaimed (Session.after (Session.after s (.listed true)) (.unlisted none)) where
  owned := (owned_other rfl).mpr ((owned_other rfl).mpr books.owned)
  accounted := ((held_other rfl).trans (held_other rfl)).trans books.accounted
  claimed := fun k mem kept => by
    have claimed := books.claimed k mem kept
    rwa [Session.after, held_other rfl, Session.after, held_other rfl]
  lists := (owned_faults rfl).mpr ((owned_other rfl).mpr books.lists)
  ready := by
    have refused : ¬ (wanted s.calls = none ∧ Listable s.calls) := by
      rw [want]
      exact fun listable => nomatch listable.1
    exact iff_of_false (not_faultless rfl) refused

theorem Books.stray (books : Books (h ::ₘ others) unclaimed s) {bytes audioSerial : List UInt8}
    (want : wanted s.calls = some audioSerial) (differs : ¬ SameSerial audioSerial bytes) :
    Books others unclaimed (Session.after s (.serialRead h (.ok bytes))) where
  owned := (owned_uses rfl).mpr ⟨books.owned, books.other⟩
  accounted := by
    have met : strays (Session.after s (.serialRead h (.ok bytes))).calls =
        h ::ₘ strays s.calls := strays_differs want differs h
    rw [met, Multiset.cons_add, ← Multiset.add_cons]
    exact (held_uses rfl).trans books.accounted
  claimed := fun k mem kept => by
    have claimed := books.claimed k mem kept
    rwa [Session.after, held_other rfl]
  lists := (owned_other rfl).mpr books.lists
  ready := books.still nofun .rfl

theorem Books.put (books : Books (h ::ₘ others) none s) {kind : Kind}
    (free : s.dev.handle kind = none) :
    Books others (some h) { s with dev := s.dev.put (some h) kind } where
  owned := books.owned
  accounted := by
    rw [handles_put free, Multiset.cons_add, ← Multiset.add_cons, ← Multiset.add_cons]
    exact books.accounted
  claimed := fun k mem kept => by
    rw [handles_put free, Multiset.mem_cons] at mem
    rcases mem with same | before
    · exact absurd (congrArg some same) kept
    · exact books.claimed k before (Option.some_ne_none _)
  lists := books.lists
  ready := books.ready

theorem Books.taken (books : Books others none s) (device : Device) {kind : Kind}
    (free : s.dev.handle kind = none) :
    Books others (some s.calls.length)
      { Session.after s (.opened device false) with dev := s.dev.put (some s.calls.length) kind } :=
  (books.opened device).put free

theorem Books.drop (books : Books others unclaimed s) {kind : Kind}
    (kept : s.dev.handle kind = some h) :
    Books (h ::ₘ others) unclaimed { s with dev := s.dev.put none kind } where
  owned := books.owned
  accounted := by
    rw [Multiset.add_cons, Multiset.add_cons, ← Multiset.cons_add, ← handles_taken kept]
    exact books.accounted
  claimed := fun k mem other => by
    refine books.claimed k ?_ other
    rw [handles_taken kept]
    exact Multiset.mem_cons_of_mem mem
  lists := books.lists
  ready := books.ready

theorem Books.abandoned (books : Books others (some h) s) {kind : Kind}
    (kept : s.dev.handle kind = some h) :
    Books others none (Session.after { s with dev := s.dev.put none kind } (.closed h)) :=
  { (books.drop kept).closed with
    claimed := fun k mem _ => by
      refine (books.drop kept).closed.claimed k mem ?_
      intro same
      exact (books.drop kept).apart (Option.some.inj same ▸ mem) }

theorem Books.congr (books : Books others unclaimed s) {s' : Session} (calls : s'.calls = s.calls)
    (same : ∀ kind, s'.dev.handle kind = s.dev.handle kind) : Books others unclaimed s' := by
  have handles : handles s'.dev = handles s.dev := handles_congr same
  constructor
  case owned => exact calls ▸ books.owned
  case accounted => exact calls ▸ handles ▸ books.accounted
  case claimed => exact calls ▸ handles ▸ books.claimed
  case lists => exact calls ▸ books.lists
  case ready => exact calls ▸ books.ready

theorem Books.sent (books : Books others none s) (unsent : wanted s.calls = none)
    (mem : h ∈ held handleEffect s.calls) {bytes : List UInt8} {sent : List Transfer}
    {s' : Session} (calls : s'.calls = .uploaded h sent :: .serialRead h (.ok bytes) :: s.calls)
    (handle : ∀ kind, s'.dev.handle kind = s.dev.handle kind) : Books others none s' := by
  have same : strays (.serialRead h (.ok bytes) :: s.calls) = strays s.calls := by
    simp only [strays, unsent]
  have read := books.serial mem same
  have sent : Books others none (Session.after _ (.uploaded h sent)) :=
    read.plain (.inr ⟨h, mem, rfl⟩) rfl rfl .rfl rfl
  exact sent.congr calls handle

end Books

end SoqTracker.OpeningBooks
