import SoqTracker.OpeningBooks
import Mathlib

/- What the functions that open one subdevice leave behind, whatever libusb answers. -/
namespace SoqTracker.OpeningSteps
open Std.Do Ledger SubdeviceOpening OpeningBooks

set_option mvcgen.warning false

variable {usb : Libusb} {s₀ s₁ s : Session} {h : Handle}

/- Single calls. -/

@[spec] theorem call_spec (c : Call) :
    ⦃fun s => ⌜s = s₀⌝⦄ call c ⦃⇓ _ s => ⌜s = Session.after s₀ c⌝⦄ := by
  mvcgen [call]
  subst_vars
  rfl

@[spec] theorem keep_spec (kind : Kind) (h : Option Handle) :
    ⦃fun s => ⌜s = s₀⌝⦄ keep kind h ⦃⇓ _ s => ⌜s = { s₀ with dev := s₀.dev.put h kind }⌝⦄ := by
  mvcgen [keep]
  subst_vars
  rfl

@[spec] theorem openDevice_spec (device : Device) :
    ⦃fun s => ⌜s = s₀⌝⦄ openDevice usb device ⦃⇓ r s => ⌜match r with
      | .error _ => s = Session.after s₀ (.opened device true)
      | .ok h => h = s₀.calls.length ∧ s = Session.after s₀ (.opened device false)⌝⦄ := by
  mvcgen [openDevice]
  · subst_vars
    rfl
  · subst_vars
    exact ⟨rfl, rfl⟩

@[spec] theorem claimInterface_spec (h : Handle) :
    ⦃fun s => ⌜s = s₀⌝⦄ claimInterface usb h
      ⦃⇓ r s => ⌜s = Session.after s₀ (.claimed h r.isSome)⌝⦄ := by
  mvcgen [claimInterface]
  subst_vars
  rfl

@[spec] theorem serve_spec {Value : Type} (h : Handle) (answer : List Call → Handle → Value) :
    ⦃fun s => ⌜s = s₀⌝⦄ serve h answer ⦃⇓ _ s => ⌜s = Session.after s₀ (.served h)⌝⦄ := by
  mvcgen [serve]
  subst_vars
  rfl

@[spec] theorem readSerial_spec (h : Handle) (index : UInt8) :
    ⦃fun s => ⌜s = s₀⌝⦄ readSerial usb h index
      ⦃⇓ r s => ⌜s = Session.after s₀ (.serialRead h r)⌝⦄ := by
  mvcgen [readSerial]
  subst_vars
  rfl

/-- The handle is closed after it was given up, which makes no difference. -/
@[spec] theorem abandon_spec (kind : Kind) (h : Handle) :
    ⦃fun s => ⌜s = s₀⌝⦄ abandon kind h
      ⦃⇓ _ s => ⌜s = Session.after { s₀ with dev := s₀.dev.put none kind } (.closed h)⌝⦄ := by
  mvcgen [abandon]
  rintro rfl
  subst_vars
  rfl

/- Frames. -/

/-- No firmware was sent, nothing slept, and the lists are those from before. -/
structure Frame (s₀ s : Session) : Prop where
  wanted : wanted s.calls = wanted s₀.calls
  naps : naps s.calls = naps s₀.calls
  lists : held listEffect s.calls = held listEffect s₀.calls

theorem Frame.trans (first : Frame s₀ s₁) (second : Frame s₁ s) : Frame s₀ s :=
  ⟨second.wanted.trans first.wanted, second.naps.trans first.naps, second.lists.trans first.lists⟩

theorem Frame.claimed (h : Handle) (failed : Bool) (earlier : Frame s₀ s) :
    Frame s₀ (Session.after s (.claimed h failed)) :=
  earlier.trans ⟨rfl, rfl, rfl⟩

theorem Frame.taken (s : Session) (device : Device) (dev : FreenectDevice) :
    Frame s { Session.after s (.opened device false) with dev := dev } :=
  ⟨rfl, rfl, rfl⟩

theorem Frame.met (s : Session) (device : Device) (serial : Except Failure (List UInt8)) :
    Frame s (Session.after (Session.after s (.opened device false))
      (.serialRead s.calls.length serial)) :=
  ⟨rfl, rfl, rfl⟩

structure Serves (h : Handle) (s₀ s : Session) : Prop where
  frame : Frame s₀ s
  ctx : s.ctx = s₀.ctx
  dev : s.dev = s₀.dev
  books : ∀ others unclaimed, h ∈ handles s₀.dev → Books others unclaimed s₀ →
    Books others unclaimed s

@[spec] theorem detachKernelDriver_spec (h : Handle) :
    ⦃fun s => ⌜s = s₀⌝⦄ detachKernelDriver usb h ⦃⇓ _ s => ⌜Serves h s₀ s⌝⦄ := by
  mvcgen [detachKernelDriver]
  · rintro rfl
    subst_vars
    refine ⟨⟨rfl, rfl, rfl⟩, rfl, rfl, ?_⟩
    intro others unclaimed mem books
    have once := books.served (books.own mem)
    exact once.served (once.own mem)
  · subst_vars
    exact ⟨⟨rfl, rfl, rfl⟩, rfl, rfl, fun _ _ mem books => books.served (books.own mem)⟩

@[spec] theorem chooseAltSetting_spec (h : Handle) (pid : UInt16) :
    ⦃fun s => ⌜s = s₀⌝⦄ chooseAltSetting usb h pid ⦃⇓ _ s => ⌜Serves h s₀ s⌝⦄ := by
  mvcgen [chooseAltSetting]
  · rintro rfl
    subst_vars
    exact ⟨⟨rfl, rfl, rfl⟩, rfl, rfl, fun _ _ mem books => books.served (books.own mem)⟩
  · subst_vars
    exact ⟨⟨rfl, rfl, rfl⟩, rfl, rfl, fun _ _ _ books => books⟩

structure Claimed (h : Handle) (failed : Bool) (s₀ s : Session) : Prop where
  frame : Frame s₀ s
  ctx : s.ctx = s₀.ctx
  dev : s.dev = if failed then s₀.dev.put none .camera else s₀.dev
  books : ∀ others, s₀.dev.handle .camera = some h → Books others (some h) s₀ →
    Books others none s

@[spec] theorem fnusbClaimCamera_spec (h : Handle) (pid : UInt16) :
    ⦃fun s => ⌜s = s₀⌝⦄ fnusbClaimCamera usb h pid ⦃⇓ r s => ⌜Claimed h r.isSome s₀ s⌝⦄ := by
  mvcgen [fnusbClaimCamera]
  · rename_i s₁ serves _ s last
    subst_vars
    refine ⟨serves.frame.trans ⟨rfl, rfl, rfl⟩, serves.ctx, ?_, ?_⟩
    · exact congrArg (·.put none .camera) serves.dev
    · intro others kept books
      exact (serves.books _ _ (handle_member kept) books).abandoned (serves.dev ▸ kept)
  · rename_i s₁ serves _ _ _ s₂ claims _ s last
    subst_vars
    refine ⟨serves.frame.trans ⟨rfl, rfl, rfl⟩, serves.ctx, ?_, ?_⟩
    · exact congrArg (·.put none .camera) serves.dev
    · intro others kept books
      have ready := serves.books _ _ (handle_member kept) books
      have mem : h ∈ held handleEffect s₁.calls := ready.own (serves.dev ▸ handle_member kept)
      exact (ready.refused mem).abandoned (serves.dev ▸ kept)
  · rename_i s₁ serves _ _ s₂ claims _ _ _ s₃ chose _ s last
    subst_vars
    refine ⟨((serves.frame.claimed _ _).trans chose.frame).trans ⟨rfl, rfl, rfl⟩,
      chose.ctx.trans serves.ctx, ?_, ?_⟩
    · exact congrArg (·.put none .camera) (chose.dev.trans serves.dev)
    · intro others kept books
      have ready := serves.books _ _ (handle_member kept) books
      have own : h ∈ handles s₁.dev := serves.dev ▸ handle_member kept
      have claimed := ready.completed (ready.own own)
      exact ((chose.books _ _ own claimed).any).abandoned
        ((chose.dev.trans serves.dev) ▸ kept)
  · rename_i s₁ serves _ _ s₂ claims _ _ s chose
    subst_vars
    refine ⟨(serves.frame.claimed _ _).trans chose.frame,
      chose.ctx.trans serves.ctx, chose.dev.trans serves.dev, ?_⟩
    intro others kept books
    have ready := serves.books _ _ (handle_member kept) books
    have own : h ∈ handles s₁.dev := serves.dev ▸ handle_member kept
    exact chose.books _ _ own (ready.completed (ready.own own))

structure Restores (s₀ s : Session) : Prop where
  frame : Frame s₀ s
  ctx : s.ctx = s₀.ctx
  dev : s.dev = s₀.dev
  books : ∀ others unclaimed, Books others unclaimed s₀ → Books others unclaimed s

theorem Restores.trans (first : Restores s₀ s₁) (second : Restores s₁ s) : Restores s₀ s where
  frame := first.frame.trans second.frame
  ctx := second.ctx.trans first.ctx
  dev := second.dev.trans first.dev
  books := fun others unclaimed books =>
    second.books others unclaimed (first.books others unclaimed books)

@[spec] theorem resetAudio_spec (audio : Device) :
    ⦃fun s => ⌜s = s₀⌝⦄ resetAudio usb audio ⦃⇓ _ s => ⌜Restores s₀ s⌝⦄ := by
  mvcgen [resetAudio]
  · subst_vars
    exact ⟨⟨rfl, rfl, rfl⟩, rfl, rfl, fun _ _ books => books.plain (.inl rfl) rfl rfl .rfl rfl⟩
  · rename_i opened _ _ used _ _ closed
    obtain ⟨rfl, rfl⟩ := opened
    subst_vars
    refine ⟨⟨rfl, rfl, rfl⟩, rfl, rfl, ?_⟩
    intro others unclaimed books
    have opened := books.opened audio
    exact (opened.served opened.other).closed

theorem setLed_spec (audio : Device) :
    ⦃fun s => ⌜Restores s₀ s⌝⦄ setLed usb audio ⦃⇓ _ s => ⌜Restores s₀ s⌝⦄ := by
  mvcgen [setLed]
  · rename_i before _ _ _ _ _
    subst_vars
    exact before.trans
      ⟨⟨rfl, rfl, rfl⟩, rfl, rfl, fun _ _ books => books.plain (.inl rfl) rfl rfl .rfl rfl⟩
  · rename_i before _ _ _ _ opened _ _ _ _ claimed _ _
    obtain ⟨rfl, rfl⟩ := opened
    rintro rfl
    subst_vars
    refine before.trans ⟨⟨rfl, rfl, rfl⟩, rfl, rfl, ?_⟩
    intro others unclaimed books
    have opened := books.opened audio
    exact (opened.refused opened.other).closed
  · rename_i before _ _ _ _ opened _ _ _ claimed _ _ used _ _ released _ _
    obtain ⟨rfl, rfl⟩ := opened
    rintro rfl
    subst_vars
    refine before.trans ⟨⟨rfl, rfl, rfl⟩, rfl, rfl, ?_⟩
    intro others unclaimed books
    have opened := books.opened audio
    have claimed := opened.claims opened.other
    exact (claimed.served claimed.other).released.closed

@[spec] theorem fnusbKeepAliveLed_spec (audio : Option Device) :
    ⦃fun s => ⌜s = s₀⌝⦄ fnusbKeepAliveLed usb audio ⦃⇓ _ s => ⌜Restores s₀ s⌝⦄ := by
  mvcgen [fnusbKeepAliveLed, setLed_spec]
  · subst_vars
    exact ⟨⟨rfl, rfl, rfl⟩, rfl, rfl, fun _ _ books => books⟩
  · subst_vars
    assumption
  · subst_vars
    assumption

structure Adapts (s₀ s : Session) : Prop where
  frame : Frame s₀ s
  camera : s.ctx.enabledSubdevices.camera = s₀.ctx.enabledSubdevices.camera
  handle : ∀ kind, s.dev.handle kind = s₀.dev.handle kind
  books : ∀ others unclaimed, Books others unclaimed s₀ → Books others unclaimed s

@[spec] theorem adaptTo_spec (devices : List Device) (camera : Device) (desc : Descriptor) :
    ⦃fun s => ⌜s = s₀⌝⦄ adaptTo usb devices camera desc ⦃⇓ _ s => ⌜Adapts s₀ s⌝⦄ := by
  mvcgen [adaptTo]
  · rename_i lit _
    subst_vars
    exact ⟨⟨lit.frame.wanted, lit.frame.naps, lit.frame.lists⟩,
      congrArg (·.enabledSubdevices.camera) lit.ctx,
      fun kind => (congrArg (·.handle kind) lit.dev).trans (by cases kind <;> rfl),
      fun others unclaimed books => (lit.books others unclaimed
        (books.congr rfl fun kind => by cases kind <;> rfl)).congr rfl fun _ => rfl⟩
  · rename_i lit
    subst_vars
    exact ⟨⟨lit.frame.wanted, lit.frame.naps, lit.frame.lists⟩,
      congrArg (·.enabledSubdevices.camera) lit.ctx,
      fun kind => (congrArg (·.handle kind) lit.dev).trans (by cases kind <;> rfl),
      fun others unclaimed books => lit.books others unclaimed
        (books.congr rfl fun kind => by cases kind <;> rfl)⟩
  · subst_vars
    exact ⟨⟨rfl, rfl, rfl⟩, rfl, fun _ => rfl, fun _ _ books => books.congr rfl fun _ => rfl⟩

/- One subdevice. -/

structure Keeps (kind : Kind) (s₀ s : Session) : Prop where
  frame : Frame s₀ s
  handle : ∀ kind' ≠ kind, s.dev.handle kind' = s₀.dev.handle kind'
  books : ∀ others, s₀.dev.handle kind = none → Books others none s₀ → Books others none s

theorem Keeps.refl (kind : Kind) (s : Session) : Keeps kind s s :=
  ⟨⟨rfl, rfl, rfl⟩, fun _ _ => rfl, fun _ _ books => books⟩

theorem Keeps.failed (kind : Kind) (s : Session) (device : Device) :
    Keeps kind s (Session.after s (.opened device true)) :=
  ⟨⟨rfl, rfl, rfl⟩, fun _ _ => rfl, fun _ _ books => books.plain (.inl rfl) rfl rfl .rfl rfl⟩

@[spec] theorem openCamera_spec (devices : List Device) (camera : Device) (desc : Descriptor) :
    ⦃fun s => ⌜s = s₀⌝⦄ openCamera usb devices camera desc
      ⦃post⟨fun _ s => ⌜Keeps .camera s₀ s ∧
          (s.dev.usbCam.isSome ∨ ¬ s.ctx.enabledSubdevices.camera)⌝,
        fun e s => ⌜e < 0 ∧ Keeps .camera s₀ s⌝⟩⦄ := by
  mvcgen [openCamera]
  · rename_i failure _ _ _
    subst_vars
    exact ⟨failure.property, .failed _ _ _⟩
  · rename_i opened _ _ kept _ _ adapts _ failure _ s claimed
    obtain ⟨rfl, rfl⟩ := opened
    subst_vars
    refine ⟨failure.property, ?_, ?_, ?_⟩
    · exact (Frame.taken _ _ _).trans (adapts.frame.trans claimed.frame)
    · intro kind other
      simp [claimed.dev, adapts.handle, other, Session.after]
    · intro others free books
      refine claimed.books others ?_ (adapts.books _ _ (books.taken camera free))
      simp [adapts.handle]
  · rename_i s₁ _ _ _ _ _ _ opened _ _ kept _ _ adapts _ _ s claimed
    obtain ⟨rfl, rfl⟩ := opened
    subst_vars
    refine ⟨⟨?_, ?_, ?_⟩, ?_⟩
    · exact (Frame.taken _ _ _).trans (adapts.frame.trans claimed.frame)
    · intro kind other
      simp [claimed.dev, adapts.handle, other, Session.after]
    · intro others free books
      refine claimed.books others ?_ (adapts.books _ _ (books.taken camera free))
      simp [adapts.handle]
    · have kept : s.dev.handle .camera = some s₁.calls.length :=
        (congrArg (·.handle .camera) claimed.dev).trans
          ((adapts.handle .camera).trans (put_handle s₁.dev _ .camera))
      exact .inl (Option.isSome_of_eq_some kept)
  · rename_i closed
    subst_vars
    exact ⟨.refl _ _, .inr closed⟩

@[spec] theorem openSibling_spec (kind : Kind) (predicate : Descriptor → Bool)
    (devices : List Device) (camera : Device) :
    ⦃fun s => ⌜s = s₀⌝⦄ openSibling usb kind predicate devices camera
      ⦃post⟨fun r s => ⌜Keeps kind s₀ s ∧ s.ctx = s₀.ctx ∧ s.dev.handle kind = some r.1⌝,
        fun e s => ⌜e < 0 ∧ Keeps kind s₀ s⌝⟩⦄ := by
  mvcgen [openSibling]
  · subst_vars
    exact ⟨by decide, .refl _ _⟩
  · rename_i failure _ _ _
    subst_vars
    exact ⟨failure.property, .refl _ _⟩
  · rename_i failure _ _ _
    subst_vars
    exact ⟨failure.property, .failed _ _ _⟩
  · rename_i sibling _ _ _ s₁ _ _ _ _ _ opened _ _ kept _ failure _ _ refused _ _ closed
    obtain ⟨rfl, rfl⟩ := opened
    subst_vars
    refine ⟨failure.property, ⟨rfl, rfl, rfl⟩, ?_, ?_⟩
    · intro kind' other
      simp [Session.after, other]
    · intro others free books
      have taken := books.taken sibling free
      have kept := put_handle s₁.dev (some s₁.calls.length) kind
      exact (taken.refused (taken.own (handle_member kept))).abandoned kept
  · rename_i sibling _ _ _ _ _ _ _ _ _ opened _ _ kept _ _ _ claimed
    obtain ⟨rfl, rfl⟩ := opened
    subst_vars
    refine ⟨⟨⟨rfl, rfl, rfl⟩, ?_, ?_⟩, rfl, ?_⟩
    · intro kind' other
      simp [Session.after, other]
    · intro others free books
      have taken := books.taken sibling free
      exact taken.completed (taken.own (handle_member (put_handle _ _ kind)))
    · simp [Session.after]

@[spec] theorem openMotor_spec (devices : List Device) (camera : Device) :
    ⦃fun s => ⌜s = s₀⌝⦄ openMotor usb devices camera
      ⦃post⟨fun _ s => ⌜Keeps .motor s₀ s ∧ s.ctx = s₀.ctx ∧
          (s.dev.usbMotor.isSome ∨ ¬ s.ctx.enabledSubdevices.motor)⌝,
        fun e s => ⌜e < 0 ∧ Keeps .motor s₀ s⌝⟩⦄ := by
  mvcgen [openMotor]
  · rename_i opened
    subst_vars
    obtain ⟨keeps, ctx, kept⟩ := opened
    exact ⟨keeps, ctx, .inl (Option.isSome_of_eq_some kept)⟩
  · subst_vars
    exact fun negative keeps => ⟨negative, keeps⟩
  · rename_i closed
    subst_vars
    exact ⟨.refl _ _, rfl, .inr closed⟩

end SoqTracker.OpeningSteps
