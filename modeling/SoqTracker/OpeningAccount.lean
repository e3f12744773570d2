import SoqTracker.OpeningSteps

/- The account of the handles that the opening of a Kinect and its closing make. -/
namespace SoqTracker.OpeningAccount
open Std.Do Ledger FirmwareUpload SubdeviceOpening OpeningBooks OpeningSteps

set_option mvcgen.warning false

variable {usb : Libusb} {s₀ s₁ s : Session} {h : Handle}

/- The search for a device that comes back. -/

@[spec] theorem enableMotorControl_spec :
    ⦃fun s => ⌜s = s₀⌝⦄ enableMotorControl ⦃⇓ _ s => ⌜s.calls = s₀.calls ∧ s.ctx = s₀.ctx ∧
      ∀ kind, s.dev.handle kind = s₀.dev.handle kind⌝⦄ := by
  mvcgen [enableMotorControl]
  subst_vars
  exact ⟨rfl, rfl, fun kind => by cases kind <;> rfl⟩

structure Searches (audioSerial : List UInt8) (s₀ s : Session) : Prop where
  frame : Frame s₀ s
  ctx : s.ctx = s₀.ctx
  handle : ∀ kind ≠ .audio, s.dev.handle kind = s₀.dev.handle kind
  books : ∀ others, wanted s₀.calls = some audioSerial → Books others none s₀ →
    Books others none s

structure Accepts (h : Handle) (s₀ s : Session) : Prop where
  frame : Frame s₀ s
  ctx : s.ctx = s₀.ctx
  handle : ∀ kind ≠ .audio, s.dev.handle kind = s₀.dev.handle kind
  books : ∀ others, Books (h ::ₘ others) none s₀ → Books others none s

@[spec] theorem acceptDevice_spec (h : Handle) :
    ⦃fun s => ⌜s = s₀ ∧ s.dev.handle .audio = none⌝⦄ acceptDevice usb h
      ⦃⇓ r s => ⌜Accepts h s₀ s ∧ (s.dev.handle .audio).isSome = r⌝⦄ := by
  mvcgen [acceptDevice]
  · rename_i start _ _ _ _ _ _ _ _
    obtain ⟨rfl, free⟩ := start
    subst_vars
    refine ⟨⟨⟨rfl, rfl, rfl⟩, rfl, fun _ _ => rfl, ?_⟩, ?_⟩
    · intro others books
      exact (books.refused books.other).closed
    · exact congrArg Option.isSome free
  · rename_i s₁ start _ _ _ _ _ _ _ _ _ _ _ _ s enabled
    obtain ⟨rfl, free⟩ := start
    obtain ⟨calls, ctx, handle⟩ := enabled
    subst_vars
    refine ⟨⟨?_, ctx, ?_, ?_⟩, ?_⟩
    · exact ⟨(congrArg wanted calls).trans rfl, (congrArg naps calls).trans rfl,
        (congrArg (held listEffect) calls).trans rfl⟩
    · intro kind other
      rw [handle kind]
      simp [Session.after, other]
    · intro others books
      have claimed := books.claims books.other
      have kept := (claimed.put free).whole (claimed_held s₁ h)
      exact (kept.served (kept.own (handle_member (put_handle _ _ _)))).congr calls handle
    · rw [handle .audio]
      simp [Session.after]
  · rename_i s₁ start _ _ _ _ _ _ _ _ _ _ _ _ _ _
    obtain ⟨rfl, free⟩ := start
    subst_vars
    refine ⟨⟨⟨rfl, rfl, rfl⟩, rfl, ?_, ?_⟩, ?_⟩
    · intro kind other
      simp [Session.after, other]
    · intro others books
      have claimed := books.claims books.other
      have kept := claimed.put free
      have own := kept.own (handle_member (put_handle s₁.dev (some h) .audio))
      exact (kept.served own).abandoned (put_handle s₁.dev (some h) .audio)
    · simp [Session.after]

@[spec] theorem tryDevice_spec (audioSerial : List UInt8) (device : Device) (desc : Descriptor) :
    ⦃fun s => ⌜s = s₀ ∧ s.dev.handle .audio = none⌝⦄ tryDevice usb audioSerial device desc
      ⦃⇓ r s => ⌜Searches audioSerial s₀ s ∧ (s.dev.handle .audio).isSome = r⌝⦄ := by
  mvcgen [tryDevice]
  · rename_i start _ _ _ _ _
    obtain ⟨rfl, free⟩ := start
    subst_vars
    refine ⟨⟨⟨rfl, rfl, rfl⟩, rfl, fun _ _ => rfl, ?_⟩, congrArg Option.isSome free⟩
    exact fun others _ books => books.plain (.inl rfl) rfl rfl .rfl rfl
  · rename_i start _ _ _ _ opened _ _ _ _ _ _ _ _
    obtain ⟨rfl, free⟩ := start
    obtain ⟨rfl, rfl⟩ := opened
    subst_vars
    refine ⟨⟨⟨rfl, rfl, rfl⟩, rfl, fun _ _ => rfl, ?_⟩, congrArg Option.isSome free⟩
    intro others _ books
    have opened := books.opened device
    exact (opened.serial opened.other rfl).closed
  · rename_i start _ _ _ _ opened _ _ _ _ _ _
    obtain ⟨rfl, free⟩ := start
    obtain ⟨rfl, rfl⟩ := opened
    subst_vars
    exact ⟨trivial, free⟩
  · rename_i start _ _ _ _ opened _ bytes _ same _ _ _ _
    obtain ⟨rfl, free⟩ := start
    obtain ⟨rfl, rfl⟩ := opened
    subst_vars
    intro accepts found
    refine ⟨⟨?_, accepts.ctx, accepts.handle, ?_⟩, found⟩
    · exact (Frame.met _ _ _).trans accepts.frame
    · intro others want books
      have opened := books.opened device
      exact accepts.books others (opened.serial opened.other (strays_same want same _))
  · rename_i start _ _ _ _ opened _ bytes _ differs _ _
    obtain ⟨rfl, free⟩ := start
    obtain ⟨rfl, rfl⟩ := opened
    subst_vars
    refine ⟨⟨⟨rfl, rfl, rfl⟩, rfl, fun _ _ => rfl, ?_⟩, congrArg Option.isSome free⟩
    intro others want books
    exact (books.opened device).stray want differs

theorem Searches.refl (audioSerial : List UInt8) (s : Session) : Searches audioSerial s s :=
  ⟨⟨rfl, rfl, rfl⟩, rfl, fun _ _ => rfl, fun _ _ books => books⟩

theorem Searches.trans {audioSerial : List UInt8} (first : Searches audioSerial s₀ s₁)
    (second : Searches audioSerial s₁ s) : Searches audioSerial s₀ s where
  frame := first.frame.trans second.frame
  ctx := second.ctx.trans first.ctx
  handle := fun kind other => (second.handle kind other).trans (first.handle kind other)
  books := fun others want books =>
    second.books others (first.frame.wanted.trans want) (first.books others want books)

theorem findReappeared_search (audioSerial : List UInt8) (devices : List Device) :
    ⦃fun s => ⌜Searches audioSerial s₀ s ∧ s.dev.handle .audio = none⌝⦄
      findReappeared usb audioSerial devices ⦃⇓ _ s => ⌜Searches audioSerial s₀ s⌝⦄ := by
  induction devices with
  | nil =>
    mvcgen [findReappeared]
    rename_i start
    exact start.1
  | cons device later ih =>
    mvcgen [findReappeared, ih]
    · rename_i start
      exact ⟨trivial, start.2⟩
    · rename_i start _ _ _ tried
      exact start.1.trans tried.1
    · rename_i start _ missed _ tried
      refine ⟨start.1.trans tried.1, Option.not_isSome_iff_eq_none.mp ?_⟩
      rw [tried.2]
      exact missed

@[spec] theorem findReappeared_spec (audioSerial : List UInt8) (devices : List Device) :
    ⦃fun s => ⌜s = s₀ ∧ s.dev.handle .audio = none⌝⦄
      findReappeared usb audioSerial devices ⦃⇓ _ s => ⌜Searches audioSerial s₀ s⌝⦄ := by
  mvcgen [findReappeared_search]
  rename_i start
  obtain ⟨rfl, free⟩ := start
  exact ⟨.refl _ _, free⟩

@[spec] theorem getDeviceList_spec :
    ⦃fun s => ⌜s = s₀⌝⦄ getDeviceList usb ⦃⇓ r s => ⌜match r with
      | none => s = Session.after s₀ (.listed true)
      | some list => list.place = s₀.calls.length ∧ s = Session.after s₀ (.listed false)⌝⦄ := by
  mvcgen [getDeviceList]
  · subst_vars
    rfl
  · subst_vars
    exact ⟨rfl, rfl⟩

@[spec] theorem lookForDevice_spec (audioSerial : List UInt8) :
    ⦃fun s => ⌜s = s₀ ∧ s.dev.handle .audio = none⌝⦄ lookForDevice usb audioSerial
      ⦃⇓ _ s => ⌜Searches audioSerial s₀ s⌝⦄ := by
  mvcgen [lookForDevice]
  · rename_i start _ _ _ _ _ _
    obtain ⟨rfl, free⟩ := start
    rintro rfl
    subst_vars
    refine ⟨⟨rfl, rfl, rfl⟩, rfl, fun _ _ => rfl, ?_⟩
    intro others want books
    exact books.unset want
  · rename_i start _ _ _ _ listed
    obtain ⟨rfl, free⟩ := start
    obtain ⟨place, rfl⟩ := listed
    exact ⟨trivial, free⟩
  · rename_i start _ _ _ _ listed _ _ searches _ _
    obtain ⟨rfl, free⟩ := start
    obtain ⟨place, rfl⟩ := listed
    rintro rfl
    have got := searches.frame.lists.trans (held_takes rfl)
    rw [← place] at got
    refine ⟨⟨searches.frame.wanted, searches.frame.naps, ?_⟩, searches.ctx, searches.handle, ?_⟩
    · refine (held_gives rfl).trans ?_
      rw [got, Multiset.erase_cons_head]
    · intro others want books
      refine (searches.books others want books.listed).unlisted ?_
      rw [got]
      exact Multiset.mem_cons_self _ _

/- The wait. -/

structure Waits (audioSerial : List UInt8) (s₀ s : Session) : Prop where
  awaited : wanted s.calls = wanted s₀.calls
  lists : held listEffect s.calls = held listEffect s₀.calls
  ctx : s.ctx = s₀.ctx
  handle : ∀ kind ≠ .audio, s.dev.handle kind = s₀.dev.handle kind
  books : ∀ others, wanted s₀.calls = some audioSerial → Books others none s₀ →
    Books others none s

theorem Waits.refl (audioSerial : List UInt8) (s : Session) : Waits audioSerial s s :=
  ⟨rfl, rfl, rfl, fun _ _ => rfl, fun _ _ books => books⟩

theorem Waits.searched {audioSerial : List UInt8} (waits : Waits audioSerial s₀ s₁)
    (searches : Searches audioSerial s₁ s) : Waits audioSerial s₀ s where
  awaited := searches.frame.wanted.trans waits.awaited
  lists := searches.frame.lists.trans waits.lists
  ctx := searches.ctx.trans waits.ctx
  handle := fun kind other => (searches.handle kind other).trans (waits.handle kind other)
  books := fun others want books =>
    searches.books others (waits.awaited.trans want) (waits.books others want books)

theorem Waits.slept {audioSerial : List UInt8} (waits : Waits audioSerial s₀ s) :
    Waits audioSerial s₀ (Session.after s .slept) where
  awaited := waits.awaited
  lists := waits.lists
  ctx := waits.ctx
  handle := waits.handle
  books := fun others want books =>
    (waits.books others want books).plain (.inl rfl) rfl rfl .rfl rfl

def Awaited (tries : Nat) (s₀ s : Session) : Prop :=
  naps s.calls ≤ naps s₀.calls + tries ∧
    (s.dev.handle .audio = none ↔ naps s.calls = naps s₀.calls + tries)

theorem waitForDevice_waits (usb : Libusb) (s₀ : Session) (audioSerial : List UInt8) (tries spent : Nat) :
    ⦃fun s => ⌜Waits audioSerial s₀ s ∧ s.dev.handle .audio = none ∧
        naps s.calls = naps s₀.calls + spent⌝⦄
      waitForDevice usb audioSerial tries
      ⦃⇓ _ s => ⌜Waits audioSerial s₀ s ∧ Awaited (spent + tries) s₀ s⌝⦄ := by
  induction tries generalizing spent with
  | zero =>
    mvcgen [waitForDevice]
    rename_i start
    obtain ⟨waits, free, napped⟩ := start
    exact ⟨waits, napped.le, iff_of_true free napped⟩
  | succ tries ih =>
    have again := ih (spent + 1)
    mvcgen [waitForDevice, again]
    · rename_i start
      exact ⟨trivial, start.2.1⟩
    · rename_i start _ s searches found
      obtain ⟨waits, free, napped⟩ := start
      have napped : naps s.calls = naps s₀.calls + spent := searches.frame.naps.trans napped
      refine ⟨waits.searched searches, ?_, ?_⟩
      · omega
      · have kept : s.dev.handle .audio ≠ none := Option.isSome_iff_ne_none.mp found
        exact iff_of_false kept (by omega)
    · rename_i start _ s searches missed _ _ slept
      obtain ⟨waits, free, napped⟩ := start
      subst slept
      refine ⟨(waits.searched searches).slept, Option.not_isSome_iff_eq_none.mp missed, ?_⟩
      have napped : naps s.calls = naps s₀.calls + spent := searches.frame.naps.trans napped
      show naps s.calls + 1 = naps s₀.calls + (spent + 1)
      omega
    · intro waits awaited
      rw [Nat.add_right_comm, Nat.add_assoc] at awaited
      exact ⟨waits, awaited⟩

@[spec] theorem waitForDevice_spec (audioSerial : List UInt8) (tries : Nat) :
    ⦃fun s => ⌜s = s₀ ∧ s.dev.handle .audio = none⌝⦄ waitForDevice usb audioSerial tries
      ⦃⇓ _ s => ⌜Waits audioSerial s₀ s ∧ Awaited tries s₀ s⌝⦄ := by
  have waited := waitForDevice_waits usb s₀ audioSerial tries 0
  mvcgen [waited]
  · rename_i start
    obtain ⟨rfl, free⟩ := start
    exact ⟨.refl _ _, free, rfl⟩
  · intro waits awaited
    rw [Nat.zero_add] at awaited
    exact ⟨waits, awaited⟩

@[spec] theorem uploadTo_spec (h : Handle) (pid : UInt16) :
    ⦃fun s => ⌜s = s₀⌝⦄ uploadTo usb h pid
      ⦃⇓ _ s => ⌜(∃ sent, s.calls = .uploaded h sent :: s₀.calls) ∧ s.ctx = s₀.ctx ∧
        ∀ kind, s.dev.handle kind = s₀.dev.handle kind⌝⦄ := by
  mvcgen [uploadTo]
  subst_vars
  exact ⟨⟨_, rfl⟩, rfl, fun kind => by cases kind <;> rfl⟩

structure Boots (h : Handle) (s₀ s : Session) : Prop where
  lists : held listEffect s.calls = held listEffect s₀.calls
  ctx : s.ctx = s₀.ctx
  handle : ∀ kind ≠ .audio, s.dev.handle kind = s₀.dev.handle kind
  books : ∀ others, s₀.dev.handle .audio = some h → wanted s₀.calls = none →
    Books others none s₀ → Books others none s

@[spec] theorem bootAudio_spec (h : Handle) (desc : Descriptor) :
    ⦃fun s => ⌜s = s₀⌝⦄ bootAudio usb h desc
      ⦃post⟨fun r s => ⌜0 ≤ r ∧ Boots h s₀ s ∧ Awaited 10 s₀ s⌝,
        fun e s => ⌜e < 0 ∧ Boots h s₀ s ∧ naps s.calls = naps s₀.calls⌝⟩⦄ := by
  mvcgen [bootAudio]
  · rename_i failure _ _ _
    subst_vars
    refine ⟨failure.property, ⟨rfl, rfl, fun _ _ => rfl, ?_⟩, rfl⟩
    intro others kept _ books
    exact books.serial (books.own (handle_member kept)) rfl
  · rename_i negative s uploaded
    obtain ⟨⟨sent, calls⟩, ctx, handle⟩ := uploaded
    subst_vars
    refine ⟨negative, ⟨?_, ctx, fun kind _ => handle kind, ?_⟩, (congrArg naps calls).trans rfl⟩
    · exact (congrArg (held listEffect) calls).trans rfl
    · intro others kept unsent books
      exact books.sent unsent (books.own (handle_member kept)) calls handle
  · rename_i s uploaded _ _ closed
    subst closed
    exact ⟨trivial, put_handle s.dev none .audio⟩
  · rename_i s₁ start _ bytes _ _ read _ positive s₂ uploaded _ _ closed _ s waited
    obtain ⟨⟨sent, calls⟩, ctx, handle⟩ := uploaded
    obtain ⟨waits, awaited⟩ := waited
    subst_vars
    have known : wanted s₂.calls = some (cString bytes) := congrArg wanted calls
    have rested : naps s₂.calls = naps s₁.calls := (congrArg naps calls).trans rfl
    refine ⟨not_lt.mp positive, ⟨?_, waits.ctx.trans ctx, ?_, ?_⟩, ?_⟩
    · exact waits.lists.trans ((congrArg (held listEffect) calls).trans rfl)
    · intro kind other
      refine (waits.handle kind other).trans (Eq.trans ?_ (handle kind))
      simp [Session.after, other]
    · intro others kept unsent books
      have sent := books.sent unsent (books.own (handle_member kept)) calls handle
      exact waits.books others known (sent.any.abandoned ((handle .audio).trans kept))
    · unfold Awaited at awaited ⊢
      rwa [← rested]

/- All subdevices. -/

structure Brings (s₀ s : Session) : Prop where
  lists : held listEffect s.calls = held listEffect s₀.calls
  handle : ∀ kind ≠ .audio, s.dev.handle kind = s₀.dev.handle kind
  books : ∀ others, s₀.dev.handle .audio = none → wanted s₀.calls = none →
    Books others none s₀ → Books others none s

theorem brings_failed (keeps : Keeps .audio s₀ s) : Brings s₀ s :=
  ⟨keeps.frame.lists, keeps.handle, fun others free _ books => keeps.books others free books⟩

theorem brings_boots (keeps : Keeps .audio s₀ s₁) (kept : s₁.dev.handle .audio = some h)
    (boots : Boots h (Session.after s₁ (.served h)) s) : Brings s₀ s where
  lists := boots.lists.trans keeps.frame.lists
  handle := fun kind other => (boots.handle kind other).trans (keeps.handle kind other)
  books := fun others free unsent books => by
    have opened := keeps.books others free books
    refine boots.books others kept (keeps.frame.wanted.trans unsent) ?_
    exact opened.served (opened.own (handle_member kept))

def Settled (s₀ s : Session) : Prop :=
  naps s.calls ≤ naps s₀.calls + 10 ∧
    ((s.dev.usbAudio.isSome ∨ ¬ s.ctx.enabledSubdevices.audio) ↔
      naps s.calls ≠ naps s₀.calls + 10)

theorem settled_ready (rested : naps s.calls = naps s₀.calls)
    (ready : s.dev.usbAudio.isSome ∨ ¬ s.ctx.enabledSubdevices.audio) : Settled s₀ s :=
  ⟨by omega, iff_of_true ready (by omega)⟩

theorem settled_awaited (awaited : Awaited 10 s₀ s) (enabled : s.ctx.enabledSubdevices.audio) :
    Settled s₀ s := by
  refine ⟨awaited.1, ?_⟩
  rw [or_iff_left (not_not.mpr enabled)]
  exact Option.isSome_iff_ne_none.trans (not_congr awaited.2)

@[spec] theorem openAudio_spec (devices : List Device) (camera : Device) :
    ⦃fun s => ⌜s = s₀⌝⦄ openAudio usb devices camera
      ⦃post⟨fun r s => ⌜0 ≤ r ∧ Brings s₀ s ∧ s.ctx = s₀.ctx ∧ Settled s₀ s⌝,
        fun e s => ⌜e < 0 ∧ Brings s₀ s ∧ naps s.calls = naps s₀.calls⌝⟩⦄ := by
  mvcgen [openAudio]
  · rename_i s₁ _ _ r _ opened _ _ _ _ _ s enabled
    obtain ⟨keeps, ctx, kept⟩ := opened
    obtain ⟨calls, context, handle⟩ := enabled
    subst_vars
    have rested : naps s.calls = naps s₁.calls := (congrArg naps calls).trans keeps.frame.naps
    refine ⟨le_rfl, ⟨?_, ?_, ?_⟩, context.trans ctx, settled_ready rested ?_⟩
    · exact (congrArg (held listEffect) calls).trans keeps.frame.lists
    · intro kind other
      exact (handle kind).trans (keeps.handle kind other)
    · intro others free _ books
      have opened := keeps.books others free books
      exact (opened.served (opened.own (handle_member kept))).congr calls handle
    · exact .inl (Option.isSome_of_eq_some ((handle .audio).trans kept))
  · rename_i s₀ _ enabled _ s₁ opened _ _ _ _ _ s
    obtain ⟨keeps, ctx, kept⟩ := opened
    subst_vars
    intro positive boots awaited
    have context : s.ctx = s₀.ctx := boots.ctx.trans ctx
    have rested : naps s₁.calls = naps s₀.calls := keeps.frame.naps
    refine ⟨positive, brings_boots keeps kept boots, context, settled_awaited ?_ (context ▸ enabled)⟩
    unfold Awaited at awaited ⊢
    rwa [← rested]
  · rename_i opened _ _ _ _ _ _
    obtain ⟨keeps, ctx, kept⟩ := opened
    subst_vars
    intro negative boots rested
    exact ⟨negative, brings_boots keeps kept boots, rested.trans keeps.frame.naps⟩
  · subst_vars
    intro negative keeps
    exact ⟨negative, brings_failed keeps, keeps.frame.naps⟩
  · rename_i closed
    subst_vars
    refine ⟨le_rfl, ⟨rfl, fun _ _ => rfl, fun _ _ _ books => books⟩, rfl, ?_⟩
    exact settled_ready rfl (.inr closed)

structure Opens (s₀ s : Session) : Prop where
  lists : held listEffect s.calls = held listEffect s₀.calls
  books : ∀ others, (∀ kind, s₀.dev.handle kind = none) → wanted s₀.calls = none →
    Books others none s₀ → Books others none s

section Opens
variable {s₂ : Session}

theorem opens_camera (camera : Keeps .camera s₀ s) : Opens s₀ s :=
  ⟨camera.frame.lists, fun others free _ books => camera.books others (free .camera) books⟩

theorem opens_motor (camera : Keeps .camera s₀ s₁) (motor : Keeps .motor s₁ s) : Opens s₀ s where
  lists := motor.frame.lists.trans camera.frame.lists
  books := fun others free _ books =>
    have free' := (camera.handle .motor (by decide)).trans (free .motor)
    motor.books others free' (camera.books others (free .camera) books)

theorem opens_audio (camera : Keeps .camera s₀ s₁) (motor : Keeps .motor s₁ s₂)
    (audio : Brings s₂ s) : Opens s₀ s where
  lists := audio.lists.trans (opens_motor camera motor).lists
  books := fun others free unsent books => by
    have free' : s₂.dev.handle .audio = none :=
      (motor.handle .audio (by decide)).trans
        ((camera.handle .audio (by decide)).trans (free .audio))
    have unsent' := motor.frame.wanted.trans (camera.frame.wanted.trans unsent)
    exact audio.books others free' unsent' ((opens_motor camera motor).books others free unsent books)

theorem complete_iff (hasCamera : s₁.dev.usbCam.isSome ∨ ¬ s₁.ctx.enabledSubdevices.camera)
    (motor : Keeps .motor s₁ s₂) (motorCtx : s₂.ctx = s₁.ctx)
    (hasMotor : s₂.dev.usbMotor.isSome ∨ ¬ s₂.ctx.enabledSubdevices.motor)
    (audio : Brings s₂ s) (audioCtx : s.ctx = s₂.ctx) :
    Complete s ↔ (s.dev.usbAudio.isSome ∨ ¬ s.ctx.enabledSubdevices.audio) := by
  have camera : s.dev.usbCam = s₁.dev.usbCam :=
    (audio.handle .camera (by decide)).trans (motor.handle .camera (by decide))
  have motor : s.dev.usbMotor = s₂.dev.usbMotor := audio.handle .motor (by decide)
  rw [Complete, camera, motor, audioCtx]
  rw [motorCtx] at hasMotor ⊢
  exact ⟨fun complete => complete.2.2, fun rest => ⟨hasCamera, hasMotor, rest⟩⟩

end Opens

@[spec] theorem openAll_spec (devices : List Device) (index : Int) :
    ⦃fun s => ⌜s = s₀⌝⦄ openAll usb devices index
      ⦃post⟨fun r s => ⌜0 ≤ r ∧ Opens s₀ s ∧ naps s.calls ≤ naps s₀.calls + 10 ∧
          (Complete s ↔ naps s.calls ≠ naps s₀.calls + 10)⌝,
        fun e s => ⌜e < 0 ∧ Opens s₀ s ∧ naps s.calls = naps s₀.calls⌝⟩⦄ := by
  mvcgen [openAll]
  · subst_vars
    exact ⟨by decide, ⟨rfl, fun _ _ _ books => books⟩, rfl⟩
  · rename_i cameraOpen _ s₂ motorOpen _ s
    obtain ⟨camera, hasCamera⟩ := cameraOpen
    obtain ⟨motor, motorCtx, hasMotor⟩ := motorOpen
    subst_vars
    intro positive audio audioCtx settled
    have rested := motor.frame.naps.trans camera.frame.naps
    unfold Settled at settled
    rw [rested] at settled
    refine ⟨positive, opens_audio camera motor audio, settled.1, ?_⟩
    exact (complete_iff hasCamera motor motorCtx hasMotor audio audioCtx).trans settled.2
  · rename_i cameraOpen _ s₂ motorOpen _ s
    obtain ⟨camera, hasCamera⟩ := cameraOpen
    obtain ⟨motor, motorCtx, hasMotor⟩ := motorOpen
    subst_vars
    intro negative audio rested
    exact ⟨negative, opens_audio camera motor audio,
      rested.trans (motor.frame.naps.trans camera.frame.naps)⟩
  · rename_i cameraOpen _ s
    obtain ⟨camera, hasCamera⟩ := cameraOpen
    subst_vars
    intro negative motor
    exact ⟨negative, opens_motor camera motor, motor.frame.naps.trans camera.frame.naps⟩
  · subst_vars
    intro negative camera
    exact ⟨negative, opens_camera camera, camera.frame.naps⟩

/- The end. -/

structure Ends (s₀ s : Session) : Prop where
  frame : Frame s₀ s
  books : ∀ others, Books others none s₀ → Books others none s

theorem Ends.refl (s : Session) : Ends s s := ⟨⟨rfl, rfl, rfl⟩, fun _ books => books⟩

theorem Ends.trans (first : Ends s₀ s₁) (second : Ends s₁ s) : Ends s₀ s :=
  ⟨first.frame.trans second.frame, fun others books => second.books others (first.books others books)⟩

@[spec] theorem closeSubdevice_spec (kind : Kind) :
    ⦃fun s => ⌜s = s₀⌝⦄ closeSubdevice kind
      ⦃⇓ _ s => ⌜Ends s₀ s ∧
        ∀ kind', s.dev.handle kind' = if kind' = kind then none else s₀.dev.handle kind'⌝⦄ := by
  mvcgen [closeSubdevice]
  · rename_i free
    subst_vars
    refine ⟨⟨⟨rfl, rfl, rfl⟩, fun _ books => books⟩, ?_⟩
    intro kind'
    by_cases same : kind' = kind
    · rw [if_pos same, same, free]
    · rw [if_neg same]
  · rename_i kept _ _ _ _ _ _ _ _ _ _
    rintro rfl
    subst_vars
    refine ⟨⟨⟨rfl, rfl, rfl⟩, fun others books => ?_⟩, handle_put _ _ _⟩
    have dropped := (books.drop kept).released
    exact (dropped.served dropped.other).closed
  · rename_i kept _ _ _ _ _ _ _
    rintro rfl
    subst_vars
    refine ⟨⟨⟨rfl, rfl, rfl⟩, fun others books => ?_⟩, handle_put _ _ _⟩
    exact (books.drop kept).released.closed

@[spec] theorem fnusbCloseSubdevices_spec :
    ⦃fun s => ⌜s = s₀⌝⦄ fnusbCloseSubdevices
      ⦃⇓ _ s => ⌜Ends s₀ s ∧ ∀ kind, s.dev.handle kind = none⌝⦄ := by
  mvcgen [fnusbCloseSubdevices]
  rename_i camera _ _ motor _ _
  subst_vars
  intro audio last
  refine ⟨(camera.1.trans motor.1).trans audio, ?_⟩
  intro kind
  rw [last, motor.2, camera.2]
  cases kind <;> rfl

theorem Opens.freed (opens : Opens (Session.after s₀ (.listed false)) s₁) (ends : Ends s₁ s) :
    Opens s₀ (Session.after s (.unlisted (some s₀.calls.length))) := by
  have got : held listEffect s.calls = s₀.calls.length ::ₘ held listEffect s₀.calls :=
    (ends.frame.lists.trans opens.lists).trans (held_takes rfl)
  constructor
  · refine (held_gives rfl).trans ?_
    rw [got, Multiset.erase_cons_head]
  · intro others free unsent books
    refine (ends.books others (opens.books others free unsent books.listed)).unlisted ?_
    rw [got]
    exact Multiset.mem_cons_self _ _

@[spec] theorem clear_spec :
    ⦃fun s => ⌜s = s₀⌝⦄ clear ⦃⇓ _ s => ⌜s = { s₀ with dev := s₀.dev.cleared }⌝⦄ := by
  mvcgen [clear]
  subst_vars
  rfl

structure Outcome (s₀ : Session) (res : Int) (s : Session) : Prop where
  opens : Opens s₀ s
  failed : res < 0 → naps s.calls = naps s₀.calls ∧ ∀ kind, s.dev.handle kind = none
  opened : 0 ≤ res → naps s.calls ≤ naps s₀.calls + 10 ∧
    if naps s.calls = naps s₀.calls + 10 then ∀ kind, s.dev.handle kind = none else Complete s

@[spec] theorem fnusbOpenSubdevices_spec (index : Int) :
    ⦃fun s => ⌜s = s₀⌝⦄ fnusbOpenSubdevices usb index
      ⦃⇓ res s => ⌜Outcome { s₀ with dev := s₀.dev.cleared } res s⌝⦄ := by
  mvcgen [fnusbOpenSubdevices]
  · subst_vars
    refine ⟨⟨rfl, ?_⟩, ?_, ?_⟩
    · exact fun others _ unsent books =>
        books.plain (.inl rfl) rfl rfl (and_iff_right unsent) rfl
    · exact fun _ => ⟨rfl, fun kind => by cases kind <;> rfl⟩
    · exact fun positive => absurd positive (by decide)
  · rename_i s₀ _ _ _ _ _ _ _ _ listed _ s₁ opened _ incomplete _ s closed _ _ last
    obtain ⟨place, rfl⟩ := listed
    obtain ⟨positive, opens, below, complete⟩ := opened
    subst last
    subst_vars
    have opens := opens.freed closed.1
    rw [← place] at opens
    have all : naps s.calls = naps s₀.calls + 10 :=
      closed.1.frame.naps.trans (not_ne_iff.mp (mt complete.mpr incomplete))
    refine ⟨opens, fun negative => absurd positive (not_le.mpr negative), ?_⟩
    exact fun _ => ⟨all.le, (if_pos all).mpr closed.2⟩
  · rename_i listed _ s₁ opened _ complete _ _ last
    obtain ⟨place, rfl⟩ := listed
    obtain ⟨positive, opens, below, completes⟩ := opened
    subst last
    subst_vars
    have opens := opens.freed (.refl _)
    rw [← place] at opens
    refine ⟨opens, fun negative => absurd positive (not_le.mpr negative), ?_⟩
    have complete := not_not.mp complete
    exact fun _ => ⟨below, (if_neg (completes.mp complete)).mpr complete⟩
  · rename_i listed _ s₁ failed _ _ closed _ _ last
    obtain ⟨place, rfl⟩ := listed
    obtain ⟨negative, opens, rested⟩ := failed
    subst last
    subst_vars
    have opens := opens.freed closed.1
    rw [← place] at opens
    refine ⟨opens, fun _ => ⟨closed.1.frame.naps.trans rested, closed.2⟩, ?_⟩
    exact fun positive => absurd positive (not_le.mpr negative)

/- The whole. -/

theorem run_spec {Value : Type} {prog : Usb Value} {post : Value → Session → Prop}
    (spec : ⦃fun s => ⌜s = s₀⌝⦄ prog ⦃⇓ r s => ⌜post r s⌝⦄) :
    post (prog.run s₀).1 (prog.run s₀).2 :=
  StateM.of_wp_run_eq rfl (fun p => post p.1 p.2) (by mvcgen [spec])

theorem books_start (ctx : Context) (dev : FreenectDevice) :
    Books 0 none ⟨[], ctx, dev.cleared⟩ where
  owned := trivial
  accounted := rfl
  claimed := fun h mem => absurd mem (Multiset.notMem_zero h)
  lists := trivial
  ready := .rfl

theorem handles_free {dev : FreenectDevice} (free : ∀ kind, dev.handle kind = none) :
    handles dev = 0 := by
  have same : ∀ kind, dev.handle kind = dev.cleared.handle kind := by
    intro kind
    rw [free]
    cases kind <;> rfl
  exact handles_congr same

/-- No handle is used or closed that is not open. Those left open are the device's, all
    claimed, and the strays, which are left even when the device is closed. The lists of
    devices are each freed once, and what was never got is freed exactly after a list was
    refused while a device was awaited. After a failure the device has no handle, and after
    a success it is complete, except when the one that was sent its firmware has not come
    back. -/
theorem opening_account (usb : Libusb) (index : Int) (ctx : Context) (dev : FreenectDevice) :
    let ended := (fnusbOpenSubdevices usb index).run ⟨[], ctx, dev⟩
    let s := ended.2
    let closed := (fnusbCloseSubdevices.run s).2
    Proper handleEffect closed.calls ∧
      Owned listEffect closed.calls ∧
      (Proper listEffect closed.calls ↔ Listable closed.calls) ∧
      held handleEffect s.calls = handles s.dev + strays s.calls ∧
      held handleEffect closed.calls = strays closed.calls ∧
      held listEffect closed.calls = 0 ∧
      (∀ h ∈ handles s.dev, h ∈ held claimEffect s.calls) ∧
      (ended.1 < 0 → handles s.dev = 0 ∧ naps s.calls = 0) ∧
      (0 ≤ ended.1 → naps s.calls ≤ 10 ∧
        if naps s.calls = 10 then handles s.dev = 0 else Complete s) := by
  intro ended s closed
  have outcome : Outcome ⟨[], ctx, dev.cleared⟩ ended.1 s :=
    run_spec (fnusbOpenSubdevices_spec index)
  have ends : Ends s closed ∧ ∀ kind, closed.dev.handle kind = none :=
    run_spec fnusbCloseSubdevices_spec
  have books : Books 0 none s :=
    outcome.opens.books 0 (fun kind => by cases kind <;> rfl) rfl (books_start ctx dev)
  have after : Books 0 none closed := ends.1.books 0 books
  refine ⟨⟨after.owned, handles_faultless _⟩, after.lists,
    (and_iff_right after.lists).trans after.ready, ?_, ?_, ?_, ?_, ?_, ?_⟩
  · rw [books.accounted, add_zero]
  · rw [after.accounted, handles_free ends.2, zero_add, add_zero]
  · exact ends.1.frame.lists.trans outcome.opens.lists
  · exact fun h mem => books.claimed h mem (Option.some_ne_none h)
  · intro negative
    exact ⟨handles_free (outcome.failed negative).2, (outcome.failed negative).1⟩
  · intro positive
    obtain ⟨below, rest⟩ := outcome.opened positive
    have start : naps (⟨[], ctx, dev.cleared⟩ : Session).calls + 10 = 10 := rfl
    rw [start] at below rest
    refine ⟨below, ?_⟩
    by_cases all : naps s.calls = 10
    · rw [if_pos all] at rest ⊢
      exact handles_free rest
    · rw [if_neg all] at rest ⊢
      exact rest

def microphones (busNumber : UInt8) : Device :=
  ⟨busNumber, none, .ok ⟨vidMicrosoft, pidNuiAudio, 267, 2⟩⟩

def twoKinects : Libusb where
  getDeviceList := fun _ =>
    some [⟨1, none, .ok ⟨vidMicrosoft, pidNuiCamera, 267, 1⟩⟩, microphones 2, microphones 1]
  openDevice := fun _ _ => none
  claimInterface := fun _ _ => none
  kernelDriverActive := fun _ _ => 0
  detachKernelDriver := fun _ _ => none
  setInterfaceAltSetting := fun _ _ => none
  getStringDescriptorAscii := fun past _ _ =>
    match past with
    | .opened device _ :: _ => .ok [device.busNumber]
    | _ => .ok [1]
  numInterfaces := fun past _ => if naps past = 0 then 1 else 2
  bulk := fun _ _ => ⟨0, 0⟩
  firmwareFile := fun _ => none
  errno := fun _ => 0

-- Each look at the bus opened the second Kinect once more.
example :
    let s := ((fnusbOpenSubdevices twoKinects 0).run
      ⟨[], ⟨⟨false, false, true⟩, 0, [0], []⟩, ⟨none, none, none, false, false, 0⟩⟩).2
    Complete s ∧ strays s.calls = {8, 18} := by decide +kernel

end SoqTracker.OpeningAccount
