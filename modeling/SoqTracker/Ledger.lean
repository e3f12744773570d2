import Mathlib.Data.Multiset.AddSub

/- Resources that a program takes, uses and gives back, counted along the calls that
   it has made, newest first. -/
namespace SoqTracker.Ledger

inductive Effect (Resource : Type) where
  | takes (r : Resource)
  | gives (r : Resource)
  | uses (r : Resource)
  | faults
  | other

variable {Call Resource : Type}

def Faultless (effect : List Call → Call → Effect Resource) : List Call → Prop
  | [] => True
  | c :: past => Faultless effect past ∧ effect past c ≠ .faults

section Faults
variable {effect : List Call → Call → Effect Resource} {c : Call} {past : List Call}

theorem faultless_past (fine : effect past c ≠ .faults) :
    Faultless effect (c :: past) ↔ Faultless effect past :=
  and_iff_left fine

theorem not_faultless (faults : effect past c = .faults) : ¬ Faultless effect (c :: past) :=
  fun ⟨_, fine⟩ => fine faults

theorem faultless_always (fine : ∀ past c, effect past c ≠ .faults) (calls : List Call) :
    Faultless effect calls := by
  induction calls with
  | nil => exact trivial
  | cons c past ih => exact ⟨ih, fine past c⟩

end Faults

variable [DecidableEq Resource]

section Counting
variable (effect : List Call → Call → Effect Resource)

def held : List Call → Multiset Resource
  | [] => 0
  | c :: past =>
      match effect past c with
      | .takes r => r ::ₘ held past
      | .gives r => (held past).erase r
      | _ => held past

/-- Only what is held is used or given back. -/
def Owned : List Call → Prop
  | [] => True
  | c :: past => Owned past ∧
      match effect past c with
      | .gives r => r ∈ held effect past
      | .uses r => r ∈ held effect past
      | _ => True

def Proper (calls : List Call) : Prop := Owned effect calls ∧ Faultless effect calls

end Counting

variable {effect : List Call → Call → Effect Resource} {c : Call} {past : List Call} {r : Resource}

theorem held_cons : held effect (c :: past) =
    match effect past c with
    | .takes r => r ::ₘ held effect past
    | .gives r => (held effect past).erase r
    | _ => held effect past := rfl

theorem owned_cons : Owned effect (c :: past) = (Owned effect past ∧
    match effect past c with
    | .gives r => r ∈ held effect past
    | .uses r => r ∈ held effect past
    | _ => True) := rfl

theorem held_takes (takes : effect past c = .takes r) :
    held effect (c :: past) = r ::ₘ held effect past := by
  rw [held_cons, takes]

theorem held_gives (gives : effect past c = .gives r) :
    held effect (c :: past) = (held effect past).erase r := by
  rw [held_cons, gives]

theorem held_uses (uses : effect past c = .uses r) : held effect (c :: past) = held effect past := by
  rw [held_cons, uses]

theorem held_faults (faults : effect past c = .faults) :
    held effect (c :: past) = held effect past := by
  rw [held_cons, faults]

theorem held_other (other : effect past c = .other) : held effect (c :: past) = held effect past := by
  rw [held_cons, other]

theorem owned_takes (takes : effect past c = .takes r) :
    Owned effect (c :: past) ↔ Owned effect past := by
  rw [owned_cons, takes, and_true]

theorem owned_gives (gives : effect past c = .gives r) :
    Owned effect (c :: past) ↔ Owned effect past ∧ r ∈ held effect past := by
  rw [owned_cons, gives]

theorem owned_uses (uses : effect past c = .uses r) :
    Owned effect (c :: past) ↔ Owned effect past ∧ r ∈ held effect past := by
  rw [owned_cons, uses]

theorem owned_faults (faults : effect past c = .faults) :
    Owned effect (c :: past) ↔ Owned effect past := by
  rw [owned_cons, faults, and_true]

theorem owned_other (other : effect past c = .other) :
    Owned effect (c :: past) ↔ Owned effect past := by
  rw [owned_cons, other, and_true]

theorem held_nodup (fresh : ∀ past c r, effect past c = .takes r → r ∉ held effect past)
    (calls : List Call) : (held effect calls).Nodup := by
  induction calls with
  | nil => exact Multiset.nodup_zero
  | cons c past ih =>
    cases does : effect past c with
    | takes r =>
      rw [held_takes does, Multiset.nodup_cons]
      exact ⟨fresh past c r does, ih⟩
    | gives r =>
      rw [held_gives does]
      exact ih.erase r
    | uses r =>
      rw [held_uses does]
      exact ih
    | faults =>
      rw [held_faults does]
      exact ih
    | other =>
      rw [held_other does]
      exact ih

end SoqTracker.Ledger
