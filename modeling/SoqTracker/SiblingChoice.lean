import SoqTracker.SubdeviceOpening

/- Which device is taken for the motor or the microphones of a camera. -/
namespace SoqTracker.SiblingChoice
open SubdeviceOpening

variable (camera : Device) (predicate : Descriptor → Bool)

def Fits (device : Device) : Bool :=
  match device.descriptor with
  | .error _ => false
  | .ok desc => predicate desc

def SameBus (device : Device) : Bool := camera.busNumber = device.busNumber

def SameParent (device : Device) : Bool := camera.parent ≠ none ∧ camera.parent = device.parent

def sole : List Device → Option Device
  | [device] => some device
  | _ => none

def fitting (devices : List Device) : List Device := devices.filter (Fits predicate)

def onBus (devices : List Device) : List Device :=
  (fitting predicate devices).filter (SameBus camera)

/-- The first under the same parent, else the only one on the same bus, else the only one. -/
def choice (devices : List Device) : Option Device :=
  ((onBus camera predicate devices).find? (SameParent camera)).or
    ((sole (onBus camera predicate devices)).or (sole (fitting predicate devices)))

def met (before : List Device) : Siblings where
  total := (fitting predicate before).length
  sameBus := (onBus camera predicate before).length
  single := sole (fitting predicate before)
  singleOnBus := sole (onBus camera predicate before)

theorem sole_append (devices : List Device) (device : Device) :
    sole (devices ++ [device]) = if devices.length + 1 = 1 then some device else none := by
  cases devices with
  | nil => rfl
  | cons first later => cases later <;> rfl

section Step
variable {camera predicate} (before : List Device) {current : Device}

theorem met_skip (unfit : Fits predicate current = false) :
    met camera predicate (before ++ [current]) = met camera predicate before := by
  simp [met, onBus, fitting, unfit]

theorem met_far (fits : Fits predicate current = true) (far : SameBus camera current = false) :
    met camera predicate (before ++ [current]) = { met camera predicate before with
      total := (met camera predicate before).total + 1
      single := if (met camera predicate before).total + 1 = 1 then some current else none } := by
  simp [met, onBus, fitting, fits, far, sole_append]

theorem met_near (fits : Fits predicate current = true) (near : SameBus camera current = true) :
    met camera predicate (before ++ [current]) = { met camera predicate before with
      total := (met camera predicate before).total + 1
      single := if (met camera predicate before).total + 1 = 1 then some current else none
      sameBus := (met camera predicate before).sameBus + 1
      singleOnBus :=
        if (met camera predicate before).sameBus + 1 = 1 then some current else none } := by
  simp [met, onBus, fitting, fits, near, sole_append]

end Step

theorem onBus_append (before after : List Device) : onBus camera predicate (before ++ after) =
    onBus camera predicate before ++ onBus camera predicate after := by
  rw [onBus, fitting, List.filter_append, List.filter_append]
  rfl

/-- No device met before is under the same parent, or the loop would have ended there. -/
theorem siblingLoop_choice (before later : List Device)
    (orphans : (onBus camera predicate before).find? (SameParent camera) = none) :
    siblingLoop camera predicate later (met camera predicate before) =
      choice camera predicate (before ++ later) := by
  induction later generalizing before with
  | nil =>
    rw [List.append_nil, choice, orphans]
    rfl
  | cons current later ih =>
    have next := ih (before ++ [current])
    rw [List.append_assoc, List.singleton_append, onBus_append, List.find?_append, orphans,
      Option.none_or] at next
    rw [siblingLoop]
    cases described : current.descriptor with
    | error failure =>
      have unfit : Fits predicate current = false := by rw [Fits, described]
      rw [met_skip before unfit] at next
      exact next (by simp [onBus, fitting, unfit])
    | ok desc =>
      have fits : Fits predicate current = predicate desc := by rw [Fits, described]
      cases wanted : predicate desc with
      | false =>
        rw [wanted] at fits
        rw [met_skip before fits] at next
        simpa [wanted] using next (by simp [onBus, fitting, fits])
      | true =>
        rw [wanted] at fits
        cases near : SameBus camera current with
        | false =>
          have far : camera.busNumber ≠ current.busNumber := of_decide_eq_false near
          rw [met_far before fits near] at next
          simpa [wanted, far] using next (by simp [onBus, fitting, fits, near])
        | true =>
          have same : camera.busNumber = current.busNumber := of_decide_eq_true near
          rw [met_near before fits near] at next
          cases brother : SameParent camera current with
          | false =>
            have other : camera.parent = none ∨ camera.parent ≠ current.parent := by
              have apart := of_decide_eq_false brother
              tauto
            simpa [wanted, same, other] using next (by simp [onBus, fitting, fits, near, brother])
          | true =>
            obtain ⟨known, parent⟩ := of_decide_eq_true brother
            rw [parent] at known
            have first : (onBus camera predicate (before ++ current :: later)).find?
                (SameParent camera) = some current := by
              rw [onBus_append, List.find?_append, orphans, Option.none_or]
              simp [onBus, fitting, fits, near, brother]
            rw [choice, first]
            simp [wanted, same, parent, known]

/-- The search is exact, for any devices on the bus. -/
theorem sibling_exact (devices : List Device) :
    fnusbFindSiblingDevice camera devices predicate = choice camera predicate devices :=
  siblingLoop_choice camera predicate [] devices rfl

end SoqTracker.SiblingChoice
