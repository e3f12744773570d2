import Mathlib.Data.List.Basic
import Mathlib.Tactic.Ring

/- The sending side of libfreenect's audio.c: the header of each packet to the
   Kinect. A period of 128 packets holds three windows of 43, 43 and 42, and the
   odd fourth byte spells a running timestamp nibble by nibble. -/
namespace SoqTracker.OutgoingAudio

structure OutState where
  outWindow : UInt16
  outSeq : UInt8
  outCounterWithinWindow : UInt8
  outWeirdTimestamp : UInt16
  outWindowParity : UInt8

def started : OutState := ⟨0, 0, 0, 0, 0⟩

def madness (timestamp place : Nat) : UInt8 :=
  (((timestamp >>> (place * 4)) &&& 0x000f) <<< 4 ||| 0x05).toUInt8

def weird (s : OutState) : UInt8 :=
  let place := s.outCounterWithinWindow.toNat
  let timestamp := s.outWeirdTimestamp.toNat
  if s.outWindowParity = 0 then
    if place < 4 then madness timestamp place
    else if place < 8 then madness (timestamp + 23) (place - 4)
    else 0x01
  else
    if place < 4 then madness timestamp place else 0x01

def turnWindow (s : OutState) : OutState :=
  { s with
    outCounterWithinWindow := 0
    outWindow := s.outWindow + 1
    outWindowParity := s.outWindowParity + 1 }

/-- The values for the next packet. The case of 0x80 falls through. -/
def advance (s : OutState) : OutState :=
  let counted := { s with
    outSeq := s.outSeq + 1
    outCounterWithinWindow := s.outCounterWithinWindow + 1
    outWeirdTimestamp := s.outWeirdTimestamp + if s.outWindowParity = 1 then 6 else 5 }
  let turned :=
    if counted.outSeq = 0x80 then turnWindow { counted with outSeq := 0 }
    else if counted.outSeq = 0x2b ∨ counted.outSeq = 0x56 then turnWindow counted
    else counted
  if turned.outWindowParity = 3 then { turned with outWindowParity := 0 } else turned

/-- A client's samples are not sent yet: without a callback the packet is blank. -/
def prepareIsoOutData (audioOutCb : Bool) (s : OutState) (buffer : Vector UInt8 76) :
    OutState × Vector UInt8 76 :=
  let blank := if audioOutCb then buffer else .replicate 76 0
  (advance s, (((blank.set 0 s.outWindow.toUInt8).set 1 (s.outWindow >>> 8).toUInt8).set 2
    s.outSeq).set 3 (weird s))

def prepared (audioOutCb : Bool) :
    OutState → List (Vector UInt8 76) → OutState × List (Vector UInt8 76)
  | s, [] => (s, [])
  | s, buffer :: later =>
      let sent := prepareIsoOutData audioOutCb s buffer
      let rest := prepared audioOutCb sent.1 later
      (rest.1, sent.2 :: rest.2)

/- Where packet k stands. -/

def third (r : Nat) : Nat := if r < 43 then 0 else if r < 86 then 1 else 2

def place (r : Nat) : Nat := r - 43 * third r

def pace (r : Nat) : Nat := if r < 43 then 5 * r else if r < 86 then 6 * r - 43 else 5 * r + 43

def timestamp (k : Nat) : Nat := 683 * (k / 128) + pace (k % 128)

def window (k : Nat) : Nat := 3 * (k / 128) + third (k % 128)

def mark (k : Nat) : Nat :=
  let place := place (k % 128)
  let timestamp := timestamp k % 65536
  if place < 4 then 16 * (timestamp / 16 ^ place % 16) + 5
  else if third (k % 128) = 0 ∧ place < 8 then 16 * ((timestamp + 23) / 16 ^ (place - 4) % 16) + 5
  else 1

def inPeriod (q r : Nat) : OutState :=
  ⟨.ofNat (3 * q + third r), .ofNat r, .ofNat (place r), .ofNat (683 * q + pace r),
    .ofNat (third r)⟩

def reached (k : Nat) : OutState := inPeriod (k / 128) (k % 128)

theorem reached_zero : reached 0 = started := rfl

theorem seq_is {r : Nat} (small : r < 128) (n : Nat) (known : n ≤ 128) :
    UInt8.ofNat r + 1 = UInt8.ofNat n ↔ r + 1 = n := by
  rw [← UInt8.toNat_inj, UInt8.toNat_add, UInt8.toNat_ofNat', UInt8.toNat_ofNat', UInt8.toNat_one]
  omega

theorem third_is (r n : Nat) (known : n ≤ 3) : UInt8.ofNat (third r) = UInt8.ofNat n ↔ third r = n := by
  have small : third r < 3 := by unfold third; split <;> (try split) <;> omega
  rw [← UInt8.toNat_inj, UInt8.toNat_ofNat', UInt8.toNat_ofNat']
  omega

theorem advance_inside {q r : Nat} (small : r < 128) (first : r ≠ 42) (second : r ≠ 85)
    (last : r ≠ 127) : advance (inPeriod q r) = inPeriod q (r + 1) := by
  have same : third (r + 1) = third r := by
    unfold third
    split <;> split <;> (try split) <;> (try split) <;> omega
  have placed : place (r + 1) = place r + 1 := by
    unfold place
    rw [same]
    unfold third
    split <;> (try split) <;> omega
  have paced : pace (r + 1) = pace r + if third r = 1 then 6 else 5 := by
    unfold pace third
    grind
  have seq128 : ¬ UInt8.ofNat r + 1 = 0x80 := fun same => by
    have := (seq_is small 128 (by decide)).mp same
    omega
  have seq43 : ¬ UInt8.ofNat r + 1 = 0x2b := fun same => by
    have := (seq_is small 43 (by decide)).mp same
    omega
  have seq86 : ¬ UInt8.ofNat r + 1 = 0x56 := fun same => by
    have := (seq_is small 86 (by decide)).mp same
    omega
  have parity : ¬ UInt8.ofNat (third r) = 3 := fun same => by
    have := (third_is r 3 (by decide)).mp same
    unfold third at this
    split at this <;> (try split at this) <;> omega
  have middle : UInt8.ofNat (third r) = 1 ↔ third r = 1 := third_is r 1 (by decide)
  simp only [advance, inPeriod, seq128, seq43, seq86, if_false, or_self, parity, same, placed, paced,
    middle]
  by_cases six : third r = 1 <;> simp [six, UInt8.ofNat_add, UInt16.ofNat_add, ← Nat.add_assoc]

theorem advance_ends (q : Nat) : advance (inPeriod q 42) = inPeriod q 43 ∧
    advance (inPeriod q 85) = inPeriod q 86 ∧ advance (inPeriod q 127) = inPeriod (q + 1) 0 := by
  have later : ∀ n d : Nat, UInt16.ofNat n + UInt16.ofNat d = .ofNat (n + d) :=
    fun n d => (UInt16.ofNat_add n d).symm
  refine ⟨?_, ?_, ?_⟩
  · exact congrArg₂ (fun window stamp => OutState.mk window 43 0 stamp 1)
      (later (3 * q) 1) (later (683 * q + 210) 5)
  · exact congrArg₂ (fun window stamp => OutState.mk window 86 0 stamp 2)
      (later (3 * q + 1) 1) (later (683 * q + 467) 6)
  · exact congrArg₂ (fun window stamp => OutState.mk window 0 0 stamp 0)
      (later (3 * q + 2) 1) (later (683 * q + 678) 5)

theorem advance_reached (k : Nat) : advance (reached k) = reached (k + 1) := by
  have small : k % 128 < 128 := Nat.mod_lt _ (by decide)
  obtain ⟨first, second, last⟩ := advance_ends (k / 128)
  unfold reached
  by_cases wraps : k % 128 = 127
  · have period : (k + 1) / 128 = k / 128 + 1 := by omega
    have rest : (k + 1) % 128 = 0 := by omega
    rw [wraps, last, period, rest]
  · have period : (k + 1) / 128 = k / 128 := by omega
    have rest : (k + 1) % 128 = k % 128 + 1 := by omega
    rw [period, rest]
    by_cases ends : k % 128 = 42
    · rw [ends, first]
    · by_cases ends' : k % 128 = 85
      · rw [ends', second]
      · exact advance_inside small ends ends' wraps

/- The bytes. -/

theorem madness_nibble (timestamp place : Nat) :
    (madness timestamp place).toNat = 16 * (timestamp / 16 ^ place % 16) + 5 := by
  have shifted : timestamp >>> (place * 4) = timestamp / 16 ^ place := by
    rw [Nat.shiftRight_eq_div_pow, Nat.mul_comm, Nat.pow_mul]
  have nibble : timestamp / 16 ^ place &&& 0x000f = timestamp / 16 ^ place % 16 :=
    Nat.and_two_pow_sub_one_eq_mod _ 4
  have small : timestamp / 16 ^ place % 16 < 16 := Nat.mod_lt _ (by decide)
  have tagged : (timestamp / 16 ^ place % 16) <<< 4 ||| 5 =
      (timestamp / 16 ^ place % 16) <<< 4 + 5 := (Nat.shiftLeft_add_eq_or_of_lt (by decide) _).symm
  have moved : (timestamp / 16 ^ place % 16) <<< 4 = timestamp / 16 ^ place % 16 * 16 :=
    Nat.shiftLeft_eq _ 4
  rw [madness, shifted, nibble, tagged, moved, Nat.toUInt8_eq, UInt8.toNat_ofNat']
  omega

theorem weird_mark (k : Nat) : (weird (reached k)).toNat = mark k := by
  have small : k % 128 < 128 := Nat.mod_lt _ (by decide)
  have within : place (k % 128) < 128 := by
    unfold place
    omega
  have placed : (reached k).outCounterWithinWindow.toNat = place (k % 128) := by
    simp only [reached, inPeriod, UInt8.toNat_ofNat']
    omega
  have stamped : (reached k).outWeirdTimestamp.toNat = timestamp k % 65536 := by
    simp only [reached, inPeriod, UInt16.toNat_ofNat', timestamp]
  have parity : (reached k).outWindowParity = 0 ↔ third (k % 128) = 0 :=
    third_is (k % 128) 0 (by decide)
  unfold weird mark
  simp only [placed, stamped, parity]
  by_cases four : place (k % 128) < 4
  · simp only [four, if_true, madness_nibble, ite_self]
  · by_cases first : third (k % 128) = 0
    · by_cases eight : place (k % 128) < 8
      · simp only [four, first, eight, if_true, if_false, true_and, madness_nibble]
      · simp only [four, first, eight, if_true, if_false, true_and]
        rfl
    · simp only [four, first, if_false, false_and]
      rfl

def outPacket (k : Nat) : Vector UInt8 76 :=
  ((((Vector.replicate 76 0).set 0 (.ofNat (window k))).set 1 (.ofNat (window k / 256))).set 2
    (.ofNat (k % 128))).set 3 (.ofNat (mark k))

theorem prepare_packet (k : Nat) (buffer : Vector UInt8 76) :
    prepareIsoOutData false (reached k) buffer = (reached (k + 1), outPacket k) := by
  have windowIs : (reached k).outWindow = .ofNat (window k) := rfl
  have seqIs : (reached k).outSeq = .ofNat (k % 128) := rfl
  have low : (UInt16.ofNat (window k)).toUInt8 = .ofNat (window k) := by simp
  have high : (UInt16.ofNat (window k) >>> 8).toUInt8 = .ofNat (window k / 256) := by
    have places : (8 : UInt16).toNat % 16 = 8 := rfl
    apply UInt8.toNat_inj.mp
    rw [UInt16.toNat_toUInt8, UInt16.toNat_shiftRight, UInt16.toNat_ofNat', UInt8.toNat_ofNat',
      places, Nat.shiftRight_eq_div_pow]
    omega
  have tag : weird (reached k) = .ofNat (mark k) := by
    rw [← weird_mark, UInt8.ofNat_toNat]
  simp only [prepareIsoOutData, outPacket, advance_reached, tag, windowIs, seqIs, low, high]
  rfl

/-- The headers never drift, over any number of packets: sequence number, window
    number and timestamp are those of the packet's place since the start. -/
theorem prepared_reached (k : Nat) (buffers : List (Vector UInt8 76)) :
    prepared false (reached k) buffers =
      (reached (k + buffers.length), (List.range buffers.length).map fun i => outPacket (k + i)) := by
  induction buffers generalizing k with
  | nil => rfl
  | cons buffer later ih =>
    have count : k + 1 + later.length = k + (buffer :: later).length := by
      rw [List.length_cons]
      omega
    have places : ∀ i, k + 1 + i = k + (i + 1) := fun i => by omega
    have first : prepared false (reached k) (buffer :: later) =
        ((prepared false (reached (k + 1)) later).1,
          outPacket k :: (prepared false (reached (k + 1)) later).2) := by
      rw [prepared, prepare_packet]
    rw [first, ih, count, List.length_cons, List.range_succ_eq_map, List.map_cons, List.map_map]
    simp only [places]
    rfl

end SoqTracker.OutgoingAudio
