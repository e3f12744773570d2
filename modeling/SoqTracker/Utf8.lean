import Mathlib.Data.List.Basic

/- UTF-8 decoding, strict and with malformed bytes dropped. Dropping one byte at
   a time reads the same text as dropping each maximal malformed part, since the
   continuation bytes of such a part start no character themselves. -/
namespace SoqTracker.Utf8

def isTail (b : UInt8) : Bool := 0x80 ≤ b && b ≤ 0xBF

/-- The second byte of a three or four byte sequence: overlong forms,
    surrogates and values past the last scalar are excluded here. -/
def isSecond (a b : UInt8) : Bool :=
  if a = 0xE0 then 0xA0 ≤ b && b ≤ 0xBF
  else if a = 0xED then 0x80 ≤ b && b ≤ 0x9F
  else if a = 0xF0 then 0x90 ≤ b && b ≤ 0xBF
  else if a = 0xF4 then 0x80 ≤ b && b ≤ 0x8F
  else isTail b

def headScalar : List UInt8 → Option (Char × Nat)
  | [] => none
  | a :: bytes =>
      if a < 0x80 then some (Char.ofNat a.toNat, 1)
      else if 0xC2 ≤ a && a ≤ 0xDF then
        match bytes with
        | b :: _ =>
            if isTail b then some (Char.ofNat ((a.toNat - 0xC0) * 64 + (b.toNat - 0x80)), 2)
            else none
        | [] => none
      else if 0xE0 ≤ a && a ≤ 0xEF then
        match bytes with
        | b :: c :: _ =>
            if isSecond a b && isTail c then
              some (Char.ofNat ((a.toNat - 0xE0) * 4096 + (b.toNat - 0x80) * 64 +
                (c.toNat - 0x80)), 3)
            else none
        | _ => none
      else if 0xF0 ≤ a && a ≤ 0xF4 then
        match bytes with
        | b :: c :: d :: _ =>
            if isSecond a b && isTail c && isTail d then
              some (Char.ofNat ((a.toNat - 0xF0) * 262144 + (b.toNat - 0x80) * 4096 +
                (c.toNat - 0x80) * 64 + (d.toNat - 0x80)), 4)
            else none
        | _ => none
      else none

/-- Decoding with a count of bytes that belong to a character already read. -/
def decodeFrom : Nat → List UInt8 → Option (List Char)
  | _, [] => some []
  | owed + 1, _ :: bytes => decodeFrom owed bytes
  | 0, b :: bytes =>
      match headScalar (b :: bytes) with
      | some (c, length) => (decodeFrom (length - 1) bytes).map (c :: ·)
      | none => none

def decode (bytes : List UInt8) : Option (List Char) := decodeFrom 0 bytes

def decodeIgnoringFrom : Nat → List UInt8 → List Char
  | _, [] => []
  | owed + 1, _ :: bytes => decodeIgnoringFrom owed bytes
  | 0, b :: bytes =>
      match headScalar (b :: bytes) with
      | some (c, length) => c :: decodeIgnoringFrom (length - 1) bytes
      | none => decodeIgnoringFrom 0 bytes

def decodeIgnoring (bytes : List UInt8) : List Char := decodeIgnoringFrom 0 bytes

def encode (text : List Char) : List UInt8 := text.flatMap String.utf8EncodeChar

def Ascii (text : List Char) : Prop := ∀ c ∈ text, c.toNat < 128

@[simp] theorem ascii_nil : Ascii [] := by simp [Ascii]

@[simp] theorem ascii_cons (c : Char) (text : List Char) :
    Ascii (c :: text) ↔ c.toNat < 128 ∧ Ascii text := by
  simp [Ascii]

@[simp] theorem ascii_append (front back : List Char) :
    Ascii (front ++ back) ↔ Ascii front ∧ Ascii back := by
  simp [Ascii, or_imp, forall_and]

@[simp] theorem encode_nil : encode [] = [] := rfl

theorem encode_append (front back : List Char) :
    encode (front ++ back) = encode front ++ encode back := by
  simp [encode]

theorem encode_ascii_char (c : Char) (small : c.toNat < 128) :
    String.utf8EncodeChar c = [c.toNat.toUInt8] := by
  simp only [String.utf8EncodeChar]
  have one : c.val.toNat ≤ 127 := Nat.le_of_lt_succ small
  simp only [one, if_true]
  rfl

theorem encode_ascii_cons (c : Char) (text : List Char) (small : c.toNat < 128) :
    encode (c :: text) = c.toNat.toUInt8 :: encode text := by
  simp [encode, encode_ascii_char c small]

theorem encode_ascii (text : List Char) (plain : Ascii text) :
    encode text = text.map (fun c => c.toNat.toUInt8) := by
  induction text with
  | nil => rfl
  | cons c text ih =>
    rw [ascii_cons] at plain
    simp [encode_ascii_cons c text plain.1, ih plain.2]

theorem headScalar_ascii (a : UInt8) (bytes : List UInt8) (small : a < 0x80) :
    headScalar (a :: bytes) = some (Char.ofNat a.toNat, 1) := by
  simp [headScalar, small]

theorem toUInt8_small (c : Char) (small : c.toNat < 128) :
    c.toNat.toUInt8 < 0x80 ∧ Char.ofNat c.toNat.toUInt8.toNat = c := by
  have value : c.toNat.toUInt8.toNat = c.toNat := by
    simp
    omega
  refine ⟨?_, by rw [value, Char.ofNat_toNat]⟩
  rw [UInt8.lt_iff_toNat_lt, value]
  simpa using small

theorem decode_ascii (text : List Char) (plain : Ascii text) :
    decode (encode text) = some text := by
  induction text with
  | nil => rfl
  | cons c text ih =>
    rw [ascii_cons] at plain
    obtain ⟨small, back⟩ := toUInt8_small c plain.1
    have later := ih plain.2
    rw [decode] at later ⊢
    rw [encode_ascii_cons c text plain.1, decodeFrom, headScalar_ascii _ _ small, back]
    simp [later]

theorem decodeIgnoring_small (bytes : List UInt8) (small : ∀ b ∈ bytes, b < 0x80) :
    decodeIgnoring bytes = bytes.map fun b => Char.ofNat b.toNat := by
  induction bytes with
  | nil => rfl
  | cons b bytes ih =>
    have later := ih (fun c mem => small c (by simp [mem]))
    rw [decodeIgnoring] at later ⊢
    rw [decodeIgnoringFrom, headScalar_ascii b bytes (small b (by simp))]
    simp [later]

theorem encode_bytes (text : List Char) (plain : Ascii text) :
    (∀ b ∈ encode text, b < 0x80) ∧ (encode text).map (fun b => Char.ofNat b.toNat) = text := by
  induction text with
  | nil => simp
  | cons c text ih =>
    rw [ascii_cons] at plain
    obtain ⟨small, back⟩ := toUInt8_small c plain.1
    obtain ⟨all, spells⟩ := ih plain.2
    rw [encode_ascii_cons c text plain.1]
    constructor
    · intro b mem
      rcases List.mem_cons.mp mem with first | later
      · rw [first]
        exact small
      · exact all b later
    · rw [List.map_cons, back, spells]

end SoqTracker.Utf8
