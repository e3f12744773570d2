import SoqTracker.KinectAudio
import SoqTracker.Deliveries

/- libfreenect's loader.c: an image from memory is sent to the bootloader of the
   Kinect's audio device in pages of 0x4000 bytes, each announced by a command
   and cut into transfers of 512, and then launched. -/
namespace SoqTracker.FirmwareUpload
open KinectAudio Deliveries

/-- The fields that the loader uses. The others go to the log. -/
structure FirmwareHeader where
  baseAddr : UInt32
  size : UInt32
  entryAddr : UInt32

def firmwareHeader (image : List UInt8) : FirmwareHeader :=
  ⟨uint32At image 12, uint32At image 16, uint32At image 20⟩

structure BootloaderCommand where
  tag : UInt32
  bytes : UInt32
  cmd : UInt32
  addr : UInt32

def uint32Bytes (x : UInt32) : List UInt8 :=
  let n := x.toNat
  [n.toUInt8, (n / 256).toUInt8, (n / 65536).toUInt8, (n / 16777216).toUInt8]

def BootloaderCommand.memory (bootcmd : BootloaderCommand) : List UInt8 :=
  [0x06022009, bootcmd.tag, bootcmd.bytes, bootcmd.cmd, bootcmd.addr, 0].flatMap uint32Bytes

/-- Bulk transfers to endpoint 1, and the one of get_reply. -/
inductive Transfer where
  | write (data : List UInt8)
  | reply
deriving DecidableEq

/-- What fnusb_bulk returns. -/
structure Answer where
  res : Int
  transferred : Int

section Loader
variable (answers : Nat → Answer)

/-- Whether the loader goes on after its n-th transfer. What get_reply returns is not used. -/
def accepts (n : Nat) : Transfer → Bool
  | .write data => (answers n).res = 0 ∧ (answers n).transferred = data.length
  | .reply => true

def sendPage (page : List UInt8) (bytesSent : Nat) (sent : List Transfer) :
    Bool × List Transfer :=
  if bytesSent < page.length then
    let toSend := if page.length - bytesSent > 512 then 512 else page.length - bytesSent
    let data := (page.drop bytesSent).take toSend
    if accepts answers sent.length (.write data) then
      sendPage page (bytesSent + toSend) (sent ++ [.write data])
    else (false, sent ++ [.write data])
  else (true, sent)
termination_by page.length - bytesSent
decreasing_by grind

/-- The length of the next page, an int. The subtraction is one of uint32. -/
def readLength (size : UInt32) (totalBytesSent : Nat) (bytesLeft : Int) : Int :=
  let rest := size - .ofNat totalBytesSent
  let read : Int := if 0x4000 > rest then rest.toNat else 0x4000
  if read > bytesLeft then bytesLeft else read

theorem readLength_le (size : UInt32) (totalBytesSent : Nat) (bytesLeft : Int) :
    readLength size totalBytesSent bytesLeft ≤ bytesLeft := by
  unfold readLength
  grind

theorem readLength_fewer {size : UInt32} {totalBytesSent : Nat} {bytesLeft : Int}
    (more : ¬ readLength size totalBytesSent bytesLeft ≤ 0) :
    (bytesLeft - readLength size totalBytesSent bytesLeft).toNat < bytesLeft.toNat := by
  have left := readLength_le size totalBytesSent bytesLeft
  omega

structure Progress where
  sent : List Transfer
  audioTag : UInt32
  addr : UInt32
  readIndex : Nat
  bytesLeft : Int
  totalBytesSent : Nat

def uploadPages (image : List UInt8) (size : UInt32) (p : Progress) : Bool × Progress :=
  let read := readLength size p.totalBytesSent p.bytesLeft
  if none : read ≤ 0 then (true, p)
  else
    let page := (image.drop p.readIndex).take read.toNat
    let bootcmd : BootloaderCommand := ⟨p.audioTag, .ofNat read.toNat, 0x03, p.addr⟩
    let announced := p.sent ++ [.write bootcmd.memory]
    if accepts answers p.sent.length (.write bootcmd.memory) then
      let paged := sendPage answers page 0 announced
      if paged.1 then
        uploadPages image size
          { sent := paged.2 ++ [.reply]
            audioTag := p.audioTag + 1
            addr := p.addr + .ofNat read.toNat
            readIndex := p.readIndex + read.toNat
            bytesLeft := p.bytesLeft - read
            totalBytesSent := p.totalBytesSent + read.toNat }
      else (false, { p with sent := paged.2 })
    else (false, { p with sent := announced })
termination_by p.bytesLeft.toNat
decreasing_by exact readLength_fewer none

/-- The value returned, the transfers made and the tag left behind. -/
structure Uploaded where
  result : Int
  sent : List Transfer
  audioTag : UInt32

def asInt (n : Nat) : Int := Int.bmod n 4294967296

def uploadImage (audioTag : UInt32) (image : List UInt8) (fwheader : FirmwareHeader) : Uploaded :=
  let pages := uploadPages answers image fwheader.size
    ⟨[], audioTag, fwheader.baseAddr, 0, asInt image.length, 0⟩
  let p := pages.2
  if pages.1 then
    if UInt32.ofNat p.totalBytesSent ≠ fwheader.size then ⟨-1, p.sent, p.audioTag⟩
    else
      let bootcmd : BootloaderCommand := ⟨p.audioTag, 0, 0x04, fwheader.entryAddr⟩
      let sent := p.sent ++ [.write bootcmd.memory]
      if accepts answers p.sent.length (.write bootcmd.memory) then
        ⟨0, sent ++ [.reply], p.audioTag + 1⟩
      else ⟨-1, sent, p.audioTag⟩
  else ⟨-1, p.sent, p.audioTag⟩

def uploadFirmwareFromMemory (errno : Int) (audioTag : UInt32) (image : List UInt8) : Uploaded :=
  if image.length < 24 then ⟨-errno, [], audioTag⟩
  else uploadImage answers audioTag image (firmwareHeader image)

end Loader

/- What there is to send. -/

def readable (image : List UInt8) : Nat := (asInt image.length).toNat

def body (image : List UInt8) (size : UInt32) : List UInt8 :=
  (image.take (readable image)).take size.toNat

def pageTransfers (audioTag addr : UInt32) (page : List UInt8) : List Transfer :=
  .write (BootloaderCommand.memory ⟨audioTag, .ofNat page.length, 0x03, addr⟩) ::
    ((pieces 512 page).map .write ++ [.reply])

def pagesTransfers : UInt32 → UInt32 → List (List UInt8) → List Transfer
  | _, _, [] => []
  | audioTag, addr, page :: later =>
      pageTransfers audioTag addr page ++
        pagesTransfers (audioTag + 1) (addr + .ofNat page.length) later

def launchTransfers (audioTag entryAddr : UInt32) : List Transfer :=
  [.write (BootloaderCommand.memory ⟨audioTag, 0, 0x04, entryAddr⟩), .reply]

def pages (image : List UInt8) (size : UInt32) : List (List UInt8) :=
  pieces 0x4000 (body image size)

/-- All transfers for an image with this header, if none of them fails. -/
def script (audioTag : UInt32) (image : List UInt8) (fwheader : FirmwareHeader) : List Transfer :=
  let pages := pages image fwheader.size
  pagesTransfers audioTag fwheader.baseAddr pages ++
    if fwheader.size.toNat ≤ readable image then
      launchTransfers (audioTag + .ofNat pages.length) fwheader.entryAddr
    else []

section Sending
variable (answers : Nat → Answer)

@[simp] theorem accepts_reply (n : Nat) : accepts answers n .reply = true := rfl

theorem sendPage_pieces (page : List UInt8) (bytesSent : Nat) (sent : List Transfer) :
    sendPage answers page bytesSent sent =
      attempt (accepts answers) sent ((pieces 512 (page.drop bytesSent)).map .write) := by
  induction bytesSent, sent using sendPage.induct answers page with
  | case1 bytesSent sent more toSend data accepted ih =>
    have length : min toSend (page.drop bytesSent).length =
        min 512 (page.drop bytesSent).length := by
      rw [List.length_drop]
      grind
    have filled : page.drop bytesSent ≠ [] := List.ne_nil_of_length_pos (by simpa using more)
    have taken : data = (page.drop bytesSent).take 512 := List.take_eq_take_iff.mpr length
    have rest : page.drop (bytesSent + toSend) = (page.drop bytesSent).drop 512 := by
      rw [← List.drop_drop]
      exact List.drop_eq_drop_iff.mpr length
    rw [pieces_cons (by decide) filled, ← taken, List.map_cons, attempt, if_pos accepted, ← rest,
      ← ih, sendPage, if_pos more]
    exact if_pos accepted
  | case2 bytesSent sent more toSend data refused =>
    have length : min toSend (page.drop bytesSent).length =
        min 512 (page.drop bytesSent).length := by
      rw [List.length_drop]
      grind
    have filled : page.drop bytesSent ≠ [] := List.ne_nil_of_length_pos (by simpa using more)
    have taken : data = (page.drop bytesSent).take 512 := List.take_eq_take_iff.mpr length
    rw [pieces_cons (by decide) filled, ← taken, List.map_cons, attempt, if_neg refused, sendPage,
      if_pos more]
    exact if_neg refused
  | case3 bytesSent sent done =>
    rw [sendPage, if_neg done, List.drop_of_length_le (by omega), pieces_nil (by decide)]
    rfl

theorem bmod_le (n m : Nat) : (Int.bmod n m).toNat ≤ n := by
  have within : n % m ≤ n := Nat.mod_le n m
  rw [Int.bmod_def, ← Int.natCast_emod]
  split <;> omega

theorem readable_le (image : List UInt8) : readable image ≤ image.length := bmod_le _ _

theorem body_length (image : List UInt8) (size : UInt32) :
    (body image size).length = min size.toNat (readable image) := by
  have within := readable_le image
  simp only [body, List.length_take]
  omega

/-- Where the loop stands: what is sent of the image and what is left of it. -/
structure Reading (image : List UInt8) (size : UInt32) (p : Progress) : Prop where
  counted : p.totalBytesSent = p.readIndex
  inside : p.readIndex ≤ (body image size).length
  left : p.bytesLeft.toNat + p.readIndex = readable image

section Page
variable {image : List UInt8} {size : UInt32} {p : Progress} (reading : Reading image size p)
include reading

theorem read_length : (readLength size p.totalBytesSent p.bytesLeft).toNat =
    min 0x4000 ((body image size).drop p.readIndex).length := by
  obtain ⟨counted, inside, left⟩ := reading
  have sent := size.toNat_lt
  rw [body_length] at inside
  have rest : (size - .ofNat p.totalBytesSent).toNat = size.toNat - p.readIndex := by
    rw [counted, UInt32.toNat_sub, UInt32.toNat_ofNat']
    omega
  have page : (0x4000 > size - .ofNat p.totalBytesSent) ↔ size.toNat - p.readIndex < 0x4000 := by
    rw [gt_iff_lt, UInt32.lt_iff_toNat_lt, rest]
    rfl
  rw [readLength, List.length_drop, body_length, rest]
  simp only [page]
  split <;> split <;> omega

theorem nothing_read (none : (body image size).drop p.readIndex = []) :
    readLength size p.totalBytesSent p.bytesLeft ≤ 0 := by
  have length := read_length reading
  rw [none, List.length_nil, Nat.min_zero] at length
  exact Int.toNat_eq_zero.mp length

theorem page_length (more : (body image size).drop p.readIndex ≠ []) :
    readLength size p.totalBytesSent p.bytesLeft =
      (((body image size).drop p.readIndex).take 0x4000).length := by
  have length := read_length reading
  have some : 0 < ((body image size).drop p.readIndex).length := List.length_pos_of_ne_nil more
  rw [List.length_take, ← length, Int.toNat_of_nonneg]
  generalize readLength size p.totalBytesSent p.bytesLeft = read at length
  omega

omit reading in
theorem page_read :
    (image.drop p.readIndex).take (((body image size).drop p.readIndex).take 0x4000).length =
      ((body image size).drop p.readIndex).take 0x4000 := by
  rw [body, List.take_take, List.drop_take, List.take_take, List.take_eq_take_iff]
  simp only [List.length_take, List.length_drop]
  omega

end Page

def further (p : Progress) (page : List UInt8) (sent : List Transfer) : Progress :=
  { sent
    audioTag := p.audioTag + 1
    addr := p.addr + .ofNat page.length
    readIndex := p.readIndex + page.length
    bytesLeft := p.bytesLeft - page.length
    totalBytesSent := p.totalBytesSent + page.length }

theorem reading_further {image : List UInt8} {size : UInt32} {p : Progress}
    (reading : Reading image size p) (more : (body image size).drop p.readIndex ≠ [])
    (sent : List Transfer) :
    Reading image size (further p (((body image size).drop p.readIndex).take 0x4000) sent) := by
  have page := page_length reading more
  have fewer := readLength_le size p.totalBytesSent p.bytesLeft
  have within : (((body image size).drop p.readIndex).take 0x4000).length ≤
      (body image size).length - p.readIndex := by
    rw [List.length_take, List.length_drop]
    exact Nat.min_le_right _ _
  rw [page] at fewer
  obtain ⟨counted, inside, left⟩ := reading
  generalize ((body image size).drop p.readIndex).take 0x4000 = page at fewer within
  constructor
  · show p.totalBytesSent + page.length = p.readIndex + page.length
    omega
  · show p.readIndex + page.length ≤ (body image size).length
    omega
  · show (p.bytesLeft - page.length).toNat + (p.readIndex + page.length) = _
    omega

def pageCommand (p : Progress) (page : List UInt8) : Transfer :=
  .write (BootloaderCommand.memory ⟨p.audioTag, .ofNat page.length, 0x03, p.addr⟩)

def paged (p : Progress) (page : List UInt8) : Bool × List Transfer :=
  sendPage answers page 0 (p.sent ++ [pageCommand p page])

theorem uploadPages_page {image page : List UInt8} {size : UInt32} {p : Progress}
    (reading : Reading image size p) (more : (body image size).drop p.readIndex ≠ [])
    (next : ((body image size).drop p.readIndex).take 0x4000 = page) :
    uploadPages answers image size p =
      if accepts answers p.sent.length (pageCommand p page) then
        if (paged answers p page).1 then
          uploadPages answers image size (further p page ((paged answers p page).2 ++ [.reply]))
        else (false, { p with sent := (paged answers p page).2 })
      else (false, { p with sent := p.sent ++ [pageCommand p page] }) := by
  have length : readLength size p.totalBytesSent p.bytesLeft = page.length :=
    next ▸ page_length reading more
  have taken : (image.drop p.readIndex).take page.length = page := next ▸ page_read
  have positive : ¬ readLength size p.totalBytesSent p.bytesLeft ≤ 0 := by
    have some : 0 < ((body image size).drop p.readIndex).length := List.length_pos_of_ne_nil more
    rw [length, ← next, List.length_take]
    omega
  rw [uploadPages, dif_neg positive]
  simp only [length, Int.toNat_natCast, taken]
  rfl

theorem attempt_page (p : Progress) (page : List UInt8) (later : List Transfer) :
    attempt (accepts answers) p.sent (pageTransfers p.audioTag p.addr page ++ later) =
      if accepts answers p.sent.length (pageCommand p page) then
        if (paged answers p page).1 then
          attempt (accepts answers) ((paged answers p page).2 ++ [.reply]) later
        else (false, (paged answers p page).2)
      else (false, p.sent ++ [pageCommand p page]) := by
  have sent : attempt (accepts answers) (p.sent ++ [pageCommand p page])
      ((pieces 512 page).map .write) = paged answers p page :=
    (sendPage_pieces answers page 0 _).symm
  rw [pageTransfers, List.cons_append, attempt, List.append_assoc, attempt_append, ← pageCommand,
    sent]
  by_cases accepted : accepts answers p.sent.length (pageCommand p page) = true
  · rw [if_pos accepted, if_pos accepted]
    by_cases whole : (paged answers p page).1 = true
    · rw [if_pos whole, if_pos whole]
      rfl
    · rw [if_neg whole, if_neg whole]
      exact Prod.ext (Bool.eq_false_of_not_eq_true whole) rfl
  · rw [if_neg accepted, if_neg accepted]

theorem uploadPages_attempt {image rest : List UInt8} {size : UInt32} (p : Progress)
    (reading : Reading image size p) (stands : (body image size).drop p.readIndex = rest) :
    let made := attempt (accepts answers) p.sent
      (pagesTransfers p.audioTag p.addr (pieces 0x4000 rest))
    let reached := uploadPages answers image size p
    reached.1 = made.1 ∧ reached.2.sent = made.2 ∧ (reached.1 = true →
      reached.2.totalBytesSent = (body image size).length ∧
        reached.2.audioTag = p.audioTag + .ofNat (pieces 0x4000 rest).length) := by
  induction rest using pieces_induction 0x4000 (by decide) generalizing p with
  | empty =>
    have whole : (body image size).length ≤ p.readIndex := List.drop_eq_nil_iff.mp stands
    have counted : p.totalBytesSent = (body image size).length := by
      rw [reading.counted]
      exact Nat.le_antisymm reading.inside whole
    rw [uploadPages, dif_pos (nothing_read reading stands), pieces_nil (by decide)]
    exact ⟨rfl, rfl, fun _ => ⟨counted, (UInt32.add_zero _).symm⟩⟩
  | further rest filled ih =>
    have more : (body image size).drop p.readIndex ≠ [] := stands ▸ filled
    have next : ((body image size).drop p.readIndex).take 0x4000 = rest.take 0x4000 := by
      rw [stands]
    rw [uploadPages_page answers reading more next, pieces_cons (by decide) filled, pagesTransfers,
      attempt_page]
    by_cases accepted : accepts answers p.sent.length (pageCommand p (rest.take 0x4000)) = true
    · by_cases whole : (paged answers p (rest.take 0x4000)).1 = true
      · have left : (body image size).drop (p.readIndex + (rest.take 0x4000).length) =
            rest.drop 0x4000 := by
          rw [← List.drop_drop, stands, List.length_take, List.drop_eq_drop_iff]
          omega
        obtain ⟨same, sent, finished⟩ :=
          ih (further p (rest.take 0x4000) ((paged answers p (rest.take 0x4000)).2 ++ [.reply]))
            (next ▸ reading_further reading more _) left
        rw [if_pos accepted, if_pos whole, if_pos accepted, if_pos whole]
        refine ⟨same, sent, fun done => ?_⟩
        obtain ⟨counted, tagged⟩ := finished done
        rw [counted, tagged, List.length_cons, UInt32.ofNat_add, UInt32.add_comm (.ofNat _),
          ← UInt32.add_assoc]
        exact ⟨rfl, rfl⟩
      · rw [if_pos accepted, if_neg whole, if_pos accepted, if_neg whole]
        exact ⟨rfl, rfl, fun done => nomatch done⟩
    · rw [if_neg accepted, if_neg accepted]
      exact ⟨rfl, rfl, fun done => nomatch done⟩

theorem reading_first {image : List UInt8} {bytesLeft : Int}
    (all : bytesLeft.toNat = readable image) (size audioTag addr : UInt32) :
    Reading image size ⟨[], audioTag, addr, 0, bytesLeft, 0⟩ :=
  ⟨rfl, Nat.zero_le _, all⟩

theorem uploadImage_attempt (audioTag : UInt32) (image : List UInt8) (fwheader : FirmwareHeader) :
    let made := attempt (accepts answers) [] (script audioTag image fwheader)
    let uploaded := uploadImage answers audioTag image fwheader
    uploaded.sent = made.2 ∧ uploaded.result =
      if made.1 = true ∧ fwheader.size.toNat ≤ readable image then 0 else -1 := by
  intro made uploaded
  obtain ⟨bytesLeft, left, all⟩ : ∃ bytesLeft, asInt image.length = bytesLeft ∧
    bytesLeft.toNat = readable image := ⟨_, rfl, rfl⟩
  obtain ⟨same, sent, finished⟩ := uploadPages_attempt answers _
    (reading_first all fwheader.size audioTag fwheader.baseAddr) List.drop_zero
  simp only [uploaded, made, uploadImage, script, attempt_append, left, pages]
  dsimp only at same sent finished
  generalize attempt (accepts answers) []
    (pagesTransfers audioTag fwheader.baseAddr (pieces 0x4000 (body image fwheader.size))) =
      paged at same sent ⊢
  generalize uploadPages answers image fwheader.size
    ⟨[], audioTag, fwheader.baseAddr, 0, bytesLeft, 0⟩ = reached at same sent finished ⊢
  rw [← same, ← sent]
  cases done : reached.1 with
  | false => simp [← same, done, sent]
  | true =>
    obtain ⟨counted, tagged⟩ := finished done
    have size := fwheader.size.toNat_lt
    rw [body_length] at counted
    have short : UInt32.ofNat reached.2.totalBytesSent ≠ fwheader.size ↔
        ¬ fwheader.size.toNat ≤ readable image := by
      rw [Ne, ← UInt32.toNat_inj, UInt32.toNat_ofNat', counted]
      omega
    by_cases whole : fwheader.size.toNat ≤ readable image
    · have known : ¬ UInt32.ofNat reached.2.totalBytesSent ≠ fwheader.size :=
        mt short.mp (by simpa using whole)
      simp only [if_true, if_neg known, if_pos whole, launchTransfers, attempt, tagged]
      by_cases accepted : accepts answers reached.2.sent.length
          (.write (BootloaderCommand.memory
            ⟨audioTag + .ofNat (pieces 0x4000 (body image fwheader.size)).length, 0, 0x04,
              fwheader.entryAddr⟩)) = true
      · simp [accepted, whole]
      · simp [accepted]
    · simp [short, whole, attempt, sent]

end Sending

/-- The value returned is zero for a whole upload, but also for an image without
    a header while errno is zero. -/
theorem upload_exact (answers : Nat → Answer) (errno : Int) (audioTag : UInt32)
    (image : List UInt8) :
    let fwheader := firmwareHeader image
    let uploaded := uploadFirmwareFromMemory answers errno audioTag image
    let script := if image.length < 24 then [] else script audioTag image fwheader
    let failing := script.zipIdx.findIdx fun x => !accepts answers x.2 x.1
    uploaded.sent = script.take (failing + 1) ∧
      (uploaded.result = 0 → uploaded.sent = script) ∧
      (uploaded.result = 0 ↔ if image.length < 24 then errno = 0 else
        fwheader.size.toNat ≤ readable image ∧
          ∀ n item, script[n]? = some item → accepts answers n item = true) := by
  intro fwheader uploaded plan failing
  by_cases short : image.length < 24
  · have nothing : uploaded = ⟨-errno, [], audioTag⟩ := if_pos short
    simp [plan, failing, short, nothing]
  · have whole : plan = script audioTag image fwheader := if_neg short
    have image' : uploaded = uploadImage answers audioTag image fwheader := if_neg short
    obtain ⟨sent, result⟩ := uploadImage_attempt answers audioTag image fwheader
    simp only [failing]
    rw [if_neg short, whole, image', sent, result]
    have zero : (if (attempt (accepts answers) [] (script audioTag image fwheader)).1 = true ∧
        fwheader.size.toNat ≤ readable image then (0 : Int) else -1) = 0 ↔
        (attempt (accepts answers) [] (script audioTag image fwheader)).1 = true ∧
          fwheader.size.toNat ≤ readable image := by
      split <;> simp_all
    refine ⟨attempt_take (accepts answers) [] _, fun done => ?_, ?_⟩
    · exact attempt_done (accepts answers) (zero.mp done).1
    · rw [zero, attempt_iff, and_comm]
      simp only [List.length_nil, Nat.zero_add]

end SoqTracker.FirmwareUpload
