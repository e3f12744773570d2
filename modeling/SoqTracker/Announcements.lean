import Mathlib.Data.List.Nodup
import SoqTracker.FirmwareUpload

/- What the transfers of an upload announce. A command names the length of what is
   sent after it and the address of its first byte, or the entry of what was sent. -/
namespace SoqTracker.Announcements
open KinectAudio Deliveries FirmwareUpload

def located : UInt32 → List UInt8 → List (UInt32 × UInt8)
  | _, [] => []
  | addr, x :: data => (addr, x) :: located (addr + 1) data

structure Announced where
  bytes : Nat
  addr : UInt32
  placed : List (UInt32 × UInt8)
  launches : List UInt32

def silent : Announced := ⟨0, 0, [], []⟩

def BootloaderCommand.ofMemory (memory : List UInt8) : BootloaderCommand :=
  ⟨uint32At memory 4, uint32At memory 8, uint32At memory 12, uint32At memory 16⟩

def Announced.command (a : Announced) (bootcmd : BootloaderCommand) : Announced :=
  if bootcmd.cmd = 0x03 then { a with bytes := bootcmd.bytes.toNat, addr := bootcmd.addr }
  else if bootcmd.cmd = 0x04 then { a with launches := a.launches ++ [bootcmd.addr] }
  else a

def Announced.data (a : Announced) (data : List UInt8) : Announced :=
  { a with
    bytes := a.bytes - data.length
    addr := a.addr + .ofNat data.length
    placed := a.placed ++ located a.addr data }

/-- While bytes are announced that were not sent, a transfer carries some of them. -/
def announce (a : Announced) : Transfer → Announced
  | .write data => if a.bytes = 0 then a.command (BootloaderCommand.ofMemory data) else a.data data
  | .reply => a

def announced (transfers : List Transfer) : Announced := transfers.foldl announce silent

/- Addresses. -/

theorem located_append (addr : UInt32) (xs ys : List UInt8) :
    located addr (xs ++ ys) = located addr xs ++ located (addr + .ofNat xs.length) ys := by
  induction xs generalizing addr with
  | nil => simp [located]
  | cons x xs ih =>
    have further : addr + 1 + .ofNat xs.length = addr + .ofNat (x :: xs).length := by
      rw [List.length_cons, UInt32.ofNat_add, UInt32.add_assoc, UInt32.add_comm (.ofNat xs.length)]
      rfl
    rw [List.cons_append, located, ih, further, located, List.cons_append]

theorem located_prefix (addr : UInt32) {xs ys : List UInt8} (begins : xs <+: ys) :
    located addr xs <+: located addr ys := by
  obtain ⟨more, rfl⟩ := begins
  rw [located_append]
  exact List.prefix_append _ _

theorem located_offset {addr : UInt32} {data : List UInt8} {x : UInt32 × UInt8}
    (mem : x ∈ located addr data) : (x.1 - addr).toNat < data.length := by
  induction data generalizing addr with
  | nil => cases mem
  | cons y data ih =>
    rcases List.mem_cons.mp mem with rfl | later
    · rw [UInt32.sub_self]
      exact Nat.succ_pos _
    · have offset := ih later
      have place := UInt32.toNat_sub x.1 addr
      have place' := UInt32.toNat_sub x.1 (addr + 1)
      rw [UInt32.toNat_add, UInt32.toNat_one] at place'
      have start := addr.toNat_lt
      have stands := x.1.toNat_lt
      rw [List.length_cons]
      omega

/-- Addresses wrap, but no image is long enough to come to one of them again. -/
theorem located_nodup (addr : UInt32) {data : List UInt8} (fits : data.length ≤ 4294967296) :
    ((located addr data).map Prod.fst).Nodup := by
  induction data generalizing addr with
  | nil => exact List.nodup_nil
  | cons x data ih =>
    rw [List.length_cons] at fits
    rw [located, List.map_cons, List.nodup_cons]
    refine ⟨?_, ih (addr + 1) (by omega)⟩
    intro again
    obtain ⟨y, mem, same⟩ := List.mem_map.mp again
    have offset := located_offset mem
    have place := UInt32.toNat_sub y.1 (addr + 1)
    have start := addr.toNat_lt
    rw [UInt32.toNat_add, UInt32.toNat_one] at place
    have back : y.1.toNat = addr.toNat := congrArg UInt32.toNat same
    omega

/- The commands. -/

theorem uint32_bytes (x : UInt32) :
    UInt32.ofNat (x.toNat.toUInt8.toNat + 256 * (x.toNat / 256).toUInt8.toNat +
      65536 * (x.toNat / 65536).toUInt8.toNat +
        16777216 * (x.toNat / 16777216).toUInt8.toNat) = x := by
  have small := x.toNat_lt
  have digits : x.toNat % 256 + 256 * (x.toNat / 256 % 256) + 65536 * (x.toNat / 65536 % 256) +
      16777216 * (x.toNat / 16777216 % 256) = x.toNat := by
    omega
  simp only [Nat.toUInt8_eq, UInt8.toNat_ofNat', digits, UInt32.ofNat_toNat]

theorem ofMemory_memory (bootcmd : BootloaderCommand) :
    BootloaderCommand.ofMemory bootcmd.memory = bootcmd := by
  obtain ⟨tag, bytes, cmd, addr⟩ := bootcmd
  have tag' : uint32At (BootloaderCommand.memory ⟨tag, bytes, cmd, addr⟩) 4 = tag :=
    uint32_bytes tag
  have bytes' : uint32At (BootloaderCommand.memory ⟨tag, bytes, cmd, addr⟩) 8 = bytes :=
    uint32_bytes bytes
  have cmd' : uint32At (BootloaderCommand.memory ⟨tag, bytes, cmd, addr⟩) 12 = cmd :=
    uint32_bytes cmd
  have addr' : uint32At (BootloaderCommand.memory ⟨tag, bytes, cmd, addr⟩) 16 = addr :=
    uint32_bytes addr
  rw [BootloaderCommand.ofMemory, tag', bytes', cmd', addr']

section Pages
variable (addr : UInt32) (placed : List (UInt32 × UInt8)) (launches : List UInt32)

theorem announce_page (audioTag target : UInt32) {page : List UInt8}
    (fits : page.length ≤ 0x4000) :
    announce ⟨0, addr, placed, launches⟩
        (.write (BootloaderCommand.memory ⟨audioTag, .ofNat page.length, 0x03, target⟩)) =
      ⟨page.length, target, placed, launches⟩ := by
  have length : (UInt32.ofNat page.length).toNat = page.length := by
    rw [UInt32.toNat_ofNat']
    omega
  rw [announce, if_pos rfl, ofMemory_memory, Announced.command, if_pos rfl, length]

theorem announce_launch (audioTag entry : UInt32) :
    announce ⟨0, addr, placed, launches⟩
        (.write (BootloaderCommand.memory ⟨audioTag, 0, 0x04, entry⟩)) =
      ⟨0, addr, placed, launches ++ [entry]⟩ := by
  have other : ¬ (0x04 : UInt32) = 0x03 := by decide
  rw [announce, if_pos rfl, ofMemory_memory, Announced.command, if_neg other, if_pos rfl]

theorem announce_piece {page : List UInt8} (filled : page ≠ []) :
    announce ⟨page.length, addr, placed, launches⟩ (.write (page.take 512)) =
      ⟨(page.drop 512).length, addr + .ofNat (page.take 512).length,
        placed ++ located addr (page.take 512), launches⟩ := by
  have some : page.length ≠ 0 := fun none => filled (List.length_eq_zero_iff.mp none)
  have rest : page.length - (page.take 512).length = (page.drop 512).length := by
    rw [List.length_take, List.length_drop]
    omega
  rw [announce, if_neg some, Announced.data, rest]

theorem announced_data (page : List UInt8) :
    ((pieces 512 page).map Transfer.write).foldl announce ⟨page.length, addr, placed, launches⟩ =
      ⟨0, addr + .ofNat page.length, placed ++ located addr page, launches⟩ := by
  induction page using pieces_induction 512 (by decide) generalizing addr placed with
  | empty =>
    rw [pieces_nil (by decide), located, List.append_nil]
    exact congrArg (fun a => Announced.mk 0 a placed launches) (UInt32.add_zero addr).symm
  | further page filled ih =>
    have whole : page.length = (page.take 512).length + (page.drop 512).length := by
      rw [← List.length_append, List.take_append_drop]
    rw [pieces_cons (by decide) filled, List.map_cons, List.foldl_cons,
      announce_piece addr placed launches filled, ih, List.append_assoc, ← located_append,
      List.take_append_drop, UInt32.add_assoc, ← UInt32.ofNat_add, ← whole]

theorem announced_page (audioTag target : UInt32) {page : List UInt8}
    (fits : page.length ≤ 0x4000) :
    (pageTransfers audioTag target page).foldl announce ⟨0, addr, placed, launches⟩ =
      ⟨0, target + .ofNat page.length, placed ++ located target page, launches⟩ := by
  rw [pageTransfers, List.foldl_cons, announce_page addr placed launches audioTag target fits,
    List.foldl_append, announced_data]
  rfl

theorem announced_pages (audioTag target : UInt32) {pages : List (List UInt8)}
    (fit : ∀ page ∈ pages, page.length ≤ 0x4000) :
    ∃ addr', (pagesTransfers audioTag target pages).foldl announce ⟨0, addr, placed, launches⟩ =
      ⟨0, addr', placed ++ located target pages.flatten, launches⟩ := by
  induction pages generalizing addr placed audioTag target with
  | nil =>
    refine ⟨addr, ?_⟩
    rw [pagesTransfers, List.foldl_nil, List.flatten_nil, located, List.append_nil]
  | cons page later ih =>
    have first := announced_page addr placed launches audioTag target
      (fit page List.mem_cons_self)
    obtain ⟨addr', rest⟩ := ih (target + .ofNat page.length) (placed ++ located target page)
      (audioTag + 1) (target + .ofNat page.length)
      (fun other mem => fit other (List.mem_cons_of_mem page mem))
    refine ⟨addr', ?_⟩
    rw [pagesTransfers, List.foldl_append, first, rest, List.flatten_cons, located_append,
      List.append_assoc]

end Pages

/- Uploads that break off. -/

section Body
variable (base : UInt32) (body : List UInt8)

def Partly (a : Announced) : Prop :=
  a.launches = [] ∧ ∃ done, done <+: body ∧ a.placed = located base done

variable {base body}

theorem throughout_data {done page : List UInt8} (part : done ++ page <+: body) :
    Throughout announce (Partly base body)
      ⟨page.length, base + .ofNat done.length, located base done, []⟩
      ((pieces 512 page).map .write) := by
  induction page using pieces_induction 512 (by decide) generalizing done with
  | empty =>
    rw [pieces_nil (by decide)]
    exact throughout_nil ⟨rfl, done, List.append_nil done ▸ part, rfl⟩
  | further page filled ih =>
    have begun : done <+: body := (List.prefix_append done page).trans part
    have rest : (done ++ page.take 512) ++ page.drop 512 <+: body := by
      rw [List.append_assoc, List.take_append_drop]
      exact part
    have later := ih rest
    rw [located_append, List.length_append, UInt32.ofNat_add, ← UInt32.add_assoc] at later
    rw [pieces_cons (by decide) filled, List.map_cons]
    refine throughout_cons ⟨rfl, done, begun, rfl⟩ ?_
    rw [announce_piece _ _ _ filled]
    exact later

theorem throughout_page {done page : List UInt8} (part : done ++ page <+: body)
    (fits : page.length ≤ 0x4000) (addr audioTag : UInt32) :
    Throughout announce (Partly base body) ⟨0, addr, located base done, []⟩
      (pageTransfers audioTag (base + .ofNat done.length) page) := by
  have begun : done <+: body := (List.prefix_append done page).trans part
  have data := announced_data (base + .ofNat done.length) (located base done) [] page
  have whole : Partly base body (((pieces 512 page).map Transfer.write).foldl announce
      ⟨page.length, base + .ofNat done.length, located base done, []⟩) := by
    rw [data]
    exact ⟨rfl, done ++ page, part, (located_append base done page).symm⟩
  rw [pageTransfers]
  refine throughout_cons ⟨rfl, done, begun, rfl⟩ ?_
  rw [announce_page _ _ _ _ _ fits]
  exact throughout_append (throughout_data part) (throughout_cons whole (throughout_nil whole))

theorem throughout_pages (done : List UInt8) {pages : List (List UInt8)} {target : UInt32}
    (part : done ++ pages.flatten <+: body) (fit : ∀ page ∈ pages, page.length ≤ 0x4000)
    (place : target = base + .ofNat done.length) (addr audioTag : UInt32) :
    Throughout announce (Partly base body) ⟨0, addr, located base done, []⟩
      (pagesTransfers audioTag target pages) := by
  induction pages generalizing done target addr audioTag with
  | nil => exact throughout_nil ⟨rfl, done, List.append_nil done ▸ part, rfl⟩
  | cons page later ih =>
    rw [List.flatten_cons, ← List.append_assoc] at part
    have within : done ++ page <+: body := (List.prefix_append _ later.flatten).trans part
    have short := fit page List.mem_cons_self
    have first := announced_page addr (located base done) [] audioTag target short
    have further : target + .ofNat page.length = base + .ofNat (done ++ page).length := by
      rw [place, List.length_append, UInt32.ofNat_add, UInt32.add_assoc]
    have rest := ih (done ++ page) part (fun other mem => fit other (List.mem_cons_of_mem page mem))
      further (target + .ofNat page.length) (audioTag + 1)
    rw [located_append, ← place] at rest
    subst place
    refine throughout_append (throughout_page within short addr audioTag) ?_
    rw [first]
    exact rest

end Body

section Upload
variable (answers : Nat → Answer)

theorem upload_cases {audioTag : UInt32} {image : List UInt8} {fwheader : FirmwareHeader}
    {uploaded : Uploaded} (happened : uploadImage answers audioTag image fwheader = uploaded) :
    let paged := pagesTransfers audioTag fwheader.baseAddr (pages image fwheader.size)
    uploaded.sent <+: paged ∧ uploaded.result = -1 ∨
      fwheader.size.toNat ≤ readable image ∧ ∃ launchTag later, later <+: [.reply] ∧
        uploaded.sent = paged ++
          .write (BootloaderCommand.memory ⟨launchTag, 0, 0x04, fwheader.entryAddr⟩) :: later := by
  intro paged
  have begun : (attempt (accepts answers) [] paged).2 <+: paged := attempt_front _ [] paged
  obtain ⟨made, result⟩ := uploadImage_attempt answers audioTag image fwheader
  rw [happened] at made result
  by_cases whole : fwheader.size.toNat ≤ readable image
  · have plan : script audioTag image fwheader =
        paged ++ launchTransfers (audioTag + .ofNat (pages image fwheader.size).length)
          fwheader.entryAddr := by
      rw [script, if_pos whole]
    rw [plan, attempt_append] at made result
    by_cases done : (attempt (accepts answers) [] paged).1 = true
    · have all : (attempt (accepts answers) [] paged).2 = paged := attempt_done _ done
      right
      rw [if_pos done, all, launchTransfers, attempt] at made
      refine ⟨whole, audioTag + .ofNat (pages image fwheader.size).length, ?_⟩
      by_cases launched : accepts answers paged.length
          (.write (BootloaderCommand.memory ⟨audioTag + .ofNat (pages image fwheader.size).length,
            0, 0x04, fwheader.entryAddr⟩)) = true
      · rw [if_pos launched, attempt, accepts_reply, if_pos rfl, attempt] at made
        refine ⟨[.reply], List.prefix_rfl, ?_⟩
        rw [made, List.append_assoc]
        rfl
      · rw [if_neg launched] at made
        exact ⟨[], List.nil_prefix, made⟩
    · left
      rw [if_neg done] at made result
      rw [if_neg (fun success => done success.1)] at result
      rw [made]
      exact ⟨begun, result⟩
  · have plan : script audioTag image fwheader = paged := by
      rw [script, if_neg whole, List.append_nil]
    left
    rw [if_neg (fun success => whole success.2)] at result
    rw [made, plan]
    exact ⟨begun, result⟩

theorem body_firmware (image : List UInt8) (size : UInt32) :
    body image size <+: image.take size.toNat := by
  rw [body, List.take_take]
  exact List.take_prefix_take_left (Nat.min_le_left _ _)

def Honest (entryAddr : UInt32) (firmware : List (UInt32 × UInt8)) (a : Announced) : Prop :=
  a.placed <+: firmware ∧ (a.launches ≠ [] → a.launches = [entryAddr] ∧ a.placed = firmware)

theorem image_announced {audioTag : UInt32} {image : List UInt8} {fwheader : FirmwareHeader}
    {uploaded : Uploaded} (happened : uploadImage answers audioTag image fwheader = uploaded) :
    let firmware := image.take fwheader.size.toNat
    let located := located fwheader.baseAddr firmware
    Throughout announce (Honest fwheader.entryAddr located) silent uploaded.sent ∧
      ((announced uploaded.sent).launches ≠ [] → fwheader.size.toNat ≤ image.length) ∧
      (uploaded.result = 0 → (announced uploaded.sent).launches = [fwheader.entryAddr]) := by
  intro firmware place
  have flat : (pages image fwheader.size).flatten = body image fwheader.size :=
    pieces_flatten (by decide) _
  have fit : ∀ page ∈ pages image fwheader.size, page.length ≤ 0x4000 := fun _ => pieces_short
  have partly : Throughout announce (Partly fwheader.baseAddr (body image fwheader.size)) silent
      (pagesTransfers audioTag fwheader.baseAddr (pages image fwheader.size)) :=
    throughout_pages [] (by rw [List.nil_append, flat]) fit (UInt32.add_zero _).symm 0 audioTag
  have honest : ∀ a, Partly fwheader.baseAddr (body image fwheader.size) a →
      Honest fwheader.entryAddr place a := by
    rintro a ⟨none, done, begins, placed⟩
    refine ⟨?_, fun launched => absurd none launched⟩
    rw [placed]
    exact located_prefix _ (begins.trans (body_firmware image fwheader.size))
  rcases upload_cases answers happened with ⟨begins, failed⟩ |
    ⟨whole, launchTag, later, rest, made⟩
  · have silence := (partly uploaded.sent begins).1
    refine ⟨fun front part => honest _ (partly front (part.trans begins)), ?_, ?_⟩
    · exact fun launched => absurd silence launched
    · intro success
      rw [failed] at success
      cases success
  · obtain ⟨addr, ends⟩ := announced_pages 0 [] [] audioTag fwheader.baseAddr fit
    have all : body image fwheader.size = firmware := by
      rw [body, List.take_take, Nat.min_eq_left whole]
    rw [flat, all, List.nil_append] at ends
    have launch := announce_launch addr place [] launchTag fwheader.entryAddr
    have last : Honest fwheader.entryAddr place ⟨0, addr, place, [fwheader.entryAddr]⟩ :=
      ⟨List.prefix_rfl, fun _ => ⟨rfl, rfl⟩⟩
    have before : Honest fwheader.entryAddr place ⟨0, addr, place, []⟩ :=
      ⟨List.prefix_rfl, fun launched => absurd rfl launched⟩
    have after : Throughout announce (Honest fwheader.entryAddr place)
          ⟨0, addr, place, [fwheader.entryAddr]⟩ later ∧
        later.foldl announce ⟨0, addr, place, [fwheader.entryAddr]⟩ =
          ⟨0, addr, place, [fwheader.entryAddr]⟩ := by
      cases later with
      | nil => exact ⟨throughout_nil last, rfl⟩
      | cons t later =>
        obtain ⟨rfl, none⟩ := List.cons_prefix_cons.mp rest
        rw [List.prefix_nil.mp none]
        exact ⟨throughout_cons last (throughout_nil last), rfl⟩
    have launched : (announced uploaded.sent).launches = [fwheader.entryAddr] := by
      rw [announced, made, List.foldl_append, silent, ends, List.foldl_cons, launch]
      exact congrArg Announced.launches after.2
    refine ⟨?_, fun _ => Nat.le_trans whole (readable_le image), fun _ => launched⟩
    rw [made]
    refine throughout_append (fun front part => honest _ (partly front part)) ?_
    rw [silent, ends]
    refine throughout_cons before ?_
    rw [launch]
    exact after.1

end Upload

/-- However an upload goes, it announces nothing but bytes of the image where they
    belong, each at most once, and it launches nothing but the whole image. -/
theorem upload_announces (answers : Nat → Answer) (errno : Int) (audioTag : UInt32)
    (image : List UInt8) :
    let fwheader := firmwareHeader image
    let firmware := located fwheader.baseAddr (image.take fwheader.size.toNat)
    let uploaded := uploadFirmwareFromMemory answers errno audioTag image
    (firmware.map Prod.fst).Nodup ∧
      (∀ front, front <+: uploaded.sent →
        (announced front).placed <+: firmware ∧
          ((announced front).launches ≠ [] →
            (announced front).launches = [fwheader.entryAddr] ∧
              (announced front).placed = firmware)) ∧
      ((announced uploaded.sent).launches ≠ [] → fwheader.size.toNat ≤ image.length) ∧
      (uploaded.result = 0 → 24 ≤ image.length →
        (announced uploaded.sent).launches = [fwheader.entryAddr]) := by
  obtain ⟨uploaded, happened⟩ :
    ∃ uploaded, uploadFirmwareFromMemory answers errno audioTag image = uploaded := ⟨_, rfl⟩
  rw [happened]
  rw [uploadFirmwareFromMemory] at happened
  generalize firmwareHeader image = fwheader at happened ⊢
  have small := fwheader.size.toNat_lt
  have once : ((located fwheader.baseAddr (image.take fwheader.size.toNat)).map
      Prod.fst).Nodup := by
    refine located_nodup _ ?_
    rw [List.length_take]
    omega
  refine ⟨once, ?_⟩
  by_cases short : image.length < 24
  · rw [if_pos short] at happened
    subst happened
    refine ⟨fun front begins => ?_, fun launched => absurd rfl launched, fun _ headed => ?_⟩
    · rw [List.prefix_nil.mp begins]
      exact ⟨List.nil_prefix, fun launched => absurd rfl launched⟩
    · exact absurd short (Nat.not_lt.mpr headed)
  · rw [if_neg short] at happened
    obtain ⟨honest, whole, done⟩ := image_announced answers happened
    exact ⟨honest, whole, fun success _ => done success⟩

end SoqTracker.Announcements
