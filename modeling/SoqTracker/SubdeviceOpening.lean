import SoqTracker.FirmwareUpload

/- libfreenect's usb_libusb10.c: the subdevices of a Kinect are found on the bus,
   opened and claimed, and an audio device without firmware is sent its image and
   waited for. What libusb answers to a call is any function of the calls before it. -/
namespace SoqTracker.SubdeviceOpening
open FirmwareUpload

/- libusb. -/

abbrev Failure := {res : Int // res < 0}

structure Descriptor where
  idVendor : UInt16
  idProduct : UInt16
  bcdDevice : UInt16
  iSerialNumber : UInt8

/-- A device on the bus, with what libusb tells of it unopened. -/
structure Device where
  busNumber : UInt8
  parent : Option Nat
  descriptor : Except Failure Descriptor

/-- The calls made before the one that opened it, counted. -/
abbrev Handle := Nat

/-- A list of devices, known by the calls made before it was got. -/
structure DeviceList where
  place : Nat
  devices : List Device

inductive Call where
  | listed (failed : Bool)
  | unlisted (place : Option Nat)
  | opened (device : Device) (failed : Bool)
  | closed (h : Handle)
  | claimed (h : Handle) (failed : Bool)
  | released (h : Handle)
  | served (h : Handle)
  | serialRead (h : Handle) (serial : Except Failure (List UInt8))
  | uploaded (h : Handle) (sent : List Transfer)
  | slept

structure Libusb where
  getDeviceList : List Call → Option (List Device)
  openDevice : List Call → Device → Option Failure
  claimInterface : List Call → Handle → Option Failure
  kernelDriverActive : List Call → Handle → Int
  detachKernelDriver : List Call → Handle → Option Failure
  setInterfaceAltSetting : List Call → Handle → Option Failure
  getStringDescriptorAscii : List Call → Handle → UInt8 → Except Failure (List UInt8)
  numInterfaces : List Call → Handle → Int
  bulk : List Call → Nat → Answer
  firmwareFile : List Call → Option (List UInt8)
  errno : List Call → Int

/- libfreenect's records. -/

structure Subdevices where
  motor : Bool
  camera : Bool
  audio : Bool
deriving DecidableEq

structure Context where
  enabledSubdevices : Subdevices
  zeroPlaneRes : Nat
  fwNui : List UInt8
  fwK4w : List UInt8

inductive Kind where
  | camera
  | motor
  | audio
deriving DecidableEq

structure FreenectDevice where
  usbCam : Option Handle
  usbMotor : Option Handle
  usbAudio : Option Handle
  deviceDoesMotorControlWithAudio : Bool
  motorControlWithAudioEnabled : Bool
  audioTag : UInt32

def FreenectDevice.handle (dev : FreenectDevice) : Kind → Option Handle
  | .camera => dev.usbCam
  | .motor => dev.usbMotor
  | .audio => dev.usbAudio

def FreenectDevice.put (dev : FreenectDevice) (h : Option Handle) : Kind → FreenectDevice
  | .camera => { dev with usbCam := h }
  | .motor => { dev with usbMotor := h }
  | .audio => { dev with usbAudio := h }

def FreenectDevice.cleared (dev : FreenectDevice) : FreenectDevice := { dev with
  deviceDoesMotorControlWithAudio := false
  motorControlWithAudioEnabled := false
  usbCam := none
  usbMotor := none
  usbAudio := none }

/-- The calls made so far, newest first, and what the program keeps. -/
structure Session where
  calls : List Call
  ctx : Context
  dev : FreenectDevice

abbrev Usb := StateM Session

section Calls
variable (usb : Libusb)

def call (c : Call) : Usb Unit := modify fun s => { s with calls := c :: s.calls }

def getDeviceList : Usb (Option DeviceList) := do
  let s ← get
  match usb.getDeviceList s.calls with
  | none =>
    call (.listed true)
    return none
  | some devices =>
    call (.listed false)
    return some ⟨s.calls.length, devices⟩

def openDevice (device : Device) : Usb (Except Failure Handle) := do
  let s ← get
  match usb.openDevice s.calls device with
  | some failure =>
    call (.opened device true)
    return .error failure
  | none =>
    call (.opened device false)
    return .ok s.calls.length

def claimInterface (h : Handle) : Usb (Option Failure) := do
  let s ← get
  call (.claimed h (usb.claimInterface s.calls h).isSome)
  return usb.claimInterface s.calls h

/-- A call that neither opens nor closes, neither claims nor releases. -/
def serve {Value : Type} (h : Handle) (answer : List Call → Handle → Value) : Usb Value := do
  let s ← get
  call (.served h)
  return answer s.calls h

def readSerial (h : Handle) (index : UInt8) : Usb (Except Failure (List UInt8)) := do
  let s ← get
  call (.serialRead h (usb.getStringDescriptorAscii s.calls h index))
  return usb.getStringDescriptorAscii s.calls h index

end Calls

/- Devices. -/

def vidMicrosoft : UInt16 := 0x45e
def pidNuiAudio : UInt16 := 0x02ad
def pidNuiCamera : UInt16 := 0x02ae
def pidNuiMotor : UInt16 := 0x02b0
def pidK4wCamera : UInt16 := 0x02bf
def pidK4wAudio : UInt16 := 0x02be
def pidK4wAudioAlt1 : UInt16 := 0x02c3
def pidK4wAudioAlt2 : UInt16 := 0x02bb

def fnusbIsCamera (desc : Descriptor) : Bool :=
  desc.idVendor = vidMicrosoft ∧ (desc.idProduct = pidNuiCamera ∨ desc.idProduct = pidK4wCamera)

def fnusbIsMotor (desc : Descriptor) : Bool :=
  desc.idVendor = vidMicrosoft ∧ desc.idProduct = pidNuiMotor

def fnusbIsAudio (desc : Descriptor) : Bool :=
  desc.idVendor = vidMicrosoft ∧ (desc.idProduct = pidNuiAudio ∨ desc.idProduct = pidK4wAudio ∨
    desc.idProduct = pidK4wAudioAlt1 ∨ desc.idProduct = pidK4wAudioAlt2)

structure Siblings where
  total : Nat
  sameBus : Nat
  single : Option Device
  singleOnBus : Option Device

def siblingLoop (camera : Device) (predicate : Descriptor → Bool) :
    List Device → Siblings → Option Device
  | [], found => found.singleOnBus.or found.single
  | current :: later, found =>
      match current.descriptor with
      | .error _ => siblingLoop camera predicate later found
      | .ok desc =>
          if ¬ predicate desc then siblingLoop camera predicate later found
          else
            let met := { found with
              total := found.total + 1
              single := if found.total + 1 = 1 then some current else none }
            if camera.busNumber ≠ current.busNumber then siblingLoop camera predicate later met
            else
              let met := { met with
                sameBus := met.sameBus + 1
                singleOnBus := if met.sameBus + 1 = 1 then some current else none }
              if camera.parent = none ∨ camera.parent ≠ current.parent then
                siblingLoop camera predicate later met
              else some current

def fnusbFindSiblingDevice (camera : Device) (devices : List Device)
    (predicate : Descriptor → Bool) : Option Device :=
  siblingLoop camera predicate devices ⟨0, 0, none, none⟩

def findCamera (index : Int) : List Device → Int → Option (Device × Descriptor)
  | [], _ => none
  | device :: later, nrCam =>
      match device.descriptor with
      | .error _ => findCamera index later nrCam
      | .ok desc =>
          if ¬ fnusbIsCamera desc then findCamera index later nrCam
          else if nrCam ≠ index then findCamera index later (nrCam + 1)
          else some (device, desc)

/- Opening. A failure that goes to the end of the function is an exception. -/

section Opening
variable (usb : Libusb)

def keep (kind : Kind) (h : Option Handle) : Usb Unit :=
  modify fun s => { s with dev := s.dev.put h kind }

def abandon (kind : Kind) (h : Handle) : Usb Unit := do
  call (.closed h)
  keep kind none

def detachKernelDriver (h : Handle) : Usb (Option Failure) := do
  let active ← serve h usb.kernelDriverActive
  if active = 1 then serve h usb.detachKernelDriver else return none

def chooseAltSetting (h : Handle) (pid : UInt16) : Usb (Option Failure) :=
  if pid = pidK4wCamera then serve h usb.setInterfaceAltSetting else return none

def fnusbClaimCamera (h : Handle) (pid : UInt16) : Usb (Option Failure) := do
  match ← detachKernelDriver usb h with
  | some failure =>
    abandon .camera h
    return some failure
  | none =>
    match ← claimInterface usb h with
    | some failure =>
      abandon .camera h
      return some failure
    | none =>
      match ← chooseAltSetting usb h pid with
      | some failure =>
        abandon .camera h
        return some failure
      | none => return none

def resetAudio (audio : Device) : Usb Bool := do
  match ← openDevice usb audio with
  | .error _ => return false
  | .ok h =>
    (serve h fun _ _ => ())
    call (.closed h)
    return true

def setLed (audio : Device) : Usb Unit := do
  match ← openDevice usb audio with
  | .error _ => return
  | .ok h =>
    match ← claimInterface usb h with
    | some _ => call (.closed h)
    | none =>
      (serve h fun _ _ => ())
      call (.released h)
      call (.closed h)

def fnusbKeepAliveLed (audio : Option Device) : Usb Unit := do
  match audio with
  | none => return
  | some audio => if ← resetAudio usb audio then setLed usb audio

def adaptTo (devices : List Device) (camera : Device) (desc : Descriptor) : Usb Unit := do
  if desc.idProduct = pidK4wCamera ∨ desc.bcdDevice ≠ 267 then
    let requested := (← get).ctx.enabledSubdevices
    modify fun s => { s with
      ctx := { s.ctx with
        enabledSubdevices := { requested with motor := false }
        zeroPlaneRes := 334 }
      dev := { s.dev with deviceDoesMotorControlWithAudio := true } }
    fnusbKeepAliveLed usb (fnusbFindSiblingDevice camera devices fnusbIsAudio)
    if requested.motor ∧ ¬ requested.audio then
      modify fun s => { s with
        ctx := { s.ctx with
          enabledSubdevices := { s.ctx.enabledSubdevices with audio := true } } }
  else
    modify fun s => { s with ctx := { s.ctx with zeroPlaneRes := 322 } }

def openCamera (devices : List Device) (camera : Device) (desc : Descriptor) :
    ExceptT Int Usb Unit := do
  if (← get).ctx.enabledSubdevices.camera then
    match ← openDevice usb camera with
    | .error failure => throw failure.val
    | .ok h =>
      keep .camera (some h)
      adaptTo usb devices camera desc
      match ← fnusbClaimCamera usb h desc.idProduct with
      | some failure => throw failure.val
      | none => return

def openSibling (kind : Kind) (predicate : Descriptor → Bool) (devices : List Device)
    (camera : Device) : ExceptT Int Usb (Handle × Descriptor) := do
  match fnusbFindSiblingDevice camera devices predicate with
  | none => throw (-1)
  | some sibling =>
    match sibling.descriptor with
    | .error failure => throw failure.val
    | .ok desc =>
      match ← openDevice usb sibling with
      | .error failure => throw failure.val
      | .ok h =>
        keep kind (some h)
        match ← claimInterface usb h with
        | some failure =>
          abandon kind h
          throw failure.val
        | none => return (h, desc)

def openMotor (devices : List Device) (camera : Device) : ExceptT Int Usb Unit := do
  if (← get).ctx.enabledSubdevices.motor then
    let _ ← openSibling usb .motor fnusbIsMotor devices camera

def cString (bytes : List UInt8) : List UInt8 := bytes.takeWhile (· ≠ 0)

def SameSerial (audioSerial bytes : List UInt8) : Prop :=
  bytes.length = audioSerial.length ∧ cString bytes = audioSerial

instance (audioSerial bytes : List UInt8) : Decidable (SameSerial audioSerial bytes) := by
  unfold SameSerial; infer_instance

/-- The image that is sent is one from memory or, without it, the file's. -/
def upload (calls : List Call) (ctx : Context) (audioTag : UInt32) (pid : UInt16) : Uploaded :=
  let send := uploadFirmwareFromMemory (usb.bulk calls) (usb.errno calls) audioTag
  if pid = pidNuiAudio ∧ ctx.fwNui ≠ [] then send ctx.fwNui
  else if pid = pidK4wAudio ∧ ctx.fwK4w ≠ [] then send ctx.fwK4w
  else
    match usb.firmwareFile calls with
    | none => ⟨-usb.errno calls, [], audioTag⟩
    | some [] => ⟨-usb.errno calls, [], audioTag⟩
    | some bytes => send bytes

def uploadTo (h : Handle) (pid : UInt16) : Usb Int := do
  let s ← get
  let uploaded := upload usb s.calls s.ctx s.dev.audioTag pid
  call (.uploaded h uploaded.sent)
  modify fun s => { s with dev := { s.dev with audioTag := uploaded.audioTag } }
  return uploaded.result

def enableMotorControl : Usb Unit :=
  modify fun s => { s with
    dev := { s.dev with
      motorControlWithAudioEnabled :=
        s.dev.motorControlWithAudioEnabled || s.dev.deviceDoesMotorControlWithAudio } }

def acceptDevice (h : Handle) : Usb Bool := do
  match ← claimInterface usb h with
  | some _ =>
    call (.closed h)
    return false
  | none =>
    keep .audio (some h)
    let interfaces ← serve h usb.numInterfaces
    if 2 ≤ interfaces then
      enableMotorControl
      return true
    else
      abandon .audio h
      return false

/-- A device that may be the one which was sent its firmware. One with another serial
    stays open. -/
def tryDevice (audioSerial : List UInt8) (device : Device) (desc : Descriptor) : Usb Bool := do
  match ← openDevice usb device with
  | .error _ => return false
  | .ok h =>
    match ← readSerial usb h desc.iSerialNumber with
    | .error _ =>
      call (.closed h)
      return false
    | .ok bytes =>
      if SameSerial audioSerial bytes then acceptDevice usb h else return false

def findReappeared (audioSerial : List UInt8) : List Device → Usb Unit
  | [] => return
  | device :: later => do
      match device.descriptor with
      | .error _ => findReappeared audioSerial later
      | .ok desc =>
          if ¬ fnusbIsAudio desc then findReappeared audioSerial later
          else
            let found ← tryDevice usb audioSerial device desc
            if found then return else findReappeared audioSerial later

/-- A list that could not be got is freed all the same. -/
def lookForDevice (audioSerial : List UInt8) : Usb Unit := do
  match ← getDeviceList usb with
  | none => call (.unlisted none)
  | some list =>
    findReappeared usb audioSerial list.devices
    call (.unlisted (some list.place))

def waitForDevice (audioSerial : List UInt8) : Nat → Usb Unit
  | 0 => return
  | tries + 1 => do
      lookForDevice usb audioSerial
      if (← get).dev.usbAudio.isSome then return
      else
        call .slept
        waitForDevice audioSerial tries

/-- A device in its bootloader gets its firmware and comes back as another one. -/
def bootAudio (h : Handle) (desc : Descriptor) : ExceptT Int Usb Int := do
  match ← readSerial usb h desc.iSerialNumber with
  | .error failure => throw failure.val
  | .ok bytes =>
    let res ← (uploadTo usb h desc.idProduct : Usb Int)
    if res < 0 then throw res
    else
      abandon .audio h
      waitForDevice usb (cString bytes) 10
      return res

def openAudio (devices : List Device) (camera : Device) : ExceptT Int Usb Int := do
  if (← get).ctx.enabledSubdevices.audio then
    let (h, desc) ← openSibling usb .audio fnusbIsAudio devices camera
    let interfaces ← (serve h usb.numInterfaces : Usb Int)
    if 2 ≤ interfaces then
      enableMotorControl
      return 0
    else bootAudio usb h desc
  else return 0

def closeSubdevice (kind : Kind) : Usb Unit := do
  match (← get).dev.handle kind with
  | none => return
  | some h =>
    call (.released h)
    if kind = .camera then (serve h fun _ _ => ())
    abandon kind h

def fnusbCloseSubdevices : Usb Unit := do
  closeSubdevice .camera
  closeSubdevice .motor
  closeSubdevice .audio

def Complete (s : Session) : Prop :=
  (s.dev.usbCam.isSome ∨ ¬ s.ctx.enabledSubdevices.camera) ∧
    (s.dev.usbMotor.isSome ∨ ¬ s.ctx.enabledSubdevices.motor) ∧
      (s.dev.usbAudio.isSome ∨ ¬ s.ctx.enabledSubdevices.audio)

instance (s : Session) : Decidable (Complete s) := by
  unfold Complete; infer_instance

def openAll (devices : List Device) (index : Int) : ExceptT Int Usb Int := do
  match findCamera index devices 0 with
  | none => throw (-1)
  | some (camera, desc) =>
    openCamera usb devices camera desc
    openMotor usb devices camera
    openAudio usb devices camera

def clear : Usb Unit :=
  modify fun s => { s with dev := s.dev.cleared }

def fnusbOpenSubdevices (index : Int) : Usb Int := do
  clear
  match ← getDeviceList usb with
  | none => return -1
  | some list =>
    match ← (openAll usb list.devices index).run with
    | .error res =>
      fnusbCloseSubdevices
      call (.unlisted (some list.place))
      return res
    | .ok res =>
      if ¬ Complete (← get) then fnusbCloseSubdevices
      call (.unlisted (some list.place))
      return res

end Opening

end SoqTracker.SubdeviceOpening
