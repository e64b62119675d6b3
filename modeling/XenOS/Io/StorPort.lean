import Mathlib.Tactic.Common

/-! The storage port driver and the AHCI miniport under it. A SCSI request is an IRP with its SRB;
the port hands one at a time to `HwStartIo`, and every report through `StorPortNotification` is
about the current request. A request may be completed by `handle_srb`, a notification, the
completion DPC or the timeout DPC; accesses after that are noted in `touched`. The steps of several
processors come in any order. -/

namespace XenOS.Storport

open Function (update)

def statusSuccess : ℕ := 0
def statusPending : ℕ := 0x103
def statusDeviceBusy : ℕ := 0x80000011
def statusUnsuccessful : ℕ := 0xC0000001
def statusNotImplemented : ℕ := 0xC0000002
def statusInvalidParameter : ℕ := 0xC000000D
def statusNoSuchDevice : ℕ := 0xC000000E
def statusInvalidDeviceRequest : ℕ := 0xC0000010
def statusDataOverrun : ℕ := 0xC000003C
def statusDeviceNotConnected : ℕ := 0xC000009D
def statusIoTimeout : ℕ := 0xC00000B5
def statusNotSupported : ℕ := 0xC00000BB
def statusAdapterHardwareError : ℕ := 0xC00000C5
def statusIoDeviceError : ℕ := 0xC0000185
def statusRequestAborted : ℕ := 0xC0000240
def statusDevicePoweredOff : ℕ := 0xC00002D4

def srbStatusPending : ℕ := 0x00
def srbStatusSuccess : ℕ := 0x01
def srbStatusAborted : ℕ := 0x02
def srbStatusError : ℕ := 0x04
def srbStatusBusy : ℕ := 0x05
def srbStatusInvalidRequest : ℕ := 0x06
def srbStatusTimeout : ℕ := 0x09
def srbStatusBusReset : ℕ := 0x0E
def srbStatusParityError : ℕ := 0x0F
def srbStatusInternalError : ℕ := 0x30

namespace Miniport

/-- The table of `miniport.rs`. -/
def srbStatusToNtstatus (srbStatus : ℕ) : ℕ :=
  match srbStatus % 64 with
  | 0x01 => statusSuccess
  | 0x00 => statusPending
  | 0x02 => statusRequestAborted
  | 0x03 => statusUnsuccessful
  | 0x04 => statusIoDeviceError
  | 0x05 => statusDeviceBusy
  | 0x06 => statusInvalidDeviceRequest
  | 0x07 => statusInvalidParameter
  | 0x08 => statusNoSuchDevice
  | 0x09 => statusIoTimeout
  | 0x0A => statusIoTimeout
  | 0x0B => statusIoTimeout
  | 0x12 => statusDataOverrun
  | 0x0E => statusIoDeviceError
  | 0x0F => statusIoDeviceError
  | 0x11 => statusAdapterHardwareError
  | 0x20 => statusInvalidParameter
  | 0x21 => statusInvalidParameter
  | _ => statusUnsuccessful

end Miniport

namespace Scsi

/-- The table of `scsi.rs`. -/
def srbStatusToNtstatus : ℕ → ℕ
  | 0x01 => statusSuccess
  | 0x00 => statusPending
  | 0x02 => statusRequestAborted
  | 0x04 => statusIoDeviceError
  | 0x05 => statusDeviceBusy
  | 0x06 => statusInvalidDeviceRequest
  | 0x07 => statusInvalidParameter
  | 0x08 => statusNoSuchDevice
  | 0x09 => statusIoTimeout
  | 0x0B => statusIoTimeout
  | 0x0A => statusDeviceNotConnected
  | 0x11 => statusAdapterHardwareError
  | 0x12 => statusDataOverrun
  | 0x20 => statusInvalidParameter
  | 0x21 => statusInvalidParameter
  | 0x24 => statusDevicePoweredOff
  | _ => statusIoDeviceError

end Scsi

structure ScsiRequest where
  srbStatus : ℕ
  dataTransferLength : ℕ
  ioStatus : ℕ
  information : ℕ
  /-- How often it was completed, and whether it was used after that. -/
  completions : ℕ
  touched : Bool

/-- A port of the AHCI controller: the commands in execution, and those whose end the driver has not
seen. -/
structure AhciPort where
  slotBitmap : ℕ → Bool
  outstandingSrbs : ℕ → Option ℕ
  ci : ℕ → Bool
  mayExecute : ℕ → Bool

structure StorPort where
  requests : ℕ → Option ScsiRequest
  currentSrb : Option ℕ
  currentIrp : Option ℕ
  readyForNext : Bool
  inFlightCount : ℕ
  completionDpcInitialized : Bool
  /-- The arguments of the completion DPC while it is queued. -/
  completionDpc : Option (Option ℕ × Option ℕ)
  /-- The requests whose `handle_srb` waits for `HwStartIo`. -/
  starting : List ℕ
  ports : ℕ → AhciPort

inductive SrbFunction where
  | executeScsi | resetBus | other
  deriving DecidableEq

inductive StorPortNotification where
  | requestComplete | nextRequest | nextLuRequest | resetDetected | initDpc | issueDpc
  deriving DecidableEq

namespace StorPort

def init : StorPort where
  requests _ := none
  currentSrb := none
  currentIrp := none
  readyForNext := true
  inFlightCount := 0
  completionDpcInitialized := true
  completionDpc := none
  starting := []
  ports _ := ⟨fun _ => false, fun _ => none, fun _ => false, fun _ => false⟩

def access (s : StorPort) (r : ℕ) (f : ScsiRequest → ScsiRequest) : StorPort :=
  match s.requests r with
  | none => s
  | some q =>
    { s with requests := update s.requests r (some { f q with touched := q.touched || decide (0 < q.completions) }) }

def setSrbStatus (s : StorPort) (r srbStatus : ℕ) : StorPort := s.access r fun q => { q with srbStatus := srbStatus }

def setIoStatus (s : StorPort) (r status information : ℕ) : StorPort :=
  s.access r fun q => { q with ioStatus := status, information := information }

def ioCompleteRequest (s : StorPort) (r : ℕ) : StorPort := s.access r fun q => { q with completions := q.completions + 1 }

def srbStatus (s : StorPort) (r : ℕ) : ℕ := (s.requests r).elim 0 ScsiRequest.srbStatus

def dataTransferLength (s : StorPort) (r : ℕ) : ℕ := (s.requests r).elim 0 ScsiRequest.dataTransferLength

def setCurrentRequest (s : StorPort) (srb irp : ℕ) : StorPort :=
  { s with currentSrb := some srb, currentIrp := some irp, readyForNext := false, inFlightCount := s.inFlightCount + 1 }

def clearCurrentRequest (s : StorPort) : StorPort :=
  { s with currentSrb := none, currentIrp := none, inFlightCount := s.inFlightCount - 1 }

/-- `max_in_flight` is 1. -/
def canAcceptRequest (s : StorPort) : Bool := s.readyForNext && decide (s.inFlightCount < 1)

/-- `handle_srb` up to the call of `HwStartIo`, or to its end. -/
def handleSrb (s : StorPort) (r : ℕ) (hasHwStartIo : Bool) : SrbFunction → StorPort
  | .executeScsi =>
    if ¬ s.canAcceptRequest then
      ((s.setSrbStatus r srbStatusBusy).setIoStatus r statusDeviceBusy 0).ioCompleteRequest r
    else if hasHwStartIo then
      let s := s.setCurrentRequest r r
      { s with starting := r :: s.starting }
    else ((s.setSrbStatus r srbStatusError).setIoStatus r statusNotImplemented 0).ioCompleteRequest r
  | .resetBus => ((s.setSrbStatus r srbStatusSuccess).setIoStatus r statusSuccess 0).ioCompleteRequest r
  | .other => ((s.setSrbStatus r srbStatusInvalidRequest).setIoStatus r statusNotSupported 0).ioCompleteRequest r

def arrive (s : StorPort) (r dataTransferLength : ℕ) (hasHwStartIo : Bool) (function : SrbFunction) : StorPort :=
  if (s.requests r).isSome then s
  else
    let s := { s with requests := update s.requests r (some ⟨srbStatusPending, dataTransferLength, 0, 0, 0, false⟩) }
    s.handleSrb r hasHwStartIo function

/-- `handle_srb` from the return of `HwStartIo` on. It reads the SRB, and after a completion
with an error the IRP. -/
def startIoReturned (s : StorPort) (r : ℕ) (accepted : Bool) : StorPort :=
  let s := { s with starting := s.starting.erase r }.access r id
  if accepted then
    let status := s.srbStatus r % 64
    if status = srbStatusPending then s
    else if status = srbStatusSuccess then
      (s.clearCurrentRequest.setIoStatus r statusSuccess (s.dataTransferLength r)).ioCompleteRequest r
    else
      ((s.clearCurrentRequest.setIoStatus r (Scsi.srbStatusToNtstatus status) 0).ioCompleteRequest r).access r id
  else ((s.clearCurrentRequest.setSrbStatus r srbStatusBusy).setIoStatus r statusDeviceBusy 0).ioCompleteRequest r

/-- What the notification and the completion DPC do with a request: its status, the current
request, the completion. -/
def completeFromSrb (s : StorPort) (srb irp : ℕ) : StorPort :=
  let status := Miniport.srbStatusToNtstatus (s.srbStatus srb)
  let information := if status < 0x80000000 then s.dataTransferLength srb else 0
  (((s.access srb id).setIoStatus irp status information).clearCurrentRequest).ioCompleteRequest irp

def cancelAllPending (s : StorPort) : StorPort :=
  let s := match s.currentSrb, s.currentIrp with
    | some srb, some irp =>
      (((s.setSrbStatus srb srbStatusBusReset).setIoStatus irp statusIoDeviceError 0).ioCompleteRequest irp).clearCurrentRequest
    | _, _ => s
  { s with readyForNext := false }

def notify (s : StorPort) : StorPortNotification → StorPort
  | .requestComplete =>
    match s.currentSrb, s.currentIrp with
    | some srb, some irp => s.completeFromSrb srb irp
    | _, _ => s
  | .nextRequest => { s with readyForNext := true }
  | .nextLuRequest =>
    let s := match s.currentSrb with
      | some srb => s.access srb id
      | none => s
    { s with readyForNext := true }
  | .resetDetected => s.cancelAllPending
  | .initDpc => { s with completionDpcInitialized := true }
  | .issueDpc =>
    if s.completionDpcInitialized then
      match s.completionDpc with
      | none => { s with completionDpc := some (s.currentSrb, s.currentIrp) }
      | some _ => s
    else s

def completionDpcRoutine (s : StorPort) : StorPort :=
  match s.completionDpc with
  | none => s
  | some args =>
    let s := { s with completionDpc := none }
    match args with
    | (some srb, some irp) => { s.completeFromSrb srb irp with readyForNext := true }
    | _ => s

def timeoutDpcRoutine (s : StorPort) : StorPort :=
  match s.currentSrb, s.currentIrp with
  | some srb, some irp =>
    let s := ((s.setSrbStatus srb srbStatusTimeout).setIoStatus irp statusIoTimeout 0).clearCurrentRequest.ioCompleteRequest irp
    { s with readyForNext := true }
  | _, _ => s

def setPort (s : StorPort) (p : ℕ) (port : AhciPort) : StorPort := { s with ports := update s.ports p port }

end StorPort

namespace AhciPort

def allocateSlot (port : AhciPort) : Option ℕ := (List.range 32).find? fun slot => !port.slotBitmap slot

def freeSlot (port : AhciPort) (slot : ℕ) : AhciPort :=
  { port with slotBitmap := update port.slotBitmap slot false,
              outstandingSrbs := update port.outstandingSrbs slot none }

def endSlot (port : AhciPort) (slot : ℕ) : AhciPort :=
  { port.freeSlot slot with mayExecute := update port.mayExecute slot false }

/-- The error register is in bits 8 to 15 of `tfd`. -/
def mapAhciErrorToSrbStatus (portIs tfd serr : ℕ) : ℕ :=
  if portIs.testBit 27 then srbStatusInternalError
  else if portIs.testBit 29 || portIs.testBit 28 then srbStatusParityError
  else if portIs.testBit 30 || tfd.testBit 0 then
    if tfd.testBit 10 then srbStatusAborted
    else if tfd.testBit 12 then srbStatusError
    else if tfd.testBit 14 then srbStatusParityError
    else if tfd.testBit 15 then srbStatusParityError
    else srbStatusError
  else if serr ≠ 0 then srbStatusParityError
  else srbStatusError

def interruptSrbStatus (portIs tfd serr : ℕ) : ℕ :=
  if tfd.testBit 0 || [30, 29, 28, 27, 26, 24, 23].any portIs.testBit then mapAhciErrorToSrbStatus portIs tfd serr
  else srbStatusSuccess

end AhciPort

namespace StorPort

def issueCommand (s : StorPort) (p r : ℕ) : StorPort :=
  match (s.ports p).allocateSlot, s.requests r with
  | some slot, some _ =>
    let port := s.ports p
    s.setPort p
      { slotBitmap := update port.slotBitmap slot true
        outstandingSrbs := update port.outstandingSrbs slot (some r)
        ci := update port.ci slot true
        mayExecute := update port.mayExecute slot true }
  | _, _ => s

def commandEnds (s : StorPort) (p slot : ℕ) : StorPort :=
  s.setPort p { s.ports p with ci := update (s.ports p).ci slot false }

/-- The polling of the command register ends: with no command in execution on the port, or
after 100 ms. Either way the slot is freed. -/
def pollEnds (s : StorPort) (p slot : ℕ) : StorPort :=
  let port := s.ports p
  if (List.range 32).all fun i => !port.ci i then s.setPort p (port.endSlot slot)
  else s.setPort p (port.freeSlot slot)

/-- `ahci_flush_cache` runs on the first slot and leaves the bitmap alone. -/
def flushCache (s : StorPort) (p : ℕ) : StorPort :=
  let port := s.ports p
  s.setPort p { port with ci := update port.ci 0 true, mayExecute := update port.mayExecute 0 true }

/-- Its polling ends. A command of the slot's owner counts until the owner has seen its end. -/
def flushEnds (s : StorPort) (p : ℕ) : StorPort :=
  let port := s.ports p
  if (List.range 32).all fun i => !port.ci i then
    s.setPort p { port with mayExecute := update port.mayExecute 0 (port.slotBitmap 0 && port.mayExecute 0) }
  else s

/-- The slot's part of `MsAhciInterrupt`, with the error registers of the port. -/
def interruptSlot (s : StorPort) (p slot portIs tfd serr : ℕ) : StorPort :=
  let port := s.ports p
  if port.slotBitmap slot ∧ ¬ port.ci slot then
    match port.outstandingSrbs slot with
    | none => s.setPort p (port.endSlot slot)
    | some srb =>
      ((s.setSrbStatus srb (AhciPort.interruptSrbStatus portIs tfd serr)).setPort p (port.endSlot slot)).notify .requestComplete
  else s

def resetSlot (s : StorPort) (p slot : ℕ) : StorPort :=
  match (s.ports p).outstandingSrbs slot with
  | none => s
  | some srb => ((s.setSrbStatus srb srbStatusBusReset).setPort p ((s.ports p).endSlot slot)).notify .requestComplete

def resetPort (s : StorPort) (p : ℕ) (linkUp : Bool) : StorPort :=
  let port := { s.ports p with ci := fun _ => false, mayExecute := fun _ => false }
  s.setPort p (if linkUp then { port with slotBitmap := fun _ => false } else port)

end StorPort

inductive StorPortOp where
  | arrive (r dataTransferLength : ℕ) (hasHwStartIo : Bool) (function : SrbFunction)
  | startIoReturned (r : ℕ) (accepted : Bool)
  /-- The miniport sets the status of an SRB. -/
  | setSrbStatus (r srbStatus : ℕ)
  | notify (notification : StorPortNotification)
  | completionDpc
  | timeoutDpc
  | issueCommand (p r : ℕ)
  | commandEnds (p slot : ℕ)
  | pollEnds (p slot : ℕ)
  | flushCache (p : ℕ)
  | flushEnds (p : ℕ)
  | interruptSlot (p slot portIs tfd serr : ℕ)
  | resetSlot (p slot : ℕ)
  | resetPort (p : ℕ) (linkUp : Bool)

def StorPort.step (s : StorPort) : StorPortOp → StorPort
  | .arrive r dataTransferLength hasHwStartIo function => s.arrive r dataTransferLength hasHwStartIo function
  | .startIoReturned r accepted => if r ∈ s.starting then s.startIoReturned r accepted else s
  | .setSrbStatus r srbStatus => s.setSrbStatus r srbStatus
  | .notify notification => s.notify notification
  | .completionDpc => s.completionDpcRoutine
  | .timeoutDpc => s.timeoutDpcRoutine
  | .issueCommand p r => s.issueCommand p r
  | .commandEnds p slot => s.commandEnds p slot
  | .pollEnds p slot => s.pollEnds p slot
  | .flushCache p => s.flushCache p
  | .flushEnds p => s.flushEnds p
  | .interruptSlot p slot portIs tfd serr => s.interruptSlot p slot portIs tfd serr
  | .resetSlot p slot => s.resetSlot p slot
  | .resetPort p linkUp => s.resetPort p linkUp

end XenOS.Storport
