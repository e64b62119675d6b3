import Mathlib.Algebra.Group.Int.Defs
import Mathlib.Tactic.Common

/-! The kernel paths that build an IRP, send it to a driver and look at the result. What is kept of a run is the
memory of the IRP and a count of each allocation and release of the IRP, its system buffer and its MDL. -/

namespace XenOS.Io

def irpSuccess : ℤ := 0
def irpPending : ℤ := 0x103
def irpInvalidParameter : ℤ := 0xC000000D - 2 ^ 32
def irpInvalidDeviceRequest : ℤ := 0xC0000010 - 2 ^ 32
def irpInsufficientResources : ℤ := 0xC000009A - 2 ^ 32
def irpNotSupported : ℤ := 0xC00000BB - 2 ^ 32

/-- The fields of an IRP that its completion reads, and what a run has done to it: the calls of the
pool, the accesses after a release (`usesAfterFree`), the status it ended with (`final`) or will end
with (`pended`), an event set before the status block was written (`signalledFirst`), and the bytes
copied to the user's buffer. -/
structure IrpLife where
  live : Bool
  userIosb : Bool
  userEvent : Bool
  systemBuffer : Bool
  mdl : Bool
  inputOperation : Bool
  status : ℤ
  information : ℕ
  pended : Option (ℤ × ℕ)
  irpAllocs : ℕ
  irpFrees : ℕ
  bufferAllocs : ℕ
  bufferFrees : ℕ
  mdlAllocs : ℕ
  mdlFrees : ℕ
  usesAfterFree : ℕ
  iosb : Option ℤ
  final : Option ℤ
  signalledFirst : Bool
  copied : ℕ

structure Returned where
  life : IrpLife
  status : Option ℤ

/-- What the pool, the memory manager and the driver answer. The driver completes the IRP before it
returns, or returns `STATUS_PENDING` and completes it before the builder goes on (`early`) or later.
`rejected` reaches no dispatch routine. -/
inductive Lower
  | rejected
  | completed (status : ℤ) (information : ℕ)
  | pended (early : Bool) (status : ℤ) (information : ℕ)

/-- Whether there is memory for an MDL, the status of `mm_probe_and_lock_pages`, and whether the
pages could be mapped. -/
structure MdlAnswer where
  allocated : Bool
  lockStatus : ℤ
  mapped : Bool

structure IrpEnv where
  irpAllocated : Bool
  bufferAllocated : Bool
  mdl : MdlAnswer
  lower : Lower

namespace IrpLife

def start : IrpLife where
  live := false
  userIosb := false
  userEvent := false
  systemBuffer := false
  mdl := false
  inputOperation := false
  status := 0
  information := 0
  pended := none
  irpAllocs := 0
  irpFrees := 0
  bufferAllocs := 0
  bufferFrees := 0
  mdlAllocs := 0
  mdlFrees := 0
  usesAfterFree := 0
  iosb := none
  final := none
  signalledFirst := false
  copied := 0

/-- The state after `io_allocate_irp` succeeded. -/
def allocated : IrpLife := { start with live := true, irpAllocs := 1 }

def useIrp (s : IrpLife) : IrpLife := if s.live then s else { s with usesAfterFree := s.usesAfterFree + 1 }

def ioFreeIrp (s : IrpLife) : IrpLife := { s with live := false, irpFrees := s.irpFrees + 1 }

/-- `iop_allocate_system_buffer` where the pool has the memory. -/
def allocateSystemBuffer (s : IrpLife) : IrpLife := { s with systemBuffer := true, bufferAllocs := s.bufferAllocs + 1 }

def iopFreeSystemBuffer (s : IrpLife) : IrpLife :=
  if s.systemBuffer then { s with systemBuffer := false, bufferFrees := s.bufferFrees + 1 } else s

def iopCleanupMdl (s : IrpLife) : IrpLife :=
  if s.mdl then { s with mdl := false, mdlFrees := s.mdlFrees + 1 } else s

/-- `iop_build_mdl_for_buffer`, with the status it returns. -/
def iopBuildMdlForBuffer (s : IrpLife) (bufferPresent : Bool) (answer : MdlAnswer) : IrpLife × ℤ :=
  if ¬ bufferPresent then (s, irpInvalidParameter)
  else
    if ¬ answer.allocated then (s, irpInsufficientResources)
    else
      let freed := { s with mdlAllocs := s.mdlAllocs + 1, mdlFrees := s.mdlFrees + 1 }
      if answer.lockStatus ≠ irpSuccess then (freed, answer.lockStatus)
      else if ¬ answer.mapped then (freed, irpInsufficientResources)
      else ({ s with mdl := true, mdlAllocs := s.mdlAllocs + 1 }, irpSuccess)

/-- The end of `iof_complete_request`, past the top of the stack: the event is signalled before the status block is
written. -/
def finish (s : IrpLife) : IrpLife :=
  let s := { s with signalledFirst := s.userEvent && s.userIosb }
  let s := if s.userIosb then { s with iosb := some s.status } else s
  (s.iopCleanupMdl.iopFreeSystemBuffer).ioFreeIrp

def complete (s : IrpLife) (status : ℤ) (information : ℕ) : IrpLife :=
  { s.useIrp with status, information, final := some status }.finish

/-- `io_call_driver`, or the call of the dispatch routine itself, which `notCalled` answers for a driver without it. -/
def callDriver (s : IrpLife) (lower : Lower) (notCalled : ℤ) : IrpLife × ℤ :=
  match lower with
  | .rejected => ({ s with final := some notCalled }, notCalled)
  | .completed status information => (s.complete status information, status)
  | .pended early status information =>
    (if early then s.complete status information else { s with pended := some (status, information) }, irpPending)

def completeLate (s : IrpLife) : IrpLife :=
  match s.pended with
  | some (status, information) => { s with pended := none }.complete status information
  | none => s

def ioCallDriver (s : IrpLife) (lower : Lower) : IrpLife × ℤ := s.callDriver lower irpInvalidDeviceRequest

end IrpLife

/-- `DO_BUFFERED_IO`, `DO_DIRECT_IO` or neither; for a control request the method of its code. -/
inductive Buffering
  | buffered
  | direct
  | neither
  deriving DecidableEq

/-- The buffers of `iop_read_write_file`: the IRP is prepared, or a status says why it is not. -/
def prepareReadWrite (s : IrpLife) (isWrite : Bool) (buffering : Buffering) (length : ℕ) (bufferPresent : Bool)
    (env : IrpEnv) : IrpLife × ℤ :=
  match buffering with
  | .buffered =>
    if 0 < length ∧ ¬ env.bufferAllocated then (s, irpInsufficientResources)
    else
      let s := if 0 < length then s.allocateSystemBuffer else s
      ({ s with inputOperation := !isWrite }, irpSuccess)
  | .direct => if 0 < length then s.iopBuildMdlForBuffer bufferPresent env.mdl else (s, irpSuccess)
  | .neither => (s, irpSuccess)

/-- `iop_read_write_file` from the allocation of the IRP on. Nobody signals the event that a
synchronous call waits on. -/
def iopReadWriteFile (isWrite synchronous : Bool) (buffering : Buffering) (length : ℕ) (bufferPresent : Bool)
    (env : IrpEnv) : Returned :=
  if ¬ env.irpAllocated then
    { life := { IrpLife.start with iosb := some irpInsufficientResources }, status := some irpInsufficientResources }
  else
    let (s, status) := prepareReadWrite { IrpLife.allocated with userIosb := true } isWrite buffering length bufferPresent env
    if status ≠ irpSuccess then { life := { s.ioFreeIrp with iosb := some status }, status := some status }
    else
      let (s, status) := s.ioCallDriver env.lower
      { life := s, status := if synchronous ∧ status = irpPending then none else some status }

/-- The buffers of `io_build_device_io_control_request`. -/
def prepareControl (s : IrpLife) (method : Buffering) (inputLength outputLength : ℕ) (inputPresent outputPresent : Bool)
    (env : IrpEnv) : IrpLife × ℤ :=
  match method with
  | .buffered =>
    if 0 < max inputLength outputLength then
      if env.bufferAllocated then (s.allocateSystemBuffer, irpSuccess) else (s, irpInsufficientResources)
    else (s, irpSuccess)
  | .direct =>
    let input := decide (0 < inputLength) && inputPresent
    if input ∧ ¬ env.bufferAllocated then (s, irpInsufficientResources)
    else
      let s := if input then s.allocateSystemBuffer else s
      if 0 < outputLength ∧ outputPresent then
        let (s, status) := s.iopBuildMdlForBuffer outputPresent env.mdl
        if status ≠ irpSuccess then (s.iopFreeSystemBuffer, status) else (s, status)
      else (s, irpSuccess)
  | .neither => (s, irpSuccess)

/-- `iop_device_io_control` from the building of the IRP on. -/
def iopDeviceIoControl (method : Buffering) (inputLength outputLength : ℕ) (inputPresent outputPresent : Bool)
    (env : IrpEnv) : Returned :=
  let failed (s : IrpLife) : Returned :=
    { life := { s with iosb := some irpInsufficientResources }, status := some irpInsufficientResources }
  if ¬ env.irpAllocated then failed IrpLife.start
  else
    let (s, status) :=
      prepareControl { IrpLife.allocated with userIosb := true } method inputLength outputLength inputPresent outputPresent env
    if status ≠ irpSuccess then failed s.ioFreeIrp
    else
      let (s, status) := s.ioCallDriver env.lower
      { life := s, status := some status }

/-- `iop_send_create_irp`, `iop_send_cleanup_irp` and `iop_send_close_irp` send an IRP and return what the driver returns. -/
def sendIrp (env : IrpEnv) : Returned :=
  if ¬ env.irpAllocated then { life := IrpLife.start, status := some irpInsufficientResources }
  else
    let (s, status) := IrpLife.allocated.ioCallDriver env.lower
    { life := s, status := some status }

def iopSendCreateIrp (env : IrpEnv) : Returned := sendIrp env
def iopSendCleanupIrp (env : IrpEnv) : Returned := sendIrp env
def iopSendCloseIrp (env : IrpEnv) : Returned := sendIrp env

/-- `iop_create_file` from the IRP on. The status block is the caller's, but the IRP does not have it;
an error of the driver leaves it unwritten. `handleStatus` is what `ob_open_object_by_pointer` returns:
a handle that cannot be made is how a call ends whose IRP has succeeded. -/
def iopCreateFile (handleStatus : ℤ) (env : IrpEnv) : Returned :=
  let sent := iopSendCreateIrp env
  if sent.status ≠ some irpSuccess ∧ sent.status ≠ some irpPending then sent
  else if handleStatus ≠ irpSuccess then
    let s := if sent.status = some irpPending then sent.life else { sent.life with final := some handleStatus }
    { life := { s with iosb := some handleStatus }, status := some handleStatus }
  else { life := { sent.life with iosb := sent.status }, status := sent.status }

/-- `iop_send_mount_volume_irp` and `iop_send_verify_volume_irp` wait for a pended IRP, read its status and free it. -/
def sendVolumeIrp (env : IrpEnv) : Returned :=
  if ¬ env.irpAllocated then { life := IrpLife.start, status := some irpInsufficientResources }
  else
    let (s, status) := { IrpLife.allocated with userEvent := true }.ioCallDriver env.lower
    let s := if status = irpPending then s.completeLate else s
    let s := s.useIrp
    { life := s.ioFreeIrp, status := some s.status }

def iopSendMountVolumeIrp (env : IrpEnv) : Returned := sendVolumeIrp env
def iopSendVerifyVolumeIrp (env : IrpEnv) : Returned := sendVolumeIrp env

/-- `pnp_query_bus_relations`: the IRP is read if the dispatch routine succeeded, and freed. -/
def pnpQueryBusRelations (env : IrpEnv) : Returned :=
  if ¬ env.irpAllocated then { life := IrpLife.start, status := some irpInsufficientResources }
  else
    let (s, status) := { IrpLife.allocated with status := irpNotSupported }.callDriver env.lower irpNotSupported
    let s := if 0 ≤ status then s.useIrp else s
    { life := s.ioFreeIrp, status := some irpSuccess }

/-- `scsi_read_write_internal` from the allocation of its IRP on. -/
def scsiReadWriteIrp (env : IrpEnv) : Returned :=
  if ¬ env.irpAllocated then { life := IrpLife.start, status := some irpInsufficientResources }
  else
    let (s, status) := { IrpLife.allocated with status := irpNotSupported }.ioCallDriver env.lower
    let s := if 0 ≤ status then s.useIrp else s
    let result := if 0 ≤ status then s.status else status
    let s := if 0 ≤ result then s.useIrp else s
    { life := s.ioFreeIrp, status := some result }

inductive IrpPath
  | readWrite (isWrite synchronous : Bool) (buffering : Buffering) (length : ℕ) (bufferPresent : Bool)
  | deviceIoControl (method : Buffering) (inputLength outputLength : ℕ) (inputPresent outputPresent : Bool)
  | create (handleStatus : ℤ)
  | cleanup
  | close
  | mountVolume
  | verifyVolume
  | busRelations
  | scsi

def IrpPath.call : IrpPath → IrpEnv → Returned
  | .readWrite isWrite synchronous buffering length bufferPresent =>
    iopReadWriteFile isWrite synchronous buffering length bufferPresent
  | .deviceIoControl method inputLength outputLength inputPresent outputPresent =>
    iopDeviceIoControl method inputLength outputLength inputPresent outputPresent
  | .create handleStatus => iopCreateFile handleStatus
  | .cleanup => iopSendCleanupIrp
  | .close => iopSendCloseIrp
  | .mountVolume => iopSendMountVolumeIrp
  | .verifyVolume => iopSendVerifyVolumeIrp
  | .busRelations => pnpQueryBusRelations
  | .scsi => scsiReadWriteIrp

def IrpPath.run (path : IrpPath) (env : IrpEnv) : Returned :=
  { path.call env with life := (path.call env).life.completeLate }

end XenOS.Io
