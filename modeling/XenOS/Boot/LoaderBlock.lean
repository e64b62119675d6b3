import Mathlib.Data.List.Sort
import XenOS.Boot.PageTables
import XenOS.General.Ring
import XenOS.General.Run

/-! The loader block, what it lists for the kernel, and the firmware that gives the loader its
memory. -/

namespace XenOS.Boot

open XenOS.General

inductive UefiType
  | reserved
  | loaderCode
  | loaderData
  | bootServicesCode
  | bootServicesData
  | runtimeServicesCode
  | runtimeServicesData
  | conventional
  | unusable
  | acpiReclaim
  | acpiNonVolatile
  | mmio
  | mmioPortSpace
  | palCode
  | persistentMemory
  | other (code : ℕ)
  deriving DecidableEq

/-- The values of `MEMORY_TYPE` that the conversion gives. -/
inductive MemoryType
  | loaderFree
  | loaderBad
  | loaderFirmwareTemporary
  | loaderFirmwarePermanent
  | loaderOsloaderHeap
  | loaderSpecialMemory
  deriving DecidableEq

def uefiTypeToNt : UefiType → MemoryType
  | .reserved => .loaderFirmwarePermanent
  | .loaderCode => .loaderOsloaderHeap
  | .loaderData => .loaderOsloaderHeap
  | .bootServicesCode => .loaderFirmwareTemporary
  | .bootServicesData => .loaderFirmwareTemporary
  | .runtimeServicesCode => .loaderFirmwarePermanent
  | .runtimeServicesData => .loaderFirmwarePermanent
  | .conventional => .loaderFree
  | .unusable => .loaderBad
  | .acpiReclaim => .loaderFirmwareTemporary
  | .acpiNonVolatile => .loaderFirmwarePermanent
  | .mmio => .loaderFirmwarePermanent
  | .mmioPortSpace => .loaderFirmwarePermanent
  | .palCode => .loaderFirmwarePermanent
  | .persistentMemory => .loaderFree
  | .other _ => .loaderSpecialMemory

structure UefiEntry where
  ty : UefiType
  physStart : ℕ
  pageCount : ℕ

structure MemoryDescriptor where
  memoryType : MemoryType
  basePage : ℕ
  pageCount : ℕ

def UefiEntry.descriptor (entry : UefiEntry) : MemoryDescriptor where
  memoryType := uefiTypeToNt entry.ty
  basePage := entry.physStart / pageSize
  pageCount := entry.pageCount

def convertUefiMemoryMap (map : List UefiEntry) : List MemoryDescriptor := map.map UefiEntry.descriptor

/-- What `load_pe_image` returns of an image. -/
structure LoadedModule where
  fullPath : String
  vaBase : ℕ
  entryRva : ℕ
  sizeOfImage : ℕ

/-- `LOADER_MODULE_ENTRY`. -/
structure ModuleEntry where
  dllBase : ℕ
  entryPoint : ℕ
  sizeOfImage : ℕ
  fullDllName : List UInt8
  deriving DecidableEq

def createModuleEntry (module : LoadedModule) : ModuleEntry where
  dllBase := module.vaBase
  entryPoint := wrap64 (module.vaBase + module.entryRva)
  sizeOfImage := module.sizeOfImage
  fullDllName := module.fullPath.toUTF8.toList.take 259

structure BootDriverEntry where
  name : String
  imagePath : Option String
  errorControl : ℕ
  group : Option String
  tag : ℕ

/-- What becomes of a driver that has a path: the file is missing, `load_pe_image` fails, or it returns a module. -/
inductive Load
  | fileNotFound
  | failed
  | loaded (module : LoadedModule)

def eqIgnoreAsciiCase (s t : String) : Bool := s.toList.map Char.toLower == t.toList.map Char.toLower

/-- The place of a driver's group, `usize::MAX` for a driver that is in no group of the order. -/
def groupIndex (groupOrder : List String) (driver : BootDriverEntry) : ℕ :=
  (driver.group.bind fun g => groupOrder.findIdx? (eqIgnoreAsciiCase · g)).getD (2 ^ 64 - 1)

/-- The comparison of `sort_boot_drivers`: the group, and within a group the tag. -/
def notAfter (groupOrder : List String) (a b : BootDriverEntry) : Bool :=
  if groupIndex groupOrder a = groupIndex groupOrder b then decide (a.tag ≤ b.tag)
  else decide (groupIndex groupOrder a < groupIndex groupOrder b)

def sortBootDrivers (groupOrder : List String) (drivers : List (BootDriverEntry × Load)) :
    List (BootDriverEntry × Load) :=
  drivers.mergeSort fun a b => notAfter groupOrder a.1 b.1

/-- Load the boot drivers after the modules that are loaded, `none` if the machine is stopped for a critical one. -/
def loadBootDrivers : List (BootDriverEntry × Load) → List LoadedModule → Option (List LoadedModule)
  | [], modules => some modules
  | (driver, load) :: rest, modules =>
    match driver.imagePath with
    | none => loadBootDrivers rest modules
    | some _ =>
      match load with
      | .loaded module => loadBootDrivers rest (modules ++ [module])
      | .failed | .fileNotFound => if 2 ≤ driver.errorControl then none else loadBootDrivers rest modules

/-- The objects that hold a `LIST_ENTRY`: the heads in the loader block and the boxes of the lists' entries. -/
inductive Cell
  | null
  | memoryHead
  | loadOrderHead
  | bootDriverHead
  | descriptor (i : ℕ)
  | moduleEntry (i : ℕ)
  | bootDriver (i : ℕ)
  deriving DecidableEq

/-- `BOOT_DRIVER_LIST_ENTRY`, with the driver its registry path and its file path are made from. -/
structure BootDriverListEntry where
  driver : BootDriverEntry
  ldrEntry : Cell

structure LoaderBlock where
  descriptors : List MemoryDescriptor
  poolBase : ℕ
  poolSize : ℕ
  modules : List ModuleEntry
  bootDrivers : List BootDriverListEntry
  links : Links Cell

def choosePool (pool : ℕ × ℕ) (desc : MemoryDescriptor) : ℕ × ℕ :=
  if desc.memoryType = .loaderFree then
    let size := wrap64 (desc.pageCount * 4096)
    if 16 * 1024 * 1024 ≤ size ∧ pool.1 = 0 then (desc.basePage * 4096, min size (64 * 1024 * 1024)) else pool
  else pool

/-- An entry for each driver whose position has a module after the first `firstBootDriver`, from position `i` on. -/
def bootDriverEntries (firstBootDriver count : ℕ) : ℕ → List BootDriverEntry → List BootDriverListEntry
  | _, [] => []
  | i, driver :: rest =>
    if count ≤ firstBootDriver + i then []
    else { driver, ldrEntry := .moduleEntry (firstBootDriver + i) } :: bootDriverEntries firstBootDriver count (i + 1) rest

def linkLists (descriptors modules bootDrivers : ℕ) : Links Cell :=
  let m : Links Cell := { next := fun _ => .null, prev := fun _ => .null }
  let m := ((m.initHead .memoryHead).initHead .loadOrderHead).initHead .bootDriverHead
  let m := (m.initHead .memoryHead).linkEntries .memoryHead .memoryHead ((List.range descriptors).map .descriptor)
  let m := m.insertTails .loadOrderHead ((List.range modules).map .moduleEntry)
  m.insertTails .bootDriverHead ((List.range bootDrivers).map .bootDriver)

/-- What the loader finds: the kernel and its imported modules, the boot drivers and their files,
and whether all imports were resolved and `exit_boot_services` succeeded. -/
structure Machine where
  kernel : LoadedModule
  kernelDeps : List (Option LoadedModule)
  groupOrder : List String
  drivers : List (BootDriverEntry × Load)
  importsResolved : Bool
  exitsBootServices : Bool

namespace Machine

def kernelModules (machine : Machine) : List LoadedModule := machine.kernel :: machine.kernelDeps.reduceOption

def bootDrivers (machine : Machine) : List (BootDriverEntry × Load) :=
  sortBootDrivers machine.groupOrder machine.drivers

/-- The loader block at the jump to the kernel, `none` if the loader does not get there. -/
def winload (machine : Machine) (map : List UefiEntry) : Option LoaderBlock := do
  let loadOrderList := machine.kernelModules
  let kernelDepsLoaded := loadOrderList.length - 1
  let loadOrderList ← loadBootDrivers machine.bootDrivers loadOrderList
  guard machine.importsResolved
  let descriptors := convertUefiMemoryMap map
  let pool := descriptors.foldl choosePool (0, 0)
  let modules := loadOrderList.map createModuleEntry
  let bootDrivers := bootDriverEntries (1 + kernelDepsLoaded) modules.length 0 (machine.bootDrivers.map (·.1))
  guard machine.exitsBootServices
  return { descriptors, poolBase := pool.1, poolSize := pool.2, modules, bootDrivers
           links := linkLists descriptors.length modules.length bootDrivers.length }

end Machine

inductive Kept
  | systemHive
  | image
  | unicodeNls
  | descriptor
  | loaderBlock
  | extension
  | moduleEntry
  | bootDriverEntry
  | pageTable
  deriving DecidableEq

inductive Event
  | keep (what : Kept) (pages : List ℕ)
  | temporary (pages : List ℕ)
  | release (pages : List ℕ)

structure Pages where
  ty : ℕ → UefiType
  relied : List ℕ

namespace Pages

def setType (s : Pages) (pages : List ℕ) (ty : UefiType) : Pages :=
  { s with ty := fun p => if p ∈ pages then ty else s.ty p }

def step (s : Pages) : Event → Pages
  | .keep _ pages => { s.setType pages .loaderData with relied := pages ++ s.relied }
  | .temporary pages => s.setType pages .loaderData
  | .release pages => s.setType pages .conventional

/-- The firmware gives memory out of free pages or pages of the loader's pool, and takes back no
page that is kept. -/
def Allows (s : Pages) : Event → Prop
  | .keep _ pages | .temporary pages => ∀ p ∈ pages, s.ty p = .conventional ∨ s.ty p = .loaderData
  | .release pages => ∀ p ∈ pages, s.ty p = .loaderData ∧ p ∉ s.relied

end Pages

def Event.kept : Event → Option Kept
  | .keep what _ => some what
  | _ => none

def Event.keptPages : Event → List ℕ
  | .keep _ pages => pages
  | _ => []

def UefiEntry.Covers (entry : UefiEntry) (p : ℕ) : Prop :=
  entry.physStart / pageSize ≤ p ∧ p < entry.physStart / pageSize + entry.pageCount

structure Firmware where
  start : ℕ → UefiType
  before : List Event
  map : List UefiEntry
  after : List Event
  allowsBefore : EveryStep Pages.step Pages.Allows ⟨start, []⟩ before
  typed : ∀ entry ∈ map, ∀ p, entry.Covers p → (run Pages.step ⟨start, []⟩ before).ty p = entry.ty
  complete : ∀ p, (run Pages.step ⟨start, []⟩ before).ty p = .conventional → ∃ entry ∈ map, entry.Covers p
  allowsAfter : EveryStep Pages.step Pages.Allows (run Pages.step ⟨start, []⟩ before) after

namespace Firmware

/-- When the loader reads the memory map. -/
def snapshot (firmware : Firmware) : Pages := run Pages.step ⟨firmware.start, []⟩ firmware.before

/-- At the jump to the kernel. -/
def final (firmware : Firmware) : Pages := run Pages.step firmware.snapshot firmware.after

end Firmware

/-- A boot that reaches the kernel: what is kept before the memory map is read, and after. -/
structure Handover where
  machine : Machine
  firmware : Firmware
  block : LoaderBlock
  pageTables : ℕ
  builds : machine.winload firmware.map = some block
  keepsBefore : firmware.before.filterMap Event.kept =
    [.systemHive, .image, .unicodeNls] ++ List.replicate (block.modules.length - 1) .image
  keepsAfter : firmware.after.filterMap Event.kept =
    List.replicate block.descriptors.length .descriptor ++ [.loaderBlock, .extension] ++
      List.replicate block.modules.length .moduleEntry ++ List.replicate block.bootDrivers.length .bootDriverEntry ++
      List.replicate pageTables .pageTable

end XenOS.Boot
