import XenOS.Boot.LoaderBlock

/-! The loader block describes memory and modules: nothing relied on is called free, each loaded
boot driver has an entry for its module. The map is read before the block is allocated, and a boot
driver is found by its position. -/

namespace XenOS.Boot

open XenOS.General List Pages BootDriverListEntry

def MemoryDescriptor.Covers (desc : MemoryDescriptor) (p : ℕ) : Prop :=
  desc.basePage ≤ p ∧ p < desc.basePage + desc.pageCount

def LoaderBlock.InPool (block : LoaderBlock) (p : ℕ) : Prop :=
  block.poolBase ≤ p * pageSize ∧ p * pageSize < block.poolBase + block.poolSize

def loadedDrivers (drivers : List (BootDriverEntry × Load)) : List (BootDriverEntry × LoadedModule) :=
  drivers.filterMap fun (driver, load) =>
    match driver.imagePath, load with
    | some _, .loaded module => some (driver, module)
    | _, _ => none

def BootDriverListEntry.Describes (block : LoaderBlock) (entry : BootDriverListEntry)
    (loaded : BootDriverEntry × LoadedModule) : Prop :=
  entry.driver = loaded.1 ∧ ∃ i, entry.ldrEntry = .moduleEntry i ∧ block.modules[i]? = some (createModuleEntry loaded.2)

namespace Handover

structure Truthful (boot : Handover) : Prop where
  memory : ∀ p ∈ boot.firmware.final.relied,
    (∀ desc ∈ boot.block.descriptors, desc.memoryType = .loaderFree → ¬ desc.Covers p) ∧ ¬ boot.block.InPool p
  drivers : Forall₂ (Describes boot.block) boot.block.bootDrivers
    (loadedDrivers boot.machine.bootDrivers)
  sorted : (boot.block.bootDrivers.map (·.driver)).Pairwise fun a b => notAfter boot.machine.groupOrder a b = true
  memoryList : Ring boot.block.links .memoryHead ((range boot.block.descriptors.length).map .descriptor)
  moduleList : Ring boot.block.links .loadOrderHead ((range boot.block.modules.length).map .moduleEntry)
  driverList : Ring boot.block.links .bootDriverHead ((range boot.block.bootDrivers.length).map .bootDriver)

/-- No page kept after the memory map was read was free then, and the loaded drivers are the first
of their list. -/
structure Spares (boot : Handover) : Prop where
  held : ∀ event ∈ boot.firmware.after, ∀ p ∈ event.keptPages, boot.firmware.snapshot.ty p ≠ .conventional
  first : (loadedDrivers boot.machine.bootDrivers).map (·.1) <+: boot.machine.bootDrivers.map (·.1)

end Handover

theorem linkLists_rings (descriptors modules bootDrivers : ℕ) :
    let m := linkLists descriptors modules bootDrivers
    Ring m .memoryHead ((range descriptors).map .descriptor) ∧
      Ring m .loadOrderHead ((range modules).map .moduleEntry) ∧
        Ring m .bootDriverHead ((range bootDrivers).map .bootDriver) := by
  intro m
  have hdescriptors : (Cell.memoryHead :: (range descriptors).map .descriptor).Nodup := by
    refine nodup_cons.2 ⟨by simp, Nodup.map (fun i j h => Cell.descriptor.inj h) nodup_range⟩
  have hmodules : (Cell.loadOrderHead :: ([] ++ (range modules).map .moduleEntry)).Nodup := by
    refine nodup_cons.2 ⟨by simp, Nodup.map (fun i j h => Cell.moduleEntry.inj h) nodup_range⟩
  have hdrivers : (Cell.bootDriverHead :: ([] ++ (range bootDrivers).map .bootDriver)).Nodup := by
    refine nodup_cons.2 ⟨by simp, Nodup.map (fun i j h => Cell.bootDriver.inj h) nodup_range⟩
  let start : Links Cell := { next := fun _ => .null, prev := fun _ => .null }
  let heads := ((start.initHead .memoryHead).initHead .loadOrderHead).initHead .bootDriverHead
  have hload₀ : Ring ((start.initHead .memoryHead).initHead .loadOrderHead) .loadOrderHead [] := ring_initHead
  have hload : Ring heads .loadOrderHead [] := hload₀.congr (by decide)
  have hboot : Ring heads .bootDriverHead [] := ring_initHead
  -- the memory descriptors, then the modules, then the drivers: each step keeps the other two
  have hmemory₁ := ring_linkEntries (m := heads) hdescriptors
  let linked := (heads.initHead .memoryHead).linkEntries .memoryHead .memoryHead ((range descriptors).map .descriptor)
  have hload₁ : Ring linked .loadOrderHead [] := hload.linkEntries_frame (by simp)
  have hboot₁ : Ring linked .bootDriverHead [] := hboot.linkEntries_frame (by simp)
  have hload₂ := hload₁.insertTails hmodules
  have hmemory₂ := hload₁.insertTails_frame hmemory₁ hmodules (by simp)
  have hboot₂ := hload₁.insertTails_frame hboot₁ hmodules (by simp)
  exact ⟨hboot₂.insertTails_frame hmemory₂ hdrivers (by simp), hboot₂.insertTails_frame hload₂ hdrivers (by simp),
    hboot₂.insertTails hdrivers⟩

theorem loadBootDrivers_eq {drivers : List (BootDriverEntry × Load)} {modules result : List LoadedModule}
    (h : loadBootDrivers drivers modules = some result) : result = modules ++ (loadedDrivers drivers).map (·.2) := by
  induction drivers generalizing modules with
  | nil => simpa [loadBootDrivers, loadedDrivers] using h.symm
  | cons entry rest ih =>
    obtain ⟨driver, load⟩ := entry
    cases hpath : driver.imagePath with
    | none =>
      simp only [loadBootDrivers, hpath] at h
      simpa [loadedDrivers, hpath] using ih h
    | some path =>
      cases load with
      | loaded module =>
        simp only [loadBootDrivers, hpath] at h
        simpa [loadedDrivers, hpath] using ih h
      | failed | fileNotFound =>
        simp only [loadBootDrivers, hpath] at h
        split at h
        · cases h
        · simpa [loadedDrivers, hpath] using ih h

theorem bootDriverEntries_driver (first count i : ℕ) (drivers : List BootDriverEntry) :
    (bootDriverEntries first count i drivers).map (·.driver) = drivers.take (count - (first + i)) := by
  induction drivers generalizing i with
  | nil => simp [bootDriverEntries]
  | cons driver rest ih =>
    unfold bootDriverEntries
    split
    · rename_i hend
      rw [Nat.sub_eq_zero_of_le hend]
      rfl
    · rename_i hmore
      obtain ⟨n, hn⟩ : ∃ n, count - (first + i) = n + 1 := ⟨count - (first + i) - 1, by omega⟩
      have hrest : count - (first + (i + 1)) = n := by omega
      rw [hn, take_succ_cons, map_cons, ih, hrest]

theorem bootDriverEntries_ldrEntry (first count i k : ℕ) (drivers : List BootDriverEntry) {entry : BootDriverListEntry}
    (h : (bootDriverEntries first count i drivers)[k]? = some entry) : entry.ldrEntry = .moduleEntry (first + i + k) := by
  induction drivers generalizing i k with
  | nil => simp [bootDriverEntries] at h
  | cons driver rest ih =>
    unfold bootDriverEntries at h
    split at h
    · simp at h
    · cases k with
      | zero =>
        simp only [getElem?_cons_zero, Option.some.injEq] at h
        rw [← h, Nat.add_zero]
      | succ k =>
        rw [getElem?_cons_succ] at h
        rw [ih _ _ h]
        congr 1
        omega

theorem notAfter_trans (groupOrder : List String) (a b c : BootDriverEntry) (hab : notAfter groupOrder a b = true)
    (hbc : notAfter groupOrder b c = true) : notAfter groupOrder a c = true := by
  unfold notAfter at *
  split at hab <;> split at hbc <;> split <;> simp_all <;> omega

theorem notAfter_total (groupOrder : List String) (a b : BootDriverEntry) :
    (notAfter groupOrder a b || notAfter groupOrder b a) = true := by
  unfold notAfter
  rcases Nat.lt_trichotomy (groupIndex groupOrder a) (groupIndex groupOrder b) with h | h | h
  · simp [h, h.ne]
  · simp [h, Nat.le_total]
  · simp [h, h.ne, h.ne']

theorem sortBootDrivers_sorted (groupOrder : List String) (drivers : List (BootDriverEntry × Load)) :
    ((sortBootDrivers groupOrder drivers).map (·.1)).Pairwise fun a b => notAfter groupOrder a b = true := by
  rw [pairwise_map]
  exact pairwise_mergeSort (fun a b c => notAfter_trans groupOrder a.1 b.1 c.1)
    (fun a b => notAfter_total groupOrder a.1 b.1) drivers

variable {machine : Machine} {map : List UefiEntry} {block : LoaderBlock}

section
variable (h : machine.winload map = some block)
include h

theorem winload_spec :
    let loaded := loadedDrivers machine.bootDrivers
    let first := machine.kernelModules.length
    block.descriptors = convertUefiMemoryMap map ∧
      (block.poolBase, block.poolSize) = block.descriptors.foldl choosePool (0, 0) ∧
      block.modules = (machine.kernelModules ++ loaded.map (·.2)).map createModuleEntry ∧
      block.bootDrivers = bootDriverEntries first (first + loaded.length) 0 (machine.bootDrivers.map (·.1)) ∧
      block.links = linkLists block.descriptors.length block.modules.length block.bootDrivers.length := by
  intro loaded first
  unfold Machine.winload at h
  simp only [Option.bind_eq_bind, Option.bind_eq_some_iff, Option.guard_eq_some', Option.pure_def, Option.some.injEq] at h
  obtain ⟨modules, hmodules, _, -, _, -, rfl⟩ := h
  have hall := loadBootDrivers_eq hmodules
  have hfirst : 1 + (machine.kernelModules.length - 1) = first := by
    simp only [first, Machine.kernelModules, length_cons]
    omega
  have hcount : (modules.map createModuleEntry).length = first + loaded.length := by
    simp [hall, first, loaded]
  refine ⟨rfl, rfl, congrArg _ hall, ?_, rfl⟩
  dsimp only
  rw [hfirst, hcount]

theorem winload_drivers :
    block.bootDrivers.map (·.driver) =
      (machine.bootDrivers.map (·.1)).take (loadedDrivers machine.bootDrivers).length := by
  obtain ⟨-, -, -, hdrivers, -⟩ := winload_spec h
  rw [hdrivers, bootDriverEntries_driver]
  congr 1
  omega

theorem describes_iff :
    Forall₂ (Describes block) block.bootDrivers (loadedDrivers machine.bootDrivers) ↔
      (loadedDrivers machine.bootDrivers).map (·.1) <+: machine.bootDrivers.map (·.1) := by
  have hnames := winload_drivers h
  obtain ⟨-, -, hmodules, hdrivers, -⟩ := winload_spec h
  rw [prefix_iff_eq_take, length_map, ← hnames, eq_comm]
  constructor
  · intro hdescribes
    have hsame := forall₂_iff_get.1 hdescribes
    refine ext_getElem (by simpa using hsame.1) fun i hi hj => ?_
    simp only [getElem_map]
    exact (hsame.2 i (by simpa using hi) (by simpa using hj)).1
  · intro hsame
    have hlength : block.bootDrivers.length = (loadedDrivers machine.bootDrivers).length := by
      simpa using congrArg length hsame
    refine forall₂_iff_get.2 ⟨hlength, fun i hi hj => ⟨?_, machine.kernelModules.length + i, ?_, ?_⟩⟩
    · have hi' : i < (block.bootDrivers.map (·.driver)).length := by simpa using hi
      have hj' : i < ((loadedDrivers machine.bootDrivers).map (·.1)).length := by simpa using hj
      have hget : (block.bootDrivers.map (·.driver))[i] = ((loadedDrivers machine.bootDrivers).map (·.1))[i] := by
        simp only [hsame]
      simpa using hget
    · have hget := (congrArg (fun entries => entries[i]?) hdrivers).symm.trans (getElem?_eq_getElem hi)
      have hcell := bootDriverEntries_ldrEntry _ _ _ _ _ hget
      rw [Nat.add_zero] at hcell
      exact hcell
    · rw [hmodules, map_append, getElem?_append_right (by simp)]
      simp [getElem?_eq_getElem hj]

end

def Pages.Holds (s : Pages) : Prop := ∀ p ∈ s.relied, s.ty p = .loaderData

variable {s : Pages} {event : Event}

theorem Pages.Holds.step (h : s.Holds) (hallows : s.Allows event) :
    (s.step event).Holds := by
  intro p hp
  cases event with
  | keep what pages =>
    by_cases hpages : p ∈ pages
    · exact if_pos hpages
    · refine (if_neg hpages).trans (h p ?_)
      exact (mem_append.1 hp).resolve_left hpages
  | temporary pages =>
    by_cases hpages : p ∈ pages
    · exact if_pos hpages
    · exact (if_neg hpages).trans (h p hp)
  | release pages =>
    have hpages : p ∉ pages := fun hmem => (hallows p hmem).2 hp
    exact (if_neg hpages).trans (h p hp)

/-- A page that the firmware gives to the loader, or could give to it. -/
def Owned (ty : UefiType) : Prop := ty = .conventional ∨ ty = .loaderData

variable {p : ℕ}

theorem owned_of_step (hallows : s.Allows event)
    (h : Owned ((s.step event).ty p)) : Owned (s.ty p) := by
  cases event with
  | keep what pages | temporary pages =>
    by_cases hpages : p ∈ pages
    · exact hallows p hpages
    · simpa [step, setType, hpages] using h
  | release pages =>
    by_cases hpages : p ∈ pages
    · exact .inr (hallows p hpages).1
    · simpa [step, setType, hpages] using h

theorem owned_of_kept {events : List Event} (hallows : EveryStep step Allows s events)
    (hevent : event ∈ events) (hp : p ∈ event.keptPages) : Owned (s.ty p) := by
  induction events generalizing s with
  | nil => cases hevent
  | cons first rest ih =>
    rcases mem_cons.1 hevent with rfl | hrest
    · cases event with
      | keep what pages => exact hallows.1 p hp
      | temporary pages => cases hp
      | release pages => cases hp
    · exact owned_of_step hallows.1 (ih hallows.2 hrest)

theorem mem_relied_run {events : List Event} :
    p ∈ (run step s events).relied ↔ p ∈ s.relied ∨ ∃ event ∈ events, p ∈ event.keptPages := by
  induction events generalizing s with
  | nil => simp [run]
  | cons event rest ih =>
    rw [run, ih]
    cases event with
    | keep what pages =>
      simp only [step, Event.keptPages, mem_append, mem_cons, exists_eq_or_imp]
      tauto
    | temporary pages | release pages => simp [step, setType, Event.keptPages]

theorem mem_free_of_inPool (h : machine.winload map = some block) (hp : block.InPool p) :
    ∃ desc ∈ block.descriptors, desc.memoryType = .loaderFree ∧ desc.Covers p := by
  obtain ⟨-, hpool, -⟩ := winload_spec h
  have hchosen := foldlRecOn (motive := fun pool : ℕ × ℕ => pool = (0, 0) ∨ ∃ desc ∈ block.descriptors,
      desc.memoryType = .loaderFree ∧ pool.1 = desc.basePage * 4096 ∧ pool.2 ≤ desc.pageCount * 4096)
    block.descriptors choosePool (.inl rfl) fun pool hkept desc hdesc => by
      unfold choosePool
      split
      · rename_i hfree
        dsimp only
        split
        · exact .inr ⟨desc, hdesc, hfree, rfl, (min_le_left _ _).trans (Nat.mod_le _ _)⟩
        · exact hkept
      · exact hkept
  rw [← hpool] at hchosen
  obtain ⟨hlow, hhigh⟩ := hp
  unfold pageSize at hlow hhigh
  rcases hchosen with hnone | ⟨desc, hdesc, hfree, hbase, hsize⟩
  · have hbase : block.poolBase = 0 := congrArg Prod.fst hnone
    have hsize : block.poolSize = 0 := congrArg Prod.snd hnone
    omega
  · dsimp only at hbase hsize
    refine ⟨desc, hdesc, hfree, ?_, ?_⟩ <;> omega

namespace Handover

variable (boot : Handover)

theorem mem_descriptors_iff {desc : MemoryDescriptor} :
    desc ∈ boot.block.descriptors ↔ ∃ entry ∈ boot.firmware.map, entry.descriptor = desc := by
  rw [(winload_spec boot.builds).1]
  exact mem_map

theorem covered_iff (howned : Owned (boot.firmware.snapshot.ty p)) :
    (∃ desc ∈ boot.block.descriptors, desc.memoryType = .loaderFree ∧ desc.Covers p) ↔
      boot.firmware.snapshot.ty p = .conventional := by
  constructor
  · rintro ⟨desc, hdesc, hfree, hcovers⟩
    obtain ⟨entry, hentry, rfl⟩ := boot.mem_descriptors_iff.1 hdesc
    have hty : boot.firmware.snapshot.ty p = entry.ty := boot.firmware.typed entry hentry p hcovers
    rcases howned with hconventional | hloader
    · exact hconventional
    · have hheap : entry.descriptor.memoryType = .loaderOsloaderHeap := by
        unfold UefiEntry.descriptor
        rw [← hty, hloader]
        rfl
      rw [hheap] at hfree
      cases hfree
  · intro hconventional
    obtain ⟨entry, hentry, hcovers⟩ := boot.firmware.complete p hconventional
    have hty : boot.firmware.snapshot.ty p = entry.ty := boot.firmware.typed entry hentry p hcovers
    refine ⟨entry.descriptor, boot.mem_descriptors_iff.2 ⟨entry, hentry, rfl⟩, ?_, hcovers⟩
    unfold UefiEntry.descriptor
    rw [← hty, hconventional]
    rfl

theorem memory_iff :
    (∀ p ∈ boot.firmware.final.relied,
      (∀ desc ∈ boot.block.descriptors, desc.memoryType = .loaderFree → ¬ desc.Covers p) ∧ ¬ boot.block.InPool p) ↔
      ∀ event ∈ boot.firmware.after, ∀ p ∈ event.keptPages, boot.firmware.snapshot.ty p ≠ .conventional := by
  constructor
  · intro hmemory event hevent p hp hconventional
    obtain ⟨desc, hdesc, hfree, hcovers⟩ := (boot.covered_iff (.inl hconventional)).2 hconventional
    exact (hmemory p (mem_relied_run.2 (.inr ⟨event, hevent, hp⟩))).1 desc hdesc hfree hcovers
  · intro hheld p hp
    have hstart : (⟨boot.firmware.start, []⟩ : Pages).Holds := fun q hq => by cases hq
    have hholds : boot.firmware.snapshot.Holds :=
      run_invariant (fun _ _ hs hallows => Holds.step hs hallows) hstart boot.firmware.allowsBefore
    have hloader : boot.firmware.snapshot.ty p = .loaderData := by
      rcases mem_relied_run.1 hp with hbefore | ⟨event, hevent, hkept⟩
      · exact hholds p hbefore
      · exact (owned_of_kept boot.firmware.allowsAfter hevent hkept).resolve_left (hheld event hevent p hkept)
    have hnone : ¬ ∃ desc ∈ boot.block.descriptors, desc.memoryType = .loaderFree ∧ desc.Covers p := by
      rw [boot.covered_iff (.inr hloader), hloader]
      simp
    refine ⟨fun desc hdesc hfree hcovers => hnone ⟨desc, hdesc, hfree, hcovers⟩, fun hpool => ?_⟩
    exact hnone (mem_free_of_inPool boot.builds hpool)

/-- The loader block is truthful exactly if all kept pages were in hand when the map was read, and
no missing driver stands before a loaded one. -/
theorem truthful_iff : boot.Truthful ↔ boot.Spares := by
  have hdescribes := describes_iff boot.builds
  constructor
  · intro htruthful
    exact ⟨boot.memory_iff.1 htruthful.memory, hdescribes.1 htruthful.drivers⟩
  · intro hspares
    have hlinks := (winload_spec boot.builds).2.2.2.2
    obtain ⟨hmemory, hmodules, hdrivers⟩ := linkLists_rings boot.block.descriptors.length boot.block.modules.length
      boot.block.bootDrivers.length
    rw [← hlinks] at hmemory hmodules hdrivers
    refine ⟨boot.memory_iff.2 hspares.held, hdescribes.2 hspares.first, ?_, hmemory, hmodules, hdrivers⟩
    rw [winload_drivers boot.builds]
    exact (sortBootDrivers_sorted _ _).sublist (take_sublist _ _)

end Handover

def missingDriver : BootDriverEntry :=
  { name := "acpi", imagePath := some "\\SystemRoot\\drivers\\acpi.sys", errorControl := 1, group := none, tag := 1 }

def presentDriver : BootDriverEntry :=
  { name := "disk", imagePath := some "\\SystemRoot\\drivers\\disk.sys", errorControl := 1, group := none, tag := 2 }

def presentModule : LoadedModule :=
  { fullPath := "\\XenOS\\drivers\\disk.sys", vaBase := 0xFFFFF80000100000, entryRva := 0x1000, sizeOfImage := 0x4000 }

def missingFirst : Machine where
  kernel := { fullPath := "\\XenOS\\ntoskrnl.exe", vaBase := 0xFFFFF80000000000, entryRva := 0x1000, sizeOfImage := 0x100000 }
  kernelDeps := []
  groupOrder := []
  drivers := [(missingDriver, .fileNotFound), (presentDriver, .loaded presentModule)]
  importsResolved := true
  exitsBootServices := true

def pagewiseFirmware : Firmware where
  start p := if p < 5000 then .conventional else .mmio
  before := [.keep .systemHive [0], .keep .image [1], .keep .unicodeNls [2], .keep .image [3]]
  map := [⟨.loaderData, 0, 4⟩, ⟨.conventional, 0x4000, 4996⟩, ⟨.mmio, 0x1388000, 16⟩]
  after := [.keep .descriptor [4], .keep .descriptor [4], .keep .descriptor [4], .keep .loaderBlock [5],
    .keep .extension [5], .keep .moduleEntry [6], .keep .moduleEntry [6], .keep .bootDriverEntry [6]] ++
      (range 7).map fun i => .keep .pageTable [7 + i]
  allowsBefore := by simp [EveryStep, Allows, step, setType]
  typed := by
    simp only [mem_cons, not_mem_nil, or_false, forall_eq_or_imp, forall_eq, UefiEntry.Covers, pageSize, run,
      step, setType]
    refine ⟨fun p hp => ?_, fun p hp => ?_, fun p hp => ?_⟩ <;> grind
  complete := by
    intro p hp
    simp only [run, step, setType, mem_cons, not_mem_nil, or_false] at hp
    refine ⟨⟨.conventional, 0x4000, 4996⟩, by simp, ?_⟩
    unfold UefiEntry.Covers pageSize
    dsimp only
    grind
  allowsAfter := by simp [EveryStep, Allows, step, setType, run, range_succ]

theorem missingFirst_sorted : missingFirst.bootDrivers = missingFirst.drivers := by
  refine mergeSort_of_pairwise ?_
  simp [missingFirst, missingDriver, presentDriver, notAfter, groupIndex]

def missingFirstHandover : Handover where
  machine := missingFirst
  firmware := pagewiseFirmware
  block :=
    { descriptors := convertUefiMemoryMap pagewiseFirmware.map
      poolBase := ((convertUefiMemoryMap pagewiseFirmware.map).foldl choosePool (0, 0)).1
      poolSize := ((convertUefiMemoryMap pagewiseFirmware.map).foldl choosePool (0, 0)).2
      modules := [createModuleEntry missingFirst.kernel, createModuleEntry presentModule]
      bootDrivers := [⟨missingDriver, .moduleEntry 1⟩]
      links := linkLists 3 2 1 }
  pageTables := 7
  builds := by
    unfold Machine.winload
    rw [missingFirst_sorted]
    rfl
  keepsBefore := rfl
  keepsAfter := rfl

/-- The entry of the missing driver points to the module of the other one. -/
theorem missing_driver_described : ¬ missingFirstHandover.Truthful := by
  intro h
  have hdrivers : Forall₂ (Describes missingFirstHandover.block)
      [⟨missingDriver, .moduleEntry 1⟩] (loadedDrivers missingFirst.bootDrivers) := h.drivers
  rw [missingFirst_sorted] at hdrivers
  have hfirst : Describes missingFirstHandover.block ⟨missingDriver, .moduleEntry 1⟩
      (presentDriver, presentModule) := (forall₂_cons.1 hdrivers).1
  have hname : missingDriver.name = presentDriver.name := congrArg BootDriverEntry.name hfirst.1
  exact absurd hname (by decide)

end XenOS.Boot
