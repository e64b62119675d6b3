import Mathlib.Algebra.Group.Nat.Defs
import Mathlib.Data.Nat.Bits
import Mathlib.Logic.Function.Basic

/-! The page tables that the boot loader hands over, and the walk of the processor through them. An
entry's value is the table it points to. -/

namespace XenOS.Boot

open Function (update)

def hhdmOffset : ℕ := 0xFFFF800000000000

def kernelVaBase : ℕ := 0xFFFFF80000000000

def halMmioBase : ℕ := 0xFFFFFFFFFFFE0000

def pageSize : ℕ := 4096

def pageSize1gb : ℕ := 1024 * 1024 * 1024

/-- `PTE_PRESENT`, `PTE_WRITABLE` and `PTE_PAGE_SIZE`. -/
def ptePresent : ℕ := 1
def pteWritable : ℕ := 2
def ptePageSize : ℕ := 128

/-- `u64` arithmetic. -/
def wrap64 (n : ℕ) : ℕ := n % 2 ^ 64

def tableIndex (va shift : ℕ) : ℕ := va >>> shift &&& 0x1FF

theorem tableIndex_eq (va shift : ℕ) : tableIndex va shift = va / 2 ^ shift % 512 := by
  rw [tableIndex, Nat.shiftRight_eq_div_pow, show (0x1FF : ℕ) = 2 ^ 9 - 1 from rfl, Nat.and_two_pow_sub_one_eq_mod]

/-- A page table: its entries, 0 where none is. -/
abbrev Pt := ℕ → ℕ

/-- A page directory. -/
abbrev Pd := ℕ → Option Pt

inductive PdptEntry where
  | absent
  | page (entry : ℕ)
  | directory (pd : Pd)

/-- The page directory pointer tables of the loader. -/
inductive Pdpt where
  | low | hhdm | kernel | hal
  deriving DecidableEq

structure PageTables where
  pml4 : ℕ → Option Pdpt
  pdpt : Pdpt → ℕ → PdptEntry

namespace PageTables

def new : PageTables where
  pml4 _ := none
  pdpt _ _ := .absent

def gigabytePages (i : ℕ) : PdptEntry :=
  if i < 512 then .page (wrap64 (i * pageSize1gb) ||| ptePresent ||| pteWritable ||| ptePageSize) else .absent

/-- `PageTables::setup`; the highest physical address is not looked at. -/
def setup (T : PageTables) (_maxPhysMemory : ℕ) : PageTables where
  pml4 := update (update (update (update T.pml4 0 (some .low))
    (tableIndex hhdmOffset 39) (some .hhdm)) (tableIndex kernelVaBase 39) (some .kernel))
    (tableIndex halMmioBase 39) (some .hal)
  pdpt name := match name with
    | .low => gigabytePages
    | .hhdm => gigabytePages
    | name => T.pdpt name

def fillPt (pt : Pt) (index phys : ℕ) : ℕ → Pt
  | 0 => pt
  | n + 1 => fillPt (update pt index (phys ||| ptePresent ||| pteWritable)) (index + 1) (wrap64 (phys + pageSize)) n

def kernelPts (pd : Pd) (pdIndex phys pagesRemaining : ℕ) : ℕ → Option Pd
  | 0 => some pd
  | n + 1 =>
    let pagesInThisPt := min pagesRemaining 512
    let pt := fillPt (fun _ => 0) 0 phys pagesInThisPt
    if pdIndex < 512 then
      kernelPts (update pd pdIndex (some pt)) (pdIndex + 1) (wrap64 (phys + pagesInThisPt * pageSize))
        (pagesRemaining - 512) n
    else none

def pageCount (size : ℕ) : ℕ := (wrap64 (size + pageSize - 1) - wrap64 (size + pageSize - 1) % pageSize) / pageSize

def mapKernel (T : PageTables) (kernelPhys kernelSize : ℕ) : Option PageTables :=
  let count := pageCount kernelSize
  let ptCount := max ((count + 511) / 512) 1
  match kernelPts (fun _ => none) (tableIndex kernelVaBase 21) kernelPhys count ptCount with
  | some pd => some { T with
      pdpt := update T.pdpt .kernel (update (T.pdpt .kernel) (tableIndex kernelVaBase 30) (.directory pd)) }
  | none => none

def modulePts (pd : Pd) (va phys pagesRemaining : ℕ) : Pd :=
  if pagesRemaining = 0 then pd
  else
    let pdIndex := tableIndex va 21
    let ptIndex := tableIndex va 12
    let entries := min (512 - ptIndex) pagesRemaining
    let pt := fillPt ((pd pdIndex).getD fun _ => 0) ptIndex phys entries
    modulePts (update pd pdIndex (some pt)) (wrap64 (va + entries * pageSize)) (wrap64 (phys + entries * pageSize))
      (pagesRemaining - entries)
termination_by pagesRemaining
decreasing_by
  rw [tableIndex_eq]
  omega

def mapModule (T : PageTables) (modulePhys moduleVa moduleSize : ℕ) : PageTables :=
  let pdptIndex := tableIndex moduleVa 30
  let pd := match T.pdpt .kernel pdptIndex with
    | .directory pd => pd
    | _ => fun _ => none
  { T with
    pdpt := update T.pdpt .kernel (update (T.pdpt .kernel) pdptIndex
      (.directory (modulePts pd moduleVa modulePhys (pageCount moduleSize)))) }

/-- The walk of the processor: the physical address of a virtual one. -/
def translate (T : PageTables) (va : ℕ) : Option ℕ :=
  match T.pml4 (va / 2 ^ 39 % 512) with
  | none => none
  | some name =>
    match T.pdpt name (va / 2 ^ 30 % 512) with
    | .absent => none
    | .page entry => if entry % 2 = 1 then some (entry % 2 ^ 52 / 2 ^ 30 * 2 ^ 30 + va % 2 ^ 30) else none
    | .directory pd =>
      match pd (va / 2 ^ 21 % 512) with
      | none => none
      | some pt =>
        let entry := pt (va / 2 ^ 12 % 512)
        if entry % 2 = 1 then some (entry % 2 ^ 52 / 2 ^ 12 * 2 ^ 12 + va % 2 ^ 12) else none

end PageTables

/-- A loaded image: its physical base and `size_of_image`. -/
structure Image where
  phys : ℕ
  size : ℕ

structure Mapping where
  tables : PageTables
  nextVa : ℕ
  images : List (Image × ℕ)

def roundUp64k (n : ℕ) : ℕ := wrap64 (n + 0xFFFF) - wrap64 (n + 0xFFFF) % 0x10000

def Mapping.start (maxPhysMemory : ℕ) (kernel : Image) : Option Mapping :=
  match (PageTables.new.setup maxPhysMemory).mapKernel kernel.phys kernel.size with
  | some tables => some
    { tables
      nextVa := roundUp64k (wrap64 (kernelVaBase + kernel.size))
      images := [(kernel, kernelVaBase)] }
  | none => none

def Mapping.step (s : Mapping) (module : Image) : Mapping where
  tables := s.tables.mapModule module.phys s.nextVa module.size
  nextVa := roundUp64k (wrap64 (s.nextVa + module.size))
  images := (module, s.nextVa) :: s.images

end XenOS.Boot
