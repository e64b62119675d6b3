import Mathlib.Algebra.Group.Nat.Defs
import XenOS.General.Books

/-! The life of control areas: sections are made, mapped, closed and deleted. A view is a VAD in the
tree of its process. Where an image is made from memory, its handle is one of a section object. -/

namespace XenOS.Mm

open General

/-- `SUBSECTION`: its own block and where its prototype PTEs start. -/
structure Subsection where
  block : ℕ
  subsectionBase : ℕ × ℕ

/-- `CONTROL_AREA` with its `SEGMENT`. -/
structure ControlArea where
  segment : ℕ
  prototypePte : Option ℕ
  subsections : List Subsection
  derivedSectionCount : ℕ
  numberOfMappedViews : ℕ

structure MappedVad where
  process : ℕ
  startingVpn : ℕ
  endingVpn : ℕ
  controlArea : ℕ

structure SectionEntry where
  controlArea : ℕ
  handles : ℕ

structure SectionSpace where
  pool : Books
  controlAreas : ℕ → ControlArea
  sections : ℕ → Option SectionEntry
  nextSection : ℕ
  views : List MappedVad

namespace SectionSpace

/-- `AtomicU32::fetch_sub` of one. -/
def decrement (n : ℕ) : ℕ := (n + (2 ^ 32 - 1)) % 2 ^ 32

/-- `AtomicU32::fetch_add` of one. -/
def increment (n : ℕ) : ℕ := (n + 1) % 2 ^ 32

def free (s : SectionSpace) (pointers : List (ℕ × ℕ)) : SectionSpace := { s with pool := s.pool.free pointers }

def setControlArea (s : SectionSpace) (ca : ℕ) (area : ControlArea) : SectionSpace :=
  { s with controlAreas := Function.update s.controlAreas ca area }

/-! ### Creation

The pool grants a number of allocations and refuses the next one. -/

/-- `mi_init_pagefile_section`; what was allocated before a refusal is freed. -/
def miInitPagefileSection (s : SectionSpace) (pageCount granted : ℕ) : SectionSpace × Option ℕ :=
  let ca := s.pool.next
  if granted = 0 then (s, none)
  else if granted = 1 then ({ s with pool := (s.pool.allocate 1).free [(ca, 0)] }, none)
  else if granted = 2 then ({ s with pool := (s.pool.allocate 2).free [(ca + 1, 0), (ca, 0)] }, none)
  else if pageCount = 0 ∨ granted = 3 then
    ({ s with pool := (s.pool.allocate 3).free [(ca + 2, 0), (ca + 1, 0), (ca, 0)] }, none)
  else
    let area : ControlArea :=
      { segment := ca + 1
        prototypePte := some (ca + 3)
        subsections := [{ block := ca + 2, subsectionBase := (ca + 3, 0) }]
        derivedSectionCount := 1
        numberOfMappedViews := 0 }
    let s := { s with pool := s.pool.allocate 4 }
    (s.setControlArea ca area, some ca)

/-- `mi_init_image_section`: the control area and the segment. -/
def miInitImageSection (s : SectionSpace) (granted : ℕ) : SectionSpace × Option ℕ :=
  let ca := s.pool.next
  if granted = 0 then (s, none)
  else if granted = 1 then ({ s with pool := (s.pool.allocate 1).free [(ca, 0)] }, none)
  else
    let area : ControlArea :=
      { segment := ca + 1
        prototypePte := none
        subsections := []
        derivedSectionCount := 1
        numberOfMappedViews := 0 }
    let s := { s with pool := s.pool.allocate 2 }
    (s.setControlArea ca area, some ca)

/-- The subsections of an image from the first free block on, each inside the one array of prototype
PTEs. -/
def imageSubsections (block ptes : ℕ) : List ℕ → List Subsection
  | [] => []
  | startPteIndex :: startPteIndexes =>
    { block, subsectionBase := (ptes, 8 * startPteIndex) } :: imageSubsections (block + 1) ptes startPteIndexes

/-- `mi_create_image_section_from_memory` on right headers. The pool is asked for each structure in
turn; a refused subsection leaves the earlier ones. -/
def miCreateImageSectionFromMemory (s : SectionSpace) (pageCount : ℕ) (startPteIndexes : List ℕ) (granted : ℕ) :
    SectionSpace × Option ℕ :=
  let ca := s.pool.next
  if granted = 0 then (s, none)
  else if granted = 1 then ({ s with pool := (s.pool.allocate 1).free [(ca, 0)] }, none)
  else if pageCount = 0 ∨ granted ≤ 3 then
    ({ s with pool := (s.pool.allocate 2).free [(ca + 1, 0), (ca, 0)] }, none)
  else if granted < 4 + startPteIndexes.length then
    ({ s with pool := (s.pool.allocate (3 + (granted - 4))).free [(ca + 2, 0), (ca + 1, 0), (ca, 0)] }, none)
  else
    let area : ControlArea :=
      { segment := ca + 1
        prototypePte := some (ca + 2)
        subsections := imageSubsections (ca + 3) (ca + 2) startPteIndexes
        derivedSectionCount := 1
        numberOfMappedViews := 0 }
    let s := { s with pool := s.pool.allocate (3 + startPteIndexes.length) }
    (s.setControlArea ca area, some ca)

def miSectionDeleteProcedure (s : SectionSpace) (ca : ℕ) : SectionSpace :=
  let area := s.controlAreas ca
  let s := s.setControlArea ca { area with derivedSectionCount := decrement area.derivedSectionCount }
  if area.derivedSectionCount = 1 then
    s.free (area.subsections.flatMap (fun subsec => [subsec.subsectionBase, (subsec.block, 0)]) ++
      [(area.segment, 0), (ca, 0)])
  else s

def mmDereferenceSectionForControlArea (s : SectionSpace) (ca : ℕ) : SectionSpace :=
  let area := s.controlAreas ca
  let s := s.setControlArea ca { area with derivedSectionCount := decrement area.derivedSectionCount }
  if area.derivedSectionCount = 1 then
    s.free (area.prototypePte.toList.map (fun ptes => (ptes, 0)) ++ [(area.segment, 0)] ++
      area.subsections.map (fun ss => (ss.block, 0)) ++ [(ca, 0)])
  else s

def deleteObject (s : SectionSpace) (object : ℕ) : SectionSpace :=
  match s.sections object with
  | none => s
  | some entry =>
    let s := { s with sections := Function.update s.sections object none }
    s.miSectionDeleteProcedure entry.controlArea

/-- What follows: a section object with one handle; where it cannot be inserted, its only reference
is dropped. -/
def insertObject (made : SectionSpace × Option ℕ) (inserted : Bool) : SectionSpace :=
  match made with
  | (s, none) => s
  | (s, some ca) =>
    let object := s.nextSection
    let s := { s with
      sections := Function.update s.sections object (some { controlArea := ca, handles := 1 })
      nextSection := object + 1 }
    if inserted then s else s.deleteObject object

/-- `NtMapViewOfSection` with `mi_map_view_in_process`; `granted` says whether there is room for the
VAD and the view. -/
def ntMapViewOfSection (s : SectionSpace) (object process startVpn endVpn : ℕ) (granted : Bool) : SectionSpace :=
  match s.sections object with
  | none => s
  | some entry =>
    if entry.handles = 0 ∨ ¬ granted then s
    else
      let ca := entry.controlArea
      let area := s.controlAreas ca
      let vad : MappedVad := { process, startingVpn := startVpn, endingVpn := endVpn, controlArea := ca }
      let s := { s with views := vad :: s.views }
      s.setControlArea ca { area with numberOfMappedViews := increment area.numberOfMappedViews }

def holds (process vpn : ℕ) (vad : MappedVad) : Bool :=
  vad.process = process ∧ vad.startingVpn ≤ vpn ∧ vpn ≤ vad.endingVpn

def miUnmapViewOfSection (s : SectionSpace) (process vpn : ℕ) : SectionSpace :=
  match s.views.find? (holds process vpn) with
  | none => s
  | some vad =>
    let ca := vad.controlArea
    let area := s.controlAreas ca
    let s := { s with views := s.views.eraseP (holds process vpn) }
    let s := s.setControlArea ca { area with numberOfMappedViews := decrement area.numberOfMappedViews }
    if area.numberOfMappedViews = 1 then s.mmDereferenceSectionForControlArea ca else s

end SectionSpace

/-- What happens to sections. Handles are also made by duplication or by name; an object without
handles can be deleted. -/
inductive SectionOp where
  | createPagefile (pageCount granted : ℕ) (inserted : Bool)
  | createImage (granted : ℕ) (inserted : Bool)
  | createImageFromMemory (pageCount : ℕ) (startPteIndexes : List ℕ) (granted : ℕ)
  | openHandle (object : ℕ)
  | closeHandle (object : ℕ)
  | deleteObject (object : ℕ)
  | mapView (object process startVpn endVpn : ℕ) (granted : Bool)
  | unmapView (process vpn : ℕ)

namespace SectionSpace

def setHandles (s : SectionSpace) (object : ℕ) (change : ℕ → ℕ) : SectionSpace :=
  let entry := (s.sections object).map fun entry => { entry with handles := change entry.handles }
  { s with sections := Function.update s.sections object entry }

def step (s : SectionSpace) : SectionOp → SectionSpace
  | .createPagefile pageCount granted inserted => insertObject (s.miInitPagefileSection pageCount granted) inserted
  | .createImage granted inserted => insertObject (s.miInitImageSection granted) inserted
  | .createImageFromMemory pageCount startPteIndexes granted =>
    insertObject (s.miCreateImageSectionFromMemory pageCount startPteIndexes granted) true
  | .openHandle object => s.setHandles object fun handles => handles + 1
  | .closeHandle object => s.setHandles object fun handles => handles - 1
  | .deleteObject object => if (s.sections object).any fun entry => entry.handles = 0 then s.deleteObject object else s
  | .mapView object process startVpn endVpn granted => s.ntMapViewOfSection object process startVpn endVpn granted
  | .unmapView process vpn => s.miUnmapViewOfSection process vpn

/-- Nothing has been created. -/
def init : SectionSpace :=
  { pool := ⟨0, []⟩
    controlAreas := fun _ => ⟨0, none, [], 0, 0⟩
    sections := fun _ => none
    nextSection := 0
    views := [] }

end SectionSpace

end XenOS.Mm
