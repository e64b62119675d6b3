import XenOS.Ob.Runs

/-! What the steps of a call leave alone. References, handle counts, handle tables and
the list of objects to delete change; names, types and directories stay. -/

namespace XenOS.Ob

open Ex

def ObjectHeader.fixed (header : ObjectHeader) : ℕ × Option UnicodeString := (header.typePtr, header.nameInfo)

namespace ObState

variable {P : Type} {s s' s'' : ObState P} {o : ℕ}

@[simp] theorem setHeader_headers (s : ObState P) (o : ℕ) (header : ObjectHeader) :
    (s.setHeader o header).headers = Function.update s.headers o (some header) := rfl

@[simp] theorem modifyType_types (s : ObState P) (t : ℕ) (f : ObjectType → ObjectType) :
    (s.modifyType t f).types = Function.update s.types t (f (s.types t)) := rfl

structure Quiet (s s' : ObState P) : Prop where
  fixed : ∀ o, (s'.headers o).map ObjectHeader.fixed = (s.headers o).map ObjectHeader.fixed
  openProcedure : ∀ t, (s'.types t).hasOpenProcedure = (s.types t).hasOpenProcedure
  directories : s'.directories = s.directories
  upcaseTable : s'.upcaseTable = s.upcaseTable

namespace Quiet

theorem refl (s : ObState P) : Quiet s s := ⟨fun _ => rfl, fun _ => rfl, rfl, rfl⟩

theorem trans (h : Quiet s s') (h' : Quiet s' s'') : Quiet s s'' :=
  ⟨fun o => (h'.fixed o).trans (h.fixed o), fun t => (h'.openProcedure t).trans (h.openProcedure t),
    h'.directories.trans h.directories, h'.upcaseTable.trans h.upcaseTable⟩

theorem setTable [DecidableEq P] (s : ObState P) (id : Option P) (table : HandleTable) : Quiet s (s.setTable id table) :=
  ⟨fun _ => rfl, fun _ => rfl, rfl, rfl⟩

theorem setHeader {header header' : ObjectHeader} (h : s.headers o = some header)
    (hfixed : ObjectHeader.fixed header' = ObjectHeader.fixed header) : Quiet s (s.setHeader o header') where
  fixed o' := by
    by_cases ho : o' = o
    · subst ho
      rw [setHeader_headers, Function.update_self, h]
      exact congrArg some hfixed
    · rw [setHeader_headers, Function.update_of_ne ho]
  openProcedure _ := rfl
  directories := rfl
  upcaseTable := rfl

theorem modifyHeader (s : ObState P) (o : ℕ) {f : ObjectHeader → ObjectHeader}
    (hf : ∀ header, ObjectHeader.fixed (f header) = ObjectHeader.fixed header) : Quiet s (s.modifyHeader o f) := by
  unfold ObState.modifyHeader
  split
  · exact .refl s
  · rename_i header h
    exact .setHeader h (hf header)

theorem modifyType (s : ObState P) (t : ℕ) {f : ObjectType → ObjectType}
    (hf : ∀ type, (f type).hasOpenProcedure = type.hasOpenProcedure) : Quiet s (s.modifyType t f) where
  fixed _ := rfl
  openProcedure t' := by
    by_cases ht : t' = t
    · subst ht
      rw [modifyType_types, Function.update_self]
      exact hf _
    · rw [modifyType_types, Function.update_of_ne ht]
  directories := rfl
  upcaseTable := rfl

theorem reference (s : ObState P) (o : ℕ) : Quiet s (s.obReferenceObject o) := .modifyHeader s o fun _ => rfl

theorem deferDeletion (s : ObState P) (o : ℕ) : Quiet s (s.obpDeferObjectDeletion o) := by
  have hlink : Quiet s (s.modifyHeader o fun header =>
      { header with handleCountOrNextToFree := pointerAsIsize (s.reaperList.headD 0) }) :=
    .modifyHeader s o fun _ => rfl
  exact ⟨hlink.fixed, hlink.openProcedure, hlink.directories, hlink.upcaseTable⟩

theorem dereference (s : ObState P) (o : ℕ) : Quiet s (s.obDereferenceObject o) := by
  unfold obDereferenceObject
  split
  · exact .refl s
  · rename_i header h
    split
    · exact .refl s
    · dsimp only
      split
      · refine trans (.setHeader h ?_) (.deferDeletion _ o)
        rfl
      · exact .setHeader h rfl

theorem addHandles (s : ObState P) (o : ℕ) (n : ℤ) : Quiet s (s.addHandles o n) := by
  unfold ObState.addHandles
  split
  · exact .refl s
  · rename_i header h
    refine trans (.setHeader h ?_) (.modifyType _ _ fun _ => ?_)
    · rfl
    · rfl

theorem releaseHandle (s : ObState P) (o : ℕ) : Quiet s (s.obpReleaseHandle o) :=
  (Quiet.addHandles s o (-1)).trans (.dereference _ o)

theorem freeCreateInfo (s : ObState P) (o : ℕ) : Quiet s (s.freeCreateInfo o) := .modifyHeader s o fun _ => rfl

theorem assignSecurity (s : ObState P) (o : ℕ) (assigned : Option Se.SecurityDescriptor) :
    Quiet s (s.assignSecurity o assigned) := by
  refine .modifyHeader s o fun header => ?_
  split <;> rfl

theorem hasOpenProcedure (h : Quiet s s') (o : ℕ) : s'.hasOpenProcedure o = s.hasOpenProcedure o := by
  have hfixed := h.fixed o
  unfold ObState.hasOpenProcedure
  cases hs : s.headers o with
  | none =>
    rw [hs] at hfixed
    rw [Option.map_eq_none_iff.1 hfixed]
  | some header =>
    rw [hs] at hfixed
    obtain ⟨header', hs', heq⟩ := Option.map_eq_some_iff.1 hfixed
    rw [hs']
    have htype : header'.typePtr = header.typePtr := congrArg Prod.fst heq
    simp only [htype, h.openProcedure]

theorem isSome (h : Quiet s s') (o : ℕ) : (s'.headers o).isSome = (s.headers o).isSome := by
  rw [← Option.isSome_map, h.fixed, Option.isSome_map]

end Quiet

end ObState

end XenOS.Ob
