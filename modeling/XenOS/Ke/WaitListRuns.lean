import XenOS.General.Run
import XenOS.Ke.WaitLists
import Mathlib.Data.List.Perm.Subperm

/-! Waits, delays and wake-ups over runs. Just the threads that wait have the blocks of their rings
linked, until a delay leaves its timer block behind. -/

namespace XenOS.Ke

open General WaitState List
open Function (update update_self update_of_ne)

namespace WaitState

variable {s s' s'' : WaitState} {b : ℕ × Slot} {o : ObjectId} {t : ℕ}

/-! ### Threads that wait -/

def Waiting (s : WaitState) (t : ℕ) : Prop := (s.threads t).state = .waiting

def waits (s : WaitState) : Set (ℕ × Slot) := {b | s.Waiting b.1 ∧ b.2 ∈ (s.threads b.1).waitBlockList}

/-- The lists hold the blocks of waiting threads, only these have a linked block or a timer, and
threads that left a wait are deferred once. -/
structure Listed (s : WaitState) : Prop where
  links : Links s s.waits
  timers : ∀ t, s.inserted (.threadTimer t) = true → s.Waiting t
  nodup : s.deferred.Nodup
  deferred : ∀ t, t ∈ s.deferred ↔ (s.threads t).state = .deferredReady
  ends : s.hung = false

def Admitted : WaitCall → Prop
  | .multiple _ objects _ => objects.length ≤ maximumWaitObjects
  | _ => True

def typeOf : WaitCall → Slot → WaitType
  | .multiple waitType _ _, .object _ => waitType
  | _, _ => .waitAny

structure ListedWaits (s : WaitState) : Prop extends Listed s where
  key : ∀ t slot, s.Waiting t → slot ∈ (s.threads t).waitBlockList → (s.block (t, slot)).waitKey ≠ statusKernelApc
  called : ∀ t, s.Waiting t → (s.threads t).call ≠ none
  blockType : ∀ t slot call, s.Waiting t → (s.threads t).call = some call → slot ∈ (s.threads t).waitBlockList →
    (s.block (t, slot)).waitType = typeOf call slot
  timer : ∀ t, s.Waiting t → .timer ∈ (s.threads t).waitBlockList → (s.block (t, .timer)).object = .threadTimer t
  again : ∀ t deadline, (s.threads t).state = .deferredReady → (s.threads t).waitStatus = statusKernelApc →
    (s.threads t).call ≠ some (.delay deadline)
  admitted : ∀ t call, (s.threads t).call = some call → Admitted call

structure Removes (s s' : WaitState) : Prop where
  waiting : ∀ t, s.Waiting t → s'.Waiting t ∨ (s'.threads t).state = .deferredReady
  deferred : ∀ t, (s.threads t).state = .deferredReady → (s'.threads t).state = .deferredReady

theorem Removes.of_threads (h : s'.threads = s.threads) : Removes s s' :=
  ⟨fun t ht => .inl (by rwa [Waiting, h]), fun t ht => by rwa [h]⟩

theorem Removes.trans (h : Removes s s') (h' : Removes s' s'') : Removes s s'' where
  waiting t ht := (h.waiting t ht).elim (h'.waiting t) fun hdeferred => .inr (h'.deferred t hdeferred)
  deferred t ht := h'.deferred t (h.deferred t ht)

structure SameLists (s s' : WaitState) : Prop where
  waitList : s'.waitList = s.waitList
  threads : s'.threads = s.threads
  timers : ∀ t, s'.inserted (.threadTimer t) = true → s.inserted (.threadTimer t) = true
  deferred : s'.deferred = s.deferred
  hung : s'.hung = s.hung

theorem SameLists.trans (h : SameLists s s') (h' : SameLists s' s'') : SameLists s s'' where
  waitList := h'.waitList.trans h.waitList
  threads := h'.threads.trans h.threads
  timers t ht := h.timers t (h'.timers t ht)
  deferred := h'.deferred.trans h.deferred
  hung := h'.hung.trans h.hung

theorem waits_congr (h : s'.threads = s.threads) : s'.waits = s.waits := by
  unfold waits Waiting
  rw [h]

theorem ListedWaits.of_same (h : ListedWaits s) (hsame : SameLists s s') : ListedWaits s' where
  links := by
    rw [waits_congr hsame.threads]
    exact h.links.of_same (fun o => congrFun hsame.waitList o) (fun b _ => by rw [block, block, hsame.threads])
      fun b => by rw [block, block, hsame.threads]
  timers t ht := by rw [Waiting, hsame.threads]; exact h.timers t (hsame.timers t ht)
  nodup := by rw [hsame.deferred]; exact h.nodup
  deferred t := by rw [hsame.deferred, hsame.threads]; exact h.deferred t
  ends := by rw [hsame.hung]; exact h.ends
  key t slot := by rw [Waiting, block, hsame.threads]; exact h.key t slot
  called t := by rw [Waiting, hsame.threads]; exact h.called t
  blockType t slot call := by rw [Waiting, block, hsame.threads]; exact h.blockType t slot call
  timer t := by rw [Waiting, block, hsame.threads]; exact h.timer t
  again t deadline := by rw [hsame.threads]; exact h.again t deadline
  admitted t call := by rw [hsame.threads]; exact h.admitted t call

theorem SameLists.setSignal (s : WaitState) (o : ObjectId) (signalState : ℤ) : SameLists s (s.setSignal o signalState) := by
  refine ⟨?_, rfl, fun _ => id, rfl, rfl⟩
  funext o'
  by_cases ho : o' = o
  · subst ho
    simp [WaitState.waitList, WaitState.setSignal, setHeader]
  · simp [WaitState.waitList, WaitState.setSignal, setHeader, ho]

theorem SameLists.satisfy (s : WaitState) (o : ObjectId) : SameLists s (s.satisfy o) := by
  unfold WaitState.satisfy
  split
  · have h := SameLists.setSignal s o ((s.headers o).signalState - 1)
    exact ⟨h.waitList, h.threads, h.timers, h.deferred, h.hung⟩
  · exact ⟨rfl, rfl, fun _ => id, rfl, rfl⟩

theorem SameLists.satisfyAny (s : WaitState) (o : ObjectId) (t : ℕ) : SameLists s ((s.kiWaitSatisfyAny o).acquire o t) := by
  have h := SameLists.satisfy s o
  exact ⟨h.waitList, h.threads, h.timers, h.deferred, h.hung⟩

/-! ### Wake-ups -/

theorem kiUnwaitThread_eq (s : WaitState) (t waitStatus : ℕ) :
    s.kiUnwaitThread t waitStatus =
      let s1 := (s.threads t).waitBlockList.foldl (fun s slot => s.unlinkBlock (t, slot)) s
      { s1 with
        threads := update s1.threads t { s1.threads t with
          waitBlockList := [], waitStatus := waitStatus, state := .deferredReady }
        inserted := update s1.inserted (.threadTimer t) false
        deferred := t :: s1.deferred } := by
  simp [kiUnwaitThread, kiUnlinkThread, setThread]

section
variable (h : ListedWaits s)
include h

theorem ListedWaits.kiUnwaitThread (ht : s.Waiting t) (waitStatus : ℕ)
    (hstatus : waitStatus = statusKernelApc → ∀ deadline, (s.threads t).call ≠ some (.delay deadline)) :
    ListedWaits (s.kiUnwaitThread t waitStatus) ∧ Removes s (s.kiUnwaitThread t waitStatus) ∧
      (∀ o b, b ∈ (s.kiUnwaitThread t waitStatus).waitList o ↔ b ∈ s.waitList o ∧ b.1 ≠ t) ∧
      ∀ t', t' ≠ t → (s.kiUnwaitThread t waitStatus).threads t' = s.threads t' := by
  obtain ⟨hlinks, hrelinks⟩ := h.links.unlinkRing (s.threads t).waitBlockList (t := t)
  rw [kiUnwaitThread_eq]
  generalize (s.threads t).waitBlockList.foldl (fun s slot => s.unlinkBlock (t, slot)) s = s1 at hlinks hrelinks
  dsimp only
  set s' : WaitState := { s1 with
    threads := update s1.threads t { s1.threads t with
      waitBlockList := [], waitStatus := waitStatus, state := .deferredReady }
    inserted := update s1.inserted (.threadTimer t) false
    deferred := t :: s1.deferred } with hs'
  have hself : s'.threads t = { s1.threads t with
      waitBlockList := [], waitStatus := waitStatus, state := .deferredReady } := update_self ..
  have hother (t' : ℕ) (hne : t' ≠ t) : s'.threads t' = s.threads t' :=
    (update_of_ne hne ..).trans (hrelinks.others t' hne)
  have hblock (b : ℕ × Slot) : s'.block b = s1.block b := by
    by_cases hb : b.1 = t
    · rw [block, block, hb, hself]
    · rw [block, block, hother b.1 hb, hrelinks.others b.1 hb]
  have hblock' (b : ℕ × Slot) (hb : b.1 ≠ t) : s'.block b = s.block b := by rw [block, block, hother b.1 hb]
  have hwaiting (t' : ℕ) : s'.Waiting t' ↔ s.Waiting t' ∧ t' ≠ t := by
    by_cases hne : t' = t
    · subst hne
      simp [Waiting, hself]
    · simp [Waiting, hother t' hne, hne]
  have hwaits : s'.waits = s.waits \ {b | b.1 = t ∧ b.2 ∈ (s.threads t).waitBlockList} := by
    ext b
    simp only [waits, Set.mem_ofPred_eq, Set.mem_sdiff, hwaiting]
    by_cases hb : b.1 = t
    · rw [hb]
      tauto
    · rw [hother b.1 hb]
      tauto
  have hnot : t ∉ s.deferred := fun hmem => by
    have hstate := (h.deferred t).1 hmem
    rw [ht] at hstate
    cases hstate
  have hlist : Links s' s'.waits := by
    rw [hwaits]
    exact hlinks.of_same (fun _ => rfl) (fun b _ => by rw [hblock]) fun b => by rw [hblock]
  refine ⟨⟨⟨hlist, fun t' harmed => ?_, ?_, fun t' => ?_, hrelinks.hung.trans h.ends⟩, ?_, ?_, ?_, ?_, ?_, ?_⟩,
    ⟨?_, ?_⟩, fun o b => ?_, hother⟩
  · by_cases hne : t' = t
    · subst hne
      change update s1.inserted (.threadTimer t') false _ = true at harmed
      rw [update_self] at harmed
      cases harmed
    · change update s1.inserted (.threadTimer t) false _ = true at harmed
      rw [update_of_ne (by simpa using hne), hrelinks.inserted] at harmed
      exact (hwaiting t').2 ⟨h.timers t' harmed, hne⟩
  · show (t :: s1.deferred).Nodup
    rw [hrelinks.deferred]
    exact nodup_cons.2 ⟨hnot, h.nodup⟩
  · show t' ∈ t :: s1.deferred ↔ _
    rw [hrelinks.deferred, mem_cons]
    by_cases hne : t' = t
    · subst hne
      simp [hself]
    · rw [hother t' hne, h.deferred]
      simp [hne]
  · intro t' slot hw
    obtain ⟨hw, hne⟩ := (hwaiting t').1 hw
    rw [hother t' hne, hblock' (t', slot) hne]
    exact h.key t' slot hw
  · intro t' hw
    obtain ⟨hw, hne⟩ := (hwaiting t').1 hw
    rw [hother t' hne]
    exact h.called t' hw
  · intro t' slot call hw
    obtain ⟨hw, hne⟩ := (hwaiting t').1 hw
    rw [hother t' hne, hblock' (t', slot) hne]
    exact h.blockType t' slot call hw
  · intro t' hw
    obtain ⟨hw, hne⟩ := (hwaiting t').1 hw
    rw [hother t' hne, hblock' (t', .timer) hne]
    exact h.timer t' hw
  · intro t' deadline
    by_cases hne : t' = t
    · subst hne
      rw [hself]
      dsimp only
      rw [hrelinks.call]
      exact fun _ hapc => hstatus hapc deadline
    · rw [hother t' hne]
      exact h.again t' deadline
  · intro t' call
    by_cases hne : t' = t
    · subst hne
      rw [hself]
      dsimp only
      rw [hrelinks.call]
      exact h.admitted t' call
    · rw [hother t' hne]
      exact h.admitted t' call
  · intro t' hw
    by_cases hne : t' = t
    · subst hne
      exact .inr (by rw [hself])
    · exact .inl ((hwaiting t').2 ⟨hw, hne⟩)
  · intro t' hdeferred
    by_cases hne : t' = t
    · subst hne
      rw [hself]
    · rwa [hother t' hne]
  · rw [hlist.mem, h.links.mem, hwaits, Set.mem_sdiff, Set.mem_ofPred_eq]
    constructor
    · rintro ⟨⟨hb, hout⟩, ho⟩
      have hne : b.1 ≠ t := fun hb1 => hout ⟨hb1, hb1 ▸ hb.2⟩
      rw [hblock' b hne] at ho
      exact ⟨⟨hb, ho⟩, hne⟩
    · rintro ⟨⟨hb, ho⟩, hne⟩
      rw [hblock' b hne]
      exact ⟨⟨hb, fun hout => hne hout.1⟩, ho⟩

theorem ListedWaits.wakeFirst (hb : b ∈ s.waitList o) :
    ListedWaits (s.wakeFirst o b) ∧ Removes s (s.wakeFirst o b) ∧
      (∀ b', b' ∈ (s.wakeFirst o b).waitList o ↔ b' ∈ s.waitList o ∧ b'.1 ≠ b.1) ∧
      ∀ t', t' ≠ b.1 → (s.wakeFirst o b).threads t' = s.threads t' := by
  obtain ⟨hwait, hring⟩ : b ∈ s.waits := ((h.links.mem o b).1 hb).1
  have hkey := h.key b.1 b.2 hwait hring
  have hany := fun deadline hcall => h.blockType b.1 b.2 (.delay deadline) hwait hcall hring
  unfold WaitState.wakeFirst
  dsimp only
  cases htype : (s.block b).waitType with
  | waitAny =>
    dsimp only
    have hsame := SameLists.satisfyAny s o b.1
    have hwait' : ((s.kiWaitSatisfyAny o).acquire o b.1).Waiting b.1 := by rwa [Waiting, hsame.threads]
    obtain ⟨hlisted, hremoves, hlist, hothers⟩ := (h.of_same hsame).kiUnwaitThread hwait' (s.block b).waitKey
      fun hapc => absurd hapc hkey
    refine ⟨hlisted, (Removes.of_threads hsame.threads).trans hremoves, fun b' => ?_, fun t' hne => ?_⟩
    · rw [hlist, hsame.waitList]
    · rw [hothers t' hne, hsame.threads]
  | waitAll =>
    dsimp only
    split
    · rename_i htimeout
      obtain ⟨hlisted, hremoves, hlist, hothers⟩ := h.kiUnwaitThread hwait (s.block b).waitKey fun hapc => absurd hapc hkey
      exact ⟨hlisted, hremoves, hlist o, hothers⟩
    · obtain ⟨hlisted, hremoves, hlist, hothers⟩ := h.kiUnwaitThread hwait statusKernelApc fun _ deadline hcall => by
        have htype' := hany deadline hcall
        rw [htype] at htype'
        cases htype'
      exact ⟨hlisted, hremoves, hlist o, hothers⟩

theorem ListedWaits.waitTestLoop {fuel : ℕ} (hfuel : (s.waitList o).length ≤ fuel) :
    ListedWaits (waitTestLoop o fuel s) ∧ Removes s (waitTestLoop o fuel s) := by
  induction fuel generalizing s with
  | zero =>
    have hnil : (s.headers o).waitListHead = [] := eq_nil_of_length_eq_zero (Nat.le_zero.1 hfuel)
    unfold waitTestLoop
    rw [hnil]
    dsimp only
    rw [ite_self]
    exact ⟨h, .of_threads rfl⟩
  | succ fuel ih =>
    unfold waitTestLoop
    split
    · cases hlist : (s.headers o).waitListHead with
      | nil => exact ⟨h, .of_threads rfl⟩
      | cons b rest =>
        dsimp only
        have hlist' : s.waitList o = b :: rest := hlist
        have hb : b ∈ s.waitList o := hlist' ▸ mem_cons_self
        obtain ⟨hlisted, hremoves, hmem, -⟩ := h.wakeFirst hb
        have hsub : (s.wakeFirst o b).waitList o ⊆ rest := fun b' hb' => by
          obtain ⟨hin, hne⟩ := (hmem b').1 hb'
          rw [hlist'] at hin
          rcases mem_cons.1 hin with rfl | hin
          · exact absurd rfl hne
          · exact hin
        have hshort := (Nodup.subperm (hlisted.links.nodup o) hsub).length_le
        rw [hlist', length_cons] at hfuel
        obtain ⟨hlisted', hremoves'⟩ := ih hlisted (by omega)
        exact ⟨hlisted', hremoves.trans hremoves'⟩
    · exact ⟨h, .of_threads rfl⟩

theorem ListedWaits.kiWaitTest (o : ObjectId) :
    ListedWaits (s.kiWaitTest o) ∧ Removes s (s.kiWaitTest o) :=
  h.waitTestLoop le_rfl

end

/-! ### Going to sleep -/

section
variable (h : ListedWaits s)
include h

theorem ListedWaits.setScheduled (ht : (s.threads t).state = .scheduled) {thread : KThread}
    (hstate : thread.state = .scheduled) (hblocks : ∀ slot, (thread.waitBlock slot).linked = false)
    (hadmitted : ∀ call, thread.call = some call → Admitted call) : ListedWaits (s.setThread t thread) := by
  have hself : (s.setThread t thread).threads t = thread := update_self ..
  have hother (t' : ℕ) (hne : t' ≠ t) : (s.setThread t thread).threads t' = s.threads t' := update_of_ne hne ..
  have hstates (t' : ℕ) : ((s.setThread t thread).threads t').state = (s.threads t').state := by
    by_cases hne : t' = t
    · rw [hne, hself, hstate, ht]
    · rw [hother t' hne]
  have hnot : ¬ s.Waiting t := by simp [Waiting, ht]
  have hwaiting (t' : ℕ) (hw : (s.setThread t thread).Waiting t') : s.Waiting t' ∧ t' ≠ t := by
    rw [Waiting, hstates] at hw
    exact ⟨hw, fun hne => hnot (hne ▸ hw)⟩
  have hblock (b : ℕ × Slot) (hb : b.1 ≠ t) : (s.setThread t thread).block b = s.block b := by
    rw [block, block, hother b.1 hb]
  have hwaits : (s.setThread t thread).waits = s.waits := by
    ext b
    by_cases hb : b.1 = t
    · simp [waits, Waiting, hb, hself, hstate, ht]
    · simp [waits, Waiting, hother b.1 hb]
  refine ⟨⟨?_, fun t' harmed => ?_, h.nodup, fun t' => ?_, h.ends⟩, ?_, ?_, ?_, ?_, ?_, ?_⟩
  · rw [hwaits]
    refine h.links.of_same (fun _ => rfl) (fun b hb => ?_) fun b => ?_
    · rw [hblock b fun hb1 => hnot (hb1 ▸ hb.1)]
    · by_cases hb : b.1 = t
      · have hout : b ∉ s.waits := fun hmem => hnot (hb ▸ hmem.1)
        rw [block, hb, hself, hblocks, Bool.eq_false_iff.2 fun hlinked => hout ((h.links.linked b).1 hlinked)]
      · rw [hblock b hb]
  · rw [Waiting, hstates]
    exact h.timers t' harmed
  · rw [hstates]
    exact h.deferred t'
  · intro t' slot hw
    obtain ⟨hw, hne⟩ := hwaiting t' hw
    rw [hother t' hne, hblock (t', slot) hne]
    exact h.key t' slot hw
  · intro t' hw
    obtain ⟨hw, hne⟩ := hwaiting t' hw
    rw [hother t' hne]
    exact h.called t' hw
  · intro t' slot call hw
    obtain ⟨hw, hne⟩ := hwaiting t' hw
    rw [hother t' hne, hblock (t', slot) hne]
    exact h.blockType t' slot call hw
  · intro t' hw
    obtain ⟨hw, hne⟩ := hwaiting t' hw
    rw [hother t' hne, hblock (t', .timer) hne]
    exact h.timer t' hw
  · intro t' deadline hdeferred
    rw [hstates] at hdeferred
    by_cases hne : t' = t
    · rw [hne, ht] at hdeferred
      cases hdeferred
    · rw [hother t' hne]
      exact h.again t' deadline hdeferred
  · intro t' call
    by_cases hne : t' = t
    · rw [hne, hself]
      exact hadmitted call
    · rw [hother t' hne]
      exact h.admitted t' call

theorem ListedWaits.unlinked (ht : (s.threads t).state = .scheduled) (slot : Slot) :
    ((s.threads t).waitBlock slot).linked = false := by
  have hnot : ¬ s.Waiting t := by simp [Waiting, ht]
  exact Bool.eq_false_iff.2 fun hlinked => hnot ((h.links.linked (t, slot)).1 hlinked).1

theorem ListedWaits.setBlock (ht : (s.threads t).state = .scheduled) (slot : Slot) (block : KWaitBlock)
    (hblock : block.linked = false) : ListedWaits (s.setBlock (t, slot) block) := by
  refine h.setScheduled ht ht (fun slot' => ?_) (h.admitted t)
  dsimp only
  by_cases hslot : slot' = slot
  · subst hslot
    rw [update_self, hblock]
  · rw [update_of_ne hslot]
    exact h.unlinked ht slot'

theorem ListedWaits.returnFrom (ht : (s.threads t).state = .scheduled) : ListedWaits (s.returnFrom t) :=
  h.setScheduled ht rfl (h.unlinked ht) fun _ hcall => by cases hcall

end

structure Linking (s s' : WaitState) (t : ℕ) (slots ring : List Slot) : Prop where
  links : Links s' (s.waits ∪ {b | b.1 = t ∧ b.2 ∈ ring})
  others : ∀ t', t' ≠ t → s'.threads t' = s.threads t'
  waitKey : ∀ slot, (s'.block (t, slot)).waitKey = (s.block (t, slot)).waitKey
  waitType : ∀ slot, (s'.block (t, slot)).waitType = (s.block (t, slot)).waitType
  object : ∀ slot, (s'.block (t, slot)).object = (s.block (t, slot)).object
  slots : (s'.threads t).waitBlockList = slots
  timers : ∀ t', t' ≠ t → s'.inserted (.threadTimer t') = s.inserted (.threadTimer t')
  deferred : s'.deferred = s.deferred
  hung : s'.hung = s.hung

namespace Linking

variable {slots ring : List Slot}

theorem refl (h : ListedWaits s) (t : ℕ) : Linking s s t (s.threads t).waitBlockList [] := by
  refine ⟨?_, fun _ _ => rfl, fun _ => rfl, fun _ => rfl, fun _ => rfl, rfl, fun _ _ => rfl, rfl, rfl⟩
  simpa using h.links

section
variable (h : Linking s s' t slots ring)
include h

theorem linkRing (ht : (s.threads t).state = .scheduled) {ring' : List Slot}
    (hring : ring'.Nodup) (hout : ∀ slot ∈ ring', slot ∉ ring) :
    Linking s (ring'.foldl (fun s slot => s.linkBlock (t, slot)) s') t slots (ring' ++ ring) := by
  obtain ⟨hlinks, hrelinks⟩ := h.links.linkRing (t := t) hring fun slot hslot hmem => by
    rcases hmem with hmem | hmem
    · simp [waits, Waiting, ht] at hmem
    · exact hout slot hslot hmem.2
  refine ⟨?_, fun t' hne => (hrelinks.others t' hne).trans (h.others t' hne),
    fun slot => (hrelinks.waitKey slot).trans (h.waitKey slot), fun slot => (hrelinks.waitType slot).trans (h.waitType slot),
    fun slot => (hrelinks.object slot).trans (h.object slot), hrelinks.waitBlockList.trans h.slots, fun t' hne => by rw [hrelinks.inserted, h.timers t' hne], hrelinks.deferred.trans h.deferred,
    hrelinks.hung.trans h.hung⟩
  have hset : s.waits ∪ {b | b.1 = t ∧ b.2 ∈ ring' ++ ring} =
      s.waits ∪ {b | b.1 = t ∧ b.2 ∈ ring} ∪ {b | b.1 = t ∧ b.2 ∈ ring'} := by
    ext b
    simp only [Set.mem_union, Set.mem_ofPred_eq, mem_append]
    tauto
  rw [hset]
  exact hlinks

theorem setRing (slots' : List Slot) :
    Linking s (s'.setThread t { s'.threads t with waitBlockList := slots' }) t slots' ring := by
  have hblock (b : ℕ × Slot) : (s'.setThread t { s'.threads t with waitBlockList := slots' }).block b = s'.block b := by
    by_cases hb : b.1 = t
    · simp [block, setThread, hb]
    · simp [block, setThread, hb]
  refine ⟨h.links.of_same (fun _ => rfl) (fun b _ => by rw [hblock]) fun b => by rw [hblock],
    fun t' hne => (update_of_ne hne ..).trans (h.others t' hne), fun slot => by rw [hblock, h.waitKey],
    fun slot => by rw [hblock, h.waitType], fun slot => by rw [hblock, h.object], by simp [setThread], h.timers, h.deferred, h.hung⟩

theorem arm :
    Linking s { s' with inserted := update s'.inserted (.threadTimer t) true } t slots ring := by
  refine ⟨h.links.of_same (fun _ => rfl) (fun _ _ => rfl) fun _ => rfl, h.others, h.waitKey, h.waitType, h.object, h.slots, fun t' hne => ?_,
    h.deferred, h.hung⟩
  exact (update_of_ne (by simpa using hne) ..).trans (h.timers t' hne)

theorem blockOn (hlisted : ListedWaits s) (ht : (s.threads t).state = .scheduled)
    (hring : ∀ slot, slot ∈ slots ↔ slot ∈ ring)
    (hkey : ∀ slot ∈ ring, (s.block (t, slot)).waitKey ≠ statusKernelApc) {call : WaitCall}
    (htype : ∀ slot ∈ ring, (s.block (t, slot)).waitType = typeOf call slot)
    (htimer : .timer ∈ ring → (s.block (t, .timer)).object = .threadTimer t) (hadmitted : Admitted call) :
    ListedWaits (s'.blockOn t call) ∧ ∀ t', t' ≠ t → (s'.blockOn t call).threads t' = s.threads t' := by
  have hself : (s'.blockOn t call).threads t = { s'.threads t with
      waitStatus := statusSuccess, state := .waiting, call := some call } := update_self ..
  have hother (t' : ℕ) (hne : t' ≠ t) : (s'.blockOn t call).threads t' = s.threads t' :=
    (update_of_ne hne ..).trans (h.others t' hne)
  have hblock (b : ℕ × Slot) : (s'.blockOn t call).block b = s'.block b := by
    by_cases hb : b.1 = t
    · rw [block, block, hb, hself]
    · rw [block, block, hother b.1 hb, h.others b.1 hb]
  have hblock' (b : ℕ × Slot) (hb : b.1 ≠ t) : (s'.blockOn t call).block b = s.block b := by
    rw [block, block, hother b.1 hb]
  have hnot : ¬ s.Waiting t := by simp [Waiting, ht]
  have hwaits : (s'.blockOn t call).waits = s.waits ∪ {b | b.1 = t ∧ b.2 ∈ ring} := by
    ext b
    simp only [Set.mem_union, Set.mem_ofPred_eq]
    by_cases hb : b.1 = t
    · have hout : b ∉ s.waits := fun hmem => hnot (hb ▸ hmem.1)
      simp [waits, Waiting, hb, hself, h.slots, hring, ht]
    · simp [waits, Waiting, hother b.1 hb, hb]
  refine ⟨⟨⟨?_, fun t' harmed => ?_, ?_, fun t' => ?_, h.hung.trans hlisted.ends⟩, ?_, ?_, ?_, ?_, ?_, ?_⟩, hother⟩
  · rw [hwaits]
    exact h.links.of_same (fun _ => rfl) (fun b _ => by rw [hblock]) fun b => by rw [hblock]
  · by_cases hne : t' = t
    · rw [Waiting, hne, hself]
    · rw [Waiting, hother t' hne]
      exact hlisted.timers t' ((h.timers t' hne).symm.trans harmed)
  · show s'.deferred.Nodup
    rw [h.deferred]
    exact hlisted.nodup
  · show t' ∈ s'.deferred ↔ _
    rw [h.deferred, hlisted.deferred]
    by_cases hne : t' = t
    · rw [hne, hself, ht]
      simp
    · rw [hother t' hne]
  · intro t' slot hw
    by_cases hne : t' = t
    · subst hne
      rw [hself, hblock, h.waitKey]
      exact fun hslot => hkey slot ((hring slot).1 (h.slots ▸ hslot))
    · rw [Waiting, hother t' hne] at hw
      rw [hother t' hne, hblock' (t', slot) hne]
      exact hlisted.key t' slot hw
  · intro t' hw
    by_cases hne : t' = t
    · rw [hne, hself]
      exact Option.some_ne_none call
    · rw [Waiting, hother t' hne] at hw
      rw [hother t' hne]
      exact hlisted.called t' hw
  · intro t' slot call' hw
    by_cases hne : t' = t
    · subst hne
      rw [hself, hblock, h.waitType]
      rintro ⟨⟩ hslot
      exact htype slot ((hring slot).1 (h.slots ▸ hslot))
    · rw [Waiting, hother t' hne] at hw
      rw [hother t' hne, hblock' (t', slot) hne]
      exact hlisted.blockType t' slot call' hw
  · intro t' hw
    by_cases hne : t' = t
    · subst hne
      rw [hself, hblock, h.object]
      exact fun hslot => htimer ((hring .timer).1 (h.slots ▸ hslot))
    · rw [Waiting, hother t' hne] at hw
      rw [hother t' hne, hblock' (t', .timer) hne]
      exact hlisted.timer t' hw
  · intro t' deadline hdeferred
    by_cases hne : t' = t
    · rw [hne, hself] at hdeferred
      cases hdeferred
    · rw [hother t' hne] at hdeferred ⊢
      exact hlisted.again t' deadline hdeferred
  · intro t' call'
    by_cases hne : t' = t
    · rw [hne, hself]
      rintro ⟨⟩
      exact hadmitted
    · rw [hother t' hne]
      exact hlisted.admitted t' call'

end

end Linking

/-! ### Rounds of a wait -/

theorem SameLists.fold {α : Type} {f : WaitState → α → WaitState} (hf : ∀ s a, SameLists s (f s a)) (as : List α)
    (s : WaitState) : SameLists s (as.foldl f s) := by
  induction as generalizing s with
  | nil => exact ⟨rfl, rfl, fun _ => id, rfl, rfl⟩
  | cons a as ih => exact (hf s a).trans (ih _)

theorem SameLists.acquire (s : WaitState) (o : ObjectId) (t : ℕ) : SameLists s (s.acquire o t) :=
  ⟨rfl, rfl, fun _ => id, rfl, rfl⟩

def KeepsOthers (s s' : WaitState) (t : ℕ) : Prop := ListedWaits s' ∧ ∀ t', t' ≠ t → s'.threads t' = s.threads t'

theorem keepsOthers_returnFrom (h : ListedWaits s) (ht : (s.threads t).state = .scheduled) : KeepsOthers s (s.returnFrom t) t :=
  ⟨h.returnFrom ht, fun _ hne => update_of_ne hne ..⟩

theorem KeepsOthers.after (h : KeepsOthers s' s'' t) (hsame : ∀ t', t' ≠ t → s'.threads t' = s.threads t') :
    KeepsOthers s s'' t :=
  ⟨h.1, fun t' hne => (h.2 t' hne).trans (hsame t' hne)⟩

theorem setBlock_others (s : WaitState) (t : ℕ) (slot : Slot) (block : KWaitBlock) (t' : ℕ) (hne : t' ≠ t) :
    (s.setBlock (t, slot) block).threads t' = s.threads t' := update_of_ne hne ..

theorem setBlock_state (s : WaitState) (t : ℕ) (slot : Slot) (block : KWaitBlock) :
    ((s.setBlock (t, slot) block).threads t).state = (s.threads t).state := by
  simp [setBlock, setThread]

theorem ListedWaits.waitForSingle (h : ListedWaits s) (ht : (s.threads t).state = .scheduled) (object : ℕ)
    (deadline : Option ℕ) : KeepsOthers s (s.waitForSingle t object deadline).2 t := by
  unfold WaitState.waitForSingle
  split
  · exact (keepsOthers_returnFrom (h.of_same (.acquire s _ t)) ht).after fun _ _ => rfl
  have hlinked := h.unlinked ht (.object 0)
  set block0 : KWaitBlock := { s.block (t, .object 0) with object := .object object, waitKey := 0, waitType := .waitAny } with hblock0
  have h0 : ListedWaits (s.setBlock (t, .object 0) block0) := h.setBlock ht _ _ hlinked
  have ht0 : ((s.setBlock (t, .object 0) block0).threads t).state = .scheduled := (setBlock_state ..).trans ht
  cases deadline with
  | none =>
    dsimp only
    have hlinking := ((Linking.refl h0 t).setRing [.object 0]).linkRing ht0 (nodup_singleton (Slot.object 0)) (by simp)
    refine KeepsOthers.after (hlinking.blockOn h0 ht0 (fun slot => by simp) (fun slot hslot => ?_) (fun slot hslot => ?_)
      (by simp) trivial) fun t' hne => setBlock_others _ _ _ _ _ hne
    all_goals
      rw [append_nil, mem_singleton] at hslot
      rw [hslot, block_setBlock, if_pos rfl, hblock0]
    · exact Nat.zero_ne_add_one _
    · rfl
  | some deadline =>
    dsimp only
    split
    · exact (keepsOthers_returnFrom h0 ht0).after fun t' hne => setBlock_others _ _ _ _ _ hne
    · set timer : KWaitBlock := { timerBlock t statusTimeout with
        linked := ((s.setBlock (t, .object 0) block0).block (t, .timer)).linked } with htimer
      have h1 := h0.setBlock ht0 .timer timer (h0.unlinked ht0 .timer)
      have ht1 := (setBlock_state (s.setBlock (t, .object 0) block0) t .timer timer).trans ht0
      have hlinking := ((((Linking.refl h1 t).linkRing ht1 (nodup_singleton Slot.timer) (by simp)).arm.setRing
        [.object 0, .timer]).linkRing ht1 (nodup_singleton (Slot.object 0)) (by simp))
      refine KeepsOthers.after (hlinking.blockOn h1 ht1 (fun slot => by simp) (fun slot hslot => ?_) (fun slot hslot => ?_)
        (fun _ => by simp [block_setBlock, htimer, timerBlock]) trivial) fun t' hne => ?_
      · simp only [append_nil, singleton_append, mem_cons, not_mem_nil, or_false] at hslot
        rcases hslot with rfl | rfl
        · simp [block_setBlock, hblock0, statusKernelApc]
        · simp [block_setBlock, htimer, timerBlock, statusKernelApc, statusTimeout]
      · simp only [append_nil, singleton_append, mem_cons, not_mem_nil, or_false] at hslot
        rcases hslot with rfl | rfl
        · simp [block_setBlock, hblock0, typeOf]
        · simp [block_setBlock, htimer, timerBlock, typeOf]
      · rw [setBlock_others _ _ _ _ _ hne, setBlock_others _ _ _ _ _ hne]

theorem nodup_objectSlots (objects : List ℕ) : (objectSlots objects).Nodup :=
  nodup_range.map fun _ _ h => by cases h; rfl

theorem timer_notMem_objectSlots (objects : List ℕ) : Slot.timer ∉ objectSlots objects := by
  simp [objectSlots]

variable {objects : List ℕ}

theorem block_setBlocks (s : WaitState) (t : ℕ) (waitType : WaitType) {i : ℕ} (hi : i < objects.length) :
    (s.setBlocks t waitType objects).block (t, .object i) =
      { object := .object objects[i], waitKey := i, waitType := waitType } := by
  simp [block, setBlocks, setThread, hi]

section
variable (h : ListedWaits s)
include h

theorem ListedWaits.setBlocks (ht : (s.threads t).state = .scheduled) (waitType : WaitType)
    (objects : List ℕ) : KeepsOthers s (s.setBlocks t waitType objects) t := by
  refine ⟨h.setScheduled ht ht (fun slot => ?_) (h.admitted t), fun _ hne => update_of_ne hne ..⟩
  have hunlinked := h.unlinked ht slot
  dsimp only
  cases slot with
  | timer => exact hunlinked
  | object i =>
    dsimp only
    split
    · rfl
    · exact hunlinked

theorem ListedWaits.blockOnMultiple (ht : (s.threads t).state = .scheduled) (waitType : WaitType)
    (hcount : objects.length ≤ maximumWaitObjects) (deadline : Option ℕ) :
    KeepsOthers s (s.blockOnMultiple t waitType objects deadline).2 t := by
  obtain ⟨h0, hothers⟩ := h.setBlocks ht waitType objects
  have ht0 : ((s.setBlocks t waitType objects).threads t).state = .scheduled := by simpa [WaitState.setBlocks, setThread]
  have hkey (slot : Slot) (hslot : slot ∈ objectSlots objects) :
      ((s.setBlocks t waitType objects).block (t, slot)).waitKey ≠ statusKernelApc := by
    obtain ⟨i, hi, rfl⟩ := mem_map.1 hslot
    rw [mem_range] at hi
    rw [block_setBlocks s t waitType hi]
    have hbound : i < 64 := hi.trans_le hcount
    show i ≠ 256
    omega
  have htype (deadline : Option ℕ) (slot : Slot) (hslot : slot ∈ objectSlots objects) :
      ((s.setBlocks t waitType objects).block (t, slot)).waitType = typeOf (.multiple waitType objects deadline) slot := by
    obtain ⟨i, hi, rfl⟩ := mem_map.1 hslot
    rw [block_setBlocks s t waitType (mem_range.1 hi)]
    rfl
  unfold WaitState.blockOnMultiple
  cases deadline with
  | none =>
    have hlinking := ((Linking.refl h0 t).setRing (objectSlots objects)).linkRing ht0 (nodup_objectSlots objects) (by simp)
    rw [append_nil] at hlinking
    exact KeepsOthers.after (hlinking.blockOn h0 ht0 (fun _ => Iff.rfl) hkey (htype none)
      (fun hmem => absurd hmem (timer_notMem_objectSlots objects)) hcount) hothers
  | some deadline =>
    dsimp only
    split
    · exact (keepsOthers_returnFrom h0 ht0).after hothers
    · have h1 := h0.setBlock ht0 .timer (timerBlock t statusTimeout) rfl
      have ht1 := (setBlock_state (s.setBlocks t waitType objects) t .timer (timerBlock t statusTimeout)).trans ht0
      have hlinking := ((((Linking.refl h1 t).linkRing ht1 (nodup_singleton Slot.timer) (by simp)).arm.setRing
        (objectSlots objects ++ [.timer])).linkRing ht1 (nodup_objectSlots objects) fun slot hslot hmem => by
          simp only [append_nil, mem_singleton] at hmem
          rw [hmem] at hslot
          exact timer_notMem_objectSlots objects hslot)
      rw [append_nil] at hlinking
      refine KeepsOthers.after (hlinking.blockOn h1 ht1 (fun _ => Iff.rfl) (fun slot hslot => ?_) (fun slot hslot => ?_)
        (fun _ => by simp [block_setBlock, timerBlock]) hcount) fun t' hne => (setBlock_others _ _ _ _ _ hne).trans (hothers t' hne)
      all_goals
        rw [block_setBlock]
        rcases mem_append.1 hslot with hslot | hslot
      · rw [if_neg fun heq => timer_notMem_objectSlots objects (by cases heq; exact hslot)]
        exact hkey slot hslot
      · rw [mem_singleton.1 hslot, if_pos rfl]
        exact (by decide : statusTimeout ≠ statusKernelApc)
      · rw [if_neg fun heq => timer_notMem_objectSlots objects (by cases heq; exact hslot)]
        exact htype (some deadline) slot hslot
      · rw [mem_singleton.1 hslot, if_pos rfl]
        rfl

theorem ListedWaits.waitForMultiple (ht : (s.threads t).state = .scheduled) (waitType : WaitType)
    (hcount : objects.length ≤ maximumWaitObjects) (deadline : Option ℕ) :
    KeepsOthers s (s.waitForMultiple t waitType objects deadline).2 t := by
  have hsame {s' : WaitState} (hs' : SameLists s s') : KeepsOthers s (s'.returnFrom t) t :=
    (keepsOthers_returnFrom (h.of_same hs') (by rwa [hs'.threads])).after fun _ _ => by rw [hs'.threads]
  unfold WaitState.waitForMultiple
  cases waitType with
  | waitAny =>
    dsimp only
    split
    · exact hsame (.satisfyAny s _ t)
    · exact h.blockOnMultiple ht .waitAny hcount deadline
  | waitAll =>
    dsimp only
    split
    · refine hsame ((SameLists.fold (f := fun s object => s.kiWaitSatisfyObject (.object object))
        (fun s object => .satisfy s _) objects s).trans ?_)
      exact .fold (f := fun s object => s.acquire (.object object) t) (fun s object => .acquire s _ t) objects.dedup _
    · exact h.blockOnMultiple ht .waitAll hcount deadline

theorem ListedWaits.delay (ht : (s.threads t).state = .scheduled) {deadline : ℕ}
    (hahead : s.interruptTime < deadline) : KeepsOthers s (s.delay t deadline).2 t := by
  unfold WaitState.delay
  dsimp only
  split
  · rename_i hlate
    exact absurd hahead (Nat.not_lt.2 hlate)
  · set timer : KWaitBlock := { timerBlock t statusSuccess with linked := (s.block (t, .timer)).linked } with htimer
    have h0 := h.setBlock ht .timer timer (h.unlinked ht .timer)
    have ht0 := (setBlock_state s t .timer timer).trans ht
    have hlinking := (((Linking.refl h0 t).setRing [.timer]).linkRing ht0 (nodup_singleton Slot.timer) (by simp)).arm
    refine KeepsOthers.after (hlinking.blockOn h0 ht0 (fun slot => by simp) (fun slot hslot => ?_) (fun slot hslot => ?_)
      (fun _ => by simp [block_setBlock, htimer, timerBlock]) trivial) fun t' hne => setBlock_others _ _ _ _ _ hne
    all_goals
      rw [append_nil, mem_singleton] at hslot
      rw [hslot, block_setBlock, if_pos rfl, htimer]
    · exact Nat.zero_ne_add_one _
    · rfl

theorem ListedWaits.waitLoop (ht : (s.threads t).state = .scheduled) {call : WaitCall}
    (hadmitted : Admitted call) (hahead : ∀ deadline, call = .delay deadline → s.interruptTime < deadline) :
    KeepsOthers s (s.waitLoop t call).2 t := by
  cases call with
  | single object deadline => exact h.waitForSingle ht object deadline
  | multiple waitType objects deadline => exact h.waitForMultiple ht waitType hadmitted deadline
  | delay deadline => exact h.delay ht (hahead deadline rfl)

end

/-! ### Calls -/

def Keeps (s s' : WaitState) : Prop :=
  ListedWaits s' ∧ ∀ t, s.Waiting t → s'.Waiting t ∨ (s'.threads t).state = .deferredReady

theorem KeepsOthers.keeps (h : KeepsOthers s s' t) (ht : ¬ s.Waiting t) : Keeps s s' := by
  refine ⟨h.1, fun t' hw => ?_⟩
  have hne : t' ≠ t := fun hne => ht (hne ▸ hw)
  exact .inl (by rwa [Waiting, h.2 t' hne])

theorem ListedWaits.keeps_of_same (h : ListedWaits s) (hsame : SameLists s s') : Keeps s s' :=
  ⟨h.of_same hsame, (Removes.of_threads hsame.threads).waiting⟩

theorem ListedWaits.keeps_kiWaitTest (h : ListedWaits s) (hsame : SameLists s s') (o : ObjectId) :
    Keeps s (s'.kiWaitTest o) := by
  obtain ⟨hlisted, hremoves⟩ := (h.of_same hsame).kiWaitTest o
  exact ⟨hlisted, ((Removes.of_threads hsame.threads).trans hremoves).waiting⟩

theorem Keeps.same (h : Keeps s s') (hsame : SameLists s' s'') : Keeps s s'' :=
  ⟨h.1.of_same hsame, fun t ht => by
    rw [Waiting, hsame.threads]
    exact h.2 t ht⟩

theorem SameLists.of_fields (hheaders : s'.headers = s.headers) (hthreads : s'.threads = s.threads)
    (htimers : ∀ t, s'.inserted (.threadTimer t) = true → s.inserted (.threadTimer t) = true)
    (hdeferred : s'.deferred = s.deferred) (hhung : s'.hung = s.hung) : SameLists s s' :=
  ⟨funext fun o => congrArg DispatcherHeader.waitListHead (congrFun hheaders o), hthreads, htimers, hdeferred, hhung⟩

theorem SameLists.later (s : WaitState) (late : ℕ) : SameLists s { s with interruptTime := s.interruptTime + late } :=
  .of_fields rfl rfl (fun _ => id) rfl rfl

theorem SameLists.signalObject (s : WaitState) (object : ℕ) : SameLists s (s.signalObject object) :=
  (SameLists.setSignal s (.object object) 1).trans (.of_fields rfl rfl (fun _ => id) rfl rfl)

theorem SameLists.setInserted (s : WaitState) (o : ObjectId) (value : Bool)
    (htimer : value = true → ∀ t, o ≠ .threadTimer t) :
    SameLists s { s with inserted := update s.inserted o value } := by
  refine .of_fields rfl rfl (fun t harmed => ?_) rfl rfl
  change update s.inserted o value (.threadTimer t) = true at harmed
  by_cases ho : ObjectId.threadTimer t = o
  · subst ho
    rw [update_self] at harmed
    exact absurd rfl (htimer harmed t)
  · rwa [update_of_ne ho] at harmed

theorem ListedWaits.keeps_signalTimer (h : ListedWaits s) (hsame : SameLists s s') (o : ObjectId) :
    Keeps s (s'.signalTimer o) := by
  cases o with
  | threadTimer t => exact h.keeps_kiWaitTest (hsame.trans (.setSignal s' _ 1)) _
  | object object =>
    have htest := h.keeps_kiWaitTest (hsame.trans (.signalObject s' object)) (.object object)
    unfold signalTimer
    dsimp only
    split
    · exact htest.same ((SameLists.setSignal _ _ 0).trans (.setInserted _ _ true fun _ _ => by simp))
    · exact htest

theorem ListedWaits.resumeThread (h : ListedWaits s) (ht : (s.threads t).state = .deferredReady) :
    Keeps s (s.resumeThread t) := by
  have hnot : ¬ s.Waiting t := by simp [Waiting, ht]
  set s1 : WaitState := { s with deferred := s.deferred.erase t }.setThread t { s.threads t with state := .scheduled } with hs1
  have hself : s1.threads t = { s.threads t with state := .scheduled } := update_self ..
  have hother (t' : ℕ) (hne : t' ≠ t) : s1.threads t' = s.threads t' := update_of_ne hne ..
  have hblock (b : ℕ × Slot) : s1.block b = s.block b := by
    by_cases hb : b.1 = t
    · rw [block, block, hb, hself]
    · rw [block, block, hother b.1 hb]
  have hwaiting (t' : ℕ) : s1.Waiting t' ↔ s.Waiting t' := by
    by_cases hne : t' = t
    · simp [Waiting, hne, hself, ht]
    · rw [Waiting, Waiting, hother t' hne]
  have hring (t' : ℕ) : (s1.threads t').waitBlockList = (s.threads t').waitBlockList := by
    by_cases hne : t' = t
    · rw [hne, hself]
    · rw [hother t' hne]
  have hcall (t' : ℕ) : (s1.threads t').call = (s.threads t').call := by
    by_cases hne : t' = t
    · rw [hne, hself]
    · rw [hother t' hne]
  have hwaits : s1.waits = s.waits := by
    ext b
    simp only [waits, Set.mem_ofPred_eq, hwaiting, hring]
  have hlisted : ListedWaits s1 := by
    refine ⟨⟨?_, fun t' harmed => (hwaiting t').2 (h.timers t' harmed), h.nodup.erase t, fun t' => ?_, h.ends⟩, ?_, ?_, ?_, ?_, ?_,
      ?_⟩
    · rw [hwaits]
      exact h.links.of_same (fun _ => rfl) (fun b _ => by rw [hblock]) fun b => by rw [hblock]
    · show t' ∈ s.deferred.erase t ↔ _
      rw [h.nodup.mem_erase_iff, h.deferred]
      by_cases hne : t' = t
      · simp [hne, hself]
      · simp [hne, hother t' hne]
    · intro t' slot
      rw [hwaiting, hring, hblock]
      exact h.key t' slot
    · intro t'
      rw [hwaiting, hcall]
      exact h.called t'
    · intro t' slot call
      rw [hwaiting, hring, hblock, hcall]
      exact h.blockType t' slot call
    · intro t'
      rw [hwaiting, hring, hblock]
      exact h.timer t'
    · intro t' deadline hdeferred
      by_cases hne : t' = t
      · rw [hne, hself] at hdeferred
        cases hdeferred
      · rw [hother t' hne] at hdeferred ⊢
        exact h.again t' deadline hdeferred
    · intro t' call
      rw [hcall]
      exact h.admitted t' call
  have hs1t : (s1.threads t).state = .scheduled := by rw [hself]
  unfold WaitState.resumeThread
  dsimp only
  rw [← hs1]
  split
  · rename_i hapc
    cases hthread : (s.threads t).call with
    | none =>
      dsimp only
      exact KeepsOthers.keeps ⟨hlisted, hother⟩ hnot
    | some call =>
      dsimp only
      have hround := hlisted.waitLoop hs1t (h.admitted t call hthread) fun deadline hdelay =>
        absurd (hthread.trans (congrArg some hdelay)) (h.again t deadline ht hapc)
      exact (hround.after hother).keeps hnot
  · exact ((keepsOthers_returnFrom hlisted hs1t).after hother).keeps hnot

theorem ListedWaits.step (h : ListedWaits s) (op : WaitOp) : Keeps s (s.step op) := by
  have hrefl : Keeps s s := h.keeps_of_same (.of_fields rfl rfl (fun _ => id) rfl rfl)
  cases op with
  | waitSingle t object timeout late =>
    unfold WaitState.step keWaitForSingleObject
    dsimp only
    split
    · rename_i ht
      split
      · exact hrefl
      · split
        · exact hrefl
        have hround := (h.of_same (.later s late)).waitForSingle ht object (timeout.map s.computeDeadlineInterrupt)
        exact KeepsOthers.keeps (t := t) hround (by simp [Waiting, ht])
    · exact hrefl
  | waitMultiple t waitType objects waitBlockArray timeout late =>
    unfold WaitState.step keWaitForMultipleObjects
    dsimp only
    split
    · rename_i ht
      split
      · exact hrefl
      · rename_i hcount
        split
        · exact hrefl
        · split
          · exact hrefl
          · split
            · exact hrefl
            have hround := (h.of_same (.later s late)).waitForMultiple ht waitType (Nat.not_lt.1 fun hlt => hcount (.inr hlt))
              (timeout.map s.computeDeadlineInterrupt)
            exact KeepsOthers.keeps (t := t) hround (by simp [Waiting, ht])
    · exact hrefl
  | resume t =>
    unfold WaitState.step
    dsimp only
    split
    · exact h.resumeThread ‹_›
    · exact hrefl
  | setEvent object =>
    unfold WaitState.step
    dsimp only
    split
    · exact h.keeps_kiWaitTest (.signalObject s object) _
    · exact hrefl
  | pulseEvent object =>
    unfold WaitState.step
    dsimp only
    split
    · exact (h.keeps_kiWaitTest (.signalObject s object) _).same (.setSignal _ _ 0)
    · exact hrefl
  | resetEvent object =>
    unfold WaitState.step
    dsimp only
    split
    · exact h.keeps_of_same (.setSignal s _ 0)
    · exact hrefl
  | releaseSemaphore object adjustment =>
    unfold WaitState.step keReleaseSemaphore
    dsimp only
    split
    · split
      · exact hrefl
      · have hraise : SameLists s { s.setSignal (.object object) (addLong (s.headers (.object object)).signalState adjustment.toInt) with
            released := update s.released object (s.released object + adjustment.toInt) } :=
          (SameLists.setSignal s _ _).trans (.of_fields rfl rfl (fun _ => id) rfl rfl)
        dsimp only
        split
        · exact h.keeps_kiWaitTest hraise _
        · exact h.keeps_of_same hraise
    · exact hrefl
  | releaseMutex t object =>
    unfold WaitState.step keReleaseMutex
    dsimp only
    split
    · have hraise := SameLists.setSignal s (.object object) (addLong (s.headers (.object object)).signalState 1)
      split
      · refine h.keeps_kiWaitTest (hraise.trans ?_) _
        exact .of_fields rfl rfl (fun _ => id) rfl rfl
      · exact h.keeps_of_same hraise
    · exact hrefl
  | setTimer object dueTime period =>
    unfold WaitState.step keSetTimerEx
    dsimp only
    split
    · have hset : SameLists s { s with
          inserted := update s.inserted (.object object) false
          period := update s.period object period } :=
        (SameLists.setInserted s (.object object) false (by simp)).trans (.of_fields rfl rfl (fun _ => id) rfl rfl)
      split_ifs
      · exact h.keeps_of_same hset
      · exact h.keeps_signalTimer hset _
      · exact h.keeps_of_same (hset.trans (.setInserted _ _ true fun _ _ => by simp))
    · exact hrefl
  | cancelTimer object =>
    unfold WaitState.step
    dsimp only
    split
    · exact h.keeps_of_same (.setInserted s _ false (by simp))
    · exact hrefl
  | expireTimer o =>
    unfold WaitState.step
    dsimp only
    split
    · exact h.keeps_signalTimer (.setInserted s o false (by simp)) o
    · exact hrefl
  | advance time => exact h.keeps_of_same (.of_fields rfl rfl (fun _ => id) rfl rfl)

/-! ### Runs with delays -/

inductive ListOp where
  | call (op : WaitOp)
  | delay (t : ℕ) (interval : ℤ) (late : ℕ)

/-- The call computes the deadline of `i64Min`. -/
def stops (s : WaitState) : ListOp → Bool
  | .call (.waitSingle t _ timeout _) => (s.threads t).state = .scheduled ∧ timeout = some i64Min
  | .call (.waitMultiple t _ objects waitBlockArray timeout _) => (s.threads t).state = .scheduled ∧
    ¬ (objects = [] ∨ maximumWaitObjects < objects.length) ∧ ¬ (threadWaitObjects < objects.length ∧ !waitBlockArray) ∧
    timeout = some i64Min
  | .call (.setTimer object dueTime _) => s.isTimer object ∧ dueTime = i64Min
  | .call _ => false
  | .delay t interval _ => (s.threads t).state = .scheduled ∧ interval = i64Min

def listStep (s : WaitState) (op : ListOp) : WaitState :=
  let after := match op with
    | .call op => s.step op
    | .delay t interval late =>
      if (s.threads t).state = .scheduled then (s.keDelayExecutionThread t interval late).2 else s
  if s.stops op then { after with hung := true } else after

/-- The lists are as they should be after a call, and a thread that it took out of a wait is on the
deferred-ready list once. -/
def KeepsLists (s : WaitState) (op : ListOp) : Prop :=
  Listed (s.listStep op) ∧ ∀ t, s.Waiting t → ¬ (s.listStep op).Waiting t → (s.listStep op).deferred.count t = 1

/-- No timeout stops the kernel. A delay of a thread that runs is none at all, or its end is still to
come when the loop looks at the time. -/
def DelaysAhead (s : WaitState) (op : ListOp) : Prop :=
  s.stops op = false ∧ ∀ t interval late, op = .delay t interval late → (s.threads t).state = .scheduled →
    interval = 0 ∨ s.interruptTime + late < s.computeDeadlineInterrupt interval

theorem Keeps.keepsLists {op : ListOp} (h : Keeps s (s.listStep op)) : KeepsLists s op := by
  refine ⟨h.1.toListed, fun t hw hnot => count_eq_one_of_mem h.1.nodup ((h.1.deferred t).2 ?_)⟩
  exact (h.2 t hw).resolve_left hnot

theorem ListedWaits.listStep (h : ListedWaits s) {op : ListOp} (hahead : DelaysAhead s op) : Keeps s (s.listStep op) := by
  obtain ⟨hgoes, hahead⟩ := hahead
  unfold WaitState.listStep
  dsimp only
  rw [hgoes, if_neg Bool.false_ne_true]
  cases op with
  | call op => exact h.step op
  | delay t interval late =>
    have hrefl : Keeps s s := h.keeps_of_same (.of_fields rfl rfl (fun _ => id) rfl rfl)
    unfold keDelayExecutionThread
    dsimp only
    split
    · rename_i ht
      split
      · exact hrefl
      · rename_i hinterval
        have hlate := (hahead t interval late rfl ht).resolve_left hinterval
        rw [if_neg fun hmin => by simp [stops, ht, hmin] at hgoes]
        have hround := (h.of_same (.later s late)).delay ht hlate
        exact KeepsOthers.keeps (t := t) hround (by simp [Waiting, ht])
    · exact hrefl

theorem not_listed_delay (s : WaitState) {t deadline : ℕ} (hlate : deadline ≤ s.interruptTime) :
    ¬ Listed (s.delay t deadline).2 := by
  intro h
  unfold delay at h
  dsimp only at h
  split at h
  swap
  · rename_i hahead
    exact hahead hlate
  set s1 : WaitState := (s.setBlock (t, .timer) { timerBlock t statusSuccess with
    linked := (s.block (t, .timer)).linked }) with hs1
  set s2 : WaitState := s1.setThread t { s1.threads t with waitBlockList := [.timer] } with hs2
  have hobject : (s2.block (t, .timer)).object = .threadTimer t := by
    have hblock : s2.block (t, .timer) = s1.block (t, .timer) := by simp [block, hs2, setThread]
    rw [hblock, hs1, block_setBlock, if_pos rfl]
    rfl
  have hmem : (t, Slot.timer) ∈ (s2.linkBlock (t, .timer)).waitList (.threadTimer t) := by
    rw [waitList_linkBlock, if_pos hobject.symm]
    exact mem_append_right _ mem_cons_self
  have hwaiting : ((s2.linkBlock (t, .timer)).returnFrom t).Waiting t := ((h.links.mem (.threadTimer t) (t, .timer)).1 hmem).1.1
  simp [Waiting, returnFrom, setThread] at hwaiting

theorem listedWaits_start (type : ℕ → KObjectType) (signalState limit : ℕ → ℤ) (interruptTime : ℕ) (baseTime : ℤ) :
    ListedWaits (start type signalState limit interruptTime baseTime) := by
  have hblocks (b : ℕ × Slot) : ((start type signalState limit interruptTime baseTime).block b).linked = false := rfl
  refine ⟨⟨⟨fun o b => ?_, fun o => ?_, fun b => ?_⟩, fun _ => ?_, nodup_nil, fun t => ?_, rfl⟩,
    ?_, ?_, ?_, ?_, ?_, ?_⟩
  · cases o <;> simp [waitList, start, waits, Waiting]
  · cases o <;> exact nodup_nil
  · rw [hblocks]
    simp [waits, Waiting, start]
  · simp [start]
  · simp [start]
  all_goals
    intros
    simp_all [Waiting, start]

/-- Wait lists hold exactly the waiting threads, as long as no timeout stops the kernel and no delay has run
out before it starts. -/
theorem keepsLists_iff (type : ℕ → KObjectType) (signalState limit : ℕ → ℤ) (interruptTime : ℕ) (baseTime : ℤ)
    (ops : List ListOp) :
    EveryStep listStep KeepsLists (start type signalState limit interruptTime baseTime) ops ↔
      EveryStep listStep DelaysAhead (start type signalState limit interruptTime baseTime) ops := by
  refine everyStep_iff (I := ListedWaits) (G := fun _ _ => True) ?_ ?_ ?_ ?_ (everyStep_of_forall fun _ _ => trivial)
  · exact fun s op h _ hahead => (h.listStep hahead).1
  · exact fun s op h _ hahead => (h.listStep hahead).keepsLists
  · intro s op h _ hlate hkeeps
    have hlisted := hkeeps.1
    unfold listStep at hlisted
    dsimp only at hlisted
    cases hstops : s.stops op with
    | true =>
      rw [hstops, if_pos rfl] at hlisted
      exact Bool.noConfusion hlisted.ends
    | false =>
      rw [DelaysAhead, and_iff_right hstops] at hlate
      push Not at hlate
      obtain ⟨t, interval, late, rfl, ht, hinterval, hlate⟩ := hlate
      have hmin : interval ≠ i64Min := fun hmin => by simp [stops, ht, hmin] at hstops
      unfold keDelayExecutionThread at hlisted
      rw [hstops, if_neg Bool.false_ne_true] at hlisted
      dsimp only at hlisted
      rw [if_pos ht, if_neg hinterval, if_neg hmin] at hlisted
      exact not_listed_delay { s with interruptTime := s.interruptTime + late } hlate hlisted
  · exact listedWaits_start type signalState limit interruptTime baseTime

/-- Thread 3 sleeps until a time that has passed: its block stays in the list of its timer. -/
theorem delay_leaves_block :
    ¬ EveryStep listStep KeepsLists (start (fun _ => .eventNotification) (fun _ => 0) (fun _ => 0) 100 50) [.delay 3 20 0] := by
  rintro ⟨hkeeps, -⟩
  exact not_listed_delay (start (fun _ => .eventNotification) (fun _ => 0) (fun _ => 0) 100 50) (Nat.zero_le _) hkeeps.1

end WaitState

end XenOS.Ke
