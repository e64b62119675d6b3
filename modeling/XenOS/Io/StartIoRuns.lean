import XenOS.General.Run
import XenOS.Io.StartIo
import Mathlib.Data.List.Nodup

/-! Calls on one device object, interleaved. The queue of a created device cannot hold an entry, and
an entry lies over the stack pointer of its IRP, so requests are serialised just as long as the
queue is not used. -/

namespace XenOS.Io

open General Function StartIoState List

def Pc.Carries (irp : ℕ) : Pc → Prop
  | .setCancelRoutine i _ | .insert i _ | .startIo i | .checkCancel i | .callCancelRoutine i => i = irp
  | .clearCurrent _ | .remove _ => False

def Pc.Switches : Pc → Prop
  | .startIo _ | .clearCurrent _ | .remove _ | .checkCancel _ | .callCancelRoutine _ => True
  | .setCancelRoutine _ _ | .insert _ _ => False

namespace StartIoState

def cancelledIrps (s : StartIoState) : List ℕ := s.cancelled.map Prod.fst

def Carried (threads : ℕ → Option Pc) (irp : ℕ) : Prop := ∃ thread pc, threads thread = some pc ∧ pc.Carries irp

def Switching (threads : ℕ → Option Pc) : Prop := ∃ thread pc, threads thread = some pc ∧ pc.Switches

structure Serialised (pointer : ℕ → ℕ) (s : StartIoState) : Prop where
  running : s.faulted = false
  single : s.active.length ≤ 1
  once : ∀ irp, s.started.count irp + s.cancelledIrps.count irp ≤ 1
  kept : ∀ irp ∈ s.given, irp ∈ s.started ∨ irp ∈ s.cancelledIrps ∨ irp ∈ s.queue.map Prod.fst ∨
    Carried s.threads irp
  locked : ∀ c ∈ s.cancelled, c.2 = true
  current : s.currentIrp ≠ none → s.busy = true
  busy : s.busy = true → s.currentIrp ≠ none ∨ Switching s.threads
  unqueued : ∀ irp ∈ s.completed, irp ∈ s.cancelledIrps → irp ∉ s.queue.map Prod.fst
  pointers : s.pointer = pointer

structure Serialises (pointer : ℕ → ℕ) (s : StartIoState) (a : Action) : Prop where
  serialised : Serialised pointer (s.step a)
  ordered : ∀ thread cancelable, a = .advance thread → s.threads thread = some (.remove cancelable) →
    ∀ pc irp, (s.step a).threads thread = some pc → pc.Carries irp → (s.queue.map Prod.fst).head? = some irp

/-- A thread makes one call at a time, an IRP is given once, completed when started or cancelled,
and not cancelled once gone. -/
def Admits (s : StartIoState) : Action → Prop
  | .ioStartPacket thread irp _ _ => s.threads thread = none ∧ irp ∉ s.given
  | .ioStartNextPacket thread _ => s.threads thread = none
  | .advance thread => s.threads thread ≠ none
  | .ioCancelIrp irp => irp ∉ s.completed
  | .clearCancelRoutine _ => True
  | .complete irp => (irp ∈ s.started ∨ irp ∈ s.cancelledIrps) ∧ irp ∉ s.completed

/-- The queue is not busy at an insertion, which keeps the pointer under the entry; nothing is
removed; no IRP is both cancelled and started. -/
def Spares (s : StartIoState) : Action → Prop
  | .advance thread =>
    match s.threads thread with
    | some (.insert irp key) =>
      s.busy = false ∧ s.pointer irp / 2 ^ 32 % 2 ^ 8 = 0 ∧ ∀ k ∈ key, s.pointer irp % 2 ^ 32 = k.toNat
    | some (.remove _) => False
    | some (.startIo irp) => irp ∉ s.cancelledIrps
    | _ => True
  | .ioCancelIrp irp => ¬ (s.cancelRoutine irp = true ∧ irp ∈ s.started)
  | _ => True

def Starting (threads : ℕ → Option Pc) : Prop :=
  ∃ thread irp, threads thread = some (.startIo irp) ∧ ∀ t i, threads t = some (.startIo i) → t = thread

def NoStart (threads : ℕ → Option Pc) : Prop := ∀ thread irp, threads thread ≠ some (.startIo irp)

def Phase (s : StartIoState) : Prop :=
  (s.busy = false ∧ NoStart s.threads ∧ s.started = []) ∨ (s.busy = true ∧ Starting s.threads ∧ s.started = []) ∨
    (s.busy = true ∧ NoStart s.threads ∧ ∃ irp, s.started = [irp])

structure Sound (pointer : ℕ → ℕ) (s : StartIoState) : Prop where
  serialised : Serialised pointer s
  links : s.flink .head = .null ∧ s.blink .head = .null
  empty : s.queue = []
  phase : s.Phase
  active : ∀ irp ∈ s.active, irp ∈ s.started
  free : s.started = [] → s.currentIrp = none
  nothingRemoved : ∀ thread irp, s.threads thread ≠ some (.checkCancel irp) ∧ s.threads thread ≠ some (.callCancelRoutine irp)
  carried : ∀ thread pc irp, s.threads thread = some pc → pc.Carries irp → irp ∈ s.given
  alone : ∀ thread thread' pc pc' irp, s.threads thread = some pc → s.threads thread' = some pc' → pc.Carries irp →
    pc'.Carries irp → thread = thread'
  routine : ∀ irp, s.cancelRoutine irp = true → irp ∈ s.given ∧ irp ∉ s.cancelledIrps ∧
    ∀ thread key, s.threads thread ≠ some (.setCancelRoutine irp key)
  unset : ∀ thread irp key, s.threads thread = some (.setCancelRoutine irp key) → irp ∉ s.cancelledIrps
  known : ∀ irp ∈ s.cancelledIrps, irp ∈ s.given

section Threads
variable {threads : ℕ → Option Pc} {thread irp : ℕ} {new : Option Pc} {pc : Pc}

theorem carried_update_self (h : pc.Carries irp) : Carried (update threads thread (some pc)) irp :=
  ⟨thread, pc, update_self _ _ _, h⟩

theorem Carried.update (h : Carried threads irp)
    (hkeep : ∀ pc, threads thread = some pc → pc.Carries irp → ∃ pc', new = some pc' ∧ pc'.Carries irp) :
    Carried (update threads thread new) irp := by
  obtain ⟨t, pc, ht, hcarries⟩ := h
  by_cases heq : t = thread
  · obtain ⟨pc', hnew, hcarries'⟩ := hkeep pc (heq ▸ ht) hcarries
    rw [hnew]
    exact carried_update_self hcarries'
  · exact ⟨t, pc, (update_of_ne heq _ _).trans ht, hcarries⟩

theorem switching_update_self (h : pc.Switches) : Switching (update threads thread (some pc)) :=
  ⟨thread, pc, update_self _ _ _, h⟩

theorem Switching.update (h : Switching threads)
    (hkeep : ∀ pc, threads thread = some pc → pc.Switches → ∃ pc', new = some pc' ∧ pc'.Switches) :
    Switching (update threads thread new) := by
  obtain ⟨t, pc, ht, hswitches⟩ := h
  by_cases heq : t = thread
  · obtain ⟨pc', hnew, hswitches'⟩ := hkeep pc (heq ▸ ht) hswitches
    rw [hnew]
    exact switching_update_self hswitches'
  · exact ⟨t, pc, (update_of_ne heq _ _).trans ht, hswitches⟩

theorem NoStart.update (h : NoStart threads) (hnew : ∀ irp, new ≠ some (.startIo irp)) :
    NoStart (update threads thread new) := by
  intro t irp
  by_cases heq : t = thread
  · rw [heq, update_self]
    exact hnew irp
  · rw [update_of_ne heq]
    exact h t irp

theorem NoStart.starting (h : NoStart threads) : Starting (Function.update threads thread (some (.startIo irp))) := by
  refine ⟨thread, irp, Function.update_self _ _ _, fun t i ht => ?_⟩
  by_contra hne
  rw [Function.update_of_ne hne] at ht
  exact h t i ht

theorem Starting.noStart (h : Starting threads) (hthread : threads thread = some (.startIo irp)) :
    NoStart (update threads thread none) := by
  obtain ⟨first, i, -, honly⟩ := h
  have hfirst := honly thread irp hthread
  intro t i ht
  by_cases heq : t = thread
  · rw [heq, update_self] at ht
    cases ht
  · rw [update_of_ne heq] at ht
    exact heq ((honly t i ht).trans hfirst.symm)

theorem Starting.update (h : Starting threads) (hthread : ∀ irp, threads thread ≠ some (.startIo irp))
    (hnew : ∀ irp, new ≠ some (.startIo irp)) : Starting (update threads thread new) := by
  obtain ⟨first, i, hfirst, honly⟩ := h
  have hne : first ≠ thread := by
    rintro rfl
    exact hthread i hfirst
  refine ⟨first, i, (update_of_ne hne _ _).trans hfirst, fun t i ht => ?_⟩
  by_cases heq : t = thread
  · rw [heq, update_self] at ht
    exact absurd ht (hnew i)
  · rw [update_of_ne heq] at ht
    exact honly t i ht

end Threads

theorem Phase.update {s s' : StartIoState} {thread : ℕ} {new : Option Pc} (h : Phase s)
    (hthread : ∀ irp, s.threads thread ≠ some (.startIo irp)) (hnew : ∀ irp, new ≠ some (.startIo irp))
    (hthreads : s'.threads = update s.threads thread new) (hbusy : s'.busy = s.busy)
    (hstarted : s'.started = s.started) : Phase s' := by
  unfold Phase
  rw [hthreads, hbusy, hstarted]
  rcases h with ⟨hfree, hno, hnone⟩ | ⟨hbusy, hstarting, hnone⟩ | ⟨hbusy, hno, hone⟩
  · exact .inl ⟨hfree, hno.update hnew, hnone⟩
  · exact .inr (.inl ⟨hbusy, hstarting.update hthread hnew, hnone⟩)
  · exact .inr (.inr ⟨hbusy, hno.update hnew, hone⟩)

variable {pointer : ℕ → ℕ} {s : StartIoState}

theorem sound_ioCreateDevice (pointer : ℕ → ℕ) : Sound pointer (ioCreateDevice pointer) := by
  refine ⟨⟨rfl, Nat.zero_le 1, ?_, ?_, ?_, ?_, ?_, ?_, rfl⟩, ⟨rfl, rfl⟩, rfl, .inl ⟨rfl, ?_, rfl⟩, ?_, fun _ => rfl, ?_, ?_, ?_,
    ?_, ?_, ?_⟩
  all_goals simp [ioCreateDevice, cancelledIrps, NoStart]

variable {key : Option (BitVec 32)}

theorem Sound.ioStartPacket (h : Sound pointer s) {thread irp : ℕ} {cancelFunction : Bool}
    (hadmits : Admits s (.ioStartPacket thread irp key cancelFunction)) :
    Sound pointer (s.step (.ioStartPacket thread irp key cancelFunction)) := by
  obtain ⟨hfree, hnew⟩ := hadmits
  have hnewRoutine := h.routine irp
  have hnewKnown := h.known irp
  obtain ⟨⟨hrunning, hsingle, honce, hkept, hlocked, hcurrent, hbusy, hunqueued, hpointers⟩, hlinks, hempty, hphase, hactive,
    hfreeStart, hremoved, hcarried, halone, hroutine, hunset, hknown⟩ := h
  have hpc : ∀ irp', (some (if cancelFunction then .setCancelRoutine irp key else .insert irp key) : Option Pc) ≠
      some (.startIo irp') := by
    cases cancelFunction <;> simp
  unfold step
  refine ⟨⟨hrunning, hsingle, honce, ?_, hlocked, hcurrent, ?_, hunqueued, hpointers⟩, hlinks, hempty,
    hphase.update (by simp [hfree]) hpc rfl rfl rfl, hactive, hfreeStart, ?_, ?_, ?_, ?_, ?_, ?_⟩
  · intro irp' hirp'
    rcases mem_cons.1 hirp' with rfl | hold
    · refine .inr (.inr (.inr (carried_update_self ?_)))
      cases cancelFunction <;> rfl
    · exact (hkept irp' hold).imp_right (.imp_right (.imp_right fun hheld => hheld.update (by simp [hfree])))
  · exact fun h => (hbusy h).imp_right fun hswitching => hswitching.update (by simp [hfree])
  all_goals grind [update_apply, Pc.Carries, cancelledIrps]

variable {cancelable : Bool}

theorem Sound.ioStartNextPacket (h : Sound pointer s) {thread : ℕ}
    (hfree : Admits s (.ioStartNextPacket thread cancelable)) :
    Sound pointer (s.step (.ioStartNextPacket thread cancelable)) := by
  change s.threads thread = none at hfree
  obtain ⟨⟨hrunning, hsingle, honce, hkept, hlocked, hcurrent, hbusy, hunqueued, hpointers⟩, hlinks, hempty, hphase, hactive,
    hfreeStart, hremoved, hcarried, halone, hroutine, hunset, hknown⟩ := h
  unfold step
  refine ⟨⟨hrunning, hsingle, honce, ?_, hlocked, hcurrent, ?_, hunqueued, hpointers⟩, hlinks, hempty,
    hphase.update (by simp [hfree]) (by simp) rfl rfl rfl, hactive, hfreeStart, ?_, ?_, ?_, ?_, ?_, hknown⟩
  · intro irp hirp
    exact (hkept irp hirp).imp_right (.imp_right (.imp_right fun hheld => hheld.update (by simp [hfree])))
  · exact fun h => (hbusy h).imp_right fun hswitching => hswitching.update (by simp [hfree])
  all_goals grind [update_apply, Pc.Carries, cancelledIrps]

theorem Sound.setCancelRoutine (h : Sound pointer s) {thread irp : ℕ}
    (hpc : s.threads thread = some (.setCancelRoutine irp key)) :
    Sound pointer (s.step (.advance thread)) := by
  obtain ⟨⟨hrunning, hsingle, honce, hkept, hlocked, hcurrent, hbusy, hunqueued, hpointers⟩, hlinks, hempty, hphase, hactive,
    hfreeStart, hremoved, hcarried, halone, hroutine, hunset, hknown⟩ := h
  have hgiven : irp ∈ s.given := hcarried thread _ irp hpc rfl
  have hsole : ∀ t pc, s.threads t = some pc → pc.Carries irp → thread = t :=
    fun t pc ht hcarries => halone thread t _ pc irp hpc ht rfl hcarries
  unfold step
  dsimp only
  rw [hpc]
  dsimp only [advance]
  refine ⟨⟨hrunning, hsingle, honce, ?_, hlocked, hcurrent, ?_, hunqueued, hpointers⟩, hlinks, hempty,
    hphase.update (by simp [hpc]) (by simp) rfl rfl rfl, hactive, hfreeStart, ?_, ?_, ?_, ?_, ?_, hknown⟩
  · intro irp' hirp
    refine (hkept irp' hirp).imp_right (.imp_right (.imp_right fun hheld => hheld.update ?_))
    rintro pc hold hcarries
    rw [hpc] at hold
    cases hold
    exact ⟨_, rfl, hcarries⟩
  · refine fun h => (hbusy h).imp_right fun hswitching => hswitching.update ?_
    rintro pc hold hswitches
    rw [hpc] at hold
    cases hold
    cases hswitches
  all_goals grind [update_apply, Pc.Carries, cancelledIrps]

theorem withInserted_iff {p : ℕ} : withInserted p false = p ↔ p / 2 ^ 32 % 2 ^ 8 = 0 := by
  simp only [withInserted, Bool.toNat_false]
  omega

theorem withInserted_withSortKey_iff {p : ℕ} {key : BitVec 32} :
    withInserted (withSortKey p key) false = p ↔ p / 2 ^ 32 % 2 ^ 8 = 0 ∧ p % 2 ^ 32 = key.toNat := by
  have hkey := key.isLt
  simp only [withInserted, withSortKey, Bool.toNat_false]
  omega

theorem advance_insert {irp : ℕ} (hfree : s.busy = false)
    (hzero : s.pointer irp / 2 ^ 32 % 2 ^ 8 = 0) (hkey : ∀ k ∈ key, s.pointer irp % 2 ^ 32 = k.toNat) :
    s.advance (.insert irp key) = some (some (.startIo irp), { s with busy := true }) := by
  have hsame : ∀ p, p = s.pointer irp → update s.pointer irp p = s.pointer := by
    rintro p rfl
    exact update_eq_self irp s.pointer
  cases key with
  | none =>
    simp only [advance, keInsertDeviceQueue, hfree, setInserted, Option.bind_eq_bind]
    rw [hsame _ (withInserted_iff.2 hzero)]
    rfl
  | some k =>
    simp only [advance, keInsertByKeyDeviceQueue, hfree, setInserted, setSortKey, Option.bind_eq_bind,
      update_self, update_idem]
    rw [hsame _ (withInserted_withSortKey_iff.2 ⟨hzero, hkey k rfl⟩)]
    rfl

section
variable (h : Sound pointer s)
include h

theorem Sound.insert {thread irp : ℕ} (hpc : s.threads thread = some (.insert irp key))
    (hspares : Spares s (.advance thread)) :
    Sound pointer (s.step (.advance thread)) := by
  obtain ⟨⟨hrunning, hsingle, honce, hkept, hlocked, hcurrent, hbusy, hunqueued, hpointers⟩, hlinks, hempty, hphase, hactive,
    hfreeStart, hremoved, hcarried, halone, hroutine, hunset, hknown⟩ := h
  have hgiven : irp ∈ s.given := hcarried thread _ irp hpc rfl
  have hsole : ∀ t pc, s.threads t = some pc → pc.Carries irp → thread = t :=
    fun t pc ht hcarries => halone thread t _ pc irp hpc ht rfl hcarries
  unfold Spares at hspares
  dsimp only at hspares
  rw [hpc] at hspares
  obtain ⟨hfree, hzero, hkey⟩ := hspares
  obtain ⟨hno, hnone⟩ : NoStart s.threads ∧ s.started = [] := by
    rcases hphase with ⟨-, hno, hnone⟩ | ⟨hbusy, -⟩ | ⟨hbusy, -⟩
    · exact ⟨hno, hnone⟩
    · rw [hfree] at hbusy
      cases hbusy
    · rw [hfree] at hbusy
      cases hbusy
  unfold step
  dsimp only
  rw [hpc]
  dsimp only
  rw [advance_insert hfree hzero hkey]
  refine ⟨⟨hrunning, hsingle, honce, ?_, hlocked, fun _ => rfl, fun _ => .inr (switching_update_self trivial), hunqueued,
    hpointers⟩, hlinks, hempty, .inr (.inl ⟨rfl, hno.starting, hnone⟩), hactive, hfreeStart, ?_, ?_, ?_, ?_, ?_, hknown⟩
  · intro irp' hirp
    refine (hkept irp' hirp).imp_right (.imp_right (.imp_right fun hheld => hheld.update ?_))
    rintro pc hold hcarries
    rw [hpc] at hold
    cases hold
    exact ⟨_, rfl, hcarries⟩
  all_goals grind [update_apply, Pc.Carries, cancelledIrps]

theorem Sound.startIo {thread irp : ℕ} (hpc : s.threads thread = some (.startIo irp))
    (hspares : Spares s (.advance thread)) : Sound pointer (s.step (.advance thread)) := by
  obtain ⟨⟨hrunning, hsingle, honce, hkept, hlocked, hcurrent, hbusy, hunqueued, hpointers⟩, hlinks, hempty, hphase, hactive,
    hfreeStart, hremoved, hcarried, halone, hroutine, hunset, hknown⟩ := h
  unfold Spares at hspares
  dsimp only at hspares
  rw [hpc] at hspares
  obtain ⟨hdevice, hstarting, hnone⟩ : s.busy = true ∧ Starting s.threads ∧ s.started = [] := by
    rcases hphase with ⟨-, hno, -⟩ | hstarting | ⟨-, hno, -⟩
    · exact absurd hpc (hno thread irp)
    · exact hstarting
    · exact absurd hpc (hno thread irp)
  have hidle : s.active = [] := by
    rw [eq_nil_iff_forall_not_mem]
    intro i hi
    have := hactive i hi
    rw [hnone] at this
    cases this
  unfold step
  dsimp only
  rw [hpc]
  dsimp only [advance]
  refine ⟨⟨hrunning, ?_, ?_, ?_, hlocked, fun _ => hdevice, fun _ => .inl (by simp), hunqueued, hpointers⟩, hlinks, hempty,
    .inr (.inr ⟨hdevice, hstarting.noStart hpc, irp, by rw [hnone]⟩), ?_, ?_, ?_, ?_, ?_, ?_, ?_, hknown⟩
  · simp [hidle]
  · intro i
    change (irp :: s.started).count i + s.cancelledIrps.count i ≤ 1
    by_cases hi : i = irp
    · rw [hi, hnone, count_eq_zero.2 hspares]
      simp
    · rw [count_cons_of_ne (Ne.symm hi)]
      exact honce i
  · intro irp' hirp
    by_cases hi : irp' = irp
    · exact .inl (by simp [hi])
    · rcases hkept irp' hirp with hold | hcancelled | hqueued | hheld
      · exact .inl (mem_cons_of_mem _ hold)
      · exact .inr (.inl hcancelled)
      · exact .inr (.inr (.inl hqueued))
      · refine .inr (.inr (.inr (hheld.update ?_)))
        rintro pc hold hcarries
        rw [hpc] at hold
        cases hold
        exact absurd hcarries (Ne.symm hi)
  all_goals grind [update_apply, Pc.Carries, cancelledIrps]

theorem Sound.clearCurrent {thread : ℕ} (hpc : s.threads thread = some (.clearCurrent cancelable)) :
    Sound pointer (s.step (.advance thread)) := by
  obtain ⟨⟨hrunning, hsingle, honce, hkept, hlocked, hcurrent, hbusy, hunqueued, hpointers⟩, hlinks, hempty, hphase, hactive,
    hfreeStart, hremoved, hcarried, halone, hroutine, hunset, hknown⟩ := h
  unfold step
  dsimp only
  rw [hpc]
  dsimp only [advance]
  refine ⟨⟨hrunning, Nat.le_trans (length_filter_le _ _) hsingle, honce, ?_, hlocked, fun h => absurd rfl h,
    fun _ => .inr (switching_update_self trivial), hunqueued, hpointers⟩, hlinks, hempty,
    hphase.update (by simp [hpc]) (by simp) rfl rfl rfl, fun irp hirp => hactive irp (mem_filter.1 hirp).1,
    fun _ => rfl, ?_, ?_, ?_, ?_, ?_, hknown⟩
  · intro irp' hirp
    refine (hkept irp' hirp).imp_right (.imp_right (.imp_right fun hheld => hheld.update ?_))
    rintro pc hold hcarries
    rw [hpc] at hold
    cases hold
    cases hcarries
  all_goals grind [update_apply, Pc.Carries, cancelledIrps]

theorem Sound.ioCancelIrp {irp : ℕ} (hspares : Spares s (.ioCancelIrp irp)) :
    Sound pointer (s.step (.ioCancelIrp irp)) := by
  obtain ⟨⟨hrunning, hsingle, honce, hkept, hlocked, hcurrent, hbusy, hunqueued, hpointers⟩, hlinks, hempty, hphase, hactive,
    hfreeStart, hremoved, hcarried, halone, hroutine, hunset, hknown⟩ := h
  unfold step StartIoState.ioCancelIrp
  by_cases hset : s.cancelRoutine irp = true
  · have hnot : irp ∉ s.started := fun hstarted => hspares ⟨hset, hstarted⟩
    obtain ⟨hgiven, hfirst, hthreads⟩ := hroutine irp hset
    simp only [hset, if_true]
    refine ⟨⟨hrunning, hsingle, ?_, ?_, ?_, hcurrent, hbusy, fun _ _ _ => by simp [hempty], hpointers⟩, hlinks, hempty, hphase, hactive,
      hfreeStart, hremoved, hcarried, halone, ?_, ?_, ?_⟩
    · intro i
      change s.started.count i + (irp :: s.cancelledIrps).count i ≤ 1
      by_cases hi : i = irp
      · have hstarted := count_eq_zero.2 hnot
        have hcancelled := count_eq_zero.2 hfirst
        rw [hi, count_cons_self]
        omega
      · rw [count_cons_of_ne (Ne.symm hi)]
        exact honce i
    · exact fun i hi => (hkept i hi).imp_right (.imp_left (mem_cons_of_mem _))
    all_goals grind [update_apply, cancelledIrps]
  · simp only [hset]
    refine ⟨⟨hrunning, hsingle, honce, hkept, hlocked, hcurrent, hbusy, hunqueued, hpointers⟩, hlinks, hempty, hphase, hactive,
      hfreeStart, hremoved, hcarried, halone, ?_, hunset, hknown⟩
    grind [update_apply, cancelledIrps]

theorem Sound.clearCancelRoutine (irp : ℕ) : Sound pointer (s.step (.clearCancelRoutine irp)) := by
  obtain ⟨⟨hrunning, hsingle, honce, hkept, hlocked, hcurrent, hbusy, hunqueued, hpointers⟩, hlinks, hempty, hphase, hactive,
    hfreeStart, hremoved, hcarried, halone, hroutine, hunset, hknown⟩ := h
  refine ⟨⟨hrunning, hsingle, honce, hkept, hlocked, hcurrent, hbusy, hunqueued, hpointers⟩, hlinks, hempty, hphase, hactive,
    hfreeStart, hremoved, hcarried, halone, ?_, hunset, hknown⟩
  intro i hi
  by_cases heq : i = irp
  · rw [heq] at hi
    simp [step] at hi
  · exact hroutine i ((update_of_ne heq _ _).symm.trans hi)

theorem Sound.complete (irp : ℕ) : Sound pointer (s.step (.complete irp)) := by
  obtain ⟨⟨hrunning, hsingle, honce, hkept, hlocked, hcurrent, hbusy, hunqueued, hpointers⟩, hlinks, hempty, hphase, hactive,
    hfreeStart, hremoved, hcarried, halone, hroutine, hunset, hknown⟩ := h
  exact ⟨⟨hrunning, hsingle, honce, hkept, hlocked, hcurrent, hbusy, fun _ _ _ => by simp [step, hempty], hpointers⟩, hlinks, hempty,
    hphase, hactive, hfreeStart, hremoved, hcarried, halone, hroutine, hunset, hknown⟩

end

theorem advance_insert_busy (h : Sound pointer s) {irp : ℕ} (hbusy : s.busy = true) :
    s.advance (.insert irp key) = none := by
  obtain ⟨hflink, hblink⟩ := h.links
  cases key with
  | none =>
    have hinsert : s.insertTail .head (.entry irp) = none := by
      unfold insertTail
      rw [if_neg (by decide), hblink]
      rfl
    simp [advance, keInsertDeviceQueue, hbusy, hinsert]
  | some k =>
    have hfind : (s.setSortKey irp k).findGreater k (s.given.length + 1) (s.flink .head) = none := by
      rw [hflink]
      rfl
    have hsame : (s.setSortKey irp k).busy = true := hbusy
    simp only [advance, keInsertByKeyDeviceQueue, hsame, if_true]
    rw [show (s.setSortKey irp k).given = s.given from rfl, show (s.setSortKey irp k).flink = s.flink from rfl, hfind]
    rfl

theorem advance_remove (h : Sound pointer s) (cancelable : Bool) : s.advance (.remove cancelable) = none := by
  have hremove : s.keRemoveDeviceQueue = none := by
    unfold keRemoveDeviceQueue
    rw [h.links.1]
  simp [advance, hremove]

theorem step_insert_pointer {thread irp : ℕ} (hpc : s.threads thread = some (.insert irp key))
    (hfree : s.busy = false) :
    (s.step (.advance thread)).pointer irp =
      withInserted (key.elim (s.pointer irp) (withSortKey (s.pointer irp))) false := by
  unfold step
  dsimp only
  rw [hpc]
  cases key with
  | none => simp [advance, keInsertDeviceQueue, hfree, setInserted]
  | some k =>
    simp [advance, keInsertByKeyDeviceQueue, setInserted, setSortKey, hfree]

theorem step_of_advance_none {thread : ℕ} {pc : Pc} (hpc : s.threads thread = some pc) (hnone : s.advance pc = none) :
    (s.step (.advance thread)).faulted = true := by
  unfold step
  dsimp only
  rw [hpc]
  dsimp only
  rw [hnone]

/-- A step that uses the queue, moves the stack pointer of an IRP or both starts and cancels one does not serialise. -/
theorem Sound.not_serialised (h : Sound pointer s) {a : Action} (hspares : ¬ Spares s a) :
    ¬ Serialised pointer (s.step a) := by
  intro hserialised
  have hfaults : ∀ {thread pc}, s.threads thread = some pc → s.advance pc = none → a = .advance thread → False := by
    rintro thread pc hpc hnone rfl
    have hrunning := hserialised.running
    rw [step_of_advance_none hpc hnone] at hrunning
    cases hrunning
  cases a with
  | advance thread =>
    unfold Spares at hspares
    dsimp only at hspares
    split at hspares
    · rename_i irp key hpc
      by_cases hbusy : s.busy = true
      · exact hfaults hpc (advance_insert_busy h hbusy) rfl
      · have hfree : s.busy = false := Bool.eq_false_iff.2 hbusy
        refine hspares ⟨hfree, ?_⟩
        have hmoved := congrFun hserialised.pointers irp
        rw [step_insert_pointer hpc hfree, ← h.serialised.pointers] at hmoved
        cases key with
        | none => exact ⟨withInserted_iff.1 hmoved, by simp⟩
        | some k =>
          obtain ⟨hzero, hkey⟩ := withInserted_withSortKey_iff.1 hmoved
          exact ⟨hzero, by rintro k' ⟨⟩; exact hkey⟩
    · rename_i cancelable hpc
      exact hfaults hpc (advance_remove h cancelable) rfl
    · rename_i irp hpc
      have hcancelled : irp ∈ s.cancelledIrps := not_not.1 hspares
      have honce := hserialised.once irp
      have hstarted : (s.step (.advance thread)).started = irp :: s.started := by
        simp only [step, hpc, advance]
      have hsame : (s.step (.advance thread)).cancelledIrps = s.cancelledIrps := by
        simp only [step, hpc, advance, cancelledIrps]
      have hcount := count_pos_iff.2 hcancelled
      rw [hstarted, hsame, count_cons_self] at honce
      omega
    · exact hspares trivial
  | ioCancelIrp irp =>
    obtain ⟨hset, hstarted⟩ := not_not.1 hspares
    have honce := hserialised.once irp
    have hsame : (s.step (.ioCancelIrp irp)).started = s.started := by
      simp [step, StartIoState.ioCancelIrp, hset]
    have hcancelled : (s.step (.ioCancelIrp irp)).cancelledIrps = irp :: s.cancelledIrps := by
      simp [step, StartIoState.ioCancelIrp, hset, cancelledIrps]
    have hcount := count_pos_iff.2 hstarted
    rw [hsame, hcancelled, count_cons_self] at honce
    omega
  | _ => exact hspares trivial

theorem Sound.step (h : Sound pointer s) {a : Action} (hadmits : Admits s a) (hspares : Spares s a) :
    Sound pointer (s.step a) := by
  cases a with
  | ioStartPacket thread irp key cancelFunction => exact h.ioStartPacket hadmits
  | ioStartNextPacket thread cancelable => exact h.ioStartNextPacket hadmits
  | advance thread =>
    cases hpc : s.threads thread with
    | none => exact absurd hpc hadmits
    | some pc =>
      cases pc with
      | setCancelRoutine irp key => exact h.setCancelRoutine hpc
      | insert irp key => exact h.insert hpc hspares
      | startIo irp => exact h.startIo hpc hspares
      | clearCurrent cancelable => exact h.clearCurrent hpc
      | remove cancelable =>
        unfold Spares at hspares
        dsimp only at hspares
        rw [hpc] at hspares
        exact absurd hspares id
      | checkCancel irp => exact absurd hpc (h.nothingRemoved thread irp).1
      | callCancelRoutine irp => exact absurd hpc (h.nothingRemoved thread irp).2
  | ioCancelIrp irp => exact h.ioCancelIrp hspares
  | clearCancelRoutine irp => exact h.clearCancelRoutine irp
  | complete irp => exact h.complete irp

theorem Spares.not_remove {thread : ℕ} (h : Spares s (.advance thread))
    (hpc : s.threads thread = some (.remove cancelable)) : False := by
  unfold Spares at h
  dsimp only at h
  rw [hpc] at h
  exact h

/-- The calls on a created device serialise its requests exactly as long as they spare its queue. -/
theorem serialises_iff (pointer : ℕ → ℕ) (actions : List Action)
    (hactions : EveryStep step Admits (ioCreateDevice pointer) actions) :
    EveryStep step (Serialises pointer) (ioCreateDevice pointer) actions ↔
      EveryStep step Spares (ioCreateDevice pointer) actions := by
  refine everyStep_iff (I := Sound pointer) ?_ ?_ ?_ (sound_ioCreateDevice pointer) hactions
  · intro s a h hadmits hspares
    exact h.step hadmits hspares
  · intro s a h hadmits hspares
    refine ⟨(h.step hadmits hspares).serialised, ?_⟩
    rintro thread cancelable rfl hpc
    exact absurd hpc hspares.not_remove
  · intro s a h _ hspares hserialises
    exact h.not_serialised hspares hserialises.serialised

def stackPointers (_ : ℕ) : ℕ := 0xFFFFA80000000000

/-- One request with a cancel routine, which `StartIo` clears before the request is cancelled and completed. -/
theorem serialises_one :
    EveryStep step (Serialises stackPointers) (ioCreateDevice stackPointers)
      [.ioStartPacket 0 7 none true, .advance 0, .advance 0, .advance 0, .clearCancelRoutine 7, .ioCancelIrp 7,
        .complete 7] := by
  have hactions : EveryStep step Admits (ioCreateDevice stackPointers)
      [.ioStartPacket 0 7 none true, .advance 0, .advance 0, .advance 0, .clearCancelRoutine 7, .ioCancelIrp 7,
        .complete 7] := by
    refine ⟨⟨rfl, by decide⟩, ?_, ?_, ?_, trivial, ?_, ⟨.inl ?_, ?_⟩, trivial⟩
    · rintro ⟨⟩
    · rintro ⟨⟩
    · rintro ⟨⟩
    · rintro ⟨⟩
    · exact mem_singleton_self 7
    · rintro ⟨⟩
  refine (serialises_iff stackPointers _ hactions).2 ⟨trivial, trivial, ⟨rfl, by decide, by rintro k ⟨⟩⟩, ?_, trivial, ?_, trivial, trivial⟩
  · rintro ⟨⟩
  · rintro ⟨⟨⟩, -⟩

/-- The second request waits in the queue of the created device: its insertion follows a null link. -/
theorem second_request_faults :
    ¬ EveryStep step (Serialises stackPointers) (ioCreateDevice stackPointers)
      [.ioStartPacket 0 7 none false, .advance 0, .advance 0, .ioStartPacket 0 8 none false, .advance 0] := by
  rintro ⟨-, -, -, -, hserialises, -⟩
  have hrunning := hserialises.serialised.running
  revert hrunning
  decide

end StartIoState

end XenOS.Io
