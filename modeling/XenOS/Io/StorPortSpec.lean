import Mathlib.Data.Set.Card
import XenOS.General.Run
import XenOS.Io.StorPort

/-! When the storage port completes every request exactly once. What goes wrong is the use of a
request that another party has completed, the completion of one that has not ended, or a slot that is
taken or freed without regard to its command. -/

namespace XenOS.Storport

open General StorPort AhciPort
open Function (update update_self update_of_ne update_eq_self)

/-- The status of an IRP that belongs to that of its SRB: success for success and an error for
everything else, so that a pending SRB has none; a busy device and a timeout are told as such. -/
structure Belongs (srbStatus status : ℕ) : Prop where
  success : srbStatus % 64 = srbStatusSuccess ↔ status = statusSuccess
  error : srbStatus % 64 ≠ srbStatusSuccess → 0x80000000 ≤ status
  busy : srbStatus % 64 = srbStatusBusy ↔ status = statusDeviceBusy
  timeout : srbStatus % 64 = srbStatusTimeout → status = statusIoTimeout

instance (srbStatus status : ℕ) : Decidable (Belongs srbStatus status) :=
  decidable_of_iff ((srbStatus % 64 = srbStatusSuccess ↔ status = statusSuccess) ∧
    (srbStatus % 64 ≠ srbStatusSuccess → 0x80000000 ≤ status) ∧ (srbStatus % 64 = srbStatusBusy ↔ status = statusDeviceBusy) ∧
    (srbStatus % 64 = srbStatusTimeout → status = statusIoTimeout))
    ⟨fun ⟨h1, h2, h3, h4⟩ => ⟨h1, h2, h3, h4⟩, fun ⟨h1, h2, h3, h4⟩ => ⟨h1, h2, h3, h4⟩⟩

theorem belongs_mod (srbStatus status : ℕ) : Belongs (srbStatus % 64) status ↔ Belongs srbStatus status := by
  have hmod := Nat.mod_mod srbStatus 64
  constructor
  · rintro ⟨h1, h2, h3, h4⟩
    rw [hmod] at h1 h2 h3 h4
    exact ⟨h1, h2, h3, h4⟩
  · rintro ⟨h1, h2, h3, h4⟩
    rw [← hmod] at h1 h2 h3 h4
    exact ⟨h1, h2, h3, h4⟩

theorem belongs_miniport_iff (srbStatus : ℕ) :
    Belongs srbStatus (Miniport.srbStatusToNtstatus srbStatus) ↔ srbStatus % 64 ≠ srbStatusPending := by
  have htable : ∀ x : Fin 64, Belongs x (Miniport.srbStatusToNtstatus x) ↔ x.val ≠ srbStatusPending := by decide
  have hx := htable ⟨srbStatus % 64, Nat.mod_lt _ (by decide)⟩
  rw [← belongs_mod]
  simpa only [Miniport.srbStatusToNtstatus, Nat.mod_mod] using hx

theorem belongs_success {srbStatus : ℕ} (h : srbStatus % 64 = srbStatusSuccess) : Belongs srbStatus statusSuccess :=
  (belongs_mod _ _).1 (h ▸ by decide)

theorem interruptSrbStatus_ne_pending (portIs tfd serr : ℕ) :
    AhciPort.interruptSrbStatus portIs tfd serr % 64 ≠ srbStatusPending := by
  unfold AhciPort.interruptSrbStatus AhciPort.mapAhciErrorToSrbStatus
  split_ifs <;> decide

namespace StorPort

variable {s s' : StorPort} {r r' p slot : ℕ} {q q' : ScsiRequest} {f : ScsiRequest → ScsiRequest}

/-- Each request is completed once and not used after that, or is current; the count is right; a
slot is free exactly if its command has ended. -/
structure Exact (s : StorPort) : Prop where
  once : ∀ r q, s.requests r = some q → q.touched = false ∧ (q.completions = 1 ∨ q.completions = 0 ∧ s.currentIrp = some r)
  status : ∀ r q, s.requests r = some q → q.completions = 1 → Belongs q.srbStatus q.ioStatus
  together : s.currentSrb = s.currentIrp
  inFlight : ∀ r, s.currentIrp = some r → ∃ q, s.requests r = some q ∧ q.completions = 0
  count : s.inFlightCount = Set.ncard {r | ∃ q, s.requests r = some q ∧ q.completions = 0}
  slots : ∀ p, ∀ slot < 32, (s.ports p).slotBitmap slot = false ↔ (s.ports p).mayExecute slot = false

structure Inv (s : StorPort) : Prop where
  once : ∀ r q, s.requests r = some q → q.touched = false ∧ (q.completions = 1 ∨ q.completions = 0 ∧ s.currentIrp = some r)
  status : ∀ r q, s.requests r = some q → q.completions = 1 → Belongs q.srbStatus q.ioStatus
  together : s.currentSrb = s.currentIrp
  inFlight : ∀ r, s.currentIrp = some r → ∃ q, s.requests r = some q ∧ q.completions = 0
  count : s.inFlightCount = s.currentIrp.elim 0 fun _ => 1
  slots : ∀ p, ∀ slot < 32, (s.ports p).slotBitmap slot = false ↔ (s.ports p).mayExecute slot = false
  dpc : ∀ args, s.completionDpc = some args → args.1 = args.2 ∧ ∀ r, args.2 = some r → (s.requests r).isSome
  starting : ∀ r ∈ s.starting, (s.requests r).isSome
  outstanding : ∀ p slot r, (s.ports p).outstandingSrbs slot = some r → (s.requests r).isSome

theorem Inv.exact (h : s.Inv) : s.Exact where
  once := h.once
  status := h.status
  together := h.together
  inFlight := h.inFlight
  count := by
    have hset : {r | ∃ q, s.requests r = some q ∧ q.completions = 0} = {r | s.currentIrp = some r} := by
      ext r
      constructor
      · rintro ⟨q, hq, h0⟩
        rcases (h.once r q hq).2 with h1 | ⟨-, hcurrent⟩
        · omega
        · exact hcurrent
      · exact h.inFlight r
    rw [hset, h.count]
    cases s.currentIrp with
    | none => simp
    | some r => simp
  slots := h.slots

theorem inv_init : init.Inv where
  once _ _ hq := by cases hq
  status _ _ hq := by cases hq
  together := rfl
  inFlight _ hr := by cases hr
  count := rfl
  slots _ _ _ := Iff.rfl
  dpc _ hargs := by cases hargs
  starting _ hr := by cases hr
  outstanding _ _ _ hr := by cases hr

def Completed (s : StorPort) (r : ℕ) : Prop := ∃ q, s.requests r = some q ∧ 0 < q.completions

def Touched (s : StorPort) (r : ℕ) : Prop := ∃ q, s.requests r = some q ∧ q.touched = true

theorem Touched.not_exact (h : s.Touched r) : ¬ s.Exact := by
  obtain ⟨q, hq, ht⟩ := h
  intro hexact
  rw [(hexact.once r q hq).1] at ht
  cases ht

theorem access_of_some (hq : s.requests r = some q) (f : ScsiRequest → ScsiRequest) : s.access r f =
    { s with requests := update s.requests r (some { f q with touched := q.touched || decide (0 < q.completions) }) } := by
  simp only [access, hq]

theorem Completed.access (h : s.Completed r) (f : ScsiRequest → ScsiRequest) : (s.access r f).Touched r := by
  obtain ⟨q, hq, hpos⟩ := h
  rw [access_of_some hq]
  exact ⟨_, update_self .., by simp [hpos]⟩

theorem Touched.access (h : s.Touched r) (r' : ℕ) (f : ScsiRequest → ScsiRequest) : (s.access r' f).Touched r := by
  obtain ⟨q, hq, ht⟩ := h
  by_cases hr : r' = r
  · subst hr
    rw [access_of_some hq]
    exact ⟨_, update_self .., by simp [ht]⟩
  · unfold StorPort.access
    split
    · exact ⟨q, hq, ht⟩
    · exact ⟨q, (update_of_ne (Ne.symm hr) _ _).trans hq, ht⟩

theorem touched_completeFromSrb {srb : ℕ} (h : (s.access srb id).Touched r) (irp : ℕ) : (s.completeFromSrb srb irp).Touched r := by
  have h2 := h.access irp fun q => { q with
    ioStatus := Miniport.srbStatusToNtstatus (s.srbStatus srb)
    information := if Miniport.srbStatusToNtstatus (s.srbStatus srb) < 0x80000000 then s.dataTransferLength srb else 0 }
  exact Touched.access (s := ((s.access srb id).access irp _).clearCurrentRequest) h2 irp _

theorem Touched.requestComplete (h : s.Touched r) : (s.notify .requestComplete).Touched r := by
  simp only [notify]
  split
  · exact touched_completeFromSrb (h.access _ id) _
  · exact h

def finished (s : StorPort) (r : ℕ) (q : ScsiRequest) : StorPort :=
  { s with requests := update s.requests r (some q), currentSrb := none, currentIrp := none,
           inFlightCount := s.inFlightCount - 1 }

theorem isSome_update {requests : ℕ → Option ScsiRequest} (h : (requests r').isSome) :
    (update requests r (some q) r').isSome := by
  by_cases hr : r' = r
  · rw [hr, update_self]
    rfl
  · rwa [update_of_ne hr]

theorem Inv.setRequest (h : s.Inv) {srb irp : Option ℕ} {count : ℕ} (htogether : srb = irp) (hcount : count = irp.elim 0 fun _ => 1)
    (hothers : ∀ r', r' ≠ r → (s.currentIrp = some r' ↔ irp = some r')) (htouched : q.touched = false)
    (hended : q.completions = 1 ∧ Belongs q.srbStatus q.ioStatus ∧ irp ≠ some r ∨ q.completions = 0 ∧ irp = some r) :
    ({ s with requests := update s.requests r (some q), currentSrb := srb, currentIrp := irp,
              inFlightCount := count } : StorPort).Inv where
  once r' q' hq' := by
    simp only at hq'
    by_cases hr : r' = r
    · rw [hr, update_self, Option.some.injEq] at hq'
      subst hq'
      refine ⟨htouched, ?_⟩
      rcases hended with ⟨h1, -, -⟩ | ⟨h0, hcurrent⟩
      · exact Or.inl h1
      · exact Or.inr ⟨h0, hr ▸ hcurrent⟩
    · rw [update_of_ne hr] at hq'
      obtain ⟨ht, h1 | ⟨h0, hcurrent⟩⟩ := h.once r' q' hq'
      · exact ⟨ht, Or.inl h1⟩
      · exact ⟨ht, Or.inr ⟨h0, (hothers r' hr).1 hcurrent⟩⟩
  status r' q' hq' h1 := by
    simp only at hq'
    by_cases hr : r' = r
    · rw [hr, update_self, Option.some.injEq] at hq'
      subst hq'
      rcases hended with ⟨-, hbelongs, -⟩ | ⟨h0, -⟩
      · exact hbelongs
      · omega
    · rw [update_of_ne hr] at hq'
      exact h.status r' q' hq' h1
  together := htogether
  inFlight r' hr' := by
    simp only at hr' ⊢
    by_cases hr : r' = r
    · subst hr
      rcases hended with ⟨-, -, hnot⟩ | ⟨h0, -⟩
      · exact absurd hr' hnot
      · exact ⟨q, update_self .., h0⟩
    · obtain ⟨q', hq', h0⟩ := h.inFlight r' ((hothers r' hr).2 hr')
      exact ⟨q', (update_of_ne hr _ _).trans hq', h0⟩
  count := hcount
  slots := h.slots
  dpc args hargs := ⟨(h.dpc args hargs).1, fun r' hr' => isSome_update ((h.dpc args hargs).2 r' hr')⟩
  starting r' hr' := isSome_update (h.starting r' hr')
  outstanding p slot r' hr' := isSome_update (h.outstanding p slot r' hr')

theorem Inv.finished (h : s.Inv) (hcurrent : s.currentIrp = some r) (htouched : q.touched = false) (hdone : q.completions = 1)
    (hbelongs : Belongs q.srbStatus q.ioStatus) : (s.finished r q).Inv := by
  have hcount : s.inFlightCount - 1 = 0 := by
    rw [h.count, hcurrent]
    rfl
  refine h.setRequest rfl hcount (fun r' hr => ?_) htouched (Or.inl ⟨hdone, hbelongs, nofun⟩)
  simp [hcurrent, hr.symm]

theorem Inv.refused (h : s.Inv) (hnew : s.requests r = none) (htouched : q.touched = false) (hdone : q.completions = 1)
    (hbelongs : Belongs q.srbStatus q.ioStatus) : ({ s with requests := update s.requests r (some q) } : StorPort).Inv := by
  refine h.setRequest h.together h.count (fun _ _ => Iff.rfl) htouched (Or.inl ⟨hdone, hbelongs, fun hcurrent => ?_⟩)
  obtain ⟨q', hq', -⟩ := h.inFlight r hcurrent
  rw [hnew] at hq'
  cases hq'

def Live (s : StorPort) (r : ℕ) (q : ScsiRequest) : Prop := s.requests r = some q ∧ q.completions = 0 ∧ q.touched = false

theorem Inv.live (h : s.Inv) (hr : (s.requests r).isSome) (hnot : ¬ s.Completed r) : s.currentIrp = some r ∧ ∃ q, s.Live r q := by
  obtain ⟨q, hq⟩ := Option.isSome_iff_exists.1 hr
  have h0 : q.completions = 0 := by
    by_contra hne
    exact hnot ⟨q, hq, Nat.pos_of_ne_zero hne⟩
  obtain ⟨ht, h1 | ⟨-, hcurrent⟩⟩ := h.once r q hq
  · omega
  · exact ⟨hcurrent, q, hq, h0, ht⟩

theorem Inv.live_current (h : s.Inv) (hcurrent : s.currentIrp = some r) : ∃ q, s.Live r q := by
  obtain ⟨q, hq, h0⟩ := h.inFlight r hcurrent
  exact ⟨q, hq, h0, (h.once r q hq).1⟩

theorem completeFromSrb_live (h : s.Live r q) : s.completeFromSrb r r = s.finished r { q with
    ioStatus := Miniport.srbStatusToNtstatus q.srbStatus
    information := if Miniport.srbStatusToNtstatus q.srbStatus < 0x80000000 then q.dataTransferLength else 0
    completions := 1 } := by
  obtain ⟨hq, h0, ht⟩ := h
  obtain ⟨srbStatus, length, status, information, completions, touched⟩ := q
  simp only at h0 ht
  subst h0 ht
  simp [completeFromSrb, finished, access, setIoStatus, clearCurrentRequest, ioCompleteRequest, StorPort.srbStatus,
    StorPort.dataTransferLength, hq]

theorem srbStatus_live (h : s.Live r q) : s.srbStatus r = q.srbStatus := by
  simp [StorPort.srbStatus, h.1]

section
variable (h : s.Inv)
include h

theorem Inv.completeFromSrb (hcurrent : s.currentIrp = some r) (hended : s.srbStatus r % 64 ≠ srbStatusPending) :
    (s.completeFromSrb r r).Inv := by
  obtain ⟨q, hlive⟩ := h.live_current hcurrent
  rw [srbStatus_live hlive] at hended
  rw [completeFromSrb_live hlive]
  exact h.finished hcurrent hlive.2.2 rfl ((belongs_miniport_iff _).2 hended)

theorem Inv.withReady (ready : Bool) : ({ s with readyForNext := ready } : StorPort).Inv :=
  ⟨h.once, h.status, h.together, h.inFlight, h.count, h.slots, h.dpc, h.starting, h.outstanding⟩

theorem Inv.withStarting {starting : List ℕ} (hsome : ∀ r ∈ starting, (s.requests r).isSome) :
    ({ s with starting := starting } : StorPort).Inv :=
  ⟨h.once, h.status, h.together, h.inFlight, h.count, h.slots, h.dpc, hsome, h.outstanding⟩

theorem Inv.withDpc {dpc : Option (Option ℕ × Option ℕ)}
    (hdpc : ∀ args, dpc = some args → args.1 = args.2 ∧ ∀ r, args.2 = some r → (s.requests r).isSome) :
    ({ s with completionDpc := dpc } : StorPort).Inv :=
  ⟨h.once, h.status, h.together, h.inFlight, h.count, h.slots, hdpc, h.starting, h.outstanding⟩

theorem Inv.setPort {port : AhciPort}
    (hslots : ∀ slot < 32, port.slotBitmap slot = false ↔ port.mayExecute slot = false)
    (houtstanding : ∀ slot r, port.outstandingSrbs slot = some r → (s.requests r).isSome) : (s.setPort p port).Inv where
  once := h.once
  status := h.status
  together := h.together
  inFlight := h.inFlight
  count := h.count
  slots p' slot hslot := by
    simp only [StorPort.setPort]
    by_cases hp : p' = p
    · rw [hp, update_self]
      exact hslots slot hslot
    · rw [update_of_ne hp]
      exact h.slots p' slot hslot
  dpc := h.dpc
  starting := h.starting
  outstanding p' slot r hr := by
    simp only [StorPort.setPort] at hr
    by_cases hp : p' = p
    · rw [hp, update_self] at hr
      exact houtstanding slot r hr
    · rw [update_of_ne hp] at hr
      exact h.outstanding p' slot r hr

theorem Inv.accessLive (hlive : s.Live r q) (h0 : (f q).completions = 0) : (s.access r f).Inv := by
  obtain ⟨hq, hq0, ht⟩ := hlive
  have hcurrent : s.currentIrp = some r := by
    obtain ⟨-, h1 | ⟨-, hcur⟩⟩ := h.once r q hq
    · omega
    · exact hcur
  rw [access_of_some hq]
  exact h.setRequest h.together h.count (fun _ _ => Iff.rfl) (by simp [ht, hq0]) (Or.inr ⟨h0, hcurrent⟩)

end

/-- The current request, if there is one, has ended. -/
def CurrentEnded (s : StorPort) : Prop := ∀ r, s.currentIrp = some r → s.srbStatus r % 64 ≠ srbStatusPending

theorem Inv.requestComplete (h : s.Inv) (hended : s.CurrentEnded) : (s.notify .requestComplete).Inv := by
  simp only [notify]
  split
  · rename_i srb irp hsrb hirp
    have heq : some srb = some irp := by rw [← hsrb, ← hirp, h.together]
    cases heq
    exact h.completeFromSrb hirp (hended _ hirp)
  · exact h

theorem Inv.setStatus (h : s.Inv) {srbStatus ioStatus : ℕ} (hirp : s.currentIrp = some r) (hbelongs : Belongs srbStatus ioStatus) :
    (((s.setSrbStatus r srbStatus).setIoStatus r ioStatus 0).ioCompleteRequest r).clearCurrentRequest.Inv := by
  obtain ⟨q, hq, h0, ht⟩ := h.live_current hirp
  have hfin := h.finished (q := { q with srbStatus, ioStatus, information := 0, completions := 1 }) hirp ht rfl hbelongs
  obtain ⟨status, length, _, information, completions, touched⟩ := q
  simp only at h0 ht
  subst h0 ht
  simpa [StorPort.finished, StorPort.access, setIoStatus, StorPort.setSrbStatus, clearCurrentRequest, ioCompleteRequest, hq] using hfin

theorem ioCompleteRequest_clearCurrentRequest (s : StorPort) (r : ℕ) :
    s.clearCurrentRequest.ioCompleteRequest r = (s.ioCompleteRequest r).clearCurrentRequest := by
  simp only [ioCompleteRequest, StorPort.access, clearCurrentRequest]
  cases s.requests r <;> rfl

theorem Inv.cancelAllPending (h : s.Inv) : s.cancelAllPending.Inv := by
  unfold StorPort.cancelAllPending
  refine Inv.withReady ?_ false
  split
  · rename_i srb irp hsrb hirp
    have heq : some srb = some irp := by rw [← hsrb, ← hirp, h.together]
    cases heq
    exact h.setStatus hirp (show Belongs srbStatusBusReset statusIoDeviceError by decide)
  · exact h

theorem Inv.timeoutDpcRoutine (h : s.Inv) : s.timeoutDpcRoutine.Inv := by
  unfold StorPort.timeoutDpcRoutine
  split
  · rename_i srb irp hsrb hirp
    have heq : some srb = some irp := by rw [← hsrb, ← hirp, h.together]
    cases heq
    rw [ioCompleteRequest_clearCurrentRequest]
    exact (h.setStatus hirp (show Belongs srbStatusTimeout statusIoTimeout by decide)).withReady true
  · exact h

theorem Inv.notify (h : s.Inv) {notification : StorPortNotification} (hended : notification = .requestComplete → s.CurrentEnded) :
    (s.notify notification).Inv := by
  cases notification with
  | requestComplete => exact h.requestComplete (hended rfl)
  | nextRequest => exact h.withReady true
  | nextLuRequest =>
    refine Inv.withReady ?_ true
    split
    · rename_i srb hsrb
      obtain ⟨q, hlive⟩ := h.live_current (h.together ▸ hsrb)
      exact h.accessLive hlive hlive.2.1
    · exact h
  | resetDetected => exact h.cancelAllPending
  | initDpc => exact ⟨h.once, h.status, h.together, h.inFlight, h.count, h.slots, h.dpc, h.starting, h.outstanding⟩
  | issueDpc =>
    simp only [StorPort.notify]
    split_ifs
    · split
      · refine h.withDpc fun args hargs => ?_
        cases hargs
        refine ⟨h.together, fun r hr => ?_⟩
        obtain ⟨q, hq, -⟩ := h.inFlight r hr
        exact hq ▸ rfl
      · exact h
    · exact h

theorem Inv.refuse (h : s.Inv) (hnew : s.requests r = none) {length srbStatus status : ℕ} (hbelongs : Belongs srbStatus status) :
    (((({ s with requests := update s.requests r (some ⟨srbStatusPending, length, 0, 0, 0, false⟩) } : StorPort).setSrbStatus r
      srbStatus).setIoStatus r status 0).ioCompleteRequest r).Inv := by
  have hrefused := h.refused (q := ⟨srbStatus, length, status, 0, 1, false⟩) hnew rfl rfl hbelongs
  simpa [access, setIoStatus, setSrbStatus, ioCompleteRequest] using hrefused

theorem Inv.accepted (h : s.Inv) (hnone : s.currentIrp = none) (hq0 : q.completions = 0)
    (ht : q.touched = false) :
    (({ s with requests := update s.requests r (some q) } : StorPort).setCurrentRequest r r).Inv := by
  have hcount : s.inFlightCount + 1 = 1 := by
    rw [h.count, hnone]
    rfl
  refine Inv.withReady (h.setRequest rfl hcount (fun r' hr => ?_) ht (Or.inr ⟨hq0, rfl⟩)) false
  simp [hnone, hr.symm]

theorem Inv.arrive (h : s.Inv) (length : ℕ) (hasHwStartIo : Bool) (function : SrbFunction) :
    (s.arrive r length hasHwStartIo function).Inv := by
  unfold StorPort.arrive
  split_ifs with hnew
  · exact h
  rw [Option.not_isSome_iff_eq_none] at hnew
  cases function with
  | executeScsi =>
    simp only [handleSrb]
    split_ifs with hready hcallback
    · have hnone : s.currentIrp = none := by
        simp only [canAcceptRequest, Bool.and_eq_true, decide_eq_true_eq] at hready
        have := h.count
        cases hcur : s.currentIrp with
        | none => rfl
        | some r' =>
          rw [hcur] at this
          simp only [Option.elim_some] at this
          omega
      refine (h.accepted hnone (q := ⟨srbStatusPending, length, 0, 0, 0, false⟩) rfl rfl).withStarting fun r' hr' => ?_
      rcases List.mem_cons.1 hr' with rfl | hr'
      · simp [setCurrentRequest]
      · exact isSome_update (h.starting r' hr')
    · exact h.refuse hnew (by decide)
    · exact h.refuse hnew (by decide)
  | resetBus => exact h.refuse hnew (by decide)
  | other => exact h.refuse hnew (by decide)

theorem access_id_live (h : s.Live r q) : s.access r id = s := by
  obtain ⟨hq, h0, ht⟩ := h
  have hsame : ({ id q with touched := q.touched || decide (0 < q.completions) } : ScsiRequest) = q := by
    obtain ⟨srbStatus, length, status, information, completions, touched⟩ := q
    simp only at h0
    subst h0
    simp
  rw [access_of_some hq, hsame, ← hq, update_eq_self]

theorem Inv.startIoReturned (h : s.Inv) (hr : r ∈ s.starting) (hnot : ¬ s.Completed r) {accepted : Bool}
    (hstatus : accepted = true → s.srbStatus r % 64 = srbStatusPending ∨ s.srbStatus r % 64 = srbStatusSuccess) :
    (s.startIoReturned r accepted).Inv := by
  obtain ⟨hcurrent, q, hlive⟩ := h.live (h.starting r hr) hnot
  have h' : ({ s with starting := s.starting.erase r } : StorPort).Inv :=
    h.withStarting fun r' hr' => h.starting r' (List.mem_of_mem_erase hr')
  have haccess : ({ s with starting := s.starting.erase r } : StorPort).access r id = { s with starting := s.starting.erase r } :=
    access_id_live (s := { s with starting := s.starting.erase r }) hlive
  unfold StorPort.startIoReturned
  simp only [haccess]
  have hread : ({ s with starting := s.starting.erase r } : StorPort).srbStatus r = s.srbStatus r := rfl
  rw [hread]
  obtain ⟨hq, h0, ht⟩ := hlive
  have hsrb : s.srbStatus r = q.srbStatus := by simp [StorPort.srbStatus, hq]
  split_ifs with haccepted hpending hsuccess
  · exact h'
  · have hbelongs : Belongs q.srbStatus statusSuccess := belongs_success (hsrb ▸ hsuccess)
    have hfin := h'.finished (q := { q with
      ioStatus := statusSuccess, information := q.dataTransferLength, completions := 1 }) hcurrent ht rfl hbelongs
    obtain ⟨srbStatus, length, status, information, completions, touched⟩ := q
    simp only at h0 ht
    subst h0 ht
    simpa [StorPort.finished, StorPort.access, setIoStatus, clearCurrentRequest, ioCompleteRequest, StorPort.dataTransferLength, hq]
      using hfin
  · rcases hstatus haccepted with h1 | h1
    · exact absurd h1 hpending
    · exact absurd h1 hsuccess
  · have hfin := h'.finished (q := { q with
      srbStatus := srbStatusBusy, ioStatus := statusDeviceBusy, information := 0, completions := 1 }) hcurrent ht rfl
      (show Belongs srbStatusBusy statusDeviceBusy by decide)
    obtain ⟨srbStatus, length, status, information, completions, touched⟩ := q
    simp only at h0 ht
    subst h0 ht
    simpa [StorPort.finished, StorPort.access, setIoStatus, StorPort.setSrbStatus, clearCurrentRequest, ioCompleteRequest, hq]
      using hfin

theorem Completed.startIoReturned (h : s.Completed r) (accepted : Bool) : (s.startIoReturned r accepted).Touched r := by
  have htouched : (({ s with starting := s.starting.erase r } : StorPort).access r id).Touched r :=
    Completed.access (s := { s with starting := s.starting.erase r }) h id
  unfold StorPort.startIoReturned
  simp only
  generalize ({ s with starting := s.starting.erase r } : StorPort).access r id = s' at htouched ⊢
  have hclear : s'.clearCurrentRequest.Touched r := htouched
  split_ifs
  · exact htouched
  · exact (hclear.access r _).access r _
  · exact ((hclear.access r _).access r _).access r _
  · exact ((hclear.access r _).access r _).access r _

section
variable (h : (s.requests r).isSome)
include h

end

end StorPort

namespace AhciPort

variable {port : AhciPort} {slot : ℕ}

/-- Free exactly if the command has ended. -/
def Matches (port : AhciPort) : Prop := ∀ slot < 32, port.slotBitmap slot = false ↔ port.mayExecute slot = false

theorem Matches.endSlot (h : port.Matches) : (port.endSlot slot).Matches := by
  intro i hi
  by_cases heq : i = slot
  · simp [AhciPort.endSlot, freeSlot, heq]
  · simpa [AhciPort.endSlot, freeSlot, heq] using h i hi

theorem outstandingSrbs_freeSlot {i r : ℕ} (h : (port.freeSlot slot).outstandingSrbs i = some r) : port.outstandingSrbs i = some r := by
  by_cases heq : i = slot
  · simp [freeSlot, heq] at h
  · simpa [freeSlot, heq] using h

theorem Matches.freeSlot (h : port.Matches) (hended : slot < 32 → port.mayExecute slot = false) : (port.freeSlot slot).Matches := by
  intro i hi
  by_cases heq : i = slot
  · subst heq
    simp [AhciPort.freeSlot, hended hi]
  · simpa [AhciPort.freeSlot, heq] using h i hi

theorem Matches.issue {srbs : ℕ → Option ℕ} {ci : ℕ → Bool} (h : port.Matches) :
    Matches ⟨update port.slotBitmap slot true, srbs, ci, update port.mayExecute slot true⟩ := by
  intro i hi
  by_cases heq : i = slot
  · simp [heq]
  · simpa [heq] using h i hi

end AhciPort

namespace StorPort

variable {s : StorPort} {r p slot : ℕ} {q : ScsiRequest}

theorem Inv.issueCommand (h : s.Inv) (p r : ℕ) : (s.issueCommand p r).Inv := by
  unfold StorPort.issueCommand
  split
  · rename_i slot q hslot hq
    refine h.setPort (Matches.issue (h.slots p)) fun i r' hr' => ?_
    simp only at hr'
    by_cases heq : i = slot
    · rw [heq, update_self, Option.some.injEq] at hr'
      rw [← hr', hq]
      rfl
    · rw [update_of_ne heq] at hr'
      exact h.outstanding p i r' hr'
  · exact h

theorem Inv.endSlot (h : s.Inv) (p slot : ℕ) : (s.setPort p ((s.ports p).endSlot slot)).Inv :=
  h.setPort (Matches.endSlot (h.slots p)) fun _ r hr => h.outstanding p _ r (outstandingSrbs_freeSlot hr)

theorem Inv.completeSlot (h : s.Inv) {srb srbStatus : ℕ} (hsrb : (s.ports p).outstandingSrbs slot = some srb)
    (hnot : ¬ s.Completed srb) (hended : srbStatus % 64 ≠ srbStatusPending) :
    (((s.setSrbStatus srb srbStatus).setPort p ((s.ports p).endSlot slot)).notify .requestComplete).Inv := by
  obtain ⟨hcurrent, q, hlive⟩ := h.live (h.outstanding p slot srb hsrb) hnot
  have hset : (s.setSrbStatus srb srbStatus).Inv := h.accessLive hlive hlive.2.1
  have hports : (s.setSrbStatus srb srbStatus).ports = s.ports := by
    rw [setSrbStatus, access_of_some hlive.1]
  have hend := hset.endSlot p slot
  rw [hports] at hend
  refine hend.requestComplete fun r hr => ?_
  have hirp : s.currentIrp = some r := by
    rw [setSrbStatus, access_of_some hlive.1] at hr
    exact hr
  cases hcurrent.symm.trans hirp
  have hread : (s.setSrbStatus srb srbStatus).srbStatus srb = srbStatus := by
    simp [setSrbStatus, access_of_some hlive.1, StorPort.srbStatus]
  exact ne_of_eq_of_ne (congrArg (· % 64) hread) hended

theorem Completed.completeSlot {srb : ℕ} (h : s.Completed srb) (srbStatus : ℕ) (port : AhciPort) :
    (((s.setSrbStatus srb srbStatus).setPort p port).notify .requestComplete).Touched srb :=
  Touched.requestComplete (s := (s.setSrbStatus srb srbStatus).setPort p port) (h.access _)

/-- What must not happen: a party uses a request that is completed, or completes one whose SRB is
pending, or a slot is freed, or left taken, against what its command does. -/
def Clear (s : StorPort) : StorPortOp → Prop
  | .startIoReturned r accepted => r ∈ s.starting → ¬ s.Completed r ∧
      (accepted = true → s.srbStatus r % 64 = srbStatusPending ∨ s.srbStatus r % 64 = srbStatusSuccess)
  | .setSrbStatus r _ => ¬ s.Completed r
  | .notify notification => notification = .requestComplete → s.CurrentEnded
  | .completionDpc => ∀ srb irp, s.completionDpc = some (some srb, some irp) →
      ¬ s.Completed srb ∧ s.srbStatus srb % 64 ≠ srbStatusPending
  | .flushCache p => (s.ports p).slotBitmap 0 = true
  | .pollEnds p slot => ((List.range 32).all fun i => !(s.ports p).ci i) = false → slot < 32 →
      (s.ports p).mayExecute slot = false
  | .interruptSlot p slot _ _ _ => (s.ports p).slotBitmap slot = true ∧ (s.ports p).ci slot ≠ true →
      ∀ srb, (s.ports p).outstandingSrbs slot = some srb → ¬ s.Completed srb
  | .resetSlot p slot => ∀ srb, (s.ports p).outstandingSrbs slot = some srb → ¬ s.Completed srb
  | .resetPort p linkUp => linkUp = false → ∀ slot < 32, (s.ports p).slotBitmap slot = false
  | _ => True

theorem Inv.completionDpcRoutine (h : s.Inv)
    (hclear : ∀ srb irp, s.completionDpc = some (some srb, some irp) →
      ¬ s.Completed srb ∧ s.srbStatus srb % 64 ≠ srbStatusPending) : s.completionDpcRoutine.Inv := by
  unfold StorPort.completionDpcRoutine
  cases hdpc : s.completionDpc with
  | none => exact h
  | some args =>
    have h' : ({ s with completionDpc := none } : StorPort).Inv := h.withDpc fun _ hargs => (by cases hargs)
    obtain ⟨hsame, hsome⟩ := h.dpc args hdpc
    match args, hsame, hsome, hdpc with
    | (some srb, some irp), hsame, hsome, hdpc =>
      cases hsame
      obtain ⟨hnot, hended⟩ := hclear srb srb hdpc
      obtain ⟨hcurrent, -⟩ := h.live (hsome srb rfl) hnot
      exact (h'.completeFromSrb hcurrent hended).withReady true
    | (none, _), _, _, _ => exact h'
    | (some _, none), _, _, _ => exact h'

theorem Inv.step (h : s.Inv) {op : StorPortOp} (hclear : s.Clear op) : (s.step op).Inv := by
  cases op with
  | arrive r length hasHwStartIo function => exact h.arrive length hasHwStartIo function
  | startIoReturned r accepted =>
    simp only [StorPort.step]
    split_ifs with hr
    · exact h.startIoReturned hr (hclear hr).1 (hclear hr).2
    · exact h
  | setSrbStatus r srbStatus =>
    cases hq : s.requests r with
    | none =>
      have hsame : s.setSrbStatus r srbStatus = s := by simp only [StorPort.setSrbStatus, access, hq]
      simp only [StorPort.step, hsame]
      exact h
    | some q =>
      obtain ⟨-, q', hlive⟩ := h.live (r := r) (hq ▸ rfl) hclear
      exact h.accessLive hlive hlive.2.1
  | notify notification => exact h.notify hclear
  | completionDpc => exact h.completionDpcRoutine hclear
  | timeoutDpc => exact h.timeoutDpcRoutine
  | issueCommand p r => exact h.issueCommand p r
  | commandEnds p slot => exact h.setPort (h.slots p) fun _ r hr => h.outstanding p _ r hr
  | pollEnds p slot =>
    simp only [StorPort.step, StorPort.pollEnds]
    split_ifs with hall
    · exact h.endSlot p slot
    · exact h.setPort (Matches.freeSlot (h.slots p) (hclear (Bool.eq_false_iff.2 hall)))
        fun _ r hr => h.outstanding p _ r (outstandingSrbs_freeSlot hr)
  | flushCache p =>
    refine h.setPort (fun slot hslot => ?_) fun slot r hr => h.outstanding p slot r hr
    dsimp only
    by_cases heq : slot = 0
    · rw [heq, update_self]
      exact iff_of_false (ne_true_of_eq_false · hclear) nofun
    · rw [update_of_ne heq]
      exact h.slots p slot hslot
  | flushEnds p =>
    simp only [StorPort.step, StorPort.flushEnds]
    split_ifs with hall
    · refine h.setPort (fun slot hslot => ?_) fun slot r hr => h.outstanding p slot r hr
      dsimp only
      by_cases heq : slot = 0
      · have h0 := h.slots p 0 (by decide)
        rw [heq, update_self]
        cases hbit : (s.ports p).slotBitmap 0 <;> simp_all
      · rw [update_of_ne heq]
        exact h.slots p slot hslot
    · exact h
  | interruptSlot p slot portIs tfd serr =>
    simp only [StorPort.step, StorPort.interruptSlot]
    split_ifs with hended
    · split
      · exact h.endSlot p slot
      · rename_i srb hsrb
        exact h.completeSlot hsrb (hclear hended srb hsrb) (interruptSrbStatus_ne_pending portIs tfd serr)
    · exact h
  | resetSlot p slot =>
    simp only [StorPort.step, StorPort.resetSlot]
    split
    · exact h
    · rename_i srb hsrb
      exact h.completeSlot hsrb (hclear srb hsrb) (by decide)
  | resetPort p linkUp =>
    refine h.setPort (fun slot hslot => ?_) fun slot r hr => h.outstanding p slot r ?_
    · cases linkUp with
      | true => simp
      | false => simpa using hclear rfl slot hslot
    · cases linkUp <;> exact hr

end StorPort

end XenOS.Storport
