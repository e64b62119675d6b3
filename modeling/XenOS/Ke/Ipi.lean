import Mathlib.Data.List.Perm.Basic
import XenOS.General.Run

/-! Requests between processors. A sender ors its bits into the request word of each target, by a
read and a write, and interrupts it; a packet lies in the sender's block, found through
`signal_done`. The steps of any number of processors interleave. -/

namespace XenOS.Ke

open General List
open Function (update update_self update_of_ne update_eq_self)

def ipiApc : BitVec 32 := 1

def ipiDpc : BitVec 32 := 2

def ipiPacketReady : BitVec 32 := 8

/-- `ipi_worker_routine` and the three words of `ipi_current_packet`; a routine of 0 is none. -/
abbrev IpiPacket := Fin 4 → ℕ

/-- What the loop over the targets sends. -/
inductive IpiJob where
  | request (ipiRequest : BitVec 32)
  | packet (packet : IpiPacket)

namespace IpiJob

def bits : IpiJob → BitVec 32
  | request ipiRequest => ipiRequest
  | packet _ => ipiPacketReady

def vectorIpi : IpiJob → Bool
  | request ipiRequest => ipiRequest != ipiApc && ipiRequest != ipiDpc
  | packet _ => true

end IpiJob

/-- Where a processor is in `ki_ipi_send` and `ki_ipi_send_packet`. -/
inductive IpiSender where
  | idle
  | store (k : Fin 4) (packet : IpiPacket) (targets : List ℕ)
  | next (job : IpiJob) (targets : List ℕ)
  | write (job : IpiJob) (p : ℕ) (summary : BitVec 32) (targets : List ℕ)
  | done (packet : IpiPacket) (p : ℕ) (targets : List ℕ)
  | ipi (job : IpiJob) (p : ℕ) (targets : List ℕ)

namespace IpiSender

/-- The request is in the word of `p` and the interrupt is still to be sent. -/
def rings (p : ℕ) : IpiSender → Prop
  | done _ q _ | ipi _ q _ => q = p
  | _ => False

/-- The sender is between the read of the word of `p` and the interrupt. -/
def visits (p : ℕ) : IpiSender → Prop
  | write _ q _ _ | done _ q _ | ipi _ q _ => q = p
  | _ => False

end IpiSender

/-- Where a processor is in `ki_ipi_service_routine`; for the record, each place keeps the packet whose bit was read. -/
inductive IpiService where
  | idle
  | read
  | clear (request : BitVec 32) (owes : Option (ℕ × IpiPacket))
  | signalDone (owes : Option (ℕ × IpiPacket))
  | field (k : Fin 4) (sender : ℕ) (got : IpiPacket) (owes : Option (ℕ × IpiPacket))
  | storeNull (got : IpiPacket) (owes : Option (ℕ × IpiPacket))
  | call (got : IpiPacket) (owes : Option (ℕ × IpiPacket))

namespace IpiService

def isIdle : IpiService → Bool
  | idle => true
  | _ => false

def owes : IpiService → Option (ℕ × IpiPacket)
  | clear _ o | signalDone o | field _ _ _ o | storeNull _ o | call _ o => o
  | _ => none

/-- Word `k` of the packet is still to be read. -/
def stillReads (k : Fin 4) : IpiService → Prop
  | clear _ _ | signalDone _ => True
  | field j _ _ _ => j ≤ k
  | _ => False

end IpiService

/-- The processors. For the record: the bits not yet seen by the service routine, the packet whose
bit is unread, and the packets sent and called. -/
structure IpiMachine where
  requestSummary : ℕ → BitVec 32
  signalDone : ℕ → Option ℕ
  block : ℕ → IpiPacket
  interrupt : ℕ → Bool
  sender : ℕ → IpiSender
  service : ℕ → IpiService
  owed : ℕ → BitVec 32
  posted : ℕ → Option (ℕ × IpiPacket)
  sent : ℕ → List IpiPacket
  executed : ℕ → List IpiPacket

inductive IpiStep where
  | send (x : ℕ) (targetProcessors : BitVec 64) (ipiRequest : BitVec 32)
  | sendPacket (x : ℕ) (targetProcessors : BitVec 64) (packet : IpiPacket)
  | sender (x : ℕ)
  | service (p : ℕ)

namespace IpiMachine

def init : IpiMachine where
  requestSummary _ := 0
  signalDone _ := none
  block _ _ := 0
  interrupt _ := false
  sender _ := .idle
  service _ := .idle
  owed _ := 0
  posted _ := none
  sent _ := []
  executed _ := []

def target (x : ℕ) (targetProcessors : BitVec 64) : BitVec 64 := targetProcessors &&& ~~~(1#64 <<< x)

def targets (numProcessors : ℕ) (target : BitVec 64) : List ℕ := (range numProcessors).filter target.getLsbD

/-- The next step of the sender on processor `x`. -/
def senderStep (s : IpiMachine) (x : ℕ) : IpiMachine :=
  match s.sender x with
  | .idle => s
  | .store k packet targets =>
    { s with
      block := update s.block x (update (s.block x) k (packet k))
      sender := update s.sender x
        (if h : k.val + 1 < 4 then .store ⟨k.val + 1, h⟩ packet targets else .next (.packet packet) targets) }
  | .next _ [] => { s with sender := update s.sender x .idle }
  | .next job (p :: targets) =>
    { s with sender := update s.sender x (.write job p (s.requestSummary p) targets) }
  | .write (.request ipiRequest) p summary targets =>
    { s with
      requestSummary := update s.requestSummary p (summary ||| ipiRequest)
      sender := update s.sender x (.ipi (.request ipiRequest) p targets)
      owed := update s.owed p (s.owed p ||| ipiRequest) }
  | .write (.packet packet) p summary targets =>
    { s with
      requestSummary := update s.requestSummary p (summary ||| ipiPacketReady)
      sender := update s.sender x (.done packet p targets)
      owed := update s.owed p (s.owed p ||| ipiPacketReady)
      posted := update s.posted p (some (x, packet))
      sent := update s.sent p (packet :: s.sent p) }
  | .done packet p targets =>
    { s with
      signalDone := update s.signalDone p (some x)
      sender := update s.sender x (.ipi (.packet packet) p targets) }
  | .ipi job p targets =>
    { s with
      interrupt := if job.vectorIpi then update s.interrupt p true else s.interrupt
      sender := update s.sender x (.next job targets) }

/-- The next step of the service routine on processor `p`, which an interrupt starts. -/
def serviceStep (s : IpiMachine) (p : ℕ) : IpiMachine :=
  match s.service p with
  | .idle =>
    if s.interrupt p then
      { s with interrupt := update s.interrupt p false, service := update s.service p .read }
    else s
  | .read =>
    if s.requestSummary p &&& ipiPacketReady ≠ 0 then
      { s with
        service := update s.service p (.clear (s.requestSummary p) (s.posted p))
        owed := update s.owed p (s.owed p &&& ~~~s.requestSummary p)
        posted := update s.posted p none }
    else
      { s with
        service := update s.service p (.clear (s.requestSummary p) none)
        owed := update s.owed p (s.owed p &&& ~~~s.requestSummary p) }
  | .clear request owes =>
    { s with
      requestSummary := update s.requestSummary p 0
      service := update s.service p (if request &&& ipiPacketReady ≠ 0 then .signalDone owes else .idle) }
  | .signalDone owes =>
    match s.signalDone p with
    | none => { s with service := update s.service p .idle }
    | some x => { s with service := update s.service p (.field 0 x (fun _ => 0) owes) }
  | .field k x got owes =>
    let got := update got k (s.block x k)
    { s with
      service := update s.service p
        (if h : k.val + 1 < 4 then .field ⟨k.val + 1, h⟩ x got owes else .storeNull got owes) }
  | .storeNull got owes =>
    { s with
      signalDone := update s.signalDone p none
      service := update s.service p (.call got owes) }
  | .call got _ =>
    { s with
      service := update s.service p .idle
      executed := if got 0 ≠ 0 then update s.executed p (got :: s.executed p) else s.executed }

def step (numProcessors : ℕ) (s : IpiMachine) : IpiStep → IpiMachine
  | .send x targetProcessors ipiRequest =>
    match s.sender x with
    | .idle =>
      if target x targetProcessors = 0 ∨ (s.service x).isIdle = false then s
      else
        { s with
          sender := update s.sender x
            (.next (.request ipiRequest) (targets numProcessors (target x targetProcessors))) }
    | _ => s
  | .sendPacket x targetProcessors packet =>
    match s.sender x with
    | .idle =>
      if packet 0 = 0 ∨ target x targetProcessors = 0 ∨ (s.service x).isIdle = false then s
      else
        { s with
          sender := update s.sender x
            (.store 0 packet (targets numProcessors (target x targetProcessors))) }
    | _ => s
  | .sender x => if (s.service x).isIdle then s.senderStep x else s
  | .service p => s.serviceStep p

structure Quiet (s : IpiMachine) (p : ℕ) : Prop where
  senders : ∀ x, ¬(s.sender x).visits p
  interrupt : s.interrupt p = false
  service : s.service p = .idle

/-- A quiet processor has seen every bit, has called each packet once but for those outstanding, and
has none outstanding. -/
def Delivers (s : IpiMachine) : Prop :=
  ∀ p, (s.Quiet p → s.owed p = 0) ∧ ∃ rest, (s.executed p ++ rest).Perm (s.sent p) ∧ (s.Quiet p → rest = [])

/-- No target still has to read word `k` of a packet in the block of `x`. -/
def Unread (s : IpiMachine) (x : ℕ) (k : Fin 4) : Prop :=
  ∀ p packet, s.posted p ≠ some (x, packet) ∧
    ((s.service p).stillReads k → (s.service p).owes ≠ some (x, packet))

/-- A word of a packet is replaced only when nobody still reads it; the word written back has all
bits owed; an interrupt of another kind goes only where nothing is owed or the service routine is
still to come. -/
def SenderSpaced (s : IpiMachine) (x : ℕ) : Prop :=
  match s.sender x with
  | .store k packet _ => packet k = s.block x k ∨ s.Unread x k
  | .write job p summary _ =>
    (∀ i, (s.owed p).getLsbD i = true → (summary ||| job.bits).getLsbD i = true) ∧
      ∀ packet, job = .packet packet → s.posted p = none
  | .ipi job p _ =>
    job.vectorIpi = true ∨ s.owed p = 0 ∨ s.interrupt p = true ∨ s.service p = .read ∨
      ∃ y, y ≠ x ∧ (s.sender y).rings p
  | _ => True

/-- Nothing was sent between the read of the word and the clear, and the handler finds the sender
whose bit was read. -/
def ServiceSpaced (s : IpiMachine) (p : ℕ) : Prop :=
  match s.service p with
  | .clear _ _ => s.owed p = 0
  | .signalDone owes => s.signalDone p = owes.map Prod.fst
  | _ => True

def Spaced (s : IpiMachine) : IpiStep → Prop
  | .sender x => (s.service x).isIdle = true → s.SenderSpaced x
  | .service p => s.ServiceSpaced p
  | _ => True

/-! ### The request word -/

theorem ready_iff (w : BitVec 32) : w &&& ipiPacketReady ≠ 0 ↔ w.getLsbD 3 = true := by
  have h : w &&& ipiPacketReady = if w.getLsbD 3 then ipiPacketReady else 0 := BitVec.and_twoPow w 3
  rw [h]
  cases w.getLsbD 3 with
  | false => simp
  | true => simp [ipiPacketReady]

theorem ready_getLsbD : ipiPacketReady.getLsbD 3 = true := by decide

theorem and_not_eq_zero {v w : BitVec 32} (h : ∀ i, v.getLsbD i = true → w.getLsbD i = true) : v &&& ~~~w = 0 := by
  apply BitVec.eq_of_getLsbD_eq
  intro i hi
  specialize h i
  cases hv : v.getLsbD i with
  | false => simp [hv]
  | true => simp [h hv]

/-! ### The invariant -/

def Stored (block : IpiPacket) : IpiSender → Prop
  | .store k packet _ => packet 0 ≠ 0 ∧ ∀ j < k, block j = packet j
  | .next (.packet packet) _ | .write (.packet packet) _ _ _ | .done packet _ _ | .ipi (.packet packet) _ _ =>
    packet 0 ≠ 0 ∧ block = packet
  | _ => True

def Read : IpiService → Prop
  | .clear request owes => owes ≠ none → request &&& ipiPacketReady ≠ 0
  | .field k x got owes => ∃ packet, owes = some (x, packet) ∧ ∀ j < k, got j = packet j
  | .storeNull got owes | .call got owes => ∃ x, owes = some (x, got)
  | _ => True

def outstanding (s : IpiMachine) (p : ℕ) : List IpiPacket :=
  ((s.posted p).toList ++ ((s.service p).owes).toList).map Prod.snd

structure Inv (s : IpiMachine) : Prop where
  owed : ∀ p i, (s.owed p).getLsbD i = true → (s.requestSummary p).getLsbD i = true
  posted : ∀ p, s.posted p ≠ none → (s.owed p).getLsbD 3 = true
  postedBlock : ∀ p x packet, s.posted p = some (x, packet) → packet 0 ≠ 0 ∧ s.block x = packet
  owesBlock : ∀ p x packet, (s.service p).owes = some (x, packet) →
    packet 0 ≠ 0 ∧ ∀ k, (s.service p).stillReads k → s.block x k = packet k
  stored : ∀ x, Stored (s.block x) (s.sender x)
  read : ∀ p, Read (s.service p)
  account : ∀ p, (s.executed p ++ s.outstanding p).Perm (s.sent p)
  attended : ∀ p, s.owed p ≠ 0 → s.interrupt p = true ∨ s.service p = .read ∨ ∃ x, (s.sender x).rings p

theorem Inv.init : Inv init where
  owed p i h := by simp [IpiMachine.init] at h
  posted p h := absurd rfl h
  postedBlock p x packet h := by cases h
  owesBlock p x packet h := by cases h
  stored x := trivial
  read p := trivial
  account p := .refl _
  attended p h := absurd rfl h

theorem Inv.delivers {s : IpiMachine} (h : s.Inv) : s.Delivers := by
  intro p
  have howed : s.Quiet p → s.owed p = 0 := by
    intro hquiet
    by_contra howed
    rcases h.attended p howed with hinterrupt | hread | ⟨x, hx⟩
    · rw [hquiet.interrupt] at hinterrupt
      cases hinterrupt
    · rw [hquiet.service] at hread
      cases hread
    · apply hquiet.senders x
      cases hpc : s.sender x with
      | done _ q _ | ipi _ q _ =>
        rw [hpc] at hx
        exact hx
      | idle | store _ _ _ | next _ _ | write _ _ _ _ =>
        rw [hpc] at hx
        exact hx.elim
  refine ⟨howed, s.outstanding p, h.account p, fun hquiet => ?_⟩
  have hposted : s.posted p = none := by
    by_contra hposted
    have hbit := h.posted p hposted
    rw [howed hquiet] at hbit
    simp at hbit
  rw [outstanding, hposted, hquiet.service]
  rfl

namespace Inv
variable {s : IpiMachine} {x p : ℕ}

variable {pc : IpiSender}

theorem rings_update {q : ℕ} (hrings : (s.sender x).rings q → pc.rings q)
    (h : ∃ y, (s.sender y).rings q) : ∃ y, (update s.sender x pc y).rings q := by
  obtain ⟨y, hy⟩ := h
  use y
  rcases eq_or_ne y x with rfl | hne
  · rw [update_self]
    exact hrings hy
  · rw [update_of_ne hne]
    exact hy

section
variable (h : s.Inv)
include h

theorem stored_update (hstored : Stored (s.block x) pc) (y : ℕ) :
    Stored (s.block y) (update s.sender x pc y) := by
  rcases eq_or_ne y x with rfl | hne
  · rw [update_self]
    exact hstored
  · rw [update_of_ne hne]
    exact h.stored y

theorem move (hstored : Stored (s.block x) pc)
    (hrings : ∀ q, (s.sender x).rings q → pc.rings q) :
    Inv { s with sender := update s.sender x pc } :=
  { h with
    stored := h.stored_update hstored
    attended := fun q hq => (h.attended q hq).imp_right (Or.imp_right (rings_update (hrings q))) }

variable {ts : List ℕ} {packet : IpiPacket}

/-- A word is stored in the block of the sender, which has no packet with another word there that is still to be read. -/
theorem store {k : Fin 4} (hpc : s.sender x = .store k packet ts)
    (hword : packet k = s.block x k ∨ s.Unread x k) : (s.senderStep x).Inv := by
  have hstored := h.stored x
  rw [hpc] at hstored
  have hother : ∀ y, y ≠ x → update s.block x (update (s.block x) k (packet k)) y = s.block y :=
    fun y hne => update_of_ne hne ..
  have hself : ∀ j, j ≤ k → update (s.block x) k (packet k) j = packet j := by
    intro j hj
    rcases eq_or_ne j k with rfl | hne
    · rw [update_self]
    · rw [update_of_ne hne]
      exact hstored.2 j (Nat.lt_of_le_of_ne hj (Fin.val_ne_of_ne hne))
  have hsame : packet k = s.block x k → update (s.block x) k (packet k) = s.block x := by
    intro heq
    rw [heq, update_eq_self]
  unfold senderStep
  rw [hpc]
  dsimp only
  constructor
  · exact h.owed
  · exact h.posted
  · intro q y pkt hposted
    obtain ⟨hroutine, hblock⟩ := h.postedBlock q y pkt hposted
    refine ⟨hroutine, ?_⟩
    dsimp only
    rcases eq_or_ne y x with rfl | hne
    · rw [update_self]
      rcases hword with heq | hunread
      · rw [hsame heq]
        exact hblock
      · exact absurd hposted (hunread q pkt).1
    · rw [hother y hne]
      exact hblock
  · intro q y pkt howes
    obtain ⟨hroutine, hblock⟩ := h.owesBlock q y pkt howes
    refine ⟨hroutine, fun j hreads => ?_⟩
    dsimp only
    rcases eq_or_ne y x with rfl | hne
    · rw [update_self]
      rcases hword with heq | hunread
      · rw [hsame heq]
        exact hblock j hreads
      · have hj : j ≠ k := by
          rintro rfl
          exact (hunread q pkt).2 hreads howes
        rw [update_of_ne hj]
        exact hblock j hreads
    · rw [hother y hne]
      exact hblock j hreads
  · intro y
    dsimp only
    rcases eq_or_ne y x with rfl | hne
    · simp only [update_self]
      split_ifs with hk
      · refine ⟨hstored.1, fun j hj => hself j ?_⟩
        rw [Fin.lt_def] at hj
        rw [Fin.le_def]
        dsimp only at hj
        omega
      · refine ⟨hstored.1, funext fun j => hself j ?_⟩
        rw [Fin.le_def]
        omega
    · rw [hother y hne, update_of_ne hne]
      exact h.stored y
  · exact h.read
  · exact h.account
  · intro q hq
    refine (h.attended q hq).imp_right (Or.imp_right (rings_update fun hrings => ?_))
    rw [hpc] at hrings
    cases hrings

theorem writeRequest {ipiRequest summary : BitVec 32}
    (hpc : s.sender x = .write (.request ipiRequest) p summary ts)
    (hkept : ∀ i, (s.owed p).getLsbD i = true → (summary ||| ipiRequest).getLsbD i = true) :
    (s.senderStep x).Inv := by
  unfold senderStep
  rw [hpc]
  refine { h with owed := fun q i => ?_, posted := fun q hposted => ?_, stored := ?_, attended := fun q hq => ?_ }
  · dsimp only
    rcases eq_or_ne q p with rfl | hne
    · rw [update_self, update_self, BitVec.getLsbD_or, Bool.or_eq_true]
      rintro (hold | hnew)
      · exact hkept i hold
      · rw [BitVec.getLsbD_or, hnew, Bool.or_true]
    · rw [update_of_ne hne, update_of_ne hne]
      exact h.owed q i
  · have hbit := h.posted q hposted
    dsimp only
    rcases eq_or_ne q p with rfl | hne
    · rw [update_self, BitVec.getLsbD_or, hbit, Bool.true_or]
    · rw [update_of_ne hne]
      exact hbit
  · exact h.stored_update trivial
  · dsimp only at hq ⊢
    rcases eq_or_ne q p with rfl | hne
    · refine .inr (.inr ⟨x, ?_⟩)
      rw [update_self]
      rfl
    · rw [update_of_ne hne] at hq
      refine (h.attended q hq).imp_right (Or.imp_right (rings_update fun hrings => ?_))
      rw [hpc] at hrings
      cases hrings

theorem writePacket {summary : BitVec 32}
    (hpc : s.sender x = .write (.packet packet) p summary ts)
    (hkept : ∀ i, (s.owed p).getLsbD i = true → (summary ||| ipiPacketReady).getLsbD i = true)
    (htaken : s.posted p = none) : (s.senderStep x).Inv := by
  have hstored := h.stored x
  rw [hpc] at hstored
  unfold senderStep
  rw [hpc]
  refine
    { h with
      owed := fun q i => ?_, posted := fun q hposted => ?_, postedBlock := fun q y pkt hposted => ?_
      stored := ?_, account := fun q => ?_, attended := fun q hq => ?_ }
  · dsimp only
    rcases eq_or_ne q p with rfl | hne
    · rw [update_self, update_self, BitVec.getLsbD_or, Bool.or_eq_true]
      rintro (hold | hnew)
      · exact hkept i hold
      · rw [BitVec.getLsbD_or, hnew, Bool.or_true]
    · rw [update_of_ne hne, update_of_ne hne]
      exact h.owed q i
  · dsimp only at hposted ⊢
    rcases eq_or_ne q p with rfl | hne
    · rw [update_self, BitVec.getLsbD_or, ready_getLsbD, Bool.or_true]
    · rw [update_of_ne hne] at hposted ⊢
      exact h.posted q hposted
  · dsimp only at hposted ⊢
    rcases eq_or_ne q p with rfl | hne
    · rw [update_self] at hposted
      cases hposted
      exact hstored
    · rw [update_of_ne hne] at hposted
      exact h.postedBlock q y pkt hposted
  · exact h.stored_update hstored
  · have haccount := h.account q
    rcases eq_or_ne q p with rfl | hne
    · simp only [outstanding, htaken, Option.toList_none, nil_append] at haccount
      simp only [outstanding, update_self, Option.toList_some, singleton_append, map_cons]
      exact perm_middle.trans (haccount.cons packet)
    · simp only [outstanding, update_of_ne hne] at haccount ⊢
      exact haccount
  · dsimp only at hq ⊢
    rcases eq_or_ne q p with rfl | hne
    · refine .inr (.inr ⟨x, ?_⟩)
      rw [update_self]
      rfl
    · rw [update_of_ne hne] at hq
      refine (h.attended q hq).imp_right (Or.imp_right (rings_update fun hrings => ?_))
      rw [hpc] at hrings
      cases hrings

theorem done (hpc : s.sender x = .done packet p ts) :
    (s.senderStep x).Inv := by
  have hstored := h.stored x
  rw [hpc] at hstored
  have hmove : Inv { s with sender := update s.sender x (.ipi (.packet packet) p ts) } := by
    refine h.move (show Stored (s.block x) (.ipi (.packet packet) p ts) from hstored) fun q hq => ?_
    rw [hpc] at hq
    exact hq
  unfold senderStep
  rw [hpc]
  exact { hmove with }

theorem ipi {job : IpiJob} (hpc : s.sender x = .ipi job p ts)
    (hattended : job.vectorIpi = true ∨ s.owed p = 0 ∨ s.interrupt p = true ∨ s.service p = .read ∨
      ∃ y, y ≠ x ∧ (s.sender y).rings p) : (s.senderStep x).Inv := by
  have hstored := h.stored x
  rw [hpc] at hstored
  have hinterrupt : ∀ q, s.interrupt q = true →
      (if job.vectorIpi then update s.interrupt p true else s.interrupt) q = true := by
    intro q hq
    split_ifs
    · rcases eq_or_ne q p with rfl | hne
      · rw [update_self]
      · rw [update_of_ne hne]
        exact hq
    · exact hq
  unfold senderStep
  rw [hpc]
  refine { h with stored := ?_, attended := fun q hq => ?_ }
  · apply h.stored_update
    cases job with
    | request ipiRequest => trivial
    | packet packet => exact hstored
  · dsimp only at hq ⊢
    rcases eq_or_ne q p with rfl | hne
    · rcases hattended with hvector | hnone | hpending | hread | ⟨y, hne, hy⟩
      · rw [if_pos hvector, update_self]
        exact .inl rfl
      · exact absurd hnone hq
      · exact .inl (hinterrupt q hpending)
      · exact .inr (.inl hread)
      · refine .inr (.inr ⟨y, ?_⟩)
        rw [update_of_ne hne]
        exact hy
    · refine (h.attended q hq).imp (hinterrupt q) (Or.imp_right (rings_update fun hrings => ?_))
      rw [hpc] at hrings
      exact absurd hrings.symm hne

theorem sender (hspaced : s.SenderSpaced x) : (s.senderStep x).Inv := by
  have hstored := h.stored x
  unfold SenderSpaced at hspaced
  cases hpc : s.sender x with
  | idle =>
    unfold senderStep
    rw [hpc]
    exact h
  | store k packet ts =>
    rw [hpc] at hspaced
    exact h.store hpc hspaced
  | next job ts =>
    rw [hpc] at hstored
    unfold senderStep
    rw [hpc]
    cases ts with
    | nil =>
      refine h.move trivial fun q hq => ?_
      rw [hpc] at hq
      cases hq
    | cons p ts =>
      refine h.move ?_ fun q hq => ?_
      · cases job with
        | request ipiRequest => trivial
        | packet packet => exact hstored
      · rw [hpc] at hq
        cases hq
  | write job p summary ts =>
    rw [hpc] at hspaced
    cases job with
    | request ipiRequest => exact h.writeRequest hpc hspaced.1
    | packet packet => exact h.writePacket hpc hspaced.1 (hspaced.2 packet rfl)
  | done packet p ts => exact h.done hpc
  | ipi job p ts =>
    rw [hpc] at hspaced
    exact h.ipi hpc hspaced

/-- The service routine on a processor moves on with the packet it owes, and nothing else that the invariant reads of it
changes. -/
theorem advance {pc : IpiService} (howes : pc.owes = (s.service p).owes)
    (hstillReads : ∀ k, pc.stillReads k → (s.service p).stillReads k) (hread : Read pc)
    (hattended : s.owed p ≠ 0 → s.service p = .read → pc = .read) :
    Inv { s with service := update s.service p pc } := by
  refine
    { h with
      owesBlock := fun q x packet hq => ?_, read := fun q => ?_, account := fun q => ?_, attended := fun q hq => ?_ }
  · dsimp only at hq ⊢
    rcases eq_or_ne q p with rfl | hne
    · rw [update_self] at hq ⊢
      rw [howes] at hq
      obtain ⟨hroutine, hblock⟩ := h.owesBlock q x packet hq
      exact ⟨hroutine, fun k hk => hblock k (hstillReads k hk)⟩
    · rw [update_of_ne hne] at hq ⊢
      exact h.owesBlock q x packet hq
  · dsimp only
    rcases eq_or_ne q p with rfl | hne
    · rw [update_self]
      exact hread
    · rw [update_of_ne hne]
      exact h.read q
  · have haccount := h.account q
    rcases eq_or_ne q p with rfl | hne
    · simp only [outstanding, update_self, howes] at haccount ⊢
      exact haccount
    · simp only [outstanding, update_of_ne hne] at haccount ⊢
      exact haccount
  · dsimp only at hq ⊢
    refine (h.attended q hq).imp_right (Or.imp_left fun hidle => ?_)
    rcases eq_or_ne q p with rfl | hne
    · rw [update_self]
      exact hattended hq hidle
    · rw [update_of_ne hne]
      exact hidle

theorem interrupt (hpc : s.service p = .idle) :
    Inv { s with interrupt := update s.interrupt p false, service := update s.service p .read } := by
  have hadvance : Inv { s with service := update s.service p .read } := by
    apply h.advance
    · rw [hpc]
      rfl
    · exact fun _ hfalse => hfalse.elim
    · trivial
    · exact fun _ _ => rfl
  refine { hadvance with attended := fun q hq => ?_ }
  dsimp only
  rcases eq_or_ne q p with rfl | hne
  · rw [update_self]
    exact .inr (.inl (update_self ..))
  · rw [update_of_ne hne]
    exact hadvance.attended q hq

theorem owed_read (p : ℕ) : s.owed p &&& ~~~s.requestSummary p = 0 := and_not_eq_zero (h.owed p)

theorem posted_ready (hposted : s.posted p ≠ none) : s.requestSummary p &&& ipiPacketReady ≠ 0 :=
  (ready_iff _).2 (h.owed p 3 (h.posted p hposted))

variable {owes : Option (ℕ × IpiPacket)}

theorem readSummary (hpc : s.service p = .read) (howes : owes = s.posted p)
    {request : BitVec 32} (hrequest : request = s.requestSummary p) :
    Inv { s with
      service := update s.service p (.clear request owes)
      owed := update s.owed p (s.owed p &&& ~~~request)
      posted := update s.posted p none } := by
  have hnone : s.owed p &&& ~~~request = 0 := by
    rw [hrequest]
    exact h.owed_read p
  rw [hnone]
  refine
    { h with
      owed := fun q i hi => ?_, posted := fun q hposted => ?_, postedBlock := fun q x packet hposted => ?_
      owesBlock := fun q x packet hq => ?_, read := fun q => ?_, account := fun q => ?_, attended := fun q hq => ?_ }
  · dsimp only at hi ⊢
    rcases eq_or_ne q p with rfl | hne
    · rw [update_self] at hi
      simp at hi
    · rw [update_of_ne hne] at hi
      exact h.owed q i hi
  · dsimp only at hposted ⊢
    rcases eq_or_ne q p with rfl | hne
    · exact absurd (update_self ..) hposted
    · rw [update_of_ne hne] at hposted ⊢
      exact h.posted q hposted
  · dsimp only at hposted ⊢
    rcases eq_or_ne q p with rfl | hne
    · rw [update_self] at hposted
      cases hposted
    · rw [update_of_ne hne] at hposted
      exact h.postedBlock q x packet hposted
  · dsimp only at hq ⊢
    rcases eq_or_ne q p with rfl | hne
    · rw [update_self] at hq
      obtain ⟨hroutine, hblock⟩ := h.postedBlock q x packet (howes.symm.trans hq)
      exact ⟨hroutine, fun k _ => congrFun hblock k⟩
    · rw [update_of_ne hne] at hq ⊢
      exact h.owesBlock q x packet hq
  · dsimp only
    rcases eq_or_ne q p with rfl | hne
    · rw [update_self]
      intro howed
      rw [hrequest]
      rw [howes] at howed
      exact h.posted_ready howed
    · rw [update_of_ne hne]
      exact h.read q
  · have haccount := h.account q
    rcases eq_or_ne q p with rfl | hne
    · simp only [outstanding, hpc, IpiService.owes, Option.toList_none, append_nil] at haccount
      simp only [outstanding, update_self, IpiService.owes, howes, Option.toList_none, nil_append]
      exact haccount
    · simp only [outstanding, update_of_ne hne] at haccount ⊢
      exact haccount
  · dsimp only at hq ⊢
    rcases eq_or_ne q p with rfl | hne
    · exact absurd (update_self ..) hq
    · rw [update_of_ne hne] at hq ⊢
      exact h.attended q hq

theorem read_step (hpc : s.service p = .read) : (s.serviceStep p).Inv := by
  unfold serviceStep
  rw [hpc]
  dsimp only
  split_ifs with hready
  · exact h.readSummary hpc rfl rfl
  · have hposted : s.posted p = none := by
      by_contra hposted
      exact hready (h.posted_ready hposted)
    have hsame : update s.posted p none = s.posted := by
      rw [← hposted, update_eq_self]
    have hnew := h.readSummary hpc hposted.symm rfl
    rw [hsame] at hnew
    exact hnew

theorem clear {request : BitVec 32} (hpc : s.service p = .clear request owes) (hnone : s.owed p = 0) :
    (s.serviceStep p).Inv := by
  have hread := h.read p
  rw [hpc] at hread
  have hadvance : Inv
      { s with
        service := update s.service p (if request &&& ipiPacketReady ≠ 0 then .signalDone owes else .idle) } := by
    apply h.advance
    · rw [hpc]
      split_ifs with hready
      · rfl
      · by_contra howes
        exact hready (hread fun heq => howes heq.symm)
    · intro k _
      rw [hpc]
      trivial
    · split_ifs <;> trivial
    · exact fun hsome => absurd hnone hsome
  unfold serviceStep
  rw [hpc]
  refine { hadvance with owed := fun q i hi => ?_ }
  dsimp only at hi ⊢
  rcases eq_or_ne q p with rfl | hne
  · rw [hnone] at hi
    simp at hi
  · rw [update_of_ne hne]
    exact h.owed q i hi

theorem signalDone (hpc : s.service p = .signalDone owes)
    (hfinds : s.signalDone p = owes.map Prod.fst) : (s.serviceStep p).Inv := by
  unfold serviceStep
  rw [hpc]
  dsimp only
  cases owes with
  | none =>
    rw [hfinds]
    apply h.advance
    · rw [hpc]
      rfl
    · exact fun _ hfalse => hfalse.elim
    · trivial
    · intro _ hread
      rw [hpc] at hread
      cases hread
  | some post =>
    obtain ⟨x, packet⟩ := post
    rw [hfinds]
    apply h.advance
    · rw [hpc]
      rfl
    · intro k _
      rw [hpc]
      trivial
    · exact ⟨packet, rfl, fun j hj => absurd hj (Fin.not_lt_zero j)⟩
    · intro _ hread
      rw [hpc] at hread
      cases hread

variable {got : IpiPacket}

theorem field {k : Fin 4} (hpc : s.service p = .field k x got owes) : (s.serviceStep p).Inv := by
  obtain ⟨packet, howes, hgot⟩ : Read (.field k x got owes) := hpc ▸ h.read p
  have hblock : s.block x k = packet k := by
    apply (h.owesBlock p x packet (by rw [hpc]; exact howes)).2
    rw [hpc]
    exact Nat.le_refl _
  have hgot' : ∀ j, j ≤ k → update got k (s.block x k) j = packet j := by
    intro j hj
    rcases eq_or_ne j k with rfl | hne
    · rw [update_self, hblock]
    · rw [update_of_ne hne]
      exact hgot j (Nat.lt_of_le_of_ne hj (Fin.val_ne_of_ne hne))
  unfold serviceStep
  rw [hpc]
  dsimp only
  apply h.advance
  · rw [hpc]
    split_ifs <;> rfl
  · intro j hj
    rw [hpc]
    split_ifs at hj with hk
    · rw [IpiService.stillReads, Fin.le_def] at hj ⊢
      dsimp only at hj
      omega
    · exact hj.elim
  · split_ifs with hk
    · refine ⟨packet, howes, fun j hj => hgot' j ?_⟩
      rw [Fin.lt_def] at hj
      rw [Fin.le_def]
      dsimp only at hj
      omega
    · have heq : update got k (s.block x k) = packet := by
        funext j
        apply hgot'
        rw [Fin.le_def]
        omega
      rw [heq]
      exact ⟨x, howes⟩
  · intro _ hread
    rw [hpc] at hread
    cases hread

theorem storeNull (hpc : s.service p = .storeNull got owes) : (s.serviceStep p).Inv := by
  have hread := h.read p
  rw [hpc] at hread
  have hadvance : Inv { s with service := update s.service p (.call got owes) } := by
    apply h.advance
    · rw [hpc]
      rfl
    · exact fun _ hfalse => hfalse.elim
    · exact hread
    · intro _ hread
      rw [hpc] at hread
      cases hread
  unfold serviceStep
  rw [hpc]
  exact { hadvance with }

theorem call (hpc : s.service p = .call got owes) :
    (s.serviceStep p).Inv := by
  obtain ⟨x, howes⟩ : Read (.call got owes) := hpc ▸ h.read p
  have hroutine : got 0 ≠ 0 := (h.owesBlock p x got (by rw [hpc]; exact howes)).1
  unfold serviceStep
  rw [hpc]
  dsimp only
  rw [if_pos hroutine]
  refine
    { h with
      owesBlock := fun q y packet hq => ?_, read := fun q => ?_, account := fun q => ?_, attended := fun q hq => ?_ }
  · dsimp only at hq ⊢
    rcases eq_or_ne q p with rfl | hne
    · rw [update_self] at hq
      cases hq
    · rw [update_of_ne hne] at hq ⊢
      exact h.owesBlock q y packet hq
  · dsimp only
    rcases eq_or_ne q p with rfl | hne
    · rw [update_self]
      trivial
    · rw [update_of_ne hne]
      exact h.read q
  · have haccount := h.account q
    rcases eq_or_ne q p with rfl | hne
    · simp only [outstanding, hpc, IpiService.owes, howes, Option.toList_some, map_append, map_singleton] at haccount
      simp only [outstanding, update_self, IpiService.owes, Option.toList_none, append_nil, cons_append]
      rw [← append_assoc] at haccount
      exact (perm_append_singleton _ _).symm.trans haccount
    · simp only [outstanding, update_of_ne hne] at haccount ⊢
      exact haccount
  · dsimp only at hq ⊢
    refine (h.attended q hq).imp_right (Or.imp_left fun hread => ?_)
    rcases eq_or_ne q p with rfl | hne
    · rw [hpc] at hread
      cases hread
    · rw [update_of_ne hne]
      exact hread

theorem service (hspaced : s.ServiceSpaced p) : (s.serviceStep p).Inv := by
  unfold ServiceSpaced at hspaced
  cases hpc : s.service p with
  | idle =>
    unfold serviceStep
    rw [hpc]
    dsimp only
    split_ifs
    · exact h.interrupt hpc
    · exact h
  | read => exact h.read_step hpc
  | clear request owes =>
    rw [hpc] at hspaced
    exact h.clear hpc hspaced
  | signalDone owes =>
    rw [hpc] at hspaced
    exact h.signalDone hpc hspaced
  | field k x got owes => exact h.field hpc
  | storeNull got owes => exact h.storeNull hpc
  | call got owes => exact h.call hpc

end

theorem step (numProcessors : ℕ) (h : s.Inv) (a : IpiStep) (hspaced : s.Spaced a) :
    (s.step numProcessors a).Inv := by
  unfold IpiMachine.step
  cases a with
  | send x targetProcessors ipiRequest =>
    dsimp only
    split
    next hpc =>
      split_ifs
      · exact h
      · refine h.move trivial fun q hq => ?_
        rw [hpc] at hq
        cases hq
    next => exact h
  | sendPacket x targetProcessors packet =>
    dsimp only
    split
    next hpc =>
      split_ifs with hrefused
      · exact h
      · refine h.move ⟨fun hroutine => hrefused (.inl hroutine), fun j hj => absurd hj (Fin.not_lt_zero j)⟩ fun q hq => ?_
        rw [hpc] at hq
        cases hq
    next => exact h
  | sender x =>
    dsimp only
    split_ifs with hidle
    · exact h.sender (hspaced hidle)
    · exact h
  | service p => exact h.service hspaced

end Inv

/-- In every run whose steps find what they must, every bit is seen and every packet is executed
once as it was sent. -/
theorem everyState_delivers (numProcessors : ℕ) (steps : List IpiStep)
    (hspaced : EveryStep (step numProcessors) Spaced init steps) : EveryState (step numProcessors) Delivers init steps :=
  (everyState_invariant (fun _ a h hspaced => h.step numProcessors a hspaced) Inv.init hspaced).imp fun _ h => h.delivers

/-- A packet from its send to the call of its routine. -/
theorem everyState_delivers_packet :
    EveryState (step 2) Delivers init
      (.sendPacket 1 1 (fun k => k.val + 7) :: (replicate 9 (.sender 1) ++ replicate 10 (.service 0))) := by
  apply everyState_delivers
  have hunread : ∀ k : Fin 4, Unread init 1 k := fun k p packet => ⟨nofun, fun hfalse => hfalse.elim⟩
  refine ⟨trivial, fun _ => .inr (hunread 0), fun _ => .inr (hunread 1), fun _ => .inr (hunread 2), fun _ => .inr (hunread 3),
    fun _ => trivial, fun _ => ⟨fun i hi => ?_, fun _ _ => rfl⟩, fun _ => trivial, fun _ => .inl rfl, fun _ => trivial,
    trivial, trivial, rfl, rfl, trivial, trivial, trivial, trivial, trivial, trivial, trivial⟩
  exact absurd (hi.symm.trans BitVec.getLsbD_zero) (by decide)

/-- Processors 1 and 2 read the word of processor 0 before either writes it. -/
def lostPacket : List IpiStep :=
  [.send 1 1 16, .sendPacket 2 1 (fun k => k.val + 7), .sender 2, .sender 2, .sender 2, .sender 2, .sender 1, .sender 2,
    .sender 2, .sender 1, .sender 2, .sender 2, .sender 1, .sender 2, .sender 1, .service 0, .service 0, .service 0]

/-- The write of one sender takes the bit of the other out of the word, and the packet is never executed. -/
theorem lostPacket_stays : ¬EveryState (step 3) Delivers init lostPacket := by
  intro h
  have hlast := everyState_iff_take.1 h lostPacket.length
  rw [take_length] at hlast
  have hquiet : Quiet (run (step 3) init lostPacket) 0 := by
    refine ⟨fun x => ?_, rfl, rfl⟩
    match x with
    | 0 | 1 | 2 => exact id
    | x + 3 => exact id
  exact absurd ((hlast 0).1 hquiet) (by decide)

end IpiMachine

end XenOS.Ke
