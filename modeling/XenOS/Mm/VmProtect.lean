import XenOS.General.Updates
import XenOS.Mm.VadMap

/-! `NtProtectVirtualMemory`: the region is split around the range, in one of four shapes, the part
gets the new protection, and its entries are rewritten. -/

namespace XenOS.Mm

open General BinaryTree MmvadFlags
open Function (update_self update_of_ne)

def miProtectionToPageConstant (mmProtect : BitVec 32) : BitVec 32 :=
  let base := (mmProtect &&& 7#32).toNat
  let modifiers := mmProtect &&& ~~~7#32
  let pageBase :=
    if base = mmReadonly then pageReadonly
    else if base = mmExecute then pageExecute
    else if base = mmExecuteRead then pageExecuteRead
    else if base = mmReadwrite then pageReadwrite
    else if base = mmWritecopy then pageWritecopy
    else if base = mmExecuteReadwrite then pageExecuteReadwrite
    else if base = mmExecuteWritecopy then pageExecuteWritecopy
    else pageNoaccess
  let result := if modifiers &&& mmGuardpage ≠ 0 then pageBase ||| pageGuard else pageBase
  let result := if modifiers &&& mmNocache ≠ 0 then result ||| pageNocache else result
  if modifiers &&& mmWritecombine ≠ 0 then result ||| pageWritecombine else result

structure ProtectState where
  vads : MmAvlTable
  ptes : ℕ → Pte
  baseAddress : ℕ
  regionSize : ℕ
  oldProtect : BitVec 32

/-- The four shapes: the node of the part in the range, or null where a split fails. The pool gives a node
for each split. -/
def MmAvlTable.splitAround (t : MmAvlTable) (vad startVpn endVpn : ℕ) (pool : ℕ × ℕ) : Option (ℕ × MmAvlTable) :=
  if startVpn = t.startingVpn vad ∧ endVpn = t.endingVpn vad then some (vad, t)
  else if startVpn = t.startingVpn vad then
    (t.miSplitVad vad (endVpn + 1) pool.1).map fun r => (if r.1 = 0 then 0 else vad, r.2)
  else if endVpn = t.endingVpn vad then t.miSplitVad vad startVpn pool.1
  else
    (t.miSplitVad vad startVpn pool.1).bind fun r =>
      if r.1 = 0 then some (0, r.2)
      else (r.2.miSplitVad r.1 (endVpn + 1) pool.2).map fun q => (if q.1 = 0 then 0 else r.1, q.2)

/-- `mi_protect_virtual_memory_internal`; `none` where an address overflows, which stops the kernel. -/
def ProtectState.miProtectVirtualMemoryInternal (s : ProtectState) (requestedBase requestedSize : ℕ) (newProtect : BitVec 32)
    (pool : ℕ × ℕ) : Option (Ntstatus × ProtectState) :=
  if 2 ^ 64 ≤ requestedBase + requestedSize + (pageSize - 1) then none
  else
    let startVa := pageAlign requestedBase
    let endVa := pageAlignUp (requestedBase + requestedSize)
    if endVa = 0 then none
    else
      let startVpn := startVa / pageSize
      let endVpn := (endVa - 1) / pageSize
      (s.vads.findVad startVa).bind fun vad =>
        if vad = 0 then some (.memoryNotAllocated, s)
        else if startVpn < s.vads.startingVpn vad ∨ s.vads.endingVpn vad < endVpn then some (.invalidParameter, s)
        else
          let s := { s with oldProtect := miProtectionToPageConstant (protection (s.vads.flags vad)) }
          let newMmProtect := miConvertProtection newProtect
          (s.vads.splitAround vad startVpn endVpn pool).map fun r =>
            if r.1 = 0 then (.noMemory, { s with vads := r.2 })
            else
              (.success,
                { s with
                  vads := r.2.setFlags r.1 (setProtection (r.2.flags r.1) newMmProtect)
                  ptes := updateAll (protectPte newMmProtect) (protectedEntries requestedBase requestedSize) s.ptes
                  baseAddress := startVa
                  regionSize := endVa - startVa })

namespace MmAvlTable

def FromPool (t : MmAvlTable) (pool : ℕ × ℕ) : Prop :=
  (pool.1 = 0 ∨ ¬ t.Reachable pool.1) ∧ (pool.2 = 0 ∨ ¬ t.Reachable pool.2 ∧ pool.2 ≠ pool.1)

def SplitFails (t : MmAvlTable) (vad startVpn endVpn : ℕ) (pool : ℕ × ℕ) : Prop :=
  pool.1 = 0 ∧ ¬ (startVpn = t.startingVpn vad ∧ endVpn = t.endingVpn vad) ∨
    pool.1 ≠ 0 ∧ pool.2 = 0 ∧ startVpn ≠ t.startingVpn vad ∧ endVpn ≠ t.endingVpn vad

instance (t : MmAvlTable) (vad startVpn endVpn : ℕ) (pool : ℕ × ℕ) : Decidable (t.SplitFails vad startVpn endVpn pool) :=
  inferInstanceAs (Decidable (_ ∨ _))

structure Carved (t : MmAvlTable) (vad startVpn endVpn target : ℕ) (t' : MmAvlTable) : Prop where
  inv : ∃ u', t'.Inv u'
  reachable : t'.Reachable target
  range : t'.startingVpn target = startVpn ∧ t'.endingVpn target = endVpn
  flags : t'.flags target = t.flags vad
  describes : ∀ vpn a, t'.Describes vpn a ↔ t.Describes vpn a

variable {t : MmAvlTable} {u : BinaryTree ℕ} {vad startVpn endVpn : ℕ} {pool : ℕ × ℕ}

theorem Inv.splitAround (h : t.Inv u) (hv : t.Reachable vad) (hpool : t.FromPool pool) (hstart : t.startingVpn vad ≤ startVpn)
    (hle : startVpn ≤ endVpn) (hend : endVpn ≤ t.endingVpn vad) :
    (t.SplitFails vad startVpn endVpn pool → ∃ t', t.splitAround vad startVpn endVpn pool = some (0, t') ∧
      (pool.1 = 0 → t' = t) ∧ (pool.1 ≠ 0 → SplitOff t vad startVpn pool.1 t')) ∧
    (¬ t.SplitFails vad startVpn endVpn pool → ∃ target t', t.splitAround vad startVpn endVpn pool = some (target, t') ∧
      target ≠ 0 ∧ Carved t vad startVpn endVpn target t') := by
  have hv0 := h.wellFormed.ne_zero hv
  have hne1 : pool.1 ≠ 0 → vad ≠ pool.1 := by
    rintro hn0 rfl
    exact hpool.1.resolve_left hn0 hv
  unfold MmAvlTable.splitAround SplitFails
  by_cases hs : startVpn = t.startingVpn vad
  · by_cases he : endVpn = t.endingVpn vad
    · -- the whole region
      refine ⟨fun hf => by omega, fun _ => ⟨vad, t, if_pos ⟨hs, he⟩, hv0, ⟨u, h⟩, hv, ⟨hs.symm, he.symm⟩, rfl, fun _ _ => Iff.rfl⟩⟩
    · -- its first pages
      rw [if_neg fun hc => he hc.2, if_pos hs]
      rcases h.miSplitVad hv hpool.1 (endVpn + 1) with ⟨hno, hret⟩ | ⟨hn0, t', hret, hsplit⟩
      · rw [hret]
        exact ⟨fun hf => ⟨t, rfl, fun _ => rfl, fun hn => by omega⟩, fun hf => by omega⟩
      · rw [hret]
        refine ⟨fun hf => by omega, fun _ => ⟨vad, t', by simp [hn0], hv0, ?_⟩⟩
        exact
          { inv := hsplit.inv
            reachable := (hsplit.reachable vad).2 (Or.inl hv)
            range := by
              rw [hsplit.startingVpn, hsplit.endingVpn, update_of_ne (hne1 hn0), update_self]
              exact ⟨hs.symm, rfl⟩
            flags := by rw [hsplit.flags, update_of_ne (hne1 hn0)]
            describes := hsplit.describes (hpool.1.resolve_left hn0) hv }
  · rw [if_neg fun hc => hs hc.1, if_neg hs]
    by_cases he : endVpn = t.endingVpn vad
    · -- its last pages
      rw [if_pos he]
      rcases h.miSplitVad hv hpool.1 startVpn with ⟨hno, hret⟩ | ⟨hn0, t', hret, hsplit⟩
      · rw [hret]
        exact ⟨fun hf => ⟨t, rfl, fun _ => rfl, fun hn => by omega⟩, fun hf => by omega⟩
      · rw [hret]
        refine ⟨fun hf => by omega, fun _ => ⟨pool.1, t', rfl, hn0, ?_⟩⟩
        exact
          { inv := hsplit.inv
            reachable := (hsplit.reachable _).2 (Or.inr rfl)
            range := by
              rw [hsplit.startingVpn, hsplit.endingVpn, update_self, update_of_ne (hne1 hn0).symm, update_self]
              exact ⟨rfl, he.symm⟩
            flags := by rw [hsplit.flags, update_self]
            describes := hsplit.describes (hpool.1.resolve_left hn0) hv }
    · -- pages in the middle
      rw [if_neg he]
      rcases h.miSplitVad hv hpool.1 startVpn with ⟨hno, hret⟩ | ⟨hn0, t1, hret, hsplit⟩
      · rw [hret]
        exact ⟨fun hf => ⟨t, rfl, fun _ => rfl, fun hn => by omega⟩, fun hf => by omega⟩
      · rw [hret]
        simp only [Option.bind_some, if_neg hn0]
        obtain ⟨u1, h1⟩ := hsplit.inv
        have hmiddle : t1.Reachable pool.1 := (hsplit.reachable _).2 (Or.inr rfl)
        have hfresh2 : pool.2 = 0 ∨ ¬ t1.Reachable pool.2 := hpool.2.imp_right fun hp => by
          rw [hsplit.reachable]
          exact fun hc => hc.elim hp.1 hp.2
        have hstart1 : t1.startingVpn pool.1 = startVpn := by rw [hsplit.startingVpn, update_self]
        have hend1 : t1.endingVpn pool.1 = t.endingVpn vad := by
          rw [hsplit.endingVpn, update_of_ne (hne1 hn0).symm, update_self]
        rcases h1.miSplitVad hmiddle hfresh2 (endVpn + 1) with ⟨hno, hret1⟩ | ⟨hn2, t2, hret1, hsplit1⟩
        · rw [hret1]
          exact ⟨fun hf => ⟨t1, rfl, fun hp => absurd hp hn0, fun _ => hsplit⟩, fun hf => by omega⟩
        · rw [hret1]
          have hne2 : pool.1 ≠ pool.2 := ((hpool.2.resolve_left hn2).2).symm
          refine ⟨fun hf => by omega, fun _ => ⟨pool.1, t2, by simp [hn2], hn0, ?_⟩⟩
          exact
            { inv := hsplit1.inv
              reachable := (hsplit1.reachable _).2 (Or.inl hmiddle)
              range := by
                rw [hsplit1.startingVpn, hsplit1.endingVpn, update_of_ne hne2, update_self]
                exact ⟨hstart1, rfl⟩
              flags := by rw [hsplit1.flags, update_of_ne hne2, hsplit.flags, update_self]
              describes := fun vpn a => (hsplit1.describes (hfresh2.resolve_left hn2) hmiddle vpn a).trans
                (hsplit.describes (hpool.1.resolve_left hn0) hv vpn a) }

theorem describes_setFlags (h : t.Inv u) {target : ℕ} (htarget : t.Reachable target) (value : BitVec 32) (vpn : ℕ) (a : VadAttributes) :
    (t.setFlags target value).Describes vpn a ↔
      (t.Contains target vpn ∧ vadAttributes value = a) ∨ (¬ t.Contains target vpn ∧ t.Describes vpn a) := by
  have hreach : ∀ p, (t.setFlags target value).Reachable p ↔ t.Reachable p := fun p =>
    (h.setFlags target value).isTree.reachable_iff.trans h.isTree.reachable_iff.symm
  have hself : (t.setFlags target value).flags target = value := update_self ..
  have hother : ∀ p, p ≠ target → (t.setFlags target value).flags p = t.flags p := fun p hp => update_of_ne hp _ _
  constructor
  · rintro ⟨p, hp, hc, rfl⟩
    by_cases hpt : p = target
    · subst hpt
      exact Or.inl ⟨hc, by rw [hself]⟩
    · refine Or.inr ⟨fun hct => hpt (h.wellFormed.contains_unique ((hreach p).1 hp) htarget hc hct), p, (hreach p).1 hp, hc, ?_⟩
      rw [hother p hpt]
  · rintro (⟨hc, rfl⟩ | ⟨hc, p, hp, hcp, rfl⟩)
    · exact ⟨target, (hreach _).2 htarget, hc, by rw [hself]⟩
    · refine ⟨p, (hreach p).2 hp, hcp, ?_⟩
      rw [hother]
      rintro rfl
      exact hc hcp

end MmAvlTable

/-! ### Fields -/

theorem setProtection_and (value p : BitVec 32) {mask : BitVec 32} (hm : mask &&& 0xF8#32 = 0#32) :
    setProtection value p &&& mask = value &&& mask := by
  have hfield : ((p &&& 0x1F#32) <<< 3) &&& mask = 0#32 := by
    rw [BitVec.shiftLeft_and_distrib, show 0x1F#32 <<< 3 = 0xF8#32 by decide, BitVec.and_assoc, BitVec.and_comm _ mask, hm, BitVec.and_zero]
  have hclear : ~~~(0x1F#32 <<< 3) &&& mask = mask := by
    apply BitVec.eq_of_getLsbD_eq
    intro i hi
    have hbit := congrArg (BitVec.getLsbD · i) hm
    simp only [BitVec.getLsbD_and, BitVec.getLsbD_zero] at hbit
    rw [show 0x1F#32 <<< 3 = 0xF8#32 by decide, BitVec.getLsbD_and, BitVec.getLsbD_not]
    cases hmi : mask.getLsbD i <;> simp_all
  rw [setProtection, BitVec.and_or_distrib_right, BitVec.and_assoc, hclear, hfield, BitVec.or_zero]

theorem protection_setProtection (value p : BitVec 32) :
    protection (setProtection value p) = p &&& 0x1F#32 := by
  unfold protection setProtection
  rw [BitVec.ushiftRight_or_distrib, BitVec.ushiftRight_and_distrib, BitVec.and_or_distrib_right, BitVec.and_assoc,
    show ~~~(0x1F#32 <<< 3) >>> 3 &&& 0x1F#32 = 0#32 by decide, BitVec.and_zero, BitVec.zero_or]
  apply BitVec.eq_of_getLsbD_eq
  intro i hi
  have h1F : (0x1F#32).getLsbD i = decide (i < 5) := by
    rw [show 0x1F#32 = BitVec.ofNat 32 (2 ^ 5 - 1) from rfl, BitVec.getLsbD_ofNat, Nat.testBit_two_pow_sub_one]
    simp [hi]
  simp only [BitVec.getLsbD_and, BitVec.getLsbD_ushiftRight, BitVec.getLsbD_shiftLeft, h1F]
  by_cases h5 : i < 5
  · simp [h5, show 3 + i < 32 by omega, h1F]
  · simp [h5]

theorem vadAttributes_setProtection (value p : BitVec 32) :
    vadAttributes (setProtection value p) = { vadAttributes value with protection := p &&& 0x1F#32 } := by
  unfold vadAttributes
  rw [protection_setProtection]
  simp only [vadType, commit, privateMemory, noChange]
  rw [setProtection_and value p (by decide), setProtection_and value p (by decide), setProtection_and value p (by decide),
    setProtection_and value p (by decide)]

end XenOS.Mm
