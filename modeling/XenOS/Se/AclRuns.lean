import XenOS.General.Run
import XenOS.Se.Acl

/-! Building an access control list over runs. The size of an entry leaves out the last word of its
SID, so the next entry is laid over it; the list reads back exactly as long as nothing is lost by
that. -/

namespace XenOS.Se

open General Ram List Nat Option

def Ace.size (a : Ace) : ℕ := 12 + 4 * a.sid.subAuthority.length

namespace Layout

/-! ### SIDs in memory -/

section Sids
variable {m m' : Ram} {sid sid' : ℕ}

theorem rtlLengthSid_ge (m : Ram) (sid : ℕ) : 8 ≤ rtlLengthSid m sid := le_add_right _ _

theorem length_subAuthority_sidAt : (sidAt m sid).subAuthority.length = subAuthorityCount m sid := by
  simp [sidAt]

theorem subAuthorityCount_congr (h : ∀ i < rtlLengthSid m sid, m'.byte (sid' + i) = m.byte (sid + i)) :
    subAuthorityCount m' sid' = subAuthorityCount m sid := by
  have hlength := rtlLengthSid_ge m sid
  rw [subAuthorityCount, subAuthorityCount, h 1 (by omega)]

theorem sidAt_congr (h : ∀ i < rtlLengthSid m sid, m'.byte (sid' + i) = m.byte (sid + i)) :
    sidAt m' sid' = sidAt m sid := by
  have hcount := subAuthorityCount_congr h
  have hlength : rtlLengthSid m sid = 8 + subAuthorityCount m sid * 4 := rfl
  have hread : ∀ k n, k + n ≤ rtlLengthSid m sid → m'.read (sid' + k) n = m.read (sid + k) n := by
    intro k n hkn
    refine read_congr fun i hi => ?_
    rw [Nat.add_assoc, Nat.add_assoc]
    exact h _ (by omega)
  simp only [sidAt, hcount, hread 2 6 (by omega), sidMinSize, Sid.mk.injEq, true_and]
  refine ⟨h 0 (by omega), map_congr_left fun i hi => ?_⟩
  have hi := mem_range.1 hi
  simp only [Ram.u32, Nat.add_assoc, hread (8 + 4 * i) 4 (by omega)]

theorem bytes_sidAt : (sidAt m sid).bytes = m.read sid (rtlLengthSid m sid) := by
  have hwords : ∀ n a, ((range n).map fun i => BitVec.ofNat 32 (m.u32 (a + 4 * i))).flatMap
      (fun v => leBytes 4 v.toNat) = m.read a (4 * n) := by
    intro n a
    induction n with
    | zero => rfl
    | succ n ih =>
      have hlt : m.u32 (a + 4 * n) < 2 ^ 32 := by
        have := leNat_lt (m.read (a + 4 * n) 4)
        simp only [length_read] at this
        exact this
      have hbytes : leBytes 4 (m.u32 (a + 4 * n)) = m.read (a + 4 * n) 4 := leBytes_leNat length_read
      rw [range_succ, map_append, flatMap_append, ih, mul_succ, read_add]
      simp only [map_cons, map_nil, flatMap_cons, flatMap_nil, append_nil, BitVec.toNat_ofNat]
      rw [mod_eq_of_lt hlt, hbytes]
  have hcount : BitVec.ofNat 8 (subAuthorityCount m sid) = m.byte (sid + 1) := by
    simp [subAuthorityCount]
  have hsplit : rtlLengthSid m sid = 2 + 6 + 4 * subAuthorityCount m sid := by
    rw [rtlLengthSid, sidMinSize]
    omega
  rw [hsplit, read_add, read_add, Sid.bytes, length_subAuthority_sidAt, hcount]
  simp only [sidAt, sidMinSize, hwords]
  rfl

end Sids

/-! ### Entries in a row -/

def endOf (p : ℕ) : List Ace → ℕ
  | [] => p
  | a :: as => endOf (p + a.size) as

/-- Where the entries start. -/
def positions (p : ℕ) : List Ace → List ℕ
  | [] => []
  | a :: as => p :: positions (p + a.size) as

/-- The headers from `p` on have the sizes of the entries. -/
def SizesAt (m : Ram) (p : ℕ) : List Ace → Prop
  | [] => True
  | a :: as => aceSize m p = a.size ∧ SizesAt m (p + a.size) as

/-- The entries from `p` on are these, complete with their SIDs. -/
def AcesAt (m : Ram) (p : ℕ) : List Ace → Prop
  | [] => True
  | a :: as => aceAt m p = some a ∧ aceSize m p = a.size ∧ AcesAt m (p + a.size) as

section Rows
variable {m m' : Ram} {p stop : ℕ} {a : Ace} {as bs : List Ace}

theorem size_ge : 12 ≤ a.size := le_add_right _ _

theorem endOf_append : endOf p (as ++ bs) = endOf (endOf p as) bs := by
  induction as generalizing p with
  | nil => rfl
  | cons a as ih => exact ih

theorem le_endOf : p ≤ endOf p as := by
  induction as generalizing p with
  | nil => exact Nat.le_refl p
  | cons a as ih => exact Nat.le_trans (Nat.le_add_right _ _) ih

theorem length_le_endOf (p : ℕ) (as : List Ace) : p + 12 * as.length ≤ endOf p as := by
  induction as generalizing p with
  | nil => simp [endOf]
  | cons a as ih =>
    have := ih (p + a.size)
    have := size_ge (a := a)
    simp only [length_cons, endOf]
    omega

theorem AcesAt.sizes (h : AcesAt m p as) : SizesAt m p as := by
  induction as generalizing p with
  | nil => trivial
  | cons a as ih => exact ⟨h.2.1, ih h.2.2⟩

theorem acesAt_append : AcesAt m p (as ++ bs) ↔ AcesAt m p as ∧ AcesAt m (endOf p as) bs := by
  induction as generalizing p with
  | nil => simp [AcesAt, endOf]
  | cons a as ih => simp [AcesAt, endOf, ih, and_assoc]

theorem sizesAt_append : SizesAt m p (as ++ bs) ↔ SizesAt m p as ∧ SizesAt m (endOf p as) bs := by
  induction as generalizing p with
  | nil => simp [SizesAt, endOf]
  | cons a as ih => simp [SizesAt, endOf, ih, and_assoc]

theorem aclSize_lt (m : Ram) (acl : ℕ) : aclSize m acl < 65536 := by
  have h := leNat_lt (m.read (acl + 2) 2)
  rw [length_read] at h
  exact h

theorem aceSize_congr (h : ∀ i, p ≤ i → i < p + 4 → m'.byte i = m.byte i) : aceSize m' p = aceSize m p := by
  rw [aceSize, aceSize, Ram.u16, Ram.u16, read_congr fun i hi => h (p + 2 + i) (by omega) (by omega)]

theorem SizesAt.congr (hm : ∀ i, p ≤ i → i < endOf p as → m'.byte i = m.byte i) (h : SizesAt m p as) :
    SizesAt m' p as := by
  induction as generalizing p with
  | nil => trivial
  | cons a as ih =>
    have hle : p + a.size ≤ endOf p (a :: as) := le_endOf
    have hsize := size_ge (a := a)
    refine ⟨?_, ih (fun i hi hlt => hm i (by omega) hlt) h.2⟩
    rw [aceSize_congr fun i hi hlt => hm i hi (by omega)]
    exact h.1

theorem hasSid_of_aceAt (h : aceAt m p = some a) : hasSid (m.byte p) = true := by
  by_contra hn
  simp [aceAt, aceGetSid, hn] at h

theorem sidAt_of_aceAt (h : aceAt m p = some a) : sidAt m (p + 8) = a.sid := by
  have hsid := hasSid_of_aceAt h
  simp only [aceAt, aceGetSid, hsid, if_true, map_some, some.injEq] at h
  rw [← h]

theorem aceAt_congr (h : ∀ i, p ≤ i → i < p + 8 + rtlLengthSid m (p + 8) → m'.byte i = m.byte i) :
    aceAt m' p = aceAt m p := by
  have hlength := rtlLengthSid_ge m (p + 8)
  have hsid : sidAt m' (p + 8) = sidAt m (p + 8) := sidAt_congr fun i hi => h _ (by omega) (by omega)
  have hmask : m'.u32 (p + 4) = m.u32 (p + 4) := by
    rw [Ram.u32, Ram.u32, read_congr fun i hi => h (p + 4 + i) (by omega) (by omega)]
  simp only [aceAt, aceGetSid, aceGetMask, h p (by omega) (by omega), h (p + 1) (by omega) (by omega), hmask]
  split
  · simp [hsid]
  · rfl

theorem length_of_aceAt (h : aceAt m p = some a) : p + 8 + rtlLengthSid m (p + 8) = p + a.size + 4 := by
  rw [rtlLengthSid, ← length_subAuthority_sidAt, sidAt_of_aceAt h, sidMinSize, Ace.size]
  omega

theorem AcesAt.congr (hm : ∀ i, p ≤ i → i < endOf p as + 4 → m'.byte i = m.byte i) (h : AcesAt m p as) :
    AcesAt m' p as := by
  induction as generalizing p with
  | nil => trivial
  | cons a as ih =>
    have hle : p + a.size ≤ endOf p (a :: as) := le_endOf
    have hlength := length_of_aceAt h.1
    refine ⟨?_, ?_, ih (fun i hi hlt => hm i (by omega) hlt) h.2.2⟩
    · rw [aceAt_congr fun i hi hlt => hm i hi (by omega)]
      exact h.1
    · rw [aceSize_congr fun i hi hlt => hm i hi (by have := size_ge (a := a); omega)]
      exact h.2.1

/-! ### The loops over a row -/

section
variable (h : SizesAt m p as)
include h

theorem validAces_of_sizes (hend : endOf p as ≤ stop) : validAces m stop as.length p = true := by
  induction as generalizing p with
  | nil => rfl
  | cons a as ih =>
    have hle : p + a.size ≤ endOf p (a :: as) := le_endOf
    have hsize := size_ge (a := a)
    simp only [length_cons, validAces, h.1, sizeofAceHeader]
    rw [if_neg (by omega), if_neg (by omega), if_neg (by omega)]
    exact ih h.2 hend

theorem skipAces_of_sizes (hend : endOf p as ≤ stop) :
    skipAces m stop as.length p = some (endOf p as) := by
  induction as generalizing p with
  | nil => exact if_neg (by simp only [endOf] at hend; omega)
  | cons a as ih =>
    have hle : p + a.size ≤ endOf p (a :: as) := le_endOf
    have hsize := size_ge (a := a)
    simp only [length_cons, skipAces, h.1]
    rw [if_neg (by omega)]
    exact ih h.2 hend

theorem getAce_of_sizes {index : ℕ} (hend : endOf p as ≤ stop) (hindex : index < as.length) :
    getAce m stop index p = (positions p as)[index]? := by
  induction as generalizing p index with
  | nil => simp at hindex
  | cons a as ih =>
    have hle : p + a.size ≤ endOf p (a :: as) := le_endOf
    have hsize := size_ge (a := a)
    cases index with
    | zero =>
      rw [getAce, if_neg (by omega)]
      rfl
    | succ index =>
      rw [getAce, if_neg (by omega), h.1]
      exact ih h.2 hend (by simpa using hindex)

theorem collect_of_sizes {fuel : ℕ} (hend : endOf p as ≤ stop) (hfuel : as.length < fuel) :
    AceIterator.collect m fuel ⟨p, stop, as.length⟩ = positions p as := by
  induction as generalizing p fuel with
  | nil =>
    cases fuel with
    | zero => rfl
    | succ fuel => simp [AceIterator.collect, AceIterator.next, positions]
  | cons a as ih =>
    have hle : p + a.size ≤ endOf p (a :: as) := le_endOf
    have hsize := size_ge (a := a)
    cases fuel with
    | zero => omega
    | succ fuel =>
      have hnext : AceIterator.next m ⟨p, stop, (a :: as).length⟩ = some (p, ⟨p + a.size, stop, as.length⟩) := by
        simp only [AceIterator.next, h.1, length_cons]
        rw [if_neg (by omega), if_neg (by omega), Nat.add_sub_cancel]
      simp only [AceIterator.collect, hnext, positions, ih h.2 hend (by simpa using hfuel)]

end

theorem aceAt_positions (h : AcesAt m p as) : (positions p as).map (aceAt m) = as.map some := by
  induction as generalizing p with
  | nil => rfl
  | cons a as ih => rw [positions, map_cons, map_cons, h.1, ih h.2.2]

theorem positions_append : positions p (as ++ bs) = positions p as ++ positions (endOf p as) bs := by
  induction as generalizing p with
  | nil => rfl
  | cons a as ih => simp [positions, endOf, ih]

@[simp] theorem length_positions : (positions p as).length = as.length := by
  induction as generalizing p with
  | nil => rfl
  | cons a as ih => simp [positions, ih]

end Rows

/-! ### What an addition does -/

def aceHeader (aceType : BitVec 8) (aceFlags : BitVec 32) (size : ℕ) : List (BitVec 8) :=
  aceType :: aceFlags.truncate 8 :: leBytes 2 size

section Addition
variable {m : Ram} {acl ace sid size : ℕ} {aceType : BitVec 8} {aceFlags accessMask : BitVec 32}

theorem byte_writeAceHeader : (writeAceHeader m ace aceType aceFlags accessMask size).byte =
    (m.write ace (aceHeader aceType aceFlags size ++ leBytes 4 accessMask.toNat)).byte := by
  have hflags : ((m.write ace [aceType]).write (ace + 1) [aceFlags.truncate 8]).byte =
      (m.write ace [aceType, aceFlags.truncate 8]).byte := byte_write_write
  have hsize : ((m.write ace [aceType, aceFlags.truncate 8]).write (ace + 2) (leBytes 2 size)).byte =
      (m.write ace (aceHeader aceType aceFlags size)).byte := byte_write_write
  have hmask : ((m.write ace (aceHeader aceType aceFlags size)).write (ace + 4) (leBytes 4 accessMask.toNat)).byte =
      (m.write ace (aceHeader aceType aceFlags size ++ leBytes 4 accessMask.toNat)).byte := byte_write_write
  rw [← hmask]
  exact byte_write_congr ((byte_write_congr hflags).trans hsize)

theorem mem_written_writeAceHeader {i : ℕ} : i ∈ (writeAceHeader m ace aceType aceFlags accessMask size).written ↔
    (ace ≤ i ∧ i < ace + 8) ∨ i ∈ m.written := by
  by_cases hm : i ∈ m.written <;>
    simp only [writeAceHeader, mem_written_write, length_cons, length_nil, length_leBytes, hm, or_true,
      or_false]
  omega

/-- The memory after an entry was added at `ace`; `n` is the length of its SID. -/
structure AceAdded (m m' : Ram) (acl ace n : ℕ) (header maskBytes sidBytes : List (BitVec 8)) (newRevision : ℕ) :
    Prop where
  frame : ∀ i, i ≠ acl → i < acl + 4 ∨ acl + 6 ≤ i → i < ace ∨ ace + 8 + n ≤ i → m'.byte i = m.byte i
  header : m'.read ace 4 = header
  mask : m'.read (ace + 4) 4 = maskBytes
  sid : m'.read (ace + 8) n = sidBytes
  revision : (m'.byte acl).toNat = max (m.byte acl).toNat newRevision
  count : aceCount m' acl = (aceCount m acl + 1) % 65536
  written : ∀ i, i ∈ m'.written ↔ (ace ≤ i ∧ i < ace + 8 + n) ∨ ((m.byte acl).toNat < newRevision ∧ i = acl) ∨
    (acl + 4 ≤ i ∧ i < acl + 6) ∨ i ∈ m.written

theorem addAce_some (aceRevision : BitVec 32) (hvalid : rtlValidSid m sid = true) (hfree : rtlFirstFreeAce m acl = some ace)
    (hsize : aceSizeForSid m sid ≠ 0) (hfit : ace + aceSizeForSid m sid ≤ acl + aclSize m acl) (hace : acl + 8 ≤ ace)
    (hcount : subAuthorityCount (writeAceHeader m ace aceType aceFlags accessMask (aceSizeForSid m sid)) sid =
      subAuthorityCount m sid) :
    ∃ m', addAce m acl aceType aceRevision aceFlags accessMask sid = some m' ∧
      AceAdded m m' acl ace (rtlLengthSid m sid) (aceHeader aceType aceFlags (aceSizeForSid m sid))
        (leBytes 4 accessMask.toNat)
        ((writeAceHeader m ace aceType aceFlags accessMask (aceSizeForSid m sid)).read sid (rtlLengthSid m sid))
        (aceRevision.toNat % 256) := by
  obtain ⟨n, hn⟩ : ∃ n, n = rtlLengthSid m sid := ⟨_, rfl⟩
  obtain ⟨mh, hmh⟩ : ∃ mh, mh = writeAceHeader m ace aceType aceFlags accessMask (aceSizeForSid m sid) := ⟨_, rfl⟩
  have hlength : rtlLengthSid mh sid = n := by
    rw [hn, rtlLengthSid, rtlLengthSid, hmh, hcount]
  obtain ⟨ms, hms⟩ : ∃ ms, ms = mh.write (ace + 8) (mh.read sid n) := ⟨_, rfl⟩
  have hwrite : writeAce m ace aceType aceFlags accessMask sid (aceSizeForSid m sid) = ms := by
    rw [hms, ← hlength, hmh]
    rfl
  obtain ⟨mr, hmr⟩ : ∃ mr, mr = if (ms.byte acl).toNat < aceRevision.toNat % 256 then
      ms.write acl (leBytes 1 (aceRevision.toNat % 256)) else ms := ⟨_, rfl⟩
  have hcall : addAce m acl aceType aceRevision aceFlags accessMask sid =
      some (mr.write (acl + 4) (leBytes 2 (aceCount mr acl + 1))) := by
    simp only [addAce, hvalid, hfree, Bool.not_true, Bool.false_eq_true, if_false, if_neg hsize,
      if_neg (Nat.not_lt.2 hfit), hwrite, ← hmr]
  have hms_out : ∀ i, i < ace ∨ ace + 8 + n ≤ i → ms.byte i = m.byte i := fun i hi => by
    rw [hms, byte_write_of_lt (by simp; omega), hmh, byte_writeAceHeader,
      byte_write_of_lt (by simp [aceHeader]; omega)]
  have hmr_out : ∀ i, i ≠ acl → mr.byte i = ms.byte i := fun i hi => by
    rw [hmr]
    split
    · exact byte_write_of_lt (by simp; omega)
    · rfl
  have hhead : ∀ k n', k + n' ≤ 8 → ms.read (ace + k) n' = mh.read (ace + k) n' := fun k n' hk => by
    rw [hms]
    exact read_write_of_disjoint (by omega)
  have hrow : mh.read ace 8 = aceHeader aceType aceFlags (aceSizeForSid m sid) ++ leBytes 4 accessMask.toNat := by
    have hself : (m.write ace (aceHeader aceType aceFlags (aceSizeForSid m sid) ++ leBytes 4 accessMask.toNat)).read
        ace 8 = _ := read_write_of_length (by simp [aceHeader])
    rw [← hself]
    exact read_congr fun i _ => by rw [hmh, byte_writeAceHeader]
  obtain ⟨hheader, hmask⟩ := append_inj ((read_add (n := 4) (k := 4)).symm.trans hrow) (by simp [aceHeader])
  have hread : ∀ a n', acl + 8 ≤ a → (mr.write (acl + 4) (leBytes 2 (aceCount mr acl + 1))).read a n' = ms.read a n' :=
    fun a n' ha => by
      rw [read_write_of_disjoint (by simp; omega)]
      exact read_congr fun i _ => hmr_out _ (by omega)
  refine ⟨_, hcall,
    { frame := fun i hacl hcnt hout => ?_
      header := ?_
      mask := ?_
      sid := ?_
      revision := ?_
      count := ?_
      written := fun i => ?_ }⟩
  · rw [byte_write_of_lt (by simp; omega), hmr_out i hacl, hms_out i (by omega)]
  · rw [hread _ _ hace, ← hheader]
    exact hhead 0 4 (by omega)
  · rw [hread _ _ (by omega), ← hmask]
    exact hhead 4 4 (by omega)
  · rw [hread _ _ (by omega), hms, ← hn, ← hmh]
    exact read_write_of_length length_read
  · have hacl : ms.byte acl = m.byte acl := hms_out acl (by omega)
    rw [byte_write_of_lt (by omega), hmr, hacl]
    have hlt : aceRevision.toNat % 256 < 256 := Nat.mod_lt _ (by omega)
    split
    · have hself : (ms.write acl (leBytes 1 (aceRevision.toNat % 256))).byte (acl + 0) = _ :=
        byte_write_self (by simp)
      rw [Nat.add_zero] at hself
      rw [hself]
      simp only [leBytes, getD_cons_zero, BitVec.toNat_ofNat]
      omega
    · rw [hacl]
      omega
  · have hmr_count : aceCount mr acl = aceCount m acl := by
      rw [aceCount, aceCount, Ram.u16, Ram.u16]
      congr 1
      exact read_congr fun i hi => by rw [hmr_out _ (by omega), hms_out _ (by omega)]
    rw [aceCount, Ram.u16, read_write_of_length (by simp), hmr_count]
    simp only [leBytes, leNat, BitVec.toNat_ofNat]
    omega
  · rw [mem_written_write, hmr]
    have hs : i ∈ ms.written ↔ (ace ≤ i ∧ i < ace + 8 + n) ∨ i ∈ m.written := by
      rw [hms, mem_written_write, hmh, mem_written_writeAceHeader]
      by_cases hm : i ∈ m.written <;> simp only [length_read, hm, or_true, or_false]
      omega
    have hacl : ms.byte acl = m.byte acl := hms_out acl (by omega)
    rw [hacl]
    split
    · rw [mem_written_write, hs]
      by_cases hm : i ∈ m.written <;> simp only [length_leBytes, ← hn, hm, or_true, or_false]
      omega
    · rw [hs]
      by_cases hm : i ∈ m.written <;> simp only [length_leBytes, ← hn, hm, or_true, or_false]
      omega

end Addition

/-! ### Building a list -/

structure AceRequest where
  allow : Bool
  aceRevision : BitVec 32
  aceFlags : BitVec 32
  accessMask : BitVec 32
  sid : ℕ

namespace AceRequest

def aceType (r : AceRequest) : BitVec 8 := if r.allow then accessAllowedAceType else accessDeniedAceType

def call (r : AceRequest) (m : Ram) (acl : ℕ) : Option Ram :=
  if r.allow then rtlAddAccessAllowedAceEx m acl r.aceRevision r.aceFlags r.accessMask r.sid
  else rtlAddAccessDeniedAceEx m acl r.aceRevision r.aceFlags r.accessMask r.sid

/-- The entry that is asked for. -/
def ace (r : AceRequest) (m : Ram) : Ace := ⟨r.aceType, r.aceFlags.truncate 8, r.accessMask, sidAt m r.sid⟩

def header (r : AceRequest) (m : Ram) : List (BitVec 8) := aceHeader r.aceType r.aceFlags (aceSizeForSid m r.sid)

theorem call_eq (r : AceRequest) (m : Ram) (acl : ℕ) :
    r.call m acl = addAce m acl r.aceType r.aceRevision r.aceFlags r.accessMask r.sid := by
  cases h : r.allow <;> simp [call, aceType, h, rtlAddAccessAllowedAceEx, rtlAddAccessDeniedAceEx]

theorem hasSid_aceType (r : AceRequest) : hasSid r.aceType = true := by
  cases h : r.allow <;> simp [aceType, h] <;> decide

end AceRequest

structure AclBuilder where
  ram : Ram
  added : List Ace

inductive AclOp where
  | add (r : AceRequest)
  | store (a : ℕ) (bs : List (BitVec 8))

def lastWord (sid : Sid) : List (BitVec 8) := sid.bytes.drop (sid.bytes.length - 4)

theorem lastWord_of_aceAt {m : Ram} {p : ℕ} {a : Ace} (h : aceAt m p = some a) :
    lastWord a.sid = m.read (p + a.size) 4 := by
  have hlength := length_of_aceAt h
  have hge := rtlLengthSid_ge m (p + 8)
  have hsplit : rtlLengthSid m (p + 8) = (a.size - 8) + 4 := by omega
  rw [lastWord, ← sidAt_of_aceAt h, bytes_sidAt, length_read, hsplit, read_add, Nat.add_sub_cancel,
    drop_left' length_read]
  congr 1
  omega

theorem lastWord_of_positions {m : Ram} {p : ℕ} {as : List Ace} {last : Ace}
    (h : (positions p as).map (aceAt m) = as.map some) (hlast : as.getLast? = some last) :
    lastWord last.sid = m.read (endOf p as) 4 := by
  obtain ⟨init, rfl⟩ := getLast?_eq_some_iff.1 hlast
  rw [positions_append, map_append, map_append] at h
  have hat := (append_inj' h rfl).2
  simp only [positions, map_cons, map_nil, cons.injEq, and_true] at hat
  rw [lastWord_of_aceAt hat, endOf_append]
  rfl

namespace AclBuilder

variable (acl : ℕ)

def step (s : AclBuilder) : AclOp → AclBuilder
  | .add r =>
    match r.call s.ram.unlogged acl with
    | some m => ⟨m, s.added ++ [r.ace s.ram]⟩
    | none => ⟨s.ram.unlogged, s.added⟩
  | .store a bs => ⟨s.ram.write a bs, s.added⟩

def usedEnd (s : AclBuilder) : ℕ := if s.added = [] then acl + 8 else endOf (acl + 8) s.added + 4

def Admitted (s : AclBuilder) : AclOp → Prop
  | .add r => ∀ i < rtlLengthSid s.ram r.sid, r.sid + i < s.usedEnd acl ∨ acl + aclSize s.ram acl ≤ r.sid + i
  | .store a bs => a + bs.length ≤ acl ∨ acl + aclSize s.ram acl ≤ a

instance (s : AclBuilder) : (op : AclOp) → Decidable (s.Admitted acl op)
  | .add r => inferInstanceAs (Decidable (∀ i < rtlLengthSid s.ram r.sid, _ ∨ _))
  | .store _ _ => inferInstanceAs (Decidable (_ ∨ _))

structure RoundTrips (s : AclBuilder) : Prop where
  valid : rtlValidAcl s.ram acl = true
  iterates : ((AceIterator.new s.ram acl).toList s.ram).map (aceAt s.ram) = s.added.map some
  indexes : ∀ index, (rtlGetAce s.ram acl index).bind (aceAt s.ram) = s.added[index]?

/-- A call stores inside the list only, one whose entry does not fit stores nothing, and the list
round-trips afterwards. -/
def Exact (s : AclBuilder) : AclOp → Prop
  | .add r =>
    (∀ a ∈ (s.step acl (.add r)).ram.written, acl ≤ a ∧ a < acl + aclSize s.ram acl) ∧
      (∀ free, rtlFirstFreeAce s.ram acl = some free →
        acl + aclSize s.ram acl < free + 8 + rtlLengthSid s.ram r.sid →
        r.call s.ram.unlogged acl = none ∧ (s.step acl (.add r)).ram.byte = s.ram.byte) ∧
      (s.step acl (.add r)).RoundTrips acl
  | .store a bs => (s.step acl (.store a bs)).RoundTrips acl

/-- If a call passes the checks, then the entry fits, its revision is right, and its header is what
the last word of the SID before it holds. -/
def Sound (s : AclBuilder) : AclOp → Prop
  | .add r => rtlValidSid s.ram r.sid = true → ∀ free, rtlFirstFreeAce s.ram acl = some free →
      free + aceSizeForSid s.ram r.sid ≤ acl + aclSize s.ram acl →
      free + 8 + rtlLengthSid s.ram r.sid ≤ acl + aclSize s.ram acl ∧ r.aceRevision.toNat % 256 ≤ aclRevisionDs ∧
        ∀ last, s.added.getLast? = some last → lastWord last.sid = r.header s.ram
  | .store _ _ => True

/-- What every sound call keeps. -/
structure Inv (s : AclBuilder) : Prop where
  revision : aclRevision ≤ (s.ram.byte acl).toNat ∧ (s.ram.byte acl).toNat ≤ aclRevisionDs
  size : sizeofAcl ≤ aclSize s.ram acl
  count : aceCount s.ram acl = s.added.length
  aces : AcesAt s.ram (acl + 8) s.added
  room : s.usedEnd acl ≤ acl + aclSize s.ram acl

variable {acl} {s : AclBuilder}

theorem endOf_le_usedEnd : endOf (acl + 8) s.added ≤ s.usedEnd acl := by
  unfold usedEnd
  split
  · next h => simp [h, endOf]
  · exact le_add_right _ _

theorem usedEnd_le : s.usedEnd acl ≤ endOf (acl + 8) s.added + 4 := by
  unfold usedEnd
  split
  · next h => simp [h, endOf]
  · exact Nat.le_refl _

theorem Inv.room' (h : s.Inv acl) : endOf (acl + 8) s.added ≤ acl + aclSize s.ram acl :=
  Nat.le_trans endOf_le_usedEnd h.room

theorem Inv.firstFree (h : s.Inv acl) : rtlFirstFreeAce s.ram acl = some (endOf (acl + 8) s.added) := by
  rw [rtlFirstFreeAce, h.count]
  exact skipAces_of_sizes h.aces.sizes h.room'

theorem roundTrips_iff {s : AclBuilder} (hrevision : aclRevision ≤ (s.ram.byte acl).toNat) (hsize : sizeofAcl ≤ aclSize s.ram acl)
    (hcount : aceCount s.ram acl = s.added.length) (hsizes : SizesAt s.ram (acl + 8) s.added)
    (hroom : endOf (acl + 8) s.added ≤ acl + aclSize s.ram acl) :
    s.RoundTrips acl ↔ (s.ram.byte acl).toNat ≤ aclRevisionDs ∧
      (positions (acl + 8) s.added).map (aceAt s.ram) = s.added.map some := by
  have hvalid : rtlValidAcl s.ram acl = true ↔ (s.ram.byte acl).toNat ≤ aclRevisionDs := by
    rw [rtlValidAcl]
    by_cases hrev : (s.ram.byte acl).toNat ≤ aclRevisionDs
    · rw [if_neg (by omega), if_neg (by omega), hcount]
      simp [hrev, sizeofAcl, validAces_of_sizes hsizes hroom]
    · rw [if_pos (by omega)]
      simp [hrev]
  have hiterates : (AceIterator.new s.ram acl).toList s.ram = positions (acl + 8) s.added := by
    rw [AceIterator.toList, AceIterator.new, hcount]
    exact collect_of_sizes hsizes hroom (lt_succ_self _)
  constructor
  · intro h
    exact ⟨hvalid.1 h.valid, hiterates ▸ h.iterates⟩
  · rintro ⟨hrev, hmap⟩
    refine ⟨hvalid.2 hrev, hiterates ▸ hmap, fun index => ?_⟩
    rw [rtlGetAce, hcount]
    by_cases hindex : index < s.added.length
    · have hat := congrArg (fun l => l[index]?) hmap
      simp only [getElem?_map] at hat
      have hget : getAce s.ram (acl + aclSize s.ram acl) index (acl + sizeofAcl) = (positions (acl + 8) s.added)[index]? :=
        getAce_of_sizes hsizes hroom hindex
      rw [if_neg (by omega), hget]
      cases hp : (positions (acl + 8) s.added)[index]? with
      | none =>
        rw [getElem?_eq_none_iff, length_positions] at hp
        omega
      | some p =>
        rw [hp] at hat
        simp only [map_some, getElem?_eq_getElem hindex, some.injEq] at hat
        rw [bind_some, hat, getElem?_eq_getElem hindex]
    · rw [if_pos (by omega), getElem?_eq_none (by omega)]
      rfl

theorem Inv.roundTrips (h : s.Inv acl) : s.RoundTrips acl :=
  (roundTrips_iff h.revision.1 h.size h.count h.aces.sizes h.room').2 ⟨h.revision.2, aceAt_positions h.aces⟩

theorem Inv.acesAt_congr {m : Ram} (h : s.Inv acl)
    (hm : ∀ i, acl + 8 ≤ i → i < s.usedEnd acl → m.byte i = s.ram.byte i) : AcesAt m (acl + 8) s.added := by
  by_cases hnil : s.added = []
  · rw [hnil]
    trivial
  · rw [usedEnd, if_neg hnil] at hm
    exact h.aces.congr hm

theorem Inv.congr {m : Ram} (h : s.Inv acl)
    (hm : ∀ i, acl ≤ i → i < acl + aclSize s.ram acl → m.byte i = s.ram.byte i) : Inv acl ⟨m, s.added⟩ := by
  have hsize := h.size
  have hmin : sizeofAcl = 8 := rfl
  have hread : ∀ k, k + 2 ≤ 8 → m.u16 (acl + k) = s.ram.u16 (acl + k) := fun k hk => by
    rw [Ram.u16, Ram.u16, read_congr fun i hi => hm _ (by omega) (by omega)]
  have hasize : aclSize m acl = aclSize s.ram acl := hread 2 (by omega)
  refine
    { revision := by
        show aclRevision ≤ (m.byte acl).toNat ∧ (m.byte acl).toNat ≤ aclRevisionDs
        rw [hm acl (by omega) (by omega)]
        exact h.revision
      size := by
        show sizeofAcl ≤ aclSize m acl
        rw [hasize]
        exact hsize
      count := (hread 4 (by omega)).trans h.count
      aces := h.acesAt_congr fun i hi hlt => hm i (by omega) (by have := h.room; omega)
      room := by
        show usedEnd acl s ≤ acl + aclSize m acl
        rw [hasize]
        exact h.room }
/-! ### One call -/

theorem aceSizeForSid_of_valid {m : Ram} {sid : ℕ} (h : rtlValidSid m sid = true) :
    aceSizeForSid m sid = rtlLengthSid m sid + 4 := by
  have hcount : subAuthorityCount m sid ≤ maxSubAuthorities := by
    by_contra hn
    simp [rtlValidSid, Nat.lt_of_not_le hn] at h
  have hmax : maxSubAuthorities = 15 := rfl
  have hlength : rtlLengthSid m sid = 8 + subAuthorityCount m sid * 4 := rfl
  simp only [aceSizeForSid, sizeofAceHeader, sizeofAccessMask, sizeofUlong]
  omega

section
variable (h : s.Inv acl)
include h

theorem Inv.firstFree_unlogged :
    rtlFirstFreeAce s.ram.unlogged acl = some (endOf (acl + 8) s.added) :=
  (h.congr (m := s.ram.unlogged) fun _ _ _ => rfl).firstFree

variable {r : AceRequest}

theorem Inv.add_none
    (hn : ¬ (rtlValidSid s.ram r.sid = true ∧ endOf (acl + 8) s.added + aceSizeForSid s.ram r.sid ≤ acl + aclSize s.ram acl))
    :
    r.call s.ram.unlogged acl = none := by
  have hfree := h.firstFree_unlogged
  rw [AceRequest.call_eq, addAce]
  by_cases hvalid : rtlValidSid s.ram r.sid = true
  · have hfit : acl + aclSize s.ram.unlogged acl < endOf (acl + 8) s.added + aceSizeForSid s.ram.unlogged r.sid := by
      have := not_and.1 hn hvalid
      exact Nat.lt_of_not_le this
    simp only [hfree, if_pos hfit]
    split
    · rfl
    · split <;> rfl
  · have hinvalid : (!rtlValidSid s.ram.unlogged r.sid) = true := by
      rw [Bool.not_eq_true']
      exact Bool.eq_false_iff.2 hvalid
    exact if_pos hinvalid

theorem Inv.add_some (ha : s.Admitted acl (.add r))
    (hvalid : rtlValidSid s.ram r.sid = true)
    (hfit : endOf (acl + 8) s.added + aceSizeForSid s.ram r.sid ≤ acl + aclSize s.ram acl) :
    ∃ m' mh : Ram, r.call s.ram.unlogged acl = some m' ∧
      (∀ i, i < endOf (acl + 8) s.added ∨ endOf (acl + 8) s.added + 8 ≤ i → mh.byte i = s.ram.byte i) ∧
      mh.read (endOf (acl + 8) s.added) 4 = r.header s.ram ∧
      AceAdded s.ram.unlogged m' acl (endOf (acl + 8) s.added) (rtlLengthSid s.ram r.sid) (r.header s.ram)
        (leBytes 4 r.accessMask.toNat) (mh.read r.sid (rtlLengthSid s.ram r.sid)) (r.aceRevision.toNat % 256) := by
  obtain ⟨free, hfree⟩ : ∃ free, free = endOf (acl + 8) s.added := ⟨_, rfl⟩
  rw [← hfree] at hfit ⊢
  have hsize := aceSizeForSid_of_valid hvalid
  have hlength := rtlLengthSid_ge s.ram r.sid
  have hle : acl + 8 ≤ free := hfree ▸ le_endOf
  have hused : s.usedEnd acl ≤ free + 4 := hfree ▸ usedEnd_le
  let mh := writeAceHeader s.ram.unlogged free r.aceType r.aceFlags r.accessMask (aceSizeForSid s.ram r.sid)
  have hmh : mh.byte = (s.ram.unlogged.write free (r.header s.ram ++ leBytes 4 r.accessMask.toNat)).byte :=
    byte_writeAceHeader
  have hheader : (r.header s.ram).length = 4 := by simp [AceRequest.header, aceHeader]
  have hout : ∀ i, i < free ∨ free + 8 ≤ i → mh.byte i = s.ram.byte i := fun i hi => by
    rw [hmh, byte_write_of_lt (by simp [hheader]; omega)]
    rfl
  have hcount : subAuthorityCount mh r.sid = subAuthorityCount s.ram.unlogged r.sid := by
    -- a SID that reached into the header of the new entry would reach into the unused part
    have h₁ := ha 1 (by omega)
    have h₇ := ha 7 (by omega)
    rw [subAuthorityCount, subAuthorityCount, hout (r.sid + 1) (by omega)]
    rfl
  obtain ⟨m', hcall, hadded⟩ := addAce_some (m := s.ram.unlogged) r.aceRevision hvalid
    (hfree ▸ h.firstFree_unlogged) (show aceSizeForSid s.ram r.sid ≠ 0 by omega) hfit hle hcount
  refine ⟨m', mh, ?_, hout, ?_, hadded⟩
  · rw [AceRequest.call_eq]
    exact hcall
  · have hself : (s.ram.unlogged.write free (r.header s.ram ++ leBytes 4 r.accessMask.toNat)).read free (4 + 4) = _ :=
      read_write_of_length (by simp [hheader])
    rw [read_add] at hself
    rw [← (append_inj hself (by simp [hheader])).1]
    exact read_congr fun i _ => by rw [hmh]

theorem Inv.added {m' mh : Ram} (hvalid : rtlValidSid s.ram r.sid = true)
    (hfit : endOf (acl + 8) s.added + aceSizeForSid s.ram r.sid ≤ acl + aclSize s.ram acl)
    (hadded : AceAdded s.ram.unlogged m' acl (endOf (acl + 8) s.added) (rtlLengthSid s.ram r.sid) (r.header s.ram) (leBytes 4 r.accessMask.toNat) (mh.read r.sid (rtlLengthSid s.ram r.sid)) (r.aceRevision.toNat % 256))
    :
    aclRevision ≤ (m'.byte acl).toNat ∧ aclSize m' acl = aclSize s.ram acl ∧
      aceCount m' acl = (s.added ++ [r.ace s.ram]).length ∧ SizesAt m' (acl + 8) (s.added ++ [r.ace s.ram]) ∧
      endOf (acl + 8) (s.added ++ [r.ace s.ram]) = endOf (acl + 8) s.added + aceSizeForSid s.ram r.sid := by
  have hsize := aceSizeForSid_of_valid hvalid
  have hlength : rtlLengthSid s.ram r.sid = 8 + subAuthorityCount s.ram r.sid * 4 := rfl
  have hle : acl + 8 ≤ endOf (acl + 8) s.added := le_endOf
  have hace : (r.ace s.ram).size = aceSizeForSid s.ram r.sid := by
    rw [Ace.size, AceRequest.ace, length_subAuthority_sidAt]
    omega
  have hend : endOf (acl + 8) (s.added ++ [r.ace s.ram]) = endOf (acl + 8) s.added + aceSizeForSid s.ram r.sid := by
    rw [endOf_append, ← hace]
    rfl
  have hframe : ∀ i, acl + 8 ≤ i → i < endOf (acl + 8) s.added → m'.byte i = s.ram.byte i := fun i hi hlt =>
    hadded.frame i (by omega) (by omega) (Or.inl hlt)
  refine ⟨?_, ?_, ?_, sizesAt_append.2 ⟨h.aces.sizes.congr hframe, ?_, trivial⟩, hend⟩
  · rw [hadded.revision]
    exact Nat.le_trans h.revision.1 (Nat.le_max_left _ _)
  · rw [aclSize, aclSize, Ram.u16, Ram.u16]
    congr 1
    exact read_congr fun i hi => hadded.frame _ (by omega) (by omega) (by omega)
  · have hroom := h.room'
    have hlt := aclSize_lt s.ram acl
    have hentries := length_le_endOf (acl + 8) s.added
    rw [hadded.count, show aceCount s.ram.unlogged acl = s.added.length from h.count, length_append,
      length_singleton]
    omega
  · have hheader := hadded.header
    have hlow := (append_inj ((read_add (n := 2) (k := 2)).symm.trans hheader :
      _ = [r.aceType, r.aceFlags.truncate 8] ++ leBytes 2 (aceSizeForSid s.ram r.sid)) (by simp)).2
    have hlt := aclSize_lt s.ram acl
    have hbound : aceSizeForSid s.ram r.sid < 256 ^ 2 := by
      show _ < 65536
      omega
    rw [aceSize, Ram.u16, hlow, leNat_leBytes hbound, hace]

theorem Inv.roundTrips_added {m' mh : Ram} (hvalid : rtlValidSid s.ram r.sid = true)
    (hfit : endOf (acl + 8) s.added + aceSizeForSid s.ram r.sid ≤ acl + aclSize s.ram acl)
    (hadded : AceAdded s.ram.unlogged m' acl (endOf (acl + 8) s.added) (rtlLengthSid s.ram r.sid) (r.header s.ram) (leBytes 4 r.accessMask.toNat) (mh.read r.sid (rtlLengthSid s.ram r.sid)) (r.aceRevision.toNat % 256))
    :
    RoundTrips acl ⟨m', s.added ++ [r.ace s.ram]⟩ ↔ (m'.byte acl).toNat ≤ aclRevisionDs ∧
      (positions (acl + 8) s.added).map (aceAt m') = s.added.map some ∧
        aceAt m' (endOf (acl + 8) s.added) = some (r.ace s.ram) := by
  obtain ⟨hrevision, hsize, hcount, hsizes, hend⟩ := h.added hvalid hfit hadded
  have hsize' : sizeofAcl ≤ aclSize m' acl := hsize ▸ h.size
  have hroom : endOf (acl + 8) (s.added ++ [r.ace s.ram]) ≤ acl + aclSize m' acl := by
    rw [hend, hsize]
    exact hfit
  rw [roundTrips_iff (s := ⟨m', s.added ++ [r.ace s.ram]⟩) hrevision hsize' hcount hsizes hroom]
  simp only [positions_append, positions, map_append, map_cons, map_nil]
  refine and_congr_right fun _ => ⟨fun heq => ?_, fun ⟨hinit, hlast⟩ => by rw [hinit, hlast]⟩
  obtain ⟨hinit, hlast⟩ := append_inj' heq rfl
  exact ⟨hinit, by simpa using hlast⟩

end

theorem aceAt_added {m : Ram} {r : AceRequest} {m' mh : Ram} {free : ℕ}
    (hsid : ∀ i < rtlLengthSid m r.sid, mh.byte (r.sid + i) = m.byte (r.sid + i))
    (hadded : AceAdded m.unlogged m' acl free (rtlLengthSid m r.sid) (r.header m) (leBytes 4 r.accessMask.toNat)
      (mh.read r.sid (rtlLengthSid m r.sid)) (r.aceRevision.toNat % 256)) :
    aceAt m' free = some (r.ace m) := by
  have hbytes : sidAt m' (free + 8) = sidAt m r.sid := by
    refine sidAt_congr fun i hi => ?_
    rw [← hsid i hi]
    refine byte_of_read (a := free + 8) (b := r.sid) (n := rtlLengthSid m r.sid) ?_ hi
    exact hadded.sid
  have hheader := hadded.header
  have htype : m'.byte free = r.aceType := by
    have hget : (m'.read free 4)[0]? = (r.header m)[0]? := by rw [hheader]
    rw [getElem?_read (by omega)] at hget
    simpa [AceRequest.header, aceHeader] using hget
  have hflags : m'.byte (free + 1) = r.aceFlags.truncate 8 := by
    have hget : (m'.read free 4)[1]? = (r.header m)[1]? := by rw [hheader]
    rw [getElem?_read (by omega)] at hget
    simpa [AceRequest.header, aceHeader] using hget
  have hmask : BitVec.ofNat 32 (m'.u32 (free + 4)) = r.accessMask := by
    rw [Ram.u32, hadded.mask, leNat_leBytes]
    · simp
    · exact r.accessMask.isLt
  rw [aceAt, aceGetSid, aceGetMask, htype, r.hasSid_aceType]
  simp only [if_true, map_some, AceRequest.ace, hflags, hmask, hbytes]

section
variable (h : s.Inv acl)
include h

theorem Inv.header_same {r : AceRequest}
    (hs : ∀ last, s.added.getLast? = some last → lastWord last.sid = r.header s.ram) (hne : s.added ≠ []) :
    r.header s.ram = s.ram.read (endOf (acl + 8) s.added) 4 := by
  obtain ⟨last, hlast⟩ : ∃ last, s.added.getLast? = some last := ⟨_, getLast?_eq_some_getLast hne⟩
  rw [← hs last hlast]
  exact lastWord_of_positions (aceAt_positions h.aces) hlast

theorem Inv.add {r : AceRequest} (ha : s.Admitted acl (.add r)) (hs : s.Sound acl (.add r)) :
    s.Exact acl (.add r) ∧ (s.step acl (.add r)).Inv acl := by
  by_cases hpass : rtlValidSid s.ram r.sid = true ∧
      endOf (acl + 8) s.added + aceSizeForSid s.ram r.sid ≤ acl + aclSize s.ram acl
  swap
  · have hnone := h.add_none hpass
    have hinv : Inv acl ⟨s.ram.unlogged, s.added⟩ := h.congr fun _ _ _ => rfl
    simp only [Exact, step, hnone]
    exact ⟨⟨fun a ha => absurd ha not_mem_nil, fun _ _ _ => ⟨trivial, rfl⟩, hinv.roundTrips⟩, hinv⟩
  obtain ⟨hvalid, hfit⟩ := hpass
  obtain ⟨hroom, hrev, hword⟩ := hs hvalid _ h.firstFree hfit
  obtain ⟨m', mh, hcall, hout, hmh, hadded⟩ := h.add_some ha hvalid hfit
  obtain ⟨hrevision, hsize, hcount, hsizes, hend⟩ := h.added hvalid hfit hadded
  obtain ⟨free, hfree⟩ : ∃ free, free = endOf (acl + 8) s.added := ⟨_, rfl⟩
  rw [← hfree] at hfit hroom hout hmh hadded hend
  have hlen := aceSizeForSid_of_valid hvalid
  have hge := rtlLengthSid_ge s.ram r.sid
  have hle : acl + 8 ≤ free := hfree ▸ le_endOf
  have hused : s.usedEnd acl ≤ free + 4 := hfree ▸ usedEnd_le
  -- a used byte is before the new entry, or under its header, which changes nothing
  have hsame : ∀ i, free ≤ i → i < s.usedEnd acl → ∃ j, j < 4 ∧ i = free + j ∧ (r.header s.ram)[j]? = some (s.ram.byte i) := by
    intro i hi hlt
    have hne : s.added ≠ [] := by
      intro hnil
      rw [usedEnd, if_pos hnil] at hlt
      omega
    refine ⟨i - free, by omega, by omega, ?_⟩
    rw [h.header_same hword hne, ← hfree, getElem?_read (by omega)]
    congr 2
    omega
  have hbyte : ∀ m'' : Ram, m''.read free 4 = r.header s.ram → ∀ i, free ≤ i → i < s.usedEnd acl →
      m''.byte i = s.ram.byte i := by
    intro m'' hm i hi hlt
    obtain ⟨j, hj, rfl, hget⟩ := hsame i hi hlt
    rw [← hm, getElem?_read hj] at hget
    exact some.inj hget
  have haces : AcesAt m' (acl + 8) s.added := by
    refine h.acesAt_congr fun i hi hlt => ?_
    by_cases hbefore : i < free
    · exact hadded.frame i (by omega) (by omega) (Or.inl hbefore)
    · exact hbyte m' hadded.header i (by omega) hlt
  have hnew : aceAt m' free = some (r.ace s.ram) := by
    refine aceAt_added (fun i hi => ?_) hadded
    rcases ha i hi with hin | hbehind
    · by_cases hbefore : r.sid + i < free
      · exact hout _ (Or.inl hbefore)
      · exact hbyte mh hmh _ (by omega) hin
    · exact hout _ (Or.inr (by omega))
  have hstep : s.step acl (.add r) = ⟨m', s.added ++ [r.ace s.ram]⟩ := by
    simp only [step, hcall]
  have hmax : (m'.byte acl).toNat ≤ aclRevisionDs := by
    rw [hadded.revision]
    exact Nat.max_le.2 ⟨h.revision.2, hrev⟩
  have hinv : Inv acl ⟨m', s.added ++ [r.ace s.ram]⟩ :=
    { revision := ⟨hrevision, hmax⟩
      size := hsize ▸ h.size
      count := hcount
      aces := acesAt_append.2 ⟨haces, by rw [← hfree]; exact ⟨hnew, (sizesAt_append.1 hsizes).2.1 |> (hfree ▸ ·), trivial⟩⟩
      room := by
        rw [usedEnd, if_neg (by simp), hend]
        show _ ≤ acl + aclSize m' acl
        rw [hsize]
        omega }
  refine ⟨⟨?_, ?_, ?_⟩, hstep ▸ hinv⟩
  · rw [hstep]
    intro a hwritten
    rcases (hadded.written a).1 hwritten with hw | ⟨-, rfl⟩ | hw | hw
    · omega
    · omega
    · omega
    · exact absurd hw not_mem_nil
  · intro free' hfree' hlt
    rw [h.firstFree, some.injEq, ← hfree] at hfree'
    omega
  · rw [hstep]
    exact hinv.roundTrips

theorem Inv.not_add {r : AceRequest} (ha : s.Admitted acl (.add r)) (hs : ¬ s.Sound acl (.add r)) :
    ¬ s.Exact acl (.add r) := by
  rintro ⟨hwritten, -, htrips⟩
  refine hs fun hvalid free hfree hfit => ?_
  rw [h.firstFree, some.injEq] at hfree
  subst hfree
  obtain ⟨m', mh, hcall, -, -, hadded⟩ := h.add_some ha hvalid hfit
  have hstep : s.step acl (.add r) = ⟨m', s.added ++ [r.ace s.ram]⟩ := by
    simp only [step, hcall]
  rw [hstep] at hwritten htrips
  obtain ⟨hrev, hmap, -⟩ := (h.roundTrips_added hvalid hfit hadded).1 htrips
  have hge := rtlLengthSid_ge s.ram r.sid
  refine ⟨?_, ?_, fun last hlast => ?_⟩
  · have hlast := hwritten (endOf (acl + 8) s.added + 8 + rtlLengthSid s.ram r.sid - 1)
      ((hadded.written _).2 (Or.inl ⟨by omega, by omega⟩))
    omega
  · rw [hadded.revision] at hrev
    exact Nat.le_trans (Nat.le_max_right _ _) hrev
  · rw [lastWord_of_positions hmap hlast]
    exact hadded.header

theorem Inv.step {op : AclOp} (ha : s.Admitted acl op) (hs : s.Sound acl op) :
    s.Exact acl op ∧ (s.step acl op).Inv acl := by
  cases op with
  | add r => exact h.add ha hs
  | store a bs =>
    have hinv : Inv acl ⟨s.ram.write a bs, s.added⟩ := h.congr fun i hi hlt => by
      rcases ha with hbefore | hbehind
      · exact byte_write_of_lt (by omega)
      · exact byte_write_of_lt (by omega)
    exact ⟨hinv.roundTrips, hinv⟩

theorem Inv.not_exact {op : AclOp} (ha : s.Admitted acl op) (hs : ¬ s.Sound acl op) :
    ¬ s.Exact acl op := by
  cases op with
  | add r => exact h.not_add ha hs
  | store a bs => exact absurd trivial hs

end

/-! ### Runs -/

theorem rtlCreateAcl_spec {m m' : Ram} {aclLength requested : BitVec 32}
    (h : rtlCreateAcl m acl aclLength requested = some m') :
    (aclRevision ≤ (m'.byte acl).toNat ∧ (m'.byte acl).toNat ≤ aclRevisionDs) ∧
      aclSize m' acl = aclLength.toNat % 65536 ∧ aceCount m' acl = 0 := by
  simp only [rtlCreateAcl] at h
  split at h
  · cases h
  split at h
  · cases h
  next hrevision =>
  simp only [some.injEq] at h
  subst h
  refine ⟨?_, ?_, ?_⟩
  · have hself : (m.write acl (leBytes 1 (requested.toNat % 256))).byte (acl + 0) = _ := byte_write_self (by simp)
    rw [add_zero] at hself
    rw [byte_write_of_lt (by omega), byte_write_of_lt (by omega), byte_write_of_lt (by omega),
      byte_write_of_lt (by omega), hself]
    simp only [leBytes, getD_cons_zero, BitVec.toNat_ofNat]
    omega
  · rw [aclSize, Ram.u16, read_write_of_disjoint (by omega), read_write_of_disjoint (by omega),
      read_write_of_length (by simp)]
    simp only [leBytes, leNat, BitVec.toNat_ofNat]
    omega
  · rw [aceCount, Ram.u16, read_write_of_disjoint (by omega), read_write_of_length (by simp)]
    rfl

/-- The list round-trips from its creation on exactly if its length is kept and every call is sound. -/
theorem aclRoundTrips_iff {m m' : Ram} {aclLength requested : BitVec 32} {ops : List AclOp}
    (h : rtlCreateAcl m acl aclLength requested = some m')
    (hops : EveryStep (AclBuilder.step acl) (Admitted acl) ⟨m', []⟩ ops) :
    RoundTrips acl ⟨m', []⟩ ∧ EveryStep (AclBuilder.step acl) (Exact acl) ⟨m', []⟩ ops ↔
      sizeofAcl ≤ aclLength.toNat % 65536 ∧ EveryStep (AclBuilder.step acl) (Sound acl) ⟨m', []⟩ ops := by
  obtain ⟨hrevision, hsize, hcount⟩ := rtlCreateAcl_spec h
  by_cases hfits : sizeofAcl ≤ aclLength.toNat % 65536
  · have hinv : Inv acl ⟨m', []⟩ :=
      { revision := hrevision
        size := hsize ▸ hfits
        count := hcount
        aces := trivial
        room := by
          have hmin : sizeofAcl = 8 := rfl
          show acl + 8 ≤ acl + aclSize m' acl
          omega }
    rw [and_iff_right hinv.roundTrips, and_iff_right hfits]
    exact everyStep_iff (fun _ _ hi ha hs => (hi.step ha hs).2) (fun _ _ hi ha hs => (hi.step ha hs).1)
      (fun _ _ hi ha hs => hi.not_exact ha hs) hinv hops
  · refine iff_of_false ?_ fun hr => hfits hr.1
    rintro ⟨htrips, -⟩
    have hvalid := htrips.valid
    have hshort : aclSize m' acl < sizeofAcl := by omega
    simp only [rtlValidAcl, if_pos hshort] at hvalid
    split at hvalid <;> cases hvalid

/-- A memory with the SID S-1-5-`rid` at 0x100, and a list of 64 bytes made at 0. -/
def sidMemory (rid : ℕ) : Ram :=
  (⟨fun _ => 0, []⟩ : Ram).write 0x100 ([1, 1, 0, 0, 0, 0, 0, 5] ++ leBytes 4 rid)

def newAcl (rid : ℕ) : Ram :=
  (((((sidMemory rid).write 0 (leBytes 1 2)).write 1 (leBytes 1 0)).write 2 (leBytes 2 64)).write 4
    (leBytes 2 0)).write 6 (leBytes 2 0)

theorem rtlCreateAcl_newAcl (rid : ℕ) : rtlCreateAcl (sidMemory rid) 0 64#32 2#32 = some (newAcl rid) := rfl

/-- One entry that allows and one that denies, both with the SID at 0x100. -/
def twoAces : List AclOp := [.add ⟨true, 2, 0, 3, 0x100⟩, .add ⟨false, 2, 0, 4, 0x100⟩]

theorem admitted_twoAces : EveryStep (AclBuilder.step 0) (Admitted 0) ⟨newAcl 0x100001, []⟩ twoAces :=
  ⟨by decide, by decide, trivial⟩

/-- The two entries round-trip for the SID whose last word is the header of the second entry. -/
theorem aclRoundTrips_twoAces : RoundTrips 0 ⟨newAcl 0x100001, []⟩ ∧
    EveryStep (AclBuilder.step 0) (Exact 0) ⟨newAcl 0x100001, []⟩ twoAces := by
  refine (aclRoundTrips_iff (rtlCreateAcl_newAcl _) admitted_twoAces).2 ⟨by decide, ?_, ?_, trivial⟩
  · intro _ free hfree _
    obtain rfl : 8 = free := some.inj hfree
    exact ⟨by decide, by decide, fun last hlast => by cases hlast⟩
  · intro _ free hfree _
    obtain rfl : 24 = free := some.inj hfree
    refine ⟨by decide, by decide, fun last hlast => ?_⟩
    obtain rfl := some.inj hlast
    decide

/-- For the SID S-1-5-18 the second entry takes the last word of the first one's SID. -/
theorem second_ace_overlaps : ¬ (RoundTrips 0 ⟨newAcl 18, []⟩ ∧
    EveryStep (AclBuilder.step 0) (Exact 0) ⟨newAcl 18, []⟩ twoAces) := by
  rintro ⟨-, -, ⟨-, -, htrips⟩, -⟩
  exact absurd htrips.iterates (by decide)

end AclBuilder

end Layout

end XenOS.Se
