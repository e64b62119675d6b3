import XenOS.General.Checked
import XenOS.General.Run
import Mathlib.Data.List.Count

/-! The share access of a file in `io/file.rs`: seven counters over the open file objects. They are
the sums of the flags over every history, so their comparisons decide the rule between a new open
and each old one. -/

namespace XenOS.Io

open General List Function

/-- The flags of a `FILE_OBJECT` for its access and what it shares. -/
structure ShareFlags where
  readAccess : Bool
  writeAccess : Bool
  deleteAccess : Bool
  sharedRead : Bool
  sharedWrite : Bool
  sharedDelete : Bool
  deriving DecidableEq

@[ext] structure ShareAccess where
  openCount : ℕ
  readers : ℕ
  writers : ℕ
  deleters : ℕ
  sharedRead : ℕ
  sharedWrite : ℕ
  sharedDelete : ℕ
  deriving DecidableEq

def flagsOf (desiredAccess desiredShareAccess : BitVec 32) : ShareFlags where
  readAccess := desiredAccess &&& (0x1 ||| 0x20) ≠ 0
  writeAccess := desiredAccess &&& (0x2 ||| 0x4) ≠ 0
  deleteAccess := desiredAccess &&& 0x10000 ≠ 0
  sharedRead := desiredShareAccess &&& 0x1 ≠ 0
  sharedWrite := desiredShareAccess &&& 0x2 ≠ 0
  sharedDelete := desiredShareAccess &&& 0x4 ≠ 0

/-- `STATUS_SUCCESS` and `STATUS_SHARING_VIOLATION`. -/
inductive ShareStatus where
  | success
  | sharingViolation
  deriving DecidableEq

namespace ShareAccess

def raise (count : ℕ) (flag : Bool) : Option ℕ := if flag then u32 (count + 1) else some count

def lower (count : ℕ) (flag : Bool) : ℕ := if flag ∧ 0 < count then count - 1 else count

/-- `io_set_share_access`, with the flags that it stores in the file object. -/
def ioSetShareAccess (desiredAccess desiredShareAccess : BitVec 32) : ShareAccess × ShareFlags :=
  let f := flagsOf desiredAccess desiredShareAccess
  (⟨1, if f.readAccess then 1 else 0, if f.writeAccess then 1 else 0, if f.deleteAccess then 1 else 0, if f.sharedRead then 1 else 0,
    if f.sharedWrite then 1 else 0, if f.sharedDelete then 1 else 0⟩, f)

def ioUpdateShareAccess (f : ShareFlags) (sa : ShareAccess) : Option ShareAccess := do
  let openCount ← u32 (sa.openCount + 1)
  let readers ← raise sa.readers f.readAccess
  let writers ← raise sa.writers f.writeAccess
  let deleters ← raise sa.deleters f.deleteAccess
  let sharedRead ← raise sa.sharedRead f.sharedRead
  let sharedWrite ← raise sa.sharedWrite f.sharedWrite
  let sharedDelete ← raise sa.sharedDelete f.sharedDelete
  return ⟨openCount, readers, writers, deleters, sharedRead, sharedWrite, sharedDelete⟩

def ioRemoveShareAccess (f : ShareFlags) (sa : ShareAccess) : ShareAccess where
  openCount := lower sa.openCount true
  readers := lower sa.readers f.readAccess
  writers := lower sa.writers f.writeAccess
  deleters := lower sa.deleters f.deleteAccess
  sharedRead := lower sa.sharedRead f.sharedRead
  sharedWrite := lower sa.sharedWrite f.sharedWrite
  sharedDelete := lower sa.sharedDelete f.sharedDelete

/-- `io_check_share_access`: the status, the counters and the flags of the file object. -/
def ioCheckShareAccess (desiredAccess desiredShareAccess : BitVec 32) (file : ShareFlags) (sa : ShareAccess) (update : Bool) :
    Option (ShareStatus × ShareAccess × ShareFlags) :=
  let f := flagsOf desiredAccess desiredShareAccess
  if 0 < sa.readers ∧ ¬ f.sharedRead then some (.sharingViolation, sa, file)
  else if 0 < sa.writers ∧ ¬ f.sharedWrite then some (.sharingViolation, sa, file)
  else if 0 < sa.deleters ∧ ¬ f.sharedDelete then some (.sharingViolation, sa, file)
  else if f.readAccess ∧ sa.sharedRead < sa.openCount then some (.sharingViolation, sa, file)
  else if f.writeAccess ∧ sa.sharedWrite < sa.openCount then some (.sharingViolation, sa, file)
  else if f.deleteAccess ∧ sa.sharedDelete < sa.openCount then some (.sharingViolation, sa, file)
  else if update then (ioUpdateShareAccess f sa).map fun sa => (.success, sa, f)
  else some (.success, sa, f)

end ShareAccess

open ShareAccess

/-- A file with its share access; `counted` are the file objects in it, `pending` those that were checked and not yet counted. -/
structure SharedFile where
  share : ShareAccess
  flags : ℕ → ShareFlags
  counted : List ℕ
  pending : List ℕ

inductive ShareRequest where
  | check (desiredAccess desiredShareAccess : BitVec 32) (file : ℕ) (update : Bool)
  | update (file : ℕ)
  | remove (file : ℕ)

namespace SharedFile

def first (desiredAccess desiredShareAccess : BitVec 32) (file : ℕ) (flags : ℕ → ShareFlags) : SharedFile :=
  let out := ioSetShareAccess desiredAccess desiredShareAccess
  ⟨out.1, update flags file out.2, [file], []⟩

def step (s : SharedFile) : ShareRequest → SharedFile
  | .check desiredAccess desiredShareAccess file update =>
    match ioCheckShareAccess desiredAccess desiredShareAccess (s.flags file) s.share update with
    | some (.success, share, f) =>
      ⟨share, Function.update s.flags file f, if update then file :: s.counted else s.counted,
        if update then s.pending.filter (· ≠ file) else file :: s.pending⟩
    | some (.sharingViolation, share, f) => ⟨share, Function.update s.flags file f, s.counted, s.pending⟩
    | none => s
  | .update file =>
    match ioUpdateShareAccess (s.flags file) s.share with
    | some share => ⟨share, s.flags, file :: s.counted, s.pending.filter (· ≠ file)⟩
    | none => s
  | .remove file => ⟨ioRemoveShareAccess (s.flags file) s.share, s.flags, s.counted.erase file, s.pending⟩

def Legal (s : SharedFile) : ShareRequest → Prop
  | .check _ _ file _ => file ∉ s.counted
  | .update file => file ∈ s.pending
  | .remove file => file ∈ s.counted

instance (s : SharedFile) : (r : ShareRequest) → Decidable (s.Legal r)
  | .check _ _ file _ => inferInstanceAs (Decidable (file ∉ s.counted))
  | .update file => inferInstanceAs (Decidable (file ∈ s.pending))
  | .remove file => inferInstanceAs (Decidable (file ∈ s.counted))

structure Exact (s : SharedFile) : Prop where
  openCount : s.share.openCount = s.counted.length
  readers : s.share.readers = s.counted.countP fun file => (s.flags file).readAccess
  writers : s.share.writers = s.counted.countP fun file => (s.flags file).writeAccess
  deleters : s.share.deleters = s.counted.countP fun file => (s.flags file).deleteAccess
  sharedRead : s.share.sharedRead = s.counted.countP fun file => (s.flags file).sharedRead
  sharedWrite : s.share.sharedWrite = s.counted.countP fun file => (s.flags file).sharedWrite
  sharedDelete : s.share.sharedDelete = s.counted.countP fun file => (s.flags file).sharedDelete

end SharedFile

structure ShareFlags.Permits (old new : ShareFlags) : Prop where
  oldRead : old.readAccess = true → new.sharedRead = true
  oldWrite : old.writeAccess = true → new.sharedWrite = true
  oldDelete : old.deleteAccess = true → new.sharedDelete = true
  newRead : new.readAccess = true → old.sharedRead = true
  newWrite : new.writeAccess = true → old.sharedWrite = true
  newDelete : new.deleteAccess = true → old.sharedDelete = true

namespace SharedFile

/-- The new open and all counted ones allow each other. -/
def Permitted (s : SharedFile) (f : ShareFlags) : Prop := ∀ file ∈ s.counted, (s.flags file).Permits f

/-- A check decides the rule and changes nothing where it fails, only the 2^32nd open faults, and a
removal after an open restores the counters. -/
def Decides (s : SharedFile) : ShareRequest → Prop
  | .check desiredAccess desiredShareAccess file update =>
    match ioCheckShareAccess desiredAccess desiredShareAccess (s.flags file) s.share update with
    | none => update = true ∧ s.Permitted (flagsOf desiredAccess desiredShareAccess) ∧ s.counted.length + 1 = 2 ^ 32
    | some (status, share, f) =>
      (status = .success ↔ s.Permitted (flagsOf desiredAccess desiredShareAccess)) ∧
        (status ≠ .success → share = s.share ∧ f = s.flags file) ∧
        (status = .success → f = flagsOf desiredAccess desiredShareAccess ∧
          if update then ioRemoveShareAccess f share = s.share else share = s.share)
  | .update file =>
    match ioUpdateShareAccess (s.flags file) s.share with
    | none => s.counted.length + 1 = 2 ^ 32
    | some share => ioRemoveShareAccess (s.flags file) share = s.share
  | .remove _ => True

/-! ### The invariant -/

structure Counts (s : SharedFile) : Prop where
  exact : s.Exact
  lt : s.counted.length < 2 ^ 32
  nodup : s.counted.Nodup
  apart : ∀ file ∈ s.pending, file ∉ s.counted

variable {s : SharedFile} {f : ShareFlags} {file : ℕ} {desiredAccess desiredShareAccess : BitVec 32}

theorem raise_eq {n k : ℕ} (hle : n ≤ k) (hlt : k + 1 < 2 ^ 32) (flag : Bool) : raise n flag = some (n + if flag then 1 else 0) := by
  cases flag with
  | false => rfl
  | true => exact u32_eq (by omega)

theorem lower_raised (n : ℕ) (flag : Bool) : lower (n + if flag then 1 else 0) flag = n := by
  cases flag with
  | false => rfl
  | true => simp [lower]

def plus (sa : ShareAccess) (f : ShareFlags) : ShareAccess where
  openCount := sa.openCount + 1
  readers := sa.readers + if f.readAccess then 1 else 0
  writers := sa.writers + if f.writeAccess then 1 else 0
  deleters := sa.deleters + if f.deleteAccess then 1 else 0
  sharedRead := sa.sharedRead + if f.sharedRead then 1 else 0
  sharedWrite := sa.sharedWrite + if f.sharedWrite then 1 else 0
  sharedDelete := sa.sharedDelete + if f.sharedDelete then 1 else 0

theorem remove_plus (sa : ShareAccess) (f : ShareFlags) : ioRemoveShareAccess f (plus sa f) = sa := by
  refine ShareAccess.ext ?_ (lower_raised _ _) (lower_raised _ _) (lower_raised _ _) (lower_raised _ _) (lower_raised _ _) (lower_raised _ _)
  simp [ioRemoveShareAccess, plus, lower]

theorem ioUpdateShareAccess_eq (h : s.Counts) (f : ShareFlags) :
    ioUpdateShareAccess f s.share = if s.counted.length + 1 = 2 ^ 32 then none else some (plus s.share f) := by
  have hopen := h.exact.openCount
  have hlt := h.lt
  have hle : ∀ p : ℕ → Bool, s.counted.countP p ≤ s.counted.length := fun p => countP_le_length
  unfold ioUpdateShareAccess
  split_ifs with hfull
  · have hnone : u32 (s.share.openCount + 1) = none := if_neg (by omega)
    rw [hnone]
    rfl
  · rw [u32_eq (by omega), raise_eq (h.exact.readers ▸ hle _) (by omega), raise_eq (h.exact.writers ▸ hle _) (by omega),
      raise_eq (h.exact.deleters ▸ hle _) (by omega), raise_eq (h.exact.sharedRead ▸ hle _) (by omega),
      raise_eq (h.exact.sharedWrite ▸ hle _) (by omega), raise_eq (h.exact.sharedDelete ▸ hle _) (by omega)]
    rfl

section Sums
variable {l : List ℕ} {p q : ℕ → Bool}

theorem user_iff (b : Bool) : (0 < l.countP p ∧ ¬ b = true) ↔ ¬ ∀ file ∈ l, p file = true → b = true := by
  rw [countP_pos_iff]
  push Not
  constructor
  · rintro ⟨⟨file, hfile, hp⟩, hb⟩
    exact ⟨file, hfile, hp, hb⟩
  · rintro ⟨file, hfile, hp, hb⟩
    exact ⟨⟨file, hfile, hp⟩, hb⟩

theorem sharer_iff (b : Bool) : (b = true ∧ l.countP p < l.length) ↔ ¬ ∀ file ∈ l, b = true → p file = true := by
  rw [countP_lt_length_iff]
  push Not
  constructor
  · rintro ⟨hb, file, hfile, hp⟩
    exact ⟨file, hfile, hb, Bool.eq_false_iff.1 hp⟩
  · rintro ⟨file, hfile, hb, hp⟩
    exact ⟨hb, file, hfile, Bool.eq_false_iff.2 hp⟩

end Sums

theorem ioCheckShareAccess_eq (h : s.Exact) (desiredAccess desiredShareAccess : BitVec 32) (file : ShareFlags) (update : Bool) :
    (¬ s.Permitted (flagsOf desiredAccess desiredShareAccess) ∧
        ioCheckShareAccess desiredAccess desiredShareAccess file s.share update = some (.sharingViolation, s.share, file)) ∨
      (s.Permitted (flagsOf desiredAccess desiredShareAccess) ∧
        ioCheckShareAccess desiredAccess desiredShareAccess file s.share update =
          if update then (ioUpdateShareAccess (flagsOf desiredAccess desiredShareAccess) s.share).map fun sa =>
            (.success, sa, flagsOf desiredAccess desiredShareAccess)
          else some (.success, s.share, flagsOf desiredAccess desiredShareAccess)) := by
  unfold ioCheckShareAccess
  simp only [h.openCount, h.readers, h.writers, h.deleters, h.sharedRead, h.sharedWrite, h.sharedDelete, user_iff, sharer_iff]
  generalize flagsOf desiredAccess desiredShareAccess = f
  by_cases h₁ : ∀ file ∈ s.counted, (s.flags file).readAccess = true → f.sharedRead = true
  swap
  · rw [if_pos h₁]
    exact Or.inl ⟨fun hall => h₁ fun file hfile => (hall file hfile).oldRead, rfl⟩
  by_cases h₂ : ∀ file ∈ s.counted, (s.flags file).writeAccess = true → f.sharedWrite = true
  swap
  · rw [if_neg (not_not.2 h₁), if_pos h₂]
    exact Or.inl ⟨fun hall => h₂ fun file hfile => (hall file hfile).oldWrite, rfl⟩
  by_cases h₃ : ∀ file ∈ s.counted, (s.flags file).deleteAccess = true → f.sharedDelete = true
  swap
  · rw [if_neg (not_not.2 h₁), if_neg (not_not.2 h₂), if_pos h₃]
    exact Or.inl ⟨fun hall => h₃ fun file hfile => (hall file hfile).oldDelete, rfl⟩
  rw [if_neg (not_not.2 h₁), if_neg (not_not.2 h₂), if_neg (not_not.2 h₃)]
  by_cases h₄ : ∀ file ∈ s.counted, f.readAccess = true → (s.flags file).sharedRead = true
  swap
  · rw [if_pos h₄]
    exact Or.inl ⟨fun hall => h₄ fun file hfile => (hall file hfile).newRead, rfl⟩
  by_cases h₅ : ∀ file ∈ s.counted, f.writeAccess = true → (s.flags file).sharedWrite = true
  swap
  · rw [if_neg (not_not.2 h₄), if_pos h₅]
    exact Or.inl ⟨fun hall => h₅ fun file hfile => (hall file hfile).newWrite, rfl⟩
  by_cases h₆ : ∀ file ∈ s.counted, f.deleteAccess = true → (s.flags file).sharedDelete = true
  swap
  · rw [if_neg (not_not.2 h₄), if_neg (not_not.2 h₅), if_pos h₆]
    exact Or.inl ⟨fun hall => h₆ fun file hfile => (hall file hfile).newDelete, rfl⟩
  rw [if_neg (not_not.2 h₄), if_neg (not_not.2 h₅), if_neg (not_not.2 h₆)]
  exact Or.inr ⟨fun file hfile => ⟨h₁ file hfile, h₂ file hfile, h₃ file hfile, h₄ file hfile, h₅ file hfile, h₆ file hfile⟩, rfl⟩

theorem countP_update (hfile : file ∉ s.counted) (f : ShareFlags) (p : ShareFlags → Bool) :
    s.counted.countP (fun i => p (update s.flags file f i)) = s.counted.countP fun i => p (s.flags i) :=
  countP_congr fun i hi => by rw [update_of_ne fun hsame : i = file => hfile (hsame ▸ hi)]

theorem Exact.update (h : s.Exact) (hfile : file ∉ s.counted) (f : ShareFlags) (pending : List ℕ) :
    Exact ⟨s.share, update s.flags file f, s.counted, pending⟩ where
  openCount := h.openCount
  readers := h.readers.trans (countP_update hfile f fun f => f.readAccess).symm
  writers := h.writers.trans (countP_update hfile f fun f => f.writeAccess).symm
  deleters := h.deleters.trans (countP_update hfile f fun f => f.deleteAccess).symm
  sharedRead := h.sharedRead.trans (countP_update hfile f fun f => f.sharedRead).symm
  sharedWrite := h.sharedWrite.trans (countP_update hfile f fun f => f.sharedWrite).symm
  sharedDelete := h.sharedDelete.trans (countP_update hfile f fun f => f.sharedDelete).symm

theorem Exact.plus (h : s.Exact) (file : ℕ) (pending : List ℕ) : Exact ⟨plus s.share (s.flags file), s.flags, file :: s.counted, pending⟩ where
  openCount := congrArg (· + 1) h.openCount
  readers := by simp [SharedFile.plus, countP_cons, h.readers]
  writers := by simp [SharedFile.plus, countP_cons, h.writers]
  deleters := by simp [SharedFile.plus, countP_cons, h.deleters]
  sharedRead := by simp [SharedFile.plus, countP_cons, h.sharedRead]
  sharedWrite := by simp [SharedFile.plus, countP_cons, h.sharedWrite]
  sharedDelete := by simp [SharedFile.plus, countP_cons, h.sharedDelete]

theorem lower_countP (hfile : file ∈ s.counted) (p : ℕ → Bool) : lower (s.counted.countP p) (p file) = (s.counted.erase file).countP p := by
  have hperm := (perm_cons_erase hfile).countP_eq p
  rw [hperm, countP_cons]
  exact lower_raised _ _

theorem Exact.remove (h : s.Exact) (hfile : file ∈ s.counted) :
    Exact ⟨ioRemoveShareAccess (s.flags file) s.share, s.flags, s.counted.erase file, s.pending⟩ where
  openCount := by
    have hpos := length_pos_of_mem hfile
    simp only [ioRemoveShareAccess, lower, h.openCount, length_erase_of_mem hfile]
    simp [hpos]
  readers := (congrArg (lower · _) h.readers).trans (lower_countP hfile fun i => (s.flags i).readAccess)
  writers := (congrArg (lower · _) h.writers).trans (lower_countP hfile fun i => (s.flags i).writeAccess)
  deleters := (congrArg (lower · _) h.deleters).trans (lower_countP hfile fun i => (s.flags i).deleteAccess)
  sharedRead := (congrArg (lower · _) h.sharedRead).trans (lower_countP hfile fun i => (s.flags i).sharedRead)
  sharedWrite := (congrArg (lower · _) h.sharedWrite).trans (lower_countP hfile fun i => (s.flags i).sharedWrite)
  sharedDelete := (congrArg (lower · _) h.sharedDelete).trans (lower_countP hfile fun i => (s.flags i).sharedDelete)

theorem counts_first (flags : ℕ → ShareFlags) : (first desiredAccess desiredShareAccess file flags).Counts := by
  have hcount : ∀ p : ShareFlags → Bool, [file].countP (fun i => p (update flags file (flagsOf desiredAccess desiredShareAccess) i)) =
      if p (flagsOf desiredAccess desiredShareAccess) then 1 else 0 := by
    intro p
    rw [countP_singleton, update_self]
  exact ⟨⟨rfl, (hcount fun f => f.readAccess).symm, (hcount fun f => f.writeAccess).symm, (hcount fun f => f.deleteAccess).symm,
    (hcount fun f => f.sharedRead).symm, (hcount fun f => f.sharedWrite).symm, (hcount fun f => f.sharedDelete).symm⟩,
    show 1 < 2 ^ 32 by decide, nodup_cons.2 ⟨not_mem_nil, nodup_nil⟩, fun _ hpending => (not_mem_nil hpending).elim⟩

theorem Counts.plus (h : s.Counts) (hfile : file ∉ s.counted) (hroom : s.counted.length + 1 ≠ 2 ^ 32) :
    Counts ⟨SharedFile.plus s.share (s.flags file), s.flags, file :: s.counted, s.pending.filter (· ≠ file)⟩ := by
  have hlt := h.lt
  refine ⟨h.exact.plus file _, by simp only [length_cons]; omega, nodup_cons.2 ⟨hfile, h.nodup⟩, fun i hi hcounted => ?_⟩
  obtain ⟨hpending, hne⟩ := mem_filter.1 hi
  rcases mem_cons.1 hcounted with rfl | hcounted
  · exact of_decide_eq_true hne rfl
  · exact h.apart i hpending hcounted

theorem Counts.step {r : ShareRequest} (h : s.Counts) (hlegal : s.Legal r) : s.Decides r ∧ (s.step r).Counts := by
  cases r with
  | check desiredAccess desiredShareAccess file update =>
    have hfile : file ∉ s.counted := hlegal
    simp only [Decides, SharedFile.step]
    rcases ioCheckShareAccess_eq h.exact desiredAccess desiredShareAccess (s.flags file) update with ⟨hnot, heq⟩ | ⟨hpermitted, heq⟩
    · rw [heq]
      refine ⟨⟨⟨fun hsuccess => (nomatch hsuccess), fun hpermitted => absurd hpermitted hnot⟩, fun _ => ⟨rfl, rfl⟩, fun hsuccess => (nomatch hsuccess)⟩, ?_⟩
      have hsame : Function.update s.flags file (s.flags file) = s.flags := Function.update_eq_self file s.flags
      simp only [hsame]
      exact ⟨⟨h.exact.openCount, h.exact.readers, h.exact.writers, h.exact.deleters, h.exact.sharedRead, h.exact.sharedWrite,
        h.exact.sharedDelete⟩, h.lt, h.nodup, h.apart⟩
    · have hflags := h.exact.update hfile (flagsOf desiredAccess desiredShareAccess) s.pending
      cases update with
      | false =>
        rw [if_neg Bool.false_ne_true] at heq
        rw [heq]
        refine ⟨⟨⟨fun _ => hpermitted, fun _ => rfl⟩, fun hne => absurd rfl hne, fun _ => ⟨rfl, rfl⟩⟩, ?_⟩
        refine ⟨⟨hflags.openCount, hflags.readers, hflags.writers, hflags.deleters, hflags.sharedRead, hflags.sharedWrite,
          hflags.sharedDelete⟩, h.lt, h.nodup, fun i hi => ?_⟩
        rcases mem_cons.1 hi with rfl | hi
        · exact hfile
        · exact h.apart i hi
      | true =>
        rw [if_pos rfl, ioUpdateShareAccess_eq h] at heq
        by_cases hfull : s.counted.length + 1 = 2 ^ 32
        · rw [if_pos hfull] at heq
          rw [Option.map_none] at heq
          rw [heq]
          exact ⟨⟨rfl, hpermitted, hfull⟩, h⟩
        · rw [if_neg hfull] at heq
          rw [Option.map_some] at heq
          rw [heq]
          refine ⟨⟨⟨fun _ => hpermitted, fun _ => rfl⟩, fun hne => absurd rfl hne, fun _ => ⟨rfl, remove_plus _ _⟩⟩, ?_⟩
          have hcounts : Counts ⟨s.share, Function.update s.flags file (flagsOf desiredAccess desiredShareAccess), s.counted, s.pending⟩ :=
            ⟨hflags, h.lt, h.nodup, h.apart⟩
          have hplus := hcounts.plus hfile hfull
          simp only [Function.update_self] at hplus
          exact hplus
  | update file =>
    have hfile := h.apart file hlegal
    simp only [Decides, SharedFile.step]
    rw [ioUpdateShareAccess_eq h]
    by_cases hfull : s.counted.length + 1 = 2 ^ 32
    · rw [if_pos hfull]
      exact ⟨hfull, h⟩
    · rw [if_neg hfull]
      exact ⟨remove_plus _ _, h.plus hfile hfull⟩
  | remove file =>
    have hfile : file ∈ s.counted := hlegal
    refine ⟨trivial, h.exact.remove hfile, ?_, h.nodup.erase file, fun i hi hcounted => h.apart i hi (mem_of_mem_erase hcounted)⟩
    exact lt_of_le_of_lt (length_erase_le) h.lt

/-- Over every history the counters are the sums, and every check decides the rule between the new open and each counted one. -/
theorem shareAccess_exact (desiredAccess desiredShareAccess : BitVec 32) (file : ℕ) (flags : ℕ → ShareFlags) {rs : List ShareRequest}
    (hrs : EveryStep step Legal (first desiredAccess desiredShareAccess file flags) rs) :
    EveryState step Exact (first desiredAccess desiredShareAccess file flags) rs ∧
      EveryStep step Decides (first desiredAccess desiredShareAccess file flags) rs := by
  have hkeep : ∀ s r, s.Counts → s.Legal r → (step s r).Counts := fun s r h hlegal => (h.step hlegal).2
  exact ⟨(everyState_invariant hkeep (counts_first flags) hrs).imp fun s h => h.exact,
    everyStep_of_invariant hkeep (fun s r h hlegal => (h.step hlegal).1) (counts_first flags) hrs⟩

/-- A reader that shares reading, a writer that is refused, a second reader that is checked and then counted, and the first removed. -/
theorem shareAccess_readers :
    EveryState step Exact (first 1 1 0 fun _ => ⟨false, false, false, false, false, false⟩) [.check 2 7 1 true, .check 1 1 2 false, .update 2, .remove 0] ∧
      EveryStep step Decides (first 1 1 0 fun _ => ⟨false, false, false, false, false, false⟩)
        [.check 2 7 1 true, .check 1 1 2 false, .update 2, .remove 0] :=
  shareAccess_exact 1 1 0 _ ⟨by decide, by decide, by decide, by decide, trivial⟩

end SharedFile

end XenOS.Io
