import Mathlib.Data.Int.ModEq
import XenOS.General.FiniteSum
import XenOS.General.Run

/-! Lookaside lists: blocks in an interlocked singly linked list, whose depth is counted apart. The
atomic steps of any number of threads interleave; a block outside the list is written by whoever has
it. -/

namespace XenOS.Ex

open General List
open Function (update update_self update_of_ne)

/-- Where a thread is in the functions of the list. A flush keeps the number of blocks it took, for the record. -/
inductive SListPc (B : Type*) where
  | idle
  | popLoad
  | popNext (entry : B)
  | popCas (entry : B) (next : Option B)
  | popDepth
  | allocate
  | freeDepth (entry : B)
  | pushLoad (entry : B)
  | pushNext (entry : B) (oldNext : Option B)
  | pushCas (entry : B) (oldNext : Option B)
  | pushDepth
  | freePool (entry : B)
  | flushLoad
  | flushCas (first : Option B)
  | flushDepth (count : ℕ)

namespace SListPc
variable {B : Type*}

def owed : SListPc B → ℤ
  | popDepth => 1
  | pushDepth => -1
  | flushDepth count => count
  | _ => 0

/-- A free whose increment is still to come. -/
def adding : SListPc B → ℤ
  | pushDepth => 1
  | _ => 0

/-- A free that found room and has not put its block in the list. -/
def going : SListPc B → ℤ
  | pushLoad _ | pushNext _ _ | pushCas _ _ => 1
  | _ => 0

def freeing : SListPc B → ℤ
  | freeDepth _ | pushLoad _ | pushNext _ _ | pushCas _ _ | pushDepth | freePool _ => 1
  | _ => 0

def block : SListPc B → Option B
  | freeDepth b | pushLoad b | pushNext b _ | pushCas b _ | freePool b => some b
  | _ => none

theorem owed_idle : (idle : SListPc B).owed = 0 := rfl

theorem going_idle : (idle : SListPc B).going = 0 := rfl

theorem freeing_idle : (idle : SListPc B).freeing = 0 := rfl

theorem adding_add_going_le (pc : SListPc B) : pc.adding + pc.going ≤ pc.freeing := by
  cases pc <;> simp [adding, going, freeing]

theorem neg_adding_le_owed (pc : SListPc B) : -pc.adding ≤ pc.owed := by
  cases pc <;> simp [adding, owed]

end SListPc

/-- The list head, the links, the threads, the holders and the pool. For the record, the blocks in
the list and the most frees under way at once. -/
structure Lookaside (B T : Type*) where
  head : Option B
  depthSequence : ℕ
  next : B → Option B
  pc : T → SListPc B
  holders : B → List T
  pool : B → Bool
  listed : List B
  peak : ℤ

inductive LookasideStep (B T : Type*) where
  | allocate (t : T)
  | free (t : T) (b : B)
  | flush (t : T)
  | write (t : T) (b : B) (word : Option B)
  | poolWrite (b : B) (word : Option B)
  | thread (t : T) (weak : Bool) (fresh : Option B)

namespace Lookaside
variable {B T : Type*}

/-- The blocks from `head` on, by their links. -/
def IsChain (next : B → Option B) : Option B → List B → Prop
  | head, [] => head = none
  | head, b :: list => head = some b ∧ IsChain next (next b) list

/-- The low half of `depth_sequence`. -/
def depth (s : Lookaside B T) : ℕ := s.depthSequence % 2 ^ 16

def init : Lookaside B T where
  head := none
  depthSequence := 0
  next _ := none
  pc _ := .idle
  holders _ := []
  pool _ := true
  listed := []
  peak := 0

section
variable [DecidableEq B] [DecidableEq T]

def goto (s : Lookaside B T) (t : T) (pc : SListPc B) : Lookaside B T := { s with pc := update s.pc t pc }

/-- The next step of the thread. A weak compare-exchange may fail by itself; the pool gives any block that it has, or
none. -/
def threadStep (limit : ℕ) (s : Lookaside B T) (t : T) (weak : Bool) (fresh : Option B) : Lookaside B T :=
  match s.pc t with
  | .idle => s
  | .popLoad =>
    match s.head with
    | none => s.goto t .allocate
    | some entry => s.goto t (.popNext entry)
  | .popNext entry => s.goto t (.popCas entry (s.next entry))
  | .popCas entry next =>
    if s.head = some entry ∧ weak = false then
      { s with
        head := next
        pc := update s.pc t .popDepth
        holders := update s.holders entry (t :: s.holders entry)
        listed := s.listed.tail }
    else s.goto t .popLoad
  | .popDepth =>
    { s with
      depthSequence := (s.depthSequence + (2 ^ 32 - 1)) % 2 ^ 32
      pc := update s.pc t .idle }
  | .allocate =>
    match fresh with
    | none => s.goto t .idle
    | some b =>
      if s.pool b then
        { s with
          pc := update s.pc t .idle
          holders := update s.holders b (t :: s.holders b)
          pool := update s.pool b false }
      else s.goto t .idle
  | .freeDepth b => if s.depth < limit then s.goto t (.pushLoad b) else s.goto t (.freePool b)
  | .pushLoad b => s.goto t (.pushNext b s.head)
  | .pushNext b oldNext =>
    { s with next := update s.next b oldNext, pc := update s.pc t (.pushCas b oldNext) }
  | .pushCas b oldNext =>
    if s.head = oldNext ∧ weak = false then
      { s with
        head := some b
        pc := update s.pc t .pushDepth
        holders := update s.holders b ((s.holders b).erase t)
        listed := b :: s.listed }
    else s.goto t (.pushLoad b)
  | .pushDepth =>
    { s with
      depthSequence := (s.depthSequence + 1) % 2 ^ 32
      pc := update s.pc t .idle }
  | .freePool b =>
    { s with
      pc := update s.pc t .idle
      holders := update s.holders b ((s.holders b).erase t)
      pool := update s.pool b true }
  | .flushLoad => s.goto t (.flushCas s.head)
  | .flushCas first =>
    if s.head = first ∧ weak = false then
      { s with
        head := none
        pc := update s.pc t (.flushDepth s.listed.length)
        holders := fun b => if b ∈ s.listed then t :: s.holders b else s.holders b
        listed := [] }
    else s.goto t .flushLoad
  | .flushDepth _ => { s with depthSequence := 0, pc := update s.pc t .idle }

variable [Fintype T]

def sum (s : Lookaside B T) (weight : SListPc B → ℤ) : ℤ := ∑ t, weight (s.pc t)

/-- One step, with the depth that the list was given. A thread frees and writes only what it holds. -/
def step (limit : ℕ) (s : Lookaside B T) : LookasideStep B T → Lookaside B T
  | .allocate t =>
    match s.pc t with
    | .idle => s.goto t .popLoad
    | _ => s
  | .free t b =>
    match s.pc t with
    | .idle =>
      if t ∈ s.holders b then
        let s' := s.goto t (.freeDepth b)
        { s' with peak := max s.peak (s'.sum SListPc.freeing) }
      else s
    | _ => s
  | .flush t =>
    match s.pc t with
    | .idle => s.goto t .flushLoad
    | _ => s
  | .write t b word =>
    match s.pc t with
    | .idle => if t ∈ s.holders b then { s with next := update s.next b word } else s
    | _ => s
  | .poolWrite b word => if s.pool b then { s with next := update s.next b word } else s
  | .thread t weak fresh => s.threadStep limit t weak fresh

inductive Once (s : Lookaside B T) (list : List B) (b : B) : Prop where
  | listed (count : list.count b = 1) (holders : s.holders b = []) (pool : s.pool b = false)
  | held (t : T) (count : list.count b = 0) (holders : s.holders b = [t]) (pool : s.pool b = false)
  | pool (count : list.count b = 0) (holders : s.holders b = []) (pool : s.pool b = true)

/-- Each block is in one place; while nothing is under way the depth is the length of the list,
above the limit at most by the frees that were under way at once. -/
def Sound (limit : ℕ) (s : Lookaside B T) : Prop :=
  ∃ list, IsChain s.next s.head list ∧ (∀ b, s.Once list b) ∧
    ((∀ t, s.pc t = .idle) → s.depth = list.length ∧ (s.depth : ℤ) ≤ limit + s.peak)

/-- The depth, were every update made that is still to come. -/
def balance (s : Lookaside B T) : ℤ := s.listed.length + s.sum SListPc.owed

/-- A pop that finds its entry at the head finds the same link in it; a flush that stores 0 finds no
more blocks without an update than pushes with an increment to come; depth and list fit in a half
word. -/
def Spaced (s : Lookaside B T) : LookasideStep B T → Prop
  | .thread t weak _ =>
    match s.pc t with
    | .popCas entry next => s.head = some entry → weak = false → s.next entry = next
    | .freeDepth _ => s.balance < 2 ^ 16
    | .pushCas _ oldNext => s.head = oldNext → weak = false → s.listed.length + 1 < 2 ^ 16
    | .flushDepth count => s.balance = count
    | _ => True
  | _ => True

/-! ### The invariant -/

structure Inv (limit : ℕ) (s : Lookaside B T) : Prop where
  chain : IsChain s.next s.head s.listed
  once : ∀ b, s.Once s.listed b
  block : ∀ t b, (s.pc t).block = some b → s.holders b = [t]
  link : ∀ t b oldNext, s.pc t = .pushCas b oldNext → s.next b = oldNext
  lt : s.listed.length < 2 ^ 16
  depth : (s.depthSequence : ℤ) = s.balance % 2 ^ 32
  bound : s.listed.length + s.sum SListPc.going ≤ limit + s.peak
  peak : s.sum SListPc.freeing ≤ s.peak

variable {limit : ℕ} {s s' : Lookaside B T} {t : T} {b : B} {pc : SListPc B}

omit [DecidableEq T] [Fintype T] in
theorem Once.of {list list' : List B} (h : s.Once list b) (hcount : list'.count b = list.count b)
    (hholders : s'.holders b = s.holders b) (hpool : s'.pool b = s.pool b) : s'.Once list' b := by
  cases h with
  | listed count holders pool => exact .listed (hcount.trans count) (hholders.trans holders) (hpool.trans pool)
  | held u count holders pool => exact .held u (hcount.trans count) (hholders.trans holders) (hpool.trans pool)
  | pool count holders pool => exact .pool (hcount.trans count) (hholders.trans holders) (hpool.trans pool)

omit [DecidableEq T] [Fintype T] in
theorem IsChain.update {next : B → Option B} {head : Option B} {list : List B} (h : IsChain next head list)
    (hmem : b ∉ list) (word : Option B) : IsChain (update next b word) head list := by
  induction list generalizing head with
  | nil => exact h
  | cons c list ih =>
    obtain ⟨hne, hrest⟩ := ne_and_not_mem_of_not_mem_cons hmem
    refine ⟨h.1, ?_⟩
    rw [update_of_ne hne.symm]
    exact ih h.2 hrest

omit [DecidableEq B] in
theorem sum_pc (weight : SListPc B → ℤ) (hpc : s'.pc = update s.pc t pc) :
    s'.sum weight = s.sum weight + (weight pc - weight (s.pc t)) := by
  rw [sum, hpc]
  exact sum_update weight s.pc t pc

omit [DecidableEq T] in
theorem Inv.init (limit : ℕ) : Inv limit (init : Lookaside B T) where
  chain := rfl
  once b := .pool count_nil rfl rfl
  block t b h := by cases h
  link t b oldNext h := by cases h
  lt := Nat.two_pow_pos 16
  depth := by simp [Lookaside.init, balance, sum, SListPc.owed]
  bound := by simp [Lookaside.init, sum, SListPc.going]
  peak := by simp [Lookaside.init, sum, SListPc.freeing]

omit [DecidableEq T] in
theorem Inv.sound (h : s.Inv limit) : s.Sound limit := by
  refine ⟨s.listed, h.chain, h.once, fun hidle => ?_⟩
  have howed : s.sum SListPc.owed = 0 := by simp [sum, hidle, SListPc.owed]
  have hgoing : s.sum SListPc.going = 0 := by simp [sum, hidle, SListPc.going]
  have hdepth := h.depth
  have hbound := h.bound
  have hlt := h.lt
  rw [balance, howed] at hdepth
  rw [hgoing] at hbound
  have heq : s.depth = s.listed.length := by
    rw [Lookaside.depth]
    omega
  refine ⟨heq, ?_⟩
  rw [heq]
  omega

namespace Inv

omit [Fintype T] [DecidableEq B] in
theorem block_update {pcs : T → SListPc B} {holders : B → List T} (hown : ∀ b, pc.block = some b → holders b = [t])
    (hothers : ∀ u, u ≠ t → ∀ b, (pcs u).block = some b → holders b = [u]) (u : T) (b : B)
    (h : (update pcs t pc u).block = some b) : holders b = [u] := by
  rcases eq_or_ne u t with rfl | hne
  · rw [update_self] at h
    exact hown b h
  · rw [update_of_ne hne] at h
    exact hothers u hne b h

omit [Fintype T] [DecidableEq B] in
theorem link_update {pcs : T → SListPc B} {next : B → Option B} (hown : ∀ b oldNext, pc = .pushCas b oldNext → next b = oldNext)
    (hothers : ∀ u, u ≠ t → ∀ b oldNext, pcs u = .pushCas b oldNext → next b = oldNext) (u : T) (b : B)
    (oldNext : Option B) (h : update pcs t pc u = .pushCas b oldNext) : next b = oldNext := by
  rcases eq_or_ne u t with rfl | hne
  · rw [update_self] at h
    exact hown b oldNext h
  · rw [update_of_ne hne] at h
    exact hothers u hne b oldNext h

omit [DecidableEq T] in
theorem not_mem_of_held (h : s.Inv limit) (hheld : t ∈ s.holders b) :
    s.holders b = [t] ∧ b ∉ s.listed ∧ s.pool b = false := by
  cases h.once b with
  | listed count holders pool =>
    rw [holders] at hheld
    cases hheld
  | held u count holders pool =>
    rw [holders] at hheld ⊢
    obtain rfl := mem_singleton.1 hheld
    exact ⟨rfl, count_eq_zero.1 count, pool⟩
  | pool count holders pool =>
    rw [holders] at hheld
    cases hheld

omit [DecidableEq T] in
theorem pooled (h : s.Inv limit) (hpool : s.pool b = true) : b ∉ s.listed ∧ s.holders b = [] := by
  cases h.once b with
  | pool count holders pool => exact ⟨count_eq_zero.1 count, holders⟩
  | listed count holders pool | held u count holders pool =>
    rw [hpool] at pool
    cases pool

omit [DecidableEq T] in
theorem block_ne (h : s.Inv limit) (hblock : (s.pc t).block = some b) {u : T} (hne : u ≠ t) :
    (s.pc u).block ≠ some b := by
  intro hu
  have heq := (h.block u b hu).symm.trans (h.block t b hblock)
  exact hne (singleton_inj.1 heq)

theorem goto (h : s.Inv limit) (hblock : ∀ b, pc.block = some b → s.holders b = [t])
    (hlink : ∀ b oldNext, pc = .pushCas b oldNext → s.next b = oldNext) (howed : pc.owed = (s.pc t).owed)
    (hgoing : s.listed.length + s.sum SListPc.going + pc.going ≤ limit + s.peak + (s.pc t).going)
    (hfreeing : s.sum SListPc.freeing + pc.freeing ≤ s.peak + (s.pc t).freeing) : (s.goto t pc).Inv limit where
  chain := h.chain
  once b := (h.once b).of rfl rfl rfl
  block := block_update hblock fun u _ => h.block u
  link := link_update hlink fun u _ => h.link u
  lt := h.lt
  depth := by
    have hsum : (s.goto t pc).sum SListPc.owed = s.sum SListPc.owed := by
      rw [sum_pc SListPc.owed rfl, howed, sub_self, add_zero]
    rw [balance, hsum]
    exact h.depth
  bound := by
    rw [sum_pc SListPc.going rfl]
    have hlisted : (s.goto t pc).listed = s.listed := rfl
    have hpeak : (s.goto t pc).peak = s.peak := rfl
    rw [hlisted, hpeak]
    omega
  peak := by
    rw [sum_pc SListPc.freeing rfl]
    have hpeak : (s.goto t pc).peak = s.peak := rfl
    rw [hpeak]
    omega

omit [DecidableEq T] in
theorem write (h : s.Inv limit) (hmem : b ∉ s.listed) (hlink : ∀ u oldNext, s.pc u ≠ .pushCas b oldNext)
    (word : Option B) : Inv limit { s with next := update s.next b word } where
  chain := h.chain.update hmem word
  once c := (h.once c).of rfl rfl rfl
  block := h.block
  link u c oldNext hpc := by
    have hne : c ≠ b := by
      rintro rfl
      exact hlink u oldNext hpc
    dsimp only
    rw [update_of_ne hne]
    exact h.link u c oldNext hpc
  lt := h.lt
  depth := h.depth
  bound := h.bound
  peak := h.peak

section
variable (h : s.Inv limit)
include h

theorem popCas {entry : B} {next : Option B} (hpc : s.pc t = .popCas entry next)
    (hhead : s.head = some entry) (hnext : s.next entry = next) :
    Inv limit { s with
      head := next
      pc := update s.pc t .popDepth
      holders := update s.holders entry (t :: s.holders entry)
      listed := s.listed.tail } := by
  have hchain := h.chain
  obtain ⟨rest, hlisted⟩ : ∃ rest, s.listed = entry :: rest := by
    cases hlist : s.listed with
    | nil =>
      rw [hlist, IsChain, hhead] at hchain
      cases hchain
    | cons c rest =>
      rw [hlist] at hchain
      obtain rfl := Option.some.inj (hhead.symm.trans hchain.1)
      exact ⟨rest, rfl⟩
  rw [hlisted] at hchain
  have honce := h.once
  have hlt := h.lt
  have hdepth := h.depth
  have hbound := h.bound
  rw [hlisted] at honce hlt hbound
  rw [balance, hlisted] at hdepth
  have hentry : rest.count entry = 0 ∧ s.holders entry = [] ∧ s.pool entry = false := by
    cases honce entry with
    | listed count holders pool =>
      rw [count_cons_self] at count
      exact ⟨Nat.succ.inj count, holders, pool⟩
    | held u count holders pool | pool count holders pool =>
      rw [count_cons_self] at count
      cases count
  have htail : s.listed.tail = rest := by rw [hlisted, tail_cons]
  rw [htail]
  constructor
  · rw [← hnext]
    exact hchain.2
  · intro b
    rcases eq_or_ne b entry with rfl | hne
    · exact .held t hentry.1 (by simp only [update_self, hentry.2.1]) hentry.2.2
    · refine (honce b).of ?_ (update_of_ne hne ..) rfl
      rw [count_cons_of_ne hne.symm]
  · refine block_update (fun b heq => by cases heq) fun u hne b hblock => ?_
    have hold := h.block u b hblock
    have hb : b ≠ entry := by
      rintro rfl
      rw [hentry.2.1] at hold
      cases hold
    dsimp only
    rw [update_of_ne hb]
    exact hold
  · exact link_update (fun b oldNext heq => by cases heq) fun u _ => h.link u
  · rw [length_cons] at hlt
    exact Nat.lt_of_succ_lt hlt
  · rw [balance, sum_pc SListPc.owed rfl, hpc]
    rw [length_cons] at hdepth
    push_cast at hdepth ⊢
    rw [hdepth]
    simp only [SListPc.owed]
    congr 1
    omega
  · rw [sum_pc SListPc.going rfl, hpc]
    rw [length_cons] at hbound
    push_cast at hbound ⊢
    simp only [SListPc.going]
    omega
  · rw [sum_pc SListPc.freeing rfl, hpc]
    have hpeak := h.peak
    simp only [SListPc.freeing]
    omega

theorem pushCas {oldNext : Option B} (hpc : s.pc t = .pushCas b oldNext) (hhead : s.head = oldNext)
    (hlt : s.listed.length + 1 < 2 ^ 16) :
    Inv limit { s with
      head := some b
      pc := update s.pc t .pushDepth
      holders := update s.holders b ((s.holders b).erase t)
      listed := b :: s.listed } := by
  have hblock : (s.pc t).block = some b := by
    rw [hpc]
    rfl
  obtain ⟨hholders, hmem, hpool⟩ := h.not_mem_of_held (h.block t b hblock ▸ mem_singleton_self t)
  have hdepth := h.depth
  have hbound := h.bound
  have hpeak := h.peak
  constructor
  · refine ⟨rfl, ?_⟩
    dsimp only
    rw [h.link t b oldNext hpc, ← hhead]
    exact h.chain
  · intro c
    rcases eq_or_ne c b with rfl | hne
    · refine .listed ?_ ?_ hpool
      · rw [count_cons_self, count_eq_zero.2 hmem]
      · simp only [update_self, hholders, erase_cons_head]
    · refine (h.once c).of ?_ (update_of_ne hne ..) rfl
      rw [count_cons_of_ne hne.symm]
  · refine block_update (fun c heq => by cases heq) fun u hne c hc => ?_
    have hcb : c ≠ b := by
      rintro rfl
      exact h.block_ne hblock hne hc
    dsimp only
    rw [update_of_ne hcb]
    exact h.block u c hc
  · exact link_update (fun c oldNext heq => by cases heq) fun u _ => h.link u
  · exact hlt
  · rw [balance] at hdepth
    rw [balance, sum_pc SListPc.owed rfl, hpc, length_cons]
    push_cast
    rw [hdepth]
    simp only [SListPc.owed]
    congr 1
    omega
  · rw [sum_pc SListPc.going rfl, hpc, length_cons]
    push_cast
    simp only [SListPc.going]
    omega
  · rw [sum_pc SListPc.freeing rfl, hpc]
    simp only [SListPc.freeing]
    omega

theorem flushCas {first : Option B} (hpc : s.pc t = .flushCas first) :
    Inv limit { s with
      head := none
      pc := update s.pc t (.flushDepth s.listed.length)
      holders := fun b => if b ∈ s.listed then t :: s.holders b else s.holders b
      listed := [] } := by
  have hdepth := h.depth
  have hbound := h.bound
  have hpeak := h.peak
  constructor
  · rfl
  · intro b
    by_cases hmem : b ∈ s.listed
    · cases h.once b with
      | listed count holders pool => exact .held t count_nil (by simp only [if_pos hmem, holders]) pool
      | held u count holders pool | pool count holders pool => exact absurd hmem (count_eq_zero.1 count)
    · refine (h.once b).of ?_ (if_neg hmem) rfl
      rw [count_nil, count_eq_zero.2 hmem]
  · refine block_update (fun b heq => by cases heq) fun u _ b hblock => ?_
    have hold := h.block u b hblock
    have hmem := (h.not_mem_of_held (hold ▸ mem_singleton_self u)).2.1
    dsimp only
    rw [if_neg hmem]
    exact hold
  · exact link_update (fun b oldNext heq => by cases heq) fun u _ => h.link u
  · exact Nat.two_pow_pos 16
  · rw [balance] at hdepth
    rw [balance, sum_pc SListPc.owed rfl, hpc, length_nil]
    rw [hdepth]
    simp only [SListPc.owed]
    congr 1
    omega
  · rw [sum_pc SListPc.going rfl, hpc, length_nil]
    simp only [SListPc.going]
    omega
  · rw [sum_pc SListPc.freeing rfl, hpc]
    simp only [SListPc.freeing]
    omega

theorem setDepth {depthSequence : ℕ} (hgoing : 0 ≤ (s.pc t).going) (hfreeing : 0 ≤ (s.pc t).freeing)
    (hdepth : (depthSequence : ℤ) = (s.balance - (s.pc t).owed) % 2 ^ 32) :
    Inv limit { s with depthSequence, pc := update s.pc t .idle } := by
  have hbound := h.bound
  have hpeak := h.peak
  constructor
  · exact h.chain
  · exact fun b => (h.once b).of rfl rfl rfl
  · exact block_update (fun b heq => by cases heq) fun u _ => h.block u
  · exact link_update (fun b oldNext heq => by cases heq) fun u _ => h.link u
  · exact h.lt
  · have hbalance : Lookaside.balance { s with depthSequence, pc := update s.pc t .idle } =
        s.balance - (s.pc t).owed := by
      rw [balance, sum_pc SListPc.owed rfl, SListPc.owed_idle, balance]
      dsimp only
      omega
    rw [hbalance]
    exact hdepth
  · rw [sum_pc SListPc.going rfl, SListPc.going_idle]
    dsimp only
    omega
  · rw [sum_pc SListPc.freeing rfl, SListPc.freeing_idle]
    dsimp only
    omega

theorem setPool {holders : List T} {pool : Bool} (hmem : b ∉ s.listed)
    (hplace : (holders = [t] ∧ pool = false) ∨ (holders = [] ∧ pool = true))
    (hothers : ∀ u, u ≠ t → (s.pc u).block ≠ some b) (howed : (s.pc t).owed = 0) (hgoing : 0 ≤ (s.pc t).going)
    (hfreeing : 0 ≤ (s.pc t).freeing) :
    Inv limit { s with
      pc := update s.pc t .idle
      holders := update s.holders b holders
      pool := update s.pool b pool } := by
  have hdepth := h.depth
  have hbound := h.bound
  have hpeak := h.peak
  constructor
  · exact h.chain
  · intro c
    rcases eq_or_ne c b with rfl | hne
    · rcases hplace with ⟨hholders, hpool⟩ | ⟨hholders, hpool⟩
      · exact .held t (count_eq_zero.2 hmem) (by simp only [update_self, hholders]) (by simp only [update_self, hpool])
      · exact .pool (count_eq_zero.2 hmem) (by simp only [update_self, hholders]) (by simp only [update_self, hpool])
    · exact (h.once c).of rfl (update_of_ne hne ..) (update_of_ne hne ..)
  · refine block_update (fun c heq => by cases heq) fun u hne c hc => ?_
    have hcb : c ≠ b := by
      rintro rfl
      exact hothers u hne hc
    dsimp only
    rw [update_of_ne hcb]
    exact h.block u c hc
  · exact link_update (fun c oldNext heq => by cases heq) fun u _ => h.link u
  · exact h.lt
  · rw [balance] at hdepth
    rw [balance, sum_pc SListPc.owed rfl, howed, SListPc.owed_idle, sub_zero, add_zero]
    exact hdepth
  · rw [sum_pc SListPc.going rfl, SListPc.going_idle]
    dsimp only
    omega
  · rw [sum_pc SListPc.freeing rfl, SListPc.freeing_idle]
    dsimp only
    omega

end

omit [DecidableEq T] [DecidableEq B] in
theorem adding_le : s.sum SListPc.adding + s.sum SListPc.going ≤ s.sum SListPc.freeing := by
  rw [sum, sum, sum, ← Finset.sum_add_distrib]
  exact Finset.sum_le_sum fun t _ => (s.pc t).adding_add_going_le

omit [DecidableEq T] [DecidableEq B] in
theorem neg_adding_le_owed : -s.sum SListPc.adding ≤ s.sum SListPc.owed := by
  rw [sum, sum, ← Finset.sum_neg_distrib]
  exact Finset.sum_le_sum fun t _ => (s.pc t).neg_adding_le_owed

omit [DecidableEq T] in
/-- A free that finds room: list and earlier frees are below the limit but for increments to come.
-/
theorem room (h : s.Inv limit) (hbalance : s.balance < 2 ^ 16) (hroom : s.depth < limit) :
    s.listed.length + s.sum SListPc.going + 1 ≤ limit + s.peak := by
  have hadding : s.sum SListPc.adding + s.sum SListPc.going ≤ s.sum SListPc.freeing := adding_le
  have howed : -s.sum SListPc.adding ≤ s.sum SListPc.owed := neg_adding_le_owed
  have hdepth := h.depth
  have hpeak := h.peak
  rw [balance] at hdepth hbalance
  rw [Lookaside.depth] at hroom
  omega

section
variable (h : s.Inv limit)
include h

theorem goto_same (hblock : ∀ b, pc.block = some b → (s.pc t).block = some b)
    (hlink : ∀ b oldNext, pc = .pushCas b oldNext → s.next b = oldNext) (howed : pc.owed = (s.pc t).owed)
    (hgoing : pc.going ≤ (s.pc t).going) (hfreeing : pc.freeing ≤ (s.pc t).freeing) : (s.goto t pc).Inv limit := by
  have hbound := h.bound
  have hpeak := h.peak
  exact h.goto (fun b heq => h.block t b (hblock b heq)) hlink howed (by omega) (by omega)

theorem begin (hpc : s.pc t = .idle) (hheld : t ∈ s.holders b) :
    Inv limit { s.goto t (.freeDepth b) with peak := max s.peak ((s.goto t (.freeDepth b)).sum SListPc.freeing) } := by
  have hbound := h.bound
  constructor
  · exact h.chain
  · exact fun c => (h.once c).of rfl rfl rfl
  · refine block_update (fun c heq => ?_) fun u _ => h.block u
    cases heq
    exact (h.not_mem_of_held hheld).1
  · exact link_update (fun c oldNext heq => by cases heq) fun u _ => h.link u
  · exact h.lt
  · have hbalance : Lookaside.balance { s.goto t (.freeDepth b) with
        peak := max s.peak ((s.goto t (.freeDepth b)).sum SListPc.freeing) } = s.balance := by
      rw [balance, sum_pc SListPc.owed rfl, hpc]
      simp only [SListPc.owed, sub_self, add_zero]
      rfl
    rw [hbalance]
    exact h.depth
  · rw [sum_pc SListPc.going rfl, hpc]
    have hmax := le_max_left s.peak ((s.goto t (.freeDepth b)).sum SListPc.freeing)
    have hlisted : (s.goto t (.freeDepth b)).listed = s.listed := rfl
    simp only [SListPc.going, hlisted]
    omega
  · exact le_max_right _ _

theorem thread {weak : Bool} {fresh : Option B} (hspaced : s.Spaced (.thread t weak fresh)) :
    (s.threadStep limit t weak fresh).Inv limit := by
  have hsame : ∀ {pc pc'}, s.pc t = pc → (∀ b, pc'.block = some b → pc.block = some b) →
      (∀ b oldNext, pc' = .pushCas b oldNext → s.next b = oldNext) → pc'.owed = pc.owed → pc'.going ≤ pc.going →
      pc'.freeing ≤ pc.freeing → (s.goto t pc').Inv limit := by
    rintro pc pc' rfl
    exact h.goto_same
  unfold Spaced at hspaced
  dsimp only at hspaced
  unfold threadStep
  cases hpc : s.pc t with
  | idle => exact h
  | popLoad =>
    dsimp only
    cases s.head with
    | none => exact hsame hpc nofun nofun rfl (le_refl _) (le_refl _)
    | some entry => exact hsame hpc nofun nofun rfl (le_refl _) (le_refl _)
  | popNext entry => exact hsame hpc nofun nofun rfl (le_refl _) (le_refl _)
  | popCas entry next =>
    rw [hpc] at hspaced
    dsimp only
    split_ifs with hwins
    · exact h.popCas hpc hwins.1 (hspaced hwins.1 hwins.2)
    · exact hsame hpc nofun nofun rfl (le_refl _) (le_refl _)
  | popDepth =>
    have hdepth := h.depth
    apply h.setDepth <;> rw [hpc]
    · exact le_refl _
    · exact le_refl _
    · simp only [SListPc.owed]
      omega
  | allocate =>
    dsimp only
    cases fresh with
    | none => exact hsame hpc nofun nofun rfl (le_refl _) (le_refl _)
    | some b =>
      dsimp only
      split_ifs with hpool
      · obtain ⟨hmem, hholders⟩ := h.pooled hpool
        rw [hholders]
        apply h.setPool hmem (.inl ⟨rfl, rfl⟩)
        · intro u _ hblock
          have hheld := h.block u b hblock
          rw [hholders] at hheld
          cases hheld
        · rw [hpc]
          rfl
        · rw [hpc]
          exact le_refl _
        · rw [hpc]
          exact le_refl _
      · exact hsame hpc nofun nofun rfl (le_refl _) (le_refl _)
  | freeDepth b =>
    rw [hpc] at hspaced
    have hpeak := h.peak
    dsimp only
    split_ifs with hroom
    · have hgoing := h.room hspaced hroom
      apply h.goto
      · intro c heq
        exact h.block t c (by rw [hpc]; exact heq)
      · exact nofun
      · rw [hpc]
        rfl
      · rw [hpc]
        simp only [SListPc.going]
        omega
      · rw [hpc]
        simp only [SListPc.freeing]
        omega
    · exact hsame hpc (fun _ => id) nofun rfl (le_refl _) (le_refl _)
  | pushLoad b => exact hsame hpc (fun _ => id) nofun rfl (le_refl _) (le_refl _)
  | pushNext b oldNext =>
    have hblock : (s.pc t).block = some b := by
      rw [hpc]
      rfl
    obtain ⟨-, hmem, -⟩ := h.not_mem_of_held (h.block t b hblock ▸ mem_singleton_self t)
    have hwrite := h.write hmem (fun u old hu => ?_) oldNext
    · apply hwrite.goto_same
      · exact fun c heq => hblock.trans heq
      · intro c old heq
        cases heq
        exact update_self ..
      · rw [hpc]
        rfl
      · rw [hpc]
        exact le_refl _
      · rw [hpc]
        exact le_refl _
    · rcases eq_or_ne u t with rfl | hne
      · rw [hpc] at hu
        cases hu
      · exact h.block_ne hblock hne (by rw [hu]; rfl)
  | pushCas b oldNext =>
    rw [hpc] at hspaced
    dsimp only
    split_ifs with hwins
    · exact h.pushCas hpc hwins.1 (hspaced hwins.1 hwins.2)
    · exact hsame hpc (fun _ => id) nofun rfl (le_refl _) (le_refl _)
  | pushDepth =>
    have hdepth := h.depth
    apply h.setDepth <;> rw [hpc]
    · exact le_refl _
    · exact Int.one_nonneg
    · simp only [SListPc.owed]
      omega
  | freePool b =>
    have hblock : (s.pc t).block = some b := by
      rw [hpc]
      rfl
    obtain ⟨hholders, hmem, -⟩ := h.not_mem_of_held (h.block t b hblock ▸ mem_singleton_self t)
    apply h.setPool hmem
    · refine .inr ⟨?_, rfl⟩
      rw [hholders, erase_cons_head]
    · exact fun u hne => h.block_ne hblock hne
    · rw [hpc]
      rfl
    · rw [hpc]
      exact le_refl _
    · rw [hpc]
      exact Int.one_nonneg
  | flushLoad => exact hsame hpc nofun nofun rfl (le_refl _) (le_refl _)
  | flushCas first =>
    dsimp only
    split_ifs with hwins
    · exact h.flushCas hpc
    · exact hsame hpc nofun nofun rfl (le_refl _) (le_refl _)
  | flushDepth count =>
    rw [hpc] at hspaced
    apply h.setDepth <;> rw [hpc]
    · exact le_refl _
    · exact le_refl _
    · have hbalance : s.balance = count := hspaced
      simp only [SListPc.owed]
      omega

theorem step (a : LookasideStep B T) (hspaced : s.Spaced a) : (s.step limit a).Inv limit := by
  unfold Lookaside.step
  cases a with
  | allocate t =>
    dsimp only
    split
    next hpc => exact h.goto_same nofun nofun (by rw [hpc]; rfl) (by rw [hpc]; exact le_refl _) (by rw [hpc]; exact le_refl _)
    next => exact h
  | free t b =>
    dsimp only
    split
    next hpc =>
      split_ifs with hheld
      · have hgoto := h.begin hpc hheld
        exact hgoto
      · exact h
    next => exact h
  | flush t =>
    dsimp only
    split
    next hpc => exact h.goto_same nofun nofun (by rw [hpc]; rfl) (by rw [hpc]; exact le_refl _) (by rw [hpc]; exact le_refl _)
    next => exact h
  | write t b word =>
    dsimp only
    split
    next hpc =>
      split_ifs with hheld
      · obtain ⟨hholders, hmem, -⟩ := h.not_mem_of_held hheld
        refine h.write hmem (fun u old hu => ?_) word
        have heq := (h.block u b (by rw [hu]; rfl)).symm.trans hholders
        obtain rfl := singleton_inj.1 heq
        rw [hpc] at hu
        cases hu
      · exact h
    next => exact h
  | poolWrite b word =>
    dsimp only
    split_ifs with hpool
    · obtain ⟨hmem, hholders⟩ := h.pooled hpool
      refine h.write hmem (fun u old hu => ?_) word
      have hheld := h.block u b (by rw [hu]; rfl)
      rw [hholders] at hheld
      cases hheld
    · exact h
  | thread t weak fresh => exact h.thread hspaced

end

end Inv

/-- In every run whose steps find what they must, each block is in one place and the depth is right
whenever nothing is under way. -/
theorem everyState_onePlace (limit : ℕ) (steps : List (LookasideStep B T))
    (hspaced : EveryStep (step limit) Spaced init steps) : EveryState (step limit) (Sound limit) init steps :=
  (everyState_invariant (fun _ a h hspaced => h.step a hspaced) (Inv.init limit) hspaced).imp fun _ h => h.sound

end

instance [DecidableEq B] [DecidableEq T] [Fintype T] (s : Lookaside B T) : (a : LookasideStep B T) → Decidable (s.Spaced a)
  | .thread t _ _ => by
    simp only [Spaced]
    split <;> infer_instance
  | .allocate _ | .free _ _ | .flush _ | .write _ _ _ | .poolWrite _ _ => .isTrue trivial

/-- Both threads take a block from the pool and put it in the list, and take both from the list; then thread 0
gives its block back and thread 1 flushes the list. Where both exchange the head, that of thread 1 fails first. -/
def sharedList : List (LookasideStep (Fin 2) (Fin 2)) :=
  let both : List (LookasideStep (Fin 2) (Fin 2)) := [.thread 0 false none, .thread 1 false none]
  [.allocate 0, .allocate 1] ++ both ++ [.thread 0 false (some 0), .thread 1 false (some 1), .free 0 0, .free 1 1] ++
    (replicate 8 both).flatten ++ [.allocate 0, .allocate 1] ++ (replicate 7 both).flatten ++
    [.free 0 1] ++ replicate 5 (.thread 0 false none) ++ [.flush 1] ++ replicate 3 (.thread 1 false none)

theorem everyState_onePlace_sharedList : EveryState (step 4) (Sound 4) init sharedList :=
  everyState_onePlace 4 sharedList (by decide +kernel)

/-- Thread 0 reads the link of block 0 at the head; thread 1 takes both blocks, and gives back the first. -/
def reusedHead : List (LookasideStep (Fin 2) (Fin 2)) :=
  let step (t : Fin 2) : LookasideStep (Fin 2) (Fin 2) := .thread t false none
  [.allocate 1, step 1, .thread 1 false (some 0), .allocate 1, step 1, .thread 1 false (some 1)] ++
    .free 1 1 :: replicate 5 (step 1) ++ .free 1 0 :: replicate 5 (step 1) ++
    [.allocate 0, step 0, step 0] ++
    .allocate 1 :: replicate 4 (step 1) ++ .allocate 1 :: replicate 4 (step 1) ++
    .free 1 0 :: replicate 5 (step 1) ++ [step 0]

/-- The compare-exchange succeeds, and block 1 is the head of the list while thread 1 holds it. -/
theorem reusedHead_heldTwice : ¬EveryState (step 4) (Sound 4) init reusedHead := by
  intro h
  have hlast := everyState_iff_take.1 h reusedHead.length
  rw [take_length] at hlast
  obtain ⟨list, hchain, honce, -⟩ := hlast
  have hhead : (run (step 4) init reusedHead).head = some 1 := by decide
  have hheld : (run (step 4) init reusedHead).holders 1 = [1] := by decide
  rw [hhead] at hchain
  cases list with
  | nil => cases hchain
  | cons b list =>
    obtain ⟨hb, -⟩ := hchain
    cases hb
    cases honce 1 with
    | listed count holders pool | pool count holders pool =>
      rw [hheld] at holders
      cases holders
    | held t count holders pool =>
      rw [count_cons_self] at count
      cases count

end Lookaside

end XenOS.Ex
