import XenOS.General.FiniteSum
import XenOS.Ob.Tables

/-! The accounts of the object manager. A state is balanced for the references held and a surplus of
handle counts over entries; every step of a call moves one unit. -/

namespace XenOS.Ob

open General Ex Pi Option
open Function (update update_self update_of_ne update_idem)

/-- What the accounts read of a header. -/
structure Counts where
  pointers : ℤ
  handles : ℤ
  type : ℕ
  deriving DecidableEq

def ObjectHeader.counts (header : ObjectHeader) : Counts :=
  ⟨header.pointerCount, header.handleCountOrNextToFree, header.typePtr⟩

namespace ObState

variable {P : Type} {s s' : ObState P} {o : ℕ} {h h' d d' : ℕ → ℤ}

def counts (s : ObState P) (o : ℕ) : Option Counts := (s.headers o).map ObjectHeader.counts

def entriesOf (table : Option HandleTable) (o : ℕ) : ℤ :=
  match table with
  | none => 0
  | some table => table.naming o

/-- The entries of all tables that name an object. -/
noncomputable def handlesTo (s : ObState P) (o : ℕ) : ℤ := ∑ᶠ id, entriesOf (s.tables id) o

/-- An object that is neither deleted nor queued for deletion. -/
def Live (s : ObState P) (o : ℕ) : Prop := (s.headers o).isSome ∧ o ∉ s.reaperList

/-- What a live object adds to the handles of a type. -/
def share (s : ObState P) (t o : ℕ) : ℤ :=
  match s.counts o with
  | none => 0
  | some x => if x.type = t ∧ o ∉ s.reaperList then x.handles else 0

noncomputable def typeHandles (s : ObState P) (t : ℕ) : ℤ := ∑ᶠ o, s.share t o

/-- The accounts of one object: callers hold `h` references to it, and its handle count
exceeds its entries by `d`. -/
structure Settled (s : ObState P) (h d : ℤ) (o : ℕ) : Prop where
  nonneg : 0 ≤ h
  references : ∀ x, s.counts o = some x → x.pointers = s.handlesTo o + h
  handles : ∀ x, s.counts o = some x → o ∉ s.reaperList → x.handles = s.handlesTo o + d
  link : ∀ x, s.counts o = some x → o ∈ s.reaperList → x.handles ≤ 0
  queued : o ∈ s.reaperList ↔ ∃ x, s.counts o = some x ∧ x.pointers = 0
  gone : s.counts o = none → h = 0 ∧ (o ≠ 0 → s.handlesTo o = 0)

structure Balanced (s : ObState P) (h d : ℕ → ℤ) : Prop where
  sound : s.Sound
  finiteTables : {id | (s.tables id).isSome}.Finite
  finiteObjects : {o | (s.headers o).isSome}.Finite
  settled : ∀ o, s.Settled (h o) (d o) o
  nodup : s.reaperList.Nodup
  totals : ∀ t, (s.types t).totalNumberOfHandles = s.typeHandles t

theorem entriesOf_nonneg (table : Option HandleTable) (o : ℕ) : 0 ≤ entriesOf table o := by
  unfold entriesOf
  split
  · exact le_refl 0
  · exact Int.natCast_nonneg _

theorem handlesTo_nonneg (s : ObState P) (o : ℕ) : 0 ≤ s.handlesTo o := finsum_nonneg fun _ => entriesOf_nonneg _ o

theorem handlesTo_congr (ht : s'.tables = s.tables) : s'.handlesTo = s.handlesTo := by
  funext o
  unfold handlesTo
  rw [ht]

theorem counts_isSome : (s.counts o).isSome = (s.headers o).isSome := isSome_map

theorem finiteEntries (hfinite : {id | (s.tables id).isSome}.Finite) (o : ℕ) :
    (fun id => entriesOf (s.tables id) o).HasFiniteSupport := by
  refine hfinite.subset fun id hid => ?_
  by_contra hnone
  have hnone : s.tables id = none := by simpa using hnone
  exact hid (show entriesOf (s.tables id) o = 0 by rw [hnone]; rfl)

theorem finiteShares (hfinite : {o | (s.headers o).isSome}.Finite) (t : ℕ) : (s.share t).HasFiniteSupport := by
  refine hfinite.subset fun o ho => ?_
  by_contra hnone
  have hnone : s.headers o = none := by simpa using hnone
  exact ho (show s.share t o = 0 by rw [share, counts, hnone]; rfl)

section
variable (hb : Balanced s h d)
include hb

theorem Balanced.nonzero {x : Counts} (hx : s.counts o = some x) : o ≠ 0 := by
  refine (hb.sound.isAddress ?_).1
  rw [← counts_isSome, hx]
  rfl

theorem Balanced.change (o : ℕ) (hsound : s'.Sound)
    (hfinite : {id | (s'.tables id).isSome}.Finite) (hcounts : ∀ b, b ≠ o → s'.counts b = s.counts b)
    (hhandles : ∀ b, b ≠ o → b ≠ 0 → s'.handlesTo b = s.handlesTo b) (hh : ∀ b, b ≠ o → h' b = h b)
    (hd : ∀ b, b ≠ o → d' b = d b) (hreaper : ∀ b, b ≠ o → (b ∈ s'.reaperList ↔ b ∈ s.reaperList))
    (hnodup : s'.reaperList.Nodup)
    (htotals : ∀ t, (s'.types t).totalNumberOfHandles = (s.types t).totalNumberOfHandles + (s'.share t o - s.share t o))
    (hsettled : s'.Settled (h' o) (d' o) o) : Balanced s' h' d' where
  sound := hsound
  finiteTables := hfinite
  finiteObjects := by
    refine (hb.finiteObjects.insert o).subset fun b hb' => ?_
    by_cases hbo : b = o
    · exact Or.inl hbo
    · have hsome : (s'.counts b).isSome := counts_isSome.trans hb'
      rw [hcounts b hbo] at hsome
      exact Or.inr (counts_isSome.symm.trans hsome)
  settled b := by
    by_cases hbo : b = o
    · exact hbo ▸ hsettled
    · have hold := hb.settled b
      rw [← hh b hbo, ← hd b hbo] at hold
      refine ⟨hold.nonneg, fun x hx => ?_, fun x hx hq => ?_, fun x hx hq => ?_, ?_, fun hnone => ?_⟩
      · have hplace := hb.nonzero ((hcounts b hbo) ▸ hx)
        rw [hcounts b hbo] at hx
        rw [hhandles b hbo hplace]
        exact hold.references x hx
      · have hplace := hb.nonzero ((hcounts b hbo) ▸ hx)
        rw [hcounts b hbo] at hx
        rw [hhandles b hbo hplace]
        exact hold.handles x hx fun hq' => hq ((hreaper b hbo).2 hq')
      · rw [hcounts b hbo] at hx
        exact hold.link x hx ((hreaper b hbo).1 hq)
      · rw [hreaper b hbo, hcounts b hbo]
        exact hold.queued
      · rw [hcounts b hbo] at hnone
        refine ⟨(hold.gone hnone).1, fun hb0 => ?_⟩
        rw [hhandles b hbo hb0]
        exact (hold.gone hnone).2 hb0
  nodup := hnodup
  totals t := by
    rw [htotals, hb.totals]
    refine (finsum_change (finiteShares hb.finiteObjects t) o fun b hbo => ?_).symm
    simp only [share, hcounts b hbo, hreaper b hbo]

theorem Balanced.congr (hs : Steady s s') (hcounts : s'.counts = s.counts)
    (hreaper : s'.reaperList = s.reaperList)
    (htotals : ∀ t, (s'.types t).totalNumberOfHandles = (s.types t).totalNumberOfHandles) : Balanced s' h d := by
  refine hb.change 0 (hb.sound.steady hs) (by rw [hs.tables]; exact hb.finiteTables) (fun b _ => congrFun hcounts b)
    (fun b _ _ => congrFun (handlesTo_congr hs.tables) b) (fun _ _ => rfl) (fun _ _ => rfl) (fun b _ => by rw [hreaper])
    (by rw [hreaper]; exact hb.nodup) (fun t => ?_) ?_
  · rw [htotals, share, share, hcounts, hreaper, sub_self, add_zero]
  · have hold := hb.settled 0
    refine ⟨hold.nonneg, ?_, ?_, ?_, ?_, ?_⟩ <;> rw [hcounts]
    · rw [handlesTo_congr hs.tables]
      exact hold.references
    · rw [handlesTo_congr hs.tables, hreaper]
      exact hold.handles
    · rw [hreaper]
      exact hold.link
    · rw [hreaper]
      exact hold.queued
    · rw [handlesTo_congr hs.tables]
      exact hold.gone

theorem Balanced.adjust (a b : ℤ) {header header' : ObjectHeader} (hheader : s.headers o = some header)
    (hlive : o ∉ s.reaperList) (hheaders : s'.headers = update s.headers o (some header'))
    (htables : s'.tables = s.tables) (hreaper : s'.reaperList = s.reaperList) (htype : header'.typePtr = header.typePtr)
    (hp : header'.pointerCount = header.pointerCount + a)
    (hn : header'.handleCountOrNextToFree = header.handleCountOrNextToFree + b) (hne : header'.pointerCount ≠ 0)
    (hnonneg : 0 ≤ h o + a)
    (htotals : ∀ t, (s'.types t).totalNumberOfHandles =
      (s.types t).totalNumberOfHandles + if header.typePtr = t then b else 0) :
    Balanced s' (h + single o a) (d + single o b) := by
  have hold : s.counts o = some header.counts := by rw [counts, hheader]; rfl
  have hnew : s'.counts o = some header'.counts := by rw [counts, hheaders, update_self]; rfl
  have hsteady : Steady s s' := by
    refine ⟨htables, fun b hb => ?_⟩
    rw [hheaders] at hb
    by_cases hbo : b = o
    · rw [hbo, hheader]
      rfl
    · rwa [update_of_ne hbo] at hb
  have hsettled := hb.settled o
  have hhandles : s'.handlesTo o = s.handlesTo o := congrFun (handlesTo_congr htables) o
  have hlive' : o ∉ s'.reaperList := by rwa [hreaper]
  refine hb.change o (hb.sound.steady hsteady) (by rw [htables]; exact hb.finiteTables) (fun b hbo => ?_)
    (fun b _ _ => congrFun (handlesTo_congr htables) b) (fun b hbo => ?_) (fun b hbo => ?_) (fun b _ => by rw [hreaper])
    (by rw [hreaper]; exact hb.nodup) (fun t => ?_) ?_
  · rw [counts, counts, hheaders, update_of_ne hbo]
  · rw [Pi.add_apply, single_eq_of_ne hbo, add_zero]
  · rw [Pi.add_apply, single_eq_of_ne hbo, add_zero]
  · rw [htotals, share, share, hnew, hold, hreaper]
    dsimp only [ObjectHeader.counts]
    rw [htype, hn]
    split_ifs <;> simp_all
  · rw [Pi.add_apply, Pi.add_apply, single_eq_same, single_eq_same]
    refine ⟨hnonneg, fun x hx => ?_, fun x hx _ => ?_, fun x hx hq => absurd hq hlive', ?_, fun hnone => ?_⟩
    · rw [hnew] at hx
      cases hx
      have hreferences := hsettled.references _ hold
      rw [hhandles]
      show header'.pointerCount = _
      rw [hp, show header.pointerCount = _ from hreferences, add_assoc]
    · rw [hnew] at hx
      cases hx
      have hcount := hsettled.handles _ hold hlive
      rw [hhandles]
      show header'.handleCountOrNextToFree = _
      rw [hn, show header.handleCountOrNextToFree = _ from hcount, add_assoc]
    · refine iff_of_false hlive' ?_
      rintro ⟨x, hx, hzero⟩
      rw [hnew] at hx
      cases hx
      exact hne hzero
    · rw [hnew] at hnone
      cases hnone

end

/-! ### One step -/

@[simp] theorem modifyHeader_reaper (s : ObState P) (o : ℕ) (f : ObjectHeader → ObjectHeader) :
    (s.modifyHeader o f).reaperList = s.reaperList := by
  unfold modifyHeader
  split <;> rfl

@[simp] theorem reference_reaper (s : ObState P) (o : ℕ) : (s.obReferenceObject o).reaperList = s.reaperList :=
  modifyHeader_reaper s o _

@[simp] theorem addHandles_reaper (s : ObState P) (o : ℕ) (n : ℤ) : (s.addHandles o n).reaperList = s.reaperList := by
  unfold ObState.addHandles
  split <;> rfl

theorem Live.reference (hlive : s.Live o) : (s.obReferenceObject o).Live o := by
  refine ⟨?_, ?_⟩
  · rw [(Quiet.reference s o).isSome]
    exact hlive.1
  · rw [reference_reaper]
    exact hlive.2

theorem Live.addHandles (hlive : s.Live o) (n : ℤ) : (s.addHandles o n).Live o := by
  refine ⟨?_, ?_⟩
  · rw [(Quiet.addHandles s o n).isSome]
    exact hlive.1
  · rw [addHandles_reaper]
    exact hlive.2

theorem Live.setTable [DecidableEq P] (hlive : s.Live o) (id : Option P) (table : HandleTable) :
    (s.setTable id table).Live o := hlive

theorem Live.handleMade [DecidableEq P] (hlive : s.Live o) (c : Caller P) (id : Option P) (table : HandleTable) (access : Se.AccessMask)
    (flags : BitVec 32) : (s.handleMade c id table o access flags).Live o := (hlive.reference.setTable id _).addHandles 1

section Steps
variable {header : ObjectHeader}

theorem counts_of_header (hheader : s.headers o = some header) : s.counts o = some header.counts := by
  rw [counts, hheader]
  rfl

theorem Balanced.pointers (hb : Balanced s h d) (hheader : s.headers o = some header) :
    header.pointerCount = s.handlesTo o + h o := (hb.settled o).references _ (counts_of_header hheader)

theorem Balanced.handles (hb : Balanced s h d) (hheader : s.headers o = some header) (hlive : o ∉ s.reaperList) :
    header.handleCountOrNextToFree = s.handlesTo o + d o := (hb.settled o).handles _ (counts_of_header hheader) hlive

theorem Balanced.pointers_pos (hb : Balanced s h d) (hheader : s.headers o = some header) (hlive : o ∉ s.reaperList) :
    0 < header.pointerCount := by
  have hreferences := hb.pointers hheader
  have hnonneg := handlesTo_nonneg s o
  have hheld := (hb.settled o).nonneg
  have hne : header.pointerCount ≠ 0 :=
    fun hzero => hlive ((hb.settled o).queued.2 ⟨_, counts_of_header hheader, hzero⟩)
  omega

theorem modifyHeader_of_some (hheader : s.headers o = some header) (f : ObjectHeader → ObjectHeader) :
    s.modifyHeader o f = s.setHeader o (f header) := by
  unfold modifyHeader
  rw [hheader]

section
variable (hb : Balanced s h d)
include hb

theorem Balanced.reference (hlive : s.Live o) :
    Balanced (s.obReferenceObject o) (h + single o 1) d := by
  obtain ⟨header, hheader⟩ := isSome_iff_exists.1 hlive.1
  have hpos := hb.pointers_pos hheader hlive.2
  have hheld := (hb.settled o).nonneg
  have hresult : Balanced (s.setHeader o { header with pointerCount := header.pointerCount + 1 })
      (h + single o 1) (d + single o 0) := by
    refine hb.adjust 1 0 hheader hlive.2 rfl rfl rfl rfl rfl (add_zero _).symm ?_ (by omega) fun t => ?_
    · show header.pointerCount + 1 ≠ 0
      omega
    · rw [ite_self, add_zero]
      rfl
  rw [single_zero, add_zero] at hresult
  rwa [obReferenceObject, modifyHeader_of_some hheader]

theorem Balanced.addHandles (hlive : s.Live o) (n : ℤ) :
    Balanced (s.addHandles o n) h (d + single o n) := by
  obtain ⟨header, hheader⟩ := isSome_iff_exists.1 hlive.1
  have hpos := hb.pointers_pos hheader hlive.2
  have hheld := (hb.settled o).nonneg
  have hresult : Balanced (s.addHandles o n) (h + single o 0) (d + single o n) := by
    unfold ObState.addHandles
    rw [hheader]
    refine hb.adjust 0 n hheader hlive.2 rfl rfl rfl rfl (add_zero _).symm rfl hpos.ne' (by omega) fun t => ?_
    by_cases ht : t = header.typePtr
    · subst ht
      rw [if_pos rfl, modifyType_types, update_self]
      rfl
    · rw [if_neg (Ne.symm ht), add_zero, modifyType_types, update_of_ne ht]
      rfl
  rwa [single_zero, add_zero] at hresult

theorem Balanced.link_nonpos : pointerAsIsize (s.reaperList.headD 0) ≤ 0 := by
  cases hlist : s.reaperList with
  | nil => decide
  | cons next list =>
    have hqueued : next ∈ s.reaperList := by
      rw [hlist]
      exact List.mem_cons_self
    obtain ⟨x, hx, -⟩ := (hb.settled next).queued.1 hqueued
    obtain ⟨hlow, hlt, -⟩ := hb.sound.placed next (by rw [← counts_isSome, hx]; rfl)
    show pointerAsIsize next ≤ 0
    unfold pointerAsIsize
    rw [if_neg (Nat.not_lt.2 hlow)]
    omega

theorem Balanced.dereference_more (hheader : s.headers o = some header) (hlive : o ∉ s.reaperList)
    (hheld : 1 ≤ h o) (hd : d o ≤ h o) (hmore : header.pointerCount ≠ 1) :
    Balanced (s.obDereferenceObject o) (h - single o 1) d := by
  have hpointers := hb.pointers hheader
  have hhandles := hb.handles hheader hlive
  have hresult : Balanced (s.setHeader o { header with pointerCount := header.pointerCount - 1 })
      (h + single o (-1)) (d + single o 0) := by
    refine hb.adjust (-1) 0 hheader hlive rfl rfl rfl rfl (sub_eq_add_neg _ _) (add_zero _).symm ?_ (by omega) fun t => ?_
    · show header.pointerCount - 1 ≠ 0
      omega
    · rw [ite_self, add_zero]
      rfl
  rw [single_zero, add_zero, single_neg, ← sub_eq_add_neg] at hresult
  unfold obDereferenceObject
  rw [hheader]
  dsimp only
  rw [if_neg (by omega), if_neg (by omega)]
  exact hresult

end

theorem dereference_of_last (hheader : s.headers o = some header) (hguard : header.handleCountOrNextToFree ≤ 1)
    (hlast : header.pointerCount = 1) : s.obDereferenceObject o =
      { s with
        headers := update s.headers o
          (some { header with pointerCount := 0, handleCountOrNextToFree := pointerAsIsize (s.reaperList.headD 0) })
        reaperList := o :: s.reaperList } := by
  have hnew : (s.setHeader o { header with pointerCount := 0 }).headers o = some { header with pointerCount := 0 } :=
    update_self _ _ _
  unfold obDereferenceObject
  rw [hheader]
  dsimp only
  rw [if_neg (by omega), hlast, sub_self, if_pos rfl, obpDeferObjectDeletion, modifyHeader_of_some hnew]
  simp only [setHeader, update_idem]

theorem Balanced.dereference_last (hb : Balanced s h d) (hheader : s.headers o = some header) (hlive : o ∉ s.reaperList)
    (hheld : 1 ≤ h o) (hd : d o = 0) (hlast : header.pointerCount = 1) :
    Balanced (s.obDereferenceObject o) (h - single o 1) d := by
  have hpointers := hb.pointers hheader
  have hhandles := hb.handles hheader hlive
  have hnonneg := handlesTo_nonneg s o
  have hold := counts_of_header hheader
  rw [dereference_of_last hheader (by omega) hlast]
  generalize hs' : ({ s with
    headers := update s.headers o
      (some { header with pointerCount := 0, handleCountOrNextToFree := pointerAsIsize (s.reaperList.headD 0) })
    reaperList := o :: s.reaperList } : ObState P) = s'
  have hheaders : s'.headers = update s.headers o (some
      { header with pointerCount := 0, handleCountOrNextToFree := pointerAsIsize (s.reaperList.headD 0) }) := by rw [← hs']
  have htables : s'.tables = s.tables := by rw [← hs']
  have hreaper : s'.reaperList = o :: s.reaperList := by rw [← hs']
  have htypes : s'.types = s.types := by rw [← hs']
  have hnew : s'.counts o = some ⟨0, pointerAsIsize (s.reaperList.headD 0), header.typePtr⟩ := by
    rw [counts, hheaders, update_self]
    rfl
  have hmem : o ∈ s'.reaperList := by
    rw [hreaper]
    exact List.mem_cons_self
  have hsteady : Steady s s' := by
    rw [← hs', ← dereference_of_last hheader (by omega) hlast]
    exact .dereference s o
  refine hb.change o (hb.sound.steady hsteady) (by rw [htables]; exact hb.finiteTables) (fun b hbo => ?_)
    (fun b _ _ => congrFun (handlesTo_congr htables) b) (fun b hbo => ?_) (fun b hbo => rfl) (fun b hbo => ?_)
    (by rw [hreaper]; exact List.nodup_cons.2 ⟨hlive, hb.nodup⟩) (fun t => ?_) ?_
  · rw [counts, counts, hheaders, update_of_ne hbo]
  · rw [Pi.sub_apply, single_eq_of_ne hbo, sub_zero]
  · rw [hreaper, List.mem_cons, or_iff_right hbo]
  · -- The object had no handles left, and a queued object has no share.
    have hshare : s.share t o = 0 := by
      rw [share, hold]
      dsimp only [ObjectHeader.counts]
      split_ifs
      · omega
      · rfl
    have hshare' : s'.share t o = 0 := by
      rw [share, hnew]
      exact if_neg fun h => h.2 hmem
    rw [hshare, hshare', htypes, sub_self, add_zero]
  · rw [Pi.sub_apply, single_eq_same]
    refine ⟨by omega, fun x hx => ?_, fun x hx hq => absurd hmem hq, fun x hx _ => ?_, ?_, fun hnone => ?_⟩
    · rw [hnew] at hx
      cases hx
      rw [congrFun (handlesTo_congr htables) o]
      dsimp only
      omega
    · rw [hnew] at hx
      cases hx
      exact hb.link_nonpos
    · exact iff_of_true hmem ⟨_, hnew, rfl⟩
    · rw [hnew] at hnone
      cases hnone

theorem Balanced.dereference (hb : Balanced s h d) (hlive : s.Live o) (hheld : 1 ≤ h o) (hd : d o ≤ h o)
    (hlast : d o = 0 ∨ 2 ≤ h o) : Balanced (s.obDereferenceObject o) (h - single o 1) d := by
  obtain ⟨header, hheader⟩ := isSome_iff_exists.1 hlive.1
  by_cases hmore : header.pointerCount = 1
  · have hpointers := hb.pointers hheader
    have hnonneg := handlesTo_nonneg s o
    exact hb.dereference_last hheader hlive.2 hheld (hlast.resolve_right (by omega)) hmore
  · exact hb.dereference_more hheader hlive.2 hheld hd hmore

end Steps

/-! ### Tables -/

section Tables
variable [DecidableEq P] {id : Option P} {table table' : HandleTable}

theorem handlesTo_setTable (hfinite : {id | (s.tables id).isSome}.Finite) (b : ℕ) :
    (s.setTable id table').handlesTo b = s.handlesTo b + (table'.naming b - entriesOf (s.tables id) b) := by
  have hchange : ∀ id', id' ≠ id → entriesOf ((s.setTable id table').tables id') b = entriesOf (s.tables id') b := by
    intro id' hid
    rw [setTable_tables, update_of_ne hid]
  unfold handlesTo
  rw [finsum_change (finiteEntries hfinite b) id hchange, setTable_tables, update_self]
  rfl

theorem finite_setTable (hfinite : {id | (s.tables id).isSome}.Finite) :
    {id' | ((s.setTable id table').tables id').isSome}.Finite := by
  refine (hfinite.insert id).subset fun id' hid' => ?_
  by_cases hid : id' = id
  · exact Or.inl hid
  · refine Or.inr ?_
    have hsome : (update s.tables id (some table') id').isSome := hid'
    rwa [update_of_ne hid] at hsome

section
variable (hb : Balanced s h d)
include hb

/-- `n` entries more name a live object: as many references are the table's, and the handle
count falls behind. -/
theorem Balanced.setTable (htable : s.tables id = some table) (hsane : table'.Sane) (n : ℤ)
    (hobject : (s.headers o).isSome) (hnaming : ∀ b ≠ 0, (table'.naming b : ℤ) = table.naming b + if b = o then n else 0)
    (hnonneg : n ≤ h o) : Balanced (s.setTable id table') (h - single o n) (d - single o n) := by
  have ho := (hb.sound.isAddress hobject).1
  have hsettled := hb.settled o
  have hcounts : (s.setTable id table').counts = s.counts := rfl
  have hentries (b : ℕ) : entriesOf (s.tables id) b = table.naming b := by rw [htable]; rfl
  have hhandles : (s.setTable id table').handlesTo o = s.handlesTo o + n := by
    rw [handlesTo_setTable hb.finiteTables, hentries, hnaming o ho, if_pos rfl]
    omega
  refine hb.change o (hb.sound.setTable id hsane) (finite_setTable hb.finiteTables) (fun _ _ => rfl) (fun b hbo hb0 => ?_)
    (fun b hbo => ?_) (fun b hbo => ?_) (fun _ _ => Iff.rfl) hb.nodup (fun t => ?_) ?_
  · rw [handlesTo_setTable hb.finiteTables, hentries, hnaming b hb0, if_neg hbo]
    omega
  · rw [Pi.sub_apply, single_eq_of_ne hbo, sub_zero]
  · rw [Pi.sub_apply, single_eq_of_ne hbo, sub_zero]
  · show (s.types t).totalNumberOfHandles = _ + (s.share t o - s.share t o)
    omega
  · rw [Pi.sub_apply, Pi.sub_apply, single_eq_same]
    refine ⟨by omega, fun x hx => ?_, fun x hx hq => ?_, hsettled.link, hsettled.queued, fun hnone => ?_⟩
    · have := hsettled.references x hx
      omega
    · have := hsettled.handles x hx hq
      omega
    · rw [hcounts, counts, map_eq_none_iff] at hnone
      rw [hnone] at hobject
      cases hobject

theorem Balanced.sameNaming (hsane : table'.Sane)
    (hsame : ∀ b ≠ 0, (table'.naming b : ℤ) = entriesOf (s.tables id) b) : Balanced (s.setTable id table') h d := by
  have hnone : s.counts 0 = none := by
    by_contra hne
    obtain ⟨x, hx⟩ := ne_none_iff_exists'.1 hne
    exact hb.nonzero hx rfl
  have hsettled := hb.settled 0
  refine hb.change 0 (hb.sound.setTable id hsane) (finite_setTable hb.finiteTables) (fun _ _ => rfl) (fun b _ hb0 => ?_)
    (fun _ _ => rfl) (fun _ _ => rfl) (fun _ _ => Iff.rfl) hb.nodup (fun t => ?_) ?_
  · rw [handlesTo_setTable hb.finiteTables, hsame b hb0]
    omega
  · show (s.types t).totalNumberOfHandles = _ + (s.share t 0 - s.share t 0)
    omega
  · have hnone' : (s.setTable id table').counts 0 = none := hnone
    refine ⟨hsettled.nonneg, ?_, ?_, hsettled.link, hsettled.queued, fun _ => ⟨(hsettled.gone hnone).1, fun h => absurd rfl h⟩⟩
    · rw [hnone']
      intro x hx
      cases hx
    · rw [hnone']
      intro x hx
      cases hx

theorem Balanced.sameEntries (htable : s.tables id = some table) (hsane : table'.Sane)
    (hsame : SameEntries table table') : Balanced (s.setTable id table') h d := by
  refine hb.sameNaming hsane fun b hb0 => ?_
  rw [hsame.naming b hb0, htable]
  rfl

theorem Balanced.createTable (id : Option P) (block : WordBlock) :
    Balanced (s.createTable id block) h d := by
  unfold ObState.createTable
  split_ifs with hnone
  · obtain ⟨hsane, hnaming⟩ := fresh_spec block
    refine hb.sameNaming hsane fun b hb0 => ?_
    rw [hnaming b hb0, isNone_iff_eq_none.1 hnone]
    rfl
  · exact hb

end

end Tables

/-! ### The creation of a handle -/

def Leaks (s : ObState P) (c : Caller P) (table : HandleTable) (object : ℕ) : Prop :=
  table.TakesOutside c.pool.blocks ∧ s.Accepts c object

section MakeHandle
variable [DecidableEq P] {c : Caller P} {id : Option P} {table : HandleTable} {access : Se.AccessMask} {flags : BitVec 32}

variable (c access flags) in
theorem Balanced.makeHandle (hb : Balanced s h d) (hlive : s.Live o) (htable : s.tables id = some table) :
    (¬ s.AddsEntry c table o ∧ ¬ s.Leaks c table o ∧
        (∀ handle, (s.obpMakeHandle c id table o access flags).1 ≠ .made handle) ∧
        Balanced (s.obpMakeHandle c id table o access flags).2 (h + single o 1) d) ∨
      (s.AddsEntry c table o ∧
        s.obpMakeHandle c id table o access flags =
          (.made (indexToHandle table.firstFreeIndex), s.handleMade c id table o access flags) ∧
        Balanced (s.handleMade c id table o access flags) h d) ∨
      (s.Leaks c table o ∧
        s.obpMakeHandle c id table o access flags =
          (.made (indexToHandle table.firstFreeIndex), s.handleMade c id table o access flags) ∧
        Balanced (s.handleMade c id table o access flags) (h + single o 1) (d + single o 1)) := by
  obtain ⟨ho, hlt, haligned⟩ := hb.sound.isAddress hlive.1
  have hsane := hb.sound.tables id table htable
  have hreference := hb.reference hlive
  have hlive' : (s.obReferenceObject o).Live o := hlive.reference
  have htable' : (s.obReferenceObject o).tables id = some table := by rw [reference_tables, htable]
  have hnonneg := (hb.settled o).nonneg
  have hadded : ((s.handleMade c id table o access flags).addHandles o (-1)).tables id =
      some (exCreateHandleEx c.pool.blocks table o access flags).2 := by
    rw [addHandles_tables, handleMade_tables, update_self]
  have hmadeLive := hlive.handleMade c id table access flags
  cases htaking : table.taking c.pool.blocks with
  | none =>
    obtain ⟨-, hsane', hsame⟩ := create_none access flags hsane ho htaking
    left
    rw [obpMakeHandle_full ho htaking]
    refine ⟨?_, ?_, fun handle h => (by cases h), hreference.sameEntries htable' hsane' hsame⟩
    all_goals
      rintro ⟨⟨t1, h1, -⟩, -⟩
      rw [htaking] at h1
      cases h1
  | some t1 =>
    rw [obpMakeHandle_taken ho htaking]
    by_cases hinside : table.firstFreeIndex < t1.tableSize
    · have htakes : table.TakesInside c.pool.blocks := ⟨t1, htaking, hinside⟩
      obtain ⟨-, hsane', hmore, hsane'', hsame⟩ := create_inside access flags hsane ho haligned hlt htakes
      have hentry := hreference.setTable htable' hsane' 1 hlive'.1 (fun b hb0 => by
        rw [hmore.naming b hb0]
        split_ifs <;> simp) (by simp [hnonneg])
      have hmade := hentry.addHandles hlive' 1
      rw [add_sub_cancel_right, sub_add_cancel] at hmade
      split_ifs with hrefused
      · -- The entry goes again, and so does the handle; the reference stays.
        refine Or.inl ⟨fun h => hrefused.2 (h.2 hrefused.1), fun h => hrefused.2 (h.2 hrefused.1), fun handle h => (by cases h),
          ?_⟩
        have hback := (hmade.addHandles hmadeLive (-1)).setTable hadded hsane'' (-1) (hmadeLive.addHandles (-1)).1
          (fun b hb0 => by
            rw [hsame.naming b hb0, hmore.naming b hb0]
            split_ifs <;> simp) (by omega)
        rw [single_neg, sub_neg_eq_add, add_sub_cancel_right] at hback
        exact hback
      · exact Or.inr (Or.inl ⟨⟨htakes, fun h => by_contra fun hne => hrefused ⟨h, hne⟩⟩, rfl, hmade⟩)
    · have houtside : table.TakesOutside c.pool.blocks := ⟨t1, htaking, Nat.le_of_not_lt hinside⟩
      have hnot : ¬ s.AddsEntry c table o := by
        rintro ⟨⟨t2, h2, hlt⟩, -⟩
        rw [htaking] at h2
        cases h2
        exact hinside hlt
      obtain ⟨-, hsane', hsame, hback⟩ := create_outside access flags hsane ho hlt houtside
      have hmade := (hreference.sameEntries htable' hsane' hsame).addHandles hlive' 1
      split_ifs with hrefused
      · refine Or.inl ⟨hnot, fun h => hrefused.2 (h.2 hrefused.1), fun handle h => (by cases h), ?_⟩
        rw [hback]
        have hagain := (hmade.addHandles hmadeLive (-1)).sameEntries hadded hsane' (.refl _)
        rw [single_neg, ← sub_eq_add_neg, add_sub_cancel_right] at hagain
        exact hagain
      · exact Or.inr (Or.inr ⟨⟨houtside, fun h => by_contra fun hne => hrefused ⟨h, hne⟩⟩, rfl, hmade⟩)

end MakeHandle

/-! ### The end of a handle -/

section Release
variable {id : Option P} {table : HandleTable} {handle : ℕ} {x : ℕ × Se.AccessMask × BitVec 32}

theorem Balanced.live_of_lookup (hb : Balanced s h d) (htable : s.tables id = some table)
    (hlookup : exMapHandleToPointerFull table handle = some x) : s.Live x.1 := by
  have hnaming := naming_pos hlookup
  have hentries : 1 ≤ s.handlesTo x.1 := by
    have hle : entriesOf (s.tables id) x.1 ≤ s.handlesTo x.1 :=
      single_le_finsum id (finiteEntries hb.finiteTables x.1) fun id' => entriesOf_nonneg _ _
    rw [htable] at hle
    have : entriesOf (some table) x.1 = table.naming x.1 := rfl
    omega
  have hsettled := hb.settled x.1
  cases hcounts : s.counts x.1 with
  | none => exact absurd ((hsettled.gone hcounts).2 (lookup_some hlookup).2.2.1) (by omega)
  | some y =>
    refine ⟨by rw [← counts_isSome, hcounts]; rfl, fun hqueued => ?_⟩
    obtain ⟨z, hz, hzero⟩ := hsettled.queued.1 hqueued
    have hreferences := hsettled.references z hz
    have hnonneg := hsettled.nonneg
    omega

theorem Balanced.release [DecidableEq P] (hb : Balanced s h d) (htable : s.tables id = some table)
    (hlookup : exMapHandleToPointerFull table handle = some x) (hd : d x.1 = 0 ∨ d x.1 ≤ 1 ∧ 1 ≤ h x.1) :
    Balanced ((s.setTable id (exDestroyHandle table handle).2).obpReleaseHandle x.1) h d := by
  have hlive := hb.live_of_lookup htable hlookup
  have hnonneg := (hb.settled x.1).nonneg
  have hsane := hb.sound.tables id table htable
  obtain ⟨hdestroy, hsane', hless⟩ := destroy_lookup hsane hlookup
  rw [hdestroy]
  have hentry := hb.setTable htable hsane' (-1) hlive.1 (fun b hb0 => by
    have := hless b hb0
    split_ifs at this ⊢ <;> omega) (by omega)
  have hcount := hentry.addHandles (hlive.setTable id _) (-1)
  rw [single_neg, sub_neg_eq_add, sub_neg_eq_add, add_neg_cancel_right] at hcount
  have hlast := hcount.dereference ((hlive.setTable id _).addHandles (-1))
  rw [Pi.add_apply, single_eq_same, add_sub_cancel_right] at hlast
  exact hlast (by omega) (by omega) (by omega)

end Release

/-! ### Creation and deletion -/

theorem Balanced.create (hb : Balanced s h 0) {objectType body : ℕ} {objectAttributes : Option ObjectAttributes}
    {pool : ObjectPool} {header : ObjectHeader} (hplace : s.Allocatable body) (hsound : s'.Sound)
    (hnew : Created s s' objectType objectAttributes pool body header) : Balanced s' (h + single body 1) 0 := by
  obtain ⟨hlow, -, -, hfree⟩ := hplace
  have hnone : s.counts body = none := by
    rw [counts, map_eq_none_iff]
    exact isNone_iff_eq_none.1 hfree
  have hcounts : s'.counts body = some header.counts := by
    rw [counts, hnew.headers, update_self]
    rfl
  have hsettled := hb.settled body
  obtain ⟨hheld, hentries⟩ := hsettled.gone hnone
  have hentries := hentries (by omega)
  have hnot : body ∉ s'.reaperList := by
    rw [hnew.reaperList, hsettled.queued, hnone]
    rintro ⟨x, hx, -⟩
    cases hx
  have hhandles := handlesTo_congr hnew.tables
  refine hb.change body hsound (by rw [hnew.tables]; exact hb.finiteTables) (fun b hbo => ?_)
    (fun b _ _ => congrFun hhandles b) (fun b hbo => ?_) (fun _ _ => rfl) (fun b _ => by rw [hnew.reaperList])
    (by rw [hnew.reaperList]; exact hb.nodup) (fun t => ?_) ?_
  · rw [counts, counts, hnew.headers, update_of_ne hbo]
  · rw [Pi.add_apply, single_eq_of_ne hbo, add_zero]
  · have hshare : s'.share t body = 0 := by
      rw [share, hcounts]
      dsimp only [ObjectHeader.counts]
      rw [hnew.handleCount, ite_self]
    rw [hnew.totals, hshare, share, hnone, sub_zero, add_zero]
  · rw [Pi.add_apply, single_eq_same, hheld, zero_add, Pi.zero_apply]
    refine ⟨by decide, fun x hx => ?_, fun x hx _ => ?_, fun x _ hq => absurd hq hnot, iff_of_false hnot ?_, fun hgone => ?_⟩
    · rw [hcounts] at hx
      cases hx
      rw [congrFun hhandles, hentries]
      exact hnew.pointerCount
    · rw [hcounts] at hx
      cases hx
      rw [congrFun hhandles, hentries]
      exact hnew.handleCount
    · rintro ⟨x, hx, hzero⟩
      rw [hcounts] at hx
      cases hx
      have hone := hnew.pointerCount
      rw [show header.pointerCount = 0 from hzero] at hone
      cases hone
    · rw [hcounts] at hgone
      cases hgone

theorem deleteObjects_spec (list : List ℕ) (s : ObState P) :
    (list.foldl obpDeleteObject s).headers = (fun o => if o ∈ list then none else s.headers o) ∧
      (list.foldl obpDeleteObject s).tables = s.tables ∧ (list.foldl obpDeleteObject s).reaperList = s.reaperList ∧
      ∀ t, ((list.foldl obpDeleteObject s).types t).totalNumberOfHandles = (s.types t).totalNumberOfHandles := by
  induction list generalizing s with
  | nil => exact ⟨by simp, rfl, rfl, fun _ => rfl⟩
  | cons o list ih =>
    obtain ⟨hheaders, htables, hreaper, htotals⟩ := ih (s.obpDeleteObject o)
    refine ⟨?_, htables.trans (deleteObject_tables s o), hreaper.trans (deleteObject_reaper s o),
      fun t => (htotals t).trans (deleteObject_totals s o t)⟩
    rw [List.foldl_cons, hheaders]
    funext b
    rw [deleteObject_headers]
    by_cases hbo : b = o
    · subst hbo
      rw [update_self, ite_self, if_pos List.mem_cons_self]
    · rw [update_of_ne hbo]
      simp [hbo]

theorem Balanced.reap (hb : Balanced s h 0) : Balanced s.obpReapObject h 0 := by
  obtain ⟨hheaders, htables, hreaper, htotals⟩ := deleteObjects_spec s.reaperList { s with reaperList := [] }
  have hcounts (o : ℕ) : s.obpReapObject.counts o = if o ∈ s.reaperList then none else s.counts o := by
    rw [counts, obpReapObject, hheaders]
    dsimp only
    split_ifs <;> rfl
  have htables : s.obpReapObject.tables = s.tables := htables
  have hhandles := handlesTo_congr htables
  have hempty : s.obpReapObject.reaperList = [] := hreaper
  have hsteady := steady_reapObject s
  refine ⟨hb.sound.steady hsteady, by rw [htables]; exact hb.finiteTables,
    hb.finiteObjects.subset fun o ho => hsteady.headers o ho, fun o => ?_, by rw [hempty]; exact List.nodup_nil, fun t => ?_⟩
  · have hsettled := hb.settled o
    by_cases hq : o ∈ s.reaperList
    · have hgone : s.obpReapObject.counts o = none := by rw [hcounts, if_pos hq]
      obtain ⟨x, hx, hzero⟩ := hsettled.queued.1 hq
      have hreferences := hsettled.references x hx
      have hentries := handlesTo_nonneg s o
      have hnonneg := hsettled.nonneg
      refine ⟨hnonneg, ?_, ?_, ?_, ?_, fun _ => ⟨by omega, fun _ => by rw [congrFun hhandles]; omega⟩⟩ <;> rw [hgone]
      · rintro y ⟨⟩
      · rintro y ⟨⟩
      · rintro y ⟨⟩
      · rw [hempty]
        refine iff_of_false List.not_mem_nil ?_
        rintro ⟨y, ⟨⟩, -⟩
    · have hkept : s.obpReapObject.counts o = s.counts o := by rw [hcounts, if_neg hq]
      refine ⟨hsettled.nonneg, ?_, ?_, ?_, ?_, ?_⟩ <;> rw [hkept]
      · rw [congrFun hhandles]
        exact hsettled.references
      · rw [congrFun hhandles]
        exact fun y hy _ => hsettled.handles y hy hq
      · rw [hempty]
        exact fun y _ hmem => absurd hmem List.not_mem_nil
      · rw [hempty]
        refine iff_of_false List.not_mem_nil fun hzero => hq (hsettled.queued.2 hzero)
      · rw [congrFun hhandles]
        exact hsettled.gone
  · rw [obpReapObject, htotals, hb.totals]
    refine finsum_congr fun o => ?_
    show s.share t o = s.obpReapObject.share t o
    rw [share, share, hcounts, hempty]
    by_cases hq : o ∈ s.reaperList
    · rw [if_pos hq]
      cases s.counts o with
      | none => rfl
      | some x => exact if_neg fun h => h.2 hq
    · rw [if_neg hq]
      simp [hq]

end ObState

end XenOS.Ob
