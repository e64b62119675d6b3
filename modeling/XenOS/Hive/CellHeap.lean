import XenOS.Hive.SetThenGet

/-! The heap of cells in the bytes of a builder: bins and cells lie back to back, and every
structure that a key names has a large enough allocated cell of its own. -/

namespace XenOS.Hive

open General HiveBuilder List HiveValue Session

variable {b : HiveBuilder} {bins : Bins} {tree : List HiveKey} {k : HiveKey} {v : HiveValue} {rs : List Rec} {s s₀ : Session}
  {spec keys : List KeySpec} {ops : List HiveOp} {fuel : ℕ} {name : List Char}

namespace HiveBuilder

def valueClaims (b : HiveBuilder) (value : ℕ) : List (ℕ × ℕ) :=
  let dataSize := leValue b.data (dataAbs value + 4) 4
  (value, cellHeaderSize + (keyValueHeaderSize + leValue b.data (dataAbs value + 2) 2)) ::
    if dataInOffset ≤ dataSize then [] else [(leValue b.data (dataAbs value + 8) 4, cellHeaderSize + dataSize)]

def subkeysClaim (b : HiveBuilder) (key : ℕ) : List (ℕ × ℕ) × List ℕ :=
  let list := leValue b.data (dataAbs key + 28) 4
  let count := leValue b.data (dataAbs list + 2) 2
  if list = u32Max then ([], [])
  else ([(list, cellHeaderSize + (4 + count * 8))], (range count).map fun i => leValue b.data (dataAbs list + 4 + i * 8) 4)

def valuesClaim (b : HiveBuilder) (key : ℕ) : List (ℕ × ℕ) × List ℕ :=
  let list := leValue b.data (dataAbs key + 40) 4
  let count := leValue b.data (dataAbs key + 36) 4
  if list = u32Max then ([], [])
  else ([(list, cellHeaderSize + count * 4)], (range count).map fun i => leValue b.data (dataAbs list + i * 4) 4)

def keyClaims (b : HiveBuilder) (key : ℕ) : List (ℕ × ℕ) :=
  (key, cellHeaderSize + (keyNodeHeaderSize + leValue b.data (dataAbs key + 72) 2)) ::
    ((b.subkeysClaim key).1 ++ (b.valuesClaim key).1 ++ (b.valuesClaim key).2.flatMap b.valueClaims)

def parent (b : HiveBuilder) (key : ℕ) : ℕ := leValue b.data (dataAbs key + 16) 4

def NamesCell (bins : Bins) (o : ℕ × ℕ) : Prop := ∃ c, HasCell bins c ∧ c.1 = hiveBaseBlockSize + o.1 ∧ c.2 < 0 ∧ o.2 ≤ c.2.natAbs

end HiveBuilder

/-- All structures of the keys. -/
def Session.live (s : Session) : List (ℕ × ℕ) := s.keys.flatMap s.builder.keyClaims

/-- The bins tile the file and the cells each bin; each structure has a cell of its own; and what a
key names are keys: its subkeys, and its parent but for the root. -/
structure Session.CellHeap (s : Session) (bins : Bins) : Prop where
  dataSize : leValue s.builder.data 40 4 = s.builder.len - hiveBaseBlockSize
  binsTile : LaidOut Prod.fst hiveBaseBlockSize bins s.builder.len
  headers : ∀ bin ∈ bins, leValue s.builder.data bin.1 4 = binSignature ∧ leValue s.builder.data (bin.1 + 4) 4 = bin.1 - hiveBaseBlockSize ∧
    leValue s.builder.data (bin.1 + 8) 4 = bin.2.1 ∧ bin.2.1 % defaultBinSize = 0
  cellsTile : ∀ bin ∈ bins, LaidOut Int.natAbs (bin.1 + binHeaderSize) bin.2.2 (bin.1 + bin.2.1)
  cellSizes : ∀ bin ∈ bins, ∀ c ∈ bin.2.2, s.builder.cellSize c.1 = c.2 ∧ 0 < c.2.natAbs ∧ c.2.natAbs % 8 = 0
  allocated : ∀ o ∈ s.live, NamesCell bins o
  ownCells : (s.live.map Prod.fst).Nodup
  subkeys : ∀ k ∈ s.keys, ∀ c ∈ (s.builder.subkeysClaim k).2, c ∈ s.keys
  parents : ∀ k ∈ s.keys, k ≠ s.builder.rootKeyOffset → s.builder.parent k ∈ s.keys
  noOther : ∀ k ∈ s.keys, ∀ field ∈ [32, 44, 48], leValue s.builder.data (dataAbs k + field) 4 = u32Max

def Claims (o : ℕ × ℕ) (r : Rec) : Prop := o.1 = r.offset ∧ o.2 ≤ r.size

theorem offsets_eq {os : List (ℕ × ℕ)} (h : Forall₂ Claims os rs) : os.map Prod.fst = (rs.map Rec.cell).map Prod.fst := by
  induction h with
  | nil => rfl
  | cons hclaim _ ih =>
    simp only [map_cons, ih, hclaim.1]
    rfl

theorem exists_claimed {os : List (ℕ × ℕ)} (h : Forall₂ Claims os rs) : ∀ o ∈ os, ∃ r ∈ rs, Claims o r := by
  induction h with
  | nil =>
    intro o ho
    cases ho
  | cons hclaim _ ih =>
    intro o ho
    rcases mem_cons.1 ho with rfl | ho
    · exact ⟨_, mem_cons_self, hclaim⟩
    · obtain ⟨r, hr, hclaim'⟩ := ih o ho
      exact ⟨r, mem_cons_of_mem _ hr, hclaim'⟩

theorem cellLen_le (b : HiveBuilder) (offset : ℕ) : cellHeaderSize + b.cellLen offset ≤ 2 ^ 31 := by
  have hsize : -2 ^ 31 ≤ b.cellSize (hiveBaseBlockSize + offset) ∧ b.cellSize (hiveBaseBlockSize + offset) < 2 ^ 31 :=
    signed32_lt (leValue_lt b.data _ 4)
  unfold HiveBuilder.cellLen cellHeaderSize
  omega

section
variable (h : b.Holds rs)
include h

theorem dataFields (hv : ∀ r ∈ v.cells, r ∈ rs) (hformed : v.Formed) (hlarge : ¬ v.data.length ≤ 4) :
    (⟨v.dataOffset, cellHeaderSize + v.data.length, bytesFields v.data⟩ : Rec) ∈ rs ∧ v.data.length < 2 ^ 31 ∧
      leValue b.data (dataAbs v.offset + 4) 4 = v.data.length ∧ leValue b.data (dataAbs v.offset + 8) 4 = v.dataOffset := by
  have hcell := hv v.cell mem_cons_self
  have hmem : (⟨v.dataOffset, cellHeaderSize + v.data.length, bytesFields v.data⟩ : Rec) ∈ rs := by
    refine hv _ (mem_cons_of_mem _ ?_)
    rw [dataCells, if_neg hlarge]
    exact mem_cons_self
  have hlt := hformed.dataCell (Nat.lt_of_not_le hlarge)
  have hfit := (h.cellRange hmem hlt).2
  have hmax := cellLen_le b v.dataOffset
  simp only [cellHeaderSize] at hfit hmax
  have hsize : leValue b.data (dataAbs v.offset + 4) 4 = v.dataSize % 256 ^ 4 :=
    h.fieldAt hcell [(2, 0x6b76), (2, (nameBytes v.name).length)] 4 4 v.dataSize rfl rfl
  have hoffset : leValue b.data (dataAbs v.offset + 8) 4 = v.dataOffset % 256 ^ 4 :=
    h.fieldAt hcell [(2, 0x6b76), (2, (nameBytes v.name).length), (4, v.dataSize)] 8 4 v.dataOffset rfl rfl
  rw [dataSize, if_neg hlarge] at hsize
  unfold u32Max at hlt
  exact ⟨hmem, by omega, by omega, by omega⟩

theorem claims_value (hv : ∀ r ∈ v.cells, r ∈ rs) (hformed : v.Formed) :
    Forall₂ Claims (b.valueClaims v.offset) v.cells := by
  have hcell := hv v.cell mem_cons_self
  have hname : leValue b.data (dataAbs v.offset + 2) 2 = (nameBytes v.name).length % 256 ^ 2 :=
    h.fieldAt hcell [(2, 0x6b76)] 2 2 (nameBytes v.name).length rfl rfl
  have hle := Nat.mod_le (nameBytes v.name).length (256 ^ 2)
  unfold HiveBuilder.valueClaims cells
  refine Forall₂.cons ⟨rfl, ?_⟩ ?_
  · simp only [cell, hname]
    omega
  · by_cases hsmall : v.data.length ≤ 4
    · have hraw : dataInOffset ≤ leValue b.data (dataAbs v.offset + 4) 4 := by
        have hsize : leValue b.data (dataAbs v.offset + 4) 4 = v.dataSize % 256 ^ 4 :=
          h.fieldAt hcell [(2, 0x6b76), (2, (nameBytes v.name).length)] 4 4 v.dataSize rfl rfl
        rw [hsize, dataSize, if_pos hsmall]
        unfold dataInOffset
        omega
      rw [if_pos hraw, dataCells, if_pos hsmall]
      exact Forall₂.nil
    · obtain ⟨-, hlt, hsize, hoffset⟩ := dataFields h hv hformed hsmall
      rw [hsize, if_neg (by unfold dataInOffset; omega), dataCells, if_neg hsmall]
      exact Forall₂.cons ⟨hoffset, Nat.le_refl _⟩ Forall₂.nil

theorem claims_subkeys (hk : ∀ r ∈ k.cells, r ∈ rs) (hformed : k.Formed) :
    Forall₂ Claims (b.subkeysClaim k.offset).1 k.subkeysCells ∧ ∀ c ∈ (b.subkeysClaim k.offset).2, c ∈ k.items.map Prod.fst := by
  have hlist := subkeysField h hk hformed
  unfold HiveBuilder.subkeysClaim HiveKey.subkeysCells
  cases hitems : k.subkeysList with
  | none =>
    rw [hitems, Option.getD_none] at hlist
    simp only [hlist, if_true]
    exact ⟨Forall₂.nil, fun c hc => absurd hc not_mem_nil⟩
  | some l =>
    have hl := hformed.subkeysList l hitems
    obtain ⟨-, hcount, hread⟩ := subkeysRead h hk hformed hitems
    rw [hitems, Option.getD_some] at hlist
    have hle : leValue b.data (dataAbs l + 2) 2 ≤ k.items.length := hcount ▸ Nat.mod_le _ _
    simp only [hlist, if_neg (Nat.ne_of_lt hl)]
    constructor
    · refine Forall₂.cons ⟨rfl, ?_⟩ Forall₂.nil
      simp only [HiveKey.itemsCell]
      omega
    · intro c hc
      obtain ⟨i, hi, rfl⟩ := mem_map.1 hc
      rw [← hread]
      exact mem_map.2 ⟨i, mem_range.2 (Nat.lt_of_lt_of_le (mem_range.1 hi) hle), rfl⟩

theorem claims_values (hk : ∀ r ∈ k.cells, r ∈ rs) (hformed : k.Formed) :
    Forall₂ Claims (b.valuesClaim k.offset).1 k.valuesCells ∧ (b.valuesClaim k.offset).2 = k.values.map offset := by
  obtain ⟨hlist, hcount⟩ := valuesField h hk hformed
  unfold HiveBuilder.valuesClaim
  rw [valuesCells_eq]
  cases hvalues : k.valuesList with
  | none =>
    rw [hvalues, Option.getD_none] at hlist
    rw [hformed.noValues hvalues]
    simp only [hlist, if_true]
    exact ⟨Forall₂.nil, rfl⟩
  | some l =>
    have hl := hformed.valuesList l hvalues
    obtain ⟨-, hread⟩ := valuesRead h hk hformed hvalues
    rw [hvalues, Option.getD_some] at hlist
    simp only [hlist, hcount, if_neg (Nat.ne_of_lt hl)]
    refine ⟨Forall₂.cons ⟨rfl, ?_⟩ Forall₂.nil, hread⟩
    simp only [HiveKey.offsetsCell, length_map]
    omega

theorem claims_key (hk : ∀ r ∈ k.cells, r ∈ rs) (hformed : k.Formed) :
    Forall₂ Claims (b.keyClaims k.offset) k.cells := by
  have hname : leValue b.data (dataAbs k.offset + 72) 2 = (nameBytes k.name).length % 256 ^ 2 :=
    h.nameLength (hk k.cell mem_cons_self)
  have hle := Nat.mod_le (nameBytes k.name).length (256 ^ 2)
  obtain ⟨hvaluesCell, hvalues⟩ := claims_values h hk hformed
  unfold HiveBuilder.keyClaims HiveKey.cells
  refine Forall₂.cons ⟨rfl, ?_⟩ ?_
  · simp only [HiveKey.cell, hname]
    omega
  · rw [hvalues]
    refine rel_append (rel_append (claims_subkeys h hk hformed).1 hvaluesCell) ?_
    have hsame : Forall₂ (fun o v => v ∈ k.values ∧ o = v.offset) (k.values.map offset) k.values :=
      forall₂_map_left_iff.2 (forall₂_same.2 fun v hv => ⟨hv, rfl⟩)
    refine rel_flatMap hsame fun o v hov => ?_
    obtain ⟨hv, rfl⟩ := hov
    refine claims_value h (fun r hr => hk r (mem_cons_of_mem _ (mem_append_right _ ?_))) (hformed.values v hv)
    exact mem_flatMap.2 ⟨v, hv, hr⟩

end

def RootLast (keys : List KeySpec) : Prop := ∃ paths, keys.map KeySpec.path = paths ++ [[]] ∧ [] ∉ paths

theorem RootLast.specStep (h : RootLast keys) (op : HiveOp) : RootLast (specStep keys op) := by
  cases hop : op.setting with
  | some setting =>
    have hpaths : ∀ k : KeySpec, ({ k with values := k.values ++ [setting.2] } : KeySpec).path = k.path := fun _ => rfl
    unfold RootLast
    rw [specStep_setting hop, map_modify hpaths]
    exact h
  | none =>
    cases op with
    | createSubkey parent name =>
      have hstep : Hive.specStep keys (.createSubkey parent name) = keys[parent]?.elim keys fun k => ⟨k.path ++ [name], []⟩ :: keys := rfl
      rw [hstep]
      cases keys[parent]? with
      | none => exact h
      | some k =>
        obtain ⟨paths, hpaths, hroot⟩ := h
        refine ⟨(k.path ++ [name]) :: paths, by rw [Option.elim_some, map_cons, hpaths]; rfl, ?_⟩
        simp [hroot]
    | _ => cases hop

theorem rootLast_specRun (ops : List HiveOp) : RootLast (specRun ops) := by
  have hfold : ∀ keys, RootLast keys → RootLast (ops.foldl specStep keys) := by
    induction ops with
    | nil => exact fun keys h => h
    | cons op ops ih => exact fun keys h => ih _ (h.specStep op)
  exact hfold _ ⟨[], rfl, not_mem_nil⟩

theorem Tree.root_of_path (h : Tree s spec tree) (hroot : RootFirst s) (hspec : RootLast spec) (hk : k ∈ tree) (hpath : k.path = []) :
    k.offset = s.builder.rootKeyOffset := by
  obtain ⟨paths, hpaths, hnot⟩ := hspec
  rw [← h.spec, map_map] at hpaths
  obtain ⟨l, r, rfl, hl, hr⟩ := map_eq_append_iff.1 hpaths
  obtain ⟨x, rfl, -⟩ := map_eq_singleton_iff.1 hr
  rcases mem_append.1 hk with hk | hk
  · refine absurd ?_ hnot
    rw [← hl, ← hpath]
    exact mem_map.2 ⟨k, hk, rfl⟩
  · have hkeys := hroot.keys
    rw [← h.keys] at hkeys
    rw [mem_singleton.1 hk]
    simpa using hkeys

theorem Tree.cellHeap (h : Tree s spec tree) (hroot : RootFirst s) (hspec : RootLast spec) (hlen : s.builder.len < maxLen) :
    ∃ bins, s.CellHeap bins := by
  have hholds := h.built.holds
  have hcells : ∀ k ∈ tree, ∀ r ∈ k.cells, r ∈ tree.flatMap HiveKey.cells := fun k hk r hr => mem_flatMap.2 ⟨k, hk, hr⟩
  have hclaims : Forall₂ Claims s.live (tree.flatMap HiveKey.cells) := by
    have hsame : Forall₂ (fun o k => k ∈ tree ∧ o = k.offset) (tree.map HiveKey.offset) tree :=
      forall₂_map_left_iff.2 (forall₂_same.2 fun k hk => ⟨hk, rfl⟩)
    unfold live
    rw [← h.keys]
    refine rel_flatMap hsame fun o k hok => ?_
    obtain ⟨hk, rfl⟩ := hok
    exact claims_key hholds (hcells k hk) (h.built.formed k hk)
  have hkey : ∀ o ∈ s.keys, ∃ k ∈ tree, k.offset = o := fun o ho => mem_map.1 (h.keys.symm ▸ ho)
  obtain ⟨hnodup, bins, hheaded, howned⟩ := hholds.owned
  have hlayout := hheaded.toLayout
  have hbase := hlayout.tiles.le
  unfold maxLen at hlen
  refine ⟨bins, ?_, hlayout.tiles, fun bin hbin => ⟨hlayout.signature bin hbin, ?_, hlayout.binSize bin hbin, hheaded.pages bin hbin⟩,
    hlayout.cells, fun bin hbin c hc => ?_, fun o ho => ?_, ?_, fun o ho c hc => ?_, fun o ho hne => ?_, fun o ho field hfield => ?_⟩
  · rw [hheaded.dataSize]
    exact Nat.mod_eq_of_lt (by omega)
  · rw [hheaded.binOffset bin hbin]
    have := (hlayout.tiles.bounds hbin).2
    have : bin.1 + 32 ≤ bin.1 + bin.2.1 := (hlayout.cells bin hbin).le
    exact Nat.mod_eq_of_lt (by omega)
  · obtain ⟨⟨hne, hmod, -⟩, hsize⟩ := hlayout.sizes bin hbin c hc
    exact ⟨hsize, Int.natAbs_pos.2 hne, hmod⟩
  · obtain ⟨r, hr, hoffset, hle⟩ := exists_claimed hclaims o ho
    obtain ⟨c, hc, hstart, hneg, hsize⟩ := howned r.cell (mem_map.2 ⟨r, hr, rfl⟩)
    exact ⟨c, hc, hstart.trans (congrArg _ hoffset.symm), hneg, Nat.le_trans hle hsize⟩
  · rw [offsets_eq hclaims]
    exact hnodup
  · obtain ⟨k, hk, rfl⟩ := hkey o ho
    obtain ⟨item, hitem, rfl⟩ := mem_map.1 ((claims_subkeys hholds (hcells k hk) (h.built.formed k hk)).2 c hc)
    exact h.keys ▸ h.built.closed k hk item hitem
  · obtain ⟨k, hk, rfl⟩ := hkey o ho
    rcases h.linked.placed k hk with ⟨hpath, -⟩ | ⟨p, hp, hunder, -⟩
    · exact absurd (h.root_of_path hroot hspec hk hpath) hne
    · have hparent : s.builder.parent k.offset = p.offset := by
        refine (hholds.fieldAt (hcells k hk _ mem_cons_self) [(2, 0x6b6e), (2, k.flags), (8, 0), (4, 0)] 16 4 k.parent rfl rfl).trans ?_
        have := (h.built.formed p hp).offset
        unfold u32Max at this
        rw [hunder.2]
        exact Nat.mod_eq_of_lt (by omega)
      rw [hparent, ← h.keys]
      exact mem_map_of_mem hp
  · obtain ⟨k, hk, rfl⟩ := hkey o ho
    have hcell := hcells k hk _ mem_cons_self
    simp only [mem_cons, not_mem_nil, or_false] at hfield
    rcases hfield with rfl | rfl | rfl
    · exact hholds.fieldAt hcell (k.before20 ++ [(4, k.subkeyCount), (4, 0), (4, k.subkeysList.getD u32Max)]) 32 4 u32Max rfl rfl
    · exact hholds.fieldAt hcell (k.before20 ++ [(4, k.subkeyCount), (4, 0), (4, k.subkeysList.getD u32Max), (4, u32Max),
        (4, k.values.length), (4, k.valuesList.getD u32Max)]) 44 4 u32Max rfl rfl
    · exact hholds.fieldAt hcell (k.before20 ++ [(4, k.subkeyCount), (4, 0), (4, k.subkeysList.getD u32Max), (4, u32Max),
        (4, k.values.length), (4, k.valuesList.getD u32Max), (4, u32Max)]) 48 4 u32Max rfl rfl

namespace Session

/-- The bytes of a run are a heap of cells exactly as long as their number fits the field for it. -/
theorem cellHeap_iff (hnew : new fuel name = some s₀) (hret : ops.foldlM (step fuel) s₀ = some s) :
    (∃ bins, s.CellHeap bins) ↔ s.builder.len < maxLen := by
  constructor
  · rintro ⟨bins, hheap⟩
    have hfield := leValue_lt s.builder.data 40 4
    rw [hheap.dataSize] at hfield
    unfold maxLen hiveBaseBlockSize at *
    omega
  · intro hlen
    obtain ⟨tree, htree⟩ := exists_tree hnew hret (Nat.le_of_lt hlen)
    have hroot := (RootFirst.new hnew (Nat.le_trans (len_run hret) (Nat.le_of_lt hlen))).run hret
    exact htree.cellHeap hroot (rootLast_specRun ops) hlen

/-- A key under the root, with data in a cell and data in the offset field. -/
theorem cellHeap_twoKeys : ∃ s₀ s bins, new 2 ['R'] = some s₀ ∧
    foldlM (step 2) s₀ [.createSubkey 0 ['k'], .setQword 0 ['q'] 5, .setDword 1 ['d'] 7] = some s ∧ s.CellHeap bins := by
  have heval : ((new 2 ['R']).bind fun s₀ =>
      foldlM (step 2) s₀ [.createSubkey 0 ['k'], .setQword 0 ['q'] 5, .setDword 1 ['d'] 7]).any
      (fun s => decide (s.builder.len < maxLen)) = true := by
    decide +kernel
  obtain ⟨s, hs, hlen⟩ := (Option.any_eq_true _ _).1 heval
  obtain ⟨s₀, hnew, hret⟩ := Option.bind_eq_some_iff.1 hs
  obtain ⟨bins, hheap⟩ := (cellHeap_iff hnew hret).2 (of_decide_eq_true hlen)
  exact ⟨s₀, s, bins, hnew, hret, hheap⟩

/-- The root of a new hive stores 0 as its parent, where the header of the first bin lies: no cell
is there. -/
theorem parent_names_no_cell : ∃ s, new 1 ['R'] = some s ∧
    ∀ bins, s.CellHeap bins → ¬ ∀ k ∈ s.keys, NamesCell bins (s.builder.parent k, 0) := by
  have heval : (new 1 ['R']).any
      (fun s => decide (s.builder.rootKeyOffset ∈ s.keys ∧ s.builder.parent s.builder.rootKeyOffset = 0)) = true := by
    decide +kernel
  obtain ⟨s, hs, hboth⟩ := (Option.any_eq_true _ _).1 heval
  obtain ⟨hmem, hparent⟩ := of_decide_eq_true hboth
  refine ⟨s, hs, fun bins hheap hall => ?_⟩
  obtain ⟨c, ⟨bin, hbin, hc⟩, hstart, -, -⟩ := hall _ hmem
  have h1 := (hheap.binsTile.bounds hbin).1
  have h2 := ((hheap.cellsTile bin hbin).bounds hc).1
  rw [hparent] at hstart
  unfold binHeaderSize at h2
  simp only at hstart
  omega

end Session

end XenOS.Hive
