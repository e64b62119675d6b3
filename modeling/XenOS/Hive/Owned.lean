import XenOS.Hive.Cells

/-! The allocated cells that a hive owns. Allocating and freeing keep the contents of the others,
and a write inside an owned cell changes no other, while offsets fit in 32 bits. -/

namespace XenOS.Hive

open General
open List (mem_append mem_cons mem_cons_of_mem mem_map mem_singleton nodup_cons)
open Option (bind_eq_bind bind_eq_some_iff bind_some)

theorem le_alignCellSize (n : ℕ) : n ≤ alignCellSize n := by
  unfold alignCellSize
  omega

theorem alignCellSize_mod (n : ℕ) : alignCellSize n % 8 = 0 := Nat.mul_mod_left _ _

theorem alignCellSize_pos {n : ℕ} (h : 0 < n) : 0 < alignCellSize n := Nat.lt_of_lt_of_le h (le_alignCellSize n)

namespace HiveBuilder

variable {b b' b₁ b₂ : HiveBuilder} {bins : Bins} {c : ℕ × ℤ} {os os' : List (ℕ × ℕ)} {o : ℕ × ℕ} {fuel n p e l : ℕ}

/-- The longest hive whose offsets are 32-bit numbers. -/
def maxLen : ℕ := hiveBaseBlockSize + 2 ^ 32

/-- Each of the offsets is that of an allocated cell of at least the number of bytes. -/
def Owned (b : HiveBuilder) (os : List (ℕ × ℕ)) : Prop :=
  (os.map Prod.fst).Nodup ∧ ∃ bins, b.Headed bins ∧
    ∀ o ∈ os, ∃ c, HasCell bins c ∧ c.1 = hiveBaseBlockSize + o.1 ∧ c.2 < 0 ∧ o.2 ≤ c.2.natAbs

/-- The contents of the cells are the same. -/
def Keeps (b b' : HiveBuilder) (os : List (ℕ × ℕ)) : Prop :=
  ∀ o ∈ os, ∀ j, dataAbs o.1 ≤ j → j < hiveBaseBlockSize + o.1 + o.2 → b'.data j = b.data j

theorem Keeps.trans {b'' : HiveBuilder} (h : Keeps b b' os) (h' : Keeps b' b'' os) : Keeps b b'' os :=
  fun o ho j hlow hhigh => (h' o ho j hlow hhigh).trans (h o ho j hlow hhigh)

theorem Keeps.mono (h : Keeps b b' os) (hsub : ∀ o ∈ os', o ∈ os) : Keeps b b' os' := fun o ho => h o (hsub o ho)

namespace Owned

theorem perm (h : b.Owned os) (hperm : os.Perm os') : b.Owned os' := by
  obtain ⟨hnodup, bins, hheaded, hcells⟩ := h
  exact ⟨(hperm.map _).nodup_iff.1 hnodup, bins, hheaded, fun o ho => hcells o (hperm.mem_iff.2 ho)⟩

theorem tail (h : b.Owned (o :: os)) : b.Owned os := by
  obtain ⟨hnodup, bins, hheaded, hcells⟩ := h
  exact ⟨(nodup_cons.1 hnodup).2, bins, hheaded, fun o ho => hcells o (mem_cons_of_mem _ ho)⟩

theorem shrink {n' : ℕ} (h : b.Owned ((l, n) :: os)) (hle : n' ≤ n) : b.Owned ((l, n') :: os) := by
  obtain ⟨hnodup, bins, hheaded, hcells⟩ := h
  refine ⟨hnodup, bins, hheaded, fun o ho => ?_⟩
  rcases mem_cons.1 ho with rfl | ho
  · obtain ⟨c, hc, hstart, hneg, hsize⟩ := hcells (l, n) (by simp)
    exact ⟨c, hc, hstart, hneg, Nat.le_trans hle hsize⟩
  · exact hcells o (mem_cons_of_mem _ ho)

theorem apart (h : b.Owned os) {o' : ℕ × ℕ} (ho : o ∈ os) (ho' : o' ∈ os) (hne : o.1 ≠ o'.1) :
    o.1 + o.2 ≤ o'.1 ∨ o'.1 + o'.2 ≤ o.1 := by
  obtain ⟨-, bins, hheaded, hcells⟩ := h
  have hlayout := hheaded.toLayout
  obtain ⟨c, hc, hstart, -, hsize⟩ := hcells o ho
  obtain ⟨c', hc', hstart', -, hsize'⟩ := hcells o' ho'
  rcases hlayout.eq_or_apart hc hc' with rfl | hapart
  · omega
  · omega

theorem within (h : b.Owned ((l, n) :: os)) (hwithin : Within b b' p e) (hp : dataAbs l ≤ p)
    (he : e ≤ hiveBaseBlockSize + l + n) : b'.Owned ((l, n) :: os) ∧ Keeps b b' os := by
  have hapart : Keeps b b' os := fun o ho j hlow hhigh => by
    have hne : (l, n).1 ≠ o.1 := fun heq => (nodup_cons.1 h.1).1 (mem_map.2 ⟨o, ho, heq.symm⟩)
    have := h.apart (o := (l, n)) (by simp) (mem_cons_of_mem _ ho) hne
    unfold dataAbs at hlow hp
    exact hwithin.data j (by simp only at this; omega)
  refine ⟨?_, hapart⟩
  obtain ⟨hnodup, bins, hheaded, hcells⟩ := h
  have hlayout := hheaded.toLayout
  obtain ⟨c, hc, hstart, hneg, hsize⟩ := hcells (l, n) (by simp)
  obtain ⟨bin, hbin, hmem⟩ := id hc
  have hvalid := hlayout.sizes bin hbin c hmem
  simp only at hstart hsize
  unfold dataAbs cellHeaderSize at hp
  obtain ⟨bins', hheaded', hnew, hold⟩ := hheaded.exists_replace hc [c]
    (hwithin.mono (by omega) (by omega)) ⟨rfl, rfl⟩ (by
      intro x hx
      rw [mem_singleton.1 hx, ← hvalid.2]
      exact ⟨hvalid.2 ▸ hvalid.1, cellSize_congr fun j _ _ => hwithin.data j (by omega)⟩)
  refine ⟨hnodup, bins', hheaded', fun o ho => ?_⟩
  obtain ⟨x, hx, hrest⟩ := hcells o ho
  by_cases hxc : x = c
  · exact ⟨x, hnew x (by simp [hxc]), hrest⟩
  · exact ⟨x, hold x hx hxc, hrest⟩

theorem freeCell (h : b.Owned ((l, n) :: os)) (hret : b.freeCell l = some b') :
    b'.Owned os ∧ Keeps b b' os ∧ b'.len = b.len := by
  have hne : ∀ o ∈ os, l ≠ o.1 := fun o ho heq => (nodup_cons.1 h.1).1 (mem_map.2 ⟨o, ho, heq.symm⟩)
  obtain ⟨hnodup, bins, hheaded, hcells⟩ := id h
  have hlayout := hheaded.toLayout
  obtain ⟨c, hc, hstart, hneg, -⟩ := hcells (l, n) (by simp)
  obtain ⟨bin, hbin, hmem⟩ := id hc
  obtain ⟨⟨hne0, hmod, hlt⟩, hsize⟩ := hlayout.sizes bin hbin c hmem
  have hbounds := hlayout.bounds hc
  simp only at hstart
  have hread : b.readI32 (hiveBaseBlockSize + l) = some c.2 := by
    rw [← hstart, readI32_eq (by omega), hsize]
  simp only [HiveBuilder.freeCell, hread, bind_eq_bind, bind_some, if_neg (show ¬ c.2 = -2 ^ 31 by omega),
    if_pos hneg] at hret
  rw [← hstart] at hret
  have hwithin : Within b b' c.1 (c.1 + 4) := within_write hret
  obtain ⟨bins', hheaded', -, hold⟩ := hheaded.exists_replace hc [(c.1, -c.2)]
    (hwithin.mono (Nat.le_refl _) (by omega)) ⟨rfl, by show c.1 + (-c.2).natAbs = _; omega⟩ (by
      intro x hx
      rw [mem_singleton.1 hx]
      exact ⟨⟨by omega, by simpa using hmod, by simpa using hlt⟩, cellSize_writeI32 hret (by omega) (by omega)⟩)
  have hcell : ∀ o ∈ os, ∃ x, HasCell bins x ∧ x ≠ c ∧ x.1 = hiveBaseBlockSize + o.1 ∧ x.2 < 0 ∧ o.2 ≤ x.2.natAbs := by
    intro o ho
    obtain ⟨x, hx, hxstart, hrest⟩ := hcells o (mem_cons_of_mem _ ho)
    refine ⟨x, hx, ?_, hxstart, hrest⟩
    rintro rfl
    have := hne o ho
    omega
  refine ⟨⟨(nodup_cons.1 hnodup).2, bins', hheaded', fun o ho => ?_⟩, fun o ho j hlow hhigh => ?_, hwithin.len⟩
  · obtain ⟨x, hx, hxc, hrest⟩ := hcell o ho
    exact ⟨x, hold x hx hxc, hrest⟩
  · obtain ⟨x, hx, hxc, hxstart, -, hxsize⟩ := hcell o ho
    have hapart := (hlayout.eq_or_apart hx hc).resolve_left hxc
    unfold dataAbs at hlow
    exact hwithin.data j (by omega)

end Owned

/-! ### Allocation -/

theorem exists_write (h : p + n ≤ b.len) (v : ℕ) : ∃ b', b.write p n v = some b' := ⟨_, write_eq h v⟩

theorem leValue_of_write {v : ℕ} (h : b.write p n v = some b') : leValue b'.data p n = v % 256 ^ n := by
  obtain ⟨-, rfl⟩ := write_eq_some h
  exact leValue_leWrite

def newBinSize (minSize : ℕ) : ℕ := (minSize + defaultBinSize - 1) / defaultBinSize * defaultBinSize

variable {minSize : ℕ}

theorem Layout.extendHive (h : b.Layout bins) (hmin : 0 < minSize) (hmax : minSize ≤ 2 ^ 31) :
    ∃ b', b.extendHive minSize = some b' ∧ b'.len = b.len + newBinSize minSize ∧
      (∀ j, hiveBaseBlockSize ≤ j → j < b.len → b'.data j = b.data j) ∧
      b'.Layout (bins ++ [(b.len, newBinSize minSize, [(b.len + 32, ((newBinSize minSize - 32 : ℕ) : ℤ))])]) := by
  have hbase := h.tiles.le
  have hN : newBinSize minSize % 4096 = 0 ∧ 4096 ≤ newBinSize minSize ∧ newBinSize minSize ≤ 2 ^ 31 := by
    unfold newBinSize defaultBinSize
    omega
  obtain ⟨N, hNdef⟩ : ∃ N, N = newBinSize minSize := ⟨_, rfl⟩
  rw [← hNdef] at hN ⊢
  unfold hiveBaseBlockSize at hbase
  -- the five writes
  have hlen₀ : (b.resize (b.len + N)).len = b.len + N := rfl
  obtain ⟨b₁, h1⟩ := exists_write (b := b.resize (b.len + N)) (p := b.len) (n := 4) (by omega) binSignature
  have w1 := within_write h1
  obtain ⟨b₂, h2⟩ := exists_write (b := b₁) (p := b.len + 4) (n := 4) (by rw [w1.len]; omega) (b.len - hiveBaseBlockSize)
  have w2 := within_write h2
  obtain ⟨b₃, h3⟩ := exists_write (b := b₂) (p := b.len + 8) (n := 4) (by rw [w2.len, w1.len]; omega) N
  have w3 := within_write h3
  obtain ⟨b₄, h4⟩ := exists_write (b := b₃) (p := b.len + 32) (n := 4) (by rw [w3.len, w2.len, w1.len]; omega)
    (((N - 32 : ℕ) : ℤ) % 2 ^ 32).toNat
  have w4 := within_write h4
  obtain ⟨b₅, h5⟩ := exists_write (b := b₄) (p := 40) (n := 4) (by rw [w4.len, w3.len, w2.len, w1.len]; omega)
    (b₄.len - hiveBaseBlockSize)
  have w5 := within_write h5
  have hlen : b₅.len = b.len + N := by rw [w5.len, w4.len, w3.len, w2.len, w1.len, hlen₀]
  have hret : b.extendHive minSize = some b₅ := by
    unfold HiveBuilder.extendHive
    rw [show (minSize + defaultBinSize - 1) / defaultBinSize * defaultBinSize = N from hNdef.symm]
    exact bind_eq_some_iff.2 ⟨b₁, h1, bind_eq_some_iff.2 ⟨b₂, h2, bind_eq_some_iff.2 ⟨b₃, h3,
      bind_eq_some_iff.2 ⟨b₄, h4, h5⟩⟩⟩⟩
  have hold : ∀ j, hiveBaseBlockSize ≤ j → j < b.len → b₅.data j = b.data j := fun j hlow hhigh => by
    unfold hiveBaseBlockSize at hlow
    rw [w5.data j (by omega), w4.data j (by omega), w3.data j (by omega), w2.data j (by omega), w1.data j (by omega)]
    exact if_pos hhigh
  have hsignature : leValue b₅.data b.len 4 = binSignature := by
    have hsame : leValue b₅.data b.len 4 = leValue b₁.data b.len 4 := leValue_congr fun j _ _ => by
      rw [w5.data j (by omega), w4.data j (by omega), w3.data j (by omega), w2.data j (by omega)]
    rw [hsame, leValue_of_write h1]
    rfl
  have hbinSize : leValue b₅.data (b.len + 8) 4 = N := by
    have hsame : leValue b₅.data (b.len + 8) 4 = leValue b₃.data (b.len + 8) 4 := leValue_congr fun j _ _ => by
      rw [w5.data j (by omega), w4.data j (by omega)]
    rw [hsame, leValue_of_write h3]
    exact Nat.mod_eq_of_lt (by omega)
  have hcell : b₅.cellSize (b.len + 32) = ((N - 32 : ℕ) : ℤ) := by
    rw [← cellSize_writeI32 h4 (by omega) (by omega)]
    exact cellSize_congr fun j _ _ => w5.data j (by omega)
  refine ⟨b₅, hret, hlen, hold, ?_⟩
  -- what holds of the old bins, and of the new one
  have hbin : ∀ bin ∈ bins, hiveBaseBlockSize ≤ bin.1 ∧ bin.1 + bin.2.1 ≤ b.len ∧ bin.1 + 32 ≤ bin.1 + bin.2.1 := fun bin hbin =>
    ⟨(h.tiles.bounds hbin).1, (h.tiles.bounds hbin).2, (h.cells bin hbin).le⟩
  constructor
  · rw [hlen]
    exact LaidOut.append.2 ⟨b.len, h.tiles, rfl, rfl⟩
  · intro bin hmem
    rcases mem_append.1 hmem with hmem | hmem
    · have hb := hbin bin hmem
      rw [← h.signature bin hmem]
      exact leValue_congr fun j hlow hhigh => hold j (by omega) (by omega)
    · rw [mem_singleton.1 hmem]
      exact hsignature
  · intro bin hmem
    rcases mem_append.1 hmem with hmem | hmem
    · have hb := hbin bin hmem
      rw [← h.binSize bin hmem]
      exact leValue_congr fun j hlow hhigh => hold j (by omega) (by omega)
    · rw [mem_singleton.1 hmem]
      exact hbinSize
  · intro bin hmem
    rcases mem_append.1 hmem with hmem | hmem
    · exact h.cells bin hmem
    · rw [mem_singleton.1 hmem]
      exact ⟨rfl, by show b.len + 32 + ((N - 32 : ℕ) : ℤ).natAbs = b.len + N; omega⟩
  · intro bin hmem c hc
    rcases mem_append.1 hmem with hmem | hmem
    · have hb := h.bounds ⟨bin, hmem, hc⟩
      obtain ⟨hvalid, hsize⟩ := h.sizes bin hmem c hc
      refine ⟨hvalid, ?_⟩
      rw [← hsize]
      exact cellSize_congr fun j hlow hhigh => hold j (by omega) (by omega)
    · rw [mem_singleton.1 hmem] at hc
      rw [mem_singleton.1 hc]
      exact ⟨⟨by simp only; omega, by simp only; omega, by simp only; omega⟩, hcell⟩

theorem extendHive_header (h : b.extendHive minSize = some b') (hbase : hiveBaseBlockSize ≤ b.len) :
    leValue b'.data 40 4 = (b'.len - hiveBaseBlockSize) % 2 ^ 32 ∧ leValue b'.data (b.len + 4) 4 = (b.len - hiveBaseBlockSize) % 2 ^ 32 ∧
      leValue b'.data 44 4 = leValue b.data 44 4 := by
  simp only [HiveBuilder.extendHive, bind_eq_bind, bind_eq_some_iff] at h
  obtain ⟨b₁, h1, b₂, h2, b₃, h3, b₄, h4, h5⟩ := h
  have w1 := within_write h1
  have w2 := within_write h2
  have w3 := within_write h3
  have w4 := within_write h4
  have w5 := within_write h5
  unfold hiveBaseBlockSize at hbase
  refine ⟨?_, ?_, ?_⟩
  · have hvalue := leValue_of_write h5
    rw [w5.len]
    exact hvalue
  · have hsame : leValue b'.data (b.len + 4) 4 = leValue b₂.data (b.len + 4) 4 := leValue_congr fun j _ _ => by
      rw [w5.data j (by omega), w4.data j (by unfold binHeaderSize; omega), w3.data j (by omega)]
    exact hsame.trans (leValue_of_write h2)
  · refine leValue_congr fun j _ _ => ?_
    rw [w5.data j (by omega), w4.data j (by omega), w3.data j (by omega), w2.data j (by omega), w1.data j (by omega)]
    exact if_pos (by omega)

theorem Headed.extendHive (h : b.Headed bins) (hmin : 0 < minSize) (hmax : minSize ≤ 2 ^ 31)
    (hret : b.extendHive minSize = some b') :
    b'.Headed (bins ++ [(b.len, newBinSize minSize, [(b.len + 32, ((newBinSize minSize - 32 : ℕ) : ℤ))])]) := by
  have hlayout := h.toLayout
  obtain ⟨b₁, hret₁, hlen, hold, hlayout'⟩ := hlayout.extendHive hmin hmax
  cases hret.symm.trans hret₁
  obtain ⟨hdata, hoffset, hclustering⟩ := extendHive_header hret hlayout.tiles.le
  refine ⟨hlayout', hdata, hclustering.trans h.clusteringFactor, fun bin hbin => ?_, fun bin hbin => ?_⟩
  · rcases mem_append.1 hbin with hbin | hbin
    · have hin := hlayout.tiles.bounds hbin
      have hsize : bin.1 + 32 ≤ bin.1 + bin.2.1 := (hlayout.cells bin hbin).le
      rw [← h.binOffset bin hbin]
      exact leValue_congr fun j hlow hhigh => hold j (by omega) (by omega)
    · rw [mem_singleton.1 hbin]
      exact hoffset
  · rcases mem_append.1 hbin with hbin | hbin
    · exact h.pages bin hbin
    · rw [mem_singleton.1 hbin]
      exact Nat.mul_mod_left _ _

theorem len_extendHive (h : b.extendHive minSize = some b') : b'.len = b.len + newBinSize minSize := by
  simp only [HiveBuilder.extendHive, bind_eq_bind, bind_eq_some_iff] at h
  obtain ⟨b₁, h1, b₂, h2, b₃, h3, b₄, h4, h5⟩ := h
  rw [(within_write h5).len, (within_write h4).len, (within_write h3).len, (within_write h2).len, (within_write h1).len]
  rfl

variable {requiredSize : ℕ} {found : ℕ × ℕ}

theorem searchCells_lt (h : b.searchCells requiredSize e fuel p = some (some found)) :
    requiredSize < 2 ^ 31 := by
  induction fuel generalizing p with
  | zero => cases h
  | succ fuel ih =>
    rw [searchCells] at h
    by_cases hin : p < e ∧ p + 4 ≤ b.len
    swap
    · rw [if_neg hin] at h
      cases h
    rw [if_pos hin, readI32_eq hin.2] at h
    simp only [bind_eq_bind, bind_some] at h
    by_cases h0 : b.cellSize p = 0
    · rw [if_pos h0] at h
      cases h
    rw [if_neg h0] at h
    by_cases hfits : 0 < b.cellSize p ∧ requiredSize ≤ (b.cellSize p).natAbs
    · have : b.cellSize p < 2 ^ 31 := (signed32_lt (leValue_lt b.data p 4)).2
      omega
    · rw [if_neg hfits] at h
      exact ih h

theorem searchBins_lt (h : b.searchBins requiredSize fuel p = some (some found)) :
    requiredSize < 2 ^ 31 := by
  induction fuel generalizing p with
  | zero => cases h
  | succ fuel ih =>
    rw [searchBins] at h
    by_cases hin : p < b.len
    swap
    · rw [if_neg hin] at h
      cases h
    rw [if_pos hin] at h
    obtain ⟨signature, -, h⟩ := bind_eq_some_iff.1 h
    by_cases hsignature : signature ≠ binSignature
    · rw [if_pos hsignature] at h
      cases h
    rw [if_neg hsignature] at h
    obtain ⟨binSize, -, h⟩ := bind_eq_some_iff.1 h
    obtain ⟨found', hcells, h⟩ := bind_eq_some_iff.1 h
    cases found' with
    | some found' => exact searchCells_lt hcells
    | none => exact ih h

theorem findCell_lt (h : b.findCell requiredSize = some (some found)) :
    requiredSize < 2 ^ 31 := searchBins_lt h

theorem allocateCell_lt (h : b.allocateCell fuel n = some (b', l)) : alignCellSize (cellHeaderSize + n) < 2 ^ 31 := by
  induction fuel generalizing b with
  | zero => cases h
  | succ fuel ih =>
    obtain ⟨found, hfound, h⟩ := bind_eq_some_iff.1 h
    cases found with
    | some found => exact findCell_lt hfound
    | none =>
      obtain ⟨b₁, -, h⟩ := bind_eq_some_iff.1 h
      exact ih h

theorem len_takeCell {absSize : ℕ} (h : b.takeCell p absSize requiredSize = some b') : b'.len = b.len := by
  obtain ⟨b₁, h1, h2⟩ := bind_eq_some_iff.1 h
  rw [← (within_write h1).len]
  split_ifs at h2
  · exact (within_write h2).len
  · cases h2
    rfl

theorem len_allocateCell (h : b.allocateCell fuel n = some (b', l)) : b.len ≤ b'.len := by
  induction fuel generalizing b with
  | zero => cases h
  | succ fuel ih =>
    obtain ⟨found, hfound, h⟩ := bind_eq_some_iff.1 h
    cases found with
    | some found =>
      obtain ⟨b₁, h1, h⟩ := bind_eq_some_iff.1 h
      cases h
      exact Nat.le_of_eq (len_takeCell h1).symm
    | none =>
      obtain ⟨b₁, h1, h⟩ := bind_eq_some_iff.1 h
      exact Nat.le_trans (Nat.le.intro (len_extendHive h1).symm) (ih h)

namespace Owned

theorem takeCell (h : b.Owned os) (hheaded : b.Headed bins)
    (hcells : ∀ o ∈ os, ∃ c, HasCell bins c ∧ c.1 = hiveBaseBlockSize + o.1 ∧ c.2 < 0 ∧ o.2 ≤ c.2.natAbs)
    (hmod : requiredSize % 8 = 0) (hpos : 0 < requiredSize) (hc : HasCell bins c)
    (hfits : (requiredSize : ℤ) ≤ c.2) (hret : b.takeCell c.1 c.2.natAbs requiredSize = some b') :
    b'.Owned ((c.1 - hiveBaseBlockSize, requiredSize) :: os) ∧ Keeps b b' os := by
  have hlayout := hheaded.toLayout
  have hbounds := hlayout.bounds hc
  obtain ⟨bin, hbin, hmem⟩ := id hc
  obtain ⟨⟨hne0, hcmod, hlt⟩, hsize⟩ := hlayout.sizes bin hbin c hmem
  obtain ⟨b₁, h1, h2⟩ := bind_eq_some_iff.1 hret
  have hw1 : Within b b₁ c.1 (c.1 + 4) := within_write h1
  have hs1 := cellSize_writeI32 h1 (by omega) (by omega)
  -- the cells that the free one gives way to
  have hsplit : ∃ xs, Within b b' c.1 (c.1 + c.2.natAbs) ∧ LaidOut Int.natAbs c.1 xs (c.1 + c.2.natAbs) ∧
      (∀ x ∈ xs, ValidSize x.2 ∧ b'.cellSize x.1 = x.2) ∧ (c.1, -(requiredSize : ℤ)) ∈ xs := by
    unfold cellMinSize at h2
    split_ifs at h2 with hrem
    · have hw2 : Within b₁ b' (c.1 + requiredSize) (c.1 + requiredSize + 4) := within_write h2
      have hs2 := cellSize_writeI32 h2 (by omega) (by omega)
      have hfirst : b'.cellSize c.1 = -(requiredSize : ℤ) := by
        rw [← hs1]
        exact cellSize_congr fun j _ _ => hw2.data j (by omega)
      refine ⟨[(c.1, -(requiredSize : ℤ)), (c.1 + requiredSize, ((c.2.natAbs - requiredSize : ℕ) : ℤ))],
        (hw1.mono (Nat.le_refl _) (by omega)).trans (hw2.mono (by omega) (by omega)), ⟨rfl, ?_, ?_⟩, ?_, by simp⟩
      · simp
      · show c.1 + (-(requiredSize : ℤ)).natAbs + ((c.2.natAbs - requiredSize : ℕ) : ℤ).natAbs = _
        omega
      · intro x hx
        simp only [mem_cons, List.not_mem_nil, or_false] at hx
        rcases hx with rfl | rfl
        · exact ⟨⟨by simp only; omega, by simp only; omega, by simp only; omega⟩, hfirst⟩
        · exact ⟨⟨by simp only; omega, by simp only; omega, by simp only; omega⟩, hs2⟩
    · cases h2
      refine ⟨[(c.1, -(requiredSize : ℤ))], hw1.mono (Nat.le_refl _) (by omega), ⟨rfl, ?_⟩, ?_, by simp⟩
      · show c.1 + (-(requiredSize : ℤ)).natAbs = _
        omega
      · intro x hx
        rw [mem_singleton.1 hx]
        exact ⟨⟨by simp only; omega, by simp only; omega, by simp only; omega⟩, hs1⟩
  obtain ⟨xs, hwithin, htiles, hsizes, htaken⟩ := hsplit
  obtain ⟨bins', hheaded', hnew, hold⟩ := hheaded.exists_replace hc xs hwithin htiles hsizes
  have hcell : ∀ o ∈ os, ∃ x, HasCell bins x ∧ x ≠ c ∧ x.1 = hiveBaseBlockSize + o.1 ∧ x.2 < 0 ∧ o.2 ≤ x.2.natAbs := by
    intro o ho
    obtain ⟨x, hx, hxstart, hneg, hrest⟩ := hcells o ho
    exact ⟨x, hx, fun e => by subst e; omega, hxstart, hneg, hrest⟩
  refine ⟨⟨nodup_cons.2 ⟨fun hold => ?_, h.1⟩, bins', hheaded', fun o ho => ?_⟩, fun o ho j hlow hhigh => ?_⟩
  · obtain ⟨o, ho, heq⟩ := mem_map.1 hold
    obtain ⟨x, hx, hxc, hxstart, -⟩ := hcell o ho
    simp only at heq
    exact hxc (hlayout.eq_of_start hx hc (by omega))
  · rcases mem_cons.1 ho with rfl | ho
    · exact ⟨_, hnew _ htaken, by simp only; omega, by simp only; omega, by simp only; omega⟩
    · obtain ⟨x, hx, hxc, hrest⟩ := hcell o ho
      exact ⟨x, hold x hx hxc, hrest⟩
  · obtain ⟨x, hx, hxc, hxstart, -, hxsize⟩ := hcell o ho
    have hapart := (hlayout.eq_or_apart hx hc).resolve_left hxc
    unfold dataAbs at hlow
    exact hwithin.data j (by omega)

theorem extendHive (h : b.Owned os) (hmin : 0 < minSize) (hmax : minSize ≤ 2 ^ 31)
    (hret : b.extendHive minSize = some b') : b'.Owned os ∧ Keeps b b' os := by
  obtain ⟨hnodup, bins, hheaded, hcells⟩ := h
  have hlayout := hheaded.toLayout
  obtain ⟨b₁, hret₁, -, hsame, -⟩ := hlayout.extendHive hmin hmax
  cases hret.symm.trans hret₁
  refine ⟨⟨hnodup, _, hheaded.extendHive hmin hmax hret, fun o ho => ?_⟩, fun o ho j hlow hhigh => ?_⟩
  · obtain ⟨c, ⟨bin, hbin, hc⟩, hrest⟩ := hcells o ho
    exact ⟨c, ⟨bin, List.mem_append_left _ hbin, hc⟩, hrest⟩
  · obtain ⟨c, hc, hstart, -, hsize⟩ := hcells o ho
    have := hlayout.bounds hc
    unfold dataAbs at hlow
    exact hsame j (by omega) (by omega)

theorem allocateCell (h : b.Owned os) (hret : b.allocateCell fuel n = some (b', l)) (hlen : b'.len ≤ maxLen) :
    b'.Owned ((l, cellHeaderSize + n) :: os) ∧ Keeps b b' os ∧ l < u32Max := by
  have hlt := allocateCell_lt hret
  have hpos : 0 < alignCellSize (cellHeaderSize + n) := alignCellSize_pos (by unfold cellHeaderSize; omega)
  induction fuel generalizing b with
  | zero => cases hret
  | succ fuel ih =>
    obtain ⟨found, hfound, hret⟩ := bind_eq_some_iff.1 hret
    obtain ⟨-, bins, hheaded, hcells⟩ := id h
    have hlayout := hheaded.toLayout
    cases found with
    | some found =>
      obtain ⟨b₁, h1, hret⟩ := bind_eq_some_iff.1 hret
      rcases hlayout.findCell_spec hpos with ⟨c, hc, hfits, hfind⟩ | ⟨-, hfind⟩
      swap
      · cases hfound.symm.trans hfind
      cases hfound.symm.trans hfind
      cases hret
      have hbounds := hlayout.bounds hc
      have hl : (c.1 - hiveBaseBlockSize) % 2 ^ 32 = c.1 - hiveBaseBlockSize := by
        have := len_takeCell h1
        unfold maxLen at hlen
        omega
      obtain ⟨howned, hkeeps⟩ := h.takeCell hheaded hcells (alignCellSize_mod _) hpos hc hfits h1
      rw [hl]
      refine ⟨howned.shrink (le_alignCellSize _), hkeeps, ?_⟩
      have := len_takeCell h1
      unfold maxLen at hlen
      unfold u32Max
      omega
    | none =>
      obtain ⟨b₁, h1, hret⟩ := bind_eq_some_iff.1 hret
      obtain ⟨howned, hkeeps⟩ := h.extendHive hpos (by omega) h1
      obtain ⟨howned', hkeeps', hl⟩ := ih howned hret
      exact ⟨howned', hkeeps.trans hkeeps', hl⟩

end Owned

end HiveBuilder

end XenOS.Hive
