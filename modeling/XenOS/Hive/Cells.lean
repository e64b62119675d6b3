import Mathlib.Algebra.GroupWithZero.Nat
import XenOS.General.Tiles
import XenOS.Hive.Builder

/-! The layout of a hive. The search answers the first free cell that is large enough. A change
within one cell, or that splits it, keeps a layout. -/

namespace XenOS.Hive

open General
open List (mem_append mem_cons)

abbrev Cells := List (ℕ × ℤ)

abbrev Bins := List (ℕ × ℕ × Cells)

namespace HiveBuilder

variable {b b' : HiveBuilder} {bins : Bins} {cells : Cells} {c : ℕ × ℤ} {bin : ℕ × ℕ × Cells} {p e n offset requiredSize : ℕ}

theorem read_eq (h : offset + n ≤ b.len) : b.read offset n = some (leValue b.data offset n) := if_pos h

def cellSize (b : HiveBuilder) (offset : ℕ) : ℤ := signed32 (leValue b.data offset 4)

theorem readI32_eq (h : offset + 4 ≤ b.len) : b.readI32 offset = some (b.cellSize offset) := by
  rw [readI32, read_eq h]
  rfl

theorem cellSize_congr (h : ∀ j, offset ≤ j → j < offset + 4 → b'.data j = b.data j) : b'.cellSize offset = b.cellSize offset := by
  rw [cellSize, cellSize, leValue_congr h]

theorem signed32_wrap {v : ℤ} (hlow : -2 ^ 31 ≤ v) (hhigh : v < 2 ^ 31) : signed32 ((v % 2 ^ 32).toNat % 256 ^ 4) = v := by
  unfold signed32
  split <;> omega

theorem signed32_lt {v : ℕ} (h : v < 2 ^ 32) : -2 ^ 31 ≤ signed32 v ∧ signed32 v < 2 ^ 31 := by
  unfold signed32
  split <;> omega

theorem write_eq_some {v : ℕ} (h : b.write offset n v = some b') :
    offset + n ≤ b.len ∧ b' = { b with data := leWrite b.data offset n v } := by
  unfold write at h
  split_ifs at h with hle
  exact ⟨hle, (Option.some.inj h).symm⟩

theorem write_eq (h : offset + n ≤ b.len) (v : ℕ) : b.write offset n v = some { b with data := leWrite b.data offset n v } :=
  if_pos h

theorem cellSize_writeI32 {v : ℤ} (h : b.writeI32 offset v = some b') (hlow : -2 ^ 31 ≤ v) (hhigh : v < 2 ^ 31) :
    b'.cellSize offset = v := by
  obtain ⟨-, rfl⟩ := write_eq_some h
  rw [cellSize, leValue_leWrite, signed32_wrap hlow hhigh]

/-- The buffer changes only inside a range. -/
structure Within (b b' : HiveBuilder) (p e : ℕ) : Prop where
  len : b'.len = b.len
  data : ∀ j, j < p ∨ e ≤ j → b'.data j = b.data j

theorem Within.refl : Within b b p e := ⟨rfl, fun _ _ => rfl⟩

theorem Within.trans {b'' : HiveBuilder} (h : Within b b' p e) (h' : Within b' b'' p e) : Within b b'' p e :=
  ⟨h'.len.trans h.len, fun j hj => (h'.data j hj).trans (h.data j hj)⟩

theorem Within.mono {p' e' : ℕ} (h : Within b b' p e) (hp : p' ≤ p) (he : e ≤ e') : Within b b' p' e' :=
  ⟨h.len, fun j hj => h.data j (by omega)⟩

theorem within_write {v : ℕ} (h : b.write offset n v = some b') : Within b b' offset (offset + n) := by
  obtain ⟨-, rfl⟩ := write_eq_some h
  exact ⟨rfl, fun j hj => leWrite_of_notMem (by omega)⟩

def totalWidth (fields : List (ℕ × ℕ)) : ℕ := (fields.map Prod.fst).sum

theorem within_writeFields {fields : List (ℕ × ℕ)} (h : b.writeFields offset fields = some b') :
    Within b b' offset (offset + totalWidth fields) := by
  induction fields generalizing b offset with
  | nil => cases h; exact Within.refl
  | cons field fields ih =>
    obtain ⟨n, v⟩ := field
    obtain ⟨b₁, h1, h2⟩ := Option.bind_eq_some_iff.1 h
    have hsum : totalWidth ((n, v) :: fields) = n + totalWidth fields := by simp [totalWidth]
    rw [hsum]
    exact ((within_write h1).mono (Nat.le_refl _) (by omega)).trans ((ih h2).mono (by omega) (by omega))

theorem within_copyFromSlice {bytes : List UInt8} (h : b.copyFromSlice offset bytes = some b') :
    Within b b' offset (offset + bytes.length) := by
  have hwithin := within_writeFields h
  have hwidth : totalWidth (bytes.map fun byte => (1, byte.toNat)) = bytes.length := by
    simp [totalWidth, Function.comp_def]
  rwa [hwidth] at hwithin

/-- A number that a cell can start with. -/
def ValidSize (size : ℤ) : Prop := size ≠ 0 ∧ size.natAbs % 8 = 0 ∧ size.natAbs < 2 ^ 31

structure Layout (b : HiveBuilder) (bins : Bins) : Prop where
  tiles : LaidOut Prod.fst hiveBaseBlockSize bins b.len
  signature : ∀ bin ∈ bins, leValue b.data bin.1 4 = binSignature
  binSize : ∀ bin ∈ bins, leValue b.data (bin.1 + 8) 4 = bin.2.1
  cells : ∀ bin ∈ bins, LaidOut Int.natAbs (bin.1 + binHeaderSize) bin.2.2 (bin.1 + bin.2.1)
  sizes : ∀ bin ∈ bins, ∀ c ∈ bin.2.2, ValidSize c.2 ∧ b.cellSize c.1 = c.2

def HasCell (bins : Bins) (c : ℕ × ℤ) : Prop := ∃ bin ∈ bins, c ∈ bin.2.2

theorem HasCell.of_append {bins' : Bins} (h : HasCell (bins ++ bins') c) : HasCell bins c ∨ HasCell bins' c := by
  obtain ⟨bin, hbin, hc⟩ := h
  rcases mem_append.1 hbin with hbin | hbin
  · exact Or.inl ⟨bin, hbin, hc⟩
  · exact Or.inr ⟨bin, hbin, hc⟩

namespace Layout

theorem bounds (h : b.Layout bins) (hc : HasCell bins c) : hiveBaseBlockSize + binHeaderSize ≤ c.1 ∧
    c.1 + c.2.natAbs ≤ b.len ∧ 8 ≤ c.2.natAbs := by
  obtain ⟨bin, hbin, hc⟩ := hc
  have h1 := h.tiles.bounds hbin
  have h2 := (h.cells bin hbin).bounds hc
  obtain ⟨⟨hne, hmod, -⟩, -⟩ := h.sizes bin hbin c hc
  omega

theorem eq_or_apart (h : b.Layout bins) {c' : ℕ × ℤ} (hc : HasCell bins c) (hc' : HasCell bins c') :
    c = c' ∨ c.1 + c.2.natAbs ≤ c'.1 ∨ c'.1 + c'.2.natAbs ≤ c.1 := by
  obtain ⟨bin, hbin, hc⟩ := hc
  obtain ⟨bin', hbin', hc'⟩ := hc'
  have hin := (h.cells bin hbin).bounds hc
  have hin' := (h.cells bin' hbin').bounds hc'
  rcases h.tiles.eq_or_apart hbin hbin' with rfl | hapart
  · exact (h.cells bin hbin).eq_or_apart hc hc'
  · refine Or.inr ?_
    omega

theorem eq_of_start (h : b.Layout bins) {c' : ℕ × ℤ} (hc : HasCell bins c) (hc' : HasCell bins c') (heq : c.1 = c'.1) : c = c' := by
  have := (h.bounds hc).2.2
  have := (h.bounds hc').2.2
  exact (h.eq_or_apart hc hc').resolve_right (by omega)

theorem header_kept (h : b.Layout bins) (hc : HasCell bins c) (hsame : Within b b' c.1 (c.1 + c.2.natAbs)) (hbin : bin ∈ bins) :
    ∀ j, bin.1 ≤ j → j < bin.1 + 32 → b'.data j = b.data j := by
  intro j hlow hhigh
  obtain ⟨bin', hbin', hmem⟩ := hc
  have hin := (h.cells bin' hbin').bounds hmem
  simp only [binHeaderSize] at hin
  have hsize : bin.1 + 32 ≤ bin.1 + bin.2.1 := (h.cells bin hbin).le
  refine hsame.data j ?_
  rcases h.tiles.eq_or_apart hbin hbin' with rfl | hapart
  · omega
  · omega

theorem replace {bl br : Bins} {q s : ℕ} {l r xs : Cells} (h : b.Layout (bl ++ (q, s, l ++ c :: r) :: br))
    (hsame : Within b b' c.1 (c.1 + c.2.natAbs)) (hxs : LaidOut Int.natAbs c.1 xs (c.1 + c.2.natAbs))
    (hsizes : ∀ x ∈ xs, ValidSize x.2 ∧ b'.cellSize x.1 = x.2) : b'.Layout (bl ++ (q, s, l ++ xs ++ r) :: br) := by
  have hmid : (q, s, l ++ c :: r) ∈ bl ++ (q, s, l ++ c :: r) :: br := by simp
  have hc : HasCell (bl ++ (q, s, l ++ c :: r) :: br) c := ⟨_, hmid, by simp⟩
  have htiles := h.cells _ hmid
  have hin := htiles.bounds (x := c) (by simp)
  simp only [binHeaderSize] at hin
  -- a bin keeps its place, its size and its header
  have hold : ∀ bin ∈ bl ++ (q, s, l ++ xs ++ r) :: br, ∃ bin' ∈ bl ++ (q, s, l ++ c :: r) :: br,
      bin'.1 = bin.1 ∧ bin'.2.1 = bin.2.1 := by
    intro bin hbin
    rcases mem_append.1 hbin with hbin | hbin
    · exact ⟨bin, by simp [hbin], rfl, rfl⟩
    rcases mem_cons.1 hbin with rfl | hbin
    · exact ⟨_, hmid, rfl, rfl⟩
    · exact ⟨bin, by simp [hbin], rfl, rfl⟩
  have hheader : ∀ bin ∈ bl ++ (q, s, l ++ c :: r) :: br, ∀ j, bin.1 ≤ j → j < bin.1 + 32 → b'.data j = b.data j :=
    fun _ hbin => h.header_kept hc hsame hbin
  -- so does a cell other than the one replaced
  have hother : ∀ x, HasCell (bl ++ (q, s, l ++ c :: r) :: br) x → x ≠ c → ValidSize x.2 ∧ b'.cellSize x.1 = x.2 := by
    intro x hx hne
    obtain ⟨bin, hbin, hmem⟩ := hx
    obtain ⟨hvalid, hsize⟩ := h.sizes bin hbin x hmem
    refine ⟨hvalid, ?_⟩
    rw [← hsize]
    have hbounds := h.bounds ⟨bin, hbin, hmem⟩
    have hapart := (h.eq_or_apart ⟨bin, hbin, hmem⟩ hc).resolve_left hne
    exact cellSize_congr fun j hlow hhigh => hsame.data j (by omega)
  have hapartc : ∀ x, HasCell (bl ++ (q, s, l ++ c :: r) :: br) x → x.1 ≠ c.1 → x ≠ c := fun x _ hne e => hne (by rw [e])
  constructor
  · rw [hsame.len]
    obtain ⟨m, hl, hq, hr⟩ := LaidOut.append.1 h.tiles
    exact LaidOut.append.2 ⟨m, hl, hq, hr⟩
  · intro bin hbin
    obtain ⟨bin', hbin', heq, -⟩ := hold bin hbin
    rw [← heq, ← h.signature bin' hbin']
    exact leValue_congr fun j hlow hhigh => hheader bin' hbin' j hlow (by omega)
  · intro bin hbin
    obtain ⟨bin', hbin', heq, hsize⟩ := hold bin hbin
    rw [← heq, ← hsize, ← h.binSize bin' hbin']
    exact leValue_congr fun j hlow hhigh => hheader bin' hbin' j (by omega) (by omega)
  · intro bin hbin
    rcases mem_append.1 hbin with hbin | hbin
    · exact h.cells bin (by simp [hbin])
    rcases mem_cons.1 hbin with rfl | hbin
    · exact htiles.replace hxs
    · exact h.cells bin (by simp [hbin])
  · intro bin hbin x hx
    by_cases hnew : x ∈ xs
    · exact hsizes x hnew
    · have hcpos := (h.bounds hc).2.2
      have hx' : HasCell (bl ++ (q, s, l ++ c :: r) :: br) x ∧ x.1 ≠ c.1 := by
        rcases mem_append.1 hbin with hbin | hbin
        · have hmem : bin ∈ bl ++ (q, s, l ++ c :: r) :: br := by simp [hbin]
          have hbefore : bin.1 + bin.2.1 ≤ q := (h.tiles.split.1.bounds hbin).2
          have hxpos := (h.bounds ⟨bin, hmem, hx⟩).2.2
          have hxin := ((h.cells bin hmem).bounds hx).2
          exact ⟨⟨bin, hmem, hx⟩, by omega⟩
        rcases mem_cons.1 hbin with rfl | hbin
        · rcases mem_append.1 hx with hx | hx
          · have hxl : x ∈ l := (mem_append.1 hx).resolve_right hnew
            have hcell : HasCell (bl ++ (q, s, l ++ c :: r) :: br) x := ⟨_, hmid, by simp [hxl]⟩
            have hxin := (htiles.split.1.bounds hxl).2
            have hxpos := (h.bounds hcell).2.2
            exact ⟨hcell, by omega⟩
          · have hxin := (htiles.split.2.bounds hx).1
            exact ⟨⟨_, hmid, by simp [hx]⟩, by omega⟩
        · have hmem : bin ∈ bl ++ (q, s, l ++ c :: r) :: br := by simp [hbin]
          have hbehind : q + s ≤ bin.1 := (h.tiles.split.2.bounds hbin).1
          have hxin := ((h.cells bin hmem).bounds hx).1
          exact ⟨⟨bin, hmem, hx⟩, by omega⟩
      exact hother x hx'.1 (hapartc x hx'.1 hx'.2)

theorem hasCell_replace {bl br : Bins} {q s : ℕ} {l r xs : Cells} {x : ℕ × ℤ} :
    HasCell (bl ++ (q, s, l ++ xs ++ r) :: br) x ↔ HasCell (bl ++ br) x ∨ x ∈ l ∨ x ∈ xs ∨ x ∈ r := by
  simp only [HasCell, mem_append, mem_cons]
  constructor
  · rintro ⟨bin, hbin | rfl | hbin, hx⟩
    · exact Or.inl ⟨bin, Or.inl hbin, hx⟩
    · simp only [mem_append] at hx
      tauto
    · exact Or.inl ⟨bin, Or.inr hbin, hx⟩
  · rintro (⟨bin, hbin | hbin, hx⟩ | hx)
    · exact ⟨bin, Or.inl hbin, hx⟩
    · exact ⟨bin, Or.inr (Or.inr hbin), hx⟩
    · exact ⟨_, Or.inr (Or.inl rfl), by simpa [or_assoc] using hx⟩

theorem exists_replace (h : b.Layout bins) (hc : HasCell bins c) (xs : Cells)
    (hsame : Within b b' c.1 (c.1 + c.2.natAbs)) (hxs : LaidOut Int.natAbs c.1 xs (c.1 + c.2.natAbs))
    (hsizes : ∀ x ∈ xs, ValidSize x.2 ∧ b'.cellSize x.1 = x.2) :
    ∃ bins', b'.Layout bins' ∧ (∀ x ∈ xs, HasCell bins' x) ∧ (∀ x, HasCell bins x → x ≠ c → HasCell bins' x) ∧
      ∀ bin' ∈ bins', ∃ bin ∈ bins, bin.1 = bin'.1 ∧ bin.2.1 = bin'.2.1 := by
  obtain ⟨⟨q, s, cells⟩, hbin, hmem⟩ := hc
  obtain ⟨bl, br, rfl⟩ := List.append_of_mem hbin
  obtain ⟨l, r, rfl⟩ := List.append_of_mem hmem
  refine ⟨_, h.replace hsame hxs hsizes, fun x hx => hasCell_replace.2 (by tauto), fun x hx hne => hasCell_replace.2 ?_, ?_⟩
  · rw [show l ++ c :: r = l ++ [c] ++ r by simp, hasCell_replace] at hx
    simp only [List.mem_singleton] at hx
    tauto
  · intro bin' hbin'
    rcases mem_append.1 hbin' with hbin' | hbin'
    · exact ⟨bin', by simp [hbin'], rfl, rfl⟩
    rcases mem_cons.1 hbin' with rfl | hbin'
    · exact ⟨_, hbin, rfl, rfl⟩
    · exact ⟨bin', by simp [hbin'], rfl, rfl⟩

end Layout

/-- A layout whose bins are whole pages and say where they lie, under a base block that says how much
lies behind it. -/
structure Headed (b : HiveBuilder) (bins : Bins) : Prop extends b.Layout bins where
  dataSize : leValue b.data 40 4 = (b.len - hiveBaseBlockSize) % 2 ^ 32
  clusteringFactor : leValue b.data 44 4 = 1
  binOffset : ∀ bin ∈ bins, leValue b.data (bin.1 + 4) 4 = (bin.1 - hiveBaseBlockSize) % 2 ^ 32
  pages : ∀ bin ∈ bins, bin.2.1 % defaultBinSize = 0

theorem Headed.exists_replace (h : b.Headed bins) (hc : HasCell bins c) (xs : Cells)
    (hsame : Within b b' c.1 (c.1 + c.2.natAbs)) (hxs : LaidOut Int.natAbs c.1 xs (c.1 + c.2.natAbs))
    (hsizes : ∀ x ∈ xs, ValidSize x.2 ∧ b'.cellSize x.1 = x.2) :
    ∃ bins', b'.Headed bins' ∧ (∀ x ∈ xs, HasCell bins' x) ∧ ∀ x, HasCell bins x → x ≠ c → HasCell bins' x := by
  have hlayout := h.toLayout
  have hbase := (hlayout.bounds hc).1
  unfold hiveBaseBlockSize at hbase
  obtain ⟨bins', hlayout', hnew, hold, hbins⟩ := hlayout.exists_replace hc xs hsame hxs hsizes
  refine ⟨bins', ⟨hlayout', ?_, ?_, fun bin' hbin' => ?_, fun bin' hbin' => ?_⟩, hnew, hold⟩
  · rw [hsame.len, ← h.dataSize]
    exact leValue_congr fun j _ hhigh => hsame.data j (by omega)
  · rw [← h.clusteringFactor]
    exact leValue_congr fun j _ hhigh => hsame.data j (by omega)
  · obtain ⟨bin, hbin, hstart, -⟩ := hbins bin' hbin'
    rw [← hstart, ← h.binOffset bin hbin]
    exact leValue_congr fun j hlow hhigh => hlayout.header_kept hc hsame hbin j (by omega) (by omega)
  · obtain ⟨bin, hbin, -, hsize⟩ := hbins bin' hbin'
    rw [← hsize]
    exact h.pages bin hbin

namespace Layout

theorem searchCells_spec (hlen : e ≤ b.len) (hreq : 0 < requiredSize) {fuel : ℕ} (htiles : LaidOut Int.natAbs p cells e)
    (hsizes : ∀ c ∈ cells, ValidSize c.2 ∧ b.cellSize c.1 = c.2) (hfuel : cells.length < fuel) :
    (∃ c ∈ cells, (requiredSize : ℤ) ≤ c.2 ∧ b.searchCells requiredSize e fuel p = some (some (c.1, c.2.natAbs))) ∨
      (∀ c ∈ cells, ¬ (requiredSize : ℤ) ≤ c.2) ∧ b.searchCells requiredSize e fuel p = some none := by
  induction cells generalizing p fuel with
  | nil =>
    obtain ⟨fuel, rfl⟩ := Nat.exists_eq_add_one.2 hfuel
    refine Or.inr ⟨fun c hc => (by cases hc), if_neg ?_⟩
    have : p = e := htiles
    omega
  | cons c cells ih =>
    obtain ⟨fuel, rfl⟩ := Nat.exists_eq_add_one.2 (Nat.zero_lt_of_lt hfuel)
    obtain ⟨⟨hne, hmod, -⟩, hsize⟩ := hsizes c (by simp)
    have hle := (htiles.bounds (x := c) (by simp)).2
    obtain ⟨rfl, hrest⟩ := htiles
    rw [searchCells, if_pos ⟨by omega, by omega⟩, readI32_eq (by omega), hsize]
    simp only [Option.bind_eq_bind, Option.bind_some, if_neg hne]
    by_cases hfits : (requiredSize : ℤ) ≤ c.2
    · exact Or.inl ⟨c, by simp, hfits, if_pos ⟨by omega, by omega⟩⟩
    · rw [if_neg (by omega)]
      rcases ih hrest (fun x hx => hsizes x (by simp [hx])) (by simpa using hfuel) with ⟨x, hx, hxfits, hret⟩ | ⟨hnone, hret⟩
      · exact Or.inl ⟨x, by simp [hx], hxfits, hret⟩
      · refine Or.inr ⟨fun x hx => ?_, hret⟩
        rcases mem_cons.1 hx with rfl | hx
        · exact hfits
        · exact hnone x hx

theorem searchBins_spec (hreq : 0 < requiredSize) {fuel : ℕ} (htiles : LaidOut Prod.fst p bins b.len)
    (hsignature : ∀ bin ∈ bins, leValue b.data bin.1 4 = binSignature)
    (hbinSize : ∀ bin ∈ bins, leValue b.data (bin.1 + 8) 4 = bin.2.1)
    (hcells : ∀ bin ∈ bins, LaidOut Int.natAbs (bin.1 + binHeaderSize) bin.2.2 (bin.1 + bin.2.1))
    (hsizes : ∀ bin ∈ bins, ∀ c ∈ bin.2.2, ValidSize c.2 ∧ b.cellSize c.1 = c.2) (hfuel : bins.length < fuel) :
    (∃ c, HasCell bins c ∧ (requiredSize : ℤ) ≤ c.2 ∧ b.searchBins requiredSize fuel p = some (some (c.1, c.2.natAbs))) ∨
      (∀ c, HasCell bins c → ¬ (requiredSize : ℤ) ≤ c.2) ∧ b.searchBins requiredSize fuel p = some none := by
  induction bins generalizing p fuel with
  | nil =>
    obtain ⟨fuel, rfl⟩ := Nat.exists_eq_add_one.2 hfuel
    refine Or.inr ⟨fun c ⟨bin, hbin, _⟩ => (by cases hbin), if_neg ?_⟩
    have : p = b.len := htiles
    omega
  | cons bin bins ih =>
    obtain ⟨fuel, rfl⟩ := Nat.exists_eq_add_one.2 (Nat.zero_lt_of_lt hfuel)
    have hle := (htiles.bounds (x := bin) (by simp)).2
    obtain ⟨rfl, hrest⟩ := htiles
    have hbin := hcells bin (by simp)
    have hheader : bin.1 + 32 ≤ bin.1 + bin.2.1 := hbin.le
    have hcount : bin.2.2.length < b.len + 1 := by
      have := hbin.length_le fun c hc => by
        have := (hsizes bin (by simp) c hc).1.1
        omega
      omega
    rw [searchBins, if_pos (by omega)]
    simp only [readU32, read_eq (show bin.1 + 4 ≤ b.len by omega), read_eq (show bin.1 + 8 + 4 ≤ b.len by omega),
      hsignature bin (by simp), hbinSize bin (by simp), Option.bind_eq_bind, Option.bind_some, ne_eq, not_true_eq_false,
      if_false, Option.pure_def]
    rcases searchCells_spec (by omega) hreq hbin (hsizes bin (by simp)) hcount with ⟨c, hc, hfits, hret⟩ | ⟨hnone, hret⟩
    · rw [hret]
      exact Or.inl ⟨c, ⟨bin, by simp, hc⟩, hfits, rfl⟩
    · rw [hret]
      rcases ih hrest (fun x hx => hsignature x (by simp [hx])) (fun x hx => hbinSize x (by simp [hx]))
        (fun x hx => hcells x (by simp [hx])) (fun x hx => hsizes x (by simp [hx])) (by simpa using hfuel) with
        ⟨c, ⟨bin', hbin', hc⟩, hfits, hret'⟩ | ⟨hnone', hret'⟩
      · exact Or.inl ⟨c, ⟨bin', by simp [hbin'], hc⟩, hfits, hret'⟩
      · refine Or.inr ⟨?_, hret'⟩
        rintro c ⟨bin', hbin', hc⟩
        rcases mem_cons.1 hbin' with rfl | hbin'
        · exact hnone c hc
        · exact hnone' c ⟨bin', hbin', hc⟩

theorem findCell_spec (h : b.Layout bins) (hreq : 0 < requiredSize) :
    (∃ c, HasCell bins c ∧ (requiredSize : ℤ) ≤ c.2 ∧ b.findCell requiredSize = some (some (c.1, c.2.natAbs))) ∨
      (∀ c, HasCell bins c → ¬ (requiredSize : ℤ) ≤ c.2) ∧ b.findCell requiredSize = some none := by
  refine searchBins_spec hreq h.tiles h.signature h.binSize h.cells h.sizes ?_
  have := h.tiles.length_le fun bin hbin => by
    have : bin.1 + 32 ≤ bin.1 + bin.2.1 := (h.cells bin hbin).le
    omega
  omega

end Layout

end HiveBuilder

end XenOS.Hive
