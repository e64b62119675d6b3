import Mathlib.Data.List.GetD
import Mathlib.Data.List.TakeWhile
import XenOS.Fat.DirectorySpec
import XenOS.Fat.Paths

/-! When a created file is found by its path. The search splits a name at its last dot and turns it
to upper case; the creation stores its characters as they are, without the first if there is no
backslash. -/

namespace XenOS.Fat

open FatVolume List Nat

/-- The characters of 8.3 names, in either case. -/
def NameChar (c : UInt8) : Prop := 32 < c ∧ c < 127 ∧ c ∉ ([34, 42, 43, 44, 46, 47, 58, 59, 60, 61, 62, 63, 91, 92, 93, 124] : List UInt8)

structure Name83 where
  base : List UInt8
  ext : List UInt8
  pos : base ≠ []
  base_le : base.length ≤ 8
  ext_le : ext.length ≤ 3
  chars : ∀ c ∈ base ++ ext, NameChar c

namespace Name83

variable (n : Name83)

def bytes : List UInt8 := if n.ext = [] then n.base else n.base ++ 46 :: n.ext

def text : List UInt16 := n.bytes.map UInt8.toUInt16

def upper : List UInt8 × List UInt8 := (n.base.map toUpper, n.ext.map toUpper)

def short : ShortName := padded (n.base, n.ext)

end Name83

def pathOf (lead : Bool) (init : List Name83) (last : Name83) : List UInt16 :=
  (if lead then [backslash] else []) ++ init.flatMap (fun n => n.text ++ [backslash]) ++ last.text

variable {v w : FatVolume} {lead : Bool} {init init' : List Name83} {last last' a b : Name83} {fcb : Fcb}

/-! ### Characters and names -/

variable {c : UInt8}

theorem toUpper_spec (h : NameChar c) :
    toUpper c ≠ 32 ∧ toUpper c ≠ 46 ∧ toUpper (toUpper c) = toUpper c ∧ toUpper c ≠ 0 ∧ toUpper c ≠ 0xE5 := by
  obtain ⟨hlow, hhigh, hnot⟩ := h
  have hdot : c ≠ 46 := fun heq => hnot (by rw [heq]; decide)
  unfold toUpper
  by_cases hc : 97 ≤ c ∧ c ≤ 122
  · have hle : 97 ≤ c.toNat := hc.1
    have hge : c.toNat ≤ 122 := hc.2
    have hsub : (c - 32).toNat = c.toNat - 32 := UInt8.toNat_sub_of_le c 32 (le_trans (by decide) hle)
    have hne : ∀ k : UInt8, k.toNat < 65 ∨ 90 < k.toNat → c - 32 ≠ k := fun k hk heq => by
      rw [← heq, hsub] at hk
      omega
    rw [if_pos hc, if_neg fun h => absurd (show 97 ≤ (c - 32).toNat from h.1) (by rw [hsub]; omega)]
    exact ⟨hne 32 (by decide), hne 46 (by decide), rfl, hne 0 (by decide), hne 0xE5 (by decide)⟩
  · rw [if_neg hc, if_neg hc]
    exact ⟨fun h => absurd hlow (by rw [h]; decide), hdot, rfl, fun h => absurd hlow (by rw [h]; decide), fun h => absurd hhigh (by rw [h]; decide)⟩

theorem NameChar.ascii (h : NameChar c) : c ≠ 0 ∧ c < 128 ∧ c ≠ 46 ∧ c ≠ 92 := by
  obtain ⟨hlow, hhigh, hnot⟩ := h
  refine ⟨fun h => absurd hlow (by rw [h]; decide), UInt8.lt_trans hhigh (by decide), fun h => hnot (by rw [h]; decide), fun h => hnot (by rw [h]; decide)⟩

theorem Name83.base_char (n : Name83) (h : c ∈ n.base) : NameChar c := n.chars c (mem_append_left _ h)

theorem Name83.ext_char (n : Name83) (h : c ∈ n.ext) : NameChar c := n.chars c (mem_append_right _ h)

theorem Name83.byte_ascii (n : Name83) (h : c ∈ n.bytes) : c ≠ 0 ∧ c < 128 ∧ c ≠ 92 := by
  have hchar : ∀ c ∈ n.base ++ n.ext, c ≠ 0 ∧ c < 128 ∧ c ≠ 92 := fun c hc =>
    ⟨(n.chars c hc).ascii.1, (n.chars c hc).ascii.2.1, (n.chars c hc).ascii.2.2.2⟩
  unfold Name83.bytes at h
  split_ifs at h
  · exact hchar c (mem_append_left _ h)
  · rcases mem_append.1 h with h | h
    · exact hchar c (mem_append_left _ h)
    · rcases mem_cons.1 h with rfl | h
      · decide
      · exact hchar c (mem_append_right _ h)

theorem Name83.bytes_ne_nil (n : Name83) : n.bytes ≠ [] := by
  unfold Name83.bytes
  split_ifs
  · exact n.pos
  · simp

variable {α : Type*}

theorem lastIndex_of_notMem [DecidableEq α] {c : α} {s : List α} (h : c ∉ s) : lastIndex c s = none := by
  induction s with
  | nil => rfl
  | cons x xs ih => rw [lastIndex, ih fun hmem => h (mem_cons_of_mem x hmem), if_neg fun hx => h (by rw [hx]; exact mem_cons_self)]

theorem lastIndex_append [DecidableEq α] {c : α} {s : List α} (r : List α) (h : c ∉ s) :
    lastIndex c (r ++ c :: s) = some r.length := by
  induction r with
  | nil => rw [nil_append, lastIndex, lastIndex_of_notMem h, if_pos rfl]; rfl
  | cons x xs ih => rw [cons_append, lastIndex, ih]; rfl

theorem baseAndExt_bytes (n : Name83) : baseAndExt n.bytes = (n.base, n.ext) := by
  unfold baseAndExt Name83.bytes
  by_cases hext : n.ext = []
  · rw [if_pos hext, lastIndex_of_notMem fun h => (n.base_char h).ascii.2.2.1 rfl, hext]
  · rw [if_neg hext, lastIndex_append n.base fun h => (n.ext_char h).ascii.2.2.1 rfl]
    simp

theorem unicodeComponentTo83_text (n : Name83) : unicodeComponentTo83 n.text = some n.short := by
  have hlen : n.bytes.length ≤ 12 := by
    have := n.base_le
    have := n.ext_le
    unfold Name83.bytes
    split_ifs <;> simp <;> omega
  have hread : (n.text.takeWhile (· ≠ 0)).take 255 = n.text := by
    rw [takeWhile_eq_self_iff.2 fun c hc => ?_, take_of_length_le (by simp [Name83.text]; omega)]
    obtain ⟨x, hx, rfl⟩ := mem_map.1 hc
    have hne := (n.byte_ascii hx).1
    simpa [← UInt8.toNat_inj, ← UInt16.toNat_inj] using hne
  have hback : n.text.map UInt16.toUInt8 = n.bytes := by simp [Name83.text, Function.comp_def]
  have hconvert : convertTo83Name n.bytes = some n.short := by
    rw [convertTo83Name, baseAndExt_bytes, if_neg (not_or.2 ⟨not_lt.2 n.base_le, not_lt.2 n.ext_le⟩)]
    rfl
  simp only [unicodeComponentTo83, hread, hback, hconvert]
  refine if_neg (not_or.2 ⟨?_, fun h => n.bytes_ne_nil (map_eq_nil_iff.1 h)⟩)
  rintro ⟨c, hc, hlt⟩
  obtain ⟨x, hx, rfl⟩ := mem_map.1 hc
  exact hlt (n.byte_ascii hx).2.1

theorem getD_short (n : Name83) (i : Fin 11) : n.short i = if i.val < 8 then n.upper.1.getD i 32 else n.upper.2.getD (i - 8) 32 := rfl

theorem eq_of_getD {l l' : List UInt8} {k : ℕ} (hl : l.length ≤ k) (hl' : l'.length ≤ k) (h32 : 32 ∉ l) (h32' : 32 ∉ l')
    (h : ∀ i < k, l.getD i 32 = l'.getD i 32) : l = l' := by
  have hlt : ∀ {l l' : List UInt8}, l'.length ≤ k → 32 ∉ l' → (∀ i < k, l.getD i 32 = l'.getD i 32) → l'.length ≤ l.length := by
    intro l l' hl' h32' h
    by_contra hlt
    have hi : l.length < l'.length := not_le.1 hlt
    have heq := h l.length (lt_of_lt_of_le hi hl')
    rw [getD_eq_default _ _ (le_refl _), getD_eq_getElem _ _ hi] at heq
    exact h32' (by rw [heq]; exact getElem_mem hi)
  have hlen : l.length = l'.length := le_antisymm (hlt hl h32 fun i hi => (h i hi).symm) (hlt hl' h32' h)
  refine ext_getElem hlen fun i hi hi' => ?_
  have heq := h i (lt_of_lt_of_le hi hl)
  rwa [getD_eq_getElem _ _ hi, getD_eq_getElem _ _ hi'] at heq

theorem namesMatch_short_iff : namesMatch a.short b.short = true ↔ a.upper = b.upper := by
  have hupper : ∀ n : Name83, (∀ c ∈ n.upper.1, c ≠ 32 ∧ toUpper c = c) ∧ ∀ c ∈ n.upper.2, c ≠ 32 ∧ toUpper c = c := by
    intro n
    constructor <;> intro c hc <;> obtain ⟨x, hx, rfl⟩ := mem_map.1 hc
    · exact ⟨(toUpper_spec (n.base_char hx)).1, (toUpper_spec (n.base_char hx)).2.2.1⟩
    · exact ⟨(toUpper_spec (n.ext_char hx)).1, (toUpper_spec (n.ext_char hx)).2.2.1⟩
  have hfixed : ∀ (n : Name83) i, toUpper (n.short i) = n.short i := by
    intro n i
    have hget : ∀ (l : List UInt8) (k : ℕ), (∀ c ∈ l, c ≠ 32 ∧ toUpper c = c) → toUpper (l.getD k 32) = l.getD k 32 := by
      intro l k hl
      rcases Nat.lt_or_ge k l.length with hk | hk
      · rw [getD_eq_getElem _ _ hk]
        exact (hl _ (getElem_mem hk)).2
      · rw [getD_eq_default _ _ hk]
        rfl
    rw [getD_short]
    split_ifs
    · exact hget _ _ (hupper n).1
    · exact hget _ _ (hupper n).2
  rw [namesMatch_iff]
  constructor
  · intro h
    have hsame : ∀ i, a.short i = b.short i := fun i => by rw [← hfixed a, ← hfixed b, h i]
    refine Prod.ext (eq_of_getD (k := 8) ?_ ?_ (fun h => ((hupper a).1 _ h).1 rfl) (fun h => ((hupper b).1 _ h).1 rfl) fun i hi => ?_)
      (eq_of_getD (k := 3) ?_ ?_ (fun h => ((hupper a).2 _ h).1 rfl) (fun h => ((hupper b).2 _ h).1 rfl) fun i hi => ?_)
    · simpa [Name83.upper] using a.base_le
    · simpa [Name83.upper] using b.base_le
    · have heq := hsame ⟨i, by omega⟩
      rwa [getD_short, getD_short, if_pos hi, if_pos hi] at heq
    · simpa [Name83.upper] using a.ext_le
    · simpa [Name83.upper] using b.ext_le
    · have heq := hsame ⟨i + 8, by omega⟩
      rwa [getD_short, getD_short, if_neg (by simp), if_neg (by simp), Nat.add_sub_cancel] at heq
  · intro h i
    rw [getD_short, getD_short, h]

/-! ### The stored name -/

theorem createdName_text {l : List UInt8} (h : ∀ c ∈ l, c ≠ 0 ∧ c < 128) (i : Fin 11) : createdName (l.map UInt8.toUInt16) i = l.getD i 32 := by
  have hfilter : (l.map UInt8.toUInt16).filter (fun c => c < 128 ∧ c ≠ 0) = l.map UInt8.toUInt16 := by
    refine filter_eq_self.2 fun c hc => ?_
    obtain ⟨x, hx, rfl⟩ := mem_map.1 hc
    have hne : x.toUInt16 ≠ 0 := by
      have hx0 := (h x hx).1
      simpa [← UInt8.toNat_inj, ← UInt16.toNat_inj] using hx0
    exact decide_eq_true ⟨(h x hx).2, hne⟩
  rw [createdName, hfilter, map_map]
  simp [Function.comp_def]

theorem createdName_eq_iff (n : Name83) : createdName n.text = n.short ↔ n.ext = [] ∧ n.base.map toUpper = n.base := by
  have hstored : ∀ i, createdName n.text i = n.bytes.getD i 32 :=
    createdName_text fun c hc => ⟨(n.byte_ascii hc).1, (n.byte_ascii hc).2.1⟩
  have hbase := n.base_le
  constructor
  · intro h
    have hsame : ∀ i : Fin 11, n.bytes.getD i 32 = n.short i := fun i => by rw [← hstored, h]
    have hext : n.ext = [] := by
      by_contra hext
      have hlt : n.base.length < 11 := by omega
      have heq := hsame ⟨n.base.length, hlt⟩
      rw [Name83.bytes, if_neg hext, getD_append_right _ _ _ _ (Nat.le_refl _), Nat.sub_self, getD_short] at heq
      replace heq : (46 : UInt8) = _ := heq
      split_ifs at heq with hcase
      · rw [getD_eq_default _ _ (by simp [Name83.upper])] at heq
        exact absurd heq (by decide)
      · obtain ⟨c, cs, hcs⟩ := exists_cons_of_ne_nil hext
        have hzero : n.base.length - 8 = 0 := by omega
        simp only [Name83.upper, hzero, hcs, map_cons, getD_cons_zero] at heq
        exact (toUpper_spec (n.ext_char (by rw [hcs]; exact mem_cons_self))).2.1 heq.symm
    refine ⟨hext, ext_getElem (length_map _) fun i hi hi' => ?_⟩
    have heq := hsame ⟨i, by omega⟩
    rw [Name83.bytes, if_pos hext, getD_short, if_pos (Nat.lt_of_lt_of_le hi' hbase)] at heq
    rw [getD_eq_getElem _ _ hi', show n.upper.1.getD i 32 = _ from getD_eq_getElem _ _ hi] at heq
    exact heq.symm
  · rintro ⟨hext, hupper⟩
    funext i
    rw [hstored, getD_short, Name83.bytes, if_pos hext]
    simp only [Name83.upper, hupper, hext]
    split_ifs with hi
    · rfl
    · rw [getD_eq_default _ _ (by omega)]
      rfl

theorem createdName_drop_ne (n : Name83) : createdName (n.text.drop 1) ≠ n.short := by
  intro h
  have hpos := length_pos_iff.2 n.pos
  have hbase := n.base_le
  have hlt : n.base.length - 1 < 8 := by omega
  have heq := congrFun h ⟨n.base.length - 1, by omega⟩
  have hi : n.base.length - 1 < (n.base.map toUpper).length := by
    rw [length_map]
    omega
  rw [Name83.text, ← map_drop, createdName_text fun c hc =>
    ⟨(n.byte_ascii (mem_of_mem_drop hc)).1, (n.byte_ascii (mem_of_mem_drop hc)).2.1⟩, getD_short, if_pos hlt] at heq
  rw [show n.upper.1.getD (n.base.length - 1) 32 = _ from getD_eq_getElem _ _ hi, getElem_map] at heq
  have hspec := toUpper_spec (n.base_char (getElem_mem (show n.base.length - 1 < n.base.length by omega)))
  have hread : (n.bytes.drop 1).getD (n.base.length - 1) 32 = n.bytes.getD n.base.length 32 := by
    simp only [getD_eq_getElem?_getD, getElem?_drop]
    congr 2
    omega
  rw [show (n.bytes.drop 1).getD (Fin.mk (n.base.length - 1) (by omega) : Fin 11).val 32 = _ from hread] at heq
  unfold Name83.bytes at heq
  split_ifs at heq
  · rw [getD_eq_default _ _ (Nat.le_refl _)] at heq
    exact hspec.1 heq.symm
  · rw [getD_append_right _ _ _ _ (Nat.le_refl _), Nat.sub_self] at heq
    exact hspec.2.1 heq.symm

/-! ### Paths -/

theorem text_no_separator (n : Name83) {c : UInt16} (h : c ∈ n.text) : (c == backslash || c == 0) = false := by
  obtain ⟨x, hx, rfl⟩ := mem_map.1 h
  obtain ⟨hzero, -, hslash⟩ := n.byte_ascii hx
  have h0 : x.toUInt16 ≠ 0 := by simpa [← UInt8.toNat_inj, ← UInt16.toNat_inj] using hzero
  have h92 : x.toUInt16 ≠ backslash := by simpa [backslash, ← UInt8.toNat_inj, ← UInt16.toNat_inj] using hslash
  simp [h0, h92]

theorem text_ne_nil (n : Name83) : n.text ≠ [] := fun h => n.bytes_ne_nil (map_eq_nil_iff.1 h)

theorem splitPath_pathOf : splitPath (pathOf lead init last) = ((init ++ [last]).map Name83.text).take 16 := by
  have hsplit : ∀ init : List Name83, (init.flatMap (fun n => n.text ++ [backslash]) ++ last.text).splitOnP (fun c => c == backslash || c == 0) =
      (init ++ [last]).map Name83.text := by
    intro init
    induction init with
    | nil => exact splitOnP_eq_singleton fun c hc => text_no_separator last hc
    | cons n init ih =>
      rw [flatMap_cons, append_assoc, append_assoc, singleton_append,
        splitOnP_append_cons_of_forall_mem (fun c hc => text_no_separator n hc) backslash (by decide), ih]
      rfl
  have hhead : ∀ init : List Name83, (init.flatMap (fun n => n.text ++ [backslash]) ++ last.text).head? ≠ some backslash := by
    intro init h
    have hfirst : ∀ (n : Name83) r, (n.text ++ r).head? ≠ some backslash := fun n r h => by
      rw [head?_append_of_ne_nil _ (text_ne_nil n)] at h
      have hsep := text_no_separator n (mem_of_mem_head? h)
      simp at hsep
    cases init with
    | nil => exact hfirst last [] (by simpa using h)
    | cons n init =>
      rw [flatMap_cons, append_assoc, append_assoc] at h
      exact hfirst n _ h
  have hpath : (if (pathOf lead init last).head? = some backslash then (pathOf lead init last).tail else pathOf lead init last) =
      init.flatMap (fun n => n.text ++ [backslash]) ++ last.text := by
    unfold pathOf
    cases lead with
    | true => simp
    | false =>
      simp only [Bool.false_eq_true, if_false, nil_append]
      exact if_neg (hhead init)
  rw [splitPath, hpath, hsplit, filter_eq_self.2]
  intro s hs
  obtain ⟨n, -, rfl⟩ := mem_map.1 hs
  exact decide_eq_true (text_ne_nil n)

/-- What is before the last component. -/
def front (lead : Bool) (init : List Name83) : List UInt16 := (if lead then [backslash] else []) ++ init.flatMap fun n => n.text ++ [backslash]

theorem front_concat (p : Name83) : front lead (init ++ [p]) = pathOf lead init p ++ [backslash] := by simp [front, pathOf]

theorem parentEnd_pathOf : parentEnd (pathOf lead init last) = (front lead init).length - 1 := by
  have hlast : backslash ∉ last.text := fun h => by simpa using text_no_separator last h
  have hconcat : ∀ r : List UInt16, parentEnd (r ++ [backslash] ++ last.text) = r.length := fun r => by
    rw [parentEnd, append_assoc, singleton_append, lastIndex_append r hlast]
    rfl
  change parentEnd (front lead init ++ last.text) = _
  rcases eq_nil_or_concat init with rfl | ⟨init, p, rfl⟩
  · cases lead with
    | true => exact hconcat []
    | false => exact congrArg (fun i : Option ℕ => i.getD 0) (lastIndex_of_notMem hlast)
  · rw [concat_eq_append, front_concat, hconcat]
    simp

theorem take_parentEnd (p : Name83) :
    parentEnd (pathOf lead (init ++ [p]) last) ≠ 0 ∧
      (pathOf lead (init ++ [p]) last).take (parentEnd (pathOf lead (init ++ [p]) last)) = pathOf lead init p := by
  have hpath : pathOf lead (init ++ [p]) last = pathOf lead init p ++ ([backslash] ++ last.text) := by
    rw [← append_assoc, ← front_concat]
    rfl
  have hend : parentEnd (pathOf lead (init ++ [p]) last) = (pathOf lead init p).length := by
    rw [parentEnd_pathOf, front_concat]
    simp
  have hpos : 0 < p.text.length := length_pos_iff.2 (text_ne_nil p)
  refine ⟨by rw [hend, pathOf, length_append]; omega, ?_⟩
  rw [hend, hpath, take_left]

theorem drop_parentEnd : (pathOf lead init last).drop (parentEnd (pathOf lead init last) + 1) =
    if lead = true ∨ init ≠ [] then last.text else last.text.drop 1 := by
  have hpath : pathOf lead init last = front lead init ++ last.text := rfl
  rw [parentEnd_pathOf, hpath]
  by_cases h : lead = true ∨ init ≠ []
  · have hpos : 0 < (front lead init).length := by
      rcases h with rfl | hne
      · simp [front]
      · obtain ⟨n, rest, rfl⟩ := exists_cons_of_ne_nil hne
        refine length_pos_iff.2 fun h => ?_
        rw [front, flatMap_cons] at h
        exact cons_ne_nil _ _ (append_eq_nil_iff.1 (append_eq_nil_iff.1 (append_eq_nil_iff.1 h).2).1).2
    rw [if_pos h, Nat.sub_add_cancel hpos, drop_left]
  · obtain ⟨hlead, hinit⟩ := not_or.1 h
    obtain rfl := not_not.1 hinit
    rw [if_neg h]
    simp [front, hlead]

/-! ### Directories along a path -/

namespace FatVolume

def walk (v : FatVolume) : List ShortName → ℕ → Option ℕ
  | [], c => some c
  | name :: names, c =>
    match v.fatFindFile c name with
    | some (.ok fcb) => if fcb.isDirectory ∧ 2 ≤ fcb.firstCluster then v.walk names fcb.firstCluster else none
    | _ => none

/-- The directories form a tree: each is well formed and shares no cluster with a deeper one. Names
with a dot in front lead back. -/
structure Consistent (v : FatVolume) : Prop where
  directory : ∀ names d, (∀ n ∈ names, n 0 ≠ 46) → v.walk names v.rootDirectoryCluster = some d → ∃ cs, v.WellFormed d cs
  apart : ∀ names names' d d' cs cs', (∀ n ∈ names, n 0 ≠ 46) → (∀ n ∈ names', n 0 ≠ 46) → names.length < names'.length →
    v.walk names v.rootDirectoryCluster = some d → v.walk names' v.rootDirectoryCluster = some d' → v.WellFormed d cs → v.WellFormed d' cs' →
    ∀ c ∈ cs, c ∉ cs'

end FatVolume

theorem findComponents_cons (n : Name83) (rest : List Name83) (c : ℕ) : v.findComponents ((n :: rest).map Name83.text) c =
    match v.fatFindFile c n.short with
    | none => none
    | some (.error status) => some (.error status)
    | some (.ok fcb) =>
      if rest = [] then some (.ok fcb)
      else if ¬ fcb.isDirectory ∨ fcb.firstCluster < 2 then some (.error .objectPathNotFound)
      else v.findComponents (rest.map Name83.text) fcb.firstCluster := by
  rw [map_cons, findComponents, unicodeComponentTo83_text]
  rcases hfound : v.fatFindFile c n.short with _ | _ | fcb <;> simp only [hfound, map_eq_nil_iff]

variable {d : ℕ}

theorem findComponents_walk {c : ℕ} (h : v.walk (init.map Name83.short) c = some d) :
    v.findComponents ((init ++ [last]).map Name83.text) c = v.fatFindFile d last.short := by
  induction init generalizing c with
  | nil =>
    obtain rfl := Option.some.inj h
    rw [nil_append, findComponents_cons]
    rcases v.fatFindFile c last.short with _ | _ | fcb
    · rfl
    · rfl
    · exact if_pos rfl
  | cons n init ih =>
    rw [cons_append, findComponents_cons]
    rw [map_cons, walk] at h
    rcases hfound : v.fatFindFile c n.short with _ | _ | fcb <;> rw [hfound] at h
    · cases h
    · cases h
    · obtain ⟨⟨hdir, hcluster⟩, h⟩ : (fcb.isDirectory = true ∧ 2 ≤ fcb.firstCluster) ∧ _ := by
        by_cases hcase : fcb.isDirectory = true ∧ 2 ≤ fcb.firstCluster
        · exact ⟨hcase, (if_pos hcase).symm.trans h⟩
        · cases (if_neg hcase).symm.trans h
      simp only [if_neg (show ¬ init ++ [last] = [] by simp), if_neg (not_or.2 ⟨not_not.2 hdir, not_lt.2 hcluster⟩)]
      exact ih h

theorem goes_on {r : Option (Except FatStatus Fcb)}
    (h : (if ¬ fcb.isDirectory = true ∨ fcb.firstCluster < 2 then some (.error .objectPathNotFound) else r) = some (.error .objectNameNotFound)) :
    (fcb.isDirectory = true ∧ 2 ≤ fcb.firstCluster) ∧ r = some (.error .objectNameNotFound) := by
  by_cases hcase : ¬ fcb.isDirectory = true ∨ fcb.firstCluster < 2
  · rw [if_pos hcase] at h
    cases h
  · rw [if_neg hcase] at h
    obtain ⟨hdir, hcluster⟩ := not_or.1 hcase
    exact ⟨⟨not_not.1 hdir, not_lt.1 hcluster⟩, h⟩

/-- Where a path leads to a file and nothing is behind it, what it leads to is a directory. -/
theorem walk_of_found {p : Name83} {c : ℕ} (hparent : v.findComponents ((init ++ [p]).map Name83.text) c = some (.ok fcb))
    (hnone : v.findComponents ((init ++ [p] ++ [last]).map Name83.text) c = some (.error .objectNameNotFound)) :
    v.walk ((init ++ [p]).map Name83.short) c = some fcb.firstCluster := by
  induction init generalizing c with
  | nil =>
    rw [nil_append, findComponents_cons] at hparent
    rw [nil_append, singleton_append, findComponents_cons] at hnone
    rw [nil_append, map_cons, walk]
    rcases hfound : v.fatFindFile c p.short with _ | _ | f <;> rw [hfound] at hparent hnone
    · cases hparent
    · cases hparent
    · obtain rfl := Except.ok.inj (Option.some.inj hparent)
      simp only [cons_ne_nil, if_false] at hnone
      exact if_pos (goes_on hnone).1
  | cons n init ih =>
    rw [cons_append, findComponents_cons] at hparent
    rw [cons_append, cons_append, findComponents_cons] at hnone
    rw [cons_append, map_cons, walk]
    rcases hfound : v.fatFindFile c n.short with _ | _ | f <;> rw [hfound] at hparent hnone
    · cases hparent
    · cases hparent
    · simp only [if_neg (show ¬ init ++ [p] = [] by simp)] at hparent
      simp only [if_neg (show ¬ init ++ [p] ++ [last] = [] by simp)] at hnone
      obtain ⟨hgo, hrest⟩ := goes_on hnone
      simp only [if_neg (not_or.2 ⟨not_not.2 hgo.1, not_lt.2 hgo.2⟩)] at hparent
      simp only [if_pos hgo]
      exact ih hparent hrest

theorem fatFindFileByPath_pathOf : v.fatFindFileByPath (pathOf lead init last) =
    v.findComponents (((init ++ [last]).take 16).map Name83.text) v.rootDirectoryCluster := by
  rw [fatFindFileByPath, splitPath_pathOf, ← map_take, if_neg fun h => ?_]
  have hlen := congrArg length h
  simp at hlen

/-! ### What a search finds -/

variable {name : ShortName}

theorem findFrom_found {fuel c : ℕ} {p : ℕ × ℕ} (h : v.findFrom name fuel c = some (.ok p)) :
    namesMatch (v.slots p.1 p.2).name name = true := by
  induction fuel generalizing c with
  | zero => cases h
  | succ fuel ih =>
    rw [findFrom] at h
    by_cases hvalid : ValidCluster c
    · rw [if_neg (not_not.2 hvalid)] at h
      rcases scan_spec (findAccepts name) (v.slots c) 0 v.entriesPerCluster with ⟨j, hfound, -, -, -, haccept, -⟩ | ⟨hthrough, -⟩ | ⟨-, hended, -⟩
      · rw [hfound] at h
        obtain rfl := Except.ok.inj (Option.some.inj h)
        exact (findAccepts_iff.1 haccept).2
      · rw [hthrough] at h
        by_cases hnext : ValidCluster (v.fat c)
        · exact ih ((if_pos hnext).symm.trans h)
        · cases (if_neg hnext).symm.trans h
      · rw [hended] at h
        cases h
    · rw [if_pos hvalid] at h
      cases h

theorem fatFindFile_found {c : ℕ} (h : v.fatFindFile c name = some (.ok fcb)) :
    namesMatch fcb.fileName name = true := by
  rw [fatFindFile] at h
  obtain ⟨found, hfound, h⟩ := Option.map_eq_some_iff.1 h
  cases found with
  | error status => cases h
  | ok p =>
    obtain rfl := Except.ok.inj h
    exact findFrom_found hfound

theorem findComponents_found {names : List Name83} {c : ℕ} (h : v.findComponents (names.map Name83.text) c = some (.ok fcb)) :
    ∃ n, names.getLast? = some n ∧ namesMatch fcb.fileName n.short = true := by
  induction names generalizing c with
  | nil => cases h
  | cons n rest ih =>
    rw [findComponents_cons] at h
    rcases hfound : v.fatFindFile c n.short with _ | _ | f <;> rw [hfound] at h
    · cases h
    · cases h
    · dsimp only at h
      split_ifs at h with hrest hgo
      · obtain rfl := Except.ok.inj (Option.some.inj h)
        exact ⟨n, by rw [hrest]; rfl, fatFindFile_found hfound⟩
      · cases h
      · obtain ⟨m, hm, hmatch⟩ := ih h
        exact ⟨m, by rw [getLast?_cons, hm]; rfl, hmatch⟩

/-- The component at which the search of a path ends: its 16th, where it has more. -/
def resolved (init : List Name83) (last : Name83) : Option Name83 := ((init ++ [last]).take 16).getLast?

theorem apart_iff {lead' : Bool} {f f' : Fcb} (h : v.fatFindFileByPath (pathOf lead init last) = some (.ok f))
    (h' : v.fatFindFileByPath (pathOf lead' init' last') = some (.ok f')) :
    (last.upper ≠ last'.upper → ¬ namesMatch f.fileName f'.fileName = true) ↔
      ((resolved init last).map Name83.upper = (resolved init' last').map Name83.upper → last.upper = last'.upper) := by
  rw [fatFindFileByPath_pathOf] at h h'
  obtain ⟨n, hn, hmatch⟩ := findComponents_found h
  obtain ⟨n', hn', hmatch'⟩ := findComponents_found h'
  have hiff : namesMatch f.fileName f'.fileName = true ↔ n.upper = n'.upper := by
    rw [← namesMatch_short_iff]
    exact ⟨fun h => namesMatch_trans (namesMatch_trans (namesMatch_symm hmatch) h) hmatch',
      fun h => namesMatch_trans (namesMatch_trans hmatch h) (namesMatch_symm hmatch')⟩
  rw [hiff, resolved, resolved, hn, hn', Option.map_some, Option.map_some, Option.some_inj, not_imp_not]

/-! ### Components that are no names -/

/-- ASCII, with at most 8 characters before the last dot and at most 3 behind it. -/
def Fits (s : List UInt16) : Prop :=
  s ≠ [] ∧ (∀ c ∈ s, c < 128) ∧
    match lastIndex 46 s with
    | some dot => dot ≤ 8 ∧ s.length - (dot + 1) ≤ 3
    | none => s.length ≤ 8

theorem lastIndex_lt [DecidableEq α] {c : α} {s : List α} {i : ℕ} (h : lastIndex c s = some i) :
    i < s.length := by
  induction s generalizing i with
  | nil => cases h
  | cons x xs ih =>
    rw [lastIndex] at h
    split at h
    · rename_i j hj
      obtain rfl := Option.some.inj h
      exact succ_lt_succ (ih hj)
    · split_ifs at h
      obtain rfl := Option.some.inj h
      exact succ_pos _

variable {s : List UInt16}

theorem lastIndex_map (h : ∀ c ∈ s, c < 128) : lastIndex 46 (s.map UInt16.toUInt8) = lastIndex 46 s := by
  induction s with
  | nil => rfl
  | cons x xs ih =>
    have hx : x.toNat < 128 := h x mem_cons_self
    have hiff : x.toUInt8 = 46 ↔ x = 46 := by
      rw [← UInt8.toNat_inj, ← UInt16.toNat_inj, UInt16.toNat_toUInt8]
      exact Iff.of_eq (congrArg (· = 46) (mod_eq_of_lt (lt_trans hx (by decide))))
    rw [map_cons, lastIndex, lastIndex, ih fun c hc => h c (mem_cons_of_mem x hc)]
    simp only [hiff]

theorem convertTo83Name_eq_none (h : ∀ c ∈ s, c < 128) (hne : s ≠ []) :
    convertTo83Name (s.map UInt16.toUInt8) = none ↔ ¬ Fits s := by
  unfold convertTo83Name baseAndExt Fits
  rw [lastIndex_map h, and_iff_right hne, and_iff_right h]
  cases hdot : lastIndex 46 s with
  | none => simp
  | some dot =>
    have hlt := lastIndex_lt hdot
    have hmin : min dot s.length = dot := min_eq_left (le_of_lt hlt)
    simp [hmin, imp_iff_not_or]

theorem unicodeComponentTo83_eq_none (hzero : 0 ∉ s) : unicodeComponentTo83 s = none ↔ ¬ Fits s := by
  have hwhile : s.takeWhile (· ≠ 0) = s := takeWhile_eq_self_iff.2 fun c hc => decide_eq_true fun h => hzero (h ▸ hc)
  have hshort : ∀ r, Fits r → r.length ≤ 12 := fun r hr => by
    have hr := hr.2.2
    split at hr <;> omega
  unfold unicodeComponentTo83
  simp only [hwhile]
  have hread : ∀ r : List UInt16, (if (∃ c ∈ r, ¬ c < 128) ∨ r = [] then none else convertTo83Name (r.map UInt16.toUInt8)) = none ↔ ¬ Fits r := by
    intro r
    by_cases hbad : (∃ c ∈ r, ¬ c < 128) ∨ r = []
    · rw [if_pos hbad]
      refine iff_of_true rfl fun hr => ?_
      rcases hbad with ⟨c, hc, hlt⟩ | hnil
      · exact hlt (hr.2.1 c hc)
      · exact hr.1 hnil
    · rw [if_neg hbad]
      obtain ⟨hascii, hne⟩ := not_or.1 hbad
      exact convertTo83Name_eq_none (fun c hc => by_contra fun hlt => hascii ⟨c, hc, hlt⟩) hne
  rw [hread]
  rcases lt_or_ge 255 s.length with hlong | hle
  · refine iff_of_true (fun h => absurd (hshort _ h) ?_) fun h => absurd (hshort _ h) (by omega)
    rw [length_take]
    omega
  · rw [take_of_length_le hle]

/-- A base, an extension behind a dot, and characters of names in both, so no dot in the base. -/
def Regular (s : List UInt16) : Prop :=
  let (base, ext) := baseAndExt (s.map UInt16.toUInt8)
  base ≠ [] ∧ (∀ c ∈ base ++ ext, NameChar c) ∧ (ext = [] → 46 ∉ s.map UInt16.toUInt8)

theorem split_lastIndex [DecidableEq α] {c : α} {s : List α} {i : ℕ} (h : lastIndex c s = some i) :
    s.take i ++ c :: s.drop (i + 1) = s := by
  induction s generalizing i with
  | nil => cases h
  | cons x xs ih =>
    rw [lastIndex] at h
    split at h
    · rename_i j hj
      obtain rfl := Option.some.inj h
      exact congrArg (x :: ·) (ih hj)
    · split_ifs at h with hx
      obtain rfl := Option.some.inj h
      rw [hx]
      rfl

theorem text_eq_iff (hascii : ∀ c ∈ s, c < 128) (n : Name83) : n.text = s ↔ n.bytes = s.map UInt16.toUInt8 := by
  constructor
  · rintro rfl
    simp [Name83.text, Function.comp_def]
  · intro h
    rw [Name83.text, h, map_map]
    refine (map_congr_left fun c hc => ?_).trans (map_id s)
    have hlt : c.toNat < 128 := hascii c hc
    simp only [Function.comp_apply, id, UInt16.toUInt16_toUInt8, ← UInt16.toNat_inj, UInt16.toNat_mod]
    exact mod_eq_of_lt (lt_trans hlt (by decide))

theorem exists_name_iff (h : Fits s) : (∃ n : Name83, n.text = s) ↔ Regular s := by
  obtain ⟨-, hascii, hlength⟩ := h
  simp only [text_eq_iff hascii]
  rw [← lastIndex_map hascii, ← (length_map UInt16.toUInt8 : (s.map UInt16.toUInt8).length = s.length)] at hlength
  unfold Regular
  generalize s.map UInt16.toUInt8 = bytes at *
  constructor
  · rintro ⟨n, rfl⟩
    rw [baseAndExt_bytes]
    refine ⟨n.pos, n.chars, fun hext hdot => ?_⟩
    rw [Name83.bytes, if_pos hext] at hdot
    exact (n.base_char hdot).ascii.2.2.1 rfl
  · unfold baseAndExt
    cases hdot : lastIndex 46 bytes with
    | none =>
      rw [hdot] at hlength
      rintro ⟨hpos, hchars, -⟩
      exact ⟨⟨bytes, [], hpos, hlength, zero_le _, hchars⟩, if_pos rfl⟩
    | some dot =>
      rw [hdot] at hlength
      have hsplit := split_lastIndex hdot
      rintro ⟨hpos, hchars, hext⟩
      have hne : bytes.drop (dot + 1) ≠ [] := fun hnil => hext hnil (by rw [← hsplit]; simp)
      have hbase : (bytes.take dot).length ≤ 8 := le_trans (length_take_le _ _) hlength.1
      refine ⟨⟨bytes.take dot, bytes.drop (dot + 1), hpos, hbase, (length_drop ..).trans_le hlength.2, hchars⟩, ?_⟩
      rw [Name83.bytes, if_neg hne, hsplit]

/-! ### Creation by path -/

variable {cs : List ℕ}

theorem find_unchanged (hv : v.WellFormed d cs) (hentries : w.entriesPerCluster = v.entriesPerCluster)
    (hfat : ∀ b ∈ cs, v.fat b = w.fat b)
    (hslots : ∀ q : ℕ × ℕ, q.1 ∈ cs → w.slots q.1 q.2 = v.slots q.1 q.2) (m : ShortName) :
    w.fatFindFile d m = v.fatFindFile d m := by
  have hends : w.EndsOnce cs := endsOnce_mono hentries (fun q hq h => by rwa [hslots q hq] at h) (fun q hq h => by rwa [hslots q hq] at h) hv.ends
  have hnot : ((0 : ℕ), (0 : ℕ)).1 ∉ cs := fun h => absurd (hv.chain.facts 0 h).1.1 (by decide)
  refine find_congr hv ⟨hv.chain.congr hfat, hv.nodup, hends⟩ (0, 0) (fun q _ => ?_) (fun h => absurd h.1 hnot) (fun h => absurd h.1 hnot)
  unfold Shown
  rw [hentries]
  exact ⟨and_congr_right fun hmem => by rw [hslots q hmem], fun h => hslots q h.1⟩

theorem created_found (hv : v.WellFormed d cs) (hfirst : name 0 ≠ 0) (hdeleted : name 0 ≠ 0xE5)
    (hnew : v.fatFindFile d name = some (.error .objectNameNotFound))
    (hok : v.fatCreateFile d name false = .ok (fcb, w)) :
    w.fatFindFile d name = some (.ok fcb) ∧ (∃ p, fcb = w.fcbAt d p ∧ (w.slots p.1 p.2).name = name) ∧
      w.entriesPerCluster = v.entriesPerCluster ∧ w.rootDirectoryCluster = v.rootDirectoryCluster ∧
      ∀ b, v.fat b ≠ 0 → b ≠ d → v.fat b = w.fat b ∧ ∀ i, w.slots b i = v.slots b i := by
  obtain ⟨p, base, hslot, hcreated⟩ := fatCreateFile_ok hok
  have hself : namesMatch name name = true := namesMatch_iff.2 fun _ => rfl
  have hplace : ∃ p, fcb = w.fcbAt d p ∧ (w.slots p.1 p.2).name = name := ⟨p, hcreated.control, hcreated.name⟩
  have hroot : w.rootDirectoryCluster = base.rootDirectoryCluster := hcreated.root
  rcases findFreeDirectorySlot_ok hslot with ⟨i, hi, rfl, hfree, hbefore, rfl⟩ | ⟨hfull, c, rfl, hhead, rfl⟩
  · obtain ⟨-, hfound⟩ := found_of_slot hv hcreated hfirst hdeleted hnew hi hfree hbefore
    refine ⟨by rw [hfound, if_pos hself], hplace, hcreated.entries, hroot, fun b hb hne =>
      ⟨(hcreated.fat b hb).symm, fun j => hcreated.other (b, j) hb fun h => hne (congrArg Prod.fst h)⟩⟩
  · obtain ⟨hzero, hvalid⟩ := mem_freeClusters (mem_of_mem_head? hhead)
    have hdir := hv.chain.facts d hv.chain.head_mem
    have hne : d ≠ c := fun h => hdir.2 (h ▸ hzero)
    have hfatd : (grown v d c).fat d = c := by simp [grown, setFat, hne]
    have hused : (grown v d c).fat d ≠ 0 := by
      rw [hfatd]
      exact fun h0 => absurd hvalid.1 (by rw [h0]; decide)
    have hother : ∀ b, v.fat b ≠ 0 → b ≠ d → (grown v d c).fat b = v.fat b := fun b hb hbd => by
      have hbc : b ≠ c := fun h => hb (h ▸ hzero)
      simp [grown, setFat, hbc, hbd]
    have hslots : ∀ j, w.slots d j = v.slots d j := fun j => hcreated.other (d, j) hused fun h => hne (congrArg Prod.fst h)
    have hlive := hcreated.live hfirst hdeleted
    have hentries : w.entriesPerCluster = v.entriesPerCluster := hcreated.entries
    have hthrough : scan (findAccepts name) (w.slots d) 0 w.entriesPerCluster = .through := by
      rw [show w.slots d = v.slots d from funext hslots, hentries]
      rcases scan_spec (findAccepts name) (v.slots d) 0 v.entriesPerCluster with ⟨j, -, -, hj, hend, haccept, -⟩ | ⟨hthrough, -⟩ | ⟨j, -, -, hj, hend, -⟩
      · obtain ⟨hshows, hmatch⟩ := findAccepts_iff.1 haccept
        exact (not_match_of_find hv hnew (d, j) ⟨hv.chain.head_mem, by omega, live_iff.2 ⟨hend, hshows⟩⟩ hmatch).elim
      · exact hthrough
      · exact absurd ⟨j, by omega, isFree_of_isEnd hend⟩ hfull
    have hsecond : scan (findAccepts name) (w.slots c) 0 w.entriesPerCluster = .found 0 := by
      obtain ⟨k, hk⟩ : ∃ k, w.entriesPerCluster = k + 1 := ⟨w.entriesPerCluster - 1, by have := hv.room; omega⟩
      obtain ⟨hend, hshows⟩ := live_iff.1 hlive
      rw [hk, scan, if_neg (by rw [hend]; decide), if_pos (findAccepts_iff.2 ⟨hshows, by rw [hcreated.name]; exact hself⟩)]
    have hfind : ∀ fuel, w.findFrom name (fuel + 2) d = some (.ok (c, 0)) := fun fuel => by
      rw [findFrom, if_neg (not_not.2 hdir.1), hthrough, hcreated.fat d hused, hfatd]
      simp only [if_pos hvalid]
      rw [findFrom, if_neg (not_not.2 hvalid), hsecond]
    refine ⟨?_, hplace, hentries, hroot, fun b hb hbd => ?_⟩
    · have hd : d ≠ 0 := fun h0 => absurd hdir.1.1 (by rw [h0]; decide)
      rw [fatFindFile]
      simp only [if_neg hd]
      rw [show fat32Bad = (fat32Bad - 2) + 2 by decide, hfind, hcreated.control]
      rfl
    · have hbase : (grown v d c).fat b ≠ 0 := by rwa [hother b hb hbd]
      refine ⟨((hcreated.fat b hbase).trans (hother b hb hbd)).symm, fun j => hcreated.other (b, j) hbase fun h => ?_⟩
      exact hb (by rw [show b = c from congrArg Prod.fst h]; exact hzero)

theorem short_of_upper (h : a.upper = b.upper) : a.short = b.short := by
  funext i
  rw [getD_short, getD_short, h]

theorem length_text_of_upper (h : a.upper = b.upper) : a.text.length = b.text.length := by
  have hbase : a.base.length = b.base.length := by simpa [Name83.upper] using congrArg (fun u => u.1.length) h
  have hext : a.ext.length = b.ext.length := by simpa [Name83.upper] using congrArg (fun u => u.2.length) h
  simp only [Name83.text, Name83.bytes, length_map, ← length_eq_zero_iff, hext]
  split_ifs
  · exact hbase
  · rw [length_append, length_append, hbase, length_cons, length_cons, hext]

theorem same_of_upper (h : init'.map Name83.upper = init.map Name83.upper) (hlast : last'.upper = last.upper) :
    init'.length = init.length ∧ init'.map Name83.short = init.map Name83.short ∧
      (pathOf lead init' last').length = (pathOf lead init last).length := by
  have hlen : init'.length = init.length := by simpa using congrArg length h
  have hsum : init'.map Name83.short = init.map Name83.short ∧ (init'.flatMap fun n => n.text ++ [backslash]).length =
      (init.flatMap fun n => n.text ++ [backslash]).length := by
    clear hlen
    induction init' generalizing init with
    | nil =>
      obtain rfl := map_eq_nil_iff.1 h.symm
      exact ⟨rfl, rfl⟩
    | cons n rest ih =>
      cases init with
      | nil => cases h
      | cons n' rest' =>
        obtain ⟨hn, hrest⟩ := cons.inj h
        obtain ⟨hshort, hsum⟩ := ih hrest
        refine ⟨congrArg₂ cons (short_of_upper hn) hshort, ?_⟩
        simp only [flatMap_cons, length_append, length_text_of_upper hn, hsum]
  refine ⟨hlen, hsum.1, ?_⟩
  simp only [pathOf, length_append, hsum.2, length_text_of_upper hlast]

theorem short_zero (n : Name83) : n.short 0 ≠ 46 ∧ n.short 0 ≠ 0 ∧ n.short 0 ≠ 0xE5 := by
  obtain ⟨c, cs, hbase⟩ := exists_cons_of_ne_nil n.pos
  have hzero : n.short 0 = toUpper c := by
    rw [getD_short, if_pos (by decide), Name83.upper, hbase]
    rfl
  obtain ⟨-, hdot, -, hend, hdeleted⟩ := toUpper_spec (n.base_char (show c ∈ n.base by rw [hbase]; exact mem_cons_self))
  rw [hzero]
  exact ⟨hdot, hend, hdeleted⟩

theorem fatCreate_created {createDisposition : ℕ} (h : v.fatCreate createDisposition (pathOf lead init last) = some (.ok (.created fcb w))) :
    createDisposition = 1 ∧ (pathOf lead init last).length ≤ 256 ∧ init.length < 16 ∧ ∃ d, v.walk (init.map Name83.short) v.rootDirectoryCluster = some d ∧
      v.fatFindFile d last.short = some (.error .objectNameNotFound) ∧
      v.fatCreateFile d (createdName (if lead = true ∨ init ≠ [] then last.text else last.text.drop 1)) false = .ok (fcb, w) := by
  have hne : pathOf lead init last ≠ [] := fun h => text_ne_nil last (append_eq_nil_iff.1 h).2
  rw [fatCreate, if_neg hne] at h
  by_cases hlong : 256 < (pathOf lead init last).length
  · rw [if_pos hlong] at h
    cases h
  rw [if_neg hlong] at h
  rcases hfind : v.fatFindFileByPath (pathOf lead init last) with _ | status | f <;> rw [hfind] at h
  · cases h
  · dsimp only at h
    by_cases hcase : createDisposition = 1 ∧ status = .objectNameNotFound
    · rw [if_pos hcase, createByPath, drop_parentEnd] at h
      rw [hcase.2] at hfind
      rcases hparent : v.parentCluster (pathOf lead init last) with _ | s | d <;> rw [hparent] at h
      · cases h
      · cases h
      · dsimp only at h
        cases hcreate : v.fatCreateFile d (createdName (if lead = true ∨ init ≠ [] then last.text else last.text.drop 1)) false with
        | error s =>
          rw [hcreate] at h
          cases h
        | ok r =>
          rw [hcreate] at h
          obtain ⟨rfl, rfl⟩ := Opened.created.inj (Except.ok.inj (Option.some.inj h))
          have hwalk : init.length < 16 ∧ v.walk (init.map Name83.short) v.rootDirectoryCluster = some d := by
            rcases eq_nil_or_concat init with rfl | ⟨init, p, rfl⟩
            · have hzero : parentEnd (pathOf lead [] last) = 0 := by
                rw [parentEnd_pathOf]
                cases lead <;> rfl
              rw [parentCluster, if_pos hzero] at hparent
              exact ⟨by simp, congrArg some (Except.ok.inj (Option.some.inj hparent))⟩
            · rw [concat_eq_append] at hparent hfind ⊢
              obtain ⟨hend, htake⟩ : parentEnd (pathOf lead (init ++ [p]) last) ≠ 0 ∧ _ := take_parentEnd p
              rw [parentCluster, if_neg hend, htake] at hparent
              rcases hlead : v.fatFindFileByPath (pathOf lead init p) with _ | _ | f <;> rw [hlead] at hparent
              · cases hparent
              · cases hparent
              · obtain rfl := Except.ok.inj (Option.some.inj hparent)
                rw [fatFindFileByPath_pathOf] at hlead hfind
                have hlt : (init ++ [p]).length < 16 := by
                  by_contra hge
                  rw [take_append_of_le_length (not_lt.1 hge), hlead] at hfind
                  cases hfind
                have hlen : init.length + 1 < 16 := by simpa using hlt
                rw [take_of_length_le (by simp; omega)] at hlead hfind
                exact ⟨hlt, walk_of_found hlead hfind⟩
          refine ⟨hcase.1, not_lt.1 hlong, hwalk.1, d, hwalk.2, ?_, hcreate⟩
          rw [fatFindFileByPath_pathOf, take_of_length_le (by simp; omega), findComponents_walk hwalk.2] at hfind
          exact hfind
    · rw [if_neg hcase] at h
      cases h
  · dsimp only at h
    split_ifs at h <;> cases h

theorem walk_append {names names' : List ShortName} {c : ℕ} (h : v.walk names c = some d) :
    v.walk (names ++ names') c = v.walk names' d := by
  induction names generalizing c with
  | nil => rw [Option.some.inj h, nil_append]
  | cons name names ih =>
    rw [walk] at h
    rw [cons_append, walk]
    rcases hfound : v.fatFindFile c name with _ | _ | f <;> rw [hfound] at h
    · cases h
    · cases h
    · by_cases hcase : f.isDirectory = true ∧ 2 ≤ f.firstCluster
      · simp only [if_pos hcase] at h ⊢
        exact ih h
      · cases (if_neg hcase).symm.trans h

theorem walk_unchanged {names : List ShortName} (hv : v.Consistent) (hnames : ∀ n ∈ names, n 0 ≠ 46)
    (hd : v.walk names v.rootDirectoryCluster = some d) (hcs : v.WellFormed d cs)
    (hentries : w.entriesPerCluster = v.entriesPerCluster)
    (hsame : ∀ b, v.fat b ≠ 0 → b ≠ d → v.fat b = w.fat b ∧ ∀ i, w.slots b i = v.slots b i) :
    w.walk names v.rootDirectoryCluster = some d := by
  have hpart : ∀ rest pre c, pre ++ rest = names → v.walk pre v.rootDirectoryCluster = some c → w.walk rest c = v.walk rest c := by
    intro rest
    induction rest with
    | nil => exact fun _ _ _ _ => rfl
    | cons name rest ih =>
      intro pre c hpre hc
      have hmem : ∀ n ∈ pre, n 0 ≠ 46 := fun n hn => hnames n (by rw [← hpre]; exact mem_append_left _ hn)
      obtain ⟨cs', hcs'⟩ := hv.directory pre c hmem hc
      have hapart := hv.apart pre names c d cs' cs hmem hnames (by rw [← hpre]; simp) hc hd hcs' hcs
      have hkept : ∀ b ∈ cs', v.fat b = w.fat b ∧ ∀ i, w.slots b i = v.slots b i := fun b hb =>
        hsame b (hcs'.chain.facts b hb).2 fun h => hapart b hb (h ▸ hcs.chain.head_mem)
      rw [walk, walk, find_unchanged hcs' hentries (fun b hb => (hkept b hb).1) fun q hq => (hkept q.1 hq).2 q.2]
      rcases hfound : v.fatFindFile c name with _ | _ | f
      · rfl
      · rfl
      · by_cases hcase : f.isDirectory = true ∧ 2 ≤ f.firstCluster
        · simp only [if_pos hcase]
          refine ih (pre ++ [name]) f.firstCluster (by rw [← hpre]; simp) ?_
          rw [walk_append hc, walk, hfound]
          exact if_pos hcase
        · simp only [if_neg hcase]
  exact (hpart names [] _ rfl rfl).trans hd

/-- The search by its path finds the file, its entry has the form of its name, and a second creation
in any case of letters is refused. -/
structure CreatedAs (w : FatVolume) (createDisposition : ℕ) (lead : Bool) (init : List Name83) (last : Name83) (fcb : Fcb) : Prop where
  found : w.fatFindFileByPath (pathOf lead init last) = some (.ok fcb)
  stored : ∃ p, fcb = w.fcbAt fcb.parentDirCluster p ∧ (w.slots p.1 p.2).name = last.short
  collides : ∀ init' last', init'.map Name83.upper = init.map Name83.upper → last'.upper = last.upper →
    w.fatCreate createDisposition (pathOf lead init' last') = some (.error .objectNameCollision)

theorem createdAs_iff (hv : v.Consistent) {createDisposition : ℕ}
    (hok : v.fatCreate createDisposition (pathOf lead init last) = some (.ok (.created fcb w))) :
    CreatedAs w createDisposition lead init last fcb ↔
      (lead = true ∨ init ≠ []) ∧ last.ext = [] ∧ last.base.map toUpper = last.base := by
  obtain ⟨rfl, hlong, hlen, d, hwalk, hnew, hcreate⟩ := fatCreate_created hok
  have hdots : ∀ n ∈ init.map Name83.short, n 0 ≠ 46 := fun n hn => by
    obtain ⟨m, -, rfl⟩ := mem_map.1 hn
    exact (short_zero m).1
  constructor
  · intro h
    obtain ⟨p, hp, hname⟩ := h.stored
    obtain ⟨q, base, -, hcreated⟩ := fatCreateFile_ok hcreate
    have hstored : createdName (if lead = true ∨ init ≠ [] then last.text else last.text.drop 1) = last.short := by
      rw [← hcreated.name, ← hname]
      exact (congrArg Fcb.fileName hcreated.control).symm.trans (congrArg Fcb.fileName hp)
    by_cases hcase : lead = true ∨ init ≠ []
    · rw [if_pos hcase] at hstored
      exact ⟨hcase, (createdName_eq_iff last).1 hstored⟩
    · rw [if_neg hcase] at hstored
      exact absurd hstored (createdName_drop_ne last)
  · rintro ⟨hcase, hform⟩
    rw [if_pos hcase, (createdName_eq_iff last).2 hform] at hcreate
    obtain ⟨cs, hcs⟩ := hv.directory _ d hdots hwalk
    obtain ⟨hfound, ⟨p, hp, hname⟩, hentries, hroot, hsame⟩ := created_found hcs (short_zero last).2.1 (short_zero last).2.2 hnew hcreate
    have hway := walk_unchanged hv hdots hwalk hcs hentries hsame
    have hfind : ∀ init' last', init'.map Name83.upper = init.map Name83.upper → last'.upper = last.upper →
        w.fatFindFileByPath (pathOf lead init' last') = some (.ok fcb) := by
      intro init' last' hinit hlast
      obtain ⟨hlength, hshort, -⟩ : _ ∧ _ ∧ (pathOf lead init' last').length = _ := same_of_upper hinit hlast
      rw [fatFindFileByPath_pathOf, take_of_length_le (by simp; omega), findComponents_walk (by rw [hshort, hroot]; exact hway),
        short_of_upper hlast]
      exact hfound
    refine ⟨hfind init last rfl rfl, ⟨p, ?_, hname⟩, fun init' last' hinit hlast => ?_⟩
    · rw [hp]
      rfl
    · have hne : pathOf lead init' last' ≠ [] := fun h => text_ne_nil last' (append_eq_nil_iff.1 h).2
      have hshort : ¬ 256 < (pathOf lead init' last').length := by
        rw [(same_of_upper hinit hlast).2.2]
        exact not_lt.2 hlong
      rw [fatCreate, if_neg hne, if_neg hshort, hfind init' last' hinit hlast]
      rfl

/-- The kernel's dispositions for a new file create none. When a created file is found by its path, when two paths
find different files, and when what is no name is rejected. -/
theorem paths_exact (hv : v.Consistent) :
    (∀ createDisposition lead init last fcb w, createDisposition = fileCreate ∨ createDisposition = fileOpenIf →
      v.fatCreate createDisposition (pathOf lead init last) ≠ some (.ok (.created fcb w))) ∧
    (∀ createDisposition lead init last fcb w, v.fatCreate createDisposition (pathOf lead init last) = some (.ok (.created fcb w)) →
      (CreatedAs w createDisposition lead init last fcb ↔
        (lead = true ∨ init ≠ []) ∧ last.ext = [] ∧ last.base.map toUpper = last.base)) ∧
    (∀ lead lead' init init' last last' f f', v.fatFindFileByPath (pathOf lead init last) = some (.ok f) →
      v.fatFindFileByPath (pathOf lead' init' last') = some (.ok f') →
      ((last.upper ≠ last'.upper → ¬ namesMatch f.fileName f'.fileName = true) ↔
        ((resolved init last).map Name83.upper = (resolved init' last').map Name83.upper → last.upper = last'.upper))) ∧
    ∀ s : List UInt16, 0 ∉ s → (((∀ n : Name83, n.text ≠ s) → unicodeComponentTo83 s = none) ↔ (Fits s → Regular s)) := by
  refine ⟨fun d _ _ _ _ _ hd hok => ?_, fun _ _ _ _ _ _ hok => createdAs_iff hv hok,
    fun _ _ _ _ _ _ _ _ h h' => apart_iff h h', fun s hzero => ?_⟩
  · have hone := (fatCreate_created hok).1
    rcases hd with hd | hd <;> cases hd.symm.trans hone
  rw [unicodeComponentTo83_eq_none hzero]
  constructor
  · intro h hs
    rw [← exists_name_iff hs]
    by_contra hnone
    exact h (fun n hn => hnone ⟨n, hn⟩) hs
  · intro h hnone hs
    obtain ⟨n, hn⟩ := (exists_name_iff hs).2 (h hs)
    exact hnone n hn

theorem nameChar_letter (h : c = 65 ∨ c = 66) : NameChar c := by
  rcases h with rfl | rfl <;> exact ⟨by decide, by decide, by decide⟩

def nameA : Name83 := ⟨[65], [], by decide, by decide, by decide, fun _ hc => nameChar_letter (Or.inl (mem_singleton.1 hc))⟩

def nameAB : Name83 := ⟨[65], [66], by decide, by decide, by decide, fun _ hc => nameChar_letter (by simpa using hc)⟩

def emptyRoot : FatVolume := ⟨2, 100, 16, fun c => if c = 2 then fat32EocMin else 0, fun _ _ => unused, 0⟩

theorem emptyRoot_wellFormed : emptyRoot.WellFormed 2 [2] where
  chain := Chain.last (by decide) (by decide)
  nodup := nodup_singleton 2
  room := by decide
  ends := ⟨fun _ _ _ => ⟨fun _ _ _ => rfl, fun _ hq => absurd hq.1 not_mem_nil⟩, trivial⟩
  distinct _ _ hp := absurd hp.2.2 Bool.false_ne_true

theorem emptyRoot_find (name : ShortName) : emptyRoot.fatFindFile 2 name = some (.error .objectNameNotFound) :=
  emptyRoot_wellFormed.searched.find_none fun _ hq => absurd hq.2.2 Bool.false_ne_true

theorem emptyRoot_consistent : emptyRoot.Consistent := by
  have hwalk : ∀ names d, emptyRoot.walk names emptyRoot.rootDirectoryCluster = some d → names = [] ∧ d = 2 := by
    intro names d h
    cases names with
    | nil => exact ⟨rfl, (Option.some.inj h).symm⟩
    | cons name names =>
      rw [walk, show emptyRoot.fatFindFile emptyRoot.rootDirectoryCluster name = _ from emptyRoot_find name] at h
      cases h
  refine ⟨fun names d _ h => ?_, fun names names' d d' cs cs' _ _ hlt _ h' => ?_⟩
  · rw [(hwalk names d h).2]
    exact ⟨[2], emptyRoot_wellFormed⟩
  · rw [(hwalk names' d' h').1] at hlt
    exact absurd hlt (not_lt_zero _)

theorem emptyRoot_fatCreate (createDisposition : ℕ) (n : Name83) : emptyRoot.fatCreate createDisposition (pathOf true [] n) =
    if createDisposition = 1 then emptyRoot.createByPath (pathOf true [] n) else some (.error .objectNameNotFound) := by
  have hfind : emptyRoot.fatFindFileByPath (pathOf true [] n) = some (.error .objectNameNotFound) := by
    rw [fatFindFileByPath_pathOf, take_of_length_le (by simp), findComponents_walk (d := 2) rfl]
    exact emptyRoot_find _
  have hlen : ¬ 256 < (pathOf true [] n).length := by
    have := n.base_le
    have := n.ext_le
    simp only [pathOf, Name83.text, Name83.bytes, flatMap_nil]
    split_ifs <;> simp <;> omega
  rw [fatCreate, if_neg (by simp [pathOf]), if_neg hlen, hfind]
  simp only [and_true]

theorem emptyRoot_creates (n : Name83) : ∃ fcb w, emptyRoot.fatCreate 1 (pathOf true [] n) = some (.ok (.created fcb w)) ∧
    fcb.fileName = createdName n.text := by
  have hend : parentEnd (pathOf true [] n) = 0 := parentEnd_pathOf
  obtain ⟨fcb, w, hcreate, hname⟩ : ∃ fcb w, emptyRoot.fatCreateFile emptyRoot.rootDirectoryCluster (createdName n.text) false = .ok (fcb, w) ∧
      fcb.fileName = createdName n.text := ⟨_, _, rfl, rfl⟩
  refine ⟨fcb, w, ?_, hname⟩
  rw [emptyRoot_fatCreate, if_pos rfl]
  simp only [createByPath, parentCluster, hend, if_true]
  rw [show (pathOf true [] n).drop (0 + 1) = n.text from rfl, hcreate]
  rfl

/-- The form without an extension is found, and a name with a blank in it is let through. -/
theorem paths_nameA : ∃ fcb w, emptyRoot.fatCreate 1 (pathOf true [] nameA) = some (.ok (.created fcb w)) ∧
    CreatedAs w 1 true [] nameA fcb ∧ ¬ ((∀ n : Name83, n.text ≠ [65, 32]) → unicodeComponentTo83 [65, 32] = none) := by
  obtain ⟨fcb, w, hok, -⟩ := emptyRoot_creates nameA
  obtain ⟨-, hcreated, -, hrejects⟩ := paths_exact emptyRoot_consistent
  refine ⟨fcb, w, hok, (hcreated 1 true [] nameA fcb w hok).2 ⟨Or.inl rfl, rfl, by decide⟩, fun h => ?_⟩
  have hregular := (hrejects [65, 32] (by decide)).1 h ⟨by decide, by simp, (by decide : 2 ≤ 8)⟩
  exact absurd (hregular.2.1 32 (by decide)).1 (by decide)

/-- `FILE_CREATE` creates nothing, what 1 creates as `A.B` is not found, and `A+B` passes for a name. -/
theorem extension_not_found : emptyRoot.Consistent ∧
    emptyRoot.fatCreate fileCreate (pathOf true [] nameA) = some (.error .objectNameNotFound) ∧
    (∃ fcb w, emptyRoot.fatCreate 1 (pathOf true [] nameAB) = some (.ok (.created fcb w)) ∧ ¬ CreatedAs w 1 true [] nameAB fcb) ∧
    (∀ n : Name83, n.text ≠ [65, 43, 66]) ∧ unicodeComponentTo83 [65, 43, 66] ≠ none := by
  obtain ⟨fcb, w, hok, hname⟩ := emptyRoot_creates nameAB
  refine ⟨emptyRoot_consistent, emptyRoot_fatCreate fileCreate nameA, ⟨fcb, w, hok, fun h => ?_⟩, fun n hn => ?_, by decide⟩
  swap
  · have hregular := (exists_name_iff ⟨by decide, by simp, (by decide : 3 ≤ 8)⟩).1 ⟨n, hn⟩
    exact absurd (hregular.2.1 43 (by decide)).2.2 (by decide)
  obtain ⟨p, hp, hstored⟩ := h.stored
  have hsame : createdName nameAB.text 1 = nameAB.short 1 := by
    rw [← hname, ← hstored, congrArg Fcb.fileName hp]
    rfl
  exact absurd hsame (by decide)

end XenOS.Fat
