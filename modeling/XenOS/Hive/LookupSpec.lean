import XenOS.Hive.ReaderSpec
import XenOS.Hive.BaseBlock
import Mathlib.Data.List.Nodup

/-! What a lookup in a hive returns, over the tree that the builder has built. -/

namespace XenOS.Hive

open General HiveBuilder List HiveKey Nat
open Option (bind_eq_bind bind_some getD_some)

variable {b : HiveBuilder} {tree : List HiveKey} {k c : HiveKey} {rs : List Rec} {n name : List Char}

/-- The comparison of the registry. -/
def sameName (name name' : List Char) : Bool := cmpIter (encodeUtf16 name) (encodeUtf16 name') = .eq

theorem cmpIter_eq_iff (xs ys : List ℕ) : cmpIter xs ys = .eq ↔ xs.map utf16ToUppercase = ys.map utf16ToUppercase := by
  induction xs generalizing ys with
  | nil => cases ys <;> simp [cmpIter]
  | cons x xs ih =>
    cases ys with
    | nil => simp [cmpIter]
    | cons y ys =>
      rw [cmpIter, map_cons, map_cons, cons.injEq]
      split_ifs with h
      · exact ⟨fun heq => absurd (Nat.compare_eq_eq.1 heq) h, fun heq => absurd heq.1 h⟩
      · rw [ih]
        exact ⟨fun heq => ⟨not_not.1 h, heq⟩, And.right⟩

def foldName (name : List Char) : List ℕ := (encodeUtf16 name).map utf16ToUppercase

theorem sameName_iff {name' : List Char} : sameName name name' = true ↔ foldName name = foldName name' := by
  rw [sameName, decide_eq_true_iff, cmpIter_eq_iff]
  rfl

def Ascii (name : List Char) : Prop := ∀ c ∈ name, c.toNat < 128

section
variable (h : Ascii name)
include h

theorem nameBytes_ascii : nameBytes name = name.map fun c => UInt8.ofNat c.toNat := by
  induction name with
  | nil => rfl
  | cons c name ih =>
    have hc := h c mem_cons_self
    have hchar : String.utf8EncodeChar c = [UInt8.ofNat c.toNat] := by
      simp only [String.utf8EncodeChar]
      exact if_pos (le_of_lt_succ hc)
    have htail := ih fun c hc => h c (mem_cons_of_mem _ hc)
    unfold nameBytes at htail ⊢
    rw [flatMap_cons, htail, hchar]
    rfl

theorem units_ascii : (HiveString.latin1 (nameBytes name)).units = encodeUtf16 name := by
  rw [HiveString.units, nameBytes_ascii h, map_map, encodeUtf16, map_eq_flatMap]
  refine flatMap_congr fun c hc => ?_
  have hlt := h c hc
  rw [if_pos (by omega)]
  simp only [Function.comp_apply, UInt8.toNat_ofNat']
  rw [mod_eq_of_lt (by omega)]

theorem ascii_bytes : (nameBytes name).all (· < 128) = true := by
  rw [nameBytes_ascii h, all_eq_true]
  intro byte hbyte
  obtain ⟨c, hc, rfl⟩ := mem_map.1 hbyte
  have hlt := h c hc
  refine decide_eq_true (UInt8.lt_iff_toNat_lt.2 ?_)
  rw [UInt8.toNat_ofNat', mod_eq_of_lt (by omega)]
  exact hlt

theorem length_ascii : (nameBytes name).length = name.length := by
  rw [nameBytes_ascii h, length_map]

theorem eqStr_ascii : (HiveString.latin1 (nameBytes name)).eqStr n = sameName name n := by
  rw [HiveString.eqStr, units_ascii h]
  rfl

end

/-- What the calls may say so that the reader can read it. -/
structure Setting (s : List Char × ℕ × List UInt8) : Prop where
  ascii : Ascii s.1
  length : s.1.length < 2 ^ 16
  dataType : s.2.1 ≤ 11
  data : s.2.2.length ≤ bigDataSegmentSize

def HiveBuilder.nodeAt (b : HiveBuilder) (offset : ℕ) : KeyNode := ⟨dataAbs offset, b.cellLen offset⟩

def HiveValue.setting (v : HiveValue) : List Char × ℕ × List UInt8 := (v.name, v.dataType, v.data)

theorem Setting.readable {v : HiveValue} (h : Setting v.setting) : v.Readable :=
  ⟨ascii_bytes h.ascii, Nat.lt_of_le_of_lt (Nat.le_of_eq (length_ascii h.ascii)) h.length, h.dataType, h.data⟩

def HiveBuilder.get (b : HiveBuilder) (node : KeyNode) (name : List Char) : Option (Option (ℕ × List UInt8)) := do
  match ← b.value node name with
  | some value => return some (← b.dataType value, ← b.valueData value)
  | none => return none

section
variable (h : b.Holds rs)
include h

theorem findValue_eq {vs : List HiveValue} (hvs : ∀ v ∈ vs, (∀ r ∈ v.cells, r ∈ rs) ∧ v.Formed ∧ Setting v.setting) :
    b.findValue n (vs.map HiveValue.offset) = some ((vs.find? fun v => sameName v.name n).map fun v => b.valueAt v.offset) := by
  induction vs with
  | nil => rfl
  | cons v vs ih =>
    obtain ⟨hcells, hformed, hsetting⟩ := hvs v mem_cons_self
    have hcell := hcells v.cell mem_cons_self
    have hname := valueName_eq h hcell hformed hsetting.readable
    rw [map_cons, HiveBuilder.findValue, keyValue_eq h hcell hformed, find?_cons]
    have hstr : (HiveString.latin1 (nameBytes v.name)).eqStr n = sameName v.name n := eqStr_ascii hsetting.ascii
    simp only [bind_eq_bind, bind_some, hname, hstr]
    cases hsame : sameName v.name n with
    | true => rfl
    | false => exact ih fun v' hv' => hvs v' (mem_cons_of_mem _ hv')

theorem valuesField (hk : ∀ r ∈ k.cells, r ∈ rs) (hformed : k.Formed) :
    leValue b.data (dataAbs k.offset + 40) 4 = k.valuesList.getD u32Max ∧ leValue b.data (dataAbs k.offset + 36) 4 = k.values.length := by
  have hcell := hk k.cell mem_cons_self
  constructor
  · refine (h.fieldAt hcell (k.before20 ++ [(4, k.subkeyCount), (4, 0), (4, k.subkeysList.getD u32Max), (4, u32Max), (4, k.values.length)])
      40 4 (k.valuesList.getD u32Max) rfl rfl).trans ?_
    cases hvalues : k.valuesList with
    | none => rfl
    | some l =>
      have hl := hformed.valuesList l hvalues
      unfold u32Max at hl
      exact mod_eq_of_lt (by simp only [getD_some]; omega)
  · exact (h.fieldAt hcell (k.before20 ++ [(4, k.subkeyCount), (4, 0), (4, k.subkeysList.getD u32Max), (4, u32Max)])
      36 4 k.values.length rfl rfl).trans (mod_eq_of_lt hformed.count)

theorem valuesRead (hk : ∀ r ∈ k.cells, r ∈ rs) (hformed : k.Formed) {l : ℕ} (hvalues : k.valuesList = some l) :
    offsetsCell l (k.values.map HiveValue.offset) ∈ rs ∧
      (range k.values.length).map (fun i => leValue b.data (dataAbs l + i * 4) 4) = k.values.map HiveValue.offset := by
  have hmem : offsetsCell l (k.values.map HiveValue.offset) ∈ rs := by
    refine hk _ (mem_cons_of_mem _ (mem_append_left _ (mem_append_right _ ?_)))
    rw [valuesCells_eq, hvalues]
    exact mem_cons_self
  have hfields := (h.written _ hmem).2
  simp only [offsetsCell] at hfields
  rw [map_map, map_eq_flatMap] at hfields
  refine ⟨hmem, fieldsAt_range (w := 4) (a := HiveValue.offset) (fun v hv => ⟨⟨[], rfl⟩, rfl, ?_⟩) hfields⟩
  have hlt := (hformed.values v hv).offset
  unfold u32Max at hlt
  omega

theorem valueItems_eq (hk : ∀ r ∈ k.cells, r ∈ rs) (hformed : k.Formed) :
    b.valueItems (b.nodeAt k.offset) = some (k.values.map HiveValue.offset) := by
  obtain ⟨hlist, hcount⟩ : leValue b.data ((b.nodeAt k.offset).start + 40) 4 = k.valuesList.getD u32Max ∧
      leValue b.data ((b.nodeAt k.offset).start + 36) 4 = k.values.length := valuesField h hk hformed
  unfold HiveBuilder.valueItems
  cases hvalues : k.valuesList with
  | none =>
    rw [hvalues] at hlist
    rw [hformed.noValues hvalues]
    simp only [hlist]
    rfl
  | some l =>
    have hl := hformed.valuesList l hvalues
    obtain ⟨hmem, hread⟩ := valuesRead h hk hformed hvalues
    obtain ⟨hrange, hfit⟩ := h.cellRange hmem hl
    rw [hvalues, getD_some] at hlist
    simp only [offsetsCell, length_map] at hrange hfit
    simp only [hlist, hcount]
    rw [if_neg (Nat.ne_of_lt hl), hrange]
    simp only [bind_eq_bind, bind_some]
    rw [if_neg (by omega), hread]
    rfl

theorem get_eq (hk : ∀ r ∈ k.cells, r ∈ rs) (hformed : k.Formed) (hvs : ∀ v ∈ k.values, Setting v.setting) :
    b.get (b.nodeAt k.offset) n = some ((k.values.find? fun v => sameName v.name n).map fun v => (v.dataType, v.data)) := by
  have hcells : ∀ v ∈ k.values, ∀ r ∈ v.cells, r ∈ rs := fun v hv r hr =>
    hk r (mem_cons_of_mem _ (mem_append_right _ (mem_flatMap.2 ⟨v, hv, hr⟩)))
  have hfind := findValue_eq (n := n) h fun v hv => ⟨hcells v hv, hformed.values v hv, hvs v hv⟩
  unfold HiveBuilder.get HiveBuilder.value
  rw [valueItems_eq h hk hformed]
  simp only [bind_eq_bind, bind_some, hfind]
  cases hfound : k.values.find? fun v => sameName v.name n with
  | none =>
    simp only [Option.map_none]
    rfl
  | some v =>
    have hv := mem_of_find?_eq_some hfound
    have hreadable := (hvs v hv).readable
    have hcell := hcells v hv v.cell mem_cons_self
    have htype := dataType_eq h hcell hreadable
    have hdata := valueData_eq h hcell (hformed.values v hv) hreadable fun r hr => hcells v hv r (mem_cons_of_mem _ hr)
    simp only [Option.map_some, htype, hdata, bind_some]
    rfl

end

def HiveBuilder.valueNames (b : HiveBuilder) (node : KeyNode) : Option (List HiveString) := do (← b.values node).mapM b.valueName

theorem mapM_eq {α β : Type} {f : α → Option β} {g : α → β} {xs : List α} (h : ∀ x ∈ xs, f x = some (g x)) :
    xs.mapM f = some (xs.map g) := by
  induction xs with
  | nil => rfl
  | cons x xs ih =>
    rw [mapM_cons, h x mem_cons_self, ih fun y hy => h y (mem_cons_of_mem _ hy)]
    rfl

theorem values_eq (h : b.Holds rs) (hk : ∀ r ∈ k.cells, r ∈ rs) (hformed : k.Formed) :
    b.values (b.nodeAt k.offset) = some (k.values.map fun v => b.valueAt v.offset) := by
  unfold HiveBuilder.values
  rw [valueItems_eq h hk hformed, bind_eq_bind, bind_some, mapM_map]
  refine mapM_eq fun v hv => keyValue_eq h ?_ (hformed.values v hv)
  exact hk _ (mem_cons_of_mem _ (mem_append_right _ (mem_flatMap.2 ⟨v, hv, mem_cons_self⟩)))

theorem valueNames_eq (h : b.Holds rs) (hk : ∀ r ∈ k.cells, r ∈ rs) (hformed : k.Formed) (hvs : ∀ v ∈ k.values, Setting v.setting) :
    b.valueNames (b.nodeAt k.offset) = some (k.values.map fun v => .latin1 (nameBytes v.name)) := by
  have hcell : ∀ v ∈ k.values, v.cell ∈ rs := fun v hv =>
    hk _ (mem_cons_of_mem _ (mem_append_right _ (mem_flatMap.2 ⟨v, hv, mem_cons_self⟩)))
  unfold HiveBuilder.valueNames
  rw [values_eq h hk hformed, bind_eq_bind, bind_some, mapM_map]
  exact mapM_eq fun v hv => valueName_eq h (hcell v hv) (hformed.values v hv) (hvs v hv).readable

section
variable (h : b.Holds rs)
include h

theorem cellLen_key (hk : k.cell ∈ rs) (hformed : k.Formed) :
    keyNodeHeaderSize + (nameBytes k.name).length ≤ b.cellLen k.offset := by
  have hlen := (h.cellRange hk hformed.offset).2
  simp only [cell] at hlen
  omega

theorem keyNode_eq (hk : k.cell ∈ rs) (hformed : k.Formed) : b.keyNode k.offset = some (b.nodeAt k.offset) := by
  have hlen := cellLen_key h hk hformed
  have hrange : b.cellRange k.offset = some (dataAbs k.offset, b.cellLen k.offset) := (h.cellRange hk hformed.offset).1
  have hsignature : leValue b.data (dataAbs k.offset) 2 = keyNodeSignature := h.fieldAt hk [] 0 2 keyNodeSignature rfl rfl
  unfold HiveBuilder.keyNode
  rw [hrange]
  simp only [bind_eq_bind, bind_some]
  rw [if_neg (by omega), if_neg (not_not_intro hsignature)]
  rfl

theorem keyName_eq (hk : k.cell ∈ rs) (hformed : k.Formed) (hflags : k.flags = keyCompName)
    (hlength : (nameBytes k.name).length < 2 ^ 16) : b.keyName (b.nodeAt k.offset) = some (.latin1 (nameBytes k.name)) := by
  have hlen := cellLen_key h hk hformed
  have hname : leValue b.data ((b.nodeAt k.offset).start + 72) 2 = (nameBytes k.name).length := by
    refine (h.nameLength hk).trans ?_
    exact mod_eq_of_lt hlength
  have hcomp : leValue b.data ((b.nodeAt k.offset).start + 2) 2 = keyCompName := by
    refine (h.fieldAt hk [(2, 0x6b6e)] 2 2 k.flags rfl rfl).trans ?_
    rw [hflags]
    rfl
  have hbytes : b.bytes ((b.nodeAt k.offset).start + keyNodeHeaderSize) (nameBytes k.name).length = nameBytes k.name := by
    refine h.bytesAt hk [(2, 0x6b6e), (2, k.flags), (8, 0), (4, 0), (4, k.parent), (4, k.subkeyCount), (4, 0),
      (4, k.subkeysList.getD u32Max), (4, u32Max), (4, k.values.length), (4, k.valuesList.getD u32Max), (4, u32Max), (4, u32Max),
      (4, k.maxSubkeyName), (4, 0), (4, 0), (4, 0), (4, 0), (2, (nameBytes k.name).length), (2, 0)] keyNodeHeaderSize ?_ ?_
    · simp only [cell, fields]
    · simp only [totalWidth, map_cons, map_nil, sum_cons, sum_nil]
      rfl
  unfold HiveBuilder.keyName
  simp only [hname, hcomp, hbytes]
  rw [if_neg (by simp only [HiveBuilder.nodeAt]; omega), if_pos (by decide)]

theorem subkeysField (hk : ∀ r ∈ k.cells, r ∈ rs) (hformed : k.Formed) :
    leValue b.data (dataAbs k.offset + 28) 4 = k.subkeysList.getD u32Max := by
  refine (h.fieldAt (hk k.cell mem_cons_self) (k.before20 ++ [(4, k.subkeyCount), (4, 0)]) 28 4 (k.subkeysList.getD u32Max) rfl rfl).trans ?_
  cases hitems : k.subkeysList with
  | none => rfl
  | some l =>
    have hl := hformed.subkeysList l hitems
    unfold u32Max at hl
    exact mod_eq_of_lt (by simp only [getD_some]; omega)

theorem subkeysRead (hk : ∀ r ∈ k.cells, r ∈ rs) (hformed : k.Formed) {l : ℕ} (hitems : k.subkeysList = some l) :
    itemsCell l k.items ∈ rs ∧ leValue b.data (dataAbs l + 2) 2 = k.items.length % 2 ^ 16 ∧
      (range k.items.length).map (fun i => leValue b.data (dataAbs l + 4 + i * 8) 4) = k.items.map Prod.fst := by
  have hmem : itemsCell l k.items ∈ rs := by
    refine hk _ (mem_cons_of_mem _ (mem_append_left _ (mem_append_left _ ?_)))
    rw [subkeysCells, hitems]
    exact mem_cons_self
  refine ⟨hmem, h.fieldAt hmem [(2, hashLeafSignature)] 2 2 k.items.length rfl rfl, ?_⟩
  refine fieldsAt_range (w := 8) (a := Prod.fst) (fun item hitem => ⟨⟨_, rfl⟩, rfl, ?_⟩) (fieldsAt_append.1 (h.written _ hmem).2).2
  have hlt := (hformed.items item hitem).1
  unfold u32Max at hlt
  omega

theorem subkeyItems_eq (hk : ∀ r ∈ k.cells, r ∈ rs) (hformed : k.Formed) (hcount : k.items.length < 2 ^ 16) :
    b.subkeyItems (b.nodeAt k.offset) = some (k.items.map fun item => some item.1) := by
  have hlist : leValue b.data ((b.nodeAt k.offset).start + 28) 4 = k.subkeysList.getD u32Max := subkeysField h hk hformed
  unfold HiveBuilder.subkeyItems
  cases hitems : k.subkeysList with
  | none =>
    rw [hitems] at hlist
    rw [hformed.noItems hitems]
    simp only [hlist]
    rfl
  | some l =>
    have hl := hformed.subkeysList l hitems
    obtain ⟨hmem, hlength, hread⟩ := subkeysRead h hk hformed hitems
    obtain ⟨hrange, hfit⟩ := h.cellRange hmem hl
    rw [hitems, getD_some] at hlist
    rw [mod_eq_of_lt hcount] at hlength
    simp only [itemsCell] at hrange hfit
    have hsignature : leValue b.data (dataAbs l) 2 = hashLeafSignature := h.fieldAt hmem [] 0 2 hashLeafSignature rfl rfl
    have hleaf : b.leaf (dataAbs l) (b.cellLen l) = some (k.items.map Prod.fst) := by
      unfold HiveBuilder.leaf HiveBuilder.leafItems
      simp only [hsignature, hlength]
      rw [if_neg (by omega), if_neg (by decide), if_pos (Or.inr trivial), if_neg (by omega)]
      exact congrArg some hread
    simp only [hlist]
    rw [if_neg (Nat.ne_of_lt hl), hrange]
    simp only [bind_eq_bind, bind_some, hsignature, hleaf]
    rw [if_neg (by omega), if_neg (by decide)]
    simp

end

variable {s : Session} {spec : List KeySpec}

def foldPath (path : List (List Char)) : List (List ℕ) := path.map foldName

/-- What the calls of a user say so that all of it can be looked up. -/
structure Legible (keys : List KeySpec) : Prop where
  path : ∀ k ∈ keys, ∀ name ∈ k.path, Ascii name ∧ name.length < 2 ^ 16
  paths : (keys.map fun k => foldPath k.path).Nodup
  subkeys : ∀ k ∈ keys, keys.countP (fun c => c.path.dropLast = k.path ∧ c.path ≠ []) < 2 ^ 16
  values : ∀ k ∈ keys, ∀ v ∈ k.values, Setting v

theorem findSubkey_eq (h : b.Holds rs) {os : List ℕ} {target : ℕ}
    (hos : ∀ o ∈ os, ∃ c : HiveKey, c.offset = o ∧ c.cell ∈ rs ∧ c.Formed ∧ c.flags = keyCompName ∧ Ascii c.name ∧ c.name.length < 2 ^ 16 ∧
      (sameName c.name n = true ↔ o = target)) (htarget : target ∈ os) :
    b.findSubkey n (os.map some) = some (some (b.nodeAt target)) := by
  induction os with
  | nil => cases htarget
  | cons o os ih =>
    obtain ⟨c, rfl, hcell, hformed, hflags, hascii, hlength, hsame⟩ := hos o mem_cons_self
    have hname := keyName_eq h hcell hformed hflags (Nat.lt_of_le_of_lt (Nat.le_of_eq (length_ascii hascii)) hlength)
    rw [map_cons, HiveBuilder.findSubkey, keyNode_eq h hcell hformed]
    simp only [bind_eq_bind, bind_some, hname, eqStr_ascii hascii]
    by_cases heq : c.offset = target
    · rw [if_pos (hsame.2 heq), heq]
      rfl
    · rw [if_neg (mt hsame.1 heq)]
      exact ih (fun o ho => hos o (mem_cons_of_mem _ ho)) ((mem_cons.1 htarget).resolve_left (Ne.symm heq))

theorem subpath_append (node : KeyNode) (path path' : List (List Char)) :
    b.subpath node (path ++ path') = (b.subpath node path).bind fun found => found.elim (some none) fun child => b.subpath child path' := by
  induction path generalizing node with
  | nil => rfl
  | cons name path ih =>
    rw [cons_append, HiveBuilder.subpath, HiveBuilder.subpath]
    simp only [bind_eq_bind]
    cases b.subkey node name with
    | none => rfl
    | some found =>
      cases found with
      | none => rfl
      | some child => exact ih child

section
variable (h : Tree s spec tree)
include h

theorem Tree.mem_spec (hk : k ∈ tree) : k.spec ∈ spec := h.spec ▸ mem_map_of_mem hk

theorem Tree.path_inj (hlegible : Legible spec) (hk : k ∈ tree) (hc : c ∈ tree)
    (heq : foldPath k.path = foldPath c.path) : k = c := by
  have hnodup := hlegible.paths
  rw [← h.spec, map_map] at hnodup
  exact inj_on_of_nodup_map hnodup hk hc heq

theorem Tree.offset_inj (hk : k ∈ tree) (hc : c ∈ tree) (heq : k.offset = c.offset) : k = c :=
  inj_on_of_nodup_map h.built.nodup hk hc heq

theorem Tree.path_of_under (hk : k ∈ tree) (hc : c ∈ tree) (hunder : c.IsUnder k.offset) :
    c.path = k.path ++ [c.name] := by
  rcases h.linked.placed c hc with ⟨-, hflags⟩ | ⟨k', hk', hunder', hpath⟩
  · exact absurd hunder.1 hflags
  · rwa [h.offset_inj hk' hk (hunder'.2.symm.trans hunder.2)] at hpath

theorem Tree.countable (hlegible : Legible spec) (hk : k ∈ tree) : (subkeysOf tree k.offset).length < 2 ^ 16 := by
  refine Nat.lt_of_le_of_lt ?_ (hlegible.subkeys k.spec (h.mem_spec hk))
  rw [subkeysOf, length_map, ← countP_eq_length_filter, ← h.spec, countP_map]
  refine countP_mono_left fun c hc hunder => ?_
  have hpath := h.path_of_under hk hc (of_decide_eq_true hunder)
  simp [HiveKey.spec, hpath]

theorem Tree.subkey_eq (hlegible : Legible spec) (hk : k ∈ tree) (hc : c ∈ tree) (hunder : c.IsUnder k.offset) :
    s.builder.subkey (s.builder.nodeAt k.offset) c.name = some (some (s.builder.nodeAt c.offset)) := by
  have hholds := h.built.holds
  have hcount := h.countable hlegible hk
  have hperm := h.linked.items k hk hcount
  have hlength : k.items.length < 2 ^ 16 := by
    have := hperm.length_eq
    rw [length_map] at this
    omega
  have hcells : ∀ x ∈ tree, ∀ r ∈ x.cells, r ∈ tree.flatMap HiveKey.cells := fun x hx r hr => mem_flatMap.2 ⟨x, hx, hr⟩
  unfold HiveBuilder.subkey
  rw [subkeyItems_eq hholds (hcells k hk) (h.built.formed k hk) hlength]
  have hitems : (k.items.map fun item => some item.1) = (k.items.map Prod.fst).map some := by rw [map_map]; rfl
  simp only [bind_eq_bind, bind_some, hitems]
  refine findSubkey_eq hholds (fun o ho => ?_) ?_
  · obtain ⟨x, hx, rfl⟩ := mem_map.1 (hperm.mem_iff.1 ho)
    obtain ⟨hx, hxunder⟩ := mem_filter.1 hx
    have hxunder := of_decide_eq_true hxunder
    have hpath := h.path_of_under hk hx hxunder
    obtain ⟨hascii, hxlength⟩ := hlegible.path x.spec (h.mem_spec hx) x.name (by simp [HiveKey.spec, hpath])
    refine ⟨x, rfl, hcells x hx _ mem_cons_self, h.built.formed x hx, hxunder.1, hascii, hxlength, ?_⟩
    rw [sameName_iff]
    refine ⟨fun hsame => ?_, fun heq => by rw [h.offset_inj hx hc heq]⟩
    have hfold : foldPath x.path = foldPath c.path := by
      rw [hpath, h.path_of_under hk hc hunder]
      simp [foldPath, hsame]
    rw [h.path_inj hlegible hx hc hfold]
  · exact hperm.mem_iff.2 (mem_map.2 ⟨c, mem_filter.2 ⟨hc, decide_eq_true hunder⟩, rfl⟩)

theorem Tree.subpath_eq (hlegible : Legible spec) {root : HiveKey} (hroot : root ∈ tree) (hempty : root.path = [])
    (hk : k ∈ tree) : s.builder.subpath (s.builder.nodeAt root.offset) k.path = some (some (s.builder.nodeAt k.offset)) := by
  generalize hlength : k.path.length = l
  induction l generalizing k with
  | zero =>
    rw [length_eq_zero_iff] at hlength
    have hsame : k = root := h.path_inj hlegible hk hroot (by rw [hlength, hempty])
    rw [hlength, hsame]
    rfl
  | succ l ih =>
    rcases h.linked.placed k hk with ⟨hnil, -⟩ | ⟨p, hp, hunder, hpath⟩
    · rw [hnil] at hlength
      cases hlength
    · have hparent := ih hp (by rw [hpath, length_append, length_singleton] at hlength; omega)
      rw [hpath, subpath_append, hparent]
      simp only [bind_some, Option.elim_some, HiveBuilder.subpath]
      rw [h.subkey_eq hlegible hp hk hunder]
      rfl

end

end XenOS.Hive
