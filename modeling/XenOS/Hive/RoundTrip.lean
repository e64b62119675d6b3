import XenOS.Hive.CellHeap
import XenOS.Hive.Validate

/-! What a builder gives out, read back: the reader finds the tree of the calls in the bytes, except
for data too long for one cell. -/

namespace XenOS.Hive

open General HiveBuilder List

variable {b : HiveBuilder} {tree : List HiveKey} {k : HiveKey} {v : HiveValue} {rs : List Rec} {s s' s₀ : Session}
  {spec : List KeySpec} {ops : List HiveOp} {keys : List ℕ} {fuel n o : ℕ} {name : List Char}

structure KeyDecl where
  parent : Option ℕ
  name : List Char
  values : List (List Char × ℕ × List UInt8)

variable {decls : List KeyDecl}

/-- The keys, the newest first, after one more call. -/
def declStep (decls : List KeyDecl) (op : HiveOp) : List KeyDecl :=
  match op with
  | .createSubkey parent name => if parent < decls.length then ⟨some (decls.length - 1 - parent), name, []⟩ :: decls else decls
  | op => op.setting.elim decls fun s => decls.modify s.1 fun d => { d with values := d.values ++ [s.2] }

def declRun (name : List Char) (ops : List HiveOp) : List KeyDecl := ops.foldl declStep [⟨none, name, []⟩]

def childrenOf (keys : List ℕ) (decls : List KeyDecl) (n : ℕ) : List ℕ :=
  ((keys.zip decls).filter fun c => c.2.parent = some n).map Prod.fst

namespace HiveBuilder

def valueEntry (b : HiveBuilder) (value : KeyValue) : Option (List ℕ × ℕ × List UInt8) := do
  return ((← b.valueName value).units, ← b.dataType value, ← b.valueData value)

def entries (b : HiveBuilder) (node : KeyNode) : Option (List (List ℕ × ℕ × List UInt8)) := do
  (← b.values node).mapM b.valueEntry

end HiveBuilder

/-- The bytes are opened, the base block points to the oldest key, and each key has its subkeys by
name and its values in order. -/
structure RoundTrip (b : HiveBuilder) (keys : List ℕ) (decls : List KeyDecl) : Prop where
  opened : b.openHive = some b
  root : keys.getLast? = some (leValue b.data 36 4)
  handles : keys.Nodup ∧ keys.length = decls.length
  names : ∀ (i o : ℕ) (d : KeyDecl), keys[i]? = some o → decls[i]? = some d → d.parent ≠ none →
    ((b.keyNode o).bind b.keyName).map HiveString.units = some (encodeUtf16 d.name)
  subkeys : ∀ i o : ℕ, keys[i]? = some o → ∃ items : List ℕ, (b.keyNode o).bind b.subkeyItems = some (items.map some) ∧
    items.Perm (childrenOf keys decls (keys.length - 1 - i))
  values : ∀ (i o : ℕ) (d : KeyDecl), keys[i]? = some o → decls[i]? = some d →
    (b.keyNode o).bind b.entries = some (d.values.map fun v => (encodeUtf16 v.1, v.2))

def KeyDecl.resolve (keys : List ℕ) (d : KeyDecl) : Option ℕ × List Char × List (List Char × ℕ × List UInt8) :=
  (d.parent.bind (keys.reverse[·]?), d.name, d.values)

def HiveKey.said (k : HiveKey) : Option ℕ × List Char × List (List Char × ℕ × List UInt8) :=
  (if k.flags = keyCompName then some k.parent else none, k.name, k.values.map HiveValue.setting)

structure Declared (keys : List ℕ) (tree : List HiveKey) (decls : List KeyDecl) : Prop where
  said : tree.map HiveKey.said = decls.map (KeyDecl.resolve keys)
  parents : ∀ p ∈ decls.map KeyDecl.parent, ∀ n, p = some n → n < keys.length

theorem map_modify_comm {α β : Type} {f : α → α} {g : α → β} {u : β → β} (hf : ∀ x, g (f x) = u (g x)) (xs : List α) (i : ℕ) :
    (xs.modify i f).map g = (xs.map g).modify i u := by
  induction xs generalizing i with
  | nil => cases i <;> rfl
  | cons x xs ih => cases i <;> simp [hf, ih]

theorem declStep_setting {op : HiveOp} {setting : ℕ × List Char × ℕ × List UInt8} (hop : op.setting = some setting) :
    declStep decls op = decls.modify setting.1 fun d => { d with values := d.values ++ [setting.2] } := by
  cases op with
  | createSubkey parent name => cases hop
  | _ => simp only [declStep, hop, Option.elim_some]

section
variable (h : Tree s spec tree)
include h

theorem Declared.set (hd : Declared s.keys tree decls) {op : HiveOp} {setting : ℕ × List Char × ℕ × List UInt8}
    (hop : op.setting = some setting) (hret : s.step fuel op = some s') (hlen : s'.builder.len ≤ maxLen) :
    ∃ tree', Tree s' (specStep spec op) tree' ∧ Declared s'.keys tree' (declStep decls op) := by
  obtain ⟨tree', htree, l, k, k', v, r, rfl, hlength, hgained, hv, rfl⟩ := h.set hop hret hlen
  have hkeys : s'.keys = s.keys := by
    obtain ⟨key, name, dataType, data⟩ := setting
    obtain ⟨_, _, -, -, rfl⟩ := Session.step_setting hop hret
    rfl
  have hresolve : ∀ d : KeyDecl, KeyDecl.resolve s.keys { d with values := d.values ++ [setting.2] } =
      ((KeyDecl.resolve s.keys d).1, (KeyDecl.resolve s.keys d).2.1, (KeyDecl.resolve s.keys d).2.2 ++ [setting.2]) := fun _ => rfl
  have hparent : ∀ d : KeyDecl, KeyDecl.parent { d with values := d.values ++ [setting.2] } = d.parent := fun _ => rfl
  refine ⟨_, htree, ?_, ?_⟩
  · have hmodify := modify_middle (l.map HiveKey.said) k.said (r.map HiveKey.said) fun t => (t.1, t.2.1, t.2.2 ++ [setting.2])
    rw [length_map, hlength] at hmodify
    have hsaid := hd.said
    rw [map_append, map_cons] at hsaid
    rw [hkeys, declStep_setting hop, map_modify_comm (u := fun t => (t.1, t.2.1, t.2.2 ++ [setting.2])) hresolve, ← hsaid, hmodify,
      map_append, map_cons, ← hv]
    simp only [HiveKey.said, hgained.flags, hgained.parent, hgained.name, hgained.values, map_append, map_cons, map_nil,
      HiveValue.setting]
  · rw [hkeys, declStep_setting hop, map_modify hparent]
    exact hd.parents

theorem Declared.length_eq (hd : Declared s.keys tree decls) : decls.length = s.keys.length := by
  have hlength := congrArg length hd.said
  rw [length_map, length_map] at hlength
  rw [← hlength, ← h.keys, length_map]

theorem Declared.create (hd : Declared s.keys tree decls) {parent : ℕ}
    (hret : s.step fuel (.createSubkey parent name) = some s') (hlen : s'.builder.len ≤ maxLen) :
    ∃ tree', Tree s' (specStep spec (.createSubkey parent name)) tree' ∧ Declared s'.keys tree' (declStep decls (.createSubkey parent name)) := by
  have hcount := hd.length_eq h
  obtain ⟨tree', htree, l, k, k', r, o, rfl, rfl, hjoined, rfl⟩ := h.create hret hlen
  have hkeys : s'.keys = o :: s.keys := by
    rw [← htree.keys, ← h.keys]
    simp [newKey, hjoined.offset]
  have hlt : l.length < s.keys.length := by
    rw [← h.keys]
    simp
  have hstep : declStep decls (.createSubkey l.length name) = ⟨some (decls.length - 1 - l.length), name, []⟩ :: decls :=
    if_pos (hcount ▸ hlt)
  -- the handles of the older keys have the same numbers
  have holder : ∀ n < s.keys.length, (o :: s.keys).reverse[n]? = s.keys.reverse[n]? := fun n hn => by
    rw [reverse_cons, getElem?_append_left (by simpa using hn)]
  have hparent : (o :: s.keys).reverse[decls.length - 1 - l.length]? = some k.offset := by
    rw [holder _ (by omega), getElem?_reverse (by omega), ← h.keys, hcount]
    have hindex : (map HiveKey.offset (l ++ k :: r)).length - 1 - (s.keys.length - 1 - l.length) = l.length := by
      rw [h.keys]
      omega
    rw [hindex]
    simp
  rw [hstep, hkeys]
  refine ⟨_, htree, ?_, ?_⟩
  · have hsaid : k'.said = k.said := by
      simp only [HiveKey.said, hjoined.flags, hjoined.parent, hjoined.name, hjoined.values]
    have hsame : decls.map (KeyDecl.resolve (o :: s.keys)) = decls.map (KeyDecl.resolve s.keys) := by
      refine map_congr_left fun d hd' => ?_
      unfold KeyDecl.resolve
      cases hp : d.parent with
      | none => rfl
      | some n =>
        rw [Option.bind_some, Option.bind_some, holder n (hd.parents d.parent (mem_map_of_mem hd') n hp)]
    rw [map_cons, map_append, map_cons, hsaid, map_cons, hsame, ← hd.said, map_append, map_cons]
    refine congrArg (· :: _) ?_
    simp only [HiveKey.said, KeyDecl.resolve, newKey, if_true, Option.bind_some, hparent, map_nil]
  · intro p hp n hn
    rw [map_cons] at hp
    rw [length_cons]
    rcases mem_cons.1 hp with rfl | hp
    · have := Option.some.inj hn
      omega
    · exact Nat.lt_succ_of_lt (hd.parents p hp n hn)

theorem Declared.run (hd : Declared s.keys tree decls) (hret : ops.foldlM (Session.step fuel) s = some s')
    (hlen : s'.builder.len ≤ maxLen) : ∃ tree', Tree s' (ops.foldl specStep spec) tree' ∧ Declared s'.keys tree' (ops.foldl declStep decls) := by
  induction ops generalizing s spec tree decls with
  | nil =>
    cases hret
    exact ⟨tree, h, hd⟩
  | cons op ops ih =>
    obtain ⟨s₁, hstep, hrest⟩ := Option.bind_eq_some_iff.1 hret
    have hlen₁ := Nat.le_trans (len_run hrest) hlen
    cases hop : op.setting with
    | some setting =>
      obtain ⟨tree₁, h₁, hd₁⟩ := hd.set h hop hstep hlen₁
      exact ih h₁ hd₁ hrest
    | none =>
      cases op with
      | createSubkey parent name =>
        obtain ⟨tree₁, h₁, hd₁⟩ := hd.create h hstep hlen₁
        exact ih h₁ hd₁ hrest
      | _ => cases hop

end

theorem declared_root (keys : List ℕ) (o : ℕ) (name : List Char) :
    Declared keys [newKey o [] name (keyHiveEntry + keyCompName) 0] [⟨none, name, []⟩] where
  said := rfl
  parents := by
    intro p hp n hn
    rw [map_singleton, mem_singleton] at hp
    rw [hp] at hn
    cases hn

/-- What the calls have to say: ASCII names of at most 65535 bytes, at most 65535 subkeys of a key, and types of
the list. -/
structure Named (decls : List KeyDecl) : Prop where
  names : ∀ d ∈ decls, Ascii d.name ∧ d.name.length < 2 ^ 16
  children : ∀ n, decls.countP (fun d => d.parent = some n) < 2 ^ 16
  values : ∀ d ∈ decls, ∀ v ∈ d.values, Ascii v.1 ∧ v.1.length < 2 ^ 16 ∧ v.2.1 ≤ 11

def Short (decls : List KeyDecl) : Prop := ∀ d ∈ decls, ∀ v ∈ d.values, v.2.2.length ≤ bigDataSegmentSize

/-- No data that are too long for one cell start like a record of big data, with `db`. -/
def Plain (decls : List KeyDecl) : Prop :=
  ∀ d ∈ decls, ∀ v ∈ d.values, bigDataSegmentSize < v.2.2.length → v.2.2.take 2 ≠ [0x64, 0x62]

theorem subkeysOf_eq {all : List ℕ} (hsaid : tree.map HiveKey.said = decls.map (KeyDecl.resolve all)) (hnodup : all.Nodup)
    (ho : all.reverse[n]? = some o) : subkeysOf tree o = childrenOf (tree.map HiveKey.offset) decls n := by
  induction tree generalizing decls with
  | nil => rfl
  | cons k tree ih =>
    cases decls with
    | nil => cases hsaid
    | cons d decls =>
      rw [List.map_cons, List.map_cons, List.cons.injEq] at hsaid
      obtain ⟨hhead, htail⟩ := hsaid
      have hparent : (if k.flags = keyCompName then some k.parent else none) = d.parent.bind (all.reverse[·]?) := congrArg Prod.fst hhead
      have hiff : k.IsUnder o ↔ d.parent = some n := by
        constructor
        · rintro ⟨hflags, hko⟩
          rw [if_pos hflags] at hparent
          obtain ⟨m, hm, hget⟩ := Option.bind_eq_some_iff.1 hparent.symm
          rw [hko] at hget
          obtain ⟨hlt, -⟩ := List.getElem?_eq_some_iff.1 hget
          rw [hm, (List.getElem?_inj hlt (List.nodup_reverse.2 hnodup)).1 (hget.trans ho.symm)]
        · intro hd
          rw [hd, Option.bind_some, ho] at hparent
          by_cases hflags : k.flags = keyCompName
          · rw [if_pos hflags] at hparent
            exact ⟨hflags, Option.some.inj hparent⟩
          · rw [if_neg hflags] at hparent
            cases hparent
      have ih := ih htail
      unfold subkeysOf childrenOf at ih ⊢
      rw [List.map_cons, List.zip_cons_cons, List.filter_cons, List.filter_cons]
      by_cases hunder : k.IsUnder o
      · rw [if_pos (decide_eq_true hunder), if_pos (decide_eq_true (hiff.1 hunder)), List.map_cons, List.map_cons, ih]
      · rw [if_neg (by simpa using hunder), if_neg (by simpa using fun h => hunder (hiff.2 h)), ih]

theorem length_childrenOf_le (keys : List ℕ) (decls : List KeyDecl) (n : ℕ) :
    (childrenOf keys decls n).length ≤ decls.countP fun d => d.parent = some n := by
  induction decls generalizing keys with
  | nil => simp [childrenOf]
  | cons d decls ih =>
    cases keys with
    | nil => simp [childrenOf]
    | cons o keys =>
      have ih := ih keys
      unfold childrenOf at ih ⊢
      rw [zip_cons_cons, filter_cons, countP_cons]
      by_cases hd : d.parent = some n
      · simp only [hd, decide_true, if_true, map_cons, length_cons]
        omega
      · simp only [hd, decide_false, Bool.false_eq_true, if_false, Nat.add_zero]
        exact ih

theorem valueEntry_eq (h : b.Holds rs) (hv : ∀ r ∈ v.cells, r ∈ rs) (hformed : v.Formed) (hsetting : Setting v.setting) :
    b.valueEntry (b.valueAt v.offset) = some (encodeUtf16 v.name, v.dataType, v.data) := by
  have hcell := hv v.cell mem_cons_self
  have hname := valueName_eq h hcell hformed hsetting.readable
  have hdata := valueData_eq h hcell hformed hsetting.readable fun r hr => hv r (mem_cons_of_mem _ hr)
  have hunits : (HiveString.latin1 (nameBytes v.name)).units = encodeUtf16 v.name := units_ascii hsetting.ascii
  unfold HiveBuilder.valueEntry
  rw [hname, dataType_eq h hcell hsetting.readable, hdata]
  simp only [Option.bind_eq_bind, Option.bind_some, Option.pure_def, hunits]

/-- Data that are too long for one cell are not read unless they start like a record. -/
theorem valueEntry_none (h : b.Holds rs) (hv : ∀ r ∈ v.cells, r ∈ rs) (hformed : v.Formed) (hlong : bigDataSegmentSize < v.data.length)
    (hplain : v.data.take 2 ≠ [0x64, 0x62]) : b.valueEntry (b.valueAt v.offset) = none := by
  have hlarge : ¬ v.data.length ≤ 4 := by
    unfold bigDataSegmentSize at hlong
    omega
  obtain ⟨hmem, hlt, hsize, hoffset⟩ := dataFields h hv hformed hlarge
  have hrange : b.cellRange v.dataOffset = some (dataAbs v.dataOffset, b.cellLen v.dataOffset) :=
    (h.cellRange hmem (hformed.dataCell (Nat.lt_of_not_le hlarge))).1
  have hbytes : b.bytes (dataAbs v.dataOffset) v.data.length = v.data := fieldsAt_bytes (h.written _ hmem).2
  -- the first two bytes are not the signature
  have hsignature : leValue b.data (dataAbs v.dataOffset) 2 ≠ bigDataSignature := by
    intro heq
    refine hplain ?_
    have htake : b.bytes (dataAbs v.dataOffset) 2 = v.data.take 2 := by
      rw [← hbytes]
      unfold HiveBuilder.bytes
      rw [← map_take, take_range, Nat.min_eq_left (by omega)]
    rw [← htake]
    have hfirst := (b.data (dataAbs v.dataOffset)).toNat_lt
    simp only [leValue, bigDataSignature] at heq
    have h1 : b.data (dataAbs v.dataOffset) = 0x64 := UInt8.toNat_inj.1 (show _ = 0x64 by omega)
    have h2 : b.data (dataAbs v.dataOffset + 1) = 0x62 := UInt8.toNat_inj.1 (show _ = 0x62 by omega)
    simp only [HiveBuilder.bytes, range_succ, range_zero, nil_append, map_cons, map_nil, Nat.add_zero,
      h1, h2, cons_append]
  have hdata : b.valueData (b.valueAt v.offset) = none := by
    have hmod : v.data.length % dataInOffset = v.data.length := by
      unfold dataInOffset
      omega
    unfold HiveBuilder.valueData HiveBuilder.valueAt
    simp only [hsize, hoffset, hmod, hrange, Option.bind_eq_bind, Option.bind_some]
    rw [if_neg (by unfold dataInOffset; omega), if_neg (by omega)]
    unfold HiveBuilder.bigData
    by_cases hshort : b.cellLen v.dataOffset < 8
    · exact if_pos hshort
    · rw [if_neg hshort, if_pos hsignature]
  unfold HiveBuilder.valueEntry
  rw [hdata]
  cases b.valueName (b.valueAt v.offset) with
  | none => rfl
  | some valueName =>
    cases b.dataType (b.valueAt v.offset) with
    | none => rfl
    | some dataType => rfl

theorem exists_of_mapM {α β : Type} {f : α → Option β} {xs : List α} {ys : List β} (h : xs.mapM f = some ys) :
    ∀ x ∈ xs, ∃ y, f x = some y := by
  induction xs generalizing ys with
  | nil =>
    intro x hx
    cases hx
  | cons x xs ih =>
    rw [mapM_cons] at h
    obtain ⟨y, hy, h⟩ := Option.bind_eq_some_iff.1 h
    obtain ⟨ys', hys, -⟩ := Option.bind_eq_some_iff.1 h
    intro z hz
    rcases mem_cons.1 hz with rfl | hz
    · exact ⟨y, hy⟩
    · exact ih hys z hz

theorem Declared.exists_key (h : Tree s spec tree) (hd : Declared s.keys tree decls) {i : ℕ} (ho : s.keys[i]? = some o) {d : KeyDecl}
    (hi : decls[i]? = some d) : ∃ k ∈ tree, k.offset = o ∧ k.said = d.resolve s.keys := by
  rw [← h.keys, getElem?_map] at ho
  obtain ⟨k, hk, rfl⟩ := Option.map_eq_some_iff.1 ho
  refine ⟨k, mem_of_getElem? hk, rfl, ?_⟩
  have hsaid := congrArg (·[i]?) hd.said
  simp only [getElem?_map, hk, hi, Option.map_some] at hsaid
  exact Option.some.inj hsaid

theorem entries_eq (h : b.Holds rs) (hk : ∀ r ∈ k.cells, r ∈ rs) (hformed : k.Formed) (hvs : ∀ v ∈ k.values, Setting v.setting) :
    b.entries (b.nodeAt k.offset) = some ((k.values.map HiveValue.setting).map fun v => (encodeUtf16 v.1, v.2)) := by
  unfold HiveBuilder.entries
  rw [values_eq h hk hformed, Option.bind_eq_bind, Option.bind_some, mapM_map, map_map]
  refine mapM_eq fun v hv => valueEntry_eq h (fun r hr => hk r ?_) (hformed.values v hv) (hvs v hv)
  exact mem_cons_of_mem _ (mem_append_right _ (mem_flatMap.2 ⟨v, hv, hr⟩))

theorem Declared.roundTrip (h : Tree s spec tree) (hroot : RootFirst s) (hd : Declared s.keys tree decls) (hopen : s.builder.openHive = some s.builder)
    (hnamed : Named decls) (hshort : Short decls) : RoundTrip s.builder s.keys decls := by
  have hholds := h.built.holds
  have hcells : ∀ k ∈ tree, ∀ r ∈ k.cells, r ∈ tree.flatMap HiveKey.cells := fun k hk r hr => List.mem_flatMap.2 ⟨k, hk, hr⟩
  have hnode : ∀ k ∈ tree, s.builder.keyNode k.offset = some (s.builder.nodeAt k.offset) := fun k hk =>
    keyNode_eq hholds (hcells k hk _ List.mem_cons_self) (h.built.formed k hk)
  have hcount := hd.length_eq h
  have hnodup : s.keys.Nodup := h.keys ▸ h.built.nodup
  refine ⟨hopen, hroot.keys.trans (congrArg some hroot.field.symm), ⟨hnodup, hcount.symm⟩, fun i o d ho hi hne => ?_, fun i o ho => ?_,
    fun i o d ho hi => ?_⟩
  · obtain ⟨k, hk, rfl, hsaid⟩ := hd.exists_key h ho hi
    have hflags : k.flags = keyCompName := by
      by_contra hflags
      have hparent : (if k.flags = keyCompName then some k.parent else none) = d.parent.bind (s.keys.reverse[·]?) := congrArg Prod.fst hsaid
      obtain ⟨n, hn⟩ := Option.ne_none_iff_exists'.1 hne
      have hlt := hd.parents d.parent (List.mem_map_of_mem (List.mem_of_getElem? hi)) n hn
      rw [if_neg hflags, hn, Option.bind_some, List.getElem?_eq_getElem (by simpa using hlt)] at hparent
      cases hparent
    have hname : k.name = d.name := congrArg (fun t => t.2.1) hsaid
    obtain ⟨hascii, hlength⟩ := hnamed.names d (List.mem_of_getElem? hi)
    rw [← hname] at hascii hlength
    have hread := keyName_eq hholds (hcells k hk _ List.mem_cons_self) (h.built.formed k hk) hflags ((length_ascii hascii).symm ▸ hlength)
    rw [hnode k hk, Option.bind_some, hread, Option.map_some, units_ascii hascii, hname]
  · rw [← h.keys, List.getElem?_map] at ho
    obtain ⟨k, hk, rfl⟩ := Option.map_eq_some_iff.1 ho
    have hmem := List.mem_of_getElem? hk
    obtain ⟨hlt, hget⟩ := List.getElem?_eq_some_iff.1 hk
    have hlength : tree.length = s.keys.length := by rw [← h.keys, List.length_map]
    have hnumber : s.keys.reverse[s.keys.length - 1 - i]? = some k.offset := by
      rw [List.getElem?_reverse (by omega), show s.keys.length - 1 - (s.keys.length - 1 - i) = i by omega, ← h.keys, List.getElem?_map, hk]
      rfl
    have hchildren : subkeysOf tree k.offset = childrenOf s.keys decls (s.keys.length - 1 - i) := by
      rw [subkeysOf_eq hd.said hnodup hnumber, h.keys]
    have hfew : (subkeysOf tree k.offset).length < 2 ^ 16 := by
      rw [hchildren]
      exact Nat.lt_of_le_of_lt (length_childrenOf_le _ _ _) (hnamed.children _)
    have hperm := h.linked.items k hmem hfew
    have hitems : k.items.length < 2 ^ 16 := by
      have hsame := hperm.length_eq
      rw [List.length_map] at hsame
      omega
    refine ⟨k.items.map Prod.fst, ?_, hchildren ▸ hperm⟩
    rw [hnode k hmem, Option.bind_some, subkeyItems_eq hholds (hcells k hmem) (h.built.formed k hmem) hitems, List.map_map]
    rfl
  · obtain ⟨k, hk, rfl, hsaid⟩ := hd.exists_key h ho hi
    have hvalues : k.values.map HiveValue.setting = d.values := congrArg (fun t => t.2.2) hsaid
    have hdecl := List.mem_of_getElem? hi
    have hvs : ∀ v ∈ k.values, Setting v.setting := fun v hv => by
      have hmem : v.setting ∈ d.values := hvalues ▸ List.mem_map_of_mem hv
      obtain ⟨hascii, hlength, htype⟩ := hnamed.values d hdecl _ hmem
      exact ⟨hascii, hlength, htype, hshort d hdecl _ hmem⟩
    rw [hnode k hk, Option.bind_some, entries_eq hholds (hcells k hk) (h.built.formed k hk) hvs, hvalues]

theorem Declared.short (h : Tree s spec tree) (hd : Declared s.keys tree decls) (hplain : Plain decls) (hround : RoundTrip s.builder s.keys decls) :
    Short decls := by
  have hholds := h.built.holds
  have hcells : ∀ k ∈ tree, ∀ r ∈ k.cells, r ∈ tree.flatMap HiveKey.cells := fun k hk r hr => List.mem_flatMap.2 ⟨k, hk, hr⟩
  intro d hmem v hv
  by_contra hlong
  obtain ⟨i, hi⟩ := List.mem_iff_getElem?.1 hmem
  obtain ⟨hlt, -⟩ := List.getElem?_eq_some_iff.1 hi
  rw [hd.length_eq h] at hlt
  have ho : s.keys[i]? = some s.keys[i] := List.getElem?_eq_getElem hlt
  obtain ⟨k, hk, hoffset, hsaid⟩ := hd.exists_key h ho hi
  have hvalues : k.values.map HiveValue.setting = d.values := congrArg (fun t => t.2.2) hsaid
  obtain ⟨w, hw, rfl⟩ := List.mem_map.1 (hvalues.symm ▸ hv)
  have hread := hround.values i _ d ho hi
  rw [← hoffset, keyNode_eq hholds (hcells k hk _ List.mem_cons_self) (h.built.formed k hk), Option.bind_some] at hread
  unfold HiveBuilder.entries at hread
  rw [values_eq hholds (hcells k hk) (h.built.formed k hk), Option.bind_eq_bind, Option.bind_some] at hread
  obtain ⟨entry, hentry⟩ := exists_of_mapM hread (s.builder.valueAt w.offset) (List.mem_map.2 ⟨w, hw, rfl⟩)
  rw [valueEntry_none hholds (fun r hr => hcells k hk r ?_) ((h.built.formed k hk).values w hw) (Nat.lt_of_not_le hlong)
    (hplain d hmem _ hv (Nat.lt_of_not_le hlong))] at hentry
  · cases hentry
  · exact List.mem_cons_of_mem _ (List.mem_append_right _ (List.mem_flatMap.2 ⟨w, hw, hr⟩))

/-- What a run gives out is opened and reads back as the calls say exactly if all data fit one cell of
the format. -/
theorem roundTrip_iff_short (hnew : Session.new fuel name = some s₀) (hret : ops.foldlM (Session.step fuel) s₀ = some s)
    (hlen : s.builder.len ≤ maxLen) (hbuild : s.builder.build = some b) (hnamed : Named (declRun name ops)) (hplain : Plain (declRun name ops)) :
    RoundTrip b s.keys (declRun name ops) ↔ Short (declRun name ops) := by
  have hlen₀ := Nat.le_trans (len_run hret) hlen
  have hroot₀ := RootFirst.new hnew hlen₀
  obtain ⟨tree, htree, hd⟩ := Declared.run (Tree.new hnew hlen₀) (declared_root s₀.keys _ name) hret hlen
  have hbuilt : Tree { s with builder := b } _ tree := htree.build hbuild
  have hroot : RootFirst { s with builder := b } := (hroot₀.run hret).build hbuild
  have hopen : b.openHive = some b := by
    obtain ⟨-, bins, hheaded, -⟩ := hbuilt.built.holds.owned
    have hfields₀ : s₀.builder.BaseFields := by
      obtain ⟨b₀, hb₀, hnew⟩ := Option.bind_eq_some_iff.1 hnew
      cases hnew
      exact baseFields_new hb₀
    refine hheaded.validate ?_ (build_fields hbuild)
    exact (hfields₀.front (Front.run hret hroot₀.len)).congr fun j hj => (build_spec hbuild).2.2 j (by omega) (by omega)
  exact ⟨fun hround => Declared.short hbuilt hd hplain hround, fun hshort => Declared.roundTrip hbuilt hroot hd hopen hnamed hshort⟩

/-- A key with a value under the root, and a value of the root. -/
def twoKeys : List HiveOp := [.createSubkey 0 ['k'], .setQword 0 ['q'] 5, .setDword 1 ['d'] 7]

theorem roundTrip_twoKeys : ∃ fuel s₀ s b, Session.new fuel ['R'] = some s₀ ∧ foldlM (Session.step fuel) s₀ twoKeys = some s ∧
    s.builder.build = some b ∧ RoundTrip b s.keys (declRun ['R'] twoKeys) := by
  obtain ⟨b, fuel, s₀, s, hnew, hret, hlen, hbuild⟩ := exists_givesOut 2 ['R'] twoKeys (by decide +kernel)
  have hshort : Short (declRun ['R'] twoKeys) := by
    unfold Short
    decide
  have hascii : ∀ {name : List Char}, (name.all fun c => c.toNat < 128) = true → Ascii name := fun h c hc =>
    of_decide_eq_true (all_eq_true.1 h c hc)
  have hnames : ∀ d ∈ declRun ['R'] twoKeys, (d.name.all fun c => c.toNat < 128) = true ∧ d.name.length ≤ 1 := by
    decide
  have hvalues : ∀ d ∈ declRun ['R'] twoKeys, ∀ v ∈ d.values, (v.1.all fun c => c.toNat < 128) = true ∧ v.1.length ≤ 1 ∧ v.2.1 ≤ 11 := by
    decide
  have hnamed : Named (declRun ['R'] twoKeys) :=
    { names := fun d hd => ⟨hascii (hnames d hd).1, Nat.lt_of_le_of_lt (hnames d hd).2 (by decide)⟩
      children := fun n => Nat.lt_of_le_of_lt countP_le_length (by decide)
      values := fun d hd v hv => by
        obtain ⟨hname, hlength, htype⟩ := hvalues d hd v hv
        exact ⟨hascii hname, Nat.lt_of_le_of_lt hlength (by decide), htype⟩ }
  have hplain : Plain (declRun ['R'] twoKeys) := fun d hd v hv hlong => absurd hlong (Nat.not_lt.2 (hshort d hd v hv))
  exact ⟨fuel, s₀, s, b, hnew, hret, hbuild, (roundTrip_iff_short hnew hret hlen hbuild hnamed hplain).2 hshort⟩

namespace HiveBuilder

variable {b' : HiveBuilder} {os : List (ℕ × ℕ)} {p l : ℕ}

theorem exists_writeFields (fields : List (ℕ × ℕ)) (h : p + totalWidth fields ≤ b.len) : ∃ b', b.writeFields p fields = some b' := by
  induction fields generalizing b p with
  | nil => exact ⟨b, rfl⟩
  | cons field fields ih =>
    obtain ⟨n, v⟩ := field
    rw [totalWidth_cons] at h
    obtain ⟨b₁, h1⟩ := exists_write (b := b) (p := p) (n := n) (by omega) v
    obtain ⟨b₂, h2⟩ := ih (b := b₁) (p := p + n) (by rw [len_write h1]; omega)
    exact ⟨b₂, Option.bind_eq_some_iff.2 ⟨b₁, h1, h2⟩⟩

theorem Owned.fits (h : b.Owned os) {o : ℕ × ℕ} (ho : o ∈ os) : hiveBaseBlockSize + o.1 + o.2 ≤ b.len := by
  obtain ⟨-, bins, hheaded, hcells⟩ := h
  obtain ⟨c, hc, hstart, -, hsize⟩ := hcells o ho
  have hbounds := hheaded.toLayout.bounds hc
  omega

theorem len_allocateCell_le (h : b.allocateCell 2 n = some (b', l)) : b'.len ≤ b.len + newBinSize (alignCellSize (cellHeaderSize + n)) := by
  obtain ⟨found, -, h⟩ := Option.bind_eq_some_iff.1 h
  cases found with
  | some found =>
    obtain ⟨b₁, h1, h⟩ := Option.bind_eq_some_iff.1 h
    cases h
    rw [len_takeCell h1]
    exact Nat.le_add_right _ _
  | none =>
    obtain ⟨b₁, h1, h⟩ := Option.bind_eq_some_iff.1 h
    obtain ⟨found, -, h⟩ := Option.bind_eq_some_iff.1 h
    cases found with
    | some found =>
      obtain ⟨b₂, h2, h⟩ := Option.bind_eq_some_iff.1 h
      cases h
      exact Nat.le_of_eq ((len_takeCell h2).trans (len_extendHive h1))
    | none =>
      obtain ⟨b₂, -, h⟩ := Option.bind_eq_some_iff.1 h
      cases h

theorem Owned.exists_allocateCell (h : b.Owned os) (n : ℕ) (hfit : FitsNewBin (alignCellSize (cellHeaderSize + n)))
    (hmax : alignCellSize (cellHeaderSize + n) ≤ 2 ^ 31) (hlen : b.len + newBinSize (alignCellSize (cellHeaderSize + n)) ≤ maxLen) :
    ∃ b' l, b.allocateCell 2 n = some (b', l) ∧ b'.len ≤ b.len + newBinSize (alignCellSize (cellHeaderSize + n)) ∧
      b'.Owned ((l, cellHeaderSize + n) :: os) := by
  obtain ⟨-, bins, hheaded, -⟩ := id h
  obtain ⟨⟨b', l, hret⟩, -⟩ := (hheaded.toLayout.finishesAtOnce_iff hmax).2 (Or.inr hfit)
  have hle := len_allocateCell_le hret
  exact ⟨b', l, hret, hle, (h.allocateCell hret (Nat.le_trans hle hlen)).1⟩

theorem exists_allocateKeyValue (h : b.Owned os) (hlen : b.len ≤ 2 ^ 20) {data : List UInt8} (hlarge : ¬ data.length ≤ 4)
    (hcell : alignCellSize (cellHeaderSize + data.length) = 16352) :
    ∃ b' v, b.allocateKeyValue 2 ['v'] 3 data = some (b', v) ∧ b'.len ≤ b.len + 20480 := by
  obtain ⟨b₁, v, h1, hlen₁, hown₁⟩ := h.exists_allocateCell 21 (by decide) (by decide) (by
    rw [show newBinSize (alignCellSize (cellHeaderSize + 21)) = 4096 from rfl]
    unfold maxLen hiveBaseBlockSize
    omega)
  rw [show newBinSize (alignCellSize (cellHeaderSize + 21)) = 4096 from rfl] at hlen₁
  have hbin : newBinSize 16352 = 16384 := by
    unfold newBinSize defaultBinSize
    omega
  obtain ⟨b₂, d, h2, hlen₂, hown₂⟩ := hown₁.exists_allocateCell data.length (by rw [hcell]; decide) (by rw [hcell]; decide) (by
    rw [hcell, hbin]
    unfold maxLen hiveBaseBlockSize
    omega)
  rw [hcell, hbin] at hlen₂
  have hfitData := hown₂.fits (o := (d, cellHeaderSize + data.length)) mem_cons_self
  have hfitValue := hown₂.fits (o := (v, cellHeaderSize + 21)) (mem_cons_of_mem _ mem_cons_self)
  simp only [hiveBaseBlockSize, cellHeaderSize] at hfitData hfitValue
  have hdataAbs : ∀ o, dataAbs o = 4096 + o + 4 := fun _ => rfl
  obtain ⟨b₃, h3⟩ := exists_writeFields (b := b₂) (p := dataAbs d) (data.map fun byte => (1, byte.toNat)) (by
    rw [totalWidth_bytes, hdataAbs]
    omega)
  have hlen₃ : b₃.len = b₂.len := (within_writeFields h3).len
  have hstore : b₁.storeData 2 data = some (b₃, d, data.length % 2 ^ 32) := by
    unfold HiveBuilder.storeData
    rw [if_neg hlarge]
    exact Option.bind_eq_some_iff.2 ⟨(b₂, d), h2, Option.bind_eq_some_iff.2 ⟨b₃, h3, rfl⟩⟩
  obtain ⟨b₄, h4⟩ := exists_writeFields (b := b₃) (p := dataAbs v) (keyValueHeader 1 (data.length % 2 ^ 32) d 3 valueCompName) (by
    rw [totalWidth_keyValueHeader, hlen₃, hdataAbs]
    omega)
  have hlen₄ : b₄.len = b₃.len := (within_writeFields h4).len
  obtain ⟨b₅, h5⟩ := exists_writeFields (b := b₄) (p := dataAbs v + keyValueHeaderSize)
    ((nameBytes ['v']).map fun byte => (1, byte.toNat)) (by
      rw [totalWidth_bytes, show (nameBytes ['v']).length = 1 from rfl, hlen₄, hlen₃, hdataAbs]
      unfold keyValueHeaderSize
      omega)
  refine ⟨b₅, v, Option.bind_eq_some_iff.2 ⟨(b₁, v), h1, Option.bind_eq_some_iff.2 ⟨_, hstore, Option.bind_eq_some_iff.2 ⟨b₄, h4,
    Option.bind_eq_some_iff.2 ⟨b₅, h5, rfl⟩⟩⟩⟩, ?_⟩
  rw [(within_writeFields h5).len, hlen₄, hlen₃]
  omega

theorem exists_addValueToKey (h : b.Holds rs) (hlen : b.len ≤ 2 ^ 21) (hk : k.cell ∈ rs) (hformed : k.Formed) (hnone : k.valuesList = none) (v : ℕ) :
    ∃ b', b.addValueToKey 2 k.offset v = some b' ∧ b'.len ≤ b.len + 4096 := by
  have hfit := h.owned.fits (o := k.cell.cell) (mem_map.2 ⟨k.cell, hk, rfl⟩)
  simp only [Rec.cell, HiveKey.cell, hiveBaseBlockSize, cellHeaderSize, keyNodeHeaderSize] at hfit
  have hdataAbs : ∀ o, dataAbs o = 4096 + o + 4 := fun _ => rfl
  have hlist : b.readU32 (dataAbs k.offset + 40) = some u32Max := by
    have hfield := h.fieldAt hk (k.before20 ++ [(4, k.subkeyCount), (4, 0), (4, k.subkeysList.getD u32Max), (4, u32Max), (4, k.values.length)])
      40 4 (k.valuesList.getD u32Max) rfl rfl
    rw [hnone] at hfield
    exact (read_eq (by rw [hdataAbs]; omega)).trans (congrArg some hfield)
  have hcount : b.readU32 (dataAbs k.offset + 36) = some 0 := by
    have hfield := h.fieldAt hk (k.before20 ++ [(4, k.subkeyCount), (4, 0), (4, k.subkeysList.getD u32Max), (4, u32Max)])
      36 4 k.values.length rfl rfl
    rw [hformed.noValues hnone] at hfield
    exact (read_eq (by rw [hdataAbs]; omega)).trans (congrArg some hfield)
  obtain ⟨b₁, l, h1, hlen₁, hown₁⟩ := h.owned.exists_allocateCell 4 (by decide) (by decide) (by
    rw [show newBinSize (alignCellSize (cellHeaderSize + 4)) = 4096 from rfl]
    unfold maxLen hiveBaseBlockSize
    omega)
  rw [show newBinSize (alignCellSize (cellHeaderSize + 4)) = 4096 from rfl] at hlen₁
  have hfitList := hown₁.fits (o := (l, cellHeaderSize + 4)) mem_cons_self
  simp only [hiveBaseBlockSize, cellHeaderSize] at hfitList
  have hgrown := len_allocateCell h1
  obtain ⟨b₂, h2⟩ := exists_writeFields (b := b₁) (p := dataAbs l) [(4, v)] (by
    rw [show totalWidth [(4, v)] = 4 from rfl, hdataAbs]
    omega)
  have hlen₂ : b₂.len = b₁.len := (within_writeFields h2).len
  obtain ⟨b₃, h3⟩ := exists_write (b := b₂) (p := dataAbs k.offset + 40) (n := 4) (by rw [hlen₂, hdataAbs]; omega) l
  have hlen₃ : b₃.len = b₂.len := len_write h3
  obtain ⟨b₄, h4⟩ := exists_write (b := b₃) (p := dataAbs k.offset + 36) (n := 4) (by rw [hlen₃, hlen₂, hdataAbs]; omega) 1
  have hcreate : b.createValuesList 2 [v] = some (b₂, l) := Option.bind_eq_some_iff.2 ⟨(b₁, l), h1, Option.bind_eq_some_iff.2 ⟨b₂, h2, rfl⟩⟩
  have hreplace : b.replaceValuesList 2 k.offset u32Max v = some b₃ := by
    unfold HiveBuilder.replaceValuesList
    rw [if_pos rfl]
    exact Option.bind_eq_some_iff.2 ⟨(b₂, l), hcreate, h3⟩
  refine ⟨b₄, Option.bind_eq_some_iff.2 ⟨_, hlist, Option.bind_eq_some_iff.2 ⟨_, hcount, Option.bind_eq_some_iff.2 ⟨b₃, hreplace,
    Option.bind_eq_some_iff.2 ⟨1, rfl, h4⟩⟩⟩⟩, ?_⟩
  rw [len_write h4, hlen₃, hlen₂]
  exact hlen₁

end HiveBuilder

theorem exists_setBinary {data : List UInt8} (hlarge : ¬ data.length ≤ 4) (hcell : alignCellSize (cellHeaderSize + data.length) = 16352) :
    ∃ s₀ s b, Session.new 2 ['R'] = some s₀ ∧ foldlM (Session.step 2) s₀ [.setBinary 0 ['v'] data] = some s ∧
      s.builder.len ≤ maxLen ∧ s.builder.build = some b := by
  have heval : (Session.new 2 ['R']).any (fun s => s.builder.len == 8192 && s.builder.sequenceNumber == 1) = true := by
    decide +kernel
  obtain ⟨s₀, hnew, hboth⟩ := (Option.any_eq_true _ _).1 heval
  rw [Bool.and_eq_true, beq_iff_eq, beq_iff_eq] at hboth
  obtain ⟨hlen₀, hsequence⟩ := hboth
  have htree := Tree.new hnew (by rw [hlen₀]; decide)
  have hmem : HiveKey.cell (newKey s₀.builder.rootKeyOffset [] ['R'] (keyHiveEntry + keyCompName) 0) ∈
      [newKey s₀.builder.rootKeyOffset [] ['R'] (keyHiveEntry + keyCompName) 0].flatMap HiveKey.cells := mem_cons_self
  obtain ⟨b₁, v, h1, hlen₁⟩ := exists_allocateKeyValue htree.built.holds.owned (by rw [hlen₀]; decide) hlarge hcell
  obtain ⟨v', hholds, -, -, -, -, -⟩ := holds_allocateKeyValue htree.built.holds h1 (by unfold maxLen; omega)
  obtain ⟨b₂, h2, hlen₂⟩ := exists_addValueToKey hholds (by omega) (mem_append_right _ hmem)
    (htree.built.formed _ (mem_singleton.2 rfl)) rfl v
  have hset : s₀.builder.setValueInternal 2 s₀.builder.rootKeyOffset ['v'] 3 data = some b₂ :=
    Option.bind_eq_some_iff.2 ⟨(b₁, v), h1, h2⟩
  have hstep : Session.step 2 s₀ (.setBinary 0 ['v'] data) = some { s₀ with builder := b₂ } := by
    have hkey : s₀.keys[0]? = some s₀.builder.rootKeyOffset := by
      rw [← htree.keys]
      rfl
    exact Option.bind_eq_some_iff.2 ⟨_, hkey, Option.bind_eq_some_iff.2 ⟨b₂, hset, rfl⟩⟩
  have hret : foldlM (Session.step 2) s₀ [.setBinary 0 ['v'] data] = some { s₀ with builder := b₂ } :=
    Option.bind_eq_some_iff.2 ⟨_, hstep, rfl⟩
  have hfront := Front.step hstep (by rw [hlen₀]; decide)
  have hgrown := len_step hstep
  rw [hlen₀] at hgrown
  obtain ⟨b₃, h3⟩ := exists_write (b := b₂) (p := 4) (n := 4) (by simp only at hgrown; omega) 2
  obtain ⟨b₄, h4⟩ := exists_write (b := b₃) (p := 8) (n := 4) (by rw [len_write h3]; simp only at hgrown; omega) 2
  obtain ⟨b₅, h5⟩ := exists_write (b := b₄) (p := 508) (n := 4) (by rw [len_write h4, len_write h3]; simp only at hgrown; omega)
    b₄.computeChecksum
  have hchecked : checked (b₂.sequenceNumber + 1) = some 2 := by
    rw [show b₂.sequenceNumber = 1 from hfront.sequenceNumber.trans hsequence]
    rfl
  refine ⟨s₀, _, b₅, hnew, hret, ?_, Option.bind_eq_some_iff.2 ⟨2, hchecked, Option.bind_eq_some_iff.2 ⟨b₃, h3,
    Option.bind_eq_some_iff.2 ⟨b₄, h4, h5⟩⟩⟩⟩
  unfold maxLen
  simp only
  omega

/-- A value of 16345 zeros is written as one cell, and read as a record of big data. -/
theorem roundTrip_fails_longValue : ∃ s₀ s b, Session.new 2 ['R'] = some s₀ ∧
    foldlM (Session.step 2) s₀ [.setBinary 0 ['v'] (replicate 16345 0)] = some s ∧ s.builder.build = some b ∧
    ¬ RoundTrip b s.keys (declRun ['R'] [.setBinary 0 ['v'] (replicate 16345 0)]) := by
  have hlength : (replicate 16345 (0 : UInt8)).length = 16345 := length_replicate
  have htake : (replicate 16345 (0 : UInt8)).take 2 = [0, 0] := take_replicate
  revert hlength htake
  generalize replicate 16345 (0 : UInt8) = data
  intro hlength htake
  have hcell : alignCellSize (cellHeaderSize + data.length) = 16352 := by
    rw [hlength]
    decide
  obtain ⟨s₀, s, b, hnew, hret, hlen, hbuild⟩ := exists_setBinary (by rw [hlength]; decide) hcell
  refine ⟨s₀, s, b, hnew, hret, hbuild, fun hround => ?_⟩
  have hdecl : declRun ['R'] [.setBinary 0 ['v'] data] = [⟨none, ['R'], [(['v'], 3, data)]⟩] := rfl
  obtain ⟨tree, htree, hd⟩ := Declared.run (Tree.new hnew (Nat.le_trans (len_run hret) hlen)) (declared_root s₀.keys _ ['R']) hret hlen
  have hplain : Plain (declRun ['R'] [.setBinary 0 ['v'] data]) := by
    intro d hd v hv _
    rw [hdecl] at hd
    rw [mem_singleton.1 hd] at hv
    rw [mem_singleton.1 hv, htake]
    decide
  have hshort := Declared.short (htree.build hbuild) hd hplain hround
  have hle := hshort _ (hdecl ▸ mem_singleton.2 rfl) (['v'], 3, data) (mem_singleton.2 rfl)
  rw [hlength] at hle
  revert hle
  decide

end XenOS.Hive
