import XenOS.Hive.Contents

/-! The tree that a builder has built. Each key has its node and its two lists, each value its cell,
and data of more than four bytes their own; the cells are all different. -/

namespace XenOS.Hive

open General HiveBuilder List
open Option (bind_eq_some_iff)

structure HiveValue where
  offset : ℕ
  name : List Char
  dataType : ℕ
  data : List UInt8
  /-- The offset field: the data or their cell. -/
  dataOffset : ℕ

structure HiveKey where
  offset : ℕ
  /-- The names from the root on, its own the last; not in the buffer. -/
  path : List (List Char)
  name : List Char
  flags : ℕ
  parent : ℕ
  subkeyCount : ℕ
  maxSubkeyName : ℕ
  subkeysList : Option ℕ
  /-- The offsets of the subkeys with the hashes of their names. -/
  items : List (ℕ × ℕ)
  valuesList : Option ℕ
  values : List HiveValue

def bytesFields (bytes : List UInt8) : List (ℕ × ℕ) := bytes.map fun byte => (1, byte.toNat)

namespace HiveValue

def dataSize (v : HiveValue) : ℕ := if v.data.length ≤ 4 then v.data.length + dataInOffset else v.data.length % 2 ^ 32

def flags (v : HiveValue) : ℕ := if (nameBytes v.name).all (· < 128) then valueCompName else 0

def fields (v : HiveValue) : List (ℕ × ℕ) :=
  keyValueHeader (nameBytes v.name).length v.dataSize v.dataOffset v.dataType v.flags ++ bytesFields (nameBytes v.name)

def cell (v : HiveValue) : Rec := ⟨v.offset, cellHeaderSize + (keyValueHeaderSize + (nameBytes v.name).length), v.fields⟩

def dataCells (v : HiveValue) : List Rec :=
  if v.data.length ≤ 4 then [] else [⟨v.dataOffset, cellHeaderSize + v.data.length, bytesFields v.data⟩]

def cells (v : HiveValue) : List Rec := v.cell :: v.dataCells

structure Formed (v : HiveValue) : Prop where
  offset : v.offset < u32Max
  dataCell : 4 < v.data.length → v.dataOffset < u32Max
  inOffset : v.data.length ≤ 4 → v.dataOffset = leValue (fun i => v.data.getD i 0) 0 v.data.length

end HiveValue

namespace HiveKey

/-- The node up to the pointer to the subkeys, from there to that to the values, and the rest. -/
def fields (k : HiveKey) : List (ℕ × ℕ) :=
  [(2, 0x6b6e), (2, k.flags), (8, 0), (4, 0), (4, k.parent), (4, k.subkeyCount), (4, 0), (4, k.subkeysList.getD u32Max), (4, u32Max),
    (4, k.values.length), (4, k.valuesList.getD u32Max), (4, u32Max), (4, u32Max), (4, k.maxSubkeyName), (4, 0), (4, 0), (4, 0), (4, 0),
    (2, (nameBytes k.name).length), (2, 0)] ++ bytesFields (nameBytes k.name)

def cell (k : HiveKey) : Rec := ⟨k.offset, cellHeaderSize + (keyNodeHeaderSize + (nameBytes k.name).length), k.fields⟩

def itemsFields (items : List (ℕ × ℕ)) : List (ℕ × ℕ) :=
  [(2, hashLeafSignature), (2, items.length)] ++ items.flatMap fun item => [(4, item.1), (4, item.2)]

def itemsCell (offset : ℕ) (items : List (ℕ × ℕ)) : Rec := ⟨offset, cellHeaderSize + (4 + items.length * 8), itemsFields items⟩

def subkeysCells (k : HiveKey) : List Rec := k.subkeysList.toList.map fun l => itemsCell l k.items

def valuesCells (k : HiveKey) : List Rec :=
  k.valuesList.toList.map fun l => ⟨l, cellHeaderSize + k.values.length * 4, k.values.map fun v => (4, v.offset)⟩

def cells (k : HiveKey) : List Rec := k.cell :: (k.subkeysCells ++ k.valuesCells ++ k.values.flatMap HiveValue.cells)

structure Formed (k : HiveKey) : Prop where
  offset : k.offset < u32Max
  subkeysList : ∀ l, k.subkeysList = some l → l < u32Max
  valuesList : ∀ l, k.valuesList = some l → l < u32Max
  items : ∀ item ∈ k.items, item.1 < u32Max ∧ item.2 < 2 ^ 32
  values : ∀ v ∈ k.values, v.Formed
  noItems : k.subkeysList = none → k.items = []
  noValues : k.valuesList = none → k.values = []
  count : k.values.length < 2 ^ 32

end HiveKey

structure Built (b : HiveBuilder) (tree : List HiveKey) : Prop where
  holds : b.Holds (tree.flatMap HiveKey.cells)
  formed : ∀ k ∈ tree, k.Formed
  closed : ∀ k ∈ tree, ∀ item ∈ k.items, item.1 ∈ tree.map HiveKey.offset

variable {b b' b₁ b₂ b₃ : HiveBuilder} {tree l r : List HiveKey} {k k' : HiveKey} {rs : List Rec} {fuel n o : ℕ} {name : List Char}

theorem writeFields_append {b : HiveBuilder} {p : ℕ} {xs ys : List (ℕ × ℕ)} (h1 : b.writeFields p xs = some b₁)
    (h2 : b₁.writeFields (p + totalWidth xs) ys = some b₂) : b.writeFields p (xs ++ ys) = some b₂ := by
  induction xs generalizing b p with
  | nil =>
    cases h1
    exact h2
  | cons x xs ih =>
    obtain ⟨m, v⟩ := x
    obtain ⟨b₀, h0, h1⟩ := bind_eq_some_iff.1 h1
    rw [totalWidth_cons, ← Nat.add_assoc] at h2
    exact bind_eq_some_iff.2 ⟨b₀, h0, ih h1 h2⟩

theorem totalWidth_bytesFields (bytes : List UInt8) : totalWidth (bytesFields bytes) = bytes.length := totalWidth_bytes bytes

def newKey (offset : ℕ) (path : List (List Char)) (name : List Char) (flags parent : ℕ) : HiveKey :=
  ⟨offset, path, name, flags, parent, 0, 0, none, [], none, []⟩

theorem newKey_fields (offset : ℕ) (path : List (List Char)) (name : List Char) (flags parent : ℕ) :
    (newKey offset path name flags parent).fields =
    keyNodeHeader flags parent (nameBytes name).length ++ bytesFields (nameBytes name) := rfl

variable {parent flags : ℕ}

theorem holds_allocateKeyNode (path : List (List Char)) (h : b.Holds rs)
    (hret : b.allocateKeyNode fuel name parent flags = some (b', o)) (hlen : b'.len ≤ maxLen) :
    b'.Holds ((newKey o path name flags parent).cells ++ rs) ∧ o < u32Max := by
  obtain ⟨⟨b₁, l⟩, h1, hret⟩ := bind_eq_some_iff.1 hret
  obtain ⟨b₂, h2, hret⟩ := bind_eq_some_iff.1 hret
  obtain ⟨b₃, h3, hret⟩ := bind_eq_some_iff.1 hret
  cases hret
  have hlen₁ : b₁.len ≤ maxLen := by rwa [← (within_writeFields h2).len, ← (within_copyFromSlice h3).len]
  obtain ⟨hholds, hl⟩ := h.allocateCell h1 hlen₁
  have hwidth : totalWidth (keyNodeHeader flags parent (nameBytes name).length) = keyNodeHeaderSize := totalWidth_keyNodeHeader ..
  have hwrite : b₁.writeFields (dataAbs o) (newKey o path name flags parent).fields = some b' := by
    rw [newKey_fields]
    exact writeFields_append h2 (hwidth.symm ▸ h3)
  refine ⟨hholds.writeFields hwrite ?_, hl⟩
  exact Nat.le_of_eq (by rw [newKey_fields, totalWidth_append, hwidth, totalWidth_bytesFields])

theorem formed_newKey {path : List (List Char)} (ho : o < u32Max) :
    (newKey o path name flags parent).Formed where
  offset := ho
  subkeysList _ h := by cases h
  valuesList _ h := by cases h
  items _ h := by cases h
  values _ h := by cases h
  noItems _ := rfl
  noValues _ := rfl
  count := show 0 < 2 ^ 32 by decide

theorem Built.allocateKeyNode (path : List (List Char)) (h : Built b tree)
    (hret : b.allocateKeyNode fuel name parent flags = some (b', o)) (hlen : b'.len ≤ maxLen) :
    Built b' (newKey o path name flags parent :: tree) := by
  obtain ⟨hholds, ho⟩ := holds_allocateKeyNode path h.holds hret hlen
  refine ⟨by rwa [flatMap_cons], fun k hk => ?_, fun k hk item hitem => ?_⟩
  · rcases mem_cons.1 hk with rfl | hk
    · exact formed_newKey ho
    · exact h.formed k hk
  · rcases mem_cons.1 hk with rfl | hk
    · cases hitem
    · exact mem_cons_of_mem _ (h.closed k hk item hitem)

variable {items : List (ℕ × ℕ)}

theorem holds_createSubkeysList (h : b.Holds rs) (hret : b.createSubkeysList fuel items = some (b', n))
    (hlen : b'.len ≤ maxLen) :
    b'.Holds (HiveKey.itemsCell n items :: rs) ∧ n < u32Max := by
  obtain ⟨⟨b₁, l⟩, h1, hret⟩ := bind_eq_some_iff.1 hret
  obtain ⟨b₂, h2, hret⟩ := bind_eq_some_iff.1 hret
  obtain ⟨b₃, h3, hret⟩ := bind_eq_some_iff.1 hret
  cases hret
  have hlen₁ : b₁.len ≤ maxLen := by rwa [← (within_writeFields h2).len, ← (within_writeFields h3).len]
  obtain ⟨hholds, hl⟩ := h.allocateCell h1 hlen₁
  refine ⟨hholds.writeFields (writeFields_append h2 h3) ?_, hl⟩
  exact Nat.le_of_eq (by rw [HiveKey.itemsFields, totalWidth_append, totalWidth_pairs]; rfl)

theorem holds_createValuesList {offsets : List ℕ} (h : b.Holds rs) (hret : b.createValuesList fuel offsets = some (b', n))
    (hlen : b'.len ≤ maxLen) :
    b'.Holds (⟨n, cellHeaderSize + offsets.length * 4, offsets.map fun offset => (4, offset)⟩ :: rs) ∧ n < u32Max := by
  obtain ⟨⟨b₁, l⟩, h1, hret⟩ := bind_eq_some_iff.1 hret
  obtain ⟨b₂, h2, hret⟩ := bind_eq_some_iff.1 hret
  cases hret
  have hlen₁ : b₁.len ≤ maxLen := by rwa [← (within_writeFields h2).len]
  obtain ⟨hholds, hl⟩ := h.allocateCell h1 hlen₁
  refine ⟨hholds.writeFields h2 ?_, hl⟩
  exact Nat.le_of_eq (by rw [totalWidth_const 4 (fun offset => offset) offsets])

variable {α : Type}

theorem filterMap_range (xs : List α) (n : ℕ) : (range n).filterMap (xs[·]?) = xs.take n := by
  induction n with
  | zero => rfl
  | succ n ih =>
    rw [range_succ, filterMap_append, ih, take_add_one]
    cases hx : xs[n]? <;> simp [hx]

theorem mapM_filterMap {f : ℕ → Option α} {xs ys : List α} {is : List ℕ}
    (h : ∀ i y, ∀ hi : i < xs.length, f i = some y → y = xs[i]) (hlt : ∀ i ∈ is, i < xs.length)
    (hret : is.mapM f = some ys) :
    ys = is.filterMap (xs[·]?) := by
  induction is generalizing ys with
  | nil =>
    cases hret
    rfl
  | cons i is ih =>
    rw [mapM_cons] at hret
    obtain ⟨y, hy, hret⟩ := bind_eq_some_iff.1 hret
    obtain ⟨ys', hys', hret⟩ := bind_eq_some_iff.1 hret
    cases hret
    have hi := hlt i (by simp)
    rw [h i y hi hy, ih (fun j hj => hlt j (by simp [hj])) hys']
    simp [hi]

theorem mapM_range {f : ℕ → Option α} {xs ys : List α} (hn : n ≤ xs.length)
    (h : ∀ i y, ∀ hi : i < xs.length, f i = some y → y = xs[i]) (hret : (range n).mapM f = some ys) :
    ys = xs.take n := by
  rw [mapM_filterMap h (fun i hi => Nat.lt_of_lt_of_le (mem_range.1 hi) hn) hret, filterMap_range]

variable {i : ℕ}

theorem flatMap_split {xs : List (ℕ × ℕ)} (hi : i < xs.length) (g : ℕ × ℕ → List (ℕ × ℕ)) :
    xs.flatMap g = (xs.take i).flatMap g ++ (g xs[i] ++ (xs.drop (i + 1)).flatMap g) := by
  have hxs : xs = xs.take i ++ xs[i] :: xs.drop (i + 1) := by
    rw [← drop_eq_getElem_cons hi, take_append_drop]
  exact (congrArg (flatMap g) hxs).trans (by rw [flatMap_append, flatMap_cons])

variable {size : ℕ}

theorem HiveBuilder.Holds.item {list v : ℕ} (h : b.Holds rs)
    (hr : (⟨list, size, HiveKey.itemsFields items⟩ : Rec) ∈ rs) (hi : i < items.length) :
    (b.readU32 (dataAbs list + 4 + i * 8) = some v → v = items[i].1 % 2 ^ 32) ∧
      (b.readU32 (dataAbs list + 4 + i * 8 + 4) = some v → v = items[i].2 % 2 ^ 32) := by
  have hsplit : HiveKey.itemsFields items = ([(2, hashLeafSignature), (2, items.length)] ++
      (items.take i).flatMap fun item => [(4, item.1), (4, item.2)]) ++ (4, items[i].1) :: (4, items[i].2) ::
      (items.drop (i + 1)).flatMap fun item => [(4, item.1), (4, item.2)] := by
    rw [HiveKey.itemsFields, flatMap_split hi]
    simp
  have hwidth : totalWidth ([(2, hashLeafSignature), (2, items.length)] ++
      (items.take i).flatMap fun item => [(4, item.1), (4, item.2)]) = 4 + i * 8 := by
    rw [totalWidth_append, totalWidth_pairs, length_take, Nat.min_eq_left (Nat.le_of_lt hi)]
    rfl
  constructor
  · intro hread
    refine h.read hr hsplit ?_
    rw [hwidth, ← Nat.add_assoc]
    exact hread
  · intro hread
    refine h.read hr (hsplit.trans (append_assoc _ [(4, items[i].1)] _).symm) ?_
    rw [totalWidth_append, hwidth, ← Nat.add_assoc, ← Nat.add_assoc]
    exact hread

def besideSubkeys (k : HiveKey) (tree : List HiveKey) : List Rec :=
  k.valuesCells ++ k.values.flatMap HiveValue.cells ++ tree.flatMap HiveKey.cells

theorem subkeys_perm (k : HiveKey) (l r : List HiveKey) :
    ((l ++ k :: r).flatMap HiveKey.cells).Perm (k.subkeysCells ++ k.cell :: besideSubkeys k (l ++ r)) := by
  simp only [flatMap_append, flatMap_cons, HiveKey.cells, besideSubkeys]
  have hmid : (k.cell :: (k.subkeysCells ++ k.valuesCells ++ k.values.flatMap HiveValue.cells)).Perm
      (k.subkeysCells ++ k.cell :: (k.valuesCells ++ k.values.flatMap HiveValue.cells)) := by
    rw [append_assoc]
    exact perm_middle.symm
  have hleft : (l.flatMap HiveKey.cells ++ ((k.cell :: (k.subkeysCells ++ k.valuesCells ++ k.values.flatMap HiveValue.cells)) ++
      r.flatMap HiveKey.cells)).Perm ((k.subkeysCells ++ k.cell :: (k.valuesCells ++ k.values.flatMap HiveValue.cells)) ++
      (l.flatMap HiveKey.cells ++ r.flatMap HiveKey.cells)) := by
    refine (perm_append_comm_assoc _ _ _).trans ?_
    exact hmid.append_right _
  refine hleft.trans ?_
  simp

def insertItem (items : List (ℕ × ℕ)) (item : ℕ × ℕ) : List (ℕ × ℕ) :=
  (items.take (items.length % 2 ^ 16) ++ [item]).mergeSort fun item item' => item.2 ≤ item'.2

theorem holds_extendSubkeysList {list child hash : ℕ}
    (h : b.Holds (⟨list, size, HiveKey.itemsFields items⟩ :: rs))
    (hitems : ∀ item ∈ items, item.1 < u32Max ∧ item.2 < 2 ^ 32)
    (hret : b.extendSubkeysList fuel list child hash = some (b', n)) (hlen : b'.len ≤ maxLen) :
    b'.Holds (HiveKey.itemsCell n (insertItem items (child, hash)) :: rs) ∧ n < u32Max := by
  obtain ⟨count, hcount, hret⟩ := bind_eq_some_iff.1 hret
  obtain ⟨read, hread, hret⟩ := bind_eq_some_iff.1 hret
  obtain ⟨b₁, h1, hret⟩ := bind_eq_some_iff.1 hret
  have hfields : HiveKey.itemsFields items = [(2, hashLeafSignature)] ++ (2, items.length) ::
      items.flatMap fun item => [(4, item.1), (4, item.2)] := rfl
  have hcount' : count = items.length % 2 ^ 16 := h.read mem_cons_self hfields hcount
  have hread' : read = items.take (items.length % 2 ^ 16) := by
    rw [← hcount']
    refine mapM_range (by rw [hcount']; exact Nat.mod_le _ _) (fun i y hi hy => ?_) hread
    obtain ⟨offset, hoffset, hy⟩ := bind_eq_some_iff.1 hy
    obtain ⟨itemHash, hhash, hy⟩ := bind_eq_some_iff.1 hy
    cases hy
    have hbound := hitems items[i] (getElem_mem hi)
    unfold u32Max at hbound
    have h4 := (Holds.item h mem_cons_self hi).1 hoffset
    have h8 := (Holds.item h mem_cons_self hi).2 hhash
    rw [Nat.mod_eq_of_lt (by omega)] at h4 h8
    rw [h4, h8]
  have hholds := h.freeCell (r := ⟨list, size, HiveKey.itemsFields items⟩) h1
  rw [hread'] at hret
  exact holds_createSubkeysList hholds hret hlen

def HiveKey.before20 (k : HiveKey) : List (ℕ × ℕ) := [(2, 0x6b6e), (2, k.flags), (8, 0), (4, 0), (4, k.parent)]

def HiveKey.nodeFields (k : HiveKey) (subkeyCount list count valuesList max : ℕ) : List (ℕ × ℕ) :=
  k.before20 ++ [(4, subkeyCount), (4, 0), (4, list), (4, u32Max), (4, count), (4, valuesList), (4, u32Max), (4, u32Max), (4, max),
    (4, 0), (4, 0), (4, 0), (4, 0), (2, (nameBytes k.name).length), (2, 0)] ++ bytesFields (nameBytes k.name)

def HiveKey.node (k : HiveKey) (subkeyCount list count valuesList max : ℕ) : Rec :=
  ⟨k.offset, cellHeaderSize + (keyNodeHeaderSize + (nameBytes k.name).length), k.nodeFields subkeyCount list count valuesList max⟩

section Node

variable {subkeyCount list count valuesList max v : ℕ}

section
variable (h : b.Holds (k.node subkeyCount list count valuesList max :: rs))
include h

theorem HiveBuilder.Holds.setSubkeyCount
    (hw : b.writeU32 (dataAbs k.offset + 20) v = some b') : b'.Holds (k.node v list count valuesList max :: rs) :=
  h.writeFieldAfter k.before20 hw

theorem HiveBuilder.Holds.setSubkeysList
    (hw : b.writeU32 (dataAbs k.offset + 28) v = some b') : b'.Holds (k.node subkeyCount v count valuesList max :: rs) :=
  h.writeFieldAfter (k.before20 ++ [(4, subkeyCount), (4, 0)]) hw

theorem HiveBuilder.Holds.setValuesCount
    (hw : b.writeU32 (dataAbs k.offset + 36) v = some b') : b'.Holds (k.node subkeyCount list v valuesList max :: rs) :=
  h.writeFieldAfter (k.before20 ++ [(4, subkeyCount), (4, 0), (4, list), (4, u32Max)]) hw

theorem HiveBuilder.Holds.setValuesList
    (hw : b.writeU32 (dataAbs k.offset + 40) v = some b') : b'.Holds (k.node subkeyCount list count v max :: rs) :=
  h.writeFieldAfter (k.before20 ++ [(4, subkeyCount), (4, 0), (4, list), (4, u32Max), (4, count)]) hw

theorem HiveBuilder.Holds.setMaxSubkeyName
    (hw : b.writeU32 (dataAbs k.offset + 52) v = some b') : b'.Holds (k.node subkeyCount list count valuesList v :: rs) :=
  h.writeFieldAfter (k.before20 ++ [(4, subkeyCount), (4, 0), (4, list), (4, u32Max), (4, count), (4, valuesList), (4, u32Max),
    (4, u32Max)]) hw

end

end Node

theorem HiveBuilder.Holds.readSubkeysList (h : b.Holds rs) (hk : k.cell ∈ rs) (hformed : k.Formed) {list : ℕ}
    (hread : b.readU32 (dataAbs k.offset + 28) = some list) : list = k.subkeysList.getD u32Max := by
  have hfields : k.cell.fields = (k.before20 ++ [(4, k.subkeyCount), (4, 0)]) ++ (4, k.subkeysList.getD u32Max) :: _ := rfl
  rw [h.read hk hfields hread]
  refine Nat.mod_eq_of_lt ?_
  cases hlist : k.subkeysList with
  | none => decide
  | some l => exact Nat.lt_of_lt_of_le (hformed.subkeysList l hlist) (by decide)

theorem HiveBuilder.Holds.readValuesList (h : b.Holds rs) (hk : k.cell ∈ rs) (hformed : k.Formed) {list : ℕ}
    (hread : b.readU32 (dataAbs k.offset + 40) = some list) : list = k.valuesList.getD u32Max := by
  have hfields : k.cell.fields = (k.before20 ++ [(4, k.subkeyCount), (4, 0), (4, k.subkeysList.getD u32Max), (4, u32Max),
    (4, k.values.length)]) ++ (4, k.valuesList.getD u32Max) :: _ := rfl
  rw [h.read hk hfields hread]
  refine Nat.mod_eq_of_lt ?_
  cases hlist : k.valuesList with
  | none => decide
  | some l => exact Nat.lt_of_lt_of_le (hformed.valuesList l hlist) (by decide)

theorem HiveBuilder.Holds.readValuesCount (h : b.Holds rs) (hk : k.cell ∈ rs) (hformed : k.Formed) {count : ℕ}
    (hread : b.readU32 (dataAbs k.offset + 36) = some count) : count = k.values.length := by
  have hfields : k.cell.fields = (k.before20 ++ [(4, k.subkeyCount), (4, 0), (4, k.subkeysList.getD u32Max), (4, u32Max)]) ++
    (4, k.values.length) :: _ := rfl
  rw [h.read hk hfields hread]
  exact Nat.mod_eq_of_lt hformed.count

theorem computeNameHash_lt (name : List Char) : computeNameHash name < 2 ^ 32 := by
  have hall : ∀ (name : List Char) (hash : ℕ), hash < 2 ^ 32 →
      name.foldl (fun hash c => (hash * 37 + c.toUpper.toNat) % 2 ^ 32) hash < 2 ^ 32 := by
    intro name
    induction name with
    | nil => exact fun hash h => h
    | cons c name ih => exact fun hash _ => ih _ (Nat.mod_lt _ (by decide))
  exact hall name 0 (by decide)

theorem mem_insertItem {item x : ℕ × ℕ} (h : x ∈ insertItem items item) : x ∈ items ∨ x = item := by
  rw [insertItem, mem_mergeSort, mem_append, mem_singleton] at h
  rcases h with h | h
  · exact Or.inl (mem_of_mem_take h)
  · exact Or.inr h

structure Joined (k k' : HiveKey) (child : ℕ) (childName : List Char) : Prop where
  offset : k'.offset = k.offset
  path : k'.path = k.path
  name : k'.name = k.name
  flags : k'.flags = k.flags
  parent : k'.parent = k.parent
  items : k'.items = insertItem k.items (child, computeNameHash childName)
  values : k'.values = k.values

theorem Built.addSubkeyToParent {child : ℕ} (h : Built b (l ++ k :: r)) (hchild : child ∈ (l ++ k :: r).map HiveKey.offset)
    (hret : b.addSubkeyToParent fuel k.offset child name = some b') (hlen : b'.len ≤ maxLen) :
    ∃ k', Built b' (l ++ k' :: r) ∧ Joined k k' child name := by
  obtain ⟨list, hlist, hret⟩ := bind_eq_some_iff.1 hret
  obtain ⟨count, -, hret⟩ := bind_eq_some_iff.1 hret
  obtain ⟨⟨b₁, n⟩, h1, hret⟩ := bind_eq_some_iff.1 hret
  obtain ⟨b₂, h2, hret⟩ := bind_eq_some_iff.1 hret
  obtain ⟨count', -, hret⟩ := bind_eq_some_iff.1 hret
  obtain ⟨b₃, h3, hret⟩ := bind_eq_some_iff.1 hret
  obtain ⟨currentMax, -, hret⟩ := bind_eq_some_iff.1 hret
  obtain ⟨nameLen, -, hret⟩ := bind_eq_some_iff.1 hret
  have hmem : k ∈ l ++ k :: r := by simp
  have hformed := h.formed k hmem
  have hcell : k.cell ∈ (l ++ k :: r).flatMap HiveKey.cells :=
    mem_flatMap.2 ⟨k, hmem, mem_cons_self⟩
  have hptr := h.holds.readSubkeysList hcell hformed hlist
  have hlen₁ : b₁.len ≤ maxLen := by
    rw [← len_write h2, ← len_write h3]
    split_ifs at hret
    · rwa [← len_write hret]
    · cases hret
      exact hlen
  have hholds := h.holds.perm (subkeys_perm k l r)
  -- the list of subkeys, with the new one, in a cell of its own
  have hnew : b₁.Holds (HiveKey.itemsCell n (insertItem k.items (child, computeNameHash name)) :: k.cell ::
      besideSubkeys k (l ++ r)) ∧ n < u32Max := by
    cases hsub : k.subkeysList with
    | none =>
      rw [hsub] at hptr
      have hcells : k.subkeysCells = [] := by simp [HiveKey.subkeysCells, hsub]
      rw [hcells, nil_append] at hholds
      have hitems : insertItem k.items (child, computeNameHash name) = [(child, computeNameHash name)] := by
        rw [insertItem, hformed.noItems hsub]
        simp
      rw [if_pos (show list = u32Max from hptr)] at h1
      rw [hitems]
      exact holds_createSubkeysList hholds h1 hlen₁
    | some old =>
      rw [hsub] at hptr
      have hcells : k.subkeysCells = [HiveKey.itemsCell old k.items] := by
        simp [HiveKey.subkeysCells, hsub]
      rw [hcells, singleton_append] at hholds
      have hne : list ≠ u32Max := by
        have := hformed.subkeysList old hsub
        rw [hptr]
        exact Nat.ne_of_lt this
      rw [if_neg hne, hptr] at h1
      exact holds_extendSubkeysList hholds hformed.items h1 hlen₁
  obtain ⟨hnew, hn⟩ := hnew
  have hnode : b₁.Holds (k.node k.subkeyCount (k.subkeysList.getD u32Max) k.values.length (k.valuesList.getD u32Max) k.maxSubkeyName ::
      HiveKey.itemsCell n (insertItem k.items (child, computeNameHash name)) :: besideSubkeys k (l ++ r)) := hnew.perm (Perm.swap _ _ _)
  have hnode₃ := (hnode.setSubkeysList h2).setSubkeyCount h3
  have hmax : ∃ max, b'.Holds (k.node count' n k.values.length (k.valuesList.getD u32Max) max ::
      HiveKey.itemsCell n (insertItem k.items (child, computeNameHash name)) :: besideSubkeys k (l ++ r)) := by
    split_ifs at hret
    · exact ⟨nameLen, hnode₃.setMaxSubkeyName hret⟩
    · cases hret
      exact ⟨k.maxSubkeyName, hnode₃⟩
  obtain ⟨max, hlast⟩ := hmax
  refine ⟨{ k with subkeyCount := count', maxSubkeyName := max, subkeysList := some n,
                   items := insertItem k.items (child, computeNameHash name) }, ⟨?_, ?_, ?_⟩, ⟨rfl, rfl, rfl, rfl, rfl, rfl, rfl⟩⟩
  · refine Holds.perm ?_ (subkeys_perm _ l r).symm
    exact hlast.perm (Perm.swap _ _ _)
  · intro x hx
    rcases mem_append.1 hx with hx | hx
    · exact h.formed x (by simp [hx])
    rcases mem_cons.1 hx with rfl | hx
    · refine ⟨hformed.offset, ?_, hformed.valuesList, ?_, hformed.values, ?_, hformed.noValues, hformed.count⟩
      · rintro _ ⟨rfl⟩
        exact hn
      · intro item hitem
        rcases mem_insertItem hitem with hitem | rfl
        · exact hformed.items item hitem
        · obtain ⟨y, hy, hoffset⟩ := mem_map.1 hchild
          exact ⟨hoffset ▸ (h.formed y hy).offset, computeNameHash_lt name⟩
      · rintro ⟨⟩
    · exact h.formed x (by simp [hx])
  · intro x hx item hitem
    suffices hold : item.1 ∈ (l ++ k :: r).map HiveKey.offset by simpa using hold
    rcases mem_append.1 hx with hx | hx
    · exact h.closed x (by simp [hx]) item hitem
    rcases mem_cons.1 hx with rfl | hx
    · rcases mem_insertItem hitem with hitem | rfl
      · exact h.closed k hmem item hitem
      · exact hchild
    · exact h.closed x (by simp [hx]) item hitem

theorem totalWidth_valueFields (v : HiveValue) : totalWidth v.fields = keyValueHeaderSize + (nameBytes v.name).length := by
  rw [HiveValue.fields, totalWidth_append, totalWidth_keyValueHeader, totalWidth_bytesFields]
  rfl

theorem holds_storeData (name : List Char) (o dataType : ℕ) {data : List UInt8} {stored : ℕ × ℕ} (h : b.Holds rs)
    (hret : b.storeData fuel data = some (b', stored)) (hlen : b'.len ≤ maxLen) :
    b'.Holds ((⟨o, name, dataType, data, stored.1⟩ : HiveValue).dataCells ++ rs) ∧
      stored.2 = (⟨o, name, dataType, data, stored.1⟩ : HiveValue).dataSize ∧ (4 < data.length → stored.1 < u32Max) ∧
      (data.length ≤ 4 → stored.1 = leValue (fun i => data.getD i 0) 0 data.length) := by
  unfold HiveBuilder.storeData at hret
  unfold HiveValue.dataCells HiveValue.dataSize
  split_ifs at hret with hsmall
  · cases hret
    simp only [if_pos hsmall, nil_append]
    exact ⟨h, trivial, fun hlarge => absurd hsmall (by omega), fun _ => trivial⟩
  · obtain ⟨⟨b₁, l⟩, h1, hret⟩ := bind_eq_some_iff.1 hret
    obtain ⟨b₂, h2, hret⟩ := bind_eq_some_iff.1 hret
    cases hret
    obtain ⟨hholds, hl⟩ := h.allocateCell h1 ((within_copyFromSlice h2).len ▸ hlen)
    simp only [if_neg hsmall]
    refine ⟨hholds.writeFields h2 ?_, trivial, fun _ => hl, fun hle => absurd hle hsmall⟩
    exact Nat.le_of_eq (by rw [totalWidth_bytesFields])

theorem holds_allocateKeyValue {o dataType : ℕ} {data : List UInt8} (h : b.Holds rs)
    (hret : b.allocateKeyValue fuel name dataType data = some (b', o)) (hlen : b'.len ≤ maxLen) :
    ∃ v : HiveValue, b'.Holds (v.cells ++ rs) ∧ v.Formed ∧ v.offset = o ∧ v.name = name ∧ v.dataType = dataType ∧ v.data = data := by
  obtain ⟨⟨b₁, l⟩, h1, hret⟩ := bind_eq_some_iff.1 hret
  obtain ⟨⟨b₂, stored⟩, h2, hret⟩ := bind_eq_some_iff.1 hret
  obtain ⟨b₃, h3, hret⟩ := bind_eq_some_iff.1 hret
  obtain ⟨b₄, h4, hret⟩ := bind_eq_some_iff.1 hret
  cases hret
  have hlen₂ : b₂.len ≤ maxLen := by rwa [← (within_writeFields h3).len, ← (within_copyFromSlice h4).len]
  obtain ⟨hholds₁, hl⟩ := h.allocateCell h1 (Nat.le_trans (len_storeData h2) hlen₂)
  obtain ⟨hholds₂, hsize, hlarge, hsmall⟩ := holds_storeData name o dataType hholds₁ h2 hlen₂
  refine ⟨⟨o, name, dataType, data, stored.1⟩, ?_, ⟨hl, hlarge, hsmall⟩, rfl, rfl, rfl, rfl⟩
  rw [hsize] at h3
  have hwidth : totalWidth (keyValueHeader (nameBytes name).length (⟨o, name, dataType, data, stored.1⟩ : HiveValue).dataSize stored.1
      dataType (⟨o, name, dataType, data, stored.1⟩ : HiveValue).flags) = keyValueHeaderSize := totalWidth_keyValueHeader ..
  have hwrite := writeFields_append h3 (hwidth.symm ▸ h4)
  refine (hholds₂.perm perm_middle).writeFields hwrite (Nat.le_of_eq ?_)
  exact congrArg (cellHeaderSize + ·) (totalWidth_valueFields ⟨o, name, dataType, data, stored.1⟩)

def besideValues (k : HiveKey) (v : HiveValue) (tree : List HiveKey) : List Rec :=
  k.subkeysCells ++ (k.values.flatMap HiveValue.cells ++ v.cells) ++ tree.flatMap HiveKey.cells

def HiveKey.offsetsCell (offset : ℕ) (offsets : List ℕ) : Rec := ⟨offset, cellHeaderSize + offsets.length * 4, offsets.map fun o => (4, o)⟩

theorem values_perm (k : HiveKey) (v : HiveValue) (l r : List HiveKey) :
    (v.cells ++ (l ++ k :: r).flatMap HiveKey.cells).Perm (k.valuesCells ++ k.cell :: besideValues k v (l ++ r)) := by
  refine perm_iff_count.2 fun x => ?_
  simp only [flatMap_append, flatMap_cons, HiveKey.cells, besideValues, count_append, count_cons]
  omega

theorem valuesCells_eq (k : HiveKey) : k.valuesCells = k.valuesList.toList.map fun n => HiveKey.offsetsCell n (k.values.map HiveValue.offset) := by
  simp [HiveKey.valuesCells, HiveKey.offsetsCell]

structure Gained (k k' : HiveKey) (v : HiveValue) : Prop where
  offset : k'.offset = k.offset
  path : k'.path = k.path
  name : k'.name = k.name
  flags : k'.flags = k.flags
  parent : k'.parent = k.parent
  items : k'.items = k.items
  values : k'.values = k.values ++ [v]

theorem offset_field {offsets : List ℕ} {list v : ℕ} (h : b.Holds rs)
    (hr : (⟨list, size, offsets.map fun o => (4, o)⟩ : Rec) ∈ rs) (hi : i < offsets.length)
    (hread : b.readU32 (dataAbs list + i * 4) = some v) : v = offsets[i] % 2 ^ 32 := by
  have hsplit : (offsets.map fun o => (4, o)) = ((offsets.take i).map fun o => (4, o)) ++ (4, offsets[i]) ::
      (offsets.drop (i + 1)).map fun o => (4, o) := by
    have hxs : offsets = offsets.take i ++ offsets[i] :: offsets.drop (i + 1) := by
      rw [← drop_eq_getElem_cons hi, take_append_drop]
    exact (congrArg (map fun o => (4, o)) hxs).trans (by rw [map_append, map_cons])
  refine h.read hr hsplit ?_
  rw [totalWidth_const 4 (fun o => o), length_take, Nat.min_eq_left (Nat.le_of_lt hi)]
  exact hread

theorem Built.addValueToKey {v : HiveValue} (hholds : b.Holds (v.cells ++ (l ++ k :: r).flatMap HiveKey.cells))
    (hformed : ∀ k' ∈ l ++ k :: r, k'.Formed) (hclosed : ∀ k' ∈ l ++ k :: r, ∀ item ∈ k'.items, item.1 ∈ (l ++ k :: r).map HiveKey.offset)
    (hv : v.Formed) (hret : b.addValueToKey fuel k.offset v.offset = some b') (hlen : b'.len ≤ maxLen) :
    ∃ k', Built b' (l ++ k' :: r) ∧ Gained k k' v := by
  obtain ⟨list, hlist, hret⟩ := bind_eq_some_iff.1 hret
  obtain ⟨count, hcount, hret⟩ := bind_eq_some_iff.1 hret
  obtain ⟨b₂, h2, hret⟩ := bind_eq_some_iff.1 hret
  obtain ⟨count', hchecked, h3⟩ := bind_eq_some_iff.1 hret
  have hmem : k ∈ l ++ k :: r := by simp
  have hk := hformed k hmem
  have hcell : k.cell ∈ v.cells ++ (l ++ k :: r).flatMap HiveKey.cells :=
    mem_append_right _ (mem_flatMap.2 ⟨k, hmem, mem_cons_self⟩)
  have hptr := hholds.readValuesList hcell hk hlist
  have hcount' := hholds.readValuesCount hcell hk hcount
  have hnext : count' = (k.values ++ [v]).length ∧ (k.values ++ [v]).length < 2 ^ 32 := by
    unfold checked at hchecked
    split_ifs at hchecked with hlt
    cases hchecked
    rw [length_append, ← hcount']
    exact ⟨rfl, hlt⟩
  have hlen₂ : b₂.len ≤ maxLen := by rwa [← len_write h3]
  have hholds' := hholds.perm (values_perm k v l r)
  -- the list of values, with the new one, in a cell of its own
  have hnew : ∃ (b₁ : HiveBuilder) (n : ℕ), b₁.Holds (HiveKey.offsetsCell n ((k.values ++ [v]).map HiveValue.offset) :: k.cell :: besideValues k v (l ++ r)) ∧
      n < u32Max ∧ b₁.writeU32 (dataAbs k.offset + 40) n = some b₂ := by
    unfold replaceValuesList at h2
    rw [valuesCells_eq] at hholds'
    cases hsub : k.valuesList with
    | none =>
      rw [hsub] at hptr hholds'
      rw [if_pos (show list = u32Max from hptr)] at h2
      obtain ⟨⟨b₁, n⟩, h1, h2⟩ := bind_eq_some_iff.1 h2
      obtain ⟨hlast, hn⟩ := holds_createValuesList hholds' h1 (by rwa [← len_write h2])
      refine ⟨b₁, n, ?_, hn, h2⟩
      rw [hk.noValues hsub]
      exact hlast
    | some old =>
      rw [hsub] at hptr hholds'
      have hne : list ≠ u32Max := by
        rw [hptr]
        exact Nat.ne_of_lt (hk.valuesList old hsub)
      rw [if_neg hne] at h2
      obtain ⟨n₀, hn₀, h2⟩ := bind_eq_some_iff.1 h2
      obtain ⟨read, hread, h2⟩ := bind_eq_some_iff.1 h2
      obtain ⟨b₀, h0, h2⟩ := bind_eq_some_iff.1 h2
      obtain ⟨⟨b₁, n⟩, h1, h2⟩ := bind_eq_some_iff.1 h2
      have hn₀' := hholds.readValuesCount hcell hk hn₀
      have hlist' : list = old := hptr
      have hold : b.Holds (HiveKey.offsetsCell old (k.values.map HiveValue.offset) :: k.cell :: besideValues k v (l ++ r)) := hholds'
      rw [hlist'] at hread h0
      have hread' : read = k.values.map HiveValue.offset := by
        have htake : read = (k.values.map HiveValue.offset).take n₀ := by
          refine mapM_range (Nat.le_of_eq (by rw [hn₀', length_map])) (fun i y hi hy => ?_) hread
          rw [offset_field hold mem_cons_self hi hy]
          refine Nat.mod_eq_of_lt ?_
          obtain ⟨v', hv', hoffset⟩ := mem_map.1 (getElem_mem hi)
          rw [← hoffset]
          exact Nat.lt_of_lt_of_le (hk.values v' hv').offset (by decide)
        rw [htake, hn₀']
        exact take_of_length_le (Nat.le_of_eq (length_map _))
      rw [hread'] at h1
      obtain ⟨hlast, hn⟩ := holds_createValuesList (hold.freeCell h0) h1 (by rwa [← len_write h2])
      refine ⟨b₁, n, ?_, hn, h2⟩
      rw [map_append]
      exact hlast
  obtain ⟨b₁, n, hnew, hn, h2⟩ := hnew
  have hnode : b₁.Holds (k.node k.subkeyCount (k.subkeysList.getD u32Max) k.values.length (k.valuesList.getD u32Max) k.maxSubkeyName ::
      HiveKey.offsetsCell n ((k.values ++ [v]).map HiveValue.offset) :: besideValues k v (l ++ r)) := hnew.perm (Perm.swap _ _ _)
  have hlast := (hnode.setValuesList h2).setValuesCount h3
  rw [hnext.1] at hlast
  have hbuilt : ∀ k' : HiveKey, k' = { k with valuesList := some n, values := k.values ++ [v] } → Built b' (l ++ k' :: r) := by
    intro k' hk'
    refine ⟨?_, fun x hx => ?_, fun x hx item hitem => ?_⟩
    · have hperm : (k'.cell :: HiveKey.offsetsCell n ((k.values ++ [v]).map HiveValue.offset) :: besideValues k v (l ++ r)).Perm
          ((l ++ k' :: r).flatMap HiveKey.cells) := by
        have hvalues : k'.valuesCells = [HiveKey.offsetsCell n ((k.values ++ [v]).map HiveValue.offset)] := by
          rw [valuesCells_eq, hk']
          rfl
        have hsubkeys : k'.subkeysCells = k.subkeysCells := by rw [hk']; rfl
        have hcells : k'.values.flatMap HiveValue.cells = k.values.flatMap HiveValue.cells ++ v.cells := by simp [hk']
        refine perm_iff_count.2 fun x => ?_
        simp only [flatMap_append, flatMap_cons, HiveKey.cells, hvalues, hsubkeys, hcells, besideValues, count_append,
          count_cons, count_nil]
        omega
      refine Holds.perm ?_ hperm
      rw [hk']
      exact hlast
    · rcases mem_append.1 hx with hx | hx
      · exact hformed x (by simp [hx])
      rcases mem_cons.1 hx with rfl | hx
      · rw [hk']
        refine ⟨hk.offset, hk.subkeysList, ?_, hk.items, ?_, hk.noItems, nofun, hnext.2⟩
        · rintro _ ⟨rfl⟩
          exact hn
        · intro v' hv'
          rcases mem_append.1 hv' with hv' | hv'
          · exact hk.values v' hv'
          · rw [mem_singleton.1 hv']
            exact hv
      · exact hformed x (by simp [hx])
    · suffices hold : item.1 ∈ (l ++ k :: r).map HiveKey.offset by simpa [hk'] using hold
      rcases mem_append.1 hx with hx | hx
      · exact hclosed x (by simp [hx]) item hitem
      rcases mem_cons.1 hx with rfl | hx
      · rw [hk'] at hitem
        exact hclosed k hmem item hitem
      · exact hclosed x (by simp [hx]) item hitem
  exact ⟨_, hbuilt _ rfl, ⟨rfl, rfl, rfl, rfl, rfl, rfl, rfl⟩⟩

end XenOS.Hive
