import XenOS.Hive.Tree

/-! Every run of a builder builds its tree: the keys that were created, each under its parent, with
the values that were set, in their order. -/

namespace XenOS.Hive

open General HiveBuilder List
open Option (bind_eq_some_iff elim_some)

variable {b b' b₁ b₂ : HiveBuilder} {tree l r : List HiveKey} {k k' c : HiveKey} {fuel n o : ℕ} {name : List Char}

/-- A key that `create_subkey` has put under the key at an offset. -/
def HiveKey.IsUnder (c : HiveKey) (parent : ℕ) : Prop := c.flags = keyCompName ∧ c.parent = parent

instance (c : HiveKey) (parent : ℕ) : Decidable (c.IsUnder parent) := inferInstanceAs (Decidable (_ ∧ _))

def subkeysOf (tree : List HiveKey) (parent : ℕ) : List ℕ := (tree.filter (·.IsUnder parent)).map HiveKey.offset

def HiveKey.link (k : HiveKey) : ℕ × List (List Char) × List Char × ℕ × ℕ := (k.offset, k.path, k.name, k.flags, k.parent)

/-- The root has the empty path, any other key the path of its parent with its own name. -/
def Placed (tree : List HiveKey) (c : HiveKey) : Prop :=
  c.path = [] ∧ c.flags ≠ keyCompName ∨ ∃ k ∈ tree, c.IsUnder k.offset ∧ c.path = k.path ++ [c.name]

structure Linked (tree : List HiveKey) : Prop where
  items : ∀ k ∈ tree, (subkeysOf tree k.offset).length < 2 ^ 16 → (k.items.map Prod.fst).Perm (subkeysOf tree k.offset)
  placed : ∀ c ∈ tree, Placed tree c

theorem link_inj (h : k'.link = k.link) : k'.offset = k.offset ∧ k'.path = k.path ∧ k'.name = k.name ∧ k'.flags = k.flags ∧
    k'.parent = k.parent := by
  simpa [HiveKey.link] using h

theorem subkeysOf_congr (h : k'.link = k.link) (parent : ℕ) : subkeysOf (l ++ k' :: r) parent = subkeysOf (l ++ k :: r) parent := by
  obtain ⟨hoffset, -, -, hflags, hparent⟩ := link_inj h
  have hiff : k'.IsUnder parent ↔ k.IsUnder parent := by
    unfold HiveKey.IsUnder
    rw [hflags, hparent]
  simp only [subkeysOf, filter_append, map_append, filter_cons, hiff]
  split <;> simp [hoffset]

theorem mem_replace {x : HiveKey} (hx : x ∈ l ++ k' :: r) : x = k' ∨ x ∈ l ++ r := by
  rw [mem_append, mem_cons] at hx
  rw [mem_append]
  tauto

theorem mem_of_rest {x : HiveKey} (k : HiveKey) (hx : x ∈ l ++ r) : x ∈ l ++ k :: r := by
  rw [mem_append] at hx
  rw [mem_append, mem_cons]
  tauto

theorem placed_replace (h : ∀ c ∈ l ++ k :: r, Placed (l ++ k :: r) c) (hlink : k'.link = k.link) :
    ∀ c ∈ l ++ k' :: r, Placed (l ++ k' :: r) c := by
  obtain ⟨hoffset, hpath, hname, hflags, hparent⟩ := link_inj hlink
  have hnew : ∀ x ∈ l ++ k :: r, ∃ x' ∈ l ++ k' :: r, x'.offset = x.offset ∧ x'.path = x.path := by
    intro x hx
    rcases mem_replace hx with rfl | hx
    · exact ⟨k', by simp, hoffset, hpath⟩
    · exact ⟨x, mem_of_rest k' hx, rfl, rfl⟩
  have hkept : ∀ c, Placed (l ++ k :: r) c → Placed (l ++ k' :: r) c := by
    rintro c (hroot | ⟨x, hx, hunder, hxpath⟩)
    · exact Or.inl hroot
    · obtain ⟨x', hx', hoffset', hpath'⟩ := hnew x hx
      exact Or.inr ⟨x', hx', hoffset'.symm ▸ hunder, hpath'.symm ▸ hxpath⟩
  intro c hc
  rcases mem_replace hc with rfl | hc
  · have hk := hkept k (h k (by simp))
    unfold Placed HiveKey.IsUnder at hk ⊢
    rwa [hpath, hflags, hparent, hname]
  · exact hkept c (h c (mem_of_rest k hc))

theorem Linked.replace (h : Linked (l ++ k :: r)) (hlink : k'.link = k.link) (hitems : k'.items = k.items) :
    Linked (l ++ k' :: r) := by
  refine ⟨fun x hx => ?_, placed_replace h.placed hlink⟩
  rw [subkeysOf_congr hlink]
  rcases mem_replace hx with rfl | hx
  · rw [(link_inj hlink).1, hitems]
    exact h.items k (by simp)
  · exact h.items x (mem_of_rest k hx)

theorem Built.nodup (h : Built b tree) : (tree.map HiveKey.offset).Nodup := by
  have hnodup := h.holds.owned.1
  rw [map_map] at hnodup
  clear h
  induction tree with
  | nil => exact nodup_nil
  | cons k tree ih =>
    rw [flatMap_cons, map_append] at hnodup
    obtain ⟨-, htree, hdisjoint⟩ := nodup_append.1 hnodup
    refine nodup_cons.2 ⟨fun hmem => ?_, ih htree⟩
    obtain ⟨k', hk', hoffset⟩ := mem_map.1 hmem
    refine hdisjoint k.offset ?_ k'.offset ?_ hoffset.symm
    · exact mem_map.2 ⟨k.cell, mem_cons_self, rfl⟩
    · exact mem_map.2 ⟨k'.cell, mem_flatMap.2 ⟨k', hk', mem_cons_self⟩, rfl⟩

theorem subkeysOf_newKey (o : ℕ) (path : List (List Char)) (name : List Char) (p : ℕ) (tree : List HiveKey) (n : ℕ) :
    subkeysOf (newKey o path name keyCompName p :: tree) n = if p = n then o :: subkeysOf tree n else subkeysOf tree n := by
  by_cases hp : p = n <;> simp [subkeysOf, HiveKey.IsUnder, newKey, hp]

theorem insertItem_perm {items : List (ℕ × ℕ)} {item : ℕ × ℕ} (h : items.length < 2 ^ 16) :
    ((insertItem items item).map Prod.fst).Perm (item.1 :: items.map Prod.fst) := by
  unfold insertItem
  rw [Nat.mod_eq_of_lt h, take_length]
  refine ((mergeSort_perm _ _).map Prod.fst).trans ?_
  rw [map_append]
  exact perm_append_comm

theorem Linked.create (h : Linked (l ++ k :: r)) (hnodup : (o :: (l ++ k :: r).map HiveKey.offset).Nodup)
    (hjoined : Joined k k' o name) : Linked (newKey o (k.path ++ [name]) name keyCompName k.offset :: (l ++ k' :: r)) := by
  have hmem : k ∈ l ++ k :: r := by simp
  have ho : ∀ x ∈ l ++ k :: r, x.offset ≠ o := fun x hx heq =>
    (nodup_cons.1 hnodup).1 (mem_map.2 ⟨x, hx, heq⟩)
  have hlink : k'.link = k.link := by
    simp only [HiveKey.link, hjoined.offset, hjoined.path, hjoined.name, hjoined.flags, hjoined.parent]
  -- no key is under the new one
  have hnone : subkeysOf (l ++ k :: r) o = [] := by
    unfold subkeysOf
    rw [filter_eq_nil_iff.2, map_nil]
    intro c hc hunder
    have hunder := of_decide_eq_true hunder
    rcases h.placed c hc with ⟨-, hflags⟩ | ⟨x, hx, hunder', -⟩
    · exact hflags hunder.1
    · exact ho x hx (hunder'.2.symm.trans hunder.2)
  refine ⟨fun x hx hcount => ?_, fun c hc => ?_⟩
  · rw [subkeysOf_newKey, subkeysOf_congr hlink] at hcount ⊢
    rcases mem_cons.1 hx with rfl | hx
    · have hne : k.offset ≠ o := ho k hmem
      have hunder : (if k.offset = o then o :: subkeysOf (l ++ k :: r) o else subkeysOf (l ++ k :: r) o) = [] := (if_neg hne).trans hnone
      exact hunder.symm ▸ Perm.refl _
    rcases mem_replace hx with rfl | hx
    · rw [if_pos hjoined.offset.symm] at hcount ⊢
      rw [hjoined.offset] at hcount ⊢
      rw [length_cons] at hcount
      have hold := h.items k hmem (by omega)
      have hlength : k.items.length < 2 ^ 16 := by
        have := hold.length_eq
        rw [length_map] at this
        omega
      rw [hjoined.items]
      exact (insertItem_perm hlength).trans (hold.cons o)
    · have hapart : k.offset ≠ x.offset := by
        have hnodup' := (nodup_cons.1 hnodup).2
        rw [map_append, map_cons, perm_middle.nodup_iff, nodup_cons, ← map_append] at hnodup'
        exact fun heq => hnodup'.1 (mem_map.2 ⟨x, hx, heq.symm⟩)
      rw [if_neg hapart] at hcount ⊢
      exact h.items x (mem_of_rest k hx) hcount
  · rcases mem_cons.1 hc with rfl | hc
    · exact Or.inr ⟨k', by simp, ⟨rfl, hjoined.offset.symm⟩, by rw [hjoined.path]; rfl⟩
    · rcases placed_replace h.placed hlink c hc with hroot | ⟨x, hx, hrest⟩
      · exact Or.inl hroot
      · exact Or.inr ⟨x, mem_cons_of_mem _ hx, hrest⟩

/-! ### What the calls say -/

structure KeySpec where
  path : List (List Char)
  values : List (List Char × ℕ × List UInt8)

def HiveKey.spec (k : HiveKey) : KeySpec := ⟨k.path, k.values.map fun v => (v.name, v.dataType, v.data)⟩

def HiveOp.setting : HiveOp → Option (ℕ × List Char × ℕ × List UInt8)
  | .createSubkey _ _ => none
  | .setDword key name value => some (key, name, 4, toLeBytes 4 value)
  | .setQword key name value => some (key, name, 11, toLeBytes 8 value)
  | .setString key name value => some (key, name, 1, stringData value)
  | .setExpandString key name value => some (key, name, 2, stringData value)
  | .setBinary key name value => some (key, name, 3, value)
  | .setMultiString key name values => some (key, name, 7, values.flatMap stringData ++ [0, 0])
  | .setRaw key name dataType data => some (key, name, dataType, data)

def specStep (keys : List KeySpec) (op : HiveOp) : List KeySpec :=
  match op with
  | .createSubkey parent name => keys[parent]?.elim keys fun k => ⟨k.path ++ [name], []⟩ :: keys
  | op => op.setting.elim keys fun s => keys.modify s.1 fun k => { k with values := k.values ++ [s.2] }

variable {s s' : Session} {op : HiveOp} {key : ℕ}

theorem Session.step_setting {dataType : ℕ} {data : List UInt8}
    (hop : op.setting = some (key, name, dataType, data)) (hret : s.step fuel op = some s') :
    ∃ k b', s.keys[key]? = some k ∧ s.builder.setValueInternal fuel k name dataType data = some b' ∧ s' = { s with builder := b' } := by
  have hwith : (s.withKey key fun k => s.builder.setValueInternal fuel k name dataType data) = some s' := by
    cases op <;> cases hop <;> exact hret
  obtain ⟨k, hk, hwith⟩ := bind_eq_some_iff.1 hwith
  obtain ⟨b', hb', hwith⟩ := bind_eq_some_iff.1 hwith
  cases hwith
  exact ⟨k, b', hk, hb', rfl⟩

theorem specStep_setting {keys : List KeySpec} {s : ℕ × List Char × ℕ × List UInt8}
    (hop : op.setting = some s) :
    specStep keys op = keys.modify s.1 fun k => { k with values := k.values ++ [s.2] } := by
  cases op with
  | createSubkey parent name => cases hop
  | _ => simp only [specStep, hop, elim_some]

theorem modify_middle {α : Type} (l : List α) (a : α) (r : List α) (f : α → α) : (l ++ a :: r).modify l.length f = l ++ f a :: r := by
  induction l with
  | nil => rfl
  | cons x l ih => simpa using ih

/-! ### Sessions -/

structure Tree (s : Session) (spec : List KeySpec) (tree : List HiveKey) : Prop where
  built : Built s.builder tree
  keys : tree.map HiveKey.offset = s.keys
  spec : tree.map HiveKey.spec = spec
  linked : Linked tree

variable {spec : List KeySpec}

theorem Tree.split (h : Tree s spec tree) (hk : s.keys[key]? = some o) :
    ∃ l k r, tree = l ++ k :: r ∧ k.offset = o ∧ l.length = key := by
  rw [← h.keys, List.getElem?_map, Option.map_eq_some_iff] at hk
  obtain ⟨k, hk, hoffset⟩ := hk
  obtain ⟨hlt, hget⟩ := List.getElem?_eq_some_iff.1 hk
  refine ⟨tree.take key, k, tree.drop (key + 1), ?_, hoffset, by rw [List.length_take]; omega⟩
  rw [← hget, ← List.drop_eq_getElem_cons hlt, List.take_append_drop]

theorem Tree.create (h : Tree s spec tree) {parent : ℕ}
    (hret : s.step fuel (.createSubkey parent name) = some s') (hlen : s'.builder.len ≤ maxLen) :
    ∃ tree', Tree s' (specStep spec (.createSubkey parent name)) tree' ∧ ∃ l k k' r o, tree = l ++ k :: r ∧ l.length = parent ∧
      Joined k k' o name ∧ tree' = newKey o (k.path ++ [name]) name keyCompName k.offset :: (l ++ k' :: r) := by
  obtain ⟨p, hp, hret⟩ := bind_eq_some_iff.1 hret
  obtain ⟨⟨b, o⟩, hcreate, hret⟩ := bind_eq_some_iff.1 hret
  cases hret
  obtain ⟨⟨b₁, l'⟩, h1, hcreate⟩ := bind_eq_some_iff.1 hcreate
  obtain ⟨b₂, h2, hcreate⟩ := bind_eq_some_iff.1 hcreate
  cases hcreate
  obtain ⟨l, k, r, rfl, rfl, hlength⟩ := h.split hp
  have hnew := h.built.allocateKeyNode (k.path ++ [name]) h1 (Nat.le_trans (len_addSubkeyToParent h2) hlen)
  obtain ⟨k', hbuilt, hjoined⟩ := Built.addSubkeyToParent (l := newKey o (k.path ++ [name]) name keyCompName k.offset :: l) hnew
    mem_cons_self h2 hlen
  refine ⟨_, ⟨hbuilt, ?_, ?_, h.linked.create hnew.nodup hjoined⟩, l, k, k', r, o, rfl, hlength, hjoined, rfl⟩
  · rw [← h.keys]
    simp [newKey, hjoined.offset]
  · have hspec : spec[parent]? = some k.spec := by
      rw [← h.spec, ← hlength]
      simp
    rw [specStep, hspec, elim_some, ← h.spec]
    simp [HiveKey.spec, newKey, hjoined.path, hjoined.values]

theorem Tree.set (h : Tree s spec tree) {setting : ℕ × List Char × ℕ × List UInt8}
    (hop : op.setting = some setting) (hret : s.step fuel op = some s') (hlen : s'.builder.len ≤ maxLen) :
    ∃ tree', Tree s' (specStep spec op) tree' ∧ ∃ l k k' v r, tree = l ++ k :: r ∧
      l.length = setting.1 ∧ Gained k k' v ∧ (v.name, v.dataType, v.data) = setting.2 ∧ tree' = l ++ k' :: r := by
  obtain ⟨key, name, dataType, data⟩ := setting
  obtain ⟨o, b', ho, hset, rfl⟩ := Session.step_setting hop hret
  obtain ⟨⟨b₁, v⟩, h1, h2⟩ := bind_eq_some_iff.1 hset
  obtain ⟨l, k, r, rfl, rfl, hlength⟩ := h.split ho
  obtain ⟨v', hholds, hformed, rfl, hname, htype, hdata⟩ := holds_allocateKeyValue h.built.holds h1 (Nat.le_trans (len_addValueToKey h2) hlen)
  obtain ⟨k', hbuilt, hgained⟩ := Built.addValueToKey hholds h.built.formed h.built.closed hformed h2 hlen
  have hlink : k'.link = k.link := by
    simp only [HiveKey.link, hgained.offset, hgained.path, hgained.name, hgained.flags, hgained.parent]
  refine ⟨_, ⟨hbuilt, ?_, ?_, h.linked.replace hlink hgained.items⟩, l, k, k', v', r, rfl, hlength, hgained,
    by rw [hname, htype, hdata], rfl⟩
  · rw [← h.keys]
    simp [hgained.offset]
  · rw [specStep_setting hop, ← h.spec]
    have hmodify := modify_middle (l.map HiveKey.spec) k.spec (r.map HiveKey.spec) fun k => { k with values := k.values ++ [(name, dataType, data)] }
    rw [length_map, hlength] at hmodify
    rw [map_append, map_cons, map_append, map_cons, hmodify]
    simp [HiveKey.spec, hgained.path, hgained.values, hname, htype, hdata]

theorem Tree.step (h : Tree s spec tree) (hret : s.step fuel op = some s')
    (hlen : s'.builder.len ≤ maxLen) : ∃ tree', Tree s' (specStep spec op) tree' := by
  cases hop : op.setting with
  | some setting =>
    obtain ⟨tree', htree, -⟩ := h.set hop hret hlen
    exact ⟨tree', htree⟩
  | none =>
    cases op with
    | createSubkey parent name =>
      obtain ⟨tree', htree, -⟩ := h.create hret hlen
      exact ⟨tree', htree⟩
    | _ => cases hop

/-- What a user has said: the root, and the calls. -/
def specRun (ops : List HiveOp) : List KeySpec := ops.foldl specStep [⟨[], []⟩]

theorem len_withKey {dataType : ℕ} {data : List UInt8}
    (hret : (s.withKey key fun k => s.builder.setValueInternal fuel k name dataType data) = some s') :
    s.builder.len ≤ s'.builder.len := by
  obtain ⟨k, -, hret⟩ := bind_eq_some_iff.1 hret
  obtain ⟨b, hset, hret⟩ := bind_eq_some_iff.1 hret
  cases hret
  exact len_setValueInternal hset

theorem len_step (hret : s.step fuel op = some s') : s.builder.len ≤ s'.builder.len := by
  cases op with
  | createSubkey parent name =>
    obtain ⟨k, -, hret⟩ := bind_eq_some_iff.1 hret
    obtain ⟨⟨b, key⟩, hcreate, hret⟩ := bind_eq_some_iff.1 hret
    cases hret
    exact len_createSubkey hcreate
  | setDword key name value => exact len_withKey hret
  | setQword key name value => exact len_withKey hret
  | setString key name value => exact len_withKey hret
  | setExpandString key name value => exact len_withKey hret
  | setBinary key name value => exact len_withKey hret
  | setMultiString key name values => exact len_withKey hret
  | setRaw key name dataType data => exact len_withKey hret

variable {ops : List HiveOp}

theorem len_run (hret : ops.foldlM (Session.step fuel) s = some s') :
    s.builder.len ≤ s'.builder.len := by
  induction ops generalizing s with
  | nil =>
    cases hret
    exact Nat.le_refl _
  | cons op ops ih =>
    obtain ⟨s₁, hstep, hret⟩ := bind_eq_some_iff.1 hret
    exact Nat.le_trans (len_step hstep) (ih hret)

theorem Tree.run (h : Tree s spec tree) (hret : ops.foldlM (Session.step fuel) s = some s')
    (hlen : s'.builder.len ≤ maxLen) :
    ∃ tree', Tree s' (ops.foldl specStep spec) tree' := by
  induction ops generalizing s spec tree with
  | nil =>
    cases hret
    exact ⟨tree, h⟩
  | cons op ops ih =>
    obtain ⟨s₁, hstep, hret⟩ := bind_eq_some_iff.1 hret
    obtain ⟨tree₁, h₁⟩ := h.step hstep (Nat.le_trans (len_run hret) hlen)
    exact ih h₁ hret

theorem Built.congr (h : Built b tree) (hlen : b'.len = b.len) (hsame : ∀ j, hiveBaseBlockSize ≤ j → b'.data j = b.data j)
    (hfields : ∀ j, 40 ≤ j → j < 48 → b'.data j = b.data j) : Built b' tree := by
  obtain ⟨⟨⟨hnodup, bins, hheaded, hcells⟩, hwritten⟩, hformed, hclosed⟩ := h
  refine ⟨⟨⟨hnodup, bins, hheaded.congr hlen hsame hfields, hcells⟩, fun r hr => ?_⟩, hformed, hclosed⟩
  obtain ⟨hfits, hfields⟩ := hwritten r hr
  refine ⟨hfits, FieldsAt.congr hfields fun j hlow _ => hsame j ?_⟩
  unfold dataAbs at hlow
  omega

theorem Tree.new (hnew : Session.new fuel name = some s) (hlen : s.builder.len ≤ maxLen) :
    Tree s [⟨[], []⟩] [newKey s.builder.rootKeyOffset [] name (keyHiveEntry + keyCompName) 0] := by
  obtain ⟨b, hb, hnew⟩ := bind_eq_some_iff.1 hnew
  cases hnew
  obtain ⟨b₁, h1, hb⟩ := bind_eq_some_iff.1 hb
  obtain ⟨b₂, h2, hb⟩ := bind_eq_some_iff.1 hb
  obtain ⟨⟨b₃, k⟩, h3, h4⟩ := bind_eq_some_iff.1 hb
  have hfields₁ := fields_initBaseBlock h1
  unfold HiveBuilder.initBaseBlock at h1
  obtain ⟨b₀, h0, h1⟩ := bind_eq_some_iff.1 h1
  have hlen₁ : b₁.len = hiveBaseBlockSize + defaultBinSize := by
    rw [(within_writeFields h1).len, (within_writeFields h0).len]
  have hempty : Built b₂ [] := by
    refine ⟨⟨⟨nodup_nil, _, headed_initFirstBin hlen₁ hfields₁ h2, fun o ho => (by cases ho)⟩, fun r hr => (by cases hr)⟩, ?_, ?_⟩
    · intro k hk
      cases hk
    · intro k hk
      cases hk
  obtain ⟨-, rfl⟩ := write_eq_some h4
  have hroot := hempty.allocateKeyNode [] h3 hlen
  -- the write of the root's offset is in the base block
  have hsame : ∀ j, hiveBaseBlockSize ≤ j → leWrite b₃.data 36 4 k j = b₃.data j := fun j hj => by
    unfold hiveBaseBlockSize at hj
    exact leWrite_of_notMem (by omega)
  have hfields : ∀ j, 40 ≤ j → j < 48 → leWrite b₃.data 36 4 k j = b₃.data j := fun j _ _ => leWrite_of_notMem (by omega)
  refine ⟨hroot.congr rfl hsame hfields, rfl, rfl, fun k hk hcount => ?_, fun c hc => ?_⟩
  · rw [mem_singleton.1 hk]
    exact Perm.refl _
  · rw [mem_singleton.1 hc]
    exact Or.inl ⟨rfl, show keyHiveEntry + keyCompName ≠ keyCompName by decide⟩

/-- The buffer of every session is the tree of its calls: each key that was created, with its
path, and each value that was set, in order. -/
theorem Session.exists_tree {s₀ : Session} (hnew : Session.new fuel name = some s₀)
    (hret : ops.foldlM (Session.step fuel) s₀ = some s) (hlen : s.builder.len ≤ maxLen) :
    ∃ tree, Tree s (specRun ops) tree :=
  (Tree.new hnew (Nat.le_trans (len_run hret) hlen)).run hret hlen

end XenOS.Hive
