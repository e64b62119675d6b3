import XenOS.Hive.LookupSpec

/-! A value that was set, looked up in the bytes that are given out. -/

namespace XenOS.Hive

open General HiveBuilder List KeySpec
open Option (bind_eq_some_iff)

variable {b b' : HiveBuilder} {tree : List HiveKey} {s s' : Session} {spec keys : List KeySpec} {ops : List HiveOp} {fuel : ℕ}
  {name : List Char}

/-! ### The root -/

structure RootFirst (s : Session) : Prop where
  keys : s.keys.getLast? = some s.builder.rootKeyOffset
  field : leValue s.builder.data 36 4 = s.builder.rootKeyOffset
  len : 40 ≤ s.builder.len

theorem HiveBuilder.Front.rootField (h : Front b b') : leValue b'.data 36 4 = leValue b.data 36 4 := leValue_congr fun j _ hj => h.data j hj

theorem HiveBuilder.Front.step {op : HiveOp} (hret : s.step fuel op = some s') (hlen : 40 ≤ s.builder.len) : Front s.builder s'.builder := by
  cases hop : op.setting with
  | none =>
    cases op with
    | createSubkey parent name =>
      obtain ⟨k, -, hret⟩ := bind_eq_some_iff.1 hret
      obtain ⟨⟨b, key⟩, hcreate, hret⟩ := bind_eq_some_iff.1 hret
      cases hret
      exact Front.createSubkey hcreate hlen
    | _ => cases hop
  | some setting =>
    obtain ⟨key, name, dataType, data⟩ := setting
    obtain ⟨k, b', -, hset, rfl⟩ := Session.step_setting hop hret
    exact Front.setValueInternal hset hlen

theorem HiveBuilder.Front.run (hret : ops.foldlM (Session.step fuel) s = some s') (hlen : 40 ≤ s.builder.len) : Front s.builder s'.builder := by
  induction ops generalizing s with
  | nil =>
    cases hret
    exact Front.refl _
  | cons op ops ih =>
    obtain ⟨s₁, hstep, hret⟩ := bind_eq_some_iff.1 hret
    exact (Front.step hstep hlen).trans (ih hret (Nat.le_trans hlen (len_step hstep)))

theorem getLast_step {op : HiveOp} (hret : s.step fuel op = some s') (hne : s.keys ≠ []) : s'.keys.getLast? = s.keys.getLast? := by
  cases hop : op.setting with
  | none =>
    cases op with
    | createSubkey parent name =>
      obtain ⟨k, -, hret⟩ := bind_eq_some_iff.1 hret
      obtain ⟨⟨b, key⟩, hcreate, hret⟩ := bind_eq_some_iff.1 hret
      cases hret
      rw [getLast?_cons, getLast?_eq_some_getLast hne]
      rfl
    | _ => cases hop
  | some setting =>
    obtain ⟨key, name, dataType, data⟩ := setting
    obtain ⟨k, b', -, hset, rfl⟩ := Session.step_setting hop hret
    rfl

theorem RootFirst.step (h : RootFirst s) {op : HiveOp} (hret : s.step fuel op = some s') : RootFirst s' := by
  have hfront := Front.step hret h.len
  have hne : s.keys ≠ [] := fun hnil => by
    have hkeys := h.keys
    rw [hnil] at hkeys
    cases hkeys
  refine ⟨?_, hfront.rootField.trans (h.field.trans hfront.rootKeyOffset.symm), Nat.le_trans h.len (len_step hret)⟩
  rw [getLast_step hret hne, h.keys, hfront.rootKeyOffset]

theorem RootFirst.run (h : RootFirst s) (hret : ops.foldlM (Session.step fuel) s = some s') : RootFirst s' := by
  induction ops generalizing s with
  | nil =>
    cases hret
    exact h
  | cons op ops ih =>
    obtain ⟨s₁, hstep, hret⟩ := bind_eq_some_iff.1 hret
    exact ih (h.step hstep) hret

theorem RootFirst.new (hnew : Session.new fuel name = some s) (hlen : s.builder.len ≤ maxLen) : RootFirst s := by
  have hoffset := ((Tree.new hnew hlen).built.formed _ (mem_singleton.2 rfl)).offset
  obtain ⟨b, hb, hnew⟩ := bind_eq_some_iff.1 hnew
  cases hnew
  obtain ⟨b₁, -, hb⟩ := bind_eq_some_iff.1 hb
  obtain ⟨b₂, -, hb⟩ := bind_eq_some_iff.1 hb
  obtain ⟨⟨b₃, k⟩, -, h4⟩ := bind_eq_some_iff.1 hb
  have hread := leValue_of_write h4
  obtain ⟨hle, rfl⟩ := write_eq_some h4
  refine ⟨rfl, hread.trans (Nat.mod_eq_of_lt ?_), hle⟩
  exact Nat.lt_trans hoffset (by decide)

theorem map_modify {α β : Type} {f : α → α} {g : α → β} (hf : ∀ x, g (f x) = g x) (xs : List α) (i : ℕ) :
    (xs.modify i f).map g = xs.map g := by
  induction xs generalizing i with
  | nil => cases i <;> rfl
  | cons x xs ih => cases i <;> simp [hf, ih]

theorem getLast_specStep (h : (keys.map path).getLast? = some []) (op : HiveOp) :
    ((specStep keys op).map path).getLast? = some [] := by
  cases hop : op.setting with
  | some setting =>
    have hpaths : ∀ k : KeySpec, ({ k with values := k.values ++ [setting.2] } : KeySpec).path = k.path := fun _ => rfl
    rw [specStep_setting hop, map_modify hpaths]
    exact h
  | none =>
    cases op with
    | createSubkey parent name =>
      have hstep : specStep keys (.createSubkey parent name) = keys[parent]?.elim keys fun k => ⟨k.path ++ [name], []⟩ :: keys := rfl
      rw [hstep]
      cases keys[parent]? with
      | none => exact h
      | some k =>
        rw [Option.elim_some, map_cons, getLast?_cons, h]
        rfl
    | _ => cases hop

theorem getLast_specRun (ops : List HiveOp) : ((specRun ops).map path).getLast? = some [] := by
  have hfold : ∀ keys : List KeySpec, (keys.map path).getLast? = some [] →
      ((ops.foldl specStep keys).map path).getLast? = some [] := by
    induction ops with
    | nil => exact fun keys h => h
    | cons op ops ih => exact fun keys h => ih _ (getLast_specStep h op)
  exact hfold _ rfl

theorem Tree.exists_root (h : Tree s spec tree) (hroot : RootFirst s) (hspec : (spec.map path).getLast? = some []) :
    ∃ root ∈ tree, root.path = [] ∧ root.offset = s.builder.rootKeyOffset := by
  have hkeys := hroot.keys
  rw [← h.keys, getLast?_map] at hkeys
  rw [← h.spec, map_map, getLast?_map] at hspec
  obtain ⟨root, hlast, hoffset⟩ := Option.map_eq_some_iff.1 hkeys
  rw [hlast] at hspec
  exact ⟨root, mem_of_getLast? hlast, Option.some.inj hspec, hoffset⟩

/-- The bytes that are given out differ only in the sequence numbers and from the checksum on. -/
theorem build_spec (h : b.build = some b') : b'.len = b.len ∧ (∀ j, hiveBaseBlockSize ≤ j → b'.data j = b.data j) ∧
    ∀ j < 508, j < 4 ∨ 12 ≤ j → b'.data j = b.data j := by
  obtain ⟨sequenceNumber, -, h⟩ := bind_eq_some_iff.1 h
  obtain ⟨b₁, h1, h⟩ := bind_eq_some_iff.1 h
  obtain ⟨b₂, h2, h3⟩ := bind_eq_some_iff.1 h
  have w1 : Within b b₁ 4 8 := within_write h1
  have w2 : Within b₁ b₂ 8 12 := within_write h2
  have w3 : Within b₂ b' 508 512 := within_write h3
  have hmiddle : ∀ j < 508, j < 4 ∨ 12 ≤ j → b'.data j = b.data j := fun j _ _ => by
    rw [w3.data j (by omega), w2.data j (by omega), w1.data j (by omega)]
  refine ⟨by rw [w3.len, w2.len, w1.len], fun j hj => ?_, hmiddle⟩
  unfold hiveBaseBlockSize at hj
  rw [w3.data j (by omega), w2.data j (by omega), w1.data j (by omega)]

/-! ### Settings -/

def KeySpec.last (k : KeySpec) (name : List Char) : Option (ℕ × List UInt8) :=
  (k.values.reverse.find? fun v => sameName v.1 name).map Prod.snd

/-- Every key is found by its path; there each name has the type and the data of its last
setting, and no two values have one name. -/
def SetThenGet (b : HiveBuilder) (keys : List KeySpec) : Prop :=
  ∀ k ∈ keys, ∃ node, (do b.subpath (← b.rootKeyNode) k.path) = some (some node) ∧
    (∀ name, b.get node name = some (k.last name)) ∧
    ∃ names, b.valueNames node = some names ∧ names.Pairwise fun x y => cmpIter x.units y.units ≠ .eq

def SetOnce (keys : List KeySpec) : Prop := ∀ k ∈ keys, k.values.Pairwise fun v w => foldName v.1 ≠ foldName w.1

theorem find_reverse {α : Type} {p : α → Bool} {xs : List α} (h : xs.Pairwise fun x y => ¬ (p x = true ∧ p y = true)) :
    xs.reverse.find? p = xs.find? p := by
  induction xs with
  | nil => rfl
  | cons x xs ih =>
    obtain ⟨hx, hxs⟩ := pairwise_cons.1 h
    rw [reverse_cons, find?_append, ih hxs, find?_cons]
    cases hp : p x with
    | true =>
      have hnone : xs.find? p = none := find?_eq_none.2 fun y hy hpy => hx y hy ⟨hp, hpy⟩
      rw [hnone]
      simp [hp]
    | false =>
      simp [hp]

theorem names_pairwise_iff {k : HiveKey} (hvs : ∀ v ∈ k.values, Setting v.setting) :
    ((k.values.map fun v => HiveString.latin1 (nameBytes v.name)).Pairwise fun x y => cmpIter x.units y.units ≠ .eq) ↔
      k.spec.values.Pairwise fun v w => foldName v.1 ≠ foldName w.1 := by
  unfold HiveKey.spec
  rw [pairwise_map, pairwise_map]
  refine Pairwise.iff_of_mem fun {v w} hv hw => ?_
  have hunits : ∀ u ∈ k.values, (HiveString.latin1 (nameBytes u.name)).units = encodeUtf16 u.name := fun u hu => units_ascii (hvs u hu).ascii
  rw [hunits v hv, hunits w hw, Ne, cmpIter_eq_iff]
  rfl

theorem Tree.exists_key (h : Tree s spec tree) {k : KeySpec} (hk : k ∈ spec) : ∃ x ∈ tree, x.spec = k :=
  mem_map.1 (h.spec.symm ▸ hk)

theorem Tree.setThenGet_iff (h : Tree s spec tree) (hroot : RootFirst s) (hspec : (spec.map path).getLast? = some [])
    (hlegible : Legible spec) : SetThenGet s.builder spec ↔ SetOnce spec := by
  obtain ⟨root, hmem, hempty, hoffset⟩ := h.exists_root hroot hspec
  have hholds := h.built.holds
  have hcells : ∀ x ∈ tree, ∀ r ∈ x.cells, r ∈ tree.flatMap HiveKey.cells := fun x hx r hr => mem_flatMap.2 ⟨x, hx, hr⟩
  have hrootNode : s.builder.rootKeyNode = some (s.builder.nodeAt root.offset) := by
    unfold HiveBuilder.rootKeyNode
    rw [hroot.field, ← hoffset]
    exact keyNode_eq hholds (hcells root hmem _ mem_cons_self) (h.built.formed root hmem)
  have hfind : ∀ k ∈ tree, (do s.builder.subpath (← s.builder.rootKeyNode) k.path) = some (some (s.builder.nodeAt k.offset)) := by
    intro k hk
    rw [hrootNode]
    exact h.subpath_eq hlegible hmem hempty hk
  have hvs : ∀ k ∈ tree, ∀ v ∈ k.values, Setting v.setting := fun k hk v hv =>
    hlegible.values k.spec (h.mem_spec hk) v.setting (mem_map_of_mem hv)
  have hnames := fun k (hk : k ∈ tree) => valueNames_eq hholds (hcells k hk) (h.built.formed k hk) (hvs k hk)
  constructor
  · intro hget spec hspec
    obtain ⟨k, hk, rfl⟩ := h.exists_key hspec
    obtain ⟨node, hnode, -, names, hnames', hpairwise⟩ := hget k.spec (h.mem_spec hk)
    obtain rfl : s.builder.nodeAt k.offset = node := Option.some.inj (Option.some.inj ((hfind k hk).symm.trans hnode))
    obtain rfl := Option.some.inj ((hnames k hk).symm.trans hnames')
    exact (names_pairwise_iff (hvs k hk)).1 hpairwise
  · intro honce spec hspec
    obtain ⟨k, hk, rfl⟩ := h.exists_key hspec
    have hpairwise := honce k.spec (h.mem_spec hk)
    refine ⟨_, hfind k hk, fun name => ?_, _, hnames k hk, (names_pairwise_iff (hvs k hk)).2 hpairwise⟩
    rw [get_eq hholds (hcells k hk) (h.built.formed k hk) (hvs k hk), last, find_reverse]
    · unfold HiveKey.spec
      rw [find?_map, Option.map_map]
      rfl
    · refine hpairwise.imp fun hne hboth => hne ?_
      exact (sameName_iff.1 hboth.1).trans (sameName_iff.1 hboth.2).symm

theorem Tree.build (h : Tree s spec tree) (hbuild : s.builder.build = some b) : Tree { s with builder := b } spec tree :=
  ⟨h.built.congr (build_spec hbuild).1 (build_spec hbuild).2.1 (fun j _ _ => (build_spec hbuild).2.2 j (by omega) (by omega)), h.keys, h.spec, h.linked⟩

theorem rootKeyOffset_build (h : b.build = some b') : b'.rootKeyOffset = b.rootKeyOffset := by
  obtain ⟨sequenceNumber, -, h⟩ := bind_eq_some_iff.1 h
  obtain ⟨b₁, h1, h⟩ := bind_eq_some_iff.1 h
  obtain ⟨b₂, h2, h3⟩ := bind_eq_some_iff.1 h
  rw [(write_eq_some h3).2, (write_eq_some h2).2, (write_eq_some h1).2]

theorem RootFirst.build (h : RootFirst s) (hbuild : s.builder.build = some b) : RootFirst { s with builder := b } := by
  obtain ⟨hlen, -, hsame⟩ := build_spec hbuild
  have hfield : leValue b.data 36 4 = leValue s.builder.data 36 4 := leValue_congr fun j _ _ => hsame j (by omega) (by omega)
  have hroot := rootKeyOffset_build hbuild
  exact ⟨h.keys.trans (congrArg some hroot.symm), hfield.trans (h.field.trans hroot.symm), by simpa only [hlen] using h.len⟩

/-- After a run of a session, what is given out. -/
def GivesOut (name : List Char) (ops : List HiveOp) (b : HiveBuilder) : Prop :=
  ∃ fuel s₀ s, Session.new fuel name = some s₀ ∧ ops.foldlM (Session.step fuel) s₀ = some s ∧ s.builder.len ≤ maxLen ∧
    s.builder.build = some b

theorem GivesOut.exists_tree (h : GivesOut name ops b) : ∃ s tree, s.builder = b ∧ Tree s (specRun ops) tree ∧ RootFirst s := by
  obtain ⟨fuel, s₀, s, hnew, hret, hlen, hbuild⟩ := h
  obtain ⟨tree, htree⟩ := Session.exists_tree hnew hret hlen
  have hroot := (RootFirst.new hnew (Nat.le_trans (len_run hret) hlen)).run hret
  exact ⟨_, tree, rfl, htree.build hbuild, hroot.build hbuild⟩

/-- The bytes give type and data of the last setting of each name exactly where no key has two
settings of one name. -/
theorem setThenGet_iff_setOnce (h : GivesOut name ops b) (hlegible : Legible (specRun ops)) :
    SetThenGet b (specRun ops) ↔ SetOnce (specRun ops) := by
  obtain ⟨s, tree, rfl, htree, hroot⟩ := h.exists_tree
  exact htree.setThenGet_iff hroot (getLast_specRun ops) hlegible

theorem exists_givesOut (fuel : ℕ) (name : List Char) (ops : List HiveOp) (heval : ((Session.new fuel name).bind fun s => ops.foldlM (Session.step fuel) s).any
    (fun s => decide (s.builder.len ≤ maxLen) && s.builder.build.isSome) = true) : ∃ b, GivesOut name ops b := by
  obtain ⟨s, hs, hboth⟩ := (Option.any_eq_true _ _).1 heval
  obtain ⟨s₀, hnew, hret⟩ := bind_eq_some_iff.1 hs
  rw [Bool.and_eq_true, decide_eq_true_iff] at hboth
  obtain ⟨b, hbuild⟩ := Option.isSome_iff_exists.1 hboth.2
  exact ⟨b, fuel, s₀, s, hnew, hret, hboth.1, hbuild⟩

theorem legible_root {vs : List (List Char × ℕ × List UInt8)} (h : ∀ v ∈ vs, Setting v) : Legible [⟨[], vs⟩] where
  path k hk name hname := by
    rw [mem_singleton.1 hk] at hname
    cases hname
  paths := nodup_singleton _
  subkeys k hk := Nat.lt_of_le_of_lt countP_le_length (show 1 < 2 ^ 16 by decide)
  values k hk := by
    rw [mem_singleton.1 hk]
    exact h

theorem setting_v (data : List UInt8) (h : data.length ≤ bigDataSegmentSize) : Setting (['v'], 4, data) where
  ascii := by
    intro c hc
    rw [mem_singleton.1 hc]
    decide
  length := show 1 < 2 ^ 16 by decide
  dataType := show 4 ≤ 11 by decide
  data := h

/-- A root with values set before and after its subkey, whose values have names that the root's
have too. The root's index is 1 once the subkey is made. -/
def mixedSettings : List HiveOp :=
  [.setDword 0 ['v'] 1, .setString 0 ['w', 'x'] ['a'], .createSubkey 0 ['K'], .setDword 0 ['V'] 2, .setQword 1 ['y'] 3,
    .setBinary 0 ['w', 'X'] [7, 8, 9, 10, 11]]

/-- Names are told apart by key, and found in either case. -/
theorem setThenGet_mixed : ∃ b, GivesOut ['R'] mixedSettings b ∧ SetThenGet b (specRun mixedSettings) ∧
    (specRun mixedSettings).map (fun k => (k.path, k.last ['V'])) =
      [([['K']], some (4, [2, 0, 0, 0])), ([], some (4, [1, 0, 0, 0]))] := by
  obtain ⟨b, hb⟩ := exists_givesOut 2 ['R'] mixedSettings (by decide +kernel)
  have hascii : ∀ {name : List Char}, (name.all fun c => c.toNat < 128) = true → Ascii name := fun h c hc =>
    of_decide_eq_true (all_eq_true.1 h c hc)
  have hnames : ∀ k ∈ specRun mixedSettings, ∀ name ∈ k.path, (name.all fun c => c.toNat < 128) = true ∧ name.length ≤ 1 := by
    decide
  have hvalues : ∀ k ∈ specRun mixedSettings, ∀ v ∈ k.values,
      (v.1.all fun c => c.toNat < 128) = true ∧ v.1.length ≤ 2 ∧ v.2.1 ≤ 11 ∧ v.2.2.length ≤ 8 := by
    decide
  have hlegible : Legible (specRun mixedSettings) :=
    { path := fun k hk name hname => ⟨hascii (hnames k hk name hname).1, Nat.lt_of_le_of_lt (hnames k hk name hname).2 (by decide)⟩
      paths := by decide
      subkeys := fun k hk => Nat.lt_of_le_of_lt countP_le_length (by decide)
      values := fun k hk v hv => by
        obtain ⟨hname, hlength, htype, hdata⟩ := hvalues k hk v hv
        exact ⟨hascii hname, Nat.lt_of_le_of_lt hlength (by decide), htype, Nat.le_trans hdata (by decide)⟩ }
  have honce : SetOnce (specRun mixedSettings) := by
    unfold SetOnce
    decide
  exact ⟨b, hb, (setThenGet_iff_setOnce hb hlegible).2 honce, by decide⟩

/-- A value that is set twice has its first data. -/
theorem setThenGet_twice : ∃ b, GivesOut ['R'] [.setDword 0 ['v'] 1, .setDword 0 ['v'] 2] b ∧
    ¬ SetThenGet b (specRun [.setDword 0 ['v'] 1, .setDword 0 ['v'] 2]) := by
  obtain ⟨b, hb⟩ := exists_givesOut 1 ['R'] [.setDword 0 ['v'] 1, .setDword 0 ['v'] 2] (by decide +kernel)
  refine ⟨b, hb, fun hget => ?_⟩
  obtain ⟨s, tree, rfl, htree, hroot⟩ := hb.exists_tree
  have honce := (htree.setThenGet_iff hroot (getLast_specRun _) (legible_root fun v hv => ?_)).1 hget _ mem_cons_self
  · exact (pairwise_cons.1 honce).1 _ mem_cons_self rfl
  · rcases mem_cons.1 hv with rfl | hv
    · exact setting_v _ (by decide)
    · rw [mem_singleton.1 hv]
      exact setting_v _ (by decide)

end XenOS.Hive
