import XenOS.Hive.Owned

/-! What the keys of a builder own: each its cell and the two lists its node points at. Each
call of the builder keeps this, as long as the hive has 32-bit offsets. -/

namespace XenOS.Hive

open General List
open Option (bind_eq_some_iff)

namespace HiveBuilder

variable {b b' b₁ b₂ : HiveBuilder} {os : List (ℕ × ℕ)} {keys : List ℕ} {fuel n p e l k f v : ℕ} {name : List Char}

/-- The pointers in the nodes: the key, and where in the node its list of subkeys or of values
is named. -/
def slots (keys : List ℕ) : List (ℕ × ℕ) := keys.map (·, 28) ++ keys.map (·, 40)

variable {s : ℕ × ℕ}

theorem mem_slots : s ∈ slots keys ↔ s.1 ∈ keys ∧ (s.2 = 28 ∨ s.2 = 40) := by
  obtain ⟨k, f⟩ := s
  simp only [slots, mem_append, mem_map, Prod.mk.injEq]
  constructor
  · rintro (⟨k, hk, rfl, rfl⟩ | ⟨k, hk, rfl, rfl⟩)
    · exact ⟨hk, Or.inl rfl⟩
    · exact ⟨hk, Or.inr rfl⟩
  · rintro ⟨hk, rfl | rfl⟩
    · exact Or.inl ⟨k, hk, rfl, rfl⟩
    · exact Or.inr ⟨k, hk, rfl, rfl⟩

theorem nodup_slots (h : keys.Nodup) : (slots keys).Nodup := by
  have hinj : ∀ f : ℕ, Function.Injective fun k : ℕ => (k, f) := fun f _ _ h => (Prod.mk.inj h).1
  have hmap : ∀ f : ℕ, (keys.map (·, f)).Nodup := fun f => Pairwise.map _ (fun _ _ => (hinj f).ne) h
  refine nodup_append.2 ⟨hmap 28, hmap 40, fun s hs s' hs' heq => ?_⟩
  obtain ⟨_, -, rfl⟩ := mem_map.1 hs
  obtain ⟨_, -, rfl⟩ := mem_map.1 hs'
  cases heq

def listOf (b : HiveBuilder) (s : ℕ × ℕ) : Option (ℕ × ℕ) :=
  let list := leValue b.data (dataAbs s.1 + s.2) 4
  if list = u32Max then none else some (list, 0)

theorem listOf_congr (h : ∀ j, dataAbs s.1 + s.2 ≤ j → j < dataAbs s.1 + s.2 + 4 → b'.data j = b.data j) :
    b'.listOf s = b.listOf s := by
  unfold listOf
  rw [leValue_congr h]

def keyCells (keys : List ℕ) : List (ℕ × ℕ) := keys.map (·, 80)

def claimed (b : HiveBuilder) (keys : List ℕ) : List (ℕ × ℕ) := keyCells keys ++ (slots keys).filterMap b.listOf

def Sound (b : HiveBuilder) (keys : List ℕ) : Prop := b.Owned (b.claimed keys)

theorem mem_keyCells (hk : k ∈ keys) : (k, 80) ∈ keyCells keys := mem_map.2 ⟨k, hk, rfl⟩

theorem Owned.nodup_keys (h : b.Owned (keyCells keys ++ os)) : keys.Nodup := by
  have hnodup := h.1
  rw [map_append] at hnodup
  have hkeys : (keyCells keys).map Prod.fst = keys := by simp [keyCells, Function.comp_def]
  rw [hkeys] at hnodup
  exact (nodup_append.1 hnodup).1

theorem listOf_keeps (h : Keeps b b' (keyCells keys)) (hs : s ∈ slots keys) : b'.listOf s = b.listOf s := by
  obtain ⟨hk, hf⟩ := mem_slots.1 hs
  refine listOf_congr fun j hlow hhigh => h (s.1, 80) (mem_keyCells hk) j (show dataAbs s.1 ≤ j by omega) ?_
  unfold dataAbs cellHeaderSize at hhigh
  simp only
  omega

theorem claimed_congr (h : ∀ s ∈ slots keys, b'.listOf s = b.listOf s) : b'.claimed keys = b.claimed keys := by
  unfold claimed
  rw [filterMap_congr h]

theorem Sound.of_keeps (hown : b'.Owned (b.claimed keys)) (h : Keeps b b' (keyCells keys)) : b'.Sound keys := by
  unfold Sound
  rwa [claimed_congr fun s hs => listOf_keeps h hs]

theorem keyCells_sub (b : HiveBuilder) (keys : List ℕ) : ∀ o ∈ keyCells keys, o ∈ b.claimed keys :=
  fun _ ho => mem_append_left _ ho

theorem keyCells_perm (os : List (ℕ × ℕ)) (hk : k ∈ keys) : (keyCells keys ++ os).Perm ((k, 80) :: (keyCells (keys.erase k) ++ os)) :=
  ((perm_cons_erase hk).map (·, 80)).append_right os

theorem Owned.withinKey (h : b.Owned (keyCells keys ++ os)) (hk : k ∈ keys) (hwithin : Within b b' p e)
    (hp : dataAbs k ≤ p) (he : e ≤ dataAbs k + 76) :
    b'.Owned (keyCells keys ++ os) ∧ (∀ o ∈ keyCells keys ++ os, o.1 ≠ k → ∀ j, dataAbs o.1 ≤ j →
      j < hiveBaseBlockSize + o.1 + o.2 → b'.data j = b.data j) := by
  have hperm := keyCells_perm os hk
  obtain ⟨hown, hkeeps⟩ := (h.perm hperm).within hwithin hp (by
    unfold dataAbs cellHeaderSize at he
    omega)
  refine ⟨hown.perm hperm.symm, fun o ho hne => ?_⟩
  rcases mem_cons.1 (hperm.mem_iff.1 ho) with rfl | ho
  · exact absurd rfl hne
  · exact hkeeps o ho

theorem listOf_withinKey (h : b.Owned (keyCells keys ++ os)) (hk : k ∈ keys)
    (hwithin : Within b b' (dataAbs k + f) (dataAbs k + f + 4)) (hf : f + 4 ≤ 76) (hs : s ∈ slots keys)
    (hne : s.1 ≠ k ∨ s.2 + 4 ≤ f ∨ f + 4 ≤ s.2) : b'.listOf s = b.listOf s := by
  obtain ⟨hsk, hsf⟩ := mem_slots.1 hs
  refine listOf_congr fun j hlow hhigh => ?_
  by_cases heq : s.1 = k
  · subst heq
    exact hwithin.data j (by omega)
  · refine (h.withinKey hk hwithin (by omega) (by omega)).2 (s.1, 80) (mem_append_left _ (mem_keyCells hsk)) heq j
      (show dataAbs s.1 ≤ j by omega) ?_
    unfold dataAbs cellHeaderSize at hhigh
    simp only
    omega

theorem Sound.writeField (h : b.Sound keys) (hk : k ∈ keys) (hw : b.writeU32 (dataAbs k + f) v = some b') (hf : f + 4 ≤ 76)
    (hf28 : f + 4 ≤ 28 ∨ 32 ≤ f) (hf40 : f + 4 ≤ 40 ∨ 44 ≤ f) : b'.Sound keys := by
  have hwithin : Within b b' (dataAbs k + f) (dataAbs k + f + 4) := within_write hw
  unfold Sound
  rw [claimed_congr fun s hs => listOf_withinKey h hk hwithin hf hs (by
    rcases (mem_slots.1 hs).2 with hs | hs <;> omega)]
  exact (h.withinKey hk hwithin (by omega) (by omega)).1

theorem Owned.allocateWrite (h : b.Owned os) (hret : b.allocateCell fuel n = some (b₁, l))
    (hwithin : Within b₁ b₂ (dataAbs l) (dataAbs l + n)) (hlen : b₂.len ≤ maxLen) :
    b₂.Owned ((l, cellHeaderSize + n) :: os) ∧ Keeps b b₂ os ∧ l < u32Max := by
  obtain ⟨hown, hkeeps, hl⟩ := h.allocateCell hret (hwithin.len ▸ hlen)
  obtain ⟨hown', hkeeps'⟩ := hown.within hwithin (Nat.le_refl _) (by
    unfold dataAbs cellHeaderSize
    omega)
  exact ⟨hown', hkeeps.trans hkeeps', hl⟩

theorem totalWidth_append (fields fields' : List (ℕ × ℕ)) :
    totalWidth (fields ++ fields') = totalWidth fields + totalWidth fields' := by
  simp [totalWidth]

theorem leValue_writeFields (pre : List (ℕ × ℕ)) {post : List (ℕ × ℕ)} (h : b.writeFields p (pre ++ (n, v) :: post) = some b') :
    leValue b'.data (p + totalWidth pre) n = v % 256 ^ n := by
  induction pre generalizing b p with
  | nil =>
    obtain ⟨b₁, h1, h2⟩ := bind_eq_some_iff.1 h
    rw [← leValue_of_write h1]
    exact leValue_congr fun j hlow hhigh => (within_writeFields h2).data j (by simp [totalWidth] at hhigh; omega)
  | cons field pre ih =>
    obtain ⟨m, w⟩ := field
    obtain ⟨b₁, h1, h2⟩ := bind_eq_some_iff.1 h
    rw [show p + totalWidth ((m, w) :: pre) = p + m + totalWidth pre by simp [totalWidth]; omega]
    exact ih h2

theorem totalWidth_keyNodeHeader (flags parent n : ℕ) : totalWidth (keyNodeHeader flags parent n) = 76 := by
  simp [totalWidth, keyNodeHeader]

theorem Sound.allocateKeyNode {parent flags : ℕ} (h : b.Sound keys) (hret : b.allocateKeyNode fuel name parent flags = some (b', k))
    (hlen : b'.len ≤ maxLen) : b'.Sound (k :: keys) := by
  obtain ⟨⟨b₁, l⟩, h1, hret⟩ := bind_eq_some_iff.1 hret
  obtain ⟨b₂, h2, hret⟩ := bind_eq_some_iff.1 hret
  obtain ⟨b₃, h3, hret⟩ := bind_eq_some_iff.1 hret
  cases hret
  have hw2 := within_writeFields h2
  rw [totalWidth_keyNodeHeader] at hw2
  have hw3 := within_copyFromSlice h3
  unfold keyNodeHeaderSize at hw3 h1
  obtain ⟨hown, hkeeps, -⟩ := h.allocateWrite h1
    ((hw2.mono (Nat.le_refl _) (by omega)).trans (hw3.mono (by omega) (by omega))) hlen
  have hfield : ∀ f, leValue b₂.data (dataAbs k + f) 4 = u32Max → f + 4 ≤ 76 → b'.listOf (k, f) = none := fun f hread hf => by
    have hsame : leValue b'.data (dataAbs k + f) 4 = leValue b₂.data (dataAbs k + f) 4 :=
      leValue_congr fun j _ _ => hw3.data j (by omega)
    exact if_pos (hsame.trans hread)
  have hmax : u32Max % 256 ^ 4 = u32Max := by decide
  have h28 : b'.listOf (k, 28) = none := by
    have hread := leValue_writeFields [(2, 0x6b6e), (2, flags), (8, 0), (4, 0), (4, parent), (4, 0), (4, 0)] h2
    rw [hmax] at hread
    exact hfield 28 hread (by decide)
  have h40 : b'.listOf (k, 40) = none := by
    have hread := leValue_writeFields [(2, 0x6b6e), (2, flags), (8, 0), (4, 0), (4, parent), (4, 0), (4, 0), (4, u32Max),
      (4, u32Max), (4, 0)] h2
    rw [hmax] at hread
    exact hfield 40 hread (by decide)
  have hclaimed : (b'.claimed (k :: keys)).Perm ((k, 80) :: b.claimed keys) := by
    have hold : ∀ s ∈ slots keys, b'.listOf s = b.listOf s := fun s hs => listOf_keeps (hkeeps.mono (keyCells_sub b keys)) hs
    have hlists : (slots (k :: keys)).filterMap b'.listOf = (slots keys).filterMap b.listOf := by
      rw [← filterMap_congr hold]
      simp only [slots, map_cons, filterMap_append, filterMap_cons_none h28, filterMap_cons_none h40]
    unfold claimed
    rw [hlists]
    exact Perm.refl _
  refine Owned.perm ?_ hclaimed.symm
  exact hown.shrink (by unfold cellHeaderSize; omega)

theorem read_eq_some (h : b.read p n = some v) : v = leValue b.data p n := by
  unfold read at h
  split_ifs at h
  exact (Option.some.inj h).symm

theorem totalWidth_const {α : Type} (w : ℕ) (value : α → ℕ) (items : List α) :
    totalWidth (items.map fun item => (w, value item)) = items.length * w := by
  simp [totalWidth, Function.comp_def]

theorem totalWidth_pairs (items : List (ℕ × ℕ)) :
    totalWidth (items.flatMap fun item => [(4, item.1), (4, item.2)]) = items.length * 8 := by
  induction items with
  | nil => rfl
  | cons item items ih =>
    rw [flatMap_cons, totalWidth_append, ih, length_cons]
    simp only [totalWidth, map_cons, map_nil, sum_cons, sum_nil]
    omega

theorem within_createSubkeysList {items : List (ℕ × ℕ)} (hret : b.createSubkeysList fuel items = some (b', l)) :
    ∃ b₁, b.allocateCell fuel (4 + items.length * 8) = some (b₁, l) ∧
      Within b₁ b' (dataAbs l) (dataAbs l + (4 + items.length * 8)) := by
  obtain ⟨⟨b₁, l'⟩, h1, hret⟩ := bind_eq_some_iff.1 hret
  obtain ⟨b₂, h2, hret⟩ := bind_eq_some_iff.1 hret
  obtain ⟨b₃, h3, hret⟩ := bind_eq_some_iff.1 hret
  cases hret
  have hw2 : Within b₁ b₂ (dataAbs l) (dataAbs l + 4) := within_writeFields h2
  have hw3 := within_writeFields h3
  rw [totalWidth_pairs] at hw3
  exact ⟨b₁, h1, (hw2.mono (Nat.le_refl _) (by omega)).trans (hw3.mono (by omega) (by omega))⟩

theorem within_createValuesList {offsets : List ℕ} (hret : b.createValuesList fuel offsets = some (b', l)) :
    ∃ b₁, b.allocateCell fuel (offsets.length * 4) = some (b₁, l) ∧ Within b₁ b' (dataAbs l) (dataAbs l + offsets.length * 4) := by
  obtain ⟨⟨b₁, l'⟩, h1, hret⟩ := bind_eq_some_iff.1 hret
  obtain ⟨b₂, h2, hret⟩ := bind_eq_some_iff.1 hret
  cases hret
  have hw2 := within_writeFields h2
  rw [totalWidth_const 4 (fun offset => offset) offsets] at hw2
  exact ⟨b₁, h1, hw2⟩

structure NewList (b b' : HiveBuilder) (os : List (ℕ × ℕ)) (l : ℕ) : Prop where
  owned : ∃ n, b'.Owned ((l, n) :: os)
  keeps : Keeps b b' os
  offset : l < u32Max

theorem Owned.createSubkeysList {items : List (ℕ × ℕ)} (h : b.Owned os) (hret : b.createSubkeysList fuel items = some (b', l))
    (hlen : b'.len ≤ maxLen) : NewList b b' os l := by
  obtain ⟨b₁, h1, hwithin⟩ := within_createSubkeysList hret
  obtain ⟨hown, hkeeps, hl⟩ := h.allocateWrite h1 hwithin hlen
  exact ⟨⟨_, hown⟩, hkeeps, hl⟩

theorem Owned.createValuesList {offsets : List ℕ} (h : b.Owned os) (hret : b.createValuesList fuel offsets = some (b', l))
    (hlen : b'.len ≤ maxLen) : NewList b b' os l := by
  obtain ⟨b₁, h1, hwithin⟩ := within_createValuesList hret
  obtain ⟨hown, hkeeps, hl⟩ := h.allocateWrite h1 hwithin hlen
  exact ⟨⟨_, hown⟩, hkeeps, hl⟩

theorem Owned.extendSubkeysList {list child hash : ℕ} (h : b.Owned ((list, n) :: os))
    (hret : b.extendSubkeysList fuel list child hash = some (b', l)) (hlen : b'.len ≤ maxLen) : NewList b b' os l := by
  obtain ⟨count, -, hret⟩ := bind_eq_some_iff.1 hret
  obtain ⟨items, -, hret⟩ := bind_eq_some_iff.1 hret
  obtain ⟨b₁, h1, hret⟩ := bind_eq_some_iff.1 hret
  obtain ⟨hown, hkeeps, -⟩ := h.freeCell h1
  have hnew := hown.createSubkeysList hret hlen
  exact ⟨hnew.owned, hkeeps.trans hnew.keeps, hnew.offset⟩

def otherClaims (b : HiveBuilder) (keys : List ℕ) (s : ℕ × ℕ) : List (ℕ × ℕ) :=
  keyCells keys ++ ((slots keys).erase s).filterMap b.listOf

theorem claimed_perm (hs : s ∈ slots keys) :
    (b.claimed keys).Perm ((b.listOf s).toList ++ b.otherClaims keys s) := by
  have hlists : ((slots keys).filterMap b.listOf).Perm ((b.listOf s).toList ++ ((slots keys).erase s).filterMap b.listOf) := by
    refine ((perm_cons_erase hs).filterMap b.listOf).trans ?_
    cases hlist : b.listOf s with
    | none => rw [filterMap_cons_none hlist]; exact Perm.refl _
    | some list => rw [filterMap_cons_some hlist]; exact Perm.refl _
  refine (hlists.append_left (keyCells keys)).trans ?_
  unfold otherClaims
  rw [← append_assoc, ← append_assoc]
  exact perm_append_comm.append_right _

theorem Sound.point (hs : s ∈ slots keys) (hnew : NewList b b₁ (b.otherClaims keys s) l)
    (hw : b₁.writeU32 (dataAbs s.1 + s.2) l = some b') : b'.Sound keys := by
  obtain ⟨⟨n, hown⟩, hkeeps, hl⟩ := hnew
  obtain ⟨hk, hf⟩ := mem_slots.1 hs
  have hwithin : Within b₁ b' (dataAbs s.1 + s.2) (dataAbs s.1 + s.2 + 4) := within_write hw
  have hown' : b₁.Owned (keyCells keys ++ (l, n) :: ((slots keys).erase s).filterMap b.listOf) :=
    hown.perm perm_middle.symm
  have hlist : b'.listOf s = some (l, 0) := by
    have hread : leValue b'.data (dataAbs s.1 + s.2) 4 = l := by
      rw [leValue_of_write hw]
      unfold u32Max at hl
      exact Nat.mod_eq_of_lt (by omega)
    unfold listOf
    simp only [hread]
    exact if_neg (Nat.ne_of_lt hl)
  have hothers : ((slots keys).erase s).filterMap b'.listOf = ((slots keys).erase s).filterMap b.listOf := by
    refine filterMap_congr fun s' hs' => ?_
    obtain ⟨hne, hs'⟩ := ((nodup_slots hown'.nodup_keys).mem_erase_iff).1 hs'
    have hapart : s'.1 ≠ s.1 ∨ s'.2 + 4 ≤ s.2 ∨ s.2 + 4 ≤ s'.2 := by
      by_contra hsame
      have hf' := (mem_slots.1 hs').2
      exact hne (Prod.ext (by omega) (by omega))
    rw [listOf_withinKey hown' hk hwithin (by omega) hs' hapart]
    exact listOf_keeps (hkeeps.mono fun o ho => mem_append_left _ ho) hs'
  refine Owned.perm ?_ (claimed_perm hs).symm
  unfold otherClaims
  rw [hlist, hothers]
  exact (((hown'.withinKey hk hwithin (by omega) (by omega)).1.perm perm_middle).shrink (Nat.zero_le n))

theorem Sound.list (h : b.Sound keys) (hs : s ∈ slots keys) {list : ℕ}
    (hread : b.readU32 (dataAbs s.1 + s.2) = some list) :
    (list = u32Max → b.Owned (b.otherClaims keys s)) ∧ (list ≠ u32Max → b.Owned ((list, 0) :: b.otherClaims keys s)) := by
  have hown := Owned.perm h (claimed_perm hs)
  have hlist := read_eq_some hread
  constructor
  · intro hmax
    have hnone : b.listOf s = none := if_pos (hlist.symm.trans hmax)
    rwa [hnone] at hown
  · intro hmax
    have hsome : b.listOf s = some (list, 0) := by
      unfold listOf
      rw [← hlist]
      exact if_neg hmax
    rwa [hsome] at hown

end HiveBuilder

end XenOS.Hive
