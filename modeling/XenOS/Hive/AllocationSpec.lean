import XenOS.Hive.Keys

/-! When the allocation of a cell ends. The search sees every cell of a layout. The new bin of an
extension gives 32 bytes less than its size, so a retry that needs them extends the hive again. -/

namespace XenOS.Hive

open General
open List (mem_singleton)
open Option (bind_eq_bind bind_eq_some_iff)

namespace HiveBuilder

variable {b b' b₁ : HiveBuilder} {os : List (ℕ × ℕ)} {keys : List ℕ} {bins : Bins} {fuel n p e l k v : ℕ} {name : List Char}

theorem len_write (h : b.write p n v = some b') : b'.len = b.len := (within_write h).len

theorem len_freeCell (h : b.freeCell l = some b') : b'.len = b.len := by
  obtain ⟨size, -, h⟩ := bind_eq_some_iff.1 h
  split_ifs at h
  · exact len_write h
  · cases h
    rfl

theorem len_createSubkeysList {items : List (ℕ × ℕ)} (h : b.createSubkeysList fuel items = some (b', l)) : b.len ≤ b'.len := by
  obtain ⟨b₁, h1, hwithin⟩ := within_createSubkeysList h
  exact hwithin.len ▸ len_allocateCell h1

theorem len_createValuesList {offsets : List ℕ} (h : b.createValuesList fuel offsets = some (b', l)) : b.len ≤ b'.len := by
  obtain ⟨b₁, h1, hwithin⟩ := within_createValuesList h
  exact hwithin.len ▸ len_allocateCell h1

variable {child : ℕ}

theorem len_extendSubkeysList {list hash : ℕ} (h : b.extendSubkeysList fuel list child hash = some (b', l)) :
    b.len ≤ b'.len := by
  obtain ⟨count, -, h⟩ := bind_eq_some_iff.1 h
  obtain ⟨items, -, h⟩ := bind_eq_some_iff.1 h
  obtain ⟨b₁, h1, h⟩ := bind_eq_some_iff.1 h
  exact len_freeCell h1 ▸ len_createSubkeysList h

theorem addSubkeyToParent_cases (h : b.addSubkeyToParent fuel k child name = some b') :
    ∃ list count max hash l b₁ b₂ b₃, b.readU32 (dataAbs k + 28) = some list ∧
      (if list = u32Max then b.createSubkeysList fuel [(child, hash)] else b.extendSubkeysList fuel list child hash) = some (b₁, l) ∧
      b₁.writeU32 (dataAbs k + 28) l = some b₂ ∧ b₂.writeU32 (dataAbs k + 20) count = some b₃ ∧
      (b' = b₃ ∨ b₃.writeU32 (dataAbs k + 52) max = some b') := by
  obtain ⟨list, hlist, h⟩ := bind_eq_some_iff.1 h
  obtain ⟨count, -, h⟩ := bind_eq_some_iff.1 h
  obtain ⟨⟨b₁, l⟩, h1, h⟩ := bind_eq_some_iff.1 h
  obtain ⟨b₂, h2, h⟩ := bind_eq_some_iff.1 h
  obtain ⟨count', -, h⟩ := bind_eq_some_iff.1 h
  obtain ⟨b₃, h3, h⟩ := bind_eq_some_iff.1 h
  obtain ⟨currentMax, -, h⟩ := bind_eq_some_iff.1 h
  obtain ⟨nameLen, -, h⟩ := bind_eq_some_iff.1 h
  refine ⟨list, count', nameLen, computeNameHash name, l, b₁, b₂, b₃, hlist, h1, h2, h3, ?_⟩
  split_ifs at h
  · exact Or.inr h
  · exact Or.inl (Option.some.inj h).symm

theorem len_addSubkeyToParent (h : b.addSubkeyToParent fuel k child name = some b') : b.len ≤ b'.len := by
  obtain ⟨list, count, max, hash, l, b₁, b₂, b₃, -, h1, h2, h3, h4⟩ := addSubkeyToParent_cases h
  have hlen : b'.len = b₁.len := by
    rw [← len_write h2, ← len_write h3]
    rcases h4 with rfl | h4
    · rfl
    · exact len_write h4
  rw [hlen]
  split_ifs at h1
  · exact len_createSubkeysList h1
  · exact len_extendSubkeysList h1

theorem Sound.addSubkeyToParent (h : b.Sound keys) (hk : k ∈ keys)
    (hret : b.addSubkeyToParent fuel k child name = some b') (hlen : b'.len ≤ maxLen) : b'.Sound keys := by
  obtain ⟨list, count, max, hash, l, b₁, b₂, b₃, hlist, h1, h2, h3, h4⟩ := addSubkeyToParent_cases hret
  have hslot : (k, 28) ∈ slots keys := mem_slots.2 ⟨hk, Or.inl rfl⟩
  have hlen₁ : b₁.len ≤ maxLen := by
    rw [← len_write h2, ← len_write h3]
    rcases h4 with rfl | h4
    · exact hlen
    · rwa [← len_write h4]
  have hnew : NewList b b₁ (b.otherClaims keys (k, 28)) l := by
    obtain ⟨hnone, hsome⟩ := h.list hslot hlist
    split_ifs at h1 with hmax
    · exact (hnone hmax).createSubkeysList h1 hlen₁
    · exact (hsome hmax).extendSubkeysList h1 hlen₁
  have hsound := (Sound.point hslot hnew h2).writeField hk h3 (by decide) (by decide) (by decide)
  rcases h4 with rfl | h4
  · exact hsound
  · exact hsound.writeField hk h4 (by decide) (by decide) (by decide)

variable {parent : ℕ}

theorem len_allocateKeyNode {flags : ℕ} (h : b.allocateKeyNode fuel name parent flags = some (b', k)) :
    b.len ≤ b'.len := by
  obtain ⟨⟨b₁, l⟩, h1, h⟩ := bind_eq_some_iff.1 h
  obtain ⟨b₂, h2, h⟩ := bind_eq_some_iff.1 h
  obtain ⟨b₃, h3, h⟩ := bind_eq_some_iff.1 h
  cases h
  rw [(within_copyFromSlice h3).len, (within_writeFields h2).len]
  exact len_allocateCell h1

theorem len_createSubkey (h : b.createSubkey fuel parent name = some (b', k)) : b.len ≤ b'.len := by
  obtain ⟨⟨b₁, l⟩, h1, h⟩ := bind_eq_some_iff.1 h
  obtain ⟨b₂, h2, h⟩ := bind_eq_some_iff.1 h
  cases h
  exact Nat.le_trans (len_allocateKeyNode h1) (len_addSubkeyToParent h2)

theorem Sound.createSubkey (h : b.Sound keys) (hparent : parent ∈ keys)
    (hret : b.createSubkey fuel parent name = some (b', k)) (hlen : b'.len ≤ maxLen) :
    b'.Sound (k :: keys) := by
  obtain ⟨⟨b₁, l⟩, h1, hret⟩ := bind_eq_some_iff.1 hret
  obtain ⟨b₂, h2, hret⟩ := bind_eq_some_iff.1 hret
  cases hret
  exact (h.allocateKeyNode h1 (Nat.le_trans (len_addSubkeyToParent h2) hlen)).addSubkeyToParent (by simp [hparent]) h2 hlen

variable {data : List UInt8}

theorem len_storeData {stored : ℕ × ℕ} (h : b.storeData fuel data = some (b', stored)) : b.len ≤ b'.len := by
  unfold storeData at h
  split_ifs at h
  · cases h
    exact Nat.le_refl _
  · obtain ⟨⟨b₁, l⟩, h1, h⟩ := bind_eq_some_iff.1 h
    obtain ⟨b₂, h2, h⟩ := bind_eq_some_iff.1 h
    cases h
    exact (within_copyFromSlice h2).len ▸ len_allocateCell h1

theorem Owned.storeData {stored : ℕ × ℕ} (h : b.Owned os) (hret : b.storeData fuel data = some (b', stored))
    (hlen : b'.len ≤ maxLen) : b'.Owned os ∧ Keeps b b' os := by
  unfold HiveBuilder.storeData at hret
  split_ifs at hret
  · cases hret
    exact ⟨h, fun _ _ _ _ _ => rfl⟩
  · obtain ⟨⟨b₁, l⟩, h1, hret⟩ := bind_eq_some_iff.1 hret
    obtain ⟨b₂, h2, hret⟩ := bind_eq_some_iff.1 hret
    cases hret
    obtain ⟨hown, hkeeps, -⟩ := h.allocateWrite h1 (within_copyFromSlice h2) hlen
    exact ⟨hown.tail, hkeeps⟩

theorem totalWidth_keyValueHeader (nameLength dataSize dataOffset dataType flags : ℕ) :
    totalWidth (keyValueHeader nameLength dataSize dataOffset dataType flags) = 20 := by
  simp [totalWidth, keyValueHeader]

variable {dataType : ℕ}

theorem allocateKeyValue_cases (h : b.allocateKeyValue fuel name dataType data = some (b', v)) :
    ∃ b₁ b₂ stored, b.allocateCell fuel (keyValueHeaderSize + (nameBytes name).length) = some (b₁, v) ∧
      b₁.storeData fuel data = some (b₂, stored) ∧
      Within b₂ b' (dataAbs v) (dataAbs v + (keyValueHeaderSize + (nameBytes name).length)) := by
  obtain ⟨⟨b₁, l⟩, h1, h⟩ := bind_eq_some_iff.1 h
  obtain ⟨⟨b₂, stored⟩, h2, h⟩ := bind_eq_some_iff.1 h
  obtain ⟨b₃, h3, h⟩ := bind_eq_some_iff.1 h
  obtain ⟨b₄, h4, h⟩ := bind_eq_some_iff.1 h
  cases h
  have hw3 := within_writeFields h3
  have hw4 := within_copyFromSlice h4
  rw [totalWidth_keyValueHeader] at hw3
  unfold keyValueHeaderSize at hw4 h1 ⊢
  exact ⟨b₁, b₂, stored, h1, h2, (hw3.mono (Nat.le_refl _) (by omega)).trans (hw4.mono (by omega) (by omega))⟩

theorem len_allocateKeyValue (h : b.allocateKeyValue fuel name dataType data = some (b', v)) :
    b.len ≤ b'.len := by
  obtain ⟨b₁, b₂, stored, h1, h2, h3⟩ := allocateKeyValue_cases h
  rw [h3.len]
  exact Nat.le_trans (len_allocateCell h1) (len_storeData h2)

theorem Sound.allocateKeyValue (h : b.Sound keys)
    (hret : b.allocateKeyValue fuel name dataType data = some (b', v)) (hlen : b'.len ≤ maxLen) :
    b'.Sound keys := by
  obtain ⟨b₁, b₂, stored, h1, h2, h3⟩ := allocateKeyValue_cases hret
  have hlen₂ : b₂.len ≤ maxLen := h3.len ▸ hlen
  obtain ⟨hown₁, hkeeps₁, -⟩ := Owned.allocateCell h h1 (Nat.le_trans (len_storeData h2) hlen₂)
  obtain ⟨hown₂, hkeeps₂⟩ := hown₁.storeData h2 hlen₂
  obtain ⟨hown₃, hkeeps₃⟩ := hown₂.within h3 (Nat.le_refl _) (by
    unfold dataAbs cellHeaderSize
    omega)
  have hkeeps : Keeps b b' (b.claimed keys) :=
    (hkeeps₁.trans (hkeeps₂.mono fun o ho => List.mem_cons_of_mem _ ho)).trans hkeeps₃
  exact Sound.of_keeps hown₃.tail (hkeeps.mono (keyCells_sub b keys))

theorem addValueToKey_cases (h : b.addValueToKey fuel k v = some b') :
    ∃ list offsets count l b₀ b₁ b₂, b.readU32 (dataAbs k + 40) = some list ∧
      (list = u32Max ∧ b₀ = b ∨ list ≠ u32Max ∧ b.freeCell list = some b₀) ∧
      b₀.createValuesList fuel offsets = some (b₁, l) ∧ b₁.writeU32 (dataAbs k + 40) l = some b₂ ∧
      b₂.writeU32 (dataAbs k + 36) count = some b' := by
  obtain ⟨list, hlist, h⟩ := bind_eq_some_iff.1 h
  obtain ⟨count, -, h⟩ := bind_eq_some_iff.1 h
  obtain ⟨b₂, h2, h⟩ := bind_eq_some_iff.1 h
  obtain ⟨count', -, h⟩ := bind_eq_some_iff.1 h
  unfold replaceValuesList at h2
  split_ifs at h2 with hmax
  · obtain ⟨⟨b₁, l⟩, h1, h2⟩ := bind_eq_some_iff.1 h2
    exact ⟨list, [v], count', l, b, b₁, b₂, hlist, Or.inl ⟨hmax, rfl⟩, h1, h2, h⟩
  · obtain ⟨n, -, h2⟩ := bind_eq_some_iff.1 h2
    obtain ⟨offsets, -, h2⟩ := bind_eq_some_iff.1 h2
    obtain ⟨b₀, h0, h2⟩ := bind_eq_some_iff.1 h2
    obtain ⟨⟨b₁, l⟩, h1, h2⟩ := bind_eq_some_iff.1 h2
    exact ⟨list, offsets ++ [v], count', l, b₀, b₁, b₂, hlist, Or.inr ⟨hmax, h0⟩, h1, h2, h⟩

theorem len_addValueToKey (h : b.addValueToKey fuel k v = some b') : b.len ≤ b'.len := by
  obtain ⟨list, offsets, count, l, b₀, b₁, b₂, -, h0, h1, h2, h3⟩ := addValueToKey_cases h
  rw [len_write h3, len_write h2]
  rcases h0 with ⟨-, rfl⟩ | ⟨-, h0⟩
  · exact len_createValuesList h1
  · exact len_freeCell h0 ▸ len_createValuesList h1

theorem Sound.addValueToKey (h : b.Sound keys) (hk : k ∈ keys) (hret : b.addValueToKey fuel k v = some b')
    (hlen : b'.len ≤ maxLen) : b'.Sound keys := by
  obtain ⟨list, offsets, count, l, b₀, b₁, b₂, hlist, h0, h1, h2, h3⟩ := addValueToKey_cases hret
  have hslot : (k, 40) ∈ slots keys := mem_slots.2 ⟨hk, Or.inr rfl⟩
  have hlen₁ : b₁.len ≤ maxLen := by rwa [← len_write h2, ← len_write h3]
  have hnew : NewList b b₁ (b.otherClaims keys (k, 40)) l := by
    obtain ⟨hnone, hsome⟩ := h.list hslot hlist
    rcases h0 with ⟨hmax, rfl⟩ | ⟨hmax, h0⟩
    · exact (hnone hmax).createValuesList h1 hlen₁
    · obtain ⟨hown, hkeeps, -⟩ := (hsome hmax).freeCell h0
      have hlist' := hown.createValuesList h1 hlen₁
      exact ⟨hlist'.owned, hkeeps.trans hlist'.keeps, hlist'.offset⟩
  exact (Sound.point hslot hnew h2).writeField hk h3 (by decide) (by decide) (by decide)

theorem len_setValueInternal (h : b.setValueInternal fuel k name dataType data = some b') :
    b.len ≤ b'.len := by
  obtain ⟨⟨b₁, v⟩, h1, h2⟩ := bind_eq_some_iff.1 h
  exact Nat.le_trans (len_allocateKeyValue h1) (len_addValueToKey h2)

theorem Sound.setValueInternal (h : b.Sound keys) (hk : k ∈ keys)
    (hret : b.setValueInternal fuel k name dataType data = some b') (hlen : b'.len ≤ maxLen) :
    b'.Sound keys := by
  obtain ⟨⟨b₁, v⟩, h1, h2⟩ := bind_eq_some_iff.1 hret
  exact (h.allocateKeyValue h1 (Nat.le_trans (len_addValueToKey h2) hlen)).addValueToKey hk h2 hlen

theorem Layout.congr (h : b.Layout bins) (hlen : b'.len = b.len) (hsame : ∀ j, hiveBaseBlockSize ≤ j → b'.data j = b.data j) :
    b'.Layout bins where
  tiles := hlen ▸ h.tiles
  signature bin hbin := by
    have := (h.tiles.bounds hbin).1
    rw [← h.signature bin hbin]
    exact leValue_congr fun j _ _ => hsame j (by omega)
  binSize bin hbin := by
    have := (h.tiles.bounds hbin).1
    rw [← h.binSize bin hbin]
    exact leValue_congr fun j _ _ => hsame j (by omega)
  cells := h.cells
  sizes bin hbin c hc := by
    have := (h.bounds ⟨bin, hbin, hc⟩).1
    rw [← (h.sizes bin hbin c hc).2]
    exact ⟨(h.sizes bin hbin c hc).2 ▸ (h.sizes bin hbin c hc).1, cellSize_congr fun j _ _ => hsame j (by omega)⟩

theorem Headed.congr (h : b.Headed bins) (hlen : b'.len = b.len) (hsame : ∀ j, hiveBaseBlockSize ≤ j → b'.data j = b.data j)
    (hfields : ∀ j, 40 ≤ j → j < 48 → b'.data j = b.data j) : b'.Headed bins where
  toLayout := h.toLayout.congr hlen hsame
  dataSize := by
    rw [hlen, ← h.dataSize]
    exact leValue_congr fun j _ _ => hfields j (by omega) (by omega)
  clusteringFactor := by
    rw [← h.clusteringFactor]
    exact leValue_congr fun j _ _ => hfields j (by omega) (by omega)
  binOffset bin hbin := by
    have := (h.tiles.bounds hbin).1
    rw [← h.binOffset bin hbin]
    exact leValue_congr fun j _ _ => hsame j (by omega)
  pages := h.pages

theorem Sound.congr (h : b.Sound keys) (hlen : b'.len = b.len) (hsame : ∀ j, hiveBaseBlockSize ≤ j → b'.data j = b.data j)
    (hfields : ∀ j, 40 ≤ j → j < 48 → b'.data j = b.data j) : b'.Sound keys := by
  have hkeeps : Keeps b b' (keyCells keys) := fun o _ j hlow _ => by
    unfold dataAbs at hlow
    exact hsame j (by omega)
  refine Sound.of_keeps ?_ hkeeps
  obtain ⟨hnodup, bins, hheaded, hcells⟩ := h
  exact ⟨hnodup, bins, hheaded.congr hlen hsame hfields, hcells⟩

theorem layout_initFirstBin (hlen : b.len = hiveBaseBlockSize + defaultBinSize) (h : b.initFirstBin = some b') :
    b'.Layout [(4096, 4096, [(4128, 4064)])] := by
  obtain ⟨b₁, h1, h⟩ := bind_eq_some_iff.1 h
  obtain ⟨b₂, h2, h⟩ := bind_eq_some_iff.1 h
  obtain ⟨b₃, h3, h4⟩ := bind_eq_some_iff.1 h
  have w1 : Within b b₁ 4096 4100 := within_write h1
  have w2 : Within b₁ b₂ 4100 4104 := within_write h2
  have w3 : Within b₂ b₃ 4104 4108 := within_write h3
  have w4 : Within b₃ b' 4128 4132 := within_write h4
  have hlen' : b'.len = 8192 := by rw [w4.len, w3.len, w2.len, w1.len, hlen]; rfl
  have hsignature : leValue b'.data 4096 4 = binSignature := by
    have hsame : leValue b'.data 4096 4 = leValue b₁.data 4096 4 := leValue_congr fun j _ _ => by
      rw [w4.data j (by omega), w3.data j (by omega), w2.data j (by omega)]
    exact hsame.trans (leValue_of_write h1)
  have hbinSize : leValue b'.data 4104 4 = 4096 := by
    have hsame : leValue b'.data 4104 4 = leValue b₃.data 4104 4 := leValue_congr fun j _ _ => w4.data j (by omega)
    exact hsame.trans (leValue_of_write h3)
  have hcell : b'.cellSize 4128 = 4064 := cellSize_writeI32 h4 (by decide) (by decide)
  constructor
  · exact ⟨rfl, hlen'.symm⟩
  · intro bin hbin
    rw [mem_singleton.1 hbin]
    exact hsignature
  · intro bin hbin
    rw [mem_singleton.1 hbin]
    exact hbinSize
  · intro bin hbin
    rw [mem_singleton.1 hbin]
    exact ⟨rfl, rfl⟩
  · intro bin hbin c hc
    rw [mem_singleton.1 hbin] at hc
    rw [mem_singleton.1 hc]
    exact ⟨⟨by decide, by decide, by decide⟩, hcell⟩

theorem fields_initBaseBlock (h : b.initBaseBlock name = some b') :
    leValue b'.data 40 4 = defaultBinSize ∧ leValue b'.data 44 4 = 1 := by
  obtain ⟨b₀, h0, h1⟩ := bind_eq_some_iff.1 h
  have w1 := within_writeFields h1
  simp only [HiveBuilder.writeFields, bind_eq_bind, bind_eq_some_iff] at h0
  obtain ⟨_, -, _, -, _, -, _, -, _, -, _, -, _, -, _, -, _, -, b₁, h2, b₂, h3, h4⟩ := h0
  cases h4
  have w3 := within_write h3
  have hsize : leValue b'.data 40 4 = leValue b₁.data 40 4 := leValue_congr fun j _ _ => by
    rw [w1.data j (by omega), w3.data j (by omega)]
  have hclustering : leValue b'.data 44 4 = leValue b₀.data 44 4 := leValue_congr fun j _ _ => w1.data j (by omega)
  exact ⟨hsize.trans (leValue_of_write h2), hclustering.trans (leValue_of_write h3)⟩

theorem headed_initFirstBin (hlen : b.len = hiveBaseBlockSize + defaultBinSize) (hfields : leValue b.data 40 4 = defaultBinSize ∧ leValue b.data 44 4 = 1)
    (h : b.initFirstBin = some b') : b'.Headed [(4096, 4096, [(4128, 4064)])] := by
  have hlayout := layout_initFirstBin hlen h
  obtain ⟨b₁, h1, h⟩ := bind_eq_some_iff.1 h
  obtain ⟨b₂, h2, h⟩ := bind_eq_some_iff.1 h
  obtain ⟨b₃, h3, h4⟩ := bind_eq_some_iff.1 h
  have w1 : Within b b₁ 4096 4100 := within_write h1
  have w2 : Within b₁ b₂ 4100 4104 := within_write h2
  have w3 : Within b₂ b₃ 4104 4108 := within_write h3
  have w4 : Within b₃ b' 4128 4132 := within_write h4
  have hsame : ∀ j < 4096, b'.data j = b.data j := fun j _ => by
    rw [w4.data j (by omega), w3.data j (by omega), w2.data j (by omega), w1.data j (by omega)]
  refine ⟨hlayout, ?_, ?_, fun bin hbin => ?_, fun bin hbin => ?_⟩
  · rw [w4.len, w3.len, w2.len, w1.len, hlen]
    exact (leValue_congr fun j _ _ => hsame j (by omega)).trans hfields.1
  · exact (leValue_congr fun j _ _ => hsame j (by omega)).trans hfields.2
  · rw [mem_singleton.1 hbin]
    have hsame : leValue b'.data 4100 4 = leValue b₂.data 4100 4 := leValue_congr fun j _ _ => by
      rw [w4.data j (by omega), w3.data j (by omega)]
    exact hsame.trans (leValue_of_write h2)
  · rw [mem_singleton.1 hbin]
    rfl

theorem sound_new (h : new fuel name = some b') (hlen : b'.len ≤ maxLen) : b'.Sound [b'.rootKeyOffset] := by
  obtain ⟨b₁, h1, h⟩ := bind_eq_some_iff.1 h
  obtain ⟨b₂, h2, h⟩ := bind_eq_some_iff.1 h
  obtain ⟨⟨b₃, k⟩, h3, h4⟩ := bind_eq_some_iff.1 h
  have hfields₁ := fields_initBaseBlock h1
  unfold initBaseBlock at h1
  obtain ⟨b₀, h0, h1⟩ := bind_eq_some_iff.1 h1
  have hlen₁ : b₁.len = hiveBaseBlockSize + defaultBinSize := by
    rw [(within_writeFields h1).len, (within_writeFields h0).len]
  have hsound₂ : b₂.Sound [] := ⟨List.nodup_nil, _, headed_initFirstBin hlen₁ hfields₁ h2, fun o ho => (by cases ho)⟩
  obtain ⟨hle, rfl⟩ := write_eq_some h4
  have hsound₃ : b₃.Sound [k] := hsound₂.allocateKeyNode h3 hlen
  refine hsound₃.congr rfl (fun j hj => ?_) fun j _ _ => leWrite_of_notMem (by omega)
  unfold hiveBaseBlockSize at hj
  exact leWrite_of_notMem (by omega)

end HiveBuilder

namespace Session

open HiveBuilder

variable {s s' : Session} {fuel n : ℕ}

/-- While offsets are 32-bit numbers, the keys own their cells and lists. -/
def Sound (s : Session) : Prop := s.builder.len ≤ maxLen → s.builder.Sound s.keys

theorem Sound.withKey (h : s.Sound) {key : ℕ} {name : List Char} {dataType : ℕ} {data : List UInt8}
    (hret : (s.withKey key fun k => s.builder.setValueInternal fuel k name dataType data) = some s') : s'.Sound := by
  obtain ⟨k, hk, hret⟩ := bind_eq_some_iff.1 hret
  obtain ⟨b, hset, hret⟩ := bind_eq_some_iff.1 hret
  cases hret
  intro hlen
  exact (h (Nat.le_trans (len_setValueInternal hset) hlen)).setValueInternal (List.mem_of_getElem? hk) hset hlen

theorem Sound.step (h : s.Sound) {op : HiveOp} (hret : s.step fuel op = some s') : s'.Sound := by
  cases op with
  | createSubkey parent name =>
    obtain ⟨k, hk, hret⟩ := bind_eq_some_iff.1 hret
    obtain ⟨⟨b, key⟩, hcreate, hret⟩ := bind_eq_some_iff.1 hret
    cases hret
    intro hlen
    exact (h (Nat.le_trans (len_createSubkey hcreate) hlen)).createSubkey (List.mem_of_getElem? hk) hcreate hlen
  | setDword key name value => exact h.withKey hret
  | setQword key name value => exact h.withKey hret
  | setString key name value => exact h.withKey hret
  | setExpandString key name value => exact h.withKey hret
  | setBinary key name value => exact h.withKey hret
  | setMultiString key name values => exact h.withKey hret
  | setRaw key name dataType data => exact h.withKey hret

theorem Sound.run (h : s.Sound) {ops : List HiveOp} (hret : ops.foldlM (Session.step fuel) s = some s') : s'.Sound := by
  induction ops generalizing s with
  | nil =>
    cases hret
    exact h
  | cons op ops ih =>
    obtain ⟨s₁, hstep, hret⟩ := bind_eq_some_iff.1 hret
    exact ih (h.step hstep) hret

theorem Reachable.sound (h : s.Reachable) : s.Sound := by
  obtain ⟨fuel, name, ops, s₀, hnew, hrun⟩ := h
  refine Sound.run ?_ hrun
  obtain ⟨b, hb, hnew⟩ := bind_eq_some_iff.1 hnew
  cases hnew
  exact fun hlen => sound_new hb hlen

end Session

namespace HiveBuilder

variable {b : HiveBuilder} {bins : Bins} {keys : List ℕ} {n : ℕ}

/-- The call returns after at most one extension of the hive, with a free cell that is large
enough. -/
def FinishesAtOnce (b : HiveBuilder) (dataSize : ℕ) : Prop :=
  (∃ b' cellOffset, b.allocateCell 2 dataSize = some (b', cellOffset)) ∧
  ∃ b₁ offset absSize,
    (b₁ = b ∨ b.findCell (alignCellSize (cellHeaderSize + dataSize)) = some none ∧
      b.extendHive (alignCellSize (cellHeaderSize + dataSize)) = some b₁) ∧
    b₁.findCell (alignCellSize (cellHeaderSize + dataSize)) = some (some (offset, absSize)) ∧
    alignCellSize (cellHeaderSize + dataSize) ≤ absSize

def HasFreeCell (b : HiveBuilder) (requiredSize : ℕ) : Prop :=
  ∃ bins, b.Layout bins ∧ ∃ c, HasCell bins c ∧ (requiredSize : ℤ) ≤ c.2

def FitsNewBin (requiredSize : ℕ) : Prop := 0 < requiredSize % 4096 ∧ requiredSize % 4096 ≤ 4064

instance (requiredSize : ℕ) : Decidable (FitsNewBin requiredSize) := inferInstanceAs (Decidable (_ ∧ _))

theorem fitsNewBin_iff {requiredSize : ℕ} (hpos : 0 < requiredSize) :
    FitsNewBin requiredSize ↔ requiredSize ≤ newBinSize requiredSize - 32 := by
  unfold FitsNewBin newBinSize defaultBinSize
  omega

section
variable (h : b.Layout bins)
include h

theorem Layout.exists_takeCell {c : ℕ × ℤ} (hc : HasCell bins c) (requiredSize : ℕ) : ∃ b', b.takeCell c.1 c.2.natAbs requiredSize = some b' := by
  have hbounds := h.bounds hc
  obtain ⟨b₁, h1⟩ := exists_write (b := b) (p := c.1) (n := 4) (by omega) ((-(requiredSize : ℤ)) % 2 ^ 32).toNat
  by_cases hrem : cellMinSize ≤ c.2.natAbs - requiredSize
  · obtain ⟨b₂, h2⟩ := exists_write (b := b₁) (p := c.1 + requiredSize) (n := 4)
      (by rw [len_write h1]; unfold cellMinSize at hrem; omega) (((c.2.natAbs - requiredSize : ℕ) : ℤ) % 2 ^ 32).toNat
    exact ⟨b₂, bind_eq_some_iff.2 ⟨b₁, h1, (if_pos hrem).trans h2⟩⟩
  · exact ⟨b₁, bind_eq_some_iff.2 ⟨b₁, h1, if_neg hrem⟩⟩

theorem Layout.allocateCell_of_fits {c : ℕ × ℤ} (hc : HasCell bins c)
    (hfind : b.findCell (alignCellSize (cellHeaderSize + n)) = some (some (c.1, c.2.natAbs))) (fuel : ℕ) :
    ∃ b' cellOffset, b.allocateCell (fuel + 1) n = some (b', cellOffset) := by
  obtain ⟨b', htake⟩ := h.exists_takeCell hc _
  exact ⟨b', _, bind_eq_some_iff.2 ⟨_, hfind, bind_eq_some_iff.2 ⟨b', htake, rfl⟩⟩⟩

theorem Layout.allocateCell_none (hmax : alignCellSize (cellHeaderSize + n) ≤ 2 ^ 31)
    (hnone : ∀ c, HasCell bins c → ¬ ((alignCellSize (cellHeaderSize + n) : ℕ) : ℤ) ≤ c.2)
    (hbin : ¬ FitsNewBin (alignCellSize (cellHeaderSize + n))) (fuel : ℕ) : b.allocateCell fuel n = none := by
  have hpos : 0 < alignCellSize (cellHeaderSize + n) := alignCellSize_pos (by unfold cellHeaderSize; omega)
  induction fuel generalizing b bins with
  | zero => rfl
  | succ fuel ih =>
    have hfind : b.findCell (alignCellSize (cellHeaderSize + n)) = some none := by
      rcases h.findCell_spec hpos with ⟨c, hc, hfits, -⟩ | ⟨-, hfind⟩
      · exact absurd hfits (hnone c hc)
      · exact hfind
    obtain ⟨b₁, hextend, -, -, hlayout⟩ := h.extendHive hpos hmax
    simp only [allocateCell, hfind, hextend, bind_eq_bind, Option.bind_some]
    refine ih hlayout fun c hc => ?_
    rcases hc.of_append with hc | ⟨bin, hmem, hc⟩
    · exact hnone c hc
    · rw [mem_singleton.1 hmem] at hc
      rw [mem_singleton.1 hc]
      rw [fitsNewBin_iff hpos] at hbin
      omega

theorem Layout.finishesAtOnce_iff (hmax : alignCellSize (cellHeaderSize + n) ≤ 2 ^ 31) :
    b.FinishesAtOnce n ↔ b.HasFreeCell (alignCellSize (cellHeaderSize + n)) ∨ FitsNewBin (alignCellSize (cellHeaderSize + n)) := by
  have hpos : 0 < alignCellSize (cellHeaderSize + n) := alignCellSize_pos (by unfold cellHeaderSize; omega)
  rcases h.findCell_spec hpos with ⟨c, hc, hfits, hfind⟩ | ⟨hnone, hfind⟩
  · refine iff_of_true ⟨h.allocateCell_of_fits hc hfind 1, b, c.1, c.2.natAbs, Or.inl rfl, hfind, by omega⟩ ?_
    exact Or.inl ⟨bins, h, c, hc, hfits⟩
  obtain ⟨b₁, hextend, -, -, hlayout⟩ := h.extendHive hpos hmax
  by_cases hbin : FitsNewBin (alignCellSize (cellHeaderSize + n))
  · refine iff_of_true ?_ (Or.inr hbin)
    have hcell := (fitsNewBin_iff hpos).1 hbin
    rcases hlayout.findCell_spec hpos with ⟨c, hc, hfits, hfind₁⟩ | ⟨hnone₁, -⟩
    · obtain ⟨b', cellOffset, hret⟩ := hlayout.allocateCell_of_fits hc hfind₁ 0
      refine ⟨⟨b', cellOffset, ?_⟩, b₁, c.1, c.2.natAbs, Or.inr ⟨hfind, hextend⟩, hfind₁, by omega⟩
      exact bind_eq_some_iff.2 ⟨_, hfind, bind_eq_some_iff.2 ⟨b₁, hextend, hret⟩⟩
    · refine absurd ?_ (hnone₁ (b.len + 32, ((newBinSize (alignCellSize (cellHeaderSize + n)) - 32 : ℕ) : ℤ))
        ⟨_, List.mem_append_right _ (mem_singleton.2 rfl), mem_singleton.2 rfl⟩)
      simp only
      omega
  · refine iff_of_false ?_ ?_
    · rintro ⟨⟨b', cellOffset, hret⟩, -⟩
      rw [h.allocateCell_none hmax hnone hbin] at hret
      cases hret
    · rintro (⟨bins', hlayout', c, hc, hfits⟩ | hfits)
      · rcases hlayout'.findCell_spec hpos with ⟨c', -, -, hfind'⟩ | ⟨hnone', -⟩
        · cases hfind.symm.trans hfind'
        · exact hnone' c hc hfits
      · exact hbin hfits

end

theorem Sound.layout (h : b.Sound keys) : ∃ bins, b.Layout bins := by
  obtain ⟨-, bins, hheaded, -⟩ := h
  exact ⟨bins, hheaded.toLayout⟩

end HiveBuilder

namespace Session

open HiveBuilder

variable {s : Session} {n : ℕ}

/-- An allocation ends after at most one extension exactly where a free cell holds the
request, or a new bin does. -/
theorem allocateCell_finishes_iff (h : s.Reachable) (hlen : s.builder.len ≤ maxLen) (hn : n < 2 ^ 31 - 64) :
    s.builder.FinishesAtOnce n ↔
      s.builder.HasFreeCell (alignCellSize (cellHeaderSize + n)) ∨ FitsNewBin (alignCellSize (cellHeaderSize + n)) := by
  obtain ⟨bins, hlayout⟩ := (h.sound hlen).layout
  refine hlayout.finishesAtOnce_iff ?_
  unfold alignCellSize cellHeaderSize
  omega

theorem exists_new : ∃ s, new 1 ['R'] = some s ∧ s.builder.findCell 4096 = some none ∧ s.builder.len = 8192 := by
  have heval : (new 1 ['R']).any (fun s => s.builder.findCell 4096 == some none && s.builder.len == 8192) = true := by
    decide +kernel
  obtain ⟨s, hs, hfound⟩ := (Option.any_eq_true _ _).1 heval
  rw [Bool.and_eq_true, beq_iff_eq, beq_iff_eq] at hfound
  exact ⟨s, hs, hfound⟩

theorem reachable_of_new {fuel : ℕ} {name : List Char} (h : new fuel name = some s) : s.Reachable := ⟨fuel, name, [], s, h, rfl⟩

/-- A request of a hundred bytes in a new hive. -/
theorem allocateCell_finishes_hundred : ∃ s, new 1 ['R'] = some s ∧ s.builder.FinishesAtOnce 100 := by
  obtain ⟨s, hnew, -, hlen⟩ := exists_new
  exact ⟨s, hnew, (allocateCell_finishes_iff (reachable_of_new hnew) (by rw [hlen]; decide) (by decide)).2 (Or.inr (by decide))⟩

/-- A request of 4088 bytes in a new hive needs a cell of 4096 bytes, and each new bin has
one of 4064: the call never returns. -/
theorem allocateCell_never : ∃ s, new 1 ['R'] = some s ∧ ¬ s.builder.FinishesAtOnce 4088 ∧
    ∀ fuel, s.builder.allocateCell fuel 4088 = none := by
  obtain ⟨s, hnew, hfind, hlen⟩ := exists_new
  obtain ⟨bins, hlayout⟩ := ((reachable_of_new hnew).sound (by rw [hlen]; decide)).layout
  have hnone : ∀ fuel, s.builder.allocateCell fuel 4088 = none := by
    refine hlayout.allocateCell_none (by decide) ?_ (by decide)
    rcases hlayout.findCell_spec (show 0 < 4096 by decide) with ⟨c, -, -, hfind'⟩ | ⟨hnone, -⟩
    · cases hfind.symm.trans hfind'
    · exact hnone
  refine ⟨s, hnew, ?_, hnone⟩
  rintro ⟨⟨b', cellOffset, hret⟩, -⟩
  rw [hnone] at hret
  cases hret

end Session

end XenOS.Hive
