import XenOS.Hive.AllocationSpec

/-! The start of the base block, with the offset of the root key: no call of the builder changes
it. -/

namespace XenOS.Hive

open General
open Option (bind_eq_some_iff)

namespace HiveBuilder

variable {b b' b₁ : HiveBuilder} {fuel n p e l k v requiredSize : ℕ} {name : List Char}

structure Front (b b' : HiveBuilder) : Prop where
  rootKeyOffset : b'.rootKeyOffset = b.rootKeyOffset
  sequenceNumber : b'.sequenceNumber = b.sequenceNumber
  data : ∀ j < 40, b'.data j = b.data j

namespace Front

theorem refl (b : HiveBuilder) : Front b b := ⟨rfl, rfl, fun _ _ => rfl⟩

theorem trans {b'' : HiveBuilder} (h : Front b b') (h' : Front b' b'') : Front b b'' :=
  ⟨h'.rootKeyOffset.trans h.rootKeyOffset, h'.sequenceNumber.trans h.sequenceNumber, fun j hj => (h'.data j hj).trans (h.data j hj)⟩

theorem write (h : b.write p n v = some b') (hp : 40 ≤ p) : Front b b' := by
  have hwithin := within_write h
  exact ⟨by rw [(write_eq_some h).2], by rw [(write_eq_some h).2], fun j hj => hwithin.data j (by omega)⟩

theorem writeFields {fields : List (ℕ × ℕ)} (h : b.writeFields p fields = some b') (hp : 40 ≤ p) : Front b b' := by
  induction fields generalizing b p with
  | nil =>
    cases h
    exact refl _
  | cons field fields ih =>
    obtain ⟨m, w⟩ := field
    obtain ⟨b₁, h1, h2⟩ := bind_eq_some_iff.1 h
    exact (write h1 hp).trans (ih h2 (by omega))

theorem le_dataAbs (l : ℕ) : 40 ≤ dataAbs l := by
  unfold dataAbs hiveBaseBlockSize
  omega

theorem searchCells_le {found : ℕ × ℕ} (h : b.searchCells requiredSize e fuel p = some (some found)) : p ≤ found.1 := by
  induction fuel generalizing p with
  | zero => cases h
  | succ fuel ih =>
    unfold searchCells at h
    split_ifs at h
    · obtain ⟨size, -, h⟩ := bind_eq_some_iff.1 h
      split_ifs at h
      · cases h
      · cases h
        exact Nat.le_refl _
      · exact Nat.le_trans (Nat.le_add_right _ _) (ih h)
    · cases h

theorem searchBins_le {found : ℕ × ℕ} (h : b.searchBins requiredSize fuel p = some (some found)) : p ≤ found.1 := by
  induction fuel generalizing p with
  | zero => cases h
  | succ fuel ih =>
    unfold searchBins at h
    split_ifs at h
    · obtain ⟨signature, -, h⟩ := bind_eq_some_iff.1 h
      split_ifs at h
      · cases h
      · obtain ⟨binSize, -, h⟩ := bind_eq_some_iff.1 h
        obtain ⟨cell, hcell, h⟩ := bind_eq_some_iff.1 h
        cases cell with
        | some cell =>
          cases h
          exact Nat.le_trans (Nat.le_add_right _ _) (searchCells_le hcell)
        | none => exact Nat.le_trans (Nat.le_add_right _ _) (ih h)
    · cases h

theorem takeCell {absSize : ℕ} (h : b.takeCell p absSize requiredSize = some b') (hp : 40 ≤ p) : Front b b' := by
  obtain ⟨b₁, h1, h⟩ := bind_eq_some_iff.1 h
  split_ifs at h
  · exact (write h1 hp).trans (write h (by omega))
  · cases h
    exact write h1 hp

theorem extendHive {minSize : ℕ} (h : b.extendHive minSize = some b') (hlen : 40 ≤ b.len) : Front b b' := by
  obtain ⟨b₁, h1, h⟩ := bind_eq_some_iff.1 h
  obtain ⟨b₂, h2, h⟩ := bind_eq_some_iff.1 h
  obtain ⟨b₃, h3, h⟩ := bind_eq_some_iff.1 h
  obtain ⟨b₄, h4, h5⟩ := bind_eq_some_iff.1 h
  have h0 : Front b (b.resize (b.len + newBinSize minSize)) := ⟨rfl, rfl, fun j hj => if_pos (by omega)⟩
  exact (((h0.trans (write h1 hlen)).trans (write h2 (by omega))).trans (write h3 (by omega))).trans
    ((write h4 (by omega)).trans (write h5 (Nat.le_refl _)))

theorem allocateCell (h : b.allocateCell fuel n = some (b', l)) (hlen : 40 ≤ b.len) : Front b b' := by
  induction fuel generalizing b with
  | zero => cases h
  | succ fuel ih =>
    obtain ⟨found, hfound, h⟩ := bind_eq_some_iff.1 h
    cases found with
    | some found =>
      obtain ⟨b₁, h1, h⟩ := bind_eq_some_iff.1 h
      cases h
      refine takeCell h1 (Nat.le_trans ?_ (searchBins_le hfound))
      decide
    | none =>
      obtain ⟨b₁, h1, h⟩ := bind_eq_some_iff.1 h
      have hlen₁ := len_extendHive h1
      exact (extendHive h1 hlen).trans (ih h (by omega))

theorem freeCell (h : b.freeCell l = some b') : Front b b' := by
  obtain ⟨size, -, h⟩ := bind_eq_some_iff.1 h
  have hle : 40 ≤ hiveBaseBlockSize + l := by
    unfold hiveBaseBlockSize
    omega
  split_ifs at h
  · exact write h hle
  · cases h
    exact refl _

theorem allocateKeyNode {parent flags : ℕ} (h : b.allocateKeyNode fuel name parent flags = some (b', l)) (hlen : 40 ≤ b.len) :
    Front b b' := by
  obtain ⟨⟨b₁, l'⟩, h1, h⟩ := bind_eq_some_iff.1 h
  obtain ⟨b₂, h2, h⟩ := bind_eq_some_iff.1 h
  obtain ⟨b₃, h3, h⟩ := bind_eq_some_iff.1 h
  cases h
  exact ((allocateCell h1 hlen).trans (writeFields h2 (le_dataAbs _))).trans
    (writeFields h3 (Nat.le_trans (le_dataAbs _) (Nat.le_add_right _ _)))

theorem createSubkeysList {items : List (ℕ × ℕ)} (h : b.createSubkeysList fuel items = some (b', l)) (hlen : 40 ≤ b.len) :
    Front b b' := by
  obtain ⟨⟨b₁, l'⟩, h1, h⟩ := bind_eq_some_iff.1 h
  obtain ⟨b₂, h2, h⟩ := bind_eq_some_iff.1 h
  obtain ⟨b₃, h3, h⟩ := bind_eq_some_iff.1 h
  cases h
  exact ((allocateCell h1 hlen).trans (writeFields h2 (le_dataAbs _))).trans
    (writeFields h3 (Nat.le_trans (le_dataAbs _) (Nat.le_add_right _ _)))

theorem createValuesList {offsets : List ℕ} (h : b.createValuesList fuel offsets = some (b', l)) (hlen : 40 ≤ b.len) : Front b b' := by
  obtain ⟨⟨b₁, l'⟩, h1, h⟩ := bind_eq_some_iff.1 h
  obtain ⟨b₂, h2, h⟩ := bind_eq_some_iff.1 h
  cases h
  exact (allocateCell h1 hlen).trans (writeFields h2 (le_dataAbs _))

theorem extendSubkeysList {list child hash : ℕ} (h : b.extendSubkeysList fuel list child hash = some (b', l)) (hlen : 40 ≤ b.len) :
    Front b b' := by
  obtain ⟨count, -, h⟩ := bind_eq_some_iff.1 h
  obtain ⟨items, -, h⟩ := bind_eq_some_iff.1 h
  obtain ⟨b₁, h1, h⟩ := bind_eq_some_iff.1 h
  exact (freeCell h1).trans (createSubkeysList h (len_freeCell h1 ▸ hlen))

theorem field {f : ℕ} (h : b.write (dataAbs k + f) n v = some b') : Front b b' :=
  write h (Nat.le_trans (le_dataAbs k) (Nat.le_add_right _ _))

theorem addSubkeyToParent {child : ℕ} (h : b.addSubkeyToParent fuel k child name = some b') (hlen : 40 ≤ b.len) : Front b b' := by
  obtain ⟨list, count, max, hash, l, b₁, b₂, b₃, -, h1, h2, h3, h4⟩ := addSubkeyToParent_cases h
  have hlist : Front b b₁ := by
    split_ifs at h1
    · exact createSubkeysList h1 hlen
    · exact extendSubkeysList h1 hlen
  have hfields := (hlist.trans (field h2)).trans (field h3)
  rcases h4 with rfl | h4
  · exact hfields
  · exact hfields.trans (field h4)

theorem createSubkey {parent : ℕ} (h : b.createSubkey fuel parent name = some (b', k)) (hlen : 40 ≤ b.len) : Front b b' := by
  obtain ⟨⟨b₁, l⟩, h1, h⟩ := bind_eq_some_iff.1 h
  obtain ⟨b₂, h2, h⟩ := bind_eq_some_iff.1 h
  cases h
  exact (allocateKeyNode h1 hlen).trans (addSubkeyToParent h2 (Nat.le_trans hlen (len_allocateKeyNode h1)))

theorem allocateKeyValue {dataType : ℕ} {data : List UInt8} (h : b.allocateKeyValue fuel name dataType data = some (b', v))
    (hlen : 40 ≤ b.len) : Front b b' := by
  obtain ⟨⟨b₁, l⟩, h1, h⟩ := bind_eq_some_iff.1 h
  obtain ⟨⟨b₂, stored⟩, h2, h⟩ := bind_eq_some_iff.1 h
  obtain ⟨b₃, h3, h⟩ := bind_eq_some_iff.1 h
  obtain ⟨b₄, h4, h⟩ := bind_eq_some_iff.1 h
  cases h
  have hdata : Front b₁ b₂ := by
    unfold storeData at h2
    split_ifs at h2
    · cases h2
      exact refl _
    · obtain ⟨⟨b₅, l⟩, h5, h2⟩ := bind_eq_some_iff.1 h2
      obtain ⟨b₆, h6, h2⟩ := bind_eq_some_iff.1 h2
      cases h2
      exact (allocateCell h5 (Nat.le_trans hlen (len_allocateCell h1))).trans (writeFields h6 (le_dataAbs _))
  exact (((allocateCell h1 hlen).trans hdata).trans (writeFields h3 (le_dataAbs _))).trans
    (writeFields h4 (Nat.le_trans (le_dataAbs _) (Nat.le_add_right _ _)))

theorem addValueToKey (h : b.addValueToKey fuel k v = some b') (hlen : 40 ≤ b.len) : Front b b' := by
  obtain ⟨list, offsets, count, l, b₀, b₁, b₂, -, h0, h1, h2, h3⟩ := addValueToKey_cases h
  have hfree : Front b b₀ ∧ b₀.len = b.len := by
    rcases h0 with ⟨-, rfl⟩ | ⟨-, h0⟩
    · exact ⟨refl _, rfl⟩
    · exact ⟨freeCell h0, len_freeCell h0⟩
  exact ((hfree.1.trans (createValuesList h1 (hfree.2 ▸ hlen))).trans (field h2)).trans (field h3)

theorem setValueInternal {dataType : ℕ} {data : List UInt8} (h : b.setValueInternal fuel k name dataType data = some b')
    (hlen : 40 ≤ b.len) : Front b b' := by
  obtain ⟨⟨b₁, v⟩, h1, h2⟩ := bind_eq_some_iff.1 h
  exact (allocateKeyValue h1 hlen).trans (addValueToKey h2 (Nat.le_trans hlen (len_allocateKeyValue h1)))

end Front

end HiveBuilder

end XenOS.Hive
