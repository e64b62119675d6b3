import XenOS.Hive.SetThenGet

/-! The checks with which the reader opens the bytes of a hive. They accept what a builder gives out. -/

namespace XenOS.Hive

open General HiveBuilder
open Option (bind_eq_some_iff)

namespace HiveBuilder

/-- `regf`. -/
def hiveSignature : ℕ := 0x66676572

def validateSignature (b : HiveBuilder) : Bool := leValue b.data 0 4 = hiveSignature

def validateSequenceNumbers (b : HiveBuilder) : Bool := leValue b.data 4 4 = leValue b.data 8 4

def validateVersion (b : HiveBuilder) : Bool := leValue b.data 20 4 = 1 ∧ 3 ≤ leValue b.data 24 4

def validateFileType (b : HiveBuilder) : Bool := leValue b.data 28 4 = 0

def validateFileFormat (b : HiveBuilder) : Bool := leValue b.data 32 4 = 1

def validateDataSize (b : HiveBuilder) : Bool :=
  leValue b.data 40 4 % 4096 = 0 ∧ leValue b.data 40 4 ≤ b.len - hiveBaseBlockSize

def validateClusteringFactor (b : HiveBuilder) : Bool := leValue b.data 44 4 = 1

def validateChecksum (b : HiveBuilder) : Bool := leValue b.data 508 4 = b.computeChecksum

def validate (b : HiveBuilder) : Bool :=
  b.validateSignature && b.validateSequenceNumbers && b.validateVersion && b.validateFileType && b.validateFileFormat &&
    b.validateDataSize && b.validateClusteringFactor && b.validateChecksum

/-- `Hive::new` on the bytes. -/
def openHive (b : HiveBuilder) : Option HiveBuilder := if b.len < hiveBaseBlockSize then none else if b.validate then some b else none

variable {b b' : HiveBuilder} {bins : Bins} {fuel : ℕ} {name : List Char}

/-- What `init_base_block` writes before the root. -/
structure BaseFields (b : HiveBuilder) : Prop where
  signature : leValue b.data 0 4 = hiveSignature
  major : leValue b.data 20 4 = 1
  minor : leValue b.data 24 4 = 5
  fileType : leValue b.data 28 4 = 0
  fileFormat : leValue b.data 32 4 = 1

theorem BaseFields.congr (h : b.BaseFields) (hsame : ∀ j, j < 4 ∨ 12 ≤ j ∧ j < 36 → b'.data j = b.data j) : b'.BaseFields where
  signature := (leValue_congr fun j _ _ => hsame j (by omega)).trans h.signature
  major := (leValue_congr fun j _ _ => hsame j (by omega)).trans h.major
  minor := (leValue_congr fun j _ _ => hsame j (by omega)).trans h.minor
  fileType := (leValue_congr fun j _ _ => hsame j (by omega)).trans h.fileType
  fileFormat := (leValue_congr fun j _ _ => hsame j (by omega)).trans h.fileFormat

theorem BaseFields.front (h : b.BaseFields) (hfront : Front b b') : b'.BaseFields := h.congr fun j hj => hfront.data j (by omega)

theorem baseFields_initBaseBlock (h : b.initBaseBlock name = some b') : b'.BaseFields := by
  obtain ⟨b₀, h0, h1⟩ := bind_eq_some_iff.1 h
  have w1 := within_writeFields h1
  obtain ⟨hsignature, -, -, -, hmajor, hminor, htype, hformat, -⟩ := fieldsAt_writeFields h0
  have hfields : b₀.BaseFields := ⟨hsignature, hmajor, hminor, htype, hformat⟩
  exact hfields.congr fun j hj => w1.data j (by omega)

theorem baseFields_new (h : new fuel name = some b) : b.BaseFields := by
  obtain ⟨b₁, h1, h⟩ := bind_eq_some_iff.1 h
  obtain ⟨b₂, h2, h⟩ := bind_eq_some_iff.1 h
  obtain ⟨⟨b₃, k⟩, h3, h4⟩ := bind_eq_some_iff.1 h
  have hlen₁ : 40 ≤ b₁.len := by
    unfold initBaseBlock at h1
    obtain ⟨b₀, h0, h1⟩ := bind_eq_some_iff.1 h1
    rw [(within_writeFields h1).len, (within_writeFields h0).len]
    exact Nat.le_add_left_of_le (by decide)
  have hfront : Front b₁ b₂ := by
    obtain ⟨c₁, g1, h2⟩ := bind_eq_some_iff.1 h2
    obtain ⟨c₂, g2, h2⟩ := bind_eq_some_iff.1 h2
    obtain ⟨c₃, g3, g4⟩ := bind_eq_some_iff.1 h2
    exact (((Front.write g1 (by decide)).trans (Front.write g2 (by decide))).trans (Front.write g3 (by decide))).trans (Front.write g4 (by decide))
  have hlen₂ : 40 ≤ b₂.len := by
    obtain ⟨c₁, g1, h2⟩ := bind_eq_some_iff.1 h2
    obtain ⟨c₂, g2, h2⟩ := bind_eq_some_iff.1 h2
    obtain ⟨c₃, g3, g4⟩ := bind_eq_some_iff.1 h2
    rw [len_write g4, len_write g3, len_write g2, len_write g1]
    exact hlen₁
  have hroot := within_write h4
  refine (((baseFields_initBaseBlock h1).front hfront).front (Front.allocateKeyNode h3 hlen₂)).congr fun j hj => ?_
  exact hroot.data j (by omega)

theorem computeChecksum_lt (b : HiveBuilder) : b.computeChecksum < 2 ^ 32 := by
  have hfold : ∀ (is : List ℕ) (c : ℕ), c < 2 ^ 32 → is.foldl (fun checksum i => checksum ^^^ leValue b.data (i * 4) 4) c < 2 ^ 32 := by
    intro is
    induction is with
    | nil => exact fun c hc => hc
    | cons i is ih => exact fun c hc => ih _ (Nat.xor_lt_two_pow hc (leValue_lt b.data (i * 4) 4))
  have hlt := hfold (List.range 127) 0 (by decide)
  unfold computeChecksum
  dsimp only
  split_ifs
  · decide
  · decide
  · exact hlt

theorem computeChecksum_congr (hsame : ∀ j < 508, b'.data j = b.data j) : b'.computeChecksum = b.computeChecksum := by
  have hread : ∀ i ∈ List.range 127, leValue b'.data (i * 4) 4 = leValue b.data (i * 4) 4 := fun i hi => by
    have := List.mem_range.1 hi
    exact leValue_congr fun j _ _ => hsame j (by omega)
  unfold computeChecksum
  rw [List.foldl_ext _ _ _ fun checksum i hi => by rw [hread i hi]]

theorem build_fields (h : b.build = some b') : leValue b'.data 4 4 = leValue b'.data 8 4 ∧ leValue b'.data 508 4 = b'.computeChecksum := by
  obtain ⟨sequenceNumber, -, h⟩ := bind_eq_some_iff.1 h
  obtain ⟨b₁, h1, h⟩ := bind_eq_some_iff.1 h
  obtain ⟨b₂, h2, h3⟩ := bind_eq_some_iff.1 h
  have w2 : Within b₁ b₂ 8 12 := within_write h2
  have w3 : Within b₂ b' 508 512 := within_write h3
  constructor
  · have hprimary : leValue b'.data 4 4 = leValue b₁.data 4 4 := leValue_congr fun j _ _ => by
      rw [w3.data j (by omega), w2.data j (by omega)]
    have hsecondary : leValue b'.data 8 4 = leValue b₂.data 8 4 := leValue_congr fun j _ _ => w3.data j (by omega)
    rw [hprimary, hsecondary, leValue_of_write h1, leValue_of_write h2]
  · rw [leValue_of_write h3, computeChecksum_congr fun j hj => w3.data j (Or.inl hj)]
    exact Nat.mod_eq_of_lt (computeChecksum_lt b₂)

theorem Headed.validate (h : b.Headed bins) (hfields : b.BaseFields)
    (hbuild : leValue b.data 4 4 = leValue b.data 8 4 ∧ leValue b.data 508 4 = b.computeChecksum) : b.openHive = some b := by
  have hbase := h.tiles.le
  have hpages : b.len % 4096 = 4096 % 4096 := h.tiles.mod_eq h.pages
  have hsize := h.dataSize
  unfold hiveBaseBlockSize at hbase hsize
  unfold openHive
  rw [if_neg (by unfold hiveBaseBlockSize; omega), if_pos]
  unfold HiveBuilder.validate validateSignature validateSequenceNumbers validateVersion validateFileType validateFileFormat validateDataSize
    validateClusteringFactor validateChecksum hiveBaseBlockSize
  simp only [Bool.and_eq_true, decide_eq_true_eq]
  refine ⟨⟨⟨⟨⟨⟨⟨hfields.signature, hbuild.1⟩, hfields.major, ?_⟩, hfields.fileType⟩, hfields.fileFormat⟩, ?_, ?_⟩,
    h.clusteringFactor⟩, hbuild.2⟩
  · rw [hfields.minor]
    decide
  · omega
  · omega

end HiveBuilder

end XenOS.Hive
