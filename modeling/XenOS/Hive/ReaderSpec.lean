import XenOS.Hive.Reader
import XenOS.Hive.TreeRuns

/-! The reader on a tree that a builder has built: each field of a key or a value reads back. -/

namespace XenOS.Hive

open General HiveBuilder List Nat

variable {b : HiveBuilder} {tree : List HiveKey} {k : HiveKey} {v : HiveValue} {rs : List Rec} {r : Rec} {p n : ℕ}

theorem leValue_one (f : ℕ → UInt8) (p : ℕ) : leValue f p 1 = (f p).toNat := by simp [leValue]

theorem leValue_add (f : ℕ → UInt8) (p m n : ℕ) : leValue f p (m + n) = leValue f p m + 256 ^ m * leValue f (p + m) n := by
  induction m generalizing p with
  | zero => simp [leValue]
  | succ m ih =>
    rw [show m + 1 + n = (m + n) + 1 by omega]
    simp only [leValue, ih, Nat.pow_succ]
    rw [show p + 1 + m = p + (m + 1) by omega, Nat.mul_add, ← Nat.add_assoc, ← Nat.mul_assoc, Nat.mul_comm 256 (256 ^ m)]

theorem fieldsAt_bytes {f : ℕ → UInt8} {bytes : List UInt8} (h : FieldsAt f p (bytesFields bytes)) :
    (range bytes.length).map (fun i => f (p + i)) = bytes := by
  induction bytes generalizing p with
  | nil => rfl
  | cons byte bytes ih =>
    have hbyte : f p = byte := by
      have hvalue := h.1
      rw [leValue_one] at hvalue
      have hlt := byte.toNat_lt
      exact UInt8.toNat_inj.1 (by omega)
    rw [length_cons, range_succ_eq_map, map_cons, map_map]
    have htail := ih h.2
    simp only [Function.comp_def, add_zero, hbyte]
    exact congrArg (byte :: ·) ((map_congr_left fun i _ => congrArg f (by omega)).trans htail)

theorem fieldsAt_range {α : Type} {f : ℕ → UInt8} {xs : List α} {g : α → List (ℕ × ℕ)} {a : α → ℕ} {w : ℕ}
    (hg : ∀ x ∈ xs, (∃ post, g x = (4, a x) :: post) ∧ totalWidth (g x) = w ∧ a x < 2 ^ 32) (h : FieldsAt f p (xs.flatMap g)) :
    (range xs.length).map (fun i => leValue f (p + i * w) 4) = xs.map a := by
  induction xs generalizing p with
  | nil => rfl
  | cons x xs ih =>
    obtain ⟨⟨post, hpost⟩, hwidth, hlt⟩ := hg x mem_cons_self
    rw [flatMap_cons, fieldsAt_append, hwidth] at h
    have hhead : leValue f p 4 = a x := by
      have hx := h.1
      rw [hpost] at hx
      exact hx.1.trans (mod_eq_of_lt hlt)
    have htail := ih (fun y hy => hg y (mem_cons_of_mem _ hy)) h.2
    rw [length_cons, range_succ_eq_map, map_cons, map_map, map_cons]
    simp only [Function.comp_def, zero_mul, add_zero, hhead]
    refine congrArg (a x :: ·) ((map_congr_left fun i _ => ?_).trans htail)
    rw [succ_mul, add_assoc, add_comm w]

def HiveBuilder.cellLen (b : HiveBuilder) (offset : ℕ) : ℕ := (b.cellSize (hiveBaseBlockSize + offset)).natAbs - cellHeaderSize

section
variable (h : b.Holds rs)
include h

theorem HiveBuilder.Holds.cellRange (hr : r ∈ rs) (hoffset : r.offset < u32Max) :
    b.cellRange r.offset = some (dataAbs r.offset, b.cellLen r.offset) ∧ r.size ≤ cellHeaderSize + b.cellLen r.offset := by
  obtain ⟨-, bins, hheaded, hcells⟩ := h.owned
  have hlayout := hheaded.toLayout
  obtain ⟨c, hc, hstart, hneg, hsize⟩ := hcells r.cell (mem_map.2 ⟨r, hr, rfl⟩)
  have hbounds := hlayout.bounds hc
  obtain ⟨bin, hbin, hmem⟩ := hc
  obtain ⟨⟨-, hmod, -⟩, hread⟩ := hlayout.sizes bin hbin c hmem
  rw [hstart] at hread hbounds
  simp only [Rec.cell] at hread hsize hbounds
  unfold HiveBuilder.cellRange HiveBuilder.cellLen
  simp only [hread]
  unfold cellHeaderSize
  rw [if_neg (Nat.ne_of_lt hoffset), if_neg (by omega), if_neg (by omega), if_neg (by omega), if_neg (by omega), if_neg (by omega)]
  exact ⟨rfl, by omega⟩

theorem HiveBuilder.Holds.fieldAt (hr : r ∈ rs) (pre : List (ℕ × ℕ)) (q w x : ℕ) {post : List (ℕ × ℕ)}
    (hfields : r.fields = pre ++ (w, x) :: post) (hq : totalWidth pre = q) : leValue b.data (dataAbs r.offset + q) w = x % 256 ^ w :=
  hq ▸ h.field hr hfields

theorem HiveBuilder.Holds.bytesAt (hr : r ∈ rs) (pre : List (ℕ × ℕ)) (q : ℕ) {bytes : List UInt8}
    (hfields : r.fields = pre ++ bytesFields bytes) (hq : totalWidth pre = q) : b.bytes (dataAbs r.offset + q) bytes.length = bytes := by
  have hwritten := (h.written r hr).2
  rw [hfields, fieldsAt_append, hq] at hwritten
  exact fieldsAt_bytes hwritten.2

theorem HiveBuilder.Holds.nameLength (hk : k.cell ∈ rs) :
    leValue b.data (dataAbs k.offset + 72) 2 = (nameBytes k.name).length % 256 ^ 2 := by
  have hfields : k.cell.fields = [(2, 0x6b6e), (2, k.flags), (8, 0), (4, 0), (4, k.parent), (4, k.subkeyCount), (4, 0),
      (4, k.subkeysList.getD u32Max), (4, u32Max), (4, k.values.length), (4, k.valuesList.getD u32Max), (4, u32Max), (4, u32Max),
      (4, k.maxSubkeyName), (4, 0), (4, 0), (4, 0), (4, 0)] ++ (2, (nameBytes k.name).length) :: (2, 0) :: bytesFields (nameBytes k.name) := by
    simp only [HiveKey.cell, HiveKey.fields, cons_append, nil_append]
  refine h.fieldAt hk _ 72 2 (nameBytes k.name).length hfields ?_
  simp [totalWidth]

end

def HiveBuilder.valueAt (b : HiveBuilder) (offset : ℕ) : KeyValue := ⟨dataAbs offset, b.cellLen offset⟩

/-- What the user may set so that it can be read. -/
structure HiveValue.Readable (v : HiveValue) : Prop where
  ascii : (nameBytes v.name).all (· < 128) = true
  length : (nameBytes v.name).length < 2 ^ 16
  dataType : v.dataType ≤ 11
  data : v.data.length ≤ bigDataSegmentSize

section Value

variable (h : b.Holds rs) (hv : v.cell ∈ rs) (hformed : v.Formed) (hreadable : v.Readable)

include h hv hformed in
theorem cellLen_value : keyValueHeaderSize + (nameBytes v.name).length ≤ b.cellLen v.offset := by
  have hlen := (h.cellRange hv hformed.offset).2
  simp only [HiveValue.cell] at hlen
  omega

include h hv hformed in
theorem keyValue_eq : b.keyValue v.offset = some (b.valueAt v.offset) := by
  have hlen := cellLen_value h hv hformed
  have hrange : b.cellRange v.offset = some (dataAbs v.offset, b.cellLen v.offset) := (h.cellRange hv hformed.offset).1
  have hsignature : leValue b.data (dataAbs v.offset) 2 = keyValueSignature := h.fieldAt hv [] 0 2 keyValueSignature rfl rfl
  unfold HiveBuilder.keyValue
  rw [hrange]
  simp only [Option.bind_eq_bind, Option.bind_some]
  rw [if_neg (by omega), if_neg (not_not_intro hsignature)]
  rfl

include h hv hformed hreadable in
theorem valueName_eq : b.valueName (b.valueAt v.offset) = some (.latin1 (nameBytes v.name)) := by
  have hlen := cellLen_value h hv hformed
  have hlength : leValue b.data (dataAbs v.offset + 2) 2 = (nameBytes v.name).length := by
    refine (h.fieldAt hv [(2, 0x6b76)] 2 2 (nameBytes v.name).length rfl rfl).trans ?_
    exact mod_eq_of_lt hreadable.length
  have hflags : leValue b.data (dataAbs v.offset + 16) 2 = valueCompName := by
    refine (h.fieldAt hv [(2, 0x6b76), (2, (nameBytes v.name).length), (4, v.dataSize), (4, v.dataOffset), (4, v.dataType)]
      16 2 v.flags rfl rfl).trans ?_
    rw [HiveValue.flags, if_pos hreadable.ascii]
    rfl
  have hbytes : b.bytes (dataAbs v.offset + keyValueHeaderSize) (nameBytes v.name).length = nameBytes v.name := by
    have hwritten := (h.written _ hv).2
    exact fieldsAt_bytes (fieldsAt_append.1 hwritten).2
  unfold HiveBuilder.valueName HiveBuilder.valueAt
  simp only [hlength, hflags, hbytes]
  split_ifs with hzero hshort hcomp
  · rw [length_eq_zero_iff.1 hzero]
  · omega
  · rfl
  · exact absurd rfl hcomp

include h hv hreadable in
theorem dataType_eq : b.dataType (b.valueAt v.offset) = some v.dataType := by
  have hle := hreadable.dataType
  have htype : leValue b.data (dataAbs v.offset + 12) 4 = v.dataType := by
    refine (h.fieldAt hv [(2, 0x6b76), (2, (nameBytes v.name).length), (4, v.dataSize), (4, v.dataOffset)] 12 4 v.dataType rfl rfl).trans ?_
    exact mod_eq_of_lt (by omega)
  unfold HiveBuilder.dataType HiveBuilder.valueAt
  simp only [htype]
  exact if_pos hle

include h hv hformed hreadable in
theorem valueData_eq (hdata : ∀ r ∈ v.dataCells, r ∈ rs) : b.valueData (b.valueAt v.offset) = some v.data := by
  have hle := hreadable.data
  unfold bigDataSegmentSize at hle
  have hsize : leValue b.data (dataAbs v.offset + 4) 4 = v.dataSize % 256 ^ 4 :=
    h.fieldAt hv [(2, 0x6b76), (2, (nameBytes v.name).length)] 4 4 v.dataSize rfl rfl
  have hoffset : leValue b.data (dataAbs v.offset + 8) 4 = v.dataOffset % 256 ^ 4 :=
    h.fieldAt hv [(2, 0x6b76), (2, (nameBytes v.name).length), (4, v.dataSize)] 8 4 v.dataOffset rfl rfl
  unfold HiveBuilder.valueData HiveBuilder.valueAt
  by_cases hsmall : v.data.length ≤ 4
  · -- the data are in the offset field
    have hraw : leValue b.data (dataAbs v.offset + 4) 4 = v.data.length + dataInOffset := by
      rw [hsize, HiveValue.dataSize, if_pos hsmall]
      unfold dataInOffset
      exact Nat.mod_eq_of_lt (by omega)
    have hmod : (v.data.length + dataInOffset) % dataInOffset = v.data.length := by
      unfold dataInOffset
      omega
    simp only [hraw, hmod, if_pos (Nat.le_add_left _ _), if_neg (Nat.not_lt.2 hsmall)]
    have hbytes : ∀ i < v.data.length, b.data (dataAbs v.offset + 8 + i) = v.data.getD i 0 := by
      have hfirst : leValue b.data (dataAbs v.offset + 8) v.data.length = leValue (fun i => v.data.getD i 0) 0 v.data.length := by
        rw [hformed.inOffset hsmall] at hoffset
        have hlt := leValue_lt (fun i => v.data.getD i 0) 0 v.data.length
        obtain ⟨d, hd⟩ := Nat.exists_eq_add_of_le hsmall
        have hlt4 : leValue (fun i => v.data.getD i 0) 0 v.data.length < 256 ^ 4 :=
          Nat.lt_of_lt_of_le hlt (Nat.pow_le_pow_right (by decide) hsmall)
        rw [Nat.mod_eq_of_lt hlt4, hd, leValue_add] at hoffset
        have hlow := leValue_lt b.data (dataAbs v.offset + 8) v.data.length
        have hmod := congrArg (· % 256 ^ v.data.length) hoffset
        simp only [Nat.add_mul_mod_self_left] at hmod
        rwa [Nat.mod_eq_of_lt hlow, Nat.mod_eq_of_lt hlt] at hmod
      intro i hi
      have := leValue_inj hfirst i hi
      rwa [Nat.zero_add] at this
    refine congrArg some (ext_getElem (by simp [HiveBuilder.bytes]) fun i hi hi' => ?_)
    simp only [HiveBuilder.bytes, getElem_map, getElem_range]
    rw [hbytes i hi']
    simp [getD, hi']
  · -- the data have their own cell
    have hcell : (⟨v.dataOffset, cellHeaderSize + v.data.length, bytesFields v.data⟩ : Rec) ∈ rs := by
      refine hdata _ ?_
      rw [HiveValue.dataCells, if_neg hsmall]
      exact mem_cons_self
    have hlt := hformed.dataCell (Nat.lt_of_not_le hsmall)
    obtain ⟨hrange, hfit⟩ := h.cellRange hcell hlt
    simp only at hrange hfit
    have hraw : leValue b.data (dataAbs v.offset + 4) 4 = v.data.length := by
      rw [hsize, HiveValue.dataSize, if_neg hsmall]
      omega
    have hoffset' : leValue b.data (dataAbs v.offset + 8) 4 = v.dataOffset := by
      unfold u32Max at hlt
      omega
    have hmod : v.data.length % dataInOffset = v.data.length := by
      unfold dataInOffset
      omega
    have hbytes : b.bytes (dataAbs v.dataOffset) v.data.length = v.data := fieldsAt_bytes (h.written _ hcell).2
    simp only [hraw, hmod, hoffset', hrange, Option.bind_eq_bind, Option.bind_some]
    rw [if_neg (by unfold dataInOffset; omega), if_pos hreadable.data, if_neg (by omega), hbytes]
    rfl

end Value

theorem pairs_toLeBytes {u : ℕ} {bytes : List UInt8} (hu : u < 2 ^ 16) : pairs (toLeBytes 2 u ++ bytes) = u :: pairs bytes := by
  have hunit : (UInt8.ofNat (u / 256 ^ 0)).toNat + 256 * (UInt8.ofNat (u / 256 ^ 1)).toNat = u := by
    simp only [UInt8.toNat_ofNat']
    omega
  exact congrArg (· :: pairs bytes) hunit

/-- A string value is read back exactly if it has neither a null character nor one outside the BMP. -/
theorem stringData_readsBack_iff (value : List Char) :
    utf16leToString (stringData value) = value ↔ ∀ c ∈ value, c.toNat ≠ 0 ∧ c.toNat < 0x10000 := by
  induction value with
  | nil => exact iff_of_true rfl fun c hc => absurd hc not_mem_nil
  | cons c value ih =>
    have hvalid : c.toNat.isValidChar := c.valid
    by_cases hlt : c.toNat < 0x10000
    · have hdata : stringData (c :: value) = toLeBytes 2 c.toNat ++ stringData value := by simp [stringData, encodeUtf16, hlt]
      rw [utf16leToString, hdata, pairs_toLeBytes hlt, forall_mem_cons, ← ih]
      by_cases hzero : c.toNat = 0
      · simp [hzero]
      · rw [takeWhile_cons_of_pos (by simpa using hzero), map_cons, if_neg (by grind), Char.ofNat_toNat, cons.injEq]
        simp [hzero, hlt, utf16leToString]
    · -- The first half of the surrogate pair is replaced.
      have hhead : stringData (c :: value) = toLeBytes 2 (0xd800 + (c.toNat - 0x10000) / 0x400) ++
          (toLeBytes 2 (0xdc00 + (c.toNat - 0x10000) % 0x400) ++ stringData value) := by
        simp [stringData, encodeUtf16, hlt]
      refine iff_of_false (fun h => hlt ?_) fun h => hlt (h c mem_cons_self).2
      rw [utf16leToString, hhead, pairs_toLeBytes (by grind), takeWhile_cons_of_pos (by simp), map_cons, if_pos (by grind)] at h
      rw [← (cons.inj h).1]
      decide

end XenOS.Hive
