import XenOS.Hive.BigData

/-! The iterator over the segments of a value returns all its bytes. Its size hint counts the list,
which may be longer than the bytes need. -/

namespace XenOS.Hive

open General Nat BigDataSlices List

variable {h : HiveData} {it it' : BigDataSlices} {range r : ByteRange} {c n k i offset : ℕ} {s : List UInt8}

theorem bind_ok {α β : Type} {x : Outcome α} {f : α → Outcome β} {b : β} (hret : (x >>= f) = some (.ok b)) :
    ∃ a, x = some (.ok a) ∧ f a = some (.ok b) := by
  cases x with
  | none => cases hret
  | some x =>
    cases x with
    | error e => cases hret
    | ok a => exact ⟨a, rfl, hret⟩

theorem ok_bind {α β : Type} {x : Outcome α} {a : α} (hx : x = some (.ok a)) (f : α → Outcome β) : (x >>= f) = f a := by
  rw [hx]
  rfl

theorem byteSubrange_eq_some (hret : byteSubrange range n = some r) :
    r = ⟨range.start, range.start + n⟩ ∧ range.start + n ≤ range.stop ∧ range.start + n < 2 ^ 64 := by
  unfold byteSubrange at hret
  split_ifs at hret with hwide hshort
  cases hret
  exact ⟨rfl, by omega, by omega⟩

theorem byteSubrange_of_le (hle : range.start + n ≤ range.stop) (hlt : range.start + n < 2 ^ 64) :
    byteSubrange range n = some ⟨range.start, range.start + n⟩ := by
  unfold byteSubrange
  rw [if_neg (by omega), if_neg (by omega)]

theorem okOrElse_ok {x : Option ByteRange} {e : HiveError} (hret : okOrElse x e = some (.ok r)) : x = some r := by
  cases x with
  | none => cases hret
  | some range =>
    cases hret
    rfl

namespace HiveData

theorem cellRange_spec (hret : h.cellRangeFromData offset = some (.ok r)) :
    r.start = offset + cellHeaderSize ∧ r.stop ≤ h.data.length := by
  unfold cellRangeFromData at hret
  split at hret
  · cases hret
  obtain ⟨headerRange, hheader, hret⟩ := bind_ok hret
  obtain ⟨rfl, -, -⟩ := byteSubrange_eq_some (okOrElse_ok hheader)
  dsimp only at hret
  split at hret
  · cases hret
  split at hret
  · cases hret
  split at hret
  · cases hret
  obtain ⟨rfl, hle, -⟩ := byteSubrange_eq_some (okOrElse_ok hret)
  exact ⟨rfl, hle⟩

end HiveData

namespace BigDataSlices

/-- The iterator has `c` list items left, and they are enough. -/
structure Valid (it : BigDataSlices) (c : ℕ) : Prop where
  stop : it.listItemsRange.stop = it.listItemsRange.start + c * bigDataListItemSize
  enough : it.bytesLeft ≤ c * bigDataSegmentSize
  fits : it.listItemsRange.stop < 2 ^ 64

/-- The bytes of the `i`-th segment from here. -/
def segment (it : BigDataSlices) (i : ℕ) : Outcome (List UInt8) :=
  it.readSegment (it.hive.number (it.listItemsRange.start + i * bigDataListItemSize) 4)
    (min (it.bytesLeft - i * bigDataSegmentSize) bigDataSegmentSize)

def Accepted (it : BigDataSlices) : Prop := ∀ i, i * bigDataSegmentSize < it.bytesLeft → ∃ s, it.segment i = some (.ok s)

/-- The iterator after an item. -/
def rest (it : BigDataSlices) : BigDataSlices :=
  { it with
    listItemsRange := { it.listItemsRange with start := it.listItemsRange.start + bigDataListItemSize }
    bytesLeft := it.bytesLeft - min it.bytesLeft bigDataSegmentSize }

theorem Valid.sizeHint (hv : it.Valid c) : it.sizeHint = c := by
  unfold BigDataSlices.sizeHint ByteRange.len
  rw [hv.stop, Nat.add_sub_cancel_left]
  exact Nat.mul_div_cancel c (by decide)

theorem Valid.rest (hv : it.Valid (c + 1)) : it.rest.Valid c where
  stop := by
    have := hv.stop
    rw [succ_mul] at this
    simp only [BigDataSlices.rest]
    omega
  enough := by
    have := hv.enough
    unfold bigDataSegmentSize at *
    simp only [BigDataSlices.rest, bigDataSegmentSize]
    omega
  fits := hv.fits

theorem segment_rest (i : ℕ) : it.rest.segment i = it.segment (i + 1) := by
  have hoffset : it.listItemsRange.start + bigDataListItemSize + i * bigDataListItemSize =
      it.listItemsRange.start + (i + 1) * bigDataListItemSize := by rw [succ_mul]; omega
  have hbytes : it.bytesLeft - min it.bytesLeft bigDataSegmentSize - i * bigDataSegmentSize =
      it.bytesLeft - (i + 1) * bigDataSegmentSize := by rw [succ_mul]; omega
  unfold BigDataSlices.segment
  simp only [rest, hoffset, hbytes]
  rfl

theorem Accepted.rest (ha : it.Accepted) : it.rest.Accepted := by
  intro i hi
  rw [segment_rest]
  refine ha (i + 1) ?_
  simp only [BigDataSlices.rest] at hi
  rw [succ_mul]
  omega

theorem length_readSegment (hret : it.readSegment offset n = some (.ok s)) : s.length = n := by
  obtain ⟨cellRange, hcell, hret⟩ := bind_ok hret
  obtain ⟨dataRange, hdata, hret⟩ := bind_ok hret
  cases hret
  obtain ⟨-, hstop⟩ := HiveData.cellRange_spec hcell
  obtain ⟨rfl, hle, -⟩ := byteSubrange_eq_some (okOrElse_ok hdata)
  simp only [HiveData.slice, ByteRange.len, length_take, length_drop]
  omega

theorem next_done (hzero : it.bytesLeft = 0) : it.next = some (none, it) := by
  unfold next
  simp only [hzero, Nat.zero_min, if_true]

theorem next_segment (hv : it.Valid (c + 1)) (hpos : 0 < it.bytesLeft) (hs : it.segment 0 = some (.ok s)) :
    it.next = some (some (.ok s), it.rest) := by
  have hstop := hv.stop
  have hfits := hv.fits
  unfold bigDataListItemSize at hstop
  unfold segment at hs
  rw [Nat.zero_mul, Nat.zero_mul, Nat.add_zero, Nat.sub_zero] at hs
  unfold next
  rw [if_neg (by unfold bigDataSegmentSize; omega), byteSubrange_of_le (by unfold bigDataListItemSize; omega)
    (by unfold bigDataListItemSize; omega)]
  simp only [hs]
  rfl

/-- What the calls of `next` return from here. -/
structure Reads (it : BigDataSlices) (c : ℕ) (slices : List (List UInt8)) : Prop where
  length : slices.length = (it.bytesLeft + (bigDataSegmentSize - 1)) / bigDataSegmentSize
  segments : ∀ i < slices.length, ∃ s, slices[i]? = some s ∧ it.segment i = some (.ok s)
  bytes : (slices.map List.length).sum = it.bytesLeft
  full : ∀ s ∈ slices.dropLast, s.length = bigDataSegmentSize
  items : ∀ fuel, slices.length < fuel → items fuel it = some (slices.map .ok)
  extend : ∀ fuel, slices.length < fuel → ∀ data, extendLoop fuel data it = some (.ok (data ++ slices.flatten))
  hints : ∀ k ≤ slices.length, ∃ it', it.after k = some it' ∧ it'.sizeHint = c - k

theorem reads_nil (hv : it.Valid c) (hzero : it.bytesLeft = 0) : it.Reads c [] where
  length := by
    rw [hzero]
    decide
  segments i hi := absurd hi (Nat.not_lt_zero i)
  bytes := hzero.symm
  full s hs := by cases hs
  items fuel hfuel := by
    obtain ⟨fuel, rfl⟩ := Nat.exists_eq_succ_of_ne_zero (Nat.ne_of_gt hfuel)
    simp only [items, next_done hzero]
    rfl
  extend fuel hfuel data := by
    obtain ⟨fuel, rfl⟩ := Nat.exists_eq_succ_of_ne_zero (Nat.ne_of_gt hfuel)
    simp only [extendLoop, next_done hzero, flatten_nil, append_nil]
    rfl
  hints k hk := by
    rw [Nat.le_zero.1 hk]
    exact ⟨it, rfl, hv.sizeHint⟩

theorem Reads.cons {slices : List (List UInt8)} (hv : it.Valid (c + 1)) (hpos : 0 < it.bytesLeft) (hs : it.segment 0 = some (.ok s))
    (hr : it.rest.Reads c slices) : it.Reads (c + 1) (s :: slices) := by
  have hnext := next_segment hv hpos hs
  have hlength : s.length = min it.bytesLeft bigDataSegmentSize := by
    have := length_readSegment hs
    rwa [Nat.zero_mul, Nat.sub_zero] at this
  have hleft : it.rest.bytesLeft = it.bytesLeft - min it.bytesLeft bigDataSegmentSize := rfl
  have hcount := hr.length
  rw [hleft] at hcount
  constructor
  · rw [length_cons, hcount]
    unfold bigDataSegmentSize
    omega
  · intro i hi
    cases i with
    | zero => exact ⟨s, rfl, hs⟩
    | succ i =>
      obtain ⟨s', hs', hsegment⟩ := hr.segments i (Nat.lt_of_succ_lt_succ hi)
      exact ⟨s', hs', (segment_rest i) ▸ hsegment⟩
  · rw [map_cons, sum_cons, hr.bytes, hlength, hleft]
    omega
  · intro s' hs'
    cases slices with
    | nil => cases hs'
    | cons s₁ slices =>
      rw [dropLast_cons_cons] at hs'
      rcases mem_cons.1 hs' with rfl | hs'
      · -- bytes are left after this segment
        have hmore : 0 < it.rest.bytesLeft := by
          rw [length_cons] at hcount
          rw [hleft]
          unfold bigDataSegmentSize at *
          omega
        rw [hlength]
        omega
      · exact hr.full s' hs'
  · intro fuel hfuel
    obtain ⟨fuel, rfl⟩ := Nat.exists_eq_succ_of_ne_zero (Nat.ne_of_gt (Nat.lt_of_le_of_lt (Nat.zero_le _) hfuel))
    have hitems := hr.items fuel (Nat.lt_of_succ_lt_succ hfuel)
    simp only [BigDataSlices.items, hnext, Option.bind_eq_bind, Option.bind_some, hitems]
    rfl
  · intro fuel hfuel data
    obtain ⟨fuel, rfl⟩ := Nat.exists_eq_succ_of_ne_zero (Nat.ne_of_gt (Nat.lt_of_le_of_lt (Nat.zero_le _) hfuel))
    simp only [extendLoop, hnext]
    rw [hr.extend fuel (Nat.lt_of_succ_lt_succ hfuel), flatten_cons, append_assoc]
  · intro k hk
    cases k with
    | zero => exact ⟨it, rfl, hv.sizeHint⟩
    | succ k =>
      obtain ⟨it', hafter, hhint⟩ := hr.hints k (Nat.le_of_succ_le_succ hk)
      refine ⟨it', ?_, by rw [hhint]; omega⟩
      simp only [after, hnext, Option.bind_eq_bind, Option.bind_some]
      exact hafter

theorem Valid.reads (hv : it.Valid c) (ha : it.Accepted) : ∃ slices, it.Reads c slices := by
  induction c generalizing it with
  | zero => exact ⟨[], reads_nil hv (le_zero.1 (zero_mul bigDataSegmentSize ▸ hv.enough))⟩
  | succ c ih =>
    rcases Nat.eq_zero_or_pos it.bytesLeft with hzero | hpos
    · exact ⟨[], reads_nil hv hzero⟩
    · obtain ⟨s, hs⟩ := ha 0 (by rwa [zero_mul])
      obtain ⟨slices, hr⟩ := ih hv.rest ha.rest
      exact ⟨s :: slices, hr.cons hv hpos hs⟩

theorem new_spec {dataSize field : ℕ} (hret : new h dataSize field range = some (.ok it)) :
    it.bytesLeft = dataSize ∧ it.Valid (h.number (range.start + 2) 2) := by
  unfold new at hret
  obtain ⟨headerRange, hheader, hret⟩ := bind_ok hret
  obtain ⟨rfl, -, -⟩ := byteSubrange_eq_some (okOrElse_ok hheader)
  dsimp only at hret
  split at hret
  · cases hret
  split at hret
  · cases hret
  rename_i hmax
  obtain ⟨listRange, -, hret⟩ := bind_ok hret
  obtain ⟨itemsRange, hitems, hret⟩ := bind_ok hret
  obtain ⟨rfl, -, hlt⟩ := byteSubrange_eq_some (okOrElse_ok hitems)
  cases hret
  exact ⟨rfl, rfl, Nat.not_lt.1 hmax, hlt⟩

/-- All slices are there, each of its segment and full but for the last, all bytes together, and the
hint is the number of slices to come. -/
def ReadsBack (it : BigDataSlices) : Prop :=
  ∃ slices : List (List UInt8), it.collect = some (slices.map .ok) ∧
    (∀ i < slices.length, ∃ s, slices[i]? = some s ∧ it.segment i = some (.ok s)) ∧
    (slices.map length).sum = it.bytesLeft ∧ (∀ s ∈ slices.dropLast, s.length = bigDataSegmentSize) ∧
    it.intoVec = some (.ok slices.flatten) ∧ ∀ k ≤ slices.length, ∃ it', it.after k = some it' ∧ it'.sizeHint = slices.length - k

theorem Valid.readsBack_iff (hv : it.Valid c) (ha : it.Accepted) :
    it.ReadsBack ↔ c = (it.bytesLeft + (bigDataSegmentSize - 1)) / bigDataSegmentSize := by
  obtain ⟨slices, hr⟩ := hv.reads ha
  have hle : slices.length ≤ c := by
    have := hv.enough
    rw [hr.length]
    unfold bigDataSegmentSize at *
    omega
  have hfuel : slices.length < it.sizeHint + 1 := by
    rw [hv.sizeHint]
    omega
  rw [← hr.length]
  constructor
  · rintro ⟨slices', hcollect, -, -, -, -, hhints⟩
    have hsame : slices' = slices := by
      have hmap := Option.some.inj (hcollect.symm.trans (hr.items _ hfuel))
      exact (map_injective_iff.2 fun a b hab => Except.ok.inj hab) hmap
    obtain ⟨it', hafter, hhint⟩ := hhints 0 (zero_le _)
    cases hafter
    rw [hv.sizeHint, hsame] at hhint
    exact hhint
  · intro hexact
    refine ⟨slices, hr.items _ hfuel, hr.segments, hr.bytes, hr.full, ?_, hexact ▸ hr.hints⟩
    exact hr.extend _ hfuel []

end BigDataSlices

namespace ValueHeader

variable {v : ValueHeader}

theorem keyValueData_big (hret : v.keyValueData = some (.ok (.big it))) :
    it.bytesLeft = v.dataSize ∧ it.Valid v.segmentCount ∧ bigDataSegmentSize < v.dataSize := by
  unfold keyValueData at hret
  split at hret
  · split at hret <;> cases hret
  split at hret
  · obtain ⟨cellRange, -, hret⟩ := bind_ok hret
    split at hret <;> cases hret
  rename_i hlarge
  obtain ⟨cellRange, hcell, hret⟩ := bind_ok hret
  obtain ⟨iter, hnew, hret⟩ := bind_ok hret
  cases hret
  obtain ⟨hbytes, hvalid⟩ := new_spec hnew
  rw [(HiveData.cellRange_spec hcell).1] at hvalid
  exact ⟨hbytes, hvalid, Nat.not_le.1 hlarge⟩

/-- A value in segments reads back, with exact hints, exactly where its header counts as many
segments as its bytes need. -/
theorem bigData_readsBack_iff (hret : v.keyValueData = some (.ok (.big it))) (ha : it.Accepted) :
    it.bytesLeft = v.dataSize ∧
      (it.ReadsBack ↔ v.segmentCount = (v.dataSize + (bigDataSegmentSize - 1)) / bigDataSegmentSize) := by
  obtain ⟨hbytes, hvalid, -⟩ := keyValueData_big hret
  exact ⟨hbytes, hbytes ▸ hvalid.readsBack_iff ha⟩

/-- A value of 16345 bytes: its header, that of its big data with the given count, a list of three
items, and the header of their cell. -/
def sampleHeaders (count : UInt8) : List UInt8 :=
  [0x76, 0x6b, 0, 0, 0xd9, 0x3f, 0, 0, 24, 0, 0, 0, 3, 0, 0, 0, 0, 0, 0, 0, 0, 0, 0, 0] ++
    [0xf0, 0xff, 0xff, 0xff, 0x64, 0x62, count, 0, 40, 0, 0, 0, 0, 0, 0, 0] ++
    [0xf0, 0xff, 0xff, 0xff, 56, 0, 0, 0, 56, 0, 0, 0, 56, 0, 0, 0] ++ [0x20, 0xc0, 0xff, 0xff]

def sampleHive (count : UInt8) : HiveData := ⟨sampleHeaders count ++ replicate 16348 0, 4096⟩

def sampleValue (count : UInt8) : ValueHeader := ⟨sampleHive count, 0⟩

def sampleSlices (count : UInt8) : BigDataSlices := ⟨sampleHive count, ⟨44, 44 + count.toNat * 4⟩, 16345⟩

theorem length_sampleHive (count : UInt8) : (sampleHive count).data.length = 16408 := by
  have hheaders : (sampleHeaders count).length = 60 := rfl
  rw [sampleHive, length_append, length_replicate, hheaders]

theorem number_sampleHive (count : UInt8) {offset n v : ℕ} (hn : offset + n ≤ 60)
    (hread : leValue (fun i => (sampleHeaders count).getD i 0) offset n = v) : (sampleHive count).number offset n = v := by
  rw [← hread]
  refine leValue_congr fun j _ hj => ?_
  have hlt : j < (sampleHeaders count).length := Nat.lt_of_lt_of_le hj hn
  simp only [sampleHive, getD_eq_getElem?_getD, getElem?_append_left hlt]

theorem cellRange_of {raw size : ℕ} (hread : h.number offset 4 = raw) (hraw : raw + size = 2 ^ 32) (hsize : size ≤ 2 ^ 31) (hmod : size % 8 = 0) (hpos : 0 < size)
    (hfits : offset + size ≤ h.data.length) (hlen : h.data.length < u32Max) :
    h.cellRangeFromData offset = some (.ok ⟨offset + cellHeaderSize, offset + size⟩) := by
  unfold u32Max at hlen
  have hback : (2 ^ 32 - raw) % 2 ^ 32 = size := by omega
  have hheader : byteSubrange ⟨offset, h.data.length⟩ cellHeaderSize = some ⟨offset, offset + cellHeaderSize⟩ :=
    byteSubrange_of_le (by simp only [cellHeaderSize]; omega) (by simp only [cellHeaderSize]; omega)
  have hdata : byteSubrange ⟨offset + cellHeaderSize, h.data.length⟩ (size - cellHeaderSize) =
      some ⟨offset + cellHeaderSize, offset + cellHeaderSize + (size - cellHeaderSize)⟩ :=
    byteSubrange_of_le (by simp only [cellHeaderSize]; omega) (by simp only [cellHeaderSize]; omega)
  unfold HiveData.cellRangeFromData
  rw [if_neg (by unfold u32Max; omega)]
  simp only [hheader, okOrElse, pure_bind, hread, hback]
  rw [if_neg (by omega), if_neg (by omega), if_neg (by unfold cellHeaderSize; omega), hdata]
  simp only [Nat.add_sub_cancel' (show cellHeaderSize ≤ size by unfold cellHeaderSize; omega), Nat.add_assoc]
  rfl

theorem sample_cells (count : UInt8) : (sampleHive count).cellRangeFromData 24 = some (.ok ⟨28, 40⟩) ∧
    (sampleHive count).cellRangeFromData 40 = some (.ok ⟨44, 56⟩) ∧ (sampleHive count).cellRangeFromData 56 = some (.ok ⟨60, 16408⟩) := by
  have hcell : ∀ offset raw size : ℕ, offset + cellHeaderSize ≤ 60 → leValue (fun i => (sampleHeaders count).getD i 0) offset 4 = raw →
      raw + size = 2 ^ 32 → size ≤ 2 ^ 31 → size % 8 = 0 → 0 < size → offset + size ≤ 16408 →
      (sampleHive count).cellRangeFromData offset = some (.ok ⟨offset + cellHeaderSize, offset + size⟩) :=
    fun _ _ _ hoffset hread hraw hsize hmod hpos hfits => cellRange_of (number_sampleHive count hoffset hread) hraw hsize hmod hpos
      (by rwa [length_sampleHive]) (by rw [length_sampleHive]; decide)
  have hbig : leValue (fun i => (sampleHeaders count).getD i 0) 24 4 = 4294967280 := by simp [leValue, sampleHeaders]
  have hlist : leValue (fun i => (sampleHeaders count).getD i 0) 40 4 = 4294967280 := by simp [leValue, sampleHeaders]
  have hsegment : leValue (fun i => (sampleHeaders count).getD i 0) 56 4 = 4294950944 := by simp [leValue, sampleHeaders]
  exact ⟨hcell 24 _ 16 (by decide) hbig (by decide) (by decide) (by decide) (by decide) (by decide),
    hcell 40 _ 16 (by decide) hlist (by decide) (by decide) (by decide) (by decide) (by decide),
    hcell 56 _ 16352 (by decide) hsegment (by decide) (by decide) (by decide) (by decide) (by decide)⟩

theorem dataSizeRaw_sample (count : UInt8) : (sampleValue count).dataSizeRaw = 16345 := by
  refine number_sampleHive count (show 4 + 4 ≤ 60 by decide) ?_
  simp [leValue, sampleHeaders, sampleValue]

theorem sample_keyValueData {count : UInt8} (hcount : count = 2 ∨ count = 3) :
    (sampleValue count).keyValueData = some (.ok (.big (sampleSlices count))) := by
  obtain ⟨hheader, hlist, -⟩ := sample_cells count
  have hsize : (sampleValue count).dataSizeRaw = 16345 := dataSizeRaw_sample count
  have hoffset : (sampleValue count).dataOffset = 24 :=
    number_sampleHive count (show 8 + 4 ≤ 60 by decide) (by simp [leValue, sampleHeaders, sampleValue])
  have hsignature : (sampleHive count).number 28 2 = bigDataSignature :=
    number_sampleHive count (by decide) (by simp [leValue, sampleHeaders, bigDataSignature])
  have hsegments : (sampleHive count).number 30 2 = count.toNat := by
    refine number_sampleHive count (by decide) ?_
    rcases hcount with rfl | rfl <;> rfl
  have hlistOffset : (sampleHive count).number 32 4 = 40 :=
    number_sampleHive count (by decide) (by simp [leValue, sampleHeaders])
  have hitems : byteSubrange ⟨44, 56⟩ (count.toNat * bigDataListItemSize) = some ⟨44, 44 + count.toNat * 4⟩ := by
    rcases hcount with rfl | rfl <;> rfl
  have hnew : new (sampleHive count) 16345 (4096 + 0 + 4) ⟨28, 40⟩ = some (.ok (sampleSlices count)) := by
    have hfirst : byteSubrange ⟨28, 40⟩ bigDataHeaderSize = some ⟨28, 36⟩ := rfl
    unfold new
    simp only [hfirst, okOrElse, pure_bind, hsignature, hsegments, hlistOffset]
    rw [if_neg (by decide), if_neg (by rcases hcount with rfl | rfl <;> decide), ok_bind hlist]
    simp only [hitems, pure_bind]
    rfl
  unfold keyValueData
  simp only [dataSize, hsize, hoffset]
  have hhive : (sampleValue count).hive = sampleHive count := rfl
  rw [if_neg (by decide), if_neg (by decide), hhive, ok_bind hheader]
  exact ok_bind hnew _

theorem sample_accepted (count : UInt8) : (sampleSlices count).Accepted := by
  obtain ⟨-, -, hcell⟩ := sample_cells count
  intro i hi
  have hi : i = 0 ∨ i = 1 := by
    simp only [sampleSlices, bigDataSegmentSize] at hi
    omega
  have hoffset : (sampleHive count).number (44 + i * 4) 4 = 56 := by
    rcases hi with rfl | rfl <;> exact number_sampleHive count (by decide) (by simp [leValue, sampleHeaders])
  have hread : ∀ n ≤ 16344, ∃ s, (sampleSlices count).readSegment 56 n = some (.ok s) := by
    intro n hn
    unfold readSegment
    have hhive : (sampleSlices count).hive = sampleHive count := rfl
    rw [hhive, ok_bind hcell, byteSubrange_of_le (by simp only; omega) (by simp only; omega)]
    exact ⟨_, rfl⟩
  unfold BigDataSlices.segment
  rw [show (sampleSlices count).hive.number ((sampleSlices count).listItemsRange.start + i * bigDataListItemSize) 4 = 56 from hoffset]
  exact hread _ (Nat.min_le_right _ _)

/-- Two segments for 16345 bytes. -/
theorem bigData_readsBack_two : (sampleSlices 2).ReadsBack := by
  refine (bigData_readsBack_iff (sample_keyValueData (Or.inl rfl)) (sample_accepted 2)).2.2 ?_
  rw [show (sampleValue 2).segmentCount = 2 from number_sampleHive 2 (show 30 + 2 ≤ 60 by decide) rfl,
    show (sampleValue 2).dataSize = 16345 from congrArg (· % dataInOffset) (dataSizeRaw_sample 2)]
  decide

/-- With a third segment that is not needed, the hints are too large. -/
theorem bigData_surplus : (sampleValue 3).keyValueData = some (.ok (.big (sampleSlices 3))) ∧ (sampleSlices 3).Accepted ∧
    (sampleSlices 3).sizeHint = 3 ∧ (∃ items, (sampleSlices 3).collect = some items ∧ items.length = 2) ∧ ¬ (sampleSlices 3).ReadsBack := by
  have hdata := sample_keyValueData (Or.inr rfl)
  have haccepted := sample_accepted 3
  have hvalid : (sampleSlices 3).Valid 3 := ⟨rfl, by decide, by decide⟩
  obtain ⟨slices, hreads⟩ := hvalid.reads haccepted
  refine ⟨hdata, haccepted, rfl, ⟨_, hreads.items _ ?_, ?_⟩, fun hback => ?_⟩
  · rw [hreads.length]
    decide
  · rw [length_map, hreads.length]
    decide
  · exact absurd ((hvalid.readsBack_iff haccepted).1 hback) (by decide)

end ValueHeader

/-- What the builder made, as the reader takes it: the bytes behind the base block. -/
def HiveBuilder.hiveData (b : HiveBuilder) : HiveData := ⟨b.bytes hiveBaseBlockSize (b.len - hiveBaseBlockSize), hiveBaseBlockSize⟩

/-- The two readers agree on the cells. -/
theorem cellRange_hiveData {b : HiveBuilder} {start : ℕ} (hlen : b.len < u32Max) (hret : b.cellRange offset = some (start, n)) :
    b.hiveData.cellRangeFromData offset = some (.ok ⟨offset + cellHeaderSize, offset + cellHeaderSize + n⟩) := by
  unfold HiveBuilder.cellRange HiveBuilder.cellSize at hret
  dsimp only at hret
  split_ifs at hret with hmax hshort hsize hmod hsmall hfits
  cases hret
  have hraw : leValue b.data (hiveBaseBlockSize + offset) 4 < 2 ^ 32 := leValue_lt b.data (hiveBaseBlockSize + offset) 4
  have hlength : b.hiveData.data.length = b.len - hiveBaseBlockSize := by simp [HiveBuilder.hiveData, HiveBuilder.bytes]
  have hnumber : b.hiveData.number offset 4 = leValue b.data (hiveBaseBlockSize + offset) 4 := by
    rw [← leValue_shift]
    refine leValue_congr fun j _ hj => ?_
    have hin : j < b.len - hiveBaseBlockSize := by
      unfold cellHeaderSize at hshort
      omega
    simp [HiveBuilder.hiveData, HiveBuilder.bytes, hin]
  generalize leValue b.data (hiveBaseBlockSize + offset) 4 = raw at *
  obtain ⟨hnat, hhigh⟩ : (signed32 raw).natAbs = 2 ^ 32 - raw ∧ 2 ^ 31 ≤ raw := by
    unfold signed32 cellHeaderSize at *
    split_ifs at * <;> omega
  rw [hnat] at hmod hsmall hfits ⊢
  have hcell := ValueHeader.cellRange_of hnumber (show raw + (2 ^ 32 - raw) = 2 ^ 32 by omega) (by omega) (by omega) (by omega)
    (by omega) (by omega)
  rw [hcell, Nat.add_assoc, Nat.add_sub_cancel' (by omega)]

end XenOS.Hive
