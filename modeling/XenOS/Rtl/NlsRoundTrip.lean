import XenOS.Rtl.NlsSpec

/-! What `build_xnls_v1` writes, `parse_xnls` reads back. -/

namespace XenOS.Rtl

open General

theorem align8_of_dvd {v : ℕ} (h : 8 ∣ v) : align8 v = v := by
  unfold align8
  omega

theorem align8_add {a b : ℕ} (h : 8 ∣ a) : align8 (a + b) = a + align8 b := by
  unfold align8
  omega

theorem dvd_align8 (v : ℕ) : 8 ∣ align8 v := Nat.dvd_mul_left 8 _

theorem align8_bounds (v : ℕ) : v ≤ align8 v ∧ align8 v < v + 8 := by
  unfold align8
  omega

theorem length_pad8 (out : Bytes) : (pad8 out).length = align8 out.length := by
  have hle := (align8_bounds out.length).1
  rw [pad8, List.length_append, List.length_replicate]
  omega

/-- The chunks lie one behind the other from `cur` to `stop`. -/
def Laid : ℕ → List Chunk → ℕ → Prop
  | cur, [], stop => cur = stop
  | cur, ch :: chunks, stop => ch.offset = cur ∧ Laid (cur + align8 ch.data.length) chunks stop

theorem writeChunk_eq {out : Bytes} {ch : Chunk} (hdvd : 8 ∣ out.length) (hoffset : ch.offset = out.length) :
    ∃ tail, writeChunk out ch = some (out ++ (ch.data ++ tail)) ∧
      (out ++ (ch.data ++ tail)).length = out.length + align8 ch.data.length := by
  have hle := (align8_bounds ch.data.length).1
  have halign : align8 (out ++ ch.data).length = out.length + align8 ch.data.length := by
    rw [List.length_append, align8_add hdvd]
  refine ⟨List.replicate (align8 ch.data.length - ch.data.length) 0, ?_, ?_⟩
  · rw [writeChunk, if_neg (by omega), hoffset, Nat.sub_self, List.replicate_zero, List.append_nil, pad8, halign,
      List.length_append, Nat.add_sub_add_left, List.append_assoc]
  · simp only [List.length_append, List.length_replicate]
    omega

theorem writeChunks_spec {chunks : List Chunk} {out : Bytes} {stop : ℕ} (hdvd : 8 ∣ out.length)
    (h : Laid out.length chunks stop) : ∃ tail, chunks.foldlM writeChunk out = some (out ++ tail) ∧
      (out ++ tail).length = stop ∧ ∀ ch ∈ chunks, HasAt (out ++ tail) ch.offset ch.data := by
  induction chunks generalizing out with
  | nil => exact ⟨[], by rw [List.append_nil]; rfl, by rw [List.append_nil]; exact h, by simp⟩
  | cons ch chunks ih =>
    obtain ⟨hoffset, hrest⟩ := h
    obtain ⟨tail, hwrite, hlength⟩ := writeChunk_eq hdvd hoffset
    rw [← hlength] at hrest
    obtain ⟨more, hfold, hstop, hall⟩ := ih (by rw [hlength]; exact Nat.dvd_add hdvd (dvd_align8 _)) hrest
    rw [List.append_assoc] at hfold hstop hall
    refine ⟨ch.data ++ tail ++ more, by rw [List.foldlM_cons, hwrite]; exact hfold, hstop, fun c hc => ?_⟩
    rcases List.mem_cons.1 hc with rfl | hc
    · have hdata := ((hasAt_append.1 (hasAt_end out (c.data ++ tail))).1).extend more
      rw [hoffset]
      rwa [List.append_assoc] at hdata
    · exact hall c hc

def tableId : BmpTable → Bytes
  | .upcase => chunkIdUup1
  | .lowcase => chunkIdUlo1
  | .props => chunkIdPrp1

/-- The place of a table in the table of contents; the first entry is that of the text. -/
def tableIndex : BmpTable → ℕ
  | .upcase => 1
  | .lowcase => 2
  | .props => 3

section File
variable (text : Bytes) (words : BmpTable → List (BitVec 16)) (ucdTag : Fin 4 → BitVec 8) (ucdRevision : BitVec 32)

def tableOffset : BmpTable → ℕ
  | .upcase => 176 + align8 text.length
  | .lowcase => 176 + align8 text.length + bmpTableSize
  | .props => 176 + align8 text.length + 2 * bmpTableSize

def tableChunk (t : BmpTable) : Chunk := ⟨tableId t, u16TableBytes (words t), 0, 2, bmpLen, tableOffset text t, bmpTableSize⟩

def textChunk : Chunk := ⟨chunkIdMeta, text, 0, 0, 0, 176, text.length⟩

def placedChunks : List Chunk :=
  [textChunk text, tableChunk text words .upcase, tableChunk text words .lowcase, tableChunk text words .props]

def fileEnd : ℕ := 176 + align8 text.length + 3 * bmpTableSize

/-- The file has its header, its table of contents, and each chunk at its offset. -/
structure Written (data : Bytes) : Prop where
  length : data.length = fileEnd text
  header : HasAt data 0 (headerXnls (fileEnd text) 48 4 32 ucdTag ucdRevision)
  toc : HasAt data 48 ((placedChunks text words).flatMap Chunk.tocEntry)
  chunks : ∀ ch ∈ placedChunks text words, HasAt data ch.offset ch.data

end File

variable {text : Bytes} {words : BmpTable → List (BitVec 16)} {ucdTag : Fin 4 → BitVec 8} {ucdRevision : BitVec 32}

theorem length_headerXnls (fileSize tocOffset chunkCount tocEntrySize : ℕ) :
    (headerXnls fileSize tocOffset chunkCount tocEntrySize ucdTag ucdRevision).length = 48 := by
  simp only [headerXnls, List.length_append, length_leBytes, List.length_ofFn]
  rfl

theorem length_tocEntry {ch : Chunk} (hid : ch.id.length = 4) : ch.tocEntry.length = 32 := by
  simp only [Chunk.tocEntry, List.length_append, length_leBytes, hid]

theorem length_id {ch : Chunk} (hch : ch ∈ placedChunks text words) : ch.id.length = 4 := by
  simp only [placedChunks, List.mem_cons, List.not_mem_nil, or_false] at hch
  rcases hch with rfl | rfl | rfl | rfl <;> rfl

theorem fileEnd_lt (htext : text.length < 2 ^ 63) : fileEnd text < 2 ^ 64 := by
  have hbounds := align8_bounds text.length
  unfold fileEnd bmpTableSize
  omega

theorem layout_eq (htext : text.length < 2 ^ 63) (hwords : ∀ t, (words t).length = bmpLen) :
    layout 176 [⟨chunkIdMeta, text, 0, 0, 0, 0, 0⟩, ⟨chunkIdUup1, u16TableBytes (words .upcase), 0, 2, bmpLen, 0, 0⟩,
        ⟨chunkIdUlo1, u16TableBytes (words .lowcase), 0, 2, bmpLen, 0, 0⟩,
        ⟨chunkIdPrp1, u16TableBytes (words .props), 0, 2, bmpLen, 0, 0⟩] =
      some (placedChunks text words, fileEnd text) := by
  have hfits (n : ℕ) (h : n ≤ fileEnd text) : unsigned 64 n = some n := if_pos (h.trans_lt (fileEnd_lt htext))
  have hlength (t : BmpTable) : (u16TableBytes (words t)).length = bmpTableSize := by
    rw [length_u16TableBytes, hwords]
    rfl
  have hdvd := dvd_align8 text.length
  have hsize : 8 ∣ bmpTableSize := by decide
  have halign (n : ℕ) (h : 8 ∣ n) : align8 (176 + align8 text.length + n) = 176 + align8 text.length + n :=
    align8_of_dvd (by omega)
  have h1 := halign 0 (by omega)
  have h2 := halign bmpTableSize (by omega)
  have h3 := halign (2 * bmpTableSize) (by omega)
  rw [Nat.add_zero] at h1
  have htable : align8 bmpTableSize = bmpTableSize := align8_of_dvd hsize
  unfold fileEnd at hfits
  simp only [layout, hlength, htable, show align8 176 = 176 from rfl]
  rw [hfits _ (by omega), Option.bind_some, h1, hfits _ (by omega), Option.bind_some, h2, hfits _ (by omega),
    Option.bind_some, show 176 + align8 text.length + bmpTableSize + bmpTableSize = 176 + align8 text.length + 2 * bmpTableSize by omega, h3,
    hfits _ (by omega)]
  simp only [Option.bind_some, Option.map_some, placedChunks, textChunk, tableChunk, tableId, tableOffset, fileEnd]
  rw [show 176 + align8 text.length + 2 * bmpTableSize + bmpTableSize = 176 + align8 text.length + 3 * bmpTableSize by omega]

theorem laid_placedChunks (hwords : ∀ t, (words t).length = bmpLen) : Laid 176 (placedChunks text words) (fileEnd text) := by
  have htable (t : BmpTable) : align8 (tableChunk text words t).data.length = bmpTableSize := by
    rw [tableChunk, length_u16TableBytes, hwords]
    rfl
  simp only [placedChunks, Laid, htable]
  simp only [tableChunk, textChunk, tableOffset, fileEnd, true_and]
  omega

theorem build_written (htext : text.length < 2 ^ 63) (hwords : ∀ t, (words t).length = bmpLen) :
    ∃ data, buildXnlsV1 text (words .upcase) (words .lowcase) (words .props) ucdTag ucdRevision = some data ∧
      Written text words ucdTag ucdRevision data := by
  have htoc : ((placedChunks text words).flatMap Chunk.tocEntry).length = 128 := by
    have hid (ch : Chunk) (hch : ch ∈ placedChunks text words) := length_tocEntry (length_id hch)
    simp only [placedChunks, List.mem_cons, List.not_mem_nil, or_false, forall_eq_or_imp, forall_eq] at hid
    simp only [placedChunks, List.flatMap_cons, List.flatMap_nil, List.length_append, List.length_nil, hid]
  have hstart : (List.replicate 48 0 ++ (placedChunks text words).flatMap Chunk.tocEntry : Bytes).length = 176 := by
    rw [List.length_append, List.length_replicate, htoc]
  have hpad := length_pad8 (List.replicate 48 0 ++ (placedChunks text words).flatMap Chunk.tocEntry)
  rw [hstart, show align8 176 = 176 from rfl] at hpad
  obtain ⟨tail, hfold, hlength, hchunks⟩ := writeChunks_spec (by rw [hpad]; decide)
    (show Laid _ (placedChunks text words) (fileEnd text) by rw [hpad]; exact laid_placedChunks hwords)
  set out := pad8 (List.replicate 48 0 ++ (placedChunks text words).flatMap Chunk.tocEntry) ++ tail with hout
  set header := headerXnls (fileEnd text) 48 4 32 ucdTag ucdRevision with hdef
  have hheader : header.length = 48 := length_headerXnls ..
  have hrestart {offset : ℕ} {bytes : Bytes} (h : HasAt out offset bytes) (hle : 48 ≤ offset) :
      HasAt (header ++ out.drop 48) offset bytes := by
    rw [← hheader]
    exact h.restart (by omega)
  refine ⟨header ++ out.drop 48, ?_, ?_, List.prefix_append _ _, ?_, fun ch hch => hrestart (hchunks ch hch) ?_⟩
  · rw [buildXnlsV1, if_neg (by simp only [hwords]; decide)]
    dsimp only
    simp only [List.length_cons, List.length_nil]
    rw [show align8 (48 + (0 + 1 + 1 + 1 + 1) * 32) = 176 from rfl, layout_eq htext hwords, Option.bind_some]
    dsimp only
    rw [hfold, Option.bind_some, if_neg (by rw [hlength]; exact fun h => h rfl)]
    rfl
  · have hbounds := align8_bounds text.length
    rw [List.length_append, List.length_drop, hlength, hheader]
    unfold fileEnd
    omega
  · refine hrestart ?_ le_rfl
    have hat := hasAt_end (List.replicate 48 0) ((placedChunks text words).flatMap Chunk.tocEntry)
    rw [List.length_replicate] at hat
    rw [hout, pad8, List.append_assoc]
    exact hat.extend _
  · simp only [placedChunks, List.mem_cons, List.not_mem_nil, or_false] at hch
    rcases hch with rfl | rfl | rfl | rfl <;> simp only [textChunk, tableChunk, tableOffset] <;> omega

theorem entryOf_eq {data : Bytes} {toc k : ℕ} {ch : Chunk} (h : HasAt data (toc + k * 32) ch.tocEntry) (hid : ch.id.length = 4)
    (hoffset : ch.offset < 2 ^ 64) (hlength : ch.length < 2 ^ 64)
    (hwords : ch.flags < 2 ^ 32 ∧ ch.elemSize < 2 ^ 32 ∧ ch.elemCount < 2 ^ 32) :
    entryOf data toc k = ⟨ch.id, ch.offset, ch.length, ch.flags, ch.elemSize, ch.elemCount⟩ := by
  simp only [Chunk.tocEntry, hasAt_append, List.length_append, length_leBytes, hid] at h
  obtain ⟨⟨⟨⟨⟨h0, h1⟩, h2⟩, h3⟩, h4⟩, h5⟩ := h
  rw [entryOf, tocEntryAt, xnlsTocEntrySize, h0.bytesAt hid]
  exact congr (congr (congr (congr (congrArg _ (h1.readLe (by decide) hoffset)) (h2.readLe (by decide) hlength))
    (h3.readLe (by decide) hwords.1)) (h4.readLe (by decide) hwords.2.1)) (h5.readLe (by decide) hwords.2.2)

theorem parseHeader_eq {data : Bytes} {fileSize tocOffset chunkCount : ℕ}
    (h : HasAt data 0 (headerXnls fileSize tocOffset chunkCount 32 ucdTag ucdRevision)) (hsize : fileSize < 2 ^ 64)
    (htoc : tocOffset < 2 ^ 64) (hcount : chunkCount < 2 ^ 32) (hle : fileSize ≤ data.length) :
    parseHeader data = .ok ⟨fileSize, tocOffset, chunkCount, 32⟩ := by
  have hlength := h.le (by rw [length_headerXnls]; decide)
  rw [length_headerXnls] at hlength
  simp only [headerXnls, hasAt_append, List.length_append, length_leBytes, show xnlsMagic.length = 4 from rfl,
    Nat.zero_add] at h
  obtain ⟨⟨⟨⟨⟨⟨⟨⟨⟨⟨⟨h0, h1⟩, h2⟩, h3⟩, h4⟩, h5⟩, h6⟩, h7⟩, -⟩, -⟩, -⟩, -⟩ := h
  have hfileSize : readU64Le data 0x08 = fileSize := h4.readLe (by decide) hsize
  have htocOffset : readU64Le data 0x10 = tocOffset := h5.readLe (by decide) htoc
  have hchunkCount : readU32Le data 0x18 = chunkCount := h6.readLe (by decide) hcount
  have hentrySize : readU32Le data 0x1C = 32 := h7.readLe (by decide) (by decide)
  have hmagic : bytesAt data 0 4 = xnlsMagic := h0.bytesAt rfl
  have hversion : readU16Le data 0x04 = xnlsVersion := h1.readLe (by decide) (by decide)
  have hendian : readLe 1 data 0x06 = 1 := h2.readLe (by decide) (by decide)
  have hheaderSize : readLe 1 data 0x07 = xnlsHeaderSize := h3.readLe (by decide) (by decide)
  unfold parseHeader
  rw [if_neg (by unfold xnlsHeaderSize; omega), if_neg (not_not_intro hmagic), if_neg (not_not_intro hversion),
    if_neg (not_not_intro hendian), if_neg (not_not_intro hheaderSize), hfileSize, htocOffset, hchunkCount, hentrySize,
    if_neg (Nat.not_lt.2 hle)]
  exact if_neg (not_not_intro rfl)

theorem tableOf_tableId (t : BmpTable) : tableOf (tableId t) = some t := by
  cases t <;> decide

theorem Accepted.sumsFit {data : Bytes} {toc i : ℕ} (h : Accepted data toc i) (hlength : data.length < 2 ^ 64) :
    SumsFit data toc i :=
  ⟨lt_of_le_of_lt h.inside hlength, fun _ hsome _ => lt_of_le_of_lt (h.table hsome).2 hlength⟩

theorem eq_zero_or_tableIndex {k : ℕ} (hk : k < 4) : k = 0 ∨ ∃ t, k = tableIndex t := by
  obtain rfl | rfl | rfl | rfl : k = 0 ∨ k = 1 ∨ k = 2 ∨ k = 3 := by omega
  · exact .inl rfl
  · exact .inr ⟨.upcase, rfl⟩
  · exact .inr ⟨.lowcase, rfl⟩
  · exact .inr ⟨.props, rfl⟩

theorem tableIndex_lt (t : BmpTable) : tableIndex t < 4 := by
  cases t <;> decide

theorem tableOffset_le (text : Bytes) (t : BmpTable) : tableOffset text t + bmpTableSize ≤ fileEnd text := by
  unfold fileEnd
  cases t <;> simp only [tableOffset] <;> omega

namespace Written

variable {data : Bytes} (h : Written text words ucdTag ucdRevision data) (htext : text.length < 2 ^ 63)
include h htext

theorem entries : entryOf data 48 0 = ⟨chunkIdMeta, 176, text.length, 0, 0, 0⟩ ∧
    ∀ t, entryOf data 48 (tableIndex t) = ⟨tableId t, tableOffset text t, bmpTableSize, 0, 2, bmpLen⟩ := by
  have hid (ch : Chunk) (hch : ch ∈ placedChunks text words) := length_id hch
  have htoc := h.toc
  have hentry (ch : Chunk) (hch : ch ∈ placedChunks text words) := length_tocEntry (hid ch hch)
  simp only [placedChunks, List.mem_cons, List.not_mem_nil, or_false, forall_eq_or_imp, forall_eq] at hid hentry
  simp only [placedChunks, List.flatMap_cons, List.flatMap_nil, hasAt_append, hentry] at htoc
  have hend := fileEnd_lt htext
  have hplace (t : BmpTable) : tableOffset text t < 2 ^ 64 :=
    lt_of_le_of_lt ((Nat.le_add_right _ _).trans (tableOffset_le text t)) hend
  have htable (t : BmpTable) (hat : HasAt data (48 + tableIndex t * 32) (tableChunk text words t).tocEntry) :
      entryOf data 48 (tableIndex t) = ⟨tableId t, tableOffset text t, bmpTableSize, 0, 2, bmpLen⟩ :=
    entryOf_eq hat (by cases t <;> rfl) (hplace t) (show bmpTableSize < 2 ^ 64 by decide)
      (show 0 < 2 ^ 32 ∧ 2 < 2 ^ 32 ∧ bmpLen < 2 ^ 32 by decide)
  refine ⟨entryOf_eq (show HasAt data (48 + 0 * 32) (textChunk text).tocEntry from htoc.1) rfl (show 176 < 2 ^ 64 by decide)
    (htext.trans (by decide)) (show 0 < 2 ^ 32 ∧ 0 < 2 ^ 32 ∧ 0 < 2 ^ 32 by decide), fun t => ?_⟩
  cases t with
  | upcase => exact htable _ htoc.2.1
  | lowcase => exact htable _ htoc.2.2.1
  | props => exact htable _ htoc.2.2.2.1

theorem tableOf_entry {k : ℕ} (hk : k < 4) (t : BmpTable) : tableOf (entryOf data 48 k).id = some t ↔ k = tableIndex t := by
  obtain ⟨htextEntry, htable⟩ := h.entries htext
  rcases eq_zero_or_tableIndex hk with rfl | ⟨t', rfl⟩
  · rw [htextEntry]
    dsimp only
    cases t <;> decide
  · rw [htable, tableOf_tableId]
    cases t <;> cases t' <;> decide

theorem parses : parseXnls data = some (.ok (tableOffset text)) := by
  have hend := fileEnd_lt htext
  have hheader := parseHeader_eq h.header hend (by decide) (by decide) h.length.ge
  obtain ⟨htextEntry, htable⟩ := h.entries htext
  have haccepted (k : ℕ) (hk : k < 4) : Accepted data 48 k := by
    have hinside : entryEnd 48 k ≤ data.length := by
      have hlength := h.length
      unfold entryEnd xnlsTocEntrySize
      unfold fileEnd at hlength
      omega
    rcases eq_zero_or_tableIndex hk with rfl | ⟨t, rfl⟩
    · have hnone : tableOf (entryOf data 48 0).id = none := by
        rw [htextEntry]
        exact show tableOf chunkIdMeta = none by decide
      exact ⟨hinside, fun hno => absurd hnone hno⟩
    · refine ⟨hinside, fun _ => ?_⟩
      rw [htable]
      exact ⟨⟨rfl, rfl, rfl⟩, h.length ▸ tableOffset_le text t⟩
  rw [parseXnls, hheader]
  dsimp only
  have hspec := parseEntries_spec data 48 0 4 fun _ => none
  rw [Nat.zero_add] at hspec
  rcases hspec with ⟨⟨k, -, hk, -, hno⟩, -⟩ | ⟨-, ⟨hnot, -⟩ | ⟨-, after, heq, hlast⟩⟩
  · exact absurd ((haccepted k hk).sumsFit (h.length ▸ hend)) hno
  · exact absurd (fun j _ hj => haccepted j hj) hnot
  have hafter (t : BmpTable) : after t = some (tableOffset text t) := by
    rcases hlast t with ⟨k, hk, hafter⟩ | ⟨hnone, -⟩
    · rw [hafter, (h.tableOf_entry htext hk.lt_stop t).1 hk.table, htable]
    · exact absurd ((h.tableOf_entry htext (tableIndex_lt t) t).2 rfl) (hnone _ (Nat.zero_le _) (tableIndex_lt t))
  rw [heq, Option.map_some]
  rcases requireTables_cases after with ⟨⟨t, hnone⟩, -⟩ | ⟨tables, hok, htables⟩
  · rw [hafter] at hnone
    cases hnone
  · rw [Except.bind, hok]
    exact congrArg (fun f => some (Except.ok f)) (funext fun t => Option.some.inj ((htables t).symm.trans (hafter t)))

end Written

/-- The file of these tables is read, and each pointer leads to its table. -/
def RoundTrips (text : Bytes) (upper lower props : List (BitVec 16)) (ucdTag : Fin 4 → BitVec 8)
    (ucdRevision : BitVec 32) : Prop :=
  ∃ data tables, buildXnlsV1 text upper lower props ucdTag ucdRevision = some data ∧
    parseXnls data = some (.ok tables) ∧ ∀ c < bmpElemCount,
      readU16Le data (tables .upcase + 2 * c) = (upper.getD c 0).toNat ∧
      readU16Le data (tables .lowcase + 2 * c) = (lower.getD c 0).toNat ∧
      readU16Le data (tables .props + 2 * c) = (props.getD c 0).toNat

theorem roundTrips (htext : text.length < 2 ^ 63) (hwords : ∀ t, (words t).length = bmpLen) :
    RoundTrips text (words .upcase) (words .lowcase) (words .props) ucdTag ucdRevision := by
  obtain ⟨data, hbuild, h⟩ : ∃ data, _ ∧ Written text words ucdTag ucdRevision data := build_written htext hwords
  have hread (t : BmpTable) (ht : tableChunk text words t ∈ placedChunks text words) (c : ℕ) (hc : c < bmpElemCount) :
      readU16Le data (tableOffset text t + 2 * c) = ((words t).getD c 0).toNat :=
    (h.chunks _ ht).readU16Le (by rw [hwords]; exact hc)
  exact ⟨data, tableOffset text, hbuild, h.parses htext, fun c hc => ⟨hread _ (by simp [placedChunks]) c hc,
    hread _ (by simp [placedChunks]) c hc, hread _ (by simp [placedChunks]) c hc⟩⟩

/-- What is written is read back; and any bytes are read safely exactly if no header is accepted, or the entries
that are reached keep their sums in 64 bits and the last of each table places it at an even offset in the file. -/
theorem nlsFile_exact (data text : Bytes) (upper lower props : List (BitVec 16)) (ucdTag : Fin 4 → BitVec 8)
    (ucdRevision : BitVec 32) :
    (text.length < 2 ^ 63 → upper.length = bmpLen → lower.length = bmpLen → props.length = bmpLen →
      RoundTrips text upper lower props ucdTag ucdRevision) ∧
      (ReadsSafely data ↔ ∀ header, parseHeader data = .ok header → PlacesTables data header) := by
  refine ⟨fun htext hupper hlower hprops => ?_, readsSafely_iff data⟩
  let words : BmpTable → List (BitVec 16)
    | .upcase => upper
    | .lowcase => lower
    | .props => props
  have hwords (t : BmpTable) : (words t).length = bmpLen := by cases t <;> assumption
  exact roundTrips htext hwords

theorem nlsFile_constantTables :
    RoundTrips [0x41] (List.replicate bmpLen 0) (List.replicate bmpLen 1) (List.replicate bmpLen 2) (fun _ => 0) 0 :=
  (nlsFile_exact [] _ _ _ _ _ _).1 (by decide) List.length_replicate List.length_replicate List.length_replicate

/-- A header whose table of contents is said to begin 16 bytes below `2 ^ 64`. -/
def highToc : Bytes := headerXnls 48 (2 ^ 64 - 16) 1 32 (fun _ => 0) 0

theorem highToc_overflows : ¬ ReadsSafely highToc := by
  rintro ⟨result, hresult, -⟩
  have hnone : parseXnls highToc = none := by decide
  rw [hnone] at hresult
  cases hresult

end XenOS.Rtl
