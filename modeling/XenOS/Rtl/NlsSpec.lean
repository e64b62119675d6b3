import XenOS.Rtl.Nls

/-! The NLS file round-trips, and what the reader makes of any bytes. It adds fields of the file
before it compares them with the length, and compares the tables with the slice, not the file size. -/

namespace XenOS.Rtl

open General Function

/-- The bytes stand in the file at the offset. -/
def HasAt (data : Bytes) (offset : ℕ) (bytes : Bytes) : Prop := bytes <+: data.drop offset

variable {data bytes : Bytes} {offset n v : ℕ}

theorem hasAt_append {front back : Bytes} :
    HasAt data offset (front ++ back) ↔ HasAt data offset front ∧ HasAt data (offset + front.length) back := by
  constructor
  · rintro ⟨rest, hrest⟩
    have hdrop : data.drop (offset + front.length) = back ++ rest := by
      rw [← List.drop_drop, ← hrest, List.append_assoc, List.drop_left]
    exact ⟨⟨back ++ rest, by rw [← hrest, List.append_assoc]⟩, ⟨rest, hdrop.symm⟩⟩
  · rintro ⟨⟨middle, hmiddle⟩, rest, hrest⟩
    rw [← List.drop_drop, ← hmiddle, List.drop_left] at hrest
    exact ⟨rest, by rw [List.append_assoc, hrest, hmiddle]⟩

theorem HasAt.bytesAt (h : HasAt data offset bytes) (hn : bytes.length = n) : bytesAt data offset n = bytes := by
  rw [Rtl.bytesAt, ← hn]
  exact (List.prefix_iff_eq_take.1 h).symm

theorem HasAt.le (h : HasAt data offset bytes) (hbytes : 0 < bytes.length) : offset + bytes.length ≤ data.length := by
  have hle := h.length_le
  rw [List.length_drop] at hle
  omega

theorem HasAt.readLe (h : HasAt data offset (leBytes n v)) (hn : 0 < n) (hv : v < 256 ^ n) : readLe n data offset = v := by
  have hle := h.le (by rwa [length_leBytes])
  rw [length_leBytes] at hle
  rw [Rtl.readLe, if_neg (Nat.not_lt.2 hle), h.bytesAt (length_leBytes n v), leNat_leBytes hv]

theorem HasAt.extend (h : HasAt data offset bytes) (tail : Bytes) : HasAt (data ++ tail) offset bytes := by
  obtain ⟨rest, hrest⟩ := h
  by_cases hle : offset ≤ data.length
  · exact ⟨rest ++ tail, by rw [List.drop_append_of_le_length hle, ← hrest, List.append_assoc]⟩
  · rw [List.drop_eq_nil_of_le (by omega), List.append_eq_nil_iff] at hrest
    rw [hrest.1]
    exact List.nil_prefix

theorem hasAt_end (front bytes : Bytes) : HasAt (front ++ bytes) front.length bytes :=
  ⟨[], by rw [List.append_nil, List.drop_left]⟩

/-- Another start of the file, as long as the one before it. -/
theorem HasAt.restart (h : HasAt data offset bytes) {start : Bytes} (hle : start.length ≤ offset) :
    HasAt (start ++ data.drop start.length) offset bytes := by
  rw [HasAt, List.drop_append, List.drop_eq_nil_of_le hle, List.nil_append, List.drop_drop,
    Nat.add_sub_cancel' hle]
  exact h

theorem HasAt.readU16Le {words : List (BitVec 16)} (h : HasAt data offset (u16TableBytes words)) {c : ℕ}
    (hc : c < words.length) : readU16Le data (offset + 2 * c) = (words.getD c 0).toNat := by
  induction words generalizing offset c with
  | nil => simp at hc
  | cons w words ih =>
    rw [u16TableBytes, List.flatMap_cons, hasAt_append, length_leBytes] at h
    cases c with
    | zero => exact h.1.readLe (by decide) w.isLt
    | succ c =>
      have hword := ih h.2 (Nat.lt_of_succ_lt_succ hc)
      rw [show offset + 2 * (c + 1) = offset + 2 + 2 * c by omega, hword, List.getD_cons_succ]

theorem length_u16TableBytes (words : List (BitVec 16)) : (u16TableBytes words).length = 2 * words.length := by
  induction words with
  | nil => rfl
  | cons w words ih =>
    rw [u16TableBytes, List.flatMap_cons, List.length_append, length_leBytes, List.length_cons]
    rw [u16TableBytes] at ih
    omega

/-- An entry of one of the tables has the right sizes. -/
def XnlsTocEntry.Sized (entry : XnlsTocEntry) : Prop :=
  entry.elemSize = bmpElemSize ∧ entry.elemCount = bmpElemCount ∧ entry.length = bmpTableSize

section Entries
variable (data : Bytes) (toc i : ℕ)

def entryEnd : ℕ := toc + i * xnlsTocEntrySize + xnlsTocEntrySize

def entryOf : XnlsTocEntry := tocEntryAt data (toc + i * xnlsTocEntrySize)

/-- The sums of the entry: its own end, and that of the table it names once the sizes are right. -/
structure SumsFit : Prop where
  entry : entryEnd toc i < 2 ^ 64
  table : entryEnd toc i ≤ data.length → tableOf (entryOf data toc i).id ≠ none → (entryOf data toc i).Sized →
    (entryOf data toc i).offset + bmpTableSize < 2 ^ 64

structure Accepted : Prop where
  inside : entryEnd toc i ≤ data.length
  table : tableOf (entryOf data toc i).id ≠ none →
    (entryOf data toc i).Sized ∧ (entryOf data toc i).offset + bmpTableSize ≤ data.length

/-- The pointers after an entry that is accepted. -/
def foundWith (found : BmpTable → Option ℕ) (t : BmpTable) : Option ℕ :=
  if tableOf (entryOf data toc i).id = some t then some (entryOf data toc i).offset else found t

end Entries

variable {toc i : ℕ} {found : BmpTable → Option ℕ} {entry : XnlsTocEntry}

theorem validateBmpChunk_sized (h : entry.Sized) :
    validateBmpChunk entry data = (unsigned 64 (entry.offset + bmpTableSize)).map fun chunkEnd =>
      if data.length < chunkEnd then .error statusNlsChunkInvalid else .ok entry.offset := by
  rw [validateBmpChunk, if_neg (not_not_intro h.1), if_neg (not_not_intro h.2.1), if_neg (not_not_intro h.2.2), h.2.2]

theorem validateBmpChunk_not_sized (h : ¬ entry.Sized) :
    validateBmpChunk entry data = some (.error statusNlsChunkInvalid) := by
  unfold validateBmpChunk
  split_ifs with hsize hcount hlength
  · rfl
  · rfl
  · rfl
  · exact absurd ⟨not_not.1 hsize, not_not.1 hcount, not_not.1 hlength⟩ h

theorem parseTocEntry_eq : (unsigned 64 (toc + i * xnlsTocEntrySize)).bind (parseTocEntry data) =
    if entryEnd toc i < 2 ^ 64 then
      some (if data.length < entryEnd toc i then .error statusNlsParseError else .ok (entryOf data toc i))
    else none := by
  unfold unsigned entryEnd
  split_ifs with hstart hend
  · rw [Option.bind_some, parseTocEntry, unsigned, if_pos hend, Option.map_some, if_pos ‹_›]
  · rw [Option.bind_some, parseTocEntry, unsigned, if_pos hend, Option.map_some, if_neg ‹_›]
    rfl
  · rw [Option.bind_some, parseTocEntry, unsigned, if_neg hend]
    rfl
  all_goals first | omega | rfl

/-- What a round does: it panics, refuses the entry, or takes its table. -/
theorem parseEntry_cases (data : Bytes) (toc i : ℕ) (found : BmpTable → Option ℕ) :
    ¬ SumsFit data toc i ∧ parseEntry data toc i found = none ∨
      SumsFit data toc i ∧ ¬ Accepted data toc i ∧ (∃ status, parseEntry data toc i found = some (.error status)) ∨
      SumsFit data toc i ∧ Accepted data toc i ∧ parseEntry data toc i found = some (.ok (foundWith data toc i found)) := by
  rw [parseEntry, parseTocEntry_eq]
  by_cases hentry : entryEnd toc i < 2 ^ 64
  case neg => exact .inl ⟨fun h => hentry h.entry, by rw [if_neg hentry]⟩
  rw [if_pos hentry]
  by_cases hinside : entryEnd toc i ≤ data.length
  case neg =>
    rw [if_pos (Nat.not_le.1 hinside)]
    exact .inr (.inl ⟨⟨hentry, fun h => absurd h hinside⟩, fun h => hinside h.inside, _, rfl⟩)
  rw [if_neg (Nat.not_lt.2 hinside)]
  dsimp only
  cases htable : tableOf (entryOf data toc i).id with
  | none =>
    have hfound : foundWith data toc i found = found := by
      funext t
      rw [foundWith, htable, if_neg (by simp)]
    exact .inr (.inr ⟨⟨hentry, fun _ h => absurd htable h⟩, ⟨hinside, fun h => absurd htable h⟩, by rw [hfound]⟩)
  | some table =>
    have hsome : tableOf (entryOf data toc i).id ≠ none := by simp [htable]
    dsimp only
    by_cases hsized : (entryOf data toc i).Sized
    case neg =>
      rw [validateBmpChunk_not_sized hsized]
      exact .inr (.inl ⟨⟨hentry, fun _ _ h => absurd h hsized⟩, fun h => hsized (h.table hsome).1, _, rfl⟩)
    rw [validateBmpChunk_sized hsized, unsigned]
    by_cases hfits : (entryOf data toc i).offset + bmpTableSize < 2 ^ 64
    case neg =>
      rw [if_neg hfits]
      exact .inl ⟨fun h => hfits (h.table hinside hsome hsized), rfl⟩
    rw [if_pos hfits, Option.map_some, Option.map_some]
    by_cases hlast : (entryOf data toc i).offset + bmpTableSize ≤ data.length
    case neg =>
      rw [if_pos (Nat.not_le.1 hlast)]
      exact .inr (.inl ⟨⟨hentry, fun _ _ _ => hfits⟩, fun h => hlast (h.table hsome).2, statusNlsChunkInvalid, rfl⟩)
    refine .inr (.inr ⟨⟨hentry, fun _ _ _ => hfits⟩, ⟨hinside, fun _ => ⟨hsized, hlast⟩⟩, ?_⟩)
    rw [if_neg (Nat.not_lt.2 hlast)]
    refine congrArg (fun f => some (Except.ok f)) (funext fun t => ?_)
    dsimp only
    rw [foundWith, htable, update_apply]
    simp only [Option.some.injEq, eq_comm]

/-- The last entry of a table among the entries from `i` up to `stop`. -/
structure IsLast (data : Bytes) (toc i stop : ℕ) (t : BmpTable) (k : ℕ) : Prop where
  first_le : i ≤ k
  lt_stop : k < stop
  table : tableOf (entryOf data toc k).id = some t
  last : ∀ j, k < j → j < stop → tableOf (entryOf data toc j).id ≠ some t

/-- The pointers found are those of the last entries. -/
def FindsLast (data : Bytes) (toc i stop : ℕ) (found after : BmpTable → Option ℕ) : Prop :=
  ∀ t, (∃ k, IsLast data toc i stop t k ∧ after t = some (entryOf data toc k).offset) ∨
    (∀ k, i ≤ k → k < stop → tableOf (entryOf data toc k).id ≠ some t) ∧ after t = found t

theorem FindsLast.cons {stop : ℕ} {after : BmpTable → Option ℕ} (hi : i < stop)
    (h : FindsLast data toc (i + 1) stop (foundWith data toc i found) after) : FindsLast data toc i stop found after := by
  intro t
  rcases h t with ⟨k, hk, hafter⟩ | ⟨hnone, hafter⟩
  · exact .inl ⟨k, ⟨Nat.le_of_succ_le hk.first_le, hk.lt_stop, hk.table, hk.last⟩, hafter⟩
  · by_cases htable : tableOf (entryOf data toc i).id = some t
    · rw [foundWith, if_pos htable] at hafter
      exact .inl ⟨i, ⟨le_rfl, hi, htable, hnone⟩, hafter⟩
    · rw [foundWith, if_neg htable] at hafter
      refine .inr ⟨fun k hk hstop => ?_, hafter⟩
      rcases Nat.eq_or_lt_of_le hk with rfl | hlt
      · exact htable
      · exact hnone k hlt hstop

/-- The entries are accepted, up to the one at `k`. -/
def Reached (data : Bytes) (toc i k : ℕ) : Prop := ∀ j, i ≤ j → j < k → Accepted data toc j

theorem parseEntries_spec (data : Bytes) (toc i n : ℕ) (found : BmpTable → Option ℕ) :
    (∃ k, i ≤ k ∧ k < i + n ∧ Reached data toc i k ∧ ¬ SumsFit data toc k) ∧ parseEntries data toc i n found = none ∨
      (∀ k, i ≤ k → k < i + n → Reached data toc i k → SumsFit data toc k) ∧
        (¬ Reached data toc i (i + n) ∧ (∃ status, parseEntries data toc i n found = some (.error status)) ∨
          Reached data toc i (i + n) ∧ ∃ after, parseEntries data toc i n found = some (.ok after) ∧
            FindsLast data toc i (i + n) found after) := by
  induction n generalizing i found with
  | zero =>
    refine .inr ⟨fun k hk hstop => absurd hk (Nat.not_le.2 hstop), .inr ⟨fun j hj hstop => absurd hj (Nat.not_le.2 hstop),
      found, rfl, fun t => .inr ⟨fun k hk hstop => absurd hk (Nat.not_le.2 hstop), rfl⟩⟩⟩
  | succ n ih =>
    have hfirst : Reached data toc i i := fun j hj hstop => absurd hj (Nat.not_le.2 hstop)
    have hless : i < i + (n + 1) := by omega
    rw [parseEntries]
    rcases parseEntry_cases data toc i found with ⟨hsums, heq⟩ | ⟨hsums, hnot, status, heq⟩ | ⟨hsums, haccepted, heq⟩
    · rw [heq]
      exact .inl ⟨⟨i, le_rfl, hless, hfirst, hsums⟩, rfl⟩
    · rw [heq]
      refine .inr ⟨fun k hk _ hreached => ?_, .inl ⟨fun h => hnot (h i le_rfl hless), status, rfl⟩⟩
      rcases Nat.eq_or_lt_of_le hk with rfl | hlt
      · exact hsums
      · exact absurd (hreached i le_rfl hlt) hnot
    · rw [heq]
      have hreached (k : ℕ) : Reached data toc (i + 1) k → Reached data toc i k := fun h j hj hk => by
        rcases Nat.eq_or_lt_of_le hj with rfl | hlt
        · exact haccepted
        · exact h j hlt hk
      have hdrop (k : ℕ) (h : Reached data toc i k) : Reached data toc (i + 1) k := fun j hj => h j (Nat.le_of_succ_le hj)
      have hstop : i + 1 + n = i + (n + 1) := by omega
      have hrest := ih (i + 1) (foundWith data toc i found)
      rw [hstop] at hrest
      dsimp only
      rcases hrest with ⟨⟨k, hk, hlt, hr, hs⟩, hnone⟩ | ⟨hall, hrest⟩
      · exact .inl ⟨⟨k, Nat.le_of_succ_le hk, hlt, hreached k hr, hs⟩, hnone⟩
      · refine .inr ⟨fun k hk hlt hr => ?_, ?_⟩
        · rcases Nat.eq_or_lt_of_le hk with rfl | hk'
          · exact hsums
          · exact hall k hk' hlt (hdrop k hr)
        · rcases hrest with ⟨hnot, herror⟩ | ⟨hr, after, hafter, hlast⟩
          · exact .inl ⟨fun h => hnot (hdrop _ h), herror⟩
          · exact .inr ⟨hreached _ hr, after, hafter, hlast.cons hless⟩

/-- The reader returns, and gives only tables that lie at even offsets in the declared file. -/
def ReadsSafely (data : Bytes) : Prop :=
  ∃ result, parseXnls data = some result ∧ ∀ tables, result = .ok tables →
    readU64Le data 0x08 ≤ data.length ∧
      ∀ t, 2 ∣ tables t ∧ tables t + bmpTableSize ≤ readU64Le data 0x08

/-- No sum leaves 64 bits at an entry that is reached, and where all entries are accepted and each table has one,
the last one of each places the table right. -/
structure PlacesTables (data : Bytes) (header : XnlsHeader) : Prop where
  sums : ∀ k < header.chunkCount, Reached data header.tocOffset 0 k → SumsFit data header.tocOffset k
  tables : Reached data header.tocOffset 0 header.chunkCount →
    (∀ t, ∃ k, IsLast data header.tocOffset 0 header.chunkCount t k) → ∀ t k,
      IsLast data header.tocOffset 0 header.chunkCount t k → 2 ∣ (entryOf data header.tocOffset k).offset ∧
        (entryOf data header.tocOffset k).offset + bmpTableSize ≤ header.fileSize

theorem requireTables_cases (found : BmpTable → Option ℕ) :
    (∃ t, found t = none) ∧ (requireTables found = .error statusNlsChunkMissing) ∨
      ∃ tables, requireTables found = .ok tables ∧ ∀ t, found t = some (tables t) := by
  rw [requireTables]
  cases hupcase : found .upcase with
  | none => exact .inl ⟨⟨_, hupcase⟩, rfl⟩
  | some upcase =>
    cases hlowcase : found .lowcase with
    | none => exact .inl ⟨⟨_, hlowcase⟩, rfl⟩
    | some lowcase =>
      cases hprops : found .props with
      | none => exact .inl ⟨⟨_, hprops⟩, rfl⟩
      | some props => exact .inr ⟨_, rfl, fun t => by cases t <;> assumption⟩

theorem parseHeader_ok {header : XnlsHeader} (h : parseHeader data = .ok header) :
    header.fileSize = readU64Le data 0x08 ∧ header.fileSize ≤ data.length := by
  unfold parseHeader at h
  split_ifs at h with h1 h2 h3 h4 h5 h6 h7
  cases h
  exact ⟨rfl, Nat.not_lt.1 h6⟩

theorem IsLast.unique {stop k k' : ℕ} {t : BmpTable} (h : IsLast data toc i stop t k) (h' : IsLast data toc i stop t k') :
    k = k' :=
  Nat.le_antisymm (Nat.not_lt.1 fun hlt => h'.last k hlt h.lt_stop h.table)
    (Nat.not_lt.1 fun hlt => h.last k' hlt h'.lt_stop h'.table)

theorem readsSafely_iff (data : Bytes) :
    ReadsSafely data ↔ ∀ header, parseHeader data = .ok header → PlacesTables data header := by
  rw [ReadsSafely, parseXnls]
  cases hheader : parseHeader data with
  | error status => exact iff_of_true ⟨_, rfl, fun _ h => by cases h⟩ fun _ h => by cases h
  | ok header =>
    obtain ⟨hsize, hle⟩ := parseHeader_ok hheader
    simp only [Except.ok.injEq, forall_eq']
    have hspec := parseEntries_spec data header.tocOffset 0 header.chunkCount fun _ => none
    rw [Nat.zero_add] at hspec
    rcases hspec with ⟨⟨k, -, hk, hreached, hsums⟩, heq⟩ | ⟨hsums, hspec⟩
    · rw [heq]
      refine iff_of_false (fun h => ?_) fun h => hsums (h.sums k hk hreached)
      obtain ⟨result, hresult, -⟩ := h
      cases hresult
    have hsums' : ∀ k < header.chunkCount, Reached data header.tocOffset 0 k → SumsFit data header.tocOffset k :=
      fun k => hsums k (Nat.zero_le k)
    rcases hspec with ⟨hnot, status, heq⟩ | ⟨hreached, after, heq, hlast⟩
    · rw [heq]
      exact iff_of_true ⟨_, rfl, fun _ h => by cases h⟩ ⟨hsums', fun h => absurd h hnot⟩
    rw [heq, Option.map_some]
    rcases requireTables_cases after with ⟨⟨t, hnone⟩, hmissing⟩ | ⟨tables, hok, htables⟩
    · refine iff_of_true ⟨_, rfl, fun _ h => ?_⟩ ⟨hsums', fun _ hall => ?_⟩
      · rw [Except.bind, hmissing] at h
        cases h
      · rcases hlast t with ⟨k, hk, hafter⟩ | ⟨hno, -⟩
        · rw [hnone] at hafter
          cases hafter
        · obtain ⟨k, hk⟩ := hall t
          exact absurd hk.table (hno k (Nat.zero_le k) hk.lt_stop)
    · have hplaced (t : BmpTable) : ∃ k, IsLast data header.tocOffset 0 header.chunkCount t k ∧
          tables t = (entryOf data header.tocOffset k).offset := by
        rcases hlast t with ⟨k, hk, hafter⟩ | ⟨-, hafter⟩
        · exact ⟨k, hk, Option.some.inj ((htables t).symm.trans hafter)⟩
        · rw [htables t] at hafter
          cases hafter
      rw [← hsize]
      constructor
      · rintro ⟨result, hresult, hright⟩
        obtain rfl := Option.some.inj hresult
        have hright := (hright tables hok).2
        refine ⟨hsums', fun _ _ t k hk => ?_⟩
        obtain ⟨k', hk', heq'⟩ := hplaced t
        rw [hk.unique hk', ← heq']
        exact hright t
      · intro h
        refine ⟨_, rfl, fun tables' htables' => ⟨hle, fun t => ?_⟩⟩
        obtain rfl : tables = tables' := Except.ok.inj (hok.symm.trans htables')
        obtain ⟨k, hk, heq'⟩ := hplaced t
        rw [heq']
        exact h.tables hreached (fun t => (hplaced t).imp fun _ h => h.1) t k hk

end XenOS.Rtl
