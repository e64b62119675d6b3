import XenOS.Ob.Types

/-! Object directories (`ob/dir.rs`, `rtl/unicode.rs`): names are hashed by their upcase
characters into chains, and an entry keeps the hash its name had when it was inserted. -/

namespace XenOS.Ob

def rtlUpcaseCharAscii (ch : WChar) : WChar := if 0x61#16 ≤ ch ∧ ch ≤ 0x7A#16 then ch - 32#16 else ch

/-- `rtl_upcase_unicode_char`; `table` is the installed table, if there is one. -/
def rtlUpcaseUnicodeChar (table : Option UpcaseTable) (ch : WChar) : WChar :=
  match table with
  | some table => table ch
  | none => rtlUpcaseCharAscii ch

/-- The loop of `rtl_compare_unicode_string`, and the comparison of the lengths after it. -/
def compareChars (table : Option UpcaseTable) (caseInsensitive : Bool) : List WChar → List WChar → Ordering
  | [], [] => .eq
  | [], _ :: _ => .lt
  | _ :: _, [] => .gt
  | c1 :: s1, c2 :: s2 =>
    let c1 := if caseInsensitive then rtlUpcaseUnicodeChar table c1 else c1
    let c2 := if caseInsensitive then rtlUpcaseUnicodeChar table c2 else c2
    if c1 ≠ c2 then (if c1 < c2 then .lt else .gt) else compareChars table caseInsensitive s1 s2

/-- `rtl_compare_unicode_string`. A null buffer is compared as a pointer: it is the
smallest one. -/
def rtlCompareUnicodeString (table : Option UpcaseTable) (s1 s2 : UnicodeString) (caseInsensitive : Bool) : Ordering :=
  match s1.buffer, s2.buffer with
  | some s1, some s2 => compareChars table caseInsensitive s1 s2
  | none, none => .eq
  | none, some _ => .lt
  | some _, none => .gt

def rtlEqualUnicodeString (table : Option UpcaseTable) (s1 s2 : UnicodeString) (caseInsensitive : Bool) : Bool :=
  rtlCompareUnicodeString table s1 s2 caseInsensitive = .eq

/-- One character of `obp_hash_object_name`. -/
def hashChar (table : Option UpcaseTable) (hash : BitVec 32) (ch : WChar) : BitVec 32 :=
  hash + ((hash <<< 1) + (hash >>> 1)) + (rtlUpcaseUnicodeChar table ch).setWidth 32

def obpHashObjectName (table : Option UpcaseTable) (name : UnicodeString) : BitVec 32 :=
  match name.buffer with
  | none => 0
  | some chars => chars.foldl (hashChar table) 0

/-- `OBP_LOOKUP_CONTEXT`: the object found, and the link where the search stopped, as a
bucket and a position in its chain. -/
structure ObpLookupContext where
  object : Option ℕ := none
  entry : Option (ℕ × ℕ) := none
  hashValue : BitVec 32 := 0

def entryMatches (headers : ℕ → Option ObjectHeader) (table : Option UpcaseTable) (name : UnicodeString)
    (caseInsensitive : Bool) (hashValue : BitVec 32) (entry : ObjectDirectoryEntry) : Bool :=
  match (headers entry.object).bind ObjectHeader.nameInfo with
  | none => false
  | some objectName =>
    entry.hashValue = hashValue && rtlEqualUnicodeString table objectName name caseInsensitive

/-- The walk along a chain: the object found, and the position where the walk stopped.
A deleted object has no name any more. -/
def searchChain (entryMatch : ObjectDirectoryEntry → Bool) : List ObjectDirectoryEntry → Option ℕ × ℕ
  | [] => (none, 0)
  | entry :: chain =>
    if entry.object ≠ 0 ∧ entryMatch entry then (some entry.object, 0)
    else
      let (object, position) := searchChain entryMatch chain
      (object, position + 1)

theorem searchChain_some {entryMatch : ObjectDirectoryEntry → Bool} {chain : List ObjectDirectoryEntry} {o : ℕ}
    (h : (searchChain entryMatch chain).1 = some o) : ∃ entry ∈ chain, entryMatch entry = true ∧ entry.object = o := by
  induction chain with
  | nil => cases h
  | cons entry chain ih =>
    rw [searchChain] at h
    split_ifs at h with hentry
    · exact ⟨entry, List.mem_cons_self, hentry.2, Option.some.inj h⟩
    · obtain ⟨found, hmem, hfound⟩ := ih h
      exact ⟨found, List.mem_cons_of_mem entry hmem, hfound⟩

/-- `obp_lookup_entry_directory`: it is true when the context has an object. -/
def obpLookupEntryDirectory (headers : ℕ → Option ObjectHeader) (table : Option UpcaseTable)
    (directory : ObjectDirectory) (name : UnicodeString) (attributes : BitVec 32) : ObpLookupContext :=
  match name.buffer with
  | none => {}
  | some _ =>
    let caseInsensitive : Bool := attributes &&& objCaseInsensitive ≠ 0
    let hashValue := obpHashObjectName table name
    let hashIndex := hashValue.toNat % obpHashTableSize
    let (object, position) :=
      searchChain (entryMatches headers table name caseInsensitive hashValue) (directory.hashBuckets hashIndex)
    { object, entry := some (hashIndex, position), hashValue }

theorem obpLookupEntryDirectory_named {headers : ℕ → Option ObjectHeader} {table : Option UpcaseTable}
    {directory : ObjectDirectory} {name : UnicodeString} {attributes : BitVec 32} {o : ℕ}
    (h : (obpLookupEntryDirectory headers table directory name attributes).object = some o) :
    ((headers o).bind ObjectHeader.nameInfo).isSome := by
  unfold obpLookupEntryDirectory at h
  split at h
  · cases h
  · obtain ⟨entry, -, hmatch, rfl⟩ := searchChain_some h
    unfold entryMatches at hmatch
    split at hmatch
    · cases hmatch
    · rename_i objectName hname
      rw [hname]
      rfl

/-- `obp_insert_entry_directory`, where the pool has an entry. Without a link to insert
at, the write faults. -/
def obpInsertEntryDirectory (directory : ObjectDirectory) (context : ObpLookupContext) (object : ℕ) :
    Option ObjectDirectory :=
  match context.entry with
  | none => none
  | some (bucket, position) =>
    let chain := directory.hashBuckets bucket
    let chain := chain.take position ++ ⟨object, context.hashValue⟩ :: chain.drop position
    some { hashBuckets := Function.update directory.hashBuckets bucket chain }

def obpDeleteEntryDirectory (directory : ObjectDirectory) (context : ObpLookupContext) : Option ObjectDirectory :=
  match context.entry with
  | none => none
  | some (bucket, position) =>
    let chain := directory.hashBuckets bucket
    if position < chain.length then
      some { hashBuckets := Function.update directory.hashBuckets bucket (chain.eraseIdx position) }
    else none

end XenOS.Ob
