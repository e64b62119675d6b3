import XenOS.Ob.Objects

/-! The walk along a path (`obp_lookup_object_name` in `ob/handle.rs`) and the parse procedure of
symbolic links (`ob/init.rs`). At a link with more of the name behind it the parser composes a new
name in a buffer of its own, and the walk starts over. An index into the name is modelled by what
lies behind it. File objects never stand in a directory. -/

namespace XenOS.Ob

open Ex

def statusObjectNameNotFound : Ntstatus := 0xC0000034#32

def objOpenlink : BitVec 32 := 0x00000100#32

/-- `\`. -/
def separator : WChar := 0x5C#16

def isSeparator (ch : WChar) : Bool := ch = separator

/-- The current process with its object and thread (0 is null), the links, whether the pool has a
buffer, and what a freed buffer reads as. -/
structure LookupCaller (P : Type) where
  process : Option P
  processObject : ℕ
  threadObject : ℕ
  linkType : ℕ
  linkTarget : ℕ → UnicodeString
  memory : ℕ → Bool
  stale : List WChar → ℕ → WChar

/-- The result; the names walked, the number of buffers, those freed and the objects released, in
order. -/
structure LookupResult where
  status : Ntstatus
  object : Option ℕ := none
  walked : List (List WChar) := []
  allocated : ℕ := 0
  freed : List ℕ := []
  released : List ℕ := []
  deriving DecidableEq

inductive ParseResult where
  | failed (status : Ntstatus)
  | opened
  | reparse (name : List WChar) (start : ℕ)

inductive WalkEnd where
  | done (status : Ntstatus) (object : Option ℕ)
  | reparse (name : List WChar) (start : ℕ)

structure LookupProgress where
  walked : List (List WChar) := []
  allocated : ℕ := 0
  freed : List ℕ := []

namespace ObState

variable {P : Type} (s : ObState P) (c : LookupCaller P)

def typeOf (o : ℕ) : Option ℕ := (s.headers o).map ObjectHeader.typePtr

/-- `ob_reference_object_by_handle` for a directory, in kernel mode. -/
def referenceDirectory (handle : ℕ) : Except Ntstatus ℕ :=
  let typed (o : ℕ) : Except Ntstatus ℕ :=
    if s.directoryType ≠ 0 ∧ s.typeOf o ≠ some s.directoryType then .error statusObjectTypeMismatch else .ok o
  if 2 ^ 63 ≤ handle then
    if handle = 2 ^ 64 - 1 then
      if c.processObject = 0 then .error statusInvalidHandle else typed c.processObject
    else if handle = 2 ^ 64 - 2 then
      if c.threadObject = 0 then .error statusInvalidHandle else typed c.threadObject
    else .error statusInvalidHandle
  else if handle = 0 then .error statusInvalidHandle
  else
    match s.tableFor (isKernelHandle handle) c.process with
    | none => .error statusInvalidHandle
    | some (_, table) =>
      match exMapHandleToPointerFull table handle with
      | none => .error statusInvalidHandle
      | some (o, _, _) => typed o

/-- The object that a directory has under a name. -/
def lookupEntry (dir : ℕ) (segment : List WChar) (attributes : BitVec 32) : Option ℕ :=
  if dir = 0 then none
  else
    (s.directories dir).bind fun directory =>
      (obpLookupEntryDirectory s.headers s.upcaseTable directory ⟨some segment⟩ attributes).object

/-- `obp_parse_symbolic_link`. The length of the new name is stored in 16 bits. -/
def obpParseSymbolicLink (attributes : BitVec 32) (depth link : ℕ) (remaining : List WChar) (context : ℕ) : ParseResult :=
  if attributes &&& objOpenlink ≠ 0 then
    if remaining ≠ [] then .failed statusObjectPathNotFound else .opened
  else
    match (c.linkTarget link).buffer with
    | none => .failed statusObjectNameNotFound
    | some target =>
      if target = [] then .failed statusObjectNameNotFound
      else
        let needSep : Bool := remaining ≠ [] ∧ target.getLast? ≠ some separator ∧ remaining.head? ≠ some separator
        let name := target ++ (if needSep then [separator] else []) ++ remaining
        if !c.memory depth then .failed statusInsufficientResources
        else
          .reparse (name.take (name.length * 2 % 2 ^ 16 / 2))
            (if name.head? = some separator then s.rootDirectory else context)

/-- The inner loop: from a segment in a directory to the next. A missing segment is reported after
the buffer of the name was freed. -/
def walkSegments (attributes : BitVec 32) (depth : ℕ) (owned : Bool) (name : List WChar) (dir : ℕ) (rest : List WChar) :
    WalkEnd :=
  let segment := rest.takeWhile fun ch => !isSeparator ch
  let after := rest.dropWhile fun ch => !isSeparator ch
  if hsegment : segment = [] then .done statusObjectNameInvalid none
  else
    match s.lookupEntry dir segment attributes with
    | none =>
      let read := if owned then (List.range name.length).map (c.stale name) else name
      if (read.drop (name.length - after.length)).dropWhile isSeparator = [] then .done statusObjectNameNotFound none
      else .done statusObjectPathNotFound none
    | some object =>
      if after = [] then .done statusSuccess (some object)
      else if s.typeOf object = some s.directoryType then
        let next := after.dropWhile isSeparator
        if next = [] then .done statusSuccess (some object)
        else walkSegments attributes depth owned name object next
      else if s.typeOf object = some c.linkType then
        match s.obpParseSymbolicLink c attributes depth object after dir with
        | .reparse name start => .reparse name start
        | .opened => .done statusObjectPathNotFound none
        | .failed status => .done status none
      else .done statusObjectPathNotFound none
termination_by rest.length
decreasing_by
  have hsplit : rest.takeWhile (fun ch => !isSeparator ch) ++ rest.dropWhile (fun ch => !isSeparator ch) = rest :=
    List.takeWhile_append_dropWhile
  have hlength := congrArg List.length hsplit
  have hpos : 0 < (rest.takeWhile fun ch => !isSeparator ch).length := List.length_pos_iff.2 hsegment
  have hle := (List.dropWhile_suffix (l := rest.dropWhile fun ch => !isSeparator ch) isSeparator).length_le
  simp only [List.length_append] at hlength
  omega

/-- What every exit does: free the buffer of the name, release the given root directory. -/
def leaveLookup (owned referenced : Option ℕ) (p : LookupProgress) (status : Ntstatus) (object : Option ℕ) : LookupResult :=
  ⟨status, object, p.walked, p.allocated, p.freed ++ owned.toList, referenced.toList⟩

def skipRoot (name : List WChar) : List WChar :=
  if name.head? = some separator then name.dropWhile isSeparator else name

/-- The outer loop, once for each name; `left` is 9 less the depth. -/
def lookupLoop (attributes : BitVec 32) (referenced : Option ℕ) :
    ℕ → Option ℕ → LookupProgress → List WChar → ℕ → LookupResult
  | 0, owned, p, _, _ => leaveLookup owned referenced p statusObjectNameInvalid none
  | left + 1, owned, p, name, start =>
    let p := { p with walked := p.walked ++ [name] }
    let rest := skipRoot name
    if rest = [] then leaveLookup owned referenced p statusSuccess (some start)
    else
      let rest := rest.dropWhile isSeparator
      if rest = [] then leaveLookup owned referenced p statusSuccess (some start)
      else
        match s.walkSegments c attributes (8 - left) owned.isSome name start rest with
        | .done status object => leaveLookup owned referenced p status object
        | .reparse newName reparseStart =>
          lookupLoop attributes referenced left (some p.allocated)
            { p with allocated := p.allocated + 1, freed := p.freed ++ owned.toList } newName
            (if newName.head? = some separator then s.rootDirectory else reparseStart)

def startDirectory (attributes : ObjectAttributes) (name : List WChar) : Except Ntstatus (ℕ × Option ℕ) :=
  if name.head? = some separator then .ok (s.rootDirectory, none)
  else if attributes.rootDirectory ≠ 0 then (s.referenceDirectory c attributes.rootDirectory).map fun o => (o, some o)
  else .ok (s.rootDirectory, none)

/-- `obp_lookup_object_name`; the root directory of the attributes is a handle here. -/
def obpLookupObjectName (attributes : ObjectAttributes) : LookupResult :=
  match attributes.objectName with
  | none => { status := statusInvalidParameter }
  | some objectName =>
    match objectName.buffer with
    | none => { status := statusObjectNameInvalid }
    | some name =>
      if name = [] then { status := statusObjectNameInvalid }
      else
        match s.startDirectory c attributes name with
        | .error status => { status }
        | .ok (start, referenced) =>
          if start = 0 then leaveLookup none referenced {} statusObjectPathNotFound none
          else s.lookupLoop c attributes.attributes referenced 9 none {} name start

end ObState

end XenOS.Ob
