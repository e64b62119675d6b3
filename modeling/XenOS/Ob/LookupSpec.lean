import Mathlib.Data.List.TakeWhile
import XenOS.Ob.Lookup

/-! When a path lookup is the resolution of its name: not where a link is the last component, where
separators end a name behind an object, where a composed name exceeds 16 bits, or where a missing
component is reported out of a freed buffer. -/

namespace XenOS.Ob

open List

theorem dropWhile_isSeparator_idem (name : List WChar) :
    (name.dropWhile isSeparator).dropWhile isSeparator = name.dropWhile isSeparator := by
  cases h : name.dropWhile isSeparator with
  | nil => rfl
  | cons ch rest =>
    have hch : isSeparator ch = false := by
      have hhead := head?_dropWhile_not isSeparator name
      rwa [h] at hhead
    exact dropWhile_cons_of_neg (by rw [hch]; exact Bool.false_ne_true)

variable {name : List WChar}

theorem dropWhile_isSeparator_eq_nil : name.dropWhile isSeparator = [] ↔ name.all isSeparator := by
  rw [dropWhile_eq_nil_iff, all_eq_true]

theorem takeWhile_ne_nil (hname : name.dropWhile isSeparator ≠ []) :
    ((name.dropWhile isSeparator).takeWhile fun ch => !isSeparator ch) ≠ [] := by
  cases h : name.dropWhile isSeparator with
  | nil => exact absurd h hname
  | cons ch rest =>
    have hch : isSeparator ch = false := by
      have hhead := head?_dropWhile_not isSeparator name
      rwa [h] at hhead
    rw [takeWhile_cons_of_pos (by rw [hch]; rfl)]
    exact cons_ne_nil _ _

theorem length_dropWhile_lt (hname : name.dropWhile isSeparator ≠ []) :
    ((name.dropWhile isSeparator).dropWhile fun ch => !isSeparator ch).length < name.length := by
  have hle : (name.dropWhile isSeparator).length ≤ name.length := (dropWhile_suffix isSeparator).length_le
  have hlength := congrArg length
    (takeWhile_append_dropWhile (p := fun ch => !isSeparator ch) (l := name.dropWhile isSeparator))
  have hpos := length_pos_iff.2 (takeWhile_ne_nil hname)
  rw [length_append] at hlength
  omega

theorem head_behind (h : (name.dropWhile fun ch => !isSeparator ch) ≠ []) :
    (name.dropWhile fun ch => !isSeparator ch).head? = some separator := by
  cases hbehind : name.dropWhile fun ch => !isSeparator ch with
  | nil => exact absurd hbehind h
  | cons ch rest =>
    have hhead := head?_dropWhile_not (fun ch => !isSeparator ch) name
    rw [hbehind] at hhead
    have hch : isSeparator ch = true := by simpa using hhead
    rw [head?_cons, of_decide_eq_true hch]

namespace ObState

variable {P : Type} (s : ObState P) (c : LookupCaller P) (attributes : BitVec 32)

inductive Followed where
  | reached (object : ℕ) (behind : List WChar)
  | missing (behind : List WChar)
  | blocked
  | link (dir object : ℕ) (behind : List WChar)

/-- Component by component from a directory, up to the first symbolic link. -/
def follow (dir : ℕ) (rest : List WChar) : Followed :=
  let name := rest.dropWhile isSeparator
  if hname : name = [] then .reached dir []
  else
    let behind := name.dropWhile fun ch => !isSeparator ch
    match s.lookupEntry dir (name.takeWhile fun ch => !isSeparator ch) attributes with
    | none => .missing behind
    | some object =>
      if s.typeOf object = some s.directoryType then follow object behind
      else if s.typeOf object = some c.linkType ∧ attributes &&& objOpenlink = 0 then .link dir object behind
      else if behind.dropWhile isSeparator = [] then .reached object behind
      else .blocked
termination_by rest.length
decreasing_by
  have hlt := length_dropWhile_lt hname
  omega

structure Resolution where
  walked : List (List WChar)
  outcome : Option (Ntstatus × Option ℕ)

/-- A name of a `UNICODE_STRING`. -/
def NameFits (name : List WChar) : Prop := name.length * 2 < 2 ^ 16

instance (name : List WChar) : Decidable (NameFits name) := inferInstanceAs (Decidable (_ < _))

def expand (left link : ℕ) (behind : List WChar) : Except Ntstatus (List WChar) :=
  match (c.linkTarget link).buffer with
  | none => .error statusObjectNameNotFound
  | some target =>
    if target = [] then .error statusObjectNameNotFound
    else if !c.memory (8 - left) then .error statusInsufficientResources
    else .ok (target ++ behind)

/-- The name with its links replaced, at most `left` of them. -/
def resolve (left start : ℕ) (name : List WChar) : Resolution :=
  match s.follow c attributes (if name.head? = some separator then s.rootDirectory else start) name with
  | .reached object _ => ⟨[name], some (statusSuccess, some object)⟩
  | .missing behind =>
    ⟨[name], some (if behind.all isSeparator then statusObjectNameNotFound else statusObjectPathNotFound, none)⟩
  | .blocked => ⟨[name], some (statusObjectPathNotFound, none)⟩
  | .link dir link behind =>
    match expand c left link behind with
    | .error status => ⟨[name], some (status, none)⟩
    | .ok newName =>
      match left with
      | 0 => ⟨[name], some (statusObjectNameInvalid, none)⟩
      | left + 1 =>
        if NameFits newName then
          let resolution := resolve left dir newName
          ⟨name :: resolution.walked, resolution.outcome⟩
        else ⟨[name], none⟩

/-- The code finds nothing but separators behind a missing component. -/
def ReadsLast (owned : Bool) (name behind : List WChar) : Prop :=
  ((if owned then (range name.length).map (c.stale name) else name).drop (name.length - behind.length)).dropWhile
    isSeparator = []

instance (owned : Bool) (name behind : List WChar) : Decidable (ReadsLast c owned name behind) :=
  inferInstanceAs (Decidable (_ = _))

def walkEnd (depth : ℕ) (owned : Bool) (name : List WChar) : Followed → WalkEnd
  | .reached object behind =>
    if behind = [] then .done statusSuccess (some object) else .done statusObjectPathNotFound none
  | .missing behind =>
    if ReadsLast c owned name behind then .done statusObjectNameNotFound none else .done statusObjectPathNotFound none
  | .blocked => .done statusObjectPathNotFound none
  | .link dir link behind =>
    if behind = [] then .done statusSuccess (some link)
    else
      match s.obpParseSymbolicLink c attributes depth link behind dir with
      | .reparse name start => .reparse name start
      | .opened => .done statusObjectPathNotFound none
      | .failed status => .done status none

theorem follow_separators (dir : ℕ) {rest : List WChar} (hrest : rest.dropWhile isSeparator = []) :
    s.follow c attributes dir rest = .reached dir [] := by
  rw [follow, dif_pos hrest]

theorem parse_openlink {attributes : BitVec 32} (hopen : attributes &&& objOpenlink ≠ 0) (depth link context : ℕ)
    {remaining : List WChar} (hremaining : remaining ≠ []) :
    s.obpParseSymbolicLink c attributes depth link remaining context = .failed statusObjectPathNotFound := by
  rw [obpParseSymbolicLink, if_pos hopen, if_pos hremaining]

theorem walkSegments_eq (depth : ℕ) (owned : Bool) (name : List WChar) (dir : ℕ) (rest : List WChar)
    (hrest : rest.dropWhile isSeparator ≠ []) :
    s.walkSegments c attributes depth owned name dir (rest.dropWhile isSeparator) =
      s.walkEnd c attributes depth owned name (s.follow c attributes dir rest) := by
  induction hlength : rest.length using Nat.strong_induction_on generalizing dir rest with
  | _ length ih =>
    subst hlength
    rw [walkSegments, follow, dif_neg (takeWhile_ne_nil hrest), dif_neg hrest]
    cases hlookup : s.lookupEntry dir ((rest.dropWhile isSeparator).takeWhile fun ch => !isSeparator ch) attributes with
    | none => rfl
    | some object =>
      have hlt := length_dropWhile_lt hrest
      simp only []
      generalize (rest.dropWhile isSeparator).dropWhile (fun ch => !isSeparator ch) = behind at hlt ⊢
      by_cases hdirectory : s.typeOf object = some s.directoryType
      · rw [if_pos hdirectory, if_pos hdirectory]
        by_cases hbehind : behind = []
        · subst hbehind
          rw [if_pos rfl, follow_separators s c attributes object rfl]
          rfl
        · rw [if_neg hbehind]
          by_cases hnext : behind.dropWhile isSeparator = []
          · rw [if_pos hnext, follow_separators s c attributes object hnext]
            rfl
          · rw [if_neg hnext]
            exact ih behind.length (by omega) object behind hnext rfl
      · rw [if_neg hdirectory, if_neg hdirectory]
        by_cases hlink : s.typeOf object = some c.linkType ∧ attributes &&& objOpenlink = 0
        · rw [if_pos hlink, if_pos hlink.1]
          rfl
        · rw [if_neg hlink]
          by_cases hbehind : behind = []
          · subst hbehind
            rfl
          · rw [if_neg hbehind]
            trans WalkEnd.done statusObjectPathNotFound none
            · by_cases htype : s.typeOf object = some c.linkType
              · rw [if_pos htype, s.parse_openlink c (fun hopen => hlink ⟨htype, hopen⟩) depth object dir hbehind]
              · rw [if_neg htype]
            · by_cases hnext : behind.dropWhile isSeparator = []
              · rw [if_pos hnext]
                exact (if_neg hbehind).symm
              · rw [if_neg hnext]
                rfl

variable {behind : List WChar}

theorem parse_link {attributes : BitVec 32} (hopen : attributes &&& objOpenlink = 0)
    (left link context : ℕ) (hbehind : behind.head? = some separator) :
    s.obpParseSymbolicLink c attributes (8 - left) link behind context =
      match expand c left link behind with
      | .error status => .failed status
      | .ok name =>
        .reparse (name.take (name.length * 2 % 2 ^ 16 / 2))
          (if name.head? = some separator then s.rootDirectory else context) := by
  rw [obpParseSymbolicLink, if_neg (not_not.2 hopen), expand]
  cases (c.linkTarget link).buffer with
  | none => rfl
  | some target =>
    by_cases htarget : target = []
    · simp only [htarget, if_true]
    · by_cases hmemory : c.memory (8 - left) = true
      · simp [htarget, hmemory, hbehind]
      · simp [htarget, hmemory]

structure Resolved (result : LookupResult) (before : List (List WChar)) (resolution : Resolution) : Prop where
  walked : result.walked = before ++ resolution.walked
  outcome : match resolution.outcome with
    | some outcome => (result.status, result.object) = outcome
    | none => result.status ≠ statusSuccess ∧ result.object = none

/-- The last component is no link, no separators end a name behind an object, every composed name
fits, and a freed name reads as before behind a missing component. -/
def Plain (left : ℕ) (owned : Bool) (start : ℕ) (name : List WChar) : Prop :=
  match s.follow c attributes (if name.head? = some separator then s.rootDirectory else start) name with
  | .reached _ behind => behind = []
  | .missing behind => owned → (ReadsLast c owned name behind ↔ behind.all isSeparator)
  | .blocked => True
  | .link dir link behind =>
    behind ≠ [] ∧
      match expand c left link behind with
      | .error _ => True
      | .ok newName =>
        match left with
        | 0 => True
        | left + 1 => NameFits newName ∧ Plain left true dir newName

variable {start : ℕ}

theorem Plain.behind_ne_nil {s : ObState P} {c : LookupCaller P} {attributes : BitVec 32} {left dir link : ℕ}
    {owned : Bool} (h : s.Plain c attributes left owned start name)
    (hlink : s.follow c attributes (if name.head? = some separator then s.rootDirectory else start) name =
      .link dir link behind) : behind ≠ [] := by
  rw [Plain.eq_def, hlink] at h
  exact h.1

theorem skipRoot_dropWhile (name : List WChar) : (skipRoot name).dropWhile isSeparator = name.dropWhile isSeparator := by
  unfold skipRoot
  split
  · exact dropWhile_isSeparator_idem name
  · rfl

theorem lookupLoop_succ (referenced : Option ℕ) (left : ℕ) (owned : Option ℕ) (p : LookupProgress) (name : List WChar)
    (start : ℕ) (hstart : name.head? = some separator → start = s.rootDirectory) :
    s.lookupLoop c attributes referenced (left + 1) owned p name start =
      match s.walkEnd c attributes (8 - left) owned.isSome name
        (s.follow c attributes (if name.head? = some separator then s.rootDirectory else start) name) with
      | .done status object => leaveLookup owned referenced { p with walked := p.walked ++ [name] } status object
      | .reparse newName reparseStart =>
        s.lookupLoop c attributes referenced left (some p.allocated)
          { walked := p.walked ++ [name], allocated := p.allocated + 1, freed := p.freed ++ owned.toList } newName
          (if newName.head? = some separator then s.rootDirectory else reparseStart) := by
  have hdir : (if name.head? = some separator then s.rootDirectory else start) = start := by
    split_ifs with hhead
    · exact (hstart hhead).symm
    · rfl
  rw [hdir, lookupLoop]
  by_cases hname : name.dropWhile isSeparator = []
  · rw [follow_separators s c attributes start hname]
    simp only [skipRoot_dropWhile, hname, if_true, ite_self]
    rfl
  · have hskip : skipRoot name ≠ [] := by
      intro hskip
      apply hname
      rw [← skipRoot_dropWhile, hskip]
      rfl
    cases hwalk : s.walkEnd c attributes (8 - left) owned.isSome name (s.follow c attributes start name) with
    | done status object | reparse newName reparseStart =>
      simp only [skipRoot_dropWhile, hname, hskip, if_false, s.walkSegments_eq c attributes _ _ name start name hname, hwalk]

/-- What `follow` says about the rest of the name. -/
def Behind (rest : List WChar) : Followed → Prop
  | .missing behind => behind <:+ rest
  | .link _ _ behind => (behind ≠ [] → behind.head? = some separator) ∧ attributes &&& objOpenlink = 0
  | _ => True

theorem follow_behind (dir : ℕ) (rest : List WChar) : Behind attributes rest (s.follow c attributes dir rest) := by
  induction hlength : rest.length using Nat.strong_induction_on generalizing dir rest with
  | _ length ih =>
    subst hlength
    by_cases hrest : rest.dropWhile isSeparator = []
    · rw [follow_separators s c attributes dir hrest]
      trivial
    · rw [follow, dif_neg hrest]
      have hsuffix : ((rest.dropWhile isSeparator).dropWhile fun ch => !isSeparator ch) <:+ rest :=
        (dropWhile_suffix _).trans (dropWhile_suffix _)
      cases s.lookupEntry dir ((rest.dropWhile isSeparator).takeWhile fun ch => !isSeparator ch) attributes with
      | none => exact hsuffix
      | some object =>
        simp only []
        split_ifs with hdirectory hlink
        · have hlt := length_dropWhile_lt hrest
          have hnext := ih _ (by omega) object ((rest.dropWhile isSeparator).dropWhile fun ch => !isSeparator ch) rfl
          revert hnext
          cases s.follow c attributes object ((rest.dropWhile isSeparator).dropWhile fun ch => !isSeparator ch) with
          | missing behind => exact fun hnext => IsSuffix.trans hnext hsuffix
          | link => exact id
          | reached => exact id
          | blocked => exact id
        · exact ⟨head_behind, hlink.2⟩
        · trivial
        · trivial

theorem readsLast_not_owned (h : behind <:+ name) :
    ReadsLast c false name behind ↔ behind.all isSeparator := by
  obtain ⟨walked, rfl⟩ := h
  unfold ReadsLast
  rw [if_neg Bool.false_ne_true, length_append, Nat.add_sub_cancel, drop_left, dropWhile_isSeparator_eq_nil]

theorem resolve_walked (left start : ℕ) (name : List WChar) :
    ∃ more, (s.resolve c attributes left start name).walked = name :: more := by
  rw [resolve.eq_def]
  split
  · exact ⟨_, rfl⟩
  · exact ⟨_, rfl⟩
  · exact ⟨_, rfl⟩
  · split
    · exact ⟨_, rfl⟩
    · cases left with
      | zero => exact ⟨_, rfl⟩
      | succ left =>
        simp only []
        split_ifs
        · exact ⟨_, rfl⟩
        · exact ⟨_, rfl⟩

theorem lookupLoop_walked (referenced : Option ℕ) (left : ℕ) (owned : Option ℕ) (p : LookupProgress) (name : List WChar)
    (start : ℕ) : p.walked <+: (s.lookupLoop c attributes referenced left owned p name start).walked := by
  induction left generalizing owned p name start with
  | zero => exact prefix_rfl
  | succ left ih =>
    simp only [lookupLoop]
    split
    · exact prefix_append _ _
    · split
      · exact prefix_append _ _
      · split
        · exact prefix_append _ _
        · next newName reparseStart _ =>
          have hmore := ih (some p.allocated) ⟨p.walked ++ [name], p.allocated + 1, p.freed ++ owned.toList⟩ newName
            (if newName.head? = some separator then s.rootDirectory else reparseStart)
          exact (prefix_append p.walked [name]).trans hmore

theorem lookupLoop_walked_succ (referenced : Option ℕ) (left : ℕ) (owned : Option ℕ) (p : LookupProgress)
    (name : List WChar) (start : ℕ) :
    p.walked ++ [name] <+: (s.lookupLoop c attributes referenced (left + 1) owned p name start).walked := by
  simp only [lookupLoop]
  split
  · exact prefix_rfl
  · split
    · exact prefix_rfl
    · split
      · exact prefix_rfl
      · exact s.lookupLoop_walked c attributes referenced left (some p.allocated)
          ⟨p.walked ++ [name], p.allocated + 1, p.freed ++ owned.toList⟩ _ _

theorem resolved_cons {result : LookupResult} {before : List (List WChar)} {resolution : Resolution} :
    Resolved result before ⟨name :: resolution.walked, resolution.outcome⟩ ↔
      Resolved result (before ++ [name]) resolution := by
  constructor
  · exact fun h => ⟨h.walked.trans (append_cons _ _ _), h.outcome⟩
  · exact fun h => ⟨h.walked.trans (append_cons _ _ _).symm, h.outcome⟩

theorem NameFits.take_eq (h : NameFits name) : name.take (name.length * 2 % 2 ^ 16 / 2) = name := by
  apply take_of_length_le
  rw [Nat.mod_eq_of_lt h, Nat.mul_div_cancel _ Nat.two_pos]

theorem start_idem (dir : ℕ) (name : List WChar) :
    (if name.head? = some separator then s.rootDirectory
    else if name.head? = some separator then s.rootDirectory else dir) =
      if name.head? = some separator then s.rootDirectory else dir := by
  split_ifs
  · rfl
  · rfl

theorem resolve_start (left dir : ℕ) (name : List WChar) :
    s.resolve c attributes left dir name =
      s.resolve c attributes left (if name.head? = some separator then s.rootDirectory else dir) name := by
  rw [resolve.eq_def, resolve.eq_def s c attributes left (if name.head? = some separator then s.rootDirectory else dir)]
  rw [s.start_idem]

theorem plain_start (left : ℕ) (owned : Bool) (dir : ℕ) (name : List WChar) :
    s.Plain c attributes left owned dir name =
      s.Plain c attributes left owned (if name.head? = some separator then s.rootDirectory else dir) name := by
  rw [Plain.eq_def, Plain.eq_def s c attributes left owned (if name.head? = some separator then s.rootDirectory else dir)]
  rw [s.start_idem]

theorem lookupLoop_resolved_iff (referenced : Option ℕ) (left : ℕ) (owned : Option ℕ) (p : LookupProgress)
    (name : List WChar) (start : ℕ) (hstart : name.head? = some separator → start = s.rootDirectory) :
    Resolved (s.lookupLoop c attributes referenced (left + 1) owned p name start) p.walked
      (s.resolve c attributes left start name) ↔ s.Plain c attributes left owned.isSome start name := by
  induction left using Nat.strong_induction_on generalizing owned p name start with
  | _ left ih =>
    rw [s.lookupLoop_succ c attributes referenced _ owned p name start hstart, resolve.eq_def, Plain.eq_def]
    have hbehind := s.follow_behind c attributes (if name.head? = some separator then s.rootDirectory else start) name
    revert hbehind
    cases s.follow c attributes (if name.head? = some separator then s.rootDirectory else start) name with
    | reached object behind =>
      intro _
      by_cases hnil : behind = []
      · subst hnil
        exact iff_of_true ⟨rfl, rfl⟩ rfl
      · rw [walkEnd, if_neg hnil]
        refine iff_of_false (fun h => ?_) hnil
        have hstatus : statusObjectPathNotFound ≠ statusSuccess := by decide
        exact hstatus (congrArg Prod.fst h.outcome)
    | missing behind =>
      intro hsuffix
      have hstatus : statusObjectNameNotFound ≠ statusObjectPathNotFound := by decide
      trans ReadsLast c owned.isSome name behind ↔ behind.all isSeparator
      · rw [walkEnd]
        by_cases hread : ReadsLast c owned.isSome name behind
        · by_cases hlast : behind.all isSeparator = true
          · simp only [if_pos hread, if_pos hlast]
            exact iff_of_true ⟨rfl, rfl⟩ (iff_of_true hread hlast)
          · simp only [if_pos hread, if_neg hlast]
            exact iff_of_false (fun h => hstatus (congrArg Prod.fst h.outcome)) fun h => hlast (h.1 hread)
        · by_cases hlast : behind.all isSeparator = true
          · simp only [if_neg hread, if_pos hlast]
            exact iff_of_false (fun h => hstatus (congrArg Prod.fst h.outcome).symm) fun h => hread (h.2 hlast)
          · simp only [if_neg hread, if_neg hlast]
            exact iff_of_true ⟨rfl, rfl⟩ (iff_of_false hread hlast)
      · cases owned with
        | none => exact iff_of_true (readsLast_not_owned c hsuffix) fun h => Bool.noConfusion h
        | some buffer => exact ⟨fun h _ => h, fun h => h rfl⟩
    | blocked =>
      intro _
      exact iff_of_true ⟨rfl, rfl⟩ trivial
    | link dir link behind =>
      rintro ⟨hhead, hopen⟩
      by_cases hnil : behind = []
      · subst hnil
        refine iff_of_false ?_ fun h => h.1 rfl
        rw [walkEnd, if_pos rfl]
        dsimp only
        cases expand c left link [] with
        | error status => exact fun h => Option.some_ne_none link (congrArg Prod.snd h.outcome)
        | ok newName =>
          cases left with
          | zero => exact fun h => Option.some_ne_none link (congrArg Prod.snd h.outcome)
          | succ left =>
            simp only []
            split_ifs with hfits
            · intro h
              obtain ⟨more, hmore⟩ := s.resolve_walked c attributes left dir newName
              have hwalked : p.walked ++ [name] = p.walked ++ name :: (s.resolve c attributes left dir newName).walked :=
                h.walked
              rw [append_cancel_left_eq, hmore] at hwalked
              cases hwalked
            · exact fun h => h.outcome.1 rfl
      · simp only [walkEnd, if_neg hnil, s.parse_link c hopen left link dir (hhead hnil)]
        cases hexpand : expand c left link behind with
        | error status => exact iff_of_true ⟨rfl, rfl⟩ ⟨hnil, trivial⟩
        | ok newName =>
          cases left with
          | zero => exact iff_of_true ⟨rfl, rfl⟩ ⟨hnil, trivial⟩
          | succ left =>
            simp only []
            by_cases hfits : NameFits newName
            · rw [if_pos hfits, hfits.take_eq, resolved_cons]
              trans s.Plain c attributes left true dir newName
              · rw [s.resolve_start c attributes left dir newName, s.plain_start c attributes left true dir newName]
                rw [s.start_idem]
                apply ih left (Nat.lt_succ_self left) (some p.allocated)
                  ⟨p.walked ++ [name], p.allocated + 1, p.freed ++ owned.toList⟩
                exact fun habsolute => if_pos habsolute
              · exact ⟨fun h => ⟨hnil, hfits, h⟩, fun h => h.2.2⟩
            · rw [if_neg hfits]
              refine iff_of_false (fun h => ?_) fun h => hfits h.2.1
              have hprefix := s.lookupLoop_walked_succ c attributes referenced left (some p.allocated)
                ⟨p.walked ++ [name], p.allocated + 1, p.freed ++ owned.toList⟩
                (newName.take (newName.length * 2 % 2 ^ 16 / 2))
                (if (newName.take (newName.length * 2 % 2 ^ 16 / 2)).head? = some separator then s.rootDirectory
                else if newName.head? = some separator then s.rootDirectory else dir)
              have hlength := hprefix.length_le
              rw [show (s.lookupLoop c attributes referenced (left + 1) _ _ _ _).walked = p.walked ++ [name] from
                h.walked] at hlength
              simp at hlength

theorem lookupLoop_accounts (referenced : Option ℕ) (left : ℕ) (owned : Option ℕ) (p : LookupProgress)
    (name : List WChar) (start : ℕ) (hp : p.freed ++ owned.toList = range p.allocated) :
    let result := s.lookupLoop c attributes referenced left owned p name start
    result.freed = range result.allocated ∧ result.released = referenced.toList := by
  induction left generalizing owned p name start with
  | zero => exact ⟨hp, rfl⟩
  | succ left ih =>
    simp only [lookupLoop]
    split
    · exact ⟨hp, rfl⟩
    · split
      · exact ⟨hp, rfl⟩
      · split
        · exact ⟨hp, rfl⟩
        · apply ih
          change (p.freed ++ owned.toList) ++ [p.allocated] = range (p.allocated + 1)
          rw [hp, range_succ]

/-- The reference that is taken for the name in the attributes, and its resolution; at most 8 links
are replaced. -/
def resolveAttributes (attributes : ObjectAttributes) : Option ℕ × Resolution :=
  match attributes.objectName with
  | none => (none, ⟨[], some (statusInvalidParameter, none)⟩)
  | some objectName =>
    match objectName.buffer with
    | none => (none, ⟨[], some (statusObjectNameInvalid, none)⟩)
    | some name =>
      if name = [] then (none, ⟨[], some (statusObjectNameInvalid, none)⟩)
      else
        match s.startDirectory c attributes name with
        | .error status => (none, ⟨[], some (status, none)⟩)
        | .ok (start, referenced) =>
          (referenced,
            if start = 0 then ⟨[], some (statusObjectPathNotFound, none)⟩
            else s.resolve c attributes.attributes 8 start name)

/-- The lookup is the resolution of the name, it frees each buffer once, and it releases the
reference of the root directory. -/
structure LooksUp (attributes : ObjectAttributes) : Prop where
  resolved : Resolved (s.obpLookupObjectName c attributes) [] (s.resolveAttributes c attributes).2
  freed : (s.obpLookupObjectName c attributes).freed = range (s.obpLookupObjectName c attributes).allocated
  released : (s.obpLookupObjectName c attributes).released = (s.resolveAttributes c attributes).1.toList

def PlainAttributes (attributes : ObjectAttributes) : Prop :=
  match attributes.objectName.bind UnicodeString.buffer with
  | none => True
  | some name =>
    name ≠ [] → ∀ start referenced, s.startDirectory c attributes name = .ok (start, referenced) → start ≠ 0 →
      s.Plain c attributes.attributes 8 false start name

theorem startDirectory_absolute {attributes : ObjectAttributes} {referenced : Option ℕ}
    (hstart : s.startDirectory c attributes name = .ok (start, referenced))
    (habsolute : name.head? = some separator) :
    start = s.rootDirectory := by
  rw [startDirectory, if_pos habsolute] at hstart
  cases hstart
  rfl

theorem looksUp_plain_iff {attributes : ObjectAttributes} {referenced : Option ℕ}
    (hname : attributes.objectName = some ⟨some name⟩) (hne : name ≠ [])
    (hstart : s.startDirectory c attributes name = .ok (start, referenced)) (hzero : start ≠ 0) :
    s.LooksUp c attributes ↔ s.Plain c attributes.attributes 8 false start name := by
  have hlookup : s.obpLookupObjectName c attributes =
      s.lookupLoop c attributes.attributes referenced 9 none {} name start := by
    simp only [obpLookupObjectName, hname, hstart, if_neg hne, if_neg hzero]
  have hreference : s.resolveAttributes c attributes = (referenced, s.resolve c attributes.attributes 8 start name) := by
    simp only [resolveAttributes, hname, hstart, if_neg hne, if_neg hzero]
  have haccounts := s.lookupLoop_accounts c attributes.attributes referenced 9 none {} name start rfl
  have hresolved := s.lookupLoop_resolved_iff c attributes.attributes referenced 8 none {} name start
    (s.startDirectory_absolute c hstart)
  constructor
  · intro h
    have hlooked := h.resolved
    rw [hlookup, hreference] at hlooked
    exact hresolved.1 hlooked
  · intro h
    refine ⟨?_, ?_, ?_⟩
    · rw [hlookup, hreference]
      exact hresolved.2 h
    · rw [hlookup]
      exact haccounts.1
    · rw [hlookup, hreference]
      exact haccounts.2

theorem looksUp_exit {attributes : ObjectAttributes} (status : Ntstatus) (referenced : Option ℕ)
    (hlookup : s.obpLookupObjectName c attributes = leaveLookup none referenced {} status none)
    (hreference : s.resolveAttributes c attributes = (referenced, ⟨[], some (status, none)⟩)) : s.LooksUp c attributes := by
  constructor
  · rw [hlookup, hreference]
    exact ⟨rfl, rfl⟩
  · rw [hlookup]
    rfl
  · rw [hlookup, hreference]
    rfl

/-- The lookup is the resolution of the name exactly where the names that it walks are plain. -/
theorem looksUp_iff (attributes : ObjectAttributes) : s.LooksUp c attributes ↔ s.PlainAttributes c attributes := by
  cases hname : attributes.objectName with
  | none =>
    rw [PlainAttributes, hname]
    refine iff_of_true ?_ trivial
    apply s.looksUp_exit c statusInvalidParameter none
    · simp only [obpLookupObjectName, hname]
      rfl
    · simp only [resolveAttributes, hname]
  | some objectName =>
    obtain ⟨buffer⟩ := objectName
    cases buffer with
    | none =>
      rw [PlainAttributes, hname]
      refine iff_of_true ?_ trivial
      apply s.looksUp_exit c statusObjectNameInvalid none
      · simp only [obpLookupObjectName, hname]
        rfl
      · simp only [resolveAttributes, hname]
    | some name =>
      rw [PlainAttributes, hname]
      change _ ↔ (name ≠ [] → _)
      by_cases hne : name = []
      · refine iff_of_true ?_ fun h => absurd hne h
        apply s.looksUp_exit c statusObjectNameInvalid none
        · simp only [obpLookupObjectName, hname, if_pos hne]
          rfl
        · simp only [resolveAttributes, hname, if_pos hne]
      · cases hstart : s.startDirectory c attributes name with
        | error status =>
          refine iff_of_true ?_ fun _ _ _ h => by cases h
          apply s.looksUp_exit c status none
          · simp only [obpLookupObjectName, hname, if_neg hne, hstart]
            rfl
          · simp only [resolveAttributes, hname, if_neg hne, hstart]
        | ok started =>
          obtain ⟨start, referenced⟩ := started
          by_cases hzero : start = 0
          · refine iff_of_true ?_ fun _ start' referenced' h hstart' => ?_
            · apply s.looksUp_exit c statusObjectPathNotFound referenced
              · simp only [obpLookupObjectName, hname, if_neg hne, hstart, if_pos hzero]
              · simp only [resolveAttributes, hname, if_neg hne, hstart, if_pos hzero]
            · cases h
              exact absurd hzero hstart'
          · rw [s.looksUp_plain_iff c hname hne hstart hzero]
            constructor
            · intro h _ start' referenced' hstart' _
              cases hstart'
              exact h
            · exact fun h => h hne start referenced rfl hzero

/-- The root directory 1 with the symbolic link `A`, which is the object 2. -/
def linkedRoot : ObState Unit where
  headers o :=
    if o = 1 then some { typePtr := 3 }
    else if o = 2 then some { typePtr := 4, nameInfo := some ⟨some [0x41#16]⟩ } else none
  types _ := {}
  directories o := if o = 1 then some ⟨Function.update (fun _ => []) 28 [⟨2, 0x41#32⟩]⟩ else none
  rootDirectory := 1
  directoryType := 3
  tables _ := none
  reaperList := []
  upcaseTable := none

/-- The link stands for the root directory. -/
def linkedCaller : LookupCaller Unit := ⟨none, 0, 0, 4, fun _ => ⟨some [separator]⟩, fun _ => true, fun _ _ => 0⟩

/-- `\A` gives the link, not the root directory. -/
theorem last_link_returned : linkedRoot.obpLookupObjectName linkedCaller ⟨0, some ⟨some [separator, 0x41#16]⟩, 0⟩ =
      { status := statusSuccess, object := some 2, walked := [[separator, 0x41#16]] } ∧
    ¬ linkedRoot.LooksUp linkedCaller ⟨0, some ⟨some [separator, 0x41#16]⟩, 0⟩ := by
  have hfollow : linkedRoot.follow linkedCaller 0 1 [separator, 0x41#16] = .link 1 2 [] := by
    rw [follow, dif_neg (by decide)]
    rfl
  constructor
  · change linkedRoot.lookupLoop linkedCaller 0 none (8 + 1) none {} [separator, 0x41#16] 1 = _
    rw [linkedRoot.lookupLoop_succ linkedCaller 0 none 8 none {} [separator, 0x41#16] 1 fun _ => rfl]
    change (match linkedRoot.walkEnd linkedCaller 0 0 false [separator, 0x41#16]
      (linkedRoot.follow linkedCaller 0 1 [separator, 0x41#16]) with | .done _ _ => _ | .reparse _ _ => _) = _
    rw [hfollow]
    rfl
  · rw [linkedRoot.looksUp_plain_iff linkedCaller rfl (cons_ne_nil _ _) rfl Nat.one_ne_zero]
    exact fun h => h.behind_ne_nil hfollow rfl

end ObState

end XenOS.Ob
