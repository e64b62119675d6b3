import XenOS.Hive.AllocationSpec

/-! What the cells of a hive contain. A record is a cell with the fields at its start. What a
record tells lasts while its cell is owned and not written. -/

namespace XenOS.Hive

open General

def FieldsAt (f : ℕ → UInt8) : ℕ → List (ℕ × ℕ) → Prop
  | _, [] => True
  | p, (n, v) :: fields => leValue f p n = v % 256 ^ n ∧ FieldsAt f (p + n) fields

structure Rec where
  offset : ℕ
  size : ℕ
  fields : List (ℕ × ℕ)
deriving DecidableEq

namespace HiveBuilder

variable {b b' b₁ b₂ : HiveBuilder} {f g : ℕ → UInt8} {rs rs' : List Rec} {r : Rec} {fuel n p e l v v' : ℕ}
  {fields fields' pre post : List (ℕ × ℕ)}

theorem totalWidth_cons (n v : ℕ) (fields : List (ℕ × ℕ)) : totalWidth ((n, v) :: fields) = n + totalWidth fields := by
  simp [totalWidth]

theorem FieldsAt.congr (h : FieldsAt f p fields) (hsame : ∀ j, p ≤ j → j < p + totalWidth fields → g j = f j) :
    FieldsAt g p fields := by
  induction fields generalizing p with
  | nil => trivial
  | cons field fields ih =>
    obtain ⟨n, v⟩ := field
    rw [totalWidth_cons] at hsame
    refine ⟨?_, ih h.2 fun j hlow hhigh => hsame j (by omega) (by omega)⟩
    rw [← h.1]
    exact leValue_congr fun j hlow hhigh => hsame j hlow (by omega)

theorem fieldsAt_append : FieldsAt f p (fields ++ fields') ↔ FieldsAt f p fields ∧ FieldsAt f (p + totalWidth fields) fields' := by
  induction fields generalizing p with
  | nil => simp [FieldsAt, totalWidth]
  | cons field fields ih =>
    obtain ⟨n, v⟩ := field
    simp only [List.cons_append, FieldsAt, ih, totalWidth_cons, Nat.add_assoc, and_assoc]

theorem fieldsAt_writeFields (h : b.writeFields p fields = some b') : FieldsAt b'.data p fields := by
  induction fields generalizing b p with
  | nil => trivial
  | cons field fields ih =>
    obtain ⟨n, v⟩ := field
    obtain ⟨b₁, h1, h2⟩ := Option.bind_eq_some_iff.1 h
    refine ⟨?_, ih h2⟩
    rw [← leValue_of_write h1]
    exact leValue_congr fun j hlow hhigh => (within_writeFields h2).data j (by omega)

theorem fieldsAt_write (h : FieldsAt b.data p (pre ++ (n, v) :: post)) (hw : b.write (p + totalWidth pre) n v' = some b') :
    FieldsAt b'.data p (pre ++ (n, v') :: post) := by
  have hwithin := within_write hw
  rw [fieldsAt_append] at h ⊢
  obtain ⟨hpre, -, hpost⟩ := h
  exact ⟨FieldsAt.congr hpre fun j _ hhigh => hwithin.data j (Or.inl hhigh), leValue_of_write hw,
    FieldsAt.congr hpost fun j hlow _ => hwithin.data j (Or.inr hlow)⟩

theorem totalWidth_bytes (bytes : List UInt8) : totalWidth (bytes.map fun byte => (1, byte.toNat)) = bytes.length := by
  simp [totalWidth, Function.comp_def]

end HiveBuilder

def Rec.cell (r : Rec) : ℕ × ℕ := (r.offset, r.size)

namespace HiveBuilder

variable {b b' b₁ b₂ : HiveBuilder} {rs rs' : List Rec} {r : Rec} {fuel n p e l v v' : ℕ} {fields pre post : List (ℕ × ℕ)}

/-- The record fits its cell, and its fields are there. -/
def Written (f : ℕ → UInt8) (r : Rec) : Prop :=
  cellHeaderSize + totalWidth r.fields ≤ r.size ∧ FieldsAt f (dataAbs r.offset) r.fields

structure Holds (b : HiveBuilder) (rs : List Rec) : Prop where
  owned : b.Owned (rs.map Rec.cell)
  written : ∀ r ∈ rs, Written b.data r

theorem written_of_keeps (h : ∀ r ∈ rs, Written b.data r) (hkeeps : Keeps b b' (rs.map Rec.cell)) : ∀ r ∈ rs, Written b'.data r := by
  intro r hr
  obtain ⟨hfits, hfields⟩ := h r hr
  refine ⟨hfits, FieldsAt.congr hfields fun j hlow hhigh => ?_⟩
  refine hkeeps r.cell (List.mem_map.2 ⟨r, hr, rfl⟩) j hlow ?_
  unfold dataAbs at hhigh
  simp only [Rec.cell]
  omega

namespace Holds

theorem perm (h : b.Holds rs) (hperm : rs.Perm rs') : b.Holds rs' :=
  ⟨h.owned.perm (hperm.map _), fun r hr => h.written r (hperm.mem_iff.2 hr)⟩

theorem tail (h : b.Holds (r :: rs)) : b.Holds rs := ⟨h.owned.tail, fun r' hr' => h.written r' (List.mem_cons_of_mem _ hr')⟩

theorem allocateCell (h : b.Holds rs) (hret : b.allocateCell fuel n = some (b', l)) (hlen : b'.len ≤ maxLen) :
    b'.Holds (⟨l, cellHeaderSize + n, []⟩ :: rs) ∧ l < u32Max := by
  obtain ⟨hown, hkeeps, hl⟩ := h.owned.allocateCell hret hlen
  refine ⟨⟨hown, fun r hr => ?_⟩, hl⟩
  rcases List.mem_cons.1 hr with rfl | hr
  · exact ⟨Nat.le_add_right _ _, trivial⟩
  · exact written_of_keeps h.written hkeeps r hr

theorem within (h : b.Holds (⟨l, n, fields⟩ :: rs)) (hwithin : Within b b' p e) (hp : dataAbs l ≤ p)
    (he : e ≤ hiveBaseBlockSize + l + n) {fields' : List (ℕ × ℕ)} (hfits : cellHeaderSize + totalWidth fields' ≤ n)
    (hfields : FieldsAt b'.data (dataAbs l) fields') : b'.Holds (⟨l, n, fields'⟩ :: rs) := by
  obtain ⟨hown, hkeeps⟩ := Owned.within h.owned hwithin hp he
  refine ⟨hown, fun r hr => ?_⟩
  rcases List.mem_cons.1 hr with rfl | hr
  · exact ⟨hfits, hfields⟩
  · exact written_of_keeps h.tail.written hkeeps r hr

theorem writeFields (h : b.Holds (⟨l, n, fields⟩ :: rs)) {fields' : List (ℕ × ℕ)} (hw : b.writeFields (dataAbs l) fields' = some b')
    (hfits : cellHeaderSize + totalWidth fields' ≤ n) : b'.Holds (⟨l, n, fields'⟩ :: rs) := by
  refine h.within (within_writeFields hw) (Nat.le_refl _) ?_ hfits (fieldsAt_writeFields hw)
  unfold dataAbs
  omega

theorem writeField (h : b.Holds (⟨l, n, pre ++ (4, v) :: post⟩ :: rs)) (hw : b.writeU32 (dataAbs l + totalWidth pre) v' = some b') :
    b'.Holds (⟨l, n, pre ++ (4, v') :: post⟩ :: rs) := by
  obtain ⟨hfits, hfields⟩ := h.written ⟨l, n, pre ++ (4, v) :: post⟩ (by simp)
  have hwidth : totalWidth (pre ++ (4, v) :: post) = totalWidth (pre ++ (4, v') :: post) := by
    simp [totalWidth]
  simp only [hwidth] at hfits
  refine h.within (within_write hw) (Nat.le_add_right _ _) ?_ hfits (fieldsAt_write hfields hw)
  rw [totalWidth_append, totalWidth_cons] at hfits
  unfold dataAbs
  omega

theorem writeFieldAfter (pre : List (ℕ × ℕ)) (h : b.Holds (⟨l, n, pre ++ (4, v) :: post⟩ :: rs))
    (hw : b.writeU32 (dataAbs l + totalWidth pre) v' = some b') : b'.Holds (⟨l, n, pre ++ (4, v') :: post⟩ :: rs) := h.writeField hw

theorem freeCell (h : b.Holds (r :: rs)) (hret : b.freeCell r.offset = some b') : b'.Holds rs := by
  obtain ⟨hown, hkeeps, -⟩ := Owned.freeCell h.owned hret
  exact ⟨hown, written_of_keeps h.tail.written hkeeps⟩

theorem field (h : b.Holds rs) (hr : r ∈ rs) (hfields : r.fields = pre ++ (n, v) :: post) :
    leValue b.data (dataAbs r.offset + totalWidth pre) n = v % 256 ^ n := by
  have hwritten := (h.written r hr).2
  rw [hfields, fieldsAt_append] at hwritten
  exact hwritten.2.1

theorem read (h : b.Holds rs) (hr : r ∈ rs) (hfields : r.fields = pre ++ (n, v) :: post) {read : ℕ}
    (hread : b.read (dataAbs r.offset + totalWidth pre) n = some read) : read = v % 256 ^ n :=
  (read_eq_some hread).trans (h.field hr hfields)

end Holds

end HiveBuilder

end XenOS.Hive
