import Mathlib.Data.List.Nodup

/-! Linked lists threaded through a `next` function. A segment is the list of the cells from one
cell up to another; a walk is a segment that ends at the sentinel. It is determined by its first
cell, and linking or unlinking a cell is a pointwise update of `next`. -/

namespace XenOS.General

open List

open Function (update update_self update_of_ne update_eq_self)

variable {α : Type*}

/-- Following `next` from `h` meets exactly the cells of the list and arrives at `t`. -/
def Seg (next : α → α) : α → List α → α → Prop
  | h, [], t => h = t
  | h, x :: xs, t => h = x ∧ Seg next (next x) xs t

instance Seg.decidable [DecidableEq α] (next : α → α) (t : α) : (xs : List α) → (h : α) → Decidable (Seg next h xs t)
  | [], h => inferInstanceAs (Decidable (h = t))
  | _ :: xs, _ => @instDecidableAnd _ _ _ (Seg.decidable next t xs _)

/-- Following `next` from `h` meets exactly the cells of the list and ends at `nil`. -/
def Walk (nil : α) (next : α → α) (h : α) (xs : List α) : Prop :=
  Seg next h xs nil ∧ nil ∉ xs

instance [DecidableEq α] (nil : α) (next : α → α) (h : α) (xs : List α) : Decidable (Walk nil next h xs) :=
  inferInstanceAs (Decidable (_ ∧ _))

section Segments
variable {next next' : α → α} {h t : α} {xs ys : List α}

theorem seg_append : Seg next h (xs ++ ys) t ↔ ∃ m, Seg next h xs m ∧ Seg next m ys t := by
  induction xs generalizing h with
  | nil => simp [Seg]
  | cons x xs ih => simp [Seg, ih, and_assoc]

theorem Seg.congr (hn : ∀ x ∈ xs, next x = next' x) (hs : Seg next h xs t) : Seg next' h xs t := by
  induction xs generalizing h with
  | nil => exact hs
  | cons x xs ih =>
    refine ⟨hs.1, ?_⟩
    rw [← hn x (by simp)]
    exact ih (fun y hy => hn y (by simp [hy])) hs.2

end Segments

variable {nil : α} {next next' : α → α} {h : α} {xs ys : List α}

theorem walk_nil : Walk nil next h [] ↔ h = nil := by
  simp [Walk, Seg]

theorem walk_cons {x : α} : Walk nil next h (x :: xs) ↔ h = x ∧ x ≠ nil ∧ Walk nil next (next x) xs := by
  simp only [Walk, Seg, mem_cons, not_or]
  tauto

theorem Walk.congr (hn : ∀ x ∈ xs, next x = next' x) (hw : Walk nil next h xs) : Walk nil next' h xs :=
  ⟨hw.1.congr hn, hw.2⟩

theorem Walk.unique (hx : Walk nil next h xs) (hy : Walk nil next h ys) : xs = ys := by
  induction xs generalizing h ys with
  | nil =>
    obtain rfl := walk_nil.1 hx
    cases ys with
    | nil => rfl
    | cons y ys =>
      obtain ⟨rfl, hne, -⟩ := walk_cons.1 hy
      exact absurd rfl hne
  | cons x xs ih =>
    obtain ⟨rfl, hne, hx⟩ := walk_cons.1 hx
    cases ys with
    | nil => exact absurd (walk_nil.1 hy) hne
    | cons y ys =>
      obtain ⟨rfl, -, hy⟩ := walk_cons.1 hy
      rw [ih hx hy]

theorem Walk.drop (hw : Walk nil next h (xs ++ ys)) : ∃ m, Walk nil next m ys := by
  obtain ⟨m, -, hm⟩ := seg_append.1 hw.1
  exact ⟨m, hm, fun hmem => hw.2 (mem_append_right _ hmem)⟩

theorem Walk.nodup (hw : Walk nil next h xs) : xs.Nodup := by
  induction xs generalizing h with
  | nil => exact nodup_nil
  | cons x xs ih =>
    have htail := (walk_cons.1 hw).2.2
    refine nodup_cons.2 ⟨fun hmem => ?_, ih htail⟩
    -- a second visit of `x` starts the same walk, which would then be its own proper suffix
    obtain ⟨as, bs, rfl⟩ := append_of_mem hmem
    obtain ⟨m, hm⟩ := htail.drop
    obtain ⟨rfl, -, -⟩ := walk_cons.1 hm
    obtain ⟨rfl, -, -⟩ := walk_cons.1 hw
    have hlen := congrArg length (hw.unique hm)
    simp at hlen
    omega

theorem Walk.head_eq (hw : Walk nil next h xs) : h = xs.headD nil := by
  cases xs with
  | nil => exact walk_nil.1 hw
  | cons x xs => exact (walk_cons.1 hw).1

theorem Walk.next_eq {x : α} (hw : Walk nil next h (xs ++ x :: ys)) : next x = ys.headD nil := by
  obtain ⟨m, hm⟩ := hw.drop
  exact (walk_cons.1 hm).2.2.head_eq

theorem Walk.row {nil h k n : ℕ} {next : ℕ → ℕ} {xs : List ℕ} (hw : Walk nil next h xs) (hn : 0 < n)
    (hnil : k + n ≤ nil) (hsucc : ∀ i, k ≤ i → i + 1 < k + n → next i = i + 1) (hlast : next (k + n - 1) = h) :
    Walk nil next k (range' k n ++ xs) := by
  induction n generalizing k with
  | zero => omega
  | succ n ih =>
    rw [range'_succ, cons_append]
    refine walk_cons.2 ⟨rfl, by omega, ?_⟩
    rcases Nat.eq_zero_or_pos n with rfl | hpos
    · rw [show next k = h from hlast]
      simpa using hw
    · rw [hsucc k (Nat.le_refl k) (by omega)]
      refine ih hpos (by omega) (fun i hi hlt => hsucc i (by omega) (by omega)) ?_
      rw [← hlast]
      congr 1
      omega

variable {p : α}

theorem Walk.pop (hw : Walk nil next h (p :: xs)) : Walk nil next (next p) xs :=
  (walk_cons.1 hw).2.2

variable [DecidableEq α]

theorem Walk.update_of_notMem {v : α} (hp : p ∉ xs) (hw : Walk nil next h xs) :
    Walk nil (update next p v) h xs :=
  hw.congr fun x hx => by
    rw [update_of_ne]
    rintro rfl
    exact hp hx

theorem Walk.push (hw : Walk nil next h xs) (hp : p ∉ xs) (hne : p ≠ nil) :
    Walk nil (update next p h) p (p :: xs) := by
  refine walk_cons.2 ⟨rfl, hne, ?_⟩
  rw [update_self]
  exact hw.update_of_notMem hp

theorem Walk.unlink {q : α} (hw : Walk nil next h (xs ++ q :: p :: ys)) :
    Walk nil (update next q (next p)) h (xs ++ q :: ys) := by
  have hnd := hw.nodup
  have hqx : q ∉ xs := fun hq => by simp [nodup_append] at hnd; exact (hnd.2.2 q hq).1 rfl
  have hqy : q ∉ ys := by simp [nodup_append] at hnd; tauto
  have hnil := hw.2
  obtain ⟨m, hxs, hm⟩ := seg_append.1 hw.1
  obtain ⟨rfl, rfl, hys⟩ := hm
  refine ⟨seg_append.2 ⟨m, hxs.congr ?_, rfl, ?_⟩, by simp at hnil ⊢; tauto⟩
  · intro x hx
    rw [update_of_ne]
    rintro rfl
    exact hqx hx
  · rw [update_self]
    refine hys.congr fun x hx => ?_
    rw [update_of_ne]
    rintro rfl
    exact hqy hx

theorem Walk.link {q : α} (hw : Walk nil next h (xs ++ q :: ys)) (hp : p ∉ xs ++ q :: ys) (hne : p ≠ nil) :
    Walk nil (update (update next p (next q)) q p) h (xs ++ q :: p :: ys) := by
  have hnd := hw.nodup
  have hqx : q ∉ xs := fun hq => by simp [nodup_append] at hnd; exact (hnd.2.2 q hq).1 rfl
  have hqy : q ∉ ys := by simp [nodup_append] at hnd; tauto
  simp only [mem_append, mem_cons, not_or] at hp
  have hnil := hw.2
  obtain ⟨m, hxs, hm⟩ := seg_append.1 hw.1
  obtain ⟨rfl, hys⟩ := hm
  have hupd : ∀ x, x ≠ m → x ≠ p → next x = update (update next p (next m)) m p x :=
    fun x hxm hxp => by rw [update_of_ne hxm, update_of_ne hxp]
  refine ⟨seg_append.2 ⟨m, hxs.congr ?_, rfl, ?_⟩, by simp at hnil ⊢; tauto⟩
  · intro x hx
    exact hupd x (fun e => hqx (e ▸ hx)) (fun e => hp.1 (e ▸ hx))
  · rw [update_self]
    refine ⟨rfl, ?_⟩
    rw [update_of_ne hp.2.1, update_self]
    refine hys.congr fun x hx => ?_
    exact hupd x (fun e => hqy (e ▸ hx)) (fun e => hp.2.2 (e ▸ hx))

/-- Unlink any cell: the store goes to the cell before it, or to the list head if there is none. -/
theorem Walk.cut (hw : Walk nil next h (xs ++ p :: ys)) :
    Walk nil (if xs.getLastD nil = nil then next else update next (xs.getLastD nil) (next p))
      (if xs.getLastD nil = nil then next p else h) (xs ++ ys) := by
  rcases eq_nil_or_concat xs with rfl | ⟨as, q, rfl⟩
  · simpa using Walk.pop hw
  · have hq : q ≠ nil := fun e => hw.2 (by simp [e])
    have hlink : Walk nil (update next q (next p)) h (as ++ q :: ys) := by
      refine Walk.unlink ?_
      simpa using hw
    simpa [hq] using hlink

theorem Walk.erase {v : α} (hw : Walk nil next h (xs ++ p :: ys)) :
    Walk nil
      (update
        (if xs.getLastD nil = nil then next else update next (xs.getLastD nil) (next p)) p v)
      (if xs.getLastD nil = nil then next p else h) (xs ++ ys) := by
  refine hw.cut.update_of_notMem ?_
  have hnd := hw.nodup
  simp only [nodup_append, nodup_cons, mem_cons] at hnd
  simp only [mem_append, not_or]
  exact ⟨fun hx => hnd.2.2 p hx p (Or.inl rfl) rfl, hnd.2.1.1⟩

/-- Link a cell that already points to what follows: the store goes to the cell before it,
or to the list head if there is none. -/
theorem Walk.insert (hw : Walk nil next h (xs ++ ys)) (hp : p ∉ xs ++ ys) (hne : p ≠ nil)
    (hnext : next p = ys.headD nil) :
    Walk nil (if xs.getLastD nil = nil then next else update next (xs.getLastD nil) p)
      (if xs.getLastD nil = nil then p else h) (xs ++ p :: ys) := by
  rcases eq_nil_or_concat xs with rfl | ⟨as, q, rfl⟩
  · have hw' : Walk nil next (next p) ys := by
      rw [hnext, ← Walk.head_eq (by simpa using hw)]
      simpa using hw
    simpa using walk_cons.2 ⟨rfl, hne, hw'⟩
  · have hq : q ≠ nil := fun e => hw.2 (by simp [e])
    have hw' : Walk nil next h (as ++ q :: ys) := by simpa using hw
    have hlink := hw'.link (by simpa using hp) hne
    rw [hw'.next_eq, ← hnext, update_eq_self] at hlink
    simpa [hq] using hlink

theorem Walk.append (hw : Walk nil next h xs) (hp : p ∉ xs) (hne : p ≠ nil) :
    Walk nil
      (if xs.getLastD nil = nil then update next p nil
        else update (update next p nil) (xs.getLastD nil) p)
      (if xs.getLastD nil = nil then p else h) (xs ++ [p]) := by
  rcases eq_nil_or_concat xs with rfl | ⟨as, q, rfl⟩
  · obtain rfl := walk_nil.1 hw
    simpa using hw.push hp hne
  · have hq : q ≠ nil := fun e => hw.2 (by simp [e])
    have hw' : Walk nil next h (as ++ q :: []) := by simpa using hw
    have hlast : next q = nil := by simpa using hw'.next_eq
    simpa [hq, hlast] using hw'.link (by simpa using hp) hne

end XenOS.General
