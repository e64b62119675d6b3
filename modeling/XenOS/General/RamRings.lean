import XenOS.General.Ram
import XenOS.General.Ring

/-! Circular lists in byte memory. A cell is the next link and the previous one. As long as the
cells of all lists are apart, an operation acts on the links as on a list alone, and no other byte
changes. -/

namespace XenOS.General

open Function Ram

open List (mem_cons mem_cons_self mem_singleton)

namespace Ram

def links (m : Ram) : Links ℕ := ⟨fun a => m.u64 a, fun a => m.u64 (a + 8)⟩

def setFlink (m : Ram) (a v : ℕ) : Ram := m.write a (leBytes 8 v)

def setBlink (m : Ram) (a v : ℕ) : Ram := m.write (a + 8) (leBytes 8 v)

def initHead (m : Ram) (h : ℕ) : Ram := (m.setFlink h h).setBlink h h

def isEmpty (m : Ram) (h : ℕ) : Bool := m.u64 h = h

def insertHead (m : Ram) (h x : ℕ) : Ram :=
  let flink := m.u64 h
  let m := m.setFlink x flink
  let m := m.setBlink x h
  let m := m.setBlink flink x
  m.setFlink h x

def insertTail (m : Ram) (h x : ℕ) : Ram :=
  let blink := m.u64 (h + 8)
  let m := m.setFlink x h
  let m := m.setBlink x blink
  let m := m.setFlink blink x
  m.setBlink h x

def removeEntry (m : Ram) (x : ℕ) : Ram :=
  let flink := m.u64 x
  let blink := m.u64 (x + 8)
  let m := m.setFlink blink flink
  m.setBlink flink blink

variable {m m' : Ram} {C : Set ℕ} {l l' : Links ℕ} {a h x v y : ℕ}

theorem u64_congr (hsame : ∀ k < 8, m'.byte (a + k) = m.byte (a + k)) : m'.u64 a = m.u64 a :=
  congrArg leNat (read_congr hsame)

theorem u64_setFlink (hv : v < 2 ^ 64) : (m.setFlink a v).u64 a = v := by
  have hread : (m.setFlink a v).read a 8 = leBytes 8 v := read_write_of_length (length_leBytes 8 v)
  rw [u64, hread]
  exact leNat_leBytes hv

theorem u64_setFlink_of_apart (h : y + 8 ≤ a ∨ a + 8 ≤ y) : (m.setFlink a v).u64 y = m.u64 y :=
  congrArg leNat (read_write_of_disjoint (by rw [length_leBytes]; exact h))

theorem u64_initHead_of_apart (h : y + 8 ≤ a ∨ a + 16 ≤ y) : (m.initHead a).u64 y = m.u64 y := by
  have hsame : m.initHead a = (m.setFlink a a).setFlink (a + 8) a := rfl
  rw [hsame, u64_setFlink_of_apart (by omega), u64_setFlink_of_apart (by omega)]

structure Cells (C : Set ℕ) : Prop where
  apart : ∀ a ∈ C, ∀ b ∈ C, a = b ∨ a + 16 ≤ b ∨ b + 16 ≤ a
  lt : ∀ a ∈ C, a < 2 ^ 64

def HasLinks (C : Set ℕ) (m : Ram) (l : Links ℕ) : Prop := ∀ y ∈ C, m.links.next y = l.next y ∧ m.links.prev y = l.prev y

section
variable (hl : HasLinks C m l)
include hl

theorem HasLinks.setFlink (hC : Cells C) (ha : a ∈ C) (hv : v ∈ C) :
    HasLinks C (m.setFlink a v) { l with next := update l.next a v } := by
  intro y hy
  have hapart := hC.apart y hy a ha
  obtain ⟨hnext, hprev⟩ := hl y hy
  simp only [links] at hnext hprev ⊢
  rcases eq_or_ne y a with rfl | hne
  · exact ⟨by rw [u64_setFlink (hC.lt v hv), update_self], by rw [u64_setFlink_of_apart (by omega), hprev]⟩
  · rw [update_of_ne hne]
    exact ⟨by rw [u64_setFlink_of_apart (by omega), hnext], by rw [u64_setFlink_of_apart (by omega), hprev]⟩

theorem HasLinks.setBlink (hC : Cells C) (ha : a ∈ C) (hv : v ∈ C) :
    HasLinks C (m.setBlink a v) { l with prev := update l.prev a v } := by
  intro y hy
  have hapart := hC.apart y hy a ha
  have hsame : m.setBlink a v = m.setFlink (a + 8) v := rfl
  obtain ⟨hnext, hprev⟩ := hl y hy
  simp only [links, hsame] at hnext hprev ⊢
  rcases eq_or_ne y a with rfl | hne
  · exact ⟨by rw [u64_setFlink_of_apart (by omega), hnext], by rw [u64_setFlink (hC.lt v hv), update_self]⟩
  · rw [update_of_ne hne]
    exact ⟨by rw [u64_setFlink_of_apart (by omega), hnext], by rw [u64_setFlink_of_apart (by omega), hprev]⟩

theorem HasLinks.insertHead (hC : Cells C) (hh : h ∈ C) (hx : x ∈ C) (hnext : l.next h ∈ C) :
    HasLinks C (m.insertHead h x) (l.insertHead h x) := by
  have hread : m.u64 h = l.next h := (hl h hh).1
  unfold Ram.insertHead Links.insertHead
  rw [hread]
  exact (((hl.setFlink hC hx hnext).setBlink hC hx hh).setBlink hC hnext hx).setFlink hC hh hx

theorem HasLinks.insertTail (hC : Cells C) (hh : h ∈ C) (hx : x ∈ C) (hprev : l.prev h ∈ C) :
    HasLinks C (m.insertTail h x) (l.insertTail h x) := by
  have hread : m.u64 (h + 8) = l.prev h := (hl h hh).2
  unfold Ram.insertTail Links.insertTail
  rw [hread]
  exact (((hl.setFlink hC hx hh).setBlink hC hx hprev).setFlink hC hprev hx).setBlink hC hh hx

end

theorem byte_setFlink {i : ℕ} (hi : i < a ∨ a + 16 ≤ i) : (m.setFlink a v).byte i = m.byte i :=
  byte_write_of_lt (by rw [length_leBytes]; omega)

theorem byte_setBlink {i : ℕ} (hi : i < a ∨ a + 16 ≤ i) : (m.setBlink a v).byte i = m.byte i :=
  byte_write_of_lt (by rw [length_leBytes]; omega)

theorem byte_insertHead {i : ℕ} (hh : i < h ∨ h + 16 ≤ i) (hx : i < x ∨ x + 16 ≤ i)
    (hnext : i < m.u64 h ∨ m.u64 h + 16 ≤ i) : (m.insertHead h x).byte i = m.byte i := by
  unfold insertHead
  rw [byte_setFlink hh, byte_setBlink hnext, byte_setBlink hx, byte_setFlink hx]

theorem byte_insertTail {i : ℕ} (hh : i < h ∨ h + 16 ≤ i) (hx : i < x ∨ x + 16 ≤ i)
    (hprev : i < m.u64 (h + 8) ∨ m.u64 (h + 8) + 16 ≤ i) : (m.insertTail h x).byte i = m.byte i := by
  unfold insertTail
  rw [byte_setBlink hh, byte_setFlink hprev, byte_setBlink hx, byte_setFlink hx]

end Ram

structure Rings {ι : Type*} (m : Ram) (head : ι → ℕ) (R : ι → List ℕ) : Prop where
  ring : ∀ i, Ring m.links (head i) (R i)
  apart : ∀ i, ∀ a ∈ head i :: R i, ∀ j, ∀ b ∈ head j :: R j, (i = j ∧ a = b) ∨ a + 16 ≤ b ∨ b + 16 ≤ a
  lt : ∀ i, ∀ a ∈ head i :: R i, a < 2 ^ 64

namespace Rings
variable {ι : Type*} {m m' : Ram} {head : ι → ℕ} {R : ι → List ℕ} {i : ι} {x : ℕ}

theorem congr (h : Rings m head R) (hsame : ∀ i, ∀ a ∈ head i :: R i, ∀ k < 16, m'.byte (a + k) = m.byte (a + k)) :
    Rings m' head R := by
  refine ⟨fun i => (h.ring i).congr fun a ha => ⟨?_, ?_⟩, h.apart, h.lt⟩
  · exact u64_congr fun k hk => hsame i a ha k (by omega)
  · exact u64_congr fun k hk => by rw [Nat.add_assoc]; exact hsame i a ha (8 + k) (by omega)

def Fresh (head : ι → ℕ) (R : ι → List ℕ) (x : ℕ) : Prop :=
  x < 2 ^ 64 ∧ ∀ i, ∀ a ∈ head i :: R i, a + 16 ≤ x ∨ x + 16 ≤ a

theorem cells (h : Rings m head R) (hx : Fresh head R x) : Cells ({x} ∪ {a | ∃ i, a ∈ head i :: R i}) := by
  constructor
  · rintro a (rfl | ⟨i, ha⟩) b (rfl | ⟨j, hb⟩)
    · exact Or.inl rfl
    · exact Or.inr (hx.2 j b hb).symm
    · exact Or.inr (hx.2 i a ha)
    · exact (h.apart i a ha j b hb).imp And.right id
  · rintro a (rfl | ⟨i, ha⟩)
    · exact hx.1
    · exact h.lt i a ha

variable [DecidableEq ι]

theorem update (h : Rings m head R) (hx : Fresh head R x) {zs : List ℕ} (hzs : ∀ a, a ∈ zs ↔ a = x ∨ a ∈ R i)
    (hring : Ring m'.links (head i) zs) (hother : ∀ j, j ≠ i → Ring m'.links (head j) (R j)) :
    Rings m' head (Function.update R i zs) := by
  have hmem : ∀ {j a}, a ∈ head j :: Function.update R i zs j → (j = i ∧ a = x) ∨ a ∈ head j :: R j := by
    intro j a ha
    rcases eq_or_ne j i with rfl | hne
    · rw [Function.update_self] at ha
      rcases mem_cons.1 ha with rfl | ha
      · exact Or.inr mem_cons_self
      · exact ((hzs a).1 ha).imp (fun hax => ⟨rfl, hax⟩) fun ha => List.mem_cons_of_mem _ ha
    · rw [Function.update_of_ne hne] at ha
      exact Or.inr ha
  refine ⟨fun j => ?_, fun j a ha k b hb => ?_, fun j a ha => ?_⟩
  · rcases eq_or_ne j i with rfl | hne
    · rw [Function.update_self]
      exact hring
    · rw [Function.update_of_ne hne]
      exact hother j hne
  · rcases hmem ha with ⟨rfl, rfl⟩ | ha'
    · rcases hmem hb with ⟨rfl, rfl⟩ | hb'
      · exact Or.inl ⟨rfl, rfl⟩
      · exact Or.inr (hx.2 k b hb').symm
    · rcases hmem hb with ⟨rfl, rfl⟩ | hb'
      · exact Or.inr (hx.2 j a ha')
      · exact h.apart j a ha' k b hb'
  · rcases hmem ha with ⟨rfl, rfl⟩ | ha'
    · exact hx.1
    · exact h.lt j a ha'

omit [DecidableEq ι] in
theorem Fresh.notMem (hx : Fresh head R x) (i : ι) : x ∉ head i :: R i := by
  intro hmem
  have := hx.2 i x hmem
  omega

omit [DecidableEq ι] in
theorem ne_of_mem (h : Rings m head R) {j : ι} {a b : ℕ} (hij : i ≠ j) (ha : a ∈ head i :: R i) (hb : b ∈ head j :: R j) : a ≠ b := by
  rintro rfl
  rcases h.apart i a ha j a hb with ⟨rfl, -⟩ | hapart
  · exact hij rfl
  · omega

theorem insertHead (h : Rings m head R) (i : ι) (hx : Fresh head R x) :
    Rings (m.insertHead (head i) x) head (Function.update R i (x :: R i)) := by
  have hhead : head i ∈ head i :: R i := mem_cons_self
  have hnext := (h.ring i).next_mem
  have hlinks : HasLinks _ (m.insertHead (head i) x) (m.links.insertHead (head i) x) :=
    HasLinks.insertHead (fun _ _ => ⟨rfl, rfl⟩) (h.cells hx) (Or.inr ⟨i, hhead⟩) (Or.inl rfl) (Or.inr ⟨i, hnext⟩)
  refine h.update hx (fun a => mem_cons) ?_ fun j hne => ?_
  · refine ((h.ring i).insertHead (hx.notMem i)).congr fun a ha => hlinks a ?_
    rcases mem_cons.1 ha with rfl | ha
    · exact Or.inr ⟨i, hhead⟩
    · exact (mem_cons.1 ha).imp id fun ha => ⟨i, List.mem_cons_of_mem _ ha⟩
  · refine (h.ring j).congr fun a ha => ?_
    have hframe := insertHead_frame (m := m.links) (x := x) ⟨h.ne_of_mem hne ha hhead, fun hax => hx.notMem j (hax ▸ ha),
      h.ne_of_mem hne ha hnext⟩
    obtain ⟨hl, hr⟩ := hlinks a (Or.inr ⟨j, ha⟩)
    exact ⟨hl.trans hframe.1, hr.trans hframe.2⟩

theorem insertTail (h : Rings m head R) (i : ι) (hx : Fresh head R x) :
    Rings (m.insertTail (head i) x) head (Function.update R i (R i ++ [x])) := by
  have hhead : head i ∈ head i :: R i := mem_cons_self
  have hprev := (h.ring i).prev_mem
  have hlinks : HasLinks _ (m.insertTail (head i) x) (m.links.insertTail (head i) x) :=
    HasLinks.insertTail (fun _ _ => ⟨rfl, rfl⟩) (h.cells hx) (Or.inr ⟨i, hhead⟩) (Or.inl rfl) (Or.inr ⟨i, hprev⟩)
  refine h.update hx (fun a => by simp [or_comm]) ?_ fun j hne => ?_
  · refine ((h.ring i).insertTail (hx.notMem i)).congr fun a ha => hlinks a ?_
    rcases mem_cons.1 ha with rfl | ha
    · exact Or.inr ⟨i, hhead⟩
    · rcases List.mem_append.1 ha with ha | ha
      · exact Or.inr ⟨i, List.mem_cons_of_mem _ ha⟩
      · exact Or.inl (mem_singleton.1 ha)
  · refine (h.ring j).congr fun a ha => ?_
    have hframe := insertTail_frame (m := m.links) (x := x) ⟨h.ne_of_mem hne ha hhead, fun hax => hx.notMem j (hax ▸ ha),
      h.ne_of_mem hne ha hprev⟩
    obtain ⟨hl, hr⟩ := hlinks a (Or.inr ⟨j, ha⟩)
    exact ⟨hl.trans hframe.1, hr.trans hframe.2⟩

omit [DecidableEq ι] in
theorem byte_insertHead (h : Rings m head R) (i : ι) {k : ℕ} (hx : k < x ∨ x + 16 ≤ k)
    (hk : ∀ a ∈ head i :: R i, k < a ∨ a + 16 ≤ k) : (m.insertHead (head i) x).byte k = m.byte k :=
  Ram.byte_insertHead (hk _ mem_cons_self) hx (hk _ (h.ring i).next_mem)

omit [DecidableEq ι] in
theorem byte_insertTail (h : Rings m head R) (i : ι) {k : ℕ} (hx : k < x ∨ x + 16 ≤ k)
    (hk : ∀ a ∈ head i :: R i, k < a ∨ a + 16 ≤ k) : (m.insertTail (head i) x).byte k = m.byte k :=
  Ram.byte_insertTail (hk _ mem_cons_self) hx (hk _ (h.ring i).prev_mem)

omit [DecidableEq ι] in
theorem ring_nil_iff {h : ℕ} : Ring m.links h [] ↔ m.u64 h = h ∧ m.u64 (h + 8) = h :=
  ⟨fun r => r.linked, fun hlinked => ⟨hlinked, by simp⟩⟩

omit [DecidableEq ι] in
theorem ring_initHead {h : ℕ} (hlt : h < 2 ^ 64) : Ring (m.initHead h).links h [] := by
  have hblink : (m.initHead h).u64 (h + 8) = h := u64_setFlink hlt
  refine ring_nil_iff.2 ⟨?_, hblink⟩
  rw [initHead, setBlink, ← setFlink, u64_setFlink_of_apart (by omega), u64_setFlink hlt]

omit [DecidableEq ι] in
/-- Initialising the heads of some lists makes them empty and leaves other empty lists empty. -/
theorem ring_initHeads (hapart : ∀ i j, i = j ∨ head i + 16 ≤ head j ∨ head j + 16 ≤ head i) (hlt : ∀ i, head i < 2 ^ 64) (l : List ι)
    (hi : i ∈ l ∨ Ring m.links (head i) []) : Ring (l.foldl (fun m i => m.initHead (head i)) m).links (head i) [] := by
  induction l generalizing m with
  | nil => exact hi.resolve_left (List.not_mem_nil)
  | cons j l ih =>
    refine ih ?_
    rcases hapart i j with rfl | hapart
    · exact Or.inr (ring_initHead (hlt i))
    · rcases hi with hmem | hring
      · rcases mem_cons.1 hmem with rfl | hmem
        · omega
        · exact Or.inl hmem
      · refine Or.inr (hring.congr fun y hy => ?_)
        obtain rfl := mem_singleton.1 hy
        exact ⟨u64_initHead_of_apart (by omega), u64_initHead_of_apart (by omega)⟩

omit [DecidableEq ι] in
theorem empty (hapart : ∀ i j, i = j ∨ head i + 16 ≤ head j ∨ head j + 16 ≤ head i) (hlt : ∀ i, head i < 2 ^ 64)
    (hring : ∀ i, Ring m.links (head i) []) : Rings m head fun _ => [] := by
  refine ⟨hring, fun i a ha j b hb => ?_, fun i a ha => ?_⟩
  · obtain rfl := mem_singleton.1 ha
    obtain rfl := mem_singleton.1 hb
    exact (hapart i j).imp_left fun hij => ⟨hij, congrArg head hij⟩
  · obtain rfl := mem_singleton.1 ha
    exact hlt i

end Rings

end XenOS.General
