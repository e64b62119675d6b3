import Mathlib.Data.List.Pairwise
import Mathlib.Data.Nat.ModEq
import XenOS.General.LittleEndian

/-! Adding a number to fields of a memory, each up to its size. `Sums` determines the memory; sums
compose, and a multiple of every size changes nothing. -/

namespace XenOS.General

/-- The bytes from `off` on. -/
structure Field where
  off : ℕ
  width : ℕ
  deriving DecidableEq

namespace Field

def Has (a : Field) (j : ℕ) : Prop := a.off ≤ j ∧ j < a.off + a.width

def Apart (a b : Field) : Prop := a.off + a.width ≤ b.off ∨ b.off + b.width ≤ a.off

def value (a : Field) (f : ℕ → UInt8) : ℕ := leValue f a.off a.width

def addTo (a : Field) (d : ℕ) (f : ℕ → UInt8) : ℕ → UInt8 := leWrite f a.off a.width ((a.value f + d) % 256 ^ a.width)

def addAll (d : ℕ) (as : List Field) (f : ℕ → UInt8) : ℕ → UInt8 := as.foldl (fun f a => a.addTo d f) f

structure Sums (d : ℕ) (as : List Field) (f g : ℕ → UInt8) : Prop where
  each : ∀ a ∈ as, a.value g = (a.value f + d) % 256 ^ a.width
  rest : ∀ j, (∀ a ∈ as, ¬ a.Has j) → g j = f j

variable {a b : Field} {as : List Field} {d e : ℕ} {f g h : ℕ → UInt8} {j : ℕ}

theorem Apart.symm (hab : a.Apart b) : b.Apart a := hab.elim Or.inr Or.inl

theorem Apart.notHas (hab : a.Apart b) (hj : b.Has j) : ¬ a.Has j := by
  obtain ⟨hlow, hhigh⟩ := hj
  rintro ⟨halow, hahigh⟩
  rcases hab with hle | hle <;> omega

theorem value_congr (hfg : ∀ j, a.Has j → f j = g j) : a.value f = a.value g :=
  leValue_congr fun j hlow hhigh => hfg j ⟨hlow, hhigh⟩

theorem addTo_of_notHas (hj : ¬ a.Has j) : a.addTo d f j = f j := leWrite_of_notMem hj

theorem value_addTo : a.value (a.addTo d f) = (a.value f + d) % 256 ^ a.width := leValue_leWrite.trans (Nat.mod_mod _ _)

theorem value_addTo_of_apart (hab : a.Apart b) : b.value (a.addTo d f) = b.value f :=
  value_congr fun _ hj => addTo_of_notHas (hab.notHas hj)

theorem addAll_of_notHas (hj : ∀ a ∈ as, ¬ a.Has j) : addAll d as f j = f j := by
  induction as generalizing f with
  | nil => rfl
  | cons a as ih =>
    have hrest : addAll d as (a.addTo d f) j = a.addTo d f j := ih fun b hb => hj b (List.mem_cons_of_mem a hb)
    exact hrest.trans (addTo_of_notHas (hj a List.mem_cons_self))

theorem value_addAll_of_apart (hbs : ∀ a ∈ as, a.Apart b) : b.value (addAll d as f) = b.value f :=
  value_congr fun _ hj => addAll_of_notHas fun a ha => (hbs a ha).notHas hj

theorem addAll_sums (hapart : as.Pairwise Apart) : Sums d as f (addAll d as f) := by
  refine ⟨?_, fun j hj => addAll_of_notHas hj⟩
  induction as generalizing f with
  | nil => exact fun a ha => absurd ha List.not_mem_nil
  | cons a as ih =>
    obtain ⟨hfirst, hrest⟩ := List.pairwise_cons.1 hapart
    intro b hb
    rcases List.mem_cons.1 hb with rfl | hb
    · have hkept : b.value (addAll d as (b.addTo d f)) = b.value (b.addTo d f) := value_addAll_of_apart fun c hc => (hfirst c hc).symm
      exact hkept.trans value_addTo
    · have hkept : b.value (a.addTo d f) = b.value f := value_addTo_of_apart (hfirst b hb)
      rw [← hkept]
      exact ih hrest b hb

namespace Sums

theorem unique (hg : Sums d as f g) (hh : Sums d as f h) : g = h := by
  funext j
  by_cases hj : ∃ a ∈ as, a.Has j
  · obtain ⟨a, ha, hlow, hhigh⟩ := hj
    have hbyte := leValue_inj ((hg.each a ha).trans (hh.each a ha).symm) (j - a.off) (by omega)
    rwa [Nat.add_sub_of_le hlow] at hbyte
  · have hnone : ∀ a ∈ as, ¬ a.Has j := fun a ha hhas => hj ⟨a, ha, hhas⟩
    rw [hg.rest j hnone, hh.rest j hnone]

theorem trans (hg : Sums d as f g) (hh : Sums e as g h) : Sums (d + e) as f h := by
  refine ⟨fun a ha => ?_, fun j hj => (hh.rest j hj).trans (hg.rest j hj)⟩
  rw [hh.each a ha, hg.each a ha, Nat.mod_add_mod, Nat.add_assoc]

theorem congr (hde : ∀ a ∈ as, d ≡ e [MOD 256 ^ a.width]) (hg : Sums d as f g) : Sums e as f g :=
  ⟨fun a ha => (hg.each a ha).trans ((hde a ha).add_left (a.value f)), hg.rest⟩

theorem zero (f : ℕ → UInt8) : Sums 0 as f f := by
  refine ⟨fun a _ => ?_, fun _ _ => rfl⟩
  rw [Nat.add_zero]
  exact (Nat.mod_eq_of_lt (leValue_lt f a.off a.width)).symm

end Sums

end Field

end XenOS.General
