import XenOS.General.Run
import Mathlib.Data.List.Infix

/-! Mounting of volumes in `io/vpb.rs`. A mount asks the file systems in turn, each with an IRP of
its own; the list may grow meanwhile. The answer is read from the status field of the IRP, which may
have been completed and freed. Drivers that return `STATUS_PENDING` complete the request. -/

namespace XenOS.Io

open General List

/-- `VPB`, the fields that mounts use. -/
structure Vpb where
  deviceObject : Option ℕ
  flags : BitVec 16
  volumeLabelLength : ℕ
  deriving DecidableEq

namespace Vpb

abbrev NtStatus := BitVec 32

def statusSuccess : NtStatus := 0
def statusUnrecognizedVolume : NtStatus := 0xC0000014
def statusInvalidDeviceRequest : NtStatus := 0xC0000010
def statusInsufficientResources : NtStatus := 0xC000009A

end Vpb

open Vpb

def vpbMounted : BitVec 16 := 0x1
def vpbRawMount : BitVec 16 := 0x10

/-- The flag `VPB_MOUNTED`, which is bit 0. -/
def Vpb.mounted (v : Vpb) : Bool := v.flags.getLsbD 0

/-- What comes of a request to a file system: no driver, no IRP, no routine, or the driver takes it,
completes it or not, and leaves a status `left`. -/
inductive MountAnswer where
  | noDriver
  | noIrp
  | noRoutine
  | taken (completed : Option NtStatus) (left : NtStatus) (device : ℕ)

namespace MountAnswer

def accepts : MountAnswer → Bool
  | .taken (some status) _ _ => status == Vpb.statusSuccess
  | _ => false

def device : MountAnswer → Option ℕ
  | .taken _ _ device => some device
  | _ => none

/-- A file system that accepts a volume enters its device and sets `VPB_MOUNTED`. -/
def effect (a : MountAnswer) (v : Vpb) : Vpb :=
  if a.accepts then { v with deviceObject := a.device, flags := v.flags ||| vpbMounted, volumeLabelLength := 22 } else v

/-- `iop_send_mount_volume_irp`. An IRP that nobody took has the status that it was filled with. -/
def iopSendMountVolumeIrp : MountAnswer → NtStatus
  | .noDriver => statusInvalidDeviceRequest
  | .noIrp => Vpb.statusInsufficientResources
  | .noRoutine => 0
  | .taken _ left _ => left

end MountAnswer

structure Mounting where
  vpb : Vpb
  fileSystems : List ℕ
  tried : List ℕ
  status : NtStatus

/-- The walk of `iop_mount_volume`; `registered` are the file systems that are registered during each attempt. -/
def mountWalk (answer : ℕ → MountAnswer) (todo : List ℕ) (registered : List (List ℕ)) (v : Vpb) (fileSystems : List ℕ) : Mounting :=
  match todo with
  | [] => ⟨v, fileSystems, [], statusUnrecognizedVolume⟩
  | fs :: todo =>
    let v := (answer fs).effect v
    let new := registered.headD []
    if (answer fs).iopSendMountVolumeIrp = Vpb.statusSuccess then ⟨v, fileSystems ++ new, [fs], Vpb.statusSuccess⟩
    else
      let out := mountWalk answer (todo ++ new) registered.tail v (fileSystems ++ new)
      { out with tried := fs :: out.tried }
termination_by todo.length + registered.flatten.length
decreasing_by
  cases registered with
  | nil => simp
  | cons new registered =>
    simp only [headD_cons, tail_cons, length_append, length_cons, flatten_cons]
    omega

/-- By whom a volume is mounted. -/
inductive Holder where
  | fileSystem (fs : ℕ)
  | raw
  deriving DecidableEq

structure Volume where
  fileSystems : List ℕ
  vpb : Vpb
  holder : Option Holder

structure MountScript where
  answer : ℕ → MountAnswer
  registered : List (List ℕ)

inductive VolumeRequest where
  | register (fs : ℕ)
  | unregister (fs : ℕ)
  | mount (allowRaw : Bool) (script : MountScript)
  | verify (allowRaw : Bool) (status : NtStatus) (script : MountScript)
  | dismount
  | openVolume (pathEmpty : Bool) (script : MountScript)

namespace Volume

def walked (s : Volume) (script : MountScript) : Mounting := mountWalk script.answer s.fileSystems script.registered s.vpb s.fileSystems

def accepted (s : Volume) (script : MountScript) : Option ℕ := (s.walked script).tried.find? fun fs => (script.answer fs).accepts

def iopRawMountVolume (v : Vpb) : Vpb := { v with flags := v.flags ||| (vpbMounted ||| vpbRawMount) }

def iopMountVolume (s : Volume) (allowRaw : Bool) (script : MountScript) : NtStatus × Volume :=
  if s.vpb.mounted then (Vpb.statusSuccess, s)
  else
    let out := s.walked script
    let holder := (s.accepted script).map Holder.fileSystem
    if out.status ≠ Vpb.statusSuccess ∧ allowRaw then (Vpb.statusSuccess, ⟨out.fileSystems, iopRawMountVolume out.vpb, some (holder.getD .raw)⟩)
    else (out.status, ⟨out.fileSystems, out.vpb, holder⟩)

def dropped (s : Volume) : Volume :=
  ⟨s.fileSystems, { s.vpb with deviceObject := none, flags := s.vpb.flags &&& ~~~vpbMounted }, none⟩

/-- `io_verify_volume`; `status` is what the request to verify leaves. -/
def ioVerifyVolume (s : Volume) (allowRaw : Bool) (status : NtStatus) (script : MountScript) : NtStatus × Volume :=
  if ¬ s.vpb.mounted then s.iopMountVolume allowRaw script
  else if s.vpb.deviceObject = none then (Vpb.statusSuccess, s)
  else if status ≠ Vpb.statusSuccess ∧ allowRaw then s.dropped.iopMountVolume allowRaw script
  else (status, s)

def iopDismountVolume (s : Volume) : Volume :=
  if s.vpb.deviceObject = none then { s with holder := none }
  else
    ⟨s.fileSystems, { deviceObject := none, flags := s.vpb.flags &&& ~~~vpbMounted, volumeLabelLength := 0 }, none⟩

/-- `iop_check_volume_mount`, the mount that an open makes: the target device and the status. -/
def iopCheckVolumeMount (s : Volume) (pathEmpty : Bool) (script : MountScript) : (Option ℕ × NtStatus) × Volume :=
  if s.vpb.mounted then ((s.vpb.deviceObject, Vpb.statusSuccess), s)
  else
    let (status, t) := s.iopMountVolume true script
    if status ≠ Vpb.statusSuccess then ((none, if pathEmpty then Vpb.statusSuccess else status), t)
    else ((t.vpb.deviceObject, Vpb.statusSuccess), t)

def step (s : Volume) : VolumeRequest → Volume
  | .register fs => { s with fileSystems := s.fileSystems ++ [fs] }
  | .unregister fs => { s with fileSystems := s.fileSystems.erase fs }
  | .mount allowRaw script => (s.iopMountVolume allowRaw script).2
  | .verify allowRaw status script => (s.ioVerifyVolume allowRaw status script).2
  | .dismount => s.iopDismountVolume
  | .openVolume pathEmpty script => (s.iopCheckVolumeMount pathEmpty script).2

def Truthful (s : Volume) : Prop := s.vpb.mounted = s.holder.isSome

structure MountsRight (s : Volume) (allowRaw : Bool) (script : MountScript) : Prop where
  succeeds : (s.iopMountVolume allowRaw script).1 = Vpb.statusSuccess ↔
    s.vpb.mounted = true ∨ (∃ fs ∈ (s.walked script).tried, (script.answer fs).accepts = true) ∨ allowRaw = true
  kept : s.vpb.mounted = true → (s.iopMountVolume allowRaw script).2 = s
  first : s.vpb.mounted = false → ∀ fs, s.accepted script = some fs → (s.iopMountVolume allowRaw script).2.holder = some (.fileSystem fs) ∧
    (s.iopMountVolume allowRaw script).2.vpb.deviceObject = (script.answer fs).device ∧ (s.walked script).tried.getLast? = some fs
  raw : s.vpb.mounted = false → s.accepted script = none →
    (s.iopMountVolume allowRaw script).2.holder = if allowRaw then some .raw else none
  listed : (s.walked script).tried <+: (s.walked script).fileSystems

def Keeps (s : Volume) : VolumeRequest → Prop
  | .mount allowRaw script => s.MountsRight allowRaw script
  | .verify allowRaw status script => (s.vpb.mounted = false → s.MountsRight allowRaw script) ∧
    (s.vpb.mounted = true → s.vpb.deviceObject ≠ none → status ≠ Vpb.statusSuccess → allowRaw = true → s.dropped.MountsRight allowRaw script)
  | .dismount => s.iopDismountVolume.vpb.mounted = false
  | .openVolume pathEmpty script => s.MountsRight true script ∧ (s.iopCheckVolumeMount pathEmpty script).1.2 = Vpb.statusSuccess ∧
    (s.iopCheckVolumeMount pathEmpty script).2 = (s.iopMountVolume true script).2 ∧
    (s.iopCheckVolumeMount pathEmpty script).2.vpb.mounted = true
  | .register _ | .unregister _ => True

/-- Every file system that is tried leaves success in the status field when it completed the request successfully, and only then. -/
def Told (s : Volume) (script : MountScript) : Prop :=
  ∀ fs ∈ (s.walked script).tried, (script.answer fs).iopSendMountVolumeIrp = Vpb.statusSuccess ↔ (script.answer fs).accepts = true

def Spared (s : Volume) : VolumeRequest → Prop
  | .mount _ script | .openVolume _ script => s.vpb.mounted = false → s.Told script
  | .verify allowRaw status script => (s.vpb.mounted = false → s.Told script) ∧
    (s.vpb.mounted = true → s.vpb.deviceObject ≠ none → status ≠ Vpb.statusSuccess → allowRaw = true → s.dropped.Told script)
  | .dismount => s.vpb.deviceObject ≠ none ∨ s.vpb.mounted = false
  | .register _ | .unregister _ => True

/-! ### The walk -/

section Walk
variable {answer : ℕ → MountAnswer}

theorem mountWalk_tried (todo : List ℕ) (registered : List (List ℕ)) (v : Vpb) (before : List ℕ) :
    before ++ (mountWalk answer todo registered v (before ++ todo)).tried <+: (mountWalk answer todo registered v (before ++ todo)).fileSystems := by
  induction hn : todo.length + registered.flatten.length using Nat.strong_induction_on generalizing todo registered v before with
  | _ n ih =>
    cases todo with
    | nil => rw [mountWalk]
    | cons fs todo =>
      rw [mountWalk]
      simp only
      split_ifs
      · exact ⟨todo ++ registered.headD [], by simp⟩
      · have hlt : (todo ++ registered.headD []).length + registered.tail.flatten.length < n := by
          subst hn
          cases registered with
          | nil => simp
          | cons new registered =>
            simp only [headD_cons, tail_cons, length_append, length_cons, flatten_cons]
            omega
        have hrest := ih _ hlt (todo ++ registered.headD []) registered.tail ((answer fs).effect v) (before ++ [fs]) rfl
        simpa using hrest

theorem mountWalk_spec (todo : List ℕ) (registered : List (List ℕ)) (v : Vpb) (fileSystems : List ℕ)
    (htold : ∀ fs ∈ (mountWalk answer todo registered v fileSystems).tried,
      (answer fs).iopSendMountVolumeIrp = Vpb.statusSuccess ↔ (answer fs).accepts = true) :
    (∃ fs, (mountWalk answer todo registered v fileSystems).tried.find? (fun fs => (answer fs).accepts) = some fs ∧
        (mountWalk answer todo registered v fileSystems).tried.getLast? = some fs ∧
        (mountWalk answer todo registered v fileSystems).status = Vpb.statusSuccess ∧
        (mountWalk answer todo registered v fileSystems).vpb = (answer fs).effect v) ∨
      ((mountWalk answer todo registered v fileSystems).tried.find? (fun fs => (answer fs).accepts) = none ∧
        (mountWalk answer todo registered v fileSystems).status = statusUnrecognizedVolume ∧
        (mountWalk answer todo registered v fileSystems).vpb = v) := by
  induction hn : todo.length + registered.flatten.length using Nat.strong_induction_on generalizing todo registered v fileSystems with
  | _ n ih =>
    cases todo with
    | nil =>
      rw [mountWalk]
      exact Or.inr ⟨rfl, rfl, rfl⟩
    | cons fs todo =>
      rw [mountWalk] at htold ⊢
      simp only at htold ⊢
      split_ifs at htold ⊢ with hsuccess
      · have haccepts : (answer fs).accepts = true := (htold fs mem_cons_self).1 hsuccess
        exact Or.inl ⟨fs, find?_cons_of_pos haccepts, rfl, rfl, rfl⟩
      · have haccepts : (answer fs).accepts = false := by
          cases h : (answer fs).accepts with
          | false => rfl
          | true => exact absurd ((htold fs mem_cons_self).2 h) hsuccess
        have hlt : (todo ++ registered.headD []).length + registered.tail.flatten.length < n := by
          subst hn
          cases registered with
          | nil => simp
          | cons new registered =>
            simp only [headD_cons, tail_cons, length_append, length_cons, flatten_cons]
            omega
        have hsame : (answer fs).effect v = v := by
          rw [MountAnswer.effect, haccepts]
          rfl
        have hrest := ih _ hlt (todo ++ registered.headD []) registered.tail ((answer fs).effect v) (fileSystems ++ registered.headD [])
          (fun fs' hfs' => htold fs' (mem_cons_of_mem fs hfs')) rfl
        rw [hsame] at hrest ⊢
        rw [find?_cons_of_neg (by rw [haccepts]; exact Bool.false_ne_true)]
        rcases hrest with ⟨fs', hfind, hlast, hstatus, hvpb⟩ | hnone
        · exact Or.inl ⟨fs', hfind, by rw [getLast?_cons, hlast]; rfl, hstatus, hvpb⟩
        · exact Or.inr hnone

end Walk

/-! ### Flags -/

section Flags
variable (v : Vpb)

theorem mounted_raw : (iopRawMountVolume v).mounted = true := by
  simp [iopRawMountVolume, Vpb.mounted, vpbMounted, vpbRawMount]

theorem mounted_effect (a : MountAnswer) (h : a.accepts = true) : (a.effect v).mounted = true := by
  rw [MountAnswer.effect, if_pos h]
  simp [Vpb.mounted, vpbMounted]

theorem mounted_cleared (flags : BitVec 16) (device : Option ℕ) (length : ℕ) :
    Vpb.mounted ⟨device, flags &&& ~~~vpbMounted, length⟩ = false := by
  simp [Vpb.mounted, vpbMounted]

end Flags

/-! ### Requests -/

variable {s : Volume} {allowRaw : Bool} {script : MountScript}

theorem mountsRight (htruthful : s.Truthful) (hspared : s.vpb.mounted = false → s.Told script) :
    s.MountsRight allowRaw script ∧ (s.iopMountVolume allowRaw script).2.Truthful ∧
      (allowRaw = true → (s.iopMountVolume allowRaw script).1 = Vpb.statusSuccess ∧ (s.iopMountVolume allowRaw script).2.vpb.mounted = true) := by
  have hlisted : (s.walked script).tried <+: (s.walked script).fileSystems := mountWalk_tried s.fileSystems script.registered s.vpb []
  cases hmounted : s.vpb.mounted with
  | true =>
    have heq : s.iopMountVolume allowRaw script = (Vpb.statusSuccess, s) := if_pos hmounted
    rw [heq]
    refine ⟨⟨⟨fun _ => Or.inl hmounted, fun _ => by rw [heq]⟩, fun _ => by rw [heq], fun hoff => ?_, fun hoff => ?_, hlisted⟩, htruthful,
      fun _ => ⟨rfl, hmounted⟩⟩
    · exact absurd (hmounted.symm.trans hoff) (by decide)
    · exact absurd (hmounted.symm.trans hoff) (by decide)
  | false =>
    have hoff : ¬ s.vpb.mounted = true := by simp [hmounted]
    rcases mountWalk_spec s.fileSystems script.registered s.vpb s.fileSystems (hspared hmounted) with
      ⟨fs, hfind, hlast, hstatus, hvpb⟩ | ⟨hfind, hstatus, hvpb⟩
    · have haccepted : s.accepted script = some fs := hfind
      have haccepts : (script.answer fs).accepts = true :=
        find?_some (p := fun fs => (script.answer fs).accepts) hfind
      have heq : s.iopMountVolume allowRaw script =
          (Vpb.statusSuccess, ⟨(s.walked script).fileSystems, (script.answer fs).effect s.vpb, some (.fileSystem fs)⟩) := by
        unfold iopMountVolume
        rw [if_neg hoff, haccepted]
        simp only [walked, hstatus, hvpb, ne_eq, not_true_eq_false, false_and, if_false, Option.map_some]
      have hdevice : ((script.answer fs).effect s.vpb).deviceObject = (script.answer fs).device := by
        rw [MountAnswer.effect, if_pos haccepts]
      rw [heq]
      refine ⟨⟨⟨fun _ => Or.inr (Or.inl ⟨fs, mem_of_find?_eq_some hfind, haccepts⟩), fun _ => by rw [heq]⟩,
        fun hon => absurd hon hoff, fun _ fs' hfs' => ?_, fun _ hnone => ?_, hlisted⟩, mounted_effect _ _ haccepts,
        fun _ => ⟨rfl, mounted_effect _ _ haccepts⟩⟩
      · obtain rfl := Option.some.inj (haccepted.symm.trans hfs')
        rw [heq]
        exact ⟨rfl, hdevice, hlast⟩
      · exact absurd (haccepted.symm.trans hnone) (by simp)
    · have haccepted : s.accepted script = none := hfind
      have hnobody : ¬ ∃ fs ∈ (s.walked script).tried, (script.answer fs).accepts = true := by
        rintro ⟨fs, hfs, haccepts⟩
        exact find?_eq_none.1 hfind fs hfs haccepts
      have hfail : (s.walked script).status ≠ Vpb.statusSuccess := by
        unfold walked
        rw [hstatus]
        decide
      cases allowRaw with
      | true =>
        have heq : s.iopMountVolume true script = (Vpb.statusSuccess, ⟨(s.walked script).fileSystems, iopRawMountVolume s.vpb, some .raw⟩) := by
          unfold iopMountVolume
          rw [if_neg hoff, haccepted]
          simp only [ne_eq, hfail, not_false_eq_true, and_self, if_true]
          simp only [walked, hvpb]
          rfl
        rw [heq]
        refine ⟨⟨⟨fun _ => Or.inr (Or.inr rfl), fun _ => by rw [heq]⟩, fun hon => absurd hon hoff, fun _ fs hfs => ?_,
          fun _ _ => by rw [heq]; rfl, hlisted⟩, mounted_raw _, fun _ => ⟨rfl, mounted_raw _⟩⟩
        exact absurd (haccepted.symm.trans hfs) (by simp)
      | false =>
        have heq : s.iopMountVolume false script = (statusUnrecognizedVolume, ⟨(s.walked script).fileSystems, s.vpb, none⟩) := by
          unfold iopMountVolume
          rw [if_neg hoff, haccepted]
          simp only [Bool.false_eq_true, and_false, if_false, Option.map_none]
          simp only [walked, hvpb, hstatus]
        rw [heq]
        refine ⟨⟨⟨fun hsuccess => ?_, fun hcases => ?_⟩, fun hon => absurd hon hoff, fun _ fs hfs => ?_,
          fun _ _ => by rw [heq]; rfl, hlisted⟩,
          hmounted, fun hraw => absurd hraw Bool.false_ne_true⟩
        · rw [heq] at hsuccess
          have hne : statusUnrecognizedVolume ≠ Vpb.statusSuccess := by decide
          exact absurd hsuccess hne
        · rcases hcases with hon | hsome | hraw
          · exact absurd hon hoff
          · exact absurd hsome hnobody
          · exact absurd hraw Bool.false_ne_true
        · exact absurd (haccepted.symm.trans hfs) (by simp)

theorem truthful_dropped (s : Volume) : s.dropped.Truthful := mounted_cleared _ _ _

theorem truthful_verify {status : NtStatus} (htruthful : s.Truthful) (hfirst : s.vpb.mounted = false → s.Told script)
    (hagain : s.vpb.mounted = true → s.vpb.deviceObject ≠ none → status ≠ Vpb.statusSuccess → allowRaw = true → s.dropped.Told script) :
    (s.ioVerifyVolume allowRaw status script).2.Truthful := by
  by_cases hoff : s.vpb.mounted = true
  · by_cases hdevice : s.vpb.deviceObject = none
    · rw [ioVerifyVolume, if_neg (not_not.2 hoff), if_pos hdevice]
      exact htruthful
    · by_cases hfail : status ≠ Vpb.statusSuccess ∧ allowRaw = true
      · rw [ioVerifyVolume, if_neg (not_not.2 hoff), if_neg hdevice, if_pos hfail]
        exact (mountsRight (truthful_dropped s) fun _ => hagain hoff hdevice hfail.1 hfail.2).2.1
      · rw [ioVerifyVolume, if_neg (not_not.2 hoff), if_neg hdevice, if_neg hfail]
        exact htruthful
  · rw [ioVerifyVolume, if_pos hoff]
    exact (mountsRight htruthful hfirst).2.1

theorem dismount_spec (h : s.vpb.deviceObject ≠ none ∨ s.vpb.mounted = false) :
    s.iopDismountVolume.vpb.mounted = false ∧ s.iopDismountVolume.holder = none := by
  unfold iopDismountVolume
  split_ifs with hdevice
  · exact ⟨h.resolve_left fun hne => hne hdevice, rfl⟩
  · exact ⟨mounted_cleared _ _ _, rfl⟩

theorem open_spec (pathEmpty : Bool) (hright : s.MountsRight true script) (hstatus : (s.iopMountVolume true script).1 = Vpb.statusSuccess) :
    (s.iopCheckVolumeMount pathEmpty script).1.2 = Vpb.statusSuccess ∧
      (s.iopCheckVolumeMount pathEmpty script).2 = (s.iopMountVolume true script).2 := by
  by_cases hon : s.vpb.mounted = true
  · rw [iopCheckVolumeMount, if_pos hon]
    exact ⟨rfl, (hright.kept hon).symm⟩
  · rw [iopCheckVolumeMount, if_neg hon]
    simp only [hstatus, ne_eq, not_true_eq_false, if_false, and_self]

theorem step_spec {r : VolumeRequest} (htruthful : s.Truthful) (hspared : s.Spared r) : s.Keeps r ∧ (s.step r).Truthful := by
  cases r with
  | register fs => exact ⟨trivial, htruthful⟩
  | unregister fs => exact ⟨trivial, htruthful⟩
  | mount allowRaw script =>
    obtain ⟨hright, hafter, -⟩ := mountsRight htruthful hspared
    exact ⟨hright, hafter⟩
  | verify allowRaw status script =>
    obtain ⟨hfirst, hagain⟩ := hspared
    refine ⟨⟨fun _ => (mountsRight htruthful hfirst).1,
      fun hon hdevice hstatus hraw => (mountsRight (truthful_dropped s) fun _ => hagain hon hdevice hstatus hraw).1⟩, ?_⟩
    exact truthful_verify htruthful hfirst hagain
  | dismount =>
    obtain ⟨hmounted, hholder⟩ := dismount_spec hspared
    refine ⟨hmounted, ?_⟩
    change s.iopDismountVolume.vpb.mounted = s.iopDismountVolume.holder.isSome
    rw [hmounted, hholder]
    rfl
  | openVolume pathEmpty script =>
    obtain ⟨hright, hafter, hsuccess⟩ := @mountsRight s true script htruthful hspared
    obtain ⟨hstatus, hmounted⟩ := hsuccess rfl
    obtain ⟨hopen, hleft⟩ := open_spec pathEmpty hright hstatus
    refine ⟨⟨hright, hopen, hleft, by rw [hleft]; exact hmounted⟩, ?_⟩
    change (s.iopCheckVolumeMount pathEmpty script).2.Truthful
    rw [hleft]
    exact hafter

/-- In every run under the condition the first to accept a volume mounts it, a mount fails only
without one, the flag is right, and an open after a dismount mounts again. -/
theorem mounts_of_told {rs : List VolumeRequest} (h₀ : s.Truthful) (hrs : EveryStep step Spared s rs) :
    EveryStep step Keeps s rs ∧ EveryState step Truthful s rs :=
  ⟨everyStep_of_invariant (fun _ _ h hspared => (step_spec h hspared).2) (fun _ _ h hspared => (step_spec h hspared).1) h₀ hrs,
    everyState_invariant (fun _ _ h hspared => (step_spec h hspared).2) h₀ hrs⟩

section Runs

def accepting : MountScript := ⟨fun fs => .taken (some Vpb.statusSuccess) Vpb.statusSuccess fs, []⟩

/-- A file system whose driver has no routine for the request. -/
def refusing : MountScript := ⟨fun _ => .noRoutine, []⟩

def unmounted : Volume := ⟨[], ⟨none, 0, 0⟩, none⟩

theorem told_accepting (s : Volume) : s.Told accepting := fun _ _ => ⟨fun _ => rfl, fun _ => rfl⟩

theorem mount_accepting :
    (unmounted.step (.register 7)).step (.mount false accepting) = ⟨[7], ⟨some 7, vpbMounted, 22⟩, some (.fileSystem 7)⟩ := by
  simp [step, iopMountVolume, walked, accepted, mountWalk, accepting, unmounted, MountAnswer.iopSendMountVolumeIrp, MountAnswer.effect,
    MountAnswer.accepts, MountAnswer.device, Vpb.mounted]

theorem mounts_again :
    EveryStep step Keeps unmounted [.register 7, .mount false accepting, .dismount, .openVolume true accepting] ∧
      EveryState step Truthful unmounted [.register 7, .mount false accepting, .dismount, .openVolume true accepting] :=
  mounts_of_told rfl ⟨trivial, fun _ => told_accepting _, Or.inl (by rw [mount_accepting]; exact Option.some_ne_none 7),
    fun _ => told_accepting _, trivial⟩

/-- A driver without a routine for the request mounts the volume, and a raw mount stays after its dismount. -/
theorem mounts_unaccepted :
    ((⟨[7], ⟨none, 0, 0⟩, none⟩ : Volume).iopMountVolume false refusing).1 = Vpb.statusSuccess ∧
      (∀ fs, (refusing.answer fs).accepts = false) ∧
      ((⟨[7], ⟨none, 0, 0⟩, none⟩ : Volume).iopMountVolume false refusing).2.vpb.mounted = false ∧
      ((unmounted.step (.mount true refusing)).step .dismount).vpb.mounted = true := by
  refine ⟨?_, fun _ => rfl, ?_, ?_⟩ <;>
    simp [step, iopMountVolume, iopDismountVolume, iopRawMountVolume, walked, accepted, mountWalk, refusing, unmounted,
      MountAnswer.iopSendMountVolumeIrp, MountAnswer.effect, MountAnswer.accepts, Vpb.mounted, Vpb.statusSuccess, statusUnrecognizedVolume,
      vpbMounted, vpbRawMount]

end Runs

end Volume

end XenOS.Io
