import XenOS.Io.Disk
import Mathlib.Tactic.Linarith

/-! A partition is a window on its disk: which requests the three drivers turn into the command for
exactly their sectors. -/

namespace XenOS.Io

open General Nat

variable {lower : Srb → Answer} {disk : Disk} {partition : Partition} {request : Request}

structure Disk.Valid (disk : Disk) : Prop where
  sectorSize : ∃ k, 9 ≤ k ∧ k < 32 ∧ disk.sectorSize = 2 ^ k
  sectorCount : disk.sectorCount < 2 ^ 64

def Partition.On (partition : Partition) (disk : Disk) : Prop :=
  partition.startingLba + partition.sectorCount ≤ disk.sectorCount

def Request.Inside (request : Request) (disk : Disk) (partition : Partition) : Prop :=
  0 ≤ request.offset.toInt ∧
    request.offset.toNat + request.length.toNat ≤ partition.sectorCount * disk.sectorSize

def Request.Aligned (request : Request) (disk : Disk) : Prop :=
  disk.sectorSize ∣ request.offset.toNat ∧ disk.sectorSize ∣ request.length.toNat

def Srb.Addresses (srb : Srb) (disk : Disk) (partition : Partition) (request : Request) : Prop :=
  decodeCdb srb.cdb = some
    { isRead := request.isRead
      lba := partition.startingLba + request.offset.toNat / disk.sectorSize
      sectors := request.length.toNat / disk.sectorSize } ∧
  srb.dataTransferLength = request.length.toNat

/-- The sums and products on the way stay below the width of their fields. The bottom driver adds the sector
size to the length before it takes one off. -/
structure NoWrap (disk : Disk) (partition : Partition) (request : Request) : Prop where
  requestEnd : 0 ≤ request.offset.toInt → request.offset.toNat + request.length.toNat < 2 ^ 64
  partitionSize : 0 ≤ request.offset.toInt → partition.sectorCount * (filterExtension disk).sectorSize < 2 ^ 64
  actualOffset : request.Inside disk partition →
    partition.startingLba * (filterExtension disk).sectorSize + request.offset.toNat < 2 ^ 64
  sectorCount : request.Inside disk partition → request.length.toNat ≠ 0 → request.hasBuffer = true →
    request.length.toNat + disk.sectorSize < 2 ^ 32

structure Confined (disk : Disk) (partition : Partition) (request : Request) (outcome : Outcome) : Prop where
  succeeds : ntSuccess outcome.status = true → request.Inside disk partition ∧ request.Aligned disk
  sends : ntSuccess outcome.status = true → request.length.toNat ≠ 0 → outcome.command ≠ none
  addresses : ∀ srb, outcome.command = some srb →
    request.Inside disk partition ∧ request.Aligned disk ∧ srb.Addresses disk partition request
  noWrap : NoWrap disk partition request

def sectorRequest (disk : Disk) (isRead : Bool) (sector : ℕ) : Request where
  isRead := isRead
  offset := BitVec.ofNat 64 (sector * disk.sectorSize)
  length := BitVec.ofNat 32 disk.sectorSize

def CoversDisk (lower : Srb → Answer) (disk : Disk) : Prop :=
  ∀ isRead, ∀ sector < disk.sectorCount,
    (partmgrPdoReadWrite lower disk (partition0 disk) (sectorRequest disk isRead sector)).command ≠ none ∧
      NoWrap disk (partition0 disk) (sectorRequest disk isRead sector)

/-- The geometry of 255 heads and 63 sectors a track loses no sector, the offsets of the disk are not negative,
and a sector can be added to a sector. -/
structure Disk.Whole (disk : Disk) : Prop where
  cylinders : 63 * 255 ∣ disk.sectorCount
  offsets : disk.sectorCount * disk.sectorSize ≤ 2 ^ 63
  sector : 0 < disk.sectorCount → disk.sectorSize + disk.sectorSize < 2 ^ 32

structure Request.Fits (request : Request) (disk : Disk) (partition : Partition) : Prop where
  aligned : request.Inside disk partition →
    request.Aligned disk ∨ request.length.toNat ≠ 0 ∧ (request.hasBuffer = false ∨ request.allocates = false)
  rounds : request.Inside disk partition → request.length.toNat ≠ 0 → request.hasBuffer = true →
    request.length.toNat + disk.sectorSize < 2 ^ 32

theorem Disk.Valid.pos (h : disk.Valid) : 0 < disk.sectorSize := by
  obtain ⟨k, -, -, hk⟩ := h.sectorSize
  rw [hk]
  exact Nat.two_pow_pos k

theorem Disk.Valid.lt (h : disk.Valid) : disk.sectorSize < 2 ^ 32 := by
  obtain ⟨k, -, hlt, hk⟩ := h.sectorSize
  rw [hk]
  exact Nat.pow_lt_pow_right (by norm_num) hlt

theorem Disk.Valid.dvd {n : ℕ} (h : disk.Valid) (hn : 32 ≤ n) : disk.sectorSize ∣ 2 ^ n := by
  obtain ⟨k, -, hlt, hk⟩ := h.sectorSize
  rw [hk]
  exact pow_dvd_pow 2 (by omega)

def Disk.cylinderSectors (disk : Disk) : ℕ := disk.sectorCount / (63 * 255) * 255 * 63

theorem readDiskGeometry_eq (h : disk.Valid) : readDiskGeometry disk = (disk.cylinderSectors, disk.sectorSize) := by
  have hlt := h.sectorCount
  have hle : disk.sectorCount / (63 * 255) * 255 * 63 ≤ disk.sectorCount := by omega
  unfold readDiskGeometry diskFdoIoctlGetGeometry Disk.cylinderSectors
  dsimp only
  simp only [wrap64]
  rw [mod_eq_of_lt (a := disk.sectorCount / (63 * 255) * 255) (by omega), mod_eq_of_lt (by omega)]

theorem filterExtension_eq (h : disk.Valid) :
    filterExtension disk = if disk.cylinderSectors = 0 then { sectorCount := 0, sectorSize := 512 }
      else { sectorCount := disk.cylinderSectors, sectorSize := disk.sectorSize } := by
  unfold filterExtension
  rw [readDiskGeometry_eq h]

theorem Disk.Whole.cylinderSectors (h : disk.Whole) : disk.cylinderSectors = disk.sectorCount := by
  obtain ⟨⟨c, hc⟩, -, -⟩ := h
  unfold Disk.cylinderSectors
  omega

theorem Disk.Whole.sectorCount (h : disk.Whole) (hv : disk.Valid) : (filterExtension disk).sectorCount = disk.sectorCount := by
  rw [filterExtension_eq hv, h.cylinderSectors]
  split
  · exact (‹disk.sectorCount = 0›).symm
  · rfl

theorem Disk.Whole.bytes (h : disk.Whole) (hv : disk.Valid) {n : ℕ} (hn : n ≤ disk.sectorCount) :
    n * (filterExtension disk).sectorSize = n * disk.sectorSize := by
  rw [filterExtension_eq hv, h.cylinderSectors]
  split
  · rename_i hzero
    obtain rfl : n = 0 := by omega
    simp
  · rfl

theorem decode_buildSrb (isRead : Bool) {length startLba sectorCount : ℕ} (hlba : startLba < 2 ^ 64)
    (hcount : sectorCount < 2 ^ 32) :
    decodeCdb (buildSrb isRead length startLba sectorCount).cdb =
      some { isRead := isRead, lba := startLba, sectors := sectorCount } := by
  unfold buildSrb
  split
  · rename_i hsmall
    have hlba4 : ofBytes (toBytes 4 startLba) = startLba := ofBytes_toBytes (by omega)
    have hcount2 : ofBytes (toBytes 2 sectorCount) = sectorCount := ofBytes_toBytes (by omega)
    cases isRead
    · show some ({ isRead := false, lba := ofBytes (toBytes 4 startLba), sectors := ofBytes (toBytes 2 sectorCount) } : Command) = _
      rw [hlba4, hcount2]
    · show some ({ isRead := true, lba := ofBytes (toBytes 4 startLba), sectors := ofBytes (toBytes 2 sectorCount) } : Command) = _
      rw [hlba4, hcount2]
  · have hlba8 : ofBytes (toBytes 8 startLba) = startLba := ofBytes_toBytes (by omega)
    have hcount4 : ofBytes (toBytes 4 sectorCount) = sectorCount := ofBytes_toBytes (by omega)
    cases isRead
    · show some ({ isRead := false, lba := ofBytes (toBytes 8 startLba), sectors := ofBytes (toBytes 4 sectorCount) } : Command) = _
      rw [hlba8, hcount4]
    · show some ({ isRead := true, lba := ofBytes (toBytes 8 startLba), sectors := ofBytes (toBytes 4 sectorCount) } : Command) = _
      rw [hlba8, hcount4]

theorem buildSrb_length (isRead : Bool) (length startLba sectorCount : ℕ) :
    (buildSrb isRead length startLba sectorCount).dataTransferLength = length := by
  unfold buildSrb
  split <;> rfl

theorem offset_nonneg_iff (request : Request) : 0 ≤ request.offset.toInt ↔ request.offset.toNat < 2 ^ 63 := by
  rw [BitVec.toInt_eq_toNat_cond]
  have := request.offset.isLt
  split <;> omega

theorem Partition.On.bytes_le (h : partition.On disk) :
    partition.startingLba * disk.sectorSize + partition.sectorCount * disk.sectorSize ≤ disk.sectorCount * disk.sectorSize := by
  rw [← add_mul]
  exact mul_le_mul_right _ h

variable (lower request) in
/-- The partition manager refuses what is not inside the partition, and passes the rest on to the sectors of
the partition. -/
theorem partmgrPdoReadWrite_eq (hv : disk.Valid) (hwhole : disk.Whole) (hon : partition.On disk) :
    (¬ request.Inside disk partition ∧
      partmgrPdoReadWrite lower disk partition request = { status := statusInvalidParameter }) ∨
    request.Inside disk partition ∧ ∃ offset : BitVec 64,
      offset.toNat = partition.startingLba * disk.sectorSize + request.offset.toNat ∧
      partmgrPdoReadWrite lower disk partition request = diskFdoReadWrite lower disk { request with offset := offset } := by
  have hbytes := hon.bytes_le
  have hdisk := hwhole.offsets
  have hlength := request.length.isLt
  have hcount : partition.sectorCount ≤ disk.sectorCount := le_of_add_le_right hon
  have hstart : partition.startingLba ≤ disk.sectorCount := le_of_add_le_left hon
  unfold partmgrPdoReadWrite
  dsimp only
  rw [hwhole.bytes hv hcount, hwhole.bytes hv hstart]
  split
  · rename_i hneg
    exact .inl ⟨fun hin => absurd hin.1 (not_le.2 hneg), rfl⟩
  · rename_i hneg
    have hnonneg := (offset_nonneg_iff request).1 (not_lt.1 hneg)
    have hsize : wrap64 (partition.sectorCount * disk.sectorSize) = partition.sectorCount * disk.sectorSize :=
      mod_eq_of_lt (by omega)
    have hend : wrap64 (request.offset.toNat + request.length.toNat) = request.offset.toNat + request.length.toNat :=
      mod_eq_of_lt (by omega)
    rw [hsize, hend]
    split
    · rename_i hout
      exact .inl ⟨fun hin => absurd hin.2 (not_le.2 hout), rfl⟩
    · rename_i hout
      refine .inr ⟨⟨not_lt.1 hneg, not_lt.1 hout⟩, _, ?_, rfl⟩
      simp only [wrap64, BitVec.toNat_ofNat]
      rw [mod_eq_of_lt (a := partition.startingLba * disk.sectorSize) (by omega), mod_mod, mod_eq_of_lt (by omega)]

variable (lower request) in
theorem diskFdoReadWrite_eq (hv : disk.Valid) :
    (request.length.toNat = 0 ∧ diskFdoReadWrite lower disk request = { status := statusSuccess }) ∨
    (request.length.toNat ≠ 0 ∧ (request.hasBuffer = false ∨ request.allocates = false) ∧
      ∃ status, ntSuccess status = false ∧ diskFdoReadWrite lower disk request = { status := status }) ∨
    request.length.toNat ≠ 0 ∧ request.hasBuffer = true ∧ request.allocates = true ∧
      (diskFdoReadWrite lower disk request).command = some (buildSrb request.isRead request.length.toNat
        (request.offset.toNat / disk.sectorSize)
        ((request.length.toNat + disk.sectorSize - 1) % 2 ^ 32 / disk.sectorSize)) := by
  unfold diskFdoReadWrite scsiReadWriteInternal
  have hpos := hv.pos.ne'
  by_cases hzero : request.length.toNat = 0
  · rw [if_pos hzero]
    exact .inl ⟨hzero, rfl⟩
  · rw [if_neg hzero]
    cases hbuffer : request.hasBuffer with
    | false => exact .inr (.inl ⟨hzero, .inl rfl, _, by decide, rfl⟩)
    | true =>
      rw [if_pos rfl, if_neg (by simp [hzero, hpos])]
      dsimp only
      cases hallocates : request.allocates with
      | false => exact .inr (.inl ⟨hzero, .inr rfl, _, by decide, rfl⟩)
      | true => exact .inr (.inr ⟨hzero, rfl, rfl, rfl⟩)

theorem noWrap_of_whole (hv : disk.Valid) (hwhole : disk.Whole) (hon : partition.On disk)
    (hrounds : request.Inside disk partition → request.length.toNat ≠ 0 → request.hasBuffer = true →
      request.length.toNat + disk.sectorSize < 2 ^ 32) : NoWrap disk partition request := by
  have hbytes := hon.bytes_le
  have hdisk := hwhole.offsets
  have hlength := request.length.isLt
  refine ⟨fun hnonneg => ?_, fun _ => ?_, fun hin => ?_, hrounds⟩
  · have := (offset_nonneg_iff request).1 hnonneg
    omega
  · rw [hwhole.bytes hv (le_of_add_le_right hon)]
    omega
  · have := hin.2
    rw [hwhole.bytes hv (le_of_add_le_left hon)]
    omega

variable (partition) in
theorem aligned_sectors (hv : disk.Valid) (haligned : request.Aligned disk)
    (hlength : request.length.toNat + disk.sectorSize < 2 ^ 32) :
    (partition.startingLba * disk.sectorSize + request.offset.toNat) / disk.sectorSize =
        partition.startingLba + request.offset.toNat / disk.sectorSize ∧
      (request.length.toNat + disk.sectorSize - 1) % 2 ^ 32 / disk.sectorSize = request.length.toNat / disk.sectorSize := by
  have hpos := hv.pos
  obtain ⟨sectors, hsectors⟩ := haligned.2
  constructor
  · rw [Nat.add_comm, Nat.add_mul_div_right _ _ hpos, Nat.add_comm]
  · rw [Nat.mod_eq_of_lt (by omega), hsectors, Nat.mul_div_cancel_left _ hpos, Nat.add_sub_assoc hpos, Nat.mul_add_div hpos,
      Nat.div_eq_of_lt (by omega), Nat.add_zero]

theorem Request.Fits.confined (hv : disk.Valid) (hwhole : disk.Whole) (hon : partition.On disk)
    (hfits : request.Fits disk partition) :
    Confined disk partition request (partmgrPdoReadWrite lower disk partition request) := by
  have hnoWrap := noWrap_of_whole hv hwhole hon hfits.rounds
  rcases partmgrPdoReadWrite_eq lower request hv hwhole hon with ⟨-, heq⟩ | ⟨hin, offset, hoffset, heq⟩
  · rw [heq]
    refine ⟨fun hs => absurd hs (by decide), fun hs => absurd hs (by decide), fun srb hsrb => ?_, hnoWrap⟩
    cases hsrb
  · rw [heq]
    rcases diskFdoReadWrite_eq lower { request with offset := offset } hv with
      ⟨hzero, heq'⟩ | ⟨hzero, -, status, hstatus, heq'⟩ | ⟨hzero, hbuffer, hallocates, hcommand⟩
    · have haligned : request.Aligned disk := (hfits.aligned hin).resolve_right fun hc => hc.1 hzero
      rw [heq']
      refine ⟨fun _ => ⟨hin, haligned⟩, fun _ hne => absurd hzero hne, fun srb hsrb => ?_, hnoWrap⟩
      cases hsrb
    · rw [heq']
      refine ⟨fun hs => ?_, fun hs => ?_, fun srb hsrb => ?_, hnoWrap⟩
      · rw [hstatus] at hs
        cases hs
      · rw [hstatus] at hs
        cases hs
      · cases hsrb
    · have haligned : request.Aligned disk := (hfits.aligned hin).resolve_right fun hc => by
        rcases hc.2 with hc | hc
        · exact absurd (hc.symm.trans hbuffer) (by simp)
        · exact absurd (hc.symm.trans hallocates) (by simp)
      have hsum := hfits.rounds hin hzero hbuffer
      obtain ⟨hlba, hsectors⟩ := aligned_sectors partition hv haligned hsum
      refine ⟨fun _ => ⟨hin, haligned⟩, fun _ _ => by rw [hcommand]; simp, fun srb hsrb => ⟨hin, haligned, ?_⟩, hnoWrap⟩
      rw [hcommand] at hsrb
      cases hsrb
      dsimp only at hoffset ⊢
      rw [hoffset, hlba, hsectors]
      refine ⟨decode_buildSrb _ ?_ ?_, buildSrb_length _ _ _ _⟩
      · rw [← hlba, ← hoffset]
        exact lt_of_le_of_lt (div_le_self _ _) offset.isLt
      · exact lt_of_le_of_lt (div_le_self _ _) request.length.isLt

theorem Confined.fits (hv : disk.Valid) (hwhole : disk.Whole) (hon : partition.On disk)
    (hconfined : Confined disk partition request (partmgrPdoReadWrite lower disk partition request)) :
    request.Fits disk partition := by
  refine ⟨fun hin => ?_, hconfined.noWrap.sectorCount⟩
  rcases partmgrPdoReadWrite_eq lower request hv hwhole hon with ⟨hout, -⟩ | ⟨-, offset, -, heq⟩
  · exact absurd hin hout
  · rw [heq] at hconfined
    rcases diskFdoReadWrite_eq lower { request with offset := offset } hv with
      ⟨-, heq'⟩ | ⟨hzero, hcannot, -⟩ | ⟨-, -, -, hcommand⟩
    · exact .inl (hconfined.succeeds (by rw [heq']; decide)).2
    · exact .inr ⟨hzero, hcannot⟩
    · exact .inl (hconfined.addresses _ hcommand).2.1

theorem sectorRequest_offset (hv : disk.Valid) (isRead : Bool) {sector : ℕ} (h : sector * disk.sectorSize < 2 ^ 64) :
    (sectorRequest disk isRead sector).offset.toNat = sector * disk.sectorSize ∧
      (sectorRequest disk isRead sector).length.toNat = disk.sectorSize := by
  have hlt := hv.lt
  simp only [sectorRequest, BitVec.toNat_ofNat]
  exact ⟨mod_eq_of_lt h, mod_eq_of_lt hlt⟩

theorem Disk.Whole.coversDisk (hv : disk.Valid) (hwhole : disk.Whole) : CoversDisk lower disk := by
  intro isRead sector hsector
  have hpos := hv.pos
  have hdisk := hwhole.offsets
  have hnext : sector * disk.sectorSize + disk.sectorSize ≤ disk.sectorCount * disk.sectorSize := by
    rw [← succ_mul]
    exact mul_le_mul_right _ hsector
  have hcount : (partition0 disk).sectorCount = disk.sectorCount := hwhole.sectorCount hv
  have hon : (partition0 disk).On disk := by
    show 0 + (partition0 disk).sectorCount ≤ _
    omega
  obtain ⟨hoffset, hlength⟩ := sectorRequest_offset hv isRead (show sector * disk.sectorSize < 2 ^ 64 by omega)
  have hin : (sectorRequest disk isRead sector).Inside disk (partition0 disk) := by
    refine ⟨(offset_nonneg_iff _).2 ?_, ?_⟩
    · omega
    · rw [hoffset, hlength, hcount]
      exact hnext
  refine ⟨?_, noWrap_of_whole hv hwhole hon fun _ _ _ => ?_⟩
  · rcases partmgrPdoReadWrite_eq lower (sectorRequest disk isRead sector) hv hwhole hon with ⟨hout, -⟩ | ⟨-, offset, -, heq⟩
    · exact absurd hin hout
    · rw [heq]
      rcases diskFdoReadWrite_eq lower { sectorRequest disk isRead sector with offset := offset } hv with
        ⟨hzero, -⟩ | ⟨-, hcannot, -⟩ | ⟨-, -, -, hcommand⟩
      · exact absurd (hlength.symm.trans hzero) hpos.ne'
      · exact absurd hcannot (by simp [sectorRequest])
      · rw [hcommand]
        simp
  · rw [hlength]
    exact hwhole.sector (by omega)

theorem CoversDisk.whole (hv : disk.Valid) (hcovers : CoversDisk lower disk) : disk.Whole := by
  have hpos := hv.pos
  have hlt := hv.lt
  have haccepted (sector : ℕ) (hsector : sector < disk.sectorCount) (hsum : sector * disk.sectorSize < 2 ^ 64) :
      sector * disk.sectorSize < 2 ^ 63 ∧ sector * disk.sectorSize + disk.sectorSize ≤
        wrap64 ((partition0 disk).sectorCount * (filterExtension disk).sectorSize) := by
    obtain ⟨hoffset, hlength⟩ := sectorRequest_offset hv true hsum
    have hsome := (hcovers true sector hsector).1
    unfold partmgrPdoReadWrite at hsome
    dsimp only at hsome
    split at hsome
    · exact absurd rfl hsome
    · rename_i hneg
      have hnonneg := (offset_nonneg_iff _).1 (not_lt.1 hneg)
      rw [hoffset, hlength] at hsome
      rw [hoffset] at hnonneg
      split at hsome
      · exact absurd rfl hsome
      · rename_i hfits
        have hend : wrap64 (sector * disk.sectorSize + disk.sectorSize) = sector * disk.sectorSize + disk.sectorSize :=
          Nat.mod_eq_of_lt (by omega)
        rw [hend] at hfits
        exact ⟨hnonneg, not_lt.1 hfits⟩
  have hsmall : disk.sectorCount * disk.sectorSize ≤ 2 ^ 63 := by
    by_contra hlarge
    obtain ⟨c, hc⟩ := hv.dvd (n := 63) (by norm_num)
    have hsector : c < disk.sectorCount := by
      by_contra hge
      have := Nat.mul_le_mul_left disk.sectorSize (not_lt.1 hge)
      rw [Nat.mul_comm disk.sectorCount] at hlarge
      omega
    have := (haccepted c hsector (by rw [Nat.mul_comm]; omega)).1
    rw [Nat.mul_comm] at this
    omega
  rcases Nat.eq_zero_or_pos disk.sectorCount with hzero | hsome
  · exact ⟨hzero ▸ dvd_zero _, hsmall, fun hsome => absurd hzero hsome.ne'⟩
  · have hlast : (disk.sectorCount - 1) * disk.sectorSize + disk.sectorSize = disk.sectorCount * disk.sectorSize := by
      rw [← Nat.succ_mul]
      congr 1
      omega
    obtain ⟨-, hcover⟩ := haccepted (disk.sectorCount - 1) (by omega) (by omega)
    rw [hlast] at hcover
    have hle : disk.cylinderSectors ≤ disk.sectorCount := by
      unfold Disk.cylinderSectors
      omega
    have hcylinders : disk.cylinderSectors = disk.sectorCount ∧ (partition0 disk).sectorCount = disk.cylinderSectors := by
      unfold partition0 at hcover ⊢
      rw [filterExtension_eq hv] at hcover ⊢
      by_cases hnone : disk.cylinderSectors = 0
      · rw [if_pos hnone] at hcover
        have : 0 < disk.sectorCount * disk.sectorSize := Nat.mul_pos hsome hpos
        simp only [Nat.zero_mul, wrap64, Nat.zero_mod] at hcover
        omega
      · rw [if_neg hnone] at hcover ⊢
        have hmul := hcover.trans (Nat.mod_le _ _)
        exact ⟨le_antisymm hle (Nat.le_of_mul_le_mul_right hmul hpos), rfl⟩
    obtain ⟨hwhole, hpartition⟩ := hcylinders
    refine ⟨?_, hsmall, fun _ => ?_⟩
    · unfold Disk.cylinderSectors at hwhole
      exact ⟨disk.sectorCount / (63 * 255), by omega⟩
    · have hfirst : 0 * disk.sectorSize < 2 ^ 64 := by omega
      obtain ⟨hoffset, hlength⟩ := sectorRequest_offset hv true hfirst
      have hrounds := (hcovers true 0 hsome).2.sectorCount ⟨(offset_nonneg_iff _).2 (by omega), ?_⟩ (by omega) rfl
      · rwa [hlength] at hrounds
      · rw [hoffset, hlength, hpartition, hwhole, Nat.zero_mul, Nat.zero_add]
        exact Nat.le_mul_of_pos_left _ hsome

/-- Requests are confined to their partition, and Partition0 is the whole disk, exactly when the
geometry loses no sector, and inner requests are aligned or cannot be carried out and leave room for a sector. -/
theorem confined_iff (lower : Srb → Answer) (request : Request) (hv : disk.Valid) (hon : partition.On disk) :
    Confined disk partition request (partmgrPdoReadWrite lower disk partition request) ∧ CoversDisk lower disk ↔
      request.Fits disk partition ∧ disk.Whole := by
  constructor
  · rintro ⟨hconfined, hcovers⟩
    have hwhole := hcovers.whole hv
    exact ⟨hconfined.fits hv hwhole hon, hwhole⟩
  · rintro ⟨hfits, hwhole⟩
    exact ⟨hfits.confined hv hwhole hon, hwhole.coversDisk hv⟩

/-- A driver that carries every command out. -/
def answerAll (srb : Srb) : Answer := { returned := statusSuccess, status := statusSuccess, information := srb.dataTransferLength }

def oneCylinder : Disk := { sectorCount := 16065, sectorSize := 512 }

theorem confined_one_cylinder :
    Confined oneCylinder ⟨63, 16002⟩ ⟨false, 1024#64, 4096#32, true, true⟩
        (partmgrPdoReadWrite answerAll oneCylinder ⟨63, 16002⟩ ⟨false, 1024#64, 4096#32, true, true⟩) ∧
      CoversDisk answerAll oneCylinder :=
  Iff.mpr (confined_iff answerAll ⟨false, 1024#64, 4096#32, true, true⟩ ⟨⟨9, by decide⟩, by decide⟩
    (show 63 + 16002 ≤ 16065 by decide)) ⟨⟨fun _ => .inl ⟨by decide, by decide⟩, fun _ _ _ => by decide⟩, ⟨by decide, by decide, by decide⟩⟩

/-- A write of 512 bytes at offset 1 is rounded down to its first sector. -/
theorem unaligned_write_sent :
    ¬ Confined oneCylinder ⟨63, 16002⟩ ⟨false, 1#64, 512#32, true, true⟩
        (partmgrPdoReadWrite answerAll oneCylinder ⟨63, 16002⟩ ⟨false, 1#64, 512#32, true, true⟩) := by
  intro h
  have haligned : oneCylinder.sectorSize ∣ (1#64).toNat := (h.succeeds (by decide)).2.1
  revert haligned
  decide

end XenOS.Io
