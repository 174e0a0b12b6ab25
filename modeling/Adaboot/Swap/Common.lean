import Adaboot.Crash.Copies
import Adaboot.Loader.Specs

/-!
# Swaps that keep their status in the primary slot

What `swap_move.c` and `swap_offset.c` have in common: sectors of one size, the record in the trailer of the primary
slot, and how a swap begins and ends.
-/

namespace Adaboot

open Nor Crash

/-! ### Definitions -/

/-- What the loop of `swap_read_status_bytes` carries. An index of zero stands for `-1`. -/
structure StatusScan where
  foundIdx : Nat
  erasedSections : Nat

/-- The loop of `swap_read_status_bytes`, from the last entry down. Reads return zero. -/
def statusScanLoop (erased : Nat → Bool) : Nat → Nat → StatusScan → StatusScan
  | 0, _, s => s
  | i + 1, lastRc, s =>
    let s :=
      if erased i then
        { s with erasedSections := if 0 ≠ lastRc then s.erasedSections + 1 else s.erasedSections }
      else { s with foundIdx := if s.foundIdx = 0 then i + 1 else s.foundIdx }
    statusScanLoop erased i 0 s

/-- `swap_read_status_bytes` up to the decoding of the index it finds. -/
def findStatusIdx (b : LoaderBuild) (fap : Area) : Boot Nat := do
  let bd := b.board
  let off ← statusOff bd fap
  let fl ← .get
  if bd.faSize fap < off + (bootStatusEntries bd fap - 1) * bd.writeSz + 1 then .throw .eflash
  else
    let scan := statusScanLoop (fun i => fl fap (off + i * bd.writeSz) = erasedVal) (bootStatusEntries bd fap) 1 ⟨0, 0⟩
    if scan.erasedSections > 1 ∧ ¬b.validatePrimarySlot then .throw .panic
    else return scan.foundIdx

def swapStatusSource (bd : Board) (fl : Flash) : Option StatusSource := do
  let primary ← bootReadSwapState bd fl .primary
  let secondary ← bootReadSwapState bd fl .secondary
  if primary.magic = .good ∧ primary.copyDone = .unset ∧ secondary.magic ≠ .good then
    return .primarySlot
  return .none

def sectorCountLoop (sectorSz swapSize : Nat) : Nat → Nat → Nat → Nat
  | 0, _, count => count
  | fuel + 1, sz, count =>
    if sz + sectorSz ≥ swapSize then count + 1
    else sectorCountLoop sectorSz swapSize fuel (sz + sectorSz) (count + 1)

/-- The loop of `find_last_idx`: the sectors of one size that hold so many bytes, at least one. -/
def sectorCount (sectorSz swapSize : Nat) : Nat := sectorCountLoop sectorSz swapSize (swapSize + 1) 0 0

/-- The trailer in whole sectors, as `app_max_size` reserves it. -/
def reserved (bd : Board) (sectorSz : Nat) : Nat := alignUp (bootTrailerSz bd bd.writeSz) sectorSz

/-- The loop of `swap_run` that looks for the first sector of the trailer. -/
def firstTrailerIdxLoop (sectorSz trailerSz : Nat) : Nat → Nat → Nat → Nat
  | 0, _, idx => idx
  | fuel + 1, sz, idx =>
    if sz + sectorSz ≥ trailerSz then idx
    else firstTrailerIdxLoop sectorSz trailerSz fuel (sz + sectorSz) (u32 (idx + (2 ^ 32 - 1)))

def firstTrailerIdx (bd : Board) : Nat :=
  let trailerSz := bootTrailerSz bd bd.writeSz
  firstTrailerIdxLoop (bd.sectorSize .primary 0) trailerSz (trailerSz + 1) 0 (bd.numSectors .primary - 1)

/-- The beginning of a swap: the primary trailer records it, then the secondary one is cleared. -/
def beginSwap (bd : Board) (st : BootState) (bs : BootStatus) : Boot Unit := do
  if bs.source ≠ .primarySlot then
    assertOk (swapScrambleTrailerSectors bd .primary)
    assertOk (swapStatusInit bd st .primary bs)
  assertOk (swapScrambleTrailerSectors bd .secondary)

def replaceSector (bd : Board) (src dst : Area) (offSrc offDst sz : Nat) : Boot Unit := do
  assertOk (bootEraseRegion bd dst offDst sz false)
  assertOk (bootCopyRegion bd src dst offSrc offDst sz)

/-! ### Slots with sectors of one size -/

/-- Sectors of one size in a build that swaps without scratch. With offset a sector has room for a header. -/
structure UniformSlots (bd : Board) (S : Nat) : Prop where
  mode : bd.mode = .move ∨ bd.mode = .offset
  layout : ∀ a, a ≠ .scratch → bd.layout a = List.replicate (bd.numSectors a) S
  wide : bd.mode = .offset → imageHeaderSize ≤ S

/-- The size of the trailer that `swap_scramble_trailer_sectors` removes. -/
def scrambleSz (bd : Board) (a : Area) : Nat :=
  bootTrailerSz bd (if bd.writeSz < bd.align a then bd.align a else bd.writeSz)

section Geometry

variable {bd : Board} {S : Nat} {a : Area}

theorem infoSz_le_scrambleSz (bd : Board) (a : Area) : bootTrailerInfoSz bd ≤ scrambleSz bd a := Nat.le_add_left ..

theorem bootTrailerSz_le_scrambleSz (bd : Board) (a : Area) : bootTrailerSz bd bd.writeSz ≤ scrambleSz bd a := by
  have entries : ∀ {w w'}, w ≤ w' → bootStatusEntrySz bd w ≤ bootStatusEntrySz bd w' := by
    intro w w' le
    unfold bootStatusEntrySz
    split
    · exact le_rfl
    · exact Nat.mul_le_mul_left _ le
  unfold scrambleSz
  split
  next more => exact Nat.add_le_add_right (Nat.mul_le_mul_left _ (entries more.le)) _
  next => exact le_rfl

theorem bootTrailerInfoSz_ge (bd : Board) : 48 ≤ bootTrailerInfoSz bd := by
  have := magicAlignSize_ge bd
  have := bd.maxAlign_ge
  unfold bootTrailerInfoSz
  omega

/-- The build keeps the status of a swap in the primary slot. -/
def Board.KeepsStatus (bd : Board) : Prop := bd.mode = .move ∨ bd.mode = .offset

namespace Board.KeepsStatus

variable (keeps : bd.KeepsStatus)
include keeps

theorem not_scratch : bd.mode ≠ .scratch := by
  rcases keeps with h | h <;> simp [h]

theorem not_overwrite : bd.mode.isOverwrite = false := by
  rcases keeps with h | h <;> simp [h, SwapMode.isOverwrite]

theorem writeSz_eq : bd.writeSz = bd.align .primary := by
  rw [Board.writeSz, if_neg fun h => keeps.not_scratch h.1]

theorem scrambleSz_primary : scrambleSz bd .primary = bootTrailerSz bd bd.writeSz := by
  rw [scrambleSz, keeps.writeSz_eq, if_neg (Nat.lt_irrefl _)]

end Board.KeepsStatus

theorem trailerSector (room : scrambleSz bd a ≤ bd.faSize a) :
    ∃ t, t < bd.numSectors a ∧ bootTrailerScrambleOffset bd a bd.writeSz = some (bd.sectorOff a t) ∧
      bd.sectorOff a t ≤ bd.faSize a - scrambleSz bd a ∧ bd.faSize a - scrambleSz bd a < bd.sectorOff a (t + 1) := by
  have info := infoSz_le_scrambleSz bd a
  have ge := bootTrailerInfoSz_ge bd
  obtain ⟨⟨start, size⟩, found⟩ :=
    sectorAt_isSome (show bd.faSize a - scrambleSz bd a < (bd.layout a).sum from (show _ < bd.faSize a by omega))
  obtain ⟨t, lt, rfl, rfl, low, high⟩ := sectorAt_eq_some found
  refine ⟨t, lt, ?_, low, high⟩
  show (if bd.faSize a < scrambleSz bd a then none
    else (sectorAt (bd.layout a) (bd.faSize a - scrambleSz bd a)).map (·.1)) = _
  rw [if_neg (by omega), found]
  rfl

/-- Until the first erase nothing has changed, then the last sector is erased, and nothing below the trailer changes.
-/
theorem wp_swapScrambleTrailerSectors {n : Nat} (room : bd.sectorOff a n + scrambleSz bd a ≤ bd.faSize a)
    {Q : Unit → Flash → Prop} {E : BootErr → Flash → Prop} {C : Flash → Prop} {fl : Flash} (start : C fl)
    (cuts : ∀ fl', Flash.EqOutside a (bd.sectorOff a n) (bd.faSize a) fl fl' →
      Flash.Erased fl' a (bd.sectorOff a (bd.numSectors a - 1)) (bd.faSize a) → C fl')
    (post : ∀ fl', Flash.EqOutside a (bd.sectorOff a n) (bd.faSize a) fl fl' →
      Flash.Erased fl' a (bd.faSize a - scrambleSz bd a) (bd.faSize a) → Q () fl') :
    wp (swapScrambleTrailerSectors bd a) Q E C fl := by
  have size : scrambleSz bd a ≤ bd.faSize a := Nat.le_trans (Nat.le_add_left ..) room
  obtain ⟨t, lt, found, low, high⟩ := trailerSector size
  have below : n ≤ t := by
    by_contra above
    have := bd.sectorOff_mono a (show t + 1 ≤ n by omega)
    omega
  have top : bd.sectorOff a (bd.numSectors a) = bd.faSize a := bd.sectorOff_numSectors a
  have outside : ∀ k, t ≤ k → Flash.EqOutside a (bd.sectorOff a n) (bd.faSize a) fl
      (fl.erase a (bd.sectorOff a k) (bd.faSize a - bd.sectorOff a k)) := by
    intro k ge
    have above := bd.sectorOff_mono a (show n ≤ k by omega)
    have fits := bd.sectorOff_le_faSize a k
    exact (Flash.eqOutside_erase fl a _ _).mono (by omega) (by omega)
  have some := infoSz_le_scrambleSz bd a
  have info := bootTrailerInfoSz_ge bd
  unfold swapScrambleTrailerSectors
  rw [found]
  simp only [bootScrambleRegion]
  rw [if_neg (by omega)]
  rw [← top]
  refine bootEraseRegion_backwards_wp lt le_rfl ?_ ?_
  · rw [top]
    exact post _ (outside t le_rfl) fun i lo hi => Flash.erase_inside _ _ (by omega) (by omega)
  · intro k ge le
    rw [top]
    by_cases last : k = bd.numSectors a
    · rwa [last, top, Nat.sub_self, Flash.erase_zero]
    · have fits := bd.sectorOff_mono a (show k ≤ bd.numSectors a - 1 by omega)
      exact cuts _ (outside k (by omega)) fun i lo hi => Flash.erase_inside _ _ (by omega) (by omega)

/-- Slots with sectors of one size. -/
structure EvenSlots (bd : Board) (S : Nat) : Prop where
  keeps : bd.KeepsStatus
  layout : ∀ a, a ≠ .scratch → bd.layout a = List.replicate (bd.numSectors a) S

theorem UniformSlots.even (slots : UniformSlots bd S) : EvenSlots bd S := ⟨slots.mode, slots.layout⟩

theorem UniformSlots.keeps (slots : UniformSlots bd S) : bd.KeepsStatus := slots.mode

namespace EvenSlots

variable (slots : EvenSlots bd S)
include slots

variable (slot : a ≠ .scratch)
include slot

variable {i n : Nat}

theorem sectorOff_eq (le : i ≤ bd.numSectors a) : bd.sectorOff a i = i * S := by
  rw [Board.sectorOff, slots.layout a slot, sectorOff_replicate le]

theorem sectorSize_eq (lt : i < bd.numSectors a) : bd.sectorSize a i = S := by
  rw [Board.sectorSize, slots.layout a slot, sectorSize_replicate lt]

theorem faSize_eq : bd.faSize a = bd.numSectors a * S := by
  rw [← bd.sectorOff_numSectors, slots.sectorOff_eq slot le_rfl]

theorem sectors_pos (room : scrambleSz bd a ≤ bd.faSize a) : 0 < bd.numSectors a := by
  have := infoSz_le_scrambleSz bd a
  have := bootTrailerInfoSz_ge bd
  have size := slots.faSize_eq slot
  apply Nat.pos_of_ne_zero
  intro none
  rw [none, Nat.zero_mul] at size
  omega

theorem size_ge (room : scrambleSz bd a ≤ bd.faSize a) : 8 ≤ S := by
  have pos := slots.sectors_pos slot room
  rw [← slots.sectorSize_eq slot pos]
  exact bd.sectorSize_ge pos

variable (room : n * S + scrambleSz bd a ≤ bd.faSize a)
include room

theorem le_numSectors :
    n ≤ bd.numSectors a := by
  have ge := slots.size_ge slot (Nat.le_trans (Nat.le_add_left ..) room)
  rw [slots.faSize_eq slot] at room
  exact Nat.le_of_mul_le_mul_right (Nat.le_trans (Nat.le_add_right ..) room) (by omega)

theorem wp_scrambleTrailer
    {Q : Unit → Flash → Prop} {E : BootErr → Flash → Prop} {C : Flash → Prop} {fl : Flash} (start : C fl)
    (cuts : ∀ fl', Flash.EqOutside a (n * S) (bd.faSize a) fl fl' →
      Flash.Erased fl' a (bd.faSize a - S) (bd.faSize a) → C fl')
    (post : ∀ fl', Flash.EqOutside a (n * S) (bd.faSize a) fl fl' →
      Flash.Erased fl' a (bd.faSize a - scrambleSz bd a) (bd.faSize a) → Q () fl') :
    wp (swapScrambleTrailerSectors bd a) Q E C fl := by
  have off := slots.sectorOff_eq slot (slots.le_numSectors slot room)
  have last : bd.sectorOff a (bd.numSectors a - 1) = bd.faSize a - S := by
    rw [slots.sectorOff_eq slot (Nat.sub_le _ _), slots.faSize_eq slot, Nat.sub_mul, Nat.one_mul]
  rw [← off] at cuts post room
  rw [← last] at cuts
  exact wp_swapScrambleTrailerSectors room start cuts post

end EvenSlots

end Geometry

/-! ### Counting sectors -/

theorem le_sectorCountLoop (sectorSz swapSize fuel sz count : Nat) :
    count ≤ sectorCountLoop sectorSz swapSize fuel sz count := by
  induction fuel generalizing sz count with
  | zero => exact le_rfl
  | succ fuel ih =>
    rw [sectorCountLoop]
    split
    · exact Nat.le_succ _
    · exact Nat.le_of_succ_le (ih _ _)

theorem sectorCount_pos (sectorSz swapSize : Nat) : 0 < sectorCount sectorSz swapSize := by
  rw [sectorCount, sectorCountLoop]
  split
  · exact Nat.one_pos
  · exact le_sectorCountLoop _ _ _ _ 1

variable {sectorSz swapSize fuel sz n e S : Nat} {bd : Board} (pos : 0 < sectorSz)
include pos

theorem sectorCountLoop_spec {count : Nat}
    (enough : swapSize < sz + fuel) (scanned : sz = count * sectorSz) (less : sz < swapSize ∨ sz = 0) :
    let n := sectorCountLoop sectorSz swapSize fuel sz count
    0 < n ∧ swapSize ≤ n * sectorSz ∧ ((n - 1) * sectorSz < swapSize ∨ n = 1) := by
  induction fuel generalizing sz count with
  | zero => omega
  | succ fuel ih =>
    have next : (count + 1) * sectorSz = sz + sectorSz := by rw [Nat.succ_mul, scanned]
    simp only [sectorCountLoop]
    split
    next done =>
      refine ⟨by omega, by omega, ?_⟩
      rw [Nat.add_sub_cancel, ← scanned]
      rcases less with less | zero
      · exact .inl less
      · right
        have : count = 0 := by
          rcases Nat.eq_zero_or_pos count with h | h
          · exact h
          · have := Nat.mul_pos h pos
            omega
        omega
    next more => exact ih (by omega) next.symm (.inl (by omega))

/-- `find_last_idx` counts the sectors that the larger image reaches into. -/
theorem sectorCount_spec :
    0 < sectorCount sectorSz swapSize ∧ swapSize ≤ sectorCount sectorSz swapSize * sectorSz ∧
      ((sectorCount sectorSz swapSize - 1) * sectorSz < swapSize ∨ sectorCount sectorSz swapSize = 1) :=
  sectorCountLoop_spec pos (by omega) (Nat.zero_mul _).symm (.inr rfl)

theorem sectorCount_mul_le (some : 0 < swapSize)
    (le : swapSize ≤ n * sectorSz) : sectorCount sectorSz swapSize ≤ n := by
  obtain ⟨-, -, less⟩ := @sectorCount_spec sectorSz swapSize pos
  by_contra more
  have fewer : n ≤ sectorCount sectorSz swapSize - 1 := by omega
  have := Nat.mul_le_mul_right sectorSz fewer
  rcases less with less | one
  · omega
  · rw [show n = 0 by omega] at le
    omega

theorem sectorCount_eq (some : 0 < swapSize) :
    sectorCount sectorSz swapSize = (swapSize + sectorSz - 1) / sectorSz := by
  obtain ⟨count_pos, le, less⟩ := @sectorCount_spec sectorSz swapSize pos
  have split : sectorCount sectorSz swapSize * sectorSz =
      (sectorCount sectorSz swapSize - 1) * sectorSz + sectorSz := by
    rw [← Nat.succ_mul, Nat.succ_eq_add_one, Nat.sub_add_cancel count_pos]
  refine (Nat.div_eq_of_lt_le ?_ ?_).symm
  · rcases less with less | one
    · omega
    · rw [one] at le ⊢
      omega
  · rw [Nat.succ_mul]
    omega

omit pos

theorem EvenSlots.scrambleSz_le_reserved (slots : EvenSlots bd (2 ^ e)) :
    scrambleSz bd .primary ≤ reserved bd (2 ^ e) :=
  slots.keeps.scrambleSz_primary ▸ le_alignUp ..

theorem EvenSlots.scrambleSz_secondary (slots : EvenSlots bd S)
    (align : bd.align .secondary ≤ bd.align .primary) : scrambleSz bd .secondary = scrambleSz bd .primary := by
  rw [slots.keeps.scrambleSz_primary, scrambleSz, if_neg (by rw [slots.keeps.writeSz_eq]; omega)]

theorem EvenSlots.sectorCount_room {a : Area} {k size : Nat}
    (slots : EvenSlots bd (2 ^ e)) (slot : a ≠ .scratch) (pos : 0 < size)
    (le : size + reserved bd (2 ^ e) + k * 2 ^ e ≤ bd.faSize a) :
    (sectorCount (2 ^ e) size + k) * 2 ^ e + reserved bd (2 ^ e) ≤ bd.faSize a := by
  obtain ⟨m, reserved_eq⟩ : 2 ^ e ∣ reserved bd (2 ^ e) := dvd_alignUp ..
  rw [Nat.mul_comm] at reserved_eq
  rw [slots.faSize_eq slot, reserved_eq] at le ⊢
  -- what is left of the slot is a number of whole sectors
  obtain ⟨n, n_eq⟩ : ∃ n, bd.numSectors a = n + m + k := by
    refine ⟨bd.numSectors a - m - k, ?_⟩
    have : (m + k) * 2 ^ e ≤ bd.numSectors a * 2 ^ e := by
      rw [Nat.add_mul]
      omega
    have := Nat.le_of_mul_le_mul_right this (Nat.two_pow_pos e)
    omega
  rw [n_eq, Nat.add_mul, Nat.add_mul] at le ⊢
  have := Nat.mul_le_mul_right (2 ^ e) (sectorCount_mul_le (Nat.two_pow_pos e) pos (show size ≤ n * 2 ^ e by omega))
  rw [Nat.add_mul]
  omega

theorem firstTrailerIdxLoop_spec {trailerSz idx : Nat} (pos : 0 < sectorSz)
    (enough : trailerSz < sz + fuel) (lt : idx < 2 ^ 32)
    (room : n * sectorSz + trailerSz ≤ (idx + 1) * sectorSz + sz) (more : sz < trailerSz) :
    n ≤ firstTrailerIdxLoop sectorSz trailerSz fuel sz idx := by
  induction fuel generalizing sz idx with
  | zero => omega
  | succ fuel ih =>
    have below : n ≤ idx := by
      have : n * sectorSz < (idx + 1) * sectorSz := by omega
      exact Nat.lt_succ_iff.mp (Nat.lt_of_mul_lt_mul_right this)
    simp only [firstTrailerIdxLoop]
    split
    next => exact below
    next rest =>
      have step : (idx + 1) * sectorSz = idx * sectorSz + sectorSz := Nat.succ_mul ..
      have some : 0 < idx := by
        apply Nat.pos_of_ne_zero
        rintro rfl
        omega
      rw [show u32 (idx + (2 ^ 32 - 1)) = idx - 1 by rw [u32]; omega]
      refine ih (by omega) (by omega) ?_ (by omega)
      rw [Nat.sub_add_cancel some]
      omega

theorem EvenSlots.le_firstTrailerIdx (slots : EvenSlots bd S)
    (room : n * S + scrambleSz bd .primary ≤ bd.faSize .primary) : n ≤ firstTrailerIdx bd := by
  have fits : scrambleSz bd .primary ≤ bd.faSize .primary := Nat.le_trans (Nat.le_add_left ..) room
  have pos := slots.sectors_pos (by decide) fits
  have ge := slots.size_ge (by decide) fits
  have size := slots.faSize_eq (a := .primary) (by decide)
  have some := infoSz_le_scrambleSz bd .primary
  have info := bootTrailerInfoSz_ge bd
  have lt := bd.size_lt .primary
  have sectors : bd.numSectors .primary ≤ bd.faSize .primary := by
    rw [size]
    exact Nat.le_mul_of_pos_right _ (by omega)
  have : bd.faSize .primary < 2 ^ 32 := lt
  rw [slots.keeps.scrambleSz_primary] at room some
  unfold firstTrailerIdx
  rw [slots.sectorSize_eq (by decide) pos]
  refine firstTrailerIdxLoop_spec (by omega) (by omega) (by omega) ?_ (by omega)
  rw [Nat.sub_add_cancel pos, ← size]
  omega

end Adaboot
