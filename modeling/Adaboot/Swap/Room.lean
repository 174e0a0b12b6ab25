import Adaboot.Swap.OffsetCuts
import Adaboot.Swap.Resume

/-!
# Room for the trailers

`app_max_size`, the test for free space and the steps of a swap each compute with the trailer. They agree as long as
the slot with the extra sector has room for it and the secondary trailer is not longer than what `app_max_size`
reserves.
-/

namespace Adaboot

open Nor Crash

/-- A range of the slot that ends below the sectors that `swap_scramble_trailer_sectors` erases. -/
def belowTrailer (bd : Board) (a : Area) (hi : Nat) : Bool := (bootTrailerScrambleOffset bd a bd.writeSz).any (hi ≤ ·)

namespace EvenSlots

variable {bd : Board} {S : Nat} {a : Area} (slots : EvenSlots bd S)
include slots

theorem belowTrailer_iff (slot : a ≠ .scratch) (room : scrambleSz bd a ≤ bd.faSize a) (j : Nat) :
    belowTrailer bd a (bd.sectorOff a j + S) = true ↔ (j + 1) * S + scrambleSz bd a ≤ bd.faSize a := by
  obtain ⟨t, lt, found, low, high⟩ := trailerSector room
  have size := slots.faSize_eq slot
  rw [slots.sectorOff_eq slot lt.le] at found low
  rw [slots.sectorOff_eq slot (show t + 1 ≤ bd.numSectors a from lt)] at high
  rw [belowTrailer, found, Option.any_some, decide_eq_true_iff]
  by_cases inside : j ≤ bd.numSectors a
  · have next : (j + 1) * S = j * S + S := Nat.succ_mul ..
    rw [slots.sectorOff_eq slot inside, ← next]
    constructor
    · omega
    · intro le
      have below : (j + 1) * S < (t + 1) * S := by omega
      exact Nat.mul_le_mul_right S (Nat.le_of_lt_succ (Nat.lt_of_mul_lt_mul_right below))
  · -- There is no such sector: its offset is the end of the slot.
    have past := bd.sectorOff_mono a (Nat.le_of_not_le inside)
    rw [bd.sectorOff_numSectors] at past
    have beyond := Nat.mul_le_mul_right S (show bd.numSectors a ≤ j + 1 by omega)
    have some := infoSz_le_scrambleSz bd a
    have info := bootTrailerInfoSz_ge bd
    exact iff_of_false (by omega) (by omega)

theorem sectorSize_primary (room : scrambleSz bd .primary ≤ bd.faSize .primary) : bd.sectorSize .primary 0 = S :=
  slots.sectorSize_eq (by decide) (slots.sectors_pos (by decide) room)

end EvenSlots

section PowerOfTwo

variable {bd : Board} {e : Nat} (slots : EvenSlots bd (2 ^ e))
include slots

theorem EvenSlots.reserved_le {n : Nat} (fits : n * 2 ^ e + scrambleSz bd .primary ≤ bd.faSize .primary) :
    n * 2 ^ e + reserved bd (2 ^ e) ≤ bd.faSize .primary := by
  have size := slots.faSize_eq (a := .primary) (by decide)
  have rest : bd.faSize .primary - n * 2 ^ e = (bd.numSectors .primary - n) * 2 ^ e := by rw [size, Nat.sub_mul]
  rw [slots.keeps.scrambleSz_primary] at fits
  have le : reserved bd (2 ^ e) ≤ bd.faSize .primary - n * 2 ^ e := alignUp_le (rest ▸ Nat.dvd_mul_left ..) (by omega)
  omega

theorem EvenSlots.reserved_le_primary (room : scrambleSz bd .primary ≤ bd.faSize .primary) :
    reserved bd (2 ^ e) ≤ bd.faSize .primary := by
  have whole := slots.reserved_le (n := 0) (by omega)
  omega

theorem EvenSlots.reserved_le_secondary (room : scrambleSz bd .secondary ≤ bd.faSize .secondary) :
    reserved bd (2 ^ e) ≤ bd.faSize .secondary := by
  have size := slots.faSize_eq (a := .secondary) (by decide)
  exact alignUp_le (size ▸ Nat.dvd_mul_left ..) ((bootTrailerSz_le_scrambleSz bd _).trans room)

end PowerOfTwo

end Adaboot

/-! ### Swaps using move -/

namespace Adaboot.SwapMove

open Nor Crash

/-- `swap_run` finds too little free space and leaves the swap out. -/
def refuses (bd : Board) (bs : BootStatus) (copySize : Nat) : Bool :=
  bs.isReset bd ∧ findLastIdx bd copySize ≥ firstTrailerIdx bd

/-- The swap is run, and no step puts a sector of an image where a trailer is scrambled. -/
structure SparesTrailers (bd : Board) (copySize : Nat) : Prop where
  accepted : ∀ bs, refuses bd bs copySize = false
  below : ∀ bs ∈ pending (findLastIdx bd copySize) (bootStatusReset bd),
    let r := replacement bd (findLastIdx bd copySize) bs
    belowTrailer bd r.dst (r.dstOff + bd.sectorSize .primary 0) = true

section Steps

variable {bd : Board} {last : Nat}

theorem below_iff (mode : bd.mode = .move) (small : last < 2 ^ 32) (pos : 0 < last) {S : Nat} (slots : EvenSlots bd S)
    (rooms : ∀ a, a ≠ .scratch → scrambleSz bd a ≤ bd.faSize a) :
    (∀ bs ∈ pending last (bootStatusReset bd),
      let r := replacement bd last bs
      belowTrailer bd r.dst (r.dstOff + S) = true) ↔
    (last + 1) * S + scrambleSz bd .primary ≤ bd.faSize .primary ∧
      last * S + scrambleSz bd .secondary ≤ bd.faSize .secondary := by
  have mem : ∀ k, k < 3 * last → stepStatus last (bootStatusReset bd) k ∈ pending last (bootStatusReset bd) := by
    intro k lt
    rw [pending_reset mode small]
    exact List.mem_map.mpr ⟨k, List.mem_range.mpr lt, rfl⟩
  have priBelow := slots.belowTrailer_iff (a := .primary) (by decide) (rooms _ (by decide))
  have secBelow := slots.belowTrailer_iff (a := .secondary) (by decide) (rooms _ (by decide))
  constructor
  · intro below
    constructor
    · -- the first move
      have first := below _ (mem 0 (by omega))
      rw [replacement_stepStatus (by omega), moveCopy_up pos] at first
      exact (priBelow last).mp first
    · -- the last exchange
      have final := below _ (mem (last + (2 * (last - 1) + 1)) (by omega))
      rw [replacement_stepStatus (by omega), moveCopy_out] at final
      have room := (secBelow (last - 1)).mp final
      rwa [Nat.sub_add_cancel pos] at room
  · rintro ⟨primary, secondary⟩ bs listed
    rw [pending_reset mode small] at listed
    obtain ⟨k, lt, rfl⟩ := List.mem_map.mp listed
    rw [List.mem_range] at lt
    have inside := moveCopy_dst_in lt
    rw [replacement_stepStatus lt]
    generalize (moveCopy last k).dst = c at inside
    obtain ⟨a, i⟩ := c
    rcases inside with ⟨rfl, low⟩ | ⟨rfl, low⟩
    · have := Nat.mul_le_mul_right S (show i + 1 ≤ last + 1 from low)
      exact (priBelow i).mpr (by omega)
    · have := Nat.mul_le_mul_right S (show i + 1 ≤ last from low)
      exact (secBelow i).mpr (by omega)

end Steps

/-- An image of at most `app_max_size` bytes has so many sectors that they can be counted. -/
theorem findLastIdx_lt {bd : Board} {size : Nat} (sectorPos : 0 < bd.sectorSize .primary 0) (pos : 0 < size)
    (le : size ≤ appMaxSize bd) : findLastIdx bd size < 2 ^ 32 := by
  have max : appMaxSize bd < 2 ^ 32 := by
    unfold appMaxSize
    dsimp only
    split <;> exact Nat.mod_lt _ (by decide)
  have sectors : findLastIdx bd size ≤ size := sectorCount_mul_le sectorPos pos (Nat.le_mul_of_pos_right _ sectorPos)
  omega

/-- The primary slot has room for one more sector, and the image leaves room for the secondary trailer. -/
theorem sparesTrailers_iff {bd : Board} {e copySize : Nat} (mode : bd.mode = .move) (slots : EvenSlots bd (2 ^ e))
    (rooms : ∀ a, a ≠ .scratch → scrambleSz bd a ≤ bd.faSize a) (pos : 0 < copySize) (le : copySize ≤ appMaxSize bd) :
    SparesTrailers bd copySize ↔ reserved bd (2 ^ e) + 2 ^ e ≤ bd.faSize .primary ∧
      findLastIdx bd copySize * 2 ^ e + scrambleSz bd .secondary ≤ bd.faSize .secondary := by
  have sectorSize := slots.sectorSize_primary (rooms .primary (by decide))
  have sectorPos : 0 < bd.sectorSize .primary 0 := sectorSize ▸ Nat.two_pow_pos e
  have some := findLastIdx_pos bd copySize
  have iff := below_iff mode (findLastIdx_lt sectorPos pos le) some slots rooms
  constructor
  · intro spares
    have below := spares.below
    rw [sectorSize] at below
    obtain ⟨primary, secondary⟩ := iff.mp below
    have whole := slots.reserved_le primary
    rw [Nat.succ_mul] at whole
    exact ⟨by omega, secondary⟩
  · rintro ⟨padding, secondary⟩
    obtain ⟨priLe, -⟩ := appMaxSize_room slots padding (slots.reserved_le_secondary (rooms .secondary (by decide)))
      sectorSize le
    have fits := slots.sectorCount_room (k := 1) (a := .primary) (by decide) pos (by omega)
    have trailer := slots.scrambleSz_le_reserved
    rw [← sectorSize, ← findLastIdx.eq_def, sectorSize] at fits
    have primary : (findLastIdx bd copySize + 1) * 2 ^ e + scrambleSz bd .primary ≤ bd.faSize .primary := by omega
    refine ⟨fun bs => ?_, ?_⟩
    · have free := slots.le_firstTrailerIdx primary
      simp only [refuses, decide_eq_false_iff_not, not_and]
      omega
    · rw [sectorSize]
      exact iff.mpr ⟨primary, secondary⟩

end Adaboot.SwapMove

/-! ### Swaps using offset -/

namespace Adaboot.SwapOffset

open Nor Crash

/-- `swap_run` finds too little free space and leaves the swap out. -/
def refuses (bd : Board) (bs : BootStatus) (copySize : Nat) : Bool :=
  bs.isReset bd ∧ findLastIdx bd copySize ≥ firstTrailerIdx bd

/-- The swap is run, and no step of it or of its revert puts a sector of an image where a trailer is scrambled. -/
structure SparesTrailers (bd : Board) (copySize usedPri usedSec : Nat) : Prop where
  accepted : ∀ bs, refuses bd bs copySize = false
  below : ∀ revert, ∀ bs ∈ pending (findLastIdx bd copySize) (bootStatusReset bd),
    let r := replacement bd revert (findLastIdx bd copySize) bs
    skipped revert (findLastIdx bd copySize) usedPri usedSec bs = false →
      belowTrailer bd r.dst (r.dstOff + bd.sectorSize .primary 0) = true

section Steps

variable {bd : Board} {last : Nat}

theorem below_iff (usedPri usedSec : Nat) {S : Nat} (slots : EvenSlots bd S)
    (rooms : ∀ a, a ≠ .scratch → scrambleSz bd a ≤ bd.faSize a)
    (primary : (last + 1) * S + scrambleSz bd .primary ≤ bd.faSize .primary) :
    (∀ revert, ∀ bs ∈ pending last (bootStatusReset bd),
      let r := replacement bd revert last bs
      skipped revert last usedPri usedSec bs = false → belowTrailer bd r.dst (r.dstOff + S) = true) ↔
    (min last usedPri + 2) * S + scrambleSz bd .secondary ≤ bd.faSize .secondary := by
  have priBelow := slots.belowTrailer_iff (a := .primary) (by decide) (rooms _ (by decide))
  have secBelow := slots.belowTrailer_iff (a := .secondary) (by decide) (rooms _ (by decide))
  constructor
  · intro below
    -- a revert begins with the last sectors
    have listed : exchangeStatus (bootStatusReset bd) (2 * (last - min last usedPri)) ∈
        pending last (bootStatusReset bd) := by
      rw [pending_reset]
      exact List.mem_map.mpr ⟨_, List.mem_range.mpr (by omega), rfl⟩
    have at_top : (orderOf true last).pri (last - min last usedPri) = min last usedPri := by
      simp only [orderOf, if_true, backward]
      omega
    have taken : skipped true last usedPri usedSec
        (exchangeStatus (bootStatusReset bd) (2 * (last - min last usedPri))) = false := by
      rw [skipped_exchangeStatus, Nat.mul_div_cancel_left _ Nat.two_pos, at_top, if_pos (Nat.mul_mod_right ..)]
      exact Nat.min_le_right ..
    have stays := below true _ listed taken
    rw [replacement_even] at stays
    have sec : (orderOf true last).sec (last - min last usedPri) = min last usedPri + 1 := by
      simp only [orderOf, if_true, backward]
      omega
    simp only [sec] at stays
    exact (secBelow _).mp stays
  · intro secondary revert bs listed
    dsimp only
    intro taken
    rw [pending_reset] at listed
    obtain ⟨m, lt, rfl⟩ := List.mem_map.mp listed
    rw [List.mem_range] at lt
    rw [skipped_exchangeStatus] at taken
    have pri := (orderOf revert last).pri_le (show m / 2 ≤ last by omega)
    obtain ⟨i, rfl | rfl⟩ : ∃ i, m = 2 * i ∨ m = 2 * i + 1 := ⟨m / 2, by omega⟩
    · have sec : (orderOf revert last).sec i ≤ (orderOf revert last).pri i + 1 := by
        cases revert <;> simp [orderOf, forward, backward]
      rw [Nat.mul_div_cancel_left _ Nat.two_pos, if_pos (Nat.mul_mod_right ..)] at taken
      rw [Nat.mul_div_cancel_left _ Nat.two_pos] at pri
      rw [replacement_even]
      have := Nat.mul_le_mul_right S (show (orderOf revert last).sec i + 1 ≤ min last usedPri + 2 by omega)
      exact (secBelow ((orderOf revert last).sec i)).mpr (by omega)
    · rw [show (2 * i + 1) / 2 = i by omega] at pri
      rw [replacement_odd]
      have := Nat.mul_le_mul_right S (show (orderOf revert last).pri i + 1 ≤ last + 1 by omega)
      exact (priBelow ((orderOf revert last).pri i)).mpr (by omega)

end Steps

theorem findLastIdx_succ (bd : Board) (swapSize : Nat) :
    findLastIdx bd swapSize + 1 = sectorCount (bd.sectorSize .primary 0) swapSize :=
  Nat.sub_add_cancel (sectorCount_pos _ _)

/-- What `app_max_size` leaves in the primary slot, whatever it computes for the secondary slot. -/
theorem appMaxSize_primary {bd : Board} {S size : Nat} (slots : EvenSlots bd S)
    (room : reserved bd S ≤ bd.faSize .primary) (sectorSize : bd.sectorSize .primary 0 = S)
    (le : size ≤ appMaxSize bd) : size + reserved bd S ≤ bd.faSize .primary := by
  simp only [appMaxSize, sectorSize, ← slots.faSize_eq (a := .primary) (by decide), u32] at le
  split at le <;> omega

/-- The trailers are spared exactly if the secondary slot has room for the sectors that a revert fills. -/
theorem sparesTrailers_iff {bd : Board} {e copySize usedPri usedSec : Nat}
    (slots : EvenSlots bd (2 ^ e)) (rooms : ∀ a, a ≠ .scratch → scrambleSz bd a ≤ bd.faSize a) (pos : 0 < copySize)
    (le : copySize ≤ appMaxSize bd) : SparesTrailers bd copySize usedPri usedSec ↔
      (min (findLastIdx bd copySize) usedPri + 2) * 2 ^ e + scrambleSz bd .secondary ≤ bd.faSize .secondary := by
  have sectorSize := slots.sectorSize_primary (rooms .primary (by decide))
  have whole := slots.reserved_le_primary (rooms .primary (by decide))
  have priLe := appMaxSize_primary slots whole sectorSize le
  have fits := slots.sectorCount_room (k := 0) (a := .primary) (by decide) pos (by omega)
  have trailer := slots.scrambleSz_le_reserved
  have lastIdx := findLastIdx_succ bd copySize
  rw [sectorSize] at lastIdx
  rw [Nat.add_zero, ← lastIdx] at fits
  have primary : (findLastIdx bd copySize + 1) * 2 ^ e + scrambleSz bd .primary ≤ bd.faSize .primary := by omega
  have iff := below_iff usedPri usedSec slots rooms primary
  constructor
  · intro spares
    have below := spares.below
    rw [sectorSize] at below
    exact iff.mp below
  · intro secondary
    refine ⟨fun bs => ?_, ?_⟩
    · have free := slots.le_firstTrailerIdx primary
      simp only [refuses, decide_eq_false_iff_not, not_and]
      omega
    · rw [sectorSize]
      exact iff.mpr secondary

end Adaboot.SwapOffset

namespace Adaboot

/-- Where the swap of images up to `app_max_size` is never refused and leaves the trailers alone: the primary slot,
with offset the secondary one, needs the extra sector, and the secondary trailer counts with its own write size. -/
theorem swap_spares_trailers_iff (bd : Board) (e copySize : Nat) (slots : EvenSlots bd (2 ^ e))
    (rooms : ∀ a, a ≠ .scratch → scrambleSz bd a ≤ bd.faSize a) (pos : 0 < copySize) :
    (bd.mode = .move → copySize ≤ SwapMove.appMaxSize bd → (SwapMove.SparesTrailers bd copySize ↔
        reserved bd (2 ^ e) + 2 ^ e ≤ bd.faSize .primary ∧
        SwapMove.findLastIdx bd copySize * 2 ^ e + scrambleSz bd .secondary ≤ bd.faSize .secondary)) ∧
    (bd.mode = .offset → copySize ≤ SwapOffset.appMaxSize bd → ∀ usedPri usedSec,
      (SwapOffset.SparesTrailers bd copySize usedPri usedSec ↔
        (min (SwapOffset.findLastIdx bd copySize) usedPri + 2) * 2 ^ e + scrambleSz bd .secondary ≤
          bd.faSize .secondary)) :=
  ⟨fun mode le => SwapMove.sparesTrailers_iff mode slots rooms pos le,
    fun _ le _ _ => SwapOffset.sparesTrailers_iff slots rooms pos le⟩

theorem swap_spares_trailers_even :
    let bd := (SwapMove.demoLoader (fun _ => 0) (by decide)).board
    EvenSlots bd (2 ^ 6) ∧ 100 ≤ SwapMove.appMaxSize bd ∧ SwapMove.SparesTrailers bd 100 := by
  have slots : EvenSlots (SwapMove.demoLoader (fun _ => 0) (by decide)).board (2 ^ 6) := ⟨.inl rfl, fun _ _ => rfl⟩
  refine ⟨slots, by decide +kernel, ?_⟩
  refine ((swap_spares_trailers_iff _ 6 100 slots (fun a _ => ?_) (by decide)).1 rfl (by decide +kernel)).mpr
    ⟨by decide +kernel, by decide +kernel⟩
  cases a <;> decide +kernel

/-- The secondary slot needs larger writes. Images of 100 bytes are within `app_max_size`, and their second sectors go
to one that is scrambled with the trailer. -/
theorem uneven_writes_reach_trailer :
    let bd := SwapMove.unevenLoader.board
    EvenSlots bd (2 ^ 6) ∧ (∀ a, a ≠ .scratch → scrambleSz bd a ≤ bd.faSize a) ∧
      SwapMove.bootSlotsCompatible bd = true ∧ 100 ≤ SwapMove.appMaxSize bd ∧ ¬SwapMove.SparesTrailers bd 100 := by
  refine ⟨⟨.inl rfl, fun _ _ => rfl⟩, fun a _ => by cases a <;> decide +kernel, by decide +kernel, by decide +kernel, ?_⟩
  intro spares
  have reached : ∀ bs ∈ SwapMove.pending 2 (bootStatusReset SwapMove.unevenLoader.board),
      let r := SwapMove.replacement SwapMove.unevenLoader.board 2 bs
      belowTrailer SwapMove.unevenLoader.board r.dst (r.dstOff + 64) = true := spares.below
  revert reached
  decide +kernel

end Adaboot
