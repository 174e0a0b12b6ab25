import Adaboot.Swap.Scratch

/-!
# Overwrite-only upgrades

`boot_copy_image`, then the request is taken back. A boot that is cut starts over: either the secondary slot still
holds the requested image, or the primary slot does and nothing will replace it.
-/

namespace Adaboot.Overwrite

open Nor Crash SwapScratch

def bootGo (b : LoaderBuild) : Boot Bool := Adaboot.bootGo b (SwapScratch.algo b)

/-- Slots that an overwrite-only loader works with. -/
structure Slots (b : LoaderBuild) : Prop where
  mode : b.board.mode.isOverwrite = true
  trailer : bootTrailerSz b.board b.board.writeSz ≤ b.board.faSize .primary
  trailer' : bootTrailerSz b.board b.board.writeSz ≤ b.board.faSize .secondary
  compatible : bootSlotsCompatible b.board = true

/-- Slots of one size, which overwrite-only builds do not check. -/
structure Layout (b : LoaderBuild) : Prop extends Slots b where
  sameSize : b.board.faSize .primary = b.board.faSize .secondary

/-- The secondary slot holds the image and the request to install it. -/
structure Pending (b : LoaderBuild) (img : Image b.validate) (fl : Flash) : Prop where
  held : Holds fl .secondary 0 img
  requested : Requested b.board fl

/-- No image in the secondary slot will be copied: its header is erased, or nothing asks for it. -/
def Quiet (bd : Board) (fl : Flash) : Prop :=
  (ImageHeader.decode (fl.read .secondary 0 imageHeaderSize)).bootCheckHeaderErased = true ∨
    bootSwapTypeMulti bd fl = .none

/-- The primary slot holds the image for good. -/
structure Installed (b : LoaderBuild) (img : Image b.validate) (fl : Flash) : Prop where
  held : Holds fl .primary 0 img
  quiet : Quiet b.board fl

section Geometry

variable {b : LoaderBuild} (slots : Slots b)
include slots

theorem Slots.not_offset : b.board.mode ≠ .offset := by
  intro offset
  have := slots.mode
  simp [offset, SwapMode.isOverwrite] at this

theorem Slots.not_scratch : b.board.mode ≠ .scratch := by
  intro scratch
  have := slots.mode
  simp [scratch, SwapMode.isOverwrite] at this

theorem Slots.copyImageFrom_eq : copyImageFrom b = 0 := if_neg slots.not_offset

theorem Slots.room : b.board.HoldsTrailer .primary := by
  have := slots.trailer
  unfold bootTrailerSz at this
  omega

theorem Slots.room' : b.board.HoldsTrailer .secondary := by
  have := slots.trailer'
  unfold bootTrailerSz at this
  omega

theorem Slots.maxImageSize (a : Area) :
    bootutilMaxImageSize b (SwapScratch.algo b) a = bootSwapInfoOff b.board a := by
  have mode := slots.mode
  unfold bootutilMaxImageSize
  cases h : b.board.mode <;> simp_all [SwapMode.isOverwrite]

theorem Slots.writeSz_le : b.board.writeSz ≤ b.board.maxAlign := by
  have pos := b.board.maxAlign_ge
  unfold Board.writeSz
  rw [if_neg fun h => slots.not_scratch h.1]
  exact Nat.le_of_dvd (by omega) (b.board.align_dvd .primary)

omit slots

theorem swapInfoOff_add {bd : Board} {a : Area} (room : bd.HoldsTrailer a) :
    bootSwapInfoOff bd a + bd.maxAlign = bootCopyDoneOff bd a ∧
      bootCopyDoneOff bd a + bd.maxAlign + 16 ≤ bd.faSize a := by
  have info := Field.off_eq room (f := .swapInfo) (by simp)
  have done := Field.off_eq room (f := .copyDone) (by simp)
  have le : _ ≤ bootTrailerInfoSz bd := Field.unit_le (f := .swapInfo) nofun
  have ge := magicAlignSize_ge bd
  simp only [Field.off, Field.unit] at info done le
  constructor <;> omega

end Geometry

/-! ### The copy -/

section Copy

variable {bd : Board} {E : BootErr → Flash → Prop} {C : Flash → Prop} {fl : Flash}

/-- What the erase loop has done: everything below `size` in the primary slot is erased. -/
structure ErasedTo (fl fl' : Flash) (bd : Board) (size : Nat) : Prop where
  outside : Flash.EqOutside .primary 0 (bd.faSize .primary) fl fl'
  blank : Flash.Erased fl' .primary 0 size

theorem ErasedTo.sector {fl' : Flash} {sect : Nat}
    (so_far : ErasedTo fl fl' bd (bd.sectorOff .primary sect)) (lt : sect < bd.numSectors .primary) :
    ErasedTo fl (fl'.erase .primary (bd.sectorOff .primary sect) (bd.sectorSize .primary sect)) bd
      (bd.sectorOff .primary (sect + 1)) := by
  have next := bd.sectorOff_succ lt
  have fits := bd.sectorOff_le_faSize .primary (sect + 1)
  constructor
  · apply so_far.outside.trans
    exact (Flash.eqOutside_erase fl' .primary _ _).mono (by omega) (by omega)
  · intro i _ hi
    by_cases below : i < bd.sectorOff .primary sect
    · rw [Flash.erase_outside _ fun _ => .inl below]
      exact so_far.blank i (by omega) below
    · exact Flash.erase_inside _ _ (by omega) (by omega)

theorem copyImageErase_wp {srcSize n sect : Nat} {fl' : Flash} {Q : Nat → Flash → Prop}
    (sum : sect + n = bd.numSectors .primary) (le : srcSize ≤ bd.faSize .primary)
    (behind : bd.mode.isFast = true → bd.sectorOff .primary sect < srcSize)
    (so_far : ErasedTo fl fl' bd (bd.sectorOff .primary sect))
    (fast : ∀ fl', bd.mode.isFast = true → ErasedTo fl fl' bd srcSize →
      Q (srcSize + (bd.writeSz - srcSize % bd.writeSz)) fl')
    (slow : ∀ fl', bd.mode.isFast = false → ErasedTo fl fl' bd (bd.faSize .primary) → Q (bd.faSize .primary) fl')
    (cuts : ∀ fl', Flash.EqOutside .primary 0 (bd.faSize .primary) fl fl' → C fl') :
    wp (copyImageErase bd srcSize n sect (bd.sectorOff .primary sect)) Q E C fl' := by
  induction n generalizing sect fl' with
  | zero =>
    obtain rfl : sect = bd.numSectors .primary := by omega
    rw [bd.sectorOff_numSectors] at behind so_far ⊢
    rw [copyImageErase, wp_pure]
    apply slow _ _ so_far
    by_contra isFast
    have := behind (by simpa using isFast)
    omega
  | succ n ih =>
    have lt : sect < bd.numSectors .primary := by omega
    have next := bd.sectorOff_succ lt
    rw [copyImageErase, wp_bind]
    refine wp_assertOk (bootEraseSector_wp lt (cuts _ so_far.outside) ?_)
    have erased := so_far.sector lt
    split
    next stop =>
      rw [wp_pure]
      refine fast _ stop.1 ⟨erased.outside, fun i lo hi => erased.blank i lo ?_⟩
      omega
    next go =>
      rw [← next]
      refine ih (by omega) (fun isFast => ?_) erased
      have := not_and.mp go isFast
      omega

theorem trailerSectors_spec {trailerSz sector sz : Nat} (le : trailerSz ≤ bd.sectorOff .primary sector + sz)
    (bound : sector ≤ bd.numSectors .primary) (pos : sz < trailerSz)
    (at_end : bd.sectorOff .primary sector + sz = bd.faSize .primary) :
    ∃ s, s < bd.numSectors .primary ∧ trailerSz ≤ bd.faSize .primary - bd.sectorOff .primary s ∧
      trailerSectors bd trailerSz sector sz =
        some (bd.sectorOff .primary s, bd.faSize .primary - bd.sectorOff .primary s) := by
  induction sector generalizing sz with
  | zero =>
    rw [Board.sectorOff, sectorOff_zero] at le
    omega
  | succ sector ih =>
    have next := bd.sectorOff_succ (a := .primary) (i := sector) (by omega)
    rw [trailerSectors]
    split
    next more => exact ih (by omega) (by omega) more (by omega)
    next enough =>
      have size : sz + bd.sectorSize .primary sector = bd.faSize .primary - bd.sectorOff .primary sector := by omega
      refine ⟨sector, by omega, by omega, ?_⟩
      rw [size]

end Copy

/-! ### The update -/

section Update

variable {b : LoaderBuild} {img : Image b.validate} {fl : Flash} {fl' fl : Flash} {n : Nat}

theorem Pending.congr (slots : Slots b) (pending : Pending b img fl)
    (same : Flash.EqOutside .primary 0 (b.board.faSize .primary) fl fl') : Pending b img fl' :=
  have sec := same.other (b := .secondary) (by decide)
  ⟨pending.held.congr fun i _ _ => sec i, pending.requested.congr slots.room' fun i _ _ => sec i⟩

/-- The image has been copied and the copy-done flag of the primary slot is not set. -/
structure Copied (b : LoaderBuild) (img : Image b.validate) (fl : Flash) : Prop where
  pending : Pending b img fl
  held : Holds fl .primary 0 img
  copyDone : (swapState b.board fl .primary).copyDone = .unset

/-- What survives every power cut. -/
def Safe (b : LoaderBuild) (img : Image b.validate) (fl : Flash) : Prop := Pending b img fl ∨ Installed b img fl

theorem sectors_pos (slots : Slots b) (a : Area) (slot : a ≠ .scratch) : 0 < b.board.numSectors a := by
  have size : 0 < b.board.faSize a := by
    have pri := slots.trailer
    have sec := slots.trailer'
    have pos := magicAlignSize_ge b.board
    unfold bootTrailerSz bootTrailerInfoSz at pri sec
    cases a with
    | primary => omega
    | secondary => omega
    | scratch => exact absurd rfl slot
  apply Nat.pos_of_ne_zero
  intro none
  have := b.board.sectorOff_numSectors a
  rw [none, Board.sectorOff, sectorOff_zero] at this
  omega

theorem quiet_of_first {bd : Board} (blank : ∀ i, i < 4 → fl .secondary i = erasedVal) : Quiet bd fl := by
  left
  have byte : ∀ i, i < 4 → (fl.read .secondary 0 imageHeaderSize).getD i 0 = 0xff := by
    intro i lt
    rw [Flash.read_getD _ _ _ _ _ _ (by simp only [imageHeaderSize]; omega), Nat.zero_add]
    exact blank i lt
  simp [ImageHeader.bootCheckHeaderErased, ImageHeader.decode, le32, le16, -List.getD_eq_getElem?_getD, byte]

theorem quiet_of_last (slots : Slots b) (done : (swapState b.board fl .primary).copyDone = .unset)
    (blank : fl .secondary (b.board.faSize .secondary - 1) = erasedVal) : Quiet b.board fl := by
  right
  have room := slots.room'
  have notGood := magic_ne_good room blank
  rw [bootSwapTypeMulti_eq slots.room room, swapTypeOfStates_eq]
  simp [notGood, done]

/-- Until its first erase the request stands, from then on the image in the primary slot is final. -/
theorem eraseSecondary_wp (slots : Slots b) (copied : Copied b img fl) :
    wp (eraseSecondary b) (fun _ fl' => Installed b img fl') (fun _ _ => False) (Safe b img) fl := by
  have pos := sectors_pos slots .secondary (by decide)
  have first := b.board.sectorSize_ge pos
  have last := b.board.sectorOff_succ (a := .secondary) (i := b.board.numSectors .secondary - 1) (by omega)
  have lastSize := b.board.sectorSize_ge (a := .secondary) (i := b.board.numSectors .secondary - 1) (by omega)
  rw [show b.board.numSectors .secondary - 1 + 1 = b.board.numSectors .secondary by omega,
    b.board.sectorOff_numSectors] at last
  have primary : ∀ off len, ∀ fl : Flash, Holds fl .primary 0 img →
      Holds (fl.erase .secondary off len) .primary 0 img := fun off len fl held i lt =>
    (Flash.erase_outside fl fun eq => absurd eq (by decide)).trans (held i lt)
  have scramble : ∀ {i : Nat}, i < b.board.numSectors .secondary →
      bootScrambleRegion b.board .secondary (b.board.sectorOff .secondary i) (b.board.sectorSize .secondary i) false =
        bootEraseRegion b.board .secondary (b.board.sectorOff .secondary i)
          (b.board.sectorSize .secondary i) false := fun lt => by
    have := b.board.sectorSize_ge lt
    rw [bootScrambleRegion, if_neg (by omega)]
  unfold eraseSecondary
  simp only
  rw [scramble pos, scramble (by omega : b.board.numSectors .secondary - 1 < _)]
  by_cases keep : b.board.mode.keepsBackup = true
  · -- only the trailer goes
    simp only [keep, not_true_eq_false, if_false]
    refine wp_assertOk (bootEraseSector_wp (by omega) (.inl copied.pending) ?_)
    refine ⟨primary _ _ _ copied.held, quiet_of_last slots ?_ ?_⟩
    · rw [← copied.copyDone, swapState_congr slots.room fun i _ _ =>
        Flash.erase_outside fl fun eq => absurd eq (by decide)]
    · exact Flash.erase_inside _ _ (by omega) (by omega)
  · simp only [keep, not_false_eq_true, if_true, Bool.false_eq_true]
    have header : ∀ i, i < 4 → fl.erase .secondary (b.board.sectorOff .secondary 0)
        (b.board.sectorSize .secondary 0) .secondary i = erasedVal := fun i lt =>
      Flash.erase_inside _ _ (by simp [Board.sectorOff]) (by simp only [Board.sectorOff, sectorOff_zero]; omega)
    rw [wp_bind]
    refine wp_assertOk (bootEraseSector_wp pos (.inl copied.pending) ?_)
    refine wp_assertOk (bootEraseSector_wp (by omega) (.inr ⟨primary _ _ _ copied.held, ?_⟩) ?_)
    · exact quiet_of_first header
    · refine ⟨primary _ _ _ (primary _ _ _ copied.held), quiet_of_first fun i lt => ?_⟩
      rw [Flash.erase]
      split
      · rfl
      · exact header i lt

theorem holds_of_copiedTo (held : Holds fl .secondary 0 img)
    (blank : Flash.Erased fl .primary 0 img.size) (le : img.size ≤ n)
    (copied : CopiedTo .secondary .primary 0 0 n fl fl') : Holds fl' .primary 0 img := by
  intro i lt
  have moved := copied.copied i (by omega) (blank _ (by omega) (by omega))
  rw [moved]
  simpa using held i lt

theorem Pending.copied (slots : Slots b) (pending : Pending b img fl)
    (blank : Flash.Erased fl .primary 0 img.size) (le : img.size ≤ n)
    (fits : n ≤ b.board.faSize .primary) (copied : CopiedTo .secondary .primary 0 0 n fl fl')
    (done : (swapState b.board fl' .primary).copyDone = .unset) : Copied b img fl' where
  pending := pending.congr slots (copied.outside.mono (Nat.zero_le _) (by omega))
  held := holds_of_copiedTo pending.held blank le copied
  copyDone := done

theorem copySlot_wp (layout : Layout b) (pending : Pending b img fl)
    (blank : Flash.Erased fl .primary 0 (b.board.faSize .primary))
    (le : img.size ≤ bootSwapInfoOff b.board .primary) :
    wp (do bootCopyRegion b.board .secondary .primary 0 0 (b.board.faSize .primary)
           eraseSecondary b)
      (fun _ fl' => Installed b img fl') (fun _ _ => False) (Safe b img) fl := by
  obtain ⟨info, done⟩ := swapInfoOff_add layout.room
  have same := layout.sameSize
  rw [wp_bind]
  refine bootCopyRegion_wp (by omega) (by omega) (by simp) (fun fl' copied => ?_)
    (fun fl' out => .inl (pending.congr layout.toSlots (out.mono le_rfl (by omega))))
  refine eraseSecondary_wp layout.toSlots (pending.copied layout.toSlots (fun i lo hi => blank i lo (by omega))
    (by omega) le_rfl copied ?_)
  -- the flag is a copy of the one in the secondary slot
  have off_eq : Field.copyDone.off b.board .primary = Field.copyDone.off b.board .secondary := by
    simp only [Field.off, bootCopyDoneOff, bootImageOkOff, bootMagicOff, same]
  have field : trailerField b.board fl' .primary .copyDone =
      trailerField b.board fl .secondary .copyDone := by
    have inside := Field.off_add_len_le layout.room (f := .copyDone) (by rintro ⟨⟩)
    apply Flash.read_congr
    intro i lt
    have moved := copied.copied (Field.copyDone.off b.board .primary + i) (by omega) (blank _ (by omega) (by omega))
    simpa only [Nat.zero_add, ← off_eq] using moved
  have unset := pending.requested.copyDone
  simp only [swapState] at unset ⊢
  rw [field, unset]

theorem copyFast_wp (layout : Layout b) (pending : Pending b img fl) (blank : Flash.Erased fl .primary 0 img.size)
    (trailer : Flash.Erased fl .primary (b.board.faSize .primary - bootTrailerInfoSz b.board) (b.board.faSize .primary))
    (le : img.size ≤ bootSwapInfoOff b.board .primary) :
    wp (do bootCopyRegion b.board .secondary .primary 0 0 (img.size + (b.board.writeSz - img.size % b.board.writeSz))
           bootWriteMagic b.board .primary
           eraseSecondary b)
      (fun _ fl' => Installed b img fl') (fun _ _ => False) (Safe b img) fl := by
  obtain ⟨info, done⟩ := swapInfoOff_add layout.room
  have same := layout.sameSize
  have unit := layout.writeSz_le
  have here : Field.copyDone.Present b.board := nofun
  simp only [wp_bind]
  refine bootCopyRegion_wp (by omega) (by omega) (by simp) (fun fl' copied => ?_)
    (fun fl' out => .inl (pending.congr layout.toSlots (out.mono le_rfl (by omega))))
  -- the copy ends below the flag
  have unset : (swapState b.board fl' .primary).copyDone = .unset := by
    apply flagOf_eq_unset.mpr
    rw [← trailerField_erased layout.room trailer here]
    apply Flash.read_congr
    intro i lt
    exact copied.outside _ _ fun _ => .inr (by show _ ≤ bootCopyDoneOff b.board .primary + i; omega)
  have all := pending.copied layout.toSlots blank (by omega) (by omega) copied unset
  rw [wp_bootWriteMagic layout.room]
  refine ⟨.inl all.pending, eraseSecondary_wp layout.toSlots ⟨?_, ?_, ?_⟩⟩
  · exact all.pending.congr layout.toSlots ((setField_outside layout.room (by nofun)
      (length_bootImgMagic _)).mono (by omega) le_rfl)
  · refine all.held.congr fun i _ hi => Flash.program_outside _ fun _ => .inl ?_
    rw [Field.off_magic]
    omega
  · rw [← unset]
    simp only [swapState]
    rw [trailerField_setField_ne layout.room (by nofun) here (by simp) (length_bootImgMagic _)]

theorem bootCopyImage_wp (layout : Layout b) {st : BootState} (pending : Pending b img fl)
    (hdr : st.hdr .secondary = img.hdr) (le : img.size ≤ bootSwapInfoOff b.board .primary) :
    wp (bootCopyImage b (SwapScratch.algo b) st) (fun _ fl' => Installed b img fl') (fun _ _ => False)
      (Safe b img) fl := by
  obtain ⟨info, done⟩ := swapInfoOff_add layout.room
  have same := layout.sameSize
  have safe : ∀ fl', Flash.EqOutside .primary 0 (b.board.faSize .primary) fl fl' →
      Safe b img fl' := fun fl' out => .inl (pending.congr layout.toSlots out)
  have start : ErasedTo fl fl b.board (b.board.sectorOff .primary 0) :=
    ⟨.refl _ _ _ _, fun i _ hi => by simp [Board.sectorOff] at hi⟩
  unfold bootCopyImage
  rw [wp_bind, wp_get]
  split
  next fast =>
    have size : 32 ≤ img.size := img.header_le
    have read : (SwapScratch.algo b).bootReadImageSize fl st .secondary = some (img.size, st) := by
      simp only [SwapScratch.algo]
      rw [hdr, pending.held.imageSizeRead (by omega)]
      rfl
    rw [read, layout.copyImageFrom_eq]
    rw [wp_bind]
    refine copyImageErase_wp (by omega) (by omega)
      (fun _ => by simp only [Board.sectorOff, sectorOff_zero]; omega) start
      (fun fl₁ _ erased => ?_) (fun _ slow => by simp [fast] at slow) safe
    obtain ⟨s, lt, enough, found⟩ := @trailerSectors_spec b.board
      (bootTrailerSz b.board b.board.writeSz) (b.board.numSectors .primary) 0
      (by rw [b.board.sectorOff_numSectors]; exact layout.trailer) le_rfl
      (by have := magicAlignSize_ge b.board
          unfold bootTrailerSz bootTrailerInfoSz
          omega)
      (by rw [b.board.sectorOff_numSectors, Nat.add_zero])
    rw [found]
    rw [wp_bind, ← b.board.sectorOff_numSectors .primary]
    refine wp_assertOk (bootEraseRegion_wp lt le_rfl ?_ fun k ge below => ?_)
    · rw [b.board.sectorOff_numSectors]
      have top : b.board.sectorOff .primary s + (b.board.faSize .primary - b.board.sectorOff .primary s) =
          b.board.faSize .primary := by
        have := b.board.sectorOff_le_faSize .primary s
        omega
      refine copyFast_wp layout ?_ ?_ ?_ le
      · exact pending.congr layout.toSlots (erased.outside.trans
          ((Flash.eqOutside_erase fl₁ _ _ _).mono (Nat.zero_le _) (by omega)))
      · intro i lo hi
        rw [Flash.erase]
        split
        · rfl
        · exact erased.blank i lo hi
      · intro i lo hi
        unfold bootTrailerSz at enough
        exact Flash.erase_inside _ _ (by omega) (by omega)
    · refine safe _ (erased.outside.trans ((Flash.eqOutside_erase fl₁ _ _ _).mono (Nat.zero_le _) ?_))
      have := b.board.sectorOff_le_faSize .primary k
      have := b.board.sectorOff_mono .primary ge
      omega
  next slow =>
    rw [wp_bind]
    refine copyImageErase_wp (by omega) (by omega) (fun fast => absurd fast slow) start
      (fun _ fast => absurd fast slow) (fun fl₁ _ erased => ?_) safe
    exact copySlot_wp layout (pending.congr layout.toSlots erased.outside) erased.blank le

end Update

/-! ### Boots -/

section Boots

variable {b : LoaderBuild} {img : Image b.validate} {fl : Flash}

theorem Slots.header_le (slots : Slots b) (a : Area) (slot : a ≠ .scratch) : imageHeaderSize ≤ b.board.faSize a := by
  have pri := slots.room
  have sec := slots.room'
  have align := b.board.maxAlign_ge
  unfold Board.HoldsTrailer bootTrailerInfoSz at pri sec
  unfold imageHeaderSize
  cases a with
  | primary => omega
  | secondary => omega
  | scratch => exact absurd rfl slot

def readState (fl : Flash) : BootState :=
  { BootState.clear with
    hdrPrimary := .decode (fl.read .primary 0 imageHeaderSize)
    hdrSecondary := .decode (fl.read .secondary 0 imageHeaderSize) }

variable {Q : SwapType → Flash → Prop} {E : BootErr → Flash → Prop} {C : Flash → Prop} {bs : BootStatus}

theorem bootPrepareImageForUpdate_wp (slots : Slots b) {Q : BootState × BootStatus → Flash → Prop}
    (decides : wp (bootValidatedSwapType b (SwapScratch.algo b) (readState fl) (bootStatusReset b.board))
      (fun swapType fl' => Q ({ readState fl with swapType }, bootStatusReset b.board) fl') E C fl) :
    wp (bootPrepareImageForUpdate b (SwapScratch.algo b) .clear) Q E C fl := by
  have headers := bootReadImageHeaders_eq fl .clear
    (slots.header_le .primary (by decide)) (slots.header_le .secondary (by decide))
  have reset := isReset_bootStatusReset b.board
  have compatible : (SwapScratch.algo b).bootSlotsCompatible = true := slots.compatible
  have none : (bootStatusReset b.board).swapType = .none := rfl
  unfold bootPrepareImageForUpdate prepareFromStatus
  simp only [wp_bind, wp_get, headers, compatible, slots.mode, if_true, not_true_eq_false, if_false, reset, none]
  refine wp_imp decides fun swapType fl' h => ?_
  rwa [wp_pure]

theorem bootValidatedSwapType_pending (slots : Slots b) (pending : Pending b img fl)
    (le : img.size ≤ bootSwapInfoOff b.board .secondary)
    (post : ∀ swapType, swapType = .test ∨ swapType = .perm → Q swapType fl) :
    wp (bootValidatedSwapType b (SwapScratch.algo b) (readState fl) bs) Q E C fl := by
  obtain ⟨info, done⟩ := swapInfoOff_add slots.room'
  have type : bootSwapTypeMulti b.board fl = .test ∨ bootSwapTypeMulti b.board fl = .perm := by
    rw [bootSwapTypeMulti_eq slots.room slots.room', swapTypeOfStates_eq]
    have imageOk := pending.requested.imageOk
    simp only [pending.requested.magic, slots.not_offset, true_and, false_and, if_false]
    cases ok : (swapState b.board fl .secondary).imageOk with
    | set => simp
    | unset => simp
    | bad => exact absurd ok imageOk
  have upgrade : (bootSwapTypeMulti b.board fl).isUpgrade = true := by
    rcases type with h | h <;> rw [h] <;> rfl
  unfold bootValidatedSwapType
  rw [wp_bind, wp_get, if_pos upgrade, wp_bind]
  refine wp_bootValidateSlot img pending.held.decode_read pending.held ?_ ?_ ?_ ?_
  · simpa [BootState.startOff, readState, BootState.clear] using show img.size ≤ _ by omega
  · rwa [slots.maxImageSize]
  · exact fun offset => absurd offset slots.not_offset
  · exact (wp_pure _).mpr (post _ type)

theorem bootValidatedSwapType_quiet (slots : Slots b) (quiet : Quiet b.board fl)
    (post : Q .none fl) : wp (bootValidatedSwapType b (SwapScratch.algo b) (readState fl) bs) Q E C fl := by
  unfold bootValidatedSwapType
  rw [wp_bind, wp_get]
  simp only
  split
  next upgrade =>
    rcases quiet with erased | none
    · have hdr : ((readState fl).hdr .secondary).bootCheckHeaderErased = true := erased
      simp only [bootValidateSlot, hdr, noBootableImage, slots.mode, wp_bind]
      simpa using post
    · rw [none] at upgrade
      cases upgrade
  next none =>
    have type : bootSwapTypeMulti b.board fl = .none := by
      rw [bootSwapTypeMulti_eq slots.room slots.room', swapTypeOfStates_eq] at none ⊢
      split_ifs at none ⊢ <;> first | rfl | exact absurd rfl none
    rw [wp_pure, type]
    exact post

theorem performSwapType_eq (slots : Slots b) {st : BootState} (upgrade : st.swapType = .test ∨ st.swapType = .perm) :
    performSwapType b (SwapScratch.algo b) st bs =
      (do assertOk (bootCopyImage b (SwapScratch.algo b) st); return st) := by
  rcases upgrade with h | h <;> simp [performSwapType, h, bootPerformUpdate, slots.mode]

theorem Layout.swapInfoOff_eq (layout : Layout b) :
    bootSwapInfoOff b.board .secondary = bootSwapInfoOff b.board .primary := by
  simp only [bootSwapInfoOff, bootCopyDoneOff, bootImageOkOff, bootMagicOff, layout.sameSize]

theorem bootGo_wp (layout : Layout b) (le : img.size ≤ bootSwapInfoOff b.board .primary) (safe : Safe b img fl) :
    wp (bootGo b) (fun booted fl' => booted = true ∧ Installed b img fl') (fun _ _ => False) (Safe b img) fl := by
  obtain ⟨info, done⟩ := swapInfoOff_add layout.room
  have maxSize : img.size ≤ bootutilMaxImageSize b (SwapScratch.algo b) .primary := by
    rwa [layout.maxImageSize]
  have finish : ∀ {st : BootState} {fl' : Flash}, Installed b img fl' →
      (st.swapType = .none → st.hdrPrimary = img.hdr) →
      wp (bootPrimarySlot b (SwapScratch.algo b) st)
        (fun booted fl' => booted = true ∧ Installed b img fl') (fun _ _ => False) (Safe b img) fl' :=
    fun installed hdr => wp_bootPrimarySlot (SwapScratch.readsHeaders b) installed.held (by omega)
      maxSize hdr ⟨rfl, installed⟩
  unfold bootGo Adaboot.bootGo
  rw [wp_bind]
  apply bootPrepareImageForUpdate_wp layout.toSlots
  rcases safe with pending | installed
  · refine bootValidatedSwapType_pending layout.toSlots pending (layout.swapInfoOff_eq ▸ le) fun swapType upgrade => ?_
    simp only [wp_bind]
    rw [performSwapType_eq layout.toSlots upgrade, wp_bind]
    refine wp_assertOk (wp_imp (bootCopyImage_wp layout pending pending.held.decode_read le) fun _ fl' installed => ?_)
    rw [wp_pure]
    refine finish installed fun none => ?_
    rcases upgrade with h | h <;> rw [h] at none <;> cases none
  · refine bootValidatedSwapType_quiet layout.toSlots installed.quiet ?_
    simp only [wp_bind, performSwapType, wp_pure]
    exact finish installed fun _ => installed.held.decode_read

def demoLoader (layout : Area → List Nat) (ok : Board.Fits 8 2 256 (fun _ => 3) layout) : LoaderBuild where
  board := .ofLayout (.overwrite false false) 8 2 256 (fun _ => 3) layout ok
  validate := hashBuild
  validatePrimarySlot := true

def demoImage : Image hashBuild := .ofBytes hashBuild (hashedImage (List.replicate 228 5)) (by decide +kernel)

theorem demoImage_size : demoImage.size = 300 := by decide +kernel

def demoFlash (secondarySize : Nat) : Flash := fun a i =>
  if a = .secondary ∧ i < 300 then demoImage.bytes.getD i 0
  else if a = .secondary ∧ secondarySize - 16 ≤ i ∧ i < secondarySize then
    [0x77, 0xc2, 0x95, 0xf3, 0x60, 0xd2, 0xef, 0x7f, 0x35, 0x52, 0x50, 0x0f, 0x2c, 0xb6, 0x79,
      0x80].getD (i + 16 - secondarySize) 0
  else erasedVal

theorem demoFlash_holds (size : Nat) : Holds (demoFlash size) .secondary 0 demoImage := by
  intro i lt
  rw [demoImage_size] at lt
  simp [demoFlash, lt]

/-- Every cut leaves the request in the secondary slot or the image in the primary slot, and every boot that is not cut
boots the image. -/
theorem upgrade_survives_cuts (img : Image b.validate) (layout : Layout b)
    (le : img.size ≤ bootutilMaxImageSize b (SwapScratch.algo b) .secondary)
    (held : Holds fl .secondary 0 img) (requested : Requested b.board fl) {fl' : Flash}
    (cuts : Interrupted (bootGo b) fl fl') :
    (Holds fl' .secondary 0 img ∧ Requested b.board fl' ∨ Holds fl' .primary 0 img) ∧
      ∀ n, (bootGo b (boots (bootGo b) n fl')).value = .ok true ∧
        Holds (boots (bootGo b) (n + 1) fl') .primary 0 img := by
  have max_eq := layout.maxImageSize .secondary
  have le' : img.size ≤ bootSwapInfoOff b.board .primary := by
    rwa [max_eq, layout.swapInfoOff_eq] at le
  have step : ∀ fl, Safe b img fl → wp (bootGo b) (fun booted fl' => booted = true ∧
      Installed b img fl') (fun _ _ => False) (Safe b img) fl :=
    fun _ safe => bootGo_wp layout le' safe
  have safe := cuts.invariant step (.inl ⟨held, requested⟩)
  constructor
  · exact safe.imp (fun pending => ⟨pending.held, pending.requested⟩) (fun installed => installed.held)
  · intro n
    have reached : Safe b img (boots (bootGo b) n fl') :=
      boots_invariant (fun s safe => by
        obtain ⟨_, _, _, installed⟩ := wp_returns (step s safe)
        exact .inr installed) safe n
    obtain ⟨booted, value, rfl, installed⟩ := wp_returns (step _ reached)
    exact ⟨value, boots_succ (bootGo b) n fl' ▸ installed.held⟩

theorem upgrade_survives_cuts_demo :
    let b := demoLoader (fun _ => [256, 256]) (by decide)
    Holds (demoFlash 512) .secondary 0 demoImage ∧
      (bootGo b (cutAt (bootGo b) (cutAt (bootGo b) (demoFlash 512) 3) 2)).value = .ok true := by
  have layout : Layout (demoLoader (fun _ => [256, 256]) (by decide)) := ⟨⟨rfl, by decide, by decide, by decide⟩, rfl⟩
  have requested : Requested (demoLoader (fun _ => [256, 256]) (by decide)).board (demoFlash 512) :=
    ⟨by decide +kernel, by decide +kernel, by decide +kernel⟩
  have all := upgrade_survives_cuts demoImage layout (by decide +kernel) (demoFlash_holds 512) requested
    (interrupted_twice (by decide +kernel) (by decide +kernel) : Interrupted _ _ (cutAt _ (cutAt _ _ 3) 2))
  exact ⟨demoFlash_holds 512, (all.2 0).1⟩

/-! ### Slots of different sizes -/

theorem copyLoop_short {bd : Board} {src dst : Area} {offDst sz fuel n : Nat} {fl fl' : Flash}
    {Q : Unit → Flash → Prop} (short : bd.faSize src < sz) (fits : offDst + sz ≤ bd.faSize dst) (whole : bd.bufSz ∣ n)
    (le : n ≤ bd.faSize src) (enough : sz < n + fuel) (out : Flash.EqOutside dst offDst (offDst + n) fl fl')
    (fails : ∀ n fl', bd.bufSz ∣ n → n ≤ bd.faSize src → Flash.EqOutside dst offDst (offDst + n) fl fl' → E .eflash fl')
    (cuts : ∀ fl', Flash.EqOutside dst offDst (offDst + sz) fl fl' → C fl') :
    wp (copyLoop bd src dst 0 offDst sz fuel n) Q E C fl' := by
  induction fuel generalizing n fl' with
  | zero => omega
  | succ fuel ih =>
    rw [copyLoop, if_pos (by omega)]
    generalize h : (if sz - n > bd.bufSz then bd.bufSz else sz - n) = chunkSz
    rw [wp_bind, wp_get]
    by_cases inside : 0 + n + chunkSz ≤ bd.faSize src
    · have pos := bd.bufSz_pos
      obtain rfl : bd.bufSz = chunkSz := by
        rw [← h]
        split
        · rfl
        · rw [if_neg (by omega)] at h
          omega
      rw [flashAreaRead_of_le (by simpa only [Board.area] using inside)]
      simp only [wp_bind, Board.area]
      rw [wp_flashAreaWrite (by simp only [List.length_map, List.length_range]; omega)]
      refine ⟨cuts _ (out.mono le_rfl (by omega)), ?_⟩
      refine ih (Nat.dvd_add whole (Nat.dvd_refl _)) (by omega) (by omega) ?_
      refine (out.mono le_rfl (by omega)).trans ((Flash.eqOutside_program _ _ _ _).mono (by omega) ?_)
      simp only [List.length_map, List.length_range]
      omega
    · have none : flashAreaRead (bd.area fl' src) (0 + n) chunkSz = none := if_neg inside
      rw [none]
      exact (wp_throw _).mpr (fails n fl' whole le out)

/-- Without `MCUBOOT_OVERWRITE_ONLY_FAST` and with the larger slot first, no boot gets past the copy. -/
theorem bootGo_stuck (slots : Slots b) (slow : b.board.mode.isFast = false)
    (larger : b.board.faSize .secondary < b.board.faSize .primary)
    (le : img.size ≤ bootSwapInfoOff b.board .secondary) (pending : Pending b img fl) : wp (bootGo b) (fun _ _ => False)
      (fun e fl' => e = .panic ∧ Pending b img fl' ∧ ∃ n, b.board.bufSz ∣ n ∧
        n ≤ b.board.faSize .secondary ∧ Flash.Erased fl' .primary n (b.board.faSize .primary)) (fun _ => True) fl := by
  have start : ErasedTo fl fl b.board (b.board.sectorOff .primary 0) :=
    ⟨.refl _ _ _ _, fun i _ hi => by simp [Board.sectorOff] at hi⟩
  unfold bootGo Adaboot.bootGo
  rw [wp_bind]
  apply bootPrepareImageForUpdate_wp slots
  refine bootValidatedSwapType_pending slots pending le fun swapType upgrade => ?_
  simp only [wp_bind]
  rw [performSwapType_eq slots upgrade, wp_bind, assertOk, wp_handle]
  unfold bootCopyImage
  rw [wp_bind, wp_get, slow]
  simp only [Bool.false_eq_true, if_false, wp_bind, wp_throw]
  refine copyImageErase_wp (by omega) (Nat.zero_le _) (fun fast => by simp [fast] at slow) start
    (fun _ fast => by simp [fast] at slow) (fun fl₁ _ erased => ?_) (fun _ _ => trivial)
  refine copyLoop_short larger (by omega) (Nat.dvd_zero _) (Nat.zero_le _) (by omega) (.refl _ _ _ _)
    (fun n fl₂ whole inside out => ?_) (fun _ _ => trivial)
  refine ⟨trivial, pending.congr slots (erased.outside.trans (out.mono (Nat.zero_le _) (by omega))), n,
    whole, inside, fun i lo hi => ?_⟩
  rw [out _ _ fun _ => .inr (by omega)]
  exact erased.blank i (Nat.zero_le _) hi

def unevenLayout : Area → List Nat
  | .primary => [256, 256]
  | .secondary => [256, 128]
  | .scratch => []

/-- The loader accepts slots and image, and yet every boot fails its assertion and leaves the primary slot without the
image. -/
theorem uneven_slots_never_boot :
    let b := demoLoader unevenLayout (by decide)
    bootSlotsCompatible b.board = true ∧ demoImage.size ≤ bootutilMaxImageSize b (SwapScratch.algo b) .secondary ∧
      demoImage.size ≤ appMaxSize b.board ∧ Holds (demoFlash 384) .secondary 0 demoImage ∧
      Requested b.board (demoFlash 384) ∧
      ∀ n, (bootGo b (boots (bootGo b) n (demoFlash 384))).value = .error .panic ∧
        ¬Holds (boots (bootGo b) (n + 1) (demoFlash 384)) .primary 0 demoImage := by
  let b := demoLoader unevenLayout (by decide)
  have slots : Slots b := ⟨rfl, by decide, by decide, by decide⟩
  have requested : Requested b.board (demoFlash 384) := ⟨by decide +kernel, by decide +kernel, by decide +kernel⟩
  have max : demoImage.size ≤ bootSwapInfoOff b.board .secondary := by decide +kernel
  have stuck : ∀ fl, Pending b demoImage fl → (bootGo b fl).value = .error .panic ∧
      Pending b demoImage (bootGo b fl).state ∧
      Flash.Erased (bootGo b fl).state .primary 256 512 := by
    intro fl pending
    obtain ⟨-, failed⟩ := bootGo_stuck slots rfl (by decide) max pending
    split at failed
    next => exact failed.elim
    next e value =>
      obtain ⟨rfl, still, n, whole, le, blank⟩ := failed
      have whole : 256 ∣ n := whole
      have le : n ≤ 384 := le
      exact ⟨value, still, fun i lo hi => blank i (by omega) hi⟩
  refine ⟨slots.compatible, slots.maxImageSize .secondary ▸ max, by decide +kernel,
    demoFlash_holds 384, requested, fun n => ?_⟩
  have pending := boots_invariant (I := Pending b demoImage) (fun fl pending => (stuck fl pending).2.1)
    ⟨demoFlash_holds 384, requested⟩ n
  obtain ⟨value, -, blank⟩ := stuck _ pending
  refine ⟨value, fun held => ?_⟩
  -- byte 256 belongs to the body of the image
  have byte := held 256 (by rw [demoImage_size]; decide)
  rw [boots_succ, Nat.zero_add, blank 256 (by decide) (by decide)] at byte
  exact absurd byte (by decide +kernel)

end Boots

end Adaboot.Overwrite
