import Adaboot.Swap.MovePlan

/-!
# Power cuts in swaps using move

Every boot runs the swap to its end, and a power cut leaves a state from which the next boot does so again, as long as
the images leave room for the trailers as they are scrambled.
-/

namespace Adaboot.SwapMove

open Nor Crash

/-! ### Boots -/

def exchanged (S last : Nat) (fl : Flash) (c : Cell) : Option Bytes :=
  if c.1 ≠ .scratch ∧ c.2 < last then some (cells S fl c) else none

/-- An update is requested: the primary slot has the old and the secondary slot the new image. -/
structure Start (b : LoaderBuild) (last : Nat) (old new : Image b.validate) (fl : Flash) : Prop where
  old_held : Holds fl .primary 0 old
  new_held : Holds fl .secondary 0 new
  requested : Requested b.board fl
  lastIdx : findLastIdx b.board (swapSizeOf old new) = last

section Boots

variable {b : LoaderBuild} {S last : Nat} {old new : Image b.validate} {fl₀ fl : Flash}

def record (b : LoaderBuild) (old new : Image b.validate) (fl₀ : Flash) : SwapRecord :=
  ⟨requestedType b.board fl₀, swapSizeOf old new, 0, 0⟩

abbrev OnRecord (layout : Layout b S last) (old new : Image b.validate) (fl₀ : Flash) (k : Nat) (fl : Flash) : Prop :=
  (plan layout).Progress (record b old new fl₀) (exchanged S last fl₀) k fl

/-- What survives every power cut: the request, or a swap on record. -/
def Safe (layout : Layout b S last) (old new : Image b.validate) (fl₀ fl : Flash) : Prop :=
  Untouched b.board S (last + 1) last fl₀ fl ∨
    ∃ k, (plan layout).Progress (record b old new fl₀) (exchanged S last fl₀) k fl

theorem exchanged_in (c : Cell) (known : exchanged S last fl₀ c ≠ none) : InSectors (last + 1) last c := by
  obtain ⟨a, i⟩ := c
  unfold exchanged at known
  split at known
  next inside =>
    cases a with
    | primary => exact .inl ⟨rfl, by simp at inside ⊢; omega⟩
    | secondary => exact .inr ⟨rfl, by simp at inside; omega⟩
    | scratch => simp at inside
  next => exact absurd rfl known

theorem exchanged_eq (c : Cell) (d : Bytes) (value : exchanged S last fl₀ c = some d) : cells S fl₀ c = d := by
  unfold exchanged at value
  split at value
  next => exact Option.some.inj value
  next => simp at value

namespace Layout

variable (layout : Layout b S last)
include layout

theorem roomPri : b.board.HoldsTrailer .primary := by
  have := layout.primary
  have := infoSz_le_scrambleSz b.board .primary
  omega

theorem roomSec : b.board.HoldsTrailer .secondary := by
  have := layout.secondary
  have := infoSz_le_scrambleSz b.board .secondary
  omega

theorem swaps : Swaps b (algo b) := by
  have := layout.roomPri
  have := bootTrailerInfoSz_ge b.board
  refine ⟨readsHeaders b, ?_, layout.compatible, layout.slots.keeps.not_overwrite⟩
  unfold imageHeaderSize
  omega

theorem maxImageSize_eq (a : Area) : bootutilMaxImageSize b (algo b) a = appMaxSize b.board := by
  rw [bootutilMaxImageSize, layout.mode]
  rfl

end Layout

variable {E : BootErr → Flash → Prop} {st : BootState} {bs : BootStatus} {a : Area} {img : Image b.validate} {k : Nat}

theorem cells_of_copied (midway : Midway (moveCopy last) (3 * last) (exchanged S last fl₀) (3 * last) (cells S fl)) :
    ∀ i, i < last → cells S fl (.primary, i) = cells S fl₀ (.secondary, i) ∧
      cells S fl (.secondary, i) = cells S fl₀ (.primary, i) := by
  intro i lt
  have final := after_exchange (exchanged S last fl₀) (Nat.le_refl (2 * last))
  rw [show last + 2 * last = 3 * last by omega] at final
  obtain ⟨pri, sec⟩ := final
  have done : ∀ c, 3 * last < 3 * last → c ≠ (moveCopy last (3 * last)).dst := fun c lt => by omega
  constructor
  · refine midway _ _ (done _) ?_
    rw [pri, if_pos (by omega)]
    simp [exchanged, lt]
  · refine midway _ _ (done _) ?_
    rw [sec, if_pos (by omega)]
    simp [exchanged, lt]

theorem bootReadImageHeader_held
    (reset : bs.isReset b.board = true) (held : Holds fl a 0 img) (fits : img.size ≤ b.board.faSize a) :
    bootReadImageHeader b.board fl st a (some bs) = (st.setHdr a img.hdr, true) := by
  obtain ⟨out, read, decoded⟩ := held.headerRead b.board (by omega)
  have magic : img.hdr.ihMagic = imageMagic := img.magic
  simp [bootReadImageHeader, headerPlace, reset, read, decoded, magic]

theorem bootReadImageHeaders_held {all : Bool}
    (reset : bs.isReset b.board = true) (pri : Holds fl .primary 0 old) (sec : Holds fl .secondary 0 new)
    (fitsPri : old.size ≤ b.board.faSize .primary) (fitsSec : new.size ≤ b.board.faSize .secondary) :
    bootReadImageHeaders (algo b) fl st all (some bs) =
      ({ st with hdrPrimary := old.hdr, hdrSecondary := new.hdr }, true) := by
  simp only [bootReadImageHeaders, algo]
  rw [bootReadImageHeader_held reset pri fitsPri]
  simp only
  rw [bootReadImageHeader_held reset sec fitsSec]
  rfl

theorem imageSize_held (hdr : st.hdr a = img.hdr) (held : Holds fl a 0 img) (fits : img.size ≤ b.board.faSize a) :
    imageSizeIfPresent (algo b) fl st a = pure (img.size, st) := by
  have read : readImageSize (b.board.area fl a) img.hdr 0 = _ := held.imageSizeRead (by omega)
  exact imageSizeIfPresent_held hdr (by simp only [algo, hdr, read, Option.map_some])

variable (layout : Layout b S last)
include layout

theorem Start.size_le (start : Start b last old new fl₀) :
    old.size ≤ last * S ∧ new.size ≤ last * S ∧ 0 < last := by
  have ge := layout.size_ge
  have spec := @sectorCount_spec S (swapSizeOf old new) (by omega)
  have lastIdx := start.lastIdx
  unfold findLastIdx at lastIdx
  rw [layout.sectorSize_eq] at lastIdx
  rw [lastIdx, swapSizeOf] at spec
  obtain ⟨pos, le, -⟩ := spec
  split at le <;> exact ⟨by omega, by omega, pos⟩

/-- No copy is on record yet: the swap is begun again, or it is only requested. -/
structure Begins (old new : Image b.validate) (fl₀ : Flash) (bs : BootStatus) (fl : Flash) : Prop where
  resumed : bs.source = .primarySlot → OnRecord layout old new fl₀ 0 fl
  fresh : bs.source ≠ .primarySlot → Untouched b.board S (last + 1) last fl₀ fl

variable {layout} in
theorem Begins.midway (begins : Begins layout old new fl₀ bs fl) :
    Midway (plan layout).copy (plan layout).length (exchanged S last fl₀) 0 (cells S fl) := by
  by_cases source : bs.source = .primarySlot
  · exact (begins.resumed source).midway
  · exact Plan.midway_of_untouched exchanged_in exchanged_eq (begins.fresh source)

/-- Both images stand where the other one was, and the primary slot says that the swap is done. -/
structure Swapped (b : LoaderBuild) (S last : Nat) (old new : Image b.validate) (fl₀ fl : Flash) : Prop where
  new_held : Holds fl .primary 0 new
  old_held : Holds fl .secondary 0 old
  sectors : ∀ i, i < last * S → fl .primary i = fl₀ .secondary i ∧ fl .secondary i = fl₀ .primary i
  finished : Finished b.board (record b old new fl₀) fl

/-- A boot completes the swap, and each of its cuts is safe. -/
abbrev Completes (old new : Image b.validate) (fl₀ fl : Flash) : Prop :=
  wp (bootGo b) (fun booted fl' => booted = true ∧ Swapped b S last old new fl₀ fl')
    (fun _ _ => False) (Safe layout old new fl₀) fl

variable (start : Start b last old new fl₀)
include start

theorem wp_finish (progress : OnRecord layout old new fl₀ (3 * last) fl) :
    wp (finishSwap b (requestedType b.board fl₀)) (fun _ fl' => Swapped b S last old new fl₀ fl')
      E (Safe layout old new fl₀) fl := by
  obtain ⟨old_le, new_le, pos⟩ := start.size_le layout
  have ge := layout.size_ge
  refine @wp_finishSwap (record b old new fl₀) _ _ _ _ _ layout.roomPri
    (requestedType_upgrade b.board fl₀) progress.recorded.marked
    (fun fl' out marked => .inr ⟨_, progress.mark exchanged_in out marked⟩) fun fl' out finished => ?_
  have same := (plan layout).sameSectors_of_fields out
  have cell : ∀ i, i < last → cells S fl' (.primary, i) = cells S fl₀ (.secondary, i) ∧
      cells S fl' (.secondary, i) = cells S fl₀ (.primary, i) := by
    intro i lt
    obtain ⟨pri, sec⟩ := cells_of_copied progress.midway i lt
    rw [same.cells (.inl ⟨rfl, by show i < last + 1; omega⟩), same.cells (.inr ⟨rfl, lt⟩)]
    exact ⟨pri, sec⟩
  have zero : 0 = 0 * S := (Nat.zero_mul S).symm
  refine ⟨?_, ?_, fun i lt => ?_, finished⟩
  · refine start.new_held.of_cells 0 0 zero zero new_le fun i lt => ?_
    rw [Nat.zero_add]
    exact (cell i lt).1
  · refine start.old_held.of_cells 0 0 zero zero old_le fun i lt => ?_
    rw [Nat.zero_add]
    exact (cell i lt).2
  · have inside := Nat.mod_lt i (show 0 < S by omega)
    have sector : i / S < last := (Nat.div_lt_iff_lt_mul (by omega)).mpr lt
    obtain ⟨pri, sec⟩ := cell _ sector
    have split := Nat.div_add_mod' i S
    have first := cells_byte pri inside
    have second := cells_byte sec inside
    rw [split] at first second
    exact ⟨first, second⟩

theorem holds_of_midway
    (midway : Midway (plan layout).copy (plan layout).length (exchanged S last fl₀) 0 (cells S fl)) :
    Holds fl .primary 0 old ∧ Holds fl .secondary 0 new := by
  obtain ⟨old_le, new_le, pos⟩ := start.size_le layout
  have zero : 0 = 0 * S := (Nat.zero_mul S).symm
  have dst : ((plan layout).copy 0).dst = (.primary, last) := by
    show (moveCopy last 0).dst = _
    rw [moveCopy_up pos]
    rfl
  have cell : ∀ a i, a ≠ .scratch → i < last → cells S fl (a, 0 + i) = cells S fl₀ (a, 0 + i) := by
    intro a i slot lt
    refine midway _ _ (fun _ same => ?_) ?_
    · have : (a, 0 + i) = (Area.primary, last) := same.trans dst
      simp at this
      omega
    · show exchanged S last fl₀ _ = _
      simp [exchanged, slot, lt]
  exact ⟨start.old_held.of_cells 0 0 zero zero old_le fun i lt => cell _ i (by decide) lt,
    start.new_held.of_cells 0 0 zero zero new_le fun i lt => cell _ i (by decide) lt⟩

theorem magic_of_progress (progress : OnRecord layout old new fl₀ k fl) (slot : Area) :
    (ImageHeader.decode (fl.read (headerCell last k slot).1 ((headerCell last k slot).2 * S)
      imageHeaderSize)).ihMagic = imageMagic := by
  obtain ⟨-, -, pos⟩ := start.size_le layout
  have zero : 0 = 0 * S := (Nat.zero_mul S).symm
  have cell : ∀ a, a ≠ .scratch → after (moveCopy last) (exchanged S last fl₀) k
      (headerCell last k slot) = exchanged S last fl₀ (a, 0) →
      cells S fl (headerCell last k slot) = cells S fl₀ (a, 0) := by
    intro a isSlot value
    refine progress.midway _ _ headerCell_ne ?_
    show after (moveCopy last) _ _ _ = _
    rw [value]
    simp [exchanged, isSlot, pos]
  rcases after_headerCell slot pos progress.le with value | value
  · exact start.old_held.magic_of_cells 0 zero layout.size_ge (cell _ (by decide) value)
  · exact start.new_held.magic_of_cells 0 zero layout.size_ge (cell _ (by decide) value)

theorem headers_of_progress (pos : 0 < k) (at_k : StatusAt last k bs)
    (progress : OnRecord layout old new fl₀ k fl) (st : BootState) :
    ∃ st', bootReadImageHeaders (algo b) fl st true (some bs) = (st', true) := by
  obtain ⟨-, -, some⟩ := start.size_le layout
  have held : ∀ (slot : Area), slot ≠ .scratch → ∀ st : BootState,
      ∃ st', bootReadImageHeader b.board fl st slot (Option.some bs) = (st', true) := by
    intro slot isSlot st
    have place := headerPlace_eq layout.mode (layout.slots.bootFindStatus_eq layout.roomPri)
      (progress.recorded.marked.swapSize_eq layout.roomPri (swapSizeOf_lt old new)) start.lastIdx
      layout.sectorSize_eq pos progress.le at_k isSlot
    have magic := magic_of_progress layout start progress slot
    obtain ⟨-, -, room⟩ := (plan layout).inSectors_lt (headerCell_in k slot some)
    have info := infoSz_le_scrambleSz b.board (headerCell last k slot).1
    have infoGe := bootTrailerInfoSz_ge b.board
    rw [Nat.succ_mul] at room
    exact ⟨_, bootReadImageHeader_placed place (by unfold imageHeaderSize; omega) magic⟩
  obtain ⟨st₁, first⟩ := held .primary (by decide) st
  obtain ⟨st₂, second⟩ := held .secondary (by decide) st₁
  refine ⟨st₂, ?_⟩
  simp only [bootReadImageHeaders, algo, first, second]

variable (le : new.size ≤ appMaxSize b.board)
include le

theorem bootGo_begin_wp (bs : BootStatus) (at_0 : Moving 0 bs)
    (kind : bs.swapType = .none ∧ bootSwapTypeMulti b.board fl = requestedType b.board fl₀ ∨
      bs.swapType = requestedType b.board fl₀) (begins : Begins layout old new fl₀ bs fl)
    (status : wp (swapReadStatus b.board (algo b) (bootStatusReset b.board))
      (fun bs' fl' => bs' = bs ∧ fl' = fl) (fun _ _ => False) (Safe layout old new fl₀) fl) :
    Completes layout old new fl₀ fl := by
  obtain ⟨old_le, new_le, pos⟩ := start.size_le layout
  have roomPri := layout.primary
  have roomSec := layout.secondary
  rw [Nat.succ_mul] at roomPri
  have max : ∀ a, new.size ≤ bootutilMaxImageSize b (algo b) a := fun a =>
    layout.maxImageSize_eq a ▸ le
  obtain ⟨pri, sec⟩ := holds_of_midway layout start begins.midway
  have at_k : StatusAt last 0 bs := at_0
  have isReset := (at_k.reset_iff layout.mode).mpr rfl
  refine wp_bootGo_begin layout.swaps new (by omega) (max _) (max _)
    (requestedType_upgrade b.board fl₀) (wp_imp status ?_)
  rintro bs' fl' ⟨rfl, rfl⟩
  refine ⟨isReset, kind, fun offset => by simp [layout.mode] at offset, fun st off => ?_⟩
  refine ⟨_, bootReadImageHeaders_held isReset pri sec (by omega) (by omega), rfl, ?_, ?_, ?_⟩
  · simpa [BootState.startOff, off] using sec
  · simp only [BootState.startOff, if_true, off]
    omega
  obtain ⟨forward, notNone⟩ := requestedType_ne b.board fl₀
  refine wp_bootPerformUpdate layout.slots isReset (imageSize_held rfl pri (by omega))
    (imageSize_held rfl sec (by omega)) ?_
  refine wp_swapRun exchanged_in (fun k fl' progress => .inr ⟨k, progress⟩) pos start.lastIdx forward
    (at_k.congr rfl rfl rfl) (fun _ => ?_) (fun some => absurd some (Nat.lt_irrefl 0)) fun _ fl' _ progress => ?_
  · exact Plan.wp_begin rfl exchanged_in (fun _ => ⟨rfl, rfl, fun offset => by simp [layout.mode] at offset⟩)
      begins.midway begins.resumed (fun source => ⟨rfl, begins.fresh source⟩) (fun _ => .inl)
      (fun _ progress => .inr ⟨0, progress⟩) fun _ progress => progress
  · refine wp_imp (wp_finish layout start progress) ?_
    intro _ fl'' swapped
    exact ⟨notNone, swapped.new_held, rfl, swapped⟩

theorem bootGo_resume_wp (pos : 0 < k) (progress : OnRecord layout old new fl₀ k fl) :
    Completes layout old new fl₀ fl := by
  obtain ⟨-, new_le, some⟩ := start.size_le layout
  have roomPri := layout.primary
  rw [Nat.succ_mul] at roomPri
  refine wp_bootGo_resume layout.swaps new (by omega) (layout.maxImageSize_eq _ ▸ le) ?_
  refine progress.recorded.wp_swapReadStatus layout.roomPri (requestedType_upgrade b.board fl₀)
    (progress.recorded.source_eq layout.roomPri layout.roomSec) ?_
  refine wp_swapReadStatusBytes progress fun bs' _ _ decoded => ⟨rfl, ?_⟩
  have at_k : StatusAt last k { bs' with swapType := (record b old new fl₀).swapType } :=
    (decoded pos).congr rfl rfl rfl
  refine ⟨at_k.not_reset layout.mode pos, fun st _ => ?_⟩
  obtain ⟨st', headers⟩ := headers_of_progress layout start pos at_k progress st
  refine ⟨st', headers, ?_⟩
  refine wp_bootCompletePartialSwap layout.slots layout.roomPri progress.recorded.marked (swapSizeOf_lt old new)
    (at_k.not_reset layout.mode pos) ?_
  refine wp_swapRun exchanged_in (fun k fl' progress => .inr ⟨k, progress⟩) some start.lastIdx
    (requestedType_ne b.board fl₀).1 (at_k.congr rfl rfl rfl) (fun zero => absurd zero (by omega)) (fun _ => progress)
    fun bs' fl' type done => ?_
  rw [type]
  refine wp_imp (wp_finish layout start done) ?_
  intro _ fl'' swapped
  exact ⟨swapped.new_held, rfl, swapped⟩

theorem bootGo_wp (safe : Safe layout old new fl₀ fl) :
    Completes layout old new fl₀ fl := by
  have op : (bootStatusReset b.board).op = .move := by
    simp [bootStatusReset, resetOp, layout.mode]
  rcases safe with untouched | ⟨k, progress⟩
  · have source := swapStatusSource_none fl layout.roomPri layout.roomSec fun _ => by
      rw [untouched.secondary]
      exact start.requested.magic
    exact bootGo_begin_wp layout start le { bootStatusReset b.board with source := .none }
      ⟨op, rfl, rfl⟩ (.inl ⟨rfl, untouched.swapType_eq layout.roomPri layout.roomSec start.requested⟩)
      ⟨fun eq => by simp at eq, fun _ => untouched⟩ (wp_swapReadStatus_none source ⟨rfl, rfl⟩)
  rcases Nat.eq_zero_or_pos k with rfl | pos
  · refine bootGo_begin_wp layout start le { bootStatusReset b.board with
        source := .primarySlot, swapType := requestedType b.board fl₀ }
      ⟨op, rfl, rfl⟩ (.inr rfl) ⟨fun _ => progress, fun ne => absurd rfl ne⟩ ?_
    refine progress.recorded.wp_swapReadStatus layout.roomPri (requestedType_upgrade b.board fl₀)
      (progress.recorded.source_eq layout.roomPri layout.roomSec) ?_
    refine wp_swapReadStatusBytes progress fun bs' _ same _ => ⟨rfl, ?_, rfl⟩
    rw [same rfl]
    rfl
  · exact bootGo_resume_wp layout start le pos progress

omit layout start le

/-! ### Every sequence of cuts -/

theorem appMaxSize_room {bd : Board} {size : Nat} (slots : EvenSlots bd S)
    (priRoom : reserved bd S + S ≤ bd.faSize .primary) (secRoom : reserved bd S ≤ bd.faSize .secondary)
    (sectorSize : bd.sectorSize .primary 0 = S) (le : size ≤ appMaxSize bd) :
    size + reserved bd S + S ≤ bd.faSize .primary ∧ size + reserved bd S ≤ bd.faSize .secondary := by
  have priLt : bd.faSize .primary < 2 ^ 32 := bd.size_lt .primary
  have secLt : bd.faSize .secondary < 2 ^ 32 := bd.size_lt .secondary
  simp only [appMaxSize, sectorSize, ← slots.faSize_eq (a := .primary) (by decide),
    ← slots.faSize_eq (a := .secondary) (by decide), u32] at le
  split at le <;> constructor <;> omega

/-- With sectors of a power of two and no larger writes in the secondary slot there is room for both trailers. -/
theorem Layout.of_appMaxSize {e : Nat} (mode : b.board.mode = .move)
    (slots : UniformSlots b.board (2 ^ e)) (compatible : bootSlotsCompatible b.board = true)
    (align : b.board.align .secondary ≤ b.board.align .primary)
    (room : ∀ a, a ≠ .scratch → reserved b.board (2 ^ e) + 2 ^ e ≤ b.board.faSize a)
    (old_le : old.size ≤ appMaxSize b.board) (new_le : new.size ≤ appMaxSize b.board) :
    Layout b (2 ^ e) (findLastIdx b.board (swapSizeOf old new)) := by
  have pos := Nat.two_pow_pos e
  have trailer_le := slots.even.scrambleSz_le_reserved
  have trailer_eq := slots.even.scrambleSz_secondary align
  have sectorSize := slots.even.sectorSize_eq (a := .primary) (by decide)
    (slots.even.sectors_pos (by decide) (by have := room .primary (by decide); omega))
  obtain ⟨size_pos, size_le⟩ := swapSizeOf_le old_le new_le
  obtain ⟨priLe, secLe⟩ := appMaxSize_room slots.even (room .primary (by decide))
    (Nat.le_of_add_right_le (room .secondary (by decide))) sectorSize size_le
  have pri := slots.even.sectorCount_room (k := 1) (a := .primary) (by decide) size_pos (by omega)
  have sec := slots.even.sectorCount_room (k := 0) (a := .secondary) (by decide) size_pos (by omega)
  rw [← sectorSize, ← findLastIdx.eq_def, sectorSize] at pri sec
  rw [Nat.add_zero] at sec
  exact ⟨mode, slots, compatible, by omega, by omega⟩

/-- Whatever the power cuts, the boot that is not cut boots the new image, and the sectors of the slots are exchanged.
-/
theorem swap_survives_cuts (old new : Image b.validate) (layout : Layout b S last)
    (start : Start b last old new fl) (le : new.size ≤ appMaxSize b.board) {fl' : Flash}
    (cuts : Interrupted (bootGo b) fl fl') :
    (bootGo b fl').value = .ok true ∧ Swapped b S last old new fl (bootGo b fl').state := by
  have safe : Safe layout old new fl fl := .inl ⟨.refl _ _ _ _, rfl⟩
  have run := cuts.recovers (fun fl' safe => bootGo_wp layout start le safe) safe
  obtain ⟨booted, value, rfl, swapped⟩ := wp_returns run
  exact ⟨value, swapped⟩

def demoLoader (alignLog : Area → Nat)
    (ok : Board.Fits 8 4 64 alignLog fun _ => List.replicate 4 64) : LoaderBuild where
  board := .ofLayout .move 8 4 64 alignLog (fun _ => List.replicate 4 64) ok
  validate := hashBuild
  validatePrimarySlot := true

def demoOld : Image hashBuild := .ofBytes hashBuild (hashedImage []) check_hashedImage_nil

def demoNew : Image hashBuild := .ofBytes hashBuild (hashedImage (List.replicate 28 5)) (by decide +kernel)

def demoFlash (bd : Board) : Flash
  | .primary, i => demoOld.bytes.getD i erasedVal
  | .secondary, i =>
    if i < 240 then demoNew.bytes.getD i erasedVal else (bootImgMagic bd).getD (i - 240) erasedVal
  | .scratch, _ => erasedVal

theorem demoFlash_old (bd : Board) : Holds (demoFlash bd) .primary 0 demoOld := by
  intro i lt
  have lt : i < demoOld.bytes.length := lt
  simp [demoFlash, List.getD, lt]

theorem demoFlash_new (bd : Board) : Holds (demoFlash bd) .secondary 0 demoNew := by
  intro i lt
  have lt : i < demoNew.bytes.length := lt
  have short : demoNew.bytes.length = 100 := by decide +kernel
  simp [demoFlash, List.getD, lt, show i < 240 by omega]

theorem swap_survives_cuts_demo :
    let b := demoLoader (fun _ => 0) (by decide)
    let fl := cutAt (bootGo b) (cutAt (bootGo b) (demoFlash b.board) 10) 7
    Start b 2 demoOld demoNew (demoFlash b.board) ∧ Layout b 64 2 ∧ demoNew.size ≤ appMaxSize b.board ∧
      (bootGo b fl).value = .ok true ∧ Swapped b 64 2 demoOld demoNew (demoFlash b.board) (bootGo b fl).state := by
  let b := demoLoader (fun _ => 0) (by decide)
  have start : Start b 2 demoOld demoNew (demoFlash b.board) :=
    ⟨demoFlash_old _, demoFlash_new _, ⟨by decide +kernel, by decide +kernel, by decide +kernel⟩, by decide +kernel⟩
  have slots : UniformSlots b.board (2 ^ 6) := ⟨.inl rfl, fun _ _ => rfl, nofun⟩
  have old_le : demoOld.size ≤ appMaxSize b.board := by decide +kernel
  have new_le : demoNew.size ≤ appMaxSize b.board := by decide +kernel
  have layout : Layout b (2 ^ 6) 2 := start.lastIdx ▸
    .of_appMaxSize rfl slots (by decide +kernel) le_rfl (fun a _ => by cases a <;> decide +kernel)
      old_le new_le
  exact ⟨start, layout, new_le, swap_survives_cuts demoOld demoNew layout start new_le
    (interrupted_twice (by decide +kernel) (by decide +kernel))⟩

/-! ### Slots of different write sizes -/

/-- The secondary slot needs writes of eight bytes, the primary slot of one byte. -/
def unevenLoader : LoaderBuild := demoLoader (fun a => if a = .secondary then 3 else 0) (by decide)

/-- The loader accepts slots and images, and yet a boot that is never cut leaves the new image in neither slot: its end
was removed with the trailer of the secondary slot. -/
theorem uneven_writes_lose_image : UniformSlots unevenLoader.board 64 ∧ bootSlotsCompatible unevenLoader.board = true ∧
      demoOld.size ≤ appMaxSize unevenLoader.board ∧ demoNew.size ≤ appMaxSize unevenLoader.board ∧
      Start unevenLoader 2 demoOld demoNew (demoFlash unevenLoader.board) ∧
      (bootGo unevenLoader (demoFlash unevenLoader.board)).value = .ok false ∧
      ¬Holds (bootGo unevenLoader (demoFlash unevenLoader.board)).state .primary 0 demoNew ∧
      ¬Holds (bootGo unevenLoader (demoFlash unevenLoader.board)).state .secondary 0 demoNew := by
  refine ⟨⟨.inl rfl, fun _ _ => rfl, nofun⟩, by decide +kernel, by decide +kernel, by decide +kernel,
    ⟨demoFlash_old _, demoFlash_new _, ⟨by decide +kernel, by decide +kernel, by decide +kernel⟩,
      by decide +kernel⟩, by decide +kernel, fun held => ?_, fun held => ?_⟩
  -- byte 64 is the first one of the sector that was erased
  · exact absurd (held 64 (by decide +kernel)) (by decide +kernel)
  · exact absurd (held 64 (by decide +kernel)) (by decide +kernel)

end Boots

end Adaboot.SwapMove
