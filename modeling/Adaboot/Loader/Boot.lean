import Adaboot.Loader.State

/-!
# The boot loader

`context_boot_go` of `loader.c` for one image, parametric in the swap algorithm. Overwrite-only builds use only the
header reader of an algorithm.
-/

namespace Adaboot

open Nor Crash

/-- The outcomes of the fault-injection hardened functions. -/
inductive FihRet where
  | success
  | failure
  | noBootableImage
deriving DecidableEq, Repr

/-- `BOOT_IS_UPGRADE`. -/
def SwapType.isUpgrade (swapType : SwapType) : Bool := swapType = .test ∨ swapType = .revert ∨ swapType = .perm

def SwapMode.isOverwrite : SwapMode → Bool
  | overwrite _ _ => true
  | _ => false

/-- `boot_copy_image` ends at the end of the image. -/
def SwapMode.isFast : SwapMode → Bool
  | overwrite fast _ => fast
  | move | offset => true
  | _ => false

/-- `boot_copy_image` leaves the header of the secondary slot. -/
def SwapMode.keepsBackup : SwapMode → Bool
  | overwrite _ keepBackup => keepBackup
  | move | offset => true
  | _ => false

/-- The loop of `boot_copy_image` that erases the primary slot, and the number of bytes to copy: in fast builds those
of the image, rounded up to the next write unit. -/
def copyImageErase (bd : Board) (srcSize : Nat) : Nat → Nat → Nat → Boot Nat
  | 0, _, size => pure size
  | n + 1, sect, size => do
    let thisSize := bd.sectorSize .primary sect
    assertOk (bootEraseRegion bd .primary size thisSize false)
    if bd.mode.isFast ∧ size + thisSize ≥ srcSize then
      return srcSize + (bd.writeSz - srcSize % bd.writeSz)
    copyImageErase bd srcSize n (sect + 1) (size + thisSize)

/-- The first sector of the trailer of the primary slot, counted from the end until the trailer
fits. -/
def trailerSectors (bd : Board) (trailerSz : Nat) : Nat → Nat → Option (Nat × Nat)
  | 0, _ => none
  | sector + 1, sz =>
    let sz := sz + bd.sectorSize .primary sector
    if sz < trailerSz then trailerSectors bd trailerSz sector sz
    else some (bd.sectorOff .primary sector, sz)

section Loader

variable (b : LoaderBuild) (alg : SwapAlgo)

def bootutilMaxImageSize (a : Area) : Nat :=
  match b.board.mode with
  | .single => bootStatusOff b.board a
  | .overwrite _ _ => bootSwapInfoOff b.board a
  | _ => alg.appMaxSize

def bootCheckImage (fl : Flash) (st : BootState) (slot : Area) : Bool :=
  bootutilImgValidate b.validate (st.hdr slot) (b.board.area fl slot) (st.startOff slot)
    (bootutilMaxImageSize b alg slot) []

def bootReadImageHeaders (fl : Flash) (st : BootState) (requireAll : Bool)
    (bs : Option BootStatus) : BootState × Bool :=
  match alg.bootReadImageHeader fl st .primary bs with
  | (st, false) => (st, false)
  | (st, true) =>
    match alg.bootReadImageHeader fl st .secondary bs with
    | (st, false) => (st, !requireAll)
    | (st, true) => (st, true)

/-- The branch of `boot_validate_slot` for a slot without a bootable image. -/
def noBootableImage (slot : Area) (bs : Option BootStatus) : Boot FihRet := do
  let bd := b.board
  if slot ≠ .primary ∧ ¬bd.mode.isOverwrite then
    ignoreRc (swapScrambleTrailerSectors bd slot)
    if bd.mode = .move then
      let fl ← .get
      if bs.map (·.swapType) = some .revert ∨ bootSwapTypeMulti bd fl = .revert then
        ignoreRc (swapScrambleTrailerSectors bd .primary)
  return .noBootableImage

/-- The branch of `boot_validate_slot` for an image that is not valid. -/
def invalidImage (slot : Area) : Boot FihRet := do
  if slot ≠ .primary then ignoreRc (bootScrambleSlot b.board slot)
  return .noBootableImage

/-- `boot_validate_slot`. The expected swap type is zero except where an upgrade is about to
start. -/
def bootValidateSlot (st : BootState) (slot : Area) (bs : Option BootStatus)
    (expectedSwapType : Option SwapType) : Boot FihRet := do
  let bd := b.board
  let hdr := st.hdr slot
  if hdr.bootCheckHeaderErased ∨ hdr.ihFlags &&& imageFNonBootable ≠ 0 then
    noBootableImage b slot bs
  else
    let fl ← .get
    let valid := hdr.bootCheckHeaderValid (bd.faSize slot) && bootCheckImage b alg fl st slot
    -- an update in the first sector of the secondary slot was loaded to the wrong place
    if bd.mode = .offset ∧ slot ≠ .primary ∧ bs.any (·.isReset bd) ∧
        (expectedSwapType = some .test ∨ expectedSwapType = some .perm) then
      match flashAreaRead (bd.area fl slot) 0 imageHeaderSize with
      | none => return .failure
      | some first =>
        if (ImageHeader.decode first).ihMagic = imageMagic then invalidImage b slot
        else if valid then return .success
        else invalidImage b slot
    else if valid then return .success
    else invalidImage b slot

def bootValidatedSwapType (st : BootState) (bs : BootStatus) : Boot SwapType := do
  let fl ← .get
  let swapType := bootSwapTypeMulti b.board fl
  if swapType.isUpgrade then
    match ← bootValidateSlot b alg st .secondary (some bs) (some swapType) with
    | .success => return swapType
    | .noBootableImage => return .none
    | .failure => return .fail
  else return swapType

/-- The end of `boot_copy_image`: header, unless kept as a backup, and trailer of the secondary slot are erased. -/
def eraseSecondary : Boot Unit := do
  let bd := b.board
  if ¬bd.mode.keepsBackup then
    assertOk (bootScrambleRegion bd .secondary (bd.sectorOff .secondary 0) (bd.sectorSize .secondary 0) false)
  let lastSector := bd.numSectors .secondary - 1
  assertOk (bootScrambleRegion bd .secondary (bd.sectorOff .secondary lastSector)
    (bd.sectorSize .secondary lastSector) false)

/-- Where `boot_copy_image` copies from: with swap-using-offset the image starts at the second sector. -/
def copyImageFrom : Nat := if b.board.mode = .offset then b.board.sectorSize .secondary 0 else 0

/-- `boot_copy_image`, of overwrite-only builds and, where a bad primary slot is bootstrapped, of the others. -/
def bootCopyImage (st : BootState) : Boot Unit := do
  let bd := b.board
  let fl ← .get
  if bd.mode.isFast then
    match alg.bootReadImageSize fl st .secondary with
    | none => .throw .panic
    | some (srcSize, _) =>
      let size ← copyImageErase bd srcSize (bd.numSectors .primary) 0 0
      match trailerSectors bd (bootTrailerSz bd bd.writeSz) (bd.numSectors .primary) 0 with
      | none => .throw .panic
      | some (off, sz) =>
        assertOk (bootEraseRegion bd .primary off sz false)
        bootCopyRegion bd .secondary .primary (copyImageFrom b) 0 size
        bootWriteMagic bd .primary
        eraseSecondary b
  else
    let size ← copyImageErase bd 0 (bd.numSectors .primary) 0 0
    bootCopyRegion bd .secondary .primary 0 0 size
    eraseSecondary b

/-- The size of the image in a slot whose header has the magic, for `boot_swap_image`. -/
def imageSizeIfPresent (fl : Flash) (st : BootState) (slot : Area) : Boot (Nat × BootState) :=
  if (st.hdr slot).ihMagic = imageMagic then
    match alg.bootReadImageSize fl st slot with
    | none => .throw .panic
    | some read => pure read
  else pure (0, st)

def bootSwapImage (st : BootState) (bs : BootStatus) : Boot (BootState × BootStatus) := do
  let bd := b.board
  let fl ← .get
  if bs.isReset bd then
    let (copySize, st) ← imageSizeIfPresent alg fl st .primary
    let (size, st) ← imageSizeIfPresent alg fl st .secondary
    let copySize := if size > copySize then size else copySize
    let bs ← alg.swapRun st { bs with swapSize := copySize } copySize
    return (st, bs)
  else
    match bootFindStatus bd fl with
    | none => .throw .panic
    | some fap =>
      match bootReadSwapSize bd fl fap with
      | none => .throw .panic
      | some swapSize => do
        let bs ← alg.swapRun st { bs with swapSize } swapSize
        return (st, bs)

/-- The flags that end a swap, set by `boot_perform_update` and `boot_complete_partial_swap`. -/
def finishSwap (swapType : SwapType) : Boot Unit := do
  if swapType = .revert ∨ swapType = .perm then assertOk (swapSetImageOk b.board)
  if swapType.isUpgrade then assertOk (swapSetCopyDone b.board)

/-- `boot_perform_update`, with the assertions of its callers. -/
def bootPerformUpdate (st : BootState) (bs : BootStatus) : Boot BootState := do
  if b.board.mode.isOverwrite then
    assertOk (bootCopyImage b alg st)
    return st
  else
    let (st, _) ← bootSwapImage b alg st bs
    finishSwap b st.swapType
    return st

def bootCompletePartialSwap (st : BootState) (bs : BootStatus) : Boot BootState := do
  let (st, bs) ← bootSwapImage b alg st bs
  finishSwap b bs.swapType
  return { st with swapType := bs.swapType }

/-- The part of `boot_prepare_image_for_update` that follows the boot status. -/
def prepareFromStatus (st : BootState) (bs : BootStatus) : Boot (BootState × BootStatus) := do
  let bd := b.board
  let fl ← .get
  let (st, read) :=
    if bd.mode.isOverwrite then (st, true)
    else bootReadImageHeaders alg fl st (!bs.isReset bd) (some bs)
  if ¬read then return ({ st with swapType := .none }, bs)
  if bs.isReset bd then
    if bs.swapType = .none then
      let swapType ← bootValidatedSwapType b alg st bs
      return ({ st with swapType }, bs)
    else
      match ← bootValidateSlot b alg st .secondary (some bs) none with
      | .success => return ({ st with swapType := bs.swapType }, bs)
      | _ => return ({ st with swapType := .fail }, bs)
  else if bd.mode.isOverwrite then .throw .panic
  else
    let st ← bootCompletePartialSwap b alg st bs
    let fl ← .get
    match bootReadImageHeaders alg fl st false none with
    | (_, false) => .throw .panic
    | (st, true) => return ({ st with swapType := .none }, bs)

def bootPrepareImageForUpdate (st : BootState) : Boot (BootState × BootStatus) := do
  let bd := b.board
  let bs := bootStatusReset bd
  let fl ← .get
  match bootReadImageHeaders alg fl st false none with
  | (st, false) => return ({ st with swapType := .none }, bs)
  | (st, true) =>
    if alg.bootSlotsCompatible then
      if bd.mode.isOverwrite then prepareFromStatus b alg st bs
      else
        match ← .attempt (swapReadStatus bd alg bs) with
        | .error .panic => .throw .panic
        | .error _ => return ({ st with swapType := .none }, bs)
        | .ok bs => prepareFromStatus b alg st bs
    else return ({ st with swapType := .none }, bs)

/-- The update that `context_boot_go` performs for the swap type found. -/
def performSwapType (st : BootState) (bs : BootStatus) : Boot BootState := do
  let bs := { bs with swapType := st.swapType }
  match st.swapType with
  | .none => return st
  | .test | .perm | .revert => bootPerformUpdate b alg st bs
  | .fail =>
    if b.board.mode.isOverwrite then return st
    else
      assertOk (swapSetImageOk b.board)
      return st
  | _ => .throw .panic

/-- The last part of `context_boot_go`: whether the image in the primary slot is booted. -/
def bootPrimarySlot (st : BootState) : Boot Bool := do
  let fl ← .get
  let (st, read) :=
    if st.swapType ≠ .none then bootReadImageHeaders alg fl st false none else (st, true)
  if ¬read then return false
  if b.validatePrimarySlot then
    return (← bootValidateSlot b alg st .primary none none) = .success
  else return st.hdrPrimary.ihMagic = imageMagic

/-- `context_boot_go` after `boot_state_clear`: whether it returns success. -/
def bootGo : Boot Bool := do
  let (st, bs) ← bootPrepareImageForUpdate b alg .clear
  let st ← performSwapType b alg st bs
  bootPrimarySlot b alg st

end Loader

end Adaboot
