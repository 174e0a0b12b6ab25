import Adaboot.Image.Valid
import Adaboot.Trailer.Update

/-!
# The state of the loader

What the loader keeps in memory during a boot (`boot_loader_state`, `boot_status`), and the interface to the swap
algorithm (`swap_priv.h`).
-/

namespace Adaboot

open Nor Crash

/-- The options of the loader on a board. -/
structure LoaderBuild where
  board : Board
  validate : ValidateBuild
  /-- `MCUBOOT_VALIDATE_PRIMARY_SLOT`. -/
  validatePrimarySlot : Bool

/-- `BOOT_STATUS_OP_*`. -/
inductive StatusOp where
  | move
  | swap
deriving DecidableEq, Repr

/-- `BOOT_STATUS_SOURCE_*`. -/
inductive StatusSource where
  | none
  | scratch
  | primarySlot
deriving DecidableEq, Repr

/-- `BOOT_STATUS_IDX_0`. -/
def statusIdx0 : Nat := 1

/-- `BOOT_STATUS_STATE_0` and the states after it. -/
def statusState0 : Nat := 1
def statusState1 : Nat := 2
def statusState2 : Nat := 3

structure BootStatus where
  idx : Nat
  state : Nat
  op : StatusOp
  useScratch : Bool
  swapType : SwapType
  swapSize : Nat
  source : StatusSource
deriving DecidableEq, Repr

def resetOp (bd : Board) : StatusOp := if bd.mode = .offset then .swap else .move

def bootStatusReset (bd : Board) : BootStatus where
  idx := statusIdx0
  state := statusState0
  op := resetOp bd
  useScratch := false
  swapType := .none
  swapSize := 0
  source := .none

/-- `boot_status_is_reset`. -/
def BootStatus.isReset (bd : Board) (bs : BootStatus) : Bool :=
  bs.op = resetOp bd ∧ bs.idx = statusIdx0 ∧ bs.state = statusState0

theorem isReset_bootStatusReset (bd : Board) : (bootStatusReset bd).isReset bd = true := decide_eq_true ⟨rfl, rfl, rfl⟩

/-- `boot_loader_state`. -/
structure BootState where
  hdrPrimary : ImageHeader
  hdrSecondary : ImageHeader
  unprotectedTlvSizePrimary : Nat
  unprotectedTlvSizeSecondary : Nat
  secondaryOffset : Nat
  swapType : SwapType
deriving DecidableEq, Repr

namespace BootState

/-- `boot_state_clear`. -/
def clear : BootState where
  hdrPrimary := .decode []
  hdrSecondary := .decode []
  unprotectedTlvSizePrimary := 0
  unprotectedTlvSizeSecondary := 0
  secondaryOffset := 0
  swapType := .other 0

/-- `boot_img_hdr`. -/
def hdr (st : BootState) (slot : Area) : ImageHeader :=
  if slot = .primary then st.hdrPrimary else st.hdrSecondary

def setHdr (st : BootState) (slot : Area) (hdr : ImageHeader) : BootState :=
  if slot = .primary then { st with hdrPrimary := hdr } else { st with hdrSecondary := hdr }

def setUnprotectedTlvSize (st : BootState) (slot : Area) (size : Nat) : BootState :=
  if slot = .primary then { st with unprotectedTlvSizePrimary := size }
  else { st with unprotectedTlvSizeSecondary := size }

/-- `boot_get_state_secondary_offset`. -/
def startOff (st : BootState) (slot : Area) : Nat :=
  if slot = .secondary then st.secondaryOffset else 0

end BootState

/-- What `loader.c` takes from the swap algorithm. A header is read into the state even where the function fails. -/
structure SwapAlgo where
  bootReadImageHeader : Flash → BootState → Area → Option BootStatus → BootState × Bool
  swapStatusSource : Flash → Option StatusSource
  swapReadStatusBytes : Area → BootStatus → Boot BootStatus
  bootReadImageSize : Flash → BootState → Area → Option (Nat × BootState)
  swapRun : BootState → BootStatus → Nat → Boot BootStatus
  bootSlotsCompatible : Bool
  appMaxSize : Nat

/-- `boot_read_image_size`: the size of the image and of its unprotected TLVs. -/
def readImageSize (fap : FlashArea) (hdr : ImageHeader) (startOff : Nat) : Option (Nat × Nat) :=
  match readTlvInfo hdr fap (u32 (bootTlvOff hdr + startOff)) with
  | none => none
  | some info =>
    if le16 info 0 ≠ imageTlvInfoMagic then none
    else some (u32 (bootTlvOff hdr + hdr.ihProtectTlvSize.toNat + le16 info 2), le16 info 2)

section Flash

variable (bd : Board)

/-- `boot_status_off` with its assertion. -/
def statusOff (a : Area) : Boot Nat :=
  if bootTrailerSzOf bd a ≤ bd.faSize a then pure (bootStatusOff bd a) else .throw .panic

/-- `boot_write_status`, at the offset that `boot_status_internal_off` gives. -/
def bootWriteStatus (internalOff : BootStatus → Nat) (bs : BootStatus) : Boot Unit := do
  let fap := if bd.mode = .scratch ∧ bs.useScratch then .scratch else .primary
  let off ← statusOff bd fap
  flashAreaWrite bd fap (off + internalOff bs) (.ofNat bs.state :: List.replicate (bd.align fap - 1) erasedVal)

/-- `BOOT_STATUS_ASSERT`: builds that validate the primary slot only count failed status writes. -/
def statusAssert (b : LoaderBuild) (m : Boot Unit) : Boot Unit :=
  if b.validatePrimarySlot then ignoreRc m else assertOk m

def bootTrailerScrambleOffset (a : Area) (alignment : Nat) : Option Nat :=
  let trailerSz := bootTrailerSz bd (if alignment < bd.align a then bd.align a else alignment)
  if bd.faSize a < trailerSz then none
  else (sectorAt (bd.layout a) (bd.faSize a - trailerSz)).map (·.1)

def swapScrambleTrailerSectors (a : Area) : Boot Unit :=
  match bootTrailerScrambleOffset bd a bd.writeSz with
  | none => .throw .eflash
  | some off => bootScrambleRegion bd a off (bd.faSize a - off) true

def swapStatusInit (st : BootState) (a : Area) (bs : BootStatus) : Boot Unit := do
  let swapState ← assertOk (readSwapState bd .secondary)
  if bs.swapType ≠ .none then assertOk (bootWriteSwapInfo bd a bs.swapType 0)
  if swapState.imageOk = .set then assertOk (bootWriteImageOk bd a)
  assertOk (bootWriteSwapSize bd a bs.swapSize)
  if bd.mode = .offset then
    assertOk (bootWriteUnprotectedTlvSizes bd a st.unprotectedTlvSizePrimary st.unprotectedTlvSizeSecondary)
  assertOk (bootWriteMagic bd a)

def swapSetCopyDone : Boot Unit := bootWriteCopyDone bd .primary

def swapSetImageOk : Boot Unit := do
  let state ← readSwapState bd .primary
  if state.imageOk = .unset then bootWriteImageOk bd .primary

end Flash

def swapReadStatus (bd : Board) (alg : SwapAlgo) (bs : BootStatus) : Boot BootStatus := do
  let fl ← .get
  match alg.swapStatusSource fl with
  | none => .throw .panic
  | some source => do
    let bs := { bs with source }
    if source = .none then return bs
    let fap := if source = .scratch then .scratch else .primary
    let bs ← alg.swapReadStatusBytes fap bs
    match flashAreaRead (bd.area fl fap) (bootSwapInfoOff bd fap) 1 with
    | none => .throw .eflash
    | some swapInfo =>
      return { bs with
        swapType :=
          if bufferIsErased swapInfo then .none else .ofCode ((swapInfo.getD 0 0).toNat % 16) }

end Adaboot
