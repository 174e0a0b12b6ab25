import Adaboot.Loader.Flow
import Adaboot.Swap.Record

/-!
# Swap using offset

`swap_offset.c`: the update stands one sector into the secondary slot, so that a sector can go there before the one
above it comes down. A revert takes the other order. Two status bytes are written for each sector.
-/

namespace Adaboot.SwapOffset

open Nor Crash

def statusSwapStateCount : Nat := 2

/-- `find_last_idx`, counted from zero. -/
def findLastIdx (bd : Board) (swapSize : Nat) : Nat := sectorCount (bd.sectorSize .primary 0) swapSize - 1

def isRevert (bd : Board) (fl : Flash) (bs : BootStatus) : Bool :=
  bs.swapType = .revert ∨ bootSwapTypeMulti bd fl = .revert

/-! ### Headers -/

/-- Where `boot_read_image_header` looks for the header of a slot while a swap is under way. -/
def movedHeaderPlace (bd : Board) (fl : Flash) (slot : Area) (bs : BootStatus) :
    Option (Area × Nat) := do
  let fap ← bootFindStatus bd fl
  let swapSize ← bootReadSwapSize bd fl fap
  let lastIdx := findLastIdx bd swapSize
  let sz := bd.sectorSize .primary 0
  let idx := bs.idx - statusIdx0
  if isRevert bd fl bs then
    if slot = .primary then
      if idx > lastIdx ∨ idx = lastIdx ∧ bs.state = statusState1 then return (.secondary, sz)
      else return (.primary, 0)
    else
      if idx > lastIdx ∨ idx = lastIdx ∧ bs.state = statusState2 then return (.primary, 0)
      else return (.secondary, 0)
  else
    if slot = .primary then
      if (bs.idx > statusIdx0 ∨ bs.idx = statusIdx0 ∧ bs.state = statusState1) ∧
          bs.idx ≤ lastIdx then return (.secondary, 0)
      else return (.primary, 0)
    else
      if bs.idx > statusIdx0 then return (.primary, 0) else return (.secondary, sz)

/-- Where `boot_read_image_header` looks first. -/
def headerPlace (bd : Board) (fl : Flash) (slot : Area) (bs : Option BootStatus) : Option (Area × Nat) :=
  let shifted := if slot = .secondary then bd.sectorSize .secondary 0 else 0
  match bs with
  | none => some (slot, if bootSwapTypeMulti bd fl ≠ .revert then shifted else 0)
  | some bs =>
    if bs.isReset bd then some (slot, if isRevert bd fl bs then 0 else shifted)
    else movedHeaderPlace bd fl slot bs

/-- The header is looked for in the other of the first two sectors if the first place does not have it. -/
def readOtherSector (bd : Board) (fl : Flash) (fap : Area) (off : Nat) (out : Bytes) : Nat × Option Bytes :=
  if (ImageHeader.decode out).ihMagic ≠ imageMagic ∧ fap = .secondary then
    let off := if bootSwapTypeMulti bd fl ≠ .revert then 0 else bd.sectorSize .secondary 0
    (off, flashAreaRead (bd.area fl fap) off imageHeaderSize)
  else (off, some out)

def bootReadImageHeader (bd : Board) (fl : Flash) (st : BootState) (slot : Area)
    (bs : Option BootStatus) : BootState × Bool :=
  match headerPlace bd fl slot bs with
  | none => (st, false)
  | some (fap, off) =>
    match flashAreaRead (bd.area fl fap) off imageHeaderSize with
    | none => (st, false)
    | some out =>
      -- without a swap under way the image may be in either place
      match if bs.all (·.isReset bd) then readOtherSector bd fl fap off out else (off, some out) with
      | (_, none) => (st.setHdr slot (.decode out), false)
      | (off, some out) =>
        let found : Bool := (ImageHeader.decode out).ihMagic = imageMagic
        let st := st.setHdr slot (.decode out)
        (if found ∧ bs.isSome ∧ fap = .secondary then { st with secondaryOffset := off } else st, bs.isNone || found)

/-! ### Status -/

def swapReadStatusBytes (b : LoaderBuild) (fap : Area) (bs : BootStatus) : Boot BootStatus := do
  let foundIdx ← findStatusIdx b fap
  if foundIdx = 0 then return bs
  else
    return { bs with
      op := .swap
      idx := foundIdx / statusSwapStateCount + statusIdx0
      state := foundIdx % statusSwapStateCount + statusState0 }

def bootStatusInternalOff (bd : Board) (bs : BootStatus) : Nat :=
  let elemSz := bd.writeSz
  let idxSz := elemSz * bd.statusStateCount
  (bs.idx - statusIdx0) * idxSz + (bs.state - statusState0) * elemSz

def bootSlotsCompatible (bd : Board) : Bool :=
  let numSectorsPri := bd.numSectors .primary
  let numSectorsSec := bd.numSectors .secondary
  (numSectorsPri = numSectorsSec ∨ numSectorsPri + 1 = numSectorsSec) ∧ numSectorsPri ≤ bd.maxImgSectors ∧
    (∀ i, i < numSectorsSec - 1 → bd.sectorSize .primary i = bd.sectorSize .secondary i) ∧
    (numSectorsPri > numSectorsSec → (if numSectorsSec ≤ 1 then 0 else bd.sectorSize .primary (numSectorsSec - 2)) =
        bd.sectorSize .primary (numSectorsSec - 1))

def appMaxSize (bd : Board) : Nat :=
  let sectorSz := bd.sectorSize .primary 0
  let trailerSz := reserved bd sectorSz
  let paddingSz := sectorSz
  let availablePriSz := u32 (bd.numSectors .primary * sectorSz + 2 ^ 32 - trailerSz)
  let availableSecSz := u32 (bd.numSectors .secondary * sectorSz + 2 * 2 ^ 32 - trailerSz - paddingSz)
  if availablePriSz < availableSecSz then availablePriSz else availableSecSz

/-! ### The swap -/

section Sectors

variable (b : LoaderBuild)

/-- A sector is replaced unless it is left out, then the status is written. -/
def copySector (skip : Bool) (src dst : Area) (offSrc offDst : Nat) (bs : BootStatus) :
    Boot Unit := do
  if ¬skip then
    replaceSector b.board src dst offSrc offDst (b.board.sectorSize .primary 0)
  statusAssert b (bootWriteStatus b.board (bootStatusInternalOff b.board) bs)

/-- A sector of the primary slot goes up to one place in the secondary slot, then the sector at another place comes
down. -/
def exchangeSectors (priOff secOff secUpOff : Nat) (skipPrimary skipSecondary : Bool)
    (bs : BootStatus) : Boot BootStatus := do
  let bs ←
    if bs.state = statusState0 then do
      copySector b skipPrimary .primary .secondary priOff secOff bs
      pure { bs with state := statusState1 }
    else pure bs
  if bs.state = statusState1 then do
    copySector b skipSecondary .secondary .primary secUpOff priOff bs
    pure { bs with idx := bs.idx + 1, state := statusState0 }
  else pure bs

def bootSwapSectors (idx : Nat) : Bool → Bool → BootStatus → Boot BootStatus :=
  exchangeSectors b (b.board.sectorOff .primary idx) (b.board.sectorOff .secondary idx)
    (b.board.sectorOff .primary (idx + 1))

def bootSwapSectorsRevert (idx : Nat) : Bool → Bool → BootStatus → Boot BootStatus :=
  exchangeSectors b (b.board.sectorOff .primary idx) (b.board.sectorOff .secondary (idx + 1))
    (b.board.sectorOff .primary idx)

def fixupRevert (st : BootState) (bs : BootStatus) : Boot Unit := do
  let bd := b.board
  if bs.swapType ≠ .revert ∨ bs.idx ≠ statusIdx0 then return ()
  else
    let swapState ← assertOk (readSwapState bd .secondary)
    if swapState.magic = .unset then
      assertOk (swapScrambleTrailerSectors bd .secondary)
      assertOk (bootWriteCopyDone bd .secondary)
      assertOk (swapStatusInit bd st .secondary bs)

/-- The loops of `swap_run`, for `n` sectors from `idx` on, without those that are done. -/
def sectorLoop (step : Nat → BootStatus → Boot BootStatus) : Nat → Nat → BootStatus → Boot BootStatus
  | 0, _, bs => pure bs
  | n + 1, idx, bs => do
    let bs ← if idx ≥ bs.idx - statusIdx0 then step idx bs else pure bs
    sectorLoop step n (idx + 1) bs

/-- The number of sectors that `swap_run` takes an image to have, by its header. -/
def usedSectors (sectorSz : Nat) (hdr : ImageHeader) (unprotectedTlvSize : Nat) : Nat :=
  u32 (hdr.ihHdrSize.toNat + unprotectedTlvSize + hdr.ihProtectTlvSize.toNat + hdr.ihImgSize.toNat +
    sectorSz + (2 ^ 32 - 1)) / sectorSz

/-- The loop of `swap_run` that a revert takes, and what follows it. -/
def revertSectors (lastIdx usedPri usedSec : Nat) (bs : BootStatus) : Boot BootStatus := do
  let bd := b.board
  let bs ← sectorLoop (fun idx => bootSwapSectorsRevert b (lastIdx - idx)
    (lastIdx - idx > usedPri) (lastIdx - idx > usedSec)) (lastIdx + 1) 0 bs
  assertOk (bootScrambleRegion bd .secondary (bd.sectorOff .secondary 0) (bd.sectorSize .primary 0) false)
  assertOk (swapScrambleTrailerSectors bd .secondary)
  return bs

/-- The loop of `swap_run` that an update takes. -/
def swapSectors (lastIdx usedPri usedSec : Nat) : BootStatus → Boot BootStatus :=
  sectorLoop (fun idx => bootSwapSectors b idx (idx > usedPri) (idx > usedSec)) (lastIdx + 1) 0

def swapRun (st : BootState) (bs : BootStatus) (copySize : Nat) : Boot BootStatus := do
  let bd := b.board
  let lastIdx := findLastIdx bd copySize
  let sectorSz := bd.sectorSize .primary 0
  if bs.isReset bd ∧ lastIdx ≥ firstTrailerIdx bd then return { bs with swapType := .none }
  else
    fixupRevert b st bs
    if bs.idx = statusIdx0 then beginSwap bd st bs
    let fl ← .get
    -- the return code is not looked at
    let tlvSizes := (bootReadUnprotectedTlvSizes bd fl .primary).getD (0, 0)
    let usedPri := usedSectors sectorSz st.hdrPrimary tlvSizes.1
    let usedSec := usedSectors sectorSz st.hdrSecondary tlvSizes.2
    let bs := { bs with op := .swap }
    if isRevert bd fl bs then revertSectors b lastIdx usedPri usedSec bs
    else swapSectors b lastIdx usedPri usedSec bs

end Sectors

/-- The functions of `swap_offset.c` that the loader is linked with. -/
def algo (b : LoaderBuild) : SwapAlgo where
  bootReadImageHeader := bootReadImageHeader b.board
  swapStatusSource := Adaboot.swapStatusSource b.board
  swapReadStatusBytes := swapReadStatusBytes b
  bootReadImageSize fl st slot :=
    (readImageSize (b.board.area fl slot) (st.hdr slot) (st.startOff slot)).map fun read =>
      (read.1, st.setUnprotectedTlvSize slot read.2)
  swapRun := swapRun b
  bootSlotsCompatible := bootSlotsCompatible b.board
  appMaxSize := appMaxSize b.board

def bootGo (b : LoaderBuild) : Boot Bool := Adaboot.bootGo b (algo b)

theorem readsHeaders (b : LoaderBuild) : (algo b).ReadsHeaders b.board where
  primary read := by
    simp [algo, bootReadImageHeader, headerPlace, read, readOtherSector]
  keepsHdr fl st bs := by
    simp only [algo, bootReadImageHeader]
    split
    · rfl
    · split
      · rfl
      · split
        · rfl
        · split <;> rfl
  keepsType fl st bs := by
    simp only [algo, bootReadImageHeader]
    split
    · rfl
    · split
      · rfl
      · split
        · rfl
        · split <;> rfl
  keepsOffset fl st := by
    simp only [algo, bootReadImageHeader, Option.isSome_none, Bool.false_eq_true, false_and, and_false, if_false]
    split
    · rfl
    · split
      · rfl
      · split <;> rfl

end Adaboot.SwapOffset
