import Adaboot.Loader.Flow
import Adaboot.Swap.Record

/-!
# Swap using move

`swap_move.c`: the image in the primary slot is moved up by one sector, then each sector is exchanged with the
secondary slot. One status byte is written for each sector moved and two for each one swapped.
-/

namespace Adaboot.SwapMove

open Nor Crash

def statusMoveStateCount : Nat := 1
def statusSwapStateCount : Nat := 2

/-- `find_last_idx`, counted from one. -/
def findLastIdx (bd : Board) (swapSize : Nat) : Nat := sectorCount (bd.sectorSize .primary 0) swapSize

/-! ### Headers -/

/-- Where `boot_read_image_header` looks for the header of a slot. -/
def headerPlace (bd : Board) (fl : Flash) (slot : Area) (bs : Option BootStatus) : Option (Area × Nat) :=
  match bs with
  | none => some (slot, 0)
  | some bs =>
    if bs.isReset bd then some (slot, 0)
    else do
      let fap ← bootFindStatus bd fl
      let swapSize ← bootReadSwapSize bd fl fap
      let lastIdx := findLastIdx bd swapSize
      let sz := bd.sectorSize .primary 0
      match bs.op with
      | .move => if slot = .primary ∧ bs.idx > lastIdx then return (slot, sz) else return (slot, 0)
      | .swap =>
        if bs.idx > 1 ∧ bs.idx ≤ lastIdx then
          return (if slot = .primary then .secondary else .primary, 0)
        else if bs.idx = 1 then
          if slot = .primary then return (slot, sz)
          else if slot = .secondary ∧ bs.state = 2 then return (.primary, 0)
          else return (slot, 0)
        else return (slot, 0)

def bootReadImageHeader (bd : Board) (fl : Flash) (st : BootState) (slot : Area)
    (bs : Option BootStatus) : BootState × Bool :=
  match headerPlace bd fl slot bs with
  | none => (st, false)
  | some (fap, off) =>
    match flashAreaRead (bd.area fl fap) off imageHeaderSize with
    | none => (st, false)
    | some out =>
      -- where the headers are is known only with a status
      (st.setHdr slot (.decode out), bs.isNone || (ImageHeader.decode out).ihMagic = imageMagic)

/-! ### Status -/

def swapReadStatusBytes (b : LoaderBuild) (fap : Area) (bs : BootStatus) : Boot BootStatus := do
  let foundIdx ← findStatusIdx b fap
  let moveEntries := b.board.maxImgSectors * statusMoveStateCount
  if foundIdx = 0 then return bs
  else if foundIdx < moveEntries then
    return { bs with
      op := .move
      idx := foundIdx / statusMoveStateCount + statusIdx0
      state := foundIdx % statusMoveStateCount + statusState0 }
  else
    return { bs with
      op := .swap
      idx := (foundIdx - moveEntries) / statusSwapStateCount + statusIdx0
      state := (foundIdx - moveEntries) % statusSwapStateCount + statusState0 }

def bootStatusInternalOff (bd : Board) (bs : BootStatus) : Nat :=
  let elemSz := bd.writeSz
  let idxSz := elemSz * (if bs.op = .move then statusMoveStateCount else statusSwapStateCount)
  (if bs.op = .move then 0 else bd.maxImgSectors * statusMoveStateCount * elemSz) +
    (bs.idx - statusIdx0) * idxSz + (bs.state - statusState0) * elemSz

def bootSlotsCompatible (bd : Board) : Bool :=
  let numSectorsPri := bd.numSectors .primary
  let numSectorsSec := bd.numSectors .secondary
  (numSectorsPri = numSectorsSec ∨ numSectorsPri = numSectorsSec + 1) ∧ numSectorsPri ≤ bd.maxImgSectors ∧
    (∀ i, i < numSectorsSec → bd.sectorSize .primary i = bd.sectorSize .secondary i) ∧
    (numSectorsPri > numSectorsSec → (if numSectorsSec = 0 then 0 else bd.sectorSize .primary (numSectorsSec - 1)) =
        bd.sectorSize .primary numSectorsSec)

def appMaxSize (bd : Board) : Nat :=
  let sectorSz := bd.sectorSize .primary 0
  let trailerSz := reserved bd sectorSz
  let paddingSz := sectorSz
  let availablePriSz := u32 (bd.numSectors .primary * sectorSz + 2 * 2 ^ 32 - trailerSz - paddingSz)
  let availableSecSz := u32 (bd.numSectors .secondary * sectorSz + 2 ^ 32 - trailerSz)
  if availablePriSz < availableSecSz then availablePriSz else availableSecSz

/-! ### The swap -/

section Sectors

variable (b : LoaderBuild)

def writeStatus (bs : BootStatus) : Boot Unit :=
  statusAssert b (bootWriteStatus b.board (bootStatusInternalOff b.board) bs)

def copySector (src dst : Area) (offSrc offDst : Nat) (bs : BootStatus) : Boot Unit := do
  replaceSector b.board src dst offSrc offDst (b.board.sectorSize .primary 0)
  writeStatus b bs

def bootMoveSectorUp (st : BootState) (idx : Nat) (bs : BootStatus) : Boot BootStatus := do
  let bd := b.board
  if bs.idx = statusIdx0 then beginSwap bd st bs
  copySector b .primary .primary (bd.sectorOff .primary (idx - 1)) (bd.sectorOff .primary idx) bs
  return { bs with idx := bs.idx + 1 }

def bootSwapSectors (idx : Nat) (bs : BootStatus) : Boot BootStatus := do
  let bd := b.board
  let priUpOff := bd.sectorOff .primary idx
  let priOff := bd.sectorOff .primary (idx - 1)
  let secOff := bd.sectorOff .secondary (idx - 1)
  let bs ←
    if bs.state = statusState0 then do
      copySector b .secondary .primary secOff priOff bs
      pure { bs with state := statusState1 }
    else pure bs
  if bs.state = statusState1 then do
    copySector b .primary .secondary priUpOff secOff bs
    pure { bs with idx := bs.idx + 1, state := statusState0 }
  else pure bs

def fixupRevert (bs : BootStatus) : Boot Unit := do
  let bd := b.board
  if bs.swapType ≠ .revert ∨ bs.op ≠ .move ∨ bs.idx ≠ statusIdx0 then return ()
  else
    let swapState ← assertOk (readSwapState bd .secondary)
    if swapState.magic = .unset then
      assertOk (swapScrambleTrailerSectors bd .secondary)
      assertOk (bootWriteImageOk bd .secondary)
      assertOk (bootWriteSwapSize bd .secondary bs.swapSize)
      assertOk (bootWriteMagic bd .secondary)

/-- The loop of `swap_run` that moves the primary image up. -/
def moveLoop (st : BootState) (lastIdx : Nat) : Nat → BootStatus → Boot BootStatus
  | 0, bs => pure bs
  | idx + 1, bs => do
    let bs ←
      if idx + 1 ≤ u32 (lastIdx + 2 ^ 32 - bs.idx + 1) then bootMoveSectorUp b st (idx + 1) bs
      else pure bs
    moveLoop st lastIdx idx bs

/-- The loop of `swap_run` that exchanges sectors, for `n` sectors from `idx` on. -/
def swapLoop : Nat → Nat → BootStatus → Boot BootStatus
  | 0, _, bs => pure bs
  | n + 1, idx, bs => do
    let bs ← if idx ≥ bs.idx then bootSwapSectors b idx bs else pure bs
    swapLoop n (idx + 1) bs

def swapRun (st : BootState) (bs : BootStatus) (copySize : Nat) : Boot BootStatus := do
  let bd := b.board
  let lastIdx := findLastIdx bd copySize
  if bs.isReset bd ∧ lastIdx ≥ firstTrailerIdx bd then return { bs with swapType := .none }
  else
    fixupRevert b bs
    let bs ←
      if bs.op = .move then do
        let bs ← moveLoop b st lastIdx lastIdx bs
        pure { bs with idx := statusIdx0 }
      else pure bs
    swapLoop b lastIdx 1 { bs with op := .swap }

end Sectors

/-- The functions of `swap_move.c` that the loader is linked with. -/
def algo (b : LoaderBuild) : SwapAlgo where
  bootReadImageHeader := bootReadImageHeader b.board
  swapStatusSource := Adaboot.swapStatusSource b.board
  swapReadStatusBytes := swapReadStatusBytes b
  bootReadImageSize fl st slot := (readImageSize (b.board.area fl slot) (st.hdr slot) 0).map fun read => (read.1, st)
  swapRun := swapRun b
  bootSlotsCompatible := bootSlotsCompatible b.board
  appMaxSize := appMaxSize b.board

def bootGo (b : LoaderBuild) : Boot Bool := Adaboot.bootGo b (algo b)

theorem bootReadImageHeader_none {bd : Board} {fl : Flash} {st : BootState} {slot : Area} {out : Bytes}
    (read : flashAreaRead (bd.area fl slot) 0 imageHeaderSize = some out) :
    bootReadImageHeader bd fl st slot none = (st.setHdr slot (.decode out), true) := by
  simp [bootReadImageHeader, headerPlace, read]

theorem readsHeaders (b : LoaderBuild) : (algo b).ReadsHeaders b.board where
  primary := bootReadImageHeader_none
  keepsHdr fl st bs := by
    simp only [algo, bootReadImageHeader]
    split
    · rfl
    · split <;> rfl
  keepsType fl st bs := by
    simp only [algo, bootReadImageHeader]
    split
    · rfl
    · split <;> rfl
  keepsOffset fl st := by
    simp only [algo, bootReadImageHeader]
    split
    · rfl
    · split <;> rfl

end Adaboot.SwapMove
