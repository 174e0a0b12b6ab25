import Adaboot.Loader.Specs

/-!
# Swap using scratch

`swap_scratch.c`: the images are exchanged from their ends down in chunks that fit scratch. The file also serves
overwrite-only builds.
-/

namespace Adaboot.SwapScratch

open Nor Crash

/-! ### Trailer sectors and the maximum image size -/

def firstTrailerSectorLoop (bd : Board) (slot : Area) (trailerSz : Nat) : Nat → Nat → Nat
  | 0, _ => 0
  | sector + 1, trailerSectorSz =>
    if trailerSectorSz < trailerSz then
      firstTrailerSectorLoop bd slot trailerSz sector (trailerSectorSz + bd.sectorSize slot sector)
    else sector + 1

def bootGetFirstTrailerSector (bd : Board) (slot : Area) (trailerSz : Nat) : Nat :=
  let last := bd.numSectors slot - 1
  firstTrailerSectorLoop bd slot trailerSz last (bd.sectorSize slot last)

def getFirstTrailerSectorEndOff (bd : Board) (slot : Area) (trailerSz : Nat) : Nat :=
  let sector := bootGetFirstTrailerSector bd slot trailerSz
  bd.sectorOff slot sector + bd.sectorSize slot sector

def appMaxSizeAdjustToTrailer (bd : Board) (slotSize : Nat) : Nat :=
  let slotTrailerSz := bootTrailerSz bd bd.writeSz
  let slotTrailerOff := slotSize - slotTrailerSz
  let primaryEndOff := getFirstTrailerSectorEndOff bd .primary slotTrailerSz
  let secondaryEndOff := getFirstTrailerSectorEndOff bd .secondary slotTrailerSz
  let trailerSectorEndOff :=
    if primaryEndOff > secondaryEndOff then primaryEndOff else secondaryEndOff
  let trailerSzInFirstSector := trailerSectorEndOff - slotTrailerOff
  let scratchTrailerSz := bootScratchTrailerSz bd bd.writeSz
  let trailerPadding :=
    if scratchTrailerSz > trailerSzInFirstSector then scratchTrailerSz - trailerSzInFirstSector
    else 0
  slotTrailerOff - trailerPadding

/-- What the loops of `boot_slots_compatible` and `app_max_size` carry. -/
structure SlotScan where
  i : Nat
  j : Nat
  sz0 : Nat
  sz1 : Nat
  smaller : Nat
  slotSz : Nat

/-- One round, `none` for slots that are not compatible. Overwrite-only builds do not look at scratch. -/
def SlotScan.step (bd : Board) (s : SlotScan) : Option SlotScan :=
  let size0 := bd.sectorSize .primary s.i
  let size1 := bd.sectorSize .secondary s.j
  let next :=
    if s.sz0 = s.sz1 then
      some { s with sz0 := s.sz0 + size0, sz1 := s.sz1 + size1, i := s.i + 1, j := s.j + 1 }
    else if s.sz0 < s.sz1 then
      if s.smaller = 2 then none
      else some { s with sz0 := s.sz0 + size0, smaller := 1, i := s.i + 1 }
    else if s.smaller = 1 then none
    else some { s with sz1 := s.sz1 + size1, smaller := 2, j := s.j + 1 }
  next.bind fun s =>
    if ¬bd.mode.isOverwrite ∧ s.sz0 = s.sz1 then
      if s.sz0 > bd.faSize .scratch ∨ s.sz1 > bd.faSize .scratch then none
      else some { s with slotSz := s.slotSz + s.sz0, smaller := 0, sz0 := 0, sz1 := 0 }
    else some s

/-- The loop over both slots. A scan that leaves the table of sectors finds no compatible layout. -/
def slotScanLoop (bd : Board) : Nat → SlotScan → Option SlotScan
  | 0, _ => none
  | fuel + 1, s =>
    if s.i < bd.numSectors .primary ∨ s.j < bd.numSectors .secondary then
      (s.step bd).bind (slotScanLoop bd fuel)
    else some s

def slotScan (bd : Board) : Option SlotScan :=
  slotScanLoop bd (bd.numSectors .primary + bd.numSectors .secondary + 1) ⟨0, 0, 0, 0, 0, 0⟩

/-- `boot_slots_compatible`. The sizes of the slots are equal wherever the loop adds to them. -/
def bootSlotsCompatible (bd : Board) : Bool :=
  bd.numSectors .primary ≤ bd.maxImgSectors ∧ bd.numSectors .secondary ≤ bd.maxImgSectors ∧
    (slotScan bd).any fun s => s.i = bd.numSectors .primary ∧ s.j = bd.numSectors .secondary

def appMaxSize (bd : Board) : Nat :=
  match slotScan bd with
  | none => 0
  | some s =>
    if bd.mode.isOverwrite then if s.sz1 < s.sz0 then s.sz1 else s.sz0
    else appMaxSizeAdjustToTrailer bd s.slotSz

/-! ### Status -/

/-- What the loop of `swap_read_status_bytes` carries. An index of zero means none. -/
structure StatusScan where
  found : Bool
  foundIdx : Nat
  invalid : Bool
  i : Nat

/-- The loop of `swap_read_status_bytes` over the entries from `i` on. -/
def statusScanLoop (erased : Nat → Bool) : Nat → StatusScan → StatusScan
  | 0, s => s
  | n + 1, s =>
    if erased s.i then
      statusScanLoop erased n { s with foundIdx := if s.found ∧ s.foundIdx = 0 then s.i else s.foundIdx, i := s.i + 1 }
    else if ¬s.found then statusScanLoop erased n { s with found := true, i := s.i + 1 }
    else if s.foundIdx ≠ 0 then { s with invalid := true }
    else statusScanLoop erased n { s with i := s.i + 1 }

def swapReadStatusBytes (b : LoaderBuild) (fap : Area) (bs : BootStatus) : Boot BootStatus := do
  let bd := b.board
  let off ← statusOff bd fap
  let fl ← .get
  if bd.faSize fap < off + (bootStatusEntries bd fap - 1) * bd.writeSz + 1 then .throw .eflash
  let scan := statusScanLoop (fun i => fl fap (off + i * bd.writeSz) = erasedVal)
    (bootStatusEntries bd fap) ⟨false, 0, false, 0⟩
  if scan.invalid ∧ ¬b.validatePrimarySlot then .throw .panic
  if scan.found then
    let foundIdx := if scan.foundIdx = 0 then scan.i else scan.foundIdx
    return { bs with
      idx := foundIdx / bd.statusStateCount + 1, state := foundIdx % bd.statusStateCount + 1 }
  else return bs

def bootStatusInternalOff (bd : Board) (bs : BootStatus) : Nat :=
  (bs.idx - statusIdx0) * (bd.writeSz * bd.statusStateCount) + (bs.state - statusState0) * bd.writeSz

structure BootStatusTable where
  magicPrimarySlot : MagicTest
  magicScratch : MagicTest
  copyDonePrimarySlot : Option Flag
  statusSource : StatusSource

def bootStatusTables : List BootStatusTable := [⟨.only .good, .notGood, some .set, .none⟩,
   ⟨.only .good, .notGood, some .unset, .primarySlot⟩,
   ⟨.any, .only .good, none, .scratch⟩,
   ⟨.only .unset, .any, some .unset, .primarySlot⟩]

def swapStatusSource (bd : Board) (fl : Flash) : Option StatusSource := do
  let primary ← bootReadSwapState bd fl .primary
  let scratch ← bootReadSwapState bd fl .scratch
  let table := bootStatusTables.find? fun table =>
    bootMagicCompatibleCheck table.magicPrimarySlot primary.magic &&
      bootMagicCompatibleCheck table.magicScratch scratch.magic &&
      flagCompatible table.copyDonePrimarySlot primary.copyDone
  return (table.map (·.statusSource)).getD .none

/-! ### The swap -/

/-- The loop of `boot_copy_sz`, over the sectors below `i`. -/
def copySzLoop (bd : Board) : Nat → Nat → Nat × Nat
  | 0, sz => (sz, 0)
  | i + 1, sz =>
    let newSz := sz + bd.sectorSize .primary i
    if newSz > bd.faSize .scratch then (sz, i + 1) else copySzLoop bd i newSz

/-- `boot_copy_sz`: the size of the chunk that ends with the sector, and its first sector. -/
def bootCopySz (bd : Board) (lastSectorIdx : Nat) : Nat × Nat := copySzLoop bd (lastSectorIdx + 1) 0

/-- The loop of `find_last_sector_idx`. -/
def lastSectorLoop (bd : Board) (copySize : Nat) : Nat → Nat → Nat → Nat → Nat → Nat
  | 0, _, _, idx0, _ => idx0
  | fuel + 1, size0, size1, idx0, idx1 =>
    let more0 := size0 < copySize ∨ size0 < size1
    let size0' := if more0 then size0 + bd.sectorSize .primary idx0 else size0
    let idx0' := if more0 then idx0 + 1 else idx0
    let more1 := size1 < copySize ∨ size1 < size0'
    let size1' := if more1 then size1 + bd.sectorSize .secondary idx1 else size1
    let idx1' := if more1 then idx1 + 1 else idx1
    if size0' ≥ copySize ∧ size1' ≥ copySize ∧ size0' = size1' then idx0'
    else lastSectorLoop bd copySize fuel size0' size1' idx0' idx1'

/-- One more than `find_last_sector_idx`, which is `-1` where there is nothing to copy. -/
def sectorsToSwap (bd : Board) (copySize : Nat) : Nat :=
  lastSectorLoop bd copySize (bd.numSectors .primary + bd.numSectors .secondary + 1) 0 0 0 0

/-- `find_swap_count`, over the sectors below `n`. -/
def swapCountLoop (bd : Board) : Nat → Nat → Nat → Nat
  | 0, _, count => count
  | _ + 1, 0, count => count
  | fuel + 1, n + 1, count => swapCountLoop bd fuel (bootCopySz bd n).2 (count + 1)

def findSwapCount (bd : Board) (copySize : Nat) : Nat :=
  let n := sectorsToSwap bd copySize
  swapCountLoop bd (n + 1) n 0

/-- All of the chunk, unless it holds the first trailer sector, where the trailers must stay free. Differences are
`uint32_t` and wrap. -/
def chunkCopySz (bd : Board) (imgOff sz : Nat) : Nat :=
  let trailerSz := bootTrailerSz bd bd.writeSz
  let first := bootGetFirstTrailerSector bd .primary trailerSz
  if imgOff + sz > bd.sectorOff .primary first then
    let copySz := u32 (bd.faSize .primary + 2 ^ 33 - imgOff - trailerSz)
    if copySz > bootStatusOff bd .scratch then bootStatusOff bd .scratch else copySz
  else sz

section Sectors

variable (b : LoaderBuild) (st : BootState) (imgOff sz copySz : Nat)

def writeStatus (bs : BootStatus) : Boot Unit :=
  statusAssert b (bootWriteStatus b.board (bootStatusInternalOff b.board) bs)

/-- The first step of `boot_swap_sectors`: secondary to scratch. -/
def swapSectors0 (bs : BootStatus) : Boot BootStatus := do
  let bd := b.board
  assertOk (bootEraseRegion bd .scratch 0 (bd.faSize .scratch) false)
  if bs.idx = statusIdx0 then
    assertOk (swapStatusInit bd st .scratch bs)
    if ¬bs.useScratch then
      assertOk (swapScrambleTrailerSectors bd .primary)
      assertOk (swapStatusInit bd st .primary bs)
      assertOk (bootEraseRegion bd .scratch 0 (bd.faSize .scratch) false)
  assertOk (bootCopyRegion bd .secondary .scratch imgOff 0 copySz)
  writeStatus b bs
  return { bs with state := statusState1 }

def swapSectors1 (bs : BootStatus) : Boot BootStatus := do
  let bd := b.board
  if bs.idx = statusIdx0 then assertOk (swapScrambleTrailerSectors bd .secondary)
  let eraseSz :=
    if bs.idx = statusIdx0 ∧ bs.useScratch then
      u32 (bd.sectorOff .secondary
        (bootGetFirstTrailerSector bd .secondary (bootTrailerSz bd bd.writeSz)) + 2 ^ 32 - imgOff)
    else sz
  if eraseSz > 0 then assertOk (bootEraseRegion bd .secondary imgOff eraseSz false)
  assertOk (bootCopyRegion bd .primary .secondary imgOff imgOff copySz)
  writeStatus b bs
  return { bs with state := statusState2 }

/-- The trailer that the third step moves from scratch to the primary slot. -/
def moveTrailer (bs : BootStatus) : Boot Unit := do
  let bd := b.board
  let scratchTrailerOff ← statusOff bd .scratch
  statusAssert b (bootCopyRegion bd .scratch .primary scratchTrailerOff (imgOff + copySz)
    ((bd.statusStateCount - 1) * bd.writeSz))
  let swapState ← assertOk (readSwapState bd .scratch)
  if swapState.imageOk = .set then assertOk (bootWriteImageOk bd .primary)
  if swapState.swapType ≠ .none then assertOk (bootWriteSwapInfo bd .primary swapState.swapType 0)
  assertOk (bootWriteSwapSize bd .primary bs.swapSize)
  assertOk (bootWriteMagic bd .primary)

def swapSectors2 (bs : BootStatus) : Boot BootStatus := do
  let bd := b.board
  if bs.useScratch then assertOk (swapScrambleTrailerSectors bd .primary)
  let eraseSz :=
    if bs.useScratch then
      u32 (bd.sectorOff .primary
        (bootGetFirstTrailerSector bd .primary (bootTrailerSz bd bd.writeSz)) + 2 ^ 32 - imgOff)
    else sz
  if eraseSz > 0 then assertOk (bootEraseRegion bd .primary imgOff eraseSz false)
  assertOk (bootCopyRegion bd .scratch .primary 0 imgOff copySz)
  if bs.useScratch then moveTrailer b imgOff copySz bs
  writeStatus b { bs with useScratch := false }
  -- backwards, so that the trailer in scratch goes first
  if bs.useScratch then assertOk (bootScrambleRegion bd .scratch 0 (bd.faSize .scratch) true)
  return { bs with useScratch := false, idx := bs.idx + 1, state := statusState0 }

def bootSwapSectors (idx sz : Nat) (bs : BootStatus) : Boot BootStatus := do
  let bd := b.board
  let imgOff := bd.sectorOff .primary idx
  let copySz := chunkCopySz bd imgOff sz
  let bs := { bs with useScratch := bs.idx = statusIdx0 ∧ copySz ≠ sz }
  let bs ← if bs.state = statusState0 then swapSectors0 b st imgOff copySz bs else pure bs
  let bs ← if bs.state = statusState1 then swapSectors1 b imgOff sz copySz bs else pure bs
  if bs.state = statusState2 then swapSectors2 b imgOff sz copySz bs else pure bs

/-- The loop of `swap_run`, over the sectors below `n`. -/
def swapRunLoop : Nat → Nat → Nat → BootStatus → Boot BootStatus
  | 0, _, _, bs => pure bs
  | _ + 1, 0, _, bs => pure bs
  | fuel + 1, n + 1, swapIdx, bs => do
    let (sz, first) := bootCopySz b.board n
    let bs ←
      if swapIdx ≥ bs.idx - statusIdx0 then bootSwapSectors b st first sz bs else pure bs
    swapRunLoop fuel first (swapIdx + 1) bs

def swapRun (bs : BootStatus) (copySize : Nat) : Boot BootStatus :=
  let n := sectorsToSwap b.board copySize
  swapRunLoop b st (n + 1) n 0 bs

end Sectors

/-! ### Headers -/

/-- Where `boot_read_image_header` looks for the header of a slot. -/
def headerArea (bd : Board) (fl : Flash) (slot : Area) (bs : Option BootStatus) : Option Area :=
  match bs with
  | none => some slot
  | some bs =>
    if bd.mode ≠ .scratch ∨ bs.isReset bd then some slot
    else do
      let fap ← bootFindStatus bd fl
      let swapSize ← bootReadSwapSize bd fl fap
      let swapCount := findSwapCount bd swapSize
      let done := bs.idx - statusIdx0
      if done ≥ swapCount then return if slot = .primary then .secondary else .primary
      if done + 1 = swapCount then
        if slot = .secondary ∧ bs.state ≥ statusState1 then return .scratch
        if slot = .primary ∧ bs.state ≥ statusState2 then return .secondary
      return slot

def bootReadImageHeader (bd : Board) (fl : Flash) (st : BootState) (slot : Area)
    (bs : Option BootStatus) : BootState × Bool :=
  match headerArea bd fl slot bs with
  | none => (st, false)
  | some fap =>
    match flashAreaRead (bd.area fl fap) 0 imageHeaderSize with
    | none => (st, false)
    | some out => (st.setHdr slot (.decode out), true)

/-- The functions of `swap_scratch.c` that the loader is linked with. -/
def algo (b : LoaderBuild) : SwapAlgo where
  bootReadImageHeader := bootReadImageHeader b.board
  swapStatusSource := swapStatusSource b.board
  swapReadStatusBytes := swapReadStatusBytes b
  bootReadImageSize fl st slot := (readImageSize (b.board.area fl slot) (st.hdr slot) 0).map fun read => (read.1, st)
  swapRun := swapRun b
  bootSlotsCompatible := bootSlotsCompatible b.board
  appMaxSize := appMaxSize b.board

theorem bootReadImageHeader_none {bd : Board} {fl : Flash} {st : BootState} {slot : Area} {out : Bytes}
    (read : flashAreaRead (bd.area fl slot) 0 imageHeaderSize = some out) :
    bootReadImageHeader bd fl st slot none = (st.setHdr slot (.decode out), true) := by
  simp [bootReadImageHeader, headerArea, read]

theorem readsHeaders (b : LoaderBuild) : (algo b).ReadsHeaders b.board where
  primary := bootReadImageHeader_none
  keepsHdr fl st bs := by
    simp only [algo, bootReadImageHeader]
    split
    · rfl
    · split <;> rfl
  keepsType fl st bs := by
    simp only [algo, bootReadImageHeader]
    split
    · rfl
    · split <;> rfl
  keepsOffset fl st := by
    simp only [algo, bootReadImageHeader]
    split
    · rfl
    · split <;> rfl

theorem bootReadImageHeaders_eq {b : LoaderBuild} (fl : Flash) (st : BootState)
    (pri : imageHeaderSize ≤ b.board.faSize .primary) (sec : imageHeaderSize ≤ b.board.faSize .secondary) :
    bootReadImageHeaders (algo b) fl st false none = ({ st with
        hdrPrimary := .decode (fl.read .primary 0 imageHeaderSize)
        hdrSecondary := .decode (fl.read .secondary 0 imageHeaderSize) }, true) := by
  simp only [bootReadImageHeaders, algo]
  rw [bootReadImageHeader_none (flashAreaRead_area (by omega))]
  simp only
  rw [bootReadImageHeader_none (flashAreaRead_area (by omega))]
  rfl

end Adaboot.SwapScratch
