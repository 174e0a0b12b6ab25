import Adaboot.Crash.Prog
import Adaboot.Image.Header
import Adaboot.Nor.Ops
import Adaboot.Nor.Sectors

/-!
# Uploads

`bs_upload` of `boot_serial.c`. The state of the upload lives in static variables. Flash is erased before the first
chunk, or as far as the chunks reach (`MCUBOOT_ERASE_PROGRESSIVELY`).
-/

namespace Adaboot.Serial

open Crash Nor

def mgmtErrUnknown : Int := 1
def mgmtErrInval : Int := 3
def mgmtErrNoEnt : Int := 5
def eInval : Int := 22
def sizeMax : Nat := 2 ^ 32 - 1
def bootMagicSz : Nat := 16

structure Options where
  /-- `MCUBOOT_ERASE_PROGRESSIVELY`. -/
  eraseProgressively : Bool
  /-- `BOOT_IMAGE_HAS_STATUS_FIELDS`. -/
  imageHasStatusFields : Bool
  /-- `MCUBOOT_VALIDATE_PRIMARY_SLOT_ONCE`. -/
  validatePrimarySlotOnce : Bool
  /-- `MCUBOOT_SWAP_USING_OFFSET`. -/
  swapUsingOffset : Bool
  /-- `MCUBOOT_SERIAL_DIRECT_IMAGE_UPLOAD`. -/
  directImageUpload : Bool
  /-- `MCUBOOT_SERIAL_UNALIGNED_BUFFER_SIZE`. -/
  unalignedBufferSize : Nat
  /-- `MCUBOOT_LOGICAL_SECTOR_SIZE`, 0 if the physical sectors are used. -/
  logicalSectorSize : Nat
deriving DecidableEq

/-- A flash area that can be opened. Offsets are `off_t`, so it has less than 2^31 bytes. -/
structure UploadArea where
  id : Nat
  sectors : List Nat
  align : Nat
  statusOff : Nat
  align_pos : 0 < align
  sectors_align : ∀ size ∈ sectors, 1 < size ∧ align ∣ size
  size_lt : sectors.sum < 2 ^ 31

def UploadArea.size (area : UploadArea) : Nat := area.sectors.sum

def UploadArea.twoSectors (id statusOff : Nat) : UploadArea where
  id
  sectors := [16, 16]
  align := 4
  statusOff
  align_pos := by decide
  sectors_align := by decide
  size_lt := by decide

/-- A decoded request. A number that is missing has its largest value. -/
structure Request where
  image : Nat
  data : Option Bytes
  len : Nat
  off : Nat
  /-- The data is at an address that does not suit the write alignment. -/
  misaligned : Bool
  data_lt : ∀ chunk, data = some chunk → chunk.length < 2 ^ 31

/-- The first eight of `len` bytes. -/
def Request.eight (image len : Nat) : Request where
  image
  data := some (List.replicate 8 0)
  len
  off := 0
  misaligned := false
  data_lt := by simp

def Request.lastEight (image : Nat) : Request := { Request.eight image 16 with off := 8 }

def Request.imgNum (req : Request) : Nat := if req.image ≠ sizeMax then req.image else 0

/-- The static variables of `bs_upload`. -/
structure UploadState where
  imgSize : Nat
  currOff : Nat
  imgNum : Nat
  notYetErased : Int
  statusSector : Nat × Nat
  startOff : Nat
deriving DecidableEq

def UploadState.zero : UploadState := ⟨0, 0, 0, 0, (0, 0), 0⟩

/-- The state of the upload and of the flash device. -/
structure Upload (δ : Type) where
  state : UploadState
  dev : δ

/-- A command ends with a value or, by `goto out`, with a code. -/
abbrev Command (δ : Type) : Type → Type := Prog (Upload δ) Int

section Commands

variable {δ : Type} (opts : Options) (ops : Ops δ Nat) (area : UploadArea)

def assign (f : UploadState → UploadState) : Command δ Unit := .op fun u => { u with state := f u.state }

def getState : Command δ UploadState := do
  let u ← .get
  pure u.state

def onDevice (f : δ → Int × δ) : Command δ Int := do
  let u ← .get
  .op fun u => { u with dev := (f u.dev).2 }
  pure (f u.dev).1

/-- `flash_area_write`: a range outside the area or not aligned is refused. -/
def flashAreaWrite (off : Nat) (data : Bytes) : Command δ Int :=
  if off + data.length ≤ area.size ∧ area.align ∣ off ∧ area.align ∣ data.length then
    onDevice (ops.write area.id off data)
  else pure (-eInval)

/-! ### Erasing -/

/-- The loop of `boot_erase_region`. -/
def eraseLoop (endOffset : Nat) : Nat → Nat → Command δ Int
  | 0, _ => pure (-1)
  | fuel + 1, off =>
    match sectorAt area.sectors off with
    | none => pure (-eInval)
    | some (off, csize) => do
      let rc ← onDevice (ops.erase area.id off csize)
      if rc < 0 then pure rc
      else if off + csize > endOffset then pure rc
      else eraseLoop endOffset fuel (off + csize + 1)

/-- `boot_erase_region` from low to high sectors, on a device that requires erase. -/
def bootEraseRegion (off size : Nat) : Command δ Int :=
  if off ≥ area.size ∨ area.size - off < size then pure (-1)
  else match sectorAt area.sectors (off + size - 1) with
    | none => pure (-eInval)
    | some (endOffset, _) => eraseLoop ops area endOffset area.sectors.length off

/-- `erase_range`. Both ends are `off_t`; the start is negative after an erase has failed. -/
def eraseRange (start : Int) (endOff : Nat) : Command δ Int :=
  if endOff ≥ area.size then pure (-eInval)
  else if endOff < start then pure start
  else match sectorAt area.sectors endOff with
    | none => pure (-eInval)
    | some (off, size) => do
      let len := (off + size - start) % 2 ^ 32
      let rc ← bootEraseRegion ops area (start % 2 ^ 32).toNat len.toNat
      if rc ≠ 0 then pure (-eInval) else pure (start + len)

/-! ### The first chunk -/

/-- Where the image starts in the slot, in builds that swap using offset. -/
def uploadStartOff (imgNum : Nat) : Option Nat :=
  if opts.swapUsingOffset ∧ opts.directImageUpload then
    if imgNum > 0 ∧ imgNum % 2 = 0 then
      if opts.logicalSectorSize ≠ 0 then some opts.logicalSectorSize else area.sectors.head?
    else some 0
  else some 0

/-- The largest length that is accepted. It is not compared with what is left behind the start of the
image. -/
def maxSize : Nat :=
  if opts.validatePrimarySlotOnce then u32 (area.size + 2 ^ 32 - bootMagicSz) else area.size

def findStatusSector : Command δ Unit :=
  if opts.eraseProgressively ∧ opts.imageHasStatusFields then
    match sectorAt area.sectors area.statusOff with
    | none => .throw mgmtErrUnknown
    | some sector => assign fun s => { s with statusSector := sector }
  else pure ()

def checkLength (imgSizeTmp : Nat) : Command δ Unit :=
  if imgSizeTmp > maxSize opts area then .throw mgmtErrInval else pure ()

def eraseSlot : Command δ Unit :=
  if opts.eraseProgressively then assign fun s => { s with notYetErased := 0 }
  else do
    let rc ← bootEraseRegion ops area 0 area.size
    if rc ≠ 0 then .throw mgmtErrInval else pure ()

def setStartOff : Command δ Unit := do
  let s ← getState
  match uploadStartOff opts area s.imgNum with
  | none => .throw mgmtErrNoEnt
  | some startOff => assign fun s => { s with startOff }

/-- What a chunk with offset 0 does before it is written. -/
def beginUpload (imgSizeTmp : Nat) : Command δ Unit := do
  assign fun s => { s with currOff := 0 }
  findStatusSector opts area
  checkLength opts area imgSizeTmp
  eraseSlot opts ops area
  assign fun s => { s with imgSize := imgSizeTmp }
  setStartOff opts area

/-! ### Writing a chunk -/

/-- The loop that writes through a buffer; what is left of the chunk is returned. -/
def writeBuffered : Nat → Bytes → Command δ Bytes
  | 0, chunk => pure chunk
  | fuel + 1, chunk =>
    if chunk.length ≥ area.align then do
      let writeSize := if opts.unalignedBufferSize > chunk.length then chunk.length
        else opts.unalignedBufferSize
      let s ← getState
      let rc ← flashAreaWrite ops area (s.currOff + s.startOff) (chunk.take writeSize)
      if rc ≠ 0 then .throw rc
      assign fun s => { s with currOff := u32 (s.currOff + writeSize) }
      writeBuffered fuel (chunk.drop writeSize)
    else pure chunk

/-- Writes the aligned part of a chunk and returns how much of it still counts as not written. -/
def writeAligned (misaligned : Bool) (chunk : Bytes) : Command δ Nat :=
  if opts.unalignedBufferSize > 0 ∧ area.align > 1 ∧ misaligned then do
    let rest ← writeBuffered opts ops area chunk.length chunk
    pure rest.length
  else do
    let s ← getState
    let rc ← flashAreaWrite ops area (s.currOff + s.startOff) chunk
    if rc ≠ 0 then .throw mgmtErrInval
    pure chunk.length

/-- The last bytes of an image that is no multiple of the write alignment. -/
def writeTail (off : Nat) (tail : Bytes) : Command δ Unit := do
  let s ← getState
  let rc ← flashAreaWrite ops area (s.currOff + off + s.startOff)
    (tail ++ List.replicate (area.align - tail.length) erasedVal)
  if rc ≠ 0 then .throw mgmtErrInval

def eraseForChunk (len : Nat) : Command δ Unit := do
  let s ← getState
  let rc ← eraseRange ops area s.notYetErased (u32 (s.currOff + len + 2 ^ 32 - 1 + s.startOff))
  assign fun s => { s with notYetErased := rc }
  if rc < 0 then .throw mgmtErrInval

/-- After the last chunk the sector with the status fields is erased. -/
def finishUpload : Command δ Unit := do
  let s ← getState
  if s.currOff = s.imgSize ∧ opts.eraseProgressively ∧ opts.imageHasStatusFields then
    let rc ← eraseRange ops area s.statusSector.1 s.statusSector.1
    if rc < 0 then .throw mgmtErrUnknown

def storeChunk (misaligned : Bool) (chunk : Bytes) : Command δ Unit := do
  let s ← getState
  let remBytes := chunk.length % area.align
  let len := chunk.length - remBytes
  -- a tail that is not the last one will be sent again
  let remBytes := if u32 (s.currOff + len + remBytes) < s.imgSize then 0 else remBytes
  let rest ← writeAligned opts ops area misaligned (chunk.take len)
  if remBytes ≠ 0 then writeTail ops area rest ((chunk.drop len).take remBytes)
  assign fun s => { s with currOff := u32 (s.currOff + rest + remBytes) }
  finishUpload opts ops area

def writeChunk (misaligned : Bool) (chunk : Bytes) : Command δ Unit := do
  if opts.eraseProgressively then eraseForChunk ops area chunk.length
  storeChunk opts ops area misaligned chunk

/-! ### Requests -/

/-- `bs_upload`, where `areas` is what `flash_area_open` gives for an image number. -/
def bsUpload (areas : Nat → Option UploadArea) (req : Option Request) : Command δ Unit :=
  match req with
  | none => .throw mgmtErrInval
  | some req =>
    match req.data with
    | none => .throw mgmtErrInval
    | some chunk =>
      if req.off = sizeMax then .throw mgmtErrInval
      else do
        if req.off = 0 then assign fun s => { s with imgNum := req.imgNum }
        let s ← getState
        match areas s.imgNum with
        | none => .throw mgmtErrInval
        | some area =>
          if req.off = 0 then do
            beginUpload opts ops area req.len
            writeChunk opts ops area req.misaligned chunk
          else if req.off ≠ s.currOff then pure ()
          else if u32 (s.currOff + chunk.length) > s.imgSize then .throw mgmtErrInval
          else writeChunk opts ops area req.misaligned chunk

end Commands

/-- The answer: a code, and the expected offset if the code is 0. -/
structure Response where
  rc : Int
  off : Option Nat
deriving DecidableEq

def upload {δ : Type} (opts : Options) (ops : Ops δ Nat) (areas : Nat → Option UploadArea)
    (req : Option Request) (u : Upload δ) : Response × Upload δ :=
  let run := bsUpload opts ops areas req u
  (match run.value with
    | .ok () => ⟨0, some run.state.state.currOff⟩
    | .error rc => ⟨rc, none⟩, run.state)

def uploadAll {δ : Type} (opts : Options) (ops : Ops δ Nat) (areas : Nat → Option UploadArea)
    (reqs : List (Option Request)) (u : Upload δ) : Upload δ :=
  reqs.foldl (fun u req => (upload opts ops areas req u).2) u

end Adaboot.Serial
