import Adaboot.Uf2.Process

/-!
# The virtual disk

`ghostfat.c`: a FAT16 volume that is made when it is read. Its file `CURRENT.UF2` is the flash as UF2 blocks; blocks
that are written go to `uf2_process_block`.
-/

namespace Adaboot.Uf2

def sectorSize : Nat := 512
def numFatSectors : Nat := 64
def numRootDirSectors : Nat := 4
def reservedSectors : Nat := 1
def numFats : Nat := 2
def totalSectors : Nat := 65535

def dataStartSector : Nat := reservedSectors + numFats * numFatSectors + numRootDirSectors

def clusterInfoUf2 : Nat := 2
def clusterIndexHtm : Nat := 3
def clusterCurrentUf2 : Nat := 4

/-- `cfg->read`: the bytes of the flash device. -/
structure ReadCb where
  read : (offset len : Nat) → Bytes
  length_read : ∀ offset len, (read offset len).length = len

/-- What `struct uf2_cfg` says about the volume, besides how blocks are processed. -/
structure Volume where
  read : Option ReadCb
  readbackBase : Nat
  readbackSize : Nat
  familyId : Nat
  boardId : Bytes
  boardName : Option Bytes
  boardUrl : Option Bytes
  versionString : Bytes

/-! ### Buffers -/

def text (s : String) : Bytes := s.toUTF8.toList

/-- A buffer of `n` bytes that starts with these. -/
def fill (n : Nat) (bytes : Bytes) : Bytes := (bytes ++ List.replicate n 0).take n

@[simp] theorem length_fill (n : Nat) (bytes : Bytes) : (fill n bytes).length = n := by
  simp [fill]

theorem fill_getD (n : Nat) (bytes : Bytes) {i : Nat} (lt : i < n) : (fill n bytes).getD i 0 = bytes.getD i 0 := by
  rw [← getD_append_zeros bytes n i, fill, List.getD, List.getElem?_take_of_lt lt]
  rfl

theorem take_fill {n k : Nat} {bytes : Bytes} (le : k ≤ n) (inside : k ≤ bytes.length) :
    (fill n bytes).take k = bytes.take k := by
  rw [fill, List.take_take, Nat.min_eq_left le, List.take_append_of_le_length inside]

def layOut (fields : List (Nat × Bytes)) : Bytes :=
  fields.foldl (fun buf field => fill sectorSize (buf.take field.1 ++ field.2 ++
    buf.drop (field.1 + field.2.length))) (List.replicate sectorSize 0)

theorem length_layOut (fields : List (Nat × Bytes)) : (layOut fields).length = sectorSize :=
  List.foldlRecOn (motive := fun buf : Bytes => buf.length = sectorSize) fields _
    List.length_replicate fun _ _ _ _ => length_fill _ _

/-! ### Sectors -/

def buildBootSector : Bytes := layOut [(0, [0xEB, 0x3C, 0x90]), (3, text "UF2 UF2 "), (11, put16 sectorSize), (13, [1]),
    (14, put16 reservedSectors), (16, [.ofNat numFats]), (17, put16 (numRootDirSectors * (sectorSize / 32))),
    (19, put16 totalSectors), (21, [0xF8]), (22, put16 numFatSectors), (24, put16 1), (26, put16 1),
    (28, put32 0), (32, put32 totalSectors), (36, [0x80]), (38, [0x29]), (39, put32 0x00420042),
    (43, text "ADABOOT    "), (54, text "FAT16   "),
    (446, [0x80, 0x01, 0x01, 0x00, 0x0E, 0xFE, 0xFF, 0xFF]), (454, put32 0), (458, put32 totalSectors),
    (510, [0x55, 0xAA])]

section Sectors

variable (vol : Volume)

def currentUf2NumBlocks : Nat :=
  if vol.readbackSize = 0 ∨ vol.read.isNone then 0
  else u32 (vol.readbackSize + uf2PayloadSize - 1) / uf2PayloadSize

def fatEntry (numCurrent cluster : Nat) : Nat :=
  if cluster = 0 then 0xFFF8
  else if cluster = 1 then 0xFFFF
  else if cluster = clusterInfoUf2 ∨ cluster = clusterIndexHtm then 0xFFFF
  else if numCurrent > 0 ∧ cluster ≥ clusterCurrentUf2 ∧ cluster < clusterCurrentUf2 + numCurrent then
    if cluster = clusterCurrentUf2 + numCurrent - 1 then 0xFFFF else (cluster + 1) % 2 ^ 16
  else 0

def buildFatSector (fatSectorIdx : Nat) : Bytes :=
  (List.range (sectorSize / 2)).flatMap fun i =>
    put16 (fatEntry (currentUf2NumBlocks vol) (fatSectorIdx * (sectorSize / 2) + i))

/-- `build_info_uf2_txt`: the text as far as it fits with its final zero. -/
def buildInfoUf2Txt (maxLen : Nat) : Bytes :=
  let name := vol.boardName.getD (text "MCUboot")
  (text "UF2 Bootloader " ++ vol.versionString ++ text "\r\nModel: " ++ name ++
    text "\r\nBoard-ID: " ++ name ++ text "\r\n").take (maxLen - 1)

def buildIndexHtm (maxLen : Nat) : Bytes :=
  let url := vol.boardUrl.getD (text "https://mcuboot.com")
  (text "<!doctype html>\r\n<html><head><meta http-equiv=\"refresh\" content=\"0;URL='" ++ url ++
    text "'\"></head><body>Redirecting to <a href=\"" ++ url ++ text "\">" ++ url ++
    text "</a></body></html>\r\n").take (maxLen - 1)

def buildDirEntry (name11 : Bytes) (attr : UInt8) (cluster size : Nat) : Bytes :=
  fill 32 (name11 ++ attr :: List.replicate 14 0 ++ put16 cluster ++ put32 size)

def buildRootDirSector (dirSectorIdx : Nat) : Bytes :=
  let numCurrent := currentUf2NumBlocks vol
  if dirSectorIdx ≠ 0 then List.replicate sectorSize 0
  else fill sectorSize (buildDirEntry (text "ADABOOT    ") 0x08 0 0 ++
    buildDirEntry (text "INFO_UF2TXT") 0x01 clusterInfoUf2 (buildInfoUf2Txt vol 256).length ++
    buildDirEntry (text "INDEX   HTM") 0x01 clusterIndexHtm (buildIndexHtm vol 256).length ++
    if numCurrent > 0 then
      buildDirEntry (text "CURRENT UF2") 0x01 clusterCurrentUf2 (u32 (numCurrent * sectorSize))
    else [])

/-- The payload of a block of `CURRENT.UF2`. -/
def currentPayloadLen (blockIndex : Nat) : Nat :=
  let offset := u32 (blockIndex * uf2PayloadSize)
  if u32 (offset + uf2PayloadSize) > vol.readbackSize then u32 (vol.readbackSize + 2 ^ 32 - offset)
  else uf2PayloadSize

/-- Whether the tag with the board and the zeros behind it fit in front of the end magic. -/
def boardTagFits (payloadLen : Nat) : Bool :=
  let sz := (4 + vol.boardId.length) % 256
  let padded := (sz + 3) / 4 * 4
  vol.boardId.length ≤ 251 ∧ 32 + payloadLen + padded + 4 ≤ 508

/-- The tag with the board, if there is one and it fits. -/
def boardTag (payloadLen : Nat) : Bytes :=
  if vol.boardId ≠ [] ∧ boardTagFits vol payloadLen then
    .ofNat (4 + vol.boardId.length) :: .ofNat uf2ExtTagBoardId :: .ofNat (uf2ExtTagBoardId / 256) ::
      .ofNat (uf2ExtTagBoardId / 65536) :: vol.boardId
  else []

def currentFields (blockIndex numBlocks : Nat) : Fields where
  flags := (if vol.familyId ≠ 0 then uf2FlagFamilyId else 0) |||
    (if vol.boardId ≠ [] then uf2FlagExtensionTags else 0)
  targetAddr := u32 (vol.readbackBase + u32 (blockIndex * uf2PayloadSize))
  payloadSize := currentPayloadLen vol blockIndex
  blockNo := blockIndex
  numBlocks
  familyId := vol.familyId

def buildCurrentUf2Block (cb : ReadCb) (blockIndex numBlocks : Nat) : Block :=
  let payloadLen := currentPayloadLen vol blockIndex
  .pack (currentFields vol blockIndex numBlocks)
    (fill uf2DataSize (cb.read (u32 (blockIndex * uf2PayloadSize)) payloadLen ++ boardTag vol payloadLen))
    (length_fill _ _)

def ghostfatReadSector (sector : Nat) : Bytes :=
  if sector = 0 then buildBootSector
  else if sector < reservedSectors + numFatSectors then buildFatSector vol (sector - reservedSectors)
  else if sector < reservedSectors + 2 * numFatSectors then
    buildFatSector vol (sector - reservedSectors - numFatSectors)
  else if sector < dataStartSector then
    buildRootDirSector vol (sector - (reservedSectors + 2 * numFatSectors))
  else
    let cluster := u32 (sector - dataStartSector + 2)
    if cluster = clusterInfoUf2 then fill sectorSize (buildInfoUf2Txt vol sectorSize)
    else if cluster = clusterIndexHtm then fill sectorSize (buildIndexHtm vol sectorSize)
    else match vol.read with
      | none => List.replicate sectorSize 0
      | some cb =>
        if cluster ≥ clusterCurrentUf2 ∧ cluster < clusterCurrentUf2 + currentUf2NumBlocks vol then
          (buildCurrentUf2Block vol cb (cluster - clusterCurrentUf2) (currentUf2NumBlocks vol)).raw
        else List.replicate sectorSize 0

theorem length_ghostfatReadSector (sector : Nat) : (ghostfatReadSector vol sector).length = 512 := by
  have fat : ∀ idx, (buildFatSector vol idx).length = 512 := by
    intro idx
    have pair : ∀ n, (put16 n).length = 2 := fun _ => rfl
    simp only [buildFatSector, List.length_flatMap, pair, List.map_const', List.length_range, List.sum_replicate_nat]
    rfl
  unfold ghostfatReadSector
  split
  · exact length_layOut _
  split
  · exact fat _
  split
  · exact fat _
  split
  · unfold buildRootDirSector
    split
    · exact List.length_replicate
    · exact length_fill _ _
  simp only
  split
  · exact length_fill _ _
  split
  · exact length_fill _ _
  split
  · exact List.length_replicate
  split
  · exact Block.raw_length _
  · exact List.length_replicate

def readBlock (sector : Nat) : Block := ⟨ghostfatReadSector vol sector, length_ghostfatReadSector vol sector⟩

/-- The first sector of `CURRENT.UF2`. -/
def currentStartSector : Nat := dataStartSector + (clusterCurrentUf2 - 2)

end Sectors

theorem readBlock_current {vol : Volume} {cb : ReadCb} (reads : vol.read = some cb) {i : Nat}
    (lt : i < currentUf2NumBlocks vol) : readBlock vol (currentStartSector + i) =
      buildCurrentUf2Block vol cb i (currentUf2NumBlocks vol) := by
  have small : currentUf2NumBlocks vol < 2 ^ 24 + 1 := by
    unfold currentUf2NumBlocks
    split
    · decide
    · have := u32_lt (vol.readbackSize + uf2PayloadSize - 1)
      unfold uf2PayloadSize at *
      omega
  have start : currentStartSector = 135 := rfl
  have cluster : u32 (currentStartSector + i - dataStartSector + 2) = clusterCurrentUf2 + i := by
    unfold dataStartSector reservedSectors numFats numFatSectors numRootDirSectors clusterCurrentUf2
    rw [start, u32_of_lt (by omega)]
    omega
  have data : ¬currentStartSector + i < dataStartSector := by
    exact Nat.not_lt.mpr (Nat.le_trans (by decide) (Nat.le_add_right 135 i))
  have behind : ∀ {n}, n ≤ dataStartSector → ¬currentStartSector + i < n := fun le lt =>
    data (Nat.lt_of_lt_of_le lt le)
  have sector : ghostfatReadSector vol (currentStartSector + i) =
      (buildCurrentUf2Block vol cb i (currentUf2NumBlocks vol)).raw := by
    unfold ghostfatReadSector
    rw [if_neg (by omega), if_neg (behind (by decide)), if_neg (behind (by decide)), if_neg data]
    simp only [cluster, reads]
    rw [if_neg (by unfold clusterCurrentUf2 clusterInfoUf2; omega),
      if_neg (by unfold clusterCurrentUf2 clusterIndexHtm; omega), if_pos (by omega),
      Nat.add_sub_cancel_left]
  unfold readBlock
  simp only [sector]

def ghostfatWriteSector {δ : Type} (cfg : Cfg) (cb : Callbacks δ) (maxBlocks sector : Nat)
    (buf : Block) (s : Session δ) : Int × Session δ :=
  if sector < dataStartSector then (0, s)
  else if ¬buf.isUf2 then (0, s)
  else uf2ProcessBlock cfg cb maxBlocks buf s

end Adaboot.Uf2
