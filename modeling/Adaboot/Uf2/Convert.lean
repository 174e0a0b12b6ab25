import Adaboot.Uf2.Process

/-!
# Converting files

`convert_to_uf2` of `uf2conv.py`: a file is cut into payloads of 256 bytes, and every block carries
the family and the extension tags of the command line.
-/

namespace Adaboot.Uf2

/-- The globals of `uf2conv.py` that a conversion reads; the tags are those given by `--ext`. -/
structure Conversion where
  familyId : Nat
  appStartAddr : Nat
  specs : List TagSpec

namespace Conversion

variable (conv : Conversion) (file : Bytes)

def extensions : Bytes := if conv.specs = [] then [] else buildExtensionBlob conv.specs

def flags : Nat :=
  (if conv.familyId ≠ 0 then uf2FlagFamilyId else 0) |||
    (if conv.extensions ≠ [] then uf2FlagExtensionTags else 0)

/-- The room behind the payload. -/
def uf2ExtMaxBytes : Nat := 512 - 256 - 32 - 4

end Conversion

/-- `numblocks`. -/
def numBlocksOf (file : Bytes) : Nat := (file.length + 255) / 256

/-- `file_content[ptr:ptr + 256]`, filled up with zeros. -/
def chunkOf (file : Bytes) (blockNo : Nat) : Bytes :=
  let chunk := (file.drop (256 * blockNo)).take 256
  chunk ++ List.replicate (256 - chunk.length) 0

@[simp] theorem length_chunkOf (file : Bytes) (blockNo : Nat) : (chunkOf file blockNo).length = 256 := by
  simp only [chunkOf, List.length_append, List.length_replicate, List.length_take]
  omega

namespace Conversion

variable (conv : Conversion) (file : Bytes)

def fields (blockNo : Nat) : Fields where
  flags := conv.flags
  targetAddr := 256 * blockNo + conv.appStartAddr
  payloadSize := 256
  blockNo
  numBlocks := numBlocksOf file
  familyId := conv.familyId

def blockData (blockNo : Nat) : Bytes := chunkOf file blockNo ++ (conv.extensions ++
    List.replicate (uf2ExtMaxBytes - conv.extensions.length) 0)

theorem length_blockData (fits : conv.extensions.length ≤ uf2ExtMaxBytes) (blockNo : Nat) :
    (conv.blockData file blockNo).length = uf2DataSize := by
  simp [blockData, uf2ExtMaxBytes, uf2DataSize] at fits ⊢
  omega

end Conversion

/-- `convert_to_uf2`, if the tags fit and all numbers have 32 bits. -/
def convertToUf2 (conv : Conversion) (file : Bytes) : Option (List Block) :=
  if fits : conv.extensions.length ≤ Conversion.uf2ExtMaxBytes then
    if ∀ blockNo, blockNo < numBlocksOf file → 256 * blockNo + conv.appStartAddr < 2 ^ 32 ∧
        numBlocksOf file < 2 ^ 32 ∧ conv.familyId < 2 ^ 32 then
      some ((List.range (numBlocksOf file)).map fun blockNo =>
        .pack (conv.fields file blockNo) (conv.blockData file blockNo) (conv.length_blockData file fits blockNo))
    else none
  else none

/-- The file with zeros up to the next multiple of 256 bytes. -/
def padded (file : Bytes) : Bytes := file ++ List.replicate (256 * numBlocksOf file - file.length) 0

theorem length_padded (file : Bytes) : (padded file).length = 256 * numBlocksOf file := by
  simp [padded, numBlocksOf]
  omega

theorem chunkOf_getD (file : Bytes) (blockNo : Nat) {i : Nat} (lt : i < 256) :
    (chunkOf file blockNo).getD i 0 = (padded file).getD (256 * blockNo + i) 0 := by
  rw [chunkOf, padded, getD_append_zeros, getD_append_zeros, List.getD, List.getD,
    List.getElem?_take_of_lt lt, List.getElem?_drop]

/-- What the bootloader sees of a block of the file. -/
structure Converted (conv : Conversion) (file : Bytes) (blockNo : Nat) (block : Block) : Prop where
  blockNo_lt : blockNo < numBlocksOf file
  isUf2 : block.isUf2 = true
  family : conv.familyId ≠ 0 → block.hasFlag uf2FlagFamilyId = true ∧ block.familyId = conv.familyId
  targetAddr : block.targetAddr = conv.appStartAddr + 256 * blockNo
  payloadSize : block.payloadSize = uf2PayloadSize
  blockNo_eq : block.blockNo = blockNo
  numBlocks : block.numBlocks = numBlocksOf file
  payload : block.data.take uf2PayloadSize = chunkOf file blockNo
  tags : ∀ tagType, uf2FindExtTag block tagType = lookupTag conv.specs tagType

namespace Conversion

variable {conv : Conversion}

theorem extensions_ne (conv : Conversion) : conv.extensions ≠ [] ↔ conv.specs ≠ [] := by
  unfold extensions
  split
  next none => simp [none]
  next some => simp [buildExtensionBlob, some]

end Conversion

theorem length_lt_buildExtensionBlob (specs : List TagSpec) : specs.length < (buildExtensionBlob specs).length := by
  induction specs with
  | nil => simp [buildExtensionBlob]
  | cons spec specs ih =>
    have := length_packExtensionTag spec
    simp [buildExtensionBlob] at ih ⊢
    omega

/-- A scan of a flagged block whose payload is followed by the packed tags. -/
theorem uf2FindExtTag_blob {specs : List TagSpec} {block : Block}
    (room : 256 + (buildExtensionBlob specs).length ≤ uf2DataSize)
    (flagged : block.hasFlag uf2FlagExtensionTags = true) (size : block.payloadSize = 256)
    (carries : block.Reads 256 (buildExtensionBlob specs)) (tagType : Nat) :
    uf2FindExtTag block tagType = lookupTag specs tagType := by
  rw [uf2FindExtTag, if_pos flagged, size]
  refine findExtTagLoop_blob carries room ?_
  have := length_lt_buildExtensionBlob specs
  omega

theorem lookupTag_ne_malformed (specs : List TagSpec) (tagType : Nat) : lookupTag specs tagType ≠ .malformed := by
  unfold lookupTag
  split
  · exact nofun
  · exact nofun

theorem convertToUf2_spec {conv : Conversion} {file : Bytes} {blocks : List Block}
    (converted : convertToUf2 conv file = some blocks) : blocks.length = numBlocksOf file ∧
      ∀ n block, blocks[n]? = some block → Converted conv file n block := by
  unfold convertToUf2 at converted
  split at converted
  next fits =>
    split at converted
    next small =>
      cases converted
      refine ⟨by simp, fun n block mem => ?_⟩
      obtain ⟨lt, rfl⟩ : n < numBlocksOf file ∧ Block.pack (conv.fields file n)
          (conv.blockData file n) (conv.length_blockData file fits n) = block := by
        rw [List.getElem?_map] at mem
        obtain ⟨m, ranged, rfl⟩ := Option.map_eq_some_iff.mp mem
        obtain ⟨lt, rfl⟩ := List.getElem?_eq_some_iff.mp ranged
        simp only [List.length_range] at lt
        exact ⟨lt, by simp only [List.getElem_range]⟩
      obtain ⟨addr_lt, total_lt, family_lt⟩ := small n lt
      have flags : (Block.pack (conv.fields file n) (conv.blockData file n)
          (conv.length_blockData file fits n)).flags = conv.flags := flags_pack flags_lt
      have size : (Block.pack (conv.fields file n) (conv.blockData file n)
          (conv.length_blockData file fits n)).payloadSize = 256 :=
        payloadSize_pack (show 256 < 2 ^ 32 by decide)
      refine ⟨lt, isUf2_pack, ?_, ?_, size, blockNo_pack (Nat.lt_trans lt total_lt), numBlocks_pack total_lt, ?_, ?_⟩
      · intro family
        refine ⟨?_, familyId_pack family_lt⟩
        rw [Block.hasFlag, flags]
        exact decide_eq_true (flags_family.mpr family)
      · rw [targetAddr_pack addr_lt]
        exact Nat.add_comm _ _
      · rw [data_pack, Conversion.blockData, List.append_assoc]
        exact List.take_left' (length_chunkOf file n)
      · intro tagType
        by_cases tagged : conv.specs = []
        · have untagged : ¬conv.flags &&& uf2FlagExtensionTags ≠ 0 := by
            rw [Conversion.flags, flags_tags, conv.extensions_ne]
            exact fun some => some tagged
          rw [uf2FindExtTag, Block.hasFlag, flags, decide_eq_false untagged, tagged]
          rfl
        · have flagged : conv.flags &&& uf2FlagExtensionTags ≠ 0 := by
            rwa [Conversion.flags, flags_tags, conv.extensions_ne]
          have blob : conv.extensions = buildExtensionBlob conv.specs := if_neg tagged
          have room : 256 + (buildExtensionBlob conv.specs).length ≤ uf2DataSize := by
            rw [blob] at fits
            unfold Conversion.uf2ExtMaxBytes at fits
            unfold uf2DataSize
            omega
          refine uf2FindExtTag_blob room ?_ size ?_ tagType
          · rw [Block.hasFlag, flags]
            exact decide_eq_true flagged
          · intro i within
            rw [dataAt_pack (by omega), Conversion.blockData, blob, List.getD,
              List.getElem?_append_right (by simp), List.getElem?_append_left (by simpa using within),
              length_chunkOf, Nat.add_sub_cancel_left]
            rfl
    next => simp at converted
  next => simp at converted

section Blocks

variable {conv : Conversion} {file : Bytes} {blocks : List Block} (converted : convertToUf2 conv file = some blocks)
include converted

theorem convertToUf2_mem (block : Block)
    (mem : block ∈ blocks) : Converted conv file block.blockNo block := by
  obtain ⟨n, at_n⟩ := List.mem_iff_getElem?.mp mem
  have spec := (convertToUf2_spec converted).2 n block at_n
  rwa [spec.blockNo_eq]

theorem convertToUf2_surjective {n : Nat}
    (lt : n < numBlocksOf file) : ∃ block ∈ blocks, block.blockNo = n := by
  obtain ⟨count, spec⟩ := convertToUf2_spec converted
  have at_n := List.getElem?_eq_getElem (count ▸ lt)
  exact ⟨_, List.mem_of_getElem? at_n, (spec n _ at_n).blockNo_eq⟩

theorem convertToUf2_injective {b c : Block}
    (b_mem : b ∈ blocks) (c_mem : c ∈ blocks) (same : b.blockNo = c.blockNo) : b = c := by
  obtain ⟨-, spec⟩ := convertToUf2_spec converted
  obtain ⟨m, at_m⟩ := List.mem_iff_getElem?.mp b_mem
  obtain ⟨n, at_n⟩ := List.mem_iff_getElem?.mp c_mem
  rw [(spec m b at_m).blockNo_eq, (spec n c at_n).blockNo_eq] at same
  exact Option.some.inj (at_m.symm.trans (same ▸ at_n))

end Blocks

/-- A scan returns the first of the packed tags with the type, or that there is none: in every flagged
block that carries them behind its payload, and in the blocks of every file converted with them. -/
theorem packed_tags_found (specs : List TagSpec) (room : 256 + (buildExtensionBlob specs).length ≤ uf2DataSize)
    (block : Block)
    (carried : (block.hasFlag uf2FlagExtensionTags = true ∧ block.payloadSize = 256 ∧
        block.Reads 256 (buildExtensionBlob specs)) ∨
      ∃ conv file blocks, conv.specs = specs ∧ convertToUf2 conv file = some blocks ∧ block ∈ blocks)
    (tagType : Nat) :
    uf2FindExtTag block tagType = lookupTag specs tagType ∧ uf2FindExtTag block tagType ≠ .malformed := by
  have found : uf2FindExtTag block tagType = lookupTag specs tagType := by
    obtain ⟨flagged, size, carries⟩ | ⟨conv, file, blocks, rfl, converted, mem⟩ := carried
    · exact uf2FindExtTag_blob room flagged size carries tagType
    · exact (convertToUf2_mem converted block mem).tags tagType
  exact ⟨found, found ▸ lookupTag_ne_malformed specs tagType⟩

/-- A board identifier behind a tag whose data does not fill its last word. -/
def twoTags : Conversion :=
  ⟨0, 0, [⟨7, [1, 2, 3, 4, 5], by decide, by decide⟩, ⟨uf2ExtTagBoardId, [98], by decide, by decide⟩]⟩

theorem packed_tags_found_board : ∃ block, convertToUf2 twoTags [9] = some [block] ∧
    uf2FindExtTag block uf2ExtTagBoardId = .found [98] :=
  ⟨_, rfl, (packed_tags_found twoTags.specs (by decide) _
    (.inr ⟨twoTags, [9], _, rfl, rfl, List.mem_singleton.mpr rfl⟩) uf2ExtTagBoardId).1.trans (by decide)⟩

end Adaboot.Uf2
