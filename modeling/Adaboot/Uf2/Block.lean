import Adaboot.Image.Pack

/-!
# UF2 blocks

A sector of 512 bytes read as `struct uf2_block` (`boot_uf2.h`), and the scan for the extension tags
that stand behind its payload. The tools pack the same layout (`uf2conv.py`), so a scan finds a tag
that was packed.
-/

namespace Adaboot.Uf2

def uf2MagicStart0 : Nat := 0x0A324655
def uf2MagicStart1 : Nat := 0x9E5D5157
def uf2MagicEnd : Nat := 0x0AB16F30
def uf2FlagFamilyId : Nat := 0x00002000
def uf2FlagExtensionTags : Nat := 0x00008000
def uf2PayloadSize : Nat := 256
def uf2DataSize : Nat := 476
def uf2ExtTagBoardId : Nat := 0x4D7C3A
def uf2ExtTagPartition : Nat := 0x1F0DA8

/-- `struct uf2_block`, laid over the sector it arrives in. -/
structure Block where
  raw : Bytes
  raw_length : raw.length = 512
deriving DecidableEq

namespace Block

variable (b : Block)

def magicStart0 : Nat := le32 b.raw 0
def magicStart1 : Nat := le32 b.raw 4
def flags : Nat := le32 b.raw 8
def targetAddr : Nat := le32 b.raw 12
def payloadSize : Nat := le32 b.raw 16
def blockNo : Nat := le32 b.raw 20
def numBlocks : Nat := le32 b.raw 24
def familyId : Nat := le32 b.raw 28
def magicEnd : Nat := le32 b.raw 508

/-- The data field and what follows it, as a pointer to the field sees them. -/
def data : Bytes := b.raw.drop 32

/-- `data[i]`. The index is a `uint32_t` and the sum of the pointer and the index wraps. -/
def dataAt (i : Nat) : UInt8 := b.raw.getD (u32 (32 + i)) 0

def isUf2 : Bool := b.magicStart0 = uf2MagicStart0 ∧ b.magicStart1 = uf2MagicStart1 ∧ b.magicEnd = uf2MagicEnd

def hasFlag (flag : Nat) : Bool := b.flags &&& flag ≠ 0

def payload : Bytes := b.data.take b.payloadSize

end Block

theorem le32_lt (data : Bytes) (i : Nat) : le32 data i < 2 ^ 32 := by
  have := le16_lt data i
  have := le16_lt data (i + 2)
  unfold le32
  omega

/-- What a scan for a tag finds: `-1` is `absent`, `-2` is `malformed`. -/
inductive ExtTag where
  | absent
  | malformed
  | found (payload : Bytes)
deriving DecidableEq, Repr

/-- The loop of `uf2_find_ext_tag`. A record has at least four bytes. -/
def findExtTagLoop (b : Block) (tagType : Nat) : Nat → Nat → ExtTag
  | 0, _ => .malformed
  | fuel + 1, off =>
    if u32 (off + 4) ≤ uf2DataSize then
      let sz := (b.dataAt off).toNat
      if sz = 0 then .absent
      else if sz < 4 ∨ u32 (off + sz) > uf2DataSize then .malformed
      else
        let type := (b.dataAt (off + 1)).toNat + 256 * (b.dataAt (off + 2)).toNat + 65536 * (b.dataAt (off + 3)).toNat
        if type = tagType then .found ((List.range (sz - 4)).map fun i => b.dataAt (off + 4 + i))
        else findExtTagLoop b tagType fuel (u32 (off + (sz + 3) / 4 * 4))
    else .malformed

def uf2FindExtTag (b : Block) (tagType : Nat) : ExtTag :=
  if b.hasFlag uf2FlagExtensionTags then findExtTagLoop b tagType uf2DataSize b.payloadSize
  else .absent

/-! ### Packed blocks -/

section Flags

variable {family tags : Prop} [Decidable family] [Decidable tags]

theorem flags_lt : (if family then uf2FlagFamilyId else 0) ||| (if tags then uf2FlagExtensionTags else 0) < 2 ^ 32 := by
  split <;> split <;> decide

theorem flags_family : ((if family then uf2FlagFamilyId else 0) |||
    (if tags then uf2FlagExtensionTags else 0)) &&& uf2FlagFamilyId ≠ 0 ↔ family := by
  by_cases f : family <;> by_cases t : tags <;> simp only [f, t, if_true, if_false] <;> decide

theorem flags_tags : ((if family then uf2FlagFamilyId else 0) |||
    (if tags then uf2FlagExtensionTags else 0)) &&& uf2FlagExtensionTags ≠ 0 ↔ tags := by
  by_cases f : family <;> by_cases t : tags <;> simp only [f, t, if_true, if_false] <;> decide

end Flags

theorem getD_append_zeros (xs : Bytes) (k i : Nat) : (xs ++ List.replicate k 0).getD i 0 = xs.getD i 0 := by
  by_cases lt : i < xs.length
  · rw [List.getD, List.getD, List.getElem?_append_left lt]
  · rw [List.getD, List.getD, List.getElem?_append_right (by omega), List.getElem?_replicate,
      List.getElem?_eq_none (by omega)]
    split <;> rfl

/-- The fields of a block that its maker chooses. -/
structure Fields where
  flags : Nat
  targetAddr : Nat
  payloadSize : Nat
  blockNo : Nat
  numBlocks : Nat
  familyId : Nat

def Fields.words (f : Fields) : List Nat :=
  [uf2MagicStart0, uf2MagicStart1, f.flags, f.targetAddr, f.payloadSize, f.blockNo, f.numBlocks, f.familyId]

def Block.pack (f : Fields) (data : Bytes) (length : data.length = uf2DataSize) : Block where
  raw := f.words.flatMap put32 ++ (data ++ put32 uf2MagicEnd)
  raw_length := by simp [Fields.words, put32, put16, length, uf2DataSize]

theorem length_put32 (n : Nat) : (put32 n).length = 4 := rfl

theorem length_flatMap_put32 (ws : List Nat) : (ws.flatMap put32).length = 4 * ws.length := by
  induction ws with
  | nil => rfl
  | cons w ws ih =>
    rw [List.flatMap_cons, List.length_append, ih, length_put32, List.length_cons]
    omega

theorem le32_append_right (xs ys : Bytes) (i : Nat) : le32 (xs ++ ys) (xs.length + i) = le32 ys i := by
  have shift : ∀ j, (xs ++ ys).getD (xs.length + j) 0 = ys.getD j 0 := by
    intro j
    rw [List.getD, List.getElem?_append_right (by omega), Nat.add_sub_cancel_left]
    rfl
  simp only [le32, le16, Nat.add_assoc, shift]

theorem le32_words {ws : List Nat} {i : Nat} {rest : Bytes} {w : Nat} (mem : ws[i]? = some w)
    (lt : w < 2 ^ 32) : le32 (ws.flatMap put32 ++ rest) (4 * i) = w := by
  induction ws generalizing i with
  | nil => simp at mem
  | cons v ws ih =>
    cases i with
    | zero =>
      obtain rfl : v = w := by simpa using mem
      have := le32_put32 lt
      exact this
    | succ i =>
      exact ih (by simpa using mem)

section Pack

variable {f : Fields} {data : Bytes} {length : data.length = uf2DataSize}

@[simp] theorem isUf2_pack : (Block.pack f data length).isUf2 = true := by
  have word : ∀ {i w}, f.words[i]? = some w → w < 2 ^ 32 →
      le32 (Block.pack f data length).raw (4 * i) = w := fun mem lt => le32_words mem lt
  have first : (Block.pack f data length).magicStart0 = uf2MagicStart0 := word (i := 0) rfl (by decide)
  have second : (Block.pack f data length).magicStart1 = uf2MagicStart1 := word (i := 1) rfl (by decide)
  have last : (Block.pack f data length).magicEnd = uf2MagicEnd := by
    have at_end : 508 = (f.words.flatMap put32).length + (data.length + 0) := by
      rw [length_flatMap_put32, length]
      rfl
    rw [Block.magicEnd, at_end, Block.pack, le32_append_right, le32_append_right]
    decide
  simp [Block.isUf2, first, second, last]

theorem flags_pack (lt : f.flags < 2 ^ 32) : (Block.pack f data length).flags = f.flags := le32_words (i := 2) rfl lt

theorem targetAddr_pack (lt : f.targetAddr < 2 ^ 32) :
    (Block.pack f data length).targetAddr = f.targetAddr := le32_words (i := 3) rfl lt

theorem payloadSize_pack (lt : f.payloadSize < 2 ^ 32) :
    (Block.pack f data length).payloadSize = f.payloadSize := le32_words (i := 4) rfl lt

theorem blockNo_pack (lt : f.blockNo < 2 ^ 32) : (Block.pack f data length).blockNo = f.blockNo :=
  le32_words (i := 5) rfl lt

theorem numBlocks_pack (lt : f.numBlocks < 2 ^ 32) :
    (Block.pack f data length).numBlocks = f.numBlocks := le32_words (i := 6) rfl lt

theorem familyId_pack (lt : f.familyId < 2 ^ 32) :
    (Block.pack f data length).familyId = f.familyId := le32_words (i := 7) rfl lt

theorem data_pack : (Block.pack f data length).data = data ++ put32 uf2MagicEnd := by
  have header : (f.words.flatMap put32).length = 32 := length_flatMap_put32 _
  rw [Block.data, Block.pack, ← header, List.drop_left]

theorem dataAt_pack {i : Nat} (lt : i < uf2DataSize) : (Block.pack f data length).dataAt i = data.getD i 0 := by
  have header : (f.words.flatMap put32).length = 32 := length_flatMap_put32 _
  have raw : (Block.pack f data length).raw = f.words.flatMap put32 ++ (data ++ put32 uf2MagicEnd) := rfl
  have size : data.length = 476 := length
  rw [Block.dataAt, u32_of_lt (by omega), raw, List.getD,
    List.getElem?_append_right (by omega), header, Nat.add_sub_cancel_left,
    List.getElem?_append_left (by omega)]
  rfl

end Pack

/-! ### Packed tags -/

/-- A tag type and its payload, as `pack_extension_tag` accepts them. -/
structure TagSpec where
  tag : Nat
  payload : Bytes
  tag_lt : tag < 2 ^ 24
  size_le : 4 + payload.length ≤ 255
deriving DecidableEq

def packExtensionTag (spec : TagSpec) : Bytes :=
  let record := UInt8.ofNat (4 + spec.payload.length) :: .ofNat spec.tag :: .ofNat (spec.tag / 256) ::
    .ofNat (spec.tag / 65536) :: spec.payload
  record ++ List.replicate ((4 - record.length % 4) % 4) 0

def buildExtensionBlob (specs : List TagSpec) : Bytes := specs.flatMap packExtensionTag ++ [0, 0, 0, 0]

theorem length_packExtensionTag (spec : TagSpec) :
    (packExtensionTag spec).length = (4 + spec.payload.length + 3) / 4 * 4 := by
  simp only [packExtensionTag, List.length_append, List.length_cons, List.length_replicate]
  omega

def lookupTag (specs : List TagSpec) (tagType : Nat) : ExtTag :=
  match specs.find? (·.tag = tagType) with
  | some spec => .found spec.payload
  | none => .absent

/-- The data field of the block has the bytes from `off` on. -/
def Block.Reads (b : Block) (off : Nat) (bytes : Bytes) : Prop :=
  ∀ i, i < bytes.length → b.dataAt (off + i) = bytes.getD i 0

variable {b : Block} {off tagType fuel : Nat} {xs ys : Bytes}

theorem Block.Reads.left (reads : b.Reads off (xs ++ ys)) : b.Reads off xs := by
  intro i lt
  have := reads i (by rw [List.length_append]; omega)
  rwa [List.getD, List.getElem?_append_left lt] at this

theorem Block.Reads.right (reads : b.Reads off (xs ++ ys)) :
    b.Reads (off + xs.length) ys := by
  intro i lt
  have := reads (xs.length + i) (by rw [List.length_append]; omega)
  rwa [List.getD, List.getElem?_append_right (by omega), Nat.add_sub_cancel_left, ← Nat.add_assoc] at this

theorem findExtTagLoop_record {spec : TagSpec}
    (reads : b.Reads off (packExtensionTag spec)) (fits : off + (packExtensionTag spec).length ≤ uf2DataSize) :
    findExtTagLoop b tagType (fuel + 1) off = if spec.tag = tagType then .found spec.payload
      else findExtTagLoop b tagType fuel (off + (packExtensionTag spec).length) := by
  have length := length_packExtensionTag spec
  have small : off + (packExtensionTag spec).length < 2 ^ 32 := by
    unfold uf2DataSize at fits
    omega
  have size_le := spec.size_le
  have tag_lt := spec.tag_lt
  have size : (b.dataAt off).toNat = 4 + spec.payload.length := by
    have := reads 0 (by omega)
    rw [Nat.add_zero] at this
    rw [this]
    simp [packExtensionTag]
    omega
  have type : (b.dataAt (off + 1)).toNat + 256 * (b.dataAt (off + 2)).toNat +
      65536 * (b.dataAt (off + 3)).toNat = spec.tag := by
    rw [reads 1 (by omega), reads 2 (by omega), reads 3 (by omega)]
    simp [packExtensionTag]
    omega
  have payload : (List.range spec.payload.length).map (fun i => b.dataAt (off + 4 + i)) =
      spec.payload := by
    apply List.ext_getElem (by simp)
    intro i h1 h2
    have := reads (4 + i) (by omega)
    rw [List.getElem_map, List.getElem_range, Nat.add_assoc, this]
    simp [packExtensionTag, List.getD, Nat.add_comm 4 i, List.getElem?_append_left h2, List.getElem?_eq_getElem h2]
  rw [findExtTagLoop]
  simp only [size, type, Nat.add_sub_cancel_left, payload]
  rw [u32_of_lt (by omega), u32_of_lt (by omega), u32_of_lt (by omega), if_pos (by omega),
    if_neg (by omega), if_neg (by omega), length]

/-- A scan of packed tags finds the first one of the type. -/
theorem findExtTagLoop_blob {specs : List TagSpec} (reads : b.Reads off (buildExtensionBlob specs))
    (fits : off + (buildExtensionBlob specs).length ≤ uf2DataSize) (enough : specs.length < fuel) :
    findExtTagLoop b tagType fuel off = lookupTag specs tagType := by
  induction specs generalizing off fuel with
  | nil =>
    obtain ⟨fuel, rfl⟩ : ∃ n, fuel = n + 1 := ⟨fuel - 1, by simp at enough; omega⟩
    have zero := reads 0 (by simp [buildExtensionBlob])
    simp only [buildExtensionBlob, List.flatMap_nil, List.nil_append, List.length_cons,
      List.length_nil, uf2DataSize, Nat.add_zero] at fits zero
    have small : u32 (off + 4) = off + 4 := u32_of_lt (by omega)
    simp [findExtTagLoop, zero, small, lookupTag, uf2DataSize]
    omega
  | cons spec specs ih =>
    obtain ⟨fuel, rfl⟩ : ∃ n, fuel = n + 1 := ⟨fuel - 1, by simp at enough; omega⟩
    have split : buildExtensionBlob (spec :: specs) =
        packExtensionTag spec ++ buildExtensionBlob specs := by
      simp [buildExtensionBlob]
    rw [split] at reads fits
    rw [List.length_append] at fits
    rw [findExtTagLoop_record reads.left (by omega)]
    by_cases here : spec.tag = tagType
    · simp [lookupTag, here]
    · rw [if_neg here, ih reads.right (by omega) (by simp at enough; omega)]
      simp [lookupTag, here]

end Adaboot.Uf2
