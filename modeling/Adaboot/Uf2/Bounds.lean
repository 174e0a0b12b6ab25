import Adaboot.Uf2.Process

/-!
# Which bytes of a block are read

The payload size of a block comes from the host, and the scan for extension tags starts there. A configured board name
is looked for before the size is checked, a partition name after that.
-/

namespace Adaboot.Uf2

/-- The indices of the data field that `uf2_find_ext_tag` reads, and those of the payload that it returns. -/
def findExtTagReads (b : Block) (tagType : Nat) : Nat → Nat → List Nat
  | 0, _ => []
  | fuel + 1, off =>
    if u32 (off + 4) ≤ uf2DataSize then
      let sz := (b.dataAt off).toNat
      off ::
        if sz = 0 then []
        else if sz < 4 ∨ u32 (off + sz) > uf2DataSize then []
        else
          let type := (b.dataAt (off + 1)).toNat + 256 * (b.dataAt (off + 2)).toNat + 65536 * (b.dataAt (off + 3)).toNat
          [u32 (off + 1), u32 (off + 2), u32 (off + 3)] ++
            -- the caller compares the payload with a name
            if type = tagType then (List.range (sz - 4)).map fun i => u32 (off + 4) + i
            else findExtTagReads b tagType fuel (u32 (off + (sz + 3) / 4 * 4))
    else []

def uf2FindExtTagReads (b : Block) (tagType : Nat) : List Nat :=
  if b.hasFlag uf2FlagExtensionTags then findExtTagReads b tagType uf2DataSize b.payloadSize else []

section Reads

variable (cfg : Cfg) (maxBlocks : Nat) (block : Block)

def wrongFamily : Prop := cfg.familyId ≠ 0 ∧ ¬(block.hasFlag uf2FlagFamilyId ∧ block.familyId = cfg.familyId)

instance : Decidable (wrongFamily cfg block) := inferInstanceAs (Decidable (_ ∧ _))

/-- The indices of the data field that `uf2_process_block` reads, with those that it hands to the callback. -/
def uf2ProcessBlockReads : List Nat :=
  if ¬block.isUf2 then []
  else if cfg.regions.isSome ∧ cfg.numRegions > uf2MaxRegions then []
  else if wrongFamily cfg block then []
  else
    (if cfg.boardId ≠ [] then uf2FindExtTagReads block uf2ExtTagBoardId else []) ++
      if foreign cfg block then []
      else if block.numBlocks = 0 ∨ block.blockNo ≥ block.numBlocks then []
      else if block.numBlocks > maxBlocks then []
      else if block.payloadSize > uf2PayloadSize ∨ block.payloadSize = 0 then []
      else uf2FindExtTagReads block uf2ExtTagPartition ++ List.range block.payloadSize

def WithinData (reads : List Nat) : Prop := ∀ i ∈ reads, i < uf2DataSize

/-- The scan for the board name starts so close to the end of the address space that its first check wraps around. -/
structure ScanWraps : Prop where
  isUf2 : block.isUf2 = true
  table : ¬(cfg.regions.isSome ∧ cfg.numRegions > uf2MaxRegions)
  family : ¬wrongFamily cfg block
  board : cfg.boardId ≠ []
  tagged : block.hasFlag uf2FlagExtensionTags = true
  size : 2 ^ 32 - 4 ≤ block.payloadSize

variable {cfg maxBlocks block}

theorem withinData_nil : WithinData [] := by
  intro i mem
  cases mem

theorem withinData_append {xs ys : List Nat} : WithinData (xs ++ ys) ↔ WithinData xs ∧ WithinData ys :=
  List.forall_mem_append

theorem withinData_ite {c : Prop} [Decidable c] {xs : List Nat} (within : ¬c → WithinData xs) :
    WithinData (if c then [] else xs) := by
  split
  · exact withinData_nil
  next not => exact within not

/-- A scan that starts without wrapping around never does: a record ends within the data field. -/
theorem findExtTagReads_within (b : Block) (tagType : Nat) {fuel off : Nat} (small : off < 2 ^ 32 - 4) :
    WithinData (findExtTagReads b tagType fuel off) := by
  induction fuel generalizing off with
  | zero => exact withinData_nil
  | succ fuel ih =>
    have byte := (b.dataAt off).toNat_lt
    rw [findExtTagReads, u32_of_lt (by omega : off + 4 < 2 ^ 32)]
    split
    next room =>
      unfold uf2DataSize at room
      simp only
      generalize (b.dataAt off).toNat = sz at byte ⊢
      rw [u32_of_lt (by omega : off + sz < 2 ^ 32)]
      refine List.forall_mem_cons.mpr ⟨by unfold uf2DataSize; omega,
        withinData_ite fun _ => withinData_ite fun fits => ?_⟩
      unfold uf2DataSize at fits
      refine withinData_append.mpr ⟨?_, ?_⟩
      · rw [u32_of_lt (by omega), u32_of_lt (by omega), u32_of_lt (by omega)]
        simp only [WithinData, List.forall_mem_cons, uf2DataSize]
        exact ⟨by omega, by omega, by omega, by simp⟩
      · split
        · intro i mem
          obtain ⟨k, inside, rfl⟩ := List.mem_map.mp mem
          rw [List.mem_range] at inside
          unfold uf2DataSize
          omega
        · rw [u32_of_lt (by omega)]
          exact ih (by omega)
    next => exact withinData_nil

/-- Such a scan depends on nothing but the bytes that are read. -/
theorem findExtTagLoop_congr {b b' : Block} {tagType fuel off : Nat} (small : off < 2 ^ 32 - 4)
    (same : ∀ i ∈ findExtTagReads b tagType fuel off, b'.dataAt i = b.dataAt i) :
    findExtTagLoop b' tagType fuel off = findExtTagLoop b tagType fuel off := by
  induction fuel generalizing off with
  | zero => rfl
  | succ fuel ih =>
    have wide : ∀ k ≤ 4, u32 (off + k) = off + k := fun k le => u32_of_lt (by omega)
    have byte := (b.dataAt off).toNat_lt
    simp only [findExtTagReads, findExtTagLoop, wide, Nat.reduceLeDiff] at same ⊢
    split
    next fits =>
      rw [if_pos fits, List.forall_mem_cons] at same
      rw [same.1]
      grind [uf2DataSize, u32, List.map_inj_left]
    next => rfl

/-- A scan that starts closer to the end of the address space reads there. -/
theorem mem_findExtTagReads (b : Block) (tagType : Nat) {fuel off : Nat} (lt : off < 2 ^ 32)
    (wraps : 2 ^ 32 - 4 ≤ off) : off ∈ findExtTagReads b tagType (fuel + 1) off := by
  rw [findExtTagReads, if_pos]
  · exact List.mem_cons_self
  · unfold u32 uf2DataSize
    omega

theorem uf2FindExtTagReads_within (tagType : Nat)
    (small : block.hasFlag uf2FlagExtensionTags = true → block.payloadSize < 2 ^ 32 - 4) :
    WithinData (uf2FindExtTagReads block tagType) := by
  unfold uf2FindExtTagReads
  split
  next tagged => exact findExtTagReads_within block tagType (small tagged)
  next => exact withinData_nil

/-- An accepted block is read to the end of its payload. -/
theorem payload_read {place : Nat × Nat} (check : uf2CheckBlock cfg maxBlocks block = .ok place) :
    ∀ i < block.payloadSize, i ∈ uf2ProcessBlockReads cfg maxBlocks block := by
  grind [uf2ProcessBlockReads, uf2CheckBlock, wrongFamily, foreign]

end Reads

/-- Nothing behind the data field is read, exactly if the scan for a board name does not start within the last four
bytes of the address space. -/
theorem process_block_within_data_iff (cfg : Cfg) (maxBlocks : Nat) (block : Block) :
    WithinData (uf2ProcessBlockReads cfg maxBlocks block) ↔ ¬ScanWraps cfg block := by
  have sizeLt : block.payloadSize < 2 ^ 32 := le32_lt ..
  unfold uf2ProcessBlockReads
  constructor
  · intro within wraps
    rw [if_neg (by simpa using wraps.isUf2), if_neg wraps.table, if_neg wraps.family, if_pos wraps.board,
      withinData_append, uf2FindExtTagReads, if_pos wraps.tagged] at within
    -- the first byte that the scan reads is where the payload is said to end
    have first := within.1 _ (mem_findExtTagReads block uf2ExtTagBoardId sizeLt wraps.size)
    have far := wraps.size
    unfold uf2DataSize at first
    omega
  · intro noWrap
    refine withinData_ite fun isUf2 => withinData_ite fun table => withinData_ite fun family =>
      withinData_append.mpr ⟨?_, withinData_ite fun _ => withinData_ite fun _ => withinData_ite fun _ =>
        withinData_ite fun checked => ?_⟩
    · split
      next board =>
        apply uf2FindExtTagReads_within
        intro tagged
        by_contra size
        exact noWrap ⟨by simpa using isUf2, table, family, board, tagged, by omega⟩
      next => exact withinData_nil
    · -- behind the check the size is at most 256
      unfold uf2PayloadSize at checked
      refine withinData_append.mpr ⟨uf2FindExtTagReads_within _ fun _ => by omega, ?_⟩
      intro i mem
      rw [List.mem_range] at mem
      unfold uf2DataSize
      omega

/-- A block with extension tags whose payload is said to have 2^32 - 4 bytes. -/
def wrappingBlock : Block :=
  .pack ⟨uf2FlagExtensionTags, 0, 0xfffffffc, 0, 1, 0⟩ (List.replicate 476 0) (by decide +kernel)

def namedBoard : Cfg := ⟨0, 0, 65536, none, 0, 0, [0x62], 4096, Cfg.zero_lt, by decide, Cfg.sector_pow⟩

theorem board_scan_reads_outside :
    wrappingBlock.isUf2 = true ∧ 0xfffffffc ∈ uf2ProcessBlockReads namedBoard 16 wrappingBlock := by
  decide +kernel

end Adaboot.Uf2
