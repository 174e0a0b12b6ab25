import Adaboot.Uf2.Convert
import Adaboot.Uf2.Disk
import Adaboot.Uf2.Erase
import Adaboot.Uf2.Ghostfat

/-!
# Transfers of files

The blocks of a converted file arrive in any order and any number of times through the sectors of the
virtual disk. When all of them have arrived the region holds the file.
-/

namespace Adaboot.Uf2

/-- Callbacks on flash that works. -/
def flashCallbacks : Callbacks (Nor.Flash Nat) where
  write ctx offset data len fl := (0, fl.program ctx offset (data.take len))
  erase ctx offset len fl := (0, fl.erase ctx offset len)

/-- Callbacks on a device that erases whole pages only, for an area that starts at `faOff`. -/
def pagedCallbacks (faOff page : Nat) : Callbacks (Nor.Flash Nat) where
  write := flashCallbacks.write
  erase ctx offset len fl :=
    if page ∣ faOff + offset ∧ page ∣ len then flashCallbacks.erase ctx offset len fl else (-eInval, fl)

/-- The callbacks write, and erase a region in its steps. -/
structure Cfg.Takes (cfg : Cfg) (region : Nat) (cb : Callbacks (Nor.Flash Nat)) : Prop where
  write : cb.write = flashCallbacks.write
  erase : ∀ off fl, cfg.eraseSize ∣ off → off < uf2RegionSize cfg region →
    cb.erase (uf2RegionCtx cfg region) off (eraseLen cfg region off) fl =
      (0, fl.erase (uf2RegionCtx cfg region) off (eraseLen cfg region off))

def ghostfatWrite {δ : Type} (cfg : Cfg) (cb : Callbacks δ) (maxBlocks : Nat)
    (order : List (Nat × Block)) (s : Session δ) : Session δ :=
  order.foldl (fun s w => (ghostfatWriteSector cfg cb maxBlocks w.1 w.2 s).2) s

/-- The file is placed at the base of the region, has the family and the board of the bootloader, and leads to no other
region. -/
structure Conversion.Suits (conv : Conversion) (cfg : Cfg) (region : Nat) : Prop where
  index_lt : region < uf2NumRegions cfg
  table_le : cfg.regions.isSome = true → cfg.numRegions ≤ uf2MaxRegions
  base : conv.appStartAddr = uf2RegionBase cfg region
  family : cfg.familyId = 0 ∨ conv.familyId = cfg.familyId
  board : cfg.boardId = [] ∨ lookupTag conv.specs uf2ExtTagBoardId = .found cfg.boardId
  route : (∃ name, lookupTag conv.specs uf2ExtTagPartition = .found name ∧
      uf2FindRegionByLabel cfg name = some region) ∨
    (lookupTag conv.specs uf2ExtTagPartition = .absent ∧ cfg.routed region = true ∧
      ∀ r addr, r < uf2NumRegions cfg → r ≠ region → cfg.routed r = true → uf2RegionBase cfg region ≤ addr →
        addr < uf2RegionBase cfg region + uf2RegionSize cfg region →
        uf2RegionContains cfg r addr = false)

/-! ### One block -/

section Block

variable {cfg : Cfg} {conv : Conversion} {region maxBlocks blockNo : Nat} {file : Bytes} {block : Block}
  (converted : Converted conv file blockNo block)
include converted

theorem Converted.native (suits : conv.Suits cfg region) : foreign cfg block = false := by
  refine decide_eq_false ?_
  rintro (⟨wanted, other⟩ | ⟨wanted, other⟩)
  · rcases suits.family with none | same
    · exact wanted none
    · obtain ⟨flag, id⟩ := converted.family (same ▸ wanted)
      exact other ⟨flag, id.trans same⟩
  · rw [converted.tags] at other
    rcases suits.board with none | found
    · exact wanted none
    · exact other found

theorem Converted.end_le (fits : (padded file).length ≤ uf2RegionSize cfg region) :
    256 * blockNo + uf2PayloadSize ≤ uf2RegionSize cfg region := by
  have := converted.blockNo_lt
  rw [length_padded] at fits
  unfold uf2PayloadSize
  omega

variable (suits : conv.Suits cfg region) (fits : (padded file).length ≤ uf2RegionSize cfg region)
include suits fits

theorem Converted.route_iff {r : Nat} : uf2RouteBlock cfg block = some r ↔
      r = region ∧ uf2RegionContains cfg region block.targetAddr = true := by
  have inside := converted.end_le fits
  have addr := converted.targetAddr
  rw [suits.base] at addr
  unfold uf2PayloadSize at inside
  unfold uf2RouteBlock
  rw [converted.tags]
  rcases suits.route with ⟨name, tagged, labelled⟩ | ⟨untagged, routed, alone⟩
  · rw [tagged]
    simp only [labelled]
    split
    next here => simp [here, eq_comm]
    next away => simp [away]
  · rw [untagged]
    have only : ∀ {i}, uf2FindRegion cfg block.targetAddr = some i →
        i = region ∧ uf2RegionContains cfg i block.targetAddr = true := by
      intro i found
      have lt := List.mem_range.mp (List.mem_of_find?_eq_some found)
      have matched := List.find?_some found
      rw [Bool.and_eq_true] at matched
      refine ⟨?_, matched.2⟩
      by_contra other
      have away := alone i block.targetAddr lt other matched.1 (by omega) (by omega)
      exact Bool.false_ne_true (away.symm.trans matched.2)
    constructor
    · intro found
      obtain ⟨rfl, contains⟩ := only found
      exact ⟨rfl, contains⟩
    · rintro ⟨rfl, contains⟩
      have matched : (cfg.routed r && uf2RegionContains cfg r block.targetAddr) = true := by
        rw [routed, contains]
        rfl
      rcases found : uf2FindRegion cfg block.targetAddr with _ | i
      · have none := List.find?_eq_none.mp found r (List.mem_range.mpr suits.index_lt)
        exact absurd matched none
      · rw [(only found).1]

theorem Converted.checked (total_le : numBlocksOf file ≤ maxBlocks)
    (end_lt : uf2RegionBase cfg region + uf2RegionSize cfg region < 2 ^ 32) :
    Checked cfg maxBlocks block region (256 * blockNo) := by
  have inside := converted.end_le fits
  have addr := converted.targetAddr
  rw [suits.base] at addr
  have number := converted.blockNo_lt
  have contains : uf2RegionContains cfg region block.targetAddr = true := by
    refine decide_eq_true ?_
    rw [u32_of_lt end_lt, addr]
    unfold uf2PayloadSize at inside
    omega
  constructor
  · exact converted.isUf2
  · exact converted.native suits
  · rwa [converted.blockNo_eq, converted.numBlocks]
  · rwa [converted.numBlocks]
  · rw [converted.payloadSize]
    decide
  · exact converted.payloadSize.le
  · exact (converted.route_iff suits fits).mpr ⟨rfl, contains⟩
  · unfold u32
    omega
  · rw [converted.payloadSize, u32_of_lt (by omega)]
    exact inside

end Block

/-! ### Any order -/

section Order

variable {cfg : Cfg} {conv : Conversion} {region maxBlocks : Nat} {file : Bytes} {cb : Callbacks (Nor.Flash Nat)}

def arrived (file : Bytes) (order : List Nat) (i : Nat) : Option UInt8 :=
  if i / 256 ∈ order then some ((padded file).getD i 0) else none

/-- After some blocks have arrived: the map has their numbers, and the region has their contents. -/
structure Received (cfg : Cfg) (region : Nat) (file : Bytes) (order : List Nat)
    (s : Session (Nor.Flash Nat)) : Prop where
  total : s.state.numBlocks = numBlocksOf file ∨ s.state.numBlocks = 0 ∧ order = []
  bits : ∀ n, n < numBlocksOf file → (s.state.blockMap n = true ↔ n ∈ order)
  front_le : s.state.eraseFrontier region ≤ uf2RegionSize cfg region
  aligned : cfg.eraseSize ∣ s.state.eraseFrontier region ∨ s.state.eraseFrontier region = uf2RegionSize cfg region
  filled : Nor.Filled s.dev (uf2RegionCtx cfg region) (s.state.eraseFrontier region) (arrived file order)

namespace Received

variable {order : List Nat} {s : Session (Nor.Flash Nat)}

theorem init (cfg : Cfg) (region : Nat) (memory : State) (fl : Nor.Flash Nat) (small : maxBlocks + 7 < 2 ^ 32)
    (total_le : numBlocksOf file ≤ maxBlocks) : Received cfg region file [] ⟨uf2Init memory maxBlocks, fl⟩ where
  total := .inr ⟨rfl, rfl⟩
  bits n lt := by
    have clear := Tracks.uf2Init_clear memory small (n := n)
      (Nat.lt_of_lt_of_le (Nat.lt_of_lt_of_le lt total_le) (Tracks.le_mapBits maxBlocks))
    simp [clear]
  front_le := Nat.zero_le _
  aligned := .inl (Nat.dvd_zero _)
  filled := ⟨fun i some => absurd (if_neg List.not_mem_nil) some, fun i lt => absurd lt (Nat.not_lt_zero i)⟩

variable {order : List Nat} {blockNo : Nat}

theorem arrived_append (file : Bytes) : arrived file (order ++ [blockNo]) =
      Nor.written (arrived file order) (256 * blockNo) (chunkOf file blockNo) := by
  funext i
  unfold arrived Nor.written
  rw [length_chunkOf]
  by_cases here : 256 * blockNo ≤ i ∧ i < 256 * blockNo + 256
  · have number : i / 256 = blockNo := by omega
    rw [if_pos here, if_pos (by simp [number]), chunkOf_getD file blockNo (by omega)]
    congr 2
    omega
  · have number : i / 256 ≠ blockNo := by omega
    rw [if_neg here]
    simp [number]

theorem arrived_append_seen (file : Bytes)
    (seen : blockNo ∈ order) : arrived file (order ++ [blockNo]) = arrived file order := by
  funext i
  have same : i / 256 ∈ order ++ [blockNo] ↔ i / 256 ∈ order := by
    simp only [List.mem_append, List.mem_singleton, or_iff_left_iff_imp]
    rintro rfl
    exact seen
  unfold arrived
  simp only [same]

theorem erase (takes : cfg.Takes region cb) (start : Received cfg region file order s)
    (wide : uf2RegionSize cfg region + cfg.eraseSize < 2 ^ 32) {endOffset : Nat}
    (le : endOffset ≤ uf2RegionSize cfg region) {rc : Int} {s₁ : Session (Nor.Flash Nat)}
    (erased : eraseUpTo cfg cb region endOffset s = (rc, s₁)) :
    rc = 0 ∧ Received cfg region file order s₁ ∧ endOffset ≤ s₁.state.eraseFrontier region := by
  obtain ⟨le_stop, stop_le⟩ := eraseEnd_spec wide le
  obtain ⟨rfl, after⟩ := eraseLoop_works (I := Received cfg region file order) start erased
    fun s inv more => by
      have below := more.trans_le stop_le
      have dvd := inv.aligned.resolve_right below.ne
      obtain ⟨inside, small, aligned⟩ := eraseLen_aligned dvd more
      intro len ret
      have ret_eq : ret = _ := takes.erase _ s.dev dvd below
      rw [small, ret_eq]
      refine ⟨rfl, inv.total, inv.bits, ?_, ?_, ?_⟩ <;> simp only [State.setFrontier, if_true]
      · exact inside
      · exact aligned
      · exact inv.filled.erase _
  exact ⟨rfl, after, le_stop.trans (eraseLoop_reaches wide stop_le (Nat.le_add_left _ _) erased)⟩

variable (takes : cfg.Takes region cb) (suits : conv.Suits cfg region)
  (fits : (padded file).length ≤ uf2RegionSize cfg region) (total_le : numBlocksOf file ≤ maxBlocks)
  (end_lt : uf2RegionBase cfg region + uf2RegionSize cfg region < 2 ^ 32)
  (wide : uf2RegionSize cfg region + cfg.eraseSize < 2 ^ 32)
include takes suits fits total_le end_lt wide

theorem step (start : Received cfg region file order s) {block : Block}
    (converted : Converted conv file blockNo block) : Received cfg region file (order ++ [blockNo])
      (uf2ProcessBlock cfg cb maxBlocks block s).2 := by
  have inside := converted.end_le fits
  have number := converted.blockNo_eq
  have admits : Admitted cfg maxBlocks block s region (256 * blockNo) := by
    refine ⟨(converted.checked suits fits total_le end_lt).ok suits.table_le, ?_⟩
    rw [converted.numBlocks]
    exact start.total.symm.imp_left And.left
  have expected : Received cfg region file order (s.expect block.numBlocks) :=
    ⟨.inl converted.numBlocks, start.bits, start.front_le, start.aligned, start.filled⟩
  obtain ⟨-, ⟨seen, after⟩ | ⟨fresh, s₁, ⟨after, reached, total⟩, received⟩⟩ :=
    (uf2ProcessBlock_outcome cfg cb maxBlocks block s).works admits
      (R := fun s₁ => Received cfg region file order s₁ ∧ 256 * blockNo + uf2PayloadSize ≤ s₁.state.eraseFrontier region ∧
        s₁.state.numBlocks = numBlocksOf file)
      (fun erased => by
        obtain ⟨front, state⟩ := eraseLoop_state erased
        rw [converted.payloadSize, u32_of_lt (by omega)] at erased
        obtain ⟨ok, after, reached⟩ := expected.erase takes wide inside erased
        exact ⟨ok, after, reached, by rw [state]; exact converted.numBlocks⟩)
      fun _ _ => by rw [takes.write]; rfl
  · rw [after]
    rw [number] at seen
    have seen := (start.bits blockNo converted.blockNo_lt).mp seen
    refine ⟨.inl converted.numBlocks, fun n lt => ?_, start.front_le, start.aligned, ?_⟩
    · rw [List.mem_append, List.mem_singleton]
      exact (start.bits n lt).trans ⟨.inl, fun either => either.elim id fun eq => eq ▸ seen⟩
    · rw [arrived_append_seen file seen]
      exact start.filled
  · rw [received, takes.write]
    have new : blockNo ∉ order := by
      rw [number] at fresh
      intro old
      rw [(start.bits blockNo converted.blockNo_lt).mpr old] at fresh
      exact Bool.false_ne_true fresh.symm
    refine ⟨.inl total, fun n lt => ?_, after.front_le, after.aligned, ?_⟩
    · rw [number, List.mem_append, List.mem_singleton, ← after.bits n lt]
      simp [State.receive, or_comm]
    · rw [arrived_append, converted.payloadSize]
      show Nor.Filled (s₁.dev.program _ _ (block.data.take uf2PayloadSize)) _ _ _
      rw [converted.payload]
      refine after.filled.program ?_ fun i lt => ?_
      · rw [length_chunkOf]
        exact reached
      · rw [length_chunkOf] at lt
        have chunk : (256 * blockNo + i) / 256 = blockNo := by omega
        exact if_neg (by rwa [chunk])

theorem run (start : Received cfg region file [] s) {sent : List Block}
    (converted : ∀ block ∈ sent, Converted conv file block.blockNo block) :
    Received cfg region file (sent.map Block.blockNo)
      (sent.foldl (fun s block => (uf2ProcessBlock cfg cb maxBlocks block s).2) s) := by
  induction sent using List.reverseRecOn with
  | nil => exact start
  | append_singleton sent block ih =>
    rw [List.foldl_concat, List.map_append]
    exact step takes suits fits total_le end_lt wide (ih fun b mem => converted b (List.mem_append_left _ mem))
      (converted block (by simp))

end Received

section Refused

variable (suits : conv.Suits cfg region) (fits : (padded file).length ≤ uf2RegionSize cfg region)
  (wraps : 2 ^ 32 ≤ uf2RegionBase cfg region + uf2RegionSize cfg region)
include suits fits wraps

/-- A block is refused if the end of its region wraps around. -/
theorem Converted.refused {blockNo : Nat} {block : Block}
    (converted : Converted conv file blockNo block) (s : Session (Nor.Flash Nat)) :
    (uf2ProcessBlock cfg cb maxBlocks block s).2 = s := by
  have small' := uf2RegionSize_lt cfg region
  have unfit : ∀ {r offset}, ¬Admitted cfg maxBlocks block s r offset := by
    intro r offset admitted
    obtain ⟨-, contains⟩ := (converted.route_iff suits fits).mp (uf2CheckBlock_ok admitted.check).route
    have contains := of_decide_eq_true contains
    unfold u32 at contains
    omega
  exact uf2ProcessBlock_unfit unfit

theorem ghostfatWrite_refused {order : List (Nat × Block)}
    (sent : ∀ w ∈ order, Converted conv file w.2.blockNo w.2) (s : Session (Nor.Flash Nat)) :
    ghostfatWrite cfg cb maxBlocks order s = s := by
  refine List.foldlRecOn (motive := (· = s)) order _ rfl fun s' same w mem => ?_
  subst same
  unfold ghostfatWriteSector
  split
  · rfl
  split
  · rfl
  · exact Converted.refused suits fits wraps (sent w mem) s'

end Refused

theorem ghostfatWrite_eq {order : List (Nat × Block)} (s : Session (Nor.Flash Nat))
    (sent : ∀ w ∈ order, dataStartSector ≤ w.1 ∧ w.2.isUf2 = true) :
    ghostfatWrite cfg cb maxBlocks order s = (order.map Prod.snd).foldl
      (fun s block => (uf2ProcessBlock cfg cb maxBlocks block s).2) s := by
  rw [ghostfatWrite, List.foldl_map]
  refine List.foldl_ext _ _ _ fun s w mem => ?_
  obtain ⟨data, isUf2⟩ := sent w mem
  rw [ghostfatWriteSector, if_neg (not_lt.mpr data), if_neg (by simp [isUf2])]

theorem numBlocksOf_pos (nonempty : file ≠ []) : 0 < numBlocksOf file := by
  have := List.length_pos_iff.mpr nonempty
  unfold numBlocksOf
  omega

theorem Received.complete_iff {memory : State} {fl : Nor.Flash Nat} {sent : List Block}
    (small : maxBlocks + 7 < 2 ^ 32) (nonempty : file ≠ []) (total_le : numBlocksOf file ≤ maxBlocks)
    (received : Received cfg region file (sent.map Block.blockNo)
      (uf2Run cfg cb maxBlocks sent ⟨uf2Init memory maxBlocks, fl⟩).2) :
    (uf2Run cfg cb maxBlocks sent ⟨uf2Init memory maxBlocks, fl⟩).2.state.complete = true ↔
      ∀ n, n < numBlocksOf file → n ∈ sent.map Block.blockNo := by
  have tracks := uf2Run_tracks cfg cb small memory fl sent
  have room := Tracks.le_mapBits maxBlocks
  have some := numBlocksOf_pos nonempty
  rw [tracks.complete, tracks.all_written_iff]
  rcases received.total with total | ⟨total, none⟩
  · rw [total]
    refine ⟨fun all n lt => ?_, fun all => ⟨by omega, fun n lt => ?_⟩⟩
    · exact (received.bits n lt).mp ((tracks.bits n (by omega)).mpr (all.2 n lt))
    · exact (tracks.bits n (by omega)).mp ((received.bits n lt).mpr (all n lt))
  · rw [total, none]
    refine iff_of_false (fun all => all.1 rfl) fun all => ?_
    exact absurd (all 0 some) List.not_mem_nil

theorem Received.read_eq {s : Session (Nor.Flash Nat)} {order : List Nat} (received : Received cfg region file order s)
    (all : ∀ n, n < numBlocksOf file → n ∈ order) :
    s.dev.read (uf2RegionCtx cfg region) 0 (padded file).length = padded file := by
  refine (Nor.Flash.read_eq_iff _ _ _ _).mpr fun i lt => ?_
  have here : arrived file order i = some ((padded file).getD i 0) := by
    rw [length_padded] at lt
    exact if_pos (all (i / 256) (by omega))
  have inside := received.filled.inside i (by simp [here])
  rw [Nat.zero_add, received.filled.holds i inside, here]
  rfl

/-- In whatever order blocks of the file arrive, the transfer is complete when all of them have arrived, and the region
has the file then. -/
def Transfers (cfg : Cfg) (cb : Callbacks (Nor.Flash Nat)) (region maxBlocks : Nat) (file : Bytes)
    (blocks : List Block) : Prop :=
  ∀ (memory : State) (fl : Nor.Flash Nat) (order : List (Nat × Block)),
    (∀ w ∈ order, dataStartSector ≤ w.1 ∧ w.2 ∈ blocks) →
      let s := ghostfatWrite cfg cb maxBlocks order ⟨uf2Init memory maxBlocks, fl⟩
      (s.state.complete = true ↔ ∀ block ∈ blocks, ∃ w ∈ order, w.2 = block) ∧ (s.state.complete = true →
          s.dev.read (uf2RegionCtx cfg region) 0 (padded file).length = padded file)

section Transfers

variable (suits : conv.Suits cfg region) (fits : (padded file).length ≤ uf2RegionSize cfg region) {blocks : List Block}
  (converted : convertToUf2 conv file = some blocks)
include suits fits converted

theorem Transfers.end_lt (arrives : Transfers cfg cb region maxBlocks file blocks) :
    uf2RegionBase cfg region + uf2RegionSize cfg region < 2 ^ 32 := by
  -- otherwise every block is refused, so the transfer never starts
  by_contra wraps
  let order := blocks.map (Prod.mk dataStartSector)
  have sent : ∀ w ∈ order, dataStartSector ≤ w.1 ∧ w.2 ∈ blocks := by
    intro w sent
    obtain ⟨block, mem, rfl⟩ := List.mem_map.mp sent
    exact ⟨le_rfl, mem⟩
  obtain ⟨complete, -⟩ := arrives ⟨0, 0, fun _ => 0, false, fun _ => false⟩ (fun _ _ => 0) order sent
  rw [ghostfatWrite_refused suits fits (not_lt.mp wraps) fun w mem =>
    convertToUf2_mem converted _ (sent w mem).2] at complete
  have all : ∀ block ∈ blocks, ∃ w ∈ order, w.2 = block := fun block mem =>
    ⟨(dataStartSector, block), List.mem_map_of_mem mem, rfl⟩
  exact Bool.false_ne_true (complete.mpr all)

theorem transfers (takes : cfg.Takes region cb) (wide : uf2RegionSize cfg region + cfg.eraseSize < 2 ^ 32)
    (small : maxBlocks + 7 < 2 ^ 32) (nonempty : file ≠ []) (total_le : numBlocksOf file ≤ maxBlocks)
    (end_lt : uf2RegionBase cfg region + uf2RegionSize cfg region < 2 ^ 32) :
    Transfers cfg cb region maxBlocks file blocks := by
  have made := fun block mem => convertToUf2_mem converted block mem
  intro memory fl order sent s
  have sent_made : ∀ block ∈ order.map Prod.snd, Converted conv file block.blockNo block := by
    intro block mem
    obtain ⟨w, w_mem, rfl⟩ := List.mem_map.mp mem
    exact made _ (sent w w_mem).2
  have runs : s = (uf2Run cfg cb maxBlocks (order.map Prod.snd)
      ⟨uf2Init memory maxBlocks, fl⟩).2 := by
    rw [uf2Run_session]
    exact ghostfatWrite_eq _ fun w mem =>
      ⟨(sent w mem).1, (made _ (sent w mem).2).isUf2⟩
  have received := Received.run takes suits fits total_le end_lt wide (.init cfg region memory fl small total_le) sent_made
  rw [← uf2Run_session] at received
  have complete := received.complete_iff small nonempty total_le
  rw [← runs] at received complete
  have all_iff : (∀ n, n < numBlocksOf file → n ∈ (order.map Prod.snd).map Block.blockNo) ↔
      ∀ block ∈ blocks, ∃ w ∈ order, w.2 = block := by
    simp only [List.mem_map, exists_exists_and_eq_and]
    constructor
    · intro all block mem
      obtain ⟨w, w_mem, same⟩ := all block.blockNo (made block mem).blockNo_lt
      exact ⟨w, w_mem, convertToUf2_injective converted (sent w w_mem).2 mem same⟩
    · intro all n lt
      obtain ⟨block, mem, number⟩ := convertToUf2_surjective converted lt
      obtain ⟨w, w_mem, rfl⟩ := all block mem
      exact ⟨w, w_mem, number⟩
  refine ⟨complete.trans all_iff, fun done => ?_⟩
  exact received.read_eq (complete.mp done)

end Transfers

/-- A block that is refused before anything is recorded changes nothing for a file of any number of blocks. -/
theorem Transfers.after_refused {blocks : List Block} {refused : Block} {rc : Int}
    (arrives : Transfers cfg cb region maxBlocks file blocks) (check : uf2CheckBlock cfg maxBlocks refused = .error rc)
    (memory : State) (fl : Nor.Flash Nat) {order : List (Nat × Block)}
    (sent : ∀ w ∈ order, dataStartSector ≤ w.1 ∧ w.2 ∈ blocks) :
    (ghostfatWrite cfg cb maxBlocks order (uf2ProcessBlock cfg cb maxBlocks refused
      ⟨uf2Init memory maxBlocks, fl⟩).2).state.complete = true ↔ ∀ block ∈ blocks, ∃ w ∈ order, w.2 = block := by
  rw [uf2ProcessBlock, check]
  exact (arrives memory fl order sent).1

/-- The blocks of a file reach their region in any order and with any repetitions, exactly if the end of the region is
an address. -/
theorem transfer_any_order (cfg : Cfg) (conv : Conversion) (region maxBlocks : Nat) (file : Bytes)
    (suits : conv.Suits cfg region)
    (wide : uf2RegionSize cfg region + cfg.eraseSize < 2 ^ 32) (small : maxBlocks + 7 < 2 ^ 32)
    (nonempty : file ≠ []) (fits : (padded file).length ≤ uf2RegionSize cfg region)
    (total_le : numBlocksOf file ≤ maxBlocks) {blocks : List Block}
    (converted : convertToUf2 conv file = some blocks) :
    (∀ (memory : State) (fl : Nor.Flash Nat) (order : List (Nat × Block)),
      (∀ w ∈ order, dataStartSector ≤ w.1 ∧ w.2 ∈ blocks) →
        let s := ghostfatWrite cfg flashCallbacks maxBlocks order ⟨uf2Init memory maxBlocks, fl⟩
        (s.state.complete = true ↔ ∀ block ∈ blocks, ∃ w ∈ order, w.2 = block) ∧ (s.state.complete = true →
            s.dev.read (uf2RegionCtx cfg region) 0 (padded file).length = padded file)) ↔
      uf2RegionBase cfg region + uf2RegionSize cfg region < 2 ^ 32 := by
  exact ⟨Transfers.end_lt suits fits converted,
    transfers suits fits converted ⟨rfl, fun _ _ _ _ => rfl⟩ wide small nonempty total_le⟩

end Order

theorem suits_single {cfg : Cfg} (none : cfg.regions = none) (family : cfg.familyId = 0)
    (board : cfg.boardId = []) : Conversion.Suits ⟨0, uf2RegionBase cfg 0, []⟩ cfg 0 := by
  have single : uf2NumRegions cfg = 1 := by
    simp [uf2NumRegions, Cfg.table, none]
  refine ⟨by omega, by simp [none], rfl, .inl family, .inl board, .inr ⟨rfl, ?_, ?_⟩⟩
  · simp [Cfg.routed, none]
  · omega

/-- A file of two blocks. -/
def demoFile : Bytes := List.replicate 257 42

theorem demoFile_blocks : ∃ first second, convertToUf2 ⟨0, 4096, []⟩ demoFile = some [first, second] := by
  have two : (convertToUf2 ⟨0, 4096, []⟩ demoFile).map List.length = some 2 := by decide +kernel
  obtain ⟨blocks, converted, length⟩ := Option.map_eq_some_iff.mp two
  obtain ⟨first, second, rfl⟩ := List.length_eq_two.mp length
  exact ⟨first, second, converted⟩

theorem transfer_any_order_demo : ∃ first second, convertToUf2 ⟨0, 4096, []⟩ demoFile = some [first, second] ∧
      let s := ghostfatWrite demoCfg flashCallbacks 16 [(200, second), (200, second), (200, first)]
        ⟨uf2Init staleMemory 16, fun _ _ => 0⟩
      s.state.complete = true ∧ s.dev.read 0 0 (padded demoFile).length = padded demoFile := by
  obtain ⟨first, second, converted⟩ := demoFile_blocks
  obtain ⟨complete, holds⟩ := (transfer_any_order demoCfg _ 0 16 demoFile (suits_single rfl rfl rfl)
    (by decide) (by decide) (by decide +kernel) (by decide +kernel) (by decide +kernel) converted).mpr
    (by decide) staleMemory (fun _ _ => 0) [(200, second), (200, second), (200, first)]
    (by simp [show dataStartSector ≤ 200 by decide])
  have all := complete.mpr (by simp)
  exact ⟨first, second, converted, all, holds all⟩

def topCfg : Cfg :=
  { demoCfg with
    flashBase := 2 ^ 32 - 2 ^ 8
    flashSize := 2 ^ 8
    flashBase_lt := by decide
    flashSize_lt := by decide }

/-- The end of the region wraps around to zero, so no address seems to be inside. -/
theorem last_address_unreachable : ∃ block, convertToUf2 ⟨0, uf2RegionBase topCfg 0, []⟩ [42] = some [block] ∧
      (ghostfatWriteSector topCfg flashCallbacks 16 200 block ⟨uf2Init staleMemory 16, fun _ _ => 0xff⟩).1 = -1 ∧
      (ghostfatWriteSector topCfg flashCallbacks 16 200 block
        ⟨uf2Init staleMemory 16, fun _ _ => 0xff⟩).2.state.complete = false := by
  refine ⟨_, rfl, ?_⟩
  decide +kernel

/-! ### Pages -/

section Pages

variable {cfg : Cfg} {region maxBlocks : Nat}

theorem takes_paged {page : Nat} (base : page ∣ uf2RegionBase cfg region) (whole : page ∣ uf2RegionSize cfg region)
    (pages : cfg.Pages region page) : cfg.Takes region (pagedCallbacks (uf2RegionBase cfg region) page) where
  write := rfl
  erase off fl dvd below := by
    obtain ⟨off_dvd, len_dvd⟩ := eraseLen_whole whole pages dvd below
    exact if_pos ⟨Nat.dvd_add base off_dvd, len_dvd⟩

/-- A device that can not erase is asked for the first step of the region. -/
theorem first_erase {block : Block} {offset : Nat} (small : maxBlocks + 7 < 2 ^ 32) (memory : State)
    (check : uf2CheckBlock cfg maxBlocks block = .ok (region, offset))
    (some : 0 < eraseEnd cfg region (u32 (offset + block.payloadSize))) (fl : Nor.Flash Nat) :
    (uf2ProcessBlock cfg (Callbacks.logged ⟨flashCallbacks.write, fun _ _ _ fl => (-eInval, fl)⟩) maxBlocks block
      ⟨uf2Init memory maxBlocks, (fl, [])⟩).2.dev.2 =
      [.erase (uf2RegionCtx cfg region) 0 (eraseLen cfg region 0) (-eInval)] := by
  have checked := uf2CheckBlock_ok check
  have fresh := Tracks.uf2Init_clear memory small
    ((checked.blockNo_lt.trans_le checked.numBlocks_le).trans_le (Tracks.le_mapBits maxBlocks))
  obtain ⟨n, stop⟩ := Nat.exists_eq_succ_of_ne_zero some.ne'
  have total : (uf2Init memory maxBlocks).numBlocks = 0 := rfl
  have front : (uf2Init memory maxBlocks).eraseFrontier region = 0 := rfl
  simp [uf2ProcessBlock, check, Session.expect, total, fresh, eraseUpTo, stop, eraseLoop, front, Callbacks.logged, eInval]

end Pages

/-- Every erase is of whole pages and every file can be transferred to a region of a device with these pages, exactly if
the end of the region is an address and the steps of 4096 bytes are whole pages or the region is not longer than one. -/
theorem whole_pages_iff (cfg : Cfg) (disk : cfg.eraseSize = 4096) (conv : Conversion)
    (region maxBlocks page : Nat) (file : Bytes) (suits : conv.Suits cfg region)
    (base : page ∣ uf2RegionBase cfg region) (whole : page ∣ uf2RegionSize cfg region)
    (wide : uf2RegionSize cfg region + 4096 < 2 ^ 32) (small : maxBlocks + 7 < 2 ^ 32) (nonempty : file ≠ [])
    (fits : (padded file).length ≤ uf2RegionSize cfg region) (total_le : numBlocksOf file ≤ maxBlocks)
    {blocks : List Block} (converted : convertToUf2 conv file = some blocks) :
    ((∀ (cb : Callbacks (Nor.Flash Nat)) (memory : State) (fl : Nor.Flash Nat) (sent : List Block),
        (∀ block ∈ sent, cfg.LeadsTo maxBlocks region block) →
        ∀ e ∈ (uf2Run cfg cb maxBlocks sent ⟨uf2Init memory maxBlocks, fl⟩).1, e.WholePages page) ∧
      Transfers cfg (pagedCallbacks (uf2RegionBase cfg region) page) region maxBlocks file blocks) ↔
      uf2RegionBase cfg region + uf2RegionSize cfg region < 2 ^ 32 ∧
        (page ∣ 4096 ∨ uf2RegionSize cfg region ≤ 4096) := by
  rw [← disk] at wide ⊢
  constructor
  · rintro ⟨erases, arrives⟩
    have end_lt := arrives.end_lt suits fits converted
    refine ⟨end_lt, ?_⟩
    obtain ⟨block, mem, -⟩ := convertToUf2_surjective converted (numBlocksOf_pos nonempty)
    have made := convertToUf2_mem converted block mem
    have inside := made.end_le fits
    have checked := made.checked suits fits total_le end_lt
    have check := checked.ok suits.table_le
    have reached := (eraseEnd_spec wide checked.end_le).1
    rw [made.payloadSize, u32_of_lt (by omega)] at reached
    have call := first_erase small ⟨0, 0, fun _ => 0, false, fun _ => false⟩ check
      (by rw [made.payloadSize, u32_of_lt (by omega)]; unfold uf2PayloadSize at reached ⊢; omega) fun _ _ => 0
    have len_dvd := (erases _ _ _ [block] (by simp [Cfg.LeadsTo, check]) _
      (List.mem_singleton_self _) _ _ _ _ (call ▸ List.mem_singleton_self _)).2
    unfold eraseLen at len_dvd
    rw [u32_of_lt (by omega)] at len_dvd
    split at len_dvd
    · exact .inr (by omega)
    · exact .inl len_dvd
  · rintro ⟨end_lt, pages⟩
    exact ⟨fun cb memory fl sent leads => uf2Run_wholePages whole pages leads memory fl,
      transfers suits fits converted (takes_paged base whole pages) wide small nonempty total_le end_lt⟩

theorem whole_pages_demo : ∃ first second, convertToUf2 ⟨0, 4096, []⟩ demoFile = some [first, second] ∧
    Transfers demoCfg (pagedCallbacks 4096 2048) 0 16 demoFile [first, second] := by
  obtain ⟨first, second, converted⟩ := demoFile_blocks
  exact ⟨first, second, converted, ((whole_pages_iff demoCfg rfl _ 0 16 2048 demoFile (suits_single rfl rfl rfl) (by decide)
    (by decide) (by decide) (by decide) (by decide +kernel) (by decide +kernel) (by decide +kernel) converted).mpr
    ⟨by decide, .inl (by decide)⟩).2⟩

/-- An area of one page of 8192 bytes. -/
def pageArea : DiskArea := ⟨some 0, 8192, 8192, 1, demoCfg.flashSize_lt, demoCfg.flashSize_lt, hugeArea.writeBlockSize_pow⟩

/-- Half of the page is to be erased, so nothing can be transferred. -/
theorem half_page_refused :
    let cfg := (slotDisk pageArea).cfg 0 []
    ∃ block, convertToUf2 ⟨0, uf2RegionBase cfg 0, []⟩ [42] = some [block] ∧
      let ret := uf2ProcessBlock cfg (pagedCallbacks (uf2RegionBase cfg 0) 8192).logged 16 block
        ⟨uf2Init staleMemory 16, (fun _ _ => 0, [])⟩
      ret.1 = -eInval ∧ ret.2.dev.2 = [.erase 0 0 4096 (-eInval)] ∧ ret.2.state.complete = false := by
  refine ⟨_, rfl, ?_⟩
  decide +kernel

end Adaboot.Uf2
