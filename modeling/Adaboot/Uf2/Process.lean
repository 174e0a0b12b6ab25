import Adaboot.Uf2.Block

/-!
# Processing UF2 blocks

`boot_uf2.c`. A block is checked, routed to a region, and written there once, with the region erased as far as it
reaches. The callbacks are functions on any device and may fail.
-/

namespace Adaboot.Uf2

def uf2MaxRegions : Nat := 4

/-- `struct uf2_region`. -/
structure Region where
  base : Nat
  size : Nat
  ctx : Nat
  label : Option Bytes
  addressRouted : Bool
  base_lt : base < 2 ^ 32
  size_lt : size < 2 ^ 32

/-- `struct uf2_cfg` as far as blocks are concerned, with erase blocks of a power of two. -/
structure Cfg where
  cbCtx : Nat
  flashBase : Nat
  flashSize : Nat
  /-- The pointer to the region table, and how many entries count. -/
  regions : Option (Nat → Region)
  numRegions : Nat
  familyId : Nat
  /-- Empty if there is none. -/
  boardId : Bytes
  eraseSize : Nat
  flashBase_lt : flashBase < 2 ^ 32
  flashSize_lt : flashSize < 2 ^ 32
  eraseSize_pow : ∃ k, k < 32 ∧ eraseSize = 2 ^ k

theorem Cfg.zero_lt : 0 < 2 ^ 32 := by decide

theorem Cfg.sector_pow : ∃ k, k < 32 ∧ 4096 = 2 ^ k := ⟨12, by decide⟩

/-- `struct uf2_state`. The block map is addressed by bits. -/
structure State where
  numBlocks : Nat
  blocksReceived : Nat
  eraseFrontier : Nat → Nat
  complete : Bool
  blockMap : Nat → Bool

/-- `uf2_flash_write_cb` and `uf2_flash_erase_cb` on a device `δ`. The data of a write is what the pointer reaches. -/
structure Callbacks (δ : Type) where
  write : (ctx offset : Nat) → (data : Bytes) → (len : Nat) → δ → Int × δ
  erase : (ctx offset len : Nat) → δ → Int × δ

/-- The bytes of `struct uf2_state` between the start of the block map and the end of the struct. -/
def statePadding : Nat := 3

/-- `uf2_init`, on memory that held something before. -/
def uf2Init (memory : State) (maxBlocks : Nat) : State where
  numBlocks := 0
  blocksReceived := 0
  eraseFrontier := fun _ => 0
  complete := false
  blockMap := fun n => if n / 8 < statePadding + u32 (maxBlocks + 7) / 8 then false else memory.blockMap n

/-! ### Regions -/

section Regions

variable (cfg : Cfg)

def Cfg.table : Option (Nat → Region) := if cfg.numRegions > 0 then cfg.regions else none

def uf2NumRegions : Nat := if cfg.table.isSome then cfg.numRegions else 1

def uf2RegionBase (idx : Nat) : Nat := match cfg.table with
  | some table => (table idx).base
  | none => cfg.flashBase

def uf2RegionSize (idx : Nat) : Nat := match cfg.table with
  | some table => (table idx).size
  | none => cfg.flashSize

theorem uf2RegionSize_lt (idx : Nat) : uf2RegionSize cfg idx < 2 ^ 32 := by
  unfold uf2RegionSize
  split
  · exact Region.size_lt _
  · exact cfg.flashSize_lt

def uf2RegionCtx (idx : Nat) : Nat := match cfg.table with
  | some table => (table idx).ctx
  | none => cfg.cbCtx

def Cfg.routed (idx : Nat) : Bool := cfg.regions.all fun table => (table idx).addressRouted

def Cfg.label (idx : Nat) : Option Bytes := cfg.regions.bind fun table => (table idx).label

/-- The test of an address against the bounds of a region, in `uint32_t`. -/
def uf2RegionContains (idx addr : Nat) : Bool :=
  addr ≥ uf2RegionBase cfg idx ∧ addr < u32 (uf2RegionBase cfg idx + uf2RegionSize cfg idx)

def uf2FindRegion (addr : Nat) : Option Nat :=
  (List.range (uf2NumRegions cfg)).find? fun i => cfg.routed i && uf2RegionContains cfg i addr

def uf2FindRegionByLabel (label : Bytes) : Option Nat :=
  (List.range (uf2NumRegions cfg)).find? fun i => cfg.label i = some label

def uf2RouteBlock (block : Block) : Option Nat :=
  match uf2FindExtTag block uf2ExtTagPartition with
  | .malformed => none
  | .found partName =>
    match uf2FindRegionByLabel cfg partName with
    | none => none
    | some region => if uf2RegionContains cfg region block.targetAddr then some region else none
  | .absent => uf2FindRegion cfg block.targetAddr

end Regions

/-! ### Blocks -/

/-- The state of the transfer and of the device behind the callbacks. -/
structure Session (δ : Type) where
  state : State
  dev : δ

section Blocks

variable {δ : Type} (cfg : Cfg) (cb : Callbacks δ)

def State.setFrontier (state : State) (region frontier : Nat) : State :=
  { state with eraseFrontier := fun r => if r = region then frontier else state.eraseFrontier r }

def eraseLen (region frontier : Nat) : Nat :=
  if u32 (frontier + cfg.eraseSize) > uf2RegionSize cfg region then
    uf2RegionSize cfg region - frontier
  else cfg.eraseSize

/-- The loop of `erase_up_to`. Every round moves the frontier on, so there are at most `eraseEnd` of
them. -/
def eraseLoop (region eraseEnd : Nat) : Nat → Session δ → Int × Session δ
  | 0, s => (0, s)
  | fuel + 1, s =>
    let frontier := s.state.eraseFrontier region
    if frontier < eraseEnd then
      let len := eraseLen cfg region frontier
      let ret := cb.erase (uf2RegionCtx cfg region) frontier len s.dev
      if ret.1 ≠ 0 then (ret.1, { s with dev := ret.2 })
      else eraseLoop region eraseEnd fuel ⟨s.state.setFrontier region (u32 (frontier + len)), ret.2⟩
    else (0, s)

/-- Where `erase_up_to` stops. -/
def eraseEnd (region endOffset : Nat) : Nat :=
  let rounded := u32 ((endOffset / cfg.eraseSize + 1) * cfg.eraseSize)
  if rounded > uf2RegionSize cfg region then uf2RegionSize cfg region else rounded

def eraseUpTo (region endOffset : Nat) (s : Session δ) : Int × Session δ :=
  let stop := eraseEnd cfg region endOffset
  eraseLoop cfg cb region stop stop s

def foreign (block : Block) : Bool :=
  (cfg.familyId ≠ 0 ∧ ¬(block.hasFlag uf2FlagFamilyId ∧ block.familyId = cfg.familyId)) ∨
    (cfg.boardId ≠ [] ∧ uf2FindExtTag block uf2ExtTagBoardId ≠ .found cfg.boardId)

/-- `uf2_process_block` before it looks at the state: the region and the offset, or the code that is returned. -/
def uf2CheckBlock (maxBlocks : Nat) (block : Block) : Except Int (Nat × Nat) :=
  if ¬block.isUf2 then .error (-1)
  else if cfg.regions.isSome ∧ cfg.numRegions > uf2MaxRegions then .error (-1)
  else if foreign cfg block then .error 0
  else if block.numBlocks = 0 ∨ block.blockNo ≥ block.numBlocks then .error (-1)
  else if block.numBlocks > maxBlocks then .error (-1)
  else if block.payloadSize > uf2PayloadSize ∨ block.payloadSize = 0 then .error (-1)
  else match uf2RouteBlock cfg block with
    | none => .error (-1)
    | some region =>
      let offset := u32 (block.targetAddr + 2 ^ 32 - uf2RegionBase cfg region)
      if u32 (offset + block.payloadSize) > uf2RegionSize cfg region then .error (-1)
      else .ok (region, offset)

def State.receive (state : State) (blockNo : Nat) : State :=
  let received := u32 (state.blocksReceived + 1)
  { state with
    blockMap := fun n => n = blockNo ∨ state.blockMap n
    blocksReceived := received
    complete := state.complete || decide (received ≥ state.numBlocks) }

/-- The first block sets the total that the others must have. -/
def Session.expect (s : Session δ) (numBlocks : Nat) : Session δ := { s with state := { s.state with numBlocks } }

def uf2ProcessBlock (maxBlocks : Nat) (block : Block) (s : Session δ) : Int × Session δ :=
  match uf2CheckBlock cfg maxBlocks block with
  | .error rc => (rc, s)
  | .ok (region, offset) =>
    if s.state.numBlocks ≠ 0 ∧ s.state.numBlocks ≠ block.numBlocks then (-1, s)
    else
      let s := s.expect block.numBlocks
      if s.state.blockMap block.blockNo then (0, s)
      else
        let ret := eraseUpTo cfg cb region (u32 (offset + block.payloadSize)) s
        if ret.1 ≠ 0 then ret
        else
          let s := ret.2
          let ret := cb.write (uf2RegionCtx cfg region) offset block.data block.payloadSize s.dev
          if ret.1 ≠ 0 then (ret.1, { s with dev := ret.2 })
          else (0, ⟨s.state.receive block.blockNo, ret.2⟩)

end Blocks

/-! ### What a call can do -/

section Outcomes

variable {δ : Type} {cfg : Cfg} {cb : Callbacks δ} {maxBlocks : Nat} {block : Block}

/-- The block passes the checks and has the total of the blocks before it. -/
structure Admitted (cfg : Cfg) (maxBlocks : Nat) (block : Block) (s : Session δ) (region offset : Nat) : Prop where
  check : uf2CheckBlock cfg maxBlocks block = .ok (region, offset)
  total : s.state.numBlocks = 0 ∨ s.state.numBlocks = block.numBlocks

/-- The ways through `uf2_process_block`. -/
inductive Outcome (cfg : Cfg) (cb : Callbacks δ) (maxBlocks : Nat) (block : Block) (s : Session δ) :
    Int → Session δ → Prop where
  | ignored (rc : Int) (unfit : ∀ region offset, ¬Admitted cfg maxBlocks block s region offset) :
      Outcome cfg cb maxBlocks block s rc s
  | duplicate {region offset : Nat}
      (admitted : Admitted cfg maxBlocks block s region offset)
      (seen : s.state.blockMap block.blockNo = true) :
      Outcome cfg cb maxBlocks block s 0 (s.expect block.numBlocks)
  | eraseFailed {region offset : Nat} {rc : Int} {s₁ : Session δ}
      (admitted : Admitted cfg maxBlocks block s region offset)
      (erased : eraseUpTo cfg cb region (u32 (offset + block.payloadSize)) (s.expect block.numBlocks) = (rc, s₁))
      (fails : rc ≠ 0) (fresh : s.state.blockMap block.blockNo = false) :
      Outcome cfg cb maxBlocks block s rc s₁
  | writeFailed {region offset : Nat} {rc : Int} {s₁ : Session δ} {dev : δ}
      (admitted : Admitted cfg maxBlocks block s region offset)
      (erased : eraseUpTo cfg cb region (u32 (offset + block.payloadSize)) (s.expect block.numBlocks) = (0, s₁))
      (wrote : cb.write (uf2RegionCtx cfg region) offset block.data block.payloadSize s₁.dev = (rc, dev))
      (fails : rc ≠ 0) (fresh : s.state.blockMap block.blockNo = false) :
      Outcome cfg cb maxBlocks block s rc { s₁ with dev }
  | received {region offset : Nat} {s₁ : Session δ} {dev : δ}
      (admitted : Admitted cfg maxBlocks block s region offset)
      (fresh : s.state.blockMap block.blockNo = false)
      (erased : eraseUpTo cfg cb region (u32 (offset + block.payloadSize)) (s.expect block.numBlocks) = (0, s₁))
      (wrote : cb.write (uf2RegionCtx cfg region) offset block.data block.payloadSize s₁.dev = (0, dev)) :
      Outcome cfg cb maxBlocks block s 0 ⟨s₁.state.receive block.blockNo, dev⟩

theorem uf2ProcessBlock_outcome (cfg : Cfg) (cb : Callbacks δ) (maxBlocks : Nat) (block : Block)
    (s : Session δ) : Outcome cfg cb maxBlocks block s (uf2ProcessBlock cfg cb maxBlocks block s).1
      (uf2ProcessBlock cfg cb maxBlocks block s).2 := by
  unfold uf2ProcessBlock
  split
  next rc check =>
    refine .ignored _ fun region offset admitted => ?_
    rw [admitted.check] at check
    simp at check
  next region offset check =>
    split
    next other =>
      refine .ignored _ fun region offset admitted => ?_
      rcases admitted.total with total | total
      · exact other.1 total
      · exact other.2 total
    next total =>
      have admitted : Admitted cfg maxBlocks block s region offset := ⟨check, by omega⟩
      simp only
      split
      next seen => exact .duplicate admitted seen
      next fresh =>
        have fresh := Bool.eq_false_iff.mpr fresh
        rcases erased : eraseUpTo cfg cb region (u32 (offset + block.payloadSize))
          (s.expect block.numBlocks) with ⟨rc, s₁⟩
        split
        next fails => exact .eraseFailed admitted erased fails fresh
        next ok =>
          obtain rfl : rc = 0 := Decidable.not_not.mp ok
          split
          next fails => exact .writeFailed admitted erased rfl fails fresh
          next ok =>
            exact .received admitted fresh erased (Prod.ext (Decidable.not_not.mp ok) rfl)

/-- An admitted block is known already or received if its region can be erased and written. -/
theorem Outcome.works {s s' : Session δ} {rc : Int} (outcome : Outcome cfg cb maxBlocks block s rc s')
    {region offset : Nat} (admits : Admitted cfg maxBlocks block s region offset) {R : Session δ → Prop}
    (erases : ∀ {rc s₁}, eraseUpTo cfg cb region (u32 (offset + block.payloadSize)) (s.expect block.numBlocks) =
      (rc, s₁) → rc = 0 ∧ R s₁)
    (writes : ∀ s₁, R s₁ →
      (cb.write (uf2RegionCtx cfg region) offset block.data block.payloadSize s₁.dev).1 = 0) :
    rc = 0 ∧ (s.state.blockMap block.blockNo = true ∧ s' = s.expect block.numBlocks ∨
      s.state.blockMap block.blockNo = false ∧ ∃ s₁, R s₁ ∧ s' = ⟨s₁.state.receive block.blockNo,
        (cb.write (uf2RegionCtx cfg region) offset block.data block.payloadSize s₁.dev).2⟩) := by
  have same : ∀ {r offset'}, Admitted cfg maxBlocks block s r offset' → region = r ∧ offset = offset' :=
    fun admitted => Prod.mk.inj (Except.ok.inj (admits.check.symm.trans admitted.check))
  cases outcome with
  | ignored _ unfit => exact absurd admits (unfit region offset)
  | duplicate _ seen => exact ⟨rfl, .inl ⟨seen, rfl⟩⟩
  | eraseFailed admitted erased fails =>
    obtain ⟨rfl, rfl⟩ := same admitted
    exact absurd (erases erased).1 fails
  | @writeFailed _ _ _ s₁ _ admitted erased wrote fails =>
    obtain ⟨rfl, rfl⟩ := same admitted
    have ok := writes s₁ (erases erased).2
    rw [wrote] at ok
    exact absurd ok fails
  | @received _ _ s₁ _ admitted fresh erased wrote =>
    obtain ⟨rfl, rfl⟩ := same admitted
    exact ⟨rfl, .inr ⟨fresh, s₁, (erases erased).2, by rw [wrote]⟩⟩

theorem uf2ProcessBlock_unfit {s : Session δ}
    (unfit : ∀ {region offset}, ¬Admitted cfg maxBlocks block s region offset) :
    (uf2ProcessBlock cfg cb maxBlocks block s).2 = s := by
  have outcome := uf2ProcessBlock_outcome cfg cb maxBlocks block s
  generalize (uf2ProcessBlock cfg cb maxBlocks block s).1 = rc,
    (uf2ProcessBlock cfg cb maxBlocks block s).2 = s' at outcome ⊢
  cases outcome with
  | ignored => rfl
  | duplicate admitted => exact absurd admitted unfit
  | eraseFailed admitted => exact absurd admitted unfit
  | writeFailed admitted => exact absurd admitted unfit
  | received admitted => exact absurd admitted unfit

/-- What the checks of a block guarantee. -/
structure Checked (cfg : Cfg) (maxBlocks : Nat) (block : Block) (region offset : Nat) : Prop where
  isUf2 : block.isUf2 = true
  native : foreign cfg block = false
  blockNo_lt : block.blockNo < block.numBlocks
  numBlocks_le : block.numBlocks ≤ maxBlocks
  payload_pos : 0 < block.payloadSize
  payload_le : block.payloadSize ≤ uf2PayloadSize
  route : uf2RouteBlock cfg block = some region
  offset_eq : offset = u32 (block.targetAddr + 2 ^ 32 - uf2RegionBase cfg region)
  end_le : u32 (offset + block.payloadSize) ≤ uf2RegionSize cfg region

variable {region offset : Nat}

theorem uf2CheckBlock_ok (check : uf2CheckBlock cfg maxBlocks block = .ok (region, offset)) :
    Checked cfg maxBlocks block region offset := by
  unfold uf2CheckBlock at check
  split at check
  · simp at check
  next isUf2 =>
  split at check
  · simp at check
  split at check
  · simp at check
  next native =>
  split at check
  · simp at check
  next numbers =>
  split at check
  · simp at check
  next total =>
  split at check
  · simp at check
  next size =>
  split at check
  · simp at check
  next region' route =>
  simp only at check
  split at check
  · simp at check
  next inside =>
  cases check
  exact ⟨by simpa using isUf2, by simpa using native, by omega, by omega, by omega, by omega, route, rfl, by omega⟩

theorem uf2ProcessBlock_foreign (other : foreign cfg block = true) (s : Session δ) :
    (uf2ProcessBlock cfg cb maxBlocks block s).2 = s := by
  have unfit : ∀ {region offset}, ¬Admitted cfg maxBlocks block s region offset := by
    intro region offset admitted
    have native := (uf2CheckBlock_ok admitted.check).native
    exact Bool.false_ne_true (native.symm.trans other)
  exact uf2ProcessBlock_unfit unfit

theorem Checked.ok (checked : Checked cfg maxBlocks block region offset)
    (table : cfg.regions.isSome = true → cfg.numRegions ≤ uf2MaxRegions) :
    uf2CheckBlock cfg maxBlocks block = .ok (region, offset) := by
  have no_lt := checked.blockNo_lt
  have total := checked.numBlocks_le
  have pos := checked.payload_pos
  have size := checked.payload_le
  have inside := checked.end_le
  rw [checked.offset_eq] at inside ⊢
  unfold uf2CheckBlock
  rw [if_neg (by simp [checked.isUf2]), if_neg (fun h => by have := table h.1; omega),
    if_neg (by simp [checked.native]), if_neg (by omega), if_neg (by omega), if_neg (by omega),
    checked.route]
  exact if_neg (by omega)

theorem uf2RouteBlock_some (route : uf2RouteBlock cfg block = some region) :
    region < uf2NumRegions cfg ∧ uf2RegionContains cfg region block.targetAddr = true ∧
      ((∃ name, uf2FindExtTag block uf2ExtTagPartition = .found name ∧ cfg.label region = some name) ∨
        uf2FindExtTag block uf2ExtTagPartition = .absent ∧ cfg.routed region = true) := by
  unfold uf2RouteBlock at route
  split at route
  · simp at route
  next name found =>
    split at route
    · simp at route
    next i named =>
    split at route
    next contains =>
      cases route
      have inside := List.mem_range.mp (List.mem_of_find?_eq_some named)
      have label := List.find?_some named
      exact ⟨inside, contains, .inl ⟨name, found, by simpa using label⟩⟩
    next => simp at route
  next absent =>
    have inside := List.mem_range.mp (List.mem_of_find?_eq_some route)
    have here := List.find?_some route
    rw [Bool.and_eq_true] at here
    exact ⟨inside, here.2, .inr ⟨absent, here.1⟩⟩

theorem Checked.located (checked : Checked cfg maxBlocks block region offset) :
    region < uf2NumRegions cfg ∧ block.targetAddr = uf2RegionBase cfg region + offset ∧
      offset < uf2RegionSize cfg region := by
  obtain ⟨lt, contains, -⟩ := uf2RouteBlock_some checked.route
  have offset_eq := checked.offset_eq
  have contains := of_decide_eq_true contains
  unfold u32 at contains offset_eq
  refine ⟨lt, ?_, ?_⟩ <;> omega

end Outcomes

end Adaboot.Uf2
