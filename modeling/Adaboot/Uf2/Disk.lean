import Adaboot.Uf2.Session

/-!
# The UF2 disk

`uf2_disk.c` puts flash areas into the region table. The areas of the device of region 0 are found by addresses and
must not overlap; others are found by name only.
-/

namespace Adaboot.Uf2

def eNoSpc : Int := 28
def eInval : Int := 22

/-- What `flash_area_open` returns, and the `write_block_size` that the parameters of its device give,
or 1. -/
structure DiskArea where
  device : Option Nat
  faOff : Nat
  faSize : Nat
  writeBlockSize : Nat
  faOff_lt : faOff < 2 ^ 32
  faSize_lt : faSize < 2 ^ 32
  writeBlockSize_pow : ∃ k, k < 32 ∧ writeBlockSize = 2 ^ k

abbrev FlashMap : Type := Nat → Except Int DiskArea

/-! ### Callbacks -/

section Callbacks

variable (map : FlashMap)

/-- The length `uf2_flash_write` writes. -/
def alignedLen (area : DiskArea) (offset len : Nat) : Nat :=
  if area.writeBlockSize > 1 then
    let aligned := u32 (len + (area.writeBlockSize - 1)) / area.writeBlockSize * area.writeBlockSize
    if u32 (offset + aligned) > area.faSize then len else aligned
  else len

/-- `uf2_flash_write` and `uf2_flash_erase`, on flash that works, addressed by device and offset. -/
def diskCallbacks : Callbacks (Nor.Flash (Option Nat)) where
  write ctx offset data len fl :=
    match map ctx with
    | .error rc => (rc, fl)
    | .ok area =>
      let len := alignedLen area offset len
      if offset + len ≤ area.faSize then
        (0, fl.program area.device (area.faOff + offset) (data.take len))
      else (-eInval, fl)
  erase ctx offset len fl :=
    match map ctx with
    | .error rc => (rc, fl)
    | .ok area =>
      if offset + len ≤ area.faSize then (0, fl.erase area.device (area.faOff + offset) len)
      else (-eInval, fl)

end Callbacks

/-! ### The region table -/

/-- `uf2_regions`, `num_disk_regions` and `primary_flash_dev`. -/
structure Disk where
  regions : Nat → Region
  numDiskRegions : Nat
  primaryFlashDev : Option Nat

/-- Before anything was added, on memory that held something before. -/
def Disk.empty (regions : Nat → Region) (primaryFlashDev : Option Nat) : Disk := ⟨regions, 0, primaryFlashDev⟩

def overlaps (base size : Nat) (r : Region) : Bool := base < u32 (r.base + r.size) ∧ r.base < u32 (base + size)

def uf2DiskAddRegion (map : FlashMap) (areaId : Nat) (label : Bytes) (d : Disk) : Int × Disk :=
  if d.numDiskRegions ≥ uf2MaxRegions then (-eNoSpc, d)
  else match map areaId with
    | .error rc => (rc, d)
    | .ok area =>
      let primary := if d.numDiskRegions = 0 then area.device else d.primaryFlashDev
      let addressRouted : Bool := d.numDiskRegions = 0 ∨ primary ≠ none ∧ area.device = primary
      if (List.range d.numDiskRegions).any fun i =>
          addressRouted && (d.regions i).addressRouted && overlaps area.faOff area.faSize (d.regions i)
      then (-eInval, { d with primaryFlashDev := primary })
      else
        (0, { regions := fun i => if i = d.numDiskRegions then
                  ⟨area.faOff, area.faSize, areaId, some label, addressRouted, area.faOff_lt, area.faSize_lt⟩
                else d.regions i
              numDiskRegions := d.numDiskRegions + 1
              primaryFlashDev := primary })

def uf2DiskAddRegions (map : FlashMap) (added : List (Nat × Bytes)) (d : Disk) : Disk :=
  added.foldl (fun d area => (uf2DiskAddRegion map area.1 area.2 d).2) d

/-- What the table says about the areas behind it. -/
structure Disk.Built (map : FlashMap) (d : Disk) : Prop where
  count_le : d.numDiskRegions ≤ uf2MaxRegions
  /-- Every entry is an open area, and only areas of the device of region 0 are found by address. -/
  entry : ∀ i, i < d.numDiskRegions → ∃ area, map (d.regions i).ctx = .ok area ∧
    (d.regions i).base = area.faOff ∧ (d.regions i).size = area.faSize ∧
    ((d.regions i).addressRouted = true → area.device = d.primaryFlashDev)
  apart : ∀ i j, i < j → j < d.numDiskRegions → (d.regions i).addressRouted = true →
    (d.regions j).addressRouted = true → overlaps (d.regions j).base (d.regions j).size (d.regions i) = false
  /-- Region 0 is on the primary device. -/
  primary : 0 < d.numDiskRegions → ∃ area, map (d.regions 0).ctx = .ok area ∧ area.device = d.primaryFlashDev

namespace Disk.Built

variable {map : FlashMap} {d : Disk}

theorem empty (map : FlashMap) (regions : Nat → Region) (primaryFlashDev : Option Nat) :
    (Disk.empty regions primaryFlashDev).Built map where
  count_le := Nat.zero_le _
  entry i lt := absurd lt (Nat.not_lt_zero i)
  apart _ j _ lt := absurd lt (Nat.not_lt_zero j)
  primary lt := absurd lt (Nat.lt_irrefl 0)

theorem add (built : d.Built map) (areaId : Nat) (label : Bytes) :
    (uf2DiskAddRegion map areaId label d).2.Built map := by
  unfold uf2DiskAddRegion
  split
  · exact built
  next room =>
  split
  · exact built
  next area opened =>
  simp only
  generalize primary_eq : (if d.numDiskRegions = 0 then area.device else d.primaryFlashDev) = primary
  have kept : 0 < d.numDiskRegions → primary = d.primaryFlashDev := by
    intro some
    rw [← primary_eq, if_neg (by omega)]
  split
  next =>
    refine ⟨built.count_le, fun i lt => ?_, built.apart, fun some => ?_⟩
    · rw [kept (Nat.zero_lt_of_lt lt)]
      exact built.entry i lt
    · rw [kept some]
      exact built.primary some
  next clear =>
    simp only [List.any_eq_true, List.mem_range, not_exists, not_and, Bool.and_eq_true, Bool.not_eq_true] at clear
    refine ⟨not_le.mp room, fun i lt => ?_, fun i j before lt => ?_, fun _ => ?_⟩
    · by_cases last : i = d.numDiskRegions
      · subst last
        simp only [if_true]
        refine ⟨area, opened, rfl, rfl, fun routed => ?_⟩
        rcases of_decide_eq_true routed with first | ⟨-, same⟩
        · rw [← primary_eq, if_pos first]
        · exact same
      · simp only [if_neg last]
        have lt : i < d.numDiskRegions := by
          have : i < d.numDiskRegions + 1 := lt
          omega
        rw [kept (by omega)]
        exact built.entry i lt
    · have lt : j < d.numDiskRegions + 1 := lt
      have i_old : i ≠ d.numDiskRegions := by omega
      by_cases last : j = d.numDiskRegions
      · subst last
        simp only [if_true, if_neg i_old]
        intro routed_i routed_j
        exact clear i before ⟨routed_j, routed_i⟩
      · simp only [if_neg last, if_neg i_old]
        exact built.apart i j before (by omega)
    · by_cases first : d.numDiskRegions = 0
      · simp only [first, if_true]
        refine ⟨area, opened, ?_⟩
        rw [← primary_eq, if_pos first]
      · have some : 0 < d.numDiskRegions := by omega
        simp only [if_neg (Ne.symm first)]
        rw [kept some]
        exact built.primary some

end Disk.Built

/-- What `uf2_disk_register` makes of the table. -/
def Disk.cfg (d : Disk) (familyId : Nat) (boardId : Bytes) : Cfg where
  cbCtx := 0
  flashBase := 0
  flashSize := 0
  regions := some d.regions
  numRegions := d.numDiskRegions
  familyId
  boardId
  eraseSize := 4096
  flashBase_lt := Cfg.zero_lt
  flashSize_lt := Cfg.zero_lt
  eraseSize_pow := Cfg.sector_pow

theorem Disk.table_cfg {d : Disk} (some : 0 < d.numDiskRegions) (familyId : Nat) (boardId : Bytes) :
    (d.cfg familyId boardId).table = Option.some d.regions := if_pos some

theorem Disk.numRegions_cfg {d : Disk} (some : 0 < d.numDiskRegions) (familyId : Nat)
    (boardId : Bytes) : uf2NumRegions (d.cfg familyId boardId) = d.numDiskRegions := by
  rw [uf2NumRegions, Disk.table_cfg some]
  rfl

/-! ### Where blocks go -/

section Confined

variable {δ : Type} {map : FlashMap} {d : Disk} {cfg : Cfg} {cb : Callbacks δ} {maxBlocks : Nat} {block : Block}

def Call.ctx : Call → Nat
  | .erase ctx .. => ctx
  | .write ctx .. => ctx

/-- The region has the bytes that the block is for. -/
def Cfg.covers (cfg : Cfg) (r : Nat) (block : Block) : Prop := uf2RegionBase cfg r ≤ block.targetAddr ∧
    block.targetAddr + block.payloadSize ≤ uf2RegionBase cfg r + uf2RegionSize cfg r

/-- A region can get a block that has no name on it. -/
def Cfg.reachable (cfg : Cfg) (r : Nat) (block : Block) : Prop :=
  r < uf2NumRegions cfg ∧ cfg.routed r = true ∧ uf2RegionContains cfg r block.targetAddr = true

variable {familyId i j region : Nat} {boardId : Bytes} {rc : Int} {s s₁ : Session (δ × List Call)}

theorem Disk.Built.reachable_unique (built : d.Built map) (some : 0 < d.numDiskRegions)
    (reach_i : (d.cfg familyId boardId).reachable i block)
    (reach_j : (d.cfg familyId boardId).reachable j block) : i = j := by
  have table := Disk.table_cfg some familyId boardId
  have count := Disk.numRegions_cfg some familyId boardId
  simp only [Cfg.reachable, count, uf2RegionContains, uf2RegionBase, uf2RegionSize, table,
    decide_eq_true_eq] at reach_i reach_j
  have ordered : ∀ {i j}, i < j → j < d.numDiskRegions → (d.regions i).addressRouted = true →
      (d.regions j).addressRouted = true → block.targetAddr ≥ (d.regions i).base →
      block.targetAddr < u32 ((d.regions i).base + (d.regions i).size) →
      block.targetAddr ≥ (d.regions j).base →
      ¬block.targetAddr < u32 ((d.regions j).base + (d.regions j).size) := by
    intro i j before lt routed_i routed_j base_i end_i base_j end_j
    have apart := of_decide_eq_false (built.apart i j before lt routed_i routed_j)
    omega
  rcases Nat.lt_trichotomy i j with before | same | after
  · exact absurd reach_j.2.2.2 (ordered before reach_j.1 reach_i.2.1 reach_j.2.1 reach_i.2.2.1
      reach_i.2.2.2 reach_j.2.2.1)
  · exact same
  · exact absurd reach_i.2.2.2 (ordered after reach_i.1 reach_j.2.1 reach_i.2.1 reach_j.2.2.1
      reach_j.2.2.2 reach_i.2.2.1)

theorem Serves.ctx_eq {offset : Nat} {call : Call} (serves : Serves cfg block region offset call) :
    call.ctx = uf2RegionCtx cfg region := by
  cases serves with
  | erase erases =>
    obtain ⟨_, _, _, rfl⟩ := erases
    rfl
  | write => rfl

theorem Serves.at_offset {offset ctx off len : Nat} {data : Bytes} {rc : Int}
    (serves : Serves cfg block region offset (.write ctx off data len rc)) : off = offset := by
  cases serves with
  | erase erases => exact absurd erases Call.Erases.not_write
  | write => rfl

/-- One block wrote to a region that has all of its bytes and was meant by it, if it is for this family and board. -/
structure Confined (map : FlashMap) (d : Disk) (cfg : Cfg) (block : Block)
    (start next : Session (δ × List Call)) : Prop where
  region : next.dev.2 ≠ [] → ∃ r, r < d.numDiskRegions ∧
    (∀ call ∈ next.dev.2, call.ctx = uf2RegionCtx cfg r) ∧ cfg.covers r block ∧
    (uf2FindExtTag block uf2ExtTagPartition = .absent → cfg.reachable r block) ∧
    (∀ name, uf2FindExtTag block uf2ExtTagPartition = .found name → cfg.label r = some name) ∧
    (∀ area first, map (d.regions r).ctx = .ok area → map (d.regions 0).ctx = .ok first →
      area.device ≠ first.device → ∃ name, uf2FindExtTag block uf2ExtTagPartition = .found name)
  unique : ∀ i j, cfg.reachable i block → cfg.reachable j block → i = j
  foreign : foreign cfg block = true → next = start

theorem Disk.Built.covers_congr (built : d.Built map)
    (some : 0 < d.numDiskRegions) (lt_i : i < d.numDiskRegions) (lt_j : j < d.numDiskRegions)
    (same : uf2RegionCtx (d.cfg familyId boardId) i = uf2RegionCtx (d.cfg familyId boardId) j) :
    (d.cfg familyId boardId).covers i block ↔ (d.cfg familyId boardId).covers j block := by
  have table := Disk.table_cfg some familyId boardId
  obtain ⟨area, opened, base, size, -⟩ := built.entry i lt_i
  obtain ⟨area', opened', base', size', -⟩ := built.entry j lt_j
  simp only [uf2RegionCtx, table] at same
  obtain rfl : area = area' := by
    rw [same, opened'] at opened
    exact (Except.ok.inj opened).symm
  simp only [Cfg.covers, uf2RegionBase, uf2RegionSize, table, base, size, base', size']

theorem Checked.covers_iff {offset : Nat} (checked : Checked cfg maxBlocks block region offset) :
    cfg.covers region block ↔ offset + block.payloadSize < 2 ^ 32 := by
  obtain ⟨-, addr, below⟩ := checked.located
  have size := uf2RegionSize_lt cfg region
  have end_le := checked.end_le
  unfold u32 at end_le
  unfold Cfg.covers
  omega

theorem Disk.Built.device_eq (built : d.Built map) (some : 0 < d.numDiskRegions) {r : Nat}
    (lt : r < d.numDiskRegions) (routed : (d.regions r).addressRouted = true) {area first : DiskArea}
    (opened : map (d.regions r).ctx = .ok area) (opened₀ : map (d.regions 0).ctx = .ok first) :
    area.device = first.device := by
  obtain ⟨area', opened', -, -, device⟩ := built.entry r lt
  obtain ⟨first', opened₀', device₀⟩ := built.primary some
  cases opened.symm.trans opened'
  cases opened₀.symm.trans opened₀'
  rw [device routed, device₀]

/-- A block affects only what it should exactly if the end of a block that is written does not wrap around. -/
theorem block_confined (map : FlashMap) (memory : Nat → Region) (dev₀ : Option Nat)
    (added : List (Nat × Bytes)) (familyId : Nat) (boardId : Bytes) (cb : Callbacks δ)
    (maxBlocks : Nat) (block : Block) (state : State) (dev : δ) :
    let d := uf2DiskAddRegions map added (Disk.empty memory dev₀)
    let cfg := d.cfg familyId boardId
    let start : Session (δ × List Call) := ⟨state, (dev, [])⟩
    0 < d.numDiskRegions → (Confined map d cfg block start (uf2ProcessBlock cfg cb.logged maxBlocks block start).2 ↔
        ∀ region offset, Admitted cfg maxBlocks block start region offset →
          state.blockMap block.blockNo = false → offset + block.payloadSize < 2 ^ 32) := by
  intro d cfg start some
  have built : d.Built map := List.foldlRecOn added _ (.empty map memory dev₀) fun _ built area _ =>
    built.add area.1 area.2
  have count : uf2NumRegions cfg = d.numDiskRegions := Disk.numRegions_cfg some familyId boardId
  have served := (uf2ProcessBlock_outcome cfg cb.logged maxBlocks block start).serves (s := ⟨state, dev⟩)
  constructor
  · intro confined region offset admitted fresh
    have checked := uf2CheckBlock_ok admitted.check
    rcases served with ⟨-, known⟩ | ⟨region', offset', admitted', -, called, on_region⟩
    · exact absurd (fresh.symm.trans (known region offset admitted)) Bool.false_ne_true
    obtain ⟨r, lt, on_r, covers, -⟩ := confined.region called
    cases admitted'.check.symm.trans admitted.check
    obtain ⟨call, mem⟩ := List.exists_mem_of_ne_nil _ called
    refine checked.covers_iff.mp ((built.covers_congr some (count ▸ checked.located.1) lt ?_).mpr covers)
    exact (on_region call mem).ctx_eq.symm.trans (on_r call mem)
  · intro small
    refine ⟨fun called => ?_, fun i j => built.reachable_unique some, fun other => ?_⟩
    · rcases served with ⟨none, -⟩ | ⟨r, offset, admitted, fresh, -, on_r⟩
      · exact absurd none called
      have checked := uf2CheckBlock_ok admitted.check
      obtain ⟨lt, contains, way⟩ := uf2RouteBlock_some checked.route
      refine ⟨r, count ▸ lt, fun call mem => (on_r call mem).ctx_eq, checked.covers_iff.mpr (small r offset admitted fresh), ?_, ?_, ?_⟩
      · intro absent
        rcases way with ⟨name, found, -⟩ | ⟨-, routed⟩
        · rw [absent] at found
          simp at found
        · exact ⟨lt, routed, contains⟩
      · intro name tagged
        rcases way with ⟨name', found, labelled⟩ | ⟨absent, -⟩
        · rw [tagged] at found
          rw [labelled, ExtTag.found.inj found]
        · rw [tagged] at absent
          simp at absent
      · intro area first opened opened₀ different
        rcases way with ⟨name, found, -⟩ | ⟨-, routed⟩
        · exact ⟨name, found⟩
        · exact absurd (built.device_eq some (count ▸ lt) routed opened opened₀) different
    · exact uf2ProcessBlock_foreign other start

end Confined

def slotMap (area : DiskArea) : FlashMap := fun id => if id = 0 then .ok area else .error (-eInval)

def slotDisk (area : DiskArea) : Disk := uf2DiskAddRegions (slotMap area) [(0, [115, 108, 111, 116, 48])]
    (Disk.empty (fun _ => ⟨0, 0, 0, none, false, by decide, by decide⟩) none)

def demoArea : DiskArea := ⟨some 0, 4096, 8192, 4, demoCfg.flashBase_lt, demoCfg.flashSize_lt, 2, by decide⟩

theorem block_confined_demo :
    (uf2ProcessBlock ((slotDisk demoArea).cfg 0 []) (diskCallbacks (slotMap demoArea)).logged 16
        (demoBlock 0 1) ⟨uf2Init staleMemory 16, (fun _ _ => 0, [])⟩).2.dev.2.length = 2 ∧
      Confined (slotMap demoArea) (slotDisk demoArea) ((slotDisk demoArea).cfg 0 []) (demoBlock 0 1)
        ⟨uf2Init staleMemory 16, (fun _ _ => 0, [])⟩
        (uf2ProcessBlock ((slotDisk demoArea).cfg 0 []) (diskCallbacks (slotMap demoArea)).logged 16
          (demoBlock 0 1) ⟨uf2Init staleMemory 16, (fun _ _ => 0, [])⟩).2 := by
  refine ⟨by decide +kernel, (block_confined (slotMap demoArea) _ none
    [(0, [115, 108, 111, 116, 48])] 0 [] (diskCallbacks (slotMap demoArea)) 16 (demoBlock 0 1)
    (uf2Init staleMemory 16) (fun _ _ => 0) (by decide)).mpr ?_⟩
  intro region offset admitted _
  have checked := uf2CheckBlock_ok admitted.check
  obtain ⟨lt, -, below⟩ := checked.located
  have payload := checked.payload_le
  obtain rfl := Nat.lt_one_iff.mp lt
  have size : offset < 8192 := below
  unfold uf2PayloadSize at payload
  omega

/-- An area that ends with the last but one address. -/
def hugeArea : DiskArea := ⟨some 0, 0, 2 ^ 32 - 1, 1, by decide, by decide, 0, by decide⟩

/-- The end of the block wraps around and seems to be inside the region, so the start of the region is erased. -/
theorem wrapping_block_erases :
    let block : Block := .pack ⟨0, 2 ^ 32 - 16, 256, 0, 1, 0⟩ (List.replicate 476 0) List.length_replicate
    let cfg := (slotDisk hugeArea).cfg 0 []
    let start : Session (Nor.Flash (Option Nat) × List Call) := ⟨uf2Init staleMemory 16, (fun _ _ => 0, [])⟩
    let next := (uf2ProcessBlock cfg (diskCallbacks (slotMap hugeArea)).logged 16 block start).2
    next.dev.1 (some 0) 0 = 0xff ∧
      ¬Confined (slotMap hugeArea) (slotDisk hugeArea) cfg block start next := by
  intro block cfg start next
  refine ⟨by decide +kernel, fun confined => ?_⟩
  have called : next.dev.2 ≠ [] := by decide +kernel
  obtain ⟨r, lt, -, ⟨-, covers⟩, -⟩ := confined.region called
  obtain rfl := Nat.lt_one_iff.mp lt
  exact absurd covers (by decide +kernel)

end Adaboot.Uf2
