import Adaboot.Planner.Devices
import Mathlib.Data.List.Basic

/-!
# Splitting the code partition

Boards with a ROM loader get their layout inside the upstream `code_partition`. The overlay deletes that node, so a
second run takes the next upstream partition for the end of the region.
-/

namespace Adaboot.Planner

open Spans

/-! ### The devicetree -/

/-- The memory node that owns a partition. -/
structure MemoryNode where
  path : String
  labels : List String
  name : String
  eraseSize : Int
  erase_pos : 0 < eraseSize
deriving DecidableEq

def MemoryNode.devLabel (dev : MemoryNode) : String := dev.labels.headD dev.name

/-- A node of the devicetree, with what the planner reads of a partition. -/
structure Node where
  labels : List String
  label : Option String
  /-- Compatible with `zephyr,mapped-partition`. -/
  mapped : Bool
  /-- The unit address of a node of the device's `partitions` node. -/
  address : Option Int
  /-- The offset and the size, if there are two cells at least. -/
  reg : Option (Int × Int)
  /-- `_partition_device`. -/
  memory : Option MemoryNode
  /-- `_defined_in_fork_dts`: the node is the planner's own earlier output. -/
  fork : Bool
deriving DecidableEq

structure Devicetree where
  memories : List MemoryNode
  nodes : List Node
  nativeUsb : Bool

def Node.Apart (m n : Node) : Prop := ∀ label ∈ m.labels, label ∉ n.labels

instance (m n : Node) : Decidable (m.Apart n) := inferInstanceAs (Decidable (∀ label ∈ m.labels, label ∉ n.labels))

/-- A label belongs to one node. A memory node without a label has a unit address in its name. -/
structure WellFormed (dt : Devicetree) : Prop where
  labels : dt.nodes.Pairwise Node.Apart
  owner : ∀ n ∈ dt.nodes, ∀ dev ∈ n.memory, dev ∈ dt.memories
  memories : ∀ m ∈ dt.memories, ∀ n ∈ dt.memories, ∀ label ∈ m.labels, label ∈ n.labels → m = n
  unlabelled : ∀ m ∈ dt.memories, m.labels = [] → ∀ n ∈ dt.memories, m.name ∉ n.labels

/-! ### The plan -/

def hasUpstreamPredefinedMcuboot (nodes : List Node) : Bool :=
  nodes.any (fun n => ¬ n.fork ∧ n.label = some "mcuboot") && nodes.any fun n => ¬ n.fork ∧ n.label = some "image-0"

/-- The region to split. Its size is not known on a second run. -/
structure Region where
  devLabel : String
  base : Int
  size : Option Int
  labels : List String
  erase : Int

def forkBootOffset (nodes : List Node) (dev : MemoryNode) : Option Int :=
  nodes.findSome? fun other =>
    if "boot_partition" ∈ other.labels ∧ other.fork ∧ other.memory = some dev then other.reg.map (·.1) else none

def codeRegion (nodes : List Node) (node : Node) : Option Region :=
  if node.mapped ∧ "code_partition" ∈ node.labels then
    match node.reg, node.memory with
    | some (base, size), some dev =>
      -- An earlier overlay has put the label on its first slot.
      if node.fork then
        (forkBootOffset nodes dev).map fun bootOffset => ⟨dev.devLabel, bootOffset, none, node.labels, dev.eraseSize⟩
      else some ⟨dev.devLabel, base, some size, node.labels, dev.eraseSize⟩
    | _, _ => none
  else none

def findCodePartitionRegion (nodes : List Node) : Option Region := nodes.findSome? (codeRegion nodes)

def boundingOffset (region : Region) (node : Node) : Option Int :=
  if node.mapped ∧ ¬ node.fork ∧ ¬ (∃ label ∈ node.labels, label ∈ region.labels) then
    match node.reg, node.memory with
    | some (offset, _), some dev => if region.devLabel ∈ dev.labels ∧ region.base < offset then some offset else none
    | _, _ => none
  else none

def lower (bound : Option Int) (offset : Int) : Option Int :=
  match bound with
  | none => some offset
  | some bound => if offset < bound then some offset else some bound

def tailBound (region : Region) (nodes : List Node) : Option Int :=
  nodes.foldl (fun bound node => match boundingOffset region node with
    | none => bound
    | some offset => lower bound offset) (region.size.map (region.base + ·))

/-- The planned partitions and what the overlay is written from. -/
structure SplitPlan where
  devLabel : String
  erase : Int
  regionSize : Int
  deleteLabels : List String
  boot : Partition
  slot0Labels : List String
  slot0 : Partition
  filesystem : Option Partition
  nvm : Partition
deriving DecidableEq

section Plan

variable (slotSizeKb filesystemSizeKb : Option Int)

/-- The sizes of the first slot and of the file system. A pin of 0 for the slot is no pin. -/
def splitSizes (avail erase : Int) : Int × Int :=
  match filesystemSizeKb with
  | some sizeKb =>
    let fsSize := alignUp (sizeKb * kb) erase
    (alignDown (avail - fsSize) erase, fsSize)
  | none =>
    let slotKb := match slotSizeKb with
      | none => slot0MinSize / kb
      | some sizeKb => if sizeKb = 0 then slot0MinSize / kb else sizeKb
    let slot0Size := min (alignUp (slotKb * kb) erase) (alignDown (avail - erase) erase)
    (slot0Size, alignDown (avail - slot0Size) erase)

def splitRegion (nativeUsb : Bool) (region : Region) (bound : Int) : SplitPlan :=
  let erase := region.erase
  let bootSize := alignUp (128 * kb) erase
  let slot0Offset := region.base + bootSize
  let sizes := splitSizes slotSizeKb filesystemSizeKb (bound - erase - slot0Offset) erase
  { devLabel := region.devLabel
    erase := erase
    regionSize := bound - region.base
    -- Sorted by whether it is another label than this one.
    deleteLabels := region.labels.filter (· = "code_partition") ++ region.labels.filter (· ≠ "code_partition")
    boot := bootPartition region.base bootSize
    slot0Labels := "slot0_partition" :: region.labels.filter (· ≠ "slot0_partition")
    slot0 := slot0Partition slot0Offset sizes.1
    filesystem := if sizes.2 ≥ erase then
        some ⟨some "filesystem", filesystemNodeLabel nativeUsb, slot0Offset + sizes.1, sizes.2⟩
      else none
    nvm := nvmPartition (bound - erase) erase }

def planCodePartitionSplit (dt : Devicetree) : Option SplitPlan :=
  if hasUpstreamPredefinedMcuboot dt.nodes then none
  else match findCodePartitionRegion dt.nodes with
    | none => none
    | some region =>
      (tailBound region dt.nodes).map (splitRegion slotSizeKb filesystemSizeKb dt.nativeUsb region)

end Plan

/-! ### The overlay -/

def generatedNode (memory : Option MemoryNode) (labels : List String) (p : Partition) : Node :=
  ⟨labels, p.label, true, some p.offset, some (p.offset, p.size), memory, true⟩

/-- The nodes of `generate_mapped_split_dtsi`. -/
def generatedNodes (dt : Devicetree) (plan : SplitPlan) : List Node :=
  let memory := dt.memories.find? (plan.devLabel ∈ ·.labels)
  [generatedNode memory [plan.boot.nodeLabel] plan.boot, generatedNode memory plan.slot0Labels plan.slot0] ++
    plan.filesystem.toList.map (fun fs => generatedNode memory [fs.nodeLabel] fs) ++
    [generatedNode memory [plan.nvm.nodeLabel] plan.nvm]

/-- The upstream nodes that the overlay leaves. An earlier generated file is replaced by the new one. -/
def survivingNodes (dt : Devicetree) (plan : SplitPlan) : List Node :=
  dt.nodes.filter fun n => ¬ n.fork ∧ ∀ label ∈ plan.deleteLabels.head?, label ∉ n.labels

def applyOverlay (dt : Devicetree) (plan : SplitPlan) : Devicetree :=
  { dt with nodes := survivingNodes dt plan ++ generatedNodes dt plan }

/-- The overlay can be applied: it refers to a labelled device, and labels and names of new nodes occur once. -/
structure Applies (dt : Devicetree) (plan : SplitPlan) : Prop where
  target : ∃ dev ∈ dt.memories, plan.devLabel ∈ dev.labels
  labels : (applyOverlay dt plan).nodes.Pairwise Node.Apart
  names : ∀ n ∈ survivingNodes dt plan, ∀ g ∈ generatedNodes dt plan, n.memory = g.memory → n.address ≠ g.address

/-! ### The bound -/

theorem foldl_lower_some (offsets : List Int) (bound : Int) :
    offsets.foldl lower (some bound) = (bound :: offsets).min? := by
  induction offsets generalizing bound with
  | nil => rfl
  | cons offset offsets ih =>
    have first : lower (some bound) offset = some (min bound offset) := by
      unfold lower
      simp only
      split
      · rw [Int.min_eq_right (by omega)]
      · rw [Int.min_eq_left (by omega)]
    rw [List.foldl_cons, first, ih]
    rfl

theorem foldl_lower_none (offsets : List Int) : offsets.foldl lower none = offsets.min? := by
  cases offsets with
  | nil => rfl
  | cons offset offsets => exact foldl_lower_some offsets offset

theorem tailBound_eq (region : Region) (nodes : List Node) : tailBound region nodes =
      (nodes.filterMap (boundingOffset region)).foldl lower (region.size.map (region.base + ·)) := by
  rw [List.foldl_filterMap]
  unfold tailBound
  congr 1
  funext bound node
  cases boundingOffset region node <;> rfl

theorem min?_cons_eq {offsets : List Int} {bound : Int} :
    offsets.min? = (bound :: offsets).min? ↔ ∃ offset ∈ offsets, offset ≤ bound := by
  have known : ∃ least, (bound :: offsets).min? = some least := ⟨_, rfl⟩
  obtain ⟨least, found⟩ := known
  obtain ⟨mem, below⟩ := List.min?_eq_some_iff.mp found
  rw [found, List.min?_eq_some_iff]
  constructor
  · rintro ⟨inside, _⟩
    exact ⟨least, inside, below bound List.mem_cons_self⟩
  · rintro ⟨offset, inside, le⟩
    refine ⟨?_, fun other inside => below other (List.mem_cons_of_mem _ inside)⟩
    rcases List.mem_cons.mp mem with rfl | mem
    · -- The bound is the least, so the offset is equal to it.
      have ge := below offset (List.mem_cons_of_mem _ inside)
      rwa [Int.le_antisymm ge le]
    · exact mem

/-! ### The second run -/

theorem findCodePartitionRegion_spec {nodes : List Node} {region : Region}
    (found : findCodePartitionRegion nodes = some region) :
    ∃ node ∈ nodes, ∃ dev, node.memory = some dev ∧ "code_partition" ∈ region.labels ∧ region.labels = node.labels ∧
      region.devLabel = dev.devLabel ∧ region.erase = dev.eraseSize := by
  obtain ⟨node, mem, is⟩ := List.exists_of_findSome?_eq_some found
  unfold codeRegion at is
  split at is
  next code =>
    split at is
    next dev _ memory =>
      split at is
      · obtain ⟨_, _, rfl⟩ := Option.map_eq_some_iff.mp is
        exact ⟨node, mem, dev, memory, code.2, rfl, rfl, rfl⟩
      · cases is
        exact ⟨node, mem, dev, memory, code.2, rfl, rfl, rfl⟩
    · cases is
  · cases is

section Rerun

variable {dt : Devicetree} {region : Region} {bound : Int} {slotSizeKb filesystemSizeKb : Option Int}
  {plan : SplitPlan} {dev : MemoryNode}
  (planned : splitRegion slotSizeKb filesystemSizeKb dt.nativeUsb region bound = plan)

include planned in
theorem deleteLabels_head (code : "code_partition" ∈ region.labels) :
    plan.deleteLabels.head? = some "code_partition" := by
  have mem : "code_partition" ∈ region.labels.filter (· = "code_partition") := by simp [code]
  cases parts : region.labels.filter (· = "code_partition") with
  | nil =>
    rw [parts] at mem
    cases mem
  | cons label labels =>
    have head : label ∈ region.labels.filter (· = "code_partition") := by simp [parts]
    have eq : label = "code_partition" := by simpa using (List.mem_filter.mp head).2
    simp [← planned, splitRegion, parts, eq]

theorem overlay_target (wellFormed : WellFormed dt) (found : findCodePartitionRegion dt.nodes = some region)
    (target : ∃ dev ∈ dt.memories, region.devLabel ∈ dev.labels) :
    ∃ dev, dt.memories.find? (region.devLabel ∈ ·.labels) = some dev ∧ region.devLabel = dev.devLabel ∧
      region.erase = dev.eraseSize := by
  obtain ⟨node, mem, dev, memory, _, _, devLabel, erase⟩ := findCodePartitionRegion_spec found
  have owned := wellFormed.owner node mem dev memory
  cases labelled : dt.memories.find? (region.devLabel ∈ ·.labels) with
  | none =>
    obtain ⟨other, inside, label⟩ := target
    have never := List.find?_eq_none.mp labelled other inside
    simp [label] at never
  | some other =>
    have inside := List.mem_of_find?_eq_some labelled
    have label : region.devLabel ∈ other.labels := by simpa using List.find?_some labelled
    cases labels : dev.labels with
    | nil =>
      rw [devLabel, MemoryNode.devLabel, labels] at label
      exact absurd label (wellFormed.unlabelled dev owned labels other inside)
    | cons first rest =>
      have own : region.devLabel ∈ dev.labels := by
        rw [devLabel, MemoryNode.devLabel, labels]
        exact List.mem_cons_self
      cases wellFormed.memories other inside dev owned _ label own
      exact ⟨dev, rfl, devLabel, erase⟩

variable (region) in
def rerunRegion : Region :=
  { region with size := none, labels := "slot0_partition" :: region.labels.filter (· ≠ "slot0_partition") }

theorem surviving_upstream : ∀ n ∈ survivingNodes dt plan, n.fork = false := by
  intro n mem
  simpa using (of_decide_eq_true (List.mem_filter.mp mem).2).1

theorem generated_fork : ∀ n ∈ generatedNodes dt plan, n.fork = true := by
  intro n mem
  simp only [generatedNodes, List.mem_append, List.mem_cons, List.mem_map] at mem
  rcases mem with (((rfl | rfl | h) | ⟨_, _, rfl⟩) | (rfl | h))
  all_goals first | rfl | cases h

theorem generatedNodes_eq (labelled : dt.memories.find? (plan.devLabel ∈ ·.labels) = some dev) :
    ∃ rest, generatedNodes dt plan = generatedNode (some dev) [plan.boot.nodeLabel] plan.boot ::
      generatedNode (some dev) plan.slot0Labels plan.slot0 :: rest := by
  unfold generatedNodes
  rw [labelled]
  exact ⟨_, rfl⟩

theorem forkBootOffset_rerun {nodes rest : List Node} (upstream : ∀ n ∈ nodes, n.fork = false)
    (base size : Int) :
    forkBootOffset (nodes ++ generatedNode (some dev) ["boot_partition"] (bootPartition base size) :: rest) dev =
      some base := by
  have before : nodes.findSome? (fun other =>
      if "boot_partition" ∈ other.labels ∧ other.fork ∧ other.memory = some dev then other.reg.map (·.1) else none) =
      none := by
    rw [List.findSome?_eq_none_iff]
    intro n mem
    simp [upstream n mem]
  rw [forkBootOffset, List.findSome?_append, before]
  simp [generatedNode, bootPartition]

include planned in
theorem rerun_region (wellFormed : WellFormed dt) (found : findCodePartitionRegion dt.nodes = some region)
    (target : ∃ dev ∈ dt.memories, region.devLabel ∈ dev.labels) :
    findCodePartitionRegion (applyOverlay dt plan).nodes = some (rerunRegion region) := by
  obtain ⟨dev, labelled, devLabel, erase⟩ := overlay_target wellFormed found target
  obtain ⟨_, _, _, _, code, _⟩ := findCodePartitionRegion_spec found
  have head := deleteLabels_head planned code
  have labelled : dt.memories.find? (plan.devLabel ∈ ·.labels) = some dev := by rw [← planned]; exact labelled
  obtain ⟨rest, generated⟩ := generatedNodes_eq labelled
  have boot : plan.boot = bootPartition region.base (alignUp (128 * kb) region.erase) := by rw [← planned]; rfl
  have labels : plan.slot0Labels = (rerunRegion region).labels := by rw [← planned]; rfl
  have upstream : (survivingNodes dt plan).findSome? (codeRegion (applyOverlay dt plan).nodes) = none := by
    rw [List.findSome?_eq_none_iff]
    intro n mem
    have gone := (of_decide_eq_true (List.mem_filter.mp mem).2).2 "code_partition" head
    simp [codeRegion, gone]
  have bootOffset : forkBootOffset (applyOverlay dt plan).nodes dev = some region.base := by
    unfold applyOverlay
    rw [generated, boot]
    exact forkBootOffset_rerun surviving_upstream _ _
  have slot0 : codeRegion (applyOverlay dt plan).nodes (generatedNode (some dev) plan.slot0Labels plan.slot0) =
      some (rerunRegion region) := by
    simp [codeRegion, generatedNode, bootOffset, labels, rerunRegion, code, devLabel, erase]
  have bootNode : codeRegion (applyOverlay dt plan).nodes (generatedNode (some dev) [plan.boot.nodeLabel] plan.boot) =
      none := by simp [codeRegion, generatedNode, boot, bootPartition]
  rw [findCodePartitionRegion]
  nth_rewrite 2 [applyOverlay]
  rw [List.findSome?_append, upstream, generated, List.findSome?_cons, bootNode, List.findSome?_cons, slot0]
  rfl

include planned in
theorem rerun_offsets (found : findCodePartitionRegion dt.nodes = some region)
    (labels : (applyOverlay dt plan).nodes.Pairwise Node.Apart) :
    (applyOverlay dt plan).nodes.filterMap (boundingOffset (rerunRegion region)) =
      dt.nodes.filterMap (boundingOffset region) := by
  obtain ⟨_, _, _, _, code, _⟩ := findCodePartitionRegion_spec found
  have head := deleteLabels_head planned code
  have slot0 : plan.slot0Labels = (rerunRegion region).labels := by rw [← planned]; rfl
  -- Generated nodes do not count.
  have generated : (generatedNodes dt plan).filterMap (boundingOffset (rerunRegion region)) = [] := by
    rw [List.filterMap_eq_nil_iff]
    intro n mem
    simp [boundingOffset, generated_fork n mem]
  rw [applyOverlay, List.filterMap_append, generated, List.append_nil, survivingNodes, List.filterMap_filter]
  refine List.filterMap_congr fun n mem => ?_
  split
  next survives =>
    -- The node has no label of the code partition, neither the upstream ones nor those of the new slot.
    have apart : ∀ label ∈ n.labels, label ∉ (rerunRegion region).labels := by
      intro label own other
      have surviving : n ∈ survivingNodes dt plan := List.mem_filter.mpr ⟨mem, survives⟩
      have new : generatedNode (dt.memories.find? (plan.devLabel ∈ ·.labels)) plan.slot0Labels plan.slot0 ∈
        generatedNodes dt plan := by simp [generatedNodes]
      have disjoint := (List.pairwise_append.mp labels).2.2 n surviving _ new
      rw [← slot0] at other
      exact disjoint label own other
    have old : ∀ label ∈ n.labels, label ∉ region.labels := by
      intro label own other
      refine apart label own ?_
      by_cases slot : label = "slot0_partition"
      · exact slot ▸ List.mem_cons_self
      · exact List.mem_cons_of_mem _ (List.mem_filter.mpr ⟨other, by simpa using slot⟩)
    have noneNew : ¬ ∃ label ∈ n.labels, label ∈ (rerunRegion region).labels := by simpa using apart
    have noneOld : ¬ ∃ label ∈ n.labels, label ∈ region.labels := by simpa using old
    simp only [boundingOffset, noneNew, noneOld]
    rfl
  next gone =>
    have gone : n.fork = true ∨ "code_partition" ∈ n.labels := by
      by_contra stays
      push Not at stays
      refine gone (decide_eq_true ⟨by simpa using stays.1, fun label first => ?_⟩)
      cases head.symm.trans first
      exact stays.2
    rcases gone with fork | shares
    · simp [boundingOffset, fork]
    · have shared : ∃ label ∈ n.labels, label ∈ region.labels := ⟨_, shares, code⟩
      simp [boundingOffset, shared]

theorem rerun_predefined (absent : hasUpstreamPredefinedMcuboot dt.nodes = false) :
    hasUpstreamPredefinedMcuboot (applyOverlay dt plan).nodes = false := by
  have fewer : ∀ label, (applyOverlay dt plan).nodes.any (fun n => ¬ n.fork ∧ n.label = some label) →
      dt.nodes.any (fun n => ¬ n.fork ∧ n.label = some label) := by
    intro label found
    obtain ⟨n, mem, is⟩ := List.any_eq_true.mp found
    rcases List.mem_append.mp mem with upstream | generated
    · exact List.any_eq_true.mpr ⟨n, List.mem_of_mem_filter upstream, is⟩
    · simp [generated_fork n generated] at is
  rw [hasUpstreamPredefinedMcuboot] at absent ⊢
  rw [Bool.and_eq_false_iff] at absent ⊢
  rcases absent with absent | absent
  · exact .inl (Bool.eq_false_iff.mpr fun found => Bool.eq_false_iff.mp absent (fewer _ found))
  · exact .inr (Bool.eq_false_iff.mpr fun found => Bool.eq_false_iff.mp absent (fewer _ found))

include planned in
theorem rerun_plan (wellFormed : WellFormed dt) (found : findCodePartitionRegion dt.nodes = some region)
    (absent : hasUpstreamPredefinedMcuboot dt.nodes = false) (applies : Applies dt plan) :
    planCodePartitionSplit slotSizeKb filesystemSizeKb (applyOverlay dt plan) =
      (dt.nodes.filterMap (boundingOffset region)).min?.map
        (splitRegion slotSizeKb filesystemSizeKb dt.nativeUsb (rerunRegion region)) := by
  unfold planCodePartitionSplit
  have target : ∃ dev ∈ dt.memories, region.devLabel ∈ dev.labels := by
    rw [show region.devLabel = plan.devLabel by rw [← planned]; rfl]
    exact applies.target
  rw [rerun_predefined absent, rerun_region planned wellFormed found target]
  simp only [Bool.false_eq_true, if_false]
  rw [tailBound_eq, rerun_offsets planned found applies.labels]
  exact congrArg (Option.map _) (foldl_lower_none _)

def SamePartitions (plan again : SplitPlan) : Prop :=
  again.boot = plan.boot ∧ again.slot0Labels = plan.slot0Labels ∧ again.slot0 = plan.slot0 ∧
    again.filesystem = plan.filesystem ∧ again.nvm = plan.nvm

theorem samePartitions_rerun {nativeUsb : Bool} {bound' : Int} :
    SamePartitions (splitRegion slotSizeKb filesystemSizeKb nativeUsb region bound)
      (splitRegion slotSizeKb filesystemSizeKb nativeUsb (rerunRegion region) bound') ↔ bound' = bound := by
  constructor
  · rintro ⟨_, _, _, _, nvm⟩
    have offset : bound' - region.erase = bound - region.erase := congrArg Partition.offset nvm
    omega
  · rintro rfl
    refine ⟨rfl, ?_, rfl, rfl, rfl⟩
    simp [splitRegion, rerunRegion]

end Rerun

/-- The code partition is the planner's own, or another one starts behind its start and not behind its end. -/
def StillBounded (dt : Devicetree) : Prop := ∀ region ∈ findCodePartitionRegion dt.nodes, ∀ size ∈ region.size,
    ∃ offset ∈ dt.nodes.filterMap (boundingOffset region), offset ≤ region.base + size

/-- Planning again behind the generated overlay gives the same partitions exactly if something upstream still
bounds the region. -/
theorem split_rerun_same_iff (dt : Devicetree) (slotSizeKb filesystemSizeKb : Option Int) (plan : SplitPlan)
    (wellFormed : WellFormed dt) (planned : planCodePartitionSplit slotSizeKb filesystemSizeKb dt = some plan)
    (applies : Applies dt plan) :
    (∃ again, planCodePartitionSplit slotSizeKb filesystemSizeKb (applyOverlay dt plan) = some again ∧
      SamePartitions plan again) ↔ StillBounded dt := by
  unfold planCodePartitionSplit at planned
  split at planned
  · cases planned
  next absent =>
    split at planned
    · cases planned
    next region found =>
      obtain ⟨bound, tail, rfl⟩ := Option.map_eq_some_iff.mp planned
      rw [tailBound_eq] at tail
      rw [rerun_plan rfl wellFormed found (by simpa using absent) applies]
      have same : (∃ again, (dt.nodes.filterMap (boundingOffset region)).min?.map
          (splitRegion slotSizeKb filesystemSizeKb dt.nativeUsb (rerunRegion region)) = some again ∧
          SamePartitions (splitRegion slotSizeKb filesystemSizeKb dt.nativeUsb region bound) again) ↔
          (dt.nodes.filterMap (boundingOffset region)).min? = some bound := by
        constructor
        · rintro ⟨again, mapped, same⟩
          obtain ⟨bound', least, rfl⟩ := Option.map_eq_some_iff.mp mapped
          rw [least, samePartitions_rerun.mp same]
        · intro least
          exact ⟨_, by rw [least]; rfl, samePartitions_rerun.mpr rfl⟩
      rw [same, StillBounded, found]
      simp only [Option.mem_def, Option.some.injEq, forall_eq']
      cases known : region.size with
      | none =>
        rw [known, Option.map_none, foldl_lower_none] at tail
        simp [tail]
      | some size =>
        rw [known, Option.map_some, foldl_lower_some] at tail
        rw [← tail, min?_cons_eq]
        simp

def sharedMemory : MemoryNode := ⟨"/soc/flash@8000000", ["flash0"], "flash@8000000", 4 * kb, block_pos⟩

def sharedFlash (others : List Node) : Devicetree :=
  ⟨[sharedMemory], ⟨["code_partition"], none, true, some mb, some (mb, 2 * mb), some sharedMemory, false⟩ :: others, true⟩

def settingsNode : Node :=
  ⟨["storage_partition"], some "storage", true, some (3 * mb - 32 * kb), some (3 * mb - 32 * kb, 32 * kb),
    some sharedMemory, false⟩

theorem sharedFlash_wellFormed {others : List Node} (owner : ∀ n ∈ others, n.memory = some sharedMemory)
    (labels : (sharedFlash others).nodes.Pairwise Node.Apart) : WellFormed (sharedFlash others) where
  labels := labels
  owner := by
    intro n mem dev memory
    rcases List.mem_cons.mp mem with rfl | mem
    · cases memory
      exact List.mem_singleton.mpr rfl
    · cases (owner n mem).symm.trans memory
      exact List.mem_singleton.mpr rfl
  memories := by simp [sharedFlash]
  unlabelled := by simp [sharedFlash, sharedMemory]

/-- The settings bound the second run as they did the first. -/
theorem split_rerun_same_settings : ∃ plan again,
    planCodePartitionSplit none none (sharedFlash [settingsNode]) = some plan ∧
      planCodePartitionSplit none none (applyOverlay (sharedFlash [settingsNode]) plan) = some again ∧
      SamePartitions plan again := by
  obtain ⟨plan, planned⟩ : ∃ plan, planCodePartitionSplit none none (sharedFlash [settingsNode]) = some plan := ⟨_, rfl⟩
  have wellFormed : WellFormed (sharedFlash [settingsNode]) := sharedFlash_wellFormed (by decide) (by decide)
  have applies : Applies (sharedFlash [settingsNode]) plan := by
    cases planned
    exact ⟨by decide, by decide, by decide⟩
  have bounded : StillBounded (sharedFlash [settingsNode]) := by
    rintro region ⟨⟩ size ⟨⟩
    decide
  obtain ⟨again, second, same⟩ := (split_rerun_same_iff _ none none plan wellFormed planned applies).mpr bounded
  exact ⟨plan, again, planned, second, same⟩

/-- With nothing upstream behind the code partition the second run plans nothing at all. -/
theorem split_rerun_unbounded : ∃ plan,
    planCodePartitionSplit none none (sharedFlash []) = some plan ∧ WellFormed (sharedFlash []) ∧
      Applies (sharedFlash []) plan ∧ planCodePartitionSplit none none (applyOverlay (sharedFlash []) plan) = none := by
  refine ⟨_, rfl, sharedFlash_wellFormed (by decide) (by decide), ⟨?_, ?_, ?_⟩, ?_⟩ <;> decide

end Adaboot.Planner
