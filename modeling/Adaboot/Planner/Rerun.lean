import Adaboot.Planner.Tasks
import Mathlib.Data.List.Nodup

/-!
# Planning again

A second run finds the planned partitions on the devices, and in the generated file those that it carries. It has the
tasks of the first run (`TwoRuns.secondTasks`), so that each task can be looked at alone.
-/

namespace Adaboot.Planner

open Spans

/-! ### One entry for a key -/

section Key

variable {α β : Type} {key : α → String} {list : List α} {label : String}

theorem flatMap_key_none (f : α → List β) (other : ∀ a ∈ list, key a ≠ label) :
    (list.flatMap fun a => if key a = label then f a else []) = [] :=
  List.flatMap_eq_nil_iff.mpr fun a mem => if_neg (other a mem)

theorem flatMap_key (f : α → List β) (distinct : (list.map key).Nodup) {a : α} (mem : a ∈ list)
    (same : key a = label) : (list.flatMap fun a => if key a = label then f a else []) = f a := by
  induction list with
  | nil => cases mem
  | cons b list ih =>
    obtain ⟨other, distinct⟩ := List.nodup_cons.mp distinct
    rw [List.flatMap_cons]
    rcases List.mem_cons.mp mem with rfl | later
    · rw [if_pos same, flatMap_key_none f fun c inList => ?_, List.append_nil]
      rintro equal
      exact other (List.mem_map.mpr ⟨c, inList, equal.trans same.symm⟩)
    · rw [if_neg, List.nil_append, ih distinct later]
      rintro equal
      exact other (List.mem_map.mpr ⟨a, later, same.trans equal.symm⟩)

theorem eq_of_key (distinct : (list.map key).Nodup) {a b : α} (first : a ∈ list) (second : b ∈ list)
    (same : key a = key b) : a = b :=
  List.inj_on_of_nodup_map distinct first second same

end Key

/-! ### The two runs -/

section Runs

variable (edt : Edt) (opts : PlanOptions) (deletedDevices : List String)

def firstPlan : List PlannedDevice := planPartitionsPredefined edt opts noFile deletedDevices

def secondEdt : Edt := edt.refit (plannedFor (firstPlan edt opts deletedDevices))
    ((firstPlan edt opts deletedDevices).flatMap fun entry => entry.newParts.map (·.label))

def readBack : Existing := parseExistingPartitionsDtsi (generatePartitionsDtsi (firstPlan edt opts deletedDevices))

def secondPlan : List PlannedDevice :=
  planPartitionsPredefined (secondEdt edt opts deletedDevices) opts (readBack edt opts deletedDevices) deletedDevices

/-- The second run plans the partitions that are there. -/
def Stable : Prop :=
  ∀ label, plannedFor (secondPlan edt opts deletedDevices) label = plannedFor (firstPlan edt opts deletedDevices) label

def boardTasks : List Task := tasks edt opts [] edt.devices

def nvmParts (dev : FlashDevice) : List Partition :=
  if alignDown dev.totalSize dev.eraseSize > 0 then [nvmPartition 0 (alignDown dev.totalSize dev.eraseSize)] else []

variable {edt opts deletedDevices}

theorem plannedFor_nvm (dev : FlashDevice) (label : String) :
    plannedFor (if alignDown dev.totalSize dev.eraseSize > 0 then
      [dev.planned [nvmPartition 0 (alignDown dev.totalSize dev.eraseSize)]] else []) label =
        if dev.devLabel = label then nvmParts dev else [] := by
  unfold nvmParts
  split
  · rw [plannedFor_cons]
    exact List.append_nil _
  · exact (ite_self _).symm

def taskParts (edt : Edt) (opts : PlanOptions) (existing : Existing) (list : List Task) : Layout := fun label =>
  list.flatMap fun task => (if task.dev.devLabel = label then task.ownParts edt opts existing else []) ++
    task.spilled edt opts existing label

def listedLabels (edt : Edt) (opts : PlanOptions) (existing : Existing) (deletedDevices : List String)
    (list : List Task) : List String :=
  (list.flatMap (Task.plan edt opts existing deletedDevices)).map (·.devLabel)

/-- What is planned for a data flash without an entry. -/
def nvmFor (devs : List FlashDevice) (listed : List String) : Layout := fun label =>
  devs.flatMap fun dev => if dev.devLabel = label then if dev.devLabel ∈ listed then [] else nvmParts dev else []

theorem flatMap_unlisted (devs : List FlashDevice) (listed : List String) (label : String) :
    ((devs.filter (·.devLabel ∉ listed)).flatMap fun dev => if dev.devLabel = label then nvmParts dev else []) =
      nvmFor devs listed label := by
  unfold nvmFor
  induction devs with
  | nil => rfl
  | cons dev devs ih =>
    by_cases mem : dev.devLabel ∈ listed
    · simpa [List.filter_cons, mem] using ih
    · simpa [List.filter_cons, mem] using ih

theorem plannedFor_planPartitions (edt : Edt) (existing : Existing) (label : String) :
    plannedFor (planPartitionsPredefined edt opts existing deletedDevices) label =
      taskParts edt opts existing (boardTasks edt opts) label ++
        nvmFor (dataFlash edt) (listedLabels edt opts existing deletedDevices (boardTasks edt opts)) label := by
  rw [planPartitionsPredefined, planDevices_eq, plannedFor_append, plannedFor_flatMap, plannedFor_flatMap]
  congr 1
  · exact congrArg (List.flatMap · _) (funext fun task => plannedFor_plan edt opts existing deletedDevices task label)
  · rw [listedLabels, ← flatMap_unlisted]
    exact congrArg (List.flatMap · _) (funext fun dev => plannedFor_nvm dev label)

variable {label : String} {task : Task} {devs : List FlashDevice} {listed : List String} {dev : FlashDevice}

theorem carriedParts_eq_nil {existing : Existing} :
    carriedParts existing label = [] ↔ ¬ Carries existing label := by
  rw [Carries, not_not, carriedParts]
  exact ⟨fun empty => (empty ▸ sortByOffset_perm _).nil_eq.symm, fun empty => by rw [empty]; exact List.mergeSort_nil⟩

def spillLabels : List (Option String) := [some "nvm", some "image-1", some "storage", some "filesystem"]

/-- A partition of the planner's own with one of the labels. -/
def Managed (labels : List (Option String)) (p : Partition) : Prop := p.label ∈ labels ∧ p.nodeLabel ∈ managedNodeLabels

theorem filesystem_managed (edt : Edt) (offset size : Int) : Managed spillLabels
    (filesystemPartition edt offset size) := by
  refine ⟨by simp [filesystemPartition, spillLabels], ?_⟩
  simp only [filesystemPartition, filesystemNodeLabel]
  split <;> decide

theorem nvm_managed (offset size : Int) : Managed spillLabels (nvmPartition offset size) := ⟨by
  simp [nvmPartition, spillLabels], by simp [nvmPartition, managedNodeLabels]⟩

theorem storage_managed (offset size : Int) : Managed spillLabels (storagePartition offset size) := ⟨by
  simp [storagePartition, spillLabels], by simp [storagePartition, managedNodeLabels]⟩

theorem spilled_managed :
    ∀ p ∈ task.spilled edt opts noFile label, Managed spillLabels p := by
  intro p mem
  cases task with
  | pass dev => cases mem
  | keep dev => cases mem
  | move dev ext boot =>
    simp only [Task.spilled, List.mem_ite_nil_right, externalFront, externalNvm, externalStorage, externalFilesystem,
      carriedParts_noFile, List.mem_append, List.mem_ite_nil_left, List.mem_singleton, List.not_mem_nil, or_false] at mem
    rcases mem with ⟨_, ((⟨_, rfl⟩ | rfl) | ⟨_, rfl⟩) | ⟨_, rfl⟩⟩
    · exact nvm_managed _ _
    · exact ⟨by simp [slot1Partition, spillLabels], by simp [slot1Partition, managedNodeLabels]⟩
    · exact storage_managed _ _
    · exact filesystem_managed _ _ _

theorem nvmFor_managed :
    ∀ p ∈ nvmFor devs listed label, Managed [some "nvm"] p := by
  intro p mem
  obtain ⟨dev, _, mem⟩ := List.mem_flatMap.mp mem
  simp only [List.mem_ite_nil_right, List.mem_ite_nil_left, nvmParts, List.mem_singleton] at mem
  obtain ⟨_, _, _, rfl⟩ := mem
  exact ⟨by simp [nvmPartition], by simp [nvmPartition, managedNodeLabels]⟩

theorem nvmFor_filtered :
    (nvmFor devs listed label).filter (·.label ∉ appPartitionLabels) = [] := by
  refine List.filter_eq_nil_iff.mpr fun p nvm => ?_
  rw [List.mem_singleton.mp (nvmFor_managed p nvm).1]
  simp [appPartitionLabels]

/-! ### The boot partition is found again -/

theorem findLabel_isSome {parts : List Partition} :
    (findLabel label parts).isSome = true ↔ ∃ p ∈ parts, p.label = some label := by
  simp [findLabel, List.find?_isSome]

theorem plannedBoot_isSome (boot : (findLabel "mcuboot" dev.parts).isSome) :
    (plannedBoot opts dev).isSome := by
  obtain ⟨p, mem, label⟩ := findLabel_isSome.mp boot
  have upstream : p ∈ upstreamParts opts dev := List.mem_filter.mpr ⟨mem, by simp [label, appPartitionLabels]⟩
  have found : (upstreamPart opts dev "mcuboot").isSome :=
    findLabel_isSome.mpr ⟨p, (sortByOffset_perm _).mem_iff.mpr upstream, label⟩
  rw [plannedBoot, Option.isSome_or, found, Bool.or_true]

theorem keepUpstream_boot {carried : List Partition}
    (boot : (findLabel "mcuboot" dev.parts).isSome) :
    (findLabel "mcuboot" (keepUpstream edt opts dev carried)).isSome := by
  have kept : (findLabel "mcuboot" (keptParts edt opts dev carried)).isSome := by
    rw [← upstreamPart_again, upstreamPart_boot_again]
    exact plannedBoot_isSome boot
  obtain ⟨p, mem, label⟩ := findLabel_isSome.mp kept
  exact findLabel_isSome.mpr ⟨p, List.mem_append_left _ mem, label⟩

theorem ownParts_boot (fits : task.Fits edt opts) :
    (findLabel "mcuboot" (task.ownParts edt opts noFile)).isSome = (findLabel "mcuboot" task.dev.parts).isSome := by
  cases task with
  | pass dev =>
    have none : findLabel "mcuboot" dev.parts = none := fits
    have filtered : findLabel "mcuboot" (dev.parts.filter (·.label ∉ appPartitionLabels)) = .none := by
      refine List.find?_eq_none.mpr fun p mem => ?_
      exact List.find?_eq_none.mp none p (List.mem_of_mem_filter mem)
    rw [Task.ownParts, Task.dev, filtered, none]
  | move dev ext boot =>
    have found : findLabel "mcuboot" dev.parts = some boot := fits.1
    rw [Task.dev, found]
    exact findLabel_isSome.mpr ⟨bootPartition boot.offset (grownBootSize opts dev boot), by
      simp [Task.ownParts, internalPlan], rfl⟩
  | keep dev =>
    rw [Task.dev, fits.1]
    exact keepUpstream_boot fits.1

end Runs

/-! ### When the second run changes nothing -/

def Task.ext : Task → Option FlashDevice
  | .move _ ext _ => some ext
  | _ => none

/-- No flash that takes a second slot is planned for itself as well. -/
def Apart (edt : Edt) (opts : PlanOptions) : Prop :=
  ∀ task ∈ boardTasks edt opts, ∀ ext, task.ext = some ext → ∀ other ∈ boardTasks edt opts,
    other.dev.devLabel ≠ ext.devLabel

/-- What keeps the partitions of a task as they are planned. -/
def Task.Settled (edt : Edt) (opts : PlanOptions) (deletedDevices : List String) : Task → Prop
  -- A data flash that gets the nvm partition has partitions in the second run, and loses it.
  | .pass dev => dev ∈ dataFlash edt → nvmParts dev ≠ [] → ∃ p ∈ dev.parts, p.label ∉ appPartitionLabels
  -- The size of a storage partition that moves is not found again.
  | .move dev _ _ => opts.externalStorage = true → upstreamStorageSize dev = alignUp storageSize dev.eraseSize
  -- Partitions of other owners that are written to the file are carried, and then no slot is resized.
  | .keep dev =>
    (∃ p ∈ untouchedParts edt opts dev [], (dev.devLabel ∈ deletedDevices ∨ p.label ∈ edt.forkSized) ∧
      p.nodeLabel ∉ managedNodeLabels) ∨ SlotsSettled edt opts dev

section Settle

variable {edt : Edt} {opts : PlanOptions} {deletedDevices : List String} {existing : Existing} {list : List Task}
variable {label : String} {task : Task} {dev ext : FlashDevice} {boot p : Partition} {carried : List Partition}

theorem spilled_other (other : ∀ ext, task.ext = some ext → ext.devLabel ≠ label) :
    task.spilled edt opts existing label = [] := by
  cases task with
  | pass dev => rfl
  | keep dev => rfl
  | move dev ext boot => exact if_neg (other ext rfl)

theorem taskParts_own (distinct : (list.map (·.dev.devLabel)).Nodup) (mem : task ∈ list)
    (same : task.dev.devLabel = label) (others : ∀ other ∈ list, ∀ ext, other.ext = some ext → ext.devLabel ≠ label) :
    taskParts edt opts existing list label = task.ownParts edt opts existing := by
  have own : taskParts edt opts existing list label =
      list.flatMap fun task => if task.dev.devLabel = label then task.ownParts edt opts existing else [] := by
    refine List.flatMap_congr fun other inList => ?_
    rw [spilled_other (others other inList), List.append_nil]
  rw [own]
  exact flatMap_key _ distinct mem same

theorem taskParts_spilled (others : ∀ task ∈ list, task.dev.devLabel ≠ label) :
    taskParts edt opts existing list label = list.flatMap (·.spilled edt opts existing label) := by
  refine List.flatMap_congr fun task inList => ?_
  rw [if_neg (others task inList), List.nil_append]

theorem nvmFor_listed {devs : List FlashDevice} {listed : List String} (mem : label ∈ listed) :
    nvmFor devs listed label = [] := by
  refine List.flatMap_eq_nil_iff.mpr fun dev _ => ?_
  split
  next same => rw [if_pos (same ▸ mem)]
  · rfl

theorem nvmFor_refit {layout : Layout} (devs : List FlashDevice) (listed : List String) :
    nvmFor (devs.map (·.refit layout)) listed label = nvmFor devs listed label := by
  unfold nvmFor
  rw [List.flatMap_map]
  rfl

theorem plan_devLabel {entry : PlannedDevice}
    (mem : entry ∈ task.plan edt opts existing deletedDevices) :
    entry.devLabel = task.dev.devLabel ∨ ∃ ext, task.ext = some ext ∧ entry.devLabel = ext.devLabel := by
  cases task with
  | pass dev =>
    simp only [Task.plan, passThrough, List.mem_ite_nil_left, List.mem_singleton] at mem
    exact .inl (mem.2 ▸ rfl)
  | move dev ext boot =>
    simp only [Task.plan, moveExternal, List.mem_cons, List.not_mem_nil, or_false] at mem
    rcases mem with rfl | rfl
    · exact .inl rfl
    · exact .inr ⟨ext, rfl, rfl⟩
  | keep dev =>
    simp only [Task.plan, List.mem_singleton] at mem
    exact .inl (mem ▸ rfl)

theorem listed_of_boot (mem : task ∈ list) (boot : ∀ dev, task ≠ .pass dev) :
    task.dev.devLabel ∈ listedLabels edt opts existing deletedDevices list := by
  cases task with
  | pass dev => exact absurd rfl (boot dev)
  | move dev ext boot =>
    exact List.mem_map.mpr ⟨_, List.mem_flatMap.mpr ⟨_, mem, List.mem_cons_self⟩, rfl⟩
  | keep dev => exact List.mem_map.mpr ⟨_, List.mem_flatMap.mpr ⟨_, mem, List.mem_singleton.mpr rfl⟩, rfl⟩

theorem listed_pass (distinct : (list.map (·.dev.devLabel)).Nodup) (mem : .pass dev ∈ list)
    (others : ∀ other ∈ list, ∀ ext, other.ext = some ext → ext.devLabel ≠ dev.devLabel) :
    dev.devLabel ∈ listedLabels edt opts existing deletedDevices list ↔ dev.parts ≠ [] := by
  constructor
  · intro listed empty
    obtain ⟨entry, planned, same⟩ := List.mem_map.mp listed
    obtain ⟨task, inList, ofTask⟩ := List.mem_flatMap.mp planned
    rcases plan_devLabel ofTask with own | ⟨ext, moves, spill⟩
    · obtain rfl := eq_of_key distinct inList mem (own.symm.trans same)
      simp [Task.plan, passThrough, empty] at ofTask
    · exact others task inList ext moves (spill.symm.trans same)
  · intro some
    obtain ⟨entry, planned, same⟩ : ∃ entry ∈ Task.plan edt opts existing deletedDevices (.pass dev),
        entry.devLabel = dev.devLabel := by simp [Task.plan, passThrough, some]
    exact List.mem_map.mpr ⟨entry, List.mem_flatMap.mpr ⟨_, mem, planned⟩, same⟩

/-! ### What the file of the first run carries -/

theorem defines_flatMap {α : Type} (list : List α) (plan : α → List PlannedDevice) :
    Defines (list.flatMap plan) label ↔ ∃ a ∈ list, Defines (plan a) label := by
  simp only [Defines, List.mem_flatMap]
  constructor
  · rintro ⟨entry, ⟨a, inList, planned⟩, rest⟩
    exact ⟨a, inList, entry, planned, rest⟩
  · rintro ⟨a, inList, entry, planned, rest⟩
    exact ⟨entry, ⟨a, inList, planned⟩, rest⟩

/-- Only what stays of the upstream layout can be of another owner. -/
theorem mem_keepUpstream_foreign (foreign : p.nodeLabel ∉ managedNodeLabels) :
    p ∈ keepUpstream edt opts dev carried ↔ p ∈ untouchedParts edt opts dev carried := by
  have tail : ∀ cursor, p ∉ appTail edt opts dev cursor := fun cursor mem => foreign (appTail_label cursor p mem).2
  have resized : p ∉ resizedParts edt opts dev carried := by
    intro mem
    rcases List.mem_append.mp mem with boot | slot
    · exact foreign (by simp [(pinnedBoot_label p (Option.mem_toList.mp boot)).2, managedNodeLabels])
    · exact foreign (resizedSlots_label p slot).2
  rw [keepUpstream, List.mem_append, keptParts_perm.mem_iff, List.mem_append]
  tauto

theorem untouched_predefined (mem : p ∈ untouchedParts edt opts dev carried) :
    p.label ∉ upstreamPredefined edt opts dev carried deletedDevices ↔
      dev.devLabel ∈ deletedDevices ∨ p.label ∈ edt.forkSized := by
  obtain ⟨upstream, stays⟩ := List.mem_filter.mp mem
  simp only [resizedSlots, newBoot, plannedBoot, upstreamPart, slotLabels, bootLabels] at stays
  grind [upstreamPredefined]

theorem internalPlan_managed :
    ∀ p ∈ internalPlan edt opts dev ext noFile boot, p.nodeLabel ∈ managedNodeLabels := by
  intro p mem
  simp only [internalPlan, List.mem_append, List.mem_cons, List.not_mem_nil, or_false, List.mem_ite_nil_right,
    List.mem_ite_nil_left] at mem
  rcases mem with ((rfl | rfl) | ⟨_, rfl⟩) | ⟨_, rfl⟩
  · simp [bootPartition, managedNodeLabels]
  · simp [slot0Partition, managedNodeLabels]
  · exact (nvm_managed _ _).2
  · exact (storage_managed _ _).2

theorem move_defines_nothing :
    ¬ Defines (Task.plan edt opts noFile deletedDevices (.move dev ext boot)) label := by
  rintro ⟨entry, planned, _, p, new, foreign⟩
  have mem : p ∈ entry.parts := List.mem_of_mem_filter new
  simp only [Task.plan, moveExternal, FlashDevice.planned, List.mem_cons, List.not_mem_nil, or_false,
    carriedParts_noFile, List.append_nil] at planned
  rcases planned with rfl | rfl
  · exact foreign (internalPlan_managed p mem)
  · have spilled : p ∈ Task.spilled edt opts noFile ext.devLabel (.move dev ext boot) := by
      simpa only [Task.spilled, if_true, carriedParts_noFile, List.append_nil] using mem
    exact foreign (spilled_managed p spilled).2

theorem Task.refit_devLabel (task : Task) (layout : Layout) : (task.refit layout).dev.devLabel = task.dev.devLabel := by
  cases task <;> rfl

theorem Task.refit_ext {layout : Layout} (moves : (task.refit layout).ext = some ext) :
    ∃ old, task.ext = some old ∧ ext.devLabel = old.devLabel := by
  cases task with
  | pass dev => cases moves
  | keep dev => cases moves
  | move dev old boot =>
    cases moves
    exact ⟨old, rfl, rfl⟩

/-- Only one device has a boot partition. -/
def SingleBoot (edt : Edt) : Prop :=
  ∀ dev ∈ edt.devices, ∀ other ∈ edt.devices, (findLabel "mcuboot" dev.parts).isSome →
    (findLabel "mcuboot" other.parts).isSome → dev.devLabel = other.devLabel

theorem slot1_spilled (dev ext : FlashDevice) (boot : Partition) :
    0 < (Task.spilled edt opts existing ext.devLabel (.move dev ext boot)).countP (·.label = some "image-1") := by
  refine List.countP_pos_iff.mpr ⟨slot1Partition (movedSlot1Offset edt dev ext)
    (movedSlot1Size edt opts dev ext existing boot), ?_, rfl⟩
  simp [Task.spilled, externalFront]

end Settle

/-! ### Lists -/

theorem flatMap_inj {α β : Type} {list : List α} {f g : α → List β} (lengths : ∀ a ∈ list, (f a).length = (g a).length)
    (same : list.flatMap f = list.flatMap g) : ∀ a ∈ list, f a = g a := by
  induction list with
  | nil => simp
  | cons a list ih =>
    obtain ⟨length, lengths⟩ := List.forall_mem_cons.mp lengths
    obtain ⟨first, rest⟩ := List.append_inj same length
    exact List.forall_mem_cons.mpr ⟨first, ih lengths rest⟩

theorem countP_flatMap_le {α β : Type} {list : List α} (keep : β → Bool) (f : α → List β) {a : α} (mem : a ∈ list) :
    (f a).countP keep ≤ (list.flatMap f).countP keep := by
  refine List.Sublist.countP_le ?_
  exact List.sublist_flatten_of_mem (List.mem_map_of_mem mem)

theorem countP_flatMap_two {α β : Type} {list : List α} (keep : β → Bool) (f : α → List β) {a b : α} (first : a ∈ list)
    (second : b ∈ list) (other : a ≠ b) : (f a).countP keep + (f b).countP keep ≤ (list.flatMap f).countP keep := by
  obtain ⟨before, after, rfl⟩ := List.append_of_mem first
  have rest : b ∈ before ++ after := by
    rcases List.mem_append.mp second with inBefore | inAfter
    · exact List.mem_append_left _ inBefore
    · exact List.mem_append_right _ ((List.mem_cons.mp inAfter).resolve_left other.symm)
  have le := countP_flatMap_le keep f rest
  simp only [List.flatMap_append, List.flatMap_cons, List.countP_append] at le ⊢
  omega

/-! ### Both runs -/

/-- What both runs plan with. -/
structure TwoRuns where
  edt : Edt
  opts : PlanOptions
  deleted : List String
  distinct : (edt.devices.map (·.devLabel)).Nodup

namespace TwoRuns

section Plans

variable (r : TwoRuns)

abbrev tasks : List Task := boardTasks r.edt r.opts

abbrev first : Layout := plannedFor (firstPlan r.edt r.opts r.deleted)

abbrev second : Layout := plannedFor (secondPlan r.edt r.opts r.deleted)

abbrev again (task : Task) : Task := task.refit r.first

abbrev edtAgain : Edt := secondEdt r.edt r.opts r.deleted

abbrev file : Existing := readBack r.edt r.opts r.deleted

abbrev ownAgain (task : Task) : List Partition := (r.again task).ownParts r.edtAgain r.opts r.file

abbrev spilledAgain (label : String) (task : Task) : List Partition :=
  (r.again task).spilled r.edtAgain r.opts r.file label

abbrev listed : List String := listedLabels r.edt r.opts noFile r.deleted r.tasks

abbrev listedAgain : List String := listedLabels r.edtAgain r.opts r.file r.deleted (r.tasks.map r.again)

end Plans

variable {r : TwoRuns} {label : String} {task : Task} {dev ext : FlashDevice} {boot : Partition}

theorem tasks_distinct : (r.tasks.map (·.dev.devLabel)).Nodup := by
  have sublist : ((r.tasks.map Task.dev).map (·.devLabel)).Sublist (r.edt.devices.map (·.devLabel)) :=
    (tasks_sublist [] r.edt.devices).map _
  rw [List.map_map] at sublist
  exact r.distinct.sublist sublist

theorem first_eq : r.first label = taskParts r.edt r.opts noFile r.tasks label ++
    nvmFor (dataFlash r.edt) r.listed label := plannedFor_planPartitions _ _ _

theorem first_boot (mem : task ∈ r.tasks) : (findLabel "mcuboot" (r.first task.dev.devLabel)).isSome =
    (findLabel "mcuboot" task.dev.parts).isSome := by
  rw [← ownParts_boot (tasks_fit [] _ task mem), Bool.eq_iff_iff, findLabel_isSome, findLabel_isSome, first_eq]
  constructor
  · rintro ⟨p, planned, label⟩
    rcases List.mem_append.mp planned with byTask | nvm
    · obtain ⟨other, inTasks, parts⟩ := List.mem_flatMap.mp byTask
      rcases List.mem_append.mp parts with own | spilled
      · rw [List.mem_ite_nil_right] at own
        obtain rfl := eq_of_key tasks_distinct inTasks mem own.1
        exact ⟨p, own.2, label⟩
      · have managed := (spilled_managed p spilled).1
        simp [label, spillLabels] at managed
    · have managed := (nvmFor_managed p nvm).1
      simp [label] at managed
  · rintro ⟨p, own, label⟩
    refine ⟨p, List.mem_append_left _ (List.mem_flatMap.mpr ⟨task, mem, List.mem_append_left _ ?_⟩), label⟩
    rwa [if_pos rfl]

theorem secondTasks : boardTasks r.edtAgain r.opts = r.tasks.map r.again :=
  tasks_refit [] r.edt.devices fun _ mem => first_boot mem

theorem second_eq : r.second label = taskParts r.edtAgain r.opts r.file (r.tasks.map r.again) label ++
    nvmFor (dataFlash r.edt) r.listedAgain label := by
  rw [second, secondPlan, plannedFor_planPartitions, secondTasks, secondEdt, dataFlash_refit, nvmFor_refit]
  rfl

theorem first_defines : Defines (firstPlan r.edt r.opts r.deleted) label ↔
    ∃ task ∈ r.tasks, Defines (task.plan r.edt r.opts noFile r.deleted) label := by
  rw [firstPlan, planPartitionsPredefined, planDevices_eq, ← defines_flatMap]
  simp only [Defines, List.mem_append, or_and_right, exists_or]
  refine or_iff_left ?_
  rintro ⟨entry, planned, _, p, new, foreign⟩
  obtain ⟨dev, _, nvm⟩ := List.mem_flatMap.mp planned
  simp only [List.mem_ite_nil_right, List.mem_singleton] at nvm
  obtain ⟨_, rfl⟩ := nvm
  have mem : p ∈ [nvmPartition 0 (alignDown dev.totalSize dev.eraseSize)] := List.mem_of_mem_filter new
  rw [List.mem_singleton.mp mem] at foreign
  exact foreign (nvm_managed _ _).2

theorem nvmFor_dataFlash (mem : dev ∈ dataFlash r.edt) {listed : List String}
    (unlisted : dev.devLabel ∉ listed) : nvmFor (dataFlash r.edt) listed dev.devLabel = nvmParts dev := by
  have labels : ((dataFlash r.edt).map (·.devLabel)).Nodup := r.distinct.sublist (List.filter_sublist.map _)
  unfold nvmFor
  rw [flatMap_key _ labels mem rfl, if_neg unlisted]

theorem nvmFor_other (mem : dev ∈ r.edt.devices) (other : dev ∉ dataFlash r.edt)
    (listed : List String) : nvmFor (dataFlash r.edt) listed dev.devLabel = [] :=
  flatMap_key_none _ fun _ inData same =>
    other (eq_of_key r.distinct (List.mem_of_mem_filter inData) mem same ▸ inData)

theorem dataFlash_task (mem : dev ∈ dataFlash r.edt) : ∃ task ∈ r.tasks, task.dev.devLabel = dev.devLabel := by
  have inDevices := List.mem_of_mem_filter mem
  have complete : dev.devLabel ∈ [] ∨ (∃ task ∈ r.tasks, task.dev.devLabel = dev.devLabel) ∨
      ∃ ext ∈ externalFlash r.edt, ext.devLabel = dev.devLabel := tasks_complete [] r.edt.devices dev inDevices
  rcases complete with none | task | ⟨ext, external, same⟩
  · cases none
  · exact task
  · obtain rfl := eq_of_key r.distinct (List.mem_of_mem_filter external) inDevices same
    have internal := of_decide_eq_true (List.mem_filter.mp mem).2
    exact absurd internal.1 (of_decide_eq_true (List.mem_filter.mp external).2).1

theorem nvmFor_untasked (others : ∀ task ∈ r.tasks, task.dev.devLabel ≠ label) (listed : List String) :
    nvmFor (dataFlash r.edt) listed label = [] := by
  refine flatMap_key_none _ fun data inData same => ?_
  obtain ⟨task, inTasks, own⟩ := dataFlash_task inData
  exact others task inTasks (own.trans same)

/-! ### The device of a task -/

theorem again_distinct : ((r.tasks.map r.again).map (·.dev.devLabel)).Nodup := by
  rw [List.map_map]
  have same : ((fun task : Task => task.dev.devLabel) ∘ r.again) = fun task : Task => task.dev.devLabel :=
    funext fun task => task.refit_devLabel _
  rw [same]
  exact tasks_distinct

theorem carries_moved (moved : ∀ task ∈ r.tasks, task.dev.devLabel = label → task.ext ≠ none) :
    carriedParts r.file label = [] := by
  rw [carriedParts_eq_nil, file, readBack, carries_generated, first_defines]
  rintro ⟨task, inTasks, defines⟩
  have moves : task.ext ≠ none := by
    obtain ⟨entry, planned, same, _⟩ := defines
    rcases plan_devLabel planned with own | ⟨ext, moves, _⟩
    · exact moved task inTasks (own.symm.trans same)
    · simp [moves]
  cases task with
  | pass dev => exact moves rfl
  | keep dev => exact moves rfl
  | move dev ext boot => exact move_defines_nothing defines

theorem first_spilled (others : ∀ task ∈ r.tasks, task.dev.devLabel ≠ label) :
    r.first label = r.tasks.flatMap (·.spilled r.edt r.opts noFile label) := by
  rw [first_eq, taskParts_spilled others, nvmFor_untasked others, List.append_nil]

theorem second_spilled (others : ∀ task ∈ r.tasks, task.dev.devLabel ≠ label) :
    r.second label = r.tasks.flatMap (r.spilledAgain label) := by
  have others' : ∀ task ∈ r.tasks.map r.again, task.dev.devLabel ≠ label := by
    intro task inTasks
    obtain ⟨old, inFirst, rfl⟩ := List.mem_map.mp inTasks
    rw [old.refit_devLabel]
    exact others old inFirst
  rw [second_eq, taskParts_spilled others', nvmFor_untasked others, List.append_nil, List.flatMap_map]

section Apart

variable (apart : Apart r.edt r.opts)
include apart

theorem apart_own (mem : task ∈ r.tasks) :
    ∀ other ∈ r.tasks, ∀ ext, other.ext = some ext → ext.devLabel ≠ task.dev.devLabel :=
  fun other inTasks ext moves => (apart other inTasks ext moves task mem).symm

theorem apart_again (mem : task ∈ r.tasks) :
    ∀ other ∈ r.tasks.map r.again, ∀ ext, other.ext = some ext → ext.devLabel ≠ task.dev.devLabel := by
  intro other inTasks ext moves
  obtain ⟨old, inFirst, rfl⟩ := List.mem_map.mp inTasks
  obtain ⟨oldExt, moved, same⟩ := Task.refit_ext moves
  rw [same]
  exact apart_own apart mem old inFirst oldExt moved

theorem first_own (mem : task ∈ r.tasks) : r.first task.dev.devLabel =
    task.ownParts r.edt r.opts noFile ++ nvmFor (dataFlash r.edt) r.listed task.dev.devLabel := by
  rw [first_eq, taskParts_own tasks_distinct mem rfl (apart_own apart mem)]

theorem second_own (mem : task ∈ r.tasks) : r.second task.dev.devLabel =
    r.ownAgain task ++ nvmFor (dataFlash r.edt) r.listedAgain task.dev.devLabel := by
  rw [second_eq, taskParts_own again_distinct (List.mem_map_of_mem mem) (task.refit_devLabel _) (apart_again apart mem)]

theorem first_boots (mem : task ∈ r.tasks) (boot : ∀ dev, task ≠ .pass dev) :
    r.first task.dev.devLabel = task.ownParts r.edt r.opts noFile := by
  rw [first_own apart mem, nvmFor_listed (listed_of_boot mem boot), List.append_nil]

theorem second_boots (mem : task ∈ r.tasks) (boot : ∀ dev, task ≠ .pass dev) :
    r.second task.dev.devLabel = r.ownAgain task := by
  have boot' : ∀ dev, r.again task ≠ .pass dev := by
    intro dev same
    cases task with
    | pass dev => exact boot dev rfl
    | move dev ext boot => cases same
    | keep dev => cases same
  rw [second_own apart mem, nvmFor_listed, List.append_nil]
  rw [← task.refit_devLabel r.first]
  exact listed_of_boot (List.mem_map_of_mem mem) boot'

theorem carries_keep (mem : .keep dev ∈ r.tasks) : carriedParts r.file dev.devLabel ≠ [] ↔
    ∃ p ∈ untouchedParts r.edt r.opts dev [], (dev.devLabel ∈ r.deleted ∨ p.label ∈ r.edt.forkSized) ∧
      p.nodeLabel ∉ managedNodeLabels := by
  rw [ne_eq, carriedParts_eq_nil, not_not, file, readBack, carries_generated, first_defines]
  constructor
  · rintro ⟨task, inTasks, entry, planned, same, p, new, foreign⟩
    have own : task.dev.devLabel = dev.devLabel := by
      rcases plan_devLabel planned with own | ⟨ext, moves, spill⟩
      · exact own.symm.trans same
      · exact absurd (spill.symm.trans same) (apart_own apart mem task inTasks ext moves)
    obtain rfl := eq_of_key tasks_distinct inTasks mem own
    simp only [Task.plan, List.mem_singleton, carriedParts_noFile] at planned
    subst planned
    obtain ⟨inParts, label⟩ := List.mem_filter.mp new
    have kept := (mem_keepUpstream_foreign foreign).mp inParts
    exact ⟨p, kept, (untouched_predefined kept).mp (of_decide_eq_true label), foreign⟩
  · rintro ⟨p, kept, label, foreign⟩
    refine ⟨_, mem, _, List.mem_singleton.mpr rfl, rfl, p, List.mem_filter.mpr ?_, foreign⟩
    rw [carriedParts_noFile]
    exact ⟨(mem_keepUpstream_foreign foreign).mpr kept, decide_eq_true ((untouched_predefined kept).mpr label)⟩

theorem keep_stable (mem : .keep dev ∈ r.tasks) : r.second dev.devLabel = r.first dev.devLabel ↔
    Task.Settled r.edt r.opts r.deleted (.keep dev) := by
  have first : r.first dev.devLabel = Task.ownParts r.edt r.opts noFile (.keep dev) := first_boots apart mem (by simp)
  rw [Task.ownParts, carriedParts_noFile] at first
  have second : r.second dev.devLabel = _ := second_boots apart mem (by simp)
  have refitted : dev.refit r.first = keptDevice r.edt r.opts dev [] := by
    rw [FlashDevice.refit, first]
    rfl
  rw [second, first, ownAgain, again, Task.refit, Task.ownParts, refitted, edtAgain, secondEdt, keepUpstream_refit,
    keep_again_iff, Task.Settled]
  exact or_congr_left (carries_keep apart mem)

theorem carries_move (mem : .move dev ext boot ∈ r.tasks) :
    carriedParts r.file dev.devLabel = [] ∧ carriedParts r.file ext.devLabel = [] := by
  constructor
  · refine carries_moved fun task inTasks same => ?_
    rw [eq_of_key tasks_distinct inTasks mem same]
    exact Option.some_ne_none ext
  · exact carries_moved fun task inTasks same => absurd same (apart _ mem ext rfl task inTasks)

theorem first_move (mem : .move dev ext boot ∈ r.tasks) :
    r.first dev.devLabel = internalPlan r.edt r.opts dev ext noFile boot := by
  have first : r.first dev.devLabel = Task.ownParts r.edt r.opts noFile (.move dev ext boot) :=
    first_boots apart mem (by simp)
  rwa [Task.ownParts, carriedParts_noFile, List.append_nil] at first

theorem again_move (mem : .move dev ext boot ∈ r.tasks) : r.again (.move dev ext boot) =
    .move (dev.refit r.first) (ext.refit r.first) (bootPartition boot.offset (grownBootSize r.opts dev boot)) := by
  rw [again, Task.refit, first_move apart mem, findLabel_boot_again, Option.getD_some]

theorem move_stable (mem : .move dev ext boot ∈ r.tasks) : r.second dev.devLabel = r.first dev.devLabel := by
  have second : r.second dev.devLabel = _ := second_boots apart mem (by simp)
  have planned := first_move apart mem
  obtain ⟨plain, _⟩ := carries_move apart mem
  rw [second, ownAgain, again_move apart mem, Task.ownParts, refit_devLabel, plain, List.append_nil, edtAgain, secondEdt,
    internalPlan_again plain planned, planned]

section Pass

variable (passing : .pass dev ∈ r.tasks)
include passing

theorem listed_iff : dev.devLabel ∈ r.listed ↔ dev.parts ≠ [] :=
  listed_pass tasks_distinct passing (apart_own apart passing)

theorem listedAgain_iff : dev.devLabel ∈ r.listedAgain ↔ r.first dev.devLabel ≠ [] :=
  listed_pass again_distinct (List.mem_map_of_mem passing) (apart_again apart passing)

theorem first_pass : r.first dev.devLabel = Task.ownParts r.edt r.opts noFile (.pass dev) ++
    nvmFor (dataFlash r.edt) r.listed dev.devLabel := first_own apart passing

theorem second_pass : r.second dev.devLabel = Task.ownParts r.edt r.opts noFile (.pass dev) ++
    nvmFor (dataFlash r.edt) r.listedAgain dev.devLabel := by
  have again : r.ownAgain (.pass dev) = Task.ownParts r.edt r.opts noFile (.pass dev) := by
    simp only [ownAgain, TwoRuns.again, Task.refit, Task.ownParts, refit_parts, first_pass apart passing,
      List.filter_append, List.filter_filter, Bool.and_self]
    rw [nvmFor_filtered, List.append_nil]
  rw [← again]
  exact second_own apart passing

theorem nvm_stable (data : dev ∈ dataFlash r.edt) : nvmFor (dataFlash r.edt) r.listedAgain dev.devLabel =
    nvmFor (dataFlash r.edt) r.listed dev.devLabel ↔
      (nvmParts dev ≠ [] → ∃ p ∈ dev.parts, p.label ∉ appPartitionLabels) := by
  have listed := listed_iff apart passing
  have listed' := listedAgain_iff apart passing
  have first := first_pass apart passing
  have some : (∃ p ∈ dev.parts, p.label ∉ appPartitionLabels) ↔ Task.ownParts r.edt r.opts noFile (.pass dev) ≠ [] := by
    simp [Task.ownParts, List.filter_eq_nil_iff]
  rw [some]
  by_cases kept : Task.ownParts r.edt r.opts noFile (.pass dev) = []
  · rw [kept, List.nil_append] at first
    have settled : (nvmParts dev ≠ [] → ([] : List Partition) ≠ []) ↔ nvmParts dev = [] := by simp
    rw [kept, settled]
    by_cases empty : dev.parts = []
    · -- The nvm partition is there after the first run, and the second one lists the device for it.
      have before := nvmFor_dataFlash data (mt listed.mp (not_not_intro empty))
      rw [before] at first ⊢
      by_cases nvm : nvmParts dev = []
      · rw [nvmFor_dataFlash data (mt listed'.mp (not_not_intro (first.trans nvm)))]
        exact iff_of_true rfl nvm
      · rw [nvmFor_listed (listed'.mpr (first ▸ nvm))]
        exact eq_comm
    · -- Only partitions of the application: the device is listed, and in the second run it is not.
      rw [nvmFor_listed (listed.mpr empty)] at first ⊢
      rw [nvmFor_dataFlash data (mt listed'.mp (not_not_intro first))]
  · -- Other partitions: the device is listed in both runs.
    have parts : dev.parts ≠ [] := fun empty => kept (by rw [Task.ownParts, empty, List.filter_nil])
    rw [nvmFor_listed (listed.mpr parts), List.append_nil] at first
    rw [nvmFor_listed (listed.mpr parts), nvmFor_listed (listed'.mpr (first ▸ kept))]
    exact iff_of_true rfl fun _ => kept

theorem pass_stable : r.second dev.devLabel = r.first dev.devLabel ↔
    Task.Settled r.edt r.opts r.deleted (.pass dev) := by
  rw [second_pass apart passing, first_pass apart passing, List.append_cancel_left_eq]
  have inDevices : dev ∈ r.edt.devices := (tasks_sublist [] r.edt.devices).subset (List.mem_map_of_mem passing)
  by_cases data : dev ∈ dataFlash r.edt
  · exact (nvm_stable apart passing data).trans (by simp [Task.Settled, data])
  · rw [nvmFor_other inDevices data, nvmFor_other inDevices data]
    exact iff_of_true rfl fun inData => absurd inData data

theorem second_nvm (empty : dev.parts = []) (nvm : r.first dev.devLabel ≠ []) : r.second dev.devLabel = [] := by
  rw [second_pass apart passing, Task.ownParts, empty, List.filter_nil, List.nil_append]
  exact nvmFor_listed ((listedAgain_iff apart passing).mpr nvm)

end Pass

/-! ### The flash that takes a second slot -/

theorem spilled_stable (others : ∀ task ∈ r.tasks, task.dev.devLabel ≠ label)
    (settled : ∀ task ∈ r.tasks, task.Settled r.edt r.opts r.deleted) : r.second label = r.first label := by
  rw [first_spilled others, second_spilled others]
  refine List.flatMap_congr fun task mem => ?_
  cases task with
  | pass dev => rfl
  | keep dev => rfl
  | move dev ext boot =>
    obtain ⟨plain, plainExt⟩ := carries_move apart mem
    rw [spilledAgain, again_move apart mem, edtAgain, secondEdt]
    exact spilled_again plain plainExt (first_move apart mem) (settled _ mem) label

theorem storage_settled (stable : Stable r.edt r.opts r.deleted) (mem : .move dev ext boot ∈ r.tasks) :
    Task.Settled r.edt r.opts r.deleted (.move dev ext boot) := by
  intro external
  have others := fun task inTasks => apart _ mem ext rfl task inTasks
  have same : r.second ext.devLabel = r.first ext.devLabel := stable ext.devLabel
  have storages := congrArg (List.filter (·.label = some "storage")) same
  rw [first_spilled others, second_spilled others, List.filter_flatMap, List.filter_flatMap] at storages
  have found : ∀ dev ext' boot, .move dev ext' boot ∈ r.tasks → ∃ first second,
      (Task.spilled r.edt r.opts noFile ext.devLabel (.move dev ext' boot)).filter (·.label = some "storage") =
        (if ext'.devLabel = ext.devLabel ∧ r.opts.externalStorage then [storagePartition first (upstreamStorageSize dev)]
          else []) ∧
      (r.spilledAgain ext.devLabel (.move dev ext' boot)).filter (·.label = some "storage") =
        (if ext'.devLabel = ext.devLabel ∧ r.opts.externalStorage then [storagePartition second
          (alignUp storageSize dev.eraseSize)] else []) := by
    intro dev ext' boot inTasks
    obtain ⟨_, plainExt⟩ := carries_move apart inTasks
    obtain ⟨first, inFirst⟩ := spilled_storage r.edt r.opts dev ext' boot (carriedParts_noFile _) ext.devLabel
    obtain ⟨second, inSecond⟩ := spilled_storage r.edtAgain r.opts (dev.refit r.first) (ext'.refit r.first)
      (bootPartition boot.offset (grownBootSize r.opts dev boot)) plainExt ext.devLabel
    rw [upstreamStorageSize_again (first_move apart inTasks), if_pos external, refit_devLabel] at inSecond
    refine ⟨first, second, inFirst, ?_⟩
    rw [spilledAgain, again_move apart inTasks]
    exact inSecond
  have pointwise := flatMap_inj (fun task inTasks => ?_) storages _ mem
  · obtain ⟨first, second, inFirst, inSecond⟩ := found dev ext boot mem
    simp only [inFirst, inSecond, external, and_self, if_true, storagePartition, List.cons.injEq, Partition.mk.injEq,
      true_and, and_true] at pointwise
    exact pointwise.2.symm
  · cases task with
    | pass dev => rfl
    | keep dev => rfl
    | move dev ext' boot =>
      obtain ⟨first, second, inFirst, inSecond⟩ := found dev ext' boot inTasks
      rw [inFirst, inSecond]
      split <;> rfl

theorem stable_iff_settled : Stable r.edt r.opts r.deleted ↔
    ∀ task ∈ r.tasks, task.Settled r.edt r.opts r.deleted := by
  constructor
  · intro stable task mem
    cases task with
    | pass dev => exact (pass_stable apart mem).mp (stable _)
    | move dev ext boot => exact storage_settled apart stable mem
    | keep dev => exact (keep_stable apart mem).mp (stable _)
  · intro settled label
    by_cases own : ∃ task ∈ r.tasks, task.dev.devLabel = label
    · obtain ⟨task, mem, rfl⟩ := own
      cases task with
      | pass dev => exact (pass_stable apart mem).mpr (settled _ mem)
      | move dev ext boot => exact move_stable apart mem
      | keep dev => exact (keep_stable apart mem).mpr (settled _ mem)
    · exact spilled_stable apart (fun task mem same => own ⟨task, mem, same⟩) settled

end Apart

/-! ### A flash that is planned twice -/

/-- The second run passes the moved slot through, and moves it once more. -/
theorem apart_of_stable (single : SingleBoot r.edt) (stable : Stable r.edt r.opts r.deleted) : Apart r.edt r.opts := by
  intro task mem ext moves other inTasks same
  cases task with
  | pass dev => cases moves
  | keep dev => cases moves
  | move dev ext' boot =>
    cases moves
    obtain ⟨found, exts, grow⟩ := tasks_fit [] r.edt.devices _ mem
    have apartLabels : ext.devLabel ≠ dev.devLabel := (growExt_subset (grow ▸ List.mem_cons_self)).2
    have inDevices : ∀ task ∈ r.tasks, task.dev ∈ r.edt.devices := fun task inTasks =>
      (tasks_sublist [] r.edt.devices).subset (List.mem_map_of_mem inTasks)
    have noBoot : findLabel "mcuboot" other.dev.parts = none := by
      cases second : findLabel "mcuboot" other.dev.parts with
      | none => rfl
      | some boot' =>
        have labels := single dev (inDevices _ mem) other.dev (inDevices _ inTasks) (by rw [found]; rfl)
          (by rw [second]; rfl)
        exact absurd (same.symm.trans labels.symm) apartLabels
    cases other with
    | move dev' ext' boot' => cases (tasks_fit [] r.edt.devices _ inTasks).1.symm.trans noBoot
    | keep dev' =>
      have boots := (tasks_fit [] r.edt.devices _ inTasks).1
      rw [show findLabel "mcuboot" dev'.parts = none from noBoot] at boots
      cases boots
    | pass flash =>
      have label : flash.devLabel = ext.devLabel := same
      -- What the second run passes through has all second slots of the first run.
      have passed : (r.ownAgain (.pass flash)).countP (·.label = some "image-1") =
          (r.first ext.devLabel).countP (·.label = some "image-1") := by
        simp only [ownAgain, again, Task.refit, Task.ownParts, refit_parts, label, List.countP_filter]
        refine List.countP_congr fun p _ => ?_
        simp only [Bool.and_eq_true, decide_eq_true_eq]
        refine and_iff_left_of_imp fun slot1 => ?_
        simp [slot1, appPartitionLabels]
      have counted := countP_flatMap_two (·.label = some "image-1")
        (fun task => (if task.dev.devLabel = ext.devLabel then task.ownParts r.edtAgain r.opts r.file else []) ++
          task.spilled r.edtAgain r.opts r.file ext.devLabel)
        (show _ ∈ r.tasks.map r.again from List.mem_map_of_mem inTasks) (List.mem_map_of_mem mem) (by simp [Task.refit])
      have moved : 0 < ((r.again (.move dev ext boot)).spilled r.edtAgain r.opts r.file ext.devLabel).countP
          (·.label = some "image-1") := slot1_spilled _ _ _
      have again : r.second ext.devLabel = r.first ext.devLabel := stable ext.devLabel
      have stays := congrArg (List.countP (·.label = some "image-1")) again
      rw [second_eq, List.countP_append, taskParts] at stays
      simp only [Task.refit_devLabel, List.countP_append] at counted
      rw [if_pos same, passed] at counted
      omega

end TwoRuns

/-- A second run plans what is there exactly if no flash is planned twice and every task is settled, where only several
boot partitions allow a flash to be planned twice without a change. -/
theorem rerun_stable_iff (edt : Edt) (opts : PlanOptions) (deletedDevices : List String)
    (distinct : (edt.devices.map (·.devLabel)).Nodup) : (Apart edt opts → (Stable edt opts deletedDevices ↔
        ∀ task ∈ boardTasks edt opts, task.Settled edt opts deletedDevices)) ∧
      (SingleBoot edt → Stable edt opts deletedDevices → Apart edt opts) :=
  ⟨TwoRuns.stable_iff_settled (r := ⟨edt, opts, deletedDevices, distinct⟩),
    TwoRuns.apart_of_stable (r := ⟨edt, opts, deletedDevices, distinct⟩)⟩

theorem boardTasks_stock (bootSizeKb slotSizeKb : Option Int) :
    boardTasks stockEdt (pinned bootSizeKb slotSizeKb) = [.keep stockFlash] := rfl

/-- Pinned sizes stay on a board with just one flash. -/
theorem rerun_stable_stock :
    (stockEdt.devices.map (·.devLabel)).Nodup ∧ Stable stockEdt (pinned (some 128) (some 512)) [] := by
  have distinct : (stockEdt.devices.map (·.devLabel)).Nodup := List.nodup_singleton _
  refine ⟨distinct, ((rerun_stable_iff stockEdt (pinned (some 128) (some 512)) [] distinct).1 ?_).mpr ?_⟩
  · rw [Apart, boardTasks_stock]
    simp [Task.ext]
  · rw [boardTasks_stock]
    simp [Task.Settled, SlotsSettled, pinned]

def emptyDataFlash : FlashDevice := .blocks "flash1" 2 true []

def dataFlashEdt : Edt := ⟨[stockFlash, emptyDataFlash], none, true, []⟩

theorem boardTasks_dataFlash :
    boardTasks dataFlashEdt (pinned none none) = [.keep stockFlash, .pass emptyDataFlash] := rfl

/-- The first run gives the data flash an nvm partition, and the second one takes it away. -/
theorem rerun_drops_nvm :
    (dataFlashEdt.devices.map (·.devLabel)).Nodup ∧ SingleBoot dataFlashEdt ∧ Apart dataFlashEdt (pinned none none) ∧
      plannedFor (firstPlan dataFlashEdt (pinned none none) []) "flash1" = [nvmPartition 0 (8 * kb)] ∧
      plannedFor (secondPlan dataFlashEdt (pinned none none) []) "flash1" = [] := by
  have distinct : (dataFlashEdt.devices.map (·.devLabel)).Nodup := by decide
  have single : SingleBoot dataFlashEdt := by
    simp only [SingleBoot, dataFlashEdt]
    decide
  have apart : Apart dataFlashEdt (pinned none none) := by
    rw [Apart, boardTasks_dataFlash]
    simp [Task.ext]
  have mem : .pass emptyDataFlash ∈ boardTasks dataFlashEdt (pinned none none) := by
    rw [boardTasks_dataFlash]
    simp
  have first : plannedFor (firstPlan dataFlashEdt (pinned none none) []) "flash1" = [nvmPartition 0 (8 * kb)] := by
    decide +kernel
  refine ⟨distinct, single, apart, first, ?_⟩
  exact TwoRuns.second_nvm (r := ⟨_, _, [], distinct⟩) apart mem rfl (first.trans_ne (List.cons_ne_nil _ _))

end Adaboot.Planner
