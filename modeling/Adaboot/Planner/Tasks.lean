import Adaboot.Planner.Settled

/-!
# The plan as tasks

The plan as one task for every device (`planDevices_eq`). Other partitions with the boot partitions on the same
devices give the same tasks (`tasks_refit`), whose plans are compared.
-/

namespace Adaboot.Planner

open Spans

/-! ### The tasks of a run -/

/-- What is done with a device that is planned for itself. -/
inductive Task where
  | pass (dev : FlashDevice)
  | move (dev ext : FlashDevice) (boot : Partition)
  | keep (dev : FlashDevice)

def Task.dev : Task → FlashDevice
  | .pass dev => dev
  | .move dev _ _ => dev
  | .keep dev => dev

section Tasks

variable (edt : Edt) (opts : PlanOptions) (existing : Existing) (deletedDevices : List String)

/-- The tasks for the devices, without those in `planned`. -/
def tasks (planned : List String) : List FlashDevice → List Task
  | [] => []
  | dev :: devs =>
    if dev.devLabel ∈ planned then tasks planned devs
    else match findLabel "mcuboot" dev.parts with
      | none => .pass dev :: tasks planned devs
      | some boot =>
        match growExt edt opts dev with
        | ext :: _ => .move dev ext boot :: tasks (dev.devLabel :: ext.devLabel :: planned) devs
        | [] => .keep dev :: tasks planned devs

def Task.plan : Task → List PlannedDevice
  | .pass dev => passThrough deletedDevices dev
  | .move dev ext boot => moveExternal edt opts dev ext existing boot
  | .keep dev =>
    let carried := carriedParts existing dev.devLabel
    [⟨dev.devLabel, dev.totalSize, dev.eraseSize, keepUpstream edt opts dev carried,
      upstreamPredefined edt opts dev carried deletedDevices⟩]

theorem planDevices_eq (planned : List String) (devs : List FlashDevice) :
    planDevices edt opts existing deletedDevices planned devs =
      (tasks edt opts planned devs).flatMap (Task.plan edt opts existing deletedDevices) := by
  induction devs generalizing planned with
  | nil => rfl
  | cons dev devs ih =>
    by_cases mem : dev.devLabel ∈ planned
    · simp only [planDevices, tasks, mem, if_true]
      exact ih planned
    · simp only [planDevices, tasks, mem, if_false]
      cases findLabel "mcuboot" dev.parts with
      | none => exact congrArg _ (ih planned)
      | some boot =>
        cases growExt edt opts dev with
        | nil => exact congrArg _ (ih planned)
        | cons ext exts => exact congrArg (moveExternal edt opts dev ext existing boot ++ ·) (ih _)

variable {edt opts existing deletedDevices}

theorem tasks_sublist (planned : List String) (devs : List FlashDevice) :
    ((tasks edt opts planned devs).map Task.dev).Sublist devs := by
  fun_induction tasks edt opts planned devs with
  | case1 planned => exact .slnil
  | case2 planned dev devs mem ih => exact ih.cons dev
  | case3 planned dev devs mem none ih => exact ih.cons_cons dev
  | case4 planned dev devs mem boot found ext exts grow ih => exact ih.cons_cons dev
  | case5 planned dev devs mem boot found none ih => exact ih.cons_cons dev

def Task.Fits (edt : Edt) (opts : PlanOptions) : Task → Prop
  | .pass dev => findLabel "mcuboot" dev.parts = none
  | .move dev ext boot => findLabel "mcuboot" dev.parts = some boot ∧ ∃ exts, growExt edt opts dev = ext :: exts
  | .keep dev => (findLabel "mcuboot" dev.parts).isSome ∧ growExt edt opts dev = []

theorem tasks_fit (planned : List String) (devs : List FlashDevice) :
    ∀ task ∈ tasks edt opts planned devs, task.Fits edt opts := by
  fun_induction tasks edt opts planned devs with
  | case1 planned => simp
  | case2 planned dev devs mem ih => exact ih
  | case3 planned dev devs mem none ih => exact List.forall_mem_cons.mpr ⟨none, ih⟩
  | case4 planned dev devs mem boot found ext exts grow ih =>
    exact List.forall_mem_cons.mpr ⟨⟨found, exts, grow⟩, ih⟩
  | case5 planned dev devs mem boot found none ih =>
    exact List.forall_mem_cons.mpr ⟨⟨found ▸ rfl, none⟩, ih⟩

theorem growExt_subset {dev ext : FlashDevice} (mem : ext ∈ growExt edt opts dev) :
    ext ∈ externalFlash edt ∧ ext.devLabel ≠ dev.devLabel := by
  unfold growExt at mem
  split at mem
  · exact ⟨List.mem_of_mem_filter mem, of_decide_eq_true (List.mem_filter.mp mem).2⟩
  · cases mem

theorem tasks_complete (planned : List String) (devs : List FlashDevice) : ∀ dev ∈ devs, dev.devLabel ∈ planned ∨
      (∃ task ∈ tasks edt opts planned devs, task.dev.devLabel = dev.devLabel) ∨
      ∃ ext ∈ externalFlash edt, ext.devLabel = dev.devLabel := by
  fun_induction tasks edt opts planned devs with
  | case1 planned => simp
  | case2 planned dev devs mem ih =>
    exact List.forall_mem_cons.mpr ⟨.inl mem, ih⟩
  | case3 planned dev devs mem none ih =>
    refine List.forall_mem_cons.mpr ⟨.inr (.inl ⟨_, List.mem_cons_self, rfl⟩), fun other later => ?_⟩
    exact (ih other later).imp_right (Or.imp_left fun ⟨task, inTasks, same⟩ =>
      ⟨task, List.mem_cons_of_mem _ inTasks, same⟩)
  | case4 planned dev devs mem boot found ext exts grow ih =>
    refine List.forall_mem_cons.mpr ⟨.inr (.inl ⟨_, List.mem_cons_self, rfl⟩), fun other later => ?_⟩
    rcases ih other later with taken | ⟨task, inTasks, same⟩ | moved
    · rcases List.mem_cons.mp taken with own | taken
      · exact .inr (.inl ⟨_, List.mem_cons_self, own.symm⟩)
      rcases List.mem_cons.mp taken with spill | taken
      · exact .inr (.inr ⟨ext, (growExt_subset (grow ▸ List.mem_cons_self)).1, spill.symm⟩)
      · exact .inl taken
    · exact .inr (.inl ⟨task, List.mem_cons_of_mem _ inTasks, same⟩)
    · exact .inr (.inr moved)
  | case5 planned dev devs mem boot found none ih =>
    refine List.forall_mem_cons.mpr ⟨.inr (.inl ⟨_, List.mem_cons_self, rfl⟩), fun other later => ?_⟩
    exact (ih other later).imp_right (Or.imp_left fun ⟨task, inTasks, same⟩ =>
      ⟨task, List.mem_cons_of_mem _ inTasks, same⟩)

end Tasks

/-! ### The devices of the second run -/

abbrev Layout : Type := String → List Partition

def FlashDevice.refit (layout : Layout) (dev : FlashDevice) : FlashDevice := dev.withParts (layout dev.devLabel)

def Edt.refit (edt : Edt) (layout : Layout) (forkSized : List (Option String)) : Edt :=
  { edt with devices := edt.devices.map (·.refit layout), forkSized := forkSized }

def Task.refit (layout : Layout) : Task → Task
  | .pass dev => .pass (dev.refit layout)
  | .move dev ext boot =>
    .move (dev.refit layout) (ext.refit layout) ((findLabel "mcuboot" (layout dev.devLabel)).getD boot)
  | .keep dev => .keep (dev.refit layout)

section Refit

variable {edt : Edt} {opts : PlanOptions} {layout : Layout} {forkSized : List (Option String)}

theorem refit_devLabel (dev : FlashDevice) : (dev.refit layout).devLabel = dev.devLabel := rfl

theorem refit_parts (dev : FlashDevice) : (dev.refit layout).parts = layout dev.devLabel := rfl

theorem filter_refit (keep : FlashDevice → Bool) (same : ∀ dev, keep (dev.refit layout) = keep dev)
    (devs : List FlashDevice) : (devs.map (·.refit layout)).filter keep = (devs.filter keep).map (·.refit layout) := by
  rw [List.filter_map]
  exact congrArg _ (List.filter_congr fun dev _ => same dev)

theorem dataFlash_refit : dataFlash (edt.refit layout forkSized) = (dataFlash edt).map (·.refit layout) :=
  filter_refit _ (fun _ => rfl) _

theorem externalFlash_refit : externalFlash (edt.refit layout forkSized) = (externalFlash edt).map (·.refit layout) :=
  filter_refit _ (fun _ => rfl) _

theorem growExt_refit (dev : FlashDevice) :
    growExt (edt.refit layout forkSized) opts (dev.refit layout) = (growExt edt opts dev).map (·.refit layout) := by
  have same : secondarySlot (edt.refit layout forkSized) opts = secondarySlot edt opts := rfl
  unfold growExt
  rw [same, externalFlash_refit]
  split
  · exact filter_refit _ (fun _ => rfl) _
  · rfl

theorem tasks_refit (planned : List String) (devs : List FlashDevice)
    (boots : ∀ task ∈ tasks edt opts planned devs, (findLabel "mcuboot" (layout task.dev.devLabel)).isSome =
      (findLabel "mcuboot" task.dev.parts).isSome) :
    tasks (edt.refit layout forkSized) opts planned (devs.map (·.refit layout)) =
      (tasks edt opts planned devs).map (·.refit layout) := by
  fun_induction tasks edt opts planned devs with
  | case1 planned => rfl
  | case2 planned dev devs mem ih =>
    simp only [List.map_cons, tasks, refit_devLabel, mem, if_true]
    exact ih boots
  | case3 planned dev devs mem none ih =>
    obtain ⟨again, boots⟩ := List.forall_mem_cons.mp boots
    have without : findLabel "mcuboot" (layout dev.devLabel) = .none := by
      simpa [Task.dev, none] using again
    simp only [List.map_cons, tasks, refit_devLabel, refit_parts, mem, if_false, without, ih boots]
    rfl
  | case4 planned dev devs mem boot found ext exts grow ih =>
    obtain ⟨again, boots⟩ := List.forall_mem_cons.mp boots
    obtain ⟨boot', found'⟩ : ∃ boot', findLabel "mcuboot" (layout dev.devLabel) = some boot' :=
      Option.isSome_iff_exists.mp (again.trans (by simp [Task.dev, found]))
    simp only [List.map_cons, tasks, refit_devLabel, refit_parts, mem, if_false, found', growExt_refit, grow,
      ih boots, Task.refit, Option.getD_some]
  | case5 planned dev devs mem boot found none ih =>
    obtain ⟨again, boots⟩ := List.forall_mem_cons.mp boots
    obtain ⟨boot', found'⟩ : ∃ boot', findLabel "mcuboot" (layout dev.devLabel) = some boot' :=
      Option.isSome_iff_exists.mp (again.trans (by simp [Task.dev, found]))
    simp only [List.map_cons, List.map_nil, tasks, refit_devLabel, refit_parts, mem, if_false, found',
      growExt_refit, none, ih boots, Task.refit]

end Refit

/-! ### What a task plans for a device -/

def plannedFor (plan : List PlannedDevice) : Layout := fun label =>
  (plan.filter (·.devLabel = label)).flatMap (·.parts)

theorem plannedFor_append (plan rest : List PlannedDevice) (label : String) :
    plannedFor (plan ++ rest) label = plannedFor plan label ++ plannedFor rest label := by
  simp [plannedFor]

theorem plannedFor_cons (entry : PlannedDevice) (plan : List PlannedDevice) (label : String) :
    plannedFor (entry :: plan) label = (if entry.devLabel = label then entry.parts else []) ++ plannedFor plan label := by
  by_cases same : entry.devLabel = label
  · simp [plannedFor, same]
  · simp [plannedFor, same]

theorem plannedFor_flatMap {α : Type} (list : List α) (plan : α → List PlannedDevice) (label : String) :
    plannedFor (list.flatMap plan) label = list.flatMap fun a => plannedFor (plan a) label := by
  simp only [plannedFor, List.filter_flatMap, List.flatMap_assoc]

section Parts

variable (edt : Edt) (opts : PlanOptions) (existing : Existing)

def Task.ownParts : Task → List Partition
  | .pass dev => dev.parts.filter (·.label ∉ appPartitionLabels)
  | .move dev ext boot => internalPlan edt opts dev ext existing boot ++ carriedParts existing dev.devLabel
  | .keep dev => keepUpstream edt opts dev (carriedParts existing dev.devLabel)

def Task.spilled (label : String) : Task → List Partition
  | .move dev ext boot =>
    if ext.devLabel = label then
      externalFront edt opts dev ext existing boot ++ carriedParts existing ext.devLabel ++
        externalFilesystem edt opts dev ext existing boot
    else []
  | _ => []

theorem plannedFor_plan (deletedDevices : List String) (task : Task) (label : String) :
    plannedFor (task.plan edt opts existing deletedDevices) label =
      (if task.dev.devLabel = label then task.ownParts edt opts existing else []) ++
        task.spilled edt opts existing label := by
  have nil : plannedFor [] label = [] := rfl
  cases task with
  | pass dev =>
    simp only [Task.plan, passThrough, Task.dev, Task.ownParts, Task.spilled, List.append_nil]
    by_cases empty : dev.parts = []
    · simp [empty, nil]
    · simp only [empty, if_false, plannedFor_cons, nil, List.append_nil]
      rfl
  | move dev ext boot =>
    simp only [Task.plan, moveExternal, FlashDevice.planned, plannedFor_cons, nil, List.append_nil]
    rfl
  | keep dev =>
    simp only [Task.plan, plannedFor_cons, nil, List.append_nil, Task.dev, Task.ownParts, Task.spilled]
    rfl

end Parts

/-! ### The plans for a refitted board -/

def noFile : Existing := fun _ => ⟨none, []⟩

theorem carriedParts_noFile (label : String) : carriedParts noFile label = [] := List.mergeSort_nil

section Again

variable {edt : Edt} {opts : PlanOptions} {layout : Layout} {forkSized : List (Option String)} {existing : Existing}

theorem dataFlash_refit_nil : dataFlash (edt.refit layout forkSized) = [] ↔ dataFlash edt = [] := by
  rw [dataFlash_refit, List.map_eq_nil_iff]

theorem filesystemPartition_refit : filesystemPartition (edt.refit layout forkSized) = filesystemPartition edt := rfl

theorem keepUpstream_refit (dev : FlashDevice) (carried : List Partition) :
    keepUpstream (edt.refit layout forkSized) opts dev carried = keepUpstream edt opts dev carried := by
  have tail : tailMin (edt.refit layout forkSized) dev = tailMin edt dev := by
    simp only [tailMin, ne_eq, dataFlash_refit_nil]
  have shared (boot : Partition) (fsKb : Int) :
      sharedSize (edt.refit layout forkSized) dev boot fsKb = sharedSize edt dev boot fsKb := by
    simp only [sharedSize, tail]
  have slots (boot slot0 slot1 : Option Partition) :
      reslotted (edt.refit layout forkSized) opts dev carried boot slot0 slot1 =
        reslotted edt opts dev carried boot slot0 slot1 := by
    simp only [reslotted, wantedSizes, shared, tail]
  have rest (cursor : Int) : appTail (edt.refit layout forkSized) opts dev cursor = appTail edt opts dev cursor := by
    by_cases none : dataFlash edt = []
    · simp only [appTail, none, dataFlash_refit_nil.mpr none, filesystemPartition_refit]
    · simp only [appTail, none, mt dataFlash_refit_nil.mp none, filesystemPartition_refit, false_and, if_false]
  simp only [keepUpstream, keptParts, slots, rest]

variable {dev ext : FlashDevice} {boot : Partition}

theorem nvmOnInternal_refit :
    nvmOnInternal (edt.refit layout forkSized) (dev.refit layout) = nvmOnInternal edt dev := by
  simp only [nvmOnInternal, ne_eq, dataFlash_refit_nil, refit_devLabel]

theorem internalNvmSize_refit :
    internalNvmSize (edt.refit layout forkSized) (dev.refit layout) = internalNvmSize edt dev := by
  simp only [internalNvmSize, nvmOnInternal_refit, dataFlash_refit_nil]
  rfl

variable (plain : carriedParts existing dev.devLabel = []) (plainExt : carriedParts existing ext.devLabel = [])
variable (planned : layout dev.devLabel = internalPlan edt opts dev ext noFile boot)

theorem findLabel_boot_again (edt : Edt) (opts : PlanOptions) (dev ext : FlashDevice) (existing : Existing)
    (boot : Partition) : findLabel "mcuboot" (internalPlan edt opts dev ext existing boot) =
      some (bootPartition boot.offset (grownBootSize opts dev boot)) := rfl

theorem grownBootSize_again :
    grownBootSize opts (dev.refit layout) (bootPartition boot.offset (grownBootSize opts dev boot)) =
      grownBootSize opts dev boot := by
  unfold grownBootSize
  cases opts.bootSizeKb with
  | some sizeKb => rfl
  | none => exact Int.max_eq_left (Int.le_max_right _ _)

theorem findLabel_storage (edt : Edt) (opts : PlanOptions) (dev ext : FlashDevice) (boot : Partition) :
    (opts.externalStorage = true → findLabel "storage" (internalPlan edt opts dev ext noFile boot) = none) ∧
      (opts.externalStorage = false → ∃ offset, findLabel "storage" (internalPlan edt opts dev ext noFile boot) =
        some (storagePartition offset (upstreamStorageSize dev))) := by
  by_cases nvm : internalNvmSize edt dev > 0
  · constructor
    · intro external
      simp [internalPlan, nvm, external, findLabel, bootPartition, slot0Partition, nvmPartition]
    · intro internal
      simp [internalPlan, nvm, internal, findLabel, bootPartition, slot0Partition, nvmPartition, storagePartition]
  · constructor
    · intro external
      simp [internalPlan, nvm, external, findLabel, bootPartition, slot0Partition]
    · intro internal
      simp [internalPlan, nvm, internal, findLabel, bootPartition, slot0Partition, storagePartition]

include planned in
theorem upstreamStorageSize_again : upstreamStorageSize (dev.refit layout) =
      if opts.externalStorage then alignUp storageSize dev.eraseSize else upstreamStorageSize dev := by
  have parts : (dev.refit layout).parts = internalPlan edt opts dev ext noFile boot := planned
  obtain ⟨external, internal⟩ := findLabel_storage edt opts dev ext boot
  rw [upstreamStorageSize, parts]
  cases place : opts.externalStorage with
  | true =>
    rw [external place]
    rfl
  | false =>
    obtain ⟨offset, found⟩ := internal place
    rw [found]
    rfl

theorem grownSlot0Offset_again :
    grownSlot0Offset opts (dev.refit layout) (bootPartition boot.offset (grownBootSize opts dev boot)) =
      grownSlot0Offset opts dev boot := by
  rw [grownSlot0Offset, grownBootSize_again]
  rfl

theorem protectedPart_none (plain : carriedParts existing dev.devLabel = []) : protectedPart dev existing = none := by
  rw [protectedPart, plain]
  rfl

section Internal

include plain planned

theorem slot0Limit_again :
    slot0Limit (edt.refit layout forkSized) opts (dev.refit layout) existing = slot0Limit edt opts dev noFile := by
  have again : protectedPart (dev.refit layout) existing = none := protectedPart_none plain
  have first : protectedPart dev noFile = none := protectedPart_none (carriedParts_noFile _)
  have storage : (if opts.externalStorage = true then 0 else upstreamStorageSize (dev.refit layout)) =
      if opts.externalStorage = true then 0 else upstreamStorageSize dev := by
    rw [upstreamStorageSize_again planned]
    cases opts.externalStorage <;> rfl
  rw [slot0Limit, slot0Limit, again, first, internalNvmSize_refit, storage]
  rfl

theorem grownSlot0Size_again :
    grownSlot0Size (edt.refit layout forkSized) opts (dev.refit layout) (ext.refit layout) existing
      (bootPartition boot.offset (grownBootSize opts dev boot)) = grownSlot0Size edt opts dev ext noFile boot := by
  unfold grownSlot0Size
  rw [slot0Limit_again plain planned, grownSlot0Offset_again]
  rfl

theorem internalPlan_again :
    internalPlan (edt.refit layout forkSized) opts (dev.refit layout) (ext.refit layout) existing
      (bootPartition boot.offset (grownBootSize opts dev boot)) = internalPlan edt opts dev ext noFile boot := by
  have carried : carriedParts existing (dev.refit layout).devLabel = carriedParts noFile dev.devLabel :=
    plain.trans (carriedParts_noFile _).symm
  unfold internalPlan
  rw [grownSlot0Size_again plain planned, grownSlot0Offset_again, grownBootSize_again, internalNvmSize_refit, carried,
    upstreamStorageSize_again planned]
  cases opts.externalStorage <;> rfl

end Internal

section External

include plain plainExt planned

theorem movedSlot1_again :
    movedSlot1Offset (edt.refit layout forkSized) (dev.refit layout) (ext.refit layout) = movedSlot1Offset edt dev ext ∧
    movedSlot1Size (edt.refit layout forkSized) opts (dev.refit layout) (ext.refit layout) existing
      (bootPartition boot.offset (grownBootSize opts dev boot)) = movedSlot1Size edt opts dev ext noFile boot := by
  have again : carriedParts existing (ext.refit layout).devLabel = [] := plainExt
  constructor
  · unfold movedSlot1Offset
    simp only [nvmOnInternal_refit, ne_eq, dataFlash_refit_nil]
    rfl
  · unfold movedSlot1Size
    rw [again, carriedParts_noFile, grownSlot0Size_again plain planned]
    rfl

theorem spilled_again (same : opts.externalStorage = true → upstreamStorageSize dev = alignUp storageSize dev.eraseSize)
    (label : String) :
    Task.spilled (edt.refit layout forkSized) opts existing label (.move (dev.refit layout) (ext.refit layout)
        (bootPartition boot.offset (grownBootSize opts dev boot))) =
      Task.spilled edt opts noFile label (.move dev ext boot) := by
  have again : carriedParts existing (ext.refit layout).devLabel = [] := plainExt
  have storage : upstreamStorageSize (dev.refit layout) = upstreamStorageSize dev := by
    rw [upstreamStorageSize_again planned]
    split
    next external => exact (same external).symm
    · rfl
  have nvm : externalNvm (edt.refit layout forkSized) (dev.refit layout) (ext.refit layout) = externalNvm edt dev ext := by
    simp only [externalNvm, nvmOnInternal_refit, ne_eq, dataFlash_refit_nil]
    rfl
  have slot1 : movedSlot1Offset (edt.refit layout forkSized) (dev.refit layout) (ext.refit layout) = _ ∧ _ :=
    movedSlot1_again plain plainExt planned
  simp only [Task.spilled, externalFront, externalFilesystem, externalStorage, again, carriedParts_noFile, nvm, slot1.1,
    slot1.2, storage, filesystemPartition_refit]
  rfl

end External

theorem spilled_storage (edt : Edt) (opts : PlanOptions) (dev ext : FlashDevice) (boot : Partition)
    (plainExt : carriedParts existing ext.devLabel = []) (label : String) :
    ∃ offset, (Task.spilled edt opts existing label (.move dev ext boot)).filter (·.label = some "storage") =
      if ext.devLabel = label ∧ opts.externalStorage then [storagePartition offset (upstreamStorageSize dev)] else [] := by
  by_cases here : ext.devLabel = label
  · have nvm : (externalNvm edt dev ext).filter (·.label = some "storage") = [] := by
      unfold externalNvm
      split
      · rfl
      · simp [nvmPartition]
    have filesystem : (externalFilesystem edt opts dev ext existing boot).filter (·.label = some "storage") = [] := by
      unfold externalFilesystem
      simp only
      split
      · simp [filesystemPartition]
      · rfl
    simp only [Task.spilled, here, if_true, externalFront, List.filter_append, nvm, filesystem, externalStorage]
    cases opts.externalStorage <;> simp [slot1Partition, storagePartition, plainExt, ← here]
  · simp [Task.spilled, here]

end Again

end Adaboot.Planner
