import Adaboot.Planner.Existing
import Mathlib.Data.List.Infix

/-!
# Planning with a predefined layout

`plan_partitions_predefined`. With a separate external flash the second slot moves there and the first one grows;
otherwise the layout stays and is resized as options ask. Partitions of other owners are carried over.
-/

namespace Adaboot.Planner

open Spans

def appPartitionLabels : List (Option String) := [some "filesystem", some "nvm"]

def sortByOffset (parts : List Partition) : List Partition := parts.mergeSort fun p q => p.offset ≤ q.offset

def findLabel (label : String) (parts : List Partition) : Option Partition := parts.find? (·.label = some label)

def replaceLabels (labels : List (Option String)) (new : Option (List Partition)) (parts : List Partition) :
    List Partition :=
  match new with
  | none => parts
  | some new => sortByOffset (parts.filter (·.label ∉ labels) ++ new)

def bootLabels : List (Option String) := [some "mcuboot"]

def slotLabels : List (Option String) := [some "image-0", some "image-1"]

/-! ### Keeping the upstream slots -/

section Upstream

variable (edt : Edt) (opts : PlanOptions) (dev : FlashDevice) (carried : List Partition)

def upstreamParts : List Partition :=
  dev.parts.filter fun p => p.label ∉ appPartitionLabels ∧ p.label ≠ some "storage" ∧
    ¬ (opts.singleApp ∧ p.label = some "image-1")

def pinnedBoot (boot : Option Partition) : Option Partition :=
  match opts.bootSizeKb, boot with
  | some sizeKb, some boot =>
    let newBootSize := alignUp (sizeKb * kb) dev.eraseSize
    if newBootSize ≠ boot.size then some (bootPartition boot.offset newBootSize) else none
  | _, _ => none

def bootEnd (boot : Partition) : Int := alignUp (boot.offset + boot.size) dev.eraseSize

/-- What storage and nvm need at the end. -/
def tailMin : Int := alignUp storageSize dev.eraseSize + if dataFlash edt ≠ [] then 0 else dev.eraseSize

def sharedSize (boot : Partition) (filesystemSizeKb : Int) : Int :=
  alignDown ((dev.totalSize - bootEnd dev boot - tailMin edt dev - filesystemSizeKb * kb - dev.eraseSize) / 2)
    dev.eraseSize

def slotDiffers (slot : Option Partition) (size : Int) : Bool :=
  match slot with
  | none => false
  | some slot => size ≠ slot.size

def wantedSizes (boot slot0 slot1 : Option Partition) : Option (Int × Option Int) :=
  match boot with
  | none => none
  | some boot =>
    if carried ≠ [] then none
    else match opts.slotSizeKb, opts.filesystemSizeKb with
      | some sizeKb, _ =>
        let newSize := alignDown (sizeKb * kb) dev.eraseSize
        if slotDiffers slot0 newSize then some (newSize, none) else none
      | none, some fsKb =>
        let shared := sharedSize edt dev boot fsKb
        if shared ≤ 0 then none
        else if slotDiffers slot0 shared ∨ slotDiffers slot1 (shared + dev.eraseSize) then
          some (shared, some (shared + dev.eraseSize))
        else none
      | none, none =>
        match slot0 with
        | none => none
        | some slot0 =>
          if slot0.size < slot0MinSize then some (alignDown slot0MinSize dev.eraseSize, none) else none

/-- The offset and the size of the second slot behind a first slot of the new size. -/
def secondSlot (slot1 : Option Partition) (slot0End : Int) (newSize : Int) (shared : Option Int) : Int × Int :=
  match shared with
  | some size => (slot0End, size)
  | none =>
    match slot1 with
    | some slot1 => (max slot1.offset slot0End, max slot1.size newSize)
    | none => (0, max 0 newSize)

def newSlots (boot : Partition) (slot1 : Option Partition) (newSize : Int) (place : Int × Int) : List Partition :=
  slot0Partition (bootEnd dev boot) newSize ::
    match slot1 with
    | some _ => [slot1Partition place.1 place.2]
    | none => []

/-- Slots of another size, unless the tail would not fit behind them. -/
def reslotted (boot slot0 slot1 : Option Partition) : Option (List Partition) :=
  match boot, wantedSizes edt opts dev carried boot slot0 slot1 with
  | some boot, some (newSize, shared) =>
    let place := secondSlot slot1 (bootEnd dev boot + newSize) newSize shared
    if place.1 + place.2 + tailMin edt dev > dev.totalSize then none
    else some (newSlots dev boot slot1 newSize place)
  | _, _ => none

/-- Slots that are larger than 2 MB are cut. The upstream sizes decide, also after a change. -/
def cappedSlots (boot slot0 slot1 : Option Partition) : Option (List Partition) :=
  let slotCap := alignDown (2 * mb) dev.eraseSize
  match boot, slot0 with
  | some boot, some slot0 =>
    if opts.slotSizeKb = none ∧ slot0.size > slotCap ∧ carried = [] then
      let place := match slot1 with
        | some slot1 => (max slot1.offset (bootEnd dev boot + slotCap), slotCap)
        | none => (0, 0)
      some (newSlots dev boot slot1 slotCap place)
    else none
  | _, _ => none

def keptParts : List Partition :=
  let kept := sortByOffset (upstreamParts opts dev)
  let boot := findLabel "mcuboot" kept
  let slot0 := findLabel "image-0" kept
  let slot1 := findLabel "image-1" kept
  let newBoot := pinnedBoot opts dev boot
  let kept := replaceLabels bootLabels (newBoot.map fun boot => [boot]) kept
  let boot := newBoot.or boot
  let kept := replaceLabels slotLabels (reslotted edt opts dev carried boot slot0 slot1) kept
  replaceLabels slotLabels (cappedSlots opts dev carried boot slot0 slot1) kept

def filesystemSize (cursor : Int) : Int :=
  let fsSize := alignDown (dev.totalSize - cursor) dev.eraseSize
  match opts.filesystemSizeKb with
  | none => fsSize
  | some sizeKb =>
    let fsCap := alignDown (sizeKb * kb) dev.eraseSize
    if fsCap > fsSize then fsSize else fsCap

/-- Storage, nvm and the file system from an offset on, as far as there is room. -/
def appTail (cursor : Int) : List Partition :=
  let storageSize := alignUp storageSize dev.eraseSize
  let hasStorage := cursor + storageSize ≤ dev.totalSize
  let storage := if hasStorage then [storagePartition cursor storageSize] else []
  let cursor := if hasStorage then cursor + storageSize else cursor
  let hasNvm := dataFlash edt = [] ∧ cursor + dev.eraseSize ≤ dev.totalSize
  let nvm := if hasNvm then [nvmPartition cursor dev.eraseSize] else []
  let cursor := if hasNvm then alignUp (cursor + dev.eraseSize) dev.eraseSize else cursor
  let fsSize := filesystemSize opts dev cursor
  storage ++ nvm ++ if fsSize > 0 then [filesystemPartition edt cursor fsSize] else []

def maxEnd (parts : List Partition) : Int := (parts.map (·.span.stop)).max?.getD 0

def keepUpstream : List Partition :=
  let kept := keptParts edt opts dev carried
  kept ++ appTail edt opts dev (alignUp (maxEnd kept) dev.eraseSize)

/-- The labels that the generated file does not define again. -/
def upstreamPredefined (deletedDevices : List String) : List (Option String) :=
  let kept := sortByOffset (upstreamParts opts dev)
  let boot := findLabel "mcuboot" kept
  let slot0 := findLabel "image-0" kept
  let slot1 := findLabel "image-1" kept
  let newBoot := pinnedBoot opts dev boot
  let boot := newBoot.or boot
  let resized := (reslotted edt opts dev carried boot slot0 slot1).isSome ||
    (cappedSlots opts dev carried boot slot0 slot1).isSome
  if dev.devLabel ∈ deletedDevices then []
  else ((upstreamParts opts dev).map (·.label)).filter fun label => label ∉ edt.forkSized ∧
    ¬ (newBoot.isSome ∧ label = some "mcuboot") ∧
    ¬ (resized ∧ (label = some "image-0" ∨ label = some "image-1"))

end Upstream

/-! ### Moving the second slot to external flash -/

section External

variable (edt : Edt) (opts : PlanOptions) (dev ext : FlashDevice) (existing : Existing)

def grownBootSize (boot : Partition) : Int :=
  match opts.bootSizeKb with
  | some sizeKb => alignUp (sizeKb * kb) dev.eraseSize
  | none => max boot.size (alignUp (128 * kb) dev.eraseSize)

def upstreamStorageSize : Int :=
  match findLabel "storage" dev.parts with
  | some storage => storage.size
  | none => alignUp storageSize dev.eraseSize

/-- The nvm partition belongs to the internal flash if that is RRAM, or to the data flash. -/
def nvmOnInternal : Bool := "rram".toList <:+: dev.devLabel.toList ∨ dataFlash edt ≠ []

def internalNvmSize : Int := if nvmOnInternal edt dev ∧ dataFlash edt = [] then dev.eraseSize else 0

def carriedParts (devLabel : String) : List Partition := sortByOffset (existing devLabel).carried

/-- The first carried partition that was not inside or before the end of the earlier slot. -/
def protectedPart : Option Partition :=
  (carriedParts existing dev.devLabel).find? fun c =>
    match (existing dev.devLabel).slot0 with
    | none => true
    | some old => old.stop ≤ c.offset

/-- How far the first slot may grow. -/
def slot0Limit : Int :=
  let tailSize := (if opts.externalStorage then 0 else upstreamStorageSize dev) + internalNvmSize edt dev
  let tailStart := alignDown (dev.totalSize - tailSize) dev.eraseSize
  match protectedPart dev existing with
  | none => tailStart
  | some c => min tailStart c.offset

def grownSlot0Offset (boot : Partition) : Int := alignUp (boot.offset + grownBootSize opts dev boot) dev.eraseSize

/-- The first slot fills what is left, or has the pinned size if that is not larger. -/
def grownSlot0Size (boot : Partition) : Int :=
  let maxErase := max dev.eraseSize ext.eraseSize
  let fill := alignDown (slot0Limit edt opts dev existing - grownSlot0Offset opts dev boot) maxErase
  match opts.slotSizeKb with
  | none => fill
  | some sizeKb =>
    let pinned := alignDown (sizeKb * kb) maxErase
    if pinned > fill then fill else pinned

def internalPlan (boot : Partition) : List Partition :=
  let slot0Offset := grownSlot0Offset opts dev boot
  let slot0Size := grownSlot0Size edt opts dev ext existing boot
  let carriedEnd := maxEnd (carriedParts existing dev.devLabel)
  let cursor := max (slot0Offset + slot0Size) (alignUp carriedEnd dev.eraseSize)
  let nvmSize := internalNvmSize edt dev
  let nvmOffset := alignUp cursor dev.eraseSize
  let nvm := if nvmSize > 0 then [nvmPartition nvmOffset nvmSize] else []
  let cursor := if nvmSize > 0 then nvmOffset + nvmSize else cursor
  let storage := if opts.externalStorage then []
    else [storagePartition (alignUp cursor dev.eraseSize) (upstreamStorageSize dev)]
  [bootPartition boot.offset (grownBootSize opts dev boot), slot0Partition slot0Offset slot0Size] ++ nvm ++ storage

/-- The nvm partition is the first one of the external flash if it is nowhere else. -/
def externalNvm : List Partition :=
  if nvmOnInternal edt dev ∨ dataFlash edt ≠ [] then [] else [nvmPartition 0 ext.eraseSize]

def movedSlot1Offset : Int :=
  let cursor := if nvmOnInternal edt dev ∨ dataFlash edt ≠ [] then 0 else alignUp (0 + ext.eraseSize) ext.eraseSize
  alignUp cursor ext.eraseSize

/-- The second slot ends in front of the first carried partition. -/
def movedSlot1Size (boot : Partition) : Int :=
  let slot0Size := grownSlot0Size edt opts dev ext existing boot
  let slot1Size := if opts.overwriteOnly then slot0Size else slot0Size + max dev.eraseSize ext.eraseSize
  match carriedParts existing ext.devLabel with
  | [] => slot1Size
  | c :: _ =>
    let avail := alignDown c.offset ext.eraseSize - movedSlot1Offset edt dev ext
    min slot1Size (alignDown avail ext.eraseSize)

/-- The storage partition on the external flash, if it fits in front of the carried ones. -/
def externalStorage (cursor : Int) : List Partition :=
  let storageOffset := alignUp cursor ext.eraseSize
  if opts.externalStorage then
    match carriedParts existing ext.devLabel with
    | [] => [storagePartition storageOffset (upstreamStorageSize dev)]
    | c :: _ =>
      if storageOffset + upstreamStorageSize dev > c.offset then []
      else [storagePartition storageOffset (upstreamStorageSize dev)]
  else []

def behindStorage (cursor : Int) (storage : List Partition) : Int :=
  match storage with
  | [] => cursor
  | storage :: _ => alignUp (storage.offset + storage.size) ext.eraseSize

def externalFront (boot : Partition) : List Partition :=
  let slot1Offset := movedSlot1Offset edt dev ext
  let slot1Size := movedSlot1Size edt opts dev ext existing boot
  let cursor := alignUp (slot1Offset + slot1Size) ext.eraseSize
  externalNvm edt dev ext ++ [slot1Partition slot1Offset slot1Size] ++ externalStorage opts dev ext existing cursor

def externalFilesystem (boot : Partition) : List Partition :=
  let slot1Offset := movedSlot1Offset edt dev ext
  let slot1Size := movedSlot1Size edt opts dev ext existing boot
  let cursor := alignUp (slot1Offset + slot1Size) ext.eraseSize
  let cursor := behindStorage ext cursor (externalStorage opts dev ext existing cursor)
  let cursor := (carriedParts existing ext.devLabel).foldl
    (fun cursor c => max cursor (alignUp (c.offset + c.size) ext.eraseSize)) cursor
  let fsSize := alignDown (ext.totalSize - cursor) ext.eraseSize
  if fsSize > 0 then [filesystemPartition edt cursor fsSize] else []

def moveExternal (boot : Partition) : List PlannedDevice :=
  [dev.planned (internalPlan edt opts dev ext existing boot ++ carriedParts existing dev.devLabel),
    ext.planned (externalFront edt opts dev ext existing boot ++ carriedParts existing ext.devLabel ++
      externalFilesystem edt opts dev ext existing boot)]

end External

/-! ### All devices -/

section Devices

variable (edt : Edt) (opts : PlanOptions) (existing : Existing) (deletedDevices : List String)

def passThrough (dev : FlashDevice) : List PlannedDevice :=
  if dev.parts = [] then []
  else
    let upstream := dev.parts.filter (·.label ∉ appPartitionLabels)
    [⟨dev.devLabel, dev.totalSize, dev.eraseSize, upstream,
      if dev.devLabel ∈ deletedDevices then [] else upstream.map (·.label)⟩]

/-- The separate external flash that a device's second slot can move to. -/
def growExt (dev : FlashDevice) : List FlashDevice :=
  if secondarySlot edt opts then (externalFlash edt).filter (·.devLabel ≠ dev.devLabel) else []

/-- The plans of the devices, without those in `planned`. -/
def planDevices (planned : List String) : List FlashDevice → List PlannedDevice
  | [] => []
  | dev :: devs =>
    if dev.devLabel ∈ planned then planDevices planned devs
    else match findLabel "mcuboot" dev.parts with
      | none => passThrough deletedDevices dev ++ planDevices planned devs
      | some boot =>
        match growExt edt opts dev with
        | ext :: _ =>
          moveExternal edt opts dev ext existing boot ++ planDevices (dev.devLabel :: ext.devLabel :: planned) devs
        | [] =>
          let carried := carriedParts existing dev.devLabel
          ⟨dev.devLabel, dev.totalSize, dev.eraseSize, keepUpstream edt opts dev carried,
            upstreamPredefined edt opts dev carried deletedDevices⟩ :: planDevices planned devs

def planPartitionsPredefined : List PlannedDevice :=
  let result := planDevices edt opts existing deletedDevices [] edt.devices
  result ++ ((dataFlash edt).filter (·.devLabel ∉ result.map (·.devLabel))).flatMap fun dev =>
    let nvmSize := alignDown dev.totalSize dev.eraseSize
    if nvmSize > 0 then [dev.planned [nvmPartition 0 nvmSize]] else []

end Devices

end Adaboot.Planner
