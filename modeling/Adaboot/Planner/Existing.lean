import Adaboot.Planner.Devices

/-!
# The earlier file

`parse_existing_partitions_dtsi` collects for every device the place of the first slot and the partitions of other
owners. What a run writes is read back (`carries_generated`).
-/

namespace Adaboot.Planner

open Spans

/-- The place of the first slot and the partitions of other owners. -/
structure Carry where
  slot0 : Option Span
  carried : List Partition

abbrev Existing : Type := String → Carry

def managedNodeLabels : List String :=
  ["boot_partition", "slot0_partition", "slot1_partition", "storage_partition", "nvm_partition",
    "fatfs_partition", "littlefs_partition"]

/-- A line of the file as the regular expressions see it. -/
inductive DtsiLine where
  | device (devLabel : String)
  /-- The node labels, of which there is at least one, and the unit address. -/
  | partition (nodeLabel : String) (others : List String) (offset : Nat)
  | label (text : String)
  /-- The size, if it has one of the three forms that are understood. -/
  | reg (size : Option Nat)
  | other
deriving DecidableEq, Repr

structure Pending where
  nodeLabel : String
  others : List String
  label : Option String
  offset : Nat

structure Reader where
  currentDev : Option String
  pending : Option Pending
  pendingSize : Option Nat
  result : Existing

def Pending.managed (p : Pending) : Bool := (p.nodeLabel :: p.others).any (· ∈ managedNodeLabels)

def Carry.add (carry : Carry) (p : Pending) (size : Nat) : Carry :=
  if p.managed then
    if "slot0_partition" ∈ p.nodeLabel :: p.others then { carry with slot0 := some ⟨p.offset, size⟩ } else carry
  else { carry with carried := carry.carried ++ [⟨p.label, p.nodeLabel, p.offset, size⟩] }

/-- `commit`. A partition without a size stays pending, also across a device line. -/
def Reader.commit (r : Reader) : Reader :=
  match r.currentDev, r.pending, r.pendingSize with
  | some dev, some p, some size =>
    { r with
      pending := none
      pendingSize := none
      result := fun label => if label = dev then (r.result label).add p size else r.result label }
  | _, _, _ => r

def Reader.line (r : Reader) : DtsiLine → Reader
  | .device dev => { r.commit with currentDev := some dev }
  | .partition nodeLabel others offset =>
    { r.commit with pending := some ⟨nodeLabel, others, none, offset⟩, pendingSize := none }
  | .label text =>
    match r.currentDev, r.pending with
    | some _, some p => { r with pending := some { p with label := some text } }
    | _, _ => r
  | .reg size =>
    match r.currentDev, r.pending with
    | some _, some _ => { r with pendingSize := size }.commit
    | _, _ => r
  | .other => r

def parseExistingPartitionsDtsi (lines : List DtsiLine) : Existing :=
  (lines.foldl Reader.line ⟨none, none, none, fun _ => ⟨none, []⟩⟩).commit.result

/-! ### The generated file and what is read from it -/

/-- A partition in the generated file. A layout has no negative offsets and sizes. -/
def partitionLines (p : Partition) : List DtsiLine := .partition p.nodeLabel [] p.offset.toNat ::
    ((p.label.filter (· ≠ "")).map DtsiLine.label).toList ++ [.reg (some p.size.toNat), .other]

def PlannedDevice.newParts (entry : PlannedDevice) : List Partition := entry.parts.filter (·.label ∉ entry.predefined)

def deviceLines (entry : PlannedDevice) : List DtsiLine :=
  if entry.parts = [] then []
  else [.device entry.devLabel, .other] ++ entry.newParts.flatMap partitionLines ++ [.other]

def generatePartitionsDtsi (plan : List PlannedDevice) : List DtsiLine := plan.flatMap deviceLines

def Carries (existing : Existing) (devLabel : String) : Prop := (existing devLabel).carried ≠ []

theorem Carry.add_carries (carry : Carry) (p : Partition) (label : Option String) (offset size : Nat) :
    (carry.add ⟨p.nodeLabel, [], label, offset⟩ size).carried ≠ [] ↔
      carry.carried ≠ [] ∨ p.nodeLabel ∉ managedNodeLabels := by
  unfold Carry.add
  by_cases managed : p.nodeLabel ∈ managedNodeLabels
  · by_cases slot0 : "slot0_partition" = p.nodeLabel
    · simp [Pending.managed, managed, slot0]
    · simp [Pending.managed, managed, slot0]
  · simp [Pending.managed, managed]

theorem read_partitionLines (r : Reader) (devLabel : String) (p : Partition) (dev : r.currentDev = some devLabel)
    (idle : r.pending = none) : (partitionLines p).foldl Reader.line r = ⟨some devLabel, none, none, fun label =>
        if label = devLabel then
          (r.result label).add ⟨p.nodeLabel, [], p.label.filter (· ≠ ""), p.offset.toNat⟩ p.size.toNat
        else r.result label⟩ := by
  obtain ⟨currentDev, pending, pendingSize, result⟩ := r
  subst dev idle
  unfold partitionLines
  cases p.label.filter (· ≠ "") with
  | none => rfl
  | some text => rfl

/-- What the file says about all devices after some partitions of one. -/
structure ReadParts (before after : Reader) (devLabel : String) (parts : List Partition) : Prop where
  dev : after.currentDev = some devLabel
  idle : after.pending = none
  carries : ∀ label, Carries after.result label ↔
    Carries before.result label ∨ label = devLabel ∧ ∃ p ∈ parts, p.nodeLabel ∉ managedNodeLabels

theorem read_parts (r : Reader) (devLabel : String) (parts : List Partition) (dev : r.currentDev = some devLabel)
    (idle : r.pending = none) : ReadParts r ((parts.flatMap partitionLines).foldl Reader.line r) devLabel parts := by
  induction parts generalizing r with
  | nil => exact ⟨dev, idle, by simp⟩
  | cons p parts ih =>
    rw [List.flatMap_cons, List.foldl_append, read_partitionLines r devLabel p dev idle]
    obtain ⟨dev', idle', rest⟩ := ih ⟨some devLabel, none, none, _⟩ rfl rfl
    refine ⟨dev', idle', fun label => (rest label).trans ?_⟩
    by_cases same : label = devLabel
    · simp only [Carries, same, if_true, Carry.add_carries, true_and, List.mem_cons, exists_eq_or_imp, or_assoc]
    · simp [Carries, same]

/-- The partitions of other owners that a file defines for a device. -/
def Defines (plan : List PlannedDevice) (label : String) : Prop :=
  ∃ entry ∈ plan, entry.devLabel = label ∧ ∃ p ∈ entry.newParts, p.nodeLabel ∉ managedNodeLabels

theorem read_deviceLines (r : Reader) (entry : PlannedDevice) (idle : r.pending = none) :
    ((deviceLines entry).foldl Reader.line r).pending = none ∧
      ∀ label, Carries ((deviceLines entry).foldl Reader.line r).result label ↔
        Carries r.result label ∨ Defines [entry] label := by
  unfold deviceLines
  split
  next empty =>
    have nothing : entry.newParts = [] := by simp [PlannedDevice.newParts, empty]
    exact ⟨idle, fun label => by simp [Defines, nothing]⟩
  next some =>
    have started : [DtsiLine.device entry.devLabel, .other].foldl Reader.line r =
        { r with currentDev := .some entry.devLabel } := by
      simp [Reader.line, Reader.commit, idle]
    obtain ⟨_, idle', carries⟩ :=
      read_parts { r with currentDev := .some entry.devLabel } entry.devLabel entry.newParts rfl idle
    rw [List.foldl_append, List.foldl_append, started]
    refine ⟨idle', fun label => (carries label).trans ?_⟩
    simp only [Defines, List.mem_singleton, exists_eq_left, @eq_comm _ label]

theorem carries_generated (plan : List PlannedDevice) (label : String) :
    Carries (parseExistingPartitionsDtsi (generatePartitionsDtsi plan)) label ↔ Defines plan label := by
  have run : ∀ r : Reader, r.pending = none → ((generatePartitionsDtsi plan).foldl Reader.line r).pending = none ∧
      (Carries ((generatePartitionsDtsi plan).foldl Reader.line r).result label ↔
        Carries r.result label ∨ Defines plan label) := by
    unfold generatePartitionsDtsi
    induction plan with
    | nil => exact fun r idle => ⟨idle, by simp [Defines]⟩
    | cons entry plan ih =>
      intro r idle
      obtain ⟨idle', carries⟩ := read_deviceLines r entry idle
      rw [List.flatMap_cons, List.foldl_append]
      refine ⟨(ih _ idle').1, (ih _ idle').2.trans ?_⟩
      rw [carries, or_assoc]
      simp only [Defines, List.mem_cons, exists_eq_or_imp, List.not_mem_nil, or_false, exists_eq_left]
  obtain ⟨idle, carries⟩ := run ⟨none, none, none, fun _ => ⟨none, []⟩⟩ rfl
  have committed : ((generatePartitionsDtsi plan).foldl Reader.line ⟨none, none, none, fun _ => ⟨none, []⟩⟩).commit =
      (generatePartitionsDtsi plan).foldl Reader.line ⟨none, none, none, fun _ => ⟨none, []⟩⟩ := by
    simp [Reader.commit, idle]
  rw [parseExistingPartitionsDtsi, committed]
  exact carries.trans (or_iff_right fun carried => carried rfl)

end Adaboot.Planner
