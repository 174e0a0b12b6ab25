import Adaboot.Trailer.Fields

/-!
# Swap types and trailer updates

The table that turns the trailers into a swap type, and the functions that write a field: each write changes exactly
one (`setField`).
-/

namespace Adaboot

open Nor Crash

/-! ### The swap type of two trailers -/

/-- A magic in a table: `BOOT_MAGIC_ANY`, `BOOT_MAGIC_NOTGOOD` or one value. -/
inductive MagicTest where
  | any
  | notGood
  | only (magic : Magic)

def bootMagicCompatibleCheck (tblVal : MagicTest) (val : Magic) : Bool :=
  match tblVal with
  | .any => true
  | .notGood => val ≠ .good
  | .only magic => magic = val

/-- A flag in a table, where `none` is `BOOT_FLAG_ANY`. -/
def flagCompatible (tblVal : Option Flag) (val : Flag) : Bool :=
  match tblVal with
  | none => true
  | some flag => flag = val

structure BootSwapTable where
  magicPrimarySlot : MagicTest
  magicSecondarySlot : MagicTest
  imageOkPrimarySlot : Option Flag
  imageOkSecondarySlot : Option Flag
  copyDonePrimarySlot : Option Flag
  copyDoneSecondarySlot : Option Flag
  swapType : SwapType

/-- `boot_swap_tables`. The first entry stands only in swap-using-offset. -/
def bootSwapTables (bd : Board) : List BootSwapTable :=
  (if bd.mode = .offset then
    [{ magicPrimarySlot := .any
       magicSecondarySlot := .only .good
       imageOkPrimarySlot := none
       imageOkSecondarySlot := some .unset
       copyDonePrimarySlot := none
       copyDoneSecondarySlot := some .set
       swapType := .revert }]
   else []) ++
  [{ magicPrimarySlot := .any
     magicSecondarySlot := .only .good
     imageOkPrimarySlot := none
     imageOkSecondarySlot := some .unset
     copyDonePrimarySlot := none
     copyDoneSecondarySlot := none
     swapType := .test },
   { magicPrimarySlot := .any
     magicSecondarySlot := .only .good
     imageOkPrimarySlot := none
     imageOkSecondarySlot := some .set
     copyDonePrimarySlot := none
     copyDoneSecondarySlot := none
     swapType := .perm },
   { magicPrimarySlot := .only .good
     magicSecondarySlot := .any
     imageOkPrimarySlot := some .unset
     imageOkSecondarySlot := none
     copyDonePrimarySlot := some .set
     copyDoneSecondarySlot := none
     swapType := .revert }]

def BootSwapTable.satisfied (table : BootSwapTable) (primary secondary : BootSwapState) : Bool :=
  bootMagicCompatibleCheck table.magicPrimarySlot primary.magic &&
    bootMagicCompatibleCheck table.magicSecondarySlot secondary.magic &&
    flagCompatible table.imageOkPrimarySlot primary.imageOk &&
    flagCompatible table.imageOkSecondarySlot secondary.imageOk &&
    flagCompatible table.copyDonePrimarySlot primary.copyDone &&
    flagCompatible table.copyDoneSecondarySlot secondary.copyDone

/-- The loop of `boot_swap_type_multi` over the tables. -/
def swapTypeOfStates (bd : Board) (primary secondary : BootSwapState) : SwapType :=
  match (bootSwapTables bd).find? (·.satisfied primary secondary) with
  | some table => table.swapType
  | none => .none

/-- `boot_swap_type_multi`. A secondary slot that cannot be read counts as empty. -/
def bootSwapTypeMulti (bd : Board) (fl : Flash) : SwapType :=
  match bootReadSwapState bd fl .primary with
  | none => .panic
  | some primary =>
    match bootReadSwapState bd fl .secondary with
    | none => swapTypeOfStates bd primary ⟨.unset, .none, 0, .unset, .unset⟩
    | some secondary => swapTypeOfStates bd primary secondary

section SwapTypes

variable {bd : Board} {primary secondary : BootSwapState}

theorem swapTypeOfStates_eq (primary secondary : BootSwapState) : swapTypeOfStates bd primary secondary =
      if secondary.magic = .good ∧ secondary.imageOk = .unset then
        if bd.mode = .offset ∧ secondary.copyDone = .set then .revert else .test
      else if secondary.magic = .good ∧ secondary.imageOk = .set then .perm
      else if primary.magic = .good ∧ primary.imageOk = .unset ∧ primary.copyDone = .set then .revert else .none := by
  obtain ⟨pm, -, -, pc, pi⟩ := primary
  obtain ⟨sm, -, -, sc, si⟩ := secondary
  unfold swapTypeOfStates bootSwapTables
  by_cases mode : bd.mode = .offset
  · simp only [mode, if_true, true_and]
    cases pm <;> cases pc <;> cases pi <;> cases sm <;> cases sc <;> cases si <;> rfl
  · simp only [mode, if_false, false_and]
    cases pm <;> cases pc <;> cases pi <;> cases sm <;> cases si <;> rfl

theorem bootSwapTypeMulti_eq {fl : Flash} (pri : bd.HoldsTrailer .primary)
    (sec : bd.HoldsTrailer .secondary) : bootSwapTypeMulti bd fl =
      swapTypeOfStates bd (swapState bd fl .primary) (swapState bd fl .secondary) := by
  rw [bootSwapTypeMulti, bootReadSwapState_eq pri, bootReadSwapState_eq sec]

/-- The trailer of the secondary slot asks for an upgrade, as `boot_set_pending` leaves it. -/
structure Requested (bd : Board) (fl : Flash) : Prop where
  magic : (swapState bd fl .secondary).magic = .good
  imageOk : (swapState bd fl .secondary).imageOk ≠ .bad
  copyDone : (swapState bd fl .secondary).copyDone = .unset

theorem Requested.congr {bd : Board} {fl fl' : Flash}
    (room : bd.HoldsTrailer .secondary) (requested : Requested bd fl)
    (same : Flash.EqOn .secondary (bd.faSize .secondary - bootTrailerInfoSz bd)
      (bd.faSize .secondary) fl fl') : Requested bd fl' := by
  have state : swapState bd fl' .secondary = swapState bd fl .secondary := swapState_congr room same
  exact ⟨state ▸ requested.magic, state ▸ requested.imageOk, state ▸ requested.copyDone⟩

end SwapTypes

/-! ### Writing -/

section Writing

variable (bd : Board) (a : Area)

def bootWriteTrailer (off : Nat) (inbuf : Bytes) : Boot Unit :=
  let align := alignUp inbuf.length (bd.align a)
  if align > bd.maxAlign then .throw .panic
  else flashAreaWrite bd a off (inbuf ++ List.replicate (align - inbuf.length) erasedVal)

def bootWriteMagic : Boot Unit := flashAreaWrite bd a (alignDown (bootMagicOff bd a) bd.maxAlign)
    (List.replicate (bd.magicAlignSize - bootMagicSz) erasedVal ++ bootImgMagic bd)

def bootWriteImageOk : Boot Unit := bootWriteTrailer bd a (bootImageOkOff bd a) [1]

def bootWriteCopyDone : Boot Unit := bootWriteTrailer bd a (bootCopyDoneOff bd a) [1]

/-- `boot_write_swap_info`, with the assertions of `BOOT_SET_SWAP_INFO`. -/
def bootWriteSwapInfo (swapType : SwapType) (imageNum : Nat) : Boot Unit :=
  if imageNum < 0xf ∧ swapType.code < 0xf then
    bootWriteTrailer bd a (bootSwapInfoOff bd a) [.ofNat (imageNum * 16 + swapType.code)]
  else .throw .panic

def bootWriteSwapSize (swapSize : Nat) : Boot Unit := bootWriteTrailer bd a (bootSwapSizeOff bd a) (put32 swapSize)

def bootWriteUnprotectedTlvSizes (tlvSizePrimary tlvSizeSecondary : Nat) : Boot Unit :=
  bootWriteTrailer bd a (bootUnprotectedTlvSizesOff bd a) (put16 tlvSizePrimary ++ put16 tlvSizeSecondary)

/-- `boot_read_swap_state` inside the loader. -/
def readSwapState : Boot BootSwapState := do
  let fl ← .get
  match bootReadSwapState bd fl a with
  | none => .throw .eflash
  | some state => pure state

def bootSetNext (active confirm : Bool) : Boot Unit := do
  let confirm := active || confirm
  let slotState ← readSwapState bd a
  match slotState.magic with
  | .good => if active ∧ slotState.imageOk = .unset then bootWriteImageOk bd a else pure ()
  | .unset =>
    if active then pure ()
    else do
      bootWriteMagic bd a
      if confirm then bootWriteImageOk bd a
      bootWriteSwapInfo bd a (if confirm then .perm else .test) 0
  | .bad => if active then .throw .ebadvect else .throw .ebadimage

end Writing

def bootSetPending (bd : Board) (permanent : Bool) : Boot Unit := bootSetNext bd .secondary false permanent

def bootSetConfirmed (bd : Board) : Boot Unit := bootSetNext bd .primary true true

section WriteSpecs

variable {bd : Board} {a : Area} {Q : Unit → Flash → Prop} {E : BootErr → Flash → Prop} {C : Flash → Prop} {fl : Flash}

theorem wp_bootWriteTrailer {off : Nat} {inbuf : Bytes} (len : inbuf.length ≤ bd.maxAlign)
    (fits : off + bd.maxAlign ≤ bd.faSize a) :
    wp (bootWriteTrailer bd a off inbuf) Q E C fl ↔ C fl ∧ Q () (fl.program a off inbuf) := by
  obtain ⟨k, pow⟩ := bd.align_pow a
  have dvd := bd.align_dvd a
  have le : alignUp inbuf.length (bd.align a) ≤ bd.maxAlign := by
    rw [pow] at dvd ⊢
    exact alignUp_le dvd len
  unfold bootWriteTrailer
  rw [if_neg (by omega), wp_flashAreaWrite (by
      simp only [List.length_append, List.length_replicate]
      omega), Flash.program_append_erased]

theorem wp_writeField (room : bd.HoldsTrailer a) {f : Field} (here : f.Present bd)
    (ne : f ≠ .magic) {data : Bytes} (len : data.length = f.len) :
    wp (bootWriteTrailer bd a (f.off bd a) data) Q E C fl ↔ C fl ∧ Q () (setField bd fl a f data) := by
  have inUnit := Field.off_add_maxAlign_le room here ne
  exact wp_bootWriteTrailer (len ▸ Field.len_le bd ne) (by omega)

theorem length_bootImgMagic (bd : Board) : (bootImgMagic bd).length = Field.magic.len := by
  unfold bootImgMagic
  split <;> rfl

variable (room : bd.HoldsTrailer a)
include room

theorem wp_bootWriteMagic : wp (bootWriteMagic bd a) Q E C fl ↔
      C fl ∧ Q () (setField bd fl a .magic (bootImgMagic bd)) := by
  have len := length_bootImgMagic bd
  have below : bd.magicAlignSize ≤ bd.faSize a := by
    unfold Board.HoldsTrailer bootTrailerInfoSz at room
    omega
  have start := alignDown_magicOff below
  have ge := magicAlignSize_ge bd
  have fits : alignDown (bootMagicOff bd a) bd.maxAlign +
      (List.replicate (bd.magicAlignSize - bootMagicSz) erasedVal ++ bootImgMagic bd).length ≤
        bd.faSize a := by
    simp only [List.length_append, List.length_replicate, len, Field.len, bootMagicSz]
    omega
  unfold bootWriteMagic
  rw [wp_flashAreaWrite fits, Flash.program_replicate_append]
  have at_magic : alignDown (bootMagicOff bd a) bd.maxAlign + (bd.magicAlignSize - bootMagicSz) =
      Field.magic.off bd a := by
    rw [Field.off_magic, bootMagicSz]
    omega
  rw [at_magic]
  rfl

theorem wp_bootWriteImageOk :
    wp (bootWriteImageOk bd a) Q E C fl ↔ C fl ∧ Q () (setField bd fl a .imageOk [1]) :=
  wp_writeField room (f := .imageOk) nofun (by simp) rfl

theorem wp_bootWriteCopyDone :
    wp (bootWriteCopyDone bd a) Q E C fl ↔ C fl ∧ Q () (setField bd fl a .copyDone [1]) :=
  wp_writeField room (f := .copyDone) nofun (by simp) rfl

theorem wp_bootWriteSwapInfo {swapType : SwapType}
    (code : swapType.code < 0xf) : wp (bootWriteSwapInfo bd a swapType 0) Q E C fl ↔
      C fl ∧ Q () (setField bd fl a .swapInfo [.ofNat swapType.code]) := by
  unfold bootWriteSwapInfo
  rw [if_pos ⟨by decide, code⟩, Nat.zero_mul, Nat.zero_add]
  exact wp_writeField room (f := .swapInfo) nofun (by simp) rfl

theorem wp_bootWriteSwapSize {swapSize : Nat} :
    wp (bootWriteSwapSize bd a swapSize) Q E C fl ↔ C fl ∧ Q () (setField bd fl a .swapSize (put32 swapSize)) :=
  wp_writeField room (f := .swapSize) nofun (by simp) rfl

theorem wp_bootWriteUnprotectedTlvSizes
    (mode : bd.mode = .offset) {pri sec : Nat} : wp (bootWriteUnprotectedTlvSizes bd a pri sec) Q E C fl ↔
      C fl ∧ Q () (setField bd fl a .tlvSizes (put16 pri ++ put16 sec)) :=
  wp_writeField room (f := .tlvSizes) (fun _ => mode) (by simp) rfl

theorem wp_readSwapState {Q : BootSwapState → Flash → Prop} :
    wp (readSwapState bd a) Q E C fl ↔ Q (swapState bd fl a) fl := by
  unfold readSwapState
  rw [wp_bind, wp_get, bootReadSwapState_eq room]
  exact wp_pure _

end WriteSpecs

end Adaboot
