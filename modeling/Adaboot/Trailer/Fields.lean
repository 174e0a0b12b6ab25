import Adaboot.Image.Pack
import Adaboot.Trailer.Layout
import Mathlib.Logic.Function.Basic

/-!
# Reading image trailers

The functions of `bootutil_public.c` and `bootutil_misc.c` that read the fields of a trailer, the
fields as values, and what a change of flash does to them.
-/

namespace Adaboot

open Nor Crash

/-- `BOOT_MAGIC_*`. -/
inductive Magic where
  | good
  | bad
  | unset
deriving DecidableEq, Repr

/-- `BOOT_FLAG_*`. -/
inductive Flag where
  | set
  | bad
  | unset
deriving DecidableEq, Repr

/-- `BOOT_SWAP_TYPE_*`. A status trailer can hold any other nibble, which is kept as it is. -/
inductive SwapType where
  | none
  | test
  | perm
  | revert
  | fail
  | panic
  | other (code : Nat)
deriving DecidableEq, Repr

def SwapType.code : SwapType → Nat
  | none => 1
  | test => 2
  | perm => 3
  | revert => 4
  | fail => 5
  | panic => 0xff
  | other code => code

def SwapType.ofCode : Nat → SwapType
  | 1 => none
  | 2 => test
  | 3 => perm
  | 4 => revert
  | 5 => fail
  | 0xff => panic
  | code => other code

def bootImgMagic (bd : Board) : Bytes :=
  if bd.maxAlign = 8 then
    [0x77, 0xc2, 0x95, 0xf3, 0x60, 0xd2, 0xef, 0x7f, 0x35, 0x52, 0x50, 0x0f, 0x2c, 0xb6, 0x79, 0x80]
  else
    put16 bd.maxAlign ++ [0x2d, 0xe1, 0x5d, 0x29, 0x41, 0x0b, 0x8d, 0x77, 0x67, 0x9c, 0x11, 0x0f, 0x1f, 0x8a]

/-- `bootutil_buffer_is_erased`. -/
def bufferIsErased (buffer : Bytes) : Bool := !buffer.isEmpty && buffer.all (· == erasedVal)

def bootMagicDecode (bd : Board) (magic : Bytes) : Magic :=
  if magic = bootImgMagic bd then .good else .bad

def bootFlagDecode (flag : UInt8) : Flag := if flag ≠ 1 then .bad else .set

structure BootSwapState where
  magic : Magic
  swapType : SwapType
  imageNum : Nat
  copyDone : Flag
  imageOk : Flag
deriving DecidableEq, Repr

section Reading

variable (bd : Board) (fl : Flash) (a : Area)

def bootReadFlag (off : Nat) : Option Flag := do
  let flag ← flashAreaRead (bd.area fl a) off 1
  pure (if bufferIsErased flag then .unset else bootFlagDecode (flag.getD 0 0))

def bootReadSwapState : Option BootSwapState := do
  let magic ← flashAreaRead (bd.area fl a) (bootMagicOff bd a) bootMagicSz
  let swapInfo ← flashAreaRead (bd.area fl a) (bootSwapInfoOff bd a) 1
  let info := (swapInfo.getD 0 0).toNat
  let none := bufferIsErased swapInfo || info % 16 > SwapType.revert.code
  let copyDone ← bootReadFlag bd fl a (bootCopyDoneOff bd a)
  let imageOk ← bootReadFlag bd fl a (bootImageOkOff bd a)
  pure
    { magic := if bufferIsErased magic then .unset else bootMagicDecode bd magic
      swapType := if none then .none else .ofCode (info % 16)
      imageNum := if none then 0 else info / 16
      copyDone, imageOk }

def bootReadSwapSize : Option Nat := (flashAreaRead (bd.area fl a) (bootSwapSizeOff bd a) 4).map fun buf => le32 buf 0

/-- `boot_read_unprotected_tlv_sizes`, the primary's before the secondary's. -/
def bootReadUnprotectedTlvSizes : Option (Nat × Nat) :=
  (flashAreaRead (bd.area fl a) (bootUnprotectedTlvSizesOff bd a) 4).map fun buf =>
    (le16 buf 0, le16 buf 2)

/-- `boot_find_status`: in swap-using-scratch the scratch area if its magic is good, else the
primary slot. -/
def bootFindStatus : Option Area := do
  if bd.mode = .scratch then
    let magic ← flashAreaRead (bd.area fl .scratch) (bootMagicOff bd .scratch) bootMagicSz
    if bootMagicDecode bd magic = .good then return .scratch
  let _ ← flashAreaRead (bd.area fl .primary) (bootMagicOff bd .primary) bootMagicSz
  return .primary

end Reading

/-! ### The fields as values -/

def magicOf (bd : Board) (magic : Bytes) : Magic :=
  if bufferIsErased magic then .unset else bootMagicDecode bd magic

def flagOf (flag : Bytes) : Flag :=
  if bufferIsErased flag then .unset else bootFlagDecode (flag.getD 0 0)

def swapInfoNone (swapInfo : Bytes) : Bool :=
  bufferIsErased swapInfo || (swapInfo.getD 0 0).toNat % 16 > SwapType.revert.code

def swapState (bd : Board) (fl : Flash) (a : Area) : BootSwapState :=
  let info := trailerField bd fl a .swapInfo
  { magic := magicOf bd (trailerField bd fl a .magic)
    swapType := if swapInfoNone info then .none else .ofCode ((info.getD 0 0).toNat % 16)
    imageNum := if swapInfoNone info then 0 else (info.getD 0 0).toNat / 16
    copyDone := flagOf (trailerField bd fl a .copyDone)
    imageOk := flagOf (trailerField bd fl a .imageOk) }

section Values

variable {bd : Board} {fl : Flash} {a : Area}

theorem flashAreaRead_area {off len : Nat} (fits : off + len ≤ bd.faSize a) :
    flashAreaRead (bd.area fl a) off len = some (fl.read a off len) :=
  flashAreaRead_of_le fits

variable {f : Field} {fl' : Flash} {data : Bytes}

theorem flashAreaRead_field (fl : Flash) (room : bd.HoldsTrailer a) (here : f.Present bd) :
    flashAreaRead (bd.area fl a) (f.off bd a) f.len = some (trailerField bd fl a f) :=
  flashAreaRead_area (Field.off_add_len_le room here)

theorem bootReadFlag_eq (fl : Flash) (room : bd.HoldsTrailer a) (here : f.Present bd) (one : f.len = 1) :
    bootReadFlag bd fl a (f.off bd a) = some (flagOf (trailerField bd fl a f)) := by
  have read := flashAreaRead_field fl room here
  rw [one] at read
  simp only [bootReadFlag, read, Option.bind_eq_bind, Option.bind_some, flagOf]
  rfl

theorem bootReadSwapState_eq (room : bd.HoldsTrailer a) :
    bootReadSwapState bd fl a = some (swapState bd fl a) := by
  have magic := flashAreaRead_field fl room (f := .magic) nofun
  have info := flashAreaRead_field fl room (f := .swapInfo) nofun
  have done := bootReadFlag_eq fl room (f := .copyDone) nofun rfl
  have ok := bootReadFlag_eq fl room (f := .imageOk) nofun rfl
  simp only [Field.off, Field.len] at magic info done ok
  simp only [bootReadSwapState, bootMagicSz, magic, info, done, ok, Option.bind_eq_bind, Option.bind_some]
  rfl

theorem bootReadSwapSize_eq (room : bd.HoldsTrailer a) :
    bootReadSwapSize bd fl a = some (le32 (trailerField bd fl a .swapSize) 0) := by
  have read := flashAreaRead_field fl room (f := .swapSize) nofun
  simp only [Field.off, Field.len] at read
  rw [bootReadSwapSize, read, Option.map_some]

theorem bootReadUnprotectedTlvSizes_eq (room : bd.HoldsTrailer a) (mode : bd.mode = .offset) :
    bootReadUnprotectedTlvSizes bd fl a =
      some (le16 (trailerField bd fl a .tlvSizes) 0, le16 (trailerField bd fl a .tlvSizes) 2) := by
  have read := flashAreaRead_field fl room (f := .tlvSizes) fun _ => mode
  simp only [Field.off, Field.len] at read
  rw [bootReadUnprotectedTlvSizes, read, Option.map_some]

theorem length_trailerField (bd : Board) (fl : Flash) (a : Area) (f : Field) :
    (trailerField bd fl a f).length = f.len :=
  Flash.length_read ..

theorem bufferIsErased_iff : bufferIsErased (trailerField bd fl a f) = true ↔
      trailerField bd fl a f = List.replicate f.len erasedVal := by
  have ne : trailerField bd fl a f ≠ [] := by
    intro nil
    have := length_trailerField bd fl a f
    rw [nil] at this
    cases f <;> simp [Field.len] at this
  have len := length_trailerField bd fl a f
  rw [List.eq_replicate_iff]
  simp [bufferIsErased, List.isEmpty_eq_false_iff.mpr ne, len]

theorem flagOf_eq_unset : flagOf (trailerField bd fl a f) = .unset ↔
      trailerField bd fl a f = List.replicate f.len erasedVal := by
  rw [← bufferIsErased_iff, flagOf, bootFlagDecode]
  split_ifs <;> simp [*]

theorem bufferIsErased_bootImgMagic (bd : Board) : bufferIsErased (bootImgMagic bd) = false := by
  unfold bootImgMagic
  split
  · rfl
  · rcases bd.maxAlign_eq with h | h | h <;> rw [h] <;> rfl

theorem magicOf_eq_good {magic : Bytes} : magicOf bd magic = .good ↔ magic = bootImgMagic bd := by
  rw [magicOf, bootMagicDecode]
  split_ifs with erased good
  · simp only [false_iff]
    rintro rfl
    simp [bufferIsErased_bootImgMagic] at erased
  · simpa using good
  · simpa using good

theorem magicOf_eq_unset : magicOf bd (trailerField bd fl a .magic) = .unset ↔
      trailerField bd fl a .magic = List.replicate 16 erasedVal := by
  change _ ↔ _ = List.replicate Field.magic.len erasedVal
  rw [← bufferIsErased_iff, magicOf, bootMagicDecode]
  split_ifs with erased good
  · simp [erased]
  · simp [good, bufferIsErased_bootImgMagic]
  · simp [erased]

theorem bootImgMagic_last (bd : Board) : (bootImgMagic bd).getD 15 0 ≠ erasedVal := by
  unfold bootImgMagic
  split
  · decide
  · rcases bd.maxAlign_eq with h | h | h <;> rw [h] <;> decide

variable (room : bd.HoldsTrailer a)
include room

theorem magic_ne_good (blank : fl a (bd.faSize a - 1) = erasedVal) : (swapState bd fl a).magic ≠ .good := by
  intro good
  have magic := magicOf_eq_good.mp good
  have pos : Field.magic.off bd a + 15 = bd.faSize a - 1 := by
    have := magicAlignSize_ge bd
    unfold Board.HoldsTrailer bootTrailerInfoSz at room
    rw [Field.off_magic]
    omega
  have last : (trailerField bd fl a .magic).getD 15 0 = erasedVal := by
    rw [trailerField, Flash.read_getD _ _ _ _ _ _ (by decide), pos, blank]
  rw [magic] at last
  exact absurd last (bootImgMagic_last bd)

theorem magic_unset
    (blank : Flash.Erased fl a (bd.faSize a - bootMagicSz) (bd.faSize a)) : (swapState bd fl a).magic = .unset := by
  refine magicOf_eq_unset.mpr (List.eq_replicate_iff.mpr ⟨length_trailerField bd fl a .magic, ?_⟩)
  intro b mem
  obtain ⟨i, lt, rfl⟩ := List.mem_map.mp mem
  have lt : i < 16 := List.mem_range.mp lt
  have := magicAlignSize_ge bd
  unfold Board.HoldsTrailer bootTrailerInfoSz at room
  unfold bootMagicSz at blank
  rw [Field.off_magic]
  exact blank _ (by omega) (by omega)

/-! ### What a change of flash does to the fields -/

variable (same : Flash.EqOn a (bd.faSize a - bootTrailerInfoSz bd) (bd.faSize a) fl fl')
include same

theorem trailerField_congr (here : f.Present bd) : trailerField bd fl' a f = trailerField bd fl a f :=
  same.read (Field.off_ge room here) (Field.off_add_len_le room here)

theorem swapState_congr :
    swapState bd fl' a = swapState bd fl a := by
  have field {f : Field} (here : f.Present bd) := trailerField_congr room same here
  simp only [swapState, field (f := .magic) nofun,
    field (f := .swapInfo) nofun, field (f := .copyDone) nofun,
    field (f := .imageOk) nofun]

omit same

theorem trailerField_erased (blank : Flash.Erased fl a (bd.faSize a - bootTrailerInfoSz bd) (bd.faSize a))
    (here : f.Present bd) : trailerField bd fl a f = List.replicate f.len erasedVal := by
  apply List.eq_replicate_iff.mpr
  refine ⟨length_trailerField bd fl a f, ?_⟩
  intro b mem
  obtain ⟨i, lt, rfl⟩ := List.mem_map.mp mem
  have ge := Field.off_ge room here
  have le := Field.off_add_len_le room here
  have := List.mem_range.mp lt
  exact blank _ (by omega) (by omega)

omit room

def setField (bd : Board) (fl : Flash) (a : Area) (f : Field) (data : Bytes) : Flash := fl.program a (f.off bd a) data

theorem trailerField_setField_ne (room : bd.HoldsTrailer a) {g : Field}
    (hf : f.Present bd) (hg : g.Present bd) (ne : g ≠ f) (len : data.length = f.len) :
    trailerField bd (setField bd fl a f data) a g = trailerField bd fl a g := by
  apply Flash.read_congr
  intro i lt
  apply Flash.program_outside
  have := Field.disjoint room hf hg (Ne.symm ne)
  omega

theorem trailerField_setField_self
    (blank : trailerField bd fl a f = List.replicate f.len erasedVal) (len : data.length = f.len) :
    trailerField bd (setField bd fl a f data) a f = data := by
  unfold trailerField
  rw [← len, Flash.read_eq_iff]
  intro i lt
  apply Flash.program_erased _ _ lt
  have byte := Flash.read_getD fl a (f.off bd a) f.len i 0 (by omega)
  rw [← byte]
  unfold trailerField at blank
  rw [blank]
  simp [List.getD, show i < f.len by omega]

theorem setField_outside (room : bd.HoldsTrailer a) (here : f.Present bd) (len : data.length = f.len) :
    Flash.EqOutside a (bd.faSize a - bootTrailerInfoSz bd) (bd.faSize a) fl (setField bd fl a f data) :=
  (Flash.eqOutside_program fl a _ data).mono (Field.off_ge room here) (len ▸ Field.off_add_len_le room here)

/-- Some fields of a trailer have been written. -/
structure Written (bd : Board) (a : Area) (data : Field → Option Bytes) (fl fl' : Flash) : Prop where
  outside : Flash.EqOutside a (bd.faSize a - bootTrailerInfoSz bd) (bd.faSize a) fl fl'
  fields : ∀ f, f.Present bd → trailerField bd fl' a f = (data f).getD (trailerField bd fl a f)

theorem Written.none (bd : Board) (a : Area) (fl : Flash) : Written bd a (fun _ => .none) fl fl :=
  ⟨.refl _ _ _ _, fun _ _ => rfl⟩

theorem Written.set {data : Field → Option Bytes} (written : Written bd a data fl fl')
    (room : bd.HoldsTrailer a) (here : f.Present bd)
    (new : data f = .none) (blank : trailerField bd fl a f = List.replicate f.len erasedVal)
    {bytes : Bytes} (len : bytes.length = f.len) :
    Written bd a (Function.update data f (some bytes)) fl (setField bd fl' a f bytes) := by
  refine ⟨written.outside.trans (setField_outside room here len), fun g present => ?_⟩
  by_cases same : g = f
  · subst same
    have still : trailerField bd fl' a g = List.replicate g.len erasedVal := by
      rw [written.fields g present, new]
      exact blank
    rw [trailerField_setField_self still len, Function.update_self]
    rfl
  · rw [trailerField_setField_ne room here present same len, written.fields g present, Function.update_of_ne same]

end Values

end Adaboot
