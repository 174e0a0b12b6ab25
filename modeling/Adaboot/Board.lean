import Adaboot.Crash.Recovery
import Adaboot.Image.Header
import Adaboot.Nor.Sectors
import Mathlib.Algebra.BigOperators.Ring.List

/-!
# The board

The flash areas of a device with two image slots, the constants of its build, and the flash
operations of the loader. Every erase and every write is one step of the program, and power can be
cut before each of them.
-/

namespace Adaboot

open Nor Crash

/-- The flash areas of one image. -/
inductive Area where
  | primary
  | secondary
  | scratch
deriving DecidableEq, Repr

abbrev Flash : Type := Nor.Flash Area

/-- The upgrade strategy. `overwrite` has its options `..._FAST` and `..._KEEP_BACKUP`, `single` is a single
application slot. -/
inductive SwapMode where
  | offset
  | move
  | scratch
  | overwrite (fast keepBackup : Bool)
  | single
deriving DecidableEq, Repr

/-- Build constants and flash layout, with what the source asserts about them at build time. -/
structure Board where
  mode : SwapMode
  /-- `BOOT_MAX_ALIGN`. -/
  maxAlign : Nat
  /-- `BOOT_MAX_IMG_SECTORS`. -/
  maxImgSectors : Nat
  /-- The buffer of `boot_copy_region`. -/
  bufSz : Nat
  /-- `flash_area_align`. -/
  align : Area → Nat
  /-- The sector sizes of each area. -/
  layout : Area → List Nat
  maxAlign_eq : maxAlign = 8 ∨ maxAlign = 16 ∨ maxAlign = 32
  bufSz_pos : 0 < bufSz
  align_pow : ∀ a, ∃ k, align a = 2 ^ k
  align_dvd : ∀ a, align a ∣ maxAlign
  sector_pos : ∀ a, ∀ s ∈ layout a, 0 < s
  sector_dvd : ∀ a, ∀ s ∈ layout a, maxAlign ∣ s
  size_lt : ∀ a, (layout a).sum < 2 ^ 32
  sectors_le : ∀ a, (layout a).length ≤ maxImgSectors

/-- The failures that functions report, and `panic` for a failed assertion. -/
inductive BootErr where
  | eflash
  | ebadimage
  | ebadargs
  | ebadvect
  | panic
deriving DecidableEq, Repr

/-- A part of the boot loader that works on flash. -/
abbrev Boot : Type → Type := Prog Flash BootErr

namespace Board

variable (bd : Board)

/-- `flash_area_get_size`. -/
def faSize (a : Area) : Nat := (bd.layout a).sum

/-- `boot_img_num_sectors`. -/
def numSectors (a : Area) : Nat := (bd.layout a).length

/-- `boot_img_sector_off`. -/
def sectorOff (a : Area) (i : Nat) : Nat := Nor.sectorOff (bd.layout a) i

/-- `boot_img_sector_size`. -/
def sectorSize (a : Area) (i : Nat) : Nat := Nor.sectorSize (bd.layout a) i

/-- The area as the readers of `flash_area_read` see it. -/
def area (fl : Flash) (a : Area) : FlashArea := ⟨bd.faSize a, fl a, bd.size_lt a⟩

theorem maxAlign_ge : 8 ≤ bd.maxAlign := by
  rcases bd.maxAlign_eq with h | h | h <;> omega

variable {a : Area} {i : Nat}

theorem sectorOff_succ (lt : i < bd.numSectors a) :
    bd.sectorOff a (i + 1) = bd.sectorOff a i + bd.sectorSize a i :=
  Nor.sectorOff_succ lt

theorem sectorOff_mono (a : Area) {j : Nat} (le : i ≤ j) : bd.sectorOff a i ≤ bd.sectorOff a j :=
  Nor.sectorOff_mono _ le

theorem sectorOff_numSectors (a : Area) : bd.sectorOff a (bd.numSectors a) = bd.faSize a := Nor.sectorOff_length _

theorem sectorOff_le_faSize (a : Area) (i : Nat) : bd.sectorOff a i ≤ bd.faSize a := Nor.sectorOff_le_sum _ i

theorem sector_ge (a : Area) : ∀ s ∈ bd.layout a, 8 ≤ s := fun s mem =>
  bd.maxAlign_ge.trans (Nat.le_of_dvd (bd.sector_pos a s mem) (bd.sector_dvd a s mem))

theorem sectorSize_mem (lt : i < bd.numSectors a) : bd.sectorSize a i ∈ bd.layout a :=
  Nor.sectorSize_mem lt

theorem sectorSize_ge (lt : i < bd.numSectors a) : 8 ≤ bd.sectorSize a i :=
  bd.sector_ge a _ (bd.sectorSize_mem lt)

theorem maxAlign_dvd_faSize (a : Area) : bd.maxAlign ∣ bd.faSize a := List.dvd_sum (bd.sector_dvd a)

def Fits (maxAlign maxImgSectors bufSz : Nat) (alignLog : Area → Nat) (layout : Area → List Nat) : Prop :=
  (maxAlign = 8 ∨ maxAlign = 16 ∨ maxAlign = 32) ∧ 0 < bufSz ∧
    ∀ a ∈ [Area.primary, .secondary, .scratch], 2 ^ alignLog a ∣ maxAlign ∧
      (∀ s ∈ layout a, 0 < s ∧ maxAlign ∣ s) ∧ (layout a).sum < 2 ^ 32 ∧
      (layout a).length ≤ maxImgSectors

instance (maxAlign maxImgSectors bufSz : Nat) (alignLog : Area → Nat) (layout : Area → List Nat) :
    Decidable (Fits maxAlign maxImgSectors bufSz alignLog layout) :=
  inferInstanceAs (Decidable (_ ∧ _))

def ofLayout (mode : SwapMode) (maxAlign maxImgSectors bufSz : Nat) (alignLog : Area → Nat)
    (layout : Area → List Nat) (ok : Fits maxAlign maxImgSectors bufSz alignLog layout) : Board :=
  have area (a : Area) : a ∈ [Area.primary, .secondary, .scratch] := by cases a <;> simp
  { mode, maxAlign, maxImgSectors, bufSz, layout
    align := fun a => 2 ^ alignLog a
    maxAlign_eq := ok.1
    bufSz_pos := ok.2.1
    align_pow := fun a => ⟨alignLog a, rfl⟩
    align_dvd := fun a => (ok.2.2 a (area a)).1
    sector_pos := fun a s mem => ((ok.2.2 a (area a)).2.1 s mem).1
    sector_dvd := fun a s mem => ((ok.2.2 a (area a)).2.1 s mem).2
    size_lt := fun a => (ok.2.2 a (area a)).2.2.1
    sectors_le := fun a => (ok.2.2 a (area a)).2.2.2 }

theorem fourSectors_fits : Fits 8 4 64 (fun _ => 0) fun _ => List.replicate 4 128 := by decide

end Board

/-! ### Flash operations -/

section Operations

variable (bd : Board) (a : Area)

def flashAreaErase (off len : Nat) : Boot Unit :=
  if off + len ≤ bd.faSize a then .op fun fl => fl.erase a off len else .throw .eflash

def flashAreaWrite (off : Nat) (data : Bytes) : Boot Unit :=
  if off + data.length ≤ bd.faSize a then .op fun fl => fl.program a off data else .throw .eflash

/-- `assert(rc == 0)` behind a call. -/
def assertOk {α : Type} (m : Boot α) : Boot α := .handle m fun _ => .throw .panic

/-- A call whose return code is ignored. A failed assertion inside it still stops the loader. -/
def ignoreRc (m : Boot Unit) : Boot Unit := .handle m fun e => if e = .panic then .throw .panic else pure ()

/-- The loop of `boot_erase_region` from low to high sectors. -/
def eraseForward (endOffset : Nat) : Nat → Nat → Boot Unit
  | 0, _ => .throw .panic
  | fuel + 1, off =>
    match sectorAt (bd.layout a) off with
    | none => .throw .eflash
    | some (off, csize) => do
      flashAreaErase bd a off csize
      if off + csize > endOffset then pure () else eraseForward endOffset fuel (off + csize + 1)

/-- The loop of `boot_erase_region` from high to low sectors. -/
def eraseBackward (endOffset : Nat) : Nat → Nat → Boot Unit
  | 0, _ => .throw .panic
  | fuel + 1, off =>
    match sectorAt (bd.layout a) off with
    | none => .throw .eflash
    | some (off, csize) => do
      flashAreaErase bd a off csize
      if endOffset ≥ off then pure () else eraseBackward endOffset fuel (off - 1)

/-- `boot_erase_region` on a device that requires erase. -/
def bootEraseRegion (off size : Nat) (backwards : Bool) : Boot Unit :=
  if off ≥ bd.faSize a ∨ bd.faSize a - off < size then .throw .eflash
  else if backwards then
    match sectorAt (bd.layout a) off with
    | none => .throw .eflash
    | some (endOffset, _) => eraseBackward bd a endOffset (bd.numSectors a) (off + (size - 1))
  else
    match sectorAt (bd.layout a) (off + size - 1) with
    | none => .throw .eflash
    | some (endOffset, _) => eraseForward bd a endOffset (bd.numSectors a) off

/-- `boot_scramble_region` on a device that requires erase. -/
def bootScrambleRegion (off size : Nat) (backwards : Bool) : Boot Unit :=
  if size = 0 then pure () else bootEraseRegion bd a off size backwards

/-- `boot_scramble_slot` without `MCUBOOT_MINIMAL_SCRAMBLE`. -/
def bootScrambleSlot : Boot Unit := bootScrambleRegion bd a 0 (bd.faSize a) false

end Operations

/-- The loop of `boot_copy_region`. -/
def copyLoop (bd : Board) (src dst : Area) (offSrc offDst sz : Nat) : Nat → Nat → Boot Unit
  | 0, _ => .throw .panic
  | fuel + 1, bytesCopied =>
    if bytesCopied < sz then do
      let chunkSz := if sz - bytesCopied > bd.bufSz then bd.bufSz else sz - bytesCopied
      let fl ← .get
      match flashAreaRead (bd.area fl src) (offSrc + bytesCopied) chunkSz with
      | none => .throw .eflash
      | some buf => do
        flashAreaWrite bd dst (offDst + bytesCopied) buf
        copyLoop bd src dst offSrc offDst sz fuel (bytesCopied + chunkSz)
    else pure ()

def bootCopyRegion (bd : Board) (src dst : Area) (offSrc offDst sz : Nat) : Boot Unit :=
  copyLoop bd src dst offSrc offDst sz (sz + 1) 0

/-! ### What the operations do -/

section Specs

variable {bd : Board} {a : Area} {Q : Unit → Flash → Prop} {E : BootErr → Flash → Prop} {C : Flash → Prop} {fl : Flash}

theorem wp_flashAreaErase {off len : Nat} (fits : off + len ≤ bd.faSize a) :
    wp (flashAreaErase bd a off len) Q E C fl ↔ C fl ∧ Q () (fl.erase a off len) := by
  rw [flashAreaErase, if_pos fits, wp_op]

theorem wp_flashAreaWrite {off : Nat} {data : Bytes} (fits : off + data.length ≤ bd.faSize a) :
    wp (flashAreaWrite bd a off data) Q E C fl ↔ C fl ∧ Q () (fl.program a off data) := by
  rw [flashAreaWrite, if_pos fits, wp_op]

theorem wp_assertOk {α : Type} {m : Boot α} {Q : α → Flash → Prop}
    (holds : wp m Q (fun _ _ => False) C fl) : wp (assertOk m) Q E C fl := by
  rw [assertOk, wp_handle]
  exact wp_mono holds (fun _ _ h => h) (fun _ _ h => h.elim) (fun _ h => h)

theorem wp_ignoreRc {m : Boot Unit} (holds : wp m Q (fun _ _ => False) C fl) : wp (ignoreRc m) Q E C fl := by
  rw [ignoreRc, wp_handle]
  exact wp_mono holds (fun _ _ h => h) (fun _ _ h => h.elim) (fun _ h => h)

section Copy

variable {src dst : Area} {offSrc offDst sz : Nat}

/-- The first `n` bytes have been copied to where the destination was erased, and nothing else has changed. -/
structure CopiedTo (src dst : Area) (offSrc offDst n : Nat) (fl fl' : Flash) : Prop where
  outside : Flash.EqOutside dst offDst (offDst + n) fl fl'
  copied : ∀ i, i < n → fl dst (offDst + i) = erasedVal → fl' dst (offDst + i) = fl src (offSrc + i)

theorem CopiedTo.chunk {n len : Nat} {fl' : Flash} (so_far : CopiedTo src dst offSrc offDst n fl fl')
    (le : n + len ≤ sz) (apart : src = dst → offSrc + sz ≤ offDst ∨ offDst + sz ≤ offSrc) :
    CopiedTo src dst offSrc offDst (n + len) fl (fl'.program dst (offDst + n)
      ((List.range len).map fun i => fl' src (offSrc + n + i))) := by
  constructor
  · intro b i out
    rw [Flash.program_outside _ (by simp only [List.length_map, List.length_range]; intro eq
                                    have := out eq; omega)]
    exact so_far.outside b i fun eq => by have := out eq; omega
  · intro i lt blank
    by_cases old : i < n
    · rw [Flash.program_outside _ fun _ => by left; omega]
      exact so_far.copied i old blank
    · -- the destination is still erased and the source is untouched
      obtain ⟨k, rfl⟩ : ∃ k, i = n + k := ⟨i - n, by omega⟩
      have dstBlank : fl' dst (offDst + n + k) = erasedVal := by
        rw [so_far.outside dst _ fun _ => by right; omega, Nat.add_assoc]
        exact blank
      have srcSame : fl' src (offSrc + n + k) = fl src (offSrc + (n + k)) := by
        rw [so_far.outside src _ fun eq => by have := apart eq; omega, Nat.add_assoc]
      rw [← Nat.add_assoc, Flash.program_erased _ _ (by simp; omega) dstBlank, ← srcSame]
      simp [List.getD, show k < len by omega]

theorem copyLoop_wp {fuel n : Nat} {fl' : Flash} (srcFits : offSrc + sz ≤ bd.faSize src)
    (dstFits : offDst + sz ≤ bd.faSize dst) (apart : src = dst → offSrc + sz ≤ offDst ∨ offDst + sz ≤ offSrc)
    (post : ∀ fl', CopiedTo src dst offSrc offDst sz fl fl' → Q () fl')
    (cuts : ∀ fl', Flash.EqOutside dst offDst (offDst + sz) fl fl' → C fl')
    (le : n ≤ sz) (enough : sz < n + fuel) (so_far : CopiedTo src dst offSrc offDst n fl fl') :
    wp (copyLoop bd src dst offSrc offDst sz fuel n) Q E C fl' := by
  induction fuel generalizing n fl' with
  | zero => omega
  | succ fuel ih =>
    rw [copyLoop]
    split
    next more =>
      have pos := bd.bufSz_pos
      generalize h : (if sz - n > bd.bufSz then bd.bufSz else sz - n) = chunkSz
      have chunk_le : chunkSz ≤ sz - n := by rw [← h]; split <;> omega
      have chunk_pos : 0 < chunkSz := by rw [← h]; split <;> omega
      rw [wp_bind, wp_get, flashAreaRead_of_le (by simp only [Board.area]; omega)]
      simp only [wp_bind, Board.area]
      rw [wp_flashAreaWrite (by simp only [List.length_map, List.length_range]; omega)]
      refine ⟨cuts _ (so_far.outside.mono le_rfl (by omega)), ?_⟩
      exact ih (by omega) (by omega) (so_far.chunk (by omega) apart)
    next done =>
      obtain rfl : n = sz := by omega
      rw [wp_pure]
      exact post _ so_far

theorem bootCopyRegion_wp (srcFits : offSrc + sz ≤ bd.faSize src) (dstFits : offDst + sz ≤ bd.faSize dst)
    (apart : src = dst → offSrc + sz ≤ offDst ∨ offDst + sz ≤ offSrc)
    (post : ∀ fl', CopiedTo src dst offSrc offDst sz fl fl' → Q () fl')
    (cuts : ∀ fl', Flash.EqOutside dst offDst (offDst + sz) fl fl' → C fl') :
    wp (bootCopyRegion bd src dst offSrc offDst sz) Q E C fl := by
  refine copyLoop_wp srcFits dstFits apart post cuts (Nat.zero_le _) (by omega) ⟨?_, ?_⟩
  · exact Flash.EqOutside.refl _ _ _ _
  · omega

end Copy

end Specs

end Adaboot
