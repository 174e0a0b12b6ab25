import Adaboot.Board

/-!
# The layout of image trailers

The trailer at the end of a slot (`bootutil_misc.h`, `bootutil_area.c`) holds, from the end down, the magic,
`image_ok`, `copy_done`, the swap info, with offset the TLV sizes, the swap size, and the status bytes.
-/

namespace Adaboot

open Nor Crash

/-- `ALIGN_DOWN`. Clearing the bits of `align - 1` subtracts them. -/
def alignDown (num align : Nat) : Nat := num - (num &&& (align - 1))

def alignUp (num align : Nat) : Nat := alignDown (num + (align - 1)) align

theorem alignDown_pow (num k : Nat) : alignDown num (2 ^ k) = num - num % 2 ^ k := by
  rw [alignDown, Nat.and_two_pow_sub_one_eq_mod]

theorem alignUp_le {num bound k : Nat} (dvd : 2 ^ k ∣ bound) (le : num ≤ bound) : alignUp num (2 ^ k) ≤ bound := by
  rw [alignUp, alignDown_pow]
  obtain ⟨m, rfl⟩ := dvd
  have pos : 0 < 2 ^ k := Nat.two_pow_pos k
  have split := Nat.div_add_mod (num + (2 ^ k - 1)) (2 ^ k)
  have quot : (num + (2 ^ k - 1)) / 2 ^ k ≤ m := by
    rw [Nat.div_le_iff_le_mul_add_pred pos]
    omega
  have := Nat.mul_le_mul_left (2 ^ k) quot
  omega

theorem le_alignUp (num k : Nat) : num ≤ alignUp num (2 ^ k) := by
  rw [alignUp, alignDown_pow]
  omega

theorem dvd_alignUp (num k : Nat) : 2 ^ k ∣ alignUp num (2 ^ k) := by
  rw [alignUp, alignDown_pow]
  exact Nat.dvd_sub_mod _

/-! ### Layout -/

/-- `BOOT_STATUS_STATE_COUNT`. -/
def Board.statusStateCount (bd : Board) : Nat :=
  match bd.mode with
  | .offset => 2
  | _ => 3

def bootMagicSz : Nat := 16

section Layout

variable (bd : Board) (a : Area)

/-- `BOOT_MAGIC_ALIGN_SIZE`. -/
def Board.magicAlignSize : Nat := alignUp bootMagicSz bd.maxAlign

def bootTrailerInfoSz : Nat := bd.maxAlign * 4 + (if bd.mode = .offset then bd.maxAlign else 0) + bd.magicAlignSize

/-- The area has room for the fields of a trailer. -/
abbrev Board.HoldsTrailer : Prop := bootTrailerInfoSz bd ≤ bd.faSize a

def bootStatusEntrySz (minWriteSz : Nat) : Nat :=
  if bd.mode = .single then 0 else bd.statusStateCount * minWriteSz

def bootStatusSz (minWriteSz : Nat) : Nat := bd.maxImgSectors * bootStatusEntrySz bd minWriteSz

def bootTrailerSz (minWriteSz : Nat) : Nat := bootStatusSz bd minWriteSz + bootTrailerInfoSz bd

def bootScratchTrailerSz (minWriteSz : Nat) : Nat := bootStatusEntrySz bd minWriteSz + bootTrailerInfoSz bd

def bootMagicOff : Nat := bd.faSize a - bootMagicSz

def bootImageOkOff : Nat := alignDown (bootMagicOff bd a - bd.maxAlign) bd.maxAlign

def bootCopyDoneOff : Nat := bootImageOkOff bd a - bd.maxAlign

def bootSwapInfoOff : Nat := bootCopyDoneOff bd a - bd.maxAlign

/-- `boot_unprotected_tlv_sizes_off`, only in swap-using-offset. -/
def bootUnprotectedTlvSizesOff : Nat := bootSwapInfoOff bd a - bd.maxAlign

def bootSwapSizeOff : Nat :=
  if bd.mode = .offset then bootUnprotectedTlvSizesOff bd a - bd.maxAlign
  else bootSwapInfoOff bd a - bd.maxAlign

/-- The size of the trailer of an area, by which `boot_status_off` counts back. -/
def bootTrailerSzOf : Nat :=
  if bd.mode = .scratch ∧ a = .scratch then bootScratchTrailerSz bd (bd.align a)
  else bootTrailerSz bd (bd.align a)

def bootStatusOff : Nat := bd.faSize a - bootTrailerSzOf bd a

def bootStatusEntries : Nat :=
  if bd.mode = .scratch ∧ a = .scratch then bd.statusStateCount
  else bd.statusStateCount * bd.maxImgSectors

/-- `BOOT_WRITE_SZ`, as `boot_write_sz` computes it. -/
def Board.writeSz : Nat :=
  if bd.mode = .scratch ∧ bd.align .scratch > bd.align .primary then bd.align .scratch
  else bd.align .primary

end Layout

/-- The fields of a trailer above the status bytes. -/
inductive Field where
  | magic
  | imageOk
  | copyDone
  | swapInfo
  | tlvSizes
  | swapSize
deriving DecidableEq, Repr

namespace Field

def len : Field → Nat
  | magic => 16
  | imageOk => 1
  | copyDone => 1
  | swapInfo => 1
  | tlvSizes => 4
  | swapSize => 4

def off (bd : Board) (a : Area) : Field → Nat
  | magic => bootMagicOff bd a
  | imageOk => bootImageOkOff bd a
  | copyDone => bootCopyDoneOff bd a
  | swapInfo => bootSwapInfoOff bd a
  | tlvSizes => bootUnprotectedTlvSizesOff bd a
  | swapSize => bootSwapSizeOff bd a

/-- The field is part of the trailers of the build. -/
def Present (bd : Board) (f : Field) : Prop := f = tlvSizes → bd.mode = .offset

end Field

def trailerField (bd : Board) (fl : Flash) (a : Area) (f : Field) : Bytes := fl.read a (f.off bd a) f.len

section Offsets

variable {bd : Board} {a : Area}

theorem Board.maxAlign_pow (bd : Board) : ∃ k, bd.maxAlign = 2 ^ k := by
  rcases bd.maxAlign_eq with h | h | h
  · exact ⟨3, h⟩
  · exact ⟨4, h⟩
  · exact ⟨5, h⟩

theorem alignDown_maxAlign (num : Nat) : alignDown num bd.maxAlign = num - num % bd.maxAlign := by
  obtain ⟨k, h⟩ := bd.maxAlign_pow
  rw [h, alignDown_pow]

theorem magicAlignSize_eq (bd : Board) : bd.magicAlignSize = if bd.maxAlign = 32 then 32 else 16 := by
  unfold Board.magicAlignSize alignUp alignDown bootMagicSz
  rcases bd.maxAlign_eq with h | h | h <;> rw [h] <;> rfl

theorem alignDown_magicOff (room : bd.magicAlignSize ≤ bd.faSize a) :
    alignDown (bootMagicOff bd a) bd.maxAlign + bd.magicAlignSize = bd.faSize a := by
  have dvd := bd.maxAlign_dvd_faSize a
  have size := magicAlignSize_eq bd
  rw [alignDown_maxAlign, bootMagicOff, bootMagicSz]
  rcases bd.maxAlign_eq with h | h | h <;> simp only [h] at dvd size ⊢ <;> simp at size <;> omega

theorem bootImageOkOff_eq_of_le (room : bd.magicAlignSize + bd.maxAlign ≤ bd.faSize a) :
    bootImageOkOff bd a = bd.faSize a - bd.magicAlignSize - bd.maxAlign := by
  have dvd := bd.maxAlign_dvd_faSize a
  unfold bootImageOkOff bootMagicOff bootMagicSz
  rw [alignDown_maxAlign]
  rw [magicAlignSize_eq] at room ⊢
  rcases bd.maxAlign_eq with h | h | h <;> simp only [h] at dvd room ⊢ <;> simp at room ⊢ <;> omega

theorem bootImageOkOff_eq (room : bd.HoldsTrailer a) :
    bootImageOkOff bd a = bd.faSize a - bd.magicAlignSize - bd.maxAlign := by
  unfold Board.HoldsTrailer bootTrailerInfoSz at room
  exact bootImageOkOff_eq_of_le (by omega)

/-- Fields are numbered from the magic down, each in a write unit of its own. -/
def Field.unit (bd : Board) : Field → Nat
  | magic => 0
  | imageOk => 1
  | copyDone => 2
  | swapInfo => 3
  | tlvSizes => 4
  | swapSize => if bd.mode = .offset then 5 else 4

variable {f g : Field}

theorem Field.off_eq (room : bd.HoldsTrailer a) (ne : f ≠ magic) :
    f.off bd a = bd.faSize a - bd.magicAlignSize - f.unit bd * bd.maxAlign := by
  have base := bootImageOkOff_eq room
  cases f <;> simp only [off, unit, bootSwapSizeOff, bootUnprotectedTlvSizesOff, bootSwapInfoOff, bootCopyDoneOff, base]
  case magic => exact absurd rfl ne
  case swapSize => split <;> omega
  all_goals omega

theorem Field.off_magic : magic.off bd a = bd.faSize a - 16 := rfl

theorem Field.len_le (bd : Board) (ne : f ≠ magic) : f.len ≤ bd.maxAlign := by
  have := bd.maxAlign_ge
  cases f <;> simp only [len] <;> first | omega | exact absurd rfl ne

theorem magicAlignSize_ge (bd : Board) : 16 ≤ bd.magicAlignSize := by
  rw [magicAlignSize_eq]
  split <;> omega

theorem Field.unit_le (here : f.Present bd) :
    f.unit bd * bd.maxAlign + bd.magicAlignSize ≤ bootTrailerInfoSz bd := by
  unfold bootTrailerInfoSz
  cases f <;> simp only [unit]
  case tlvSizes =>
    omega
  all_goals split <;> omega

theorem Field.off_ge (room : bd.HoldsTrailer a)
    (here : f.Present bd) : bd.faSize a - bootTrailerInfoSz bd ≤ f.off bd a := by
  have le := unit_le here
  have ge := magicAlignSize_ge bd
  by_cases ne : f = magic
  · subst ne
    rw [off_magic]
    omega
  · rw [off_eq room ne]
    omega

theorem Field.off_add_maxAlign_le (room : bd.HoldsTrailer a)
    (here : f.Present bd) (ne : f ≠ magic) : f.off bd a + bd.maxAlign ≤ bd.faSize a - 16 := by
  have le := unit_le here
  have ge := magicAlignSize_ge bd
  have pos : bd.maxAlign ≤ f.unit bd * bd.maxAlign := by
    cases f <;> simp only [unit] <;> first | omega | exact absurd rfl ne | (split <;> omega)
  rw [off_eq room ne]
  omega

theorem Field.off_add_len_le (room : bd.HoldsTrailer a) (here : f.Present bd) : f.off bd a + f.len ≤ bd.faSize a := by
  by_cases ne : f = magic
  · subst ne
    have := unit_le here
    have := magicAlignSize_ge bd
    rw [off_magic, len]
    omega
  · have := off_add_maxAlign_le room here ne
    have := len_le bd ne
    omega

theorem Field.unit_injective (hf : f.Present bd) (hg : g.Present bd)
    (ne : f ≠ g) : f.unit bd ≠ g.unit bd := by
  unfold Present at hf hg
  cases f <;> cases g <;> simp only [unit] <;> first | exact absurd rfl ne | omega | skip
  all_goals split <;> simp_all

theorem Field.disjoint (room : bd.HoldsTrailer a) (hf : f.Present bd) (hg : g.Present bd) (ne : f ≠ g) :
    f.off bd a + f.len ≤ g.off bd a ∨ g.off bd a + g.len ≤ f.off bd a := by
  by_cases fm : f = magic
  · subst fm
    have := off_add_maxAlign_le room hg (Ne.symm ne)
    have := len_le bd (Ne.symm ne)
    right
    rw [off_magic]
    omega
  by_cases gm : g = magic
  · subst gm
    have := off_add_maxAlign_le room hf fm
    have := len_le bd fm
    left
    rw [off_magic]
    omega
  have := len_le bd fm
  have := len_le bd gm
  have fu := unit_le hf
  have gu := unit_le hg
  rw [off_eq room fm, off_eq room gm]
  rcases Nat.lt_or_gt_of_ne (unit_injective hf hg ne) with lt | lt
  · have := Nat.mul_le_mul_right bd.maxAlign (Nat.succ_le_of_lt lt)
    rw [Nat.succ_mul] at this
    omega
  · have := Nat.mul_le_mul_right bd.maxAlign (Nat.succ_le_of_lt lt)
    rw [Nat.succ_mul] at this
    omega

end Offsets

end Adaboot
