import Adaboot.Trailer.Layout

/-!
# What is written to a trailer, and where

`boot_status_off` counts back with the write size of the area, while `boot_write_status` puts the entries one
`BOOT_WRITE_SZ` apart. Where an area has the smaller write size its entries run into the fields, and into the keys
that builds with encryption save.
-/

namespace Adaboot

open Nor

section Pieces

variable (bd : Board) (saved : Option Nat) (a : Area)

/-- `BOOT_ENC_KEY_ALIGN_SIZE` or `BOOT_ENC_TLV_ALIGN_SIZE`, for a build that saves keys or TLVs of a size. -/
def encAlignSize : Nat :=
  match saved with
  | none => 0
  | some size => alignUp size bd.maxAlign

/-- `boot_trailer_info_sz`, in builds with and without encryption. -/
def trailerInfoSz : Nat := encAlignSize bd saved * 2 + bootTrailerInfoSz bd

/-- One entry of `boot_status_entry_sz` in scratch, `boot_status_sz` in the slots. -/
def statusSz : Nat :=
  if bd.mode = .scratch ∧ a = .scratch then bootStatusEntrySz bd (bd.align a) else bootStatusSz bd (bd.align a)

/-- `boot_status_off`, in builds with and without encryption. -/
def savedStatusOff : Nat := bd.faSize a - (statusSz bd a + trailerInfoSz bd saved)

def bootEncKeyOff (slot : Nat) : Nat := bootSwapSizeOff bd a - (slot + 1) * encAlignSize bd saved

/-- The pieces of a trailer. -/
inductive Piece where
  | status (entry : Nat)
  | key (slot : Fin 2)
  | field (f : Field)

namespace Piece

/-- Where a piece is written. The magic is written with the padding in front of it. -/
def off : Piece → Nat
  | status entry => savedStatusOff bd saved a + entry * bd.writeSz
  | key slot => bootEncKeyOff bd saved a slot
  | field .magic => alignDown (bootMagicOff bd a) bd.maxAlign
  | field f => f.off bd a

/-- The bytes that the functions write. -/
def len : Piece → Nat
  | status _ => bd.align a
  | key _ => encAlignSize bd saved
  | field .magic => bd.magicAlignSize
  | field f => alignUp f.len (bd.align a)

/-- The pieces of a build, with the first `n` status entries. -/
def Written (n : Nat) : Piece → Prop
  | status entry => entry < n
  | key _ => saved.isSome
  | field f => f.Present bd

def Apart (p q : Piece) : Prop :=
  p.off bd saved a + p.len bd saved a ≤ q.off bd saved a ∨ q.off bd saved a + q.len bd saved a ≤ p.off bd saved a

instance (p q : Piece) : Decidable (p.Apart bd saved a q) := inferInstanceAs (Decidable (_ ∨ _))

end Piece

/-- The pieces have pairwise no byte in common, and are inside the trailer. -/
structure PiecesApart (n : Nat) : Prop where
  apart : ∀ p q : Piece, p.Written bd saved n → q.Written bd saved n → p ≠ q → p.Apart bd saved a q
  inside : ∀ p : Piece, p.Written bd saved n →
    savedStatusOff bd saved a ≤ p.off bd saved a ∧ p.off bd saved a + p.len bd saved a ≤ bd.faSize a

/-- Bytes behind the status that the fields of a trailer leave free, by their distance from its end. -/
def InPadding (x : Nat) : Prop := encAlignSize bd saved * 2 ≤ x ∧ x - encAlignSize bd saved * 2 < 4 * bd.maxAlign ∧
    (if x - encAlignSize bd saved * 2 < bd.maxAlign then alignUp 4 (bd.align a) else alignUp 1 (bd.align a)) ≤
      (x - encAlignSize bd saved * 2) % bd.maxAlign

/-- Each of the first `n` entries is in its part of the trailer, or in padding behind it. -/
def EntriesFit (n : Nat) : Prop :=
  ∀ entry, entry < n → entry * bd.writeSz < statusSz bd a ∨ InPadding bd saved a (entry * bd.writeSz - statusSz bd a)

end Pieces

section Offsets

variable {bd : Board} {saved : Option Nat} {a : Area}

theorem maxAlign_dvd_encAlignSize (bd : Board) (saved : Option Nat) : bd.maxAlign ∣ encAlignSize bd saved := by
  cases saved with
  | none => exact Nat.dvd_zero _
  | some size =>
    obtain ⟨k, pow⟩ := bd.maxAlign_pow
    unfold encAlignSize
    rw [pow]
    exact dvd_alignUp size k

/-- The number of the unit of the swap size, the lowest field. -/
def lowestUnit (bd : Board) : Nat := if bd.mode = .offset then 5 else 4

variable {f : Field}

theorem Field.unit_le_lowest (here : f.Present bd) : f.unit bd ≤ lowestUnit bd := by
  unfold lowestUnit
  cases f with
  | tlvSizes =>
    rw [if_pos (here rfl)]
    simp [Field.unit]
  | swapSize => exact le_rfl
  | _ =>
    simp only [Field.unit]
    split <;> omega

theorem trailerInfoSz_eq (bd : Board) (saved : Option Nat) :
    trailerInfoSz bd saved = encAlignSize bd saved * 2 + lowestUnit bd * bd.maxAlign + bd.magicAlignSize := by
  unfold trailerInfoSz bootTrailerInfoSz lowestUnit
  split <;> omega

variable (room : statusSz bd a + trailerInfoSz bd saved ≤ bd.faSize a)
include room

theorem Piece.off_field (here : f.Present bd) : (Piece.field f).off bd saved a =
      savedStatusOff bd saved a + statusSz bd a + encAlignSize bd saved * 2 +
        (lowestUnit bd - f.unit bd) * bd.maxAlign := by
  have info : bd.HoldsTrailer a := by
    unfold trailerInfoSz at room
    omega
  have total := trailerInfoSz_eq bd saved
  have lower := Nat.mul_le_mul_right bd.maxAlign (Field.unit_le_lowest here)
  rw [Nat.sub_mul]
  unfold savedStatusOff
  by_cases magic : f = .magic
  · subst magic
    have start : (Piece.field .magic).off bd saved a + bd.magicAlignSize = bd.faSize a := alignDown_magicOff (by omega)
    have zero : Field.magic.unit bd = 0 := rfl
    rw [zero]
    omega
  · have start : (Piece.field f).off bd saved a = f.off bd a := by
      cases f with
      | magic => exact absurd rfl magic
      | _ => rfl
    rw [start, Field.off_eq info magic]
    omega

theorem Piece.off_key (slot : Fin 2) :
    (Piece.key slot).off bd saved a =
      savedStatusOff bd saved a + statusSz bd a + (1 - slot.val) * encAlignSize bd saved := by
  have swapSize := Piece.off_field room (f := .swapSize) nofun
  have unit : Field.swapSize.unit bd = lowestUnit bd := rfl
  have start : (Piece.field .swapSize).off bd saved a = bootSwapSizeOff bd a := rfl
  rw [unit, Nat.sub_self, Nat.zero_mul, start] at swapSize
  change bootSwapSizeOff bd a - (slot.val + 1) * encAlignSize bd saved = _
  obtain ⟨slot, lt⟩ := slot
  obtain rfl | rfl : slot = 0 ∨ slot = 1 := by omega
  · simp only
    omega
  · simp only
    omega

omit room

theorem Piece.len_field_le (ne : f ≠ .magic) : (Piece.field f).len bd saved a ≤ bd.maxAlign := by
  obtain ⟨k, pow⟩ := bd.align_pow a
  have written : (Piece.field f).len bd saved a = alignUp f.len (bd.align a) := by
    cases f with
    | magic => exact absurd rfl ne
    | _ => rfl
  have dvd := bd.align_dvd a
  rw [written, pow]
  rw [pow] at dvd
  exact alignUp_le dvd (Field.len_le bd ne)

theorem Field.unit_pos (ne : f ≠ .magic) : 0 < f.unit bd := by
  cases f with
  | magic => exact absurd rfl ne
  | swapSize =>
    simp only [Field.unit]
    split <;> omega
  | _ => simp [Field.unit]

section Fields

variable (room : statusSz bd a + trailerInfoSz bd saved ≤ bd.faSize a)
include room

variable {f g : Field} {p : Piece} {n : Nat}

theorem Piece.field_before (hf : f.Present bd) (hg : g.Present bd) (lt : g.unit bd < f.unit bd) :
    (Piece.field f).off bd saved a + (Piece.field f).len bd saved a ≤ (Piece.field g).off bd saved a := by
  have ne : f ≠ .magic := by
    rintro rfl
    simp [Field.unit] at lt
  have len := @Piece.len_field_le bd saved a f ne
  have le := Field.unit_le_lowest hf
  have step := Nat.mul_le_mul_right bd.maxAlign
    (show lowestUnit bd - f.unit bd + 1 ≤ lowestUnit bd - g.unit bd by omega)
  rw [Nat.add_mul, Nat.one_mul] at step
  rw [Piece.off_field room hf, Piece.off_field room hg]
  omega

theorem Piece.fields_apart (hf : f.Present bd) (hg : g.Present bd) (ne : f ≠ g) :
    (Piece.field f).Apart bd saved a (.field g) := by
  rcases Nat.lt_or_gt_of_ne (Field.unit_injective hf hg ne) with lt | lt
  · exact .inr (Piece.field_before room hg hf lt)
  · exact .inl (Piece.field_before room hf hg lt)

theorem Piece.keys_apart {slot slot' : Fin 2} (ne : slot ≠ slot') : (Piece.key slot).Apart bd saved a (.key slot') := by
  have lens (slot : Fin 2) : (Piece.key slot).len bd saved a = encAlignSize bd saved := rfl
  unfold Piece.Apart
  rw [Piece.off_key room, Piece.off_key room, lens, lens]
  obtain ⟨slot, lt⟩ := slot
  obtain ⟨slot', lt'⟩ := slot'
  have ne : slot ≠ slot' := fun same => ne (Fin.ext same)
  obtain ⟨rfl, rfl⟩ | ⟨rfl, rfl⟩ : slot = 0 ∧ slot' = 1 ∨ slot = 1 ∧ slot' = 0 := by omega
  · simp only
    omega
  · simp only
    omega

theorem Piece.key_before_field (slot : Fin 2) (here : f.Present bd) :
    (Piece.key slot).off bd saved a + (Piece.key slot).len bd saved a ≤ (Piece.field f).off bd saved a := by
  have le := Nat.mul_le_mul_right (encAlignSize bd saved) (show 1 - slot.val ≤ 1 by omega)
  rw [Piece.off_key room, Piece.off_field room here, len]
  omega

theorem Piece.inside_info (written : p.Written bd saved n) (info : ∀ entry, p ≠ .status entry) :
    savedStatusOff bd saved a + statusSz bd a ≤ p.off bd saved a ∧
      p.off bd saved a + p.len bd saved a ≤ bd.faSize a := by
  have total := trailerInfoSz_eq bd saved
  have status : savedStatusOff bd saved a + statusSz bd a + trailerInfoSz bd saved = bd.faSize a := by
    unfold savedStatusOff
    omega
  have magicEnd : (Piece.field .magic).off bd saved a + (Piece.field .magic).len bd saved a = bd.faSize a := by
    have zero : Field.magic.unit bd = 0 := rfl
    rw [Piece.off_field room (by nofun), zero, Nat.sub_zero, len]
    omega
  cases p with
  | status entry => exact absurd rfl (info entry)
  | key slot =>
    have before := Piece.key_before_field room slot (f := .magic) nofun
    exact ⟨by rw [Piece.off_key room]; omega, by omega⟩
  | field f =>
    have start := Piece.off_field room written
    refine ⟨by omega, ?_⟩
    by_cases magic : f = .magic
    · rw [magic]
      omega
    · have before := Piece.field_before room written (g := .magic) nofun (Field.unit_pos magic)
      omega

theorem Piece.info_apart {q : Piece} (hp : p.Written bd saved n) (hq : q.Written bd saved n)
    (infoP : ∀ entry, p ≠ .status entry) (infoQ : ∀ entry, q ≠ .status entry) (ne : p ≠ q) : p.Apart bd saved a q := by
  cases p with
  | status entry => exact absurd rfl (infoP entry)
  | key slot =>
    cases q with
    | status entry => exact absurd rfl (infoQ entry)
    | key slot' => exact Piece.keys_apart room fun same => ne (congrArg Piece.key same)
    | field g => exact .inl (Piece.key_before_field room slot hq)
  | field f =>
    cases q with
    | status entry => exact absurd rfl (infoQ entry)
    | key slot => exact .inr (Piece.key_before_field room slot hp)
    | field g => exact Piece.fields_apart room hp hq fun same => ne (congrArg Piece.field same)

end Fields

/-! ### The status entries -/

theorem two_pow_dvd_of_le {k m : Nat} (le : 2 ^ k ≤ 2 ^ m) : 2 ^ k ∣ 2 ^ m :=
  Nat.pow_dvd_pow 2 ((Nat.pow_le_pow_iff_right (by decide)).mp le)

theorem align_dvd_writeSz (holder : a = .primary ∨ bd.mode = .scratch ∧ a = .scratch) :
    bd.align a ≤ bd.writeSz ∧ bd.align a ∣ bd.writeSz := by
  have le : bd.align a ≤ bd.writeSz := by
    unfold Board.writeSz
    rcases holder with rfl | ⟨mode, rfl⟩
    · split <;> omega
    · simp only [mode, true_and]
      split <;> omega
  refine ⟨le, ?_⟩
  obtain ⟨k, pow⟩ := bd.align_pow a
  have other : ∃ m, bd.writeSz = 2 ^ m := by
    unfold Board.writeSz
    split
    · exact bd.align_pow .scratch
    · exact bd.align_pow .primary
  obtain ⟨m, pow'⟩ := other
  rw [pow, pow'] at le ⊢
  exact two_pow_dvd_of_le le

theorem align_pos (bd : Board) (a : Area) : 0 < bd.align a := by
  obtain ⟨k, pow⟩ := bd.align_pow a
  rw [pow]
  exact Nat.two_pow_pos k

theorem align_dvd_statusSz (bd : Board) (a : Area) : bd.align a ∣ statusSz bd a := by
  have entry : bd.align a ∣ bootStatusEntrySz bd (bd.align a) := by
    unfold bootStatusEntrySz
    split
    · exact Nat.dvd_zero _
    · exact Nat.dvd_mul_left _ _
  unfold statusSz
  split
  · exact entry
  · exact Nat.dvd_mul_left_of_dvd entry _

theorem add_le_of_dvd_of_lt {w x y : Nat} (dvdX : w ∣ x) (dvdY : w ∣ y) (lt : x < y) : x + w ≤ y := by
  obtain ⟨m, rfl⟩ := dvdX
  obtain ⟨n, rfl⟩ := dvdY
  have less : m < n := Nat.lt_of_mul_lt_mul_left lt
  have step := Nat.mul_le_mul_left w (show m + 1 ≤ n from less)
  rwa [Nat.mul_add, Nat.mul_one] at step

theorem entry_lt_statusSz (swaps : bd.mode = .offset ∨ bd.mode = .move) (primary : a = .primary) {n entry : Nat}
    (few : n ≤ bootStatusEntries bd a) (lt : entry < n) : entry * bd.writeSz < statusSz bd a := by
  have notScratch : bd.mode ≠ .scratch := by
    rcases swaps with mode | mode <;> simp [mode]
  have notSingle : bd.mode ≠ .single := by
    rcases swaps with mode | mode <;> simp [mode]
  have write : bd.writeSz = bd.align a := by
    rw [Board.writeSz, if_neg (by simp [notScratch]), primary]
  have entries : bootStatusEntries bd a = bd.statusStateCount * bd.maxImgSectors := if_neg (by simp [notScratch])
  have size : statusSz bd a = bd.maxImgSectors * (bd.statusStateCount * bd.align a) := by
    rw [statusSz, if_neg (by simp [notScratch]), bootStatusSz, bootStatusEntrySz, if_neg notSingle]
  rw [size, write, ← Nat.mul_assoc, Nat.mul_comm bd.maxImgSectors, ← entries]
  exact Nat.mul_lt_mul_of_pos_right (by omega) (align_pos bd a)

section Padding

variable (room : statusSz bd a + trailerInfoSz bd saved ≤ bd.faSize a) (mode : bd.mode = .scratch)
include room mode

theorem Piece.scratch_fields : (Piece.field .swapSize).off bd saved a =
        savedStatusOff bd saved a + statusSz bd a + encAlignSize bd saved * 2 ∧ (Piece.field .swapInfo).off bd saved a =
        savedStatusOff bd saved a + statusSz bd a + encAlignSize bd saved * 2 + bd.maxAlign ∧
      (Piece.field .copyDone).off bd saved a =
        savedStatusOff bd saved a + statusSz bd a + encAlignSize bd saved * 2 + 2 * bd.maxAlign ∧
      (Piece.field .imageOk).off bd saved a =
        savedStatusOff bd saved a + statusSz bd a + encAlignSize bd saved * 2 + 3 * bd.maxAlign ∧
      (Piece.field .magic).off bd saved a =
        savedStatusOff bd saved a + statusSz bd a + encAlignSize bd saved * 2 + 4 * bd.maxAlign := by
  have lowest : lowestUnit bd = 4 := by simp [lowestUnit, mode]
  have start {f : Field} (ne : f ≠ .tlvSizes) := Piece.off_field room (f := f) fun same => absurd same ne
  have unit : Field.swapSize.unit bd = 4 := by simp [Field.unit, mode]
  refine ⟨?_, ?_, ?_, ?_, ?_⟩
  · rw [start (by decide), lowest, unit]
    omega
  all_goals
    rw [start (by decide), lowest]
    simp [Field.unit]

theorem apart_of_inPadding {x n : Nat} (padding : InPadding bd saved a x) (dvd : bd.align a ∣ x) {p : Piece}
    (written : p.Written bd saved n) (info : ∀ entry, p ≠ .status entry) :
    savedStatusOff bd saved a + statusSz bd a + x + bd.align a ≤ p.off bd saved a ∨
      p.off bd saved a + p.len bd saved a ≤ savedStatusOff bd saved a + statusSz bd a + x := by
  obtain ⟨behind, low, free⟩ := padding
  obtain ⟨swapSize, swapInfo, copyDone, imageOk, magic⟩ := Piece.scratch_fields room mode
  -- the entry does not reach the next unit
  have keys := maxAlign_dvd_encAlignSize bd saved
  have within := add_le_of_dvd_of_lt (x := (x - encAlignSize bd saved * 2) % bd.maxAlign) (y := bd.maxAlign)
    (w := bd.align a) ?_ (bd.align_dvd a) (Nat.mod_lt _ (by have := bd.maxAlign_ge; omega))
  · cases p with
    | status entry => exact absurd rfl (info entry)
    | key slot =>
      have before := Piece.key_before_field room slot (f := .swapSize) nofun
      omega
    | field f =>
      cases f with
      | tlvSizes => simp [Piece.Written, Field.Present, mode] at written
      | magic =>
        rw [magic]
        rcases bd.maxAlign_eq with h | h | h <;> rw [h] at low free within ⊢ <;> omega
      | swapSize =>
        have len : (Piece.field .swapSize).len bd saved a = alignUp 4 (bd.align a) := rfl
        have unit := @Piece.len_field_le bd saved a .swapSize (by decide)
        rcases bd.maxAlign_eq with h | h | h <;> rw [h] at low free within unit <;> split at free <;> omega
      | _ =>
        have unit : alignUp 1 (bd.align a) ≤ bd.maxAlign := @Piece.len_field_le bd saved a .imageOk (by decide)
        simp only [swapInfo, copyDone, imageOk, Piece.len, Field.len]
        rcases bd.maxAlign_eq with h | h | h <;> rw [h] at low free within unit ⊢ <;> split at free <;> omega
  · rw [Nat.dvd_mod_iff (bd.align_dvd a)]
    exact Nat.dvd_sub dvd (Nat.dvd_trans (bd.align_dvd a) (Nat.dvd_mul_right_of_dvd keys 2))

theorem inPadding_of_apart {x n : Nat}
    (inside : savedStatusOff bd saved a + statusSz bd a + x + bd.align a ≤ bd.faSize a)
    (apart : ∀ p : Piece, p.Written bd saved n → (∀ entry, p ≠ .status entry) →
      savedStatusOff bd saved a + statusSz bd a + x + bd.align a ≤ p.off bd saved a ∨
        p.off bd saved a + p.len bd saved a ≤ savedStatusOff bd saved a + statusSz bd a + x) :
    InPadding bd saved a x := by
  have some := align_pos bd a
  obtain ⟨swapSize, swapInfo, copyDone, imageOk, magic⟩ := Piece.scratch_fields room mode
  have field {f : Field} (ne : f ≠ .tlvSizes) := apart (.field f) (fun same => absurd same ne) (by simp)
  have lowest : lowestUnit bd = 4 := by simp [lowestUnit, mode]
  have total := trailerInfoSz_eq bd saved
  have whole : savedStatusOff bd saved a + statusSz bd a + trailerInfoSz bd saved = bd.faSize a := by
    unfold savedStatusOff
    omega
  have behind : encAlignSize bd saved * 2 ≤ x := by
    cases h : saved with
    | none => exact Nat.zero_le x
    | some keySize =>
      have key (slot : Fin 2) := apart (.key slot) (by simp [Piece.Written, h]) (by simp)
      have len (slot : Fin 2) : (Piece.key slot).len bd saved a = encAlignSize bd saved := rfl
      have first := key 1
      have second := key 0
      rw [Piece.off_key room, len] at first second
      simp only [Fin.val_one, Fin.val_zero, Nat.sub_self, Nat.zero_mul, Nat.sub_zero, Nat.one_mul] at first second
      rw [← h]
      omega
  have atSwapSize := field (f := .swapSize) (by decide)
  have atSwapInfo := field (f := .swapInfo) (by decide)
  have atCopyDone := field (f := .copyDone) (by decide)
  have atImageOk := field (f := .imageOk) (by decide)
  have atMagic := field (f := .magic) (by decide)
  simp only [swapSize, swapInfo, copyDone, imageOk, magic, Piece.len,
    Field.len] at atSwapSize atSwapInfo atCopyDone atImageOk atMagic
  rw [lowest] at total
  have low : x - encAlignSize bd saved * 2 < 4 * bd.maxAlign := by omega
  refine ⟨behind, low, ?_⟩
  -- the field of the unit that the entry is in ends in front of it
  rcases bd.maxAlign_eq with h | h | h <;> rw [h] at atSwapInfo atCopyDone atImageOk low ⊢ <;> split <;> omega

end Padding

variable {n entry : Nat}

theorem scratch_of_entry_ge (swaps : bd.mode = .offset ∨ bd.mode = .move ∨ bd.mode = .scratch)
    (holder : n = 0 ∨ a = .primary ∨ bd.mode = .scratch ∧ a = .scratch) (few : n ≤ bootStatusEntries bd a)
    (lt : entry < n) (ge : statusSz bd a ≤ entry * bd.writeSz) : bd.mode = .scratch := by
  rcases holder with none | primary | ⟨mode, -⟩
  · omega
  · have fits (keeps : bd.mode = .offset ∨ bd.mode = .move) := entry_lt_statusSz keeps primary few lt
    rcases swaps with mode | mode | mode
    · have := fits (.inl mode)
      omega
    · have := fits (.inr mode)
      omega
    · exact mode
  · exact mode

theorem Piece.status_apart_iff (entry : Nat) (p : Piece) : (Piece.status entry).Apart bd saved a p ↔
      savedStatusOff bd saved a + entry * bd.writeSz + bd.align a ≤ p.off bd saved a ∨
        p.off bd saved a + p.len bd saved a ≤ savedStatusOff bd saved a + entry * bd.writeSz :=
  Iff.rfl

theorem Piece.entries_apart (le : bd.align a ≤ bd.writeSz) {entry' : Nat} (ne : entry ≠ entry') :
    (Piece.status entry).Apart bd saved a (.status entry') := by
  have before {j k : Nat} (lt : j < k) : j * bd.writeSz + bd.align a ≤ k * bd.writeSz := by
    have step := Nat.mul_le_mul_right bd.writeSz (show j + 1 ≤ k from lt)
    rw [Nat.add_mul, Nat.one_mul] at step
    omega
  simp only [Piece.Apart, Piece.off, Piece.len]
  rcases Nat.lt_or_gt_of_ne ne with lt | lt
  · have := before lt
    omega
  · have := before lt
    omega

variable (swaps : bd.mode = .offset ∨ bd.mode = .move ∨ bd.mode = .scratch)
include swaps

variable (holder : a = .primary ∨ bd.mode = .scratch ∧ a = .scratch)
include holder

theorem Piece.entry_apart_info (few : n ≤ bootStatusEntries bd a)
    (room : statusSz bd a + trailerInfoSz bd saved ≤ bd.faSize a) (fit : EntriesFit bd saved a n) (lt : entry < n)
    {p : Piece} (written : p.Written bd saved n) (info : ∀ entry, p ≠ .status entry) :
    (Piece.status entry).Apart bd saved a p := by
  have dvd := Nat.dvd_mul_left_of_dvd (align_dvd_writeSz holder).2 entry
  rw [Piece.status_apart_iff]
  by_cases front : entry * bd.writeSz < statusSz bd a
  · have ends := add_le_of_dvd_of_lt dvd (align_dvd_statusSz bd a) front
    have begins := (Piece.inside_info room written info).1
    omega
  · have mode := scratch_of_entry_ge swaps (.inr holder) few lt (by omega)
    have padding := (fit entry lt).resolve_left front
    have apart := apart_of_inPadding room mode padding (Nat.dvd_sub dvd (align_dvd_statusSz bd a)) written info
    omega

theorem Piece.entry_inside (few : n ≤ bootStatusEntries bd a)
    (room : statusSz bd a + trailerInfoSz bd saved ≤ bd.faSize a) (fit : EntriesFit bd saved a n) (lt : entry < n) :
    savedStatusOff bd saved a + entry * bd.writeSz + bd.align a ≤ bd.faSize a := by
  have present : (Piece.field .magic).Written bd saved n := fun same => absurd same (by decide)
  have magic := Piece.inside_info room present (by simp)
  by_cases front : entry * bd.writeSz < statusSz bd a
  · have dvd := Nat.dvd_mul_left_of_dvd (align_dvd_writeSz holder).2 entry
    have ends := add_le_of_dvd_of_lt dvd (align_dvd_statusSz bd a) front
    omega
  · -- what is free behind the status ends at the magic
    have mode := scratch_of_entry_ge swaps (.inr holder) few lt (by omega)
    have padding := (fit entry lt).resolve_left front
    have apart := (Piece.status_apart_iff _ _).mp
      (Piece.entry_apart_info swaps holder few room fit lt present (by simp))
    have start : (Piece.field .magic).off bd saved a = _ := (Piece.scratch_fields room mode).2.2.2.2
    have low := padding.2.1
    omega

omit holder

omit swaps

/-- The pieces of a trailer are apart and inside the trailer exactly if each status entry that is written fits, as it
does where the write size is `BOOT_WRITE_SZ`. -/
theorem pieces_apart_iff (bd : Board) (saved : Option Nat) (a : Area) (n : Nat)
    (swaps : bd.mode = .offset ∨ bd.mode = .move ∨ bd.mode = .scratch)
    (holder : n = 0 ∨ a = .primary ∨ bd.mode = .scratch ∧ a = .scratch) (few : n ≤ bootStatusEntries bd a)
    (room : statusSz bd a + trailerInfoSz bd saved ≤ bd.faSize a) :
    PiecesApart bd saved a n ↔ EntriesFit bd saved a n := by
  constructor
  · intro pieces entry lt
    by_cases front : entry * bd.writeSz < statusSz bd a
    · exact .inl front
    · right
      have mode := scratch_of_entry_ge swaps holder few lt (by omega)
      have inside := (pieces.inside (.status entry) lt).2
      simp only [Piece.off, Piece.len] at inside
      refine inPadding_of_apart (n := n) room mode (by omega) fun p written info => ?_
      have apart := pieces.apart (.status entry) p lt written fun same => info entry same.symm
      rw [Piece.status_apart_iff] at apart
      omega
  · intro fit
    constructor
    · intro p q hp hq ne
      by_cases infoP : ∀ entry, p ≠ .status entry
      · by_cases infoQ : ∀ entry, q ≠ .status entry
        · exact Piece.info_apart room hp hq infoP infoQ ne
        · obtain ⟨entry, rfl⟩ := not_forall_not.mp infoQ
          have holder := holder.resolve_left (Nat.lt_of_le_of_lt (Nat.zero_le _) hq).ne'
          exact (Piece.entry_apart_info swaps holder few room fit hq hp infoP).symm
      · obtain ⟨entry, rfl⟩ := not_forall_not.mp infoP
        have holder := holder.resolve_left (Nat.lt_of_le_of_lt (Nat.zero_le _) hp).ne'
        by_cases infoQ : ∀ entry, q ≠ .status entry
        · exact Piece.entry_apart_info swaps holder few room fit hp hq infoQ
        · obtain ⟨entry', rfl⟩ := not_forall_not.mp infoQ
          exact Piece.entries_apart (align_dvd_writeSz holder).1 fun same => ne (congrArg Piece.status same)
    · intro p written
      by_cases info : ∀ entry, p ≠ .status entry
      · have inside := Piece.inside_info room written info
        exact ⟨by omega, inside.2⟩
      · obtain ⟨entry, rfl⟩ := not_forall_not.mp info
        have lt : entry < n := written
        have holder := holder.resolve_left (by omega)
        have ends := Piece.entry_inside swaps holder few room fit lt
        exact ⟨Nat.le_add_right _ _, ends⟩

end Offsets

def evenSlots : Area → List Nat
  | .scratch => [128]
  | _ => [128, 128, 128, 128]

/-- Scratch is written eight bytes at a time, the slots in units of their own. -/
def unitsLog (log : Nat) : Area → Nat
  | .scratch => 3
  | _ => log

theorem evenSlots_fit_eight : Board.Fits 8 8 16 (unitsLog 3) evenSlots := by decide

theorem evenSlots_fit_one : Board.Fits 8 8 16 (unitsLog 0) evenSlots := by decide

def sameUnits : Board := .ofLayout .scratch 8 8 16 (unitsLog 3) evenSlots evenSlots_fit_eight

def byteUnits : Board := .ofLayout .scratch 8 8 16 (unitsLog 0) evenSlots evenSlots_fit_one

/-- Slots with the write size of scratch, all entries written and keys saved. -/
theorem pieces_apart_same_units : PiecesApart sameUnits (some 16) .primary 24 := by
  refine (pieces_apart_iff _ _ _ _ (.inr (.inr rfl)) (.inr (.inl rfl)) (by decide) (by decide)).mpr ?_
  intro entry lt
  have counted : statusSz sameUnits .primary = 192 := rfl
  have stride : sameUnits.writeSz = 8 := rfl
  rw [counted, stride]
  omega

/-- Slots written byte by byte: the first entry of the second sector is written over the swap size. -/
theorem entry_over_swap_size : 4 ≤ bootStatusEntries byteUnits .primary ∧
      statusSz byteUnits .primary + trailerInfoSz byteUnits none ≤ byteUnits.faSize .primary ∧
      (Piece.status 3).off byteUnits none .primary = (Piece.field .swapSize).off byteUnits none .primary ∧
      ¬PiecesApart byteUnits none .primary 4 := by
  refine ⟨by decide, by decide, by decide, fun pieces => ?_⟩
  have apart := pieces.apart (.status 3) (.field .swapSize) (show 3 < 4 by decide)
    (fun same => absurd same (by decide)) (by simp)
  exact absurd apart (by decide)

end Adaboot
