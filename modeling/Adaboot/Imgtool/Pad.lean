import Adaboot.Imgtool.Trailer

/-!
# Padded images

`Image.pad_to` and `Image.save`: the file that is programmed into a slot, as a binary and as a hex file,
and what the boot loader reads from the trailer of a slot that holds it.
-/

namespace Adaboot.Imgtool

open Nor

namespace Image

variable (img : Image)

def bootMagic : Bytes :=
  if img.maxAlign = 8 then
    [0x77, 0xc2, 0x95, 0xf3, 0x60, 0xd2, 0xef, 0x7f, 0x35, 0x52, 0x50, 0x0f, 0x2c, 0xb6, 0x79, 0x80]
  else
    let lsb := UInt8.ofNat (img.maxAlign &&& 0x00ff)
    let msb := UInt8.ofNat ((img.maxAlign &&& 0xff00) >>> 8)
    (if img.endian = .big then [msb, lsb] else [lsb, msb]) ++
      [0x2d, 0xe1, 0x5d, 0x29, 0x41, 0x0b, 0x8d, 0x77, 0x67, 0x9c, 0x11, 0x0f, 0x1f, 0x8a]

/-- The image is marked in swap mode. A test leaves the flag erased. -/
def marked : Bool := (img.test || img.confirm) && !img.overwriteOnly

/-- How far `image_ok` is from the end. -/
def imageOkIdx : Nat := img.magicAlignSize + img.maxAlign

/-- The bytes that `pad_to` appends. -/
def padding (size tsize : Nat) : Bytes :=
  let pbytes := List.replicate (size - (img.payload.length + tsize)) img.erasedVal ++
    List.replicate (tsize - img.bootMagic.length) img.erasedVal ++ img.bootMagic
  if img.marked ∧ img.confirm then pbytes.set (pbytes.length - img.imageOkIdx) 0x01 else pbytes

/-- `save` to a binary file. -/
def saveBin : Option Bytes := do
  let tsize ← img.trailerSize
  pure (img.payload ++ img.padding img.slotSize tsize)

abbrev Hex : Type := Nat → Option UInt8

/-- `puts` of `IntelHex`, and `frombytes` on an empty one. -/
def puts (hex : Hex) (addr : Nat) (data : Bytes) : Hex := fun i =>
  if addr ≤ i ∧ i < addr + data.length then data[i - addr]? else hex i

/-- `save` to a hex file. -/
def saveHex (baseAddr : Nat) : Option Hex := do
  let tsize ← img.trailerSize
  let hex := puts (fun _ => none) baseAddr img.payload
  let trailerAddr := baseAddr + img.slotSize - tsize
  let flag := if img.confirm then (List.replicate img.maxAlign img.erasedVal).set 0 0x01
    else List.replicate img.maxAlign img.erasedVal
  let hex := if img.marked then puts hex (trailerAddr + tsize - img.imageOkIdx) flag else hex
  pure (puts hex (trailerAddr + (tsize - img.bootMagic.length)) img.bootMagic)

end Image

/-! ### The bytes of the file -/

section File

variable {img : Image} {tsize : Nat}

/-- An image that fits, with the trailer that is counted for it. -/
structure Fits (img : Image) (tsize : Nat) : Prop where
  maxAlign : img.maxAlign = 8 ∨ img.maxAlign = 16 ∨ img.maxAlign = 32
  size : img.trailerSize = some tsize
  fits : img.payload.length + tsize ≤ img.slotSize

theorem magicAlignSize_ge (align : img.maxAlign = 8 ∨ img.maxAlign = 16 ∨ img.maxAlign = 32) :
    16 ≤ img.magicAlignSize := by
  unfold Image.magicAlignSize
  rcases align with h | h | h <;> rw [h] <;> decide

theorem length_bootMagic : img.bootMagic.length = 16 := by
  unfold Image.bootMagic
  split
  · rfl
  · split <;> rfl

theorem trailerSize_ge (size : img.trailerSize = some tsize) : img.maxAlign * 2 + img.magicAlignSize ≤ tsize := by
  unfold Image.trailerSize at size
  split at size
  · cases size
    exact le_rfl
  · split at size
    · cases size
    · cases size
      omega

theorem marked_confirm : (img.marked ∧ img.confirm) ↔ img.confirm ∧ ¬ img.overwriteOnly := by
  unfold Image.marked
  cases img.confirm <;> cases img.test <;> cases img.overwriteOnly <;> simp

theorem padding_eq (fits : Fits img tsize) : img.padding img.slotSize tsize = if img.confirm ∧ ¬ img.overwriteOnly then
        (List.replicate (img.slotSize - img.payload.length - 16) img.erasedVal ++ img.bootMagic).set
          (img.slotSize - img.payload.length - img.imageOkIdx) 0x01
      else List.replicate (img.slotSize - img.payload.length - 16) img.erasedVal ++ img.bootMagic := by
  have room := trailerSize_ge fits.size
  have ge := magicAlignSize_ge fits.maxAlign
  have fit := fits.fits
  have erased : List.replicate (img.slotSize - (img.payload.length + tsize)) img.erasedVal ++
      List.replicate (tsize - img.bootMagic.length) img.erasedVal =
      List.replicate (img.slotSize - img.payload.length - 16) img.erasedVal := by
    rw [List.replicate_append_replicate, length_bootMagic]
    congr 1
    omega
  have length : (List.replicate (img.slotSize - img.payload.length - 16) img.erasedVal ++ img.bootMagic).length =
      img.slotSize - img.payload.length := by
    rw [List.length_append, List.length_replicate, length_bootMagic]
    omega
  simp only [Image.padding, marked_confirm]
  rw [erased, length]

/-- The byte of a slot that holds the padded image: the image, the flag, the magic, and erased bytes. -/
def slotByte (img : Image) (i : Nat) : UInt8 :=
  if i < img.payload.length then img.payload.getD i 0
  else if img.slotSize - 16 ≤ i then img.bootMagic.getD (i - (img.slotSize - 16)) 0
  else if i = img.slotSize - img.imageOkIdx ∧ img.confirm ∧ ¬ img.overwriteOnly then 0x01
  else img.erasedVal

theorem imageOkIdx_bounds (fits : Fits img tsize) :
    16 < img.imageOkIdx ∧ img.imageOkIdx + img.maxAlign + img.payload.length ≤ img.slotSize := by
  have room := trailerSize_ge fits.size
  have ge := magicAlignSize_ge fits.maxAlign
  have fit := fits.fits
  have unit : 8 ≤ img.maxAlign := by
    rcases fits.maxAlign with h | h | h <;> omega
  unfold Image.imageOkIdx
  omega

variable {i addr baseAddr : Nat} {hex : Image.Hex} {data : Bytes}

theorem saveBin_byte (fits : Fits img tsize) (lt : i < img.slotSize) :
    (img.payload ++ img.padding img.slotSize tsize)[i]? = some (slotByte img i) := by
  obtain ⟨before, behind⟩ := imageOkIdx_bounds fits
  have magic : img.bootMagic.length = 16 := length_bootMagic
  rw [List.getElem?_append]
  unfold slotByte
  split
  next inside => simp [List.getD, inside]
  next outside =>
    -- Without the flag there are erased bytes and the magic.
    have plain : (List.replicate (img.slotSize - img.payload.length - 16) img.erasedVal ++
        img.bootMagic)[i - img.payload.length]? =
        some (if img.slotSize - 16 ≤ i then img.bootMagic.getD (i - (img.slotSize - 16)) 0 else img.erasedVal) := by
      rw [List.getElem?_append, List.length_replicate]
      split
      · rw [if_neg (by omega), List.getElem?_replicate_of_lt (by omega)]
      · rw [if_pos (by omega), show i - img.payload.length - (img.slotSize - img.payload.length - 16) =
          i - (img.slotSize - 16) by omega]
        have lt : i - (img.slotSize - 16) < img.bootMagic.length := by omega
        simp [List.getD, lt]
    rw [padding_eq fits]
    split
    next confirmed =>
      rw [List.getElem?_set, plain]
      by_cases flag : i = img.slotSize - img.imageOkIdx
      · have here : img.slotSize - img.payload.length - img.imageOkIdx = i - img.payload.length := by omega
        rw [if_pos here, if_pos (by simp; omega), if_neg (by omega), if_pos ⟨flag, confirmed⟩]
      · rw [if_neg (by omega)]
        simp [flag]
    next unconfirmed =>
      have unset : ¬ (i = img.slotSize - img.imageOkIdx ∧ img.confirm = true ∧ ¬ img.overwriteOnly = true) :=
        fun flag => unconfirmed flag.2
      rw [plain, if_neg unset]

theorem length_saveBin (fits : Fits img tsize) :
    (img.payload ++ img.padding img.slotSize tsize).length = img.slotSize := by
  obtain ⟨before, behind⟩ := imageOkIdx_bounds fits
  rw [List.length_append, padding_eq fits]
  split <;> simp [length_bootMagic] <;> omega

/-! ### The hex file -/

theorem puts_none (out : i < addr ∨ addr + data.length ≤ i) :
    Image.puts hex addr data i = hex i := if_neg (by omega)

theorem puts_some (lo : addr ≤ i)
    (hi : i < addr + data.length) :
    Image.puts hex addr data i = some (data.getD (i - addr) 0) := by
  have lt : i - addr < data.length := by omega
  rw [Image.puts, if_pos ⟨lo, hi⟩]
  simp [List.getD, lt]

def Image.flag (img : Image) : Bytes :=
  if img.confirm then (List.replicate img.maxAlign img.erasedVal).set 0 0x01
  else List.replicate img.maxAlign img.erasedVal

theorem length_flag : img.flag.length = img.maxAlign := by
  unfold Image.flag
  split <;> simp

variable (fits : Fits img tsize)
include fits

theorem saveHex_eq (saved : img.saveHex baseAddr = some hex) : hex = Image.puts (if img.marked then
        Image.puts (Image.puts (fun _ => none) baseAddr img.payload) (baseAddr + (img.slotSize - img.imageOkIdx)) img.flag
      else Image.puts (fun _ => none) baseAddr img.payload) (baseAddr + (img.slotSize - 16)) img.bootMagic := by
  obtain ⟨before, behind⟩ := imageOkIdx_bounds fits
  have fit := fits.fits
  have room := trailerSize_ge fits.size
  have ge := magicAlignSize_ge fits.maxAlign
  have flagAddr : baseAddr + img.slotSize - tsize + tsize - img.imageOkIdx = baseAddr + (img.slotSize - img.imageOkIdx) := by
    omega
  have magicAddr : baseAddr + img.slotSize - tsize + (tsize - img.bootMagic.length) = baseAddr + (img.slotSize - 16) := by
    rw [length_bootMagic]
    omega
  simp only [Image.saveHex, fits.size, Option.bind_eq_bind, Option.bind_some, Option.pure_def, Option.some.injEq] at saved
  rw [← saved, flagAddr, magicAddr]
  rfl

theorem flag_byte (marked : img.marked = true)
    (lo : img.slotSize - img.imageOkIdx ≤ i) (hi : i < img.slotSize - img.imageOkIdx + img.maxAlign) :
    img.flag.getD (i - (img.slotSize - img.imageOkIdx)) 0 = slotByte img i := by
  obtain ⟨before, behind⟩ := imageOkIdx_bounds fits
  have ge := magicAlignSize_ge fits.maxAlign
  have idx : img.imageOkIdx = img.magicAlignSize + img.maxAlign := rfl
  have swaps : img.overwriteOnly = false := by
    unfold Image.marked at marked
    revert marked
    cases img.overwriteOnly <;> simp
  rw [slotByte, if_neg (by omega), if_neg (by omega)]
  have lt : i - (img.slotSize - img.imageOkIdx) < img.maxAlign := by omega
  unfold Image.flag
  cases img.confirm with
  | false => simp [List.getD, lt]
  | true =>
    by_cases first : i = img.slotSize - img.imageOkIdx
    · have pos : 0 < img.maxAlign := by omega
      simp [first, swaps, pos, List.getD]
    · have later : 0 ≠ i - (img.slotSize - img.imageOkIdx) := by omega
      rw [if_pos rfl, List.getD_eq_getElem?_getD, List.getElem?_set_ne later]
      simp [first, lt]

/-- The hex file has the bytes of the binary file, and none where that is erased or outside of the slot. -/
theorem saveHex_byte (saved : img.saveHex baseAddr = some hex) (addr : Nat) :
    (∃ i < img.slotSize, addr = baseAddr + i ∧ hex addr = some (slotByte img i)) ∨
      hex addr = none ∧ ∀ i < img.slotSize, addr = baseAddr + i → slotByte img i = img.erasedVal := by
  obtain ⟨before, behind⟩ := imageOkIdx_bounds fits
  have magic : img.bootMagic.length = 16 := length_bootMagic
  have flag : img.flag.length = img.maxAlign := length_flag
  have idx : img.imageOkIdx = img.magicAlignSize + img.maxAlign := rfl
  have unit : 0 < img.maxAlign := by
    rcases fits.maxAlign with h | h | h <;> omega
  rw [saveHex_eq fits saved]
  by_cases inMagic : baseAddr + (img.slotSize - 16) ≤ addr ∧ addr < baseAddr + (img.slotSize - 16) + 16
  · refine .inl ⟨addr - baseAddr, by omega, by omega, ?_⟩
    rw [puts_some inMagic.1 (by omega), slotByte, if_neg (by omega), if_pos (by omega)]
    congr 2
    omega
  · rw [puts_none (by omega)]
    have payload : (∃ i < img.slotSize, addr = baseAddr + i ∧
          Image.puts (fun _ => none) baseAddr img.payload addr = some (slotByte img i)) ∨
        Image.puts (fun _ => none) baseAddr img.payload addr = none ∧
          ¬ (baseAddr ≤ addr ∧ addr < baseAddr + img.payload.length) := by
      by_cases inside : baseAddr ≤ addr ∧ addr < baseAddr + img.payload.length
      · refine .inl ⟨addr - baseAddr, by omega, by omega, ?_⟩
        rw [puts_some inside.1 inside.2, slotByte, if_pos (by omega)]
      · exact .inr ⟨puts_none (by omega), inside⟩
    split
    next marked =>
      by_cases inFlag : baseAddr + (img.slotSize - img.imageOkIdx) ≤ addr ∧
          addr < baseAddr + (img.slotSize - img.imageOkIdx) + img.maxAlign
      · refine .inl ⟨addr - baseAddr, by omega, by omega, ?_⟩
        rw [puts_some inFlag.1 (by omega), ← flag_byte fits marked (by omega) (by omega)]
        congr 2
        omega
      · rw [puts_none (by omega)]
        rcases payload with found | ⟨empty, outside⟩
        · exact .inl found
        · refine .inr ⟨empty, fun i lt here => ?_⟩
          have unset : i ≠ img.slotSize - img.imageOkIdx := by omega
          rw [slotByte, if_neg (by omega), if_neg (by omega), if_neg fun flag => unset flag.1]
    next unmarked =>
      rcases payload with found | ⟨empty, outside⟩
      · exact .inl found
      · refine .inr ⟨empty, fun i lt here => ?_⟩
        rw [slotByte, if_neg (by omega), if_neg (by omega), if_neg fun flag => unmarked (marked_confirm.mpr flag.2).1]

end File

/-! ### What the loader reads -/

section Readback

variable {bd : Board} {fl : Flash} {a : Area}

theorem bootReadSwapState_of_le (room : bd.magicAlignSize + 3 * bd.maxAlign ≤ bd.faSize a) :
    bootReadSwapState bd fl a = some (swapState bd fl a) := by
  have unit := bd.maxAlign_ge
  have ok : bootImageOkOff bd a = bd.faSize a - bd.magicAlignSize - bd.maxAlign := bootImageOkOff_eq_of_le (by omega)
  have read : ∀ off len, off + len ≤ bd.faSize a →
    flashAreaRead (bd.area fl a) off len = some (fl.read a off len) := fun _ _ fits => flashAreaRead_area fits
  have magic := read (bootMagicOff bd a) 16 (by unfold bootMagicOff bootMagicSz; omega)
  have info := read (bootSwapInfoOff bd a) 1 (by unfold bootSwapInfoOff bootCopyDoneOff; omega)
  have done := read (bootCopyDoneOff bd a) 1 (by unfold bootCopyDoneOff; omega)
  have okFlag := read (bootImageOkOff bd a) 1 (by omega)
  simp only [bootReadSwapState, bootReadFlag, bootMagicSz, magic, info, done, okFlag, Option.bind_eq_bind,
    Option.bind_some, Option.pure_def]
  rfl

variable {img : Image} {tsize : Nat}

/-- The image is made for the slot of the loader. -/
structure ForSlot (img : Image) (bd : Board) (a : Area) : Prop where
  maxAlign : img.maxAlign = bd.maxAlign
  slotSize : img.slotSize = bd.faSize a
  endian : img.endian = .little
  erasedVal : img.erasedVal = erasedVal

theorem bootMagic_eq (made : ForSlot img bd a) : img.bootMagic = bootImgMagic bd := by
  unfold Image.bootMagic bootImgMagic
  rw [made.maxAlign, made.endian]
  rcases bd.maxAlign_eq with h | h | h <;> rw [h] <;> rfl

theorem imageOkIdx_eq (made : ForSlot img bd a) : img.imageOkIdx = bd.magicAlignSize + bd.maxAlign := by
  rw [Image.imageOkIdx, Image.magicAlignSize, made.maxAlign]
  rfl

theorem trailerField_slotByte (fits : Fits img tsize) (made : ForSlot img bd a)
    (holds : ∀ i < img.slotSize, fl a i = slotByte img i) :
    trailerField bd fl a .magic = img.bootMagic ∧ trailerField bd fl a .copyDone = [erasedVal] ∧
      trailerField bd fl a .imageOk = [if img.confirm ∧ ¬ img.overwriteOnly then 0x01 else erasedVal] := by
  obtain ⟨before, behind⟩ := imageOkIdx_bounds fits
  have magic : img.bootMagic.length = 16 := length_bootMagic
  have unit := bd.maxAlign_ge
  have idx := imageOkIdx_eq made
  have slot := made.slotSize
  have align := made.maxAlign
  have ok : bootImageOkOff bd a = img.slotSize - img.imageOkIdx := by
    rw [bootImageOkOff_eq_of_le (by omega)]
    omega
  have done : bootCopyDoneOff bd a = img.slotSize - img.imageOkIdx - bd.maxAlign := by rw [bootCopyDoneOff, ok]
  refine ⟨?_, ?_, ?_⟩
  · refine List.ext_getElem (by rw [length_trailerField, magic]; rfl) fun i lt lt' => ?_
    have byte : fl a (bootMagicOff bd a + i) = img.bootMagic.getD i 0 := by
      rw [show bootMagicOff bd a = img.slotSize - 16 by rw [slot]; rfl, holds _ (by omega), slotByte,
        if_neg (by omega), if_pos (by omega), Nat.add_sub_cancel_left]
    simpa [trailerField, Flash.read, Field.off, Field.len, lt'] using byte
  · change [fl a (bootCopyDoneOff bd a + 0)] = _
    rw [Nat.add_zero, done, holds _ (by omega), slotByte, if_neg (by omega), if_neg (by omega),
      if_neg fun flag => by omega, made.erasedVal]
  · change [fl a (bootImageOkOff bd a + 0)] = _
    rw [Nat.add_zero, ok, holds _ (by omega), slotByte, if_neg (by omega), if_neg (by omega), made.erasedVal]
    simp

end Readback

/-- In its slot the binary file has a good magic, no `copy_done`, and `image_ok` exactly if it was confirmed in swap
mode. The hex file only leaves out erased bytes. -/
theorem padded_image_reads_back (img : Image) (bd : Board) (a : Area) (baseAddr : Nat) (made : ForSlot img bd a)
    (header : 32 ≤ img.payload.length) (nonempty : 0 < img.slotSize) (passes : img.checkTrailer = true) :
    ∃ file hex, img.saveBin = some file ∧ img.saveHex baseAddr = some hex ∧ file.length = img.slotSize ∧
      (∀ fl : Flash, (∀ i < img.slotSize, file[i]? = some (fl a i)) →
        ∃ state, bootReadSwapState bd fl a = some state ∧ state.magic = .good ∧ state.copyDone = .unset ∧
          state.imageOk = if img.confirm ∧ ¬ img.overwriteOnly then .set else .unset) ∧
      ∀ addr, (∃ i < img.slotSize, addr = baseAddr + i ∧ hex addr = file[i]?) ∨
        hex addr = none ∧ ∀ i < img.slotSize, addr = baseAddr + i → file[i]? = some img.erasedVal := by
  have fits : ∃ tsize, Fits img tsize := by
    cases size : img.trailerSize with
    | none => simp [Image.checkTrailer, size, nonempty] at passes
    | some tsize =>
      have fits : img.payload.length + tsize ≤ img.slotSize := by
        simpa [Image.checkTrailer, size, nonempty] using passes
      exact ⟨tsize, ⟨made.maxAlign ▸ bd.maxAlign_eq, size, fits⟩⟩
  obtain ⟨tsize, fits⟩ := fits
  have byte := fun i (lt : i < img.slotSize) => saveBin_byte fits lt
  have hexed : ∃ hex, img.saveHex baseAddr = some hex := by simp [Image.saveHex, fits.size]
  obtain ⟨hex, hexed⟩ := hexed
  refine ⟨img.payload ++ img.padding img.slotSize tsize, hex, by simp [Image.saveBin, fits.size], hexed,
    length_saveBin fits, fun fl holds => ?_, fun addr => ?_⟩
  · obtain ⟨_, behind⟩ := imageOkIdx_bounds fits
    have holds : ∀ i < img.slotSize, fl a i = slotByte img i := by
      intro i lt
      have same := (byte i lt).symm.trans (holds i lt)
      exact (Option.some.inj same).symm
    obtain ⟨magic, done, ok⟩ := trailerField_slotByte fits made holds
    have room : bd.magicAlignSize + 3 * bd.maxAlign ≤ bd.faSize a := by
      have idx := imageOkIdx_eq made
      have slot := made.slotSize
      have align := made.maxAlign
      rcases bd.maxAlign_eq with h | h | h <;> omega
    refine ⟨_, bootReadSwapState_of_le room, ?_, ?_, ?_⟩
    · exact magicOf_eq_good.mpr (magic.trans (bootMagic_eq made))
    · exact flagOf_eq_unset.mpr done
    · change flagOf (trailerField bd fl a .imageOk) = _
      rw [ok]
      split <;> rfl
  · rcases saveHex_byte fits hexed addr with ⟨i, lt, here, found⟩ | ⟨empty, erased⟩
    · exact .inl ⟨i, lt, here, found.trans (byte i lt).symm⟩
    · exact .inr ⟨empty, fun i lt here => (byte i lt).trans (congrArg some (erased i lt here))⟩

def confirmedImage : Image := { moveImage none (List.replicate 32 0) with confirm := true }

theorem padded_image_reads_back_confirmed :
    ∃ file, confirmedImage.saveBin = some file ∧ ∀ fl : Flash, (∀ i < 512, file[i]? = some (fl .secondary i)) →
      ∃ state, bootReadSwapState moveBoard fl .secondary = some state ∧ state.magic = .good ∧
        state.copyDone = .unset ∧ state.imageOk = .set := by
  obtain ⟨file, _, saved, _, _, reads, _⟩ := padded_image_reads_back confirmedImage moveBoard .secondary 0
    ⟨rfl, rfl, rfl, rfl⟩ (by decide) (by decide) (by decide +kernel)
  exact ⟨file, saved, reads⟩

end Adaboot.Imgtool
