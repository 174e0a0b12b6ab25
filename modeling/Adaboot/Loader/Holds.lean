import Adaboot.Loader.Boot

/-!
# Slots that hold an image

What the readers of the loader find where an image stands in flash: its header, its size and a
valid verdict. Everything the proofs about boots need from an image goes through these lemmas.
-/

namespace Adaboot

open Nor Crash

variable {v : ValidateBuild} {bd : Board} {fl fl' : Flash} {a : Area} {off : Nat} {img : Image v}

/-- The area has the bytes of the image from the offset on. -/
def Holds (fl : Flash) (a : Area) (off : Nat) (img : Image v) : Prop :=
  ∀ i, i < img.size → fl a (off + i) = img.bytes.getD i 0

theorem Holds.congr (held : Holds fl a off img) (same : Flash.EqOn a off (off + img.size) fl fl') :
    Holds fl' a off img :=
  fun i lt => (same _ (by omega) (by omega)).trans (held i lt)

theorem ImageHeader.decode_congr {data data' : Bytes}
    (same : ∀ i, i < imageHeaderSize → data'.getD i 0 = data.getD i 0) : decode data' = decode data := by
  have byte : ∀ i, i < 32 → data'.getD i 0 = data.getD i 0 := same
  have half : ∀ i, i + 1 < 32 → le16 data' i = le16 data i := fun i lt => by
    rw [le16, le16, byte i (by omega), byte (i + 1) lt]
  have word : ∀ i, i + 3 < 32 → le32 data' i = le32 data i := fun i lt => by
    rw [le32, le32, half i (by omega), half (i + 2) (by omega)]
  have major := byte 20 (by omega)
  have minor := byte 21 (by omega)
  simp only [decode, half, word, Nat.reduceAdd, Nat.reduceLT, major, minor]

namespace Holds

theorem decode_read (held : Holds fl a off img) : ImageHeader.decode (fl.read a off imageHeaderSize) = img.hdr :=
  ImageHeader.decode_congr fun i lt => by rw [← held i (lt.trans_le img.header_le), Flash.read_getD _ _ _ _ _ _ lt]

theorem headerRead (bd : Board) (held : Holds fl a off img) (fits : off + img.size ≤ bd.faSize a) :
    ∃ out, flashAreaRead (bd.area fl a) off imageHeaderSize = some out ∧ ImageHeader.decode out = img.hdr :=
  ⟨_, flashAreaRead_of_le (Nat.le_trans (Nat.add_le_add_left img.header_le off) fits), held.decode_read⟩

theorem valid (held : Holds fl a off img) (fits : off + img.size ≤ bd.faSize a) {maxSize : Nat}
    (le : img.size ≤ maxSize) : bootutilImgValidate v img.hdr (bd.area fl a) off maxSize [] = true :=
  img.validAt held fits le

theorem tlvTot_eq (bd : Board) (held : Holds fl a off img) :
    img.hdr.hashedSize + tlvTot img.hdr (bd.area fl a) off = img.size := by
  have size_eq : img.hdr.hashedSize + tlvTot img.hdr (.ofBytes img.bytes img.length_lt) 0 =
      img.size := img.size_eq
  rw [← size_eq]
  have room := img.tlvInfo_le
  have at2 := held (img.hdr.hashedSize + 2) (by omega)
  have at3 := held (img.hdr.hashedSize + 3) (by omega)
  have byte : ∀ i, i < img.size → img.bytes.getD i erasedVal = img.bytes.getD i 0 := by
    intro i lt
    have : i < img.bytes.length := lt
    simp [List.getD, this]
  simp only [tlvTot, tlvProtEnd, Board.area, FlashArea.ofBytes, Nat.zero_add, Nat.add_assoc]
  rw [at2, at3, byte _ (by omega), byte _ (by omega)]

theorem imageSizeRead (held : Holds fl a off img) (fits : off + img.size ≤ bd.faSize a) :
    readImageSize (bd.area fl a) img.hdr off = some (img.size, img.tlvSize) := by
  obtain ⟨it, begun⟩ := bootutilImgValidate_begun (held.valid fits le_rfl)
  have size := held.tlvTot_eq bd
  have lt : img.size < 2 ^ 32 := img.length_lt
  have inArea : tlvProtEnd img.hdr off ≤ (bd.area fl a).faSize := by
    show off + img.hdr.hashedSize ≤ bd.faSize a
    omega
  have areaLt := (bd.area fl a).faSize_lt
  have prot_eq := tlvStart_add img.hdr off
  have off_eq : u32 (bootTlvOff img.hdr + off) = tlvStart img.hdr off := bootTlvOff_add (by omega)
  unfold bootutilTlvIterBegin at begun
  unfold readImageSize
  rw [off_eq] at begun ⊢
  cases read : readTlvInfo img.hdr (bd.area fl a) (tlvStart img.hdr off) with
  | none => simp [read] at begun
  | some info =>
    simp only [read] at begun ⊢
    split at begun
    next => simp at begun
    next magic =>
      obtain ⟨-, infoBytes⟩ := flashAreaRead_eq_some (readTlvInfo_eq_some inArea read)
      have tot : le16 info 2 = img.tlvSize := by
        have : le16 info 2 = tlvTot img.hdr (bd.area fl a) off := by
          rw [infoBytes]
          simp [le16, tlvTot]
        unfold Image.tlvSize
        omega
      have hashed : bootTlvOff img.hdr + img.hdr.ihProtectTlvSize.toNat = img.hdr.hashedSize := by
        unfold ImageHeader.hashedSize at *
        rw [bootTlvOff, u32_of_lt (by omega)]
      have sum : img.hdr.hashedSize + img.tlvSize = img.size := by
        unfold Image.tlvSize
        omega
      rw [if_neg magic, tot, hashed, sum, u32_of_lt lt]

end Holds

end Adaboot
