import Adaboot.Serial.Decrypt

/-!
# Copies of encrypted images

`boot_copy_region` with `MCUBOOT_ENC_IMAGES`, as the swaps call it for one sector after the other: copies into the
primary slot decrypt, copies out of it encrypt. `sector_off` is how far the image is shifted in the destination.
-/

namespace Adaboot.SerialEncryption

open Crash Nor

/-- Whose header and key are used. Between two areas other than the primary slot, or inside it, it is `only_copy`. -/
def cryptSlot (src dst : Area) : Option Area :=
  if (src = .primary) = (dst = .primary) then none else if dst = .primary then some .secondary else some .primary

/-- `boot_copy_region`. -/
def bootCopyRegionEnc (bd : Board) (keys : Area → KeyStream) (hdrs : Area → ImageHeader) (src dst : Area)
    (offSrc offDst sz sectorOff : Nat) : Boot Unit :=
  match cryptSlot src dst with
  | none => bootCopyRegion bd src dst offSrc offDst sz
  | some slot => cryptCopyLoop bd (keys slot) (hdrs slot) src dst offSrc offDst sz sectorOff (sz + 1) 0

/-- Pieces of an image, by offset and length, are copied in an order. The image is `shift` bytes above the start of the
destination, as `sector_off` says: one sector in a revert of a swap using offset, and nothing elsewhere. -/
def copyPieces (bd : Board) (keys : Area → KeyStream) (hdrs : Area → ImageHeader) (src dst : Area) (offSrc shift : Nat) :
    List (Nat × Nat) → Boot Unit
  | [] => pure ()
  | p :: pieces => do
    bootCopyRegionEnc bd keys hdrs src dst (offSrc + p.1) (shift + p.1) p.2 shift
    copyPieces bd keys hdrs src dst offSrc shift pieces

def InPiece (p : Nat × Nat) (i : Nat) : Prop := p.1 ≤ i ∧ i < p.1 + p.2

/-- The pieces are a division of `size` bytes, in any order. -/
structure Divides (pieces : List (Nat × Nat)) (size : Nat) : Prop where
  apart : pieces.Pairwise fun p q => ∀ i, InPiece p i → ¬ InPiece q i
  inside : ∀ p ∈ pieces, p.1 + p.2 ≤ size
  covers : ∀ i < size, ∃ p ∈ pieces, InPiece p i

section Pieces

variable {bd : Board} {keys : Area → KeyStream} {hdrs : Area → ImageHeader} {src dst slot : Area}
  {offSrc shift size : Nat} {pieces : List (Nat × Nat)} {fl : Flash} {E : BootErr → Flash → Prop}

variable (keys) in
theorem copyPieces_wp (crypts : cryptSlot src dst = some slot) (encrypted : (hdrs slot).isEncrypted = true)
    (ordered : (hdrs slot).ihHdrSize.toNat ≤ bootTlvOff (hdrs slot)) (srcFits : offSrc + size ≤ bd.faSize src)
    (dstFits : shift + size ≤ bd.faSize dst) (apart : pieces.Pairwise fun p q => ∀ i, InPiece p i → ¬ InPiece q i)
    (inside : ∀ p ∈ pieces, p.1 + p.2 ≤ size)
    (erased : ∀ p ∈ pieces, ∀ i, InPiece p i → fl dst (shift + i) = erasedVal) :
    wp (copyPieces bd keys hdrs src dst offSrc shift pieces) (fun _ fl' =>
      (∀ p ∈ pieces, ∀ i, InPiece p i →
        fl' dst (shift + i) = plainByte (hdrs slot) (keys slot) i (fl src (offSrc + i))) ∧
      ∀ a i, (∀ p ∈ pieces, ∀ j, InPiece p j → a = dst → i ≠ shift + j) → fl' a i = fl a i)
      E (fun _ => True) fl := by
  have other : src ≠ dst := by
    rintro rfl
    simp [cryptSlot] at crypts
  induction pieces generalizing fl with
  | nil => exact (wp_pure _).mpr ⟨by simp, fun _ _ _ => rfl⟩
  | cons p pieces ih =>
    obtain ⟨first, apart⟩ := List.pairwise_cons.mp apart
    obtain ⟨pInside, inside⟩ := List.forall_mem_cons.mp inside
    obtain ⟨pErased, erased⟩ := List.forall_mem_cons.mp erased
    rw [copyPieces, wp_bind, bootCopyRegionEnc, crypts]
    refine wp_imp (cryptCopyLoop_wp encrypted ordered other (by omega) (by omega) (Nat.le_add_right _ _)
      (Nat.zero_le _) (by omega) ⟨.refl _ _ _ _, fun i lt => absurd lt (Nat.not_lt_zero i)⟩) ?_
    intro _ fl₁ crypted
    -- the other pieces have no byte of this one, and the source is in another area
    have kept : ∀ a i, (∀ j, InPiece p j → a = dst → i ≠ shift + j) → fl₁ a i = fl a i := by
      intro a i out
      refine crypted.outside a i fun eq => ?_
      by_contra within
      exact out (i - shift) ⟨by omega, by omega⟩ eq (by omega)
    refine wp_imp (ih apart inside fun q mem i at_q => ?_) ?_
    · rw [kept dst _ fun j at_p _ same => first q mem j at_p (Nat.add_left_cancel same ▸ at_q)]
      exact erased q mem i at_q
    · rintro _ fl₂ ⟨copied, same⟩
      refine ⟨List.forall_mem_cons.mpr ⟨fun i at_p => ?_, fun q mem i at_q => ?_⟩, fun a i out => ?_⟩
      · obtain ⟨j, rfl⟩ := Nat.exists_eq_add_of_le at_p.1
        have moved := crypted.copied j (by have := at_p.2; omega) (by rw [Nat.add_assoc]; exact pErased _ at_p)
        rw [same dst _ fun q mem k at_q _ eq => first q mem k (Nat.add_left_cancel eq ▸ at_p) at_q, ← Nat.add_assoc,
          moved, Nat.add_sub_cancel_left, Nat.add_assoc]
      · rw [copied q mem i at_q, kept src _ fun _ _ eq => absurd eq other]
      · obtain ⟨out_p, out⟩ := List.forall_mem_cons.mp out
        rw [same a i out, kept a i out_p]

theorem plainByte_plainByte (hdr : ImageHeader) (ks : KeyStream) (p : Nat) (byte : UInt8) :
    plainByte hdr ks p (plainByte hdr ks p byte) = byte := by
  unfold plainByte
  split
  · rw [UInt8.xor_assoc, UInt8.xor_self, UInt8.xor_zero]
  · rfl

variable (keys) in
theorem copyPieces_divided (crypts : cryptSlot src dst = some slot) (encrypted : (hdrs slot).isEncrypted = true)
    (image : (hdrs slot).ihHdrSize.toNat + (hdrs slot).ihImgSize.toNat ≤ size) (divides : Divides pieces size)
    (srcFits : offSrc + size ≤ bd.faSize src) (dstFits : shift + size ≤ bd.faSize dst)
    (erased : Flash.Erased fl dst shift (shift + size)) :
    let run := copyPieces bd keys hdrs src dst offSrc shift pieces fl
    run.value = .ok () ∧ Flash.EqOutside dst shift (shift + size) fl run.state ∧
      ∀ i < size, run.state dst (shift + i) = plainByte (hdrs slot) (keys slot) i (fl src (offSrc + i)) := by
  have small : bd.faSize dst < 2 ^ 32 := bd.size_lt dst
  have ordered : (hdrs slot).ihHdrSize.toNat ≤ bootTlvOff (hdrs slot) := by
    rw [bootTlvOff, u32, Nat.mod_eq_of_lt (by omega)]
    exact Nat.le_add_right _ _
  have within : ∀ p ∈ pieces, ∀ i, InPiece p i → i < size := fun p mem i at_p =>
    at_p.2.trans_le (divides.inside p mem)
  obtain ⟨_, value, copied, same⟩ := wp_returns (copyPieces_wp keys crypts encrypted ordered srcFits dstFits
    divides.apart divides.inside fun p mem i at_p =>
      erased _ (Nat.le_add_right _ _) (Nat.add_lt_add_left (within p mem i at_p) _))
  refine ⟨value, fun a i out => same a i fun p mem j at_p eq => ?_, fun i lt => ?_⟩
  · have := within p mem j at_p
    have := out eq
    omega
  · obtain ⟨p, mem, at_p⟩ := divides.covers i lt
    exact copied p mem i at_p

/-- An image is copied in pieces: a byte of the body is combined with the key stream of its place in the image, the
header and the TLVs stay. The way back, in other pieces and to another place, gives the image again. -/
theorem copyPieces_crypts (bd : Board) (keys : Area → KeyStream) (hdrs : Area → ImageHeader) (src dst slot : Area)
    (offSrc shift size : Nat) (pieces : List (Nat × Nat)) (fl : Flash) (crypts : cryptSlot src dst = some slot)
    (encrypted : (hdrs slot).isEncrypted = true)
    (image : (hdrs slot).ihHdrSize.toNat + (hdrs slot).ihImgSize.toNat ≤ size) (divides : Divides pieces size)
    (srcFits : offSrc + size ≤ bd.faSize src) (dstFits : shift + size ≤ bd.faSize dst)
    (erased : Flash.Erased fl dst shift (shift + size)) :
    let run := copyPieces bd keys hdrs src dst offSrc shift pieces fl
    run.value = .ok () ∧ Flash.EqOutside dst shift (shift + size) fl run.state ∧
      (∀ i < size, run.state dst (shift + i) = plainByte (hdrs slot) (keys slot) i (fl src (offSrc + i))) ∧
      ∀ (keys' : Area → KeyStream) (hdrs' : Area → ImageHeader) (slot' : Area) (pieces' : List (Nat × Nat))
        (shift' : Nat) (fl' : Flash), cryptSlot dst src = some slot' → hdrs' slot' = hdrs slot →
        keys' slot' = keys slot → Divides pieces' size → shift' + size ≤ bd.faSize src →
        Flash.Erased fl' src shift' (shift' + size) → (∀ i < size, fl' dst (shift + i) = run.state dst (shift + i)) →
        ∀ i < size, (copyPieces bd keys' hdrs' dst src shift shift' pieces' fl').state src (shift' + i) =
          fl src (offSrc + i) := by
  obtain ⟨value, outside, bytes⟩ := copyPieces_divided keys crypts encrypted image divides srcFits dstFits erased
  refine ⟨value, outside, bytes, ?_⟩
  intro keys' hdrs' slot' pieces' shift' fl' crypts' sameHdr sameKey divides' fits' erased' copied i lt
  rw [← sameHdr] at encrypted image
  obtain ⟨_, _, back⟩ := copyPieces_divided keys' crypts' encrypted image divides' dstFits fits' erased'
  rw [back i lt, copied i lt, bytes i lt, sameHdr, sameKey, plainByte_plainByte]

theorem divides_two (S : Nat) : Divides [(S, S), (0, S)] (S + S) where
  apart := by
    simp only [List.pairwise_pair, InPiece]
    omega
  inside := by simp
  covers i lt := by
    simp only [List.mem_cons, List.not_mem_nil, or_false, exists_eq_or_imp, exists_eq_left, InPiece]
    omega

def revertFlash : Flash := fun a _ => if a = .primary then 0 else erasedVal

/-- A revert of two sectors: the second one is encrypted first, and both go one sector up. -/
theorem revert_encrypts :
    (copyPieces decryptBoard (fun _ i => UInt8.ofNat i) (fun _ => encryptedHeader 96) .primary .secondary 0 128
      [(128, 128), (0, 128)] revertFlash).state .secondary (128 + 40) = 8 := by
  obtain ⟨-, -, bytes, -⟩ := copyPieces_crypts decryptBoard (fun _ i => UInt8.ofNat i) (fun _ => encryptedHeader 96)
    .primary .secondary .primary 0 128 256 [(128, 128), (0, 128)] revertFlash rfl (by decide) (by decide)
    (divides_two 128) (by decide) (by decide) fun _ _ _ => rfl
  rw [bytes 40 (by decide)]
  decide

end Pieces

end Adaboot.SerialEncryption
