import Adaboot.Image.Header

/-!
# The TLV iterator

`tlv.c`: the walk over the records behind an image. Nothing about them has been authenticated, so every bound is part
of the model. The walk returns only records that the image carries (`HasTlv`).
-/

namespace Adaboot

def imageTlvInfoMagic : Nat := 0x6907
def imageTlvProtInfoMagic : Nat := 0x6908
def imageTlvAny : Nat := 0xffff

/-- `struct image_tlv_iter`. -/
structure ImageTlvIter where
  hdr : ImageHeader
  fap : FlashArea
  type : Nat
  prot : Bool
  protEnd : Nat
  tlvOff : Nat
  tlvEnd : Nat

def bootTlvOff (hdr : ImageHeader) : Nat := u32 (hdr.ihHdrSize.toNat + hdr.ihImgSize.toNat)

/-- The info header that follows the protected TLVs, which must be as long as the image header says. -/
def readTlvInfo (hdr : ImageHeader) (fap : FlashArea) (off : Nat) : Option Bytes :=
  match flashAreaRead fap off 4 with
  | none => none
  | some info =>
    if le16 info 0 = imageTlvProtInfoMagic then
      if hdr.ihProtectTlvSize.toNat ≠ le16 info 2 then none
      else flashAreaRead fap (u32 (off + le16 info 2)) 4
    else if hdr.ihProtectTlvSize.toNat ≠ 0 then none
    else some info

/-- `bootutil_tlv_iter_begin`, for an image at `startOff`. -/
def bootutilTlvIterBegin (hdr : ImageHeader) (fap : FlashArea) (startOff type : Nat) (prot : Bool) :
    Option ImageTlvIter :=
  let off := u32 (bootTlvOff hdr + startOff)
  match readTlvInfo hdr fap off with
  | none => none
  | some info =>
    if le16 info 0 ≠ imageTlvInfoMagic then none
    else some
      { hdr, fap, type, prot
        protEnd := u32 (off + hdr.ihProtectTlvSize.toNat)
        tlvEnd := u32 (off + hdr.ihProtectTlvSize.toNat + le16 info 2)
        tlvOff := u32 (off + 4) }

/-- A record with its offset, its length and its type, no further record, or a malformed area. -/
inductive TlvNext where
  | found (it : ImageTlvIter) (off len type : Nat)
  | notFound
  | error

def ImageTlvIter.sectionEnd (it : ImageTlvIter) : Nat := if it.prot then it.protEnd else it.tlvEnd

/-- The loop of `bootutil_tlv_iter_next`, which skips records of other types. -/
def tlvIterNextLoop : Nat → ImageTlvIter → TlvNext
  | 0, _ => .error
  | fuel + 1, it =>
    if it.tlvOff < it.tlvEnd then
      if it.prot ∧ it.tlvOff ≥ it.protEnd then .notFound
      else if 0 < it.hdr.ihProtectTlvSize.toNat ∧ it.tlvOff = it.protEnd then
        -- the info header of the unprotected area stands between the two areas
        tlvIterNextLoop fuel { it with tlvOff := u32 (it.tlvOff + 4) }
      else
        if it.tlvOff > it.sectionEnd ∨ 4 > it.sectionEnd - it.tlvOff then .error
        else match flashAreaRead it.fap it.tlvOff 4 with
          | none => .error
          | some tlv =>
            let next := { it with tlvOff := u32 (it.tlvOff + 4 + le16 tlv 2) }
            if le16 tlv 2 > it.sectionEnd - it.tlvOff - 4 then .error
            else if it.type = imageTlvAny ∨ le16 tlv 0 = it.type then
              .found next (u32 (it.tlvOff + 4)) (le16 tlv 2) (le16 tlv 0)
            else tlvIterNextLoop fuel next
    else .notFound

/-- `bootutil_tlv_iter_next`. Every round moves `tlvOff` up, so `tlvEnd` rounds suffice. -/
def bootutilTlvIterNext (it : ImageTlvIter) : TlvNext := tlvIterNextLoop (it.tlvEnd + 1) it

def bootutilTlvIterIsProt (it : ImageTlvIter) (off : Nat) : Bool := off < it.protEnd

/-! ### The records of an image -/

section Records

variable (hdr : ImageHeader) (fap : FlashArea) (startOff : Nat)

def tlvStart : Nat := startOff + hdr.ihHdrSize.toNat + hdr.ihImgSize.toNat

def tlvProtEnd : Nat := startOff + hdr.hashedSize

def tlvTot : Nat :=
  (fap.byte (tlvProtEnd hdr startOff + 2)).toNat + 256 * (fap.byte (tlvProtEnd hdr startOff + 3)).toNat

theorem tlvTot_lt : tlvTot hdr fap startOff < 65536 := by
  have := (fap.byte (tlvProtEnd hdr startOff + 2)).toNat_lt
  have := (fap.byte (tlvProtEnd hdr startOff + 3)).toNat_lt
  unfold tlvTot
  omega

def imageSize : Nat := hdr.hashedSize + tlvTot hdr fap startOff

/-- The positions at which records of the image start. -/
inductive TlvPos : Nat → Prop where
  | first : TlvPos (tlvStart hdr startOff + 4)
  | skip : TlvPos (tlvProtEnd hdr startOff) → TlvPos (tlvProtEnd hdr startOff + 4)
  | next {p : Nat} {tlv : Bytes} :
      TlvPos p → flashAreaRead fap p 4 = some tlv → TlvPos (p + 4 + le16 tlv 2)

/-- The image carries a record of the type with the payload. -/
def HasTlv (type : Nat) (payload : Bytes) : Prop :=
  ∃ p tlv, TlvPos hdr fap startOff p ∧ flashAreaRead fap p 4 = some tlv ∧ le16 tlv 0 = type ∧
    p + 4 + le16 tlv 2 ≤ startOff + imageSize hdr fap startOff ∧
    flashAreaRead fap (p + 4) (le16 tlv 2) = some payload

end Records

/-- Between two calls `tlvOff` is the position of a record of the image, unless the walk is over. -/
structure ImageTlvIter.Walks (it : ImageTlvIter) (hdr : ImageHeader) (fap : FlashArea) (startOff : Nat) : Prop where
  hdr_eq : it.hdr = hdr
  fap_eq : it.fap = fap
  protEnd_eq : it.protEnd = tlvProtEnd hdr startOff
  tlvEnd_eq : it.tlvEnd = startOff + imageSize hdr fap startOff
  tlvEnd_lt : it.tlvEnd < 2 ^ 32
  protEnd_lt : it.protEnd + 4 < 2 ^ 32
  pos : TlvPos hdr fap startOff it.tlvOff

theorem tlvStart_add (hdr : ImageHeader) (startOff : Nat) :
    tlvStart hdr startOff + hdr.ihProtectTlvSize.toNat = tlvProtEnd hdr startOff := by
  unfold tlvStart tlvProtEnd ImageHeader.hashedSize
  omega

variable {hdr : ImageHeader} {startOff type : Nat} {fap : FlashArea} {info : Bytes} {prot : Bool} {it : ImageTlvIter}

theorem bootTlvOff_add (lt : tlvStart hdr startOff < 2 ^ 32) :
    u32 (bootTlvOff hdr + startOff) = tlvStart hdr startOff := by
  unfold tlvStart at *
  rw [bootTlvOff, u32_of_lt (n := _ + hdr.ihImgSize.toNat) (by omega), u32_of_lt (by omega)]
  omega

theorem readTlvInfo_of_lt
    (lt : tlvProtEnd hdr startOff < 2 ^ 32) (read : readTlvInfo hdr fap (tlvStart hdr startOff) = some info) :
    flashAreaRead fap (tlvProtEnd hdr startOff) 4 = some info := by
  have prot_eq := tlvStart_add hdr startOff
  unfold readTlvInfo at read
  split at read
  next => simp at read
  next first firstRead =>
    split_ifs at read with protMagic differ zero
    · rwa [← Decidable.not_not.mp differ, prot_eq, u32_of_lt (by omega)] at read
    · rwa [← prot_eq, show hdr.ihProtectTlvSize.toNat = 0 by omega, ← Option.some.inj read]

theorem readTlvInfo_eq_some
    (fits : tlvProtEnd hdr startOff ≤ fap.faSize) (read : readTlvInfo hdr fap (tlvStart hdr startOff) = some info) :
    flashAreaRead fap (tlvProtEnd hdr startOff) 4 = some info :=
  readTlvInfo_of_lt (Nat.lt_of_le_of_lt fits fap.faSize_lt) read

/-- Only `tlvEnd` can wrap around, in an area that ends within the last 64 KiB of the address space. -/
theorem bootutilTlvIterBegin_of_lt (lt : tlvProtEnd hdr startOff < 2 ^ 32)
    (begun : bootutilTlvIterBegin hdr fap startOff type prot = some it) : tlvProtEnd hdr startOff + 4 ≤ fap.faSize ∧
      it = ⟨hdr, fap, type, prot, tlvProtEnd hdr startOff, tlvStart hdr startOff + 4,
        u32 (startOff + imageSize hdr fap startOff)⟩ := by
  have bound := fap.faSize_lt
  have prot_eq := tlvStart_add hdr startOff
  rw [bootutilTlvIterBegin, bootTlvOff_add (by omega)] at begun
  split at begun
  next => simp at begun
  next info read =>
    split at begun
    next => simp at begun
    next =>
      obtain ⟨le, rfl⟩ := flashAreaRead_eq_some (readTlvInfo_of_lt lt read)
      refine ⟨le, (Option.some.inj begun).symm.trans ?_⟩
      rw [prot_eq, u32_of_lt (n := tlvProtEnd hdr startOff) (by omega),
        u32_of_lt (n := tlvStart hdr startOff + 4) (by omega)]
      simp [le16, tlvTot, imageSize, tlvProtEnd, Nat.add_assoc]

theorem bootutilTlvIterBegin_spec (fits : tlvProtEnd hdr startOff ≤ fap.faSize)
    (begun : bootutilTlvIterBegin hdr fap startOff type prot = some it) : tlvProtEnd hdr startOff + 4 ≤ fap.faSize ∧
      it = ⟨hdr, fap, type, prot, tlvProtEnd hdr startOff, tlvStart hdr startOff + 4,
        u32 (startOff + imageSize hdr fap startOff)⟩ :=
  bootutilTlvIterBegin_of_lt (Nat.lt_of_le_of_lt fits fap.faSize_lt) begun

section Walk

variable {hdr : ImageHeader} {fap : FlashArea} {startOff : Nat} {it : ImageTlvIter}
  (walks : it.Walks hdr fap startOff)
include walks

theorem ImageTlvIter.Walks.sectionEnd_le : it.sectionEnd ≤ it.tlvEnd := by
  unfold ImageTlvIter.sectionEnd
  split
  next =>
    rw [walks.protEnd_eq, walks.tlvEnd_eq, tlvProtEnd, imageSize]
    omega
  next => exact Nat.le_refl _

variable {off len type : Nat} {it' : ImageTlvIter}

theorem ImageTlvIter.Walks.move
    (pos : TlvPos hdr fap startOff off) : ImageTlvIter.Walks { it with tlvOff := off } hdr fap startOff :=
  ⟨walks.hdr_eq, walks.fap_eq, walks.protEnd_eq, walks.tlvEnd_eq, walks.tlvEnd_lt, walks.protEnd_lt, pos⟩

theorem ImageTlvIter.Walks.record {tlv : Bytes}
    (read : flashAreaRead it.fap it.tlvOff 4 = some tlv)
    (room : ¬(it.tlvOff > it.sectionEnd ∨ 4 > it.sectionEnd - it.tlvOff))
    (short : ¬le16 tlv 2 > it.sectionEnd - it.tlvOff - 4) : u32 (it.tlvOff + 4) = it.tlvOff + 4 ∧
      u32 (it.tlvOff + 4 + le16 tlv 2) = it.tlvOff + 4 + le16 tlv 2 ∧ it.tlvOff + 4 + le16 tlv 2 ≤ it.tlvEnd ∧
      TlvPos hdr fap startOff (it.tlvOff + 4 + le16 tlv 2) := by
  have lt := walks.tlvEnd_lt
  have le := walks.sectionEnd_le
  refine ⟨u32_of_lt (by omega), u32_of_lt (by omega), by omega, ?_⟩
  exact .next walks.pos (walks.fap_eq ▸ read)

theorem tlvIterNextLoop_found {fuel : Nat} (found : tlvIterNextLoop fuel it = .found it' off len type) :
    it'.Walks hdr fap startOff ∧ off + len ≤ it.tlvEnd ∧ it.tlvOff < it'.tlvOff ∧ it.tlvOff < it.tlvEnd ∧
      ∃ p tlv, TlvPos hdr fap startOff p ∧ flashAreaRead fap p 4 = some tlv ∧
        le16 tlv 0 = type ∧ le16 tlv 2 = len ∧ p + 4 = off := by
  induction fuel generalizing it with
  | zero => simp [tlvIterNextLoop] at found
  | succ fuel ih =>
    rw [tlvIterNextLoop] at found
    split_ifs at found with more outside skip room
    · -- the info header between the areas
      have eq : u32 (it.tlvOff + 4) = tlvProtEnd hdr startOff + 4 := by
        rw [skip.2, ← walks.protEnd_eq, u32_of_lt walks.protEnd_lt]
      have pos : TlvPos hdr fap startOff (u32 (it.tlvOff + 4)) := by
        rw [eq]
        exact .skip (walks.protEnd_eq ▸ skip.2 ▸ walks.pos)
      obtain ⟨walks', le, lt, -, rest⟩ := ih (walks.move pos) found
      refine ⟨walks', le, ?_, more, rest⟩
      have := walks.protEnd_eq
      simp only [eq] at lt
      omega
    · cases read : flashAreaRead it.fap it.tlvOff 4 with
      | none => simp [read] at found
      | some tlv =>
        simp only [read] at found
        split_ifs at found with long wanted
        · obtain ⟨eq, eq', le, pos⟩ := walks.record read room long
          obtain ⟨rfl, rfl, rfl, rfl⟩ := found
          rw [eq, eq']
          exact ⟨walks.move pos, le, by simp only; omega, more, it.tlvOff, tlv, walks.pos,
            walks.fap_eq ▸ read, rfl, rfl, rfl⟩
        · obtain ⟨_, eq', le, pos⟩ := walks.record read room long
          rw [eq'] at found
          obtain ⟨walks', le', lt, -, rest⟩ := ih (walks.move pos) found
          exact ⟨walks', le', by simp only at lt; omega, more, rest⟩

theorem bootutilTlvIterNext_found {payload : Bytes}
    (found : bootutilTlvIterNext it = .found it' off len type)
    (read : flashAreaRead fap off len = some payload) : HasTlv hdr fap startOff type payload := by
  obtain ⟨_, le, _, _, p, tlv, pos, header, rfl, rfl, rfl⟩ := tlvIterNextLoop_found walks found
  exact ⟨p, tlv, pos, header, rfl, walks.tlvEnd_eq ▸ le, read⟩

end Walk

end Adaboot
