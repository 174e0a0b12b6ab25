import Adaboot.Imgtool.Verified

/-!
# Changed images and `verify`

Which changes of a byte `verify` notices, and the round trip of creating, saving and verifying an image as
a whole.
-/

namespace Adaboot.Imgtool

/-! ### The header -/

def headerVersion (hdr : ImageHeader) : Version :=
  ⟨hdr.ihVer.ivMajor.toNat, hdr.ihVer.ivMinor.toNat, hdr.ihVer.ivRevision.toNat, hdr.ihVer.ivBuildNum.toNat⟩

theorem headerBytes_read (host : Endian) (hdr : ImageHeader) (rest : Bytes) :
    unpackI host (slice (headerBytes host hdr ++ rest) 0 4) = hdr.ihMagic.toNat ∧
      unpackH host (slice (headerBytes host hdr ++ rest) 8 10) = hdr.ihHdrSize.toNat ∧
      unpackI host (slice (headerBytes host hdr ++ rest) 12 16) = hdr.ihImgSize.toNat ∧
      unpackVersion host (headerBytes host hdr ++ rest) = headerVersion hdr := by
  cases host <;>
    simp [headerVersion, unpackVersion, headerBytes, slice, Endian.order, put32, put16, unpackI, unpackH, le32, le16,
      bytes_uint32, bytes_uint16]

theorem headerBytes_foreign {host e : Endian} (ne : e ≠ host) {hdr : ImageHeader} (magic : hdr.ihMagic = imageMagic)
    (rest : Bytes) : unpackI host (slice (headerBytes e hdr ++ rest) 0 4) ≠ imageMagic.toNat := by
  have read : unpackI host (slice (headerBytes e hdr ++ rest) 0 4) =
      unpackI host (e.order (put32 imageMagic.toNat)) := by
    cases e <;> simp [headerBytes, slice, Endian.order, put32, put16, magic]
  rw [read]
  cases e <;> cases host <;> first | exact absurd rfl ne | decide

/-! ### The file -/

/-- `IntelHex.tobinstr` of an image with its slot. -/
def tobinstr (hex : Image.Hex) (baseAddr size : Nat) : Bytes :=
  (List.range size).map fun i => (hex (baseAddr + i)).getD 0xff

/-- The files that `save` writes, as `verify` reads them. -/
inductive SavedAs (img : Image) : Bytes → Prop where
  | unpadded : SavedAs img img.payload
  | padded {file : Bytes} : img.saveBin = some file → SavedAs img file
  | paddedHex {baseAddr tsize : Nat} {hex : Image.Hex} :
      Fits img tsize → img.saveHex baseAddr = some hex → SavedAs img (tobinstr hex baseAddr img.slotSize)

theorem SavedAs.starts {img : Image} {file : Bytes}
    (saved : SavedAs img file) : ∃ extra, file = img.payload ++ extra := by
  cases saved with
  | unpadded => exact ⟨[], (List.append_nil _).symm⟩
  | padded bin =>
    simp only [Image.saveBin, Option.bind_eq_bind, Option.bind_eq_some_iff, Option.pure_def, Option.some.injEq] at bin
    obtain ⟨tsize, -, rfl⟩ := bin
    exact ⟨_, rfl⟩
  | @paddedHex baseAddr tsize hex fits hexed =>
    obtain ⟨before, behind⟩ := imageOkIdx_bounds fits
    refine ⟨(tobinstr hex baseAddr img.slotSize).drop img.payload.length, ?_⟩
    have head : (tobinstr hex baseAddr img.slotSize).take img.payload.length = img.payload := by
      apply List.ext_getElem
      · simp [tobinstr]
        omega
      · intro i _ lt
        have byte : hex (baseAddr + i) = some (img.payload.getD i 0) := by
          rw [saveHex_eq fits hexed, puts_none (by omega)]
          split
          next => rw [puts_none (by omega), puts_some (by omega) (by omega), Nat.add_sub_cancel_left]
          next => rw [puts_some (by omega) (by omega), Nat.add_sub_cancel_left]
        simp [tobinstr, byte, lt]
    have parts := List.take_append_drop img.payload.length (tobinstr hex baseAddr img.slotSize)
    rw [head] at parts
    exact parts.symm

/-- A file that starts with the parts of an image that is not encrypted. -/
def Emitted.InFile (em : Emitted) (file : Bytes) : Prop := ∃ extra, file = em.region ++ (em.tlv ++ extra)

section InFile

variable {lib : Lib} {img : SourceImage} {args : CreateArgs} {em : Emitted} {hdr : ImageHeader} {file : Bytes}

theorem Emitted.InFile.take (inFile : em.InFile file) : file.take em.region.length = em.region := by
  obtain ⟨extra, rfl⟩ := inFile
  exact List.take_left

theorem Emitted.InFile.drop (inFile : em.InFile file) : ∃ extra, file.drop em.region.length = em.tlv ++ extra := by
  obtain ⟨extra, rfl⟩ := inFile
  exact ⟨extra, List.drop_left⟩

variable (laid : em.Laid lib img args hdr)
include laid

variable (inFile : em.InFile file)
include inFile

theorem Emitted.Laid.header :
    ∃ rest, file = headerBytes img.endian hdr ++ rest := by
  obtain ⟨extra, rfl⟩ := inFile
  exact ⟨_, by simp only [Emitted.region, laid.plain, List.append_assoc]; rfl⟩

theorem Emitted.Laid.area :
    unpackHH img.endian (slice file em.region.length (em.region.length + 4)) = some (0x6907, em.tlv.length) ∧
      ∃ rest, file.drop (em.region.length + 4) = encodeAll img.endian em.tlvs ++ rest := by
  obtain ⟨extra, drop⟩ := inFile.drop
  have tlv := laid.tlv_eq
  have length : em.tlv.length = 4 + (encodeAll img.endian em.tlvs).length := by
    simp [tlv]
    omega
  have lt := laid.tlv_length
  rw [tlv, List.append_assoc] at drop
  constructor
  · rw [unpackHH_info (by decide) (by omega) drop, length]
  · refine ⟨extra, ?_⟩
    rw [← List.drop_drop, drop, List.drop_left' (by simp)]

theorem Emitted.Laid.protArea (guarded : em.prots ≠ []) :
    unpackHH img.endian (slice file em.plain.length (em.plain.length + 4)) = some (0x6908, em.prot.length) ∧
      ∃ rest, file.drop (em.plain.length + 4) = encodeAll img.endian em.prots ++ rest := by
  have prot := laid.prot
  rw [areaBytes, if_neg guarded] at prot
  have size : em.prot.length = 4 + (encodeAll img.endian em.prots).length := by
    simp [prot]
    omega
  have sizeLt : em.prot.length < 65536 := by
    rw [← laid.describes.protSize]
    exact hdr.ihProtectTlvSize.toNat_lt
  obtain ⟨extra, starts⟩ := inFile
  have here : file.drop em.plain.length = img.endian.order (put16 0x6908) ++
      img.endian.order (put16 em.prot.length) ++ (encodeAll img.endian em.prots ++ (em.tlv ++ extra)) := by
    rw [starts, Emitted.region, List.append_assoc, List.drop_left]
    conv_lhs => rw [prot]
    rw [size]
    simp only [List.append_assoc]
  refine ⟨unpackHH_info (by decide) sizeLt here, em.tlv ++ extra, ?_⟩
  rw [← List.drop_drop, here, List.drop_left' (by simp)]

variable (long : 32 ≤ (paddedPayload img args).length)
include long

theorem Emitted.Laid.bodyEnd : unpackH img.endian (slice file 8 10) + unpackI img.endian (slice file 12 16) =
    em.plain.length := by
  obtain ⟨rest, header⟩ := laid.header inFile
  obtain ⟨-, hdrSize, imgSize, -⟩ := headerBytes_read img.endian hdr rest
  rw [← header] at hdrSize imgSize
  rw [hdrSize, imgSize, laid.plain_length long]

theorem Emitted.Laid.located : locate img.endian file = some (em.region.length, 0x6907, em.tlv.length) := by
  obtain ⟨area, -⟩ := laid.area inFile
  unfold locate
  simp only [laid.bodyEnd inFile long]
  by_cases none : em.prots = []
  · -- no protected area: the body ends where the region does
    have empty : em.prot = [] := by rw [laid.prot, areaBytes, if_pos none]
    have ends : em.region.length = em.plain.length := by rw [Emitted.region, empty, List.append_nil]
    rw [← ends, area]
    rfl
  · have ends : em.plain.length + em.prot.length = em.region.length := by
      rw [Emitted.region, List.length_append]
    rw [(laid.protArea inFile none).1]
    simp only [Option.bind_eq_bind, Option.bind_some, if_true, ends, area]
    rfl

end InFile

/-! ### What it takes to pass -/

section Passes

variable (lib : Lib) (host : Endian) (b : Bytes) (key : Option Key)

/-- `verify` returns `OK`. -/
def Passes : Prop := ∃ version digest sig, verify lib host b key = some (.ok version digest sig)

/-- The records at a place verify. -/
def AreaPasses (tlvOff tot : Nat) : Prop :=
  ∃ version digest sig, verifyArea lib host b key (unpackVersion host b) tlvOff tot = some (.ok version digest sig)

variable {lib host b key} {tlvOff tot magic : Nat}

theorem verify_of_located (long : 28 ≤ b.length)
    (magic : unpackI host (slice b 0 4) = imageMagic.toNat) (located : locate host b = some (tlvOff, 0x6907, tot)) :
    verify lib host b key = verifyArea lib host b key (unpackVersion host b) tlvOff tot := by
  rw [verify, if_neg (by omega), if_neg (Decidable.not_not.mpr magic), located]
  rfl

theorem verify_eq_ok {version : Version} {digest sig : Option Bytes}
    (ok : verify lib host b key = some (.ok version digest sig)) :
    28 ≤ b.length ∧ unpackI host (slice b 0 4) = imageMagic.toNat ∧
      ∃ tlvOff tot, locate host b = some (tlvOff, 0x6907, tot) ∧
        verifyArea lib host b key (unpackVersion host b) tlvOff tot = some (.ok version digest sig) := by
  unfold verify at ok
  split at ok
  next => simp at ok
  next long =>
  split at ok
  next => simp at ok
  next magic =>
  split at ok
  next => simp at ok
  next tlvOff m tot located =>
    split at ok
    next => simp at ok
    next info =>
      rw [Decidable.not_not.mp info] at located
      exact ⟨by omega, Decidable.not_not.mp magic, tlvOff, tot, located, ok⟩

theorem locate_here (located : locate host b = some (tlvOff, magic, tot)) :
    unpackHH host (slice b tlvOff (tlvOff + 4)) = some (magic, tot) := by
  simp only [locate, Option.bind_eq_bind, Option.bind_eq_some_iff] at located
  obtain ⟨⟨magic₁, tot₁⟩, first, located⟩ := located
  split at located
  next =>
    simp only [Option.bind_eq_some_iff, Option.pure_def, Option.some.injEq, Prod.mk.injEq] at located
    obtain ⟨⟨magic₂, tot₂⟩, second, rfl, rfl, rfl⟩ := located
    exact second
  next =>
    obtain ⟨rfl, rfl, rfl⟩ := located
    exact first

/-- The bytes that the sizes are read from. -/
def SizeField (bodyEnd i : Nat) : Prop := 4 ≤ i ∧ (8 ≤ i ∧ i < 10 ∨ 12 ≤ i ∧ i < 16 ∨ bodyEnd ≤ i ∧ i < bodyEnd + 4)

theorem locate_set {i : Nat} (v : UInt8) (located : locate host b = some (tlvOff, magic, tot))
    (inside : i < tlvOff) (behindMagic : 4 ≤ i)
    (other : ¬SizeField (unpackH host (slice b 8 10) + unpackI host (slice b 12 16)) i) :
    locate host (b.set i v) = some (tlvOff, magic, tot) := by
  unfold SizeField at other
  simp only [locate, Option.bind_eq_bind, Option.bind_eq_some_iff] at located
  obtain ⟨⟨magic₁, tot₁⟩, first, located⟩ := located
  have sizes : slice (b.set i v) 8 10 = slice b 8 10 ∧ slice (b.set i v) 12 16 = slice b 12 16 :=
    ⟨slice_set v (by omega), slice_set v (by omega)⟩
  simp only [locate, sizes]
  rw [slice_set v (by omega), first]
  simp only [Option.bind_eq_bind, Option.bind_some]
  split at located
  next prot =>
    simp only [Option.bind_eq_some_iff, Option.pure_def, Option.some.injEq, Prod.mk.injEq] at located
    obtain ⟨⟨magic₂, tot₂⟩, second, rfl, rfl, rfl⟩ := located
    rw [if_pos prot, slice_set v (.inl inside), second]
    rfl
  next noProt =>
    rw [if_neg noProt]
    exact located

end Passes

/-! ### The round trip -/

/-- Hashes without collisions. -/
def CollisionFree (lib : Lib) : Prop :=
  ∀ sha sha' data data', lib.sha sha data = lib.sha sha' data' → sha = sha' ∧ data = data'

section RoundTrip

variable (lib : Lib) (host : Endian) (file : Bytes) (vkey : Option Key)

/-- The file verifies, and it does not if a byte in front of the unprotected TLVs is changed. -/
def RoundTrip (version : Version) (hash : Bytes) (tlvOff : Nat) : Prop :=
  verify lib host file vkey = some (.ok version (some hash) none) ∧
    ∀ i < tlvOff, ∀ v, v ≠ file.getD i 0 → ¬Passes lib host (file.set i v) vkey

/-- The magic of the TLV area stands at one place only, and no byte of it among the sizes of the header. -/
structure MagicOnlyAt (place : Nat) : Prop where
  header : ∀ p < 16, file.getD p 0 ≠ (host.order (put16 0x6907)).getD 0 0 ∧
    file.getD (p + 1) 0 ≠ (host.order (put16 0x6907)).getD 1 0
  elsewhere : ∀ p < file.length, 16 ≤ p → p ≠ place → file.getD p 0 ≠ (host.order (put16 0x6907)).getD 0 0 ∨
      file.getD (p + 1) 0 ≠ (host.order (put16 0x6907)).getD 1 0

instance (host : Endian) (file : Bytes) (place : Nat) : Decidable (MagicOnlyAt host file place) :=
  decidable_of_iff (_ ∧ _) ⟨fun ⟨header, elsewhere⟩ => ⟨header, elsewhere⟩, fun only => ⟨only.header, only.elsewhere⟩⟩

variable {lib host file vkey} {img : SourceImage} {args : CreateArgs} {em : Emitted} {hdr : ImageHeader}

theorem Describes.version {size : Nat} {payload : Bytes} (describes : Describes hdr img args size payload) :
    headerVersion hdr = img.version := by
  rw [headerVersion, describes.major, describes.minor, describes.revision, describes.build]

variable {version : Version} {i : Nat} {v : UInt8} {x : Bytes}

theorem verifyTlv_wrongDigest {isPure : Bool} {region value : Bytes} {digest : Option Bytes}
    {sha : Sha} (wrong : lib.sha sha region ≠ value) :
    ∃ result, verifyTlv lib vkey isPure version region sha.tlv.value value digest = some (.done result) ∧
      ∀ version digest sig, result ≠ .ok version digest sig := by
  have hashes : shaOfTlv sha.tlv.value = some sha := by cases sha <;> rfl
  simp only [verifyTlv, hashes, verifyShaTlv, wrong, if_false]
  split
  next => exact ⟨.keyMismatch, rfl, by simp⟩
  next => exact ⟨.invalidHash, rfl, by simp⟩

theorem Emitted.Laid.changed (laid : em.Laid lib img args hdr) (free : CollisionFree lib) (inFile : em.InFile file)
    (inside : i < em.region.length) (differs : v ≠ file.getD i 0) :
    ¬AreaPasses lib img.endian (file.set i v) vkey em.region.length em.tlv.length := by
  rintro ⟨version, digest, sig, ok⟩
  obtain ⟨rest, tlvs⟩ := laid.tlvs_head
  obtain ⟨-, extra, drop⟩ := laid.area inFile
  -- the first record is that of the digest, as before
  have first : (file.set i v).drop (em.region.length + 4) =
      Record.encode img.endian ⟨.named em.sha.tlv, lib.sha em.sha em.region⟩ ++ (encodeAll img.endian rest ++ extra) := by
    rw [List.drop_set_of_lt (by omega), drop, tlvs, encodeAll_cons, List.append_assoc]
  have region : (file.set i v).take em.region.length ≠ em.region := by
    rw [List.take_set, inFile.take]
    intro same
    apply differs
    have byte := congrArg (·.getD i 0) same
    simp only [List.getD_eq_getElem?_getD, List.getElem?_set_self inside, Option.getD_some] at byte
    have original : em.region.getD i 0 = file.getD i 0 := by
      conv_lhs => rw [← inFile.take]
      simp [List.getD_eq_getElem?_getD, inside]
    rw [byte, ← original, List.getD_eq_getElem?_getD]
  have digestLt : (lib.sha em.sha em.region).length < 65536 :=
    (laid.tlvsWritable ⟨.named em.sha.tlv, _⟩ (by simp [tlvs])).length_lt
  have more : em.region.length + 4 < em.region.length + em.tlv.length := by
    simp only [laid.tlv_eq, tlvs, encodeAll_cons, List.length_append, Endian.order_length, put16_length,
      Record.encode_length]
    omega
  simp only [verifyArea, Option.bind_eq_bind, Option.bind_eq_some_iff] at ok
  obtain ⟨isPure, -, ok⟩ := ok
  have wrong : lib.sha em.sha ((file.set i v).take em.region.length) ≠ lib.sha em.sha em.region :=
    fun equal => region (free _ _ _ _ equal).2
  obtain ⟨result, step, notOk⟩ := verifyTlv_wrongDigest wrong
  rw [verifyLoop_record digestLt first more step] at ok
  exact notOk _ _ _ (Option.some.inj ok)

theorem order_put32_unpackI (e : Endian) (length : x.length = 4) : e.order (put32 (unpackI e x)) = x := by
  have packed : put32 (le32 (e.order x) 0) = e.order x := by
    rw [← e.order_length] at length
    match e.order x, length with
    | [a, b, c, d], _ =>
      have := a.toNat_lt
      have := b.toNat_lt
      have := c.toNat_lt
      have := d.toNat_lt
      simp only [put32, put16, le32, le16, List.getD_cons_zero, List.getD_cons_succ, List.cons_append, List.nil_append,
        List.cons.injEq, and_true, ← UInt8.toNat_inj, UInt8.toNat_ofNat']
      omega
  rw [unpackI, packed, e.order_order]

theorem order_put16_unpackH (e : Endian) (length : x.length = 2) : e.order (put16 (unpackH e x)) = x := by
  have packed : put16 (le16 (e.order x) 0) = e.order x := by
    rw [← e.order_length] at length
    match e.order x, length with
    | [a, b], _ =>
      have := a.toNat_lt
      have := b.toNat_lt
      simp only [put16, le16, List.getD_cons_zero, List.getD_cons_succ, List.cons.injEq, and_true,
        ← UInt8.toNat_inj, UInt8.toNat_ofNat']
      omega
  rw [unpackH, packed, e.order_order]

theorem not_passes_magic (magic : unpackI host (slice file 0 4) = imageMagic.toNat)
    (lt : i < 4) (differs : v ≠ file.getD i 0) : ¬Passes lib host (file.set i v) vkey := by
  rintro ⟨version, digest, sig, ok⟩
  obtain ⟨long, magic', -⟩ := verify_eq_ok ok
  rw [List.length_set] at long
  have four : ∀ b : Bytes, 28 ≤ b.length → (slice b 0 4).length = 4 := fun b long => by
    simp [slice]
    omega
  have same : slice (file.set i v) 0 4 = slice file 0 4 := by
    rw [← order_put32_unpackI host (four (file.set i v) (by simpa using long)), magic', ← magic,
      order_put32_unpackI host (four file long)]
  apply differs
  have byte := congrArg (·.getD i 0) same
  have short : i < file.length := by omega
  simpa [slice, List.getD_eq_getElem?_getD, List.take_set, lt, short] using byte

theorem unpackHH_bytes {b : Bytes} {p magic tot : Nat} (read : unpackHH host (slice b p (p + 4)) = some (magic, tot)) :
    p + 4 ≤ b.length ∧ unpackH host (slice b (p + 2) (p + 4)) = tot ∧
      ∀ j < 4, b.getD (p + j) 0 = (host.order (put16 magic) ++ host.order (put16 tot)).getD j 0 := by
  unfold unpackHH at read
  split at read
  next four =>
    simp only [Option.some.injEq, Prod.mk.injEq] at read
    obtain ⟨first, second⟩ := read
    have long : p + 4 ≤ b.length := by
      rw [slice_add, List.length_take, List.length_drop] at four
      omega
    refine ⟨long, by rw [← second, slice, slice, List.drop_drop], fun j lt => ?_⟩
    rw [← first, ← second, order_put16_unpackH host (by simp [four]), order_put16_unpackH host (by simp [four]),
      List.take_append_drop, slice_add]
    simp [List.getD_eq_getElem?_getD, lt]
  next => simp at read

/-- In a file with one changed byte the magic stands at the same place, or it covers that byte. -/
theorem MagicOnlyAt.place_of_changed {place here tot : Nat} (only : MagicOnlyAt host file here)
    (read : unpackHH host (slice (file.set i v) place (place + 4)) = some (0x6907, tot)) :
    place = here ∨ 16 ≤ place ∧ (i = place ∨ i = place + 1) := by
  obtain ⟨fits, -, bytes⟩ := unpackHH_bytes read
  rw [List.length_set] at fits
  have kept : ∀ j < 2, place + j ≠ i → file.getD (place + j) 0 = (host.order (put16 0x6907)).getD j 0 := by
    intro j lt ne
    have byte := bytes j (by omega)
    rw [List.getD_eq_getElem?_getD, List.getElem?_set_ne (Ne.symm ne), ← List.getD_eq_getElem?_getD] at byte
    rw [byte, List.getD_eq_getElem?_getD, List.getElem?_append_left (by simpa using lt), List.getD_eq_getElem?_getD]
  by_contra! apart
  by_cases low : place < 16
  · -- one of the two bytes is not the changed one
    obtain ⟨notFirst, notSecond⟩ := only.header place low
    by_cases changed : place = i
    · exact notSecond (kept 1 (by decide) (by omega))
    · exact notFirst (kept 0 (by decide) changed)
  · obtain ⟨ne, ne'⟩ := apart.2 (by omega)
    rcases only.elsewhere place (by omega) (by omega) apart.1 with notFirst | notSecond
    · exact notFirst (kept 0 (by decide) ne.symm)
    · exact notSecond (kept 1 (by decide) ne'.symm)

/-- No header of the other area begins inside a header of the protected one that leads there. -/
theorem header_apart {inner tot : Nat} (lt : inner < 4) (stands : ∀ j < 4, inner + j < 4 →
    (host.order (put16 0x6907) ++ host.order (put16 tot)).getD j 0 =
      (host.order (put16 0x6908) ++ host.order (put16 inner)).getD (inner + j) 0) : False := by
  have first := stands 0 (by decide) lt
  have second := stands 1 (by decide)
  obtain rfl | rfl | rfl | rfl : inner = 0 ∨ inner = 1 ∨ inner = 2 ∨ inner = 3 := by omega
  all_goals cases host <;> simp [Endian.order, put16] at first second

/-- The header of the protected area, read as that of the other one, does not lead to a digest. -/
theorem Emitted.Laid.protChanged (laid : em.Laid lib img args hdr) (inFile : em.InFile file)
    (long : 32 ≤ (paddedPayload img args).length) (silent : ∀ r ∈ em.prots, ¬Decides vkey (r.typeByte img.endian))
    {place tot : Nat} (inside : i < em.region.length) (header : em.plain.length ≤ i ∧ i < em.plain.length + 4)
    (covered : i = place ∨ i = place + 1) (located : locate img.endian (file.set i v) = some (place, 0x6907, tot)) :
    ¬AreaPasses lib img.endian (file.set i v) vkey place tot := by
  have guarded : em.prots ≠ [] := by
    intro none
    rw [Emitted.region, laid.prot, areaBytes, if_pos none, List.append_nil] at inside
    omega
  obtain ⟨original, rest, drop⟩ := laid.protArea inFile guarded
  have behind : 32 ≤ i := by
    have length := laid.plain_length long
    rw [laid.describes.imgSize] at length
    omega
  obtain ⟨-, -, magicAt⟩ := unpackHH_bytes (locate_here located)
  simp only [locate, Option.bind_eq_bind, Option.bind_eq_some_iff] at located
  rw [slice_set (i := 8) v (.inr (by omega)), slice_set (i := 12) v (.inr (by omega)), laid.bodyEnd inFile long] at located
  obtain ⟨⟨magic, tot'⟩, read, located⟩ := located
  obtain ⟨-, size, bytes⟩ := unpackHH_bytes read
  split at located
  next isProt =>
    -- the area would begin inside of the header that leads to it
    simp only [Option.bind_eq_some_iff, Option.pure_def, Option.some.injEq, Prod.mk.injEq] at located
    obtain ⟨-, -, rfl, -⟩ := located
    obtain rfl : magic = 0x6908 := isProt
    have stands := fun j lt (inside : tot' + j < 4) =>
      (magicAt j lt).symm.trans (Nat.add_assoc .. ▸ bytes (tot' + j) inside)
    exact (header_apart (by omega) stands).elim
  next notProt =>
    simp only [Option.pure_def, Option.some.injEq, Prod.mk.injEq] at located
    obtain ⟨rfl, rfl, rfl⟩ := located
    rintro ⟨version, digest, sig, ok⟩
    simp only [verifyArea, Option.bind_eq_bind, Option.bind_eq_some_iff] at ok
    obtain ⟨isPure, -, ok⟩ := ok
    rw [slice_set v (.inl (by omega)), (unpackHH_bytes original).2.1] at size
    refine verifyLoop_undecided laid.protsWritable silent (?_ : _ = _ ++ rest) ?_ _ _ _ ok
    · rw [List.drop_set_of_lt (by omega), drop]
    · rw [← size, laid.prot, areaBytes, if_neg guarded]
      simp
      omega

/-- A change behind the magic of the header is noticed. -/
theorem Emitted.Laid.tampered (laid : em.Laid lib img args hdr) (free : CollisionFree lib) (inFile : em.InFile file)
    (long : 32 ≤ (paddedPayload img args).length) (only : MagicOnlyAt img.endian file em.region.length)
    (silent : ∀ r ∈ em.prots, ¬Decides vkey (r.typeByte img.endian)) {place tot : Nat} (inside : i < em.region.length)
    (behindMagic : 4 ≤ i) (differs : v ≠ file.getD i 0)
    (located : locate img.endian (file.set i v) = some (place, 0x6907, tot)) :
    ¬AreaPasses lib img.endian (file.set i v) vkey place tot := by
  have read := locate_here located
  by_cases here : place = em.region.length
  · -- the same area again, behind a changed region
    subst here
    rw [slice_set v (.inl inside), (laid.area inFile).1, Option.some.injEq, Prod.mk.injEq] at read
    rw [← read.2]
    exact laid.changed free inFile inside differs
  · by_cases size : SizeField em.plain.length i
    · obtain ⟨behind, covered⟩ := (only.place_of_changed read).resolve_left here
      unfold SizeField at size
      exact laid.protChanged inFile long silent inside (by omega) covered located
    · -- any other byte leaves the area where it is
      rw [← laid.bodyEnd inFile long] at size
      rw [locate_set v (laid.located inFile long) inside behindMagic size, Option.some.injEq, Prod.mk.injEq] at located
      exact absurd located.1.symm here

/-- Creating, saving and verifying an image whose TLV area can be told from the rest of the file. -/
theorem created_image_verifies_iff {out : Created} (free : CollisionFree lib) (created : create lib img args = some out)
    (plain : args.cipher = none) (saved : SavedAs out.image.toImage file) (emitted : emit lib img args = some em)
    (matching : Matching lib args em vkey) (long : 32 ≤ (paddedPayload img args).length)
    (only : MagicOnlyAt img.endian file em.region.length)
    (silent : ∀ r ∈ em.prots, ¬Decides vkey (r.typeByte img.endian)) :
    RoundTrip lib host file vkey img.version out.imageHash em.region.length ↔
      img.endian = host ∧ ¬(args.isPure = true ∧ vkey.isSome = true) := by
  obtain ⟨em', hdr, emitted', laid, payload, hash⟩ := create_eq_some created
  obtain rfl : em' = em := Option.some.inj (emitted'.symm.trans emitted)
  have inFile : em'.InFile file := by
    obtain ⟨extra, rfl⟩ := saved.starts
    refine ⟨extra, ?_⟩
    rw [payload, Emitted.region, storedPlain, plain]
    simp only [List.append_assoc]
  obtain ⟨rest, header⟩ := laid.header inFile
  obtain ⟨-, extra, drop⟩ := laid.area inFile
  have located := laid.located inFile long
  have full : 28 ≤ file.length := by simp [header]; omega
  obtain ⟨magic, -, -, version⟩ := headerBytes_read img.endian hdr rest
  rw [← header] at magic version
  rw [laid.describes.magic] at magic
  constructor
  · rintro ⟨ok, -⟩
    have order : img.endian = host := by
      by_contra foreign
      exact headerBytes_foreign foreign laid.describes.magic rest (header ▸ (verify_eq_ok ok).2.1)
    subst order
    refine ⟨rfl, fun both => ?_⟩
    obtain ⟨sig, pureOk⟩ := (verifyArea_created laid matching inFile.take drop _).2 both
    rw [verify_of_located full magic located, pureOk] at ok
    simp at ok
  · rintro ⟨rfl, notPure⟩
    constructor
    · rw [verify_of_located full magic located, version, laid.describes.version, hash]
      exact (verifyArea_created laid matching inFile.take drop _).1 notPure
    · intro i inside v differs
      by_cases inMagic : i < 4
      · exact not_passes_magic magic inMagic differs
      · rintro ⟨version, digest, sig, ok⟩
        obtain ⟨-, -, place, tot, located', areaOk⟩ := verify_eq_ok ok
        exact laid.tampered free inFile long only silent inside (by omega) differs located'
          ⟨version, digest, sig, areaOk⟩

end RoundTrip

/-! ### Two images -/

theorem plainLib_collisionFree : CollisionFree plainLib := by
  intro sha sha' data data' same
  simp only [plainLib, List.cons.injEq] at same
  refine ⟨?_, same.2⟩
  have tag := same.1
  revert tag
  cases sha <;> cases sha' <;> decide

def smallImage (endian : Endian) : SourceImage := { sampleImage endian [0x5a] with securityCounter := none }

def smallArgs : CreateArgs := { sampleArgs none with dependencies := none, customTlvs := none }

theorem small_created (endian : Endian) : (create plainLib (smallImage endian) smallArgs).isSome := by
  cases endian <;> decide

theorem small_emitted (endian : Endian) : (emit plainLib (smallImage endian) smallArgs).isSome := by
  cases endian <;> decide

def smallCreated (endian : Endian) : Created := (create plainLib (smallImage endian) smallArgs).get (small_created _)

def smallEmitted (endian : Endian) : Emitted := (emit plainLib (smallImage endian) smallArgs).get (small_emitted _)

/-- In the byte order of the machine it verifies. -/
theorem created_image_verifies_little :
    RoundTrip plainLib .little (smallCreated .little).image.payload none ⟨1, 2, 3, 4⟩ (smallCreated .little).imageHash
      (smallEmitted .little).region.length := by
  have created : create plainLib (smallImage .little) smallArgs = some (smallCreated .little) :=
    (Option.some_get _).symm
  have emitted : emit plainLib (smallImage .little) smallArgs = some (smallEmitted .little) := (Option.some_get _).symm
  have matching : Matching plainLib smallArgs (smallEmitted .little) none := rfl
  have unprotected : (smallEmitted .little).prots = [] := by decide
  exact (created_image_verifies_iff plainLib_collisionFree created rfl .unpadded emitted matching (by decide)
    (by decide) (by simp [unprotected])).mpr ⟨rfl, by simp⟩

/-- The header of an empty image, and behind it what a file with that header would have as its TLV area. -/
def emptyHeader : Bytes :=
  [0x3d, 0xb8, 0xf3, 0x96, 0, 0, 0, 0, 32, 0, 0, 0, 0, 0, 0, 0, 0, 0, 0, 0, 1, 2, 3, 0, 4, 0, 0, 0, 0, 0, 0, 0]

def embeddedArea : Bytes := [0x07, 0x69, 41, 0, 0x10, 0, 33, 0, 0x10] ++ emptyHeader

-- With such a body one changed byte of the image size makes another image that verifies.
example : (create plainLib { smallImage .little with payload := List.replicate 32 0 ++ embeddedArea } smallArgs).map
    (fun out => verify plainLib .little (out.image.payload.set 12 0) none) =
      some (some (.ok ⟨1, 2, 3, 4⟩ (some (0x10 :: emptyHeader)) none)) := by decide

/-- In the other one it does not. -/
theorem big_endian_image_not_verified :
    CollisionFree plainLib ∧ create plainLib (smallImage .big) smallArgs = some (smallCreated .big) ∧
      verify plainLib .little (smallCreated .big).image.payload none = some .invalidMagic := by
  refine ⟨plainLib_collisionFree, (Option.some_get _).symm, ?_⟩
  decide

end Adaboot.Imgtool
