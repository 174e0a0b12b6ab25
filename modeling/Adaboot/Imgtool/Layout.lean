import Adaboot.Imgtool.Create

/-!
# The layout of a created image

What `create` has written when it succeeds: a header with the fields of the image, the body, and the two TLV areas
with the records that were added.
-/

namespace Adaboot.Imgtool

/-! ### The header -/

def headerBytes (e : Endian) (hdr : ImageHeader) : Bytes :=
  e.order (put32 hdr.ihMagic.toNat) ++ e.order (put32 hdr.ihLoadAddr.toNat) ++
    e.order (put16 hdr.ihHdrSize.toNat) ++ e.order (put16 hdr.ihProtectTlvSize.toNat) ++
    e.order (put32 hdr.ihImgSize.toNat) ++ e.order (put32 hdr.ihFlags.toNat) ++ [hdr.ihVer.ivMajor] ++
    [hdr.ihVer.ivMinor] ++ e.order (put16 hdr.ihVer.ivRevision.toNat) ++
    e.order (put32 hdr.ihVer.ivBuildNum.toNat) ++ e.order (put32 0)

@[simp] theorem headerBytes_length (e : Endian) (hdr : ImageHeader) : (headerBytes e hdr).length = 32 := by
  simp [headerBytes]

theorem bytes_uint32 (n : UInt32) : n.toNat % 256 + 256 * (n.toNat / 256 % 256) +
    65536 * (n.toNat / 65536 % 256 + 256 * (n.toNat / 65536 / 256 % 256)) = n.toNat := by
  have := n.toNat_lt
  omega

theorem bytes_uint16 (n : UInt16) : n.toNat % 256 + 256 * (n.toNat / 256 % 256) = n.toNat := by
  have := n.toNat_lt
  omega

theorem decode_headerBytes (hdr : ImageHeader) : ImageHeader.decode (headerBytes .little hdr) = hdr := by
  simp [ImageHeader.decode, headerBytes, Endian.order, put32, put16, le32, le16, bytes_uint32, bytes_uint16]

/-- The header that `add_header` writes. -/
structure Describes (hdr : ImageHeader) (img : SourceImage) (args : CreateArgs) (protectedSize : Nat)
    (payload : Bytes) : Prop where
  magic : hdr.ihMagic = imageMagic
  hdrSize : hdr.ihHdrSize.toNat = img.headerSize
  protSize : hdr.ihProtectTlvSize.toNat = protectedSize
  imgSize : hdr.ihHdrSize.toNat + hdr.ihImgSize.toNat = payload.length
  flags : hdr.ihFlags.toNat = headerFlags img args
  major : hdr.ihVer.ivMajor.toNat = img.version.major
  minor : hdr.ihVer.ivMinor.toNat = img.version.minor
  revision : hdr.ihVer.ivRevision.toNat = img.version.revision
  build : hdr.ihVer.ivBuildNum.toNat = img.version.build

section Fields

variable {e : Endian} {n : Int} {data : Bytes}

theorem packB_uint8 (packed : packB n = some data) : ∃ m : UInt8, (m.toNat : Int) = n ∧ data = [m] := by
  obtain ⟨ge, lt, rfl⟩ := packB_eq_some packed
  have fits : n.toNat < 2 ^ 8 := by omega
  refine ⟨.ofNat n.toNat, ?_, rfl⟩
  rw [UInt8.toNat_ofNat_of_lt' fits]
  omega

theorem packH_uint16 (packed : packH e n = some data) :
    ∃ m : UInt16, (m.toNat : Int) = n ∧ data = e.order (put16 m.toNat) := by
  obtain ⟨ge, lt, rfl⟩ := packH_eq_some packed
  have fits : n.toNat < 2 ^ 16 := by omega
  refine ⟨.ofNat n.toNat, ?_, ?_⟩
  · rw [UInt16.toNat_ofNat_of_lt' fits]
    omega
  · rw [UInt16.toNat_ofNat_of_lt' fits]

theorem packI_uint32 (packed : packI e n = some data) :
    ∃ m : UInt32, (m.toNat : Int) = n ∧ data = e.order (put32 m.toNat) := by
  obtain ⟨ge, lt, rfl⟩ := packI_eq_some packed
  have fits : n.toNat < 2 ^ 32 := by omega
  refine ⟨.ofNat n.toNat, ?_, ?_⟩
  · rw [UInt32.toNat_ofNat_of_lt' fits]
    omega
  · rw [UInt32.toNat_ofNat_of_lt' fits]

end Fields

theorem header_eq_some {img : SourceImage} {args : CreateArgs} {protectedSize : Nat} {payload data : Bytes}
    (packed : header img args protectedSize payload = some data) :
    ∃ hdr, Describes hdr img args protectedSize payload ∧ data = headerBytes img.endian hdr := by
  simp only [header, Option.bind_eq_bind, Option.bind_eq_some_iff, Option.pure_def, Option.some.injEq] at packed
  obtain ⟨_, packedMagic, _, packedLoad, _, packedHdrSize, _, packedProtSize, _, packedImgSize, _, packedFlags, _,
    packedMajor, _, packedMinor, _, packedRevision, _, packedBuild, _, packedPad, rfl⟩ := packed
  obtain ⟨magic, magicEq, rfl⟩ := packI_uint32 packedMagic
  obtain ⟨load, -, rfl⟩ := packI_uint32 packedLoad
  obtain ⟨hdrSize, hdrSizeEq, rfl⟩ := packH_uint16 packedHdrSize
  obtain ⟨protSize, protSizeEq, rfl⟩ := packH_uint16 packedProtSize
  obtain ⟨imgSize, imgSizeEq, rfl⟩ := packI_uint32 packedImgSize
  obtain ⟨flags, flagsEq, rfl⟩ := packI_uint32 packedFlags
  obtain ⟨major, majorEq, rfl⟩ := packB_uint8 packedMajor
  obtain ⟨minor, minorEq, rfl⟩ := packB_uint8 packedMinor
  obtain ⟨revision, revisionEq, rfl⟩ := packH_uint16 packedRevision
  obtain ⟨build, buildEq, rfl⟩ := packI_uint32 packedBuild
  obtain ⟨_, _, rfl⟩ := packI_eq_some packedPad
  refine ⟨⟨magic, load, hdrSize, protSize, imgSize, flags, ⟨major, minor, revision, build⟩⟩, ?_, rfl⟩
  constructor
  case magic => exact UInt32.toNat_inj.mp (by simpa using magicEq)
  case imgSize => simp only; omega
  all_goals simp only; omega

/-! ### The size of the protected TLVs -/

section Protected

variable {lib : Lib} {img : SourceImage} {args : CreateArgs} {rs : List Record}

theorem secCntTlvs_size (added : secCntTlvs img = some rs) :
    recordsSize rs = if img.securityCounter.isSome then 4 + 4 else 0 := by
  unfold secCntTlvs at added
  cases counter : img.securityCounter with
  | none =>
    rw [counter, Option.some.injEq] at added
    simp [← added]
  | some n =>
    simp only [counter, Option.bind_eq_bind, Option.bind_eq_some_iff, Option.pure_def, Option.some.injEq] at added
    obtain ⟨payload, packed, rfl⟩ := added
    obtain ⟨_, _, rfl⟩ := packI_eq_some packed
    simp

theorem dependencyPayload_length {image : Int} {version : Version} {payload : Bytes}
    (packed : dependencyPayload img image version = some payload) : payload.length = 12 := by
  simp only [dependencyPayload, Option.bind_eq_bind, Option.bind_eq_some_iff, Option.pure_def,
    Option.some.injEq] at packed
  obtain ⟨_, image, _, major, _, minor, _, revision, _, build, rfl⟩ := packed
  obtain ⟨_, _, rfl⟩ := packB_eq_some image
  obtain ⟨_, _, rfl⟩ := packB_eq_some major
  obtain ⟨_, _, rfl⟩ := packB_eq_some minor
  obtain ⟨_, _, rfl⟩ := packH_eq_some revision
  obtain ⟨_, _, rfl⟩ := packI_eq_some build
  simp

theorem dependencyRecords_size {images : List Int} {versions : List Version}
    (added : dependencyRecords img images versions = some rs) : recordsSize rs = images.length * 16 := by
  induction images generalizing versions rs with
  | nil =>
    rw [dependencyRecords, Option.some.injEq] at added
    simp [← added]
  | cons image images ih =>
    cases versions with
    | nil => simp [dependencyRecords] at added
    | cons version versions =>
      simp only [dependencyRecords, Option.bind_eq_bind, Option.bind_eq_some_iff, Option.pure_def,
        Option.some.injEq] at added
      obtain ⟨payload, packed, rest, others, rfl⟩ := added
      rw [recordsSize_cons, dependencyPayload_length packed, ih others, List.length_cons]
      omega

theorem dependencyTlvs_size (added : dependencyTlvs img args = some rs) :
    recordsSize rs = args.dependencies.elim 0 fun deps => deps.images.length * 16 := by
  unfold dependencyTlvs at added
  cases dependencies : args.dependencies with
  | none =>
    rw [dependencies, Option.some.injEq] at added
    simp [← added]
  | some deps =>
    rw [dependencies] at added
    exact dependencyRecords_size added

theorem uuidTlvs_size (added : uuidTlvs lib img = some rs) :
    recordsSize rs = (if img.vid.isSome then 4 + 16 else 0) + if img.cid.isSome then 4 + 16 else 0 := by
  unfold uuidTlvs at added
  cases vid : img.vid <;> cases cid : img.cid <;>
    simp only [vid, cid, Option.bind_eq_bind, Option.bind_eq_some_iff, Option.pure_def, Option.some.injEq] at added
  case none.none => simp [← added]
  case none.some =>
    obtain ⟨_, _, rfl⟩ := added
    simp
  case some.none =>
    obtain ⟨_, _, rfl⟩ := added
    simp
  case some.some =>
    obtain ⟨_, _, _, _, rfl⟩ := added
    simp

theorem recordsSize_map {α : Type} (kvs : List (α × Bytes)) (kind : α → Kind) :
    recordsSize (kvs.map fun kv => ⟨kind kv.1, kv.2⟩) = (kvs.map fun kv => 4 + kv.2.length).sum := by
  rw [recordsSize, List.map_map]
  rfl

theorem protectedTlvs_size {record : Option Bytes} {compression : List (TlvValue × Bytes)}
    (added : protectedTlvs lib img args record compression = some rs) :
    protectedTlvSize img args record compression = if recordsSize rs ≠ 0 then recordsSize rs + 4 else 0 := by
  simp only [protectedTlvs, Option.bind_eq_bind, Option.bind_eq_some_iff, Option.pure_def, Option.some.injEq] at added
  obtain ⟨counter, counterAdded, deps, depsAdded, uuids, uuidsAdded, rfl⟩ := added
  have boot : recordsSize (record.toList.map fun record => ⟨.named .bootRecord, record⟩) =
      record.elim 0 fun record => 4 + record.length := by
    cases record <;> simp
  -- the same summands in another order
  have same : ∀ m n : Nat, m = n → (if m ≠ 0 then m + 4 else 0) = if n ≠ 0 then n + 4 else 0 := fun m n eq => by rw [eq]
  apply same
  simp only [recordsSize_append, recordsSize_map, boot, secCntTlvs_size counterAdded,
    dependencyTlvs_size depsAdded, uuidTlvs_size uuidsAdded]
  omega

end Protected

/-! ### The whole image -/

/-- The parts of an image that was created, and the header they start with. -/
structure Emitted.Laid (em : Emitted) (lib : Lib) (img : SourceImage) (args : CreateArgs) (hdr : ImageHeader) :
    Prop where
  sha : keyAndUserShaToAlgAndTlv ((args.key.or args.pubKey).map Key.type) args.userSha args.isPure = some em.sha
  describes : Describes hdr img args em.prot.length (paddedPayload img args)
  plain : em.plain = headerBytes img.endian hdr ++ (paddedPayload img args).drop 32
  protsWritable : ∀ r ∈ em.prots, r.Writable
  prot : em.prot = areaBytes img.endian 0x6908 em.prots
  tlvsWritable : ∀ r ∈ em.tlvs, r.Writable
  tlv : em.tlv = areaBytes img.endian 0x6907 em.tlvs
  tlv_length : em.tlv.length < 65536
  tlvs : unprotectedTlvs lib args em.sha em.region = some em.tlvs

section Emitted

variable {lib : Lib} {img : SourceImage} {args : CreateArgs} {em : Emitted} {hdr : ImageHeader}

theorem emit_eq_some (emitted : emit lib img args = some em) : ∃ hdr, em.Laid lib img args hdr := by
  simp only [emit, Option.bind_eq_bind, Option.bind_eq_some_iff, Option.pure_def, Option.some.injEq] at emitted
  obtain ⟨sha, chosen, record, booted, compression, compressed, plain, installed, prots, added, t, filled, prot, got,
    tlvs, unprotected, t', filled', tlv, got', rfl⟩ := emitted
  obtain ⟨protsWritable, protEq, _⟩ := Tlv.get_eq_some filled got
  obtain ⟨tlvsWritable, tlvEq, tlv_length⟩ := Tlv.get_eq_some filled' got'
  have size : protectedTlvSize img args record compression = prot.length := by
    rw [protEq, areaBytes_length]
    unfold protectedArea at added
    split at added
    next => exact protectedTlvs_size added
    next none =>
      cases added
      simpa using none
  simp only [addHeader, Option.bind_eq_bind, Option.bind_eq_some_iff, Option.pure_def, Option.some.injEq] at installed
  obtain ⟨head, packed, rfl⟩ := installed
  obtain ⟨hdr, describes, rfl⟩ := header_eq_some packed
  refine ⟨hdr, chosen, size ▸ describes, ?_, protsWritable, protEq, tlvsWritable, tlvEq, tlv_length, unprotected⟩
  rw [headerBytes_length]

variable (laid : em.Laid lib img args hdr)
include laid

theorem Emitted.Laid.tlvs_head :
    ∃ rest, em.tlvs = ⟨.named em.sha.tlv, lib.sha em.sha em.region⟩ :: rest := by
  have tlvs := laid.tlvs
  simp only [unprotectedTlvs, Option.bind_eq_bind, Option.bind_eq_some_iff, Option.pure_def, Option.some.injEq] at tlvs
  obtain ⟨signed, -, eq⟩ := tlvs
  exact ⟨_, eq.symm⟩

theorem Emitted.Laid.tlv_eq : em.tlv = img.endian.order (put16 0x6907) ++
      img.endian.order (put16 (4 + (encodeAll img.endian em.tlvs).length)) ++ encodeAll img.endian em.tlvs := by
  obtain ⟨rest, tlvs⟩ := laid.tlvs_head
  rw [laid.tlv, areaBytes, if_neg (by simp [tlvs])]

theorem Emitted.Laid.plain_length (long : 32 ≤ (paddedPayload img args).length) :
    em.plain.length = hdr.ihHdrSize.toNat + hdr.ihImgSize.toNat := by
  rw [laid.describes.imgSize, laid.plain, List.length_append, headerBytes_length, List.length_drop]
  omega

end Emitted

end Adaboot.Imgtool
