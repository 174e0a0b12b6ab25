import Adaboot.Imgtool.Verify

/-!
# Created images and `verify`

`verify` accepts a created image if it has the byte order of the machine and no pure signature. A changed byte in
front of the TLV area is noticed, unless it leads to other bytes that verify.
-/

namespace Adaboot.Imgtool

/-! ### Matching keys -/

def KeyType.publicHalf : KeyType → KeyType
  | ecdsa384p1 => ecdsa384p1Public
  | ecdsa256p1 => ecdsa256p1Public
  | rsa bits3072 => rsaPublic bits3072
  | ed25519 => ed25519Public
  | x25519 => x25519Public
  | type => type

/-- The key is one of the class or the public half of one. -/
def Key.Of (k : Key) (type : KeyType) : Prop := k.type = type ∨ k.type = type.publicHalf

/-- The key to verify an image with: that of its signature, if it has one. -/
def Matching (lib : Lib) (args : CreateArgs) (em : Emitted) (vkey : Option Key) : Prop :=
  match signature args em.region (args.message lib em.sha em.region) with
  | some (some (type, sig)) => ∃ k, vkey = some k ∧ k.Of type ∧
      k.verify sig (if type.verifiesPayload then em.region else args.message lib em.sha em.region) = true
  | _ => vkey = none

section Keys

variable {k : Key} {type : KeyType}

theorem Key.Of.sigTlv (of : k.Of type) : k.type.sigTlv = type.sigTlv := by
  rcases of with eq | eq <;> rw [eq]
  cases type <;> rfl

theorem Key.Of.verifiesPayload (of : k.Of type) : k.type.verifiesPayload = type.verifiesPayload := by
  rcases of with eq | eq <;> rw [eq]
  cases type <;> rfl

variable {userSha : Option Sha} {sha : Sha} {allowed : List Sha}

theorem chosen_allowed {isPure : Bool}
    (chosen : keyAndUserShaToAlgAndTlv (some type) userSha isPure = some sha) :
    ∃ allowed, type.allowedKeySha = some allowed ∧ sha ∈ allowed := by
  unfold keyAndUserShaToAlgAndTlv at chosen
  cases isPure with
  | true =>
    -- pure signatures are for one class only
    cases type <;> simp [KeyType.allowedPureKeySha] at chosen
    subst chosen
    exact ⟨_, rfl, by decide⟩
  | false =>
    simp only [Bool.false_eq_true, if_false] at chosen
    cases allows : type.allowedKeySha with
    | none => simp [allows] at chosen
    | some allowed =>
      rw [allows] at chosen
      refine ⟨allowed, rfl, ?_⟩
      cases userSha with
      | none => exact List.mem_of_mem_head? chosen
      | some sha' =>
        simp only at chosen
        split at chosen
        next mem =>
          rw [Option.some.injEq] at chosen
          exact chosen ▸ mem
        next => simp at chosen

theorem KeyType.allowed_publicHalf (signs : type.sigTlv.isSome)
    (allows : type.allowedKeySha = some allowed) (mem : sha ∈ allowed) :
    ∃ allowed', type.publicHalf.allowedKeySha = some allowed' ∧ sha ∈ allowed' := by
  cases type with
  | ecdsa256p1 =>
    -- the public half allows one hash more
    rw [KeyType.allowedKeySha, Option.some.injEq] at allows
    subst allows
    exact ⟨_, rfl, List.mem_cons.mpr (.inl (List.mem_singleton.mp mem))⟩
  | x25519 => simp [KeyType.sigTlv] at signs
  | x25519Public => simp [KeyType.sigTlv] at signs
  | _ => exact ⟨allowed, allows, mem⟩

theorem Key.Of.matches (of : k.Of type) (signs : type.sigTlv.isSome)
    (allows : type.allowedKeySha = some allowed) (mem : sha ∈ allowed) : tlvMatchesKeyType sha (some k) = true := by
  have half : ∃ allowed', k.type.allowedKeySha = some allowed' ∧ sha ∈ allowed' := by
    rcases of with eq | eq
    · exact ⟨allowed, eq ▸ allows, mem⟩
    · rw [eq]
      exact KeyType.allowed_publicHalf signs allows mem
  obtain ⟨allowed', allows', member'⟩ := half
  simp [tlvMatchesKeyType, keyAndUserShaToAlgAndTlv, allows', member']

theorem pure_ed25519 (chosen : keyAndUserShaToAlgAndTlv (some type) userSha true = some sha) : type = .ed25519 := by
  unfold keyAndUserShaToAlgAndTlv at chosen
  cases type <;> simp [KeyType.allowedPureKeySha] at chosen
  rfl

end Keys

/-! ### The records of a created image -/

section Records

variable {lib : Lib} {args : CreateArgs} {sha : Sha} {region message : Bytes} {rs : List Record}

theorem keyTlv_eq_some {r : Record} (added : keyTlv lib args sha = some r) :
    r.kind = .named .keyhash ∨ r.kind = .named .pubkey := by
  unfold keyTlv at added
  split at added
  next =>
    rw [Option.map_eq_some_iff] at added
    obtain ⟨pub, -, rfl⟩ := added
    exact .inr rfl
  next =>
    rw [Option.some.injEq] at added
    exact .inl (added ▸ rfl)

theorem signatureTlvs_eq_some (added : signatureTlvs lib args sha region message = some rs) :
    signature args region message = some none ∧ rs = [] ∨
      ∃ type sig r tlv, signature args region message = some (some (type, sig)) ∧ type.sigTlv = some tlv ∧
        (r.kind = .named .keyhash ∨ r.kind = .named .pubkey) ∧ rs = [r, ⟨.named tlv, sig⟩] := by
  simp only [signatureTlvs, Option.bind_eq_bind, Option.bind_eq_some_iff] at added
  obtain ⟨_ | ⟨type, sig⟩, signed, added⟩ := added
  · simp only [Option.pure_def, Option.some.injEq] at added
    exact .inl ⟨signed, added.symm⟩
  · simp only [Option.bind_eq_some_iff, Option.pure_def, Option.some.injEq] at added
    obtain ⟨r, named, tlv, known, rfl⟩ := added
    exact .inr ⟨type, sig, r, tlv, signed, known, keyTlv_eq_some named, rfl⟩

variable {type : KeyType} {tlvs : List Record}

theorem signature_type {sig : Bytes}
    (signed : signature args region message = some (some (type, sig))) :
    (args.key.or args.pubKey).map Key.type = some type := by
  unfold signature at signed
  cases key : args.key <;> cases fixed : args.fixedSig <;> simp only [key, fixed] at signed
  case none.none => simp at signed
  case none.some =>
    simp only [Option.map_eq_some_iff, Option.some.injEq, Prod.mk.injEq] at signed
    obtain ⟨pubKey, given, rfl, -⟩ := signed
    simp [given]
  case some.none =>
    split_ifs at signed <;> simp only [Option.some.injEq, Prod.mk.injEq] at signed
    · simp [signed.1]
    · simp [signed.1]
  case some.some => simp at signed

theorem sigTlv_ne {tlv v : TlvValue} (known : type.sigTlv = some tlv)
    (other : v = .sigPure ∨ v = .keyhash ∨ v = .pubkey) : v.value ≠ tlv.value ∧ tlv ≠ .sigPure ∧ shaOfTlv v.value = none := by
  cases type <;> simp only [KeyType.sigTlv, Option.some.injEq, reduceCtorEq] at known <;> subst known <;>
    rcases other with rfl | rfl | rfl <;> (try split) <;> decide

variable (added : unprotectedTlvs lib args sha region = some tlvs)
include added

/-- The records that are added to `tlv`: the digest, the mark of a pure signature, key and signature, and
the wrapped key. -/
theorem unprotectedTlvs_eq_some :
    ∃ signed, signatureTlvs lib args sha region (args.message lib sha region) = some signed ∧
      tlvs = ⟨.named sha.tlv, lib.sha sha region⟩ :: ((if args.isPure then [⟨.named .sigPure, [1]⟩] else []) ++
        (signed ++ encTlvs args)) := by
  simp only [unprotectedTlvs, Option.bind_eq_bind, Option.bind_eq_some_iff, Option.pure_def, Option.some.injEq] at added
  obtain ⟨signed, signs, rfl⟩ := added
  exact ⟨signed, signs, by rw [← List.append_assoc]; rfl⟩

theorem unprotectedTlvs_named :
    (∀ r ∈ tlvs, ∃ v, r.kind = .named v) ∧ (tlvs.any fun r => r.kind = .named .sigPure) = args.isPure := by
  obtain ⟨signed, signs, rfl⟩ := unprotectedTlvs_eq_some added
  have signedNamed : ∀ r ∈ signed, ∃ v, r.kind = .named v ∧ v ≠ .sigPure := by
    intro r mem
    rcases signatureTlvs_eq_some signs with ⟨-, rfl⟩ | ⟨type, sig, r', tlv, -, known, key, rfl⟩
    · simp at mem
    · rcases List.mem_pair.mp mem with rfl | rfl
      · rcases key with kind | kind
        · exact ⟨_, kind, by decide⟩
        · exact ⟨_, kind, by decide⟩
      · exact ⟨tlv, rfl, (sigTlv_ne known (.inl rfl)).2.1⟩
  have encNamed : ∀ r ∈ encTlvs args, ∃ v, r.kind = .named v ∧ v ≠ .sigPure := by
    intro r mem
    unfold encTlvs at mem
    split at mem
    next => simp at mem
    next => split at mem <;> rw [List.mem_singleton] at mem <;> subst mem <;>
        exact ⟨_, rfl, by first | decide | split <;> decide⟩
  have shaNamed : sha.tlv ≠ .sigPure := by cases sha <;> decide
  have others : ∀ r ∈ signed ++ encTlvs args, ∃ v, r.kind = .named v ∧ v ≠ .sigPure := by
    intro r mem
    rcases List.mem_append.mp mem with signing | wrapping
    · exact signedNamed r signing
    · exact encNamed r wrapping
  constructor
  · intro r mem
    rcases List.mem_cons.mp mem with rfl | mem
    · exact ⟨_, rfl⟩
    · rcases List.mem_append.mp mem with mark | other
      · split at mark
        next => exact ⟨.sigPure, List.mem_singleton.mp mark ▸ rfl⟩
        next => simp at mark
      · obtain ⟨v, kind, -⟩ := others r other
        exact ⟨v, kind⟩
  · have none : ((signed ++ encTlvs args).any fun r => r.kind = .named .sigPure) = false := by
      rw [List.any_eq_false]
      intro r mem
      obtain ⟨v, kind, ne⟩ := others r mem
      simp [kind, ne]
    rw [List.any_cons, List.any_append, none]
    cases args.isPure <;> simp [shaNamed]

end Records

/-! ### The records of a created image in `verify` -/

section Accepted

variable {lib : Lib} {img : SourceImage} {args : CreateArgs} {em : Emitted} {hdr : ImageHeader} {vkey : Option Key}
  {k : Key} {type : KeyType} {isPure : Bool} {version : Version} {region : Bytes} {digest : Option Bytes}

theorem verifyTlv_sha {sha : Sha} (allowed : tlvMatchesKeyType sha vkey = true) :
    verifyTlv lib vkey isPure version region sha.tlv.value (lib.sha sha region) digest =
      some (if vkey.isNone then .done (.ok version (some (lib.sha sha region)) none)
        else .next (some (lib.sha sha region))) := by
  have hashes : shaOfTlv sha.tlv.value = some sha := by cases sha <;> rfl
  simp only [verifyTlv, hashes, verifyShaTlv, allowed, Bool.not_true, Bool.false_eq_true, if_false, if_true]

variable {v tlv : TlvValue} {sig b rest : Bytes} {host : Endian} {stop fuel off : Nat}

theorem verifyTlv_other {value : Bytes} (known : k.type.sigTlv = some tlv)
    (other : v = .sigPure ∨ v = .keyhash ∨ v = .pubkey) :
    verifyTlv lib (some k) isPure version region v.value value digest = some (.next digest) := by
  obtain ⟨ne, -, noHash⟩ := sigTlv_ne known other
  have notPure : v.value ≠ TlvValue.ed25519.value := by rcases other with rfl | rfl | rfl <;> decide
  simp only [verifyTlv, noHash, verifySigTlv, known, ne, notPure, if_false]
  cases isPure <;> rfl

theorem verifyTlv_signature {d : Bytes} (known : k.type.sigTlv = some tlv)
    (valid : k.verify sig (if k.type.verifiesPayload then region else d) = true) :
    verifyTlv lib (some k) false version region tlv.value sig (some d) = some (.done (.ok version (some d) none)) := by
  have noHash : shaOfTlv tlv.value = none := by
    cases type : k.type <;> rw [type] at known <;> simp only [KeyType.sigTlv, Option.some.injEq, reduceCtorEq] at known <;>
      subst known <;> (try split) <;> decide
  simp only [verifyTlv, noHash, verifySigTlv, known, if_true, Bool.false_eq_true, if_false]
  split at valid
  next payload => rw [if_pos payload, if_pos valid]
  next digest => rw [if_neg digest, if_pos valid]

theorem verifyTlv_pure (of : k.Of .ed25519) (valid : k.verify sig region = true) :
    verifyTlv lib (some k) true version region TlvValue.ed25519.value sig digest =
      some (.done (.ok version none (some sig))) := by
  have works : k.type.verifiesDigest = true := by rcases of with eq | eq <;> rw [eq] <;> rfl
  have noHash : shaOfTlv TlvValue.ed25519.value = none := by decide
  simp only [verifyTlv, noHash, verifySigTlv, works, valid, if_true, Bool.not_true, Bool.false_eq_true, if_false]

theorem length_le_encodeAll (e : Endian) (rs : List Record) : 4 * rs.length ≤ (encodeAll e rs).length := by
  induction rs with
  | nil => simp
  | cons r rs ih =>
    simp only [List.length_cons, encodeAll_cons, List.length_append, Record.encode_length]
    omega

theorem verifyLoop_next {payload : Bytes}
    {digest' : Option Bytes} (lt : payload.length < 65536)
    (here : b.drop off = Record.encode host ⟨.named v, payload⟩ ++ rest) (more : off < stop)
    (tlv : verifyTlv lib vkey isPure version region v.value payload digest = some (.next digest')) :
    verifyLoop lib host b vkey isPure version region stop (fuel + 1) off digest =
        verifyLoop lib host b vkey isPure version region stop fuel (off + 4 + payload.length) digest' ∧
      b.drop (off + 4 + payload.length) = rest :=
  ⟨verifyLoop_record lt here more tlv, (unpackBBH_record lt here).2.2⟩

theorem verifyLoop_signed {r : Record}
    {result : VerifyResult} (known : k.type.sigTlv = some tlv)
    (named : r.kind = .named .keyhash ∨ r.kind = .named .pubkey) (lt : r.payload.length < 65536)
    (sigLt : sig.length < 65536) (here : b.drop off = r.encode host ++ (Record.encode host ⟨.named tlv, sig⟩ ++ rest))
    (more : off + 4 + r.payload.length < stop)
    (done : verifyTlv lib (some k) isPure version region tlv.value sig digest = some (.done result)) :
    verifyLoop lib host b (some k) isPure version region stop (fuel + 2) off digest = some result := by
  obtain ⟨kind, payload⟩ := r
  obtain ⟨v, other, rfl⟩ : ∃ v, (v = .sigPure ∨ v = .keyhash ∨ v = .pubkey) ∧ kind = .named v := by
    rcases named with kind | kind
    · exact ⟨.keyhash, .inr (.inl rfl), kind⟩
    · exact ⟨.pubkey, .inr (.inr rfl), kind⟩
  have inside : off < stop := by simp only at more; omega
  obtain ⟨step, behind⟩ := verifyLoop_next lt here inside (verifyTlv_other known other)
  rw [step]
  exact verifyLoop_record sigLt behind more done

theorem verifyArea_created (laid : em.Laid lib img args hdr) (matching : Matching lib args em vkey)
    (starts : b.take em.region.length = em.region)
    (here : b.drop (em.region.length + 4) = encodeAll img.endian em.tlvs ++ rest) (version : Version) :
    (¬(args.isPure = true ∧ vkey.isSome = true) →
        verifyArea lib img.endian b vkey version em.region.length em.tlv.length =
          some (.ok version (some (lib.sha em.sha em.region)) none)) ∧ (args.isPure = true ∧ vkey.isSome = true →
        ∃ sig, verifyArea lib img.endian b vkey version em.region.length em.tlv.length =
          some (.ok version none (some sig))) := by
  obtain ⟨named, pure⟩ := unprotectedTlvs_named laid.tlvs
  obtain ⟨signed, signs, tlvs⟩ := unprotectedTlvs_eq_some laid.tlvs
  have writable := laid.tlvsWritable
  have stop : em.tlv.length = 4 + (encodeAll img.endian em.tlvs).length := by
    simp [laid.tlv_eq]
    omega
  have pos : 4 * em.tlvs.length ≤ (encodeAll img.endian em.tlvs).length := length_le_encodeAll ..
  have many : 1 ≤ em.tlvs.length := by simp [tlvs]
  have size : em.region.length + 4 + (encodeAll img.endian em.tlvs).length ≤ b.length := by
    have length := congrArg List.length here
    rw [List.length_drop, List.length_append] at length
    omega
  have scan : scanPure img.endian b (em.region.length + em.tlv.length) (b.length + 1) (em.region.length + 4) =
      some args.isPure := by
    rw [scanPure_eq named writable here (by omega) (by omega), pure]
  obtain ⟨fuel, rounds⟩ : ∃ n, b.length + 1 = n + 4 := ⟨b.length - 3, by omega⟩
  have area : verifyArea lib img.endian b vkey version em.region.length em.tlv.length =
      verifyLoop lib img.endian b vkey args.isPure version em.region (em.region.length + em.tlv.length) (fuel + 4)
        (em.region.length + 4) none := by
    rw [verifyArea, scan, starts, rounds]
    rfl
  rw [area]
  have digestLt : (lib.sha em.sha em.region).length < 65536 :=
    (writable ⟨.named em.sha.tlv, _⟩ (by simp [tlvs])).length_lt
  have first := here
  rw [tlvs, encodeAll_cons, List.append_assoc] at first
  have more : em.region.length + 4 < em.region.length + em.tlv.length := by omega
  cases vkey with
  | none =>
    have keyed : tlvMatchesKeyType em.sha none = true := rfl
    refine ⟨fun _ => ?_, fun both => by simp at both⟩
    rw [verifyLoop_record digestLt first more (verifyTlv_sha keyed)]
    rfl
  | some k =>
    -- the image is signed, and the key matches
    obtain ⟨type, sig, r, tlv, signature, known, keyNamed, rfl⟩ :=
      (signatureTlvs_eq_some signs).resolve_left fun unsigned => by simp [Matching, unsigned.1] at matching
    simp only [Matching, signature, Option.some.injEq] at matching
    obtain ⟨k', rfl, of, valid⟩ := matching
    have chosen := laid.sha
    rw [signature_type signature] at chosen
    obtain ⟨allowed, allows, mem⟩ := chosen_allowed chosen
    have keyed := of.matches (by simp [known]) allows mem
    have knownK : k.type.sigTlv = some tlv := of.sigTlv.trans known
    have keyLt : r.payload.length < 65536 := (writable r (by simp [tlvs])).length_lt
    have sigLt : sig.length < 65536 := (writable ⟨.named tlv, sig⟩ (by simp [tlvs])).length_lt
    obtain ⟨step, behind⟩ := verifyLoop_next digestLt first more (verifyTlv_sha keyed)
    have length := congrArg (fun rs => (encodeAll img.endian rs).length) tlvs
    rw [step]
    cases pureArgs : args.isPure with
    | false =>
      refine ⟨fun _ => ?_, fun both => by simp at both⟩
      simp only [pureArgs, Bool.false_eq_true, if_false, List.nil_append, List.cons_append, encodeAll_cons,
        List.append_assoc, List.length_append, Record.encode_length] at behind length
      apply verifyLoop_signed knownK keyNamed keyLt sigLt behind (by omega)
      apply verifyTlv_signature knownK
      simpa [of.verifiesPayload, CreateArgs.message, pureArgs] using valid
    | true =>
      refine ⟨fun neither => by simp at neither, fun _ => ⟨sig, ?_⟩⟩
      rw [pureArgs] at chosen
      obtain rfl := pure_ed25519 chosen
      cases known
      simp only [pureArgs, if_true, List.nil_append, List.cons_append, encodeAll_cons, List.append_assoc,
        List.length_append, Record.encode_length, List.length_singleton] at behind length
      have markLt : List.length [(1 : UInt8)] < 65536 := by decide
      have mark : em.region.length + 4 + 4 + (lib.sha em.sha em.region).length <
          em.region.length + em.tlv.length := by omega
      have behind' := (unpackBBH_record markLt behind).2.2
      rw [verifyLoop_record markLt behind mark (verifyTlv_other knownK (.inl rfl))]
      apply verifyLoop_signed knownK keyNamed keyLt sigLt behind' (by simp only [List.length_singleton]; omega)
      apply verifyTlv_pure of
      simpa [KeyType.verifiesPayload, CreateArgs.message, pureArgs] using valid

end Accepted

end Adaboot.Imgtool
