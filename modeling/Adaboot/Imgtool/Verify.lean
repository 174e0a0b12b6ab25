import Adaboot.Imgtool.Loaded
import Adaboot.Imgtool.Pad

/-!
# Verifying an image

`Image.verify` takes the sizes from the header, in the byte order of the machine, and goes through the records behind
them. An exception is `none`.
-/

namespace Adaboot.Imgtool

/-- `b[i:j]`. -/
def slice (b : Bytes) (i j : Nat) : Bytes := (b.take j).drop i

/-- `VerifyResult` with the values that are returned along. -/
inductive VerifyResult where
  | ok (version : Version) (digest : Option Bytes) (signature : Option Bytes)
  | invalidMagic
  | invalidTlvInfoMagic
  | invalidHash
  | invalidSignature
  | keyMismatch
deriving DecidableEq

/-- `is_sha_tlv`, with the hash. -/
def shaOfTlv (type : Nat) : Option Sha :=
  if type = TlvValue.sha256.value then some .sha256
  else if type = TlvValue.sha384.value then some .sha384
  else if type = TlvValue.sha512.value then some .sha512
  else none

def tlvMatchesKeyType (sha : Sha) (key : Option Key) : Bool :=
  (keyAndUserShaToAlgAndTlv (key.map Key.type) (some sha) false).isSome

/-- Format `HH`. Fewer than four bytes raise `struct.error`, here and below. -/
def unpackHH (host : Endian) (data : Bytes) : Option (Nat × Nat) :=
  if data.length = 4 then some (unpackH host (data.take 2), unpackH host (data.drop 2)) else none

/-- Format `BBH`, without the second byte. -/
def unpackBBH (host : Endian) (data : Bytes) : Option (Nat × Nat) :=
  if data.length = 4 then some ((data.getD 0 0).toNat, unpackH host (data.drop 2)) else none

/-- The byte that `BBH` takes for the type of a record. -/
def Record.typeByte (host : Endian) (r : Record) : Nat := ((r.kind.bytes host).getD 0 0).toNat

theorem Record.typeByte_named {r : Record} {v : TlvValue} (host : Endian) (named : r.kind = .named v) :
    r.typeByte host = v.value := by
  simp [typeByte, named, Kind.bytes, Nat.mod_eq_of_lt v.value_lt]

section Verify

variable (lib : Lib) (host : Endian) (b : Bytes) (key : Option Key)

def locate : Option (Nat × Nat × Nat) := do
  let tlvOff := unpackH host (slice b 8 10) + unpackI host (slice b 12 16)
  let (magic, tot) ← unpackHH host (slice b tlvOff (tlvOff + 4))
  if magic = 0x6908 then
    let (magic, tot') ← unpackHH host (slice b (tlvOff + tot) (tlvOff + tot + 4))
    pure (tlvOff + tot, magic, tot')
  else pure (tlvOff, magic, tot)

/-- The first loop: is there a record `SIG_PURE`? -/
def scanPure (stop : Nat) : Nat → Nat → Option Bool
  | 0, _ => none
  | fuel + 1, off =>
    if off < stop then do
      let (type, len) ← unpackBBH host (slice b off (off + 4))
      if type = TlvValue.sigPure.value then pure true else scanPure stop fuel (off + 4 + len)
    else some false

/-- A record ends the second loop, or it goes on with a digest. -/
inductive VerifyStep where
  | done (result : VerifyResult)
  | next (digest : Option Bytes)

def verifyShaTlv (version : Version) (region : Bytes) (sha : Sha) (value : Bytes) : VerifyStep :=
  if !tlvMatchesKeyType sha key then .done .keyMismatch
  else if lib.sha sha region = value then
    if key.isNone then .done (.ok version (some (lib.sha sha region)) none) else .next (some (lib.sha sha region))
  else .done .invalidHash

/-- A record that is not one of a hash, with a key. -/
def verifySigTlv (key : Key) (isPure : Bool) (version : Version) (region : Bytes) (type : Nat) (value : Bytes)
    (digest : Option Bytes) : Option VerifyStep :=
  if isPure then
    -- `ALLOWED_PURE_SIG_TLVS`
    if type = TlvValue.ed25519.value then
      if !key.type.verifiesDigest then none
      else if key.verify value region then some (.done (.ok version none (some value))) else some (.next digest)
    else some (.next digest)
  else match key.type.sigTlv with
    | none => none
    | some sigTlv =>
      if type = sigTlv.value then
        if key.type.verifiesPayload then
          if key.verify value region then some (.done (.ok version digest none)) else some (.next digest)
        else match digest with
          | none => none
          | some d => if key.verify value d then some (.done (.ok version digest none)) else some (.next digest)
      else some (.next digest)

def verifyTlv (isPure : Bool) (version : Version) (region : Bytes) (type : Nat) (value : Bytes)
    (digest : Option Bytes) : Option VerifyStep :=
  match shaOfTlv type, key with
  | some sha, _ => some (verifyShaTlv lib key version region sha value)
  | none, none => some (.next digest)
  | none, some key => verifySigTlv key isPure version region type value digest

def verifyLoop (isPure : Bool) (version : Version) (region : Bytes) (stop : Nat) :
    Nat → Nat → Option Bytes → Option VerifyResult
  | 0, _, _ => none
  | fuel + 1, off, digest =>
    if off < stop then
      match unpackBBH host (slice b off (off + 4)) with
      | none => none
      | some (type, len) =>
        match verifyTlv lib key isPure version region type (slice b (off + 4) (off + 4 + len)) digest with
        | none => none
        | some (.done result) => some result
        | some (.next digest) => verifyLoop isPure version region stop fuel (off + 4 + len) digest
    else some .invalidSignature

/-- `verify` from the TLV area on. A round needs four bytes of the file. -/
def verifyArea (version : Version) (tlvOff tot : Nat) : Option VerifyResult := do
  let isPure ← scanPure host b (tlvOff + tot) (b.length + 1) (tlvOff + 4)
  verifyLoop lib host b key isPure version (b.take tlvOff) (tlvOff + tot) (b.length + 1) (tlvOff + 4) none

/-- The version in the header, format `BBHI`. -/
def unpackVersion : Version :=
  ⟨(b.getD 20 0).toNat, (b.getD 21 0).toNat, unpackH host (slice b 22 24), unpackI host (slice b 24 28)⟩

/-- `Image.verify` of the bytes of a file. -/
def verify : Option VerifyResult :=
  if b.length < 28 then none
  else if unpackI host (slice b 0 4) ≠ imageMagic.toNat then some .invalidMagic
  else match locate host b with
    | none => none
    | some (tlvOff, magic, tot) =>
      if magic ≠ 0x6907 then some .invalidTlvInfoMagic
      else verifyArea lib host b key (unpackVersion host b) tlvOff tot

end Verify

/-! ### Reading -/

section Reading

variable {host : Endian} {b : Bytes}

theorem slice_add (b : Bytes) (i n : Nat) : slice b i (i + n) = (b.drop i).take n := by
  rw [slice, List.drop_take, Nat.add_sub_cancel_left]

theorem slice_set {i j p : Nat} (v : UInt8) (out : p < i ∨ j ≤ p) : slice (b.set p v) i j = slice b i j := by
  rw [slice, slice, List.take_set, List.drop_set]
  split
  next => rfl
  next ge => rw [List.set_eq_of_length_le (by simp; omega)]

variable {off : Nat} {rest : Bytes} {v : TlvValue}

theorem unpackHH_info {magic tot : Nat} (magicLt : magic < 65536) (totLt : tot < 65536)
    (here : b.drop off = host.order (put16 magic) ++ host.order (put16 tot) ++ rest) :
    unpackHH host (slice b off (off + 4)) = some (magic, tot) := by
  have four : (host.order (put16 magic) ++ host.order (put16 tot)).length = 4 := by simp
  rw [slice_add, here, List.take_left' four, unpackHH, if_pos four, List.take_left' (by simp),
    List.drop_left' (by simp), unpackH_order magicLt, unpackH_order totLt]

theorem unpackBBH_record {r : Record} (lt : r.payload.length < 65536) (here : b.drop off = r.encode host ++ rest) :
    unpackBBH host (slice b off (off + 4)) = some (r.typeByte host, r.payload.length) ∧
      slice b (off + 4) (off + 4 + r.payload.length) = r.payload ∧ b.drop (off + 4 + r.payload.length) = rest := by
  have four : (r.kind.bytes host ++ host.order (put16 r.payload.length)).length = 4 := by simp
  have behind : b.drop (off + 4) = r.payload ++ rest := by
    rw [← List.drop_drop, here, Record.encode, List.append_assoc, List.drop_left' four]
  refine ⟨?_, ?_, ?_⟩
  · rw [slice_add, here, Record.encode, List.append_assoc, List.take_left' four, unpackBBH, if_pos four,
      List.drop_left' (by simp), unpackH_order lt, Record.typeByte]
    congr 3
    rw [List.getD_eq_getElem?_getD, List.getD_eq_getElem?_getD, List.getElem?_append_left (by simp)]
  · rw [slice_add, behind, List.take_left]
  · rw [← List.drop_drop, behind, List.drop_left]

theorem value_eq_sigPure : v.value = TlvValue.sigPure.value ↔ v = .sigPure := by
  cases v <;> decide

theorem scanPure_eq {rs : List Record} {stop fuel : Nat}
    (named : ∀ r ∈ rs, ∃ v, r.kind = .named v) (writable : ∀ r ∈ rs, r.Writable)
    (here : b.drop off = encodeAll host rs ++ rest) (stops : off + (encodeAll host rs).length = stop)
    (enough : rs.length < fuel) : scanPure host b stop fuel off = some (rs.any fun r => r.kind = .named .sigPure) := by
  induction rs generalizing off fuel with
  | nil =>
    obtain ⟨fuel, rfl⟩ : ∃ n, fuel = n + 1 := ⟨fuel - 1, by simp at enough; omega⟩
    simp only [encodeAll_nil, List.length_nil] at stops
    rw [scanPure, if_neg (by omega)]
    rfl
  | cons r rs ih =>
    obtain ⟨fuel, rfl⟩ : ∃ n, fuel = n + 1 := ⟨fuel - 1, by simp at enough; omega⟩
    obtain ⟨v, kind⟩ := named r List.mem_cons_self
    rw [encodeAll_cons, List.append_assoc] at here
    simp only [encodeAll_cons, List.length_append, Record.encode_length] at stops
    obtain ⟨read, -, behind⟩ := unpackBBH_record (writable r List.mem_cons_self).length_lt here
    rw [scanPure, if_pos (by omega), read, Record.typeByte_named host kind]
    simp only [Option.bind_eq_bind, Option.bind_some, Option.pure_def, value_eq_sigPure]
    by_cases pure : v = .sigPure
    · simp [kind, pure]
    · simp only [List.length_cons] at enough
      rw [if_neg pure, ih (fun s mem => named s (List.mem_cons_of_mem _ mem))
        (fun s mem => writable s (List.mem_cons_of_mem _ mem)) behind (by omega) (by omega)]
      simp [kind, pure]

end Reading

section Loop

variable {lib : Lib} {host : Endian} {b : Bytes} {key : Option Key} {isPure : Bool} {version : Version}
  {region : Bytes} {stop fuel off : Nat} {digest : Option Bytes} {step : VerifyStep}

theorem verifyLoop_record {v : TlvValue} {payload rest : Bytes} (lt : payload.length < 65536)
    (here : b.drop off = Record.encode host ⟨.named v, payload⟩ ++ rest) (more : off < stop)
    (tlv : verifyTlv lib key isPure version region v.value payload digest = some step) :
    verifyLoop lib host b key isPure version region stop (fuel + 1) off digest =
      match step with
      | .done result => some result
      | .next digest => verifyLoop lib host b key isPure version region stop fuel (off + 4 + payload.length) digest := by
  obtain ⟨read, value, -⟩ := unpackBBH_record lt here
  rw [verifyLoop, if_pos more, read, Record.typeByte_named host rfl]
  simp only [value, tlv]
  cases step <;> rfl

/-- There is always enough fuel: a round needs four bytes of the file. -/
theorem verifyLoop_fuel (enough : b.length < off + fuel) :
    verifyLoop lib host b key isPure version region stop (fuel + 1) off digest =
      verifyLoop lib host b key isPure version region stop (fuel + 2) off digest := by
  induction fuel generalizing off digest with
  | zero =>
    -- no byte is left
    have short : unpackBBH host (slice b off (off + 4)) = none := by
      rw [slice_add, unpackBBH, if_neg]
      simp
      omega
    simp only [verifyLoop, short]
  | succ fuel ih =>
    rw [verifyLoop, verifyLoop.eq_2 lib host b key isPure version region stop off digest (fuel + 2)]
    split
    next =>
      split
      next => rfl
      next type len _ =>
        split
        next => rfl
        next => rfl
        next digest' _ => exact ih (by omega)
    next => rfl

variable (key) in
/-- A record of the type can end the loop. -/
def Decides (type : Nat) : Prop :=
  (shaOfTlv type).isSome ∨ type = TlvValue.ed25519.value ∨
    ∃ k tlv, key = some k ∧ k.type.sigTlv = some tlv ∧ type = tlv.value

theorem verifyTlv_undecided {type : Nat} {value : Bytes} (silent : ¬Decides key type)
    (tlv : verifyTlv lib key isPure version region type value digest = some step) : step = .next digest := by
  unfold Decides at silent
  push Not at silent
  obtain ⟨hash, notPure, notSig⟩ := silent
  have noHash : shaOfTlv type = none := by simpa using hash
  cases key with
  | none => simpa [verifyTlv, noHash, eq_comm] using tlv
  | some k =>
    cases known : k.type.sigTlv with
    | none => cases isPure <;> simp_all [verifyTlv, verifySigTlv]
    | some sigTlv => cases isPure <;> simp_all [verifyTlv, verifySigTlv, notSig k sigTlv rfl known]

theorem verifyLoop_undecided {rs : List Record} {rest : Bytes} (writable : ∀ r ∈ rs, r.Writable)
    (silent : ∀ r ∈ rs, ¬Decides key (r.typeByte host)) (here : b.drop off = encodeAll host rs ++ rest)
    (stops : off + (encodeAll host rs).length = stop) (v : Version) (d sig : Option Bytes) :
    verifyLoop lib host b key isPure version region stop fuel off digest ≠ some (.ok v d sig) := by
  induction fuel generalizing off rs with
  | zero => simp [verifyLoop]
  | succ fuel ih =>
    rw [verifyLoop]
    split
    next more =>
      cases rs with
      | nil => simp at stops; omega
      | cons r rs =>
        rw [encodeAll_cons, List.append_assoc] at here
        simp only [encodeAll_cons, List.length_append, Record.encode_length] at stops
        obtain ⟨read, value, behind⟩ := unpackBBH_record (writable r List.mem_cons_self).length_lt here
        simp only [read, value]
        split
        next => simp
        next result tlv => cases verifyTlv_undecided (silent r List.mem_cons_self) tlv
        next digest' tlv =>
          cases verifyTlv_undecided (silent r List.mem_cons_self) tlv
          exact ih (fun r mem => writable r (List.mem_cons_of_mem _ mem))
            (fun r mem => silent r (List.mem_cons_of_mem _ mem)) behind (by omega)
    next => simp

end Loop

end Adaboot.Imgtool
