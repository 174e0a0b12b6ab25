import Adaboot.Image.Validate
import Adaboot.Image.Walk

/-!
# Which signature decides

An image may carry several signatures, each behind a record that names its key. Here is what a key record selects, and
what is left of several checks at the end of the walk.
-/

namespace Adaboot

/-! ### The key of a key record -/

section Keys

variable {b : ValidateBuild} {sig : SignatureBuild} {fap : FlashArea} {off len : Nat} {st : ValidateState}

/-- The key that the next signature is checked with, if any, is the one whose digest the record at `off` holds. -/
def SelectsNamedKey (b : ValidateBuild) (sig : SignatureBuild) (fap : FlashArea) (off len : Nat) (st : ValidateState) :
    Prop :=
  ∀ st', validateKeyTlv b fap off len st sig = some st' → ∀ i : Nat, st'.keyId = i →
    ∃ key, sig.bootutilKeys[i]? = some key ∧ flashAreaRead fap off len = some (b.sha key)

theorem bootutilFindKey_eq_natCast (lookup : sig.keyMode = .lookup) {keyhash : Bytes} {i : Nat} :
    bootutilFindKey b sig keyhash = i ↔ keyhash.length ≤ b.imageHashSize ∧
      sig.bootutilKeys.findIdx? (fun key => (b.sha key).take keyhash.length == keyhash) = some i := by
  rw [bootutilFindKey, lookup]
  simp only
  split
  next long =>
    constructor
    · omega
    · omega
  next short =>
    cases sig.bootutilKeys.findIdx? fun key => (b.sha key).take keyhash.length == keyhash with
    | none => simp
    | some j =>
      simp only [not_lt.mp short, true_and, Option.some.injEq]
      exact Int.natCast_inj

/-- A record names the key that it selects unless it is shorter than a digest and some key's digest starts with it. -/
theorem selectsNamedKey_iff (lookup : sig.keyMode = .lookup)
    (digest : ∀ key, (b.sha key).length = b.imageHashSize) {payload : Bytes}
    (read : flashAreaRead fap off len = some payload) : SelectsNamedKey b sig fap off len st ↔
      (len < b.imageHashSize → ∀ key ∈ sig.bootutilKeys, ¬payload <+: b.sha key) := by
  have length : payload.length = len := by
    rw [(flashAreaRead_eq_some read).2]
    simp
  have run : validateKeyTlv b fap off len st sig =
      if len > b.imageHashSize then none else some { st with keyId := bootutilFindKey b sig payload } := by
    rw [validateKeyTlv, read]
  constructor
  · intro named short key mem starts
    -- some key is found, and its digest is longer than the record
    have matching : ((b.sha key).take payload.length == payload) = true := by
      rw [beq_iff_eq]
      exact (List.prefix_iff_eq_take.mp starts).symm
    cases found : sig.bootutilKeys.findIdx? fun key => (b.sha key).take payload.length == payload with
    | none => simpa [matching] using List.findIdx?_eq_none_iff.mp found key mem
    | some i =>
      have selected := (bootutilFindKey_eq_natCast (b := b) lookup).mpr ⟨by omega, found⟩
      rw [if_neg (by omega)] at run
      obtain ⟨key', -, same⟩ := named _ run i selected
      rw [read, Option.some.injEq] at same
      have := digest key'
      rw [← same] at this
      omega
  · intro unambiguous st' accepted i selected
    rw [run] at accepted
    split at accepted
    next => simp at accepted
    next le =>
      cases accepted
      obtain ⟨-, found⟩ := (bootutilFindKey_eq_natCast lookup).mp selected
      obtain ⟨inRange, starts, -⟩ := List.findIdx?_eq_some_iff_getElem.mp found
      rw [beq_iff_eq, length] at starts
      refine ⟨_, List.getElem?_eq_getElem inRange, ?_⟩
      rw [read, ← starts, List.take_of_length_le]
      rw [digest]
      by_contra long
      have starts : payload <+: b.sha sig.bootutilKeys[i] := starts ▸ List.take_prefix ..
      exact unambiguous (by omega) _ (List.getElem_mem inRange) starts

end Keys

theorem selectsNamedKey_iff_signed : ∃ sig, signedBuild.signature = some sig ∧
      SelectsNamedKey signedBuild sig (.ofBytes (sumDigest [7]) (by decide)) 0 32 (.init signedBuild) := by
  have read : flashAreaRead (.ofBytes (sumDigest [7]) (by decide)) 0 32 = some (sumDigest [7]) := by decide +kernel
  refine ⟨_, rfl, (selectsNamedKey_iff rfl (fun _ => List.length_replicate) read).mpr ?_⟩
  intro short
  exact absurd short (by decide)

/-- An empty key record selects the first key. -/
theorem empty_record_selects_key : ∃ sig, signedBuild.signature = some sig ∧
      validateKeyTlv signedBuild (.ofBytes [] (by decide)) 0 0 (.init signedBuild) sig =
        some { ValidateState.init signedBuild with keyId := 0 } ∧
      ∀ key ∈ sig.bootutilKeys, signedBuild.sha key ≠ [] :=
  ⟨_, rfl, rfl, by decide +kernel⟩

/-! ### Several signatures -/

section Checks

variable (b : ValidateBuild) (sig : SignatureBuild) (fap : FlashArea) (hash : Bytes)

/-- The key number behind a record, and the verdict if the record is a signature under a built-in key. -/
def signatureCheck (e : TlvEntry) (keyId : Int) : Int × Option Bool :=
  if e.type = b.expectedHashTlv then (keyId, none)
  else if e.type = imageTlvKeyhash ∧ sig.usesKeyTlv then
    (((flashAreaRead fap e.off e.len).map (bootutilFindKey b sig)).getD (-1), none)
  else if e.type = sig.expectedSigTlv then
    if keyId < 0 ∨ keyId ≥ sig.bootutilKeys.length then (-1, none)
    else (-1, (flashAreaRead fap e.off e.len).map fun buf => sig.verifySig hash buf keyId.toNat)
  else (keyId, none)

/-- The signatures among the records whose key is built in, with their verdicts. -/
def signatureChecks : List TlvEntry → Int → List (TlvEntry × Bool)
  | [], _ => []
  | e :: es, keyId =>
    let check := signatureCheck b sig fap hash e keyId
    (check.2.map (e, ·)).toList ++ signatureChecks es check.1

def lastVerdict (checks : List (TlvEntry × Bool)) (before : Bool) : Bool := (checks.getLast?.map (·.2)).getD before

variable {b sig fap hash} {st st' : ValidateState}

theorem lastVerdict_append (verdict : Option Bool) (e : TlvEntry) (checks : List (TlvEntry × Bool)) (before : Bool) :
    lastVerdict ((verdict.map (e, ·)).toList ++ checks) before = lastVerdict checks (verdict.getD before) := by
  unfold lastVerdict
  rw [List.getLast?_append]
  cases checks.getLast? <;> cases verdict <;> rfl

theorem validateTlv_check (signed : b.signature = some sig) {e : TlvEntry}
    (run : validateTlv b fap hash e.off e.len st e.type = some st') :
    st'.keyId = (signatureCheck b sig fap hash e st.keyId).1 ∧
      st'.validSignature = (signatureCheck b sig fap hash e st.keyId).2.getD st.validSignature := by
  simp only [validateTlv, signed] at run
  unfold signatureCheck
  split at run
  next isHash =>
    obtain ⟨-, rfl⟩ := validateHashTlv_eq_some run
    rw [if_pos isHash]
    exact ⟨rfl, rfl⟩
  next notHash =>
  rw [if_neg notHash]
  split at run
  next isKey =>
    obtain ⟨buf, read, rfl⟩ := validateKeyTlv_eq_some run
    rw [if_pos isKey, read]
    exact ⟨rfl, rfl⟩
  next notKey =>
  rw [if_neg notKey]
  split at run
  next isSig =>
    have run := validateSigTlv_eq_some run
    rw [if_pos isSig]
    split at run
    next unknown =>
      rw [if_pos unknown, run]
      exact ⟨rfl, rfl⟩
    next known =>
      obtain ⟨buf, read, rfl⟩ := run
      rw [if_neg known, read]
      exact ⟨rfl, rfl⟩
  next notSig =>
    rw [if_neg notSig]
    exact (validateOtherTlv_keeps run).2

theorem imgValidateLoop_lastVerdict (signed : b.signature = some sig) {it : ImageTlvIter} (bounded : it.Bounded)
    {es : List TlvEntry} {clean : Bool} (walk : Walk it es clean) {fuel : Nat}
    (run : imgValidateLoop b fap hash fuel it st = some st') :
    st'.validSignature = lastVerdict (signatureChecks b sig fap hash es st.keyId) st.validSignature := by
  induction walk generalizing fuel st with
  | done returns =>
    cases fuel with
    | zero => simp [imgValidateLoop] at run
    | succ fuel =>
      rw [imgValidateLoop, returns.unique (returns_bootutilTlvIterNext bounded)] at run
      cases run
      rfl
  | failed returns =>
    cases fuel with
    | zero => simp [imgValidateLoop] at run
    | succ fuel =>
      rw [imgValidateLoop, returns.unique (returns_bootutilTlvIterNext bounded)] at run
      simp at run
  | @entry it it' off len type es clean returns _ ih =>
    cases fuel with
    | zero => simp [imgValidateLoop] at run
    | succ fuel =>
      rw [imgValidateLoop, returns.unique (returns_bootutilTlvIterNext bounded)] at run
      simp only at run
      split at run
      next => simp at run
      next =>
      split at run
      next => simp at run
      next st₁ step =>
        obtain ⟨key, verdict⟩ := validateTlv_check (e := ⟨off, len, type⟩) signed step
        obtain ⟨moved, -⟩ := returns.moves bounded
        rw [ih (moved ▸ bounded.move _) run, signatureChecks, lastVerdict_append, key, verdict]

variable {hdr : ImageHeader} {startOff maxImageSize : Nat} {seed : Bytes} {it : ImageTlvIter}

theorem OtherwiseValid.validate_eq (valid : OtherwiseValid b hdr fap startOff maxImageSize seed hash it st)
    (signed : b.signature = some sig) :
    bootutilImgValidate b hdr fap startOff maxImageSize seed = st.validSignature := by
  rw [bootutilImgValidate, valid.hashed, valid.begun]
  simp only
  rw [if_neg (not_lt.mpr valid.size), valid.walked]
  simp only [valid.digest, signed, valid.counter, valid.vid, valid.cid, Option.isSome_some, if_true, Bool.true_and,
    Bool.and_true]

/-- Some signature behind the protected records has a built-in key and verifies. -/
def HasVerifiedPair (it : ImageTlvIter) (checks : List (TlvEntry × Bool)) : Prop :=
  ∃ check ∈ checks, bootutilTlvIterIsProt it check.1.off = false ∧ check.2 = true

/-- A verified pair is enough exactly if the last signature under a built-in key verifies as well. -/
theorem verified_pair_accepts_iff (signed : b.signature = some sig)
    (valid : OtherwiseValid b hdr fap startOff maxImageSize seed hash it st) {es : List TlvEntry} {clean : Bool}
    (walk : Walk it es clean) : (HasVerifiedPair it (signatureChecks b sig fap hash es (ValidateState.init b).keyId) →
        bootutilImgValidate b hdr fap startOff maxImageSize seed = true) ↔
      (HasVerifiedPair it (signatureChecks b sig fap hash es (ValidateState.init b).keyId) →
        lastVerdict (signatureChecks b sig fap hash es (ValidateState.init b).keyId) false = true) := by
  rw [valid.validate_eq signed,
    imgValidateLoop_lastVerdict signed (bootutilTlvIterBegin_bounded valid.begun) walk valid.walked]
  rfl

end Checks

/-- Digest and two signatures under the same key. -/
def twoSignatures (first second : Bytes) : Bytes :=
  tlvRecord 0x10 (sumDigest (packHeader [1, 2, 3])) ++ tlvRecord imageTlvKeyhash (sumDigest [7]) ++
    tlvRecord 0x22 first ++ tlvRecord imageTlvKeyhash (sumDigest [7]) ++ tlvRecord 0x22 second

def goodSignature : Bytes := (sumDigest (packHeader [1, 2, 3])).take 4

theorem verified_pair_accepts_iff_signed :
    let area := FlashArea.ofBytes (packImage [1, 2, 3] (twoSignatures [0] goodSignature)) (by decide +kernel)
    let hdr := ImageHeader.decode (packHeader [1, 2, 3])
    bootutilImgValidate signedBuild hdr area 0 300 [] = true ∧ ∃ sig hash it st es clean,
      signedBuild.signature = some sig ∧ OtherwiseValid signedBuild hdr area 0 300 [] hash it st ∧ Walk it es clean ∧
      (HasVerifiedPair it (signatureChecks signedBuild sig area hash es (-1)) →
        lastVerdict (signatureChecks signedBuild sig area hash es (-1)) false = true) := by
  intro area hdr
  have accepted : bootutilImgValidate signedBuild hdr area 0 300 [] = true := by decide +kernel
  obtain ⟨hash, it, st, valid, -⟩ := exists_otherwiseValid accepted
  obtain ⟨es, clean, walk⟩ := exists_walk (bootutilTlvIterBegin_bounded valid.begun)
  exact ⟨accepted, _, hash, it, st, es, clean, rfl, valid, walk,
    (verified_pair_accepts_iff rfl valid walk).mp fun _ => accepted⟩

/-- The same two signatures are accepted or not, according to their order. -/
theorem failed_signature_overrides :
    let accepts (records : Bytes) (fits : (packImage [1, 2, 3] records).length < 2 ^ 32) : Bool :=
      bootutilImgValidate signedBuild (.decode (packHeader [1, 2, 3])) (.ofBytes (packImage [1, 2, 3] records) fits) 0
        300 []
    accepts (twoSignatures [0] goodSignature) (by decide +kernel) = true ∧
      accepts (twoSignatures goodSignature [0]) (by decide +kernel) = false := by
  decide +kernel

end Adaboot
