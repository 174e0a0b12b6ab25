import Adaboot.Swap.Scratch

/-!
# Setting the state of an image

`bs_set` for one image. Both slots are searched for the hash, but what is marked is the secondary slot, and one
without a magic is compared without being validated.
-/

namespace Adaboot.Serial

open Crash

/-- A decoded request. The hash is empty if the request names none. -/
structure SetRequest where
  confirm : Bool
  hash : Bytes

/-- How a request ends, unless `boot_set_pending_multi` fails. -/
inductive SetReply where
  | done
  | einval
  | enoent
deriving DecidableEq, Repr

/-- The loop of `boot_serial_get_hash`. -/
def getHashLoop (b : ValidateBuild) (fap : FlashArea) : Nat → ImageTlvIter → Option Bytes
  | 0, _ => none
  | fuel + 1, it =>
    match bootutilTlvIterNext it with
    | .error => none
    | .notFound => none
    | .found it off len type =>
      if type = b.expectedHashTlv then
        if len ≠ b.imageHashSize then none else flashAreaRead fap off len
      else getHashLoop b fap fuel it

def bootSerialGetHash (b : ValidateBuild) (hdr : ImageHeader) (fap : FlashArea) (startOff : Nat) : Option Bytes :=
  match bootutilTlvIterBegin hdr fap startOff imageTlvAny false with
  | none => none
  | some it => getHashLoop b fap (it.tlvEnd + 1) it

section Command

-- `uninit` is what the stack holds in place of a header that cannot be read
variable (b : LoaderBuild) (alg : SwapAlgo) (uninit : Area → ImageHeader) (fl : Flash)

def setStartOffset (slot : Area) : Nat :=
  if b.board.mode = .offset ∧ slot = .secondary ∧ bootSwapTypeMulti b.board fl ≠ .revert then
    b.board.sectorSize slot 0
  else 0

/-- The header that is read for a slot. The return code of the read is not looked at. -/
def setHeader (slot : Area) : ImageHeader :=
  match flashAreaRead (b.board.area fl slot) (setStartOffset b fl slot) imageHeaderSize with
  | none => uninit slot
  | some data => .decode data

/-- `bootutil_img_validate` with the buffer of `bs_set`. -/
def setValidates (slot : Area) : Bool :=
  bootutilImgValidate { b.validate with tmpBufSz := 64, tmpBufSz_pos := by decide }
    (setHeader b uninit fl slot) (b.board.area fl slot) (setStartOffset b fl slot)
    (bootutilMaxImageSize b alg slot) []

def setStoredHash (slot : Area) : Option Bytes :=
  bootSerialGetHash b.validate (setHeader b uninit fl slot) (b.board.area fl slot) (setStartOffset b fl slot)

/-- The loop over the slots: is the hash found, and which slots have passed `bootutil_img_validate` by then? -/
def setSearch (hash : Bytes) : List Area → Bool × List Area
  | [] => (false, [])
  | slot :: rest =>
    let magic := (setHeader b uninit fl slot).ihMagic = imageMagic
    if magic ∧ ¬ setValidates b alg uninit fl slot then setSearch hash rest
    else
      let passed := if magic then [slot] else []
      -- the first slot with the hash ends the search, whichever it is
      if setStoredHash b uninit fl slot = some hash then (true, passed)
      else ((setSearch hash rest).1, passed ++ (setSearch hash rest).2)

/-- `bs_set`, up to the list of images that a success is answered with. -/
def bsSet (req : Option SetRequest) : Boot SetReply :=
  match req with
  | none => pure .einval
  | some req =>
    if req.hash.length ≠ b.validate.imageHashSize ∧ req.hash.length ≠ 0 then pure .einval
    else if req.hash.length = 0 then do
      bootSetPending b.board req.confirm
      pure .done
    else do
      let fl ← .get
      if (setSearch b alg uninit fl req.hash [.primary, .secondary]).1 then
        bootSetPending b.board req.confirm
        pure .done
      else pure .enoent

/-- The image in the secondary slot has the hash and has passed the validation of this command. -/
structure Vetted (hash : Bytes) : Prop where
  stored : setStoredHash b uninit fl .secondary = some hash
  passed : .secondary ∈ (setSearch b alg uninit fl hash [.primary, .secondary]).2

/-- The slot ends the search. -/
def Accepted (hash : Bytes) (slot : Area) : Prop :=
  setStoredHash b uninit fl slot = some hash ∧
    ((setHeader b uninit fl slot).ihMagic = imageMagic → setValidates b alg uninit fl slot = true)

end Command

/-! ### What is marked -/

section Marks

variable {bd : Board} {fl : Flash} {permanent : Bool} (room : bd.HoldsTrailer .secondary)
include room

theorem wp_bootSetPending_marked (marked : (swapState bd fl .secondary).magic ≠ .unset) :
    wp (bootSetPending bd permanent) (fun _ fl' => fl' = fl) (fun _ fl' => fl' = fl) (fun _ => True) fl := by
  rw [bootSetPending, bootSetNext]
  rw [wp_bind, wp_readSwapState room]
  split
  next => simp
  next unset => exact absurd unset marked
  next => simp

theorem magic_setField {f : Field}
    (here : f.Present bd) (ne : f ≠ .magic) {data : Bytes} (len : data.length = f.len)
    (written : trailerField bd fl .secondary .magic = bootImgMagic bd) :
    trailerField bd (setField bd fl .secondary f data) .secondary .magic = bootImgMagic bd := by
  rw [trailerField_setField_ne room here (by nofun) (Ne.symm ne) len, written]

theorem wp_bootWriteSwapInfo_magic {swapType : SwapType}
    (code : swapType.code < 0xf) (written : trailerField bd fl .secondary .magic = bootImgMagic bd) :
    wp (bootWriteSwapInfo bd .secondary swapType 0)
      (fun _ fl' => trailerField bd fl' .secondary .magic = bootImgMagic bd)
      (fun _ fl' => trailerField bd fl' .secondary .magic = bootImgMagic bd) (fun _ => True) fl := by
  rw [wp_bootWriteSwapInfo room code]
  exact ⟨trivial, magic_setField room (by nofun) (by simp) rfl written⟩

theorem wp_bootSetPending_unset
    (unset : (swapState bd fl .secondary).magic = .unset) : wp (bootSetPending bd permanent)
      (fun _ fl' => trailerField bd fl' .secondary .magic = bootImgMagic bd)
      (fun _ fl' => trailerField bd fl' .secondary .magic = bootImgMagic bd) (fun _ => True) fl := by
  have written : trailerField bd (setField bd fl .secondary .magic (bootImgMagic bd)) .secondary .magic =
      bootImgMagic bd :=
    trailerField_setField_self (magicOf_eq_unset.mp unset) (length_bootImgMagic bd)
  rw [bootSetPending, bootSetNext]
  rw [wp_bind, wp_readSwapState room, unset]
  simp only [Bool.false_eq_true, if_false]
  rw [wp_bind, wp_bootWriteMagic room]
  refine ⟨trivial, ?_⟩
  split
  next =>
    rw [wp_bind, wp_bootWriteImageOk room]
    refine ⟨trivial, wp_bootWriteSwapInfo_magic room (by decide) ?_⟩
    exact magic_setField room (by nofun) (by simp) rfl written
  next => exact wp_bootWriteSwapInfo_magic room (by decide) written

end Marks

section Requests

variable {b : LoaderBuild} {alg : SwapAlgo} {uninit : Area → ImageHeader} {fl : Flash} {req : SetRequest}

theorem setSearch_found {hash : Bytes} {slots : List Area} : (setSearch b alg uninit fl hash slots).1 = true ↔
    ∃ slot ∈ slots, Accepted b alg uninit fl hash slot := by
  induction slots with
  | nil => simp [setSearch]
  | cons slot rest ih =>
    rw [List.exists_mem_cons_iff, ← ih, setSearch, Accepted]
    grind

theorem secondary_passed {hash : Bytes} :
    .secondary ∈ (setSearch b alg uninit fl hash [.primary, .secondary]).2 ↔ ¬ Accepted b alg uninit fl hash .primary ∧
      (setHeader b uninit fl .secondary).ihMagic = imageMagic ∧ setValidates b alg uninit fl .secondary = true := by
  simp only [setSearch, Accepted]
  grind

theorem wp_bsSet_found {P : Flash → Prop} (named : req.hash.length ≠ 0)
    (size : req.hash.length = b.validate.imageHashSize)
    (found : ∃ slot ∈ [.primary, .secondary], Accepted b alg uninit fl req.hash slot)
    (pending : wp (bootSetPending b.board req.confirm) (fun _ => P) (fun _ => P) (fun _ => True) fl) :
    wp (bsSet b alg uninit (some req)) (fun _ => P) (fun _ => P) (fun _ => True) fl := by
  unfold bsSet
  simp only [size, ne_eq, not_true_eq_false, false_and, if_false]
  rw [if_neg (size ▸ named), wp_bind, wp_get, if_pos (setSearch_found.mpr found), wp_bind]
  exact wp_imp pending (fun _ _ after => (wp_pure _).mpr after)

theorem wp_bsSet_missing (named : req.hash.length ≠ 0) (missing : ¬ (req.hash.length = b.validate.imageHashSize ∧
      ∃ slot ∈ [.primary, .secondary], Accepted b alg uninit fl req.hash slot)) :
    wp (bsSet b alg uninit (some req)) (fun _ fl' => fl' = fl) (fun _ fl' => fl' = fl) (fun _ => True) fl := by
  unfold bsSet
  simp only
  split
  next => simp
  next size =>
    have fits : req.hash.length = b.validate.imageHashSize := by
      by_contra other
      exact size ⟨other, named⟩
    rw [wp_bind, wp_get, if_neg fun found => missing ⟨fits, setSearch_found.mp found⟩]
    simp

theorem bsSet_changes_iff (room : b.board.HoldsTrailer .secondary) (named : req.hash.length ≠ 0) :
    (bsSet b alg uninit (some req) fl).state ≠ fl ↔
      req.hash.length = b.validate.imageHashSize ∧ (swapState b.board fl .secondary).magic = .unset ∧
        ∃ slot ∈ [.primary, .secondary], Accepted b alg uninit fl req.hash slot := by
  constructor
  · intro changed
    by_contra none
    apply changed
    by_cases located : req.hash.length = b.validate.imageHashSize ∧
      ∃ slot ∈ [.primary, .secondary], Accepted b alg uninit fl req.hash slot
    · obtain ⟨size, found⟩ := located
      exact wp_state (wp_bsSet_found named size found
        (wp_bootSetPending_marked room fun unset => none ⟨size, unset, found⟩))
    · exact wp_state (wp_bsSet_missing named located)
  · rintro ⟨size, unset, found⟩ same
    have marked := wp_state (wp_bsSet_found named size found (wp_bootSetPending_unset room unset))
    rw [same] at marked
    have good : (swapState b.board fl .secondary).magic = .good := magicOf_eq_good.mpr marked
    rw [unset] at good
    exact absurd good (by decide)

/-- Only the vetted image of the secondary slot is marked if and only if nothing can be marked, or the primary slot
holds the hash at most in an invalid image, and the secondary one only behind a header with the magic. -/
theorem set_marks_vetted_iff (b : LoaderBuild) (alg : SwapAlgo) (uninit : Area → ImageHeader) (fl : Flash)
    (req : SetRequest) (room : bootTrailerInfoSz b.board ≤ b.board.faSize .secondary) (named : req.hash.length ≠ 0) :
    ((bsSet b alg uninit (some req) fl).state ≠ fl → Vetted b alg uninit fl req.hash) ↔
      (req.hash.length = b.validate.imageHashSize → (swapState b.board fl .secondary).magic = .unset →
        (setStoredHash b uninit fl .primary = some req.hash →
          (setHeader b uninit fl .primary).ihMagic = imageMagic ∧ setValidates b alg uninit fl .primary = false) ∧
        (setStoredHash b uninit fl .secondary = some req.hash →
          (setHeader b uninit fl .secondary).ihMagic = imageMagic)) := by
  have passed := @secondary_passed b alg uninit fl req.hash
  rw [bsSet_changes_iff room named, List.exists_mem_cons_iff, List.exists_mem_cons_iff]
  unfold Accepted at *
  grind [Vetted]

end Requests

def setLoader : LoaderBuild where
  board := .ofLayout .scratch 8 4 64 (fun _ => 0) (fun _ => List.replicate 4 128) Board.fourSectors_fits
  validate := hashBuild
  validatePrimarySlot := true

def setFlash (primary secondary : Bytes) : Flash
  | .primary, i => primary.getD i Nor.erasedVal
  | .secondary, i => secondary.getD i Nor.erasedVal
  | .scratch, _ => Nor.erasedVal

def setEmptyImage : SetRequest := ⟨false, sumDigest (packHeader [])⟩

theorem set_marks_vetted_iff_demo :
    let fl := setFlash [] (hashedImage [])
    (bsSet setLoader (SwapScratch.algo setLoader) (fun _ => .decode []) (some setEmptyImage) fl).state ≠ fl ∧
      Vetted setLoader (SwapScratch.algo setLoader) (fun _ => .decode []) fl setEmptyImage.hash := by
  intro fl
  have changed : (bsSet setLoader (SwapScratch.algo setLoader) (fun _ => .decode []) (some setEmptyImage) fl).state ≠
      fl := (bsSet_changes_iff (by decide) (by decide)).mpr
    ⟨by decide, by decide +kernel, .secondary, by decide, by decide +kernel, fun _ => by decide +kernel⟩
  exact ⟨changed, (set_marks_vetted_iff setLoader _ _ fl setEmptyImage (by decide) (by decide)).mpr
    (fun _ _ => ⟨fun stored => absurd stored (by decide +kernel), fun _ => by decide +kernel⟩) changed⟩

/-- The requested image is in the primary slot and the secondary slot is empty, and yet the secondary
slot is marked. -/
theorem set_marks_empty_slot :
    let fl := setFlash (hashedImage []) []
    (bsSet setLoader (SwapScratch.algo setLoader) (fun _ => .decode []) (some setEmptyImage) fl).state ≠ fl ∧
      ¬ Vetted setLoader (SwapScratch.algo setLoader) (fun _ => .decode []) fl setEmptyImage.hash := by
  refine ⟨(bsSet_changes_iff (by decide) (by decide)).mpr ⟨by decide, by decide +kernel, .primary, by decide,
    by decide +kernel, fun _ => by decide +kernel⟩, fun vetted => ?_⟩
  exact absurd vetted.stored (by decide +kernel)

end Adaboot.Serial
