import Adaboot.Serial.Decrypt
import Adaboot.Serial.Specs

/-!
# Encrypted uploads

With `MCUBOOT_ENC_IMAGES`, `bs_upload` ends with `boot_handle_enc_fw` if all of an image has been received in the
primary slot, on every path through the function. A second call decrypts again.
-/

namespace Adaboot.SerialEncryption

open Crash

def bootImageLoadHeader (fap : FlashArea) : Except BootErr ImageHeader :=
  match flashAreaRead fap 0 imageHeaderSize with
  | none => .error .eflash
  | some data =>
    let hdr := ImageHeader.decode data
    if hdr.ihMagic ≠ imageMagic then .error .ebadimage
    else if hdr.ihFlags &&& imageFNonBootable ≠ 0 then .error .ebadimage
    else match bootU32SafeAdd hdr.ihImgSize.toNat hdr.ihHdrSize.toNat with
      | none => .error .ebadimage
      | some size => match bootU32SafeAdd size hdr.ihProtectTlvSize.toNat with
        | none => .error .ebadimage
        | some size => if size ≥ fap.faSize then .error .ebadimage else .ok hdr

def bootHandleEncFw (bd : Board) (key : Option KeyStream) (a : Area) : Boot Unit := do
  let fl ← .get
  match bootImageLoadHeader (bd.area fl a) with
  | .error err => .throw err
  | .ok hdr => if hdr.isEncrypted then decryptImageInplace bd key hdr a else pure ()

end Adaboot.SerialEncryption

namespace Adaboot.Serial

open Crash Nor

/-- An upload, and the slots for which `boot_handle_enc_fw` has been called: nothing for the NULL pointer. -/
structure EncUpload (δ : Type) extends Upload δ where
  calls : List (Option UploadArea)

def EncUpload.reset {δ : Type} (dev : δ) : EncUpload δ := ⟨⟨.zero, dev⟩, []⟩

/-- Everything that was announced has been received. This is also so before the first upload. -/
def UploadState.Complete (s : UploadState) : Prop := s.currOff = s.imgSize

instance (s : UploadState) : Decidable s.Complete := inferInstanceAs (Decidable (_ = _))

def openedArea (areas : Nat → Option UploadArea) (req : Option Request) (s : UploadState) : Option UploadArea :=
  req.bind fun r => if r.data.isSome ∧ r.off ≠ sizeMax then areas s.imgNum else none

def usedNum (req : Option Request) (s : UploadState) : Nat :=
  req.elim s.imgNum fun r => if r.data.isSome ∧ r.off = 0 then r.imgNum else s.imgNum

section Model

-- `primary` tells the image numbers that stand for the primary slot, and `handle` is what
-- `boot_handle_enc_fw` does to the device
variable {δ : Type} (opts : Options) (ops : Ops δ Nat) (areas : Nat → Option UploadArea)
  (primary : Nat → Bool) (handle : UploadArea → δ → δ)

/-- `bs_upload` in a build with `MCUBOOT_ENC_IMAGES`. -/
def encUpload (req : Option Request) (e : EncUpload δ) : EncUpload δ :=
  let after := (upload opts ops areas req e.toUpload).2
  if primary after.state.imgNum ∧ after.state.Complete then
    let fap := openedArea areas req after.state
    { state := after.state, dev := fap.elim after.dev (handle · after.dev), calls := e.calls ++ [fap] }
  else { e with toUpload := after }

def encUploadAll (reqs : List (Option Request)) (e : EncUpload δ) : EncUpload δ :=
  reqs.foldl (fun e req => encUpload opts ops areas primary handle req e) e

/-! ### Completed uploads -/

/-- The request is the first chunk and all there is, or it finds the upload incomplete and leaves it complete. -/
def Completes (req : Option Request) (u : Upload δ) : Prop :=
  let after := (upload opts ops areas req u).2.state
  primary after.imgNum ∧ after.Complete ∧ if starts req then 0 < after.imgSize else ¬ u.state.Complete

instance (req : Option Request) (u : Upload δ) : Decidable (Completes opts ops areas primary req u) :=
  inferInstanceAs (Decidable (_ ∧ _ ∧ ite _ _ _))

def completions : List (Option Request) → EncUpload δ → List UploadArea
  | [], _ => []
  | req :: reqs, e =>
    let next := encUpload opts ops areas primary handle req e
    (if Completes opts ops areas primary req e.toUpload then (areas next.state.imgNum).toList else []) ++
      completions reqs next

/-! ### Requests in order -/

/-- The first chunk of an upload of `len` bytes passes the checks. -/
structure Admits (area : UploadArea) (len : Nat) (dev : δ) : Prop where
  status : opts.eraseProgressively = true → opts.imageHasStatusFields = true →
    (sectorAt area.sectors area.statusOff).isSome = true
  fits : len ≤ maxSize opts area
  erases : opts.eraseProgressively = false → ∀ s, (bootEraseRegion ops area 0 area.size ⟨s, dev⟩).value = .ok 0

/-- After a complete upload there is another one, into a slot that can be opened. No upload is empty, and the first one
after a reset is not refused. -/
structure Orderly (req : Option Request) (u : Upload δ) : Prop where
  next : u.state.Complete → starts req = true ∧ (areas (usedNum req u.state)).isSome = true
  first : ∀ r area, req = some r → starts req = true → areas r.imgNum = some area →
    0 < r.len ∧ (u.state.imgSize = 0 → Admits opts ops area r.len u.dev)

/-- Every request that is for the primary slot comes in order. -/
def OrderlyRun : List (Option Request) → EncUpload δ → Prop
  | [], _ => True
  | req :: reqs, e =>
    (primary (usedNum req e.state) = true → Orderly opts ops areas req e.toUpload) ∧
      OrderlyRun reqs (encUpload opts ops areas primary handle req e)

end Model

/-! ### What a chunk leaves alone -/

section Target

variable {δ : Type} {opts : Options} {ops : Ops δ Nat} {area : UploadArea}

def Upload.target (u : Upload δ) : Nat × Nat := (u.state.imgSize, u.state.imgNum)

theorem leaves_onDevice (f : δ → Int × δ) : Leaves Upload.state (onDevice f) := fun _ => rfl

theorem leaves_getState {γ : Type} {part : Upload δ → γ} : Leaves part getState := fun _ => rfl

variable {fuel off : Nat} {chunk : Bytes} {misaligned : Bool}

theorem leaves_eraseRange {first : Int} {endOff : Nat} : Leaves Upload.state (eraseRange ops area first endOff) := by
  intro u
  have kept : Ends (eraseRange ops area first endOff) _ (fun _ u' => u'.state = u.state) u :=
    ends_eraseRange_kept (P := fun _ => True) (fun _ _ _ _ => trivial) trivial
  exact wp_state (kept.mono (fun _ _ same => same.1) fun _ _ same => same)

theorem leaves_flashAreaWrite {data : Bytes} : Leaves Upload.state (flashAreaWrite ops area off data) := by
  unfold flashAreaWrite
  split
  · exact leaves_onDevice _
  · exact .pure _

theorem leaves_target {α : Type} {m : Command δ α} (left : Leaves Upload.state m) : Leaves Upload.target m :=
  fun u => congrArg (fun s : UploadState => (s.imgSize, s.imgNum)) (left u)

theorem leaves_writeBuffered :
    Leaves Upload.target (writeBuffered opts ops area fuel chunk) := by
  induction fuel generalizing chunk with
  | zero => exact .pure _
  | succ fuel ih =>
    refine .ite ?_ (.pure _)
    intro s
    apply Leaves.bind (leaves_target leaves_flashAreaWrite)
    intro rc
    exact .ite (.bind (.throw _) fun _ => .bind (fun _ => rfl) fun _ => ih) (.bind (fun _ => rfl) fun _ => ih)

theorem leaves_writeAligned :
    Leaves Upload.target (writeAligned opts ops area misaligned chunk) := by
  refine .ite (.bind leaves_writeBuffered fun _ => .pure _) ?_
  intro s
  apply Leaves.bind (leaves_target leaves_flashAreaWrite)
  intro rc
  exact .ite (.bind (.throw _) fun _ => .pure _) (.pure _)

theorem leaves_writeTail {tail : Bytes} : Leaves Upload.target (writeTail ops area off tail) := by
  intro s
  apply Leaves.bind (leaves_target leaves_flashAreaWrite)
  intro rc
  exact .ite (.throw _) (.pure _)

theorem leaves_finishUpload : Leaves Upload.target (finishUpload opts ops area) := by
  apply Leaves.bind leaves_getState
  intro s
  refine .ite ?_ (.pure _)
  apply Leaves.bind (leaves_target leaves_eraseRange)
  intro rc
  exact .ite (.throw _) (.pure _)

theorem leaves_storeChunk :
    Leaves Upload.target (storeChunk opts ops area misaligned chunk) := by
  intro s
  apply Leaves.bind leaves_writeAligned
  intro rest
  exact .ite (.bind leaves_writeTail fun _ => .bind (fun _ => rfl) fun _ => leaves_finishUpload)
    (.bind (fun _ => rfl) fun _ => leaves_finishUpload)

theorem leaves_eraseForChunk {len : Nat} : Leaves Upload.target (eraseForChunk ops area len) := by
  apply Leaves.bind leaves_getState
  intro s
  apply Leaves.bind (leaves_target leaves_eraseRange)
  intro rc
  exact .bind (fun _ => rfl) fun _ => .ite (.throw _) (.pure _)

theorem leaves_writeChunk :
    Leaves Upload.target (writeChunk opts ops area misaligned chunk) :=
  .ite (.bind leaves_eraseForChunk fun _ => leaves_storeChunk) leaves_storeChunk

theorem ends_writeChunk_target {P : Upload δ → Prop} {u : Upload δ} (keeps : ∀ u', u'.target = u.target → P u') :
    Ends (writeChunk opts ops area misaligned chunk) (fun _ => P) (fun _ => P) u := by
  have left : Ends (writeChunk opts ops area misaligned chunk) _ _ u := Leaves.wp leaves_writeChunk u
  exact left.mono (fun _ => keeps) fun _ => keeps

end Target

/-! ### One request -/

section Step

variable {δ : Type} {opts : Options} {ops : Ops δ Nat} {areas : Nat → Option UploadArea} {area : UploadArea}
  {req : Option Request} {r : Request} {u : Upload δ}

theorem usedNum_of_starts (zero : r.off = 0) (data : r.data.isSome = true) :
    usedNum (some r) u.state = r.imgNum := if_pos ⟨data, zero⟩

theorem usedNum_of_not_starts (later : starts req = false) : usedNum req u.state = u.state.imgNum := by
  cases req with
  | none => rfl
  | some r =>
    refine if_neg fun first => ?_
    simp [starts, first] at later

theorem starts_of_zero (zero : r.off = 0) (data : r.data.isSome = true) : starts (some r) = true := by
  simp [starts, zero, data]

theorem not_starts (later : r.off ≠ 0) : starts (some r) = false := by
  simp [starts, later]

/-- What a refused first chunk leaves: the length is the new one unless a check has failed. -/
def Refused (opts : Options) (ops : Ops δ Nat) (area : UploadArea) (len : Nat) (u u' : Upload δ) : Prop :=
  u'.state.currOff = 0 ∧ u'.state.imgNum = u.state.imgNum ∧
    (u'.state.imgSize = len ∨ u'.state.imgSize = u.state.imgSize ∧ ¬ Admits opts ops area len u.dev)

theorem ends_eraseSlot_target (len : Nat) : Ends (eraseSlot opts ops area)
      (fun _ u' => u'.state.currOff = u.state.currOff ∧ u'.state.imgNum = u.state.imgNum)
      (fun _ u' => u'.state = u.state ∧ ¬ Admits opts ops area len u.dev) u := by
  unfold eraseSlot
  split
  next => exact (ends_assign _).mpr ⟨rfl, rfl⟩
  next whole =>
    rw [ends_bind]
    have erase : Ends (bootEraseRegion ops area 0 area.size) _ (fun _ _ => False) u :=
      wp_value (ends_bootEraseRegion_kept (P := fun _ => True) (fun _ _ _ _ => trivial) trivial)
    refine erase.mono ?_ fun _ _ never => never.elim
    rintro rc u' ⟨⟨state, _⟩, value⟩
    split
    next failed =>
      refine (ends_throw _).mpr ⟨state, fun admits => failed ?_⟩
      have erased := admits.erases (Bool.not_eq_true _ ▸ whole) u.state
      rw [value] at erased
      exact Except.ok.inj erased
    next => exact (ends_pure _).mpr (by rw [state]; exact ⟨rfl, rfl⟩)

theorem ends_beginUpload_target {len : Nat} :
    Ends (beginUpload opts ops area len) (fun _ u' => u'.target = (len, u.state.imgNum))
      (fun _ u' => Refused opts ops area len u u') u := by
  have rest : ∀ sector : Nat × Nat, Ends (do
      checkLength opts area len
      eraseSlot opts ops area
      assign fun s => { s with imgSize := len }
      setStartOff opts area) (fun _ u' => u'.target = (len, u.state.imgNum))
      (fun _ u' => Refused opts ops area len u u')
      ⟨{ u.state with currOff := 0, statusSector := sector }, u.dev⟩ := by
    intro sector
    rw [ends_bind]
    unfold checkLength
    split
    next beyond =>
      refine (ends_throw _).mpr ⟨rfl, rfl, .inr ⟨rfl, fun admits => ?_⟩⟩
      have := admits.fits
      omega
    next =>
      rw [ends_pure, ends_bind]
      refine (ends_eraseSlot_target len).mono ?_ ?_
      · rintro _ u' ⟨currOff, imgNum⟩
        rw [ends_bind, ends_assign]
        refine ends_setStartOff.mono ?_ ?_
        · rintro _ _ ⟨startOff, rfl, _⟩
          exact Prod.ext rfl imgNum
        · rintro _ _ rfl
          exact ⟨currOff, imgNum, .inl rfl⟩
      · rintro _ u' ⟨state, refused⟩
        rw [Refused, state]
        exact ⟨rfl, rfl, .inr ⟨rfl, refused⟩⟩
  unfold beginUpload
  rw [ends_bind, ends_assign, ends_bind]
  unfold findStatusSector
  split
  next fields =>
    split
    next absent =>
      refine (ends_throw _).mpr ⟨rfl, rfl, .inr ⟨rfl, fun admits => ?_⟩⟩
      have found := admits.status fields.1 fields.2
      simp [absent] at found
    next sector _ => exact (ends_assign _).mpr (rest sector)
  next => exact (ends_pure _).mpr (rest u.state.statusSector)

theorem upload_imgNum (opts : Options) (ops : Ops δ Nat) (areas : Nat → Option UploadArea)
    (req : Option Request) (u : Upload δ) : (upload opts ops areas req u).2.state.imgNum = usedNum req u.state := by
  refine Ends.upload_keeps (P := fun u' => u'.state.imgNum = usedNum req u.state) (ends_bsUpload ?_ ?_ ?_ ?_ ?_)
  · intro rc _ later
    exact (usedNum_of_not_starts later).symm
  · rintro r rc rfl data zero _
    exact (usedNum_of_starts zero data).symm
  · rintro r chunk area rfl data zero _
    have num := usedNum_of_starts (u := u) zero (Option.isSome_of_eq_some data)
    rw [ends_bind]
    refine ends_beginUpload_target.mono ?_ ?_
    · intro _ u' target
      exact ends_writeChunk_target fun _ same => (congrArg Prod.snd (same.trans target)).trans num.symm
    · rintro _ u' ⟨_, same, _⟩
      exact same.trans num.symm
  · rintro r area rfl later _ _
    exact (usedNum_of_not_starts (not_starts later)).symm
  · rintro r chunk area rfl data _ later _ _ _
    exact ends_writeChunk_target fun _ same =>
      (congrArg Prod.snd same).trans (usedNum_of_not_starts (not_starts later)).symm

/-- The request has received the last of an upload, in a slot that is open. -/
def LastReceived (areas : Nat → Option UploadArea) (req : Option Request) (before after : UploadState) : Prop :=
  (if starts req then 0 < after.imgSize else ¬ before.Complete) ∧ ∃ area, areas (usedNum req before) = some area ∧
      ∃ r, req = some r ∧ r.data.isSome = true ∧ r.off ≠ sizeMax

theorem lastReceived_first {s : UploadState} (zero : r.off = 0) (data : r.data.isSome = true)
    (present : areas r.imgNum = some area) (pos : 0 < s.imgSize) : LastReceived areas (some r) u.state s := by
  refine ⟨?_, area, ?_, r, rfl, data, by simp [zero, sizeMax]⟩
  · rwa [if_pos (starts_of_zero zero data)]
  · rwa [usedNum_of_starts zero data]

theorem lastReceived_later {s : UploadState} (later : r.off ≠ 0) (data : r.data.isSome = true)
    (given : r.off ≠ sizeMax) (present : areas u.state.imgNum = some area)
    (incomplete : ¬ u.state.Complete) : LastReceived areas (some r) u.state s := by
  refine ⟨?_, area, ?_, r, rfl, data, given⟩
  · rw [not_starts later]
    exact incomplete
  · rwa [usedNum_of_not_starts (not_starts later)]

theorem upload_orderly (orderly : Orderly opts ops areas req u)
    (complete : (upload opts ops areas req u).2.state.Complete) :
    LastReceived areas req u.state (upload opts ops areas req u).2.state := by
  revert complete
  refine Ends.upload_keeps (P := fun u' => u'.state.Complete → LastReceived areas req u.state u'.state)
    (ends_bsUpload ?_ ?_ ?_ ?_ ?_)
  · intro rc _ later complete
    simp [(orderly.next complete).1] at later
  · rintro r rc rfl data zero absent complete
    have opens := (orderly.next complete).2
    simp [usedNum_of_starts zero data, absent] at opens
  · rintro r chunk area rfl data zero present
    have some := Option.isSome_of_eq_some data
    obtain ⟨pos, admitted⟩ := orderly.first r area rfl (starts_of_zero zero some) present
    rw [ends_bind]
    refine ends_beginUpload_target.mono ?_ ?_
    · intro _ u₁ target
      refine ends_writeChunk_target fun u' same _ => lastReceived_first zero some present ?_
      have length : u'.state.imgSize = r.len := congrArg Prod.fst (same.trans target)
      omega
    · rintro _ u' ⟨start, _, size⟩ complete
      -- nothing of the new upload has been received, so it is complete only if it has no bytes
      refine lastReceived_first zero some present ?_
      rcases size with new | ⟨old, refused⟩
      · omega
      · have empty : u.state.imgSize = 0 := by
          rw [UploadState.Complete, start, old] at complete
          exact complete.symm
        exact absurd (admitted empty) refused
  · rintro r area rfl later _ present complete
    have first := (orderly.next complete).1
    simp [not_starts later] at first
  · rintro r chunk area rfl data given later _ present _
    have some := Option.isSome_of_eq_some data
    have incomplete : ¬ u.state.Complete := fun complete => by
      have first := (orderly.next complete).1
      simp [not_starts later] at first
    exact ends_writeChunk_target fun _ _ _ => lastReceived_later later some given present incomplete

end Step

/-! ### Runs -/

section Runs

variable {δ : Type} {opts : Options} {ops : Ops δ Nat} {areas : Nat → Option UploadArea}
  {primary : Nat → Bool} {handle : UploadArea → δ → δ} {req : Option Request} {e : EncUpload δ}

theorem encUpload_state : (encUpload opts ops areas primary handle req e).state =
    (upload opts ops areas req e.toUpload).2.state := by
  unfold encUpload
  simp only
  split <;> rfl

theorem encUpload_orderly (handle : UploadArea → δ → δ)
    (orderly : primary (usedNum req e.state) = true → Orderly opts ops areas req e.toUpload) :
    let next := encUpload opts ops areas primary handle req e
    (Completes opts ops areas primary req e.toUpload ∧ ∃ area, areas next.state.imgNum = some area ∧
        next.calls = e.calls ++ [some area] ∧ next.dev = handle area (upload opts ops areas req e.toUpload).2.dev) ∨
    (¬ Completes opts ops areas primary req e.toUpload ∧
      ¬ (primary next.state.imgNum = true ∧ next.state.Complete) ∧ next.calls = e.calls) := by
  simp only
  rw [encUpload_state]
  have num := upload_imgNum opts ops areas req e.toUpload
  by_cases called : primary (upload opts ops areas req e.toUpload).2.state.imgNum = true ∧
      (upload opts ops areas req e.toUpload).2.state.Complete
  · obtain ⟨last, area, present, r, rfl, data, given⟩ := upload_orderly (orderly (num ▸ called.1)) called.2
    refine .inl ⟨⟨called.1, called.2, last⟩, area, num ▸ present, ?_⟩
    have opened : openedArea areas (some r) (upload opts ops areas (some r) e.toUpload).2.state = some area := by
      rw [openedArea, Option.bind_some, if_pos ⟨data, given⟩, num]
      exact present
    unfold encUpload
    rw [if_pos called, opened]
    exact ⟨rfl, rfl⟩
  · refine .inr ⟨fun completes => called ⟨completes.1, completes.2.1⟩, called, ?_⟩
    unfold encUpload
    rw [if_neg called]

variable {reqs : List (Option Request)}

theorem calls_eq_completions (orderly : OrderlyRun opts ops areas primary handle reqs e) :
    (encUploadAll opts ops areas primary handle reqs e).calls =
      e.calls ++ (completions opts ops areas primary handle reqs e).map some := by
  induction reqs generalizing e with
  | nil => simp [encUploadAll, completions]
  | cons req reqs ih =>
    have rest := ih orderly.2
    rw [encUploadAll, List.foldl_cons]
    rw [encUploadAll] at rest
    rw [rest, completions]
    rcases encUpload_orderly handle orderly.1 with ⟨completes, area, present, calls, _⟩ | ⟨not, _, calls⟩
    · simp only [if_pos completes, present, calls]
      simp
    · simp only [if_neg not, calls]
      simp

theorem OrderlyRun.last (orderly : OrderlyRun opts ops areas primary handle (reqs ++ [req]) e) :
    primary (usedNum req (encUploadAll opts ops areas primary handle reqs e).state) = true →
      Orderly opts ops areas req (encUploadAll opts ops areas primary handle reqs e).toUpload := by
  induction reqs generalizing e with
  | nil => exact orderly.1
  | cons first reqs ih => exact ih orderly.2

end Runs

/-- If requests come in order, `boot_handle_enc_fw` is called once for each completed upload and for nothing else, and
the flash is what the last chunk has left, decrypted once. -/
theorem decrypts_once_per_upload {δ : Type} (opts : Options) (ops : Ops δ Nat)
    (areas : Nat → Option UploadArea) (primary : Nat → Bool) (handle : UploadArea → δ → δ) (dev : δ)
    (reqs : List (Option Request)) (orderly : OrderlyRun opts ops areas primary handle reqs (.reset dev)) :
    let run := encUploadAll opts ops areas primary handle reqs (.reset dev)
    run.calls = (completions opts ops areas primary handle reqs (.reset dev)).map some ∧
      (primary run.state.imgNum = true → run.state.Complete → 0 < run.state.imgSize →
        ∃ before req area, reqs = before ++ [req] ∧ areas run.state.imgNum = some area ∧
          run.dev = handle area (upload opts ops areas req
            (encUploadAll opts ops areas primary handle before (.reset dev)).toUpload).2.dev) := by
  intro run
  refine ⟨calls_eq_completions orderly, fun isPrimary complete pos => ?_⟩
  rcases List.eq_nil_or_concat reqs with rfl | ⟨before, req, rfl⟩
  · exact absurd pos (Nat.lt_irrefl 0)
  · rw [List.concat_eq_append] at orderly
    have last : run = encUpload opts ops areas primary handle req
        (encUploadAll opts ops areas primary handle before (.reset dev)) := by
      simp [run, encUploadAll, List.foldl_append]
    rcases encUpload_orderly handle orderly.last with ⟨_, area, present, _, decrypted⟩ | ⟨_, not, _⟩
    · exact ⟨before, req, area, List.concat_eq_append, last ▸ present, last ▸ decrypted⟩
    · exact absurd (last ▸ ⟨isPrimary, complete⟩) not

/-! ### A board -/

def slotOf : Nat → Area
  | 0 => .primary
  | _ => .secondary

def boardOps : Ops Flash Nat where
  write n off data fl := (0, fl.program (slotOf n) off data)
  erase n off len fl := (0, fl.erase (slotOf n) off len)
  write_le _ _ _ _ := Int.le_refl 0
  erase_le _ _ _ _ := Int.le_refl 0

/-- What `boot_handle_enc_fw` does to the flash of a board. -/
def boardHandle (bd : Board) (key : Option SerialEncryption.KeyStream) (area : UploadArea) (fl : Flash) : Flash :=
  (SerialEncryption.bootHandleEncFw bd key (slotOf area.id) fl).state

def encArea : UploadArea :=
  { UploadArea.twoSectors 0 384 with
    sectors := List.replicate 4 128
    sectors_align := by decide
    size_lt := by decide }

def encAreas (num : Nat) : Option UploadArea := if num = 0 then some encArea else none

def encPrimary (num : Nat) : Bool := num == 0

def encOptions : Options := ⟨true, false, false, false, false, 0, 0⟩

def encImage : Bytes := put32 imageMagic.toNat ++ put32 0 ++ put16 32 ++ put16 0 ++ put32 96 ++ put32 4 ++
    List.replicate 108 0 ++ [0x07, 0x69, 4, 0]

def encChunk (off : Nat) : Request where
  image := 0
  data := some ((encImage.drop off).take 100)
  len := 132
  off
  misaligned := false
  data_lt := by
    rintro chunk chunk_eq
    have := Option.some.inj chunk_eq
    subst this
    rw [List.length_take]
    omega

def encHandle : UploadArea → Flash → Flash := boardHandle SerialEncryption.decryptBoard (some fun _ => 1)

def encReset : EncUpload Flash := .reset fun _ _ => erasedVal

def encRun (reqs : List (Option Request)) : EncUpload Flash :=
  encUploadAll encOptions boardOps encAreas encPrimary encHandle reqs encReset

theorem encChunk_admitted {area : UploadArea} (present : encAreas 0 = some area) :
    Admits encOptions boardOps area 132 encReset.dev := by
  cases present
  exact ⟨fun _ fields => absurd fields (by decide), by decide, fun whole => absurd whole (by decide)⟩

theorem encRun_orderly : OrderlyRun encOptions boardOps encAreas encPrimary encHandle
    [some (encChunk 0), some (encChunk 100)] encReset := by
  refine ⟨fun _ => ⟨fun _ => ⟨rfl, rfl⟩, ?_⟩, fun _ => ⟨fun complete => ?_, ?_⟩, trivial⟩
  · rintro r area request _ present
    cases request
    exact ⟨by decide, fun _ => encChunk_admitted present⟩
  · exact absurd complete (by decide +kernel)
  · rintro r area request first _
    exact absurd first (by decide +kernel)

theorem decrypts_once_per_upload_two_chunks :
    let reqs := [some (encChunk 0), some (encChunk 100)]
    (encRun reqs).calls = (completions encOptions boardOps encAreas encPrimary encHandle reqs encReset).map some ∧
      encPrimary (encRun reqs).state.imgNum = true ∧ (encRun reqs).state.Complete ∧
      ∃ before req area, reqs = before ++ [req] ∧ encAreas (encRun reqs).state.imgNum = some area ∧
        (encRun reqs).dev = encHandle area (upload encOptions boardOps encAreas req (encRun before).toUpload).2.dev := by
  intro reqs
  have isPrimary : encPrimary (encRun reqs).state.imgNum = true := by decide +kernel
  have complete : (encRun reqs).state.Complete := by decide +kernel
  have pos : 0 < (encRun reqs).state.imgSize := by decide +kernel
  have run := decrypts_once_per_upload encOptions boardOps encAreas encPrimary encHandle
    (fun _ _ => erasedVal) reqs encRun_orderly
  unfold encRun encReset at *
  exact ⟨run.1, isPrimary, complete, run.2 isPrimary complete pos⟩

/-- The last chunk is sent again, and its upload decrypted twice. A request that cannot be decoded has
`boot_handle_enc_fw` called with NULL. -/
theorem resent_chunk_decrypted_again :
    let reqs := [some (encChunk 0), some (encChunk 100)]
    (completions encOptions boardOps encAreas encPrimary encHandle (reqs ++ [some (encChunk 100)])
        encReset).length = 1 ∧
      (encRun (reqs ++ [some (encChunk 100)])).calls.length = 2 ∧
      (encRun reqs).dev .primary 32 = 0 ^^^ 1 ∧
      (encRun (reqs ++ [some (encChunk 100)])).dev .primary 32 = 0 ∧
      (encRun [none]).calls = [none] :=
  ⟨by decide +kernel, by decide +kernel, by decide +kernel, by decide +kernel, rfl⟩

end Adaboot.Serial
