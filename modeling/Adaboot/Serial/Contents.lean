import Adaboot.Serial.Specs

/-!
# What a finished upload leaves in the slot

With progressive erase a finished upload has put its image into the slot, whatever requests were lost or repeated and
whatever failed, unless the image reaches into the sector of the status fields.
-/

namespace Adaboot.Serial

open Crash Nor

variable {δ : Type} {opts : Options} {ops : Ops δ Nat} {areas : Nat → Option UploadArea}
  {area : UploadArea} {view : δ → Nor.Flash Nat} {image : Bytes}

/-- The data is the part of the image at its offset, and a first request declares the length. -/
def FromImage (image : Bytes) (req : Option Request) : Prop := ∀ r chunk, req = some r → r.data = some chunk →
    chunk = (image.drop r.off).take chunk.length ∧ (r.off = 0 → r.len = image.length)

/-- The image ends before the sector with the status fields of the slot for which the upload is
started. -/
def StatusBehind (opts : Options) (areas : Nat → Option UploadArea) (image : Bytes) (req : Option Request) : Prop :=
  ∀ r area startOff sector, req = some r → r.off = 0 → opts.imageHasStatusFields = true →
    areas r.imgNum = some area → uploadStartOff opts area r.imgNum = some startOff →
    sectorAt area.sectors area.statusOff = some sector → startOff + image.length ≤ sector.1

/-! ### Parts of the image -/

section Slices

variable {chunk : Bytes} {off : Nat} (part : chunk = (image.drop off).take chunk.length)
include part

theorem part_getD {i : Nat} (lt : i < chunk.length) :
    off + i < image.length ∧ chunk.getD i 0 = image.getD (off + i) 0 := by
  have length := congrArg List.length part
  rw [List.length_take, List.length_drop] at length
  refine ⟨by omega, ?_⟩
  rw [part]
  simp [List.getD, lt]

theorem slice_part {k n : Nat}
    (le : k + n ≤ chunk.length) : Slice image (off + k) ((chunk.drop k).take n) := by
  intro i lt
  rw [List.length_take, List.length_drop] at lt
  obtain ⟨inside, byte⟩ := part_getD part (show k + i < chunk.length by omega)
  rw [if_pos (by omega), Nat.add_assoc, ← byte]
  simp [List.getD, show i < n by omega]

theorem slice_tail (last : image.length ≤ off + chunk.length) {k pad : Nat} (le : k ≤ chunk.length) :
    Slice image (off + k) (chunk.drop k ++ List.replicate pad erasedVal) := by
  intro i lt
  rw [List.length_append, List.length_drop, List.length_replicate] at lt
  by_cases within : i < chunk.length - k
  · obtain ⟨inside, byte⟩ := part_getD part (show k + i < chunk.length by omega)
    rw [if_pos (by omega), Nat.add_assoc, ← byte]
    simp [List.getD, List.getElem?_append, within, show k + i < chunk.length by omega]
  · rw [if_neg (by omega)]
    simp [List.getD, List.getElem?_append, within,
      show i - (chunk.length - k) < pad by omega]

end Slices

/-! ### One operation -/

section Operations

variable (sound : ops.Sound view) {base front : Nat}
include sound

theorem keeps_streams {p n : Nat} {data : Bytes} (slice : Slice image p data) (n_le : n ≤ data.length)
    (pos_le : p + n ≤ image.length) (erased : p + base + data.length ≤ area.size → base + (p + n) ≤ front) :
    Keeps (fun p d => Streams (view d) area.id base image p front) True ops area base p data n := by
  intro d streams
  split
  next accepted =>
    rw [Nat.add_comm p base]
    refine ⟨fun ok => ?_, fun failed => ⟨trivial, ?_⟩⟩
    · simp only [sound.write_ok _ _ _ _ ok]
      exact streams.program slice (by omega) pos_le (erased accepted.1)
    · obtain ⟨outside, masked⟩ := sound.write_failed _ _ _ _ failed
      exact streams.retry slice outside masked
  next => trivial

theorem advances_front {pos k : Nat} (inside : pos ≠ 0 → base + pos ≤ sectorOff area.sectors k) :
    Advances (fun i d => Streams (view d) area.id base image pos (sectorOff area.sectors i))
      (fun d => Streams (view d) area.id base image pos (sectorOff area.sectors k)) ops area k := by
  intro i d le lt streams
  have outside := sound.erase_outside area.id (sectorOff area.sectors i) (sectorSize area.sectors i) d
  have same : Flash.EqOn area.id 0 (sectorOff area.sectors i) (view d) (view (ops.erase area.id
      (sectorOff area.sectors i) (sectorSize area.sectors i) d).2) :=
    outside.eqOn fun _ => .inl le_rfl
  have mono := sectorOff_mono area.sectors le
  refine ⟨fun ok => ?_, fun failed => ?_⟩
  · simp only [sectorOff_succ lt]
    refine streams.extend (by omega) same ?_
    rw [sound.erase_ok _ _ _ _ ok]
    exact fun j lo hi => Flash.erase_inside _ _ lo hi
  · exact (streams.congr fun j _ below => same _ (Nat.zero_le _) below).anti le_rfl mono inside

theorem advances_behind {pos m : Nat} (behind : base + image.length ≤ sectorOff area.sectors m) :
    Advances (fun _ d => Streams (view d) area.id base image pos front)
      (fun d => Streams (view d) area.id base image pos front) ops area m := by
  intro i d le _ streams
  have outside := sound.erase_outside area.id (sectorOff area.sectors i) (sectorSize area.sectors i) d
  have mono := sectorOff_mono area.sectors le
  have kept : Streams (view (ops.erase area.id (sectorOff area.sectors i)
      (sectorSize area.sectors i) d).2) area.id base image pos front :=
    streams.congr fun j lt _ => outside _ _ fun _ => .inl (by omega)
  exact ⟨fun _ => kept, fun _ => kept⟩

end Operations

/-! ### One request -/

/-- The image is being received in the area, and `front` has been erased. -/
structure Receiving (opts : Options) (area : UploadArea) (view : δ → Nor.Flash Nat) (image : Bytes)
    (num front : Nat) (u : Upload δ) : Prop where
  imgNum : u.state.imgNum = num
  imgSize : u.state.imgSize = image.length
  startOff : uploadStartOff opts area num = some u.state.startOff
  statusSector : opts.imageHasStatusFields = true → sectorAt area.sectors area.statusOff = some u.state.statusSector ∧
      u.state.startOff + image.length ≤ u.state.statusSector.1
  front_le : front ≤ area.size
  /-- The front is known until an erase fails. -/
  erased : (∃ k, u.state.notYetErased = sectorOff area.sectors k ∧ front = sectorOff area.sectors k) ∨
    u.state.notYetErased = -eInval
  aligned : area.align ∣ u.state.currOff ∨ u.state.currOff = image.length
  streams : Streams (view u.dev) area.id u.state.startOff image u.state.currOff front

section Chunks

variable {num front : Nat} {u u' : Upload δ} {chunk : Bytes} {misaligned : Bool}

theorem Receiving.move (receiving : Receiving opts area view image num front u) {c : Nat}
    (state : u'.state = { u.state with currOff := c }) (aligned : area.align ∣ c ∨ c = image.length)
    (streams : Streams (view u'.dev) area.id u.state.startOff image c front) :
    Receiving opts area view image num front u' := by
  obtain ⟨imgNum, imgSize, startOff, statusSector, front_le, erased, _, _⟩ := receiving
  obtain ⟨_, dev⟩ := u'
  obtain rfl := state
  exact ⟨imgNum, imgSize, startOff, statusSector, front_le, erased, aligned, streams⟩

theorem Receiving.currOff_le (receiving : Receiving opts area view image num front u) :
    u.state.currOff ≤ area.size := by
  have inside := receiving.streams.inside
  have front_le := receiving.front_le
  omega

theorem ends_finishUpload_receiving (sound : ops.Sound view) (receiving : Receiving opts area view image num front u) :
    Ends (finishUpload opts ops area) (fun _ => Receiving opts area view image num front)
      (fun _ => Receiving opts area view image num front) u := by
  rw [finishUpload, ends_bind, ends_getState]
  split
  next complete =>
    obtain ⟨found, behind⟩ := receiving.statusSector complete.2.2
    obtain ⟨m, _, sector, _⟩ := sectorAt_eq_some found
    rw [sector] at behind
    rw [sector, ends_bind]
    refine (ends_eraseRange (fun _ => receiving.streams) (advances_behind sound behind)
      receiving.streams).mono ?_ fun _ _ h => h
    rintro rc u' ⟨state, after⟩
    have streams : Streams (view u'.dev) area.id u.state.startOff image u.state.currOff front := by
      rcases after with ⟨_, _, _, _, streams⟩ | ⟨_, streams⟩
      · exact streams
      · exact streams
    have kept : Receiving opts area view image num front u' := receiving.move state receiving.aligned streams
    split
    · exact (ends_throw _).mpr kept
    · exact (ends_pure _).mpr kept
  next => exact (ends_pure _).mpr receiving

theorem ends_storeChunk_receiving (sound : ops.Sound view) (receiving : Receiving opts area view image num front u)
    (part : chunk = (image.drop u.state.currOff).take chunk.length) (chunk_lt : chunk.length < 2 ^ 31)
    (reach : u.state.currOff + u.state.startOff ≤ area.size →
      u.state.currOff + chunk.length + u.state.startOff ≤ front) :
    Ends (storeChunk opts ops area misaligned chunk) (fun _ => Receiving opts area view image num front)
      (fun _ => Receiving opts area view image num front) u := by
  have small := area.size_lt
  have le := receiving.currOff_le
  have length := congrArg List.length part
  rw [List.length_take, List.length_drop] at length
  have pos_le := receiving.streams.pos_le
  refine ends_storeChunk (X := True) (I := fun p d => Streams (view d) area.id u.state.startOff image p front)
    (by unfold UploadArea.size at le; omega) ?_ ?_ ?_ receiving.streams ?_ ?_
  · intro p q d le streams
    exact streams.anti le le_rfl fun moved => by
      have := streams.inside (by omega)
      omega
  · intro k n le _
    refine keeps_streams sound (slice_part part (by omega)) ?_ (by omega) fun room => ?_
    · rw [List.length_take, List.length_drop]
      omega
    · omega
  · intro last _ tail tail_eq
    rw [receiving.imgSize] at last
    rw [tail_eq]
    refine keeps_streams sound (slice_tail part last (by omega)) (by simp) ?_ fun room => ?_
    · rw [List.length_drop]
      omega
    · rw [List.length_drop]
      omega
  · intro rc u' c _ above below whole state streams
    refine receiving.move state ?_ streams
    rcases receiving.aligned with aligned | done
    · exact .inl (Nat.add_sub_cancel' above ▸ Nat.dvd_add aligned whole)
    · exact .inr (by omega)
  · rintro u' c rfl state streams
    refine ends_finishUpload_receiving sound (receiving.move state ?_ streams)
    rw [receiving.imgSize]
    exact aligned_chunkEnd receiving.aligned (by omega)

theorem ends_writeChunk_receiving (progressive : opts.eraseProgressively = true)
    (sound : ops.Sound view) (receiving : Receiving opts area view image num front u)
    (part : chunk = (image.drop u.state.currOff).take chunk.length) (chunk_lt : chunk.length < 2 ^ 31) :
    Ends (writeChunk opts ops area misaligned chunk) (fun _ u' => ∃ front, Receiving opts area view image num front u')
      (fun _ u' => ∃ front, Receiving opts area view image num front u') u := by
  have small := area.size_lt
  unfold writeChunk
  rw [if_pos progressive, ends_bind]
  rcases receiving.erased with ⟨k, erased, rfl⟩ | invalid
  · refine (ends_eraseForChunk erased (fun _ => receiving.streams)
      (advances_front sound receiving.streams.inside) receiving.streams).mono ?_ ?_
    · rintro _ _ ⟨k', dev, le, rfl, reach, streams⟩
      have front_le : sectorOff area.sectors k' ≤ area.size := sectorOff_le_sum _ _
      have next : Receiving opts area view image num (sectorOff area.sectors k')
          ⟨{ u.state with notYetErased := sectorOff area.sectors k' }, dev⟩ :=
        ⟨receiving.imgNum, receiving.imgSize, receiving.startOff, receiving.statusSector, front_le,
          .inl ⟨k', rfl, rfl⟩, receiving.aligned, streams⟩
      refine (ends_storeChunk_receiving sound next part chunk_lt ?_).mono (fun _ _ h => ⟨_, h⟩) fun _ _ h => ⟨_, h⟩
      intro room
      simp only at room ⊢
      unfold UploadArea.size at *
      unfold u32 at reach
      omega
    · rintro _ _ ⟨dev, rfl, streams⟩
      exact ⟨_, receiving.imgNum, receiving.imgSize, receiving.startOff, receiving.statusSector,
        receiving.front_le, .inr rfl, receiving.aligned, streams⟩
  · exact ends_eraseForChunk_invalid invalid ⟨front, receiving⟩

end Chunks

/-! ### All requests -/

section Runs

variable {u : Upload δ} {req : Option Request}

/-- Nothing has been received in the area in use, or it is receiving the image. -/
def Consistent (opts : Options) (areas : Nat → Option UploadArea) (view : δ → Nor.Flash Nat) (image : Bytes)
    (u : Upload δ) : Prop :=
  ∀ area, areas u.state.imgNum = some area →
    u.state.currOff = 0 ∨ ∃ front, Receiving opts area view image u.state.imgNum front u

theorem Receiving.consistent {num front : Nat} (receiving : Receiving opts area view image num front u)
    (present : areas num = some area) : Consistent opts areas view image u := by
  obtain rfl := receiving.imgNum
  intro area' present'
  cases present.symm.trans present'
  exact .inr ⟨front, receiving⟩

theorem ends_bsUpload_consistent (progressive : opts.eraseProgressively = true) (sound : ops.Sound view)
    (part : FromImage image req) (behind : StatusBehind opts areas image req)
    (consistent : Consistent opts areas view image u) : Ends (bsUpload opts ops areas req)
      (fun _ u' => Consistent opts areas view image u' ∧ ∃ area, areas u'.state.imgNum = some area)
      (fun _ u' => Consistent opts areas view image u') u := by
  refine ends_bsUpload (fun _ _ _ => consistent) ?_ ?_ (fun _ area _ _ _ present => ⟨consistent, area, present⟩) ?_
  · intro r rc _ _ _ absent area present
    simp [absent] at present
  · intro r chunk area request data zero present
    obtain ⟨slice, declared⟩ := part r chunk request data
    rw [zero] at slice
    rw [ends_bind]
    refine (ends_beginUpload (P := fun _ => True) (fun _ _ _ _ => trivial) trivial).mono ?_ ?_
    · rintro _ u' ⟨begun, _⟩
      have receiving : Receiving opts area view image r.imgNum 0 u' :=
        { imgNum := begun.imgNum
          imgSize := begun.imgSize.trans (declared zero)
          startOff := begun.startOff
          statusSector := fun fields =>
            have found := begun.statusSector progressive fields
            ⟨found, behind r area _ _ request zero fields present begun.startOff found⟩
          front_le := Nat.zero_le _
          erased := .inl ⟨0, by rw [begun.notYetErased progressive]; simp, by simp⟩
          aligned := .inl (begun.currOff ▸ Nat.dvd_zero _)
          streams := by
            rw [begun.currOff]
            exact Streams.start _ _ _ _ }
      refine (ends_writeChunk_receiving progressive sound receiving ?_ (r.data_lt chunk data)).mono ?_ ?_
      · rwa [begun.currOff]
      · rintro _ u'' ⟨front, after⟩
        exact ⟨after.consistent present, area, after.imgNum ▸ present⟩
      · rintro _ u'' ⟨front, after⟩
        exact after.consistent present
    · rintro _ u' ⟨unbegun, _⟩
      exact fun _ _ => .inl unbegun.currOff
  · intro r chunk area request data _ later expected present _
    obtain ⟨slice, _⟩ := part r chunk request data
    rw [expected] at slice later
    rcases consistent area present with none | ⟨front, receiving⟩
    · exact absurd none later
    refine (ends_writeChunk_receiving progressive sound receiving slice (r.data_lt chunk data)).mono ?_ ?_
    · rintro _ u'' ⟨front, after⟩
      exact ⟨after.consistent present, area, after.imgNum ▸ present⟩
    · rintro _ u'' ⟨front, after⟩
      exact after.consistent present

theorem uploadAll_consistent (progressive : opts.eraseProgressively = true) (sound : ops.Sound view)
    {reqs : List (Option Request)} (parts : ∀ req ∈ reqs, FromImage image req)
    (behind : ∀ req ∈ reqs, StatusBehind opts areas image req) (consistent : Consistent opts areas view image u) :
    Consistent opts areas view image (uploadAll opts ops areas reqs u) := by
  induction reqs generalizing u with
  | nil => exact consistent
  | cons req reqs ih =>
    refine ih (fun req mem => parts req (List.mem_cons_of_mem _ mem))
      (fun req mem => behind req (List.mem_cons_of_mem _ mem)) ?_
    have ends : Ends (bsUpload opts ops areas req) _ _ u := ends_bsUpload_consistent progressive sound
      (parts req List.mem_cons_self) (behind req List.mem_cons_self) consistent
    rcases ends.upload with ⟨_, kept, _⟩ | ⟨_, _, kept⟩
    · exact kept
    · exact kept

end Runs

/-- An answer that reports the length of the image means that the slot has the image from its start offset on. -/
theorem finished_upload_contents (opts : Options) (ops : Ops δ Nat) (areas : Nat → Option UploadArea)
    (view : δ → Nor.Flash Nat) (sound : ops.Sound view) (progressive : opts.eraseProgressively = true)
    (image : Bytes) (dev : δ) (reqs : List (Option Request)) (req : Option Request)
    (parts : ∀ r ∈ reqs ++ [req], FromImage image r)
    (behind : ∀ r ∈ reqs ++ [req], StatusBehind opts areas image r) :
    let after := upload opts ops areas req (uploadAll opts ops areas reqs ⟨UploadState.zero, dev⟩)
    after.1 = ⟨0, some image.length⟩ → ∃ area, areas after.2.state.imgNum = some area ∧
        (image ≠ [] → uploadStartOff opts area after.2.state.imgNum = some after.2.state.startOff) ∧
        ∀ i, i < image.length →
          view after.2.dev area.id (after.2.state.startOff + i) = image.getD i 0 := by
  intro after finished
  have before : Consistent opts areas view image (uploadAll opts ops areas reqs ⟨UploadState.zero, dev⟩) :=
    uploadAll_consistent progressive sound (fun r mem => parts r (List.mem_append_left _ mem))
      (fun r mem => behind r (List.mem_append_left _ mem)) fun _ _ => .inl rfl
  have ends : Ends (bsUpload opts ops areas req) _ _ _ := ends_bsUpload_consistent progressive sound
    (parts req (by simp)) (behind req (by simp)) before
  rcases ends.upload with ⟨answer, consistent, area, present⟩ | ⟨rc, answer, _⟩
  · have reached : after.2.state.currOff = image.length := by
      simpa using answer.symm.trans finished
    refine ⟨area, present, ?_⟩
    rcases consistent area present with none | ⟨front, receiving⟩
    · have empty : image.length = 0 := reached.symm.trans none
      exact ⟨fun some => absurd (List.eq_nil_of_length_eq_zero empty) some, fun i lt => by omega⟩
    · exact ⟨fun _ => receiving.startOff, fun i lt => receiving.streams.written i (reached.symm ▸ lt)⟩
  · have := answer.symm.trans finished
    simp at this

def progressiveOptions : Options := ⟨true, true, false, false, false, 0, 0⟩

def statusArea : UploadArea := .twoSectors 1 20

def statusAreas (num : Nat) : Option UploadArea := if num = 0 then some statusArea else none

def zeros : Request := { Request.eight 0 24 with data := some (List.replicate 24 0), data_lt := by simp }

theorem finished_upload_contents_demo :
    let image : Bytes := List.replicate 16 0
    let after := upload progressiveOptions Ops.flash statusAreas (some (.lastEight 0))
      (uploadAll progressiveOptions Ops.flash statusAreas [some (.eight 0 16)] ⟨UploadState.zero, fun _ _ => 1⟩)
    after.1 = ⟨0, some 16⟩ ∧ ∃ area, statusAreas after.2.state.imgNum = some area ∧
        (image ≠ [] → uploadStartOff progressiveOptions area after.2.state.imgNum = some after.2.state.startOff) ∧
        ∀ i, i < image.length → after.2.dev area.id (after.2.state.startOff + i) = image.getD i 0 := by
  intro image after
  have answer : after.1 = ⟨0, some 16⟩ := by decide
  refine ⟨answer, finished_upload_contents progressiveOptions Ops.flash statusAreas id Ops.sound_flash rfl
    image _ [some (.eight 0 16)] (some (.lastEight 0)) ?_ ?_ answer⟩
  · intro r mem
    rcases List.mem_pair.mp mem with rfl | rfl <;> rintro r chunk ⟨⟩ ⟨⟩ <;> decide
  · intro r mem
    rcases List.mem_pair.mp mem with rfl | rfl
    · rintro r area startOff sector ⟨⟩ _ _ ⟨⟩ ⟨⟩ ⟨⟩
      decide
    · rintro r area startOff sector ⟨⟩ ⟨⟩

/-- An image that reaches into the sector of the status fields is complete although its end has been erased. -/
theorem finished_upload_erased :
    let after := upload progressiveOptions Ops.flash statusAreas (some zeros) ⟨UploadState.zero, fun _ _ => 0⟩
    FromImage (List.replicate 24 0) (some zeros) ∧ after.1 = ⟨0, some 24⟩ ∧
      statusAreas after.2.state.imgNum = some statusArea ∧
      ¬ ∀ i, i < 24 → after.2.dev statusArea.id (after.2.state.startOff + i) =
        (List.replicate 24 (0 : UInt8)).getD i 0 := by
  refine ⟨?_, by decide, rfl, fun same => ?_⟩
  · rintro r chunk ⟨⟩ ⟨⟩
    decide
  · exact absurd (same 16 (by decide)) (by decide)

end Adaboot.Serial
