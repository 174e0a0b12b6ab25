import Adaboot.Serial.Contents
import Mathlib.Algebra.BigOperators.Ring.List

/-!
# Uploads that come to an end

A client that goes on from the offset of the last answer completes its upload if flash works, the image fits behind
its start offset and the buffer suits the write alignment. The first chunk is accepted in more cases.
-/

namespace Adaboot.Serial

open Crash Nor

variable {δ : Type} {opts : Options} {ops : Ops δ Nat} {areas : Nat → Option UploadArea} {area : UploadArea}

/-! ### The client -/

/-- Request number `k` if the last answer was the offset `off`: at least one write block, or what is left. -/
structure Client (align len : Nat) where
  request : (k off : Nat) → Request
  chunk : (k off : Nat) → Bytes
  off_eq : ∀ k off, (request k off).off = off
  data_eq : ∀ k off, (request k off).data = some (chunk k off)
  nonempty : ∀ k off, off < len → chunk k off ≠ []
  within : ∀ k off, off < len → off + (chunk k off).length ≤ len
  block : ∀ k off, off < len → align ≤ (chunk k off).length ∨ off + (chunk k off).length = len

/-- The upload after `k` requests of the client, and the offset of the last answer. -/
def session (opts : Options) (ops : Ops δ Nat) (areas : Nat → Option UploadArea) {align len : Nat}
    (client : Client align len) (start : Upload δ × Nat) : Nat → Upload δ × Nat
  | 0 => start
  | k + 1 =>
    let s := session opts ops areas client start k
    let after := upload opts ops areas (some (client.request k s.2)) s.1
    (after.2, after.1.off.getD s.2)

/-- A client that sends all that is left, from an address that is not aligned. -/
def greedyClient {align : Nat} (lt : align < 2 ^ 31) (len : Nat) : Client align len where
  request _ off := {
    image := 0
    data := some (List.replicate (min (len - off) (2 ^ 31 - 1)) 0)
    len := len
    off := off
    misaligned := true
    data_lt := fun chunk data => by
      cases data
      rw [List.length_replicate]
      omega }
  chunk _ off := List.replicate (min (len - off) (2 ^ 31 - 1)) 0
  off_eq _ _ := rfl
  data_eq _ _ := rfl
  nonempty _ off lt empty := by
    have := congrArg List.length empty
    rw [List.length_replicate, List.length_nil] at this
    omega
  within _ off lt := by
    rw [List.length_replicate]
    omega
  block _ off lt := by
    rw [List.length_replicate]
    omega

/-! ### Where an upload stands -/

/-- An upload of `len` bytes from `base` on. A position that was reached shows that the start is aligned. -/
structure Placed (opts : Options) (area : UploadArea) (num len base : Nat) (u : Upload δ) : Prop where
  imgNum : u.state.imgNum = num
  imgSize : u.state.imgSize = len
  startOff : u.state.startOff = base
  statusSector : opts.eraseProgressively = true → opts.imageHasStatusFields = true →
    sectorAt area.sectors area.statusOff = some u.state.statusSector
  erased : opts.eraseProgressively = true →
    (∃ k, u.state.notYetErased = sectorOff area.sectors k) ∨ u.state.notYetErased = -eInval
  room : u.state.currOff ≠ 0 → area.align ∣ base ∧ base + u.state.currOff ≤ area.size

section Chunks

variable {num len base : Nat} {u u' : Upload δ} {chunk : Bytes} {misaligned : Bool}

theorem Placed.move (placed : Placed opts area num len base u) {c : Nat}
    (state : u'.state = { u.state with currOff := c })
    (room : c ≠ 0 → area.align ∣ base ∧ base + c ≤ area.size) :
    Placed opts area num len base u' := by
  obtain ⟨imgNum, imgSize, startOff, statusSector, erased, _⟩ := placed
  obtain ⟨_, dev⟩ := u'
  obtain rfl := state
  exact ⟨imgNum, imgSize, startOff, statusSector, erased, room⟩

theorem Placed.currOff_lt (placed : Placed opts area num len base u) : u.state.currOff < 2 ^ 31 := by
  have small := area.size_lt
  have room := placed.room
  unfold UploadArea.size at room
  omega

variable {p n align imgSize currOff : Nat} {data : Bytes}

theorem keeps_room (n_le : n ≤ data.length) :
    Keeps (fun p (_ : δ) => p ≠ 0 → area.align ∣ base ∧ base + p ≤ area.size) True ops area base p data n := by
  intro d room
  split
  next accepted =>
    refine ⟨fun _ moved => ⟨?_, by omega⟩, fun _ => ⟨trivial, room⟩⟩
    by_cases zero : p = 0
    · have aligned := accepted.2.1
      rwa [zero, Nat.zero_add] at aligned
    · exact (room zero).1
  next => trivial

theorem ends_storeChunk_placed (placed : Placed opts area num len base u) (chunk_lt : chunk.length < 2 ^ 31) :
    Ends (storeChunk opts ops area misaligned chunk)
      (fun _ u' => Placed opts area num len base u' ∧ u'.state.notYetErased = u.state.notYetErased ∧
        u'.state.currOff = chunkEnd area.align len u.state.currOff chunk.length)
      (fun _ u' => Placed opts area num len base u' ∧ u.state.currOff ≤ u'.state.currOff) u := by
  have currOff_lt := placed.currOff_lt
  refine ends_storeChunk (X := True) (I := fun p (_ : δ) => p ≠ 0 → area.align ∣ base ∧ base + p ≤ area.size)
    (by omega) ?_ ?_ ?_ placed.room ?_ ?_
  · intro p q _ le room moved
    obtain ⟨aligned, inside⟩ := room (by omega)
    exact ⟨aligned, by omega⟩
  · intro k n le _
    rw [placed.startOff]
    exact keeps_room (by rw [List.length_take, List.length_drop]; omega)
  · intro _ _ tail _
    rw [placed.startOff]
    exact keeps_room (by simp)
  · intro rc u' c _ le _ _ state room
    exact ⟨placed.move state room, by rw [state]; exact le⟩
  · intro u' c c_eq state room
    have moved : Placed opts area num len base u' := placed.move state room
    rw [placed.imgSize] at c_eq
    have unmoved : ∀ u'' : Upload δ, u''.state = u'.state → Placed opts area num len base u'' := by
      intro u'' state'
      exact moved.move (c := u'.state.currOff) state' (by rw [state]; exact room)
    refine (ends_finishUpload_kept (P := fun _ => True) (fun _ _ _ _ => trivial) trivial).mono ?_ ?_
    · rintro _ u'' ⟨state', _⟩
      exact ⟨unmoved u'' state', by rw [state', state], by rw [state', state]; exact c_eq⟩
    · rintro _ u'' ⟨state', _⟩
      refine ⟨unmoved u'' state', ?_⟩
      rw [state', state]
      exact c_eq ▸ le_chunkEnd _ _ _ _

theorem ends_eraseForChunk_placed (placed : Placed opts area num len base u)
    (progressive : opts.eraseProgressively = true) : Ends (eraseForChunk ops area n)
      (fun _ u' => Placed opts area num len base u' ∧ u'.state.currOff = u.state.currOff ∧
        ∃ k, u'.state.notYetErased = sectorOff area.sectors k)
      (fun _ u' => Placed opts area num len base u' ∧ u'.state.currOff = u.state.currOff) u := by
  have front : ∀ (n : Int) (dev : δ), ((∃ k, n = sectorOff area.sectors k) ∨ n = -eInval) →
      Placed opts area num len base (⟨{ u.state with notYetErased := n }, dev⟩ : Upload δ) := fun n dev front =>
    ⟨placed.imgNum, placed.imgSize, placed.startOff, placed.statusSector, fun _ => front, placed.room⟩
  rcases placed.erased progressive with ⟨k, erased⟩ | invalid
  · refine (ends_eraseForChunk (J := fun _ _ => True) (F := fun _ => True) erased
      (fun _ => trivial) (fun _ _ _ _ _ => ⟨fun _ => trivial, fun _ => trivial⟩) trivial).mono ?_ ?_
    · rintro _ _ ⟨k', dev, _, rfl, _⟩
      exact ⟨front _ dev (.inl ⟨k', rfl⟩), rfl, k', rfl⟩
    · rintro _ _ ⟨dev, rfl, _⟩
      exact ⟨front _ dev (.inr rfl), rfl⟩
  · exact ends_eraseForChunk_invalid invalid ⟨placed, rfl⟩

theorem ends_writeChunk_placed (placed : Placed opts area num len base u) (chunk_lt : chunk.length < 2 ^ 31) :
    Ends (writeChunk opts ops area misaligned chunk) (fun _ u' => Placed opts area num len base u' ∧
        (opts.eraseProgressively = true → ∃ k, u'.state.notYetErased = sectorOff area.sectors k) ∧
        u'.state.currOff = chunkEnd area.align len u.state.currOff chunk.length)
      (fun _ u' => Placed opts area num len base u' ∧ u.state.currOff ≤ u'.state.currOff) u := by
  unfold writeChunk
  split
  next progressive =>
    rw [ends_bind]
    refine (ends_eraseForChunk_placed placed progressive).mono ?_ ?_
    · rintro _ u' ⟨placed', same, k, erased⟩
      rw [← same]
      refine (ends_storeChunk_placed placed' chunk_lt).mono ?_ fun _ _ h => h
      rintro _ u'' ⟨placed'', erased', moved⟩
      exact ⟨placed'', fun _ => ⟨k, erased'.trans erased⟩, moved⟩
    · rintro _ u' ⟨placed', same⟩
      exact ⟨placed', same.symm.le⟩
  next whole =>
    refine (ends_storeChunk_placed placed chunk_lt).mono ?_ fun _ _ h => h
    rintro _ u' ⟨placed', _, moved⟩
    exact ⟨placed', fun progressive => absurd progressive whole, moved⟩

/-! ### Chunks that are written -/

/-- The image fits into the area and the upload is at a position where it can go on. -/
structure Running (opts : Options) (area : UploadArea) (num len base : Nat) (u : Upload δ) : Prop
    extends Placed opts area num len base u where
  fits : base + len ≤ area.size
  aligned : area.align ∣ base ∧ (area.align ∣ u.state.currOff ∨ u.state.currOff = len)
  front : opts.eraseProgressively = true → ∃ k, u.state.notYetErased = sectorOff area.sectors k

theorem UploadArea.align_dvd_size (area : UploadArea) : area.align ∣ area.size :=
  List.dvd_sum fun size mem => (area.sectors_align size mem).2

theorem keeps_works (works : ops.Works)
    (room : p + base + data.length ≤ area.size) (aligned : area.align ∣ p + base) (length : area.align ∣ data.length) :
    Keeps (fun _ (_ : δ) => True) False ops area base p data n := by
  intro d _
  rw [if_pos ⟨room, aligned, length⟩]
  exact ⟨fun _ => trivial, fun failed => absurd (works.write _ _ _ _) failed⟩

theorem advances_works (works : ops.Works) (k : Nat) : Advances (fun _ (_ : δ) => True) (fun _ => False) ops area k :=
  fun _ _ _ _ _ => ⟨fun _ => trivial, fun failed => failed (works.erase _ _ _ _)⟩

theorem ends_finishUpload_works (works : ops.Works)
    (status : opts.eraseProgressively = true → opts.imageHasStatusFields = true →
      sectorAt area.sectors area.statusOff = some u.state.statusSector) :
    Ends (finishUpload opts ops area) (fun _ u' => u'.state = u.state) (fun _ _ => False) u := by
  rw [finishUpload, ends_bind, ends_getState]
  split
  next complete =>
    obtain ⟨m, lt, sector, _⟩ := sectorAt_eq_some (status complete.2.1 complete.2.2)
    have inside : sectorOff area.sectors m < area.size := by
      have le : sectorOff area.sectors (m + 1) ≤ area.size := sectorOff_le_sum _ _
      omega
    rw [sector, ends_bind]
    refine (ends_eraseRange (fun outside => by omega) (advances_works works m) trivial).mono ?_ fun _ _ h => h
    rintro rc u' ⟨state, ⟨k, _, rfl, _⟩ | ⟨_, impossible⟩⟩
    · rw [if_neg (by omega), ends_pure]
      exact state
    · exact impossible.elim
  next => exact (ends_pure _).mpr rfl

theorem chunkEnd_le (le : currOff + n ≤ imgSize) :
    chunkEnd align imgSize currOff n ≤ imgSize := by
  unfold chunkEnd
  split <;> omega

theorem ends_storeChunk_works (works : ops.Works) (running : Running opts area num len base u)
    (before : u.state.currOff < len) (le : u.state.currOff + chunk.length ≤ len)
    (chunk_lt : chunk.length < 2 ^ 31) (buffer : Fits opts area (chunk.length - chunk.length % area.align)) :
    Ends (storeChunk opts ops area misaligned chunk) (fun _ u' => u'.state =
        { u.state with currOff := chunkEnd area.align len u.state.currOff chunk.length })
      (fun _ _ => False) u := by
  have currOff_lt := running.currOff_lt
  have fits := running.fits
  obtain ⟨base_aligned, aligned | done⟩ := running.aligned
  case inr => omega
  refine ends_storeChunk (X := False) (I := fun _ (_ : δ) => True) (by omega) (fun _ _ => trivial) ?_ ?_ trivial ?_ ?_
  · intro k n within pieces
    obtain ⟨k_aligned, n_aligned⟩ := pieces buffer
    have length : ((chunk.drop k).take n).length = n := by
      rw [List.length_take, List.length_drop]
      omega
    rw [running.startOff]
    exact keeps_works works (by omega) (Nat.dvd_add (Nat.dvd_add aligned k_aligned) base_aligned)
      (length.symm ▸ n_aligned)
  · -- the block of the tail ends inside the area, as both its start and the area are aligned
    intro _ rest tail tail_eq
    have length : (tail ++ List.replicate (area.align - tail.length) erasedVal).length = area.align := by
      have lt := Nat.mod_lt chunk.length area.align_pos
      rw [List.length_append, List.length_replicate, tail_eq, List.length_drop]
      omega
    have start : area.align ∣ u.state.currOff + (chunk.length - chunk.length % area.align) + base :=
      Nat.dvd_add (Nat.dvd_add aligned (Nat.dvd_sub_mod _)) base_aligned
    rw [running.startOff]
    refine keeps_works works ?_ start (length.symm ▸ Nat.dvd_refl _)
    have gap := Nat.le_of_dvd (by omega) (Nat.dvd_sub area.align_dvd_size start)
    omega
  · exact fun _ _ _ impossible => impossible.elim
  · rintro u' c rfl state _
    have status := running.statusSector
    refine (ends_finishUpload_works works (by rw [state]; exact status)).mono ?_ fun _ _ h => h
    intro _ u'' state'
    rw [state', state, running.imgSize]

theorem ends_writeChunk_works (works : ops.Works) (running : Running opts area num len base u)
    (before : u.state.currOff < len) (nonempty : chunk ≠ []) (le : u.state.currOff + chunk.length ≤ len)
    (chunk_lt : chunk.length < 2 ^ 31) (buffer : Fits opts area (chunk.length - chunk.length % area.align)) :
    Ends (writeChunk opts ops area misaligned chunk) (fun _ u' => Running opts area num len base u' ∧
        u'.state.currOff = chunkEnd area.align len u.state.currOff chunk.length) (fun _ _ => False) u := by
  obtain ⟨base_aligned, aligned | done⟩ := running.aligned
  case inr => omega
  have fits := running.fits
  have end_le : chunkEnd area.align len u.state.currOff chunk.length ≤ len := chunkEnd_le le
  have running' : ∀ u' : Upload δ, ∀ n, u'.state = { u.state with
        currOff := chunkEnd area.align len u.state.currOff chunk.length, notYetErased := n } →
      (opts.eraseProgressively = true → ∃ k, n = sectorOff area.sectors k) →
      Running opts area num len base u' := by
    rintro ⟨_, dev⟩ n rfl front
    exact { imgNum := running.imgNum, imgSize := running.imgSize, startOff := running.startOff
            statusSector := running.statusSector, erased := fun progressive => .inl (front progressive)
            room := fun _ => ⟨base_aligned, by simp only; omega⟩
            fits := fits, aligned := ⟨base_aligned, aligned_chunkEnd (.inl aligned) le⟩, front := front }
  unfold writeChunk
  split
  next progressive =>
    obtain ⟨k, erased⟩ := running.front progressive
    have length_pos : 0 < chunk.length := List.length_pos_of_ne_nil nonempty
    rw [ends_bind]
    refine (ends_eraseForChunk erased (fun outside => ?_) (advances_works works k) trivial).mono ?_ ?_
    · rw [running.startOff] at outside
      unfold u32 at outside
      omega
    · rintro _ _ ⟨k', dev, _, rfl, _⟩
      have next : Running opts area num len base
          (⟨{ u.state with notYetErased := sectorOff area.sectors k' }, dev⟩ : Upload δ) :=
        { imgNum := running.imgNum, imgSize := running.imgSize, startOff := running.startOff
          statusSector := running.statusSector, erased := fun _ => .inl ⟨k', rfl⟩
          room := running.room, fits := fits, aligned := running.aligned, front := fun _ => ⟨k', rfl⟩ }
      refine (ends_storeChunk_works works next before le chunk_lt buffer).mono ?_ fun _ _ h => h
      intro _ u' state
      exact ⟨running' u' _ state fun _ => ⟨k', rfl⟩, by rw [state]⟩
    · rintro _ _ ⟨_, _, impossible⟩
      exact impossible
  next =>
    refine (ends_storeChunk_works works running before le chunk_lt buffer).mono ?_ fun _ _ h => h
    intro _ u' state
    exact ⟨running' u' _ state running.front, by rw [state]⟩

end Chunks

/-! ### Requests -/

section Requests

variable {num len base off : Nat} {u : Upload δ} {r : Request} {chunk : Bytes}

theorem first_accepted (zero : r.off = 0) (data : r.data = some chunk) (present : areas r.imgNum = some area)
    (accepted : (upload opts ops areas (some r) u).1 = ⟨0, some off⟩) :
    ∃ base, uploadStartOff opts area r.imgNum = some base ∧
      Placed opts area r.imgNum r.len base (upload opts ops areas (some r) u).2 ∧ (opts.eraseProgressively = true →
        ∃ k, (upload opts ops areas (some r) u).2.state.notYetErased = sectorOff area.sectors k) ∧
      (upload opts ops areas (some r) u).2.state.currOff = off ∧ off = chunkEnd area.align r.len 0 chunk.length := by
  have ends : Ends (bsUpload opts ops areas (some r))
      (fun _ u' => ∃ base, uploadStartOff opts area r.imgNum = some base ∧ Placed opts area r.imgNum r.len base u' ∧
        (opts.eraseProgressively = true → ∃ k, u'.state.notYetErased = sectorOff area.sectors k) ∧
        u'.state.currOff = chunkEnd area.align r.len 0 chunk.length)
      (fun _ _ => True) u := by
    refine ends_bsUpload (fun _ _ _ => trivial) (fun _ _ _ _ _ _ => trivial) ?_ ?_ ?_
    · intro r' chunk' area' request data' _ present'
      cases request
      cases data.symm.trans data'
      cases present.symm.trans present'
      rw [ends_bind]
      refine (ends_beginUpload (P := fun _ => True) (fun _ _ _ _ => trivial) trivial).mono ?_ fun _ _ _ => trivial
      rintro _ u' ⟨begun, _⟩
      have placed : Placed opts area r.imgNum r.len u'.state.startOff u' :=
        ⟨begun.imgNum, begun.imgSize, rfl, begun.statusSector,
          fun progressive => .inl ⟨0, by rw [begun.notYetErased progressive]; simp⟩,
          fun moved => absurd begun.currOff moved⟩
      refine (ends_writeChunk_placed placed (r.data_lt chunk data)).mono ?_ fun _ _ _ => trivial
      rintro _ u'' ⟨placed', front, moved⟩
      rw [begun.currOff] at moved
      exact ⟨_, begun.startOff, placed', front, moved⟩
    · intro r' _ request later
      exact absurd (Option.some.inj request ▸ zero) later
    · intro r' _ _ request _ _ later
      exact absurd (Option.some.inj request ▸ zero) later
  rcases ends.upload with ⟨answer, base, start, placed, front, moved⟩ | ⟨rc, answer, _⟩
  · have off_eq : (upload opts ops areas (some r) u).2.state.currOff = off := by
      simpa using answer.symm.trans accepted
    exact ⟨base, start, placed, front, off_eq, off_eq ▸ moved⟩
  · have := answer.symm.trans accepted
    simp at this

variable (data : r.data = some chunk) (present : areas num = some area)
include data present

section Later

variable (placed : Placed opts area num len base u)
include placed

theorem ends_later {Q : Unit → Upload δ → Prop} {E : Int → Upload δ → Prop} (later : r.off ≠ 0)
    (refused : ∀ rc, ¬ (r.off ≠ sizeMax ∧ u.state.currOff + chunk.length ≤ len) → E rc u)
    (answered : r.off ≠ u.state.currOff → Q () u)
    (next : r.off = u.state.currOff → u.state.currOff + chunk.length ≤ len →
      Ends (writeChunk opts ops area r.misaligned chunk) Q E u) : Ends (bsUpload opts ops areas (some r)) Q E u := by
  have currOff_lt := placed.currOff_lt
  have chunk_lt := r.data_lt chunk data
  refine ends_bsUpload (fun rc unacceptable _ => refused rc fun acceptable => unacceptable ?_) ?_ ?_ ?_ ?_
  · refine ⟨r, chunk, area, rfl, data, acceptable.1, placed.imgNum ▸ present, ?_⟩
    rw [u32_of_lt (by omega), placed.imgSize]
    exact acceptable.2
  · intro r' _ request _ zero
    exact absurd (Option.some.inj request ▸ zero) later
  · intro r' _ _ request _ zero
    exact absurd (Option.some.inj request ▸ zero) later
  · intro r' _ request _ other _
    exact answered (Option.some.inj request ▸ other)
  · intro r' chunk' area' request data' _ _ expected present' le
    cases request
    cases data.symm.trans data'
    rw [placed.imgNum] at present'
    cases present.symm.trans present'
    rw [u32_of_lt (by omega), placed.imgSize] at le
    exact next expected le

theorem ends_later_placed (later : r.off ≠ 0) (moved : u.state.currOff ≠ 0) :
    Ends (bsUpload opts ops areas (some r)) (fun _ u' => Placed opts area num len base u' ∧ u'.state.currOff ≠ 0)
      (fun _ u' => Placed opts area num len base u' ∧ u'.state.currOff ≠ 0) u := by
  refine ends_later data present placed later (fun _ _ => ⟨placed, moved⟩) (fun _ => ⟨placed, moved⟩) ?_
  intro _ _
  refine (ends_writeChunk_placed placed (r.data_lt chunk data)).mono ?_ ?_
  · rintro _ u' ⟨placed', _, end_eq⟩
    have := le_chunkEnd area.align len u.state.currOff chunk.length
    exact ⟨placed', by omega⟩
  · rintro _ u' ⟨placed', le⟩
    exact ⟨placed', by omega⟩

theorem ends_later_beyond (expected : r.off = u.state.currOff) (beyond : len < u.state.currOff) :
    Ends (bsUpload opts ops areas (some r)) (fun _ _ => False) (fun _ u' => u' = u) u :=
  ends_later data present placed (by omega) (fun _ _ => rfl) (fun other => other expected) fun _ _ => by omega

end Later

theorem ends_later_works (works : ops.Works) (expected : r.off = u.state.currOff)
    (running : Running opts area num len base u) (moved : u.state.currOff ≠ 0)
    (before : u.state.currOff < len) (nonempty : chunk ≠ []) (le : u.state.currOff + chunk.length ≤ len)
    (buffer : Fits opts area (chunk.length - chunk.length % area.align)) : Ends (bsUpload opts ops areas (some r))
      (fun _ u' => Running opts area num len base u' ∧
        u'.state.currOff = chunkEnd area.align len u.state.currOff chunk.length) (fun _ _ => False) u := by
  have currOff_lt := running.currOff_lt
  refine ends_later data present running.toPlaced (by omega) (fun _ refused => refused ⟨?_, le⟩)
    (fun other => absurd expected other) fun _ _ =>
      ends_writeChunk_works works running before nonempty le (r.data_lt chunk data) buffer
  unfold sizeMax
  omega

omit data present in
/-- The pieces of misaligned data are refused if the buffer does not suit the alignment. -/
theorem ends_storeChunk_stuck (misfit : ¬ Fits opts area (chunk.length - chunk.length % area.align)) :
    Ends (storeChunk opts ops area true chunk) (fun _ _ => False) (fun _ u' => u' = u) u := by
  obtain ⟨unaligned, shorter⟩ := not_or.mp misfit
  have buffer : 0 < opts.unalignedBufferSize := Nat.pos_of_ne_zero fun zero => unaligned (zero ▸ Nat.dvd_zero _)
  have wide : area.align > 1 := by
    have pos := area.align_pos
    have : area.align ≠ 1 := fun one => unaligned (one ▸ Nat.one_dvd _)
    omega
  unfold storeChunk
  rw [ends_bind, ends_getState]
  simp only
  have aligned : area.align ∣ chunk.length - chunk.length % area.align := Nat.dvd_sub_mod _
  have full_le : chunk.length - chunk.length % area.align ≤ chunk.length := Nat.sub_le _ _
  generalize chunk.length - chunk.length % area.align = full at *
  have block := Nat.le_of_dvd (by omega) aligned
  obtain ⟨fuel, rfl⟩ : ∃ fuel, full = fuel + 1 := ⟨full - 1, by omega⟩
  have length : (chunk.take (fuel + 1)).length = fuel + 1 := by
    rw [List.length_take]
    omega
  rw [ends_bind, writeAligned, if_pos ⟨buffer, wide, rfl⟩, ends_bind, length, writeBuffered, length,
    if_pos block, ends_bind, ends_getState, if_neg (by omega), ends_bind, flashAreaWrite, if_neg, ends_pure,
    if_pos (by decide), ends_bind, ends_throw]
  rintro ⟨_, _, dvd⟩
  rw [List.length_take, length, Nat.min_eq_left (by omega)] at dvd
  exact unaligned dvd

theorem ends_later_stuck (misaligned : r.misaligned = true) (expected : r.off = u.state.currOff)
    (placed : Placed opts area num len base u) (moved : u.state.currOff ≠ 0)
    (misfit : ¬ Fits opts area (chunk.length - chunk.length % area.align)) :
    Ends (bsUpload opts ops areas (some r)) (fun _ _ => False)
      (fun _ u' => Placed opts area num len base u' ∧ u'.state.currOff = u.state.currOff) u := by
  refine ends_later data present placed (by omega) (fun _ _ => ⟨placed, rfl⟩)
    (fun other => other expected) fun _ _ => ?_
  unfold writeChunk
  rw [misaligned]
  split
  next progressive =>
    rw [ends_bind]
    refine (ends_eraseForChunk_placed placed progressive).mono ?_ fun _ _ h => h
    rintro _ u' ⟨placed', same, _⟩
    refine (ends_storeChunk_stuck misfit).mono (fun _ _ h => h) ?_
    rintro _ _ rfl
    exact ⟨placed', same⟩
  next =>
    refine (ends_storeChunk_stuck misfit).mono (fun _ _ h => h) ?_
    rintro _ _ rfl
    exact ⟨placed, rfl⟩

end Requests

/-! ### Sessions -/

section Sessions

variable {num len base k off : Nat} {start : Upload δ × Nat} {client : Client area.align len}

theorem session_succ {Q : Unit → Upload δ → Prop} {E : Int → Upload δ → Prop}
    (ends : let s := session opts ops areas client start k
      Ends (bsUpload opts ops areas (some (client.request k s.2))) Q E s.1) :
    let s := session opts ops areas client start (k + 1)
    (s.2 = s.1.state.currOff ∧ Q () s.1) ∨ (s.2 = (session opts ops areas client start k).2 ∧ ∃ rc, E rc s.1) := by
  rcases ends.upload with ⟨answer, after⟩ | ⟨rc, answer, after⟩
  · exact .inl ⟨by simp only [session, answer, Option.getD_some], after⟩
  · exact .inr ⟨by simp only [session, answer, Option.getD_none], rc, after⟩

variable (client start) (present : areas num = some area)
include present

theorem session_placed (placed : Placed opts area num len base start.1)
    (moved : start.1.state.currOff ≠ 0) (off_pos : start.2 ≠ 0) (room : base + start.2 ≤ area.size) (k : Nat) :
    let s := session opts ops areas client start k
    Placed opts area num len base s.1 ∧ s.1.state.currOff ≠ 0 ∧ s.2 ≠ 0 ∧ base + s.2 ≤ area.size := by
  induction k with
  | zero => exact ⟨placed, moved, off_pos, room⟩
  | succ k ih =>
    obtain ⟨placed, moved, off_pos, room⟩ := ih
    rcases session_succ (ends_later_placed (client.data_eq k _) present placed (by rwa [client.off_eq]) moved)
      with ⟨answer, placed', moved'⟩ | ⟨same, _, placed', moved'⟩
    · exact ⟨placed', moved', answer ▸ moved', answer ▸ (placed'.room moved').2⟩
    · exact ⟨placed', moved', same ▸ off_pos, same ▸ room⟩

theorem session_beyond (placed : Placed opts area num len base start.1)
    (off_eq : start.2 = start.1.state.currOff) (beyond : len < start.2) (k : Nat) :
    session opts ops areas client start k = start := by
  induction k with
  | zero => rfl
  | succ k ih =>
    have refused : Ends (bsUpload opts ops areas
        (some (client.request k (session opts ops areas client start k).2))) (fun _ _ => False)
        (fun _ u' => u' = start.1) (session opts ops areas client start k).1 := by
      rw [ih]
      exact ends_later_beyond (client.data_eq k _) present placed (by rw [client.off_eq, off_eq]) (by omega)
    rcases session_succ refused with ⟨_, impossible⟩ | ⟨same, _, unchanged⟩
    · exact impossible.elim
    · rw [ih] at same
      exact Prod.ext unchanged same

omit client in
theorem session_stuck (lt : area.align < 2 ^ 31) (placed : Placed opts area num len base start.1) (off_eq : start.2 = start.1.state.currOff)
    (moved : start.2 ≠ 0) (short : len < 2 ^ 31)
    (misfit : ¬ Fits opts area (len - start.2 - (len - start.2) % area.align)) (k : Nat) :
    let s := session opts ops areas (greedyClient lt len) start k
    Placed opts area num len base s.1 ∧ s.1.state.currOff = start.2 ∧ s.2 = start.2 := by
  induction k with
  | zero => exact ⟨placed, off_eq.symm, rfl⟩
  | succ k ih =>
    obtain ⟨placed, currOff_eq, same⟩ := ih
    have length : ((greedyClient lt len).chunk k
        (session opts ops areas (greedyClient lt len) start k).2).length = len - start.2 := by
      rw [same]
      simp only [greedyClient, List.length_replicate]
      omega
    rcases session_succ (ends_later_stuck ((greedyClient lt len).data_eq k _) present rfl
      (by rw [Client.off_eq, same, currOff_eq]) placed (by omega) (by rwa [length])) with
      ⟨_, impossible⟩ | ⟨same', _, placed', unmoved⟩
    · exact impossible.elim
    · exact ⟨placed', unmoved.trans currOff_eq, same'.trans same⟩

omit present in
theorem lt_chunkEnd {align imgSize currOff n : Nat} (align_pos : 0 < align) (n_pos : 0 < n)
    (block : align ≤ n ∨ imgSize ≤ currOff + n) : currOff < chunkEnd align imgSize currOff n := by
  have lt := Nat.mod_lt n align_pos
  unfold chunkEnd
  split <;> omega

omit present in
theorem sub_mod_mono (align : Nat) {n m : Nat} (le : n ≤ m) : n - n % align ≤ m - m % align := by
  have n_eq := Nat.div_add_mod n align
  have m_eq := Nat.div_add_mod m align
  have := Nat.mul_le_mul_left align (Nat.div_le_div_right (c := align) le)
  omega

theorem session_running (works : ops.Works) (running : Running opts area num len base start.1) (off_eq : start.2 = start.1.state.currOff)
    (moved : start.2 ≠ 0) (le : start.2 ≤ len)
    (buffer : Fits opts area (len - start.2 - (len - start.2) % area.align)) (k : Nat) :
    (∃ j, (session opts ops areas client start j).2 = len) ∨
      let s := session opts ops areas client start k
      Running opts area num len base s.1 ∧ s.2 = s.1.state.currOff ∧ start.2 + k ≤ s.2 ∧ s.2 ≤ len := by
  induction k with
  | zero => exact .inr ⟨running, off_eq, le_rfl, le⟩
  | succ k ih =>
    rcases ih with done | ⟨running, answered, progress, le⟩
    · exact .inl done
    by_cases done : (session opts ops areas client start k).2 = len
    · exact .inl ⟨k, done⟩
    have before : (session opts ops areas client start k).2 < len := by omega
    have nonempty := client.nonempty k _ before
    have within := client.within k _ before
    have block := client.block k _ before
    have fits := buffer.anti (sub_mod_mono area.align
      (show (client.chunk k (session opts ops areas client start k).2).length ≤ len - start.2 by omega))
    rcases session_succ (ends_later_works (client.data_eq k _) present works (by rw [client.off_eq, answered])
      running (by omega) (by omega) nonempty (by omega) fits) with
      ⟨answer, running', end_eq⟩ | ⟨_, _, impossible⟩
    · rw [← answered] at end_eq
      have further : _ < chunkEnd area.align len _ _ := lt_chunkEnd area.align_pos
        (List.length_pos_of_ne_nil nonempty) (block.imp_right fun whole => whole.symm.le)
      have end_le : chunkEnd area.align len _ _ ≤ len := chunkEnd_le within
      exact .inr ⟨running', answer, by omega, by omega⟩
    · exact impossible.elim

end Sessions

/-- Every client whose first chunk is accepted reaches the end if and only if that chunk is not longer than the image,
the image fits behind its start offset, and the buffer suits the alignment or takes all that is left. -/
theorem upload_completes_iff (works : ops.Works) (u : Upload δ) (r : Request) (chunk : Bytes)
    (area : UploadArea) (zero : r.off = 0) (data : r.data = some chunk)
    (present : areas r.imgNum = some area) (nonempty : chunk ≠ [])
    (block : area.align ≤ chunk.length ∨ r.len ≤ chunk.length) (off : Nat)
    (accepted : (upload opts ops areas (some r) u).1 = ⟨0, some off⟩) : (∀ client : Client area.align r.len, ∃ k,
        (session opts ops areas client ((upload opts ops areas (some r) u).2, off) k).2 = r.len) ↔
      chunk.length ≤ r.len ∧ (∃ base, uploadStartOff opts area r.imgNum = some base ∧ base + r.len ≤ area.size) ∧
      Fits opts area (r.len - off - (r.len - off) % area.align) := by
  obtain ⟨base, start, placed, front, currOff_eq, off_eq⟩ := first_accepted zero data present accepted
  have small := area.size_lt
  have moved : 0 < off := off_eq ▸ lt_chunkEnd area.align_pos (List.length_pos_of_ne_nil nonempty)
    (by rwa [Nat.zero_add])
  have currOff_pos : (upload opts ops areas (some r) u).2.state.currOff ≠ 0 := by omega
  obtain ⟨base_aligned, room⟩ := placed.room currOff_pos
  rw [currOff_eq] at room
  constructor
  · intro completes
    have align_lt : area.align < 2 ^ 31 := by
      have := Nat.le_of_dvd (by omega) area.align_dvd_size
      unfold UploadArea.size at this
      omega
    obtain ⟨k, reached⟩ := completes (greedyClient align_lt r.len)
    have fits : base + r.len ≤ area.size := by
      obtain ⟨_, _, _, inside⟩ := session_placed (_, off) (greedyClient align_lt r.len) present placed
        currOff_pos moved.ne' room k
      rwa [reached] at inside
    have first_le : chunk.length ≤ r.len := by
      by_contra longer
      have off_length : off = chunk.length := by
        rw [off_eq, chunkEnd, if_neg (by omega), Nat.zero_add]
      rw [session_beyond (_, off) _ present placed currOff_eq.symm (show r.len < off by omega) k] at reached
      omega
    refine ⟨first_le, ⟨base, start, fits⟩, ?_⟩
    by_contra misfit
    obtain ⟨_, _, same⟩ := session_stuck (_, off) present align_lt placed currOff_eq.symm
      moved.ne' (by unfold UploadArea.size at fits; omega) misfit k
    have done : off = r.len := same.symm.trans reached
    exact misfit (.inr (by simp [done]))
  · rintro ⟨first_le, ⟨base', start', fits⟩, buffer⟩ client
    cases start.symm.trans start'
    have running : Running opts area r.imgNum r.len base (upload opts ops areas (some r) u).2 :=
      { placed with
        fits := fits
        aligned := ⟨base_aligned, by
          rw [currOff_eq, off_eq]
          exact aligned_chunkEnd (.inl (Nat.dvd_zero _)) (by omega)⟩
        front := front }
    have off_le : off ≤ r.len := off_eq ▸ chunkEnd_le (by omega)
    rcases session_running (_, off) client present works running currOff_eq.symm moved.ne'
      off_le buffer (r.len + 1) with done | ⟨_, _, progress, le⟩
    · exact done
    · omega

def offsetOptions : Options := ⟨true, false, false, true, true, 0, 0⟩

def offsetArea : UploadArea := .twoSectors 2 16

def offsetAreas (num : Nat) : Option UploadArea := if num = 2 then some offsetArea else none

theorem upload_completes_iff_demo :
    let first := upload offsetOptions Ops.flash offsetAreas (some (.eight 2 16)) ⟨.zero, fun _ _ => erasedVal⟩
    first.1 = ⟨0, some 8⟩ ∧ ∀ client : Client 4 16, ∃ k,
      (session offsetOptions Ops.flash offsetAreas client (first.2, 8) k).2 = 16 :=
  ⟨by decide, (upload_completes_iff Ops.works_flash _ (.eight 2 16) (List.replicate 8 0) offsetArea rfl rfl rfl
    (by simp) (.inl (by decide)) 8 (by decide)).mpr ⟨by decide, ⟨16, by decide, by decide⟩, .inl (by decide)⟩⟩

/-- An image as large as the slot is accepted one sector behind the start of the slot. No client completes its upload.
-/
theorem offset_upload_never_completes : (upload offsetOptions Ops.flash offsetAreas (some (.eight 2 32))
        ⟨UploadState.zero, fun _ _ => erasedVal⟩).1 = ⟨0, some 8⟩ ∧
      ∀ (client : Client 4 32) (k : Nat), (session offsetOptions Ops.flash offsetAreas client
        ((upload offsetOptions Ops.flash offsetAreas (some (.eight 2 32))
          ⟨UploadState.zero, fun _ _ => erasedVal⟩).2, 8) k).2 ≠ 32 := by
  have accepted : (upload offsetOptions Ops.flash offsetAreas (some (.eight 2 32))
      ⟨UploadState.zero, fun _ _ => erasedVal⟩).1 = ⟨0, some 8⟩ := by decide
  refine ⟨accepted, fun client k reached => ?_⟩
  have present : offsetAreas (Request.eight 2 32).imgNum = some offsetArea := rfl
  obtain ⟨base, start, placed, _, currOff_eq, _⟩ := first_accepted rfl rfl present accepted
  cases start
  have inside : 16 + 32 ≤ offsetArea.size := by
    rw [← reached]
    exact (session_placed (_, 8) client present placed (by rw [currOff_eq]; decide) (by decide) (by decide) k).2.2.2
  exact absurd inside (by decide)

/-! ### Chunks that are sent again -/

/-- As soon as flash works, every chunk for the expected offset is accepted and moves the upload on. -/
def Resumes (opts : Options) (areas : Nat → Option UploadArea) (area : UploadArea) (u : Upload δ) : Prop :=
  ∀ (ops : Ops δ Nat) (r : Request) (chunk : Bytes), ops.Works → r.off = u.state.currOff → r.data = some chunk →
    chunk ≠ [] → u.state.currOff + chunk.length ≤ u.state.imgSize →
    Fits opts area (chunk.length - chunk.length % area.align) → (upload opts ops areas (some r) u).1 =
      ⟨0, some (chunkEnd area.align u.state.imgSize u.state.currOff chunk.length)⟩

theorem Running.resumes {num len base : Nat} {u : Upload δ} (running : Running opts area num len base u)
    (present : areas num = some area) (moved : u.state.currOff ≠ 0) (before : u.state.currOff < len) :
    Resumes opts areas area u := by
  intro ops r chunk works expected data nonempty le buffer
  rw [running.imgSize] at le ⊢
  rcases (ends_later_works data present works expected running moved before nonempty le buffer).upload with
    ⟨answer, -, currOff⟩ | ⟨_, _, impossible⟩
  · rw [answer, currOff]
  · exact impossible.elim

/-- Whatever was sent and whatever failed, an upload that has started goes on exactly if no erase has failed. Below the
position of the erase, which is the start of a sector, flash has the image or can still take it. -/
theorem resend_continues_iff (opts : Options) (ops : Ops δ Nat) (areas : Nat → Option UploadArea)
    (view : δ → Nor.Flash Nat) (sound : ops.Sound view) (progressive : opts.eraseProgressively = true)
    (image : Bytes) (dev : δ) (reqs : List (Option Request)) (parts : ∀ r ∈ reqs, FromImage image r)
    (behind : ∀ r ∈ reqs, StatusBehind opts areas image r)
    (fits : ∀ num area base, areas num = some area → uploadStartOff opts area num = some base →
      base + image.length ≤ area.size ∧ area.align ∣ base) (area : UploadArea) :
    let u := uploadAll opts ops areas reqs ⟨UploadState.zero, dev⟩
    areas u.state.imgNum = some area → u.state.currOff ≠ 0 → u.state.currOff < image.length →
      ((∃ k, u.state.notYetErased = sectorOff area.sectors k ∧ Streams (view u.dev) area.id u.state.startOff image
          u.state.currOff (sectorOff area.sectors k)) ∧ Resumes opts areas area u ↔
        u.state.notYetErased ≠ -eInval) := by
  intro u present moved before
  have consistent : Consistent opts areas view image u :=
    uploadAll_consistent progressive sound parts behind fun _ _ => .inl rfl
  obtain ⟨front, receiving⟩ := (consistent area present).resolve_left moved
  constructor
  · rintro ⟨⟨k, boundary, -⟩, -⟩ invalid
    unfold eInval at invalid
    omega
  · intro valid
    obtain ⟨k, boundary, rfl⟩ := receiving.erased.resolve_right valid
    obtain ⟨room, aligned⟩ := fits _ _ _ present receiving.startOff
    have running : Running opts area u.state.imgNum image.length u.state.startOff u :=
      { imgNum := rfl, imgSize := receiving.imgSize, startOff := rfl
        statusSector := fun _ fields => (receiving.statusSector fields).1
        erased := fun _ => .inl ⟨k, boundary⟩, room := fun _ => ⟨aligned, by omega⟩
        fits := room, aligned := ⟨aligned, receiving.aligned⟩, front := fun _ => ⟨k, boundary⟩ }
    exact ⟨⟨k, boundary, receiving.streams⟩, running.resumes present moved before⟩

def progressiveOnly : Options := ⟨true, false, false, false, false, 0, 0⟩

theorem resend_continues_eight :
    let u := uploadAll progressiveOnly Ops.flash statusAreas [some (.eight 0 24)] ⟨UploadState.zero, fun _ _ => 0⟩
    (∃ k, u.state.notYetErased = sectorOff statusArea.sectors k ∧ Streams u.dev statusArea.id u.state.startOff
        (List.replicate 24 0) u.state.currOff (sectorOff statusArea.sectors k)) ∧
      Resumes progressiveOnly statusAreas statusArea u := by
  refine (resend_continues_iff progressiveOnly Ops.flash statusAreas id Ops.sound_flash rfl (List.replicate 24 0)
    (fun _ _ => 0) [some (.eight 0 24)] ?_ ?_ ?_ statusArea rfl (by decide) (by decide)).mpr (by decide)
  · rintro _ mem r chunk request data
    obtain rfl := List.mem_singleton.mp mem
    cases request
    cases data
    simp [Request.eight]
  · rintro _ _ _ _ _ _ _ _ fields
    cases fields
  · intro num area base present start
    obtain ⟨-, rfl⟩ : num = 0 ∧ statusArea = area := by simpa [statusAreas] using present
    cases start
    decide

/-- A device that counts its erases, and fails the second one. -/
def onceFailing : Ops Nat Nat where
  write _ _ _ n := (0, n)
  erase _ _ _ n := (if n = 1 then -5 else 0, n + 1)
  write_le _ _ _ _ := Int.le_refl 0
  erase_le _ _ _ n := by dsimp only; split <;> decide

/-- After one failed erase the rest of the image is refused, although flash works again. -/
theorem failed_erase_ends_upload :
    let rest := (@greedyClient 4 (by decide) 24).request 0 8
    let u := uploadAll progressiveOnly onceFailing statusAreas [some (.eight 0 24), some rest] ⟨UploadState.zero, 0⟩
    u.state.currOff = 8 ∧ rest.off = 8 ∧ u.state.notYetErased = -eInval ∧
      (upload progressiveOnly onceFailing statusAreas (some rest) u).1 = ⟨mgmtErrInval, none⟩ ∧
      ¬Resumes progressiveOnly statusAreas statusArea u := by
  intro rest u
  refine ⟨by decide +kernel, rfl, by decide +kernel, by decide +kernel, fun resumes => ?_⟩
  have answer := resumes ⟨fun _ _ _ n => (0, n), fun _ _ _ n => (0, n), fun _ _ _ _ => Int.le_refl 0,
    fun _ _ _ _ => Int.le_refl 0⟩ rest (List.replicate 16 0) ⟨fun _ _ _ _ => rfl, fun _ _ _ _ => rfl⟩
    (by decide +kernel) (by decide +kernel) (by decide) (by decide +kernel) (.inl (by decide))
  exact absurd answer (by decide +kernel)

end Adaboot.Serial
