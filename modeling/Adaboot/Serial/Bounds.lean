import Adaboot.Serial.Specs

/-!
# How far the writes of an upload reach

No write reaches behind the declared length of the image, rounded up to the write alignment, if the
first chunk is not longer than the length it declares. Only the later chunks are checked for that.
-/

namespace Adaboot.Serial

open Crash Nor

/-- The least multiple of `align` that is not below `n`. -/
def roundUp (n align : Nat) : Nat := (n + align - 1) / align * align

theorem le_roundUp (n : Nat) {align : Nat} (pos : 0 < align) : n ≤ roundUp n align := by
  have split := Nat.div_add_mod (n + align - 1) align
  have rest := Nat.mod_lt (n + align - 1) pos
  rw [Nat.mul_comm] at split
  unfold roundUp
  omega

theorem add_le_roundUp {n p align : Nat} (dvd : align ∣ p) (lt : p < n) : p + align ≤ roundUp n align := by
  obtain ⟨k, rfl⟩ := dvd
  by_cases pos : 0 < align
  · have : k + 1 ≤ (n + align - 1) / align := by
      rw [Nat.le_div_iff_mul_le pos, Nat.add_mul, Nat.mul_comm k]
      omega
    calc align * k + align = (k + 1) * align := by rw [Nat.add_mul, Nat.mul_comm, Nat.one_mul]
      _ ≤ roundUp n align := Nat.mul_le_mul_right _ this
  · obtain rfl : align = 0 := by omega
    simp [roundUp]

variable {δ : Type} {opts : Options} {ops : Ops δ Nat} {areas : Nat → Option UploadArea}

abbrev Logged (δ : Type) : Type := δ × List (WriteCall Nat)

def Upload.fresh (u : Upload (Logged δ)) : Upload (Logged δ) := { u with dev := (u.dev.1, []) }

def uploadsLogged (opts : Options) (ops : Ops δ Nat) (areas : Nat → Option UploadArea)
    (reqs : List (Option Request)) (u : Upload (Logged δ)) : Upload (Logged δ) :=
  reqs.foldl (fun u req => (upload opts ops.logged areas req u.fresh).2) u

/-- Every write of the request ends before the declared length, rounded up. -/
def Bounded (areas : Nat → Option UploadArea) (u : Upload (Logged δ)) : Prop :=
  ∀ w ∈ u.dev.2, ∃ area, areas u.state.imgNum = some area ∧ w.area = area.id ∧
    w.off + w.len ≤ u.state.startOff + roundUp u.state.imgSize area.align

def FirstFits (req : Option Request) : Prop :=
  ∀ r chunk, req = some r → r.data = some chunk → r.off = 0 → chunk.length ≤ r.len

/-! ### One write -/

/-- The upload is at position `p`, its writes have been bounded, and the start of the image is aligned. -/
structure Within (area : UploadArea) (base size p : Nat) (log : List (WriteCall Nat)) : Prop where
  aligned : p ≠ 0 → area.align ∣ base
  le : p ≤ area.size
  bounded : ∀ w ∈ log, w.area = area.id ∧ w.off + w.len ≤ base + roundUp size area.align

theorem Within.down {area : UploadArea} {base size p q : Nat} {log : List (WriteCall Nat)} (le : p ≤ q)
    (within : Within area base size q log) : Within area base size p log :=
  ⟨fun some => within.aligned (by omega), le.trans within.le, within.bounded⟩

theorem keeps_within {area : UploadArea} {base size p n : Nat} {data : Bytes} (n_le : n ≤ data.length)
    (reach : area.align ∣ p → p + data.length ≤ roundUp size area.align) :
    Keeps (fun p (d : Logged δ) => Within area base size p d.2) True ops.logged area base p data n := by
  intro d within
  split
  next accepted =>
    obtain ⟨room, aligned, _⟩ := accepted
    have base_aligned : area.align ∣ base := by
      by_cases zero : p = 0
      · rwa [zero, Nat.zero_add] at aligned
      · exact within.aligned zero
    have last := reach ((Nat.dvd_add_left base_aligned).mp aligned)
    have bounded : ∀ w ∈ d.2 ++ [⟨area.id, p + base, data.length⟩],
        w.area = area.id ∧ w.off + w.len ≤ base + roundUp size area.align := by
      intro w mem
      rcases List.mem_append.mp mem with old | new
      · exact within.bounded w old
      · obtain rfl := List.mem_singleton.mp new
        exact ⟨rfl, by simp only; omega⟩
    exact ⟨fun _ => ⟨fun _ => base_aligned, by omega, bounded⟩, fun _ => ⟨trivial, within.aligned, within.le, bounded⟩⟩
  next => trivial

/-! ### One request -/

structure Uploading (area : UploadArea) (num : Nat) (u : Upload (Logged δ)) : Prop where
  imgNum : u.state.imgNum = num
  within : Within area u.state.startOff u.state.imgSize u.state.currOff u.dev.2

theorem ends_writeChunk_within {area : UploadArea} {num : Nat} {misaligned : Bool} {chunk : Bytes}
    {u : Upload (Logged δ)} (uploading : Uploading area num u) (chunk_lt : chunk.length < 2 ^ 31)
    (fits : u.state.currOff + chunk.length ≤ u.state.imgSize) :
    Ends (writeChunk opts ops.logged area misaligned chunk) (fun _ => Uploading area num)
      (fun _ => Uploading area num) u := by
  have store : ∀ u : Upload (Logged δ), Uploading area num u → u.state.currOff + chunk.length ≤ u.state.imgSize →
      Ends (storeChunk opts ops.logged area misaligned chunk) (fun _ => Uploading area num)
        (fun _ => Uploading area num) u := by
    intro u uploading fits
    have small := area.size_lt
    have le := uploading.within.le
    have size_le := le_roundUp u.state.imgSize area.align_pos
    have rem_le := Nat.mod_le chunk.length area.align
    refine ends_storeChunk (X := True) (I := fun p (d : Logged δ) => Within area u.state.startOff u.state.imgSize p d.2)
      (by unfold UploadArea.size at le; omega) Within.down ?_ ?_ uploading.within ?_ ?_
    · intro k n le _
      have length : ((chunk.drop k).take n).length = n := by
        rw [List.length_take, List.length_drop]
        omega
      exact keeps_within (by omega) fun _ => by omega
    · -- the tail starts inside the image and takes one block
      intro last rest tail tail_eq
      have length : tail.length = chunk.length % area.align := by
        rw [tail_eq, List.length_drop]
        omega
      have lt := Nat.mod_lt chunk.length area.align_pos
      refine keeps_within (by simp) fun aligned => ?_
      rw [List.length_append, List.length_replicate, show tail.length + (area.align - tail.length) =
        area.align by omega]
      exact add_le_roundUp aligned (by omega)
    · intro rc u' c _ _ _ _ state within
      exact ⟨by rw [state]; exact uploading.imgNum, by rw [state]; exact within⟩
    · intro u' c _ state within
      refine (ends_finishUpload_kept (P := fun d => Within area u.state.startOff u.state.imgSize c d.2)
        (fun _ _ _ h => h) within).mono ?_ ?_
      all_goals
        rintro _ u'' ⟨state', within'⟩
        rw [state] at state'
        exact ⟨by rw [state']; exact uploading.imgNum, by rw [state']; exact within'⟩
  unfold writeChunk
  split
  next =>
    rw [ends_bind]
    refine (ends_eraseForChunk_kept (P := fun d => Within area u.state.startOff u.state.imgSize
      u.state.currOff d.2) (fun _ _ _ h => h) uploading.within).mono ?_ ?_
    · rintro _ _ ⟨n, dev, rfl, within⟩
      exact store _ ⟨uploading.imgNum, within⟩ fits
    · rintro _ _ ⟨n, dev, rfl, within⟩
      exact ⟨uploading.imgNum, within⟩
  next => exact store u uploading fits

def Settled (areas : Nat → Option UploadArea) (u : Upload (Logged δ)) : Prop :=
  ∀ area, areas u.state.imgNum = some area → Within area u.state.startOff u.state.imgSize u.state.currOff []

theorem Uploading.settled {area : UploadArea} {num : Nat} {u : Upload (Logged δ)}
    (uploading : Uploading area num u) (present : areas num = some area) : Settled areas u ∧ Bounded areas u := by
  refine ⟨fun area' present' => ?_, fun w mem => ?_⟩
  · rw [uploading.imgNum, present] at present'
    cases present'
    exact ⟨uploading.within.aligned, uploading.within.le, by simp⟩
  · exact ⟨area, by rw [uploading.imgNum, present], uploading.within.bounded w mem⟩

theorem ends_bsUpload_bounded {req : Option Request} {u : Upload (Logged δ)} (none : u.dev.2 = [])
    (settled : Settled areas u) (fits : FirstFits req) :
    Ends (bsUpload opts ops.logged areas req) (fun _ u' => Settled areas u' ∧ Bounded areas u')
      (fun _ u' => Settled areas u' ∧ Bounded areas u') u := by
  have unchanged : Settled areas u ∧ Bounded areas u := ⟨settled, by simp [Bounded, none]⟩
  refine ends_bsUpload (fun _ _ _ => unchanged) ?_ ?_ (fun _ _ _ _ _ _ => unchanged) ?_
  · intro r rc _ _ _ absent
    exact ⟨fun area present => by simp [absent] at present, by simp [Bounded, none]⟩
  · intro r chunk area request data zero present
    rw [ends_bind]
    refine (ends_beginUpload (P := fun d => d.2 = []) (fun _ _ _ h => h) none).mono ?_ ?_
    · rintro _ u' ⟨begun, none'⟩
      have uploading : Uploading area r.imgNum u' := ⟨begun.imgNum, fun moved => absurd begun.currOff moved,
        begun.currOff ▸ Nat.zero_le _, by simp [none']⟩
      refine (ends_writeChunk_within uploading (r.data_lt chunk data) ?_).mono
        (fun _ _ h => h.settled present) fun _ _ h => h.settled present
      rw [begun.currOff, begun.imgSize, Nat.zero_add]
      exact fits r chunk request data zero
    · rintro _ u' ⟨unbegun, none'⟩
      have uploading : Uploading area r.imgNum u' := ⟨unbegun.imgNum,
        fun moved => absurd unbegun.currOff moved, unbegun.currOff ▸ Nat.zero_le _, by simp [none']⟩
      exact uploading.settled present
  · intro r chunk area request data _ _ _ present le
    have within := settled area present
    have uploading : Uploading area u.state.imgNum u := ⟨rfl, none ▸ within⟩
    have chunk_lt := r.data_lt chunk data
    have small := area.size_lt
    have currOff_le := within.le
    -- the sum of offset and length does not wrap, so that the comparison means what it says
    rw [u32_of_lt (by unfold UploadArea.size at currOff_le; omega)] at le
    exact (ends_writeChunk_within uploading chunk_lt le).mono (fun _ _ h => h.settled present)
      fun _ _ h => h.settled present

/-! ### All requests -/

theorem uploadsLogged_bounded {reqs : List (Option Request)} {u : Upload (Logged δ)}
    (settled : Settled areas u) (bounded : Bounded areas u) (fits : ∀ req ∈ reqs, FirstFits req) :
    Bounded areas (uploadsLogged opts ops areas reqs u) := by
  induction reqs generalizing u with
  | nil => exact bounded
  | cons req reqs ih =>
    obtain ⟨settled', bounded'⟩ := Ends.upload_keeps (P := fun u => Settled areas u ∧ Bounded areas u)
      (ends_bsUpload_bounded (u := u.fresh) rfl settled (fits req List.mem_cons_self))
    exact ih settled' bounded' fun req mem => fits req (List.mem_cons_of_mem _ mem)

/-- Whatever requests have come before, writes end before the declared length, rounded up to the write alignment. -/
theorem writes_within_declared (opts : Options) (ops : Ops δ Nat) (areas : Nat → Option UploadArea)
    (dev : δ) (reqs : List (Option Request)) (fits : ∀ req ∈ reqs, FirstFits req) :
    Bounded areas (uploadsLogged opts ops areas reqs ⟨UploadState.zero, (dev, [])⟩) := by
  refine uploadsLogged_bounded (fun area _ => ?_) (by simp [Bounded]) fits
  exact ⟨fun moved => absurd rfl moved, Nat.zero_le _, by simp⟩

def plainOptions : Options := ⟨false, false, false, false, false, 0, 0⟩

def smallArea : UploadArea := .twoSectors 1 16

def smallAreas (num : Nat) : Option UploadArea := if num = 0 then some smallArea else none

theorem writes_within_declared_demo :
    let run := uploadsLogged plainOptions Ops.flash smallAreas [some (.eight 0 16), some (.lastEight 0)]
      ⟨UploadState.zero, (fun _ _ => erasedVal, [])⟩
    run.dev.2 = [⟨1, 8, 8⟩] ∧ Bounded smallAreas run := by
  refine ⟨by decide, writes_within_declared _ _ _ _ _ fun req mem => ?_⟩
  rcases List.mem_pair.mp mem with rfl | rfl <;> rintro r chunk ⟨⟩ ⟨⟩ _ <;> decide

/-- Eight bytes are accepted and written for an image that has four. -/
theorem first_chunk_overruns :
    ¬ Bounded smallAreas (uploadsLogged plainOptions Ops.flash smallAreas [some (.eight 0 4)]
      ⟨UploadState.zero, (fun _ _ => erasedVal, [])⟩) := by
  intro bounded
  obtain ⟨area, present, _, le⟩ := bounded ⟨1, 0, 8⟩ (by decide)
  cases show some smallArea = some area from present
  exact absurd le (by decide)

end Adaboot.Serial
