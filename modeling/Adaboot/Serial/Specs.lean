import Adaboot.Serial.Upload

/-!
# What the steps of an upload do

Each step is described by what it does to a property of the device that is indexed by the position of the upload.
-/

namespace Adaboot.Serial

open Crash Nor

variable {δ α : Type} {opts : Options} {ops : Ops δ Nat} {area : UploadArea} {E : Int → Upload δ → Prop} {u : Upload δ}

/-- A command ends, with a value or with a code. -/
abbrev Ends (m : Command δ α) (Q : α → Upload δ → Prop) (E : Int → Upload δ → Prop) (u : Upload δ) :
    Prop := wp m Q E (fun _ => True) u

section Basics

@[simp] theorem ends_assign (f : UploadState → UploadState) {Q : Unit → Upload δ → Prop} :
    Ends (assign f) Q E u ↔ Q () { u with state := f u.state } := by
  simp [Ends, assign]

@[simp] theorem ends_getState {Q : UploadState → Upload δ → Prop} : Ends getState Q E u ↔ Q u.state u := by
  simp [Ends, getState, wp_bind]

@[simp] theorem ends_onDevice (f : δ → Int × δ) {Q : Int → Upload δ → Prop} :
    Ends (onDevice f) Q E u ↔ Q (f u.dev).1 { u with dev := (f u.dev).2 } := by
  simp [Ends, onDevice, wp_bind]

variable {Q : α → Upload δ → Prop}

@[simp] theorem ends_pure (a : α) : Ends (pure a) Q E u ↔ Q a u := wp_pure a

@[simp] theorem ends_throw (rc : Int) : Ends (.throw rc) Q E u ↔ E rc u := wp_throw rc

theorem ends_bind {β : Type} (m : Command δ α) (f : α → Command δ β) {Q : β → Upload δ → Prop} :
    Ends (m >>= f) Q E u ↔ Ends m (fun a t => Ends (f a) Q E t) E u := wp_bind m f

theorem Ends.mono {m : Command δ α} {Q' : α → Upload δ → Prop} {E E' : Int → Upload δ → Prop}
    (ends : Ends m Q E u) (post : ∀ a t, Q a t → Q' a t) (fails : ∀ rc t, E rc t → E' rc t) :
    Ends m Q' E' u := wp_mono ends post fails fun _ h => h

end Basics

/-! ### Erasing -/

section Erases

theorem UploadArea.one_lt_sectorSize (area : UploadArea) {i : Nat} (lt : i < area.sectors.length) :
    1 < sectorSize area.sectors i := by
  have mem := (area.sectors_align _ (List.getElem_mem lt)).1
  simpa [sectorSize, List.getD, lt] using mem

variable {P : δ → Prop} {fuel off endOff : Nat} (kept : ∀ off len d, P d → P (ops.erase area.id off len d).2)
include kept

theorem ends_eraseLoop_kept {endOffset : Nat} (start : P u.dev) :
    Ends (eraseLoop ops area endOffset fuel off) (fun _ u' => u'.state = u.state ∧ P u'.dev) E u := by
  induction fuel generalizing off u with
  | zero => exact (ends_pure _).mpr ⟨rfl, start⟩
  | succ fuel ih =>
    rw [eraseLoop]
    split
    next => exact (ends_pure _).mpr ⟨rfl, start⟩
    next sector csize _ =>
      rw [ends_bind, ends_onDevice]
      have after := kept sector csize u.dev start
      split
      next => exact (ends_pure _).mpr ⟨rfl, after⟩
      next =>
        split
        next => exact (ends_pure _).mpr ⟨rfl, after⟩
        next => exact ih after

theorem ends_bootEraseRegion_kept {size : Nat} (start : P u.dev) :
    Ends (bootEraseRegion ops area off size) (fun _ u' => u'.state = u.state ∧ P u'.dev) E u := by
  unfold bootEraseRegion
  split
  next => exact (ends_pure _).mpr ⟨rfl, start⟩
  next =>
    split
    next => exact (ends_pure _).mpr ⟨rfl, start⟩
    next => exact ends_eraseLoop_kept kept start

theorem ends_eraseRange_kept {first : Int} (start : P u.dev) :
    Ends (eraseRange ops area first endOff) (fun _ u' => u'.state = u.state ∧ P u'.dev) E u := by
  unfold eraseRange
  split
  next => exact (ends_pure _).mpr ⟨rfl, start⟩
  next =>
    split
    next => exact (ends_pure _).mpr ⟨rfl, start⟩
    next =>
      split
      next => exact (ends_pure _).mpr ⟨rfl, start⟩
      next =>
        simp only [ends_bind]
        refine (ends_bootEraseRegion_kept kept start).mono ?_ fun _ _ h => h
        intro rc u' after
        split
        · exact (ends_pure _).mpr after
        · exact (ends_pure _).mpr after

omit kept

variable {J : Nat → δ → Prop} {F : δ → Prop} {k : Nat}

/-- Erasing sector `i` moves the property on to the next sector. -/
def Advances (J : Nat → δ → Prop) (F : δ → Prop) (ops : Ops δ Nat) (area : UploadArea) (k : Nat) : Prop :=
  ∀ i d, k ≤ i → i < area.sectors.length → J i d →
    ((ops.erase area.id (sectorOff area.sectors i) (sectorSize area.sectors i) d).1 = 0 →
      J (i + 1) (ops.erase area.id (sectorOff area.sectors i) (sectorSize area.sectors i) d).2) ∧
    ((ops.erase area.id (sectorOff area.sectors i) (sectorSize area.sectors i) d).1 ≠ 0 →
      F (ops.erase area.id (sectorOff area.sectors i) (sectorSize area.sectors i) d).2)

theorem ends_eraseLoop {m : Nat} (le : k ≤ m) (lt : m < area.sectors.length)
    (enough : m - k < fuel) (low : sectorOff area.sectors k ≤ off)
    (high : off < sectorOff area.sectors (k + 1)) (step : Advances J F ops area k) (start : J k u.dev) :
    Ends (eraseLoop ops area (sectorOff area.sectors m) fuel off)
      (fun rc u' => u'.state = u.state ∧ (rc = 0 ∧ J (m + 1) u'.dev ∨ rc < 0 ∧ F u'.dev)) E u := by
  induction fuel generalizing k off u with
  | zero => omega
  | succ fuel ih =>
    have here : k < area.sectors.length := by omega
    obtain ⟨i, rfl⟩ : ∃ i, off = sectorOff area.sectors k + i := ⟨off - sectorOff area.sectors k, by omega⟩
    rw [sectorOff_succ here] at high
    rw [eraseLoop, sectorAt_sectorOff here (by omega)]
    rw [ends_bind, ends_onDevice]
    obtain ⟨ok, failed⟩ := step k u.dev (Nat.le_refl k) here start
    have code := ops.erase_le area.id (sectorOff area.sectors k) (sectorSize area.sectors k) u.dev
    split
    next negative => exact (ends_pure _).mpr ⟨rfl, .inr ⟨negative, failed (by omega)⟩⟩
    next =>
      have zero : (ops.erase area.id (sectorOff area.sectors k) (sectorSize area.sectors k) u.dev).1 = 0 := by
        omega
      rw [← sectorOff_succ here]
      split
      next beyond =>
        -- the sector just erased is the last one
        obtain rfl : m = k := by
          by_contra more
          have := sectorOff_mono area.sectors (show k + 1 ≤ m by omega)
          omega
        exact (ends_pure _).mpr ⟨rfl, .inl ⟨zero, ok zero⟩⟩
      next within =>
        have more : k ≠ m := by
          rintro rfl
          rw [sectorOff_succ lt] at within
          omega
        have next : k + 1 < area.sectors.length := by omega
        have next_size := area.one_lt_sectorSize next
        have next_off := sectorOff_succ next
        exact ih (by omega) (by omega) (by omega) (by omega) (fun i d below => step i d (by omega)) (ok zero)

/-- A range that starts at sector `k` is erased up to the end of the sector that holds its end. -/
theorem ends_eraseRange (outside : area.size ≤ endOff → F u.dev)
    (step : Advances J F ops area k) (start : J k u.dev) : Ends (eraseRange ops area (sectorOff area.sectors k) endOff)
      (fun rc u' => u'.state = u.state ∧
        ((∃ k' : Nat, k ≤ k' ∧ rc = sectorOff area.sectors k' ∧ endOff < sectorOff area.sectors k' ∧
          J k' u'.dev) ∨ rc = -eInval ∧ F u'.dev)) E u := by
  unfold eraseRange
  by_cases inside : area.size ≤ endOff
  · rw [if_pos inside, ends_pure]
    exact ⟨rfl, .inr ⟨rfl, outside inside⟩⟩
  rw [if_neg inside]
  rw [Nat.not_le] at inside
  split
  next below => exact (ends_pure _).mpr ⟨rfl, .inl ⟨k, Nat.le_refl k, rfl, by omega, start⟩⟩
  next above =>
    obtain ⟨⟨off, size⟩, found⟩ := sectorAt_isSome inside
    obtain ⟨m, lt, rfl, rfl, off_le, off_lt⟩ := sectorAt_eq_some found
    have le : k ≤ m := by
      by_contra more
      have := sectorOff_mono area.sectors (show m + 1 ≤ k by omega)
      omega
    have bound : sectorOff area.sectors (m + 1) ≤ area.size := sectorOff_le_sum _ _
    have small := area.size_lt
    rw [found]
    simp only
    rw [← Int.natCast_add, ← sectorOff_succ lt]
    have start_eq : (((sectorOff area.sectors k : Int)) % 2 ^ 32).toNat = sectorOff area.sectors k := by
      unfold UploadArea.size at *
      omega
    have len_eq : ((sectorOff area.sectors (m + 1) : Int) - sectorOff area.sectors k) % 2 ^ 32 =
        ((sectorOff area.sectors (m + 1) - sectorOff area.sectors k : Nat) : Int) := by
      unfold UploadArea.size at *
      omega
    rw [start_eq, len_eq, Int.toNat_natCast, ends_bind]
    have region : bootEraseRegion ops area (sectorOff area.sectors k)
        (sectorOff area.sectors (m + 1) - sectorOff area.sectors k) =
        eraseLoop ops area (sectorOff area.sectors m) area.sectors.length (sectorOff area.sectors k) := by
      have last := sectorAt_sectorOff lt (show sectorSize area.sectors m - 1 < sectorSize area.sectors m by
        have := area.one_lt_sectorSize lt
        omega)
      have step_size := sectorOff_succ lt
      rw [bootEraseRegion, if_neg (by omega), show sectorOff area.sectors k +
        (sectorOff area.sectors (m + 1) - sectorOff area.sectors k) - 1 =
        sectorOff area.sectors m + (sectorSize area.sectors m - 1) by omega, last]
    rw [region]
    have first := sectorOff_succ (show k < area.sectors.length by omega)
    have first_size := area.one_lt_sectorSize (show k < area.sectors.length by omega)
    refine (ends_eraseLoop le lt (by omega) le_rfl (by omega) step start).mono ?_ fun _ _ h => h
    rintro rc u' ⟨state, ⟨zero, after⟩ | ⟨negative, failed⟩⟩
    · rw [if_neg (by omega), ends_pure]
      exact ⟨state, .inl ⟨m + 1, by omega, by omega, off_lt, after⟩⟩
    · rw [if_pos (by omega), ends_pure]
      exact ⟨state, .inr ⟨rfl, failed⟩⟩

theorem ends_eraseRange_invalid :
    Ends (eraseRange ops area (-eInval) endOff) (fun rc u' => rc = -eInval ∧ u' = u) E u := by
  unfold eraseRange
  split
  next => exact (ends_pure _).mpr ⟨rfl, rfl⟩
  next inside =>
    obtain ⟨⟨off, size⟩, found⟩ := sectorAt_isSome (not_le.mp inside)
    have small := area.size_lt
    rw [if_neg (by unfold eInval; omega), found]
    -- as an unsigned number the start is behind every area
    rw [ends_bind, bootEraseRegion, if_pos (by unfold UploadArea.size eInval; omega), ends_pure, if_pos (by decide),
      ends_pure]
    exact ⟨rfl, rfl⟩

end Erases

/-! ### Writing -/

section Writes

variable {I : Nat → δ → Prop} {X : Prop} {base p n : Nat} {data : Bytes}

/-- A write at position `p` moves the property on by `n`. If it fails the property stays and `X` holds. -/
def Keeps (I : Nat → δ → Prop) (X : Prop) (ops : Ops δ Nat) (area : UploadArea) (base p : Nat)
    (data : Bytes) (n : Nat) : Prop :=
  ∀ d, I p d →
    if p + base + data.length ≤ area.size ∧ area.align ∣ p + base ∧ area.align ∣ data.length then
      ((ops.write area.id (p + base) data d).1 = 0 → I (p + n) (ops.write area.id (p + base) data d).2) ∧
        ((ops.write area.id (p + base) data d).1 ≠ 0 → X ∧ I p (ops.write area.id (p + base) data d).2)
    else X

theorem ends_flashAreaWrite (keeps : Keeps I X ops area base p data n) (start : I p u.dev) :
    Ends (flashAreaWrite ops area (p + base) data) (fun rc u' => u'.state = u.state ∧
      (rc = 0 → I (p + n) u'.dev ∧ area.align ∣ data.length) ∧ (rc ≠ 0 → X ∧ I p u'.dev)) E u := by
  have accepts := keeps u.dev start
  unfold flashAreaWrite
  split
  next accepted =>
    rw [if_pos accepted] at accepts
    simp only [ends_onDevice, true_and]
    exact ⟨fun zero => ⟨accepts.1 zero, accepted.2.2⟩, accepts.2⟩
  next refused =>
    rw [if_neg refused] at accepts
    rw [ends_pure]
    exact ⟨rfl, fun zero => absurd zero (by decide), fun _ => ⟨accepts, start⟩⟩

/-- The pieces in which so many aligned bytes go through the buffer are aligned. -/
def Fits (opts : Options) (area : UploadArea) (len : Nat) : Prop :=
  area.align ∣ opts.unalignedBufferSize ∨ len ≤ opts.unalignedBufferSize

theorem Fits.anti {len len' : Nat} (fits : Fits opts area len) (le : len' ≤ len) : Fits opts area len' :=
  fits.imp_right (Nat.le_trans le)

variable {chunk : Bytes} {misaligned : Bool}

theorem ends_writeBuffered {fuel : Nat} (enough : chunk.length ≤ fuel)
    (buffer : 0 < opts.unalignedBufferSize) (aligned : area.align ∣ chunk.length)
    (small : u.state.currOff + chunk.length < 2 ^ 32) (keeps : ∀ k n, k + n ≤ chunk.length →
      (Fits opts area chunk.length → area.align ∣ k ∧ area.align ∣ n) →
      Keeps I X ops area u.state.startOff (u.state.currOff + k) ((chunk.drop k).take n) n)
    (start : I u.state.currOff u.dev) : Ends (writeBuffered opts ops area fuel chunk) (fun rest u' => rest = [] ∧
        u'.state = { u.state with currOff := u.state.currOff + chunk.length } ∧
        I (u.state.currOff + chunk.length) u'.dev)
      (fun _ u' => X ∧ ∃ k, k ≤ chunk.length ∧ area.align ∣ k ∧ u'.state = { u.state with currOff := u.state.currOff + k } ∧
        I (u.state.currOff + k) u'.dev) u := by
  induction fuel generalizing chunk u with
  | zero =>
    obtain rfl := List.eq_nil_of_length_eq_zero (Nat.le_zero.mp enough)
    rw [writeBuffered, ends_pure]
    exact ⟨rfl, rfl, start⟩
  | succ fuel ih =>
    rw [writeBuffered]
    split
    next more =>
      have pos := area.align_pos
      generalize size : (if opts.unalignedBufferSize > chunk.length then chunk.length
        else opts.unalignedBufferSize) = w
      have w_pos : 0 < w := by split at size <;> omega
      have w_le : w ≤ chunk.length := by split at size <;> omega
      have w_aligned : Fits opts area chunk.length → area.align ∣ w := by
        rintro (whole | fits)
        · split at size <;> exact size ▸ ‹_›
        · obtain rfl : w = chunk.length := by split at size <;> omega
          exact aligned
      have first := keeps 0 w (by omega) fun fits => ⟨Nat.dvd_zero _, w_aligned fits⟩
      rw [Nat.add_zero, List.drop_zero] at first
      rw [ends_bind, ends_getState, ends_bind]
      refine (ends_flashAreaWrite first start).mono ?_ fun _ _ h => h
      rintro rc ⟨_, dev⟩ ⟨rfl, ok, failed⟩
      by_cases zero : rc = 0
      · obtain ⟨after, piece⟩ := ok zero
        rw [List.length_take, Nat.min_eq_left w_le] at piece
        simp only [zero, ne_eq, not_true_eq_false, if_false]
        rw [ends_bind, ends_assign]
        simp only
        rw [u32_of_lt (by omega)]
        have left : (chunk.drop w).length = chunk.length - w := List.length_drop
        have total : u.state.currOff + w + (chunk.drop w).length = u.state.currOff + chunk.length := by
          omega
        -- the pieces of what is left are pieces of the chunk, `w` bytes further on
        have rest : Ends (writeBuffered opts ops area fuel (chunk.drop w)) _ _
            ⟨{ u.state with currOff := u.state.currOff + w }, dev⟩ :=
          ih (by omega) (left ▸ Nat.dvd_sub aligned piece) (by simp only; omega)
            (fun k n le pieces => by
              simp only [List.drop_drop, Nat.add_assoc]
              refine keeps (w + k) n (by omega) fun fits => ?_
              obtain ⟨at_k, at_n⟩ := pieces (fits.anti (by omega))
              exact ⟨Nat.dvd_add piece at_k, at_n⟩) after
        simp only [total] at rest
        refine rest.mono (fun _ _ h => h) ?_
        rintro _ u' ⟨x, k, le, whole, state, inv⟩
        exact ⟨x, w + k, by omega, Nat.dvd_add piece whole, by rw [state, Nat.add_assoc], by rwa [← Nat.add_assoc]⟩
      · simp only [zero, ne_eq, not_false_eq_true, if_true]
        rw [ends_bind, ends_throw]
        exact ⟨(failed zero).1, 0, Nat.zero_le _, Nat.dvd_zero _, rfl, (failed zero).2⟩
    next done =>
      -- what is left is shorter than a block, and a multiple of it
      have none : chunk.length = 0 := Nat.eq_zero_of_dvd_of_lt aligned (not_le.mp done)
      obtain rfl := List.eq_nil_of_length_eq_zero none
      rw [ends_pure]
      exact ⟨rfl, rfl, start⟩

theorem ends_writeAligned (aligned : area.align ∣ chunk.length)
    (small : u.state.currOff + chunk.length < 2 ^ 32) (keeps : ∀ k n, k + n ≤ chunk.length →
      (Fits opts area chunk.length → area.align ∣ k ∧ area.align ∣ n) →
      Keeps I X ops area u.state.startOff (u.state.currOff + k) ((chunk.drop k).take n) n)
    (start : I u.state.currOff u.dev) : Ends (writeAligned opts ops area misaligned chunk)
      (fun rest u' => (∃ c, u'.state = { u.state with currOff := c } ∧ u.state.currOff ≤ c ∧
          area.align ∣ c - u.state.currOff ∧ c + rest = u.state.currOff + chunk.length) ∧ I (u.state.currOff + chunk.length) u'.dev)
      (fun _ u' => X ∧ ∃ k, k ≤ chunk.length ∧ area.align ∣ k ∧ u'.state = { u.state with currOff := u.state.currOff + k } ∧
        I (u.state.currOff + k) u'.dev) u := by
  unfold writeAligned
  split
  next buffered =>
    rw [ends_bind]
    refine (ends_writeBuffered le_rfl buffered.1 aligned small keeps start).mono ?_ fun _ _ h => h
    rintro _ u' ⟨rfl, state, inv⟩
    rw [ends_pure]
    exact ⟨⟨_, state, Nat.le_add_right _ _, by rwa [Nat.add_sub_cancel_left], rfl⟩, inv⟩
  next direct =>
    have whole := keeps 0 chunk.length (by omega) fun _ => ⟨Nat.dvd_zero _, aligned⟩
    rw [Nat.add_zero, List.drop_zero, List.take_length] at whole
    rw [ends_bind, ends_getState, ends_bind]
    refine (ends_flashAreaWrite whole start).mono ?_ fun _ _ h => h
    rintro rc ⟨_, dev⟩ ⟨rfl, ok, failed⟩
    by_cases zero : rc = 0
    · simp only [zero, ne_eq, not_true_eq_false, if_false]
      rw [ends_pure]
      exact ⟨⟨_, rfl, le_rfl, by simp, rfl⟩, (ok zero).1⟩
    · simp only [zero, ne_eq, not_false_eq_true, if_true]
      rw [ends_bind, ends_throw]
      exact ⟨(failed zero).1, 0, Nat.zero_le _, Nat.dvd_zero _, rfl, (failed zero).2⟩

theorem ends_writeTail {off : Nat} {tail : Bytes} (keeps : Keeps I X ops area u.state.startOff (u.state.currOff + off)
      (tail ++ List.replicate (area.align - tail.length) erasedVal) tail.length)
    (start : I (u.state.currOff + off) u.dev) : Ends (writeTail ops area off tail)
      (fun _ u' => u'.state = u.state ∧ I (u.state.currOff + off + tail.length) u'.dev)
      (fun _ u' => X ∧ u'.state = u.state ∧ I (u.state.currOff + off) u'.dev) u := by
  unfold writeTail
  rw [ends_bind, ends_getState, ends_bind]
  refine (ends_flashAreaWrite keeps start).mono ?_ fun _ _ h => h
  rintro rc ⟨_, dev⟩ ⟨rfl, ok, failed⟩
  by_cases zero : rc = 0
  · simp only [zero, ne_eq, not_true_eq_false, if_false]
    rw [ends_pure]
    exact ⟨rfl, (ok zero).1⟩
  · simp only [zero, ne_eq, not_false_eq_true, if_true]
    rw [ends_throw]
    exact ⟨(failed zero).1, rfl, (failed zero).2⟩

/-- Where a chunk of `n` bytes takes the upload. A tail that is not the last one is dropped. -/
def chunkEnd (align imgSize currOff n : Nat) : Nat :=
  if currOff + n < imgSize then currOff + (n - n % align) else currOff + n

theorem le_chunkEnd (align imgSize currOff n : Nat) : currOff ≤ chunkEnd align imgSize currOff n := by
  unfold chunkEnd
  split <;> omega

theorem aligned_chunkEnd {align imgSize currOff n : Nat} (aligned : align ∣ currOff ∨ currOff = imgSize)
    (le : currOff + n ≤ imgSize) :
    align ∣ chunkEnd align imgSize currOff n ∨ chunkEnd align imgSize currOff n = imgSize := by
  unfold chunkEnd
  split
  next =>
    rcases aligned with dvd | done
    · exact .inl (Nat.dvd_add dvd (Nat.dvd_sub_mod _))
    · omega
  next => exact .inr (by omega)

theorem ends_storeChunk {Q : Unit → Upload δ → Prop}
    (small : u.state.currOff + chunk.length < 2 ^ 32) (down : ∀ {p q d}, p ≤ q → I q d → I p d)
    (keeps : ∀ k n, k + n ≤ chunk.length - chunk.length % area.align →
      (Fits opts area (chunk.length - chunk.length % area.align) → area.align ∣ k ∧ area.align ∣ n) →
      Keeps I X ops area u.state.startOff (u.state.currOff + k) ((chunk.drop k).take n) n)
    (tail : u.state.imgSize ≤ u.state.currOff + chunk.length → chunk.length % area.align ≠ 0 →
      ∀ last, last = chunk.drop (chunk.length - chunk.length % area.align) → Keeps I X ops area u.state.startOff
        (u.state.currOff + (chunk.length - chunk.length % area.align))
        (last ++ List.replicate (area.align - last.length) erasedVal) last.length) (start : I u.state.currOff u.dev)
    (fails : ∀ rc u' c, X → u.state.currOff ≤ c → c ≤ u.state.currOff + chunk.length →
      area.align ∣ c - u.state.currOff → u'.state = { u.state with currOff := c } → I c u'.dev → E rc u')
    (finish : ∀ u' c, c = chunkEnd area.align u.state.imgSize u.state.currOff chunk.length →
      u'.state = { u.state with currOff := c } → I c u'.dev →
      Ends (finishUpload opts ops area) Q E u') :
    Ends (storeChunk opts ops area misaligned chunk) Q E u := by
  have rem_le : chunk.length % area.align ≤ chunk.length := Nat.mod_le _ _
  unfold storeChunk
  rw [ends_bind, ends_getState]
  simp only
  generalize full_eq : chunk.length - chunk.length % area.align = full at *
  have length : (chunk.take full).length = full := by
    rw [List.length_take]
    omega
  have aligned : area.align ∣ full := full_eq ▸ Nat.dvd_sub_mod _
  rw [u32_of_lt (by omega), show u.state.currOff + full + chunk.length % area.align =
    u.state.currOff + chunk.length by omega, ends_bind]
  refine (ends_writeAligned (X := X) (length.symm ▸ aligned) (by omega) ?_ start).mono ?_ ?_
  · intro k n le pieces
    rw [length] at le pieces
    rw [List.drop_take, List.take_take, Nat.min_eq_left (by omega)]
    exact keeps k n le pieces
  · rintro rest ⟨_, dev⟩ ⟨⟨c, rfl, above, whole, sum⟩, inv⟩
    rw [length] at sum inv
    by_cases more : u.state.currOff + chunk.length < u.state.imgSize
    · simp only [if_pos more, ne_eq, not_true_eq_false, if_false, Nat.add_zero]
      rw [ends_bind, ends_assign, u32_of_lt (by simp only; omega)]
      refine finish _ _ ?_ rfl ?_
      · rw [chunkEnd, if_pos more, full_eq, sum]
      · exact sum ▸ inv
    · have last : ((chunk.drop full).take (chunk.length % area.align)) = chunk.drop full :=
        List.take_of_length_le (by rw [List.length_drop]; omega)
      have last_length : (chunk.drop full).length = chunk.length % area.align := by
        rw [List.length_drop]
        omega
      have stored : ∀ u' : Upload δ, u'.state = { u.state with currOff := c } →
          I (u.state.currOff + chunk.length) u'.dev →
          Ends (do
            assign fun s => { s with currOff := u32 (s.currOff + rest + chunk.length % area.align) }
            finishUpload opts ops area) Q E u' := by
        rintro ⟨_, dev'⟩ rfl inv'
        rw [ends_bind, ends_assign, u32_of_lt (by simp only; omega)]
        have total : c + rest + chunk.length % area.align = u.state.currOff + chunk.length := by omega
        refine finish _ _ ?_ rfl ?_
        · rw [chunkEnd, if_neg more, total]
        · exact total ▸ inv'
      simp only [if_neg more, last]
      by_cases none : chunk.length % area.align = 0
      · simp only [none, ne_eq, not_true_eq_false, if_false]
        rw [none] at stored
        exact stored _ rfl (by rwa [show chunk.length = full by omega])
      · simp only [none, ne_eq, not_false_eq_true, if_true]
        rw [ends_bind]
        have written := tail (not_lt.mp more) none _ rfl
        rw [← sum] at written inv
        refine (ends_writeTail (u := ⟨_, dev⟩) written inv).mono ?_ ?_
        · rintro _ u' ⟨state, inv'⟩
          refine stored u' state ?_
          rwa [last_length, show c + rest + chunk.length % area.align = u.state.currOff + chunk.length by omega] at inv'
        · rintro rc u' ⟨x, state, inv'⟩
          exact fails rc u' c x above (by omega) whole state (down (Nat.le_add_right c rest) inv')
  · rintro rc u' ⟨x, k, le, whole, state, inv⟩
    exact fails rc u' _ x (by omega) (by omega) (by rwa [Nat.add_sub_cancel_left]) state inv

end Writes

/-! ### Requests -/

section Requests

variable {areas : Nat → Option UploadArea}

/-- The state in which the first chunk is written. -/
structure Begun (opts : Options) (area : UploadArea) (len num : Nat) (s : UploadState) : Prop where
  currOff : s.currOff = 0
  imgNum : s.imgNum = num
  imgSize : s.imgSize = len
  len_le : len ≤ maxSize opts area
  startOff : uploadStartOff opts area num = some s.startOff
  notYetErased : opts.eraseProgressively = true → s.notYetErased = 0
  statusSector : opts.eraseProgressively = true → opts.imageHasStatusFields = true →
    sectorAt area.sectors area.statusOff = some s.statusSector

/-- What is known if a first chunk is refused before it is written. -/
structure Unbegun (num : Nat) (s : UploadState) : Prop where
  currOff : s.currOff = 0
  imgNum : s.imgNum = num

theorem ends_findStatusSector : Ends (findStatusSector opts area)
      (fun _ u' => ∃ sector, u' = { u with state := { u.state with statusSector := sector } } ∧
        (opts.eraseProgressively = true → opts.imageHasStatusFields = true →
          sectorAt area.sectors area.statusOff = some sector))
      (fun _ u' => u' = u) u := by
  unfold findStatusSector
  split
  next =>
    split
    next => exact (ends_throw _).mpr rfl
    next sector found => exact (ends_assign _).mpr ⟨sector, rfl, fun _ _ => found⟩
  next none =>
    exact (ends_pure _).mpr ⟨_, rfl, fun progressive fields => absurd ⟨progressive, fields⟩ none⟩

variable {len : Nat} {P : δ → Prop} {Q : Unit → Upload δ → Prop} {req : Option Request}

theorem ends_checkLength : Ends (checkLength opts area len) (fun _ u' => u' = u ∧ len ≤ maxSize opts area)
      (fun _ u' => u' = u) u := by
  unfold checkLength
  split
  next => exact (ends_throw _).mpr rfl
  next le => exact (ends_pure _).mpr ⟨rfl, not_lt.mp le⟩

theorem ends_eraseSlot (kept : ∀ off len d, P d → P (ops.erase area.id off len d).2) (start : P u.dev) :
    Ends (eraseSlot opts ops area) (fun _ u' => ∃ n dev, u' = ⟨{ u.state with notYetErased := n }, dev⟩ ∧
        (opts.eraseProgressively = true → n = 0) ∧ P dev)
      (fun _ u' => u'.state = u.state ∧ P u'.dev) u := by
  unfold eraseSlot
  split
  next => exact (ends_assign _).mpr ⟨0, _, rfl, fun _ => rfl, start⟩
  next whole =>
    rw [ends_bind]
    refine (ends_bootEraseRegion_kept kept start).mono ?_ fun _ _ h => h
    rintro rc ⟨_, dev⟩ ⟨rfl, after⟩
    split
    · exact (ends_throw _).mpr ⟨rfl, after⟩
    · exact (ends_pure _).mpr ⟨_, dev, rfl, fun progressive => absurd progressive whole, after⟩

theorem ends_setStartOff : Ends (setStartOff opts area)
      (fun _ u' => ∃ startOff, u' = { u with state := { u.state with startOff } } ∧
        uploadStartOff opts area u.state.imgNum = some startOff)
      (fun _ u' => u' = u) u := by
  rw [setStartOff, ends_bind, ends_getState]
  split
  next => exact (ends_throw _).mpr rfl
  next startOff found => exact (ends_assign _).mpr ⟨startOff, rfl, found⟩

variable (kept : ∀ off len d, P d → P (ops.erase area.id off len d).2)
include kept

theorem ends_beginUpload (start : P u.dev) :
    Ends (beginUpload opts ops area len) (fun _ u' => Begun opts area len u.state.imgNum u'.state ∧ P u'.dev)
      (fun _ u' => Unbegun u.state.imgNum u'.state ∧ P u'.dev) u := by
  unfold beginUpload
  rw [ends_bind, ends_assign, ends_bind]
  refine ends_findStatusSector.mono ?_ ?_
  · rintro _ _ ⟨sector, rfl, status⟩
    rw [ends_bind]
    refine ends_checkLength.mono ?_ ?_
    · rintro _ _ ⟨rfl, le⟩
      rw [ends_bind]
      refine (ends_eraseSlot kept ?_).mono ?_ ?_
      · exact start
      · rintro _ _ ⟨n, dev, rfl, erased, after⟩
        rw [ends_bind, ends_assign]
        refine ends_setStartOff.mono ?_ ?_
        · rintro _ _ ⟨startOff, rfl, found⟩
          exact ⟨⟨rfl, rfl, rfl, le, found, erased, status⟩, after⟩
        · rintro _ _ rfl
          exact ⟨⟨rfl, rfl⟩, after⟩
      · rintro _ ⟨_, dev⟩ ⟨rfl, after⟩
        exact ⟨⟨rfl, rfl⟩, after⟩
    · rintro _ _ rfl
      exact ⟨⟨rfl, rfl⟩, start⟩
  · rintro _ _ rfl
    exact ⟨⟨rfl, rfl⟩, start⟩

theorem ends_eraseForChunk_kept (start : P u.dev) : Ends (eraseForChunk ops area len)
      (fun _ u' => ∃ n dev, u' = ⟨{ u.state with notYetErased := n }, dev⟩ ∧ P dev)
      (fun _ u' => ∃ n dev, u' = ⟨{ u.state with notYetErased := n }, dev⟩ ∧ P dev) u := by
  rw [eraseForChunk, ends_bind, ends_getState, ends_bind]
  refine (ends_eraseRange_kept kept start).mono ?_ fun _ _ h => h
  rintro rc ⟨_, dev⟩ ⟨rfl, after⟩
  rw [ends_bind, ends_assign]
  split
  · exact (ends_throw _).mpr ⟨rc, dev, rfl, after⟩
  · exact (ends_pure _).mpr ⟨rc, dev, rfl, after⟩

theorem ends_finishUpload_kept (start : P u.dev) :
    Ends (finishUpload opts ops area) (fun _ u' => u'.state = u.state ∧ P u'.dev)
      (fun _ u' => u'.state = u.state ∧ P u'.dev) u := by
  rw [finishUpload, ends_bind, ends_getState]
  split
  next =>
    rw [ends_bind]
    refine (ends_eraseRange_kept kept start).mono ?_ fun _ _ h => h
    intro rc u' after
    split
    · exact (ends_throw _).mpr after
    · exact (ends_pure _).mpr after
  next => exact (ends_pure _).mpr ⟨rfl, start⟩

omit kept

theorem ends_eraseForChunk {J : Nat → δ → Prop} {F : δ → Prop} {k : Nat}
    (erased : u.state.notYetErased = sectorOff area.sectors k)
    (outside : area.size ≤ u32 (u.state.currOff + len + 2 ^ 32 - 1 + u.state.startOff) → F u.dev)
    (step : Advances J F ops area k) (start : J k u.dev) : Ends (eraseForChunk ops area len)
      (fun _ u' => ∃ k' dev, k ≤ k' ∧ u' = ⟨{ u.state with notYetErased := sectorOff area.sectors k' }, dev⟩ ∧
        u32 (u.state.currOff + len + 2 ^ 32 - 1 + u.state.startOff) < sectorOff area.sectors k' ∧ J k' dev)
      (fun _ u' => ∃ dev, u' = ⟨{ u.state with notYetErased := -eInval }, dev⟩ ∧ F dev) u := by
  rw [eraseForChunk, ends_bind, ends_getState, erased, ends_bind]
  refine (ends_eraseRange outside step start).mono ?_ fun _ _ h => h
  rintro rc ⟨_, dev⟩ ⟨rfl, ⟨k', le, rfl, reach, after⟩ | ⟨rfl, failed⟩⟩
  · rw [ends_bind, ends_assign, if_neg (by omega), ends_pure]
    exact ⟨k', dev, le, rfl, reach, after⟩
  · rw [ends_bind, ends_assign, if_pos (by decide), ends_throw]
    exact ⟨dev, rfl, failed⟩

theorem ends_eraseForChunk_invalid
    (erased : u.state.notYetErased = -eInval) (fails : E mgmtErrInval u) : Ends (eraseForChunk ops area len) Q E u := by
  rw [eraseForChunk, ends_bind, ends_getState, erased, ends_bind]
  refine ends_eraseRange_invalid.mono ?_ fun _ _ h => h
  rintro _ _ ⟨rfl, rfl⟩
  rw [ends_bind, ends_assign, if_pos (by decide), ends_throw, ← erased]
  exact fails

def Acceptable (areas : Nat → Option UploadArea) (s : UploadState) (req : Option Request) : Prop :=
  ∃ r chunk area, req = some r ∧ r.data = some chunk ∧ r.off ≠ sizeMax ∧ areas s.imgNum = some area ∧
    u32 (s.currOff + chunk.length) ≤ s.imgSize

def starts (req : Option Request) : Bool := req.any fun r => r.data.isSome && r.off == 0

theorem ends_bsUpload (refused : ∀ rc, ¬ Acceptable areas u.state req → starts req = false → E rc u)
    (closed : ∀ r rc, req = some r → r.data.isSome = true → r.off = 0 → areas r.imgNum = none →
      E rc { u with state := { u.state with imgNum := r.imgNum } })
    (first : ∀ r chunk area, req = some r → r.data = some chunk → r.off = 0 → areas r.imgNum = some area →
      Ends (do
          beginUpload opts ops area r.len
          writeChunk opts ops area r.misaligned chunk) Q E
        { u with state := { u.state with imgNum := r.imgNum } })
    (answered : ∀ r area, req = some r → r.off ≠ 0 → r.off ≠ u.state.currOff →
      areas u.state.imgNum = some area → Q () u)
    (next : ∀ r chunk area, req = some r → r.data = some chunk → r.off ≠ sizeMax → r.off ≠ 0 →
      r.off = u.state.currOff → areas u.state.imgNum = some area → u32 (u.state.currOff + chunk.length) ≤ u.state.imgSize →
      Ends (writeChunk opts ops area r.misaligned chunk) Q E u) :
    Ends (bsUpload opts ops areas req) Q E u := by
  unfold bsUpload
  split
  next => exact (ends_throw _).mpr (refused _ (fun ⟨_, _, _, request, _⟩ => by simp at request) rfl)
  next r =>
    split
    next absent =>
      refine (ends_throw _).mpr (refused _ (fun ⟨_, _, _, request, data, _⟩ => ?_) (by simp [starts, absent]))
      cases request
      simp [absent] at data
    next chunk data =>
      split
      next missing =>
        refine (ends_throw _).mpr (refused _ (fun ⟨_, _, _, request, _, given, _⟩ => ?_) ?_)
        · exact given (Option.some.inj request ▸ missing)
        · simp [starts, missing, sizeMax]
      next given =>
        by_cases zero : r.off = 0
        · simp only [if_pos zero]
          rw [ends_bind, ends_assign, ends_bind, ends_getState]
          split
          next absent => exact (ends_throw _).mpr (closed r _ rfl (by simp [data]) zero absent)
          next area present => exact first r chunk area rfl data zero present
        · simp only [if_neg zero]
          rw [ends_bind, ends_getState]
          split
          next absent =>
            refine (ends_throw _).mpr (refused _ (fun ⟨_, _, _, _, _, _, present, _⟩ => ?_) (by simp [starts, zero]))
            simp [absent] at present
          next area present =>
            split
            next other => exact (ends_pure _).mpr (answered r area rfl zero other present)
            next expected =>
              split
              next beyond =>
                refine (ends_throw _).mpr (refused _ (fun ⟨_, _, _, request, data', _, _, le⟩ => ?_)
                  (by simp [starts, zero]))
                cases request
                cases data.symm.trans data'
                omega
              next le =>
                exact next r chunk area rfl data given zero (not_ne_iff.mp expected) present (not_lt.mp le)

theorem Ends.upload (ends : Ends (bsUpload opts ops areas req) Q E u) :
    ((upload opts ops areas req u).1 = ⟨0, some (upload opts ops areas req u).2.state.currOff⟩ ∧
        Q () (upload opts ops areas req u).2) ∨
      ∃ rc, (upload opts ops areas req u).1 = ⟨rc, none⟩ ∧ E rc (upload opts ops areas req u).2 := by
  obtain ⟨_, result⟩ := ends
  unfold Serial.upload
  simp only
  split at result
  next value => exact .inl ⟨by rw [value], result⟩
  next rc value => exact .inr ⟨rc, by rw [value], result⟩

theorem Ends.upload_keeps {P : Upload δ → Prop}
    (ends : Ends (bsUpload opts ops areas req) (fun _ => P) (fun _ => P) u) :
    P (Serial.upload opts ops areas req u).2 := by
  rcases ends.upload with ⟨_, kept⟩ | ⟨_, _, kept⟩
  · exact kept
  · exact kept

end Requests

end Adaboot.Serial
