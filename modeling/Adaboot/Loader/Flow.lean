import Adaboot.Loader.Specs

/-!
# The ways through a boot

A loader that swaps begins an update, resumes an interrupted one, or finds nothing to do. Each way
is a rule that leaves the work of the swap algorithm as its premise.
-/

namespace Adaboot

open Nor Crash

variable {b : LoaderBuild} {alg : SwapAlgo} {fl : Flash} {E : BootErr → Flash → Prop} {C : Flash → Prop}

/-- A build that swaps, on slots that can be swapped. -/
structure Swaps (b : LoaderBuild) (alg : SwapAlgo) : Prop where
  reads : alg.ReadsHeaders b.board
  room : imageHeaderSize ≤ b.board.faSize .primary
  compatible : alg.bootSlotsCompatible = true
  mode : b.board.mode.isOverwrite = false

variable (swaps : Swaps b alg)
include swaps

variable {Q : BootState × BootStatus → Flash → Prop} {st st' : BootState} {bs : BootStatus} {swapType : SwapType}

theorem wp_bootPrepare (status : wp (swapReadStatus b.board alg (bootStatusReset b.board))
      (fun bs fl' => ∀ st, st.secondaryOffset = 0 → wp (prepareFromStatus b alg st bs) Q E C fl')
      (fun _ _ => False) C fl) : wp (bootPrepareImageForUpdate b alg .clear) Q E C fl := by
  obtain ⟨st, headers, -, -, off⟩ := bootReadImageHeaders_none fl swaps.reads swaps.room .clear
  unfold bootPrepareImageForUpdate
  simp only [wp_bind, wp_get, headers, swaps.compatible, swaps.mode, if_true, Bool.false_eq_true, if_false, wp_attempt]
  exact wp_mono status (fun _ _ next => next st off) (fun _ _ h => h.elim) fun _ h => h

/-- An update begins: either the trailers ask for it, or it is on record but has made no progress. -/
theorem wp_prepare_begin (img : Image b.validate)
    (reset : bs.isReset b.board = true) (headers : bootReadImageHeaders alg fl st false (some bs) = (st', true))
    (kind : bs.swapType = .none ∧ bootSwapTypeMulti b.board fl = swapType ∨ bs.swapType = swapType)
    (upgrade : swapType.isUpgrade = true) (hdr : st'.hdrSecondary = img.hdr)
    (held : Holds fl .secondary (st'.startOff .secondary) img)
    (fits : st'.startOff .secondary + img.size ≤ b.board.faSize .secondary)
    (le : img.size ≤ bootutilMaxImageSize b alg .secondary) (placed : b.board.mode = .offset → bs.swapType = .none →
      ∃ out, flashAreaRead (b.board.area fl .secondary) 0 imageHeaderSize = some out ∧
        (ImageHeader.decode out).ihMagic ≠ imageMagic) (post : Q ({ st' with swapType }, bs) fl) :
    wp (prepareFromStatus b alg st bs) Q E C fl := by
  have notNone : swapType ≠ .none := by
    rintro rfl
    simp [SwapType.isUpgrade] at upgrade
  unfold prepareFromStatus
  simp only [wp_bind, wp_get, swaps.mode, Bool.false_eq_true, if_false, reset, Bool.not_true, headers,
    if_true, not_true_eq_false]
  by_cases none : bs.swapType = .none
  · have type : bootSwapTypeMulti b.board fl = swapType := by
      rcases kind with h | h
      · exact h.2
      · exact absurd (h.symm.trans none) notNone
    simp only [none, if_true, bootValidatedSwapType, wp_bind, wp_get, type, upgrade]
    refine wp_bootValidateSlot img hdr held fits le ?_ ?_
    · intro mode _ _
      exact placed mode none
    · simpa using post
  · have type : bs.swapType = swapType := by
      rcases kind with h | h
      · exact absurd h.1 none
      · exact h
    simp only [none, if_false, wp_bind]
    refine wp_bootValidateSlot img hdr held fits le ?_ ?_
    · intro _ _ expected
      exact absurd rfl expected
    · simpa [type] using post

theorem wp_prepare_resume (progress : bs.isReset b.board = false)
    (headers : bootReadImageHeaders alg fl st true (some bs) = (st', true))
    (complete : wp (bootCompletePartialSwap b alg st' bs) (fun _ fl' =>
      ∀ st, st.swapType = .none → st.hdrPrimary = .decode (fl'.read .primary 0 imageHeaderSize) →
        Q (st, bs) fl') E C fl) : wp (prepareFromStatus b alg st bs) Q E C fl := by
  unfold prepareFromStatus
  simp only [wp_bind, wp_get, swaps.mode, Bool.false_eq_true, if_false, progress, Bool.not_false,
    headers, not_true_eq_false]
  refine wp_imp complete ?_
  intro st₁ fl' next
  obtain ⟨st₂, again, primary, -, -⟩ := bootReadImageHeaders_none fl' swaps.reads swaps.room st₁
  simp only [again, wp_pure]
  exact next _ rfl primary

variable {Q : Bool → Flash → Prop}

theorem wp_bootGo_resume (img : Image b.validate)
    (fits : img.size ≤ b.board.faSize .primary) (le : img.size ≤ bootutilMaxImageSize b alg .primary)
    (status : wp (swapReadStatus b.board alg (bootStatusReset b.board)) (fun bs fl' =>
      bs.isReset b.board = false ∧ ∀ st, st.secondaryOffset = 0 → ∃ st',
        bootReadImageHeaders alg fl' st true (some bs) = (st', true) ∧ wp (bootCompletePartialSwap b alg st' bs)
            (fun _ fl'' => Holds fl'' .primary 0 img ∧ Q true fl'') E C fl') (fun _ _ => False) C fl) :
    wp (bootGo b alg) Q E C fl := by
  unfold bootGo
  rw [wp_bind]
  refine wp_bootPrepare swaps (wp_imp status ?_)
  rintro bs fl₁ ⟨progress, headers⟩ st off
  obtain ⟨st', read, complete⟩ := headers st off
  refine wp_prepare_resume swaps progress read (wp_imp complete ?_)
  rintro _ fl₂ ⟨held, post⟩ st₁ none hdr
  simp only [wp_bind, performSwapType, none, wp_pure]
  refine wp_bootPrimarySlot swaps.reads held fits le (fun _ => ?_) post
  rw [hdr, held.decode_read]

theorem wp_bootGo_begin (img : Image b.validate) (fits : img.size ≤ b.board.faSize .primary)
    (lePri : img.size ≤ bootutilMaxImageSize b alg .primary) (leSec : img.size ≤ bootutilMaxImageSize b alg .secondary)
    (upgrade : swapType.isUpgrade = true)
    (status : wp (swapReadStatus b.board alg (bootStatusReset b.board)) (fun bs fl' => bs.isReset b.board = true ∧
      (bs.swapType = .none ∧ bootSwapTypeMulti b.board fl' = swapType ∨ bs.swapType = swapType) ∧
      (b.board.mode = .offset → bs.swapType = .none →
        ∃ out, flashAreaRead (b.board.area fl' .secondary) 0 imageHeaderSize = some out ∧
          (ImageHeader.decode out).ihMagic ≠ imageMagic) ∧ ∀ st, st.secondaryOffset = 0 → ∃ st',
        bootReadImageHeaders alg fl' st false (some bs) = (st', true) ∧
        st'.hdrSecondary = img.hdr ∧ Holds fl' .secondary (st'.startOff .secondary) img ∧
        st'.startOff .secondary + img.size ≤ b.board.faSize .secondary ∧
        wp (bootPerformUpdate b alg { st' with swapType } { bs with swapType })
          (fun st fl'' => st.swapType ≠ .none ∧ Holds fl'' .primary 0 img ∧ Q true fl'') E C fl')
      (fun _ _ => False) C fl) : wp (bootGo b alg) Q E C fl := by
  unfold bootGo
  rw [wp_bind]
  refine wp_bootPrepare swaps (wp_imp status ?_)
  rintro bs fl₁ ⟨reset, kind, placed, headers⟩ st off
  obtain ⟨st', read, hdr, held, inside, update⟩ := headers st off
  refine wp_prepare_begin swaps img reset read kind upgrade hdr held inside leSec placed ?_
  have perform : performSwapType b alg { st' with swapType } bs =
      bootPerformUpdate b alg { st' with swapType } { bs with swapType } := by
    cases swapType <;> first | rfl | simp [SwapType.isUpgrade] at upgrade
  rw [wp_bind, perform]
  refine wp_imp update ?_
  rintro st₁ fl₂ ⟨ne, primary, post⟩
  exact wp_bootPrimarySlot swaps.reads primary fits lePri (fun none => absurd none ne) post

/-- A boot that cannot read the headers that the status points to changes nothing, so that no later
boot does better. -/
theorem wp_bootGo_unreadable (post : ∀ booted, Q booted fl)
    (status : wp (swapReadStatus b.board alg (bootStatusReset b.board)) (fun bs fl' =>
      fl' = fl ∧ ∀ st, (bootReadImageHeaders alg fl st (!bs.isReset b.board) (some bs)).2 = false)
      (fun _ _ => False) C fl) : wp (bootGo b alg) Q E C fl := by
  unfold bootGo
  rw [wp_bind]
  refine wp_bootPrepare swaps (wp_imp status ?_)
  rintro bs _ ⟨rfl, unread⟩ st -
  unfold prepareFromStatus
  simp only [wp_bind, wp_get, swaps.mode, Bool.false_eq_true, if_false, unread st,
    not_false_eq_true, if_true, wp_pure, performSwapType]
  exact wp_bootPrimarySlot_keeps post

end Adaboot
