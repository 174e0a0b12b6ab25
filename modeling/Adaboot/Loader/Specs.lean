import Adaboot.Erase
import Adaboot.Loader.Holds

/-!
# What the loader does with slots that hold images

Specifications of the functions of `loader.c` on the paths that a complete image takes: it is
validated, and once it stands in the primary slot it is booted.
-/

namespace Adaboot

open Nor Crash

/-- Without a status the header of the primary slot is read at its start, and reading the secondary one's leaves
everything else in place. -/
structure SwapAlgo.ReadsHeaders (bd : Board) (alg : SwapAlgo) : Prop where
  primary : ∀ {fl st out}, flashAreaRead (bd.area fl .primary) 0 imageHeaderSize = some out →
    alg.bootReadImageHeader fl st .primary none = (st.setHdr .primary (.decode out), true)
  keepsHdr : ∀ fl st bs, (alg.bootReadImageHeader fl st .secondary bs).1.hdrPrimary = st.hdrPrimary
  keepsType : ∀ fl st bs, (alg.bootReadImageHeader fl st .secondary bs).1.swapType = st.swapType
  keepsOffset : ∀ fl st, (alg.bootReadImageHeader fl st .secondary none).1.secondaryOffset = st.secondaryOffset

variable {b : LoaderBuild} {alg : SwapAlgo} {fl : Flash} {img : Image b.validate}
  {E : BootErr → Flash → Prop} {C : Flash → Prop}

theorem bootReadImageHeaders_none (fl : Flash) (reads : alg.ReadsHeaders b.board)
    (room : imageHeaderSize ≤ b.board.faSize .primary) (st : BootState) :
    ∃ st', bootReadImageHeaders alg fl st false none = (st', true) ∧
      st'.hdrPrimary = .decode (fl.read .primary 0 imageHeaderSize) ∧ st'.swapType = st.swapType ∧
      st'.secondaryOffset = st.secondaryOffset := by
  have out : flashAreaRead (b.board.area fl .primary) 0 imageHeaderSize =
      some (fl.read .primary 0 imageHeaderSize) := flashAreaRead_area (by omega)
  generalize eq : st.setHdr .primary (.decode (fl.read .primary 0 imageHeaderSize)) = st₀
  have keepsHdr := reads.keepsHdr fl st₀ none
  have keepsType := reads.keepsType fl st₀ none
  have keepsOffset := reads.keepsOffset fl st₀
  simp only [bootReadImageHeaders, reads.primary out, eq]
  -- the secondary slot may be unreadable, which does not change the outcome
  rcases h : alg.bootReadImageHeader fl st₀ .secondary none with ⟨st', _ | _⟩ <;>
    rw [h, ← eq] at keepsHdr keepsType keepsOffset
  · exact ⟨st', rfl, keepsHdr, keepsType, keepsOffset⟩
  · exact ⟨st', rfl, keepsHdr, keepsType, keepsOffset⟩

theorem Image.not_erased {v : ValidateBuild} (img : Image v) : img.hdr.bootCheckHeaderErased = false := by
  have magic : img.hdr.ihMagic = imageMagic := img.magic
  rw [ImageHeader.bootCheckHeaderErased, magic]
  rfl

variable {st : BootState} {bs : Option BootStatus} {expected : Option SwapType} {Q : FihRet → Flash → Prop}

theorem wp_bootValidateSlot (img : Image b.validate) {slot : Area} (hdr : st.hdr slot = img.hdr)
    (held : Holds fl slot (st.startOff slot) img) (fits : st.startOff slot + img.size ≤ b.board.faSize slot)
    (le : img.size ≤ bootutilMaxImageSize b alg slot)
    (placed : b.board.mode = .offset → slot ≠ .primary → expected ≠ none →
      ∃ out, flashAreaRead (b.board.area fl slot) 0 imageHeaderSize = some out ∧
        (ImageHeader.decode out).ihMagic ≠ imageMagic)
    (post : Q .success fl) : wp (bootValidateSlot b alg st slot bs expected) Q E C fl := by
  have bootable : img.hdr.ihFlags &&& imageFNonBootable = 0 := img.bootable
  have valid : (img.hdr.bootCheckHeaderValid (b.board.faSize slot) &&
      bootCheckImage b alg fl st slot) = true := by
    rw [Bool.and_eq_true]
    refine ⟨img.headerValid (b.board.size_lt slot) (by omega), ?_⟩
    rw [bootCheckImage, hdr]
    exact held.valid fits le
  unfold bootValidateSlot
  rw [hdr, if_neg (by simp [img.not_erased, bootable]), wp_bind, wp_get, valid]
  split_ifs with check
  · obtain ⟨mode, ne, -, type⟩ := check
    obtain ⟨out, read, other⟩ := placed mode ne (by rcases type with h | h <;> simp [h])
    simp only [read]
    rw [if_neg other, if_pos trivial]
    exact (wp_pure _).mpr post
  · exact (wp_pure _).mpr post

theorem wp_bootPrimarySlot {Q : Bool → Flash → Prop}
    (reads : alg.ReadsHeaders b.board) (held : Holds fl .primary 0 img) (fits : img.size ≤ b.board.faSize .primary)
    (le : img.size ≤ bootutilMaxImageSize b alg .primary)
    (hdr : st.swapType = .none → st.hdrPrimary = img.hdr) (post : Q true fl) :
    wp (bootPrimarySlot b alg st) Q E C fl := by
  have decoded := held.decode_read
  have room : imageHeaderSize ≤ b.board.faSize .primary := img.header_le.trans fits
  -- whichever way the header comes, it is that of the image
  have read : ∃ st', (if st.swapType ≠ .none then bootReadImageHeaders alg fl st false none
      else (st, true)) = (st', true) ∧ st'.hdrPrimary = img.hdr := by
    by_cases none : st.swapType = .none
    · exact ⟨st, by simp [none], hdr none⟩
    · obtain ⟨st', headers, primary, -⟩ := bootReadImageHeaders_none fl reads room st
      exact ⟨st', by simp [none, headers], primary.trans decoded⟩
  obtain ⟨st', read, primary⟩ := read
  unfold bootPrimarySlot
  rw [wp_bind, wp_get, read]
  simp only [not_true_eq_false, if_false]
  split
  · rw [wp_bind]
    refine wp_bootValidateSlot img primary ?_ ?_ le ?_ ?_
    · exact held
    · exact (Nat.zero_add img.size).symm ▸ fits
    · intro _ ne
      exact absurd rfl ne
    · simpa using post
  · have magic : img.hdr.ihMagic = imageMagic := img.magic
    rw [wp_pure, primary, magic]
    simpa using post

theorem wp_bootValidateSlot_primary (post : ∀ ret, Q ret fl) :
    wp (bootValidateSlot b alg st .primary bs expected) Q E C fl := by
  unfold bootValidateSlot noBootableImage invalidImage
  simp only [ne_eq, not_true_eq_false, false_and, and_false, if_false]
  split
  · exact (wp_pure _).mpr (post _)
  · rw [wp_bind, wp_get]
    split <;> exact (wp_pure _).mpr (post _)

theorem wp_bootPrimarySlot_keeps {Q : Bool → Flash → Prop}
    (post : ∀ booted, Q booted fl) : wp (bootPrimarySlot b alg st) Q E C fl := by
  unfold bootPrimarySlot
  rw [wp_bind, wp_get]
  split
  split
  · exact (wp_pure _).mpr (post _)
  · split
    · rw [wp_bind]
      exact wp_bootValidateSlot_primary fun ret => (wp_pure _).mpr (post _)
    · exact (wp_pure _).mpr (post _)

end Adaboot
