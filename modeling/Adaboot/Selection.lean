import Mathlib.Order.Basic
import Mathlib.Data.Set.Insert

/-!
# Trying the best candidate first

A search that tries the highest ranked candidate, strikes it off when it fails and goes on (`Chooses`); `firstBest` is
the loop that looks for the highest rank.
-/

namespace Selection

variable {ι κ : Type} [LinearOrder κ]

/-! ### The highest ranked candidate -/

/-- The loop's step: a candidate replaces the one found so far only when it is better. -/
def keepBetter (better : ι → ι → Bool) (avail : ι → Bool) (found : Option ι) (i : ι) : Option ι :=
  if avail i then
    match found with
    | none => some i
    | some j => if better i j then some i else some j
  else found

/-- The first available candidate of the list that no other one is better than. -/
def firstBest (better : ι → ι → Bool) (avail : ι → Bool) (cands : List ι) : Option ι :=
  cands.foldl (keepBetter better avail) none

/-- `found` is the result for the candidates that satisfy `seen`. -/
structure BestOf (rank : ι → κ) (avail : ι → Bool) (seen : ι → Prop) (found : Option ι) : Prop where
  none_avail : found = none → ∀ j, seen j → avail j = false
  usable : ∀ i, found = some i → seen i ∧ avail i = true
  max : ∀ i, found = some i → ∀ j, seen j → avail j = true → rank j ≤ rank i

section Best

variable {better : ι → ι → Bool} {avail : ι → Bool} {rank : ι → κ} {seen : ι → Prop} {found : Option ι}
  (decides : ∀ i j, better i j = true ↔ rank j < rank i)
include decides

theorem BestOf.step (best : BestOf rank avail seen found)
    (i : ι) : BestOf rank avail (fun j => seen j ∨ j = i) (keepBetter better avail found i) := by
  cases available : avail i with
  | false =>
    -- the candidate is passed over, and nothing is claimed about it
    have skipped : keepBetter better avail found i = found := by simp [keepBetter, available]
    rw [skipped]
    constructor
    · rintro none_found j (old | rfl)
      · exact best.none_avail none_found j old
      · exact available
    · intro k is_found
      exact ⟨.inl (best.usable k is_found).1, (best.usable k is_found).2⟩
    · rintro k is_found j (old | rfl) usable
      · exact best.max k is_found j old usable
      · simp [available] at usable
  | true =>
    cases found with
    | none =>
      have taken : keepBetter better avail none i = some i := by simp [keepBetter, available]
      rw [taken]
      constructor
      · simp
      · rintro k ⟨⟩
        exact ⟨.inr rfl, available⟩
      · rintro k ⟨⟩ j (old | rfl) usable
        · simp [best.none_avail rfl j old] at usable
        · exact le_rfl
    | some c =>
      obtain ⟨seen_c, avail_c⟩ := best.usable c rfl
      have max_c := best.max c rfl
      have compared : keepBetter better avail (some c) i = if better i c then some i else some c := by
        simp [keepBetter, available]
      rw [compared]
      split
      next higher =>
        have lt := (decides i c).mp higher
        constructor
        · simp
        · rintro k ⟨⟩
          exact ⟨.inr rfl, available⟩
        · rintro k ⟨⟩ j (old | rfl) usable
          · exact (max_c j old usable).trans lt.le
          · exact le_rfl
      next lower =>
        have le : rank i ≤ rank c := not_lt.mp fun lt => lower ((decides i c).mpr lt)
        constructor
        · simp
        · rintro k ⟨⟩
          exact ⟨.inl seen_c, avail_c⟩
        · rintro k ⟨⟩ j (old | rfl) usable
          · exact max_c j old usable
          · exact le

theorem BestOf.foldl (cands : List ι)
    (best : BestOf rank avail seen found) :
    BestOf rank avail (fun j => seen j ∨ j ∈ cands) (cands.foldl (keepBetter better avail) found) := by
  induction cands generalizing seen found with
  | nil => simpa using best
  | cons i rest ih =>
    have next := ih (best.step decides i)
    simpa only [List.foldl_cons, List.mem_cons, or_assoc] using next

/-- The loop finds an available candidate of the highest rank, if any is available. -/
theorem bestOf_firstBest (cands : List ι) :
    BestOf rank avail (· ∈ cands) (firstBest better avail cands) := by
  have start : BestOf rank avail (fun _ => False) (none : Option ι) := ⟨by simp, by simp, by simp⟩
  simpa [firstBest] using start.foldl decides cands

omit decides in
theorem better_of_second {i j : ι} (ne : i ≠ j) (available : avail i = true)
    (found : firstBest better avail [i, j] = some j) : better j i = true := by
  by_contra worse
  simp [firstBest, keepBetter, available, worse, ne] at found

end Best

/-! ### The search -/

/-- The search among the candidates of a set, with its outcome. -/
inductive Chooses (rank : ι → κ) (passes : ι → Prop) : Set ι → Option ι → Prop where
  | exhausted {cands : Set ι} : (∀ i, i ∉ cands) → Chooses rank passes cands none
  | pass {cands : Set ι} {i : ι} :
      i ∈ cands → (∀ j ∈ cands, rank j ≤ rank i) → passes i → Chooses rank passes cands (some i)
  | fail {cands : Set ι} {i : ι} {out : Option ι} :
      i ∈ cands → ¬passes i → Chooses rank passes (cands \ {i}) out → Chooses rank passes cands out

/-- A candidate of the highest rank among those that pass, if any passes. -/
structure Best (rank : ι → κ) (passes : ι → Prop) (cands : Set ι) (out : Option ι) : Prop where
  some_iff : out.isSome = true ↔ ∃ i ∈ cands, passes i
  chosen : ∀ i, out = some i → i ∈ cands ∧ passes i
  max : ∀ i, out = some i → ∀ j ∈ cands, passes j → rank j ≤ rank i

variable {rank : ι → κ} {passes : ι → Prop} {cands : Set ι} {out : Option ι}

theorem Chooses.best (chooses : Chooses rank passes cands out) : Best rank passes cands out := by
  induction chooses with
  | exhausted empty =>
    constructor
    · simp [empty]
    · simp
    · simp
  | @pass cands i mem max passed =>
    constructor
    · simpa using ⟨i, mem, passed⟩
    · rintro k ⟨⟩
      exact ⟨mem, passed⟩
    · rintro k ⟨⟩ j member' _
      exact max j member'
  | @fail cands i out mem failed rest ih =>
    -- what passes among all candidates passes among those that are left
    have left : ∀ j ∈ cands, passes j → j ∈ cands \ {i} := by
      intro j member' passed
      refine ⟨member', ?_⟩
      rintro rfl
      exact failed passed
    constructor
    · rw [ih.some_iff]
      constructor
      · rintro ⟨j, member', passed⟩
        exact ⟨j, member'.1, passed⟩
      · rintro ⟨j, member', passed⟩
        exact ⟨j, left j member' passed, passed⟩
    · intro k chosen
      exact ⟨(ih.chosen k chosen).1.1, (ih.chosen k chosen).2⟩
    · intro k chosen j member' passed
      exact ih.max k chosen j (left j member' passed) passed

end Selection
