import Adaboot.Nor.Flash
import Mathlib.Data.List.Basic

/-!
# Erasing ahead of writing

A writer that erases an area from its start on, and writes only below the end of what it has erased (the frontier),
never erases what it has written: as accesses, and as contents of flash.
-/

namespace Nor

variable {ι : Type} [DecidableEq ι]

/-- An access to flash and whether it succeeded. -/
inductive Access (ι : Type) where
  | erase (a : ι) (off len : Nat) (ok : Bool)
  | write (a : ι) (off len : Nat) (ok : Bool)

def Access.erases (a : ι) (i : Nat) : Access ι → Bool
  | .erase b off len ok => ok ∧ b = a ∧ off ≤ i ∧ i < off + len
  | .write .. => false

/-- The second access is not an erase that covers a byte of the first one, a write. -/
def Access.Spares : Access ι → Access ι → Prop
  | .write a off len _, .erase b off' len' _ => b = a → off + len ≤ off' ∨ off' + len' ≤ off
  | _, _ => True

/-- The accesses of a writer with these frontiers. -/
structure Progressive (log : List (Access ι)) (front : ι → Nat) : Prop where
  /-- Exactly the bytes below a frontier have been erased, each one once. -/
  once : ∀ a i, log.countP (Access.erases a i) = if i < front a then 1 else 0
  /-- Every write was below the frontier. -/
  below : ∀ a off len ok, .write a off len ok ∈ log → off + len ≤ front a
  /-- No erase covers what was written before it. -/
  spares : log.Pairwise Access.Spares

namespace Progressive

variable {log : List (Access ι)} {front : ι → Nat}

theorem nil : Progressive ([] : List (Access ι)) (fun _ => 0) where
  once a i := by simp
  below := by simp
  spares := .nil

variable (progress : Progressive log front)
include progress

theorem spares_erase {a : ι} {len : Nat} {ok : Bool} :
    (log ++ [Access.erase a (front a) len ok]).Pairwise Access.Spares := by
  refine List.pairwise_append.mpr ⟨progress.spares, List.pairwise_singleton _ _, ?_⟩
  intro access mem last is_last
  obtain rfl := List.mem_singleton.mp is_last
  cases access with
  | erase => trivial
  | write b off len' ok' =>
    intro same
    have := progress.below b off len' ok' mem
    exact .inl (same ▸ this)

theorem erase (a : ι) (len : Nat) :
    Progressive (log ++ [Access.erase a (front a) len true]) (Function.update front a (front a + len)) where
  once b i := by
    rw [List.countP_append, progress.once]
    by_cases same : b = a
    · simp only [List.countP_singleton, Access.erases, true_and]
      split_ifs <;> simp_all <;> omega
    · simp [Access.erases, Function.update_of_ne same, Ne.symm same]
  below b off len' ok mem := by
    have old := progress.below b off len' ok (by simpa using mem)
    by_cases same : b = a
    · subst same
      rw [Function.update_self]
      omega
    · rwa [Function.update_of_ne same]
  spares := progress.spares_erase

theorem erase_failed (a : ι) (len : Nat) :
    Progressive (log ++ [Access.erase a (front a) len false]) front where
  once b i := by
    rw [List.countP_append, progress.once]
    simp [Access.erases]
  below b off len' ok mem := progress.below b off len' ok (by simpa using mem)
  spares := progress.spares_erase

theorem write {a : ι} {off len : Nat} (ok : Bool)
    (le : off + len ≤ front a) : Progressive (log ++ [Access.write a off len ok]) front where
  once b i := by
    rw [List.countP_append, progress.once]
    simp [Access.erases]
  below b off' len' ok' mem := by
    rcases List.mem_append.mp mem with old | new
    · exact progress.below b off' len' ok' old
    · obtain ⟨rfl, rfl, rfl, rfl⟩ : b = a ∧ off' = off ∧ len' = len ∧ ok' = ok := by
        simpa using new
      exact le
  spares := by
    refine List.pairwise_append.mpr ⟨progress.spares, List.pairwise_singleton _ _, ?_⟩
    intro access _ last is_last
    obtain rfl := List.mem_singleton.mp is_last
    cases access <;> trivial

end Progressive

/-! ### Contents -/

/-- Below the frontier the area holds what was written to it and is erased elsewhere. -/
structure Filled (fl : Flash ι) (a : ι) (front : Nat) (content : Nat → Option UInt8) : Prop where
  inside : ∀ i, content i ≠ none → i < front
  holds : ∀ i, i < front → fl a i = (content i).getD erasedVal

def written (content : Nat → Option UInt8) (off : Nat) (data : List UInt8) (i : Nat) : Option UInt8 :=
  if off ≤ i ∧ i < off + data.length then some (data.getD (i - off) 0) else content i

namespace Filled

variable {fl fl' : Flash ι} {a : ι} {front : Nat} {content : Nat → Option UInt8}

theorem erase (filled : Filled fl a front content) (len : Nat) :
    Filled (fl.erase a front len) a (front + len) content where
  inside i some := by
    have := filled.inside i some
    omega
  holds i lt := by
    by_cases below : i < front
    · rw [Flash.erase_outside _ fun _ => .inl below]
      exact filled.holds i below
    · rw [Flash.erase_inside _ _ (by omega) lt]
      have : content i = none := by
        by_contra some
        exact below (filled.inside i some)
      simp [this]

theorem program (filled : Filled fl a front content) {off : Nat} {data : List UInt8}
    (le : off + data.length ≤ front) (blank : ∀ i, i < data.length → content (off + i) = none) :
    Filled (fl.program a off data) a front (written content off data) where
  inside i some := by
    unfold written at some
    split at some
    next within => omega
    next => exact filled.inside i some
  holds i lt := by
    unfold written
    split
    next within =>
      obtain ⟨j, rfl⟩ : ∃ j, i = off + j := ⟨i - off, by omega⟩
      have erased : fl a (off + j) = erasedVal := by
        rw [filled.holds _ lt, blank j (by omega), Option.getD_none]
      rw [Flash.program_erased _ _ (by omega) erased, Nat.add_sub_cancel_left, Option.getD_some]
    next out =>
      rw [Flash.program_outside _ fun _ => by omega]
      exact filled.holds i lt

end Filled

end Nor
