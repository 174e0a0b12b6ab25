import Mathlib.Logic.Basic

/-!
# Programs whose power can be cut

A program changes a persistent state by atomic operations. Power can be cut before any of them, and a run records the
states that this would leave behind.
-/

namespace Crash

/-- One run: the states a power cut can leave behind, the outcome, and the state at the end. -/
structure Run (σ ε α : Type) where
  trace : List σ
  value : Except ε α
  state : σ

/-- A program over the persistent state `σ` that fails with an `ε` or returns an `α`. -/
def Prog (σ ε α : Type) : Type := σ → Run σ ε α

variable {σ ε α β : Type}

namespace Prog

protected def pure (a : α) : Prog σ ε α := fun s => ⟨[], .ok a, s⟩

protected def bind (m : Prog σ ε α) (f : α → Prog σ ε β) : Prog σ ε β := fun s =>
  match m s with
  | ⟨trace, .error e, s'⟩ => ⟨trace, .error e, s'⟩
  | ⟨trace, .ok a, s'⟩ =>
    match f a s' with
    | ⟨trace', value, s''⟩ => ⟨trace ++ trace', value, s''⟩

instance : Monad (Prog σ ε) where
  pure := Prog.pure
  bind := Prog.bind

def get : Prog σ ε σ := fun s => ⟨[], .ok s, s⟩

def op (f : σ → σ) : Prog σ ε Unit := fun s => ⟨[s], .ok (), f s⟩

def throw (e : ε) : Prog σ ε α := fun s => ⟨[], .error e, s⟩

/-- Runs `m` and turns its failure into the outcome of `h`. -/
def handle (m : Prog σ ε α) (h : ε → Prog σ ε α) : Prog σ ε α := fun s =>
  match m s with
  | ⟨trace, .ok a, s'⟩ => ⟨trace, .ok a, s'⟩
  | ⟨trace, .error e, s'⟩ =>
    match h e s' with
    | ⟨trace', value, s''⟩ => ⟨trace ++ trace', value, s''⟩

/-- The value of `m`, or its failure as a value. -/
def attempt (m : Prog σ ε α) : Prog σ ε (Except ε α) := fun s =>
  match m s with
  | ⟨trace, value, s'⟩ => ⟨trace, .ok value, s'⟩

protected theorem pure_bind (a : α) (f : α → Prog σ ε β) : (pure a >>= f : Prog σ ε β) = f a := by
  funext s
  exact congrArg (fun run : Run σ ε β => (⟨run.trace, run.value, run.state⟩ : Run σ ε β)) rfl

protected theorem bind_pure (m : Prog σ ε α) : m >>= pure = m := by
  funext s
  show Prog.bind m Prog.pure s = m s
  unfold Prog.bind
  cases m s with
  | mk trace value t => cases value <;> simp [Prog.pure]

protected theorem bind_assoc {γ : Type} (m : Prog σ ε α) (f : α → Prog σ ε β) (g : β → Prog σ ε γ) :
    m >>= f >>= g = m >>= fun a => f a >>= g := by
  funext s
  show Prog.bind (Prog.bind m f) g s = Prog.bind m (fun a => Prog.bind (f a) g) s
  unfold Prog.bind
  cases m s with
  | mk trace value t =>
    cases value with
    | error e => rfl
    | ok a =>
      dsimp only
      cases f a t with
      | mk trace' value' t' =>
        cases value' with
        | error e => rfl
        | ok b => simp only [List.append_assoc]

protected theorem ite_bind {c : Prop} [Decidable c] (m n : Prog σ ε α) (f : α → Prog σ ε β) :
    (if c then m else n) >>= f = if c then m >>= f else n >>= f := by
  split
  · rfl
  · rfl

end Prog

/-! ### Programs that leave a part of the state alone -/

/-- The program leaves a part of every state as it is, whether it fails or not. -/
def Leaves {γ : Type} (part : σ → γ) (m : Prog σ ε α) : Prop := ∀ s, part (m s).state = part s

section Leaves

variable {γ : Type} {part : σ → γ}

theorem Leaves.pure (a : α) : Leaves part (Pure.pure a : Prog σ ε α) := fun _ => rfl

theorem Leaves.throw (e : ε) : Leaves part (Prog.throw e : Prog σ ε α) := fun _ => rfl

theorem Leaves.bind {m : Prog σ ε α} {f : α → Prog σ ε β} (first : Leaves part m)
    (next : ∀ a, Leaves part (f a)) : Leaves part (m >>= f) := by
  intro s
  show part (Prog.bind m f s).state = part s
  have left := first s
  unfold Prog.bind
  split
  next run => rwa [run] at left
  next a t run =>
    rw [run] at left
    exact (next a t).trans left

theorem Leaves.ite {c : Prop} [Decidable c] {m n : Prog σ ε α} (yes : Leaves part m) (no : Leaves part n) :
    Leaves part (if c then m else n) := by
  split
  · exact yes
  · exact no

end Leaves

/-- The program leaves every state as it is, whether it fails or not. -/
def ReadsOnly (m : Prog σ ε α) : Prop := ∀ s, (m s).state = s

theorem ReadsOnly.pure (a : α) : ReadsOnly (Pure.pure a : Prog σ ε α) := fun _ => rfl

theorem ReadsOnly.throw (e : ε) : ReadsOnly (Prog.throw e : Prog σ ε α) := fun _ => rfl

variable {m : Prog σ ε α} {a : α} {Q' : α → σ → Prop}

theorem ReadsOnly.bind {f : α → Prog σ ε β} (first : ReadsOnly m)
    (next : ∀ a, ReadsOnly (f a)) : ReadsOnly (m >>= f) :=
  show Leaves id (m >>= f) from Leaves.bind first next

theorem ReadsOnly.get {f : σ → Prog σ ε β} (next : ∀ s, ReadsOnly (f s)) :
    ReadsOnly (Prog.get >>= f) := bind (fun _ => rfl) next

/-! ### Weakest preconditions -/

/-- From `s`, every power cut of `m` leaves a state of `C`, a returned value satisfies `Q` and a
failure satisfies `E`. -/
def wp (m : Prog σ ε α) (Q : α → σ → Prop) (E : ε → σ → Prop) (C : σ → Prop) (s : σ) : Prop :=
  (∀ t ∈ (m s).trace, C t) ∧
    match (m s).value with
    | .ok a => Q a (m s).state
    | .error e => E e (m s).state

variable {Q : α → σ → Prop} {R : β → σ → Prop} {E : ε → σ → Prop} {C : σ → Prop} {s : σ}

@[simp] theorem wp_pure (a : α) : wp (pure a : Prog σ ε α) Q E C s ↔ Q a s := by
  simp [wp, pure, Prog.pure]

theorem wp_bind (m : Prog σ ε α) (f : α → Prog σ ε β) :
    wp (m >>= f) R E C s ↔ wp m (fun a t => wp (f a) R E C t) E C s := by
  show wp (Prog.bind m f) R E C s ↔ _
  unfold wp Prog.bind
  rcases m s with ⟨trace, _ | a, t⟩
  · simp
  · simp only [List.mem_append]
    constructor
    · rintro ⟨cuts, post⟩
      exact ⟨fun u mem => cuts u (.inl mem), fun u mem => cuts u (.inr mem), post⟩
    · rintro ⟨first, second, post⟩
      exact ⟨fun u mem => mem.elim (first u) (second u), post⟩

@[simp] theorem wp_get {Q : σ → σ → Prop} : wp (Prog.get : Prog σ ε σ) Q E C s ↔ Q s s := by
  simp [wp, Prog.get]

@[simp] theorem wp_op (f : σ → σ) {Q : Unit → σ → Prop} :
    wp (Prog.op f : Prog σ ε Unit) Q E C s ↔ C s ∧ Q () (f s) := by
  simp [wp, Prog.op]

@[simp] theorem wp_throw (e : ε) : wp (Prog.throw e : Prog σ ε α) Q E C s ↔ E e s := by
  simp [wp, Prog.throw]

theorem wp_handle (m : Prog σ ε α) (h : ε → Prog σ ε α) :
    wp (Prog.handle m h) Q E C s ↔ wp m Q (fun e t => wp (h e) Q E C t) C s := by
  unfold wp Prog.handle
  rcases m s with ⟨trace, e | a, t⟩
  · simp only [List.mem_append]
    constructor
    · rintro ⟨cuts, post⟩
      exact ⟨fun u mem => cuts u (.inl mem), fun u mem => cuts u (.inr mem), post⟩
    · rintro ⟨first, second, post⟩
      exact ⟨fun u mem => mem.elim (first u) (second u), post⟩
  · simp

theorem wp_attempt (m : Prog σ ε α) {Q : Except ε α → σ → Prop} : wp (Prog.attempt m) Q E C s ↔
      wp m (fun a t => Q (.ok a) t) (fun e t => Q (.error e) t) C s := by
  unfold wp Prog.attempt
  rcases m s with ⟨trace, e | a, t⟩ <;> simp

theorem wp_of_value (value : (m s).value = .ok a)
    (cuts : ∀ t ∈ (m s).trace, C t) (post : Q a (m s).state) : wp m Q E C s := by
  refine ⟨cuts, ?_⟩
  rw [value]
  exact post

theorem wp_post (holds : wp m Q E C s) (value : (m s).value = .ok a) : Q a (m s).state := by
  have ended := holds.2
  rwa [value] at ended

theorem wp_state {P : σ → Prop} (holds : wp m (fun _ => P) (fun _ => P) C s) : P (m s).state := by
  have ended := holds.2
  split at ended
  · exact ended
  · exact ended

theorem wp_value (holds : wp m Q E C s) : wp m (fun a t => Q a t ∧ (m s).value = .ok a) E C s := by
  obtain ⟨cuts, ended⟩ := holds
  refine ⟨cuts, ?_⟩
  split at ended
  next value => exact ⟨ended, value⟩
  next => exact ended

theorem Leaves.wp {γ : Type} {part : σ → γ} (left : Leaves part m) (s : σ) :
    wp m (fun _ t => part t = part s) (fun _ t => part t = part s) (fun _ => True) s := by
  refine ⟨fun _ _ => trivial, ?_⟩
  split
  · exact left s
  · exact left s

theorem wp_mono {E' : ε → σ → Prop} {C' : σ → Prop}
    (holds : wp m Q E C s) (post : ∀ a t, Q a t → Q' a t) (fails : ∀ e t, E e t → E' e t)
    (cuts : ∀ t, C t → C' t) : wp m Q' E' C' s := by
  obtain ⟨trace, value⟩ := holds
  refine ⟨fun t mem => cuts t (trace t mem), ?_⟩
  cases h : (m s).value with
  | ok a => exact post a _ (by simpa [h] using value)
  | error e => exact fails e _ (by simpa [h] using value)

theorem wp_imp (holds : wp m Q E C s) (post : ∀ a t, Q a t → Q' a t) :
    wp m Q' E C s :=
  wp_mono holds post (fun _ _ failed => failed) fun _ cut => cut

end Crash
