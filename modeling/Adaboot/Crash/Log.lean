import Adaboot.Crash.Prog

/-!
# The calls of a run

A log lists the operations of a run as calls, together with how it ends; `Makes` ties it to the states of the run.
-/

namespace Crash

/-- Calls made one after the other, and how the run ends. -/
structure Log (κ ε α : Type) where
  calls : List κ
  value : Except ε α

variable {σ κ ε α β : Type}

namespace Log

protected def pure (a : α) : Log κ ε α := ⟨[], .ok a⟩

protected def bind (log : Log κ ε α) (f : α → Log κ ε β) : Log κ ε β :=
  match log.value with
  | .error e => ⟨log.calls, .error e⟩
  | .ok a => ⟨log.calls ++ (f a).calls, (f a).value⟩

instance : Monad (Log κ ε) where
  pure := Log.pure
  bind := Log.bind

def call (c : κ) : Log κ ε Unit := ⟨[c], .ok ()⟩

def throw (e : ε) : Log κ ε α := ⟨[], .error e⟩

def mapError (f : ε → ε) (log : Log κ ε α) : Log κ ε α := ⟨log.calls, log.value.mapError f⟩

variable {log : Log κ ε α} {c : κ}

theorem bind_calls_of_ok {a : α} (ok : log.value = .ok a) (f : α → Log κ ε β) :
    (log >>= f).calls = log.calls ++ (f a).calls := by
  show (Log.bind log f).calls = _
  rw [Log.bind, ok]

theorem bind_calls_of_error {e : ε} (error : log.value = .error e) (f : α → Log κ ε β) :
    (log >>= f).calls = log.calls := by
  show (Log.bind log f).calls = _
  rw [Log.bind, error]

theorem mem_bind_of_mem (f : α → Log κ ε β) (mem : c ∈ log.calls) :
    c ∈ (log >>= f).calls := by
  cases value : log.value with
  | error e => rwa [bind_calls_of_error value]
  | ok a =>
    rw [bind_calls_of_ok value]
    exact List.mem_append_left _ mem

theorem mem_bind {f : α → Log κ ε β} (mem : c ∈ (log >>= f).calls) :
    c ∈ log.calls ∨ ∃ a, log.value = .ok a ∧ c ∈ (f a).calls := by
  cases value : log.value with
  | error e =>
    rw [bind_calls_of_error value] at mem
    exact .inl mem
  | ok a =>
    rw [bind_calls_of_ok value] at mem
    rcases List.mem_append.mp mem with first | rest
    · exact .inl first
    · exact .inr ⟨a, rfl, rest⟩

end Log

/-- The states in which the calls are made. -/
def statesOf (act : κ → σ → σ) : List κ → σ → List σ
  | [], _ => []
  | c :: rest, s => s :: statesOf act rest (act c s)

def stateAfter (act : κ → σ → σ) (calls : List κ) (s : σ) : σ := calls.foldl (fun s c => act c s) s

/-- From a state, the program makes the calls of the log and ends as it says. -/
def Makes (act : κ → σ → σ) (m : Prog σ ε α) (s : σ) (log : Log κ ε α) : Prop :=
  m s = ⟨statesOf act log.calls s, log.value, stateAfter act log.calls s⟩

variable {act : κ → σ → σ} {s : σ}

theorem statesOf_append (calls calls' : List κ) (s : σ) :
    statesOf act (calls ++ calls') s = statesOf act calls s ++ statesOf act calls' (stateAfter act calls s) := by
  induction calls generalizing s with
  | nil => rfl
  | cons c calls ih =>
    rw [List.cons_append, statesOf, statesOf, ih]
    rfl

theorem stateAfter_append (calls calls' : List κ) (s : σ) :
    stateAfter act (calls ++ calls') s = stateAfter act calls' (stateAfter act calls s) :=
  List.foldl_append

theorem stateAfter_part {γ : Type} (part : σ → γ) {calls : List κ}
    (same : ∀ c ∈ calls, ∀ s, part (act c s) = part s) (s : σ) : part (stateAfter act calls s) = part s := by
  induction calls generalizing s with
  | nil => rfl
  | cons c calls ih =>
    calc part (stateAfter act calls (act c s)) = part (act c s) := ih (fun d mem => same d (.tail _ mem)) _
      _ = part s := same c (.head _) s

namespace Makes

theorem pure (a : α) : Makes act (Pure.pure a : Prog σ ε α) s (Pure.pure a) := rfl

theorem throw (e : ε) : Makes act (Prog.throw e : Prog σ ε α) s (.throw e) := rfl

theorem op (c : κ) : Makes act (Prog.op (act c) : Prog σ ε Unit) s (.call c) := rfl

theorem get_bind {f : σ → Prog σ ε β} {log : Log κ ε β} (next : Makes act (f s) s log) :
    Makes act (Prog.get >>= f) s log := by
  show Prog.bind Prog.get f s = _
  unfold Prog.bind Prog.get
  dsimp only
  rw [next]
  rfl

variable {log : Log κ ε α} {m : Prog σ ε α}

theorem bind {f : α → Prog σ ε β} {g : α → Log κ ε β} (first : Makes act m s log)
    (next : ∀ a, log.value = .ok a → Makes act (f a) (stateAfter act log.calls s) (g a)) :
    Makes act (m >>= f) s (log >>= g) := by
  show Prog.bind m f s = ⟨statesOf act (Log.bind log g).calls s, (Log.bind log g).value,
    stateAfter act (Log.bind log g).calls s⟩
  unfold Prog.bind Log.bind
  rw [first]
  cases value : log.value with
  | error e => rfl
  | ok a =>
    dsimp only
    have second := next a value
    rw [second, statesOf_append, stateAfter_append]

theorem handle_throw {h : ε → ε} (first : Makes act m s log) :
    Makes act (Prog.handle m fun e => .throw (h e)) s (log.mapError h) := by
  unfold Makes Log.mapError at *
  unfold Prog.handle
  rw [first]
  cases log.value with
  | error e =>
    simp only [Prog.throw, List.append_nil]
    rfl
  | ok a => rfl

end Makes

end Crash
