import Mathlib.Data.List.Basic

/-!
# Streams of frames

Frames whose header says how long they are, one behind the other. A receiver hands out the complete frames of what has
arrived and keeps the rest (`Format.split_of_start`).
-/

namespace Framing

variable {β : Type}

/-- Which headers are accepted, and how long their frames are. -/
structure Format (β : Type) where
  header : Nat
  accepts : List β → Bool
  size : List β → Nat
  header_pos : 0 < header
  header_le : ∀ buf, header ≤ size buf
  accepts_append : ∀ buf more, header ≤ buf.length → accepts (buf ++ more) = accepts buf
  size_append : ∀ buf more, header ≤ buf.length → size (buf ++ more) = size buf

namespace Format

variable (f : Format β)

/-- Hands out the complete frames and returns the rest. What is not accepted is dropped with all that follows. -/
def split : Nat → List β → List (List β) × List β
  | 0, buf => ([], buf)
  | rounds + 1, buf =>
    if buf.length < f.header then ([], buf)
    else if !f.accepts buf then ([], [])
    else if buf.length < f.size buf then ([], buf)
    else
      let (frames, rest) := split rounds (buf.drop (f.size buf))
      (buf.take (f.size buf) :: frames, rest)

structure IsFrame (frame : List β) : Prop where
  accepted : f.accepts frame = true
  size_eq : f.size frame = frame.length

variable {f} {frame buf : List β} {todo : List (List β)}

theorem IsFrame.header_le (whole : f.IsFrame frame) : f.header ≤ frame.length :=
  whole.size_eq ▸ f.header_le frame

/-- The start of the frames `todo`, without a complete one. -/
structure Short (buf : List β) (todo : List (List β)) : Prop where
  start : buf <+: todo.flatten
  incomplete : ∀ next ∈ todo.head?, buf.length < next.length

theorem starts_cons (start : buf <+: (frame :: todo).flatten) :
    (∃ part, part ≠ [] ∧ frame = buf ++ part) ∨ ∃ rest, buf = frame ++ rest ∧ rest <+: todo.flatten := by
  obtain ⟨more, joined⟩ := start
  rw [List.flatten_cons, List.append_eq_append_iff] at joined
  rcases joined with ⟨part, frame_eq, -⟩ | ⟨rest, buf_eq, flat_eq⟩
  · by_cases empty : part = []
    · subst empty
      rw [List.append_nil] at frame_eq
      exact .inr ⟨[], by rw [frame_eq, List.append_nil], _, rfl⟩
    · exact .inl ⟨part, empty, frame_eq⟩
  · exact .inr ⟨rest, buf_eq, more, flat_eq.symm⟩

/-- Of the start of a stream, exactly its complete frames are handed out. -/
theorem split_of_start {rounds : Nat}
    (whole : ∀ frame ∈ todo, f.IsFrame frame) (start : buf <+: todo.flatten) (enough : buf.length ≤ rounds) :
    ∃ done todo' rest, todo = done ++ todo' ∧ f.split rounds buf = (done, rest) ∧
      buf = done.flatten ++ rest ∧ Short rest todo' := by
  induction todo generalizing buf rounds with
  | nil =>
    obtain rfl : buf = [] := by simpa using start
    refine ⟨[], [], [], rfl, ?_, rfl, ⟨⟨_, rfl⟩, by simp⟩⟩
    cases rounds with
    | zero => rfl
    | succ rounds => exact if_pos f.header_pos
  | cons frame todo ih =>
    have first := whole frame List.mem_cons_self
    have header := first.header_le
    rcases starts_cons start with ⟨part, nonempty, frame_eq⟩ | ⟨rest, buf_eq, start'⟩
    · -- the first frame is not complete, so nothing is handed out
      have shorter : buf.length < frame.length := by
        have := List.length_pos_of_ne_nil nonempty
        rw [frame_eq, List.length_append]
        omega
      have kept : f.split rounds buf = ([], buf) := by
        cases rounds with
        | zero => rfl
        | succ rounds =>
          rw [split]
          by_cases cut_header : buf.length < f.header
          · rw [if_pos cut_header]
          · have accepted := first.accepted
            have size_eq := first.size_eq
            rw [frame_eq, f.accepts_append buf part (by omega)] at accepted
            rw [frame_eq, f.size_append buf part (by omega), ← frame_eq] at size_eq
            rw [if_neg cut_header, accepted, size_eq, if_neg (by simp), if_pos shorter]
      exact ⟨[], frame :: todo, buf, rfl, kept, rfl, ⟨start, by simpa using shorter⟩⟩
    · -- the first frame is handed out, and the rounds go on with what is behind it
      subst buf_eq
      have pos := f.header_pos
      rw [List.length_append] at enough
      obtain ⟨rounds, rfl⟩ : ∃ n, rounds = n + 1 := ⟨rounds - 1, by omega⟩
      obtain ⟨done, todo', left, rfl, ends, rest_eq, short⟩ :=
        ih (fun frame mem => whole frame (List.mem_cons_of_mem _ mem)) start' (show rest.length ≤ rounds by omega)
      refine ⟨frame :: done, todo', left, rfl, ?_, ?_, short⟩
      · have size_eq : f.size (frame ++ rest) = frame.length := by
          rw [f.size_append frame rest header, first.size_eq]
        have accepted : f.accepts (frame ++ rest) = true := by
          rw [f.accepts_append frame rest header, first.accepted]
        rw [split, if_neg (by rw [List.length_append]; omega), accepted, if_neg (by simp), size_eq,
          if_neg (by rw [List.length_append]; omega), List.drop_left, List.take_left, ends]
      · rw [List.flatten_cons, List.append_assoc, ← rest_eq]

end Format

end Framing
