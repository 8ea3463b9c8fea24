import Mathlib.Tactic.TypeStar

/-!
# Loops

A loop with a body that goes on with another state or leaves with a result, as a relation: a state
is related to the result of a run that ends, of which there is one at most. An invariant says what
the result is like.
-/

namespace Xlink.Loop

variable {σ β : Type*} {body : σ → σ ⊕ β}

/-- A run of a loop that ends, from the state it starts in to its result. -/
inductive Loops (body : σ → σ ⊕ β) : σ → β → Prop
  | leave {s : σ} {result : β} (h : body s = .inr result) : Loops body s result
  | again {s s' : σ} {result : β} (h : body s = .inl s') (hrest : Loops body s' result) :
      Loops body s result

namespace Loops

/-- A body is a function, so a loop has one result. -/
theorem unique {s : σ} {result result' : β} (h : Loops body s result)
    (h' : Loops body s result') : result = result' := by
  induction h with
  | leave h =>
    cases h' with
    | leave h' => exact Sum.inr.inj (h.symm.trans h')
    | again h' => cases h.symm.trans h'
  | again h _ ih =>
    cases h' with
    | leave h' => cases h.symm.trans h'
    | again h' hrest' =>
      obtain rfl := Sum.inl.inj (h.symm.trans h')
      exact ih hrest'

/-- The rule of the invariant: it holds whenever the body begins, and gives what is left with. -/
theorem result_of_invariant {invariant : σ → Prop} {post : β → Prop}
    (hround : ∀ s s', invariant s → body s = .inl s' → invariant s')
    (hleave : ∀ s result, invariant s → body s = .inr result → post result) {s : σ} {result : β}
    (h : Loops body s result) (hs : invariant s) : post result := by
  induction h with
  | leave h => exact hleave _ _ hs h
  | again h _ ih => exact ih (hround _ _ hs h)

end Loops

end Xlink.Loop
