import Mathlib.Algebra.GroupWithZero.Nat
import Xlink.Lib.Loop

/-!
# Chunked processing

`chunked` hands a size to a callback in pieces, until the callback refuses one. Its loop changes the
size and, for the last piece, the chunk. With a chunk that is not zero it ends, and what it does is
what a fold over the pieces does.
-/

namespace Xlink.Host

open Loop

variable {σ : Type*}

/-- One round of the loop of `chunked`, on what is left of the size, the chunk and the context. A
callback may fail to return. -/
def chunkedBody (callback : Nat → σ → Option (Bool × σ)) :
    Nat × Nat × σ → (Nat × Nat × σ) ⊕ Option (Bool × σ)
  | (size, chunk, context) =>
    let left := if chunk < size then size - chunk else 0
    let chunk := if chunk < size then chunk else size
    match callback chunk context with
    | none => .inr none
    | some (false, context) => .inr (some (false, context))
    | some (true, context) =>
      if 0 < left then .inl (left, chunk, context) else .inr (some (true, context))

/-- `chunked` ends with a result and a context, or in a callback that does not return. -/
def Chunked (callback : Nat → σ → Option (Bool × σ)) (context : σ) (chunk size : Nat)
    (result : Option (Bool × σ)) : Prop :=
  Loops (chunkedBody callback) (size, chunk, context) result

/-- The pieces of a size: full ones, and a last one that may be shorter. -/
def pieces (chunk size : Nat) : List Nat :=
  if _h : 0 < chunk ∧ chunk < size then chunk :: pieces chunk (size - chunk) else [size]
termination_by size

/-- The callback on one piece after the other, until it refuses one. -/
def onPieces (callback : Nat → σ → Option (Bool × σ)) : List Nat → σ → Option (Bool × σ)
  | [], context => some (true, context)
  | piece :: rest, context =>
    match callback piece context with
    | none => none
    | some (false, context) => some (false, context)
    | some (true, context) => onPieces callback rest context

section Pieces

variable {callback : Nat → σ → Option (Bool × σ)} {context : σ} {chunk size : Nat}

theorem pieces_more (hchunk : 0 < chunk) (h : chunk < size) :
    pieces chunk size = chunk :: pieces chunk (size - chunk) := by
  rw [pieces, dif_pos ⟨hchunk, h⟩]

theorem pieces_last (h : size ≤ chunk) : pieces chunk size = [size] := by
  rw [pieces, dif_neg (by omega)]

theorem le_of_mem_pieces {piece : Nat} (h : piece ∈ pieces chunk size) (hchunk : 0 < chunk) :
    piece ≤ chunk := by
  induction hn : size using Nat.strongRecOn generalizing size with
  | _ n ih =>
    subst hn
    by_cases hmore : chunk < size
    · rw [pieces_more hchunk hmore] at h
      cases h with
      | head => exact Nat.le_refl _
      | tail _ h => exact ih (size - chunk) (by omega) h rfl
    · rw [pieces_last (Nat.not_lt.mp hmore)] at h
      obtain rfl := List.mem_singleton.mp h
      exact Nat.not_lt.mp hmore

/-- The pieces make the size. -/
theorem sum_pieces (hchunk : 0 < chunk) : (pieces chunk size).sum = size := by
  induction hn : size using Nat.strongRecOn generalizing size with
  | _ n ih =>
    subst hn
    by_cases hmore : chunk < size
    · rw [pieces_more hchunk hmore, List.sum_cons, ih (size - chunk) (by omega) rfl]
      omega
    · rw [pieces_last (Nat.not_lt.mp hmore), List.sum_singleton]

/-- The loop is the fold over the pieces. -/
theorem chunked_pieces (callback : Nat → σ → Option (Bool × σ)) (context : σ) (hchunk : 0 < chunk)
    (size : Nat) : Chunked callback context chunk size
      (onPieces callback (pieces chunk size) context) := by
  induction hn : size using Nat.strongRecOn generalizing size context with
  | _ n ih =>
    subst hn
    by_cases hmore : chunk < size
    · rw [pieces_more hchunk hmore, onPieces]
      cases hcall : callback chunk context with
      | none => exact .leave (by simp [chunkedBody, hmore, hcall])
      | some answer =>
        obtain ⟨result, context'⟩ := answer
        cases result with
        | false => exact .leave (by simp [chunkedBody, hmore, hcall])
        | true =>
          have hround : chunkedBody callback (size, chunk, context) =
              .inl (size - chunk, chunk, context') := by
            have hleft : 0 < size - chunk := by omega
            simp [chunkedBody, hmore, hcall, hleft]
          exact .again hround (ih (size - chunk) (by omega) context' (size - chunk) rfl)
    · rw [pieces_last (Nat.not_lt.mp hmore), onPieces]
      refine .leave ?_
      cases hcall : callback size context with
      | none => simp [chunkedBody, hmore, hcall]
      | some answer =>
        obtain ⟨result, context'⟩ := answer
        cases result with
        | false => simp [chunkedBody, hmore, hcall]
        | true => simp [chunkedBody, hmore, hcall, onPieces]

/-- `chunked` has one outcome. -/
theorem chunked_iff {result : Option (Bool × σ)} (hchunk : 0 < chunk) :
    Chunked callback context chunk size result ↔
      result = onPieces callback (pieces chunk size) context := by
  constructor
  · intro h
    exact h.unique (chunked_pieces callback context hchunk size)
  · rintro rfl
    exact chunked_pieces callback context hchunk size

/-- The rule of the invariant, on the pieces that are left: every piece keeps it or stops the
loop. -/
theorem chunked_rule {invariant : List Nat → σ → Prop} {stopped : σ → Prop} (hchunk : 0 < chunk)
    (hpiece : ∀ piece rest s, invariant (piece :: rest) s →
      (∃ s', callback piece s = some (true, s') ∧ invariant rest s') ∨
        ∃ s', callback piece s = some (false, s') ∧ stopped s')
    (h : invariant (pieces chunk size) context) :
    (∃ s, Chunked callback context chunk size (some (true, s)) ∧ invariant [] s) ∨
      ∃ s, Chunked callback context chunk size (some (false, s)) ∧ stopped s := by
  have hpieces : ∀ ps s, invariant ps s →
      (∃ s', onPieces callback ps s = some (true, s') ∧ invariant [] s') ∨
        ∃ s', onPieces callback ps s = some (false, s') ∧ stopped s' := by
    intro ps
    induction ps with
    | nil =>
      intro s hs
      exact .inl ⟨s, rfl, hs⟩
    | cons piece rest ih =>
      intro s hs
      rcases hpiece piece rest s hs with ⟨s', hcall, hs'⟩ | ⟨s', hcall, hs'⟩
      · rw [onPieces, hcall]
        exact ih s' hs'
      · exact .inr ⟨s', by rw [onPieces, hcall], hs'⟩
  simp only [chunked_iff hchunk]
  rcases hpieces _ _ h with ⟨s', hrun, hs'⟩ | ⟨s', hrun, hs'⟩
  · exact .inl ⟨s', hrun.symm, hs'⟩
  · exact .inr ⟨s', hrun.symm, hs'⟩

end Pieces

end Xlink.Host
