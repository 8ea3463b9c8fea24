import Xlink.Lib.Program

/-!
# Programs on a machine

A program's calls are answered by a machine, which has a state of its own. A handler says for each
call and each state of the machine what the machine guarantees of the answer and the next state;
`Prog.wpOn` extends that to programs. It is a total notion: on the machine the program comes to its
end, and a loop is the least fixed point of going round once.
-/

namespace Program

variable {σ Op : Type} {Ans : Op → Type} {ω : Type} {α β : Type}

/-- What a machine guarantees of its answers to calls. -/
abbrev Handler (Op : Type) (Ans : Op → Type) (ω : Type) :=
  (op : Op) → ω → (Ans op → ω → Prop) → Prop

namespace Prog

/-- On the machine the program returns, and `Q` holds of what it returns and of both states. -/
def wpOn (handle : Handler Op Ans ω) :
    {α : Type} → Prog σ Op Ans α → σ → ω → (α → σ → ω → Prop) → Prop
  | _, ret a, s, w, Q => Q a s w
  | _, look k, s, w, Q => (k s).wpOn handle s w Q
  | _, put s p, _, w, Q => p.wpOn handle s w Q
  | _, vis op k, s, w, Q => handle op w fun ans w' => (k ans).wpOn handle s w' Q
  | _, loop body p, s, w, Q => ∀ I : σ → ω → Prop,
    (∀ s w, body.wpOn handle s w (fun again s w =>
      if again = true then I s w else p.wpOn handle s w Q) → I s w) → I s w
  | _, stop, _, _, _ => False

variable {handle : Handler Op Ans ω} {p : Prog σ Op Ans α} {s : σ} {w : ω}
  {Q Q' : α → σ → ω → Prop}

@[simp] theorem wpOn_ite {c : Prop} [Decidable c] {q : Prog σ Op Ans α} :
    (if c then p else q).wpOn handle s w Q ↔
      if c then p.wpOn handle s w Q else q.wpOn handle s w Q := by
  split <;> rfl

attribute [irreducible] wpOn

end Prog

end Program
