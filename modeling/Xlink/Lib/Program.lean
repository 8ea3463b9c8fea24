import Mathlib.Data.List.Basic
import Mathlib.Logic.Relation

/-!
# Programs of calls

A program keeps a state and makes calls whose answers it does not choose. It is a tree of what it
does for each answer; a run of it has a trace of the calls made with the answers given. `Prog.wlp`
is the weakest liberal precondition: what holds of every run, if it returns.
-/

namespace Program

/-- A call with its answer. -/
abbrev Event (Op : Type) (Ans : Op → Type) := (op : Op) × Ans op

/-- A program over a state that makes calls. -/
inductive Prog (σ : Type) (Op : Type) (Ans : Op → Type) : Type → Type 1 where
  | ret {α : Type} (a : α) : Prog σ Op Ans α
  | look {α : Type} (k : σ → Prog σ Op Ans α) : Prog σ Op Ans α
  | put {α : Type} (s : σ) (p : Prog σ Op Ans α) : Prog σ Op Ans α
  | vis {α : Type} (op : Op) (k : Ans op → Prog σ Op Ans α) : Prog σ Op Ans α
  /-- The body again and again, until it yields `false`. -/
  | loop {α : Type} (body : Prog σ Op Ans Bool) (p : Prog σ Op Ans α) : Prog σ Op Ans α
  /-- The program does not go on. -/
  | stop {α : Type} : Prog σ Op Ans α

namespace Prog

variable {σ Op : Type} {Ans : Op → Type} {α β : Type}

def bind : Prog σ Op Ans α → (α → Prog σ Op Ans β) → Prog σ Op Ans β
  | ret a, f => f a
  | look k, f => look fun s => (k s).bind f
  | put s p, f => put s (p.bind f)
  | vis op k, f => vis op fun ans => (k ans).bind f
  | loop body p, f => loop body (p.bind f)
  | stop, _ => stop

instance : Monad (Prog σ Op Ans) where
  pure := ret
  bind := bind

def get : Prog σ Op Ans σ := look ret

def modify (f : σ → σ) : Prog σ Op Ans Unit := look fun s => put (f s) (ret ())

def call (op : Op) : Prog σ Op Ans (Ans op) := vis op ret

def repeatWhile (body : Prog σ Op Ans Bool) : Prog σ Op Ans Unit := loop body (ret ())

/-! ## Runs -/

/-- The runs of a loop whose body has the runs `R`. -/
inductive Loops (R : σ → List (Event Op Ans) → Bool → σ → Prop) :
    σ → List (Event Op Ans) → σ → Prop
  | exit {s t : σ} {tr : List (Event Op Ans)} (h : R s tr false t) : Loops R s tr t
  | again {s t u : σ} {tr tr' : List (Event Op Ans)} (h : R s tr true t) (hrest : Loops R t tr' u) :
      Loops R s (tr ++ tr') u

/-- From a state, with a trace, to a result and a state. -/
def Runs : {α : Type} → Prog σ Op Ans α → σ → List (Event Op Ans) → α → σ → Prop
  | _, ret a, s, tr, b, t => tr = [] ∧ b = a ∧ t = s
  | _, look k, s, tr, b, t => (k s).Runs s tr b t
  | _, put s' p, _, tr, b, t => p.Runs s' tr b t
  | _, vis op k, s, tr, b, t => ∃ ans tr', tr = ⟨op, ans⟩ :: tr' ∧ (k ans).Runs s tr' b t
  | _, loop body p, s, tr, b, t => ∃ tr₁ s' tr₂, tr = tr₁ ++ tr₂ ∧ Loops body.Runs s tr₁ s' ∧
    p.Runs s' tr₂ b t
  | _, stop, _, _, _, _ => False

theorem runs_bind {p : Prog σ Op Ans α} {f : α → Prog σ Op Ans β} {s t : σ}
    {tr : List (Event Op Ans)} {b : β} : (p >>= f).Runs s tr b t ↔
      ∃ tr₁ a s' tr₂, tr = tr₁ ++ tr₂ ∧ p.Runs s tr₁ a s' ∧ (f a).Runs s' tr₂ b t := by
  change (p.bind f).Runs s tr b t ↔ _
  induction p generalizing s tr with
  | ret a =>
    constructor
    · intro h
      exact ⟨[], a, s, tr, rfl, ⟨rfl, rfl, rfl⟩, h⟩
    · rintro ⟨_, _, _, tr₂, rfl, ⟨rfl, rfl, rfl⟩, h⟩
      exact h
  | look k ih => exact ih s
  | put s' p ih => exact ih
  | vis op k ih =>
    constructor
    · rintro ⟨ans, tr', rfl, h⟩
      obtain ⟨tr₁, a, s', tr₂, rfl, h₁, h₂⟩ := (ih ans).mp h
      exact ⟨⟨op, ans⟩ :: tr₁, a, s', tr₂, rfl, ⟨ans, tr₁, rfl, h₁⟩, h₂⟩
    · rintro ⟨_, a, s', tr₂, rfl, ⟨ans, tr₁, rfl, h₁⟩, h₂⟩
      exact ⟨ans, tr₁ ++ tr₂, rfl, (ih ans).mpr ⟨tr₁, a, s', tr₂, rfl, h₁, h₂⟩⟩
  | loop body p _ ih =>
    constructor
    · rintro ⟨tr₀, s₀, tr', rfl, hloop, h⟩
      obtain ⟨tr₁, a, s', tr₂, rfl, h₁, h₂⟩ := ih.mp h
      exact ⟨tr₀ ++ tr₁, a, s', tr₂, (List.append_assoc ..).symm, ⟨tr₀, s₀, tr₁, rfl, hloop, h₁⟩,
        h₂⟩
    · rintro ⟨_, a, s', tr₂, rfl, ⟨tr₀, s₀, tr₁, rfl, hloop, h₁⟩, h₂⟩
      exact ⟨tr₀, s₀, tr₁ ++ tr₂, List.append_assoc .., hloop,
        ih.mpr ⟨tr₁, a, s', tr₂, rfl, h₁, h₂⟩⟩
  | stop => simp [bind, Runs]

/-! ## Weakest liberal preconditions -/

/-- Every run from the state that returns satisfies `Q`. -/
def wlp (p : Prog σ Op Ans α) (s : σ) (Q : List (Event Op Ans) → α → σ → Prop) : Prop :=
  ∀ tr a t, p.Runs s tr a t → Q tr a t

variable {p : Prog σ Op Ans α} {s : σ} {Q R : List (Event Op Ans) → α → σ → Prop}

theorem wlp_iff : p.wlp s Q ↔ ∀ tr a t, p.Runs s tr a t → Q tr a t := Iff.rfl

theorem wlp_mono (h : p.wlp s Q) (hQR : ∀ tr a t, Q tr a t → R tr a t) : p.wlp s R :=
  fun tr a t hrun => hQR tr a t (h tr a t hrun)

@[simp] theorem wlp_pure {a : α} : (pure a : Prog σ Op Ans α).wlp s Q ↔ Q [] a s := by
  constructor
  · intro h
    exact h [] a s ⟨rfl, rfl, rfl⟩
  · rintro h tr b t ⟨rfl, rfl, rfl⟩
    exact h

@[simp] theorem wlp_bind {f : α → Prog σ Op Ans β} {Q : List (Event Op Ans) → β → σ → Prop} :
    (p >>= f).wlp s Q ↔
      p.wlp s fun tr a t => (f a).wlp t fun tr' b u => Q (tr ++ tr') b u := by
  constructor
  · intro h tr a t hp tr' b u hf
    exact h _ b u (runs_bind.mpr ⟨tr, a, t, tr', rfl, hp, hf⟩)
  · intro h tr b u hrun
    obtain ⟨tr₁, a, t, tr₂, rfl, hp, hf⟩ := runs_bind.mp hrun
    exact h tr₁ a t hp tr₂ b u hf

@[simp] theorem wlp_get {Q : List (Event Op Ans) → σ → σ → Prop} :
    (get : Prog σ Op Ans σ).wlp s Q ↔ Q [] s s := by
  constructor
  · intro h
    exact h [] s s ⟨rfl, rfl, rfl⟩
  · rintro h tr b t ⟨rfl, rfl, rfl⟩
    exact h

@[simp] theorem wlp_modify {f : σ → σ} {Q : List (Event Op Ans) → Unit → σ → Prop} :
    (modify f : Prog σ Op Ans Unit).wlp s Q ↔ Q [] () (f s) := by
  constructor
  · intro h
    exact h [] () (f s) ⟨rfl, rfl, rfl⟩
  · rintro h tr b t ⟨rfl, rfl, rfl⟩
    exact h

@[simp] theorem wlp_call {op : Op} {Q : List (Event Op Ans) → Ans op → σ → Prop} :
    (call op : Prog σ Op Ans (Ans op)).wlp s Q ↔ ∀ ans, Q [⟨op, ans⟩] ans s := by
  constructor
  · intro h ans
    exact h _ ans s ⟨ans, [], rfl, rfl, rfl, rfl⟩
  · rintro h tr b t ⟨ans, tr', rfl, rfl, rfl, rfl⟩
    exact h _

@[simp] theorem wlp_stop : (stop : Prog σ Op Ans α).wlp s Q := fun _ _ _ h => h.elim

@[simp] theorem wlp_ite {c : Prop} [Decidable c] {q : Prog σ Op Ans α} :
    (if c then p else q).wlp s Q ↔ if c then p.wlp s Q else q.wlp s Q := by
  split <;> rfl

theorem wlp_and (h : p.wlp s Q) (h' : p.wlp s R) : p.wlp s fun tr a t => Q tr a t ∧ R tr a t :=
  fun tr a t hrun => ⟨h tr a t hrun, h' tr a t hrun⟩

/-- A loop keeps what its body keeps. -/
theorem wlp_repeatWhile {body : Prog σ Op Ans Bool} {I : List (Event Op Ans) → σ → Prop}
    {Q : List (Event Op Ans) → Unit → σ → Prop} (hstart : I [] s)
    (hbody : ∀ tr t, I tr t → body.wlp t fun tr' again u =>
      if again = true then I (tr ++ tr') u else Q (tr ++ tr') () u) :
    (repeatWhile body).wlp s Q := by
  have hloops : ∀ {s t tr}, Loops body.Runs s tr t → ∀ pre, I pre s → Q (pre ++ tr) () t := by
    intro s t tr hloop
    induction hloop with
    | exit h =>
      intro pre hpre
      exact hbody pre _ hpre _ _ _ h
    | again h _ ih =>
      intro pre hpre
      rw [← List.append_assoc]
      exact ih _ (hbody pre _ hpre _ _ _ h)
  rintro _ _ _ ⟨tr₁, u, _, rfl, hloop, rfl, rfl, rfl⟩
  rw [List.append_nil]
  exact hloops hloop [] hstart

attribute [irreducible] wlp

end Prog

/-! ## Monitors -/

/-- A monitor watches a trace and objects to an event by having no next state. -/
abbrev Monitor (E M : Type) := M → E → Option M

namespace Monitor

variable {E M : Type} {step : Monitor E M}

/-- The monitor accepts the trace, and goes from the first state to the second. -/
def Accepts (step : Monitor E M) : M → List E → M → Prop
  | m, [], m' => m' = m
  | m, e :: tr, m' => ∃ n, step m e = some n ∧ Accepts step n tr m'

theorem accepts_append {m m' : M} {tr tr' : List E} :
    Accepts step m (tr ++ tr') m' ↔ ∃ n, Accepts step m tr n ∧ Accepts step n tr' m' := by
  induction tr generalizing m with
  | nil => exact ⟨fun h => ⟨m, rfl, h⟩, fun ⟨_, hn, h⟩ => hn ▸ h⟩
  | cons e tr ih =>
    constructor
    · rintro ⟨n, hn, h⟩
      obtain ⟨n', hn', h'⟩ := ih.mp h
      exact ⟨n', ⟨n, hn, hn'⟩, h'⟩
    · rintro ⟨n', ⟨n, hn, hn'⟩, h'⟩
      exact ⟨n, hn, ih.mpr ⟨n', hn', h'⟩⟩

end Monitor

end Program
