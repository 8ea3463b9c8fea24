import Mathlib.Tactic.TypeStar

/-!
# Executable transition systems

A system is a partial step function on labelled steps: `step s a = some t` when `a` is enabled in
`s`. Interleavings are lists of labels, `run` executes one, and `Reach` is what can be reached when
every step also meets a guard. The guard is part of the statement, not of the system: a safety
property that needs a discipline of its environment is proved of the runs that keep the
discipline, and refuted by a run that does not.
-/

namespace Transition

variable {σ α : Type*} (step : σ → α → Option σ)

/-- Take the steps of a run in order; `none` as soon as one is not enabled. -/
def run (s : σ) : List α → Option σ
  | [] => some s
  | a :: as =>
    match step s a with
    | some t => run t as
    | none => none

/-- The states reached from `s₀` by enabled steps that all meet `guard`. -/
inductive Reach (guard : σ → α → Prop) (s₀ : σ) : σ → Prop
  | refl : Reach guard s₀ s₀
  | step {s t : σ} {a : α} : Reach guard s₀ s → guard s a → step s a = some t →
      Reach guard s₀ t

variable {step} {guard : σ → α → Prop} {s₀ s t u : σ}

/-- A property that holds at first and that every guarded step preserves holds in every state
reached. -/
theorem Reach.invariant {inv : σ → Prop} (h₀ : inv s₀)
    (hstep : ∀ s a t, inv s → guard s a → step s a = some t → inv t)
    (h : Reach step guard s₀ t) : inv t := by
  induction h with
  | refl => exact h₀
  | step _ hguard ht ih => exact hstep _ _ _ ih hguard ht

/-- What is reached under a guard is reached under a weaker one. -/
theorem Reach.mono {guard' : σ → α → Prop} (hguard : ∀ s a, guard s a → guard' s a)
    (h : Reach step guard s₀ t) : Reach step guard' s₀ t := by
  induction h with
  | refl => exact .refl
  | step _ hg ht ih => exact ih.step (hguard _ _ hg) ht

theorem Reach.trans (hst : Reach step guard s t) (htu : Reach step guard t u) :
    Reach step guard s u := by
  induction htu with
  | refl => exact hst
  | step _ hguard ht ih => exact ih.step hguard ht

variable (step guard) in
/-- Every step of a run meets the guard where it is taken. -/
def Allowed (s : σ) : List α → Prop
  | [] => True
  | a :: as =>
    guard s a ∧
      match step s a with
      | some t => Allowed t as
      | none => True

instance Allowed.decidable [∀ s a, Decidable (guard s a)] (s : σ) (as : List α) :
    Decidable (Allowed step guard s as) :=
  match as with
  | [] => .isTrue trivial
  | a :: as =>
    match hs : step s a with
    | some t =>
      have := Allowed.decidable t as
      decidable_of_iff (guard s a ∧ Allowed step guard t as) (by rw [Allowed, hs])
    | none => decidable_of_iff (guard s a) (by rw [Allowed, hs, and_true])

theorem Allowed.of_forall (hguard : ∀ s a, guard s a) (s : σ) (as : List α) :
    Allowed step guard s as := by
  induction as generalizing s with
  | nil => trivial
  | cons a as ih =>
    refine ⟨hguard s a, ?_⟩
    split
    · exact ih _
    · trivial

/-- A run whose steps meet the guard reaches its last state. -/
theorem Reach.of_run {as : List α} (hallowed : Allowed step guard s as)
    (h : run step s as = some t) : Reach step guard s t := by
  induction as generalizing s with
  | nil =>
    cases h
    exact .refl
  | cons a as ih =>
    rw [Allowed] at hallowed
    rw [run] at h
    cases hs : step s a with
    | none => simp [hs] at h
    | some s' =>
      rw [hs] at h hallowed
      have hfirst : Reach step guard s s' := Reach.refl.step hallowed.1 hs
      exact hfirst.trans (ih hallowed.2 h)

theorem run_cons {a : α} {as : List α} (h : run step s (a :: as) = some u) :
    ∃ t, step s a = some t ∧ run step t as = some u := by
  rw [run] at h
  cases ht : step s a with
  | none => rw [ht] at h; cases h
  | some t =>
    rw [ht] at h
    exact ⟨t, rfl, h⟩

/-- A run is its first part and then the rest. -/
theorem run_append (as bs : List α) (s : σ) :
    run step s (as ++ bs) = (run step s as).bind fun t => run step t bs := by
  induction as generalizing s with
  | nil => rfl
  | cons a as ih =>
    rw [List.cons_append, run, run]
    cases step s a with
    | none => rfl
    | some t => exact ih t

/-- What is reached by labels of a kind is reached by a run of them. -/
theorem Reach.exists_run {kind : α → Prop} (h : Reach step (fun _ a => kind a) s t) :
    ∃ as, (∀ a ∈ as, kind a) ∧ run step s as = some t := by
  induction h with
  | refl => exact ⟨[], fun a ha => (List.not_mem_nil ha).elim, rfl⟩
  | @step t u a _ hkind hu ih =>
    obtain ⟨as, has, hrun⟩ := ih
    refine ⟨as ++ [a], fun b hb => ?_, ?_⟩
    · rcases List.mem_append.1 hb with hb | hb
      · exact has b hb
      · exact List.mem_singleton.1 hb ▸ hkind
    · rw [run_append, hrun]
      show run step t [a] = some u
      rw [run, hu]
      rfl

/-! ## Simulation -/

variable {τ : Type*} {step' : τ → α → Option τ} {view : σ → τ} {inv : σ → Prop}

/-- Two systems that do the same in one step, seen through `view`, do the same in a run. -/
theorem run_simulates
    (hstep : ∀ s a, inv s →
      (step s a).map view = step' (view s) a ∧ ∀ t, step s a = some t → inv t)
    (hs : inv s) (as : List α) :
    (run step s as).map view = run step' (view s) as ∧
      ∀ t, run step s as = some t → inv t := by
  induction as generalizing s with
  | nil => exact ⟨rfl, fun t ht => by cases ht; exact hs⟩
  | cons a as ih =>
    obtain ⟨hview, hinv⟩ := hstep s a hs
    rw [run, run, ← hview]
    cases ht : step s a with
    | none => exact ⟨rfl, fun t h => by cases h⟩
    | some t => exact ih (hinv t ht)

/-! ## Observed systems -/

variable {β ε : Type*} (observed : σ → α → Option (σ × List ε))

/-- What is seen of a run; `none` as soon as a step is not enabled. -/
def trace (s : σ) : List α → Option (List ε)
  | [] => some []
  | a :: as =>
    match observed s a with
    | some (t, seen) => (trace t as).map (seen ++ ·)
    | none => none

variable {observed} in
/-- What is seen of a run that has got somewhere is what has been seen so far and then the rest. What
each step does to a part of the state, the run has done to it. -/
theorem trace_append {part : σ → τ} {f : τ → α → τ}
    (hpart : ∀ s a x, observed s a = some x → part x.1 = f (part s) a) {s : σ} {as : List α}
    {before : List ε} (h : trace observed s as = some before) :
    ∃ t, part t = as.foldl f (part s) ∧
      ∀ bs, trace observed s (as ++ bs) = (trace observed t bs).map (before ++ ·) := by
  induction as generalizing s before with
  | nil =>
    cases h
    exact ⟨s, rfl, fun bs => (Option.map_id' ..).symm⟩
  | cons a as ih =>
    rw [trace] at h
    cases ha : observed s a with
    | none =>
      rw [ha] at h
      cases h
    | some x =>
      rw [ha] at h
      obtain ⟨later, hlater, rfl⟩ := Option.map_eq_some_iff.1 h
      obtain ⟨t, hpart_t, ht⟩ := ih hlater
      refine ⟨t, ?_, fun bs => ?_⟩
      · rw [List.foldl_cons, ← hpart s a x ha, hpart_t]
      · rw [List.cons_append, trace, ha]
        show (trace observed x.1 (as ++ bs)).map (x.2 ++ ·) = _
        rw [ht, Option.map_map]
        exact congrArg (Option.map · _) (funext fun rest => (List.append_assoc ..).symm)

variable {observed} {observed' : τ → β → Option (τ × List ε)} {rel : σ → τ → Prop} {view : α → β}

/-- Two systems of which the same is seen in one step, from related states to related states, show
the same in a run. -/
theorem trace_eq
    (hstep : ∀ s s' a, rel s s' →
      Option.Rel (fun x y => rel x.1 y.1 ∧ x.2 = y.2) (observed s a) (observed' s' (view a)))
    {s : σ} {s' : τ} (h : rel s s') (as : List α) :
    trace observed s as = trace observed' s' (as.map view) := by
  induction as generalizing s s' with
  | nil => rfl
  | cons a as ih =>
    have hone := hstep s s' a h
    rw [List.map_cons, trace, trace]
    generalize observed s a = x at hone ⊢
    generalize observed' s' (view a) = y at hone ⊢
    cases hone with
    | none => rfl
    | @some x y hxy =>
      obtain ⟨hrel, hseen⟩ := hxy
      show (trace observed x.1 as).map (x.2 ++ ·) = (trace observed' y.1 _).map (y.2 ++ ·)
      rw [ih hrel, hseen]

end Transition
