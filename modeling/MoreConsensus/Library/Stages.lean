import Mathlib

/-!
# Staged calls and their repetition

A call that works in stages, each of which succeeds and changes the state or fails and leaves it,
stops at the first failure (`perform`). When a stage that has succeeded would succeed again without
a change, and no later stage takes that away, a call that was cut off can be repeated as a whole and
ends as it would have ended (`perform_retry`).
-/

set_option autoImplicit false

namespace MoreConsensus.Library

variable {σ α ε : Type*}

/-- The stages of a call in order, up to the first that fails: the state and the failure. -/
def perform (step : σ → α → Except ε σ) : List α → σ → σ × Option ε
  | [], s => (s, none)
  | a :: rest, s =>
    match step s a with
    | .error err => (s, some err)
    | .ok next => perform step rest next

section

variable {step : σ → α → Except ε σ}

theorem perform_cons_ok {a : α} {s next : σ} (rest : List α) (hstep : step s a = .ok next) :
    perform step (a :: rest) s = perform step rest next := by
  rw [perform, hstep]

theorem perform_cons_error {a : α} {s : σ} {err : ε} (rest : List α)
    (hstep : step s a = .error err) : perform step (a :: rest) s = (s, some err) := by
  rw [perform, hstep]

/-- A call that does not fail goes on after its first stage. -/
theorem exists_perform_cons {a : α} {rest : List α} {s : σ}
    (hperform : (perform step (a :: rest) s).2 = none) :
    ∃ next, step s a = .ok next ∧ perform step (a :: rest) s = perform step rest next := by
  cases hstep : step s a with
  | error err =>
    rw [perform_cons_error _ hstep] at hperform
    cases hperform
  | ok next => exact ⟨next, rfl, perform_cons_ok _ hstep⟩

/-- A call in two parts goes on with the second when the first did not fail. -/
theorem perform_append (front back : List α) (s : σ) :
    perform step (front ++ back) s =
      match perform step front s with
      | (next, none) => perform step back next
      | (next, some err) => (next, some err) := by
  induction front generalizing s with
  | nil => rfl
  | cons a front ih =>
    cases hstep : step s a with
    | error err => rw [List.cons_append, perform_cons_error _ hstep, perform_cons_error _ hstep]
    | ok next => rw [List.cons_append, perform_cons_ok _ hstep, perform_cons_ok _ hstep, ih]

/-- What every successful stage keeps, the call keeps. -/
theorem perform_induction {P : σ → Prop} {l : List α} {s : σ} (hs : P s)
    (hkept : ∀ a ∈ l, ∀ s next, P s → step s a = .ok next → P next) :
    P (perform step l s).1 := by
  induction l generalizing s with
  | nil => exact hs
  | cons a rest ih =>
    cases hstep : step s a with
    | error err =>
      rw [perform_cons_error _ hstep]
      exact hs
    | ok next =>
      rw [perform_cons_ok _ hstep]
      refine ih (hkept a List.mem_cons_self s next hs hstep) fun b hb ↦ ?_
      exact hkept b (List.mem_cons_of_mem _ hb)

/-- After a call that did not fail, every stage is `done`. -/
theorem done_of_perform {done : α → σ → Prop} {l : List α} {s : σ}
    (hdone : ∀ a ∈ l, ∀ s next, step s a = .ok next → done a next)
    (hkept : ∀ a ∈ l, ∀ b ∈ l, ∀ s next, done a s → step s b = .ok next → done a next)
    (hperform : (perform step l s).2 = none) : ∀ a ∈ l, done a (perform step l s).1 := by
  induction l generalizing s with
  | nil => exact fun a ha ↦ absurd ha List.not_mem_nil
  | cons first rest ih =>
    have hrest : ∀ b ∈ rest, b ∈ first :: rest := fun b hb ↦ List.mem_cons_of_mem _ hb
    obtain ⟨next, hstep, hnext⟩ := exists_perform_cons hperform
    rw [hnext] at hperform ⊢
    intro a ha
    rcases List.mem_cons.mp ha with rfl | ha
    · refine perform_induction (hdone a List.mem_cons_self s next hstep) fun b hb ↦ ?_
      exact hkept a List.mem_cons_self b (hrest b hb)
    · exact ih (fun b hb ↦ hdone b (hrest b hb))
        (fun b hb c hc ↦ hkept b (hrest b hb) c (hrest c hc)) hperform a ha

/-- Stages that are all done change nothing. -/
theorem perform_of_done {done : α → σ → Prop} {l : List α} {s : σ}
    (hskip : ∀ a ∈ l, ∀ s, done a s → step s a = .ok s) (hdone : ∀ a ∈ l, done a s) :
    perform step l s = (s, none) := by
  induction l with
  | nil => rfl
  | cons a rest ih =>
    rw [perform_cons_ok _ (hskip a List.mem_cons_self s (hdone a List.mem_cons_self))]
    exact ih (fun b hb ↦ hskip b (List.mem_cons_of_mem _ hb))
      fun b hb ↦ hdone b (List.mem_cons_of_mem _ hb)

/-- A call on a larger state is, on what `view` shows of it, the call on the view. -/
theorem perform_view {τ : Type*} {wide : τ → α → Except ε τ} (view : τ → σ)
    (hview : ∀ t a, (wide t a).map view = step (view t) a) (l : List α) (t : τ) :
    (view (perform wide l t).1, (perform wide l t).2) = perform step l (view t) := by
  induction l generalizing t with
  | nil => rfl
  | cons a rest ih =>
    have hstep := hview t a
    cases hwide : wide t a with
    | error err =>
      rw [hwide] at hstep
      rw [perform_cons_error _ hwide, perform_cons_error _ hstep.symm]
    | ok next =>
      rw [hwide] at hstep
      rw [perform_cons_ok _ hwide, perform_cons_ok _ hstep.symm]
      exact ih next

/-- A call cut off after some stages and repeated ends as the whole call, when a stage that has
succeeded is `done`, done stages change nothing, and they stay done. -/
theorem perform_retry {done : α → σ → Prop} {l : List α}
    (hskip : ∀ a ∈ l, ∀ s, done a s → step s a = .ok s)
    (hdone : ∀ a ∈ l, ∀ s next, step s a = .ok next → done a next)
    (hkept : ∀ a ∈ l, ∀ b ∈ l, ∀ s next, done a s → step s b = .ok next → done a next)
    (s : σ) (k : ℕ) : perform step l (perform step (l.take k) s).1 = perform step l s := by
  induction l generalizing s k with
  | nil => rw [List.take_nil]; rfl
  | cons a rest ih =>
    cases k with
    | zero => rfl
    | succ k =>
      have hrest : ∀ b ∈ rest, b ∈ a :: rest := fun b hb ↦ List.mem_cons_of_mem _ hb
      cases hstep : step s a with
      | error err => rw [List.take_succ_cons, perform_cons_error _ hstep]
      | ok next =>
        rw [List.take_succ_cons, perform_cons_ok _ hstep, perform_cons_ok _ hstep]
        -- the first stage stays done in the rest of the call, so the repetition passes over it
        have hstill : done a (perform step (rest.take k) next).1 := by
          refine perform_induction (hdone a List.mem_cons_self s next hstep) fun b hb s next ↦ ?_
          exact hkept a List.mem_cons_self b (hrest b (List.mem_of_mem_take hb)) s next
        rw [perform_cons_ok _ (hskip a List.mem_cons_self _ hstill)]
        exact ih (fun b hb ↦ hskip b (hrest b hb)) (fun b hb ↦ hdone b (hrest b hb))
          (fun b hb c hc ↦ hkept b (hrest b hb) c (hrest c hc)) next k

end

end MoreConsensus.Library
