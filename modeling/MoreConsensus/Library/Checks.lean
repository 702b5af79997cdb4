import Mathlib

/-!
# Checks in sequence

A validator is a sequence of checks in `Except`, each of which names the error it refuses with.
`refuseIf` is one check. It succeeds with everything after it exactly when nothing refuses
(`refuseIf_bind_eq_ok`, `bind_eq_ok`).
-/

set_option autoImplicit false

namespace MoreConsensus.Library

variable {ε α β : Type}

/-- Refuses with an error when something is wrong. -/
def refuseIf (wrong : Bool) (err : ε) : Except ε Unit := if wrong then .error err else .ok ()

variable {wrong : Bool} {err : ε} {result : Except ε α} {value : β} {l : List α}

theorem refuseIf_eq_ok :
    refuseIf wrong err = .ok () ↔ wrong = false := by
  cases wrong <;> simp [refuseIf]

theorem refuseIf_bind {next : Unit → Except ε α} :
    (refuseIf wrong err >>= next) = if wrong then .error err else next () := by
  cases wrong <;> rfl

theorem refuseIf_bind_eq_ok {next : Unit → Except ε α} {value : α} :
    (refuseIf wrong err >>= next) = .ok value ↔ wrong = false ∧ next () = .ok value := by
  cases wrong <;> simp [refuseIf_bind]

theorem bind_eq_ok {next : α → Except ε β} :
    (result >>= next) = .ok value ↔ ∃ a, result = .ok a ∧ next a = .ok value := by
  cases result <;> simp [bind, Except.bind]

theorem map_eq_ok {f : α → β}
    (hmap : result.map f = .ok value) : ∃ a, result = .ok a ∧ f a = value := by
  cases result with
  | error err => cases hmap
  | ok a =>
    cases hmap
    exact ⟨a, rfl, rfl⟩

/-- A validator in front of a computation. -/
theorem unit_bind_eq_ok {result : Except ε Unit} {next : Unit → Except ε β} :
    (result >>= next) = .ok value ↔ result = .ok () ∧ next () = .ok value := by
  cases result <;> simp [bind, Except.bind]

/-- An error under another name is still an error. -/
theorem mapError_eq_ok {δ : Type} {rename : ε → δ} {value : α} :
    result.mapError rename = .ok value ↔ result = .ok value := by
  cases result <;> simp [Except.mapError]

/-- A loop that checks each member before it uses it is the loop without the checks, when none
refuses. -/
theorem foldlM_checked {check : α → Except ε Unit} (step : β → α → β)
    (hchecks : ∀ a ∈ l, check a = .ok ()) (start : β) :
    l.foldlM (fun state a ↦ do check a; return step state a) start = .ok (l.foldl step start) := by
  induction l generalizing start with
  | nil => rfl
  | cons a l ih =>
    rw [List.foldlM_cons, hchecks a List.mem_cons_self]
    exact ih (fun b hb ↦ hchecks b (List.mem_cons_of_mem _ hb)) _

/-- A loop is not refused exactly if all members are accepted. -/
theorem exists_mapM_ok_iff {f : α → Except ε β} :
    (∃ bs, l.mapM f = .ok bs) ↔ ∀ a ∈ l, ∃ b, f a = .ok b := by
  induction l with
  | nil => exact iff_of_true ⟨[], rfl⟩ (by simp)
  | cons a l ih =>
    rw [List.forall_mem_cons, ← ih, List.mapM_cons]
    cases f a with
    | error fault => simp [bind, Except.bind]
    | ok b => cases l.mapM f <;> simp [bind, Except.bind, pure, Except.pure]

/-- What every step of a loop keeps holds when the loop ends. -/
theorem foldlM_keeps {P : β → Prop} {step : β → α → Except ε β}
    (hstep : ∀ {b a b'}, P b → step b a = .ok b' → P b') {start result : β}
    (hstart : P start) (hfold : l.foldlM step start = .ok result) : P result := by
  induction l generalizing start with
  | nil => exact Except.ok.inj hfold ▸ hstart
  | cons a l ih =>
    rw [List.foldlM_cons, bind_eq_ok] at hfold
    obtain ⟨next, hnext, hrest⟩ := hfold
    exact ih (hstep hstart hnext) hrest

end MoreConsensus.Library
