import Mathlib

/-!
# Walks that mark what they have passed

A walk over a list of places that passes each place once keeps the places it has passed in a set of
marks (`eachOnce`). Where the visits leave the marks alone, the walk is the fold over the places
without repetitions (`eachOnce_of_kept`). Where the visits share the marks and a visit that does
something comes back with every place marked, the walk ends with the first such visit
(`eachOnce_of_marked`).
-/

set_option autoImplicit false

namespace MoreConsensus.Library

variable {κ σ : Type} [DecidableEq κ]

/-- A walk that passes each place of a list to `yield` once, with a state and the marks. -/
def eachOnce (places : List κ) (yield : κ → σ × List κ → σ × List κ) (start : σ) : σ × List κ :=
  places.foldl (fun state place ↦
    if place ∈ state.2 then state else yield place (state.1, place :: state.2)) (start, [])

/-- Visits that leave the marks alone see each place once, and in the end every place is marked. -/
theorem eachOnce_of_kept {yield : κ → σ × List κ → σ × List κ} {visit : σ → κ → σ}
    (hyield : ∀ place state, yield place state = (visit state.1 place, state.2)) (places : List κ)
    (start : σ) :
    (eachOnce places yield start).1 = places.reverse.dedup.reverse.foldl visit start ∧
      ∀ place, place ∈ (eachOnce places yield start).2 ↔ place ∈ places := by
  induction places using List.reverseRecOn with
  | nil => exact ⟨rfl, fun _ ↦ Iff.rfl⟩
  | append_singleton places last ih =>
    obtain ⟨hstate, hmarks⟩ := ih
    have hlast : eachOnce (places ++ [last]) yield start =
        if last ∈ (eachOnce places yield start).2 then eachOnce places yield start
        else (visit (eachOnce places yield start).1 last,
          last :: (eachOnce places yield start).2) := by
      rw [eachOnce, List.foldl_append, List.foldl_cons, List.foldl_nil, hyield]
      rfl
    rw [hlast, List.reverse_append, List.reverse_singleton, List.singleton_append]
    split_ifs with hmarked
    · have hold := (hmarks last).mp hmarked
      rw [List.dedup_cons_of_mem (List.mem_reverse.mpr hold)]
      refine ⟨hstate, fun place ↦ (hmarks place).trans ?_⟩
      rw [List.mem_append, List.mem_singleton]
      exact ⟨.inl, fun h ↦ h.elim id fun heq ↦ heq ▸ hold⟩
    · have hnew : last ∉ places.reverse := fun hmem ↦
        hmarked ((hmarks last).mpr (List.mem_reverse.mp hmem))
      rw [List.dedup_cons_of_notMem hnew, List.reverse_cons, List.foldl_append, ← hstate]
      refine ⟨rfl, fun place ↦ ?_⟩
      rw [List.mem_cons, hmarks, List.mem_append, List.mem_singleton, or_comm]

/-- Visits that share the marks: where those that do something leave every place marked, only the
first of them takes place. A `view` of the state is enough to say what it does. -/
theorem eachOnce_of_marked {τ : Type} (view : σ → τ) {yield : κ → σ × List κ → σ × List κ}
    (acts : κ → Bool) {start : σ} (visit : κ → τ) {places : List κ}
    (hidle : ∀ place state, acts place = false → yield place state = state)
    (hacts : ∀ place marks, acts place = true →
      view (yield place (start, marks)).1 = visit place ∧
        ∀ other ∈ places, other ∈ (yield place (start, marks)).2) :
    view (eachOnce places yield start).1 = (places.find? acts).elim (view start) visit := by
  have hwalk : ∀ (rest : List κ) (marks : List κ), (∀ place ∈ rest, place ∈ places) →
      (∀ place ∈ marks, acts place = false) →
      view (rest.foldl (fun state place ↦ if place ∈ state.2 then state
        else yield place (state.1, place :: state.2)) (start, marks)).1 =
          (rest.find? acts).elim (view start) visit := by
    intro rest
    induction rest with
    | nil => exact fun _ _ _ ↦ rfl
    | cons place rest ih =>
      intro marks hall hmarks
      obtain ⟨-, hrest⟩ := List.forall_mem_cons.mp hall
      rw [List.foldl_cons]
      cases hact : acts place with
      | false =>
        rw [List.find?_cons_of_neg (by simp [hact])]
        dsimp only
        split_ifs
        · exact ih marks hrest hmarks
        · rw [hidle place _ hact]
          refine ih _ hrest fun other hother ↦ ?_
          rcases List.mem_cons.mp hother with rfl | hother
          · exact hact
          · exact hmarks other hother
      | true =>
        have hnew : place ∉ marks := fun hmem ↦ by simp [hmarks place hmem] at hact
        obtain ⟨hvisit, hmarked⟩ := hacts place (place :: marks) hact
        rw [List.find?_cons_of_pos hact, if_neg hnew, Option.elim_some, ← hvisit]
        generalize yield place (start, place :: marks) = state at hmarked
        clear ih hnew hvisit hall
        -- every place is marked, so nothing more is passed
        induction rest with
        | nil => rfl
        | cons other rest ih =>
          obtain ⟨hother, hrest⟩ := List.forall_mem_cons.mp hrest
          rw [List.foldl_cons, if_pos (hmarked other hother)]
          exact ih hrest
  exact hwalk places [] (fun _ h ↦ h) fun _ h ↦ absurd h List.not_mem_nil

end MoreConsensus.Library
