import MoreConsensus.Library.Canonical

/-!
# Staircases

A list of steps that increases in both components is a staircase. It stands for the function that
takes a bound to the greatest second component of a step at or below it (`height`), which is the
second component of the last such step (`getLast?_filter_eq_height`), and bisection finds that step
(`getElem?_bisect`).
-/

set_option autoImplicit false

namespace MoreConsensus.Library

/-! ### Bisection -/

/-- The loop of a binary search for the first position that does not pass. -/
def bisect (pass : ℕ → Bool) : ℕ → ℕ → ℕ → ℕ
  | 0, lo, _ => lo
  | fuel + 1, lo, hi =>
    if lo < hi then
      let mid := (lo + hi) / 2
      if pass mid then bisect pass fuel (mid + 1) hi else bisect pass fuel lo mid
    else lo

/-- The search ends at the number of positions that pass, when they come first. -/
theorem bisect_eq {pass : ℕ → Bool} {count : ℕ} (hpass : ∀ i, pass i = true ↔ i < count)
    {fuel lo hi : ℕ} (hlo : lo ≤ count) (hhi : count ≤ hi) (hfuel : hi - lo ≤ fuel) :
    bisect pass fuel lo hi = count := by
  induction fuel generalizing lo hi with
  | zero =>
    rw [bisect]
    omega
  | succ fuel ih =>
    rw [bisect]
    dsimp only
    split_ifs with hopen hmid
    · exact ih ((hpass _).mp hmid) hhi (by omega)
    · have hle : count ≤ (lo + hi) / 2 := not_lt.mp fun hlt ↦ hmid ((hpass _).mpr hlt)
      exact ih hlo hle (by omega)
    · omega

/-! ### Staircases -/

section Staircases

variable {ι : Type} [LinearOrder ι] {steps : List (ι × ℕ)}

/-- The steps increase in both components. -/
def Staircase (steps : List (ι × ℕ)) : Prop :=
  steps.Pairwise fun step next ↦ step.1 < next.1 ∧ step.2 < next.2

/-- The greatest second component of a step up to a bound, zero for none. -/
def height (steps : List (ι × ℕ)) (bound : ι) : ℕ :=
  ((steps.filter fun step ↦ decide (step.1 ≤ bound)).map Prod.snd).foldl max 0

theorem height_le_iff {bound : ι} {limit : ℕ} :
    height steps bound ≤ limit ↔ ∀ step ∈ steps, step.1 ≤ bound → step.2 ≤ limit := by
  simp only [height, foldl_max_le_iff, List.mem_map, List.mem_filter, decide_eq_true_eq]
  constructor
  · exact fun hall step hstep hbound ↦ hall.2 step.2 ⟨step, ⟨hstep, hbound⟩, rfl⟩
  · rintro hall
    refine ⟨Nat.zero_le _, ?_⟩
    rintro value ⟨step, ⟨hstep, hbound⟩, rfl⟩
    exact hall step hstep hbound

theorem le_height {bound : ι} {step : ι × ℕ} (hstep : step ∈ steps)
    (hbound : step.1 ≤ bound) : step.2 ≤ height steps bound :=
  height_le_iff.mp le_rfl step hstep hbound

theorem height_mono (steps : List (ι × ℕ)) {bound other : ι} (hle : bound ≤ other) :
    height steps bound ≤ height steps other :=
  height_le_iff.mpr fun _ hstep hbound ↦ le_height hstep (hbound.trans hle)

/-- On a staircase the last step up to a bound is the highest. -/
theorem getLast?_filter_eq_height (hstairs : Staircase steps) (bound : ι) :
    ((steps.filter fun step ↦ decide (step.1 ≤ bound)).getLast?).elim 0 Prod.snd =
      height steps bound := by
  have hsorted : Staircase (steps.filter fun step ↦ decide (step.1 ≤ bound)) := hstairs.filter _
  unfold height
  generalize steps.filter (fun step ↦ decide (step.1 ≤ bound)) = passed at hsorted
  induction passed using List.reverseRecOn with
  | nil => rfl
  | append_singleton rest last _ =>
    have hbelow : ∀ step ∈ rest, step.2 ≤ last.2 := fun step hstep ↦
      ((List.pairwise_append.mp hsorted).2.2 step hstep last (by simp)).2.le
    have hrest : (rest.map Prod.snd).foldl max 0 ≤ last.2 :=
      foldl_max_le_iff.mpr ⟨Nat.zero_le _, List.forall_mem_map.mpr hbelow⟩
    simp [hrest]

/-- The steps up to a bound come first. -/
theorem filter_eq_takeWhile (hstairs : Staircase steps) (bound : ι) :
    (steps.filter fun step ↦ decide (step.1 ≤ bound)) =
      steps.takeWhile fun step ↦ decide (step.1 ≤ bound) := by
  induction steps with
  | nil => rfl
  | cons step steps ih =>
    obtain ⟨hstep, hrest⟩ := List.pairwise_cons.mp hstairs
    by_cases hle : step.1 ≤ bound
    · simp [hle, ih hrest]
    · have hbeyond : ∀ next ∈ steps, ¬ next.1 ≤ bound := fun next hnext hle' ↦
        hle ((hstep next hnext).1.le.trans hle')
      simpa [hle] using fun first second hmem ↦ not_le.mp (hbeyond (first, second) hmem)

/-- Bisection of a staircase ends behind the steps up to a bound. -/
theorem bisect_staircase (hstairs : Staircase steps) (bound : ι) :
    bisect (fun i ↦ (steps[i]?).elim false fun step ↦ decide (step.1 ≤ bound)) steps.length 0
        steps.length = (steps.filter fun step ↦ decide (step.1 ≤ bound)).length := by
  refine bisect_eq (fun i ↦ ?_) (Nat.zero_le _) (List.length_filter_le _ _) (Nat.sub_le _ _)
  rw [filter_eq_takeWhile hstairs]
  induction steps generalizing i with
  | nil => simp
  | cons step steps ih =>
    obtain ⟨hstep, hrest⟩ := List.pairwise_cons.mp hstairs
    by_cases hle : step.1 ≤ bound
    · cases i with
      | zero => simp [hle]
      | succ i => simpa [hle] using ih hrest i
    · cases i with
      | zero => simp [hle]
      | succ i =>
        have hnone : (steps[i]?).elim false (fun next ↦ decide (next.1 ≤ bound)) = false := by
          cases hget : steps[i]? with
          | none => rfl
          | some next =>
            have hlt := (hstep next (List.mem_of_getElem? hget)).1
            simpa using (not_le.mp hle).trans hlt
        simp [hle, hnone]

/-- The step before the end of the search is the highest up to the bound. Assumes: some step is up
to the bound. -/
theorem getElem?_bisect (hstairs : Staircase steps) {bound : ι}
    (hsome : ∃ step ∈ steps, step.1 ≤ bound) :
    (steps[bisect (fun i ↦ (steps[i]?).elim false fun step ↦ decide (step.1 ≤ bound)) steps.length 0
        steps.length - 1]?).elim 0 Prod.snd = height steps bound := by
  obtain ⟨step, hstep, hle⟩ := hsome
  have hpos : 0 < (steps.filter fun step ↦ decide (step.1 ≤ bound)).length :=
    List.length_pos_of_mem (List.mem_filter.mpr ⟨hstep, decide_eq_true hle⟩)
  rw [bisect_staircase hstairs, ← getLast?_filter_eq_height hstairs, List.getLast?_eq_getElem?]
  rw [filter_eq_takeWhile hstairs] at hpos ⊢
  have hlast := Nat.sub_lt hpos Nat.one_pos
  rw [List.prefix_iff_getElem?.mp (List.takeWhile_prefix _) _ hlast, List.getElem?_eq_getElem hlast]

end Staircases

end MoreConsensus.Library
