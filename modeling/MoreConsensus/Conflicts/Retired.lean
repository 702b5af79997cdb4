import MoreConsensus.Library.Staircases
import MoreConsensus.Ready

/-!
# Sequence numbers of folded instances

Of the sequence numbers of its folded instances a lane keeps the prefix maxima, as a staircase of
breakpoints (`epaxos/conflict_engine.go`). When there are too many, the first ones are dropped and
the lane answers for them with the first that is left. So what it answers is never too small, and
exact as long as nothing was dropped (`addRetiredSeq_bounds`).
-/

set_option autoImplicit false

namespace MoreConsensus

open Library

/-! ### Insertion of a breakpoint -/

section Insertion

variable {through : InstanceNum} {seq : ℕ} {points : List (InstanceNum × ℕ)}

/-- Behind an instance, the breakpoints that do not exceed a number come first. -/
theorem dropWhile_breakpoints (hstairs : Staircase points) (hbehind : ∀ p ∈ points, through < p.1) :
    (points.dropWhile fun point ↦ decide (point.2 ≤ seq)) =
      points.filter fun point ↦ decide (through < point.1 ∧ seq < point.2) := by
  rw [dropWhile_eq_filter hstairs fun a b hab hle ↦ ?_]
  · exact List.filter_congr fun point hpoint ↦ by
      simp only [hbehind point hpoint, true_and, ← not_le, decide_not]
  · simpa using hab.2.le.trans (by simpa using hle)

/-- An instance whose number exceeds the maximum before it gets a breakpoint, and the later
breakpoints that it does not leave behind are dropped. -/
theorem insertBreakpoint_eq (hstairs : Staircase points) (hrise : height points through < seq) :
    insertBreakpoint through seq points =
      (points.filter fun point ↦ decide (point.1 < through)) ++
        (through, seq) :: points.filter fun point ↦ decide (through < point.1 ∧ seq < point.2) := by
  induction points with
  | nil => rfl
  | cons point points ih =>
    obtain ⟨hpoint, hrest⟩ := List.pairwise_cons.mp hstairs
    have hrise' : height points through < seq :=
      (height_le_iff.mpr fun p hp hle ↦ le_height (List.mem_cons_of_mem _ hp) hle).trans_lt hrise
    rcases lt_trichotomy point.1 through with hlt | heq | hgt
    · have hcons : insertBreakpoint through seq (point :: points) =
          point :: insertBreakpoint through seq points := by
        simp [insertBreakpoint, hlt]
      rw [hcons, ih hrest hrise', List.filter_cons_of_pos (by simpa using hlt),
        List.filter_cons_of_neg (by simpa using fun h ↦ absurd h hlt.asymm)]
      rfl
    · have hlow : point.2 < seq := (le_height List.mem_cons_self heq.le).trans_lt hrise
      have hbehind : ∀ p ∈ points, through < p.1 := fun p hp ↦ heq ▸ (hpoint p hp).1
      have hdrop : (points.dropWhile fun p ↦ p.1 == through) = points :=
        List.dropWhile_eq_self_iff.mpr fun hl ↦ by simpa using
          (hbehind _ (List.get_mem _ ⟨0, hl⟩)).ne'
      have hnone : (points.filter fun p ↦ decide (p.1 < through)) = [] :=
        List.filter_eq_nil_iff.mpr fun p hp ↦ by simpa using (hbehind p hp).le
      simp [insertBreakpoint, heq, hlow.le, hdrop, hnone,
        dropWhile_breakpoints hrest hbehind]
    · have hbehind : ∀ p ∈ point :: points, through < p.1 := by
        intro p hp
        rcases List.mem_cons.mp hp with rfl | hp
        · exact hgt
        · exact hgt.trans (hpoint p hp).1
      have hnone : ((point :: points).filter fun p ↦ decide (p.1 < through)) = [] :=
        List.filter_eq_nil_iff.mpr fun p hp ↦ by simpa using (hbehind p hp).le
      rw [← dropWhile_breakpoints hstairs hbehind, hnone]
      simp [insertBreakpoint, hgt.not_gt, hgt.ne']

theorem mem_insertBreakpoint (hstairs : Staircase points) (hrise : height points through < seq)
    {point : InstanceNum × ℕ} : point ∈ insertBreakpoint through seq points ↔
      point = (through, seq) ∨
        point ∈ points ∧ (point.1 < through ∨ through < point.1 ∧ seq < point.2) := by
  simp only [insertBreakpoint_eq hstairs hrise, List.mem_append, List.mem_cons, List.mem_filter,
    decide_eq_true_eq]
  tauto

theorem staircase_insertBreakpoint (hstairs : Staircase points)
    (hrise : height points through < seq) : Staircase (insertBreakpoint through seq points) := by
  rw [insertBreakpoint_eq hstairs hrise]
  refine List.pairwise_append.mpr ⟨hstairs.filter _, ?_, ?_⟩
  · refine List.pairwise_cons.mpr ⟨fun next hnext ↦ ?_, hstairs.filter _⟩
    simpa using (List.mem_filter.mp hnext).2
  · intro point hpoint next hnext
    have hbefore : point.1 < through := by simpa using (List.mem_filter.mp hpoint).2
    have hlow : point.2 < seq :=
      (le_height (List.mem_of_mem_filter hpoint) hbefore.le).trans_lt hrise
    rcases List.mem_cons.mp hnext with rfl | hnext
    · exact ⟨hbefore, hlow⟩
    · have hbeyond : through < next.1 ∧ seq < next.2 := by simpa using (List.mem_filter.mp hnext).2
      exact ⟨hbefore.trans hbeyond.1, hlow.trans hbeyond.2⟩

/-- A new breakpoint raises the maxima from its instance on, and no others. -/
theorem height_insertBreakpoint (hstairs : Staircase points) (hrise : height points through < seq)
    (bound : InstanceNum) :
    height (insertBreakpoint through seq points) bound =
      max (height points bound) (if through ≤ bound then seq else 0) := by
  refine eq_of_forall_ge_iff fun limit ↦ ?_
  rw [height_le_iff, max_le_iff, height_le_iff]
  constructor
  · intro hall
    have hseq : through ≤ bound → seq ≤ limit :=
      hall (through, seq) ((mem_insertBreakpoint hstairs hrise).mpr (Or.inl rfl))
    refine ⟨fun point hpoint hle ↦ ?_, ?_⟩
    · by_cases hkept : point.1 < through ∨ through < point.1 ∧ seq < point.2
      · exact hall point ((mem_insertBreakpoint hstairs hrise).mpr (Or.inr ⟨hpoint, hkept⟩)) hle
      · -- a dropped breakpoint is not before the new one and does not exceed it
        obtain ⟨hafter, hlow⟩ := not_or.mp hkept
        have hthrough := not_lt.mp hafter
        rcases hthrough.lt_or_eq with hlt | heq
        · exact (not_lt.mp fun hhigh ↦ hlow ⟨hlt, hhigh⟩).trans (hseq (hthrough.trans hle))
        · exact ((le_height hpoint heq.ge).trans hrise.le).trans (hseq (hthrough.trans hle))
    · split_ifs with hle
      · exact hseq hle
      · exact Nat.zero_le _
  · rintro ⟨hold, hnew⟩ point hpoint hle
    rcases (mem_insertBreakpoint hstairs hrise).mp hpoint with rfl | ⟨hpoint, -⟩
    · simpa [hle] using hnew
    · exact hold point hpoint hle

end Insertion

/-! ### Prefix maxima -/

namespace RetiredLane

/-- What a lane answers for instances before its first breakpoint. -/
def seqFloor (lane : RetiredLane) : ℕ :=
  if lane.seqCompressed then lane.retiredSeq.head?.elim 0 Prod.snd else 0

variable {lane : RetiredLane}

/-- What a lane answers is the maximum of its breakpoints and its floor. -/
theorem retiredPrefixMaxSeq_eq (hstairs : Staircase lane.retiredSeq) (bound : InstanceNum) :
    lane.retiredPrefixMaxSeq bound = max (height lane.retiredSeq bound) lane.seqFloor := by
  unfold retiredPrefixMaxSeq seqFloor
  cases hpoints : lane.retiredSeq with
  | nil => simp [height]
  | cons first rest =>
    rw [hpoints] at hstairs
    dsimp only [List.head?_cons, Option.elim_some]
    by_cases hbefore : bound < first.1
    · have hzero : height (first :: rest) bound = 0 := by
        refine Nat.le_zero.mp (height_le_iff.mpr fun point hpoint hle ↦ ?_)
        rcases List.mem_cons.mp hpoint with rfl | hpoint
        · exact absurd hle (not_le.mpr hbefore)
        · exact absurd hle
            (not_le.mpr (hbefore.trans ((List.pairwise_cons.mp hstairs).1 point hpoint).1))
      rw [if_pos hbefore, hzero, Nat.zero_max]
    · have hfirst : first.2 ≤ height (first :: rest) bound :=
        le_height List.mem_cons_self (not_lt.mp hbefore)
      rw [if_neg hbefore, getElem?_bisect hstairs ⟨first, List.mem_cons_self, not_lt.mp hbefore⟩,
        eq_comm, max_eq_left]
      split_ifs
      · exact hfirst
      · exact Nat.zero_le _

theorem retiredPrefixMaxSeq_mono (hstairs : Staircase lane.retiredSeq) {bound other : InstanceNum}
    (hle : bound ≤ other) : lane.retiredPrefixMaxSeq bound ≤ lane.retiredPrefixMaxSeq other := by
  rw [retiredPrefixMaxSeq_eq hstairs, retiredPrefixMaxSeq_eq hstairs]
  exact max_le_max_right _ (height_mono _ hle)

/-- No breakpoint is below the floor. -/
theorem seqFloor_le (hstairs : Staircase lane.retiredSeq) {point : InstanceNum × ℕ}
    (hpoint : point ∈ lane.retiredSeq) : lane.seqFloor ≤ point.2 := by
  unfold seqFloor
  split_ifs
  · cases hpoints : lane.retiredSeq with
    | nil => exact Nat.zero_le _
    | cons first rest =>
      rw [hpoints] at hpoint hstairs
      rcases List.mem_cons.mp hpoint with rfl | hpoint
      · exact le_rfl
      · exact ((List.pairwise_cons.mp hstairs).1 point hpoint).2.le
  · exact Nat.zero_le _

/-! ### Adding sequence numbers -/

/-- What a lane keeps of the sequence numbers that were added to it. -/
structure Summarizes (added : List (InstanceNum × ℕ)) (lane : RetiredLane) : Prop where
  stairs : Staircase lane.retiredSeq
  capped : lane.retiredSeq.length ≤ retiredSeqBreakpointCap
  bounds : ∀ bound, height added bound ≤ lane.retiredPrefixMaxSeq bound
  exact : lane.seqCompressed = false → ∀ bound, lane.retiredPrefixMaxSeq bound = height added bound

theorem height_append_one (added : List (InstanceNum × ℕ)) (through : InstanceNum) (seq : ℕ)
    (bound : InstanceNum) : height (added ++ [(through, seq)]) bound =
      max (height added bound) (if through ≤ bound then seq else 0) := by
  refine eq_of_forall_ge_iff fun limit ↦ ?_
  rw [height_le_iff, max_le_iff, height_le_iff]
  simp only [List.mem_append, List.mem_singleton, or_imp, forall_and, forall_eq]
  split_ifs with hle <;> simp [hle]

/-- The first breakpoint after some have been dropped is above those. -/
theorem height_le_drop {points : List (InstanceNum × ℕ)} (hstairs : Staircase points) {count : ℕ}
    (hcount : count < points.length) (bound : InstanceNum) :
    height points bound ≤
      max (height (points.drop count) bound) ((points.drop count).head?.elim 0 Prod.snd) := by
  refine height_le_iff.mpr fun point hpoint hle ↦ ?_
  rw [← List.take_append_drop count points] at hpoint hstairs
  rcases List.mem_append.mp hpoint with hdropped | hkept
  · rw [List.drop_eq_getElem_cons hcount] at hstairs ⊢
    have hbelow := (List.pairwise_append.mp hstairs).2.2 point hdropped _ List.mem_cons_self
    exact hbelow.2.le.trans (le_max_right ..)
  · exact (le_height hkept hle).trans (le_max_left ..)

/-- With other breakpoints that are not below it, the floor does not fall. -/
theorem seqFloor_le_seqFloor {points : List (InstanceNum × ℕ)} (hne : points ≠ [])
    (habove : ∀ point ∈ points, lane.seqFloor ≤ point.2) :
    lane.seqFloor ≤ seqFloor { lane with retiredSeq := points } := by
  by_cases hcompressed : lane.seqCompressed = true
  · obtain ⟨first, rest, rfl⟩ := List.exists_cons_of_ne_nil hne
    simpa [seqFloor, hcompressed] using habove first List.mem_cons_self
  · simp [seqFloor, hcompressed]

theorem Summarizes.skip {added : List (InstanceNum × ℕ)} (hlane : Summarizes added lane)
    {through : InstanceNum} {seq : ℕ} (hlow : seq ≤ lane.retiredPrefixMaxSeq through) :
    Summarizes (added ++ [(through, seq)]) lane where
  stairs := hlane.stairs
  capped := hlane.capped
  bounds := fun bound ↦ by
    rw [height_append_one]
    refine max_le (hlane.bounds bound) ?_
    split_ifs with hle
    · exact hlow.trans (retiredPrefixMaxSeq_mono hlane.stairs hle)
    · exact Nat.zero_le _
  exact := fun hexact bound ↦ by
    rw [height_append_one, hlane.exact hexact, eq_comm, max_eq_left]
    split_ifs with hle
    · exact (hlow.trans_eq (hlane.exact hexact through)).trans (height_mono _ hle)
    · exact Nat.zero_le _

theorem Summarizes.addRetiredSeq {added : List (InstanceNum × ℕ)} (hlane : Summarizes added lane)
    (through : InstanceNum) (seq : ℕ) :
    Summarizes (added ++ [(through, seq)]) (lane.addRetiredSeq through seq) := by
  unfold RetiredLane.addRetiredSeq
  by_cases hlow : seq ≤ lane.retiredPrefixMaxSeq through
  · rw [if_pos hlow]
    exact hlane.skip hlow
  rw [if_neg hlow]
  rw [retiredPrefixMaxSeq_eq hlane.stairs, not_le, max_lt_iff] at hlow
  obtain ⟨hrise, hfloor⟩ := hlow
  have hstairs := staircase_insertBreakpoint hlane.stairs hrise
  have hheight := height_insertBreakpoint hlane.stairs hrise
  have hmem : (through, seq) ∈ insertBreakpoint through seq lane.retiredSeq :=
    (mem_insertBreakpoint hlane.stairs hrise).mpr (Or.inl rfl)
  have habove : ∀ point ∈ insertBreakpoint through seq lane.retiredSeq,
      lane.seqFloor ≤ point.2 := by
    intro point hpoint
    rcases (mem_insertBreakpoint hlane.stairs hrise).mp hpoint with rfl | ⟨hold, -⟩
    · exact hfloor.le
    · exact seqFloor_le hlane.stairs hold
  have hbounds : ∀ bound, height (added ++ [(through, seq)]) bound ≤
      max (height (insertBreakpoint through seq lane.retiredSeq) bound) lane.seqFloor := by
    intro bound
    have hold := hlane.bounds bound
    rw [retiredPrefixMaxSeq_eq hlane.stairs] at hold
    rw [height_append_one, hheight, max_right_comm]
    exact max_le_max_right _ hold
  generalize insertBreakpoint through seq lane.retiredSeq = points at *
  dsimp only
  split_ifs with hfits
  · refine ⟨hstairs, hfits, fun bound ↦ ?_, fun hexact bound ↦ ?_⟩
    · rw [retiredPrefixMaxSeq_eq hstairs]
      exact (hbounds bound).trans
        (max_le_max_left _ (seqFloor_le_seqFloor (List.ne_nil_of_mem hmem) habove))
    · change lane.seqCompressed = false at hexact
      have hzero : ∀ points : List (InstanceNum × ℕ),
          seqFloor { lane with retiredSeq := points } = 0 := fun points ↦ by simp [seqFloor, hexact]
      have hold := hlane.exact hexact bound
      rw [retiredPrefixMaxSeq_eq hlane.stairs, hzero lane.retiredSeq, Nat.max_zero] at hold
      rw [retiredPrefixMaxSeq_eq hstairs, hzero, Nat.max_zero, hheight, height_append_one, hold]
  · -- the cap is exceeded: the first breakpoints go, and the first that is left answers for them
    have hcount : points.length - retiredSeqBreakpointCap < points.length :=
      Nat.sub_lt (List.length_pos_of_mem hmem) (by decide)
    have hkept : Staircase (points.drop (points.length - retiredSeqBreakpointCap)) :=
      hstairs.sublist (List.drop_sublist ..)
    refine ⟨hkept, ?_, fun bound ↦ ?_, fun hexact ↦ absurd hexact (by simp)⟩
    · simp
      omega
    · have hhead : seqFloor { lane with
            retiredSeq := points.drop (points.length - retiredSeqBreakpointCap)
            seqCompressed := true } =
          (points.drop (points.length - retiredSeqBreakpointCap)).head?.elim 0
            Prod.snd := if_pos rfl
      rw [retiredPrefixMaxSeq_eq hkept, hhead]
      refine (hbounds bound).trans (max_le (height_le_drop hstairs hcount bound) ?_)
      refine le_max_of_le_right ?_
      rw [List.drop_eq_getElem_cons hcount]
      exact habove _ (List.getElem_mem hcount)

end RetiredLane

/-- What a lane keeps of folded sequence numbers, in whatever order they are added: the breakpoints
increase strictly in both components and are at most as many as the cap, and the prefix maximum is
never too small, and exact as long as no breakpoint was dropped. -/
theorem RetiredLane.addRetiredSeq_bounds (start : RetiredLane) (added : List (InstanceNum × ℕ)) :
    let lane := added.foldl (fun lane entry ↦ lane.addRetiredSeq entry.1 entry.2)
      { start with retiredSeq := [], seqCompressed := false }
    (lane.retiredSeq.Pairwise fun point next ↦ point.1 < next.1 ∧ point.2 < next.2) ∧
      lane.retiredSeq.length ≤ retiredSeqBreakpointCap ∧
      ∀ bound, height added bound ≤ lane.retiredPrefixMaxSeq bound ∧
        (lane.seqCompressed = false → lane.retiredPrefixMaxSeq bound = height added bound) := by
  have hlane : Summarizes added (added.foldl (fun lane entry ↦ lane.addRetiredSeq entry.1 entry.2)
      { start with retiredSeq := [], seqCompressed := false }) := by
    induction added using List.reverseRecOn with
    | nil => exact ⟨List.Pairwise.nil, Nat.zero_le _, fun _ ↦ Nat.zero_le _, fun _ _ ↦ rfl⟩
    | append_singleton added entry ih =>
      rw [List.foldl_append]
      exact ih.addRetiredSeq entry.1 entry.2
  exact ⟨hlane.stairs, hlane.capped, fun bound ↦
    ⟨hlane.bounds bound, fun hexact ↦ hlane.exact hexact bound⟩⟩

end MoreConsensus
