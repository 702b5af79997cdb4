import MoreConsensus.Node

/-!
# Frontiers as maps

A checkpoint lists its frontier by configuration and lane; the trackers of a node keep it as a map.
The two agree when every lane has one entry, as in every frontier that is validated.
-/

set_option autoImplicit false

namespace MoreConsensus

open Library

namespace ExecutionFrontier

/-- Every lane has one entry. -/
structure Proper (frontier : ExecutionFrontier) : Prop where
  configs : (frontier.configs.map ExecutionConfigFrontier.conf).Nodup
  lanes : ∀ config ∈ frontier.configs, (config.lanes.map ExecutionLaneFrontier.replica).Nodup

/-- The frontier as a map, as the trackers keep it. -/
def prefixes (frontier : ExecutionFrontier) : FiniteMap InstanceLane InstanceNum :=
  frontier.laneList.foldl (fun through entry ↦
    through.insert ⟨entry.1, entry.2.replica⟩ entry.2.through) ∅

variable {frontier : ExecutionFrontier} {lane : ExecutionLaneFrontier}

variable {conf : ConfID} {ref : InstanceRef} {current next : ExecutionFrontier}

theorem mem_laneList :
    (conf, lane) ∈ frontier.laneList ↔
      ∃ config ∈ frontier.configs, config.conf = conf ∧ lane ∈ config.lanes := by
  simp only [laneList, List.mem_flatMap, List.mem_map, Prod.mk.injEq]
  constructor
  · rintro ⟨config, hconfig, found, hfound, rfl, rfl⟩
    exact ⟨config, hconfig, rfl, hfound⟩
  · rintro ⟨config, hconfig, rfl, hlane⟩
    exact ⟨config, hconfig, lane, hlane, rfl, rfl⟩

/-- The lane of an entry of the frontier. -/
def laneOf (entry : ConfID × ExecutionLaneFrontier) : InstanceLane := ⟨entry.1, entry.2.replica⟩

theorem Proper.eq_of_laneOf (hproper : frontier.Proper)
    {first second : ConfID × ExecutionLaneFrontier}
    (hfirst : first ∈ frontier.laneList) (hsecond : second ∈ frontier.laneList)
    (hlane : laneOf first = laneOf second) : first = second := by
  obtain ⟨conf, lane⟩ := first
  obtain ⟨conf', lane'⟩ := second
  obtain ⟨rfl, hreplica⟩ : conf = conf' ∧ lane.replica = lane'.replica := by
    simpa [laneOf] using hlane
  obtain ⟨config, hconfig, hconf, hin⟩ := mem_laneList.mp hfirst
  obtain ⟨config', hconfig', hconf', hin'⟩ := mem_laneList.mp hsecond
  obtain rfl := List.inj_on_of_nodup_map hproper.configs hconfig hconfig' (hconf.trans hconf'.symm)
  obtain rfl := List.inj_on_of_nodup_map (hproper.lanes config hconfig) hin hin' hreplica
  rfl

theorem get?_foldl_insert (entries : List (ConfID × ExecutionLaneFrontier))
    (start : FiniteMap InstanceLane InstanceNum) (lane : InstanceLane) :
    (entries.foldl (fun through entry ↦
        through.insert ⟨entry.1, entry.2.replica⟩ entry.2.through) start).get? lane =
      (entries.reverse.find? fun entry ↦ laneOf entry == lane).elim (start.get? lane) fun entry ↦
        some entry.2.through := by
  induction entries generalizing start with
  | nil => rfl
  | cons entry rest ih =>
    rw [List.foldl_cons, ih, List.reverse_cons, List.find?_append]
    cases rest.reverse.find? fun entry ↦ laneOf entry == lane with
    | some found => rfl
    | none =>
      by_cases hlane : laneOf entry = lane
      · simp [← hlane, laneOf]
      · have hne : lane ≠ ⟨entry.1, entry.2.replica⟩ := fun heq ↦ hlane heq.symm
        simp [hlane, FiniteMap.get?_insert, hne]

theorem lane?_eq_some (hproper : frontier.Proper) {entry : ConfID × ExecutionLaneFrontier}
    (hentry : entry ∈ frontier.laneList) : frontier.lane? (laneOf entry) = some entry.2 := by
  obtain ⟨conf, lane⟩ := entry
  cases hfound : frontier.lane? (laneOf (conf, lane)) with
  | some found =>
    obtain ⟨config, hconfig, hcond⟩ := List.exists_of_findSome?_eq_some hfound
    obtain ⟨hconf, hin⟩ := Option.ite_none_right_eq_some.mp hcond
    have hreplica : found.replica = lane.replica := by
      simpa [laneOf] using List.find?_some hin
    have hmem : (conf, found) ∈ frontier.laneList :=
      mem_laneList.mpr ⟨config, hconfig, hconf, List.mem_of_find?_eq_some hin⟩
    have heq := hproper.eq_of_laneOf hmem hentry (by simp [laneOf, hreplica])
    rw [(Prod.mk.inj heq).2]
  | none =>
    obtain ⟨config, hconfig, hconf, hin⟩ := mem_laneList.mp hentry
    have hnone := List.findSome?_eq_none_iff.mp hfound config hconfig
    rw [if_pos (by exact hconf)] at hnone
    have habsent := List.find?_eq_none.mp hnone lane hin
    simp [laneOf] at habsent

/-- The map has the entry of every lane. -/
theorem get?_prefixes (hproper : frontier.Proper) (lane : InstanceLane) :
    frontier.prefixes.get? lane = (frontier.lane? lane).map ExecutionLaneFrontier.through := by
  unfold prefixes
  rw [get?_foldl_insert]
  cases hfound : frontier.laneList.reverse.find? fun entry ↦ laneOf entry == lane with
  | some entry =>
    have hmem := List.mem_reverse.mp (List.mem_of_find?_eq_some hfound)
    have hlane : laneOf entry = lane := by simpa using List.find?_some hfound
    rw [← hlane, lane?_eq_some hproper hmem]
    rfl
  | none =>
    cases hlane : frontier.lane? lane with
    | none => rfl
    | some found =>
      obtain ⟨config, hconfig, hcond⟩ := List.exists_of_findSome?_eq_some hlane
      obtain ⟨hconf, hin⟩ := Option.ite_none_right_eq_some.mp hcond
      have hreplica : found.replica = lane.replica := by simpa using List.find?_some hin
      have hmem : (lane.conf, found) ∈ frontier.laneList.reverse :=
        List.mem_reverse.mpr
          (mem_laneList.mpr ⟨config, hconfig, hconf, List.mem_of_find?_eq_some hin⟩)
      have habsent := List.find?_eq_none.mp hfound _ hmem
      simp [laneOf, hreplica] at habsent

theorem covers_iff (hproper : frontier.Proper) (hnamed : ref.inst ≠ 0) :
    frontierCovers frontier ref = true ↔
      ref.inst ≤ (frontier.prefixes.get? (laneFor ref)).getD 0 := by
  rw [get?_prefixes hproper]
  unfold frontierCovers
  cases frontier.lane? (laneFor ref) with
  | none => simp [hnamed]
  | some lane => simp

/-- A validated frontier has one entry for each lane. -/
theorem proper_of_validate {history : FiniteMap ConfID VoterSet}
    (hvalid : validateExecutionFrontier frontier history = true) : frontier.Proper := by
  unfold validateExecutionFrontier at hvalid
  simp only [Bool.and_eq_true, decide_eq_true_eq, List.all_eq_true] at hvalid
  obtain ⟨hsorted, hlanes⟩ := hvalid
  refine ⟨hsorted.imp fun hlt ↦ Nat.ne_of_lt hlt, fun config hconfig ↦ ?_⟩
  obtain ⟨-, hconf⟩ := hlanes config hconfig
  cases hfound : history.get? config.conf with
  | none => simp [hfound] at hconf
  | some conf =>
    rw [hfound] at hconf
    have hvoters : config.lanes.map ExecutionLaneFrontier.replica = conf.voters := by
      simpa using hconf
    rw [hvoters]
    exact conf.sorted.imp fun hlt ↦ Nat.ne_of_lt hlt

end ExecutionFrontier

theorem proper_of_validateCheckpoint {checkpoint : Checkpoint}
    {history : FiniteMap ConfID VoterSet} (hcertified : checkpointCertified checkpoint = true)
    (hvalid : validateCheckpoint checkpoint history = true) :
    checkpoint.descriptor.through.Proper := by
  unfold checkpointCertified at hcertified
  unfold validateCheckpoint at hvalid
  simp only [Bool.and_eq_true, Bool.not_eq_true'] at hcertified
  simp only [hcertified.1, Bool.false_or, Bool.and_eq_true] at hvalid
  exact ExecutionFrontier.proper_of_validate hvalid.1.1.1.1.1.1.2

end MoreConsensus
