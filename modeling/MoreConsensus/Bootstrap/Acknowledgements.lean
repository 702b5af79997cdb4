import MoreConsensus.Bootstrap.Records

/-!
# Collected acknowledgements

A coordinator collects acknowledgements of one digest, one of each voter, up to a slow quorum
(`Votes.collect`). While only valid ones are collected they stay consistent (`Votes.Sound.collect`),
and a slow quorum of them can be certified: for a snapshot with the source among them
(`Votes.Sound.buildSnapshot_iff`), for the target's proof without (`Votes.Sound.buildReady`).
-/

set_option autoImplicit false

namespace MoreConsensus.Bootstrap

open Library

/-- The acknowledgements that were collected are each by its sender, and all of one digest. -/
def Votes.Sound (plan : VoterPlan) (votes : Votes) : Prop :=
  ∀ sender ack, votes.votes.get? sender = some ack →
    votes.digest ≠ 0 ∧ ack.voter.replica = sender ∧ Attests plan votes.digest ack

/-- The voters whose acknowledgements were collected. -/
def Votes.senders (votes : Votes) : Finset ReplicaID := votes.votes.keys.toFinset

section Votes

variable {γ : Type} {plan : VoterPlan} {votes : Votes} {sender : ReplicaID} {digest : StateDigest}
  {ack other : VoterAcknowledgement} {build : List VoterAcknowledgement → Except Fault γ}

/-- A voter has one acknowledgement of a digest to give. -/
theorem Attests.unique (hack : Attests plan digest ack) (hother : Attests plan digest other)
    (hsender : ack.voter.replica = other.voter.replica) : ack = other := by
  obtain ⟨hidentity, hdigest⟩ := attests_iff.mp hack
  obtain ⟨hidentity', hdigest'⟩ := attests_iff.mp hother
  rw [hsender, hidentity', Option.some.injEq] at hidentity
  cases ack
  cases other
  simp_all

/-- What one more valid acknowledgement does: it is of another digest, it is known, or it is new. -/
theorem Votes.Sound.collect_cases (hvotes : votes.Sound plan) (hack : Attests plan digest ack)
    (hsender : ack.voter.replica = sender)
    (build : List VoterAcknowledgement → Except Fault γ) :
    (votes.digest ≠ 0 ∧ votes.digest ≠ digest ∧
      votes.collect plan build sender digest ack = (votes, .error .certificate)) ∨
    (votes.digest = digest ∧ votes.votes.get? sender = some ack ∧
      votes.collect plan build sender digest ack = (votes, .ok none)) ∨
    ((votes.digest = 0 ∨ votes.digest = digest) ∧ votes.votes.get? sender = none ∧
      votes.collect plan build sender digest ack = (⟨digest, votes.votes.insert sender ack⟩,
        if (votes.votes.insert sender ack).entries.length <
          slowQuorumSize plan.request.base.voters.length then .ok none
        else (build ((votes.votes.insert sender ack).entries.map Prod.snd)).map some)) := by
  by_cases hother : votes.digest ≠ 0 ∧ votes.digest ≠ digest
  · exact .inl ⟨hother.1, hother.2, by simp [Votes.collect, hother]⟩
  · have hsame : votes.digest = 0 ∨ votes.digest = digest := by tauto
    have hgoes : (votes.digest ≠ 0 && votes.digest ≠ digest) = false := by
      simpa [← or_iff_not_imp_left] using hsame
    cases hget : votes.votes.get? sender with
    | none =>
      refine .inr (.inr ⟨hsame, rfl, ?_⟩)
      simp only [Votes.collect, hgoes, hget, Bool.false_eq_true, if_false]
    | some existing =>
      obtain ⟨hne, hreplica, hattests⟩ := hvotes sender existing hget
      have hdigest := hsame.resolve_left hne
      obtain rfl := (hdigest ▸ hattests).unique hack (hreplica.trans hsender.symm)
      refine .inr (.inl ⟨hdigest, rfl, ?_⟩)
      simp only [Votes.collect, hgoes, hget, Bool.false_eq_true, if_false, if_true]
      rw [← hdigest]

/-- A certificate comes from the acknowledgements that were collected. -/
theorem Votes.exists_build {votes' : Votes} {certificate : γ}
    (hcollect : votes.collect plan build sender digest ack = (votes', .ok (some certificate))) :
    ∃ acks, build acks = .ok certificate := by
  rw [Votes.collect] at hcollect
  split at hcollect
  · cases hcollect
  · split at hcollect
    · obtain ⟨-, hresult⟩ := Prod.mk.inj hcollect
      split at hresult <;> cases hresult
    · obtain ⟨-, hresult⟩ := Prod.mk.inj hcollect
      split at hresult
      · cases hresult
      · cases hbuild : build ((votes.votes.insert sender ack).entries.map Prod.snd) with
        | error fault => rw [hbuild] at hresult; cases hresult
        | ok built =>
          rw [hbuild] at hresult
          cases hresult
          exact ⟨_, hbuild⟩

/-- Collecting a valid acknowledgement keeps what was collected consistent. -/
theorem Votes.Sound.collect (hvotes : votes.Sound plan) (hdigest : digest ≠ 0)
    (hack : Attests plan digest ack) (hsender : ack.voter.replica = sender)
    (build : List VoterAcknowledgement → Except Fault γ) :
    (votes.collect plan build sender digest ack).1.Sound plan := by
  obtain ⟨-, -, hcollect⟩ | ⟨-, -, hcollect⟩ | ⟨hsame, -, hcollect⟩ :=
    hvotes.collect_cases hack hsender build
  · rwa [hcollect]
  · rwa [hcollect]
  · rw [hcollect]
    intro voter known hknown
    rw [FiniteMap.get?_insert] at hknown
    split at hknown
    · obtain rfl := Option.some.inj hknown
      exact ⟨hdigest, hsender.trans (by symm; assumption), hack⟩
    · obtain ⟨hne, hreplica, hattests⟩ := hvotes voter known hknown
      exact ⟨hdigest, hreplica, hsame.resolve_left hne ▸ hattests⟩

theorem Votes.mem_senders : sender ∈ votes.senders ↔ ∃ ack, votes.votes.get? sender = some ack := by
  rw [Votes.senders, List.mem_toFinset, FiniteMap.mem_keys]

theorem Votes.card_senders (votes : Votes) : votes.senders.card = votes.votes.entries.length := by
  rw [Votes.senders, List.toFinset_card_of_nodup votes.votes.nodup_keys, FiniteMap.keys,
    List.length_map]

theorem Votes.senders_insert :
    Votes.senders ⟨digest, votes.votes.insert sender ack⟩ = insert sender votes.senders := by
  ext voter
  rw [Finset.mem_insert, Votes.mem_senders, Votes.mem_senders]
  simp only [FiniteMap.get?_insert]
  by_cases hvoter : voter = sender <;> simp [hvoter]

/-- A valid acknowledgement of the digest is collected; a new one that makes a slow quorum is handed
to `build` with the others. -/
theorem Votes.Sound.collect_same (hvotes : votes.Sound plan)
    (hsame : votes.digest = 0 ∨ votes.digest = digest) (hdigest : digest ≠ 0)
    (hack : Attests plan digest ack) (hsender : ack.voter.replica = sender)
    (build : List VoterAcknowledgement → Except Fault γ) :
    ∃ votes' : Votes, votes'.Sound plan ∧ votes'.digest = digest ∧
      votes'.senders = insert sender votes.senders ∧
      votes.collect plan build sender digest ack = (votes',
        if sender ∉ votes.senders ∧
            slowQuorumSize plan.request.base.voters.length ≤ votes'.senders.card then
          (build (votes'.votes.entries.map Prod.snd)).map some
        else .ok none) := by
  obtain ⟨hne, hother, -⟩ | ⟨heq, hknown, hcollect⟩ | ⟨-, hnew, hcollect⟩ :=
    hvotes.collect_cases hack hsender build
  · exact absurd hsame (not_or.mpr ⟨hne, hother⟩)
  · have hmem : sender ∈ votes.senders := Votes.mem_senders.mpr ⟨ack, hknown⟩
    refine ⟨votes, hvotes, heq, (Finset.insert_eq_of_mem hmem).symm, ?_⟩
    rw [if_neg fun h ↦ h.1 hmem]
    exact hcollect
  · have hsound := hvotes.collect hdigest hack hsender build
    have hfresh : sender ∉ votes.senders := by simp [Votes.mem_senders, hnew]
    rw [hcollect] at hsound
    refine ⟨_, hsound, rfl, Votes.senders_insert, ?_⟩
    rw [hcollect, Votes.card_senders]
    by_cases hcount : (votes.votes.insert sender ack).entries.length <
        slowQuorumSize plan.request.base.voters.length
    · rw [if_pos hcount, if_neg fun h ↦ absurd h.2 (not_le.mpr hcount)]
    · rw [if_neg hcount, if_pos ⟨hfresh, not_lt.mp hcount⟩]

end Votes

/-! ### What a valid certificate says -/

section Quorums

variable {plan : VoterPlan} {votes : Votes}

theorem Votes.Sound.attests (hvotes : votes.Sound plan) :
    ∀ ack ∈ votes.votes.entries.map Prod.snd, Attests plan votes.digest ack := by
  intro ack hack
  obtain ⟨⟨sender, _⟩, hentry, rfl⟩ := List.mem_map.mp hack
  exact (hvotes sender _ ((FiniteMap.mem_entries ..).mp hentry)).2.2

/-- Each acknowledgement is kept under the replica of its voter. -/
theorem Votes.Sound.senders (hvotes : votes.Sound plan) :
    (votes.votes.entries.map Prod.snd).map (fun ack ↦ ack.voter.replica) = votes.votes.keys := by
  rw [List.map_map, FiniteMap.keys]
  refine List.map_congr_left fun entry hentry ↦ ?_
  exact (hvotes entry.1 entry.2 ((FiniteMap.mem_entries ..).mp hentry)).2.1

/-- Collected acknowledgements can be certified exactly if they are as many as a slow quorum has,
and the source is among them where it is required. -/
theorem Votes.Sound.quorum_iff (hvotes : votes.Sound plan)
    {domainDigest : String → Bytes → StateDigest}
    (hplan : validateVoterPlan domainDigest plan = .ok ()) (requireSource : Bool) :
    validateAcknowledgements plan votes.digest
        (sortAcknowledgements (votes.votes.entries.map Prod.snd)) requireSource = .ok () ↔
      votes.senders.card = slowQuorumSize plan.request.base.voters.length ∧
        (requireSource = true → plan.request.source ∈ votes.senders) := by
  have hbound : slowQuorumSize plan.request.base.voters.length ≤ maxBootstrapVoters := by
    have hvoters := (valid_of_validate hplan).length_lt
    simp only [slowQuorumSize, maxBootstrapVoters]
    omega
  rw [validateAcknowledgements_sorted_iff (valid_of_validate hplan).identities hvotes.attests
    (hvotes.senders ▸ votes.votes.nodup_keys) hbound, List.length_map, hvotes.senders,
    Votes.card_senders, Votes.senders, List.mem_toFinset]

end Quorums

section Certificates

variable {codec : Codec} {plan : VoterPlan} {snapshot : SnapshotCertificate}

theorem Codec.snapshot_digest_ne_zero
    (hvalid : validateSnapshotCertificate codec.domainDigest plan snapshot = .ok ()) :
    snapshot.digest ≠ 0 := by
  rw [validateSnapshotCertificate, bind_eq_ok] at hvalid
  obtain ⟨canonical, hbuild, hsame⟩ := hvalid
  rw [refuseIf_eq_ok] at hsame
  have hdigest : canonical.digest = snapshot.digest := by simpa using hsame
  rw [buildSnapshotCertificate, unit_bind_eq_ok, unit_bind_eq_ok] at hbuild
  obtain rfl := Except.ok.inj hbuild.2.2
  rw [← hdigest]
  exact codec.digest_ne_zero _ _

/-- The parts of a valid ready certificate. -/
theorem Codec.ready_valid {ready : ReadyCertificate}
    (hvalid : validateReadyCertificate codec.domainDigest plan snapshot ready = .ok ()) :
    validateVoterReadyProof plan snapshot ready.proof = .ok () ∧ snapshot.digest ≠ 0 ∧
      ready.digest ≠ 0 := by
  rw [validateReadyCertificate, mapError_eq_ok, refuseIf_bind_eq_ok, unit_bind_eq_ok,
    bind_eq_ok] at hvalid
  obtain ⟨-, hproof, canonical, hbuild, hsame⟩ := hvalid
  have hdigest : canonical.digest = ready.digest := by simpa [refuseIf_eq_ok] using hsame
  rw [buildReadyCertificate, refuseIf_bind_eq_ok, unit_bind_eq_ok] at hbuild
  obtain ⟨hshape, -, hcanonical⟩ := hbuild
  obtain rfl := Except.ok.inj hcanonical
  refine ⟨hproof, fun hzero ↦ ?_, hdigest ▸ codec.digest_ne_zero _ _⟩
  simp only [validateVoterReadyProof, refuseIf_eq_ok, Bool.or_eq_false_iff,
    decide_eq_false_iff_not, not_not] at hproof hshape
  exact hshape.1.1.1.2 (hproof.1.1.1.1.1.2.trans hzero)

end Certificates

/-- Votes for a snapshot are certified exactly if they are as many as a slow quorum has, and the
source is among them. -/
theorem Votes.Sound.buildSnapshot_iff {codec : Codec} {plan : VoterPlan} {votes : Votes}
    (hvotes : votes.Sound plan) (hplan : validateVoterPlan codec.domainDigest plan = .ok ())
    {descriptor : SnapshotDescriptor}
    (hdescriptor : validateSnapshotDescriptor codec.domainDigest plan descriptor = .ok ())
    (hdigest : votes.digest = digestSnapshotDescriptor codec.domainDigest descriptor) :
    (∃ certificate, buildSnapshotCertificate codec.domainDigest plan descriptor
        (votes.votes.entries.map Prod.snd) = .ok certificate) ↔
      votes.senders.card = slowQuorumSize plan.request.base.voters.length ∧
        plan.request.source ∈ votes.senders := by
  have hquorum := hvotes.quorum_iff hplan true
  simp only [true_implies] at hquorum
  rw [← hquorum, hdigest]
  constructor
  · rintro ⟨certificate, hbuild⟩
    rw [buildSnapshotCertificate, unit_bind_eq_ok, unit_bind_eq_ok] at hbuild
    exact hbuild.2.1
  · intro hvalid
    rw [buildSnapshotCertificate, hdescriptor]
    simp only [bind, Except.bind, hvalid]
    exact ⟨_, rfl⟩

/-- A slow quorum of acknowledgements of a valid proof is certified. -/
theorem Votes.Sound.buildReady {codec : Codec} {plan : VoterPlan} {votes : Votes}
    (hvotes : votes.Sound plan) (hplan : validateVoterPlan codec.domainDigest plan = .ok ())
    (hcount : votes.senders.card = slowQuorumSize plan.request.base.voters.length)
    {snapshot : SnapshotCertificate} {proof : VoterReadyProof}
    (hsnapshot : validateSnapshotCertificate codec.domainDigest plan snapshot = .ok ())
    (hproof : validateVoterReadyProof plan snapshot proof = .ok ())
    (hdigest : votes.digest = digestVoterReadyProof codec.domainDigest proof) :
    ∃ certificate, buildReadyCertificate codec.domainDigest plan proof
        (votes.votes.entries.map Prod.snd) = .ok certificate ∧
      validateReadyCertificate codec.domainDigest plan snapshot certificate = .ok () := by
  have hquorum := (hvotes.quorum_iff hplan false).mpr ⟨hcount, by simp⟩
  have hne := codec.snapshot_digest_ne_zero hsnapshot
  have hfloor : snapshot.descriptor.targetAllocatorFloor = plan.request.targetAllocatorFloor := by
    rw [validateSnapshotCertificate, buildSnapshotCertificate, bind_eq_ok] at hsnapshot
    obtain ⟨_, hbuild, -⟩ := hsnapshot
    rw [unit_bind_eq_ok, validateSnapshotDescriptor, refuseIf_bind_eq_ok] at hbuild
    have hshape := hbuild.1.1
    simp only [Bool.or_eq_false_iff, decide_eq_false_iff_not, not_not] at hshape
    tauto
  have hbuild : ∃ certificate, buildReadyCertificate codec.domainDigest plan proof
      (votes.votes.entries.map Prod.snd) = .ok certificate := by
    have hparts := hproof
    simp only [validateVoterReadyProof, refuseIf_eq_ok, Bool.or_eq_false_iff,
      decide_eq_false_iff_not, not_not] at hparts
    obtain ⟨⟨⟨⟨⟨⟨⟨⟨hcluster, hid⟩, htarget⟩, hof⟩, hinstalled⟩, -⟩, hallocator⟩, -⟩, hzero⟩ :=
      hparts
    rw [buildReadyCertificate, refuseIf_bind, ← hdigest]
    simp only [hcluster, hid, htarget, hof, hne, hinstalled, hallocator, hfloor, hquorum,
      bind, Except.bind]
    simp [hallocator ▸ hzero, ← hfloor]
    exact ⟨_, rfl⟩
  obtain ⟨certificate, hcertificate⟩ := hbuild
  exact ⟨certificate, hcertificate, validate_buildReady hproof hcertificate⟩

end MoreConsensus.Bootstrap
