import MoreConsensus.Bootstrap.Sound

/-!
# Certificates and the order of delivery

The coordinator of a plan gathers votes for a snapshot and acknowledgements of the target's proof as
they arrive. `VoterNode.certified_of_delivery` says when it ends with a certificate: for the proof,
always; for the snapshot, if and only if the source is among the first slow quorum of voters to
arrive. Otherwise the quorum is refused, the votes stay, and one more vote, be it the source's,
makes more than a slow quorum, which is refused as well (`deadlockedVotes`).
-/

set_option autoImplicit false

namespace MoreConsensus.Bootstrap

open Library

/-! ### The first quorum -/

/-- There are fewer than `size` voters at first and no fewer in the end, and the source is there as
soon as there are `size` of them. -/
def SourceFirst (size : ℕ) (source : ReplicaID) (senders : Finset ReplicaID)
    (later : List ReplicaID) : Prop :=
  senders.card < size ∧ size ≤ (senders ∪ later.toFinset).card ∧
    ∀ k, (senders ∪ (later.take k).toFinset).card = size →
      source ∈ senders ∪ (later.take k).toFinset

section SourceFirst

variable {size : ℕ} {source sender : ReplicaID} {senders : Finset ReplicaID}
  {later : List ReplicaID}

theorem union_toFinset_cons :
    senders ∪ (sender :: later).toFinset = insert sender senders ∪ later.toFinset := by
  rw [List.toFinset_cons, Finset.insert_union, Finset.union_insert]

theorem not_sourceFirst_nil : ¬ SourceFirst size source senders [] := by
  rintro ⟨hfew, hmany, -⟩
  rw [List.toFinset_nil, Finset.union_empty] at hmany
  exact absurd hmany (not_le.mpr hfew)

/-- A new voter makes the quorum, with the source. -/
theorem sourceFirst_cons_of_quorum (hnew : sender ∉ senders)
    (hcard : (insert sender senders).card = size) (hsource : source ∈ insert sender senders) :
    SourceFirst size source senders (sender :: later) := by
  have hgrown := Finset.card_insert_of_notMem hnew
  refine ⟨by omega, ?_, fun k hk ↦ ?_⟩
  · rw [union_toFinset_cons, ← hcard]
    exact Finset.card_le_card Finset.subset_union_left
  · cases k with
    | zero =>
      rw [List.take_zero, List.toFinset_nil, Finset.union_empty] at hk
      omega
    | succ k =>
      rw [List.take_succ_cons, union_toFinset_cons]
      exact Finset.mem_union_left _ hsource

/-- Any other voter leaves it to those who follow. -/
theorem sourceFirst_cons_iff (hrefused : ¬ (sender ∉ senders ∧
      (insert sender senders).card = size ∧ source ∈ insert sender senders)) :
    SourceFirst size source senders (sender :: later) ↔
      SourceFirst size source (insert sender senders) later := by
  have hgrows := Finset.card_le_card (Finset.subset_insert sender senders)
  constructor
  · rintro ⟨hfew, hmany, hfirst⟩
    refine ⟨?_, union_toFinset_cons ▸ hmany, fun k hk ↦ ?_⟩
    · by_contra hquorum
      have hnew : sender ∉ senders := fun hmem ↦ by
        rw [Finset.insert_eq_of_mem hmem] at hquorum
        exact hquorum hfew
      have hcard := Finset.card_insert_of_notMem hnew
      have hexact : (insert sender senders).card = size := by omega
      have hsource := hfirst 1
      rw [List.take_succ_cons, union_toFinset_cons, List.take_zero, List.toFinset_nil,
        Finset.union_empty] at hsource
      exact hrefused ⟨hnew, hexact, hsource hexact⟩
    · have hlater := hfirst (k + 1)
      rw [List.take_succ_cons, union_toFinset_cons] at hlater
      exact hlater hk
  · rintro ⟨hfew, hmany, hfirst⟩
    refine ⟨lt_of_le_of_lt hgrows hfew, union_toFinset_cons ▸ hmany, fun k hk ↦ ?_⟩
    cases k with
    | zero =>
      rw [List.take_zero, List.toFinset_nil, Finset.union_empty] at hk
      omega
    | succ k =>
      rw [List.take_succ_cons, union_toFinset_cons] at hk ⊢
      exact hfirst k hk

end SourceFirst

/-! ### Valid messages -/

/-- A message as the transport hands it over. -/
def BootstrapMessage.delivery (message : BootstrapMessage) : VoterNode.VoterCall :=
  .stepBootstrap message ⟨message.sender, message.senderIncarnation⟩

namespace VoterNode

/-- A vote for a snapshot that passes all checks of the node. -/
def ValidVote (node : VoterNode) (state : BootstrapState) (descriptor : SnapshotDescriptor)
    (message : BootstrapMessage) : Prop :=
  message.type = .snapshotVote ∧
    node.admitBootstrap message ⟨message.sender, message.senderIncarnation⟩ = .ok state ∧
    ∃ ack, message.payload = .vote descriptor ack ∧
      node.admitSnapshotVote state message.sender descriptor ack = .ok ()

/-- An acknowledgement of the target's proof that passes all checks of the node. -/
def ValidReadyAck (node : VoterNode) (state : BootstrapState) (message : BootstrapMessage) : Prop :=
  message.type = .readyAck ∧
    node.admitBootstrap message ⟨message.sender, message.senderIncarnation⟩ = .ok state ∧
    ∃ ack, message.payload = .acknowledgement ack ∧
      node.admitReadyAck state message.sender ack = .ok ()

variable {node : VoterNode} {state : BootstrapState} {message : BootstrapMessage}
  {authenticated : VoterIdentity}

/-- All messages that are admitted for the state of a plan are about that plan. -/
theorem plan_of_admitBootstrap {id : BootstrapID}
    (hnode : node.Sound)
    (hstate : node.plans.get? id = some state)
    (hadmitted : node.admitBootstrap message authenticated = .ok state) : message.plan = id :=
  (hnode _ _ (get_of_admitBootstrap hadmitted)).1.trans (hnode _ _ hstate).1.symm

/-- A message that is admitted is admitted for the state of its plan. -/
theorem admitBootstrap_of_get
    (hstate : node.plans.get? message.plan = some state)
    (hadmitted : (node.admitBootstrap message authenticated).toOption.isSome = true) :
    node.admitBootstrap message authenticated = .ok state := by
  cases hresult : node.admitBootstrap message authenticated with
  | error fault => simp [hresult, Except.toOption] at hadmitted
  | ok known =>
    have hknown := get_of_admitBootstrap hresult
    rw [hstate] at hknown
    rw [Option.some.inj hknown]

/-- Whether a vote passes the checks does not depend on the votes collected so far. -/
theorem admitBootstrap_collected {id : BootstrapID} {state' : BootstrapState} (hnode : node.Sound)
    (hstate : node.plans.get? id = some state)
    (hadmitted : node.admitBootstrap message authenticated = .ok state)
    (hrecord : state'.record = state.record) :
    { node with plans := node.plans.insert id state' }.admitBootstrap message authenticated =
      .ok state' := by
  have hget : (node.plans.insert id state').get? message.plan = some state' := by
    rw [plan_of_admitBootstrap hnode hstate hadmitted]
    exact FiniteMap.get?_insert_self ..
  simp only [admitBootstrap, get_of_admitBootstrap hadmitted, refuseIf_bind_eq_ok] at hadmitted
  obtain ⟨hauth, hreceiver, hmessage, hidentity, haborted, hactivated, -⟩ := hadmitted
  simp only [admitBootstrap, hget, refuseIf_bind_eq_ok, bootstrapMessageIdentity, hrecord]
  exact ⟨hauth, hreceiver, hmessage, hidentity, haborted, hactivated, rfl⟩

/-- Calls that change nothing one by one change nothing. -/
theorem run_of_unchanged {calls : List VoterCall}
    (hcalls : ∀ c ∈ calls, (node.call c).1 = node) : node.run calls = node := by
  induction calls with
  | nil => rfl
  | cons c rest ih =>
    rw [run, List.foldl_cons, hcalls c List.mem_cons_self]
    exact ih fun c' hc' ↦ hcalls c' (List.mem_cons_of_mem _ hc')

/-! ### Acknowledgements of the target's proof -/

/-- The node has a valid certificate of a proof. -/
def ReadyCertified (node : VoterNode) (id : BootstrapID) (proof : VoterReadyProof) : Prop :=
  ∃ state, node.plans.get? id = some state ∧ state.record.readyCertificate.proof = proof ∧
    validateReadyCertificate node.codec.domainDigest state.record.plan
      state.record.snapshotCertificate state.record.readyCertificate = .ok ()

section Ready

variable {id : BootstrapID}

/-- A valid acknowledgement is collected, and a slow quorum of them certified. -/
theorem call_readyAck (hnode : node.Sound) (hstate : node.plans.get? id = some state)
    (htarget : state.record.targetReady.plan = state.record.plan.request.plan)
    (hnone : state.record.readyCertificate.digest = 0) (hvalid : node.ValidReadyAck state message) :
    ∃ votes : Votes, votes.senders = insert message.sender state.readyVotes.senders ∧
      ((node.call message.delivery).1 =
          { node with plans := node.plans.insert id { state with readyVotes := votes } } ∨
        (node.call message.delivery).1.ReadyCertified id state.record.targetReady.proof) := by
  obtain ⟨rfl, hsound⟩ := hnode id state hstate
  obtain ⟨htype, hadmitted, ack, hpayload, hack⟩ := hvalid
  have hplan := (valid_of_validate hsound.plan).named
  have hset : state.record.targetReady ≠ {} := fun hzero ↦ hplan (by rw [← htarget, hzero])
  have hcall : node.call message.delivery = node.handleReadyAck state message.sender ack := by
    simp only [call, BootstrapMessage.delivery, stepBootstrapAuthenticated, hadmitted, attempt,
      handleBootstrap, htype, hpayload, hack]
    simp [htarget, hset]
  obtain ⟨votes, -, -, hsenders, houtcome⟩ := hsound.collectReady (htarget ▸ hplan) hnone hack
  refine ⟨votes, hsenders, ?_⟩
  rw [hcall, handleReadyAck, if_neg (not_not.mpr hnone)]
  obtain ⟨-, hcollect⟩ | ⟨-, certificate, hcollect, hproof, hready⟩ := houtcome
  · rw [hcollect]
    exact .inl rfl
  · rw [hcollect]
    exact .inr ⟨_, FiniteMap.get?_insert_self .., hproof, hready⟩

/-- Once there is a certificate, nothing changes any more. -/
theorem call_readyAck_certified (htype : message.type = .readyAck)
    (hcertified : ∀ state, node.plans.get? message.plan = some state →
      state.record.readyCertificate.digest ≠ 0) : (node.call message.delivery).1 = node := by
  refine attempt_ind (P := fun result ↦ result = node) rfl fun state hadmitted ↦ ?_
  have hne := hcertified state (get_of_admitBootstrap hadmitted)
  rw [handleBootstrap, htype]
  dsimp only
  split
  · rfl
  · split
    · refine attempt_ind (P := fun result ↦ result = node) rfl fun _ _ ↦ ?_
      rw [handleReadyAck]
      dsimp only
      rw [if_pos hne]
    · rfl

/-- A slow quorum of acknowledgements ends in a certificate, in whatever order and how often they
are delivered. -/
theorem readyCertified_run {messages : List BootstrapMessage}
    (hnode : node.Sound) (hstate : node.plans.get? id = some state)
    (htarget : state.record.targetReady.plan = state.record.plan.request.plan)
    (hnone : state.record.readyCertificate.digest = 0)
    (hvalid : ∀ m ∈ messages, node.ValidReadyAck state m)
    (hquorum : slowQuorumSize state.record.plan.request.base.voters.length ≤
      (state.readyVotes.senders ∪ (messages.map BootstrapMessage.sender).toFinset).card) :
    (node.run (messages.map BootstrapMessage.delivery)).ReadyCertified id
      state.record.targetReady.proof := by
  induction messages generalizing node state with
  | nil =>
    have hfew := ((hnode.get hstate).readies hnone).2.2
    rw [← Votes.card_senders] at hfew
    simp only [List.map_nil, List.toFinset_nil, Finset.union_empty] at hquorum
    exact absurd hquorum (not_le.mpr hfew)
  | cons message rest ih =>
    obtain ⟨votes, hsenders, hcall⟩ :=
      call_readyAck hnode hstate htarget hnone (hvalid message List.mem_cons_self)
    have hnext := hnode.call message.delivery
    rw [List.map_cons, run, List.foldl_cons]
    obtain hcall | hcertified := hcall
    · rw [hcall] at hnext ⊢
      have hget : (node.plans.insert id { state with readyVotes := votes }).get? id =
        some { state with readyVotes := votes } := FiniteMap.get?_insert_self ..
      have hcertified := ih hnext hget htarget hnone (fun m hm ↦ ?_) ?_
      · exact hcertified
      · obtain ⟨htype, hadmitted, hpayload⟩ := hvalid m (List.mem_cons_of_mem _ hm)
        exact ⟨htype, admitBootstrap_collected hnode hstate hadmitted rfl, hpayload⟩
      · rw [hsenders, Finset.insert_union, ← Finset.union_insert, ← List.toFinset_cons]
        exact hquorum
    · -- the certificate is there, and the rest of the acknowledgements finds it
      rw [← run, run_of_unchanged fun c hc ↦ ?_]
      · exact hcertified
      · obtain ⟨m, hm, rfl⟩ := List.mem_map.mp hc
        obtain ⟨htype, hadmitted, -⟩ := hvalid m (List.mem_cons_of_mem _ hm)
        refine call_readyAck_certified htype fun state' hstate' ↦ ?_
        obtain ⟨certified, hget, -, hready⟩ := hcertified
        rw [plan_of_admitBootstrap hnode hstate hadmitted, hget] at hstate'
        obtain rfl := Option.some.inj hstate'
        exact (Codec.ready_valid hready).2.2

end Ready

/-! ### Votes for a snapshot -/

/-- The node has a valid certificate of a snapshot. -/
def SnapshotCertified (node : VoterNode) (id : BootstrapID) (descriptor : SnapshotDescriptor) :
    Prop :=
  ∃ state, node.plans.get? id = some state ∧
    state.record.snapshotCertificate.descriptor = descriptor ∧
    validateSnapshotCertificate node.codec.domainDigest state.record.plan
      state.record.snapshotCertificate = .ok ()

section Snapshot

variable {id : BootstrapID} {descriptor : SnapshotDescriptor}

/-- What a closure reports depends on the record of the plan and the instances in memory. -/
theorem bootstrapClosure_congr {node' : VoterNode} {state' : BootstrapState} {plan : VoterPlan}
    (hstate : node.plans.get? plan.request.plan = some state)
    (hstate' : node'.plans.get? plan.request.plan = some state')
    (hrecord : state'.record = state.record) (hraw : node'.raw = node.raw) :
    node'.bootstrapClosure plan = node.bootstrapClosure plan := by
  simp only [bootstrapClosure, planState, hstate, hstate', Option.filter_some, hrecord, hraw]
  by_cases hplan : voterPlanEqual state.record.plan plan = true
  · simp only [hplan, if_true, Option.filter_some, hrecord]
    by_cases hfence : state.record.fenceQuorum.digest = 0
    · simp [hfence]
    · simp [hfence, hrecord]
  · simp only [hplan, Bool.false_eq_true, if_false]

/-- The voters of a slow quorum that certifies a snapshot: there are exactly as many as a slow
quorum has, and the source is one of them. -/
def Certifies (state : BootstrapState) (senders : Finset ReplicaID) : Prop :=
  senders.card = slowQuorumSize state.record.plan.request.base.voters.length ∧
    state.record.plan.request.source ∈ senders

/-- A valid vote is collected. It is certified with the others if it is the new one that makes a
slow quorum with the source, and only kept otherwise. -/
theorem call_snapshotVote (hnode : node.Sound) (hstate : node.plans.get? id = some state)
    (hclosure : (node.bootstrapClosure state.record.plan).complete = true)
    (hnone : state.record.snapshotCertificate.digest = 0)
    (hsame : state.snapshotVotes.digest = 0 ∨ state.snapshotVotes.digest =
      digestSnapshotDescriptor node.codec.domainDigest descriptor)
    (hvalid : node.ValidVote state descriptor message) :
    ∃ votes : Votes, votes.senders = insert message.sender state.snapshotVotes.senders ∧
      votes.digest = digestSnapshotDescriptor node.codec.domainDigest descriptor ∧
      ((message.sender ∉ state.snapshotVotes.senders ∧ Certifies state votes.senders ∧
          (node.call message.delivery).1.SnapshotCertified id descriptor) ∨
        ¬ (message.sender ∉ state.snapshotVotes.senders ∧ Certifies state votes.senders) ∧
          (node.call message.delivery).1 =
            { node with plans := node.plans.insert id { state with snapshotVotes := votes } }) := by
  obtain ⟨rfl, hsound⟩ := hnode id state hstate
  obtain ⟨htype, hadmitted, ack, hpayload, hvote⟩ := hvalid
  have hcall : node.call message.delivery =
      node.handleSnapshotVote state message.sender descriptor ack := by
    simp only [call, BootstrapMessage.delivery, stepBootstrapAuthenticated, hadmitted, attempt,
      handleBootstrap, htype, hpayload, hvote, closureComplete, hclosure]
    rfl
  obtain ⟨hsender, hattests, hdescriptor⟩ := attests_of_admitSnapshotVote hvote
  obtain ⟨votes, hvotes, hdigest, hsenders, hcollect⟩ := (hsound.snapshots hnone).collect_same hsame
    (node.codec.digest_ne_zero _ _) hattests hsender
    (buildSnapshotCertificate node.codec.domainDigest state.record.plan descriptor)
  have hbuilds := hvotes.buildSnapshot_iff hsound.plan hdescriptor hdigest
  refine ⟨votes, hsenders, hdigest, ?_⟩
  rw [hcall, handleSnapshotVote, if_neg (not_not.mpr hnone), collectSnapshot, hcollect]
  by_cases hcertifies : message.sender ∉ state.snapshotVotes.senders ∧ Certifies state votes.senders
  · obtain ⟨certificate, hbuild⟩ := hbuilds.mpr hcertifies.2
    rw [if_pos ⟨hcertifies.1, hcertifies.2.1.ge⟩, hbuild]
    exact .inl ⟨hcertifies.1, hcertifies.2, _, FiniteMap.get?_insert_self ..,
      descriptor_of_buildSnapshot hbuild, validate_buildSnapshot hbuild⟩
  · refine .inr ⟨hcertifies, ?_⟩
    split_ifs with hquorum
    · cases hbuild : buildSnapshotCertificate node.codec.domainDigest state.record.plan descriptor
          (votes.votes.entries.map Prod.snd) with
      | error fault => rfl
      | ok certificate => exact absurd ⟨hquorum.1, hbuilds.mp ⟨_, hbuild⟩⟩ hcertifies
    · rfl

/-- Once there is a certificate, nothing changes any more. -/
theorem call_snapshotVote_certified (htype : message.type = .snapshotVote)
    (hcertified : ∀ state, node.plans.get? message.plan = some state →
      state.record.snapshotCertificate.digest ≠ 0) : (node.call message.delivery).1 = node := by
  refine attempt_ind (P := fun result ↦ result = node) rfl fun state hadmitted ↦ ?_
  have hne := hcertified state (get_of_admitBootstrap hadmitted)
  rw [handleBootstrap.eq_def, htype]
  cases message.payload with
  | vote descriptor ack =>
    refine attempt_ind (P := fun result ↦ result = node) rfl fun _ _ ↦ ?_
    refine attempt_ind (P := fun result ↦ result = node) rfl fun _ _ ↦ ?_
    rw [handleSnapshotVote]
    dsimp only
    rw [if_pos hne]
  | _ => exact attempt_ind (P := fun result ↦ result = node) rfl fun _ _ ↦ rfl

/-- Votes end in a certificate exactly if the source is among the first slow quorum of voters. -/
theorem snapshotCertified_run_iff {messages : List BootstrapMessage} (hnode : node.Sound)
    (hstate : node.plans.get? id = some state)
    (hclosure : (node.bootstrapClosure state.record.plan).complete = true)
    (hnone : state.record.snapshotCertificate.digest = 0)
    (hsame : state.snapshotVotes.digest = 0 ∨ state.snapshotVotes.digest =
      digestSnapshotDescriptor node.codec.domainDigest descriptor)
    (hvalid : ∀ m ∈ messages, node.ValidVote state descriptor m) :
    (node.run (messages.map BootstrapMessage.delivery)).SnapshotCertified id descriptor ↔
      SourceFirst (slowQuorumSize state.record.plan.request.base.voters.length)
        state.record.plan.request.source state.snapshotVotes.senders
        (messages.map BootstrapMessage.sender) := by
  induction messages generalizing node state with
  | nil =>
    refine iff_of_false ?_ not_sourceFirst_nil
    rintro ⟨certified, hget, -, hcertificate⟩
    obtain rfl := Option.some.inj (hstate.symm.trans hget)
    exact Codec.snapshot_digest_ne_zero hcertificate hnone
  | cons message rest ih =>
    obtain ⟨votes, hsenders, hdigest, hcall⟩ := call_snapshotVote hnode hstate hclosure hnone hsame
      (hvalid message List.mem_cons_self)
    have hnext := hnode.call message.delivery
    rw [List.map_cons, List.map_cons, run, List.foldl_cons]
    rw [Certifies, hsenders] at hcall
    obtain ⟨hnew, ⟨hcard, hsource⟩, hcertified⟩ | ⟨hrefused, hcall⟩ := hcall
    · -- the certificate is there, and the rest of the votes finds it
      rw [← run, run_of_unchanged fun c hc ↦ ?_]
      · exact iff_of_true hcertified (sourceFirst_cons_of_quorum hnew hcard hsource)
      · obtain ⟨m, hm, rfl⟩ := List.mem_map.mp hc
        obtain ⟨htype, hadmitted, -⟩ := hvalid m (List.mem_cons_of_mem _ hm)
        refine call_snapshotVote_certified htype fun state' hstate' ↦ ?_
        obtain ⟨certified, hget, -, hvalid'⟩ := hcertified
        rw [plan_of_admitBootstrap hnode hstate hadmitted, hget] at hstate'
        obtain rfl := Option.some.inj hstate'
        exact Codec.snapshot_digest_ne_zero hvalid'
    · rw [sourceFirst_cons_iff hrefused, ← hsenders]
      rw [hcall] at hnext ⊢
      have hget : (node.plans.insert id { state with snapshotVotes := votes }).get? id =
        some { state with snapshotVotes := votes } := FiniteMap.get?_insert_self ..
      have hid := (hnode id state hstate).1
      refine ih hnext hget ?_ hnone (.inr hdigest) fun m hm ↦ ?_
      · have hnamed : node.plans.get? state.record.plan.request.plan = some state := hid ▸ hstate
        have hvoted : (node.plans.insert id { state with snapshotVotes := votes }).get?
            state.record.plan.request.plan = some { state with snapshotVotes := votes } := by
          rw [← hid]
          exact hget
        have hcongr : bootstrapClosure { node with
            plans := node.plans.insert id { state with snapshotVotes := votes } }
              state.record.plan = node.bootstrapClosure state.record.plan :=
          bootstrapClosure_congr hnamed hvoted rfl rfl
        exact (congrArg BootstrapClosureStatus.complete hcongr).trans hclosure
      · obtain ⟨htype, hadmitted, hpayload⟩ := hvalid m (List.mem_cons_of_mem _ hm)
        exact ⟨htype, admitBootstrap_collected hnode hstate hadmitted rfl, hpayload⟩

end Snapshot

/-! ### Both certificates -/

/-- A coordinator that is handed a slow quorum of valid messages ends with a certificate, in
whatever order and how often they arrive; for a snapshot it does so exactly if the vote of the
source is among the first slow quorum. -/
theorem certified_of_delivery {node : VoterNode} (hreach : Reachable node) {id : BootstrapID}
    {state : BootstrapState} (hstate : node.plans.get? id = some state) :
    (∀ (descriptor : SnapshotDescriptor) (messages : List BootstrapMessage),
      (node.bootstrapClosure state.record.plan).complete = true →
      state.record.snapshotCertificate.digest = 0 → state.snapshotVotes.digest = 0 →
      (∀ m ∈ messages, node.ValidVote state descriptor m) →
      slowQuorumSize state.record.plan.request.base.voters.length ≤
        (messages.map BootstrapMessage.sender).toFinset.card →
      ((node.run (messages.map BootstrapMessage.delivery)).SnapshotCertified id descriptor ↔
        ∀ k, ((messages.take k).map BootstrapMessage.sender).toFinset.card =
            slowQuorumSize state.record.plan.request.base.voters.length →
          state.record.plan.request.source ∈ (messages.take k).map BootstrapMessage.sender)) ∧
    ∀ messages : List BootstrapMessage,
      state.record.targetReady.plan = state.record.plan.request.plan →
      state.record.readyCertificate.digest = 0 →
      (∀ m ∈ messages, node.ValidReadyAck state m) →
      slowQuorumSize state.record.plan.request.base.voters.length ≤
        (messages.map BootstrapMessage.sender).toFinset.card →
      (node.run (messages.map BootstrapMessage.delivery)).ReadyCertified id
        state.record.targetReady.proof := by
  have hnode := hreach.sound
  refine ⟨fun descriptor messages hclosure hnone hvotes hvalid hquorum ↦ ?_,
    fun messages htarget hnone hvalid hquorum ↦ ?_⟩
  · -- without a digest there is no vote yet
    have hempty : state.snapshotVotes.senders = ∅ := by
      refine Finset.eq_empty_of_forall_notMem fun sender hsender ↦ ?_
      obtain ⟨ack, hack⟩ := Votes.mem_senders.mp hsender
      exact ((hnode.get hstate).snapshots hnone sender ack hack).1 hvotes
    rw [snapshotCertified_run_iff hnode hstate hclosure hnone (.inl hvotes) hvalid, hempty,
      SourceFirst]
    simp only [Finset.empty_union, ← List.map_take, List.mem_toFinset]
    exact ⟨fun hfirst ↦ hfirst.2.2, fun hfirst ↦ ⟨Nat.succ_pos _, hquorum, hfirst⟩⟩
  · exact readyCertified_run hnode hstate htarget hnone hvalid
      (hquorum.trans (Finset.card_le_card Finset.subset_union_right))

end VoterNode

/-! ### A plan among three voters -/

/-- A digest that counts bytes. -/
def lengthDigest : String → Bytes → StateDigest := fun _ bytes ↦ bytes.length + 1

/-- Commands are written as their numbers in a book. -/
def bookCodec (book : UInt8 → Option MembershipCommand) : Codec where
  domainDigest := lengthDigest
  encodePayload _ := some []
  encodeCommand command :=
    ([1, 2].find? fun code ↦ book code = some command).map fun code ↦ [code]
  decodeCommand bytes := match bytes with
    | [code] => book code
    | _ => none
  digest_ne_zero _ _ := by simp [lengthDigest]
  decode_encode command bytes hencode := by
    obtain ⟨code, hfind, rfl⟩ := Option.map_eq_some_iff.mp hencode
    simpa using List.find?_some hfind
  encode_length command bytes hencode := by
    obtain ⟨code, -, rfl⟩ := Option.map_eq_some_iff.mp hencode
    simp [maxBootstrapPayload]

/-- A plan of the first replica to add the ninth to some voters. -/
def ninthVoter (voters : List ReplicaID) : VoterPlan :=
  let plan : VoterPlan :=
    { request :=
        { cluster := 1, plan := 1, base := ⟨1, voters⟩
          oldVoters := voters.map fun voter ↦ ⟨voter, 1⟩
          target := ⟨9, 1⟩, source := 1, sourceDigest := 1, releaseDigest := 1
          targetAllocatorFloor := 1, timingDigest := 1 }
      reservations := ⟨⟨1, 1, 1⟩, ⟨1, 2, 1⟩, ⟨1, 3, 1⟩⟩
      successor := ⟨2, voters ++ [9]⟩ }
  { plan with requestDigest := digestVoterPlan lengthDigest plan }

/-- A codec that knows the Prepare and the Abort of a plan. -/
def planCodec (plan : VoterPlan) : Codec := bookCodec fun code ↦
  if code = 1 then some { operation := .prepare, plan := plan }
  else if code = 2 then some { operation := .abort, plan := plan }
  else none

/-- A voter of the base configuration of a plan, as it starts. -/
def voterAt (plan : VoterPlan) (voters : VoterSet) (id : ReplicaID) : Option VoterNode :=
  (RawNode.newRawNode id { cluster := true, decodeControl := (planCodec plan).control } voters
    { localVoter := ⟨plan.request.base, true⟩ }).bind fun raw ↦
      (VoterNode.boot (planCodec plan) plan.request.cluster ⟨id, 1⟩ plan.request.oldVoters raw
        []).toOption

theorem reachable_voterAt {plan : VoterPlan} {voters : VoterSet} {id : ReplicaID}
    {node : VoterNode} (hnode : voterAt plan voters id = some node) : node.Reachable := by
  obtain ⟨raw, hraw, hboot⟩ := Option.bind_eq_some_iff.mp hnode
  cases hresult : VoterNode.boot (planCodec plan) plan.request.cluster ⟨id, 1⟩
      plan.request.oldVoters raw [] with
  | error fault => rw [hresult] at hboot; cases hboot
  | ok booted =>
    rw [hresult] at hboot
    obtain rfl := Option.some.inj hboot
    exact .boot hraw rfl hresult

/-- A message about a plan. -/
def planMessage (plan : VoterPlan) (type : BootstrapMessageType) (sender receiver : ReplicaID)
    (payload : Payload) : BootstrapMessage :=
  { type := type, cluster := plan.request.cluster, plan := plan.request.plan, sender := sender
    senderIncarnation := 1, receiver := receiver, baseID := plan.request.base.id
    baseDigest := plan.requestDigest, payload := payload }

/-- The fence of a voter that has executed the Prepare and nothing else. -/
def preparedFence (plan : VoterPlan) (voter : ReplicaID) : LocalAdmissionFence :=
  let lanes := plan.request.base.voters.map fun replica ↦
    if replica = 1 then
      { replica := 1, observedThrough := 1, committedThrough := 1, executedThrough := 1
        sparse := [1] }
    else { replica := replica }
  let fence : LocalAdmissionFence :=
    { plan := plan.request.plan, base := plan.request.base, voter := ⟨voter, 1⟩
      reservations := plan.reservations, frontier := ⟨plan.request.base.id, lanes⟩ }
  { fence with digest := digestVoterFrontier lengthDigest fence }

def ninthOfThree : VoterPlan := ninthVoter [1, 2, 3]

/-- The first of three voters. -/
def coordinator : VoterNode := (voterAt ninthOfThree threeReplicas 1).get (by decide +kernel)

/-- The vote of the second replica for the Prepare. -/
def prepareVote : Message :=
  { type := .preAcceptResp, source := 2, target := 1, ref := ⟨1, 1, 1⟩, ballot := { replica := 1 }
    seq := 1, deps := [0, 0, 0], fastPathEligible := true }

/-- The coordinator after the Prepare is executed and stored. -/
def preparedCoordinator : VoterNode :=
  ((coordinator.call (.prepareVoter ninthOfThree.request)).1.flush.call
    (.node (.step prepareVote))).1.flush.flush

/-- The coordinator after two fences have arrived, its own and the one of the second replica. -/
def fencedCoordinator : VoterNode :=
  (preparedCoordinator.call (.beginVoterFence ninthOfThree)).1.flush.run
    ([1, 2].map fun voter ↦ (planMessage ninthOfThree .fenceAck voter 1
      (.fence (preparedFence ninthOfThree voter))).delivery)

theorem reachable_fencedCoordinator : fencedCoordinator.Reachable := by
  have hstart : coordinator.Reachable := reachable_voterAt (Option.some_get _).symm
  exact (((hstart.call _).flush.call _).flush.flush.call _).flush.run _

/-- A snapshot of the plan behind its fence. -/
def ninthSnapshot : SnapshotDescriptor :=
  let plan := ninthOfThree
  { cluster := 1, plan := 1, base := plan.request.base, successor := plan.successor
    target := plan.request.target, source := 1, reservations := plan.reservations
    fenceDigest := (buildFenceQuorum lengthDigest plan
      ([1, 2].map (preparedFence plan))).toOption.elim 0 FenceQuorum.digest
    frontier := (preparedFence plan 1).frontier, manifestDigest := 1, deltaRoot := 1
    applicationDigest := 1, idempotencyDigest := 1, configHistoryDigest := 1, instanceDigest := 1
    hardStateDigest := 1, compactionDigest := 1, installedStateDigest := 1
    targetAllocatorFloor := 1, timingDigest := 1, releaseDigest := 1 }

/-- The acknowledgement of a voter that a vote for the snapshot carries. -/
def snapshotAck (voter : ReplicaID) : VoterAcknowledgement :=
  ⟨⟨voter, 1⟩, digestSnapshotDescriptor lengthDigest ninthSnapshot⟩

def snapshotVote (voter : ReplicaID) : BootstrapMessage :=
  planMessage ninthOfThree .snapshotVote voter 1 (.vote ninthSnapshot (snapshotAck voter))

/-- What the target proves about the snapshot once votes of the first two replicas certify it. -/
def ninthProof : VoterReadyProof :=
  { cluster := 1, plan := 1, target := ⟨9, 1⟩
    snapshotDigest := (buildSnapshotCertificate lengthDigest ninthOfThree ninthSnapshot
      ([1, 2].map snapshotAck)).toOption.elim 0 SnapshotCertificate.digest
    installedStateDigest := 1, allocatorFloor := 1 }

/-- The coordinator after the target has proved that it is ready. -/
def readiedCoordinator : VoterNode :=
  ((fencedCoordinator.run (([1, 2].map snapshotVote).map BootstrapMessage.delivery)).call
    (.recordTargetReady ninthOfThree ninthProof)).1

def readyAck (voter : ReplicaID) : BootstrapMessage :=
  planMessage ninthOfThree .readyAck voter 1
    (.acknowledgement ⟨⟨voter, 1⟩, digestVoterReadyProof lengthDigest ninthProof⟩)

/-- What the three runs below come to. -/
theorem coordinator_checks :
    ((fencedCoordinator.plans.get? 1).isSome = true ∧
      (fencedCoordinator.bootstrapClosure ninthOfThree).complete = true ∧
      ∀ state ∈ fencedCoordinator.plans.get? 1, state.record.plan = ninthOfThree ∧
        state.record.snapshotCertificate.digest = 0 ∧ state.snapshotVotes.digest = 0 ∧
        ∀ voter ∈ [1, 2, 3],
          (fencedCoordinator.admitBootstrap (snapshotVote voter) ⟨voter, 1⟩).toOption.isSome =
            true ∧
          fencedCoordinator.admitSnapshotVote state voter ninthSnapshot (snapshotAck voter) =
            .ok ()) ∧
    (∀ state ∈ (fencedCoordinator.run
        (([2, 3, 1].map snapshotVote).map BootstrapMessage.delivery)).plans.get? 1,
      state.record.snapshotCertificate.digest = 0) ∧
    (readiedCoordinator.plans.get? 1).isSome = true ∧
    ∀ state ∈ readiedCoordinator.plans.get? 1, state.record.plan = ninthOfThree ∧
      state.record.targetReady = ⟨1, ninthProof⟩ ∧ state.record.readyCertificate.digest = 0 ∧
      ∀ voter ∈ [3, 2, 3],
        (readiedCoordinator.admitBootstrap (readyAck voter) ⟨voter, 1⟩).toOption.isSome = true ∧
        readiedCoordinator.admitReadyAck state voter
          ⟨⟨voter, 1⟩, digestVoterReadyProof lengthDigest ninthProof⟩ = .ok () := by
  decide +kernel

/-- The coordinator has its closure and no votes, and every voter can vote for the snapshot. -/
theorem fencedCoordinator_ready :
    ∃ state, fencedCoordinator.plans.get? 1 = some state ∧ state.record.plan = ninthOfThree ∧
      (fencedCoordinator.bootstrapClosure ninthOfThree).complete = true ∧
      state.record.snapshotCertificate.digest = 0 ∧ state.snapshotVotes.digest = 0 ∧
      ∀ voter ∈ [1, 2, 3],
        fencedCoordinator.ValidVote state ninthSnapshot (snapshotVote voter) := by
  obtain ⟨hsome, hclosure, hstates⟩ := coordinator_checks.1
  obtain ⟨state, hstate⟩ := Option.isSome_iff_exists.mp hsome
  obtain ⟨hplan, hnone, hvotes, hvoters⟩ := hstates state hstate
  refine ⟨state, hstate, hplan, hclosure, hnone, hvotes, fun voter hvoter ↦ ?_⟩
  obtain ⟨hadmitted, hvote⟩ := hvoters voter hvoter
  exact ⟨rfl, VoterNode.admitBootstrap_of_get hstate hadmitted, snapshotAck voter, rfl, hvote⟩

/-- A slow quorum of votes without the source is refused and kept, and then the vote of the source
is one too many: votes of all voters have arrived, and there is no certificate. -/
theorem deadlockedVotes :
    ∃ (node : VoterNode) (state : BootstrapState) (descriptor : SnapshotDescriptor)
      (messages : List BootstrapMessage),
      node.Reachable ∧ node.plans.get? 1 = some state ∧
      (node.bootstrapClosure state.record.plan).complete = true ∧
      state.record.snapshotCertificate.digest = 0 ∧ state.snapshotVotes.digest = 0 ∧
      (∀ m ∈ messages, node.ValidVote state descriptor m) ∧
      slowQuorumSize state.record.plan.request.base.voters.length ≤
        (messages.map BootstrapMessage.sender).toFinset.card ∧
      state.record.plan.request.source ∈ messages.map BootstrapMessage.sender ∧
      ¬ (node.run (messages.map BootstrapMessage.delivery)).SnapshotCertified 1 descriptor := by
  obtain ⟨state, hstate, hplan, hclosure, hnone, hvotes, hvalid⟩ := fencedCoordinator_ready
  have hrefused := coordinator_checks.2.1
  refine ⟨fencedCoordinator, state, ninthSnapshot, [2, 3, 1].map snapshotVote,
    reachable_fencedCoordinator, hstate, hplan ▸ hclosure, hnone, hvotes, fun m hm ↦ ?_, ?_, ?_,
    ?_⟩
  · obtain ⟨voter, hvoter, rfl⟩ := List.mem_map.mp hm
    have hall : ∀ voter ∈ [2, 3, 1], voter ∈ [1, 2, 3] := by decide
    exact hvalid voter (hall voter hvoter)
  · rw [hplan]
    decide
  · rw [hplan]
    decide
  · rintro ⟨certified, hget, -, hcertificate⟩
    exact Codec.snapshot_digest_ne_zero hcertificate (hrefused certified hget)

/-- The votes of the source and of another voter certify the snapshot, and the acknowledgements of
the other two voters certify that the target is ready. -/
theorem certified_of_delivery_ninth :
    (fencedCoordinator.run (([1, 2].map snapshotVote).map BootstrapMessage.delivery)
      ).SnapshotCertified 1 ninthSnapshot ∧
    (readiedCoordinator.run (([3, 2, 3].map readyAck).map BootstrapMessage.delivery)
      ).ReadyCertified 1 ninthProof := by
  constructor
  · obtain ⟨state, hstate, hplan, hclosure, hnone, hvotes, hvalid⟩ := fencedCoordinator_ready
    refine ((VoterNode.certified_of_delivery reachable_fencedCoordinator hstate).1 ninthSnapshot
      ([1, 2].map snapshotVote) (hplan ▸ hclosure) hnone hvotes (fun m hm ↦ ?_) ?_).mpr fun k ↦ ?_
    · obtain ⟨voter, hvoter, rfl⟩ := List.mem_map.mp hm
      have hall : ∀ voter ∈ [1, 2], voter ∈ [1, 2, 3] := by decide
      exact hvalid voter (hall voter hvoter)
    · rw [hplan]
      decide
    · rw [hplan]
      match k with
      | 0 => decide
      | 1 => decide
      | k + 2 => exact fun _ ↦ by simp [snapshotVote, planMessage, ninthOfThree, ninthVoter]
  · obtain ⟨hsome, hstates⟩ := coordinator_checks.2.2
    obtain ⟨state, hstate⟩ := Option.isSome_iff_exists.mp hsome
    obtain ⟨hplan, htarget, hnone, hvoters⟩ := hstates state hstate
    have hreach : readiedCoordinator.Reachable := (reachable_fencedCoordinator.run _).call _
    have hready := (VoterNode.certified_of_delivery hreach hstate).2 ([3, 2, 3].map readyAck)
      (by rw [htarget, hplan]; rfl) hnone (fun m hm ↦ ?_) (by rw [hplan]; decide)
    · rwa [htarget] at hready
    · obtain ⟨voter, hvoter, rfl⟩ := List.mem_map.mp hm
      obtain ⟨hadmitted, hack⟩ := hvoters voter hvoter
      exact ⟨rfl, VoterNode.admitBootstrap_of_get hstate hadmitted, _, rfl, hack⟩

end MoreConsensus.Bootstrap
