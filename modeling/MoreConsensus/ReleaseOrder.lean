import MoreConsensus.Conflicts.Coherence
import MoreConsensus.Script
import MoreConsensus.WaitingProposals

/-!
# The order in which deferred PreAccepts are released

A PreAccept whose processing time has not come waits in the queue of its domain, until the clock of
the domain has reached its time: the tick for logical time, the closed time for TOQ. Only PreAccepts
that are due later than the clock are queued, so over all calls they are taken in the order of
processing time, reference and sender, and none is taken twice (`preAccepts_released_in_order`).

No two PreAccepts of one queue differ only in their ballots, which the heaps compare last: every
queued PreAccept has its owner as its sender and the owner's initial ballot. A restart queues the
node's own waiting proposals with the ballots of the resident records, which stay at the initial
ballot while a restart resumes the other records (`Waits`).
-/

set_option autoImplicit false

namespace MoreConsensus

open Library

/-! ### Queues, clocks and what was taken -/

namespace Timing

/-- The clock of a domain. -/
def clock (t : Timing) : PreAcceptDomain → Option ℕ
  | .logical => some t.tick
  | .toq => t.closed

/-- The PreAccepts that were taken from the queue of a domain, in the order in which they were. -/
def released (t : Timing) (domain : PreAcceptDomain) : List Message :=
  (t.taken.filter fun entry ↦ entry.1 = domain).map Prod.snd

/-- What holds of the queues and of what was taken from them under some clocks. -/
structure Timely (clock : PreAcceptDomain → Option ℕ) (t : Timing) : Prop where
  inOrder : ∀ domain, InOrder Message.releaseRank Message.processAt (clock domain)
    (t.released domain) (t.deferred.queue domain)
  initial : ∀ domain, ∀ m ∈ t.deferred.queue domain,
    m.source = m.ref.replica ∧ m.ballot = { replica := m.ref.replica }

namespace Timely

variable {clock later : PreAcceptDomain → Option ℕ} {t u : Timing} {domain : PreAcceptDomain}
  {m : Message}

theorem thins (ht : Timely clock t) (hthins : t.Thins u) : Timely clock u := by
  refine ⟨fun domain ↦ ?_, fun domain m hm ↦ ht.initial domain m ((hthins.queue domain).subset hm)⟩
  have hreleased : u.released domain = t.released domain := by
    rw [released, hthins.taken, released]
  rw [hreleased]
  exact (ht.inOrder domain).shrink fun m hm ↦ (hthins.queue domain).subset hm

theorem raise (ht : Timely clock t)
    (hlater : ∀ domain, ∀ bound ∈ clock domain, ∃ next ∈ later domain, bound ≤ next) :
    Timely later t :=
  ⟨fun domain ↦ (ht.inOrder domain).raise (hlater domain), ht.initial⟩

/-- The order of release is strict in a queue: the ballots of its entries tell nothing more. -/
theorem pairwise (ht : Timely clock t) (domain : PreAcceptDomain) :
    (t.deferred.queue domain).Pairwise fun a b ↦ a.releaseRank < b.releaseRank := by
  refine (t.deferred.sorted domain).imp_of_mem fun {a b} ha hb hrank ↦ ?_
  have hless : a.releaseRank < b.releaseRank ∨
      a.releaseRank = b.releaseRank ∧ a.ballot < b.ballot := by
    change a.deferredRank < b.deferredRank at hrank
    simp only [Message.deferredRank, Message.releaseRank, Prod.Lex.toLex_lt_toLex,
      EmbeddingLike.apply_eq_iff_eq, Prod.mk.injEq] at hrank ⊢
    tauto
  refine hless.resolve_right ?_
  rintro ⟨heq, hballot⟩
  simp only [Message.releaseRank, EmbeddingLike.apply_eq_iff_eq, Prod.mk.injEq] at heq
  rw [(ht.initial domain a ha).2, (ht.initial domain b hb).2, heq.2.1] at hballot
  exact lt_irrefl _ hballot

theorem push (ht : Timely clock t)
    (hnew : t.deferred.index.get? (deferredKeys.key domain m) = none)
    (hlate : ∀ bound ∈ clock domain, bound < m.processAt)
    (hinitial : m.source = m.ref.replica ∧ m.ballot = { replica := m.ref.replica }) :
    Timely clock { t with deferred := t.deferred.push domain m hnew } := by
  have hmem : ∀ {other a}, a ∈ (t.deferred.push domain m hnew).queue other →
      other = domain ∧ a = m ∨ a ∈ t.deferred.queue other := fun ha ↦
    IndexedHeaps.mem_queue_push _ hnew ha
  refine ⟨fun other ↦ ?_, fun other a ha ↦ ?_⟩
  · by_cases hother : other = domain
    · subst hother
      refine (ht.inOrder other).add (a := m) (fun b hdue ↦ ?_) hlate fun b hb ↦
        (hmem hb).imp_left And.right
      exact Prod.Lex.toLex_lt_toLex.mpr (Or.inl hdue)
    · exact (ht.inOrder other).shrink fun a ha ↦ (hmem ha).resolve_left fun h ↦ hother h.1
  · rcases hmem ha with ⟨-, rfl⟩ | hold
    · exact hinitial
    · exact ht.initial other a hold

theorem take (ht : Timely clock t) {rest : List Message} {bound : ℕ}
    (hqueue : t.deferred.queue domain = m :: rest) (hbound : bound ∈ clock domain)
    (hdue : m.processAt ≤ bound) :
    Timely clock { t with deferred := t.deferred.detach (deferredKeys.key domain m)
                          taken := t.taken ++ [(domain, m)] } := by
  have hqueues : ∀ other, (t.deferred.detach (deferredKeys.key domain m)).queue other =
      if other = domain then rest else t.deferred.queue other := by
    intro other
    split_ifs with hother
    · subst hother
      exact t.deferred.queue_detach_head hqueue
    · exact t.deferred.queue_detach_of_ne m hother
  refine ⟨fun other ↦ ?_, fun other a ha ↦ ?_⟩
  · simp only [released, List.filter_append, List.map_append, hqueues]
    by_cases hother : other = domain
    · subst hother
      have hin := ht.inOrder other
      rw [hqueue] at hin
      have hsorted := ht.pairwise other
      rw [hqueue] at hsorted
      rw [if_pos rfl, List.filter_cons_of_pos (by simp)]
      exact hin.take (List.pairwise_cons.mp hsorted).1 hbound hdue
    · rw [if_neg hother, List.filter_cons_of_neg (by simpa using fun h ↦ hother h.symm),
        List.filter_nil, List.map_nil, List.append_nil]
      exact ht.inOrder other
  · refine ht.initial other a ?_
    change a ∈ (t.deferred.detach (deferredKeys.key domain m)).queue other at ha
    rw [hqueues] at ha
    split_ifs at ha with hother
    · rw [hother, hqueue]
      exact List.mem_cons_of_mem _ ha
    · exact ha

end Timely

theorem Thins.clock {t u : Timing} (hthins : t.Thins u) : u.clock = t.clock := by
  funext domain
  cases domain with
  | logical => exact congrArg some hthins.tick
  | toq => exact hthins.closed

end Timing

namespace RawNode

variable {n m : RawNode} {domain : PreAcceptDomain} {msg : Message}

/-- What holds of the queues of a node between its calls. -/
def Timely (n : RawNode) : Prop := n.plane.timing.Timely n.plane.timing.clock

theorem Timely.thins (hn : n.Timely) (hthins : n.plane.timing.Thins m.plane.timing) : m.Timely := by
  unfold Timely
  rw [hthins.clock]
  exact Timing.Timely.thins hn hthins

theorem Timely.shifts (hn : n.Timely) (hshifts : Shifts .handler n m) : m.Timely :=
  hn.thins hshifts.thins

theorem Timely.of_timing (hn : n.Timely) (htiming : m.plane.timing = n.plane.timing) :
    m.Timely := by
  unfold Timely
  rw [htiming]
  exact hn

/-! ### Queueing -/

theorem Timely.admitDeferredPreAccept (hn : n.Timely) (domain : PreAcceptDomain) (msg : Message)
    (hlate : ∀ bound ∈ n.plane.timing.clock domain, bound < msg.processAt)
    (hinitial : msg.source = msg.ref.replica ∧ msg.ballot = { replica := msg.ref.replica }) :
    (n.admitDeferredPreAccept domain msg).1.Timely := by
  unfold RawNode.admitDeferredPreAccept
  split
  · exact hn
  next hnew =>
  split
  · exact hn
  · exact Timing.Timely.push hn hnew hlate hinitial

theorem ballot_of_isInitialFor {ballot : Ballot} {replica : ReplicaID}
    (hinitial : ballot.isInitialFor replica = true) : ballot = { replica := replica } := by
  obtain ⟨epoch, number, owner⟩ := ballot
  simp only [Ballot.isInitialFor, Bool.and_eq_true, beq_iff_eq] at hinitial
  obtain ⟨⟨⟨-, rfl⟩, rfl⟩, rfl⟩ := hinitial
  rfl

/-- A PreAccept is queued when it is due later than the clock of its domain. -/
theorem Timely.deferPreAccept (hn : n.Timely) {result : RawNode × Option Err}
    (hsender : msg.ballot.isInitialFor msg.ref.replica = true → msg.source = msg.ref.replica)
    (hresult : n.deferPreAccept msg = some result) : result.1.Timely := by
  unfold RawNode.deferPreAccept at hresult
  dsimp only at hresult
  split at hresult
  · simp at hresult
  next hskip =>
  have hballot : msg.ballot.isInitialFor msg.ref.replica = true := by
    by_contra hballot
    exact hskip (by simp [hballot])
  have hinitial := And.intro (hsender hballot) (ballot_of_isInitialFor hballot)
  split at hresult
  · split at hresult
    · simp at hresult
    next hopen =>
    rw [← Option.some.inj hresult]
    refine hn.admitDeferredPreAccept .toq msg (fun bound hbound ↦ ?_) hinitial
    have hclosed : n.toqClosedThrough = some bound := hbound
    simpa [hclosed] using hopen
  split at hresult
  · next hlater =>
    rw [← Option.some.inj hresult]
    refine hn.admitDeferredPreAccept .logical msg (fun bound hbound ↦ ?_) hinitial
    have htick : n.tick = bound := Option.some.inj hbound
    simp only [Bool.and_eq_true, decide_eq_true_eq] at hlater
    exact htick ▸ hlater.2
  · simp at hresult

/-! ### Processing -/

/-- Whatever waits is taken in order, as long as only entries are taken that are due by a later
clock.
-/
theorem timely_processDeferred {clock : PreAcceptDomain → Option ℕ} {now limit : ℕ}
    (hlimit : limit ∈ clock domain) (hnow : now ≤ limit) (bound : ℕ) (state : RawNode × Option Err)
    (hstate : state.1.plane.timing.Timely clock) :
    (processDeferred domain now bound state).1.plane.timing.Timely clock ∧
      (processDeferred domain now bound state).1.plane.timing.clock =
        state.1.plane.timing.clock := by
  induction bound generalizing state with
  | zero => exact ⟨hstate, rfl⟩
  | succ bound ih =>
    obtain ⟨node, firstErr⟩ := state
    unfold RawNode.processDeferred
    split
    · exact ⟨hstate, rfl⟩
    next head hpeek =>
    split
    · exact ⟨hstate, rfl⟩
    next hdue =>
    obtain ⟨rest, hqueue⟩ : ∃ rest, node.deferred.queue domain = head :: rest :=
      List.head?_eq_some_iff.mp ((node.deferred.peek_eq domain).symm.trans hpeek)
    have htaken : (node.detachDeferredPreAcceptEntry domain head).plane.timing.Timely clock :=
      hstate.take hqueue hlimit ((not_lt.mp hdue).trans hnow)
    have hhandled : Shifts .handler (node.detachDeferredPreAcceptEntry domain head)
        ((node.detachDeferredPreAcceptEntry domain head).handleDeferred head).1 :=
      (Shifts.refl _).handleDeferred head
    have hrest := ih (((node.detachDeferredPreAcceptEntry domain head).handleDeferred head).1,
      firstErr.or ((node.detachDeferredPreAcceptEntry domain head).handleDeferred head).2)
      (htaken.thins hhandled.thins)
    exact ⟨hrest.1, hrest.2.trans hhandled.thins.clock⟩

/-- A clock sample takes what is due by it, and closes the time up to it. -/
theorem Timely.processTOQ (hn : n.Timely) (now : ℕ) : (n.processTOQ now).1.Timely := by
  unfold RawNode.processTOQ
  split
  · exact hn
  split
  · exact hn
  let sampled : RawNode := { n.beginDrive with toqLastNow := some now, toqSampleAvailable := true }
  let processed := (sampled.processDeferredPreAccepts .toq now).1
  let closed := processed.toqClosedThrough.elim now fun closed ↦ max closed now
  change ({ processed with toqClosedThrough := some closed }.runExecution).Timely
  let later : PreAcceptDomain → Option ℕ
    | .logical => some n.tick
    | .toq => some (n.toqClosedThrough.elim now fun closed ↦ max closed now)
  have hraised : sampled.plane.timing.Timely later := by
    refine Timing.Timely.raise hn fun domain bound hbound ↦ ?_
    cases domain with
    | logical => exact ⟨bound, hbound, le_rfl⟩
    | toq =>
      have hclosed : n.toqClosedThrough = some bound := hbound
      exact ⟨max bound now, by simp [later, hclosed], le_max_left ..⟩
  have hnow : ∃ limit ∈ later .toq, now ≤ limit := by
    cases hclosed : n.toqClosedThrough with
    | none => exact ⟨now, by simp [later, hclosed], le_rfl⟩
    | some bound => exact ⟨max bound now, by simp [later, hclosed], le_max_right ..⟩
  obtain ⟨limit, hlimit, hle⟩ := hnow
  obtain ⟨htimely, hclock⟩ := timely_processDeferred hlimit hle
    (sampled.deferred.heap .toq).len (sampled, none) hraised
  refine Timely.shifts (n := { processed with toqClosedThrough := some closed }) ?_ (Shifts.drive _)
  have hlater : ({ processed with toqClosedThrough := some closed } : RawNode).plane.timing.clock =
      later := by
    have htick : processed.tick = n.tick := Option.some.inj (congrFun hclock .logical)
    have hsame : processed.toqClosedThrough = n.toqClosedThrough := congrFun hclock .toq
    funext domain
    cases domain with
    | logical => exact congrArg some htick
    | toq => simp only [later, ← hsame]; rfl
  unfold Timely
  rw [hlater]
  exact ⟨htimely.inOrder, htimely.initial⟩

/-! ### Proposals -/

/-- A TOQ proposal is due later than the closed time. -/
theorem lt_nextTOQProcessAt {now processAt bound : ℕ}
    (hnext : n.nextTOQProcessAt now = .ok processAt) (hclosed : n.toqClosedThrough = some bound) :
    bound < processAt := by
  unfold nextTOQProcessAt at hnext
  split at hnext
  · simp at hnext
  dsimp only at hnext
  split at hnext
  · simp at hnext
  rw [hclosed] at hnext
  dsimp only at hnext
  split_ifs at hnext with hlater
  · exact Except.ok.inj hnext ▸ hlater
  · unfold checkedLogicalAdd at hnext
    split_ifs at hnext
    · simp at hnext
    · have hsucc : bound + 1 = processAt := Except.ok.inj hnext
      omega

theorem Timely.proposeTOQ (hn : n.Timely) {ref : InstanceRef} (howner : ref.replica = n.id)
    (nextInstance : InstanceNum) (value : EntryValue) {processAt : ℕ}
    (hlate : ∀ bound ∈ n.toqClosedThrough, bound < processAt) :
    (n.proposeTOQ ref nextInstance value processAt).1.Timely := by
  unfold RawNode.proposeTOQ
  extract_lets pending
  have hadmitted := hn.admitDeferredPreAccept .toq
      (n.messageFromRecord .preAccept n.id pending) hlate
    ⟨howner.symm, by simp [messageFromRecord, pending, howner]⟩
  split
  · next res err hres =>
    rw [hres] at hadmitted
    exact hadmitted
  · next res hres =>
    rw [hres] at hadmitted
    refine hadmitted.shifts (Shifts.schedule (Shifts.broadcastPreAccept (Shifts.enqueueRecord
      ((Shifts.installInstance ?_ ?_ (by exact .of_empty rfl rfl rfl) rfl).note rfl) _) _) _ _ _)
    · exact Shifts.refl res
    · simp [pending]

/-- A proposal gets a reference of the node's own. -/
theorem replica_of_nextLocalRef {ref : InstanceRef} {next : InstanceNum}
    (hnext : n.nextLocalRef = some (ref, next)) : ref.replica = n.id := by
  unfold nextLocalRef at hnext
  split_ifs at hnext
  obtain ⟨candidate, -, hpair⟩ := Option.map_eq_some_iff.mp hnext
  obtain ⟨rfl, -⟩ := Prod.mk.inj hpair
  rfl

theorem Timely.proposeEntry (hn : n.Timely) (value : EntryValue) :
    (n.proposeEntry value).1.Timely := by
  unfold RawNode.proposeEntry
  split
  · exact hn
  next ref nextInstance hnext =>
  split
  · exact hn
  split
  · exact hn
  split
  · exact hn
  next processAt htime =>
  split
  · next htoq =>
    simp only [Bool.and_eq_true, decide_eq_true_eq] at htoq
    refine hn.proposeTOQ (replica_of_nextLocalRef hnext) nextInstance value
      fun bound hbound ↦ ?_
    unfold proposalTime at htime
    simp only [htoq.1.1, htoq.1.2, htoq.2, decide_false, Bool.or_self, Bool.false_eq_true, if_false,
      if_true] at htime
    split_ifs at htime
    split at htime
    · simp at htime
    · exact lt_nextTOQProcessAt htime hbound
  · refine hn.shifts (Shifts.installProposal (Shifts.noteSkips ?_ _ _ _ _) (by simp))
    exact Shifts.refl n

theorem Timely.propose (hn : n.Timely) (cmd : Command) : (n.propose cmd).1.Timely := by
  unfold RawNode.propose
  split
  · exact hn
  · exact Timely.proposeEntry (n := n.beginDrive) hn _

theorem Timely.proposeConfChange (hn : n.Timely) (change : ConfChange) :
    (n.proposeConfChange change).1.Timely := by
  unfold RawNode.proposeConfChange
  split
  · exact hn
  split
  · exact hn
  split
  · exact hn
  have hproposed := Timely.proposeEntry (n := { n.beginDrive with pendingConf := true }) hn
    { kind := .confChange, confChange := change }
  split
  · next res err hres =>
    rw [hres] at hproposed
    exact hproposed
  · next res hres =>
    rw [hres] at hproposed
    exact hproposed

/-! ### Messages and ticks -/

theorem Timely.dispatch (hn : n.Timely) (hcontrol : msg.isCheckpointControl = false)
    (hsender : msg.type = .preAccept → msg.ballot.isInitialFor msg.ref.replica = true →
      msg.source = msg.ref.replica) : (n.dispatch msg).1.Timely := by
  by_cases htype : msg.type = .preAccept
  · unfold RawNode.dispatch
    rw [htype]
    dsimp only
    cases hdefer : n.deferPreAccept msg with
    | none => exact hn.shifts ((Shifts.refl n).handlePreAccept msg false)
    | some result => exact hn.deferPreAccept (hsender htype) hdefer
  · exact hn.shifts ((Shifts.refl n).dispatch_other htype hcontrol)

theorem Timely.step (hn : n.Timely) (msg : Message) : (n.step msg).1.Timely := by
  rcases Shifts.step_cases n msg with hshifts | ⟨round, localized, htakes⟩ | ⟨hchecks, hstep⟩
  · exact hn.shifts hshifts
  · rw [htakes]
    exact Timely.of_timing hn (Shifts.timing_modifyReady ..)
  · rw [hstep]
    refine Timely.dispatch (n := n.beginDrive) hn hchecks.protocol fun htype hballot ↦ ?_
    obtain ⟨conf, -, hvalid⟩ := hchecks.valid
    have hsender := Message.validSender_of_validate hvalid hchecks.protocol
    simpa [Message.validSender, htype, hballot] using hsender

theorem Timely.maybeScheduleCheckpointBarrier (hn : n.Timely) :
    n.maybeScheduleCheckpointBarrier.1.Timely := by
  unfold RawNode.maybeScheduleCheckpointBarrier
  dsimp only
  split
  · exact hn
  split
  · exact hn
  · exact hn.proposeEntry _

/-- A tick moves logical time, and takes what is due by it. -/
theorem Timely.advanceTick (hn : n.Timely) : n.advanceTick.1.Timely := by
  unfold RawNode.advanceTick
  split
  · exact hn
  next next hnext =>
  extract_lets started hardState ticked repeated
  have hraised : n.plane.timing.Timely ticked.plane.timing.clock := by
    refine Timing.Timely.raise hn fun domain bound hbound ↦ ?_
    cases domain with
    | logical =>
      have htick : n.tick = bound := Option.some.inj hbound
      refine ⟨next, rfl, ?_⟩
      unfold checkedLogicalAdd at hnext
      split_ifs at hnext
      have hsucc : n.tick + 1 = next := Option.some.inj hnext
      omega
    | toq => exact ⟨bound, hbound, le_rfl⟩
  have hticked : ticked.Timely := ⟨hraised.inOrder, hraised.initial⟩
  have hrepeated : Shifts .handler ticked repeated := by
    simp only [repeated]
    split
    · exact (Shifts.refl ticked).rebroadcastCommits.retryCheckpointControl
    · exact .refl ticked
  have hdue : next ∈ repeated.plane.timing.clock .logical := by
    rw [hrepeated.thins.clock]
    rfl
  let deferred := repeated.processDeferredPreAccepts .logical next
  let fired := RawNode.fireTimers deferred.1.timers.length deferred
  change fired.1.maybeScheduleCheckpointBarrier.1.runExecution.Timely
  obtain ⟨htimely, hclock⟩ := timely_processDeferred hdue le_rfl
    (repeated.deferred.heap .logical).len (repeated, none)
    (hticked.shifts hrepeated)
  have hdeferred : deferred.1.Timely := by
    unfold Timely
    rw [← hclock] at htimely
    exact htimely
  exact ((hdeferred.shifts (Shifts.fireTimers _
    (Shifts.refl deferred.1))).maybeScheduleCheckpointBarrier).shifts (Shifts.drive _)

/-! ### Calls -/

theorem timing_installInstance (n : RawNode) (inst : Instance) :
    (n.installInstance inst).plane.timing = n.plane.timing := by
  obtain ⟨node, hnode, hinst⟩ := Shifts.installInstance_eq n inst
  have htiming : node.plane.timing = n.plane.timing :=
    congrArg (fun f : Frame ↦ f.plane.timing) hnode
  rw [hinst]
  split_ifs <;> exact htiming

theorem Timely.provideRecordLoad (hn : n.Timely) (ref : InstanceRef)
    (found : Option LoadedRecord) : (n.provideRecordLoad ref found).1.Timely := by
  refine provideRecordLoad_keeps hn (fun rec hkey ↦ ?_) (fun rec hkey ↦ ?_)
    (fun node wait hwait hnode ↦ ?_) (fun node msg hnode ↦ hnode.step msg)
    (fun node node' hshifts hnode ↦ hnode.thins (Frame.Shifts.thins hshifts rfl)) found
  · exact hn.of_timing (timing_installInstance ..)
  · exact hn.of_timing (congrArg (fun f : Frame ↦ f.plane.timing) (Shifts.frame_setInstance ..) :)
  · exact hnode

theorem Timely.call (hn : n.Timely) (c : Call) : (n.call c).1.Timely := by
  have hrefl : Shifts .handler n n := Shifts.refl n
  cases c with
  | propose cmd => exact hn.propose cmd
  | proposeConfChange change => exact hn.proposeConfChange change
  | step msg => exact hn.step msg
  | tick => exact hn.advanceTick
  | processTOQ now => exact hn.processTOQ now
  | refreshTOQ runtime => exact hn.shifts (hrefl.refreshTOQConfig runtime)
  | ready =>
    unfold RawNode.call ready
    dsimp only
    split_ifs
    · exact hn
    · exact hn
  | advance rd => exact hn.thins ((n.turns_advance rd).thins rfl)
  | provideRecordLoad ref found => exact hn.provideRecordLoad ref found
  | provideCheckpoint result => exact hn.shifts (hrefl.provideCheckpoint result)
  | reserve membership floor => exact hn.of_timing (Shifts.timing_modifyReady ..)
  | publish records frontiers messages => exact hn.of_timing (Shifts.timing_modifyReady ..)
  | proposeMembershipAt ref control =>
    unfold RawNode.call
    dsimp only
    split
    · exact hn.shifts (Shifts.proposeMembershipAt (m := n.beginDrive) hrefl ref control)
    · exact hn
  | closeConfig refs => exact hn.shifts (hrefl.scheduleBootstrapClosure _)
  | recoverVoterControl ref =>
    unfold RawNode.call
    dsimp only
    split
    · exact hn.shifts (hrefl.recoverVoterControl ref)
    · exact hn

theorem Timely.run (hn : n.Timely) (calls : List Call) : (n.run calls).Timely := by
  induction calls generalizing n with
  | nil => exact hn
  | cons c rest ih => exact ih (hn.call c)

/-! ### Restarts -/

/-- What holds while a node takes its records up: nothing was taken from the queues, and only own
proposals that wait are in them. -/
structure Starting (id : ReplicaID) (n : RawNode) : Prop where
  waits : n.Waits id
  taken : n.taken = []
  initial : ∀ domain, ∀ m ∈ n.deferred.queue domain,
    m.source = m.ref.replica ∧ m.ballot = { replica := m.ref.replica }

namespace Starting

variable {id : ReplicaID} {n m : RawNode} {rec : InstanceRecord}

theorem timely (hn : n.Starting id) : n.Timely := by
  refine ⟨fun domain ↦ ?_, hn.initial⟩
  have hreleased : n.plane.timing.released domain = [] := by
    change (n.taken.filter _).map _ = _
    rw [hn.taken, List.filter_nil, List.map_nil]
  rw [hreleased]
  exact InOrder.nil _

theorem shifts (hn : n.Starting id) (hshifts : Shifts .handler n m) (hwaits : m.Waits id) :
    m.Starting id where
  waits := hwaits
  taken := hshifts.thins.taken.trans hn.taken
  initial := fun domain msg hmsg ↦ hn.initial domain msg ((hshifts.thins.queue domain).subset hmsg)

theorem still (hn : n.Starting id) (hstill : Still n m) (htaken : m.taken = n.taken)
    (hdeferred : m.deferred = n.deferred) : m.Starting id where
  waits := hn.waits.still hstill
  taken := htaken.trans hn.taken
  initial := hdeferred ▸ hn.initial

theorem awaits_loaded {conf : ConfState} (hnode : n.id = id) (hpending : rec.toqPending = true)
    (hvalid : n.validateStoredInstanceRecord rec conf = true) (howner : rec.ref.replica = n.id) :
    Awaits id (n.seedLocalRestartVote
      { record := rec, phase := n.restartPhase rec, processAt := rec.processAt }).settled := by
  have hsettled : ∀ inst : Instance, inst.settled.phase = inst.phase ∧
      inst.settled.record = inst.record := by
    intro inst
    unfold Instance.settled
    split_ifs <;> exact ⟨rfl, rfl⟩
  obtain ⟨hphase, hrecord⟩ := hsettled (n.seedLocalRestartVote
    { record := rec, phase := n.restartPhase rec, processAt := rec.processAt })
  rw [seedLocalRestartVote_record] at hrecord
  have hinitial : rec.ballot.isInitialFor rec.ref.replica = true := by
    simp only [validateStoredInstanceRecord, hpending, if_true, Bool.and_eq_true] at hvalid
    exact hvalid.2.1.1.2
  refine ⟨?_, ?_, ?_⟩
  · rw [hphase, (n.seedLocalRestartVote_keeps _).2]
    simp [restartPhase, hpending]
  · rw [hrecord, howner, hnode]
  · rw [hrecord, ballot_of_isInitialFor hinitial, howner, hnode]

theorem loadRecord (hn : n.Starting id) (hres : n.loadRecord rec = some m) : m.Starting id := by
  obtain ⟨conf, -, hload⟩ := Option.bind_eq_some_iff.mp hres
  obtain ⟨hvalid, hload⟩ := Option.ite_none_left_eq_some.mp hload
  obtain rfl := Option.some.inj hload
  simp only [Bool.or_eq_true, Bool.and_eq_true, Bool.not_eq_true', not_or, not_and,
    Bool.not_eq_false, decide_eq_true_eq, not_not] at hvalid
  let inst := n.seedLocalRestartVote
    { record := rec, phase := n.restartPhase rec, processAt := rec.processAt }
  have hinstalled : (n.installInstance inst).Starting id := by
    have htiming := timing_installInstance n inst
    have hdeferred : (n.installInstance inst).deferred = n.deferred :=
      congrArg Timing.deferred htiming
    refine ⟨hn.waits.installInstance fun hpending ↦ ?_,
      (congrArg Timing.taken htiming).trans hn.taken, hdeferred ▸ hn.initial⟩
    rw [seedLocalRestartVote_record] at hpending
    exact awaits_loaded hn.waits.node hpending hvalid.1.1 (hvalid.2 hpending).2
  have hmarked : ∀ node : RawNode, node.Starting id →
      (((node.observeInstanceRef rec.ref).closeTOQ rec).markPendingConf rec).Starting id := by
    intro node hnode
    have hobserved : (node.observeInstanceRef rec.ref).Starting id := by
      unfold observeInstanceRef
      split_ifs
      · exact hnode
      · exact hnode.still ⟨rfl, rfl⟩ rfl rfl
    have hclosed : ((node.observeInstanceRef rec.ref).closeTOQ rec).Starting id := by
      unfold closeTOQ
      split_ifs
      · exact hobserved.still ⟨rfl, rfl⟩ rfl rfl
      · exact hobserved
    unfold markPendingConf
    split_ifs
    · exact hclosed.still ⟨rfl, rfl⟩ rfl rfl
    · exact hclosed
  refine hmarked _ ?_
  split
  · exact hinstalled.still ⟨rfl, rfl⟩ rfl rfl
  · exact hinstalled

theorem restartTimer {state : RawNode × Option Err} (hstate : state.1.Starting id)
    (hres : restartTimer state = some m) : m.Starting id := by
  unfold RawNode.restartTimer at hres
  split at hres
  · exact Option.some.inj hres ▸ hstate
  · split at hres
    · exact Option.some.inj hres ▸ hstate
    · simp at hres

/-- A proposal that waits is queued at its initial ballot, and no other record's phase touches
it. -/
theorem resumeRecord (hn : n.Starting id) (hres : n.resumeRecord rec = some m) : m.Starting id := by
  have hschedule : ∀ {node : RawNode} (ref : InstanceRef) (kind : TimerKind) (after : ℕ),
      node.Starting id → (node.schedule ref kind after).1.Starting id := fun ref kind after hnode ↦
    hnode.shifts ((Shifts.refl _).schedule ref kind after) (hnode.waits.schedule ref kind after)
  have hrecovery : ∀ ref, (n.scheduleRecovery ref).1.Starting id := fun ref ↦
    hn.shifts ((Shifts.refl n).scheduleRecovery ref) (hn.waits.scheduleRecovery ref)
  unfold RawNode.resumeRecord at hres
  split at hres
  · exact Option.some.inj hres ▸ hn
  next inst hget =>
  dsimp only at hres
  split at hres
  · exact Option.some.inj hres ▸ hn
  split at hres
  · next hpending =>
    have hwaits := hn.waits.awaits rec.ref inst hget hpending
    have hadmitted : (n.admitDeferredPreAccept .toq
        (n.messageFromRecord .preAccept n.id inst.record)).1.Starting id := by
      unfold admitDeferredPreAccept
      split
      · exact hn
      next hnew =>
      split
      · exact hn
      · refine ⟨hn.waits.still ⟨rfl, rfl⟩, hn.taken, fun domain msg hmsg ↦ ?_⟩
        rcases IndexedHeaps.mem_queue_push _ hnew hmsg with ⟨-, rfl⟩ | hold
        · change n.id = inst.record.ref.replica ∧
            inst.record.ballot = { replica := inst.record.ref.replica }
          rw [hwaits.owner, hwaits.ballot, hn.waits.node]
          exact ⟨rfl, rfl⟩
        · exact hn.initial domain msg hold
    split at hres
    · simp at hres
    · next node hnode =>
      rw [hnode] at hadmitted
      exact (hschedule _ _ _ hadmitted).restartTimer hres
  next hpending =>
  split at hres
  · split at hres
    · refine restartTimer (hn.shifts ((Shifts.refl n).startPrepare Shifts.drive rec.ref) ?_) hres
      refine hn.waits.startPrepareFrom (fun node hnode ↦ hnode.runExecution) _ fun found hfound ↦ ?_
      obtain rfl := Option.some.inj (hget.symm.trans hfound)
      simpa using hpending
    · exact (hrecovery _).restartTimer hres
  · split at hres
    · exact (hschedule _ _ _ hn).restartTimer hres
    · exact (hrecovery _).restartTimer hres
  · split at hres
    · exact (hschedule _ _ _ hn).restartTimer hres
    · exact (hrecovery _).restartTimer hres
  · exact (hschedule _ _ _ hn).restartTimer hres
  · exact Option.some.inj hres ▸ hn
  · exact Option.some.inj hres ▸ hn

end Starting

/-- A node is timely when it starts. -/
theorem timely_newRawNode {id : ReplicaID} {cfg : Config} {base : VoterSet} {storage : Storage}
    (hnew : newRawNode id cfg base storage = some n) : n.Timely := by
  obtain ⟨b, start, loaded, resumed, restored, hb, hstart, hid, hindex, hloaded,
      hresumed, hrestored,
    hn, -⟩ := newRawNode_stages hnew
  have hblank : b.Starting b.id := by
    have hdeferred : b.deferred = ∅ := congrArg (fun waiting ↦ waiting.2.1) hb.waiting
    refine ⟨⟨rfl, fun ref inst hget ↦ ?_⟩, congrArg (fun waiting ↦ waiting.2.2) hb.waiting, ?_⟩
    · have hget : b.index.instances.get? ref = some inst := hget
      rw [hb.index] at hget
      simp at hget
    · rw [hdeferred]
      exact fun domain msg hmsg ↦ absurd hmsg List.not_mem_nil
  have hstarted : start.Starting b.id := hblank.shifts hstart
    (hblank.waits.still ⟨hid, congrArg Index.instances hindex⟩)
  have hloads : loaded.Starting b.id := foldlM_preserves _
    (fun node rec node' _ hnode hrec ↦ hnode.loadRecord hrec) hstarted hloaded
  have hresumes : resumed.Starting b.id := foldlM_preserves _
    (fun node rec node' _ hnode hrec ↦ hnode.resumeRecord hrec) hloads hresumed
  refine Timely.shifts ?_ hn
  unfold restorePreparedCheckpoint at hrestored
  split at hrestored
  · exact Option.some.inj hrestored ▸ hresumes.timely
  split at hrestored
  · simp at hrestored
  split at hrestored
  · simp at hrestored
  · obtain rfl := Option.some.inj hrestored
    refine Timely.shifts ?_
      ((Shifts.refl _).broadcastCheckpointControl _ _ _).maybeCertifyCheckpoint
    exact hresumes.timely

/-! ### The order of release -/

/-- The PreAccepts that were processed from the queue of a domain since the node was started, in the
order in which they were. -/
def released (n : RawNode) (domain : PreAcceptDomain) : List Message :=
  (n.taken.filter fun entry ↦ entry.1 = domain).map Prod.snd

/-- Deferred PreAccepts are released in order: in every state that a node reaches after it was
started, those that were processed from the queue of a domain were processed in the strict order of
processing time, reference and sender, so none twice. The index has exactly the entries of the
heaps, each under its own key; every entry is in its heap once, at the position that is stored with
it, and not below its parent. -/
theorem preAccepts_released_in_order {id : ReplicaID} {cfg : Config} {base : VoterSet}
    {storage : Storage} (hnew : newRawNode id cfg base storage = some n) (calls : List Call)
    (domain : PreAcceptDomain) :
    ((n.run calls).released domain).Pairwise (fun a b ↦
      toLex (a.processAt, toLex (a.ref, a.source)) < toLex (b.processAt, toLex (b.ref, b.source))) ∧
    ((n.run calls).released domain).Nodup ∧
    (∀ key entry, (n.run calls).deferred.index.get? key = some entry ↔
      entry ∈ ((n.run calls).deferred.heap key.domain).values ∧
        key = ⟨key.domain, entry.ref, entry.ballot, entry.source⟩) ∧
    let heap := (n.run calls).deferred.heap domain
    (heap.values.map fun entry ↦ (entry.ref, entry.ballot, entry.source)).Nodup ∧
      ∀ k < heap.len, (heap.slot k).2 = k ∧
        deferredPreAcceptLess (heap.slot k).1 (heap.slot (Heaps.parent k)).1 = false := by
  have htimely := (timely_newRawNode hnew).run calls
  have hordered := (htimely.inOrder domain).ordered
  refine ⟨hordered, hordered.imp fun hless heq ↦ ?_, fun key entry ↦ ?_, ?_, fun k hk ↦ ⟨?_, ?_⟩⟩
  · rw [heq] at hless
    exact lt_irrefl _ hless
  · rw [(n.run calls).deferred.synced]
    exact and_congr_right fun _ ↦ eq_comm
  · refine List.Nodup.of_map (fun key ↦ ⟨domain, key.1, key.2.1, key.2.2⟩ :
      InstanceRef × Ballot × ReplicaID → DeferredKey) ?_
    rw [List.map_map]
    exact (n.run calls).deferred.distinct domain
  · exact ((n.run calls).deferred.valid domain).indexed k hk
  · rw [← Bool.not_eq_true, deferredPreAcceptLess_iff, not_lt]
    exact ((n.run calls).deferred.valid domain).ordered k hk

/-- A PreAccept of the owner's first command with a processing time. -/
def preAcceptDueAt (owner : ReplicaID) (processAt : ℕ) : Message :=
  { type := .preAccept, source := owner, target := 3, ref := ⟨owner, 1, 1⟩
    ballot := { replica := owner }, seq := 1, deps := [0, 0, 0], kind := .command
    command := { id := ⟨owner, 1⟩, payload := [0], footprint := { all := true } }
    processAt := processAt }

/-- Two PreAccepts arrive in the order opposite to that of their times, and both times come. -/
def lateFirst : List Call :=
  [.step (preAcceptDueAt 1 2), .step (preAcceptDueAt 2 1), .tick, .tick]

theorem preAccepts_released_in_order_lateFirst :
    ∃ n, newRawNode 3 { timeOptimization := true } threeReplicas {} = some n ∧
      (n.run lateFirst).released .logical = [preAcceptDueAt 2 1, preAcceptDueAt 1 2] ∧
      ((n.run lateFirst).released .logical).Nodup := by
  have hstarts : ∃ n ∈ newRawNode 3 { timeOptimization := true } threeReplicas {},
      (n.run lateFirst).released .logical = [preAcceptDueAt 2 1, preAcceptDueAt 1 2] := by
    decide +kernel
  obtain ⟨n, hnew, hreleased⟩ := hstarts
  exact ⟨n, hnew, hreleased, (preAccepts_released_in_order hnew lateFirst .logical).2.1⟩

end RawNode

end MoreConsensus
