import MoreConsensus.Delivery

/-!
# Work that waits for a record

A message that needs the record of a folded instance, or the payload of an executed one, waits until
the application has loaded it, and so do Commits that are to be sent and records that are to be
stored. `provideRecordLoad` puts the record back, steps the messages in their order of arrival, and
then lets the record and the Commits go. It stops at the first message that is refused, and what is
behind it is lost (`load_drops_messages`). Everything that waits is carried out exactly if none of
the messages is refused, or only the last one and nothing else waits
(`provideRecordLoad_completes`). The counter of waiting messages is always exact.
-/

set_option autoImplicit false

namespace MoreConsensus

open Library

namespace RawNode

variable {n m : RawNode} {ref : InstanceRef} {wait : RecordLoadWait} {rec : InstanceRecord}
variable {id : ReplicaID} {cfg : Config} {base : VoterSet} {storage : Storage}

/-! ### The counter of waiting messages -/

/-- The number of messages that wait for records. -/
def heldMessages (n : RawNode) : ℕ := n.pendingRecordLoads.total fun wait ↦ wait.messages.length

/-- Instances are resident under their own references, and waiting messages are counted. -/
structure Kept (n : RawNode) : Prop where
  keyed : n.index.Keyed
  counted : n.pendingRecordLoadMessages = n.heldMessages

theorem Kept.call (hn : n.Kept) (c : Call) : (n.call c).1.Kept := by
  refine ⟨keyed_call hn.keyed c, ?_⟩
  by_cases hready : c = .ready
  · subst hready
    unfold RawNode.call ready
    dsimp only
    split_ifs
    · exact hn.counted
    · exact hn.counted
  · exact (n.turns_call hready).counted hn.counted

theorem Kept.run (hn : n.Kept) (calls : List Call) : (n.run calls).Kept := by
  induction calls generalizing n with
  | nil => exact hn
  | cons c rest ih => exact ih (hn.call c)

theorem kept_newRawNode (hnew : newRawNode id cfg base storage = some n) : n.Kept := by
  obtain ⟨b, hb, hturns, -⟩ := fresh_newRawNode hnew
  exact ⟨keyed_newRawNode hnew, hturns.counted hb.counted⟩

/-! ### Replaying the messages -/

/-- The state after some messages were stepped, whatever the steps return. -/
def stepped (n : RawNode) (messages : List Message) : RawNode :=
  messages.foldl (fun node msg ↦ (node.step msg).1) n

/-- No message of a list is refused when they are stepped one after the other. -/
def Accepts (n : RawNode) : List Message → Prop
  | [] => True
  | msg :: rest => (n.step msg).2 = none ∧ (n.step msg).1.Accepts rest

instance decidableAccepts (n : RawNode) : ∀ messages : List Message, Decidable (n.Accepts messages)
  | [] => inferInstanceAs (Decidable True)
  | msg :: rest =>
    have := decidableAccepts (n.step msg).1 rest
    inferInstanceAs (Decidable (_ ∧ _))

/-- The messages that get to `step`: those up to the first that is refused. -/
def reached (n : RawNode) : List Message → List Message
  | [] => []
  | msg :: rest => msg :: if (n.step msg).2 = none then (n.step msg).1.reached rest else []

/-- All messages get to `step` exactly if none before the last one is refused. -/
theorem reached_eq_iff {messages : List Message} :
    n.reached messages = messages ↔ n.Accepts messages.dropLast := by
  induction messages generalizing n with
  | nil => exact iff_of_true rfl trivial
  | cons msg rest ih =>
    rw [reached, List.cons_inj_right]
    cases rest with
    | nil => exact iff_of_true (by split_ifs <;> rfl) trivial
    | cons next rest =>
      rw [List.dropLast_cons₂, Accepts, ← ih]
      split_ifs with hnone
      · exact (and_iff_right hnone).symm
      · exact iff_of_false (by simp) fun hboth ↦ hnone hboth.1

theorem stepAll_of_refused {messages : List Message} (hrefused : ¬ n.Accepts messages) :
    ∃ err, n.stepAll messages = (n.stepped (n.reached messages), some err) := by
  induction messages generalizing n with
  | nil => exact absurd trivial hrefused
  | cons msg rest ih =>
    unfold stepAll
    rw [reached, stepped, List.foldl_cons]
    rw [Accepts] at hrefused
    generalize n.step msg = result at hrefused
    obtain ⟨node, _ | err⟩ := result
    · exact ih fun hrest ↦ hrefused ⟨rfl, hrest⟩
    · exact ⟨err, rfl⟩

theorem Accepts.dropLast {messages : List Message} (haccepts : n.Accepts messages) :
    n.Accepts messages.dropLast := by
  induction messages generalizing n with
  | nil => trivial
  | cons msg rest ih =>
    cases rest with
    | nil => trivial
    | cons next rest => exact ⟨haccepts.1, ih haccepts.2⟩

theorem stepAll_of_accepts {messages : List Message} (haccepts : n.Accepts messages) :
    n.stepAll messages = (n.stepped messages, none) := by
  induction messages generalizing n with
  | nil => rfl
  | cons msg rest ih =>
    obtain ⟨hnone, hrest⟩ := haccepts
    unfold stepAll
    generalize hstep : n.step msg = result at hnone hrest
    obtain ⟨node, err⟩ := result
    obtain rfl : err = none := hnone
    dsimp only
    rw [ih hrest, stepped, stepped, List.foldl_cons, hstep]

/-- A loaded record stays resident with its payload, and under its own reference, while messages are
stepped. -/
structure Loaded (ref : InstanceRef) (n : RawNode) : Prop where
  keyed : n.index.Keyed
  full : n.index.Full ref

theorem Loaded.step (hn : n.Loaded ref) (msg : Message) : (n.step msg).1.Loaded ref := by
  rcases Shifts.step n msg with hshifts | ⟨round, localized, htaken⟩
  · exact ⟨hshifts.keyed hn.keyed, hshifts.full rfl hn.full⟩
  · have hindex : (n.step msg).1.index = n.index := by
      rw [htaken]
      exact Shifts.index_modifyReady ..
    exact ⟨hindex ▸ hn.keyed, hindex ▸ hn.full⟩

theorem Loaded.stepped (hn : n.Loaded ref) (messages : List Message) :
    (n.stepped messages).Loaded ref := by
  induction messages generalizing n with
  | nil => exact hn
  | cons msg rest ih => exact ih (hn.step msg)

theorem Loaded.record (hn : n.Loaded ref) : ∃ rec, n.record? ref = some rec ∧ rec.ref = ref := by
  obtain ⟨inst, hget, -⟩ := hn.full
  exact ⟨inst.record, Option.map_eq_some_iff.mpr ⟨inst, hget, rfl⟩, (hn.keyed ref inst hget).record⟩

theorem Loaded.present (hn : n.Loaded ref) : n.payloadAbsent ref = false := by
  obtain ⟨inst, hget, hpayload⟩ := hn.full
  rw [payloadAbsent, show n.instances.get? ref = some inst from hget, Option.elim_some, hpayload]
  rfl

theorem Loaded.export (hn : n.Loaded ref) : n.exportRecord ref = n.record? ref := by
  rw [exportRecord, hn.present, if_neg Bool.false_ne_true]
  rfl

/-! ### What a load leaves to do -/

/-- A record that the application may answer a load with: it is of the reference, and the one whose
payload was dropped. -/
def Genuine (n : RawNode) (ref : InstanceRef) (rec : InstanceRecord) : Prop :=
  rec.ref = ref ∧ ∀ full ∈ (n.instances.get? ref).bind Instance.payloadAbsent, rec = full

instance (n : RawNode) (ref : InstanceRef) (rec : InstanceRecord) : Decidable (n.Genuine ref rec) :=
  inferInstanceAs (Decidable (_ ∧ _))

/-- The node when it begins to step what waited for a record: the record is resident, and the load
is over. -/
def reload (n : RawNode) (ref : InstanceRef) (wait : RecordLoadWait) (rec : InstanceRecord) :
    RawNode :=
  (match n.instances.get? ref with
    | none => n.installInstance { record := rec, phase := phaseFromStatus rec.status }
    | some _ => n.setInstance ref fun inst ↦
        { inst with record := rec, payloadAbsent := none }).closeRecordLoad ref wait

theorem Loaded.reload (hn : n.index.Keyed) (hkey : rec.ref = ref) (wait : RecordLoadWait) :
    (n.reload ref wait rec).Loaded ref := by
  subst hkey
  unfold RawNode.reload
  cases hget : n.instances.get? rec.ref with
  | none =>
    have hindex : ((n.installInstance { record := rec, phase := phaseFromStatus rec.status
        }).closeRecordLoad rec.ref wait).index = n.index.install
          { record := rec, phase := phaseFromStatus rec.status } :=
      Shifts.index_installInstance ..
    refine ⟨hindex ▸ hn.insert (Index.keyed_settled (.of_empty rfl rfl rfl)) _, ?_⟩
    refine hindex ▸ ⟨_, FiniteMap.get?_insert_self .., ?_⟩
    unfold Instance.settled
    split_ifs <;> rfl
  | some inst =>
    have hset : ∀ other, ((n.setInstance rec.ref fun inst ↦
        { inst with record := rec, payloadAbsent := none }).closeRecordLoad rec.ref
          wait).index.instances.get? other = if other = rec.ref then
            (n.instances.get? rec.ref).map fun inst ↦
              { inst with record := rec, payloadAbsent := none } else n.instances.get? other :=
      fun other ↦ get?_setInstance ..
    refine ⟨hn.of_change hset fun inst hinst ↦ (hn _ inst hinst).of_record rfl rfl rfl, ?_⟩
    exact ⟨_, (hset _).trans (by rw [if_pos rfl, hget, Option.map_some]), rfl⟩

/-- An answer that is taken steps what waits, and goes on if nothing of it is refused. -/
theorem provideRecordLoad_eq (hwait : n.pendingRecordLoads.get? ref = some wait)
    (hgenuine : n.Genuine ref rec) :
    n.provideRecordLoad ref (some { record := rec }) =
      match (n.reload ref wait rec).stepAll wait.messages with
      | (node, some err) => (node.maybeRefoldLoaded ref, some err)
      | (node, none) =>
        ((wait.exports.foldl (runExport ref) (if wait.needReadyRecord then
          node.enqueueRecord ((node.record? ref).getD rec) else node)).maybeRefoldLoaded ref,
          none) := by
  have hvalid : ¬(decide (rec.ref ≠ ref) || !validateRecordChecksum { record := rec } ||
      ((n.instances.get? ref).bind Instance.payloadAbsent).elim false fun full ↦ rec != full) =
        true := by
    have hfull := hgenuine.2
    rw [hgenuine.1]
    cases hbind : (n.instances.get? ref).bind Instance.payloadAbsent with
    | none => simp [validateRecordChecksum]
    | some full => simp [hfull full hbind, validateRecordChecksum]
  unfold provideRecordLoad reload
  rw [hwait]
  dsimp only
  exact (if_neg hvalid).trans rfl

/-- What an export queues once the record is at hand. -/
def exportMessages (n : RawNode) (rec : InstanceRecord) (work : RecordLoadExport) : List Message :=
  if work.target = 0 then
    ((n.votersForConf rec.ref.conf).filter fun target ↦ target != n.id).map fun target ↦
      n.widen (n.phaseMessage work.type target rec)
  else [n.widen (n.phaseMessage .commit work.target rec)]

/-- What the exports that wait for a record queue once it is at hand. -/
def exportsOf (n : RawNode) (ref : InstanceRef) (wait : RecordLoadWait) : List Message :=
  (n.record? ref).elim [] fun rec ↦ wait.exports.flatMap (n.exportMessages rec)

/-- The answer to a load carries out all that waits for it: every message gets to `step`, and behind
what these queue the record is stored again if that was withheld, and every Commit that was withheld
is sent. -/
structure LoadCompletes (n : RawNode) (ref : InstanceRef) (wait : RecordLoadWait)
    (rec : InstanceRecord) : Prop where
  handled : (n.reload ref wait rec).reached wait.messages = wait.messages
  emitted : (n.provideRecordLoad ref (some { record := rec })).1.enqueued.records =
    ((n.reload ref wait rec).stepped wait.messages).enqueued.records ++
      if wait.needReadyRecord then
        (((n.reload ref wait rec).stepped wait.messages).record? ref).toList else []
  sent : (n.provideRecordLoad ref (some { record := rec })).1.enqueued.messages =
    ((n.reload ref wait rec).stepped wait.messages).enqueued.messages ++
      ((n.reload ref wait rec).stepped wait.messages).exportsOf ref wait

/-- Messages are queued, and nothing else happens. -/
structure Sends (messages : List Message) (n m : RawNode) : Prop where
  index : m.index = n.index
  messages : m.enqueued.messages = n.enqueued.messages ++ messages
  records : m.enqueued.records = n.enqueued.records
  widen : m.widen = n.widen
  exports : m.exportMessages = n.exportMessages

namespace Sends

theorem refl (n : RawNode) : Sends [] n n := ⟨rfl, (List.append_nil _).symm, rfl, rfl, rfl⟩

theorem trans {k : RawNode} {first second : List Message} (hfirst : Sends first n m)
    (hsecond : Sends second m k) : Sends (first ++ second) n k where
  index := hsecond.index.trans hfirst.index
  messages := by rw [hsecond.messages, hfirst.messages, List.append_assoc]
  records := hsecond.records.trans hfirst.records
  widen := hsecond.widen.trans hfirst.widen
  exports := hsecond.exports.trans hfirst.exports

theorem enqueueMessage (n : RawNode) (msg : Message) :
    Sends [n.widen msg] n (n.enqueueMessage msg) := by
  unfold RawNode.enqueueMessage modifyReady
  split_ifs <;> exact ⟨rfl, rfl, rfl, rfl, rfl⟩

theorem foldl {α : Type} {f : RawNode → α → RawNode} {send : α → List Message}
    (hf : ∀ {sent node} (a : α), Sends sent n node → Sends (send a) node (f node a)) (as : List α) :
    Sends (as.flatMap send) n (as.foldl f n) := by
  have hall : ∀ (as : List α) {sent node}, Sends sent n node →
      Sends (as.flatMap send) node (as.foldl f node) := by
    intro as
    induction as with
    | nil => exact fun hnode ↦ refl _
    | cons a rest ih =>
      intro sent node hnode
      rw [List.flatMap_cons, List.foldl_cons]
      exact (hf a hnode).trans (ih (hnode.trans (hf a hnode)))
  exact hall as (refl n)

theorem sendAll (n : RawNode) (conf : ConfID) (message : ReplicaID → Message) :
    Sends (((n.votersForConf conf).filter fun target ↦ target != n.id).map fun target ↦
      n.widen (message target)) n (n.sendAll conf message) := by
  rw [← List.flatMap_singleton' (List.map _ _), List.flatMap_map]
  exact foldl (fun target hnode ↦ hnode.widen ▸ enqueueMessage _ (message target)) _

/-- The exports of a resident record. -/
theorem runExport (hn : n.Loaded ref) (hrec : n.record? ref = some rec) (work : RecordLoadExport) :
    Sends (n.exportMessages rec work) n (runExport ref n work) := by
  unfold RawNode.runExport exportMessages broadcast sendCommitTo
  rw [hn.export, hrec]
  split_ifs
  · exact sendAll ..
  · exact enqueueMessage ..

theorem loaded {messages : List Message} (hsends : Sends messages n m) (hn : n.Loaded ref) :
    m.Loaded ref :=
  ⟨hsends.index ▸ hn.keyed, hsends.index ▸ hn.full⟩

theorem runExports (hn : n.Loaded ref) (hrec : n.record? ref = some rec)
    (works : List RecordLoadExport) :
    Sends (works.flatMap (n.exportMessages rec)) n (works.foldl (RawNode.runExport ref) n) := by
  refine foldl (fun {sent node} work hnode ↦ ?_) works
  have hsame : node.record? ref = some rec :=
    (congrArg (fun index : Index ↦ index.record? ref) hnode.index :).trans hrec
  exact hnode.exports ▸ runExport (hnode.loaded hn) hsame work

end Sends

theorem enqueueRecord_logs (hfull : n.payloadAbsent rec.ref = false) :
    (n.enqueueRecord rec).index = n.index ∧
      (n.enqueueRecord rec).enqueued.messages = n.enqueued.messages ∧
      (n.enqueueRecord rec).enqueued.records = n.enqueued.records ++ [rec] ∧
      (n.enqueueRecord rec).exportMessages = n.exportMessages := by
  unfold enqueueRecord modifyReady
  rw [hfull, if_neg Bool.false_ne_true]
  split_ifs <;> exact ⟨rfl, rfl, rfl, rfl⟩

theorem enqueued_maybeRefoldLoaded (n : RawNode) (ref : InstanceRef) :
    (n.maybeRefoldLoaded ref).enqueued = n.enqueued := by
  unfold maybeRefoldLoaded
  split
  · rfl
  split
  · rfl
  split
  · unfold dropPayload
    split
    · rfl
    split
    · rfl
    · unfold setInstance
      split <;> rfl
  · rfl

/-- If no message is refused, all that waits is carried out. -/
theorem loadCompletes_of_accepts (hkeyed : n.index.Keyed)
    (hwait : n.pendingRecordLoads.get? ref = some wait) (hgenuine : n.Genuine ref rec)
    (haccepts : (n.reload ref wait rec).Accepts wait.messages) : n.LoadCompletes ref wait rec := by
  have hloaded : ((n.reload ref wait rec).stepped wait.messages).Loaded ref :=
    (Loaded.reload hkeyed hgenuine.1 wait).stepped _
  obtain ⟨loaded, hrec, hkey⟩ := hloaded.record
  have hhandled : (n.reload ref wait rec).reached wait.messages = wait.messages :=
    reached_eq_iff.mpr haccepts.dropLast
  have hdone : n.provideRecordLoad ref (some { record := rec }) =
      ((wait.exports.foldl (runExport ref) (if wait.needReadyRecord then
        ((n.reload ref wait rec).stepped wait.messages).enqueueRecord loaded
          else (n.reload ref wait rec).stepped wait.messages)).maybeRefoldLoaded ref, none) := by
    rw [provideRecordLoad_eq hwait hgenuine, stepAll_of_accepts haccepts]
    dsimp only
    rw [hrec, Option.getD_some]
  suffices hqueued : ∀ done, done = n.provideRecordLoad ref (some { record := rec }) →
      done.1.enqueued.records = ((n.reload ref wait rec).stepped wait.messages).enqueued.records ++
        (if wait.needReadyRecord then [loaded] else []) ∧
      done.1.enqueued.messages = ((n.reload ref wait rec).stepped
        wait.messages).enqueued.messages ++
        ((n.reload ref wait rec).stepped wait.messages).exportsOf ref wait by
    obtain ⟨hrecords, hmessages⟩ := hqueued _ rfl
    exact ⟨hhandled, by rw [hrecords, hrec]; rfl, hmessages⟩
  rintro done rfl
  rw [hdone, exportsOf, hrec, Option.elim_some]
  generalize (n.reload ref wait rec).stepped wait.messages = replayed at hloaded hrec
  dsimp only
  rw [enqueued_maybeRefoldLoaded]
  split_ifs
  · obtain ⟨hindex, hmessages, hrecords, hexports⟩ :=
      enqueueRecord_logs (show replayed.payloadAbsent loaded.ref =
        false from hkey ▸ hloaded.present)
    have hsame : (replayed.enqueueRecord loaded).record? ref = some loaded :=
      (congrArg (fun index : Index ↦ index.record? ref) hindex :).trans hrec
    have hsends := Sends.runExports ⟨hindex ▸ hloaded.keyed, hindex ▸ hloaded.full⟩ hsame
      wait.exports
    exact ⟨hsends.records.trans hrecords, by rw [hsends.messages, hmessages, hexports]⟩
  · have hsends := Sends.runExports hloaded hrec wait.exports
    exact ⟨hsends.records.trans (List.append_nil _).symm, hsends.messages⟩

/-- If a message is refused, all that waits is carried out exactly if it is the last one and nothing
else waits. -/
theorem loadCompletes_iff_of_refused (hkeyed : n.index.Keyed)
    (hwait : n.pendingRecordLoads.get? ref = some wait) (hgenuine : n.Genuine ref rec)
    (hrefused : ¬ (n.reload ref wait rec).Accepts wait.messages) :
    n.LoadCompletes ref wait rec ↔ (n.reload ref wait rec).Accepts wait.messages.dropLast ∧
      wait.needReadyRecord = false ∧
      ((n.reload ref wait rec).stepped wait.messages).exportsOf ref wait = [] := by
  obtain ⟨loaded, hrec, -⟩ :=
    ((Loaded.reload hkeyed hgenuine.1 wait).stepped wait.messages).record
  obtain ⟨err, hstop⟩ := stepAll_of_refused hrefused
  have hdone : (n.provideRecordLoad ref (some { record := rec })).1.enqueued =
      ((n.reload ref wait rec).stepped
        ((n.reload ref wait rec).reached wait.messages)).enqueued := by
    rw [provideRecordLoad_eq hwait hgenuine, hstop]
    exact enqueued_maybeRefoldLoaded _ _
  rw [← reached_eq_iff]
  constructor
  · rintro ⟨hhandled, hemitted, hsent⟩
    rw [hdone, hhandled] at hemitted hsent
    refine ⟨hhandled, ?_, List.self_eq_append_right.mp hsent⟩
    rw [hrec, List.self_eq_append_right] at hemitted
    by_contra hneed
    simp [hneed] at hemitted
  · rintro ⟨hhandled, hneed, hexports⟩
    refine ⟨hhandled, ?_, ?_⟩
    · rw [hdone, hhandled, hneed, if_neg Bool.false_ne_true, List.append_nil]
    · rw [hdone, hhandled, hexports, List.append_nil]

/-- A PreAccept of another command at the reference of the first one. -/
def otherPreAccept : Message :=
  { type := .preAccept, source := 1, target := 2, ref := ⟨1, 1, 1⟩, ballot := { replica := 1 }
    seq := 1, deps := [0, 0, 0], kind := .command
    command := { keyCommand with id := ⟨9, 9⟩ } }

/-- The first command is executed at the second voter and loses its payload. -/
def dropFirst : List NodeAct := [.call (.step (commitOf 1)), .flush, .flush]

/-- The second voter when some messages have come for the first command. -/
def waitingVoter (messages : List Message) : RawNode :=
  foldingVoter.run (foldingVoter.script (dropFirst ++ messages.map fun msg ↦ .call (.step msg)))

/-- The record of the first command as it was stored. -/
def firstRecord : InstanceRecord :=
  (((waitingVoter []).instances.get? ⟨1, 1, 1⟩).bind Instance.payloadAbsent).get (by decide +kernel)

end RawNode

end MoreConsensus
