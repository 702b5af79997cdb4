import MoreConsensus.KV.Keys
import MoreConsensus.Library.Checks
import MoreConsensus.Library.Stages
import MoreConsensus.Ready

/-!
# Applying a Ready, and applying it again

`DB.ApplyReady` of `epaxos_storage.go` works in stages: it validates the snapshot of the batch,
commits the protocol batch, installs the snapshot, and applies the commands, each with a batch of
its own. After a crash between two of them the store is opened again, its version clock rebuilt from
the data, and the same `Ready` applied again.

The stages before the commands are idempotent, a command that has its result is passed over, and an
installation replaces the application state as a whole. The clock is rebuilt to the same value as
long as it has not come around: with a version at the largest timestamp it restarts at one.
-/

set_option autoImplicit false

namespace MoreConsensus.KV

open Library

/-! ### Application snapshots -/

/-- How bundles are digested and read: the hash, and the entries of a bundle in the codecs of the
regions they belong to. -/
structure BundleCodec where
  digestApplicationSnapshot : Bytes → ℕ
  decodeApplicationSnapshot : Bytes → Option ApplicationSnapshot

def epaxosApplicationSnapshotHandleSize : ℕ := 40

/-- The digest and the size that a handle names. -/
def decodeApplicationSnapshotHandle (handle : Bytes) : Except KVError (ℕ × ℕ) :=
  if handle.length ≠ epaxosApplicationSnapshotHandleSize then .error .invalidCheckpoint
  else .ok (ofBigEndian (handle.take 32), ofBigEndian (handle.drop 32))

/-- The contents with the application state replaced. -/
def Store.restore (store : Store) (snapshot : ApplicationSnapshot) : Store :=
  { store with data := snapshot.data, results := snapshot.results, applied := snapshot.applied }

section

variable (codec : BundleCodec)

/-- The bundle of a handle, if it has the size and the digest the handle names and can be read. -/
def applicationSnapshotBundle (store : Store) (handle : Bytes) : Except KVError Bytes := do
  let (wantDigest, wantSize) ← decodeApplicationSnapshotHandle handle
  match store.bundles.get? ⟨handle⟩ with
  | none => .error .snapshotNotFound
  | some bundle =>
    if bundle.length ≠ wantSize ∨ codec.digestApplicationSnapshot bundle ≠ wantDigest then
      .error .checksumMismatch
    else match codec.decodeApplicationSnapshot bundle with
      | none => .error .malformedSnapshot
      | some _ => .ok bundle

def validateApplicationSnapshot (store : Store) (checkpoint : Checkpoint) :
    Except KVError ApplicationSnapshot := do
  let wanted := checkpoint.descriptor.applicationDigest
  match decodeApplicationSnapshotHandle checkpoint.applicationSnapshot with
  | .error _ => .error .invalidCheckpoint
  | .ok (handleDigest, _) =>
    if wanted = 0 ∨ handleDigest ≠ wanted then .error .invalidCheckpoint
    else
      let bundle ← applicationSnapshotBundle codec store checkpoint.applicationSnapshot
      if codec.digestApplicationSnapshot bundle ≠ wanted then .error .checksumMismatch
      else match codec.decodeApplicationSnapshot bundle with
        | none => .error .malformedSnapshot
        | some snapshot => .ok snapshot

/-- The application state is replaced in one batch, and the clock is read off the new data. -/
def installApplicationSnapshot (db : DB) (checkpoint : Checkpoint) : Except KVError DB :=
  (validateApplicationSnapshot codec db.store checkpoint).map fun snapshot ↦
    ⟨db.store.restore snapshot, loadNextTime snapshot.data⟩

end

/-! ### The protocol batch -/

def validateEPaxosHardState (hardState : HardState) : Bool :=
  hardState.empty ||
    (hardState.conf.id != 0 && decide (1 ≤ hardState.conf.voters.length) &&
      decide (hardState.conf.voters.length ≤ 7) && hardState.conf.voters.all (· != 0) &&
      decide (hardState.conf.voters.Pairwise (· < ·)))

/-- The hard state the store has after the batch. -/
def prepareEPaxosHardState (current next : HardState) : Except KVError HardState :=
  if next.empty then .ok current
  else if !validateEPaxosHardState next then .error .invalidConfig
  else if !current.empty ∧ (next.tick < current.tick ∨ next.conf.id < current.conf.id ∨
      next.conf.id = current.conf.id ∧ next.conf.voters ≠ current.conf.voters) then
    .error .invalidConfig
  else .ok next

/-- The records of the batch, the later of one instance over the earlier. -/
def stageEPaxosRecords (records : FiniteMap InstanceRef InstanceRecord)
    (staged : List InstanceRecord) : FiniteMap InstanceRef InstanceRecord :=
  staged.foldl (fun records rec ↦ records.insert rec.ref rec) records

def CompactionRange.covers (range : CompactionRange) (ref : InstanceRef) : Bool :=
  range.conf == ref.conf && range.replica == ref.replica && decide (1 ≤ ref.inst) &&
    decide (ref.inst ≤ range.through)

/-- The records without those of the ranges. -/
def deleteRanges (records : FiniteMap InstanceRef InstanceRecord) (ranges : List CompactionRange) :
    FiniteMap InstanceRef InstanceRecord :=
  (records.keys.filter fun ref ↦ ranges.any (CompactionRange.covers · ref)).foldl
    (fun records ref ↦ records.erase ref) records

/-- The checkpoint the store has after the batch: that of the snapshot, or the stored one, with its
compacted frontier moved up when the batch compacts. -/
def stageEPaxosCheckpoint (stored : Option Checkpoint) (rd : Ready) :
    Except KVError (Option Checkpoint) :=
  if rd.snapshot = none ∧ rd.compact = [] then .ok stored
  else
    let current := (rd.snapshot.map Snapshot.checkpoint).getD (stored.getD {})
    if rd.snapshot ≠ none ∧ current.empty then .error .invalidCheckpoint
    else if rd.compact = [] then .ok (some current)
    else if !checkpointCertified current ∨ canonicalCompactionRanges current ≠ rd.compact then
      .error .invalidCheckpoint
    else .ok (some { current with compactedThrough := current.descriptor.through })

/-- The protocol part of a batch, committed at once. -/
def persistReady (store : Store) (rd : Ready) : Except KVError Store := do
  let hardState ← prepareEPaxosHardState store.hardState rd.hardState
  let checkpoint ← stageEPaxosCheckpoint store.checkpoint rd
  .ok { store with
    records := deleteRanges (stageEPaxosRecords store.records rd.records) rd.compact
    checkpoint
    hardState }

/-! ### The stages of ApplyReady -/

/-- One stage of `ApplyReady`, which commits one batch at most. -/
inductive Stage
  | validate (snapshot : Snapshot)
  | persist
  | install (checkpoint : Checkpoint)
  | command (command : ApplyCommand)

/-- Whether the protocol batch has anything to persist. -/
def persists (rd : Ready) : Bool :=
  !rd.records.isEmpty || !rd.hardState.empty || rd.snapshot.isSome || !rd.compact.isEmpty

/-- The snapshot a batch installs. -/
def installs (rd : Ready) : Option Snapshot :=
  rd.snapshot.filter fun snapshot ↦ snapshot.mode == .install

def stages (rd : Ready) : List Stage :=
  rd.snapshot.toList.map .validate ++ (if persists rd then [.persist] else []) ++
    (installs rd).toList.map (fun snapshot ↦ .install snapshot.checkpoint) ++
      rd.apply.map .command

section

variable (codec : BundleCodec) (digestCommand : Command → StateDigest)

def performStage (rd : Ready) (db : DB) : Stage → Except KVError DB
  | .validate snapshot => (validateApplicationSnapshot codec db.store snapshot.checkpoint).map
      fun _ ↦ db
  | .persist => (persistReady db.store rd).map fun store ↦ { db with store }
  | .install checkpoint => installApplicationSnapshot codec db checkpoint
  | .command command => applyReadyCommand digestCommand db command

/-- `DB.ApplyReady`: the store afterwards, and the error that stopped it, if any. -/
def applyReady (db : DB) (rd : Ready) : DB × Option KVError :=
  perform (performStage codec digestCommand rd) (stages rd) db

/-- The store opened again after a crash that cut the call off after `k` stages. -/
def crashed (db : DB) (rd : Ready) (k : ℕ) : DB :=
  openStore (perform (performStage codec digestCommand rd) ((stages rd).take k) db).1.store

end

/-! ### What a command does to the store -/

/-- The writes of some operations at a time of the clock; nothing takes no time. -/
def stageOps (ops : List TxnOp) (next : UInt64) : Staged :=
  if ops.isEmpty then ⟨[], next⟩ else ⟨ops.map (stageOp next), next + 1⟩

/-- The clock as the next command reads it. -/
def tick (next : UInt64) : UInt64 := if next = 0 then 1 else next

theorem DB.nextRecordTime_eq (db : DB) : db.nextRecordTime = ⟨db.store, tick db.nextTime⟩ := by
  rw [DB.nextRecordTime, tick]
  split_ifs <;> rfl

/-- Whatever is staged, it is the writes of some operations at the time of the clock. -/
theorem stageCommitted_eq_stageOps {payload : Bytes} {next : UInt64} {staged : Staged}
    (hstaged : stageCommitted payload next = .ok staged) :
    ∃ ops : List TxnOp, ∀ ts, stageCommitted payload ts = .ok (stageOps ops ts) := by
  cases payload with
  | nil => exact ⟨[], fun _ ↦ rfl⟩
  | cons op body =>
    simp only [stageCommitted, stageTxn] at hstaged ⊢
    split_ifs at hstaged ⊢
    · split at hstaged
      · cases hstaged
      · rename_i key value _
        split_ifs at hstaged ⊢
        exact ⟨[⟨false, key, value⟩], fun _ ↦ rfl⟩
    · split at hstaged
      · cases hstaged
      · rename_i key value _
        split_ifs at hstaged ⊢
        exact ⟨[⟨true, key, []⟩], fun _ ↦ rfl⟩
    · split at hstaged
      · cases hstaged
      · cases hstaged
      · rename_i ops p _
        split_ifs at hstaged ⊢ with _ hempty
        · exact ⟨[], fun _ ↦ rfl⟩
        · exact ⟨ops, fun ts ↦ by rw [stageOps, if_neg hempty]⟩

/-- A command of an ordered read stages nothing. -/
theorem stageCommitted_of_read {data : FiniteMap StoreKey Bytes} {payload : Bytes}
    (hread : executeOrderedRead data payload ≠ none) (next : UInt64) :
    stageCommitted payload next = .error .unknownOp := by
  cases payload with
  | nil => exact absurd rfl hread
  | cons op body =>
    have hop : op = opGet ∨ op = opScan := by
      by_contra hneither
      obtain ⟨hget, hscan⟩ := not_or.mp hneither
      exact hread (by simp [executeOrderedRead, hget, hscan])
    rcases hop with rfl | rfl <;> rfl

/-- Whether a command has no result yet. -/
def fresh (state : ApplicationSnapshot) (c : ApplyCommand) : Bool :=
  (state.results.get? c.command.id).isNone

/-- Whether a command writes versions: it has no result and no mark, and it stages something. -/
def writer (state : ApplicationSnapshot) (c : ApplyCommand) : Bool :=
  fresh state c && !state.applied.contains c.ref &&
    (stageCommitted c.command.payload 1).toOption.any fun staged ↦ !staged.writes.isEmpty

/-- The store after a command that had no result, with the writes of some operations. -/
def executed (digestCommand : Command → StateDigest) (db : DB) (c : ApplyCommand)
    (ops : List TxnOp) (response : Response) : DB :=
  let staged := stageOps ops (tick db.nextTime)
  let store := { db.store with data := commitWrites db.store.data staged.writes }
  ⟨recordResult store c (digestCommand c.command) response, staged.next⟩

section

variable {digestCommand : Command → StateDigest} {db db' : DB} {c : ApplyCommand}

/-- What a command that is applied does: nothing when it has its result already, and else it records
its result, with its writes unless its instance is marked. -/
theorem applyReadyCommand_cases (happly : applyReadyCommand digestCommand db c = .ok db') :
    c.command.id ≠ {} ∧
      ((∃ response, db.store.results.get? c.command.id =
          some (digestCommand c.command, response)) ∧ db' = db ∨
        db.store.results.get? c.command.id = none ∧
          ∃ ops response, writer db.store.application c = !ops.isEmpty ∧
            db' = executed digestCommand db c ops response) := by
  rw [applyReadyCommand] at happly
  split_ifs at happly with hid
  refine ⟨hid, ?_⟩
  split at happly
  · rename_i stored response hstored
    dsimp only at happly
    split_ifs at happly with hdigest
    rw [not_not.mp hdigest] at hstored
    exact .inl ⟨⟨response, hstored⟩, (Except.ok.inj happly).symm⟩
  · rename_i hnone
    refine .inr ⟨hnone, ?_⟩
    rw [DB.nextRecordTime_eq] at happly
    dsimp only at happly
    split_ifs at happly with hlegacy
    · exact ⟨[], .none, by simp [writer, Store.application, hlegacy],
        (Except.ok.inj happly).symm⟩
    · split at happly
      · cases happly
      · rename_i response hread
        have hstages := stageCommitted_of_read (by rw [hread]; simp) 1
        refine ⟨[], response, ?_, (Except.ok.inj happly).symm⟩
        rw [writer, hstages]
        exact Bool.and_false _
      · split at happly
        · cases happly
        · rename_i staged hstaged
          obtain ⟨ops, hops⟩ := stageCommitted_eq_stageOps hstaged
          rw [hops] at hstaged
          cases hstaged
          refine ⟨ops, .none, ?_, (Except.ok.inj happly).symm⟩
          have hfresh : fresh db.store.application c =
              true := by simp [fresh, Store.application, hnone]
          have hmark : db.store.application.applied.contains c.ref = false :=
            Bool.not_eq_true _ ▸ hlegacy
          rw [writer, hfresh, hmark, hops, stageOps]
          cases ops <;> rfl

/-- A result that is stored stays. -/
theorem results_applyReadyCommand (happly : applyReadyCommand digestCommand db c = .ok db')
    (id : CommandID) (result : StateDigest × Response)
    (hresult : db.store.results.get? id = some result) :
    db'.store.results.get? id = some result := by
  obtain ⟨-, ⟨-, rfl⟩ | ⟨hnone, ops, response, -, rfl⟩⟩ := applyReadyCommand_cases happly
  · exact hresult
  · have hne : id ≠ c.command.id := by
      rintro rfl
      rw [hnone] at hresult
      cases hresult
    exact (FiniteMap.get?_insert_of_ne _ _ hne).trans hresult

end

variable {store store' : Store} {data : FiniteMap StoreKey Bytes} {rd : Ready}

/-! ### The clock -/

/-- The versions that the clock is rebuilt from. -/
def versions (data : FiniteMap StoreKey Bytes) : List (Bytes × UInt64) :=
  (iterate data (encodeUserPrefix []) (prefixLimit (encodeUserPrefix []))).filterMap fun entry ↦
    decodeDataKey entry.1.bytes

/-- The newest of the versions. -/
def latest (data : FiniteMap StoreKey Bytes) : UInt64 :=
  (versions data).foldl (fun maxTS version ↦ if maxTS < version.2 then version.2 else maxTS) 0

theorem loadNextTime_eq (data : FiniteMap StoreKey Bytes) :
    loadNextTime data = latest data + 1 := rfl

theorem mem_versions {version : Bytes × UInt64} :
    version ∈ versions data ↔ ∃ key ∈ data.keys,
      inRange (encodeUserPrefix []) (prefixLimit (encodeUserPrefix [])) key = true ∧
        decodeDataKey key.bytes = some version := by
  simp only [versions, iterate, List.mem_filterMap, List.mem_filter, FiniteMap.keys, List.mem_map]
  refine ⟨?_, ?_⟩
  · rintro ⟨entry, ⟨hentry, hrange⟩, hdecode⟩
    exact ⟨entry.1, ⟨entry, hentry, rfl⟩, hrange, hdecode⟩
  · rintro ⟨key, ⟨entry, hentry, rfl⟩, hrange, hdecode⟩
    exact ⟨entry, ⟨hentry, hrange⟩, hdecode⟩

/-- The fold over versions finds an upper bound that is the start or one of them. -/
theorem foldl_newest (l : List (Bytes × UInt64)) (start : UInt64) :
    let newest := l.foldl (fun maxTS version ↦ if maxTS < version.2 then version.2 else maxTS) start
    start ≤ newest ∧ (∀ version ∈ l, version.2 ≤ newest) ∧
      (newest = start ∨ ∃ version ∈ l, version.2 = newest) := by
  induction l generalizing start with
  | nil => exact ⟨UInt64.le_refl _, fun _ h ↦ absurd h List.not_mem_nil, .inl rfl⟩
  | cons version l ih =>
    intro newest
    obtain ⟨hstart, hrest, hfound⟩ := ih (if start < version.2 then version.2 else start)
    have hbefore : start ≤ (if start < version.2 then version.2 else start) ∧
        version.2 ≤ (if start < version.2 then version.2 else start) := by
      split_ifs with hless
      · exact ⟨UInt64.le_of_lt hless, UInt64.le_refl _⟩
      · exact ⟨UInt64.le_refl _, UInt64.not_lt.mp hless⟩
    refine ⟨UInt64.le_trans hbefore.1 hstart, ?_, ?_⟩
    · intro other hother
      rcases List.mem_cons.mp hother with rfl | hother
      · exact UInt64.le_trans hbefore.2 hstart
      · exact hrest other hother
    · rcases hfound with heq | ⟨other, hother, heq⟩
      · by_cases hless : start < version.2
        · exact .inr ⟨version, List.mem_cons_self, (heq.trans (if_pos hless)).symm⟩
        · exact .inl (heq.trans (if_neg hless))
      · exact .inr ⟨other, List.mem_cons_of_mem _ hother, heq⟩

/-- No version is newer than the latest, and that is zero or one of them. -/
theorem latest_spec (data : FiniteMap StoreKey Bytes) :
    (∀ version ∈ versions data, version.2 ≤ latest data) ∧
      (latest data = 0 ∨ ∃ version ∈ versions data, version.2 = latest data) :=
  (foldl_newest (versions data) 0).2

/-- The keys of versions are in the range the clock is rebuilt from. -/
theorem inRange_encodeDataKey (user : Bytes) (ts : UInt64) :
    inRange (encodeUserPrefix []) (prefixLimit (encodeUserPrefix [])) ⟨encodeDataKey user ts⟩ =
      true := by
  have hlower : encodeUserPrefix [] = [100, 0, 0, 0, 1] := by decide
  have hupper : prefixLimit (encodeUserPrefix []) = some [100, 0, 0, 0, 2] := by decide
  have hkey : encodeDataKey user ts =
      100 :: 0 :: 0 :: 0 :: 1 :: (user ++ 0 :: bigEndian 8 (~~~ts).toNat) := rfl
  have hnotLess : ∀ b : Bytes, bytesLess b [] = false := fun b ↦ by cases b <;> rfl
  rw [hupper, hlower, hkey]
  simp [inRange, bytesLess, hnotLess]

theorem mem_keys_commitWrites {data : FiniteMap StoreKey Bytes} {writes : List (StoreKey × Bytes)}
    {key : StoreKey} :
    key ∈ (commitWrites data writes).keys ↔ key ∈ data.keys ∨ ∃ write ∈ writes, write.1 = key := by
  induction writes generalizing data with
  | nil => simp [commitWrites]
  | cons write writes ih =>
    have hinsert : key ∈ (data.insert write.1 write.2).keys ↔ key ∈ data.keys ∨ write.1 = key := by
      rw [← FiniteMap.contains_iff_mem_keys, ← FiniteMap.contains_iff_mem_keys, FiniteMap.contains,
        FiniteMap.get?_insert, FiniteMap.contains]
      by_cases heq : write.1 = key
      · simp [heq]
      · simp [heq, Ne.symm heq]
    rw [commitWrites, List.foldl_cons]
    refine ih.trans ?_
    rw [hinsert]
    simp [or_assoc]

theorem stageOp_key (ts : UInt64) (op : TxnOp) : (stageOp ts op).1 = ⟨encodeDataKey op.key ts⟩ := by
  rw [stageOp]
  split_ifs <;> rfl

/-- The versions after some writes at one time. -/
theorem mem_versions_commitWrites {ts : UInt64} {ops : List TxnOp} {version : Bytes × UInt64} :
    version ∈ versions (commitWrites data (ops.map (stageOp ts))) ↔
      version ∈ versions data ∨ ∃ op ∈ ops, version = (op.key, ts) := by
  simp only [mem_versions, mem_keys_commitWrites, List.mem_map, or_and_right, exists_or]
  refine or_congr Iff.rfl ⟨?_, ?_⟩
  · rintro ⟨key, ⟨_, ⟨op, hop, rfl⟩, rfl⟩, -, hdecode⟩
    rw [stageOp_key, decodeDataKey_encodeDataKey] at hdecode
    exact ⟨op, hop, (Option.some.inj hdecode).symm⟩
  · rintro ⟨op, hop, rfl⟩
    refine ⟨_, ⟨_, ⟨op, hop, rfl⟩, rfl⟩, ?_, ?_⟩
    · rw [stageOp_key]
      exact inRange_encodeDataKey op.key ts
    · rw [stageOp_key]
      exact decodeDataKey_encodeDataKey op.key ts

theorem latest_le_commitWrites (ts : UInt64) (ops : List TxnOp) :
    latest data ≤ latest (commitWrites data (ops.map (stageOp ts))) := by
  rcases (latest_spec data).2 with hzero | ⟨version, hversion, heq⟩
  · exact hzero ▸ UInt64.zero_le
  · exact heq ▸ (latest_spec _).1 version (mem_versions_commitWrites.mpr (.inl hversion))

/-- Writes at a time after every version make that time the latest. -/
theorem latest_commitWrites {ts : UInt64} {ops : List TxnOp}
    (hops : ops ≠ []) (hnewer : latest data < ts) :
    latest (commitWrites data (ops.map (stageOp ts))) = ts := by
  obtain ⟨hafter, hfound⟩ := latest_spec (commitWrites data (ops.map (stageOp ts)))
  obtain ⟨op, hop⟩ := List.exists_mem_of_ne_nil ops hops
  have hreached := hafter _ (mem_versions_commitWrites.mpr (.inr ⟨op, hop, rfl⟩))
  rcases hfound with hzero | ⟨version, hversion, heq⟩
  · rw [hzero] at hreached ⊢
    exact UInt64.le_antisymm UInt64.zero_le hreached
  · rcases mem_versions_commitWrites.mp hversion with hold | ⟨op, -, rfl⟩
    · rw [← heq] at hreached
      exact absurd (UInt64.lt_of_le_of_lt ((latest_spec data).1 version hold) hnewer)
        (UInt64.not_lt.mpr hreached)
    · exact heq.symm

/-- The clock in memory is the one that would be rebuilt. -/
def Clocked (db : DB) : Prop := db.nextTime = loadNextTime db.store.data

/-- No command without a result meets a clock that has come around, from the newest version on. -/
def Roomy (state : ApplicationSnapshot) : ℕ → List ApplyCommand → Prop
  | _, [] => True
  | newest, c :: rest => (fresh state c = true → newest + 1 < 2 ^ 64) ∧
    Roomy state (newest + (writer state c).toNat) rest

instance (state : ApplicationSnapshot) (newest : ℕ) (l : List ApplyCommand) :
    Decidable (Roomy state newest l) := by
  induction l generalizing newest with
  | nil => exact .isTrue trivial
  | cons c rest ih => exact instDecidableAnd

variable {db db' : DB} {digestCommand : Command → StateDigest} {c : ApplyCommand}

theorem Clocked.openStore_eq (hclocked : Clocked db) : openStore db.store = db := by
  obtain ⟨store, nextTime⟩ := db
  exact congrArg (DB.mk store) hclocked.symm

/-- A command keeps the clock in step with the data, and takes a time if it writes. Assumes: the
clock has not come around if the command has no result. -/
theorem Clocked.applyReadyCommand (hclocked : Clocked db)
    (hroom : fresh db.store.application c = true → (latest db.store.data).toNat + 1 < 2 ^ 64)
    (happly : applyReadyCommand digestCommand db c = .ok db') :
    Clocked db' ∧ (latest db'.store.data).toNat =
      (latest db.store.data).toNat + (writer db.store.application c).toNat := by
  obtain ⟨-, ⟨⟨response, hresult⟩, rfl⟩ | ⟨hnone, ops, response, hwriter, rfl⟩⟩ :=
    applyReadyCommand_cases happly
  · have hold : writer db'.store.application c = false := by
      simp [writer, fresh, Store.application, hresult]
    exact ⟨hclocked, by rw [hold]; rfl⟩
  · have hlast := hroom (by simp [fresh, Store.application, hnone])
    have hsucc : (latest db.store.data + 1).toNat = (latest db.store.data).toNat + 1 := by
      rw [UInt64.toNat_add]
      exact Nat.mod_eq_of_lt hlast
    have hnewer : latest db.store.data < latest db.store.data + 1 := by
      rw [UInt64.lt_iff_toNat_lt, hsucc]
      exact Nat.lt_succ_self _
    have htick : tick db.nextTime = latest db.store.data + 1 := by
      rw [hclocked, loadNextTime_eq, tick, if_neg]
      intro hzero
      rw [hzero] at hsucc
      exact absurd hsucc (Nat.succ_ne_zero _).symm
    rw [hwriter, executed, htick, stageOps]
    by_cases hops : ops = []
    · subst hops
      exact ⟨loadNextTime_eq _, rfl⟩
    · rw [if_neg (by simpa using hops)]
      have hlatest := latest_commitWrites hops hnewer
      refine ⟨?_, ?_⟩
      · change latest db.store.data + 1 + 1 = loadNextTime (commitWrites db.store.data _)
        rw [loadNextTime_eq, hlatest]
      · change (latest (commitWrites db.store.data _)).toNat = _
        rw [hlatest, hsucc, List.isEmpty_eq_false_iff.mpr hops]
        rfl

/-- A command that is applied changes neither the result nor the mark of another. -/
theorem application_of_ne {other : ApplyCommand} (hid : other.command.id ≠ c.command.id)
    (href : other.ref = c.ref → c.ref.isZero = true)
    (happly : applyReadyCommand digestCommand db c = .ok db') :
    db'.store.application.results.get? other.command.id =
        db.store.application.results.get? other.command.id ∧
      db'.store.application.applied.contains other.ref =
        db.store.application.applied.contains other.ref := by
  obtain ⟨-, ⟨-, rfl⟩ | ⟨-, ops, response, -, rfl⟩⟩ := applyReadyCommand_cases happly
  · exact ⟨rfl, rfl⟩
  · refine ⟨FiniteMap.get?_insert_of_ne db.store.results
      (digestCommand c.command, response) hid, ?_⟩
    change (if c.ref.isZero then db.store.applied
      else db.store.applied.insert c.ref ()).contains other.ref =
        db.store.applied.contains other.ref
    split_ifs with hzero
    · rfl
    · rw [FiniteMap.contains, FiniteMap.contains,
        FiniteMap.get?_insert_of_ne _ _ fun heq ↦ hzero (href heq)]

/-- The clock has come around and gone on, behind the data. -/
def Late (db : DB) : Prop :=
  (latest db.store.data).toNat + 1 = 2 ^ 64 ∧ 0 < db.nextTime.toNat

theorem Late.not_clocked (hlate : Late db) : ¬ Clocked db := by
  intro hclocked
  have hpos := hlate.2
  rw [hclocked, loadNextTime_eq, UInt64.toNat_add] at hpos
  exact absurd hpos (by simp [hlate.1])

/-- A command that is executed when the clock has come around leaves it behind the data. -/
theorem late_executed (hmax : (latest db.store.data).toNat + 1 = 2 ^ 64)
    (hbound : (tick db.nextTime).toNat + 1 < 2 ^ 64) (c : ApplyCommand) (ops : List TxnOp)
    (response : Response) :
    Late (executed digestCommand db c ops response) ∧
      (executed digestCommand db c ops response).nextTime.toNat ≤ (tick db.nextTime).toNat + 1 := by
  have htick : 0 < (tick db.nextTime).toNat := by
    rw [tick]
    split_ifs with hzero
    · decide
    · exact Nat.pos_of_ne_zero fun h ↦ hzero (UInt64.toNat_inj.mp h)
  have hsucc : (tick db.nextTime + 1).toNat = (tick db.nextTime).toNat + 1 := by
    rw [UInt64.toNat_add]
    exact Nat.mod_eq_of_lt hbound
  rw [executed, stageOps]
  by_cases hops : ops = []
  · subst hops
    exact ⟨⟨hmax, htick⟩, Nat.le_succ _⟩
  · rw [if_neg (by simpa using hops)]
    refine ⟨⟨?_, hsucc.symm ▸ Nat.succ_pos _⟩, hsucc.le⟩
    have hle : latest db.store.data ≤ _ := latest_le_commitWrites (tick db.nextTime) ops
    rw [UInt64.le_iff_toNat_le] at hle
    change (latest (commitWrites db.store.data (ops.map (stageOp (tick db.nextTime))))).toNat + 1 =
      2 ^ 64
    have hlt := UInt64.toNat_lt
      (latest (commitWrites db.store.data (ops.map (stageOp (tick db.nextTime)))))
    omega

/-! ### The protocol batch again -/

theorem prepareEPaxosHardState_again {current next prepared : HardState}
    (hprepared : prepareEPaxosHardState current next = .ok prepared) :
    prepareEPaxosHardState prepared next = .ok prepared := by
  rw [prepareEPaxosHardState] at hprepared ⊢
  split_ifs at hprepared with hempty hinvalid hregress
  · rw [if_pos hempty]
  · cases hprepared
    rw [if_neg hempty, if_neg hinvalid, if_neg]
    rintro ⟨-, htick | hconf | ⟨-, hvoters⟩⟩
    · exact lt_irrefl _ htick
    · exact lt_irrefl _ hconf
    · exact hvoters rfl

theorem stageEPaxosCheckpoint_again {stored staged : Option Checkpoint}
    (hstaged : stageEPaxosCheckpoint stored rd = .ok staged) :
    stageEPaxosCheckpoint staged rd = .ok staged := by
  by_cases hnone : rd.snapshot = none ∧ rd.compact = []
  · rw [stageEPaxosCheckpoint, if_pos hnone]
  · rw [stageEPaxosCheckpoint, if_neg hnone] at hstaged ⊢
    dsimp only at hstaged ⊢
    cases hsnapshot : rd.snapshot with
    | none =>
      rw [hsnapshot] at hstaged hnone
      have hcompact : rd.compact ≠ [] := fun h ↦ hnone ⟨rfl, h⟩
      simp only [Option.map_none, Option.getD_none, ne_eq, not_true_eq_false, false_and, if_false,
        hcompact] at hstaged ⊢
      split_ifs at hstaged with hinvalid
      cases hstaged
      exact if_neg hinvalid
    | some snapshot =>
      rw [hsnapshot] at hstaged
      exact hstaged

theorem get?_stageEPaxosRecords (records : FiniteMap InstanceRef InstanceRecord)
    (staged : List InstanceRecord) (ref : InstanceRef) :
    (stageEPaxosRecords records staged).get? ref =
      (staged.reverse.find? fun rec ↦ rec.ref = ref).or (records.get? ref) := by
  induction staged generalizing records with
  | nil => rfl
  | cons rec staged ih =>
    rw [stageEPaxosRecords, List.foldl_cons]
    refine (ih _).trans ?_
    rw [List.reverse_cons, List.find?_append, FiniteMap.get?_insert, Option.or_assoc]
    congr 1
    by_cases href : ref = rec.ref
    · simp [href]
    · simp [href, Ne.symm href]

theorem get?_deleteRanges (records : FiniteMap InstanceRef InstanceRecord)
    (ranges : List CompactionRange) (ref : InstanceRef) :
    (deleteRanges records ranges).get? ref =
      if ranges.any (CompactionRange.covers · ref) then none else records.get? ref := by
  rw [deleteRanges, FiniteMap.keys, List.filter_map, List.foldl_map]
  exact records.get?_eraseSelected (fun ref ↦ ranges.any (CompactionRange.covers · ref)) ref

theorem stageRecords_again (records : FiniteMap InstanceRef InstanceRecord) (rd : Ready) :
    deleteRanges (stageEPaxosRecords (deleteRanges
      (stageEPaxosRecords records rd.records) rd.compact)
      rd.records) rd.compact = deleteRanges (stageEPaxosRecords records rd.records) rd.compact := by
  refine FiniteMap.ext fun ref ↦ ?_
  simp only [get?_deleteRanges, get?_stageEPaxosRecords]
  split_ifs
  · rfl
  · cases rd.records.reverse.find? fun rec ↦ rec.ref = ref with
    | none => rfl
    | some rec => rfl

theorem persistReady_eq_ok
    (hpersist : persistReady store rd = .ok store') :
    ∃ hardState checkpoint, prepareEPaxosHardState store.hardState rd.hardState = .ok hardState ∧
      stageEPaxosCheckpoint store.checkpoint rd = .ok checkpoint ∧
      store' = { store with
        records := deleteRanges (stageEPaxosRecords store.records rd.records) rd.compact
        checkpoint
        hardState } := by
  obtain ⟨hardState, hprepared, hpersist⟩ := bind_eq_ok.mp hpersist
  obtain ⟨checkpoint, hstaged, hstore⟩ := bind_eq_ok.mp hpersist
  exact ⟨hardState, checkpoint, hprepared, hstaged, (Except.ok.inj hstore).symm⟩

/-- The protocol batch changes nothing when it is committed again. -/
theorem persistReady_again
    (hpersist : persistReady store rd = .ok store') : persistReady store' rd = .ok store' := by
  obtain ⟨hardState, checkpoint, hprepared, hstaged, rfl⟩ := persistReady_eq_ok hpersist
  rw [persistReady, prepareEPaxosHardState_again hprepared, stageEPaxosCheckpoint_again hstaged,
    stageRecords_again]
  rfl

/-! ### Application state and protocol state -/

/-- The protocol batch does not look at the application state. -/
theorem persistReady_restore (store : Store) (snapshot : ApplicationSnapshot) (rd : Ready) :
    persistReady (store.restore snapshot) rd =
      (persistReady store rd).map fun store' ↦ store'.restore snapshot := by
  rw [persistReady, persistReady]
  change (prepareEPaxosHardState store.hardState rd.hardState >>= fun hardState ↦
    stageEPaxosCheckpoint store.checkpoint rd >>= fun checkpoint ↦ _) = _
  cases prepareEPaxosHardState store.hardState rd.hardState with
  | error err => rfl
  | ok hardState =>
    cases stageEPaxosCheckpoint store.checkpoint rd with
    | error err => rfl
    | ok checkpoint => rfl

theorem persistReady_application
    (hpersist : persistReady store rd = .ok store') :
    store'.application = store.application ∧ store'.bundles = store.bundles := by
  obtain ⟨hardState, checkpoint, -, -, rfl⟩ := persistReady_eq_ok hpersist
  exact ⟨rfl, rfl⟩

/-- A snapshot is validated against the bundles alone. -/
theorem validateApplicationSnapshot_congr {codec : BundleCodec}
    (hbundles : store'.bundles = store.bundles) (checkpoint : Checkpoint) :
    validateApplicationSnapshot codec store' checkpoint =
      validateApplicationSnapshot codec store checkpoint := by
  have hbundle : ∀ handle, applicationSnapshotBundle codec store' handle =
      applicationSnapshotBundle codec store handle := fun handle ↦ by
    rw [applicationSnapshotBundle, applicationSnapshotBundle, hbundles]
  rw [validateApplicationSnapshot, validateApplicationSnapshot, hbundle]

/-- A command changes the application state only. -/
theorem applyReadyCommand_restore {digestCommand : Command → StateDigest} {db' : DB}
    {c : ApplyCommand} (happly : applyReadyCommand digestCommand db c = .ok db') :
    db'.store = db.store.restore db'.store.application := by
  obtain ⟨-, ⟨-, rfl⟩ | ⟨-, ops, response, -, rfl⟩⟩ := applyReadyCommand_cases happly
  · rfl
  · rfl

/-! ### Stages that are done -/

section

variable (codec : BundleCodec) (digestCommand : Command → StateDigest) (rd : Ready)

/-- A stage that has succeeded and would not change the store again. -/
def Done (stage : Stage) (db : DB) : Prop :=
  match stage with
  | .validate snapshot =>
    ∃ state, validateApplicationSnapshot codec db.store snapshot.checkpoint = .ok state
  | .persist => persistReady db.store rd = .ok db.store
  | .install _ => False
  | .command c => c.command.id ≠ {} ∧
    ∃ response, db.store.results.get? c.command.id = some (digestCommand c.command, response)

variable {codec digestCommand rd} {db db' : DB} {stage other : Stage}

theorem Done.skip (hdone : Done codec digestCommand rd stage db) :
    performStage codec digestCommand rd db stage = .ok db := by
  cases stage with
  | validate snapshot =>
    obtain ⟨state, hstate⟩ := hdone
    rw [performStage, hstate]
    rfl
  | persist =>
    have hpersist : persistReady db.store rd = .ok db.store := hdone
    rw [performStage, hpersist]
    rfl
  | install checkpoint => exact hdone.elim
  | command c =>
    obtain ⟨hid, response, hresult⟩ := hdone
    rw [performStage, applyReadyCommand, if_neg hid, hresult]
    exact if_neg (not_not.mpr rfl)

theorem Done.openStore (hdone : Done codec digestCommand rd stage db) :
    Done codec digestCommand rd stage (openStore db.store) := by
  cases stage <;> exact hdone

/-- A stage other than an installation is done once it has succeeded. -/
theorem done_of_performStage (hinstall : ∀ checkpoint, stage ≠ .install checkpoint)
    (hperform : performStage codec digestCommand rd db stage = .ok db') :
    Done codec digestCommand rd stage db' := by
  cases stage with
  | validate snapshot =>
    obtain ⟨state, hstate, rfl⟩ := map_eq_ok hperform
    exact ⟨state, hstate⟩
  | persist =>
    obtain ⟨store, hpersist, rfl⟩ := map_eq_ok hperform
    exact persistReady_again hpersist
  | install checkpoint => exact absurd rfl (hinstall checkpoint)
  | command c =>
    obtain ⟨hid, ⟨hresult, rfl⟩ | ⟨-, ops, response, -, rfl⟩⟩ := applyReadyCommand_cases hperform
    · exact ⟨hid, hresult⟩
    · exact ⟨hid, response, FiniteMap.get?_insert_self _ _ _⟩

/-- What a stage other than an installation leaves as it is. -/
theorem performStage_frame (hinstall : ∀ checkpoint, stage ≠ .install checkpoint)
    (hperform : performStage codec digestCommand rd db stage = .ok db') :
    db'.store.bundles = db.store.bundles ∧
      (persistReady db.store rd = .ok db.store → persistReady db'.store rd = .ok db'.store) ∧
      ∀ id result, db.store.results.get? id = some result →
        db'.store.results.get? id = some result := by
  cases stage with
  | validate snapshot =>
    obtain ⟨state, hstate, rfl⟩ := map_eq_ok hperform
    exact ⟨rfl, fun h ↦ h, fun _ _ h ↦ h⟩
  | persist =>
    obtain ⟨store, hpersist, rfl⟩ := map_eq_ok hperform
    obtain ⟨happlication, hbundles⟩ := persistReady_application hpersist
    refine ⟨hbundles, fun _ ↦ persistReady_again hpersist, fun id result hresult ↦ ?_⟩
    rw [← hresult]
    exact congrArg (fun state : ApplicationSnapshot ↦ state.results.get? id) happlication
  | install checkpoint => exact absurd rfl (hinstall checkpoint)
  | command c =>
    have hrestore := applyReadyCommand_restore hperform
    have hbundles : db'.store.bundles = (db.store.restore db'.store.application).bundles :=
      congrArg Store.bundles hrestore
    refine ⟨hbundles, fun hpersist ↦ ?_, results_applyReadyCommand hperform⟩
    rw [hrestore, persistReady_restore, hpersist]
    rfl

theorem Done.kept (hdone : Done codec digestCommand rd stage db)
    (hinstall : ∀ checkpoint, other ≠ .install checkpoint)
    (hperform : performStage codec digestCommand rd db other = .ok db') :
    Done codec digestCommand rd stage db' := by
  obtain ⟨hbundles, hpersisted, hresults⟩ := performStage_frame hinstall hperform
  cases stage with
  | validate snapshot =>
    obtain ⟨state, hstate⟩ := hdone
    exact ⟨state, (validateApplicationSnapshot_congr hbundles _).trans hstate⟩
  | persist => exact hpersisted hdone
  | install checkpoint => exact hdone
  | command c =>
    obtain ⟨hid, response, hresult⟩ := hdone
    exact ⟨hid, response, hresults _ _ hresult⟩

/-! ### The call cut off and repeated -/

/-- The application state that the commands of a batch start from. -/
def startingState (codec : BundleCodec) (store : Store) (rd : Ready) :
    Except KVError ApplicationSnapshot :=
  match installs rd with
  | none => .ok store.application
  | some snapshot => validateApplicationSnapshot codec store snapshot.checkpoint

/-- No command of the batch that has no result meets a clock that has come around. With an
installation the clock does not matter: it is rebuilt from the snapshot each time. -/
def ClockRoom (store : Store) (rd : Ready) : Prop :=
  installs rd = none → Roomy store.application (latest store.data).toNat rd.apply

variable {store : Store} {snapshot : Snapshot}

theorem startingState_of_installs
    (hinstalls : installs rd = some snapshot) :
    startingState codec store rd = validateApplicationSnapshot codec store snapshot.checkpoint := by
  rw [startingState, hinstalls]

theorem startingState_of_no_install (hinstalls : installs rd = none) :
    startingState codec store rd = .ok store.application := by
  rw [startingState, hinstalls]

theorem stages_of_installs (hinstalls : installs rd = some snapshot) :
    stages rd =
      .validate snapshot :: .persist :: .install snapshot.checkpoint :: rd.apply.map .command := by
  have hsnapshot : rd.snapshot = some snapshot := (Option.filter_eq_some_iff.mp hinstalls).1
  have hpersists : persists rd = true := by simp [persists, hsnapshot]
  rw [stages, hinstalls, hsnapshot, hpersists]
  rfl

theorem not_install_of_mem_stages (hinstalls : installs rd = none) (hstage : stage ∈ stages rd)
    (checkpoint : Checkpoint) : stage ≠ .install checkpoint := by
  rintro rfl
  rw [stages, hinstalls] at hstage
  simp only [List.mem_append, List.mem_map, Option.toList_none, List.not_mem_nil] at hstage
  rcases hstage with ((⟨_, -, h⟩ | h) | ⟨_, h, -⟩) | ⟨_, -, h⟩
  · cases h
  · split_ifs at h
    · cases List.mem_singleton.mp h
    · cases h
  · exact h
  · cases h

/-- Without an installation the whole call is repeated stage by stage. -/
theorem retry_of_no_install (hinstalls : installs rd = none) (db : DB) (k : ℕ) :
    perform (performStage codec digestCommand rd) (stages rd)
        (perform (performStage codec digestCommand rd) ((stages rd).take k) db).1 =
      perform (performStage codec digestCommand rd) (stages rd) db :=
  perform_retry (fun _ _ _ hdone ↦ hdone.skip)
    (fun _ ha _ _ hperform ↦ done_of_performStage (not_install_of_mem_stages hinstalls ha) hperform)
    (fun _ _ _ hb _ _ hdone hperform ↦ hdone.kept (not_install_of_mem_stages hinstalls hb) hperform)
    db k

/-- Validation and the protocol batch keep the data and the clock. -/
theorem performStage_data (hinstall : ∀ checkpoint, stage ≠ .install checkpoint)
    (hcommand : ∀ c, stage ≠ .command c)
    (hperform : performStage codec digestCommand rd db stage = .ok db') :
    db'.store.application = db.store.application ∧ db'.nextTime = db.nextTime := by
  cases stage with
  | validate snapshot =>
    obtain ⟨state, hstate, rfl⟩ := map_eq_ok hperform
    exact ⟨rfl, rfl⟩
  | persist =>
    obtain ⟨store, hpersist, rfl⟩ := map_eq_ok hperform
    exact ⟨(persistReady_application hpersist).1, rfl⟩
  | install checkpoint => exact absurd rfl (hinstall checkpoint)
  | command c => exact absurd rfl (hcommand c)

/-- The stages ahead of the commands, without an installation. -/
theorem stages_of_no_install (hinstalls : installs rd = none) :
    ∃ ahead, stages rd = ahead ++ rd.apply.map .command ∧
      ∀ stage ∈ ahead, (∀ checkpoint, stage ≠ .install checkpoint) ∧ ∀ c, stage ≠ .command c := by
  refine ⟨_, rfl, fun stage hstage ↦ ?_⟩
  rw [hinstalls] at hstage
  simp only [List.mem_append, List.mem_map, Option.toList_none, List.not_mem_nil] at hstage
  rcases hstage with (⟨_, -, rfl⟩ | hpersist) | ⟨_, hnone, -⟩
  · simp
  · split_ifs at hpersist
    · rw [List.mem_singleton.mp hpersist]
      simp
    · cases hpersist
  · exact hnone.elim

section

variable {l : List ApplyCommand} (hids : l.Pairwise fun a b ↦ a.command.id ≠ b.command.id)
  (hrefs : l.Pairwise fun a b ↦ a.ref = b.ref → a.ref.isZero = true)

include hids hrefs

/-- Room for the commands that are left. -/
theorem roomy_congr {c : ApplyCommand} {rest : List ApplyCommand} (hl : l = c :: rest) (newest : ℕ)
    (happly : applyReadyCommand digestCommand db c = .ok db') :
    Roomy db'.store.application newest rest ↔ Roomy db.store.application newest rest := by
  subst hl
  have hrest := (List.pairwise_cons.mp hids).1
  have hzero := (List.pairwise_cons.mp hrefs).1
  clear hids hrefs
  induction rest generalizing newest with
  | nil => exact Iff.rfl
  | cons other rest ih =>
    obtain ⟨hresult, hmark⟩ := application_of_ne (hrest other List.mem_cons_self).symm
      (fun heq ↦ hzero other List.mem_cons_self heq.symm) happly
    rw [Roomy, Roomy, writer, writer, fresh, fresh, hresult, hmark]
    exact and_congr_right fun _ ↦ ih _ (fun a ha ↦ hrest a (List.mem_cons_of_mem _ ha))
      fun a ha ↦ hzero a (List.mem_cons_of_mem _ ha)

/-- Where the clock does not come around it stays in step, however far the commands get. -/
theorem clocked_commands (hclocked : Clocked db)
    (hroomy : Roomy db.store.application (latest db.store.data).toNat l) (k : ℕ) :
    Clocked (perform (performStage codec digestCommand rd) ((l.map .command).take k) db).1 := by
  induction l generalizing db k with
  | nil =>
    rw [List.map_nil, List.take_nil]
    exact hclocked
  | cons c rest ih =>
    cases k with
    | zero => exact hclocked
    | succ k =>
      rw [List.map_cons, List.take_succ_cons]
      cases hstep : performStage codec digestCommand rd db (.command c) with
      | error err =>
        rw [perform_cons_error _ hstep]
        exact hclocked
      | ok next =>
        rw [perform_cons_ok _ hstep]
        obtain ⟨hnext, hlatest⟩ := hclocked.applyReadyCommand hroomy.1 hstep
        refine ih (List.pairwise_cons.mp hids).2 (List.pairwise_cons.mp hrefs).2 hnext ?_ k
        rw [roomy_congr hids hrefs rfl _ hstep, hlatest]
        exact hroomy.2

end

/-- Once the clock has gone on behind the data it stays there, until it comes around again. -/
theorem late_commands {l : List ApplyCommand} (hlate : Late db)
    (hbound : db.nextTime.toNat + l.length < 2 ^ 64) :
    Late (perform (performStage codec digestCommand rd) (l.map .command) db).1 := by
  induction l generalizing db with
  | nil => exact hlate
  | cons c rest ih =>
    rw [List.map_cons]
    rw [List.length_cons] at hbound
    cases hstep : performStage codec digestCommand rd db (.command c) with
    | error err =>
      rw [perform_cons_error _ hstep]
      exact hlate
    | ok next =>
      rw [perform_cons_ok _ hstep]
      obtain ⟨-, ⟨-, rfl⟩ | ⟨-, ops, response, -, rfl⟩⟩ := applyReadyCommand_cases hstep
      · exact ih hlate (by omega)
      · have htick : tick db.nextTime = db.nextTime :=
          if_neg fun hzero ↦ hlate.2.ne' (congrArg UInt64.toNat hzero)
        obtain ⟨hlate, hle⟩ := late_executed hlate.1 (by rw [htick]; omega) c ops response
        rw [htick] at hle
        exact ih hlate (by omega)

/-- The clock is in step after all commands only if it did not come around on the way. -/
theorem roomy_of_clocked {l : List ApplyCommand}
    (hids : l.Pairwise fun a b ↦ a.command.id ≠ b.command.id)
    (hrefs : l.Pairwise fun a b ↦ a.ref = b.ref → a.ref.isZero = true)
    (hlength : l.length + 1 < 2 ^ 64) (hclocked : Clocked db)
    (hsuccess : (perform (performStage codec digestCommand rd) (l.map .command) db).2 = none)
    (hafter : Clocked (perform (performStage codec digestCommand rd) (l.map .command) db).1) :
    Roomy db.store.application (latest db.store.data).toNat l := by
  induction l generalizing db with
  | nil => trivial
  | cons c rest ih =>
    obtain ⟨next, hstep, hnext⟩ := exists_perform_cons hsuccess
    rw [List.map_cons, hnext] at hsuccess hafter
    rw [List.length_cons] at hlength
    have hroom : fresh db.store.application c = true →
        (latest db.store.data).toNat + 1 < 2 ^ 64 := by
      intro hfresh
      have hlt := UInt64.toNat_lt (latest db.store.data)
      by_contra hmax
      have hmax : (latest db.store.data).toNat + 1 = 2 ^ 64 := by omega
      -- the command takes time 1, and the commands after it do not come back to zero
      have htick : tick db.nextTime = 1 := by
        refine if_pos (UInt64.toNat_inj.mp ?_)
        rw [hclocked, loadNextTime_eq, UInt64.toNat_add]
        simp [hmax]
      obtain ⟨-, ⟨⟨response, hresult⟩, -⟩ | ⟨-, ops, response, -, rfl⟩⟩ :=
        applyReadyCommand_cases hstep
      · simp [fresh, Store.application, hresult] at hfresh
      · obtain ⟨hlate, hle⟩ := late_executed hmax (by rw [htick]; decide) c ops response
        rw [htick] at hle
        refine (late_commands hlate ?_).not_clocked hafter
        exact lt_of_le_of_lt (Nat.add_le_add_right hle _) (by rw [UInt64.toNat_one]; omega)
    obtain ⟨hnext, hlatest⟩ := hclocked.applyReadyCommand hroom hstep
    refine ⟨hroom, ?_⟩
    rw [← roomy_congr hids hrefs rfl _ hstep, ← hlatest]
    exact ih (List.pairwise_cons.mp hids).2 (List.pairwise_cons.mp hrefs).2
      (Nat.lt_of_succ_lt hlength) hnext hsuccess hafter

/-- The stages ahead of the commands keep the data and the clock. -/
theorem perform_ahead (codec : BundleCodec) (digestCommand : Command → StateDigest) (rd : Ready)
    {l : List Stage} (hl : ∀ stage ∈ l, (∀ checkpoint, stage ≠ .install checkpoint) ∧
      ∀ c, stage ≠ .command c) (db : DB) :
    (perform (performStage codec digestCommand rd) l db).1.store.application =
        db.store.application ∧
      (perform (performStage codec digestCommand rd) l db).1.nextTime = db.nextTime := by
  refine perform_induction (P := fun after : DB ↦
    after.store.application = db.store.application ∧ after.nextTime = db.nextTime) ⟨rfl, rfl⟩ ?_
  intro stage hstage before after hbefore hperform
  obtain ⟨happlication, htime⟩ := performStage_data (hl stage hstage).1 (hl stage hstage).2 hperform
  exact ⟨happlication.trans hbefore.1, htime.trans hbefore.2⟩

theorem clocked_congr (happlication : db'.store.application = db.store.application)
    (htime : db'.nextTime = db.nextTime) : Clocked db' ↔ Clocked db := by
  have hdata : db'.store.data = db.store.data := congrArg ApplicationSnapshot.data happlication
  rw [Clocked, Clocked, hdata, htime]

section

variable (hids : rd.apply.Pairwise fun a b ↦ a.command.id ≠ b.command.id)
  (hrefs : rd.apply.Pairwise fun a b ↦ a.ref = b.ref → a.ref.isZero = true)

include hids hrefs

/-- Without an installation, a call for which there is room can be cut off anywhere: the clock is
rebuilt to what it was. -/
theorem clocked_of_roomy (codec : BundleCodec) (digestCommand : Command → StateDigest)
    (hinstalls : installs rd = none)
    (hroomy : Roomy store.application (latest store.data).toNat rd.apply) (k : ℕ) :
    Clocked (perform (performStage codec digestCommand rd) ((stages rd).take k)
      (openStore store)).1 := by
  obtain ⟨ahead, hstages, hahead⟩ := stages_of_no_install hinstalls
  rw [hstages, List.take_append, perform_append]
  have hkept := perform_ahead codec digestCommand rd
    (fun stage hstage ↦ hahead stage (List.mem_of_mem_take (i := k) hstage)) (openStore store)
  generalize perform (performStage codec digestCommand rd) (ahead.take k) (openStore store) =
    prepared at hkept
  have hclocked : Clocked prepared.1 := (clocked_congr hkept.1 hkept.2).mpr rfl
  obtain ⟨prepared, _ | err⟩ := prepared
  · refine clocked_commands hids hrefs hclocked ?_ _
    have hdata : prepared.store.data = store.data := congrArg ApplicationSnapshot.data hkept.1
    rw [hkept.1, hdata]
    exact hroomy
  · exact hclocked

/-- Without an installation, a call that succeeds and could be repeated after its last stage had
room. -/
theorem roomy_of_retry (hinstalls : installs rd = none) (hlength : rd.apply.length + 1 < 2 ^ 64)
    (hsuccess : (applyReady codec digestCommand (openStore store) rd).2 = none)
    (hretry : applyReady codec digestCommand
        (crashed codec digestCommand (openStore store) rd (stages rd).length) rd =
      applyReady codec digestCommand (openStore store) rd) :
    Roomy store.application (latest store.data).toNat rd.apply := by
  -- repeated as a whole the call changes nothing, so the clock is rebuilt to what it was
  have hafter : Clocked (applyReady codec digestCommand (openStore store) rd).1 := by
    rw [crashed, List.take_length] at hretry
    have hdone : ∀ stage ∈ stages rd, Done codec digestCommand rd stage
        (applyReady codec digestCommand (openStore store) rd).1 :=
      done_of_perform
        (fun _ ha _ _ hperform ↦
          done_of_performStage (not_install_of_mem_stages hinstalls ha) hperform)
        (fun _ _ _ hb _ _ hdone hperform ↦
          hdone.kept (not_install_of_mem_stages hinstalls hb) hperform) hsuccess
    have hagain : applyReady codec digestCommand
        (openStore (applyReady codec digestCommand (openStore store) rd).1.store) rd = _ :=
      perform_of_done (fun _ _ _ hdone ↦ hdone.skip) fun stage hstage ↦
        (hdone stage hstage).openStore
    have heq := congrArg Prod.fst (hagain.symm.trans hretry)
    exact (congrArg DB.nextTime heq).symm
  obtain ⟨ahead, hstages, hahead⟩ := stages_of_no_install hinstalls
  rw [applyReady, hstages, perform_append] at hsuccess hafter
  have hkept := perform_ahead codec digestCommand rd hahead (openStore store)
  generalize perform (performStage codec digestCommand rd) ahead (openStore store) =
    prepared at hkept hsuccess hafter
  obtain ⟨prepared, _ | err⟩ := prepared
  · have hclocked : Clocked prepared := (clocked_congr hkept.1 hkept.2).mpr rfl
    have hroomy := roomy_of_clocked hids hrefs hlength hclocked hsuccess hafter
    have hdata : prepared.store.data = store.data := congrArg ApplicationSnapshot.data hkept.1
    rwa [hkept.1, hdata] at hroomy
  · cases hsuccess

end

/-- The store right after an installation on top of the protocol batch. -/
def installed (store : Store) (state : ApplicationSnapshot) : DB :=
  ⟨store.restore state, loadNextTime state.data⟩

/-- A call that installs a snapshot applies its commands to the snapshot, on top of the protocol
batch. -/
theorem perform_of_installs (hinstalls : installs rd = some snapshot)
    {state : ApplicationSnapshot}
    (hvalid : validateApplicationSnapshot codec db.store snapshot.checkpoint = .ok state)
    (hpersist : persistReady db.store rd = .ok store) :
    perform (performStage codec digestCommand rd) (stages rd) db =
      perform (performStage codec digestCommand rd) (rd.apply.map .command)
        (installed store state) := by
  have hdone : Done codec digestCommand rd (.validate snapshot) db := ⟨state, hvalid⟩
  have hstep : performStage codec digestCommand rd db .persist = .ok { db with store } := by
    rw [performStage, hpersist]
    rfl
  have hinstall : performStage codec digestCommand rd { db with store }
      (.install snapshot.checkpoint) = .ok (installed store state) := by
    rw [performStage, installApplicationSnapshot,
      (validateApplicationSnapshot_congr (persistReady_application hpersist).2 _).trans hvalid]
    rfl
  rw [stages_of_installs hinstalls, perform_cons_ok _ hdone.skip, perform_cons_ok _ hstep,
    perform_cons_ok _ hinstall]

/-- What a crash leaves of a call that installs a snapshot: the store as it was, or the protocol
batch with some application state. -/
theorem crashed_of_installs (codec : BundleCodec) (digestCommand : Command → StateDigest)
    (hinstalls : installs rd = some snapshot) (db : DB) (k : ℕ) :
    let cut := (perform (performStage codec digestCommand rd) ((stages rd).take k) db).1
    cut.store = db.store ∨ ∃ store state,
      validateApplicationSnapshot codec db.store snapshot.checkpoint = .ok state ∧
      persistReady db.store rd = .ok store ∧ cut.store = store.restore cut.store.application := by
  rw [stages_of_installs hinstalls]
  rcases k with _ | k
  · exact .inl rfl
  cases hvalidate : performStage codec digestCommand rd db (.validate snapshot) with
  | error err =>
    rw [List.take_succ_cons, perform_cons_error _ hvalidate]
    exact .inl rfl
  | ok validated =>
    rw [List.take_succ_cons, perform_cons_ok _ hvalidate]
    obtain ⟨state, hstate, rfl⟩ := map_eq_ok hvalidate
    rcases k with _ | k
    · exact .inl rfl
    cases hpersist : persistReady db.store rd with
    | error err =>
      have hstep : performStage codec digestCommand rd db .persist = .error err := by
        rw [performStage, hpersist]
        rfl
      rw [List.take_succ_cons, perform_cons_error _ hstep]
      exact .inl rfl
    | ok store =>
      obtain ⟨happlication, hbundles⟩ := persistReady_application hpersist
      have hstep : performStage codec digestCommand rd db .persist = .ok { db with store } := by
        rw [performStage, hpersist]
        rfl
      rw [List.take_succ_cons, perform_cons_ok _ hstep]
      refine .inr ⟨store, state, hstate, rfl, ?_⟩
      rcases k with _ | k
      · rfl
      have hinstall : performStage codec digestCommand rd { db with store }
          (.install snapshot.checkpoint) = .ok (installed store state) := by
        rw [performStage, installApplicationSnapshot,
          (validateApplicationSnapshot_congr hbundles _).trans hstate]
        rfl
      rw [List.take_succ_cons, perform_cons_ok _ hinstall, ← List.map_take]
      -- the commands change the application state only
      refine perform_induction (P := fun db : DB ↦ db.store = store.restore db.store.application)
        rfl ?_
      intro stage hstage db next hdb hperform
      obtain ⟨c, -, rfl⟩ := List.mem_map.mp hstage
      rw [applyReadyCommand_restore hperform, hdb]
      rfl

/-- A call that installs a snapshot can be repeated after any crash: the protocol batch is found
committed, and the installation replaces the rest, the clock included. -/
theorem retry_of_installs (hinstalls : installs rd = some snapshot) (k : ℕ) :
    applyReady codec digestCommand (crashed codec digestCommand (openStore store) rd k) rd =
      applyReady codec digestCommand (openStore store) rd := by
  have hcut := crashed_of_installs codec digestCommand hinstalls (openStore store) k
  rw [crashed, applyReady, applyReady]
  dsimp only at hcut
  generalize (perform (performStage codec digestCommand rd) ((stages rd).take k)
    (openStore store)).1.store = cut at hcut
  rcases hcut with heq | ⟨persisted, state, hstate, hpersist, hrestore⟩
  · rw [heq]
    rfl
  · have hbundles : cut.bundles = (persisted.restore cut.application).bundles :=
      congrArg Store.bundles hrestore
    have hvalid : validateApplicationSnapshot codec cut snapshot.checkpoint = .ok state :=
      (validateApplicationSnapshot_congr
        (hbundles.trans (persistReady_application hpersist).2) _).trans hstate
    have hagain : persistReady cut rd = .ok cut := by
      rw [hrestore, persistReady_restore, persistReady_again hpersist]
      rfl
    have hinstalled : installed cut state = installed persisted state := by
      rw [hrestore]
      rfl
    have hsecond : perform (performStage codec digestCommand rd) (stages rd) (openStore cut) = _ :=
      perform_of_installs hinstalls hvalid hagain
    rw [hsecond, perform_of_installs hinstalls hstate hpersist, hinstalled]

/-- A crash loses nothing that the repetition does not restore. -/
theorem retry_of_clockRoom (codec : BundleCodec) (digestCommand : Command → StateDigest)
    (hroom : ClockRoom store rd)
    (hids : rd.apply.Pairwise fun a b ↦ a.command.id ≠ b.command.id)
    (hrefs : rd.apply.Pairwise fun a b ↦ a.ref = b.ref → a.ref.isZero = true) (k : ℕ) :
    applyReady codec digestCommand (crashed codec digestCommand (openStore store) rd k) rd =
      applyReady codec digestCommand (openStore store) rd := by
  cases hinstalls : installs rd with
  | none =>
    have hclocked := clocked_of_roomy hids hrefs codec digestCommand hinstalls (hroom hinstalls) k
    rw [crashed, hclocked.openStore_eq]
    exact retry_of_no_install hinstalls (openStore store) k
  | some snapshot => exact retry_of_installs hinstalls k

end

/-! ### Commands take effect once -/

/-- Whether a command is in effect: it has a result, or its instance is marked. -/
def inEffect (state : ApplicationSnapshot) (c : ApplyCommand) : Bool :=
  (state.results.get? c.command.id).isSome || state.applied.contains c.ref

/-- A history of the application state: the state it was last set to, and the commands that have
taken effect on it since. -/
structure Ledger where
  base : ApplicationSnapshot
  effects : List ApplyCommand := []

/-- A command takes effect when it is applied and not yet in effect. -/
def Ledger.record (ledger : Ledger) (db db' : DB) : Stage → Ledger
  | .validate _ | .persist => ledger
  | .install _ => ⟨db'.store.application, []⟩
  | .command c =>
    if inEffect db.store.application c then ledger
    else { ledger with effects := ledger.effects ++ [c] }

section

variable (codec : BundleCodec) (digestCommand : Command → StateDigest)

/-- A stage with its entry in the ledger. -/
def accountStage (rd : Ready) (books : DB × Ledger) (stage : Stage) :
    Except KVError (DB × Ledger) :=
  (performStage codec digestCommand rd books.1 stage).map fun db ↦
    (db, books.2.record books.1 db stage)

/-- The ledger of a call that is cut off after `k` stages and repeated on the store opened again. -/
def retryLedger (db : DB) (rd : Ready) (k : ℕ) : Ledger :=
  let cut := (perform (accountStage codec digestCommand rd) ((stages rd).take k)
    (db, ⟨db.store.application, []⟩)).1
  (perform (accountStage codec digestCommand rd) (stages rd) (openStore cut.1.store, cut.2)).1.2

end

section

variable {codec : BundleCodec} {digestCommand : Command → StateDigest} {rd : Ready} {db db' : DB}
  {snapshot : Snapshot}

variable {books books' : DB × Ledger} {c : ApplyCommand}

theorem accountStage_eq_ok {stage : Stage}
    (haccount : accountStage codec digestCommand rd books stage = .ok books') :
    performStage codec digestCommand rd books.1 stage = .ok books'.1 ∧
      books'.2 = books.2.record books.1 books'.1 stage := by
  obtain ⟨db, hperform, rfl⟩ := map_eq_ok haccount
  exact ⟨hperform, rfl⟩

/-- The effects on the ledger are those the state shows. -/
def Balanced (commands : List ApplyCommand) (books : DB × Ledger) : Prop :=
  ∀ c ∈ commands, books.2.effects.count c + (inEffect books.2.base c).toNat =
    (inEffect books.1.store.application c).toNat

theorem inEffect_of_applied
    (happly : applyReadyCommand digestCommand db c = .ok db') :
    inEffect db'.store.application c = true := by
  have hresult : ∃ result, db'.store.results.get? c.command.id = some result := by
    obtain ⟨-, ⟨⟨response, hresult⟩, rfl⟩ | ⟨-, ops, response, -, rfl⟩⟩ :=
      applyReadyCommand_cases happly
    · exact ⟨_, hresult⟩
    · exact ⟨_, FiniteMap.get?_insert_self _ _ _⟩
  obtain ⟨result, hresult⟩ := hresult
  exact Bool.or_eq_true_iff.mpr (.inl (Option.isSome_iff_exists.mpr ⟨result, hresult⟩))

/-- A command leaves the effect of another alone. -/
theorem inEffect_of_ne {other : ApplyCommand}
    (hid : other.command.id ≠ c.command.id) (href : other.ref = c.ref → c.ref.isZero = true)
    (happly : applyReadyCommand digestCommand db c = .ok db') :
    inEffect db'.store.application other = inEffect db.store.application other := by
  obtain ⟨hresult, hmark⟩ := application_of_ne hid href happly
  rw [inEffect, inEffect, hresult, hmark]

/-- A command keeps the books balanced. -/
theorem Balanced.command {commands : List ApplyCommand}
    (hids : commands.Pairwise fun a b ↦ a.command.id ≠ b.command.id)
    (hrefs : commands.Pairwise fun a b ↦ a.ref = b.ref → a.ref.isZero = true)
    {ledger : Ledger} (hc : c ∈ commands)
    (hbalanced : Balanced commands (db, ledger))
    (happly : applyReadyCommand digestCommand db c = .ok db') :
    Balanced commands (db', ledger.record db db' (.command c)) := by
  have : Std.Symm fun a b : ApplyCommand ↦ a.command.id ≠ b.command.id := ⟨fun _ _ h ↦ h.symm⟩
  have : Std.Symm fun a b : ApplyCommand ↦ a.ref = b.ref → a.ref.isZero = true :=
    ⟨fun _ _ h heq ↦ heq ▸ h heq.symm⟩
  intro other hother
  have hbefore : ledger.effects.count other + (inEffect ledger.base other).toNat =
      (inEffect db.store.application other).toNat := hbalanced other hother
  have hbase : (ledger.record db db' (.command c)).base = ledger.base := by
    rw [Ledger.record]
    split_ifs <;> rfl
  rw [hbase]
  by_cases heq : other = c
  · subst heq
    rw [inEffect_of_applied happly, Ledger.record]
    by_cases heffect : inEffect db.store.application other = true
    · rw [if_pos heffect]
      rwa [heffect] at hbefore
    · rw [if_neg heffect, List.count_append, List.count_singleton_self]
      rw [Bool.not_eq_true] at heffect
      rw [heffect, Bool.toNat_false] at hbefore
      rw [Bool.toNat_true]
      omega
  · have hzero : other.ref = c.ref → c.ref.isZero = true := fun href ↦
      href ▸ hrefs.forall hother hc heq href
    rw [inEffect_of_ne (hids.forall hother hc heq) hzero happly, Ledger.record]
    split_ifs
    · exact hbefore
    · have hnone : [c].count other = 0 := List.count_eq_zero.mpr (by simpa using heq)
      rw [List.count_append, hnone]
      exact hbefore

/-- A stage of the call keeps the books balanced. -/
theorem Balanced.stage {commands : List ApplyCommand}
    (hids : commands.Pairwise fun a b ↦ a.command.id ≠ b.command.id)
    (hrefs : commands.Pairwise fun a b ↦ a.ref = b.ref → a.ref.isZero = true)
    {stage : Stage} (hcommand : ∀ c, stage = .command c → c ∈ commands)
    (hbalanced : Balanced commands books)
    (haccount : accountStage codec digestCommand rd books stage = .ok books') :
    Balanced commands books' := by
  obtain ⟨db, ledger⟩ := books
  obtain ⟨db', ledger'⟩ := books'
  obtain ⟨hperform, hledger⟩ := accountStage_eq_ok haccount
  dsimp only at hperform hledger
  subst hledger
  cases stage with
  | validate snapshot =>
    have hstate := (performStage_data (by simp) (by simp) hperform).1
    intro c hc
    exact (hbalanced c hc).trans (by rw [hstate])
  | persist =>
    have hstate := (performStage_data (by simp) (by simp) hperform).1
    intro c hc
    exact (hbalanced c hc).trans (by rw [hstate])
  | install checkpoint =>
    intro c _
    exact Nat.zero_add _
  | command c => exact hbalanced.command hids hrefs (hcommand c rfl) hperform

theorem mem_of_command_mem_stages (hstage : .command c ∈ stages rd) :
    c ∈ rd.apply := by
  simp only [stages, List.mem_append, List.mem_map] at hstage
  rcases hstage with ((⟨_, -, h⟩ | h) | ⟨_, -, h⟩) | ⟨other, hother, h⟩
  · cases h
  · split_ifs at h
    · cases List.mem_singleton.mp h
    · cases h
  · cases h
  · cases h
    exact hother

theorem accountStage_view (books : DB × Ledger) (stage : Stage) :
    (accountStage codec digestCommand rd books stage).map Prod.fst =
      performStage codec digestCommand rd books.1 stage := by
  rw [accountStage]
  cases performStage codec digestCommand rd books.1 stage <;> rfl

/-- After a call that did not fail, every command is in effect. -/
theorem inEffect_of_applyReady {db : DB}
    (hsuccess : (applyReady codec digestCommand db rd).2 = none)
    (hc : c ∈ rd.apply) :
    inEffect (applyReady codec digestCommand db rd).1.store.application c = true := by
  rw [applyReady, stages, perform_append] at hsuccess ⊢
  generalize perform (performStage codec digestCommand rd) _ db = prepared at hsuccess ⊢
  obtain ⟨prepared, _ | err⟩ := prepared
  · have hcommands : ∀ stage ∈ rd.apply.map Stage.command, ∀ checkpoint,
        stage ≠ .install checkpoint := by
      intro stage hstage checkpoint heq
      obtain ⟨other, -, rfl⟩ := List.mem_map.mp hstage
      cases heq
    have hall : ∀ stage ∈ rd.apply.map Stage.command, Done codec digestCommand rd stage
        (perform (performStage codec digestCommand rd) (rd.apply.map .command) prepared).1 :=
      done_of_perform
        (fun stage hstage _ _ hperform ↦ done_of_performStage (hcommands stage hstage) hperform)
        (fun _ _ other hother _ _ hdone hperform ↦ hdone.kept (hcommands other hother) hperform)
        hsuccess
    obtain ⟨-, response, hresult⟩ := hall (.command c) (List.mem_map_of_mem hc)
    exact Bool.or_eq_true_iff.mpr (.inl (Option.isSome_iff_exists.mpr ⟨_, hresult⟩))
  · cases hsuccess

/-- A stage that is no installation leaves the base of the ledger. -/
theorem base_accountStage {stage : Stage}
    (hinstall : ∀ checkpoint, stage ≠ .install checkpoint)
    (haccount : accountStage codec digestCommand rd books stage = .ok books') :
    books'.2.base = books.2.base := by
  rw [(accountStage_eq_ok haccount).2]
  cases stage with
  | validate snapshot => rfl
  | persist => rfl
  | install checkpoint => exact absurd rfl (hinstall checkpoint)
  | command c =>
    rw [Ledger.record]
    split_ifs <;> rfl

theorem base_perform {l : List Stage} (hl : ∀ stage ∈ l, ∀ checkpoint, stage ≠ .install checkpoint)
    (books : DB × Ledger) :
    (perform (accountStage codec digestCommand rd) l books).1.2.base = books.2.base := by
  refine perform_induction (P := fun after : DB × Ledger ↦ after.2.base = books.2.base) rfl ?_
  intro stage hstage before after hbase haccount
  exact (base_accountStage (hl stage hstage) haccount).trans hbase

/-- No stage changes the stored bundles. -/
theorem bundles_performStage {stage : Stage}
    (hperform : performStage codec digestCommand rd db stage = .ok db') :
    db'.store.bundles = db.store.bundles := by
  cases stage with
  | validate snapshot => exact (performStage_frame (by simp) hperform).1
  | persist => exact (performStage_frame (by simp) hperform).1
  | command c => exact (performStage_frame (by simp) hperform).1
  | install checkpoint =>
    obtain ⟨state, -, rfl⟩ := map_eq_ok hperform
    rfl

theorem validate_of_install {checkpoint : Checkpoint}
    (hperform : performStage codec digestCommand rd db (.install checkpoint) = .ok db') :
    validateApplicationSnapshot codec db.store checkpoint = .ok db'.store.application := by
  obtain ⟨state, hstate, rfl⟩ := map_eq_ok hperform
  exact hstate

/-- The ledger of a call that installs a snapshot and succeeds starts from the snapshot. -/
theorem base_of_installs (hinstalls : installs rd = some snapshot)
    (books : DB × Ledger)
    (hsuccess : (perform (accountStage codec digestCommand rd) (stages rd) books).2 = none) :
    validateApplicationSnapshot codec books.1.store snapshot.checkpoint =
      .ok (perform (accountStage codec digestCommand rd) (stages rd) books).1.2.base := by
  rw [stages_of_installs hinstalls] at hsuccess ⊢
  obtain ⟨validated, hvalidate, hnext⟩ := exists_perform_cons hsuccess
  rw [hnext] at hsuccess ⊢
  obtain ⟨persisted, hpersist, hnext⟩ := exists_perform_cons hsuccess
  rw [hnext] at hsuccess ⊢
  obtain ⟨after, hinstall, hnext⟩ := exists_perform_cons hsuccess
  rw [hnext, base_perform fun stage hstage checkpoint ↦ ?_]
  · obtain ⟨hperform, hledger⟩ := accountStage_eq_ok hinstall
    have hbundles := (bundles_performStage (accountStage_eq_ok hpersist).1).trans
      (bundles_performStage (accountStage_eq_ok hvalidate).1)
    rw [← validateApplicationSnapshot_congr hbundles, hledger]
    exact validate_of_install hperform
  · obtain ⟨c, -, rfl⟩ := List.mem_map.mp hstage
    simp

theorem perform_account (l : List Stage) (books : DB × Ledger) :
    perform (performStage codec digestCommand rd) l books.1 =
      ((perform (accountStage codec digestCommand rd) l books).1.1,
        (perform (accountStage codec digestCommand rd) l books).2) :=
  (perform_view Prod.fst accountStage_view l books).symm

theorem Balanced.perform (hids : rd.apply.Pairwise fun a b ↦ a.command.id ≠ b.command.id)
    (hrefs : rd.apply.Pairwise fun a b ↦ a.ref = b.ref → a.ref.isZero = true) {l : List Stage}
    (hl : ∀ stage ∈ l, stage ∈ stages rd)
    (hbalanced : Balanced rd.apply books) :
    Balanced rd.apply (perform (accountStage codec digestCommand rd) l books).1 := by
  refine perform_induction hbalanced fun stage hstage before after hbefore haccount ↦ ?_
  refine hbefore.stage hids hrefs (fun c hc ↦ ?_) haccount
  exact mem_of_command_mem_stages (hc ▸ hl stage hstage)

/-- The commands and the starting state in the ledger of a repeated call that succeeds. -/
theorem ledger_of_success (start : DB) {cut : DB × Ledger}
    (hbalanced : Balanced rd.apply cut) (hbundles : cut.1.store.bundles = start.store.bundles)
    (hbase : installs rd = none → cut.2.base = start.store.application)
    (hids : rd.apply.Pairwise fun a b ↦ a.command.id ≠ b.command.id)
    (hrefs : rd.apply.Pairwise fun a b ↦ a.ref = b.ref → a.ref.isZero = true)
    (hsuccess : (applyReady codec digestCommand cut.1 rd).2 = none) :
    let ledger := (perform (accountStage codec digestCommand rd) (stages rd) cut).1.2
    startingState codec start.store rd = .ok ledger.base ∧
      ∀ c ∈ rd.apply, ledger.effects.count c = if inEffect ledger.base c then 0 else 1 := by
  have hview : applyReady codec digestCommand cut.1 rd = _ := perform_account (stages rd) cut
  have hafter : Balanced rd.apply (perform (accountStage codec digestCommand rd)
      (stages rd) cut).1 :=
    hbalanced.perform hids hrefs fun _ hstage ↦ hstage
  have heffect := fun c hc ↦ inEffect_of_applyReady hsuccess (c := c) hc
  rw [hview] at hsuccess heffect
  dsimp only at hsuccess heffect
  refine ⟨?_, fun c hc ↦ ?_⟩
  · cases hinstalls : installs rd with
    | none =>
      rw [startingState_of_no_install hinstalls, ← hbase hinstalls]
      refine congrArg Except.ok (base_perform (fun stage hstage ↦ ?_) cut).symm
      exact not_install_of_mem_stages hinstalls hstage
    | some snapshot =>
      rw [startingState_of_installs hinstalls, ← base_of_installs hinstalls cut hsuccess]
      exact (validateApplicationSnapshot_congr hbundles _).symm
  · have hbalance := hafter c hc
    rw [heffect c hc, Bool.toNat_true] at hbalance
    split_ifs with hbefore
    · rw [hbefore, Bool.toNat_true] at hbalance
      exact Nat.succ.inj hbalance
    · rw [Bool.not_eq_true] at hbefore
      rwa [hbefore] at hbalance

/-- Each command in the ledger of a call that was cut off, when its repetition succeeds. -/
theorem retryLedger_of_success (store : Store) {k : ℕ}
    (hids : rd.apply.Pairwise fun a b ↦ a.command.id ≠ b.command.id)
    (hrefs : rd.apply.Pairwise fun a b ↦ a.ref = b.ref → a.ref.isZero = true)
    (hsuccess : (applyReady codec digestCommand
      (crashed codec digestCommand (openStore store) rd k) rd).2 = none) :
    let ledger := retryLedger codec digestCommand (openStore store) rd k
    startingState codec store rd = .ok ledger.base ∧
      ∀ c ∈ rd.apply, ledger.effects.count c = if inEffect ledger.base c then 0 else 1 := by
  have htake : ∀ stage ∈ (stages rd).take k, stage ∈ stages rd := fun _ ↦ List.mem_of_mem_take
  have hview : perform (performStage codec digestCommand rd) ((stages rd).take k)
      (openStore store) = _ := perform_account _ (openStore store, ⟨store.application, []⟩)
  rw [crashed, hview] at hsuccess
  have hbalanced : Balanced rd.apply (perform (accountStage codec digestCommand rd)
      ((stages rd).take k) (openStore store, ⟨store.application, []⟩)).1 :=
    Balanced.perform hids hrefs htake fun _ _ ↦ Nat.zero_add _
  refine @ledger_of_success _ _ _ (openStore store) (openStore _, _) hbalanced ?_
    (fun hinstalls ↦ ?_) hids hrefs hsuccess
  · refine perform_induction (P := fun books : DB × Ledger ↦
      books.1.store.bundles = (openStore store).store.bundles) rfl ?_
    intro stage _ before after hbefore haccount
    exact (bundles_performStage (accountStage_eq_ok haccount).1).trans hbefore
  · exact base_perform (fun stage hstage ↦
      not_install_of_mem_stages hinstalls (htake stage hstage)) _

end

/-- An operation with a valid key and slices of the source. -/
structure TxnOp.Valid (op : TxnOp) : Prop where
  key : validateKey op.key = true
  keyFits : Fits op.key
  valueFits : Fits op.value

/-- The commands built by the constructors from valid keys. -/
inductive WellFormed : Command → Prop
  | put (client seq : ℕ) {key value : Bytes} (hkey : validateKey key = true) (hkeyFits : Fits key)
      (hvalueFits : Fits value) : WellFormed (commandForPut client seq key value)
  | delete (client seq : ℕ) {key : Bytes} (hkey : validateKey key = true) (hkeyFits : Fits key) :
      WellFormed (commandForDelete client seq key)
  | txn (client seq : ℕ) {ops : List TxnOp} (hvalid : ∀ op ∈ ops, op.Valid) (hfits : Fits ops) :
      WellFormed (commandForTxn client seq ops)
  | get (client seq : ℕ) {key : Bytes} (hkey : validateKey key = true) (hkeyFits : Fits key) :
      WellFormed (commandForGet client seq key)
  | scan (client seq : ℕ) {opt : ScanOptions} {command : Command}
      (hcommand : commandForScan client seq opt = .ok command) (hstart : Fits opt.start)
      (hstop : Fits opt.stop) (hpfx : Fits opt.pfx) (hlimit : opt.limit ≤ maxInt) :
      WellFormed command

/-- Commands as instances deliver them: well formed, with ids and instances of their own. -/
structure Delivered (commands : List ApplyCommand) : Prop where
  wellFormed : ∀ c ∈ commands, WellFormed c.command
  named : ∀ c ∈ commands, c.command.id ≠ {}
  ids : commands.Pairwise fun a b ↦ a.command.id ≠ b.command.id
  refs : commands.Pairwise fun a b ↦ a.ref = b.ref → a.ref.isZero = true

/-- A put of a one-byte value by a client of its own. -/
def putOne (client : ℕ) (key : Bytes) : ApplyCommand :=
  { ref := ⟨client, 1, 1⟩, command := commandForPut client 1 key [120] }

theorem wellFormed_putOne (client : ℕ) {key : Bytes} (hkey : validateKey key = true)
    (hfits : Fits key) : WellFormed (putOne client key).command :=
  .put client 1 hkey hfits (by unfold Fits; decide)

/-- Puts of two keys, by two clients. -/
def twoPuts : Ready := { apply := [putOne 1 [97], putOne 2 [98]] }

/-- A store without bundles needs no codec for them. -/
def noBundles : BundleCodec := ⟨fun _ ↦ 0, fun _ ↦ none⟩

theorem delivered_twoPuts : Delivered twoPuts.apply := by
  refine ⟨fun c hc ↦ ?_, by decide, by decide, by decide⟩
  simp only [twoPuts, List.mem_cons, List.not_mem_nil, or_false] at hc
  rcases hc with rfl | rfl
  · exact wellFormed_putOne 1 (by decide) (by unfold Fits; decide)
  · exact wellFormed_putOne 2 (by decide) (by unfold Fits; decide)

/-- A store that holds a version at the largest timestamp. -/
def lastVersion : Store :=
  { data := (∅ : FiniteMap StoreKey Bytes).insert
      ⟨encodeDataKey [107] 18446744073709551615⟩ [valueRecord] }

end MoreConsensus.KV
