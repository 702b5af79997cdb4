import MoreConsensus.Library.Readers
import MoreConsensus.Node

/-!
# The key-value store

The example application of `examples/kv`: `kv.go` and the part of `epaxos_storage.go` that applies
commands. The storage engine is an ordered map of byte strings with atomic batches. Its key space is
split by the first bytes of the key; here each region is a field of `Store`, and the data region
keeps the byte keys of the source, since reads iterate over them. Stored values are kept in their
decoded form; the bundles of application snapshots are byte strings. The digest of a command is a
parameter.
-/

set_option autoImplicit false

namespace MoreConsensus.KV

open Library Library.Reading

/-! ### Keys -/

/-- A key of the data region, in the order of the engine. -/
structure StoreKey where
  bytes : Bytes
  deriving DecidableEq, Repr

theorem StoreKey.order_injective :
    Function.Injective fun key : StoreKey ↦ key.bytes.map UInt8.toNat := by
  rintro ⟨a⟩ ⟨b⟩ h
  have hbytes : a = b := List.map_injective_iff.mpr (fun _ _ ↦ UInt8.toNat_inj.mp) h
  rw [hbytes]

instance : LinearOrder StoreKey :=
  LinearOrder.lift' (fun key : StoreKey ↦ key.bytes.map UInt8.toNat) StoreKey.order_injective

def commandIDKey (id : CommandID) : ℕ ×ₗ ℕ := toLex (id.client, id.sequence)

theorem commandIDKey_injective : Function.Injective commandIDKey := by
  rintro ⟨c₁, s₁⟩ ⟨c₂, s₂⟩ h
  simp only [commandIDKey, EmbeddingLike.apply_eq_iff_eq, Prod.mk.injEq] at h
  obtain ⟨rfl, rfl⟩ := h
  rfl

/-- Command results are kept in the order of client and sequence number. -/
instance : LinearOrder CommandID := LinearOrder.lift' commandIDKey commandIDKey_injective

inductive KVError
  | invalidKey | malformedCommand | unknownOp | malformedOrderedGet | malformedOrderedScan
  | zeroCommandID | commandIDReused | invalidCheckpoint | invalidConfig | snapshotNotFound
  | checksumMismatch | malformedSnapshot
  | scanUnordered | ambiguousScanBounds | invalidScanBounds | invalidTimestampBounds
  | malformedRecord | invalidFootprint
  deriving DecidableEq, Repr

/-- Whether a user key can be encoded: it is not empty and has no separator byte. -/
def validateKey (key : Bytes) : Bool := !key.isEmpty && !key.contains 0

def validateOptionalScanKey (key : Bytes) : Bool := key.isEmpty || !key.contains 0

def recordPrefix : UInt8 := 100
def valueRecord : UInt8 := 1
def deleteRecord : UInt8 := 2

/-- A number in `width` bytes, the most significant first. -/
def bigEndian (width value : ℕ) : Bytes :=
  (List.range width).reverse.map fun i ↦ UInt8.ofNat (value / 256 ^ i)

def ofBigEndian (b : Bytes) : ℕ := b.foldl (fun value digit ↦ value * 256 + digit.toNat) 0

def encodeUserPrefixIn (cf : UInt32) (user : Bytes) : Bytes :=
  recordPrefix :: (bigEndian 4 cf.toNat ++ user)

/-- Versions of one key are ordered from the newest to the oldest. -/
def encodeDataKeyIn (cf : UInt32) (user : Bytes) (ts : UInt64) : Bytes :=
  encodeUserPrefixIn cf user ++ 0 :: bigEndian 8 (~~~ts).toNat

def lastIndexByte (b : Bytes) (c : UInt8) : Option ℕ :=
  (List.range b.length).reverse.find? fun i ↦ b[i]? = some c

def decodeDataKeyIn (k : Bytes) (cf : UInt32) : Option (Bytes × UInt64) :=
  if k.length < 14 || k.head? != some recordPrefix ||
      ofBigEndian ((k.drop 1).take 4) != cf.toNat then
    none
  else
    match lastIndexByte (k.take (k.length - 8)) 0 with
    | none => none
    | some sep =>
      if sep < 5 then none
      else some ((k.take sep).drop 5, ~~~UInt64.ofNat (ofBigEndian (k.drop (k.length - 8))))

/-- The column family every store is opened with. -/
def columnFamily : UInt32 := 1

def encodeUserPrefix (user : Bytes) : Bytes := encodeUserPrefixIn columnFamily user

def encodeDataKey (user : Bytes) (ts : UInt64) : Bytes := encodeDataKeyIn columnFamily user ts

def decodeDataKey (k : Bytes) : Option (Bytes × UInt64) := decodeDataKeyIn k columnFamily

/-- The least byte string above every extension of `b`, if there is one. -/
def prefixLimit (b : Bytes) : Option Bytes :=
  match b.reverse.dropWhile fun c ↦ c == 255 with
  | [] => none
  | last :: rest => some ((last + 1) :: rest).reverse

/-! ### The store -/

/-- One row of a scan. -/
structure KVRow where
  key : Bytes
  value : Bytes
  time : UInt64
  deriving DecidableEq, Repr

/-- The response a command leaves: none for a write, and what an ordered read returned. -/
inductive Response
  | none
  | get (found : Bool) (value : Bytes)
  | scan (rows : List KVRow)
  deriving DecidableEq, Repr

abbrev StateDigest := Bytes

/-- The durable contents of a store, by region. -/
structure Store where
  data : FiniteMap StoreKey Bytes := ∅
  results : FiniteMap CommandID (StateDigest × Response) := ∅
  applied : FiniteMap InstanceRef Unit := ∅
  records : FiniteMap InstanceRef InstanceRecord := ∅
  hardState : HardState := {}
  checkpoint : Option Checkpoint := none
  bundles : FiniteMap StoreKey Bytes := ∅

/-- The part of the contents that an application snapshot captures. -/
structure ApplicationSnapshot where
  data : FiniteMap StoreKey Bytes
  results : FiniteMap CommandID (StateDigest × Response)
  applied : FiniteMap InstanceRef Unit

def Store.application (store : Store) : ApplicationSnapshot :=
  ⟨store.data, store.results, store.applied⟩

/-- An open store: its contents and the version clock kept in memory. -/
structure DB where
  store : Store := {}
  nextTime : UInt64 := 1

/-- The entries of the data region in a half-open range; no upper bound where there is none. -/
def iterate (data : FiniteMap StoreKey Bytes) (lower : Bytes) (upper : Option Bytes) :
    List (StoreKey × Bytes) :=
  data.entries.filter fun entry ↦
    !bytesLess entry.1.bytes lower && upper.elim true fun bound ↦ bytesLess entry.1.bytes bound

def loadNextTime (data : FiniteMap StoreKey Bytes) : UInt64 :=
  let lower := encodeUserPrefix []
  let versions := (iterate data lower (prefixLimit lower)).filterMap fun entry ↦
    decodeDataKey entry.1.bytes
  (versions.foldl (fun maxTS version ↦ if maxTS < version.2 then version.2 else maxTS) 0) + 1

/-- A store opened on durable contents resumes its clock from them. -/
def openStore (store : Store) : DB := ⟨store, loadNextTime store.data⟩

/-! ### Timestamp bounds -/

inductive TimestampBoundMode
  | latest | atOrBefore | within | exact | empty
  deriving DecidableEq, Repr

structure TimestampBounds where
  mode : TimestampBoundMode := .latest
  min : UInt64 := 0
  max : UInt64 := 0
  deriving DecidableEq, Repr

inductive TimestampMatch
  | tooOld | visible | tooNew
  deriving DecidableEq, Repr

namespace TimestampBounds

variable (b : TimestampBounds)

def validate : Bool := !(b.mode == .within && decide (b.max < b.min))

def empty : Bool := b.mode == .empty

def seekUpper : Option UInt64 :=
  match b.mode with
  | .atOrBefore | .within | .exact => some b.max
  | .latest | .empty => none

def classify (ts : UInt64) : TimestampMatch :=
  match b.mode with
  | .latest => .visible
  | .atOrBefore => if b.max < ts then .tooNew else .visible
  | .within | .exact => if b.max < ts then .tooNew else if ts < b.min then .tooOld else .visible
  | .empty => .tooOld

end TimestampBounds

/-! ### Reads -/

/-- The loop of a point read. The user key of a version is not looked at. -/
def getLoop (bounds : TimestampBounds) : List (StoreKey × Bytes) → Bool × Bytes
  | [] => (false, [])
  | (key, value) :: rest =>
    match decodeDataKey key.bytes with
    | none => getLoop bounds rest
    | some (_, ts) =>
      match bounds.classify ts with
      | .tooNew => getLoop bounds rest
      | .tooOld => (false, [])
      | .visible =>
        if value.isEmpty || value.head? == some deleteRecord then (false, [])
        else (true, value.drop 1)

/-- Whether a value was found, and the value. -/
def getWithBounds (data : FiniteMap StoreKey Bytes) (key : Bytes) (bounds : TimestampBounds) :
    Except KVError (Bool × Bytes) :=
  if !validateKey key then .error .invalidKey
  else if !bounds.validate then .error .invalidTimestampBounds
  else if bounds.empty then .ok (false, [])
  else
    let lower := encodeUserPrefix key
    let entries := iterate data lower (prefixLimit lower)
    let entries := match bounds.seekUpper with
      | some maxTS => entries.dropWhile fun entry ↦
          bytesLess entry.1.bytes (encodeDataKey key maxTS)
      | none => entries
    .ok (getLoop bounds entries)

def get (data : FiniteMap StoreKey Bytes) (key : Bytes) : Except KVError (Bool × Bytes) :=
  getWithBounds data key {}

structure ScanOptions where
  start : Bytes := []
  stop : Bytes := []
  pfx : Bytes := []
  limit : ℕ := 0
  reverse : Bool := false

/-- The bounds of a scan, on the keys of the engine. -/
def scanBounds (opt : ScanOptions) : Bytes × Option Bytes :=
  let lowerUser := if opt.pfx.isEmpty then opt.start else opt.pfx
  let upperUser := if opt.pfx.isEmpty then opt.stop else (prefixLimit opt.pfx).getD []
  (encodeUserPrefix lowerUser,
    if upperUser.isEmpty then prefixLimit (encodeUserPrefix [])
    else some (encodeUserPrefix upperUser))

/-- The largest `int`. -/
def maxInt : ℕ := 9223372036854775807

/-- The options of a scan with bounds: a limit that is not positive is none. -/
structure BoundedScan where
  start : Bytes := []
  stop : Bytes := []
  pfx : Bytes := []
  limit : ℤ := 0
  reverse : Bool := false
  bounds : TimestampBounds := {}

/-- The loop of a scan. -/
def boundedLoop (bounds : TimestampBounds) (limit : ℕ) (reverse : Bool) :
    List (StoreKey × Bytes) → List Bytes → List KVRow → List KVRow
  | [], _, out => out
  | (key, value) :: rest, seen, out =>
    match decodeDataKey key.bytes with
    | none => boundedLoop bounds limit reverse rest seen out
    | some (user, ts) =>
      if seen.contains user then boundedLoop bounds limit reverse rest seen out
      else match bounds.classify ts with
        | .tooNew => boundedLoop bounds limit reverse rest seen out
        | .tooOld => boundedLoop bounds limit reverse rest (user :: seen) out
        | .visible =>
          if value.head? == some valueRecord then
            let row : KVRow := ⟨user, value.drop 1, ts⟩
            if reverse then
              if out.length = limit then
                boundedLoop bounds limit reverse rest (user :: seen) (out.drop 1 ++ [row])
              else boundedLoop bounds limit reverse rest (user :: seen) (out ++ [row])
            else if (out ++ [row]).length = limit then out ++ [row]
            else boundedLoop bounds limit reverse rest (user :: seen) (out ++ [row])
          else boundedLoop bounds limit reverse rest (user :: seen) out

/-- The most rows that a scan returns. -/
def BoundedScan.most (opt : BoundedScan) : ℕ := if opt.limit ≤ 0 then maxInt else opt.limit.toNat

/-- The range of the engine that a scan iterates over. -/
def BoundedScan.range (opt : BoundedScan) : Bytes × Option Bytes :=
  scanBounds { start := opt.start, stop := opt.stop, pfx := opt.pfx }

def scanWithBounds (data : FiniteMap StoreKey Bytes) (opt : BoundedScan) :
    Except KVError (List KVRow) :=
  if !opt.bounds.validate then .error .invalidTimestampBounds
  else if !(validateOptionalScanKey opt.start && validateOptionalScanKey opt.stop &&
      validateOptionalScanKey opt.pfx) then .error .invalidKey
  else if opt.bounds.empty then .ok []
  else
    let rows := boundedLoop opt.bounds opt.most opt.reverse
      (iterate data opt.range.1 opt.range.2) [] []
    .ok (if opt.reverse then rows.reverse else rows)

/-- The scan of an ordered command, without bounds. -/
def scan (data : FiniteMap StoreKey Bytes) (opt : ScanOptions) : Except KVError (List KVRow) :=
  scanWithBounds data
    { start := opt.start, stop := opt.stop, pfx := opt.pfx, limit := opt.limit
      reverse := opt.reverse }

/-! ### Payloads -/

def opPut : UInt8 := 1
def opDelete : UInt8 := 2
def opTxn : UInt8 := 3
def opGet : UInt8 := 4
def opScan : UInt8 := 5

/-- One write or delete of a transaction. -/
structure TxnOp where
  delete : Bool := false
  key : Bytes
  value : Bytes := []
  deriving DecidableEq, Repr

namespace Parser

def uvarint : Reading UInt64 := fun p ↦
  if p.err then some (0, p)
  else match Library.uvarint p.b with
    | none => some (0, { p with err := true })
    | some (v, rest) => some (v, { p with b := rest })

def byte : Reading UInt8 := fun p ↦
  match p.b with
  | [] => some (0, { p with err := true })
  | v :: rest => if p.err then some (0, { p with err := true }) else some (v, { p with b := rest })

def bytes : Reading Bytes := fun p ↦
  if p.err then some ([], p)
  else match Library.uvarint p.b with
    | none => some ([], { p with err := true })
    | some (n, rest) =>
      if rest.length < n.toNat then some ([], { p with err := true })
      else some (rest.take n.toNat, { p with b := rest.drop n.toNat })

/-- The key and the value of a put, a delete or a get. -/
def fields : Reading (Bytes × Bytes) := do
  let key ← bytes
  let value ← bytes
  return (key, value)

/-- One operation of a transaction as it was read. -/
def txnOp (op : UInt8) (key value : Bytes) : Except KVError TxnOp :=
  if op = opPut then if validateKey key then .ok ⟨false, key, value⟩ else .error .invalidKey
  else if op = opDelete then if validateKey key then .ok ⟨true, key, []⟩ else .error .invalidKey
  else .error .unknownOp

/-- The operations of a transaction; the loop stops at the first that cannot be read. -/
def txnOps : ℕ → Reading (Except KVError (List TxnOp))
  | 0 => return .ok []
  | count + 1 => do
    let op ← byte
    let key ← bytes
    let value ← bytes
    let p ← MonadState.get
    if p.err then return .error .malformedCommand
    else match txnOp op key value with
      | .error err => return .error err
      | .ok first => do
        let rest ← txnOps count
        return rest.map (first :: ·)

def txn : Reading (Except KVError (List TxnOp)) := do
  let count ← uvarint
  let p ← MonadState.get
  if p.err then return .error .malformedCommand else txnOps count.toNat

def scanOptions : Reading (ScanOptions × UInt64 × UInt8) := do
  let start ← bytes
  let stop ← bytes
  let pfx ← bytes
  let limit ← uvarint
  let reverse ← byte
  return (⟨start, stop, pfx, limit.toNat, reverse == 1⟩, limit, reverse)

end Parser

/-- A payload read to its end, if it can be. -/
def parseAll {α : Type} (read : Reading α) (b : Bytes) : Option α :=
  match read.run ⟨b, false⟩ with
  | none => none
  | some (value, p) => if p.err || !p.b.isEmpty then none else some value

/-- The writes a command stages, and the version clock after it. -/
structure Staged where
  writes : List (StoreKey × Bytes) := []
  next : UInt64

def stagePutVersion (key value : Bytes) (ts : UInt64) : StoreKey × Bytes :=
  (⟨encodeDataKey key ts⟩, valueRecord :: value)

def stageDeleteVersion (key : Bytes) (ts : UInt64) : StoreKey × Bytes :=
  (⟨encodeDataKey key ts⟩, [deleteRecord])

def stageOp (ts : UInt64) (op : TxnOp) : StoreKey × Bytes :=
  if op.delete then stageDeleteVersion op.key ts else stagePutVersion op.key op.value ts

def stageTxn (body : Bytes) (next : UInt64) : Except KVError Staged :=
  match Parser.txn.run ⟨body, false⟩ with
  | none => .error .malformedCommand
  | some (.error err, _) => .error err
  | some (.ok ops, p) =>
    if !p.b.isEmpty then .error .malformedCommand
    else if ops.isEmpty then .ok ⟨[], next⟩
    else .ok ⟨ops.map (stageOp next), next + 1⟩

def stageCommitted (payload : Bytes) (next : UInt64) : Except KVError Staged :=
  match payload with
  | [] => .ok ⟨[], next⟩
  | op :: body =>
    if op = opPut then
      match parseAll Parser.fields body with
      | none => .error .malformedCommand
      | some (key, value) =>
        if validateKey key then .ok ⟨[stagePutVersion key value next], next + 1⟩
        else .error .invalidKey
    else if op = opDelete then
      match parseAll Parser.fields body with
      | none => .error .malformedCommand
      | some (key, _) =>
        if validateKey key then .ok ⟨[stageDeleteVersion key next], next + 1⟩
        else .error .invalidKey
    else if op = opTxn then stageTxn body next
    else .error .unknownOp

/-- The response of an ordered read; `none` when the command is not one. -/
def executeOrderedRead (data : FiniteMap StoreKey Bytes) (payload : Bytes) :
    Option (Except KVError Response) :=
  match payload with
  | [] => none
  | op :: body =>
    if op = opGet then some <|
      match parseAll Parser.fields body with
      | none => .error .malformedOrderedGet
      | some (key, _) =>
        if validateKey key then (get data key).map fun (found, value) ↦ .get found value
        else .error .invalidKey
    else if op = opScan then some <|
      match parseAll Parser.scanOptions body with
      | none => .error .malformedOrderedScan
      | some (opt, limit, reverse) =>
        if limit = 0 ∨ maxInt < limit.toNat ∨ 1 < reverse then .error .malformedOrderedScan
        else (scan data opt).map .scan
    else none

/-! ### Applying a command -/

def DB.nextRecordTime (db : DB) : DB := if db.nextTime = 0 then { db with nextTime := 1 } else db

/-- The writes of a batch, in order. -/
def commitWrites (data : FiniteMap StoreKey Bytes) (writes : List (StoreKey × Bytes)) :
    FiniteMap StoreKey Bytes :=
  writes.foldl (fun data write ↦ data.insert write.1 write.2) data

/-- The result of a command and, for a command of an instance, the mark of that instance. -/
def recordResult (store : Store) (command : ApplyCommand) (digest : StateDigest)
    (response : Response) : Store :=
  { store with
    results := store.results.insert command.command.id (digest, response)
    applied := if command.ref.isZero then store.applied else store.applied.insert command.ref () }

section

variable (digestCommand : Command → StateDigest)

def applyReadyCommand (db : DB) (command : ApplyCommand) : Except KVError DB :=
  if command.command.id = {} then .error .zeroCommandID
  else
    let digest := digestCommand command.command
    match db.store.results.get? command.command.id with
    | some (stored, _) => if stored ≠ digest then .error .commandIDReused else .ok db
    | none =>
      let legacyApplied := db.store.applied.contains command.ref
      let db := db.nextRecordTime
      if legacyApplied then
        .ok { db with store := recordResult db.store command digest .none }
      else
        match executeOrderedRead db.store.data command.command.payload with
        | some (.error err) => .error err
        | some (.ok response) =>
          .ok { db with store := recordResult db.store command digest response }
        | none =>
          match stageCommitted command.command.payload db.nextTime with
          | .error err => .error err
          | .ok staged =>
            let store := { db.store with data := commitWrites db.store.data staged.writes }
            .ok ⟨recordResult store command digest .none, staged.next⟩

end

/-! ### Commands -/

def appendLengthBytes (value : Bytes) : Bytes := putUvarint (UInt64.ofNat value.length) ++ value

def appendKVCommand (op : UInt8) (key value : Bytes) : Bytes :=
  op :: (appendLengthBytes key ++ appendLengthBytes value)

def appendTxnOp (op : TxnOp) : Bytes :=
  if op.delete then opDelete :: (appendLengthBytes op.key ++ appendLengthBytes [])
  else opPut :: (appendLengthBytes op.key ++ appendLengthBytes op.value)

def appendKVTxn (ops : List TxnOp) : Bytes :=
  opTxn :: (putUvarint (UInt64.ofNat ops.length) ++ ops.flatMap appendTxnOp)

def commandForPut (client seq : ℕ) (key value : Bytes) : Command :=
  { id := ⟨client, seq⟩, payload := appendKVCommand opPut key value,
    footprint := { points := [key] } }

def commandForDelete (client seq : ℕ) (key : Bytes) : Command :=
  { id := ⟨client, seq⟩, payload := appendKVCommand opDelete key [],
    footprint := { points := [key] } }

/-- Sorted keys without repetitions. -/
def deduplicated : List Bytes → List Bytes
  | [] => []
  | [key] => [key]
  | first :: second :: rest =>
    if first = second then deduplicated (second :: rest)
    else first :: deduplicated (second :: rest)

def commandForTxn (client seq : ℕ) (ops : List TxnOp) : Command :=
  let keys := (ops.map TxnOp.key).insertionSort fun a b ↦ !bytesLess b a
  { id := ⟨client, seq⟩, payload := appendKVTxn ops, footprint := { points := deduplicated keys } }

def commandForGet (client seq : ℕ) (key : Bytes) : Command :=
  { id := ⟨client, seq⟩, payload := appendKVCommand opGet key [],
    footprint := { points := [key] } }

def appendScan (opt : ScanOptions) : Bytes :=
  opScan :: (appendLengthBytes opt.start ++ appendLengthBytes opt.stop ++
    appendLengthBytes opt.pfx ++ putUvarint (UInt64.ofNat opt.limit) ++
    [if opt.reverse then 1 else 0])

/-- The footprint of a scan: the span of its prefix, everything if that has no end, or the span
between its bounds. -/
def scanFootprint (opt : ScanOptions) : Except KVError Footprint :=
  if !opt.pfx.isEmpty then
    if !opt.start.isEmpty || !opt.stop.isEmpty then .error .ambiguousScanBounds
    else if !validateKey opt.pfx then .error .invalidKey
    else match prefixLimit opt.pfx with
      | none => .ok { all := true }
      | some stop => .ok { spans := [⟨opt.pfx, stop⟩] }
  else if !opt.start.isEmpty && !opt.stop.isEmpty && bytesLess opt.start opt.stop then
    if validateKey opt.start && validateKey opt.stop then
      .ok { spans := [⟨opt.start, opt.stop⟩] }
    else .error .invalidKey
  else .error .invalidScanBounds

def commandForScan (client seq : ℕ) (opt : ScanOptions) : Except KVError Command :=
  if opt.limit = 0 then .error .scanUnordered
  else (scanFootprint opt).map fun footprint ↦
    { id := ⟨client, seq⟩, payload := appendScan opt, footprint }

/-- A slice of the source: its length is an `int`. -/
def Fits {α : Type} (values : List α) : Prop := values.length ≤ maxInt

instance {α : Type} (values : List α) : Decidable (Fits values) :=
  inferInstanceAs (Decidable (values.length ≤ maxInt))

theorem Fits.toNat_length {α : Type} {values : List α} (hfits : Fits values) :
    (UInt64.ofNat values.length).toNat = values.length := by
  rw [UInt64.toNat_ofNat']
  exact Nat.mod_eq_of_lt (hfits.trans_lt (by decide))

end MoreConsensus.KV
