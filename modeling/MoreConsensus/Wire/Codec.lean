import MoreConsensus.Library.Readers
import MoreConsensus.Types

/-!
# The message codec

`epaxos/codec.go` and the message checksum of `epaxos/checksum.go`: `encodeMessage` and
`decodeMessage` over the message as it is laid out for the wire, with the machine integers of the
source. The hash is a parameter. A `nil` slice is the empty list.

The decoder bounds the number of points and of spans of a footprint and their total size; the
encoder only asks the footprint to be canonical. `decodeMessage_encodeMessage_oversized` is a
message that is encoded and cannot be decoded, and `decodeMessage_encodeMessage` the round trip of
every message whose footprint is within the limits.
-/

set_option autoImplicit false

namespace MoreConsensus.Wire

open Library Library.Reading

/-! ### The message on the wire -/

structure InstanceRef where
  replica : UInt64 := 0
  inst : UInt64 := 0
  conf : UInt64 := 0
  deriving DecidableEq, Repr, Inhabited

structure Ballot where
  epoch : UInt64 := 0
  number : UInt64 := 0
  replica : UInt64 := 0
  deriving DecidableEq, Repr, Inhabited

structure AcceptEvidence where
  sender : UInt64 := 0
  seq : UInt64 := 0
  deps : List UInt64 := []
  deriving DecidableEq, Repr, Inhabited

structure ConfChange where
  type : UInt8 := 0
  replica : UInt64 := 0
  deriving DecidableEq, Repr, Inhabited

structure CommandID where
  client : UInt64 := 0
  sequence : UInt64 := 0
  deriving DecidableEq, Repr, Inhabited

structure Command where
  id : CommandID := {}
  payload : Bytes := []
  footprint : Footprint := {}
  cycleKey : Bytes := []
  deriving Repr, Inhabited

/-- A `[32]byte`. -/
structure Digest where
  bytes : Bytes
  length_eq : bytes.length = 32
  deriving DecidableEq, Repr

/-- The bytes of a slice copied into a zero `[32]byte`. -/
def Digest.copy (src : Bytes) : Digest := ⟨(src ++ List.replicate 32 0).take 32, by simp⟩

def Digest.zero : Digest := Digest.copy []

instance : Inhabited Digest := ⟨Digest.zero⟩

@[ext] theorem Digest.ext {a b : Digest} (h : a.bytes = b.bytes) : a = b := by
  obtain ⟨a, ha⟩ := a
  obtain ⟨b, hb⟩ := b
  subst h
  rfl

@[simp] theorem Digest.copy_bytes (digest : Digest) : Digest.copy digest.bytes = digest :=
  Digest.ext (List.take_left' digest.length_eq)

structure Message where
  type : UInt8 := 0
  source : UInt64 := 0
  target : UInt64 := 0
  fromIncarnation : UInt64 := 0
  toIncarnation : UInt64 := 0
  ref : InstanceRef := {}
  processAt : UInt64 := 0
  toq : Bool := false
  ballot : Ballot := {}
  recordBallot : Ballot := {}
  seq : UInt64 := 0
  deps : List UInt64 := []
  acceptSeq : UInt64 := 0
  acceptDeps : List UInt64 := []
  acceptEvidence : List AcceptEvidence := []
  ignoreDependency : InstanceRef := {}
  kind : UInt8 := 0
  confChange : ConfChange := {}
  protocolControl : Bytes := []
  command : Command := {}
  reject : Bool := false
  rejectReason : UInt8 := 0
  rejectHint : Ballot := {}
  conflictRef : InstanceRef := {}
  conflictStatus : UInt8 := 0
  fastPathEligible : Bool := false
  depsCommitted : UInt64 := 0
  recordStatus : UInt8 := 0
  checksum : Digest := .zero
  deriving Repr, Inhabited

inductive WireError
  | invalidMessage | checksumMismatch
  deriving DecidableEq, Repr

/-! ### Canonical values -/

def entryCommand : UInt8 := 1
def entryNoop : UInt8 := 2
def entryConfChange : UInt8 := 3
def entryMembership : UInt8 := 4
def entryCheckpoint : UInt8 := 5

def confChangeAddVoter : UInt8 := 1
def confChangeRemoveVoter : UInt8 := 2

def commandEmpty (c : Command) : Bool :=
  c.id == {} && c.payload.isEmpty && c.footprint.points.isEmpty && c.footprint.spans.isEmpty &&
    !c.footprint.all && c.cycleKey.isEmpty

def entryValueCanonical (kind : UInt8) (command : Command) (change : ConfChange)
    (control : Bytes) : Bool :=
  let changeEmpty := change == {}
  if kind = 0 then commandEmpty command && changeEmpty && control.isEmpty
  else if kind = entryCommand then
    changeEmpty && control.isEmpty && footprintCanonical command.footprint &&
      decide (command.cycleKey.length ≤ maxWireCycleKeyBytes)
  else if kind = entryNoop then commandEmpty command && changeEmpty && control.isEmpty
  else if kind = entryConfChange then
    commandEmpty command && control.isEmpty &&
      (change.type == confChangeAddVoter || change.type == confChangeRemoveVoter) &&
      change.replica != 0
  else if kind = entryMembership ∨ kind = entryCheckpoint then
    commandEmpty command && changeEmpty && !control.isEmpty &&
      decide (control.length ≤ maxWireProtocolControl)
  else false

/-! ### The checksum -/

def writeBool (v : Bool) : Bytes := [if v then 1 else 0]

/-- A number in eight bytes, the least significant first. -/
def writeUint64 (v : UInt64) : Bytes :=
  (List.range 8).map fun i ↦ UInt8.ofNat (v.toNat / 256 ^ i)

def writeLen {α : Type} (values : List α) : Bytes := writeUint64 (UInt64.ofNat values.length)

def writeBytes (b : Bytes) : Bytes := writeLen b ++ b

def writeFootprint (f : Footprint) : Bytes :=
  writeBool f.all ++ writeLen f.points ++ f.points.flatMap writeBytes ++ writeLen f.spans ++
    f.spans.flatMap fun span ↦ writeBytes span.start ++ writeBytes span.stop

def writeCommand (c : Command) : Bytes :=
  writeUint64 c.id.client ++ writeUint64 c.id.sequence ++ writeBytes c.payload ++
    writeFootprint c.footprint ++ writeBytes c.cycleKey

def writeEntryValue (kind : UInt8) (command : Command) (change : ConfChange) (control : Bytes) :
    Bytes :=
  [kind] ++ [change.type] ++ writeUint64 change.replica ++ writeBytes control ++
    writeCommand command

def writeRef (r : InstanceRef) : Bytes :=
  writeUint64 r.replica ++ writeUint64 r.inst ++ writeUint64 r.conf

def writeBallot (b : Ballot) : Bytes :=
  writeUint64 b.epoch ++ writeUint64 b.number ++ writeUint64 b.replica

/-- What the checksum of a message hashes: every field but the checksum itself. -/
def checksumInput (m : Message) : Bytes :=
  [m.type] ++ writeUint64 m.source ++ writeUint64 m.target ++ writeUint64 m.fromIncarnation ++
    writeUint64 m.toIncarnation ++ writeRef m.ref ++ writeUint64 m.processAt ++ writeBool m.toq ++
    writeBallot m.ballot ++ writeBallot m.recordBallot ++ writeUint64 m.seq ++
    writeLen m.deps ++ m.deps.flatMap writeUint64 ++
    writeUint64 m.acceptSeq ++ writeLen m.acceptDeps ++ m.acceptDeps.flatMap writeUint64 ++
    writeLen m.acceptEvidence ++
    (m.acceptEvidence.flatMap fun ev ↦ writeUint64 ev.sender ++ writeUint64 ev.seq ++
      writeLen ev.deps ++ ev.deps.flatMap writeUint64) ++
    writeRef m.ignoreDependency ++
    writeEntryValue m.kind m.command m.confChange m.protocolControl ++ writeBool m.reject ++
    writeBallot m.rejectHint ++ [m.rejectReason] ++ writeRef m.conflictRef ++
    [m.conflictStatus] ++ writeBool m.fastPathEligible ++ writeUint64 m.depsCommitted ++
    [m.recordStatus]

section

variable (blake3 : Bytes → Digest)

def checksumMessage (m : Message) : Digest := blake3 (checksumInput m)

def verifyMessageChecksum (m : Message) : Bool := m.checksum == checksumMessage blake3 m

end

/-! ### The encoder -/

/-- `MEP3`. -/
def wireMagic : Bytes := [77, 69, 80, 51]

def maxWireDeps : ℕ := 128
def maxWireAcceptEvidence : ℕ := 128
def maxWireCommandPayload : ℕ := 1048576
def maxWireFootprintPoints : ℕ := 128
def maxWireFootprintSpans : ℕ := 128
def maxWireFootprintBytes : ℕ := 1048576

def appendUint8 (v : UInt8) : Bytes := putUvarint v.toUInt64

def appendLen {α : Type} (values : List α) : Bytes := putUvarint (UInt64.ofNat values.length)

def appendNumbers (values : List UInt64) : Bytes := appendLen values ++ values.flatMap putUvarint

def appendBytes (b : Bytes) : Bytes := appendLen b ++ b

def appendRef (r : InstanceRef) : Bytes :=
  putUvarint r.replica ++ putUvarint r.inst ++ putUvarint r.conf

def appendBallot (b : Ballot) : Bytes :=
  putUvarint b.epoch ++ putUvarint b.number ++ putUvarint b.replica

def appendEvidence (ev : AcceptEvidence) : Bytes :=
  putUvarint ev.sender ++ putUvarint ev.seq ++ appendNumbers ev.deps

def appendSpan (span : Span) : Bytes := appendBytes span.start ++ appendBytes span.stop

def appendCommand (c : Command) : Bytes :=
  putUvarint c.id.client ++ putUvarint c.id.sequence ++ appendBytes c.payload ++
    writeBool c.footprint.all ++
    appendLen c.footprint.points ++ c.footprint.points.flatMap appendBytes ++
    appendLen c.footprint.spans ++ c.footprint.spans.flatMap appendSpan ++
    appendBytes c.cycleKey

/-- The fields between the magic number and the checksum. -/
def appendBody (m : Message) : Bytes :=
  appendUint8 m.type ++ putUvarint m.source ++ putUvarint m.target ++
    putUvarint m.fromIncarnation ++ putUvarint m.toIncarnation ++ appendRef m.ref ++
    putUvarint m.processAt ++ writeBool m.toq ++ appendBallot m.ballot ++
    appendBallot m.recordBallot ++ putUvarint m.seq ++ appendNumbers m.deps ++
    putUvarint m.acceptSeq ++ appendNumbers m.acceptDeps ++ appendLen m.acceptEvidence ++
    m.acceptEvidence.flatMap appendEvidence ++ appendRef m.ignoreDependency ++
    appendUint8 m.kind ++ appendUint8 m.confChange.type ++ putUvarint m.confChange.replica ++
    appendBytes m.protocolControl ++ appendCommand m.command ++ writeBool m.reject ++
    appendBallot m.rejectHint ++ appendUint8 m.rejectReason ++ appendRef m.conflictRef ++
    appendUint8 m.conflictStatus ++ writeBool m.fastPathEligible ++ putUvarint m.depsCommitted ++
    appendUint8 m.recordStatus

def encodeMessage (blake3 : Bytes → Digest) (dst : Bytes) (m : Message) : Except WireError Bytes :=
  if m.deps.length > maxWireDeps || m.acceptDeps.length > maxWireDeps ||
      m.acceptEvidence.length > maxWireAcceptEvidence ||
      m.command.payload.length > maxWireCommandPayload ||
      m.command.cycleKey.length > maxWireCycleKeyBytes ||
      m.protocolControl.length > maxWireProtocolControl ||
      !entryValueCanonical m.kind m.command m.confChange m.protocolControl then
    .error .invalidMessage
  else if m.acceptEvidence.any fun ev ↦ ev.deps.length > maxWireDeps then .error .invalidMessage
  else .ok (dst ++ wireMagic ++ appendBody m ++ (checksumMessage blake3 m).bytes)

/-! ### The decoder -/

namespace Parser

def uvarint : Reading UInt64 := fun p ↦
  if p.err then some (0, p)
  else match Library.uvarint p.b with
    | none => some (0, { p with err := true })
    | some (v, rest) => some (v, { p with b := rest })

def uvarint8 : Reading UInt8 := do
  let v ← uvarint
  raiseIf (255 < v)
  return if 255 < v then 0 else v.toUInt8

/-- One byte. Unlike the other readers this one goes on consuming after a failure. -/
def byte : Reading UInt8 := fun p ↦
  match p.b with
  | [] => some (0, { p with err := true })
  | v :: rest => some (v, { p with b := rest })

def bool : Reading Bool := do
  let v ← byte
  return v == 1

def bytesBound (maxLen : ℕ) : Reading Bytes := do
  let n ← uvarint
  let p ← MonadState.get
  if maxLen < n.toNat || p.b.length < n.toNat then do
    raise
    return []
  else do
    set { p with b := p.b.drop n.toNat }
    return p.b.take n.toNat

def ref : Reading InstanceRef := do
  let replica ← uvarint
  let inst ← uvarint
  let conf ← uvarint
  return ⟨replica, inst, conf⟩

def ballot : Reading Ballot := do
  let epoch ← uvarint
  let number ← uvarint
  let replica ← uvarint
  return ⟨epoch, number, replica⟩

/-- A bounded list of instance numbers; the decoder gives up on a longer one. -/
def deps : Reading (List UInt64) := do
  let count ← uvarint
  if maxWireDeps < count.toNat then failure else times uvarint count.toNat

/-- One step of `scanAcceptEvidence`: the number of dependencies of the next piece of evidence. -/
def scanEvidence : Reading ℕ := do
  let _ ← uvarint
  let _ ← uvarint
  let count ← uvarint
  let p ← MonadState.get
  if p.err || maxWireDeps < count.toNat then failure
  else do
    let _ ← times uvarint count.toNat
    let p ← MonadState.get
    if p.err then failure else return count.toNat

/-- How many dependencies the evidence to come carries, read ahead to size its buffer. -/
def scanAcceptEvidence (count : ℕ) : Reading ℕ := do
  let counts ← times scanEvidence count
  return counts.sum

def evidence : Reading AcceptEvidence := do
  let sender ← uvarint
  let seq ← uvarint
  let count ← uvarint
  let p ← MonadState.get
  if p.err || maxWireDeps < count.toNat then failure
  else do
    let deps ← times uvarint count.toNat
    return ⟨sender, seq, deps⟩

def acceptEvidence : Reading (List AcceptEvidence) := do
  let count ← uvarint
  if maxWireAcceptEvidence < count.toNat then failure
  else do
    lookahead (scanAcceptEvidence count.toNat)
    times evidence count.toNat

def span : Reading Span := do
  let start ← bytesBound maxWireFootprintBytes
  let stop ← bytesBound maxWireFootprintBytes
  return ⟨start, stop⟩

end Parser

/-- The bytes of the endpoints of a footprint. There are at most 384 endpoints of at most a
mebibyte when the decoder adds them up, so its 64-bit sum does not wrap. -/
def footprintBytes (f : Footprint) : ℕ :=
  (f.points.map List.length).sum + (f.spans.map fun s ↦ s.start.length + s.stop.length).sum

namespace Parser

/-- A command, with the points and the spans read the way given for their number. -/
def commandFrom (readPoints : ℕ → Reading (List Bytes)) (readSpans : ℕ → Reading (List Span)) :
    Reading Command := do
  let client ← uvarint
  let sequence ← uvarint
  let payload ← bytesBound maxWireCommandPayload
  let all ← bool
  let pointCount ← uvarint
  if maxWireFootprintPoints < pointCount.toNat then do
    raise
    return { id := ⟨client, sequence⟩, payload, footprint := { all } }
  else do
    let points ← readPoints pointCount.toNat
    let spanCount ← uvarint
    if maxWireFootprintSpans < spanCount.toNat then do
      raise
      return { id := ⟨client, sequence⟩, payload, footprint := { all, points } }
    else do
      let spans ← readSpans spanCount.toNat
      let footprint : Footprint := { all, points, spans }
      raiseIf (maxWireFootprintBytes < footprintBytes footprint)
      let cycleKey ← bytesBound maxWireCycleKeyBytes
      let c : Command := { id := ⟨client, sequence⟩, payload, footprint, cycleKey }
      let p ← MonadState.get
      raiseIf (!p.err && !commandEmpty c && !footprintCanonical c.footprint)
      return c

def command : Reading Command :=
  commandFrom (times (bytesBound maxWireFootprintBytes)) (times span)

/-- The fields of a message up to its checksum, with the lists and the command read the way
given. -/
def messageFrom (readDeps readAcceptDeps : Reading (List UInt64))
    (readEvidence : Reading (List AcceptEvidence)) (readCommand : Reading Command) :
    Reading Message := do
  let type ← uvarint8
  let source ← uvarint
  let target ← uvarint
  let fromIncarnation ← uvarint
  let toIncarnation ← uvarint
  let ref ← ref
  let processAt ← uvarint
  let toq ← bool
  let ballot ← Parser.ballot
  let recordBallot ← Parser.ballot
  let seq ← uvarint
  let deps ← readDeps
  let acceptSeq ← uvarint
  let acceptDeps ← readAcceptDeps
  let acceptEvidence ← readEvidence
  let ignoreDependency ← Parser.ref
  let kind ← uvarint8
  let changeType ← uvarint8
  let changeReplica ← uvarint
  let protocolControl ← bytesBound maxWireProtocolControl
  let command ← readCommand
  let reject ← bool
  let rejectHint ← Parser.ballot
  let rejectReason ← uvarint8
  let conflictRef ← Parser.ref
  let conflictStatus ← uvarint8
  let fastPathEligible ← bool
  let depsCommitted ← uvarint
  let recordStatus ← uvarint8
  return ⟨type, source, target, fromIncarnation, toIncarnation, ref, processAt, toq, ballot,
    recordBallot, seq, deps, acceptSeq, acceptDeps, acceptEvidence, ignoreDependency, kind,
    ⟨changeType, changeReplica⟩, protocolControl, command, reject, rejectReason, rejectHint,
    conflictRef, conflictStatus, fastPathEligible, depsCommitted, recordStatus, .zero⟩

def message : Reading Message := messageFrom deps deps acceptEvidence command

end Parser

def decodeMessage (blake3 : Bytes → Digest) (src : Bytes) : Except WireError Message :=
  if src.length < wireMagic.length + 32 || src.take wireMagic.length != wireMagic then
    .error .invalidMessage
  else
    let body := (src.take (src.length - 32)).drop wireMagic.length
    match Parser.message.run ⟨body, false⟩ with
    | none => .error .invalidMessage
    | some (m, p) =>
      if p.err || !p.b.isEmpty then .error .invalidMessage
      else
        let m := { m with checksum := Digest.copy (src.drop (src.length - 32)) }
        if verifyMessageChecksum blake3 m then .ok m else .error .checksumMismatch

/-! ### What the readers read back -/

section

theorem reads_uvarint (v : UInt64) : Reads Parser.uvarint (putUvarint v) v := by
  intro rest
  change (match Library.uvarint (putUvarint v ++ rest) with
    | none => _
    | some (v, rest) => _) = _
  rw [uvarint_putUvarint]

theorem not_lt_toUInt64 (v : UInt8) : ¬ (255 : UInt64) < v.toUInt64 := by
  rw [UInt64.lt_iff_toNat_lt, UInt8.toNat_toUInt64]
  have hlt := v.toNat_lt
  simpa using Nat.le_of_lt_succ hlt

theorem reads_uvarint8 (v : UInt8) : Reads Parser.uvarint8 (appendUint8 v) v := by
  have hsmall := not_lt_toUInt64 v
  rw [← List.append_nil (appendUint8 v)]
  refine (reads_uvarint v.toUInt64).bind (Reads.raiseIf (decide_eq_false hsmall) ?_)
  rw [if_neg hsmall, UInt8.toUInt8_toUInt64]
  exact Reads.pure v

theorem reads_bool (v : Bool) : Reads Parser.bool (writeBool v) v := by
  cases v <;> exact fun _ ↦ rfl

theorem toNat_ofNat_length {α : Type} {values : List α} {bound : ℕ}
    (hlength : values.length ≤ bound) (hbound : bound < 2 ^ 64) :
    (UInt64.ofNat values.length).toNat = values.length := by
  rw [UInt64.toNat_ofNat']
  exact Nat.mod_eq_of_lt (hlength.trans_lt hbound)

theorem reads_bytesBound {maxLen : ℕ} {b : Bytes} (hmax : maxLen < 2 ^ 64)
    (hlength : b.length ≤ maxLen) : Reads (Parser.bytesBound maxLen) (appendBytes b) b := by
  refine (reads_uvarint _).bind (Reads.get fun rest ↦ ?_)
  have hcount := toNat_ofNat_length hlength hmax
  simp [hcount, hlength.not_gt]

theorem reads_ref (r : InstanceRef) : Reads Parser.ref (appendRef r) r := by
  rw [appendRef, List.append_assoc]
  exact (reads_uvarint _).bind ((reads_uvarint _).bind ((reads_uvarint _).map _))

theorem reads_ballot (b : Ballot) : Reads Parser.ballot (appendBallot b) b := by
  rw [appendBallot, List.append_assoc]
  exact (reads_uvarint _).bind ((reads_uvarint _).bind ((reads_uvarint _).map _))

theorem reads_numbers (values : List UInt64) :
    Reads (times Parser.uvarint values.length) (values.flatMap putUvarint) values := by
  have hreads := Reads.times (f := id) values fun v _ ↦ reads_uvarint v
  rwa [List.map_id] at hreads

theorem reads_deps {values : List UInt64} (hlength : values.length ≤ maxWireDeps) :
    Reads Parser.deps (appendNumbers values) values := by
  have hcount := toNat_ofNat_length hlength (by decide)
  refine (reads_uvarint _).bind (Reads.guarded ?_ ?_)
  · rw [hcount]
    omega
  · rw [hcount]
    exact reads_numbers values

theorem reads_evidence {ev : AcceptEvidence} (hlength : ev.deps.length ≤ maxWireDeps) :
    Reads Parser.scanEvidence (appendEvidence ev) ev.deps.length ∧
      Reads Parser.evidence (appendEvidence ev) ev := by
  have hcount := toNat_ofNat_length hlength (by decide)
  have hfits : ¬ maxWireDeps < ev.deps.length := by omega
  rw [appendEvidence, appendNumbers, appendLen, List.append_assoc]
  constructor
  all_goals
    refine (reads_uvarint _).bind ((reads_uvarint _).bind ((reads_uvarint _).bind
      (Reads.get fun rest ↦ ?_)))
    simp only [hcount, hfits, decide_false, Bool.or_self, Bool.false_eq_true, if_false]
    rw [StateT.run_bind, reads_numbers ev.deps rest]
    rfl

theorem reads_acceptEvidence {evs : List AcceptEvidence}
    (hlength : evs.length ≤ maxWireAcceptEvidence)
    (hdeps : ∀ ev ∈ evs, ev.deps.length ≤ maxWireDeps) :
    Reads Parser.acceptEvidence (appendLen evs ++ evs.flatMap appendEvidence) evs := by
  have hcount := toNat_ofNat_length hlength (by decide)
  have hscan := Reads.times (f := fun ev ↦ ev.deps.length) evs fun ev hev ↦
    (reads_evidence (hdeps ev hev)).1
  have hread := Reads.times (f := id) evs fun ev hev ↦ (reads_evidence (hdeps ev hev)).2
  rw [List.map_id] at hread
  refine (reads_uvarint _).bind (Reads.guarded ?_ ?_)
  · rw [hcount]
    omega
  · rw [hcount]
    exact (hscan.map List.sum).lookahead hread

theorem reads_span {span : Span} (hstart : span.start.length ≤ maxWireFootprintBytes)
    (hstop : span.stop.length ≤ maxWireFootprintBytes) :
    Reads Parser.span (appendSpan span) span :=
  (reads_bytesBound (by decide) hstart).bind ((reads_bytesBound (by decide) hstop).map _)

/-! ### Footprints the decoder takes -/

/-- The limits of the decoder on a footprint, the ones `CanonicalizeFootprint` imposes. -/
structure WithinWireLimits (f : Footprint) : Prop where
  points : f.points.length ≤ maxWireFootprintPoints
  spans : f.spans.length ≤ maxWireFootprintSpans
  bytes : footprintBytes f ≤ maxWireFootprintBytes

theorem WithinWireLimits.point_le {f : Footprint} (hlimits : WithinWireLimits f) {point : Bytes}
    (hpoint : point ∈ f.points) : point.length ≤ maxWireFootprintBytes := by
  have hsum := List.single_le_sum (fun _ _ ↦ Nat.zero_le _) _
    (List.mem_map_of_mem (f := List.length) hpoint)
  have hbytes := hlimits.bytes
  rw [footprintBytes] at hbytes
  omega

theorem WithinWireLimits.span_le {f : Footprint} (hlimits : WithinWireLimits f) {span : Span}
    (hspan : span ∈ f.spans) : span.start.length ≤ maxWireFootprintBytes ∧
      span.stop.length ≤ maxWireFootprintBytes := by
  have hsum := List.single_le_sum (fun _ _ ↦ Nat.zero_le _) _
    (List.mem_map_of_mem (f := fun s : Span ↦ s.start.length + s.stop.length) hspan)
  have hbytes := hlimits.bytes
  rw [footprintBytes] at hbytes
  omega

theorem reads_points {f : Footprint} (hlimits : WithinWireLimits f) :
    Reads (times (Parser.bytesBound maxWireFootprintBytes) f.points.length)
      (f.points.flatMap appendBytes) f.points := by
  have hreads := Reads.times (f := id) f.points fun point hpoint ↦
    reads_bytesBound (by decide) (hlimits.point_le hpoint)
  rwa [List.map_id] at hreads

theorem reads_spans {f : Footprint} (hlimits : WithinWireLimits f) :
    Reads (times Parser.span f.spans.length) (f.spans.flatMap appendSpan) f.spans := by
  have hreads := Reads.times (f := id) f.spans fun span hspan ↦
    reads_span (hlimits.span_le hspan).1 (hlimits.span_le hspan).2
  rwa [List.map_id] at hreads

theorem reads_command {c : Command} (hlimits : WithinWireLimits c.footprint)
    (hpayload : c.payload.length ≤ maxWireCommandPayload)
    (hcycleKey : c.cycleKey.length ≤ maxWireCycleKeyBytes)
    (hcanonical : commandEmpty c || footprintCanonical c.footprint) :
    Reads Parser.command (appendCommand c) c := by
  have hpoints := toNat_ofNat_length hlimits.points (by decide)
  have hspans := toNat_ofNat_length hlimits.spans (by decide)
  simp only [appendCommand, List.append_assoc]
  rw [← List.append_nil (appendBytes c.cycleKey)]
  refine (reads_uvarint _).bind ((reads_uvarint _).bind
    ((reads_bytesBound (by decide) hpayload).bind ((reads_bool _).bind ((reads_uvarint _).bind
      (Reads.guarded (not_lt.mpr (hpoints.trans_le hlimits.points)) ?_)))))
  rw [hpoints]
  refine (reads_points hlimits).bind ((reads_uvarint _).bind
    (Reads.guarded (not_lt.mpr (hspans.trans_le hlimits.spans)) ?_))
  rw [hspans]
  refine (reads_spans hlimits).bind (Reads.raiseIf (decide_eq_false (not_lt.mpr hlimits.bytes))
    ((reads_bytesBound (by decide) hcycleKey).bind (Reads.get fun rest ↦ ?_)))
  have haccept : (!false && !commandEmpty c && !footprintCanonical c.footprint) = false := by
    cases hempty : commandEmpty c <;> simp_all
  exact Reads.raiseIf haccept (Reads.pure c) rest

/-! ### The flag stays up -/

namespace Parser

theorem sticky_uvarint : Sticky uvarint := by
  rintro r value r' ⟨hrun, herr⟩
  rw [StateT.run, uvarint] at hrun
  split at hrun
  · cases hrun
    exact herr
  · split at hrun
    · cases hrun
      cases herr
    · cases hrun
      exact herr

theorem sticky_byte : Sticky byte := by
  rintro r value r' ⟨hrun, herr⟩
  rw [StateT.run, byte] at hrun
  split at hrun
  · cases hrun
    cases herr
  · cases hrun
    exact herr

theorem sticky_raiseIf (condition : Bool) : Sticky (raiseIf condition) := by
  rintro r value r' ⟨hrun, herr⟩
  cases condition with
  | false =>
    cases hrun
    exact herr
  | true =>
    cases hrun
    cases herr

theorem sticky_uvarint8 : Sticky uvarint8 :=
  sticky_uvarint.bind fun _ ↦ (sticky_raiseIf _).bind fun _ ↦ Sticky.pure _

theorem sticky_bool : Sticky bool := sticky_byte.bind fun _ ↦ Sticky.pure _

theorem sticky_bytesBound (maxLen : ℕ) : Sticky (bytesBound maxLen) := by
  refine sticky_uvarint.bind fun n r value r' haccepts ↦ ?_
  obtain ⟨hrun, herr⟩ := haccepts
  change (if maxLen < n.toNat || r.b.length < n.toNat then _ else _ : Reading Bytes).run r = _
    at hrun
  split at hrun
  · cases hrun
    cases herr
  · cases hrun
    exact herr

theorem sticky_span : Sticky span :=
  (sticky_bytesBound _).bind fun _ ↦ (sticky_bytesBound _).bind fun _ ↦ Sticky.pure _

/-- The last check of a command. -/
theorem sticky_checked (c : Command) : Sticky (do
    let p ← MonadState.get
    raiseIf (!p.err && !commandEmpty c && !footprintCanonical c.footprint)
    return c : Reading Command) := by
  intro r value r' haccepts
  change Accepts (raiseIf (!r.err && !commandEmpty c && !footprintCanonical c.footprint) >>=
    fun _ ↦ pure c) r value r' at haccepts
  exact ((sticky_raiseIf _).bind fun _ ↦ Sticky.pure _) r value r' haccepts

theorem sticky_ref : Sticky ref :=
  sticky_uvarint.bind fun _ ↦ sticky_uvarint.bind fun _ ↦ sticky_uvarint.bind fun _ ↦ Sticky.pure _

theorem sticky_ballot : Sticky ballot :=
  sticky_uvarint.bind fun _ ↦ sticky_uvarint.bind fun _ ↦ sticky_uvarint.bind fun _ ↦ Sticky.pure _

end Parser

open Parser in
/-- A command that is read with the flag down has a footprint within the limits. -/
theorem secures_command : Secures Parser.command fun c ↦ WithinWireLimits c.footprint := by
  refine Secures.skip fun client ↦ Secures.skip fun sequence ↦ Secures.skip fun payload ↦
    Secures.skip fun all ↦ Secures.skip fun pointCount ↦ Secures.ite (fun _ ↦ ?_) fun hpoints ↦ ?_
  · exact Secures.raise fun _ ↦ Sticky.pure _
  refine (Yields.times _ _).secures fun points hlength ↦ Secures.skip fun spanCount ↦
    Secures.ite (fun _ ↦ ?_) fun hspans ↦ ?_
  · exact Secures.raise fun _ ↦ Sticky.pure _
  refine (Yields.times _ _).secures fun spans hcount ↦ Secures.raiseIf
    (fun _ ↦ (sticky_bytesBound _).bind fun _ ↦ sticky_checked _) fun hbytes ↦ ?_
  refine Secures.skip fun cycleKey ↦ Secures.skip fun p ↦ Secures.skip fun _ ↦ Secures.pure ?_
  exact ⟨hlength.trans_le (not_lt.mp hpoints), hcount.trans_le (not_lt.mp hspans),
    not_lt.mp (of_decide_eq_false hbytes)⟩

/-! ### The round trip -/

/-- What the encoder checks of a message. -/
structure Encodable (m : Message) : Prop where
  deps : m.deps.length ≤ maxWireDeps
  acceptDeps : m.acceptDeps.length ≤ maxWireDeps
  acceptEvidence : m.acceptEvidence.length ≤ maxWireAcceptEvidence
  evidenceDeps : ∀ ev ∈ m.acceptEvidence, ev.deps.length ≤ maxWireDeps
  payload : m.command.payload.length ≤ maxWireCommandPayload
  cycleKey : m.command.cycleKey.length ≤ maxWireCycleKeyBytes
  control : m.protocolControl.length ≤ maxWireProtocolControl
  canonical : entryValueCanonical m.kind m.command m.confChange m.protocolControl = true

variable {blake3 : Bytes → Digest} {m : Message} {dst out : Bytes}

theorem encodeMessage_eq_ok (hencode : encodeMessage blake3 dst m = .ok out) :
    Encodable m ∧ out = dst ++ (wireMagic ++ appendBody m ++ (checksumMessage blake3 m).bytes) := by
  rw [encodeMessage] at hencode
  split at hencode
  · cases hencode
  · split at hencode
    · cases hencode
    · rename_i hlimits hevidence
      simp only [Bool.or_eq_true, decide_eq_true_eq, not_or, not_lt, gt_iff_lt,
        Bool.not_eq_eq_eq_not, Bool.not_true, Bool.not_eq_false] at hlimits
      obtain ⟨⟨⟨⟨⟨⟨hdeps, hacceptDeps⟩, hcount⟩, hpayload⟩, hcycleKey⟩, hcontrol⟩, hcanonical⟩ :=
        hlimits
      refine ⟨⟨hdeps, hacceptDeps, hcount, fun ev hev ↦ ?_, hpayload, hcycleKey, hcontrol,
        hcanonical⟩, ?_⟩
      · simp only [List.any_eq_true, not_exists, not_and, decide_eq_true_eq, not_lt] at hevidence
        exact hevidence ev hev
      · cases hencode
        simp only [List.append_assoc]

/-- A canonical value either carries no command or one with a canonical footprint. -/
theorem commandEmpty_or_footprintCanonical {kind : UInt8} {command : Command} {change : ConfChange}
    {control : Bytes} (hcanonical : entryValueCanonical kind command change control = true) :
    commandEmpty command || footprintCanonical command.footprint := by
  rw [Bool.or_eq_true]
  simp only [entryValueCanonical] at hcanonical
  split_ifs at hcanonical <;> simp only [Bool.and_eq_true] at hcanonical
  · exact .inl hcanonical.1.1
  · exact .inr hcanonical.1.2
  · exact .inl hcanonical.1.1
  · exact .inl hcanonical.1.1.1
  · exact .inl hcanonical.1.1.1

theorem reads_message (hencodable : Encodable m) (hlimits : WithinWireLimits m.command.footprint) :
    Reads Parser.message (appendBody m) { m with checksum := .zero } := by
  have hcommand := commandEmpty_or_footprintCanonical hencodable.canonical
  have hevidence := reads_acceptEvidence hencodable.acceptEvidence hencodable.evidenceDeps
  have hassoc : ∀ rest, appendLen m.acceptEvidence ++
      (m.acceptEvidence.flatMap appendEvidence ++ rest) =
        (appendLen m.acceptEvidence ++ m.acceptEvidence.flatMap appendEvidence) ++ rest :=
    fun rest ↦ (List.append_assoc _ _ rest).symm
  delta appendBody
  simp only [List.append_assoc]
  rw [hassoc]
  refine (reads_uvarint8 _).bind ?_
  refine (reads_uvarint _).bind ((reads_uvarint _).bind ?_)
  refine (reads_uvarint _).bind ((reads_uvarint _).bind ?_)
  refine (reads_ref _).bind ((reads_uvarint _).bind ((reads_bool _).bind ?_))
  refine (reads_ballot _).bind ((reads_ballot _).bind ?_)
  refine (reads_uvarint _).bind ((reads_deps hencodable.deps).bind ?_)
  refine (reads_uvarint _).bind ((reads_deps hencodable.acceptDeps).bind ?_)
  refine hevidence.bind ((reads_ref _).bind ?_)
  refine (reads_uvarint8 _).bind ((reads_uvarint8 _).bind ((reads_uvarint _).bind ?_))
  refine (reads_bytesBound (by decide) hencodable.control).bind ?_
  refine (reads_command hlimits hencodable.payload hencodable.cycleKey hcommand).bind ?_
  refine (reads_bool _).bind ((reads_ballot _).bind ((reads_uvarint8 _).bind ?_))
  refine (reads_ref _).bind ((reads_uvarint8 _).bind ?_)
  refine (reads_bool _).bind ((reads_uvarint _).bind ?_)
  exact (reads_uvarint8 _).map _

open Parser in
theorem secures_message :
    Secures Parser.message fun m ↦ WithinWireLimits m.command.footprint := by
  iterate 20 refine Secures.skip fun _ ↦ ?_
  refine secures_command.bind (fun _ ↦ ?_) fun command hcommand ↦ ?_
  · refine sticky_bool.bind fun _ ↦ sticky_ballot.bind fun _ ↦ sticky_uvarint8.bind fun _ ↦ ?_
    refine sticky_ref.bind fun _ ↦ sticky_uvarint8.bind fun _ ↦ sticky_bool.bind fun _ ↦ ?_
    exact sticky_uvarint.bind fun _ ↦ sticky_uvarint8.bind fun _ ↦ Sticky.pure _
  · iterate 8 refine Secures.skip fun _ ↦ ?_
    exact Secures.pure hcommand

/-- What the decoder does with a frame, in terms of the fields between magic number and checksum. -/
theorem decodeMessage_frame (body : Bytes) (digest : Digest) :
    decodeMessage blake3 (wireMagic ++ body ++ digest.bytes) =
      match Parser.message.run ⟨body, false⟩ with
      | none => .error .invalidMessage
      | some (m, p) =>
        if p.err || !p.b.isEmpty then .error .invalidMessage
        else if verifyMessageChecksum blake3 { m with checksum := digest } then
          .ok { m with checksum := digest }
        else .error .checksumMismatch := by
  have hlength : (wireMagic ++ body ++ digest.bytes).length = (wireMagic ++ body).length + 32 := by
    rw [List.length_append, digest.length_eq]
  have hmagic : (wireMagic ++ body ++ digest.bytes).take wireMagic.length = wireMagic := by
    rw [List.append_assoc, List.take_left]
  have hlong : ¬ (wireMagic ++ body ++ digest.bytes).length < wireMagic.length + 32 := by
    rw [hlength, List.length_append]
    omega
  have hsplit : (wireMagic ++ body ++ digest.bytes).length - 32 = (wireMagic ++ body).length := by
    rw [hlength, Nat.add_sub_cancel]
  have hbody : ((wireMagic ++ body ++ digest.bytes).take (wireMagic ++ body).length).drop
      wireMagic.length = body := by
    rw [List.take_left, List.drop_left]
  have hdigest : (wireMagic ++ body ++ digest.bytes).drop (wireMagic ++ body).length =
      digest.bytes := List.drop_left
  have hpass : (decide ((wireMagic ++ body ++ digest.bytes).length < wireMagic.length + 32) ||
      (wireMagic ++ body ++ digest.bytes).take wireMagic.length != wireMagic) = false := by
    rw [decide_eq_false hlong, hmagic, bne_self_eq_false, Bool.or_self]
  simp only [decodeMessage, hpass, Bool.false_eq_true, if_false, hsplit, hbody, hdigest,
    Digest.copy_bytes]

/-- A message the encoder accepts is decoded to itself, with its checksum filled in, exactly when
its footprint is within the limits of the decoder. -/
theorem decodeMessage_encodeMessage (blake3 : Bytes → Digest) (m : Message) (dst out : Bytes)
    (hencode : encodeMessage blake3 dst m = .ok out) :
    ∃ wire, out = dst ++ wire ∧
      (decodeMessage blake3 wire = .ok { m with checksum := checksumMessage blake3 m } ↔
        WithinWireLimits m.command.footprint) := by
  obtain ⟨hencodable, hout⟩ := encodeMessage_eq_ok hencode
  refine ⟨_, hout, fun hdecode ↦ ?_, fun hlimits ↦ ?_⟩
  · rw [decodeMessage_frame] at hdecode
    split at hdecode
    · cases hdecode
    rename_i read p hrun
    split at hdecode
    · cases hdecode
    rename_i hdone
    split at hdecode
    · have hsame := congrArg Message.command (Except.ok.inj hdecode)
      obtain ⟨herr, -⟩ : p.err = false ∧ p.b = [] := by simpa using hdone
      exact hsame ▸ secures_message _ read p ⟨hrun, herr⟩
    · cases hdecode
  · have hread := reads_message hencodable hlimits []
    rw [List.append_nil] at hread
    have hverify : verifyMessageChecksum blake3 { m with checksum := checksumMessage blake3 m } =
        true := beq_self_eq_true (checksumMessage blake3 m)
    rw [decodeMessage_frame, hread]
    simp [hverify]

/-- A PreAccept whose command touches one key. -/
def samplePreAccept : Message :=
  { type := 1, source := 1, target := 2, ref := ⟨1, 300, 1⟩, seq := 7, deps := [0, 299, 4],
    acceptEvidence := [⟨2, 5, [1, 2, 3]⟩], kind := entryCommand,
    command := { id := ⟨9, 1⟩, payload := [1, 2], footprint := { points := [[5]] } } }

theorem decodeMessage_encodeMessage_sample :
    encodeMessage (fun _ ↦ .zero) [] samplePreAccept =
        .ok (wireMagic ++ appendBody samplePreAccept ++ Digest.zero.bytes) ∧
      WithinWireLimits samplePreAccept.command.footprint ∧
      ∃ wire, wireMagic ++ appendBody samplePreAccept ++ Digest.zero.bytes = [] ++ wire ∧
        decodeMessage (fun _ ↦ .zero) wire =
          .ok { samplePreAccept with
            checksum := checksumMessage (fun _ ↦ .zero) samplePreAccept } := by
  have hencode : encodeMessage (fun _ ↦ .zero) [] samplePreAccept =
      .ok (wireMagic ++ appendBody samplePreAccept ++ Digest.zero.bytes) := by
    decide +kernel
  have hlimits : WithinWireLimits samplePreAccept.command.footprint :=
    ⟨by decide, by decide, by decide⟩
  obtain ⟨wire, hwire, hiff⟩ := decodeMessage_encodeMessage _ _ _ _ hencode
  exact ⟨hencode, hlimits, wire, hwire, hiff.mpr hlimits⟩

/-- A message whose footprint names 129 keys, one more than the decoder allows. -/
def oversized : Message :=
  { type := 1, source := 1, target := 2, ref := ⟨1, 1, 1⟩, kind := entryCommand,
    command := { footprint := { points := (List.range 129).map fun i ↦ [UInt8.ofNat i] } } }

/-- The encoder does not bound the footprint: this message is encoded, and whatever the hash is
the decoder refuses the result. -/
theorem decodeMessage_encodeMessage_oversized :
    maxWireFootprintPoints < oversized.command.footprint.points.length ∧
      ∀ blake3 : Bytes → Digest, ∃ wire, encodeMessage blake3 [] oversized = .ok wire ∧
        decodeMessage blake3 wire = .error .invalidMessage := by
  refine ⟨by decide +kernel, fun blake3 ↦ ?_⟩
  have hrefused : (Parser.message.run ⟨appendBody oversized, false⟩).all
      (fun read ↦ read.2.err || !read.2.b.isEmpty) = true := by
    decide +kernel
  refine ⟨wireMagic ++ appendBody oversized ++ (checksumMessage blake3 oversized).bytes, ?_, ?_⟩
  · rw [encodeMessage, if_neg (by decide +kernel), if_neg (by decide +kernel), List.nil_append]
  · rw [decodeMessage_frame]
    split
    · rfl
    · rename_i hrun
      rw [hrun] at hrefused
      exact if_pos hrefused

end

end MoreConsensus.Wire
