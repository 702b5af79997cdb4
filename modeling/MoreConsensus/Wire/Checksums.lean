import MoreConsensus.Library.PrefixCodes
import MoreConsensus.Wire.Codec

/-!
# Checksums of records and messages

What `epaxos/checksum.go` hashes for an instance record, in its current layout and in the layouts it
replaced, and the checks that accept a record in each of them. The hash is a parameter. Numbers are
written with eight bytes and every slice behind its length, so each part of a checksum's input is
self-delimiting, and two records or two messages with one input agree on every field but the
checksum (`checksumInputs_injective`).
-/

set_option autoImplicit false

namespace MoreConsensus.Wire

open Library

/-! ### The record -/

structure ConfState where
  id : UInt64 := 0
  voters : List UInt64 := []
  deriving DecidableEq, Repr, Inhabited

structure ConfChangeResult where
  outcome : UInt8 := 0
  conf : ConfState := {}
  deriving DecidableEq, Repr, Inhabited

structure MembershipResult where
  plan : Digest := .zero
  outcome : UInt8 := 0
  exitRef : InstanceRef := {}
  certificateDigest : Digest := .zero
  successor : ConfState := {}
  deriving DecidableEq, Repr, Inhabited

/-- The durable value of one instance. -/
structure InstanceRecord where
  ref : InstanceRef := {}
  ballot : Ballot := {}
  recordBallot : Ballot := {}
  status : UInt8 := 0
  seq : UInt64 := 0
  deps : List UInt64 := []
  acceptSeq : UInt64 := 0
  acceptDeps : List UInt64 := []
  acceptEvidence : List AcceptEvidence := []
  kind : UInt8 := 0
  confChange : ConfChange := {}
  protocolControl : Bytes := []
  command : Command := {}
  fastPathEligible : Bool := false
  processAt : UInt64 := 0
  timingDomain : UInt8 := 0
  toqPending : Bool := false
  confChangeResult : ConfChangeResult := {}
  membershipResult : MembershipResult := {}
  checksum : Digest := .zero
  deriving Repr, Inhabited

/-! ### Layouts -/

/-- The fields a layout of the checksum covers beyond those that all of them cover. -/
structure RecordLayout where
  fastPath : Bool := true
  toq : Bool := true
  acceptEvidence : Bool := true
  recordBallot : Bool := true
  senderEvidence : Bool := true
  confChangeResult : Bool := true
  timingDomain : Bool := true
  deriving DecidableEq, Repr

def writeNumbers (values : List UInt64) : Bytes := writeLen values ++ values.flatMap writeUint64

def writeEvidence (ev : AcceptEvidence) : Bytes :=
  writeUint64 ev.sender ++ writeUint64 ev.seq ++ writeNumbers ev.deps

def writeConf (conf : ConfState) : Bytes := writeUint64 conf.id ++ writeNumbers conf.voters

/-- The fields ahead of the value of an entry. -/
def writeAttributes (layout : RecordLayout) (r : InstanceRecord) : Bytes :=
  writeRef r.ref ++ writeBallot r.ballot ++
    (if layout.recordBallot then writeBallot r.recordBallot else []) ++
    [r.status] ++ writeUint64 r.seq ++ writeNumbers r.deps ++
    (if layout.acceptEvidence then writeUint64 r.acceptSeq ++ writeNumbers r.acceptDeps else []) ++
    (if layout.senderEvidence then
      writeLen r.acceptEvidence ++ r.acceptEvidence.flatMap writeEvidence else [])

/-- The fields after the value of an entry, without the result of a membership control. -/
def writeOutcome (layout : RecordLayout) (r : InstanceRecord) : Bytes :=
  (if layout.fastPath then writeBool r.fastPathEligible else []) ++
    (if layout.toq then writeUint64 r.processAt ++ writeBool r.toqPending else []) ++
    (if layout.timingDomain then [r.timingDomain] else []) ++
    (if layout.confChangeResult then
      [r.confChangeResult.outcome] ++ writeConf r.confChangeResult.conf else [])

def writeMembershipResult (result : MembershipResult) : Bytes :=
  writeBytes result.plan.bytes ++ [result.outcome] ++ writeRef result.exitRef ++
    writeBytes result.certificateDigest.bytes ++ writeConf result.successor

/-- The value of an entry as the older layouts hash it: the kind by its older number, and of a
footprint its points only. -/
def writeLegacyCommand (r : InstanceRecord) : Bytes :=
  let write (id : CommandID) (kind : UInt8) (payload : Bytes) (points : List Bytes) : Bytes :=
    writeUint64 id.client ++ writeUint64 id.sequence ++ [kind] ++ writeBytes payload ++
      writeLen points ++ points.flatMap writeBytes
  if r.kind = entryCommand then write r.command.id 0 r.command.payload r.command.footprint.points
  else if r.kind = entryNoop then write {} 1 [] []
  else if r.kind = entryConfChange then
    write {} 2 ([r.confChange.type] ++ writeUint64 r.confChange.replica) []
  else if r.kind = entryMembership then write {} 3 r.protocolControl []
  else if r.kind = entryCheckpoint then write {} entryCheckpoint r.protocolControl []
  else write {} r.kind [] []

def legacyRecordInput (layout : RecordLayout) (r : InstanceRecord) : Bytes :=
  writeAttributes layout r ++ writeLegacyCommand r ++ writeOutcome layout r

def recordInput (layout : RecordLayout) (includeMembershipResult : Bool) (r : InstanceRecord) :
    Bytes :=
  writeAttributes layout r ++ writeEntryValue r.kind r.command r.confChange r.protocolControl ++
    writeOutcome layout r ++
    (if includeMembershipResult then writeMembershipResult r.membershipResult else [])

/-- What the checksum of a record hashes: every field but the checksum itself. -/
def checksumRecordInput (r : InstanceRecord) : Bytes := recordInput {} true r

/-! ### Checks of a stored record -/

def timingDomainUntimed : UInt8 := 0
def timingDomainLogical : UInt8 := 1
def timingDomainTOQ : UInt8 := 2

def statusNone : UInt8 := 0
def statusPreAccepted : UInt8 := 1
def statusExecuted : UInt8 := 4

def recordTimingInvariant (r : InstanceRecord) : Bool :=
  if r.kind = entryNoop then
    r.processAt == 0 && r.timingDomain == timingDomainUntimed && !r.toqPending
  else if r.timingDomain = timingDomainUntimed then r.processAt == 0 && !r.toqPending
  else if r.timingDomain = timingDomainLogical then r.processAt != 0 && !r.toqPending
  else r.timingDomain == timingDomainTOQ

def recordChecksumInvariant (r : InstanceRecord) : Bool :=
  if statusPreAccepted ≤ r.status then r.recordBallot != {} else r.recordBallot == {}

def confChangeResultAbsent (r : InstanceRecord) : Bool := r.confChangeResult == {}

def membershipResultAbsent (r : InstanceRecord) : Bool := r.membershipResult == {}

def acceptEvidenceAbsent (r : InstanceRecord) : Bool :=
  r.acceptSeq == 0 && r.acceptDeps.isEmpty && r.acceptEvidence.isEmpty

section

variable (blake3 : Bytes → Digest)

def checksumRecord (r : InstanceRecord) : Digest := blake3 (checksumRecordInput r)

/-- The checksum in one of the layouts of older versions. -/
def checksumLegacyRecordLayout (layout : RecordLayout) (r : InstanceRecord) : Digest :=
  blake3 (legacyRecordInput layout r)

def checksumRecordWithoutMembershipResult (r : InstanceRecord) : Digest :=
  checksumLegacyRecordLayout blake3 {} r

def checksumRecordWithoutTimingDomain (r : InstanceRecord) : Digest :=
  checksumLegacyRecordLayout blake3 { timingDomain := false } r

def verifyRecordChecksum (r : InstanceRecord) : Bool :=
  recordTimingInvariant r && recordChecksumInvariant r && r.checksum == checksumRecord blake3 r

def verifyRecordChecksumWithoutMembershipResult (r : InstanceRecord) : Bool :=
  membershipResultAbsent r && recordTimingInvariant r && recordChecksumInvariant r &&
    r.checksum == checksumRecordWithoutMembershipResult blake3 r

def verifyRecordChecksumWithoutTimingDomain (r : InstanceRecord) : Bool :=
  r.timingDomain == timingDomainUntimed && recordChecksumInvariant r &&
    r.checksum == checksumRecordWithoutTimingDomain blake3 r

/-- The layout without the timing domain and the result of a configuration command. -/
def verifyRecordChecksumWithoutConfChangeResult (r : InstanceRecord) : Bool :=
  r.timingDomain == timingDomainUntimed && confChangeResultAbsent r && recordChecksumInvariant r &&
    r.checksum == checksumLegacyRecordLayout blake3
      { timingDomain := false, confChangeResult := false } r

def verifyRecordChecksumWithoutSenderAcceptEvidence (r : InstanceRecord) : Bool :=
  r.timingDomain == timingDomainUntimed && confChangeResultAbsent r && r.acceptEvidence.isEmpty &&
    recordChecksumInvariant r &&
    r.checksum == checksumLegacyRecordLayout blake3
      { timingDomain := false, confChangeResult := false, senderEvidence := false } r

def verifyRecordChecksumWithoutRecordBallot (r : InstanceRecord) : Bool :=
  r.timingDomain == timingDomainUntimed && confChangeResultAbsent r && r.recordBallot == {} &&
    r.acceptEvidence.isEmpty &&
    r.checksum == checksumLegacyRecordLayout blake3
      { timingDomain := false, confChangeResult := false, senderEvidence := false,
        recordBallot := false } r

def verifyRecordChecksumWithoutAcceptEvidence (r : InstanceRecord) : Bool :=
  r.timingDomain == timingDomainUntimed && confChangeResultAbsent r && r.recordBallot == {} &&
    acceptEvidenceAbsent r &&
    r.checksum == checksumLegacyRecordLayout blake3
      { timingDomain := false, confChangeResult := false, senderEvidence := false,
        recordBallot := false, acceptEvidence := false } r

def verifyRecordChecksumWithoutTOQ (r : InstanceRecord) : Bool :=
  r.timingDomain == timingDomainUntimed && confChangeResultAbsent r && r.recordBallot == {} &&
    acceptEvidenceAbsent r && r.processAt == 0 && !r.toqPending &&
    r.checksum == checksumLegacyRecordLayout blake3
      { timingDomain := false, confChangeResult := false, senderEvidence := false,
        recordBallot := false, acceptEvidence := false, toq := false } r

def verifyRecordChecksumWithoutFastPathOrTOQ (r : InstanceRecord) : Bool :=
  r.timingDomain == timingDomainUntimed && confChangeResultAbsent r && r.recordBallot == {} &&
    acceptEvidenceAbsent r && !r.fastPathEligible && r.processAt == 0 && !r.toqPending &&
    r.checksum == checksumLegacyRecordLayout blake3
      { timingDomain := false, confChangeResult := false, senderEvidence := false,
        recordBallot := false, acceptEvidence := false, toq := false, fastPath := false } r

end

/-! ### Every part is self-delimiting -/

theorem mod_of_littleEndian_eq {a b : ℕ} (n : ℕ)
    (heq : (List.range n).map (fun i ↦ UInt8.ofNat (a / 256 ^ i)) =
      (List.range n).map fun i ↦ UInt8.ofNat (b / 256 ^ i)) : a % 256 ^ n = b % 256 ^ n := by
  induction n with
  | zero => rw [pow_zero, Nat.mod_one, Nat.mod_one]
  | succ n ih =>
    rw [List.range_succ, List.map_append, List.map_append] at heq
    obtain ⟨hlow, hhigh⟩ := List.append_inj' heq rfl
    have hdigit : a / 256 ^ n % 256 = b / 256 ^ n % 256 := by
      simpa [← UInt8.toNat_inj] using hhigh
    rw [Nat.mod_pow_succ, Nat.mod_pow_succ, ih hlow, hdigit]

theorem selfDelimiting_writeUint64 : SelfDelimiting Set.univ writeUint64 := by
  refine SelfDelimiting.of_length (n := 8) (fun v _ ↦ by simp [writeUint64]) ?_
  intro a _ b _ heq
  have hmod : a.toNat % 2 ^ 64 = b.toNat % 2 ^ 64 := mod_of_littleEndian_eq 8 heq
  rw [Nat.mod_eq_of_lt a.toNat_lt, Nat.mod_eq_of_lt b.toNat_lt] at hmod
  exact UInt64.toNat_inj.mp hmod

theorem selfDelimiting_byte : SelfDelimiting Set.univ fun b : UInt8 ↦ [b] :=
  SelfDelimiting.of_length (n := 1) (fun _ _ ↦ rfl) fun _ _ _ _ heq ↦ List.singleton_inj.mp heq

theorem selfDelimiting_writeBool : SelfDelimiting Set.univ writeBool := by
  refine SelfDelimiting.of_length (n := 1) (fun _ _ ↦ rfl) ?_
  rintro (_ | _) _ (_ | _) _ heq
  · rfl
  · cases heq
  · cases heq
  · rfl

/-- The lists whose length is an `int`. -/
def slices (α : Type) : Set (List α) := {values | values.length < 2 ^ 63}

instance {α : Type} (values : List α) : Decidable (values ∈ slices α) :=
  inferInstanceAs (Decidable (values.length < 2 ^ 63))

theorem nil_mem_slices {α : Type} : [] ∈ slices α := Nat.two_pow_pos 63

theorem selfDelimiting_writeLen :
    SelfDelimiting {n : ℕ | n < 2 ^ 63} fun n ↦ writeUint64 (UInt64.ofNat n) := by
  intro a ha b hb x y heq
  obtain ⟨hnumber, hrest⟩ := selfDelimiting_writeUint64 trivial trivial heq
  have hsmall : ∀ n, n < 2 ^ 63 → (UInt64.ofNat n).toNat = n := by
    intro n hn
    rw [UInt64.toNat_ofNat']
    exact Nat.mod_eq_of_lt (hn.trans (by decide))
  exact ⟨by rw [← hsmall a ha, ← hsmall b hb, hnumber], hrest⟩

/-- A slice behind its length. -/
theorem writeLen_append_iff {α : Type} {S : Set α} {encode : α → Bytes}
    (h : SelfDelimiting S encode) {as bs : List α} (has : as ∈ slices α) (hmem : ∀ a ∈ as, a ∈ S)
    (hbs : bs ∈ slices α) (hmem' : ∀ b ∈ bs, b ∈ S) {x y : Bytes} :
    writeLen as ++ (as.flatMap encode ++ x) = writeLen bs ++ (bs.flatMap encode ++ y) ↔
      as = bs ∧ x = y := by
  rw [← List.append_assoc, ← List.append_assoc (writeLen bs)]
  exact (selfDelimiting_writeLen.counted h).iff ⟨has, hmem⟩ ⟨hbs, hmem'⟩

theorem selfDelimiting_writeBytes : SelfDelimiting (slices UInt8) writeBytes := by
  have hcounted := selfDelimiting_writeLen.counted selfDelimiting_byte
  intro a ha b hb x y heq
  refine hcounted ⟨ha, fun _ _ ↦ trivial⟩ ⟨hb, fun _ _ ↦ trivial⟩ ?_
  simp only [List.flatMap_singleton']
  exact heq

theorem selfDelimiting_writeNumbers : SelfDelimiting (slices UInt64) writeNumbers := by
  intro a ha b hb x y heq
  exact selfDelimiting_writeLen.counted selfDelimiting_writeUint64 ⟨ha, fun _ _ ↦ trivial⟩
    ⟨hb, fun _ _ ↦ trivial⟩ heq

theorem writeLen_numbers_iff {as bs : List UInt64} (has : as ∈ slices UInt64)
    (hbs : bs ∈ slices UInt64) {x y : Bytes} :
    writeLen as ++ (as.flatMap writeUint64 ++ x) = writeLen bs ++ (bs.flatMap writeUint64 ++ y) ↔
      as = bs ∧ x = y :=
  writeLen_append_iff selfDelimiting_writeUint64 has (fun _ _ ↦ trivial) hbs fun _ _ ↦ trivial

theorem selfDelimiting_writeRef : SelfDelimiting Set.univ writeRef := by
  intro a _ b _ x y heq
  obtain ⟨r, i, c⟩ := a
  obtain ⟨r', i', c'⟩ := b
  simpa only [writeRef, List.append_assoc, selfDelimiting_writeUint64.iff trivial trivial,
    InstanceRef.mk.injEq, and_assoc] using heq

theorem selfDelimiting_writeBallot : SelfDelimiting Set.univ writeBallot := by
  intro a _ b _ x y heq
  obtain ⟨e, n, r⟩ := a
  obtain ⟨e', n', r'⟩ := b
  simpa only [writeBallot, List.append_assoc, selfDelimiting_writeUint64.iff trivial trivial,
    Ballot.mk.injEq, and_assoc] using heq

theorem selfDelimiting_writeEvidence :
    SelfDelimiting {ev | ev.deps ∈ slices UInt64} writeEvidence := by
  rintro ⟨sender, seq, deps⟩ hdeps ⟨sender', seq', deps'⟩ hdeps' x y heq
  simpa only [writeEvidence, List.append_assoc, selfDelimiting_writeUint64.iff trivial trivial,
    selfDelimiting_writeNumbers.iff hdeps hdeps', AcceptEvidence.mk.injEq, and_assoc] using heq

theorem selfDelimiting_writeConf : SelfDelimiting {c | c.voters ∈ slices UInt64} writeConf := by
  rintro ⟨id, voters⟩ hvoters ⟨id', voters'⟩ hvoters' x y heq
  simpa only [writeConf, List.append_assoc, selfDelimiting_writeUint64.iff trivial trivial,
    selfDelimiting_writeNumbers.iff hvoters hvoters', ConfState.mk.injEq, and_assoc] using heq

theorem selfDelimiting_digest :
    SelfDelimiting Set.univ fun digest : Digest ↦ writeBytes digest.bytes := by
  intro a _ b _ x y heq
  have hslice : ∀ digest : Digest, digest.bytes ∈ slices UInt8 := by
    intro digest
    change digest.bytes.length < 2 ^ 63
    rw [digest.length_eq]
    decide
  obtain ⟨hbytes, hrest⟩ := selfDelimiting_writeBytes (hslice a) (hslice b) heq
  exact ⟨Digest.ext hbytes, hrest⟩

theorem selfDelimiting_writeSpan :
    SelfDelimiting {span : Span | span.start ∈ slices UInt8 ∧ span.stop ∈ slices UInt8}
      fun span ↦ writeBytes span.start ++ writeBytes span.stop := by
  rintro ⟨start, stop⟩ ⟨hstart, hstop⟩ ⟨start', stop'⟩ ⟨hstart', hstop'⟩ x y heq
  simpa only [List.append_assoc, selfDelimiting_writeBytes.iff hstart hstart',
    selfDelimiting_writeBytes.iff hstop hstop', Span.mk.injEq, and_assoc] using heq

/-- The slices of a footprint have lengths of the source. -/
structure FootprintSized (f : Footprint) : Prop where
  points : f.points ∈ slices Bytes
  point : ∀ point ∈ f.points, point ∈ slices UInt8
  spans : f.spans ∈ slices Span
  span : ∀ span ∈ f.spans, span.start ∈ slices UInt8 ∧ span.stop ∈ slices UInt8

theorem selfDelimiting_writeFootprint :
    SelfDelimiting {f | FootprintSized f} writeFootprint := by
  rintro ⟨points, spans, all⟩ hf ⟨points', spans', all'⟩ hf' x y heq
  simp only [writeFootprint, List.append_assoc, selfDelimiting_writeBool.iff trivial trivial,
    writeLen_append_iff selfDelimiting_writeBytes hf.points hf.point hf'.points hf'.point] at heq
  obtain ⟨rfl, rfl, heq⟩ := heq
  obtain ⟨rfl, hrest⟩ := (writeLen_append_iff selfDelimiting_writeSpan hf.spans hf.span hf'.spans
    hf'.span).mp heq
  exact ⟨rfl, hrest⟩

/-- The slices of a command have lengths of the source. -/
structure Command.Sized (c : Command) : Prop where
  payload : c.payload ∈ slices UInt8
  footprint : FootprintSized c.footprint
  cycleKey : c.cycleKey ∈ slices UInt8

theorem selfDelimiting_writeCommand : SelfDelimiting {c | c.Sized} writeCommand := by
  rintro ⟨⟨client, sequence⟩, payload, footprint, key⟩ hc
    ⟨⟨client', sequence'⟩, payload', footprint', key'⟩ hc' x y heq
  simpa only [writeCommand, List.append_assoc, selfDelimiting_writeUint64.iff trivial trivial,
    selfDelimiting_writeBytes.iff hc.payload hc'.payload,
    selfDelimiting_writeFootprint.iff hc.footprint hc'.footprint,
    selfDelimiting_writeBytes.iff hc.cycleKey hc'.cycleKey, Command.mk.injEq, CommandID.mk.injEq,
    and_assoc] using heq

theorem writeEntryValue_append {kind kind' : UInt8} {command command' : Command}
    {change change' : ConfChange} {control control' x y : Bytes} (hcommand : command.Sized)
    (hcommand' : command'.Sized) (hcontrol : control ∈ slices UInt8)
    (hcontrol' : control' ∈ slices UInt8) :
    writeEntryValue kind command change control ++ x =
        writeEntryValue kind' command' change' control' ++ y ↔
      kind = kind' ∧ change = change' ∧ control = control' ∧ command = command' ∧ x = y := by
  obtain ⟨type, replica⟩ := change
  obtain ⟨type', replica'⟩ := change'
  simp only [writeEntryValue, List.append_assoc, selfDelimiting_byte.iff trivial trivial,
    selfDelimiting_writeUint64.iff trivial trivial,
    selfDelimiting_writeBytes.iff hcontrol hcontrol',
    selfDelimiting_writeCommand.iff hcommand hcommand', ConfChange.mk.injEq, and_assoc]

/-! ### Inputs determine contents -/

/-- The slices of a record have lengths of the source. -/
structure InstanceRecord.Sized (r : InstanceRecord) : Prop where
  deps : r.deps ∈ slices UInt64
  acceptDeps : r.acceptDeps ∈ slices UInt64
  acceptEvidence : r.acceptEvidence ∈ slices AcceptEvidence
  evidence : ∀ ev ∈ r.acceptEvidence, ev.deps ∈ slices UInt64
  control : r.protocolControl ∈ slices UInt8
  command : r.command.Sized
  voters : r.confChangeResult.conf.voters ∈ slices UInt64
  successor : r.membershipResult.successor.voters ∈ slices UInt64

/-- The slices of a message have lengths of the source. -/
structure Message.Sized (m : Message) : Prop where
  deps : m.deps ∈ slices UInt64
  acceptDeps : m.acceptDeps ∈ slices UInt64
  acceptEvidence : m.acceptEvidence ∈ slices AcceptEvidence
  evidence : ∀ ev ∈ m.acceptEvidence, ev.deps ∈ slices UInt64
  control : m.protocolControl ∈ slices UInt8
  command : m.command.Sized

theorem checksumRecordInput_injective {r r' : InstanceRecord} (hr : r.Sized) (hr' : r'.Sized)
    (heq : checksumRecordInput r = checksumRecordInput r') :
    { r with checksum := r'.checksum } = r' := by
  have heq : checksumRecordInput r ++ [] = checksumRecordInput r' ++ [] := by rw [heq]
  simp only [checksumRecordInput, recordInput, writeAttributes, writeOutcome, writeMembershipResult,
    if_true, List.append_assoc, selfDelimiting_writeRef.iff trivial trivial,
    selfDelimiting_writeBallot.iff trivial trivial, selfDelimiting_byte.iff trivial trivial,
    selfDelimiting_writeUint64.iff trivial trivial, selfDelimiting_writeBool.iff trivial trivial,
    selfDelimiting_writeNumbers.iff hr.deps hr'.deps,
    selfDelimiting_writeNumbers.iff hr.acceptDeps hr'.acceptDeps,
    writeLen_append_iff selfDelimiting_writeEvidence hr.acceptEvidence hr.evidence
      hr'.acceptEvidence hr'.evidence,
    writeEntryValue_append hr.command hr'.command hr.control hr'.control,
    selfDelimiting_writeConf.iff hr.voters hr'.voters,
    selfDelimiting_digest.iff trivial trivial,
    selfDelimiting_writeConf.iff hr.successor hr'.successor] at heq
  obtain ⟨_, _, _, _, _, _, _, _, _, _, _, _, _, _, _, _, _, ⟨_, _⟩, ⟨_, _, _, _, _⟩, _⟩ := r
  obtain ⟨_, _, _, _, _, _, _, _, _, _, _, _, _, _, _, _, _, ⟨_, _⟩, ⟨_, _, _, _, _⟩, _⟩ := r'
  obtain ⟨rfl, rfl, rfl, rfl, rfl, rfl, rfl, rfl, rfl, rfl, rfl, rfl, rfl, rfl, rfl, rfl, rfl, rfl,
    rfl, rfl, rfl, rfl, rfl, rfl, -⟩ := heq
  rfl

theorem checksumInput_injective {m m' : Message} (hm : m.Sized) (hm' : m'.Sized)
    (heq : checksumInput m = checksumInput m') : { m with checksum := m'.checksum } = m' := by
  have hevidence : (fun ev : AcceptEvidence ↦ writeUint64 ev.sender ++ writeUint64 ev.seq ++
      writeLen ev.deps ++ ev.deps.flatMap writeUint64) = writeEvidence := by
    funext ev
    simp only [writeEvidence, writeNumbers, List.append_assoc]
  delta checksumInput at heq
  simp only [hevidence] at heq
  simp only [List.append_assoc, selfDelimiting_writeRef.iff trivial trivial,
    selfDelimiting_writeBallot.iff trivial trivial, selfDelimiting_byte.iff trivial trivial,
    selfDelimiting_writeUint64.iff trivial trivial, selfDelimiting_writeBool.iff trivial trivial,
    writeLen_numbers_iff hm.deps hm'.deps, writeLen_numbers_iff hm.acceptDeps hm'.acceptDeps,
    writeLen_append_iff selfDelimiting_writeEvidence hm.acceptEvidence hm.evidence
      hm'.acceptEvidence hm'.evidence,
    writeEntryValue_append hm.command hm'.command hm.control hm'.control,
    List.singleton_inj] at heq
  cases m
  cases m'
  obtain ⟨rfl, rfl, rfl, rfl, rfl, rfl, rfl, rfl, rfl, rfl, rfl, rfl, rfl, rfl, rfl, rfl, rfl, rfl,
    rfl, rfl, rfl, rfl, rfl, rfl, rfl, rfl, rfl, rfl⟩ := heq
  rfl

/-- The inputs of checksums are injective: two records, or two messages, with one input agree on
every field but the checksum. With equal checksums they agree on every field, or their inputs are a
collision of the hash.

Assumes: the lengths of slices are numbers of the source (`Sized`). -/
theorem checksumInputs_injective :
    (∀ r r' : InstanceRecord, r.Sized → r'.Sized →
      (checksumRecordInput r = checksumRecordInput r' → { r with checksum := r'.checksum } = r') ∧
      ∀ blake3 : Bytes → Digest, checksumRecord blake3 r = checksumRecord blake3 r' →
        { r with checksum := r'.checksum } = r' ∨
          (checksumRecordInput r ≠ checksumRecordInput r' ∧
            blake3 (checksumRecordInput r) = blake3 (checksumRecordInput r'))) ∧
    ∀ m m' : Message, m.Sized → m'.Sized →
      (checksumInput m = checksumInput m' → { m with checksum := m'.checksum } = m') ∧
      ∀ blake3 : Bytes → Digest, checksumMessage blake3 m = checksumMessage blake3 m' →
        { m with checksum := m'.checksum } = m' ∨
          (checksumInput m ≠ checksumInput m' ∧
            blake3 (checksumInput m) = blake3 (checksumInput m')) := by
  refine ⟨fun r r' hr hr' ↦ ⟨checksumRecordInput_injective hr hr', fun blake3 hsum ↦ ?_⟩,
    fun m m' hm hm' ↦ ⟨checksumInput_injective hm hm', fun blake3 hsum ↦ ?_⟩⟩
  · by_cases heq : checksumRecordInput r = checksumRecordInput r'
    · exact .inl (checksumRecordInput_injective hr hr' heq)
    · exact .inr ⟨heq, hsum⟩
  · by_cases heq : checksumInput m = checksumInput m'
    · exact .inl (checksumInput_injective hm hm' heq)
    · exact .inr ⟨heq, hsum⟩

/-- A record with the points of a footprint cut in one way. -/
def pointsRecord (points : List Bytes) : InstanceRecord where
  kind := entryCommand
  command := { footprint := { points := points } }

/-- A message with the dependencies of its evidence cut in one way. -/
def evidenceMessage (first second : List UInt64) : Message where
  acceptEvidence := [⟨1, 0, first⟩, ⟨2, 0, second⟩]

/-- Points `01` and `02` are not hashed as the point `0102`, and a dependency of the first evidence
not as one of the second. -/
theorem checksumInputs_injective_cuts :
    checksumRecordInput (pointsRecord [[1], [2]]) ≠ checksumRecordInput (pointsRecord [[1, 2]]) ∧
      checksumInput (evidenceMessage [3, 4] []) ≠ checksumInput (evidenceMessage [3] [4]) := by
  have hcommand : ∀ points : List Bytes, points ∈ slices Bytes →
      (∀ point ∈ points, point ∈ slices UInt8) →
      ({ footprint := { points := points } } : Command).Sized := fun _ hpoints hpoint ↦
    ⟨nil_mem_slices, ⟨hpoints, hpoint, nil_mem_slices, fun _ hspan ↦ by cases hspan⟩,
      nil_mem_slices⟩
  have hrecord : ∀ points : List Bytes, points ∈ slices Bytes →
      (∀ point ∈ points, point ∈ slices UInt8) → (pointsRecord points).Sized :=
    fun points hpoints hpoint ↦
      ⟨nil_mem_slices, nil_mem_slices, nil_mem_slices, (fun _ hev ↦ by cases hev), nil_mem_slices,
        hcommand points hpoints hpoint, nil_mem_slices, nil_mem_slices⟩
  have hempty : ({} : Command).Sized := hcommand [] (by decide) (by decide)
  constructor
  · intro heq
    have hsame := (checksumInputs_injective.1 _ _ (hrecord _ (by decide) (by decide))
      (hrecord _ (by decide) (by decide))).1 heq
    exact absurd (congrArg (fun r ↦ r.command.footprint.points) hsame) (by decide)
  · intro heq
    have hsame := (checksumInputs_injective.2 _ _
      ⟨by decide, by decide, by decide, by decide, by decide, hempty⟩
      ⟨by decide, by decide, by decide, by decide, by decide, hempty⟩).1 heq
    exact absurd (congrArg (fun m ↦ m.acceptEvidence) hsame) (by decide)

end MoreConsensus.Wire
