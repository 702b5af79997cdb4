import MoreConsensus.Library.Checks
import MoreConsensus.Wire.Codec

/-!
# Bootstrap frames

The envelopes and chunks of `epaxos/bootstrap.go`: their canonical bytes, and the strict parser that
takes no other spelling of a number than the encoder's. The hash is a parameter.

The parser is exact (`takes_message`, `takes_chunk`). The digest rule is laxer: encoder and
validator take a zero digest for one still to be filled in, so a frame with 32 zero bytes in place
of its digest is decoded too (`decodeBootstrapMessage_zeroDigest`). Every other frame that is
decoded is the encoding of the result and carries the digest of its payload, and what is encoded is
decoded with its digest filled in (`bootstrapFrames_canonical`).
-/

set_option autoImplicit false

namespace MoreConsensus.Wire

open Library Library.Reading

/-! ### Envelopes and chunks -/

/-- A transport-neutral bootstrap envelope. -/
structure BootstrapMessage where
  type : UInt8 := 0
  cluster : Digest := .zero
  plan : Digest := .zero
  source : UInt64 := 0
  fromIncarnation : UInt64 := 0
  target : UInt64 := 0
  baseID : UInt64 := 0
  baseDigest : Digest := .zero
  payload : Bytes := []
  payloadDigest : Digest := .zero
  deriving DecidableEq, Repr

/-- A bounded piece of a snapshot transfer. -/
structure BootstrapChunk where
  cluster : Digest := .zero
  plan : Digest := .zero
  source : UInt64 := 0
  fromIncarnation : UInt64 := 0
  target : UInt64 := 0
  manifest : Digest := .zero
  index : UInt64 := 0
  offset : UInt64 := 0
  total : UInt64 := 0
  payload : Bytes := []
  payloadDigest : Digest := .zero
  deriving DecidableEq, Repr

inductive BootstrapError
  | invalidBootstrapMessage | bootstrapBounds | bootstrapChunkConflict
  deriving DecidableEq, Repr

/-- `EPXBOOT2`. -/
def bootstrapWireMagic : Bytes := [69, 80, 88, 66, 79, 79, 84, 50]

/-- `EPXCHNK2`. -/
def bootstrapChunkMagic : Bytes := [69, 80, 88, 67, 72, 78, 75, 50]

def bootstrapWireVersion : UInt64 := 2
def maxBootstrapPayload : ℕ := 1048576
def maxBootstrapChunk : ℕ := 1048576
def maxBootstrapTransfer : UInt64 := 17179869184
def maxBootstrapChunks : UInt64 := 65536

def bootstrapMsgFenceRequest : UInt8 := 1
def bootstrapMsgActivationNotice : UInt8 := 9

/-- `epaxos/bootstrap/payload/v1`. -/
def payloadDomain : Bytes :=
  [101, 112, 97, 120, 111, 115, 47, 98, 111, 111, 116, 115, 116, 114, 97, 112, 47, 112, 97, 121,
    108, 111, 97, 100, 47, 118, 49]

/-- `epaxos/bootstrap/chunk-payload/v1`. -/
def chunkPayloadDomain : Bytes :=
  [101, 112, 97, 120, 111, 115, 47, 98, 111, 111, 116, 115, 116, 114, 97, 112, 47, 99, 104, 117,
    110, 107, 45, 112, 97, 121, 108, 111, 97, 100, 47, 118, 49]

/-! ### The encoders -/

/-- The fields of an envelope as they stand, after the magic number. -/
def appendBootstrapMessage (message : BootstrapMessage) : Bytes :=
  putUvarint bootstrapWireVersion ++ appendUint8 message.type ++ message.cluster.bytes ++
    message.plan.bytes ++ putUvarint message.source ++ putUvarint message.fromIncarnation ++
    putUvarint message.target ++ putUvarint message.baseID ++ message.baseDigest.bytes ++
    appendBytes message.payload ++ message.payloadDigest.bytes

/-- The fields of a chunk as they stand, after the magic number. -/
def appendBootstrapChunk (chunk : BootstrapChunk) : Bytes :=
  putUvarint bootstrapWireVersion ++ chunk.cluster.bytes ++ chunk.plan.bytes ++
    putUvarint chunk.source ++ putUvarint chunk.fromIncarnation ++ putUvarint chunk.target ++
    chunk.manifest.bytes ++ putUvarint chunk.index ++ putUvarint chunk.offset ++
    putUvarint chunk.total ++ appendBytes chunk.payload ++ chunk.payloadDigest.bytes

section

variable (blake3 : Bytes → Digest)

def domainDigest (domain canonical : Bytes) : Digest :=
  blake3 (writeBytes domain ++ writeBytes canonical)

/-- The envelope with the digest of its payload. -/
def BootstrapMessage.digested (message : BootstrapMessage) : BootstrapMessage :=
  { message with payloadDigest := domainDigest blake3 payloadDomain message.payload }

/-- The chunk with the digest of its payload. -/
def BootstrapChunk.digested (chunk : BootstrapChunk) : BootstrapChunk :=
  { chunk with payloadDigest := domainDigest blake3 chunkPayloadDomain chunk.payload }

def bootstrapMessageCanonicalBytes (message : BootstrapMessage) : Except BootstrapError Bytes :=
  if message.type < bootstrapMsgFenceRequest || bootstrapMsgActivationNotice < message.type ||
      message.cluster == .zero || message.plan == .zero || message.source == 0 ||
      message.target == 0 || message.fromIncarnation == 0 || message.baseID == 0 ||
      message.baseDigest == .zero || maxBootstrapPayload < message.payload.length then
    .error .invalidBootstrapMessage
  else
    let digest := domainDigest blake3 payloadDomain message.payload
    if message.payloadDigest ≠ .zero ∧ message.payloadDigest ≠ digest then
      .error .invalidBootstrapMessage
    else
      .ok (bootstrapWireMagic ++ appendBootstrapMessage { message with payloadDigest := digest })

def validateBootstrapMessage (message : BootstrapMessage) : Except BootstrapError Unit := do
  let _ ← bootstrapMessageCanonicalBytes blake3 message

def encodeBootstrapMessage (dst : Bytes) (message : BootstrapMessage) :
    Except BootstrapError Bytes := do
  let canonical ← bootstrapMessageCanonicalBytes blake3 message
  return dst ++ canonical

def bootstrapChunkCanonicalBytes (chunk : BootstrapChunk) : Except BootstrapError Bytes :=
  if chunk.cluster == .zero || chunk.plan == .zero || chunk.manifest == .zero ||
      chunk.source == 0 || chunk.target == 0 || chunk.fromIncarnation == 0 ||
      maxBootstrapChunks ≤ chunk.index || chunk.payload.isEmpty ||
      maxBootstrapChunk < chunk.payload.length || chunk.total == 0 ||
      maxBootstrapTransfer < chunk.total || chunk.total < chunk.offset ||
      (chunk.total - chunk.offset).toNat < chunk.payload.length then
    .error .bootstrapBounds
  else
    let digest := domainDigest blake3 chunkPayloadDomain chunk.payload
    if chunk.payloadDigest ≠ .zero ∧ chunk.payloadDigest ≠ digest then
      .error .bootstrapChunkConflict
    else
      .ok (bootstrapChunkMagic ++ appendBootstrapChunk { chunk with payloadDigest := digest })

def encodeBootstrapChunk (dst : Bytes) (chunk : BootstrapChunk) : Except BootstrapError Bytes := do
  let canonical ← bootstrapChunkCanonicalBytes blake3 chunk
  return dst ++ canonical

end

/-! ### The strict parser -/

namespace BootstrapParser

/-- A number in its one canonical spelling. -/
def uvarint : Reading UInt64 := fun p ↦
  if p.err then some (0, p)
  else match Library.uvarint p.b with
    | none => some (0, { p with err := true })
    | some (value, rest) =>
      let n := p.b.length - rest.length
      if (putUvarint value).length ≠ n ∨ p.b.take n ≠ (putUvarint value).take n then
        some (0, { p with err := true })
      else some (value, { p with b := p.b.drop n })

def uvarint8 : Reading UInt8 := do
  let v ← uvarint
  raiseIf (255 < v)
  return if 255 < v then 0 else v.toUInt8

def fixed : Reading Digest := fun p ↦
  if p.err || p.b.length < 32 then some (.zero, { p with err := true })
  else some (Digest.copy (p.b.take 32), { p with b := p.b.drop 32 })

def bytes (maxLen : ℕ) : Reading Bytes := do
  let length ← uvarint
  let p ← MonadState.get
  if p.err || maxLen < length.toNat || p.b.length < length.toNat then do
    raise
    return []
  else do
    set { p with b := p.b.drop length.toNat }
    return p.b.take length.toNat

def message : Reading BootstrapMessage := do
  let version ← uvarint
  if version ≠ bootstrapWireVersion then failure
  else do
    let type ← uvarint8
    let cluster ← fixed
    let plan ← fixed
    let source ← uvarint
    let fromIncarnation ← uvarint
    let target ← uvarint
    let baseID ← uvarint
    let baseDigest ← fixed
    let payload ← bytes maxBootstrapPayload
    let payloadDigest ← fixed
    return ⟨type, cluster, plan, source, fromIncarnation, target, baseID, baseDigest, payload,
      payloadDigest⟩

def chunk : Reading BootstrapChunk := do
  let version ← uvarint
  if version ≠ bootstrapWireVersion then failure
  else do
    let cluster ← fixed
    let plan ← fixed
    let source ← uvarint
    let fromIncarnation ← uvarint
    let target ← uvarint
    let manifest ← fixed
    let index ← uvarint
    let offset ← uvarint
    let total ← uvarint
    let payload ← bytes maxBootstrapChunk
    let payloadDigest ← fixed
    return ⟨cluster, plan, source, fromIncarnation, target, manifest, index, offset, total, payload,
      payloadDigest⟩

end BootstrapParser

/-- One complete frame: the magic number, the fields, nothing after them, and a valid value. -/
def decodeFrame {α : Type} (magic : Bytes) (read : Reading α)
    (validate : α → Except BootstrapError Unit) (src : Bytes) : Except BootstrapError α :=
  if src.length < magic.length || src.take magic.length != magic then
    .error .invalidBootstrapMessage
  else
    match read.run ⟨src.drop magic.length, false⟩ with
    | none => .error .invalidBootstrapMessage
    | some (value, p) =>
      if p.err || !p.b.isEmpty then .error .invalidBootstrapMessage
      else match validate value with
        | .error err => .error err
        | .ok () => .ok value

def decodeBootstrapMessage (blake3 : Bytes → Digest) (src : Bytes) :
    Except BootstrapError BootstrapMessage :=
  decodeFrame bootstrapWireMagic BootstrapParser.message (validateBootstrapMessage blake3) src

def decodeBootstrapChunk (blake3 : Bytes → Digest) (src : Bytes) :
    Except BootstrapError BootstrapChunk :=
  decodeFrame bootstrapChunkMagic BootstrapParser.chunk
    (fun chunk ↦ (bootstrapChunkCanonicalBytes blake3 chunk).map fun _ ↦ ()) src

/-! ### What the parser accepts -/

theorem takes_uvarint : Takes [] BootstrapParser.uvarint putUvarint := by
  intro r value r' hrun herr
  change BootstrapParser.uvarint r = _ at hrun
  rw [BootstrapParser.uvarint] at hrun
  split at hrun
  · rename_i hfailed
    cases hrun
    exact absurd hfailed (by rw [herr]; decide)
  · rename_i hclean
    split at hrun
    · cases hrun
      cases herr
    · dsimp only at hrun
      split at hrun
      · cases hrun
        cases herr
      · rename_i rest hread hcanonical
        cases hrun
        obtain ⟨hlength, htake⟩ := not_or.mp hcanonical
        rw [not_not] at hlength htake
        refine ⟨Bool.eq_false_iff.mpr hclean, ?_⟩
        calc [] ++ r.b = r.b.take (r.b.length - rest.length) ++
              r.b.drop (r.b.length - rest.length) := (List.take_append_drop _ _).symm
          _ = putUvarint value ++ r.b.drop (r.b.length - rest.length) := by
            rw [htake, List.take_of_length_le hlength.le]

theorem takes_uvarint8 : Takes [] BootstrapParser.uvarint8 appendUint8 := by
  refine takes_uvarint.bind fun v ↦ ?_
  intro r value r' hrun herr
  by_cases hlarge : 255 < v
  · rw [decide_eq_true hlarge] at hrun
    cases hrun
    cases herr
  · rw [decide_eq_false hlarge, if_neg hlarge] at hrun
    cases hrun
    have hsmall : v.toNat < 256 := by
      rw [UInt64.lt_iff_toNat_lt] at hlarge
      exact Nat.lt_succ_of_le (not_lt.mp hlarge)
    have hvalue : v.toUInt8.toUInt64 = v := by
      apply UInt64.toNat_inj.mp
      rw [UInt8.toNat_toUInt64, UInt64.toNat_toUInt8]
      exact Nat.mod_eq_of_lt hsmall
    exact ⟨herr, by rw [appendUint8, hvalue, List.nil_append]⟩

theorem takes_fixed : Takes [] BootstrapParser.fixed Digest.bytes := by
  intro r value r' hrun herr
  change BootstrapParser.fixed r = _ at hrun
  rw [BootstrapParser.fixed] at hrun
  split at hrun
  · cases hrun
    cases herr
  · rename_i hfits
    cases hrun
    simp only [Bool.or_eq_true, decide_eq_true_eq, not_or, not_lt, Bool.not_eq_true] at hfits
    have hlength : (r.b.take 32).length = 32 := by
      rw [List.length_take]
      omega
    have hcopy : (Digest.copy (r.b.take 32)).bytes = r.b.take 32 := List.take_left' hlength
    exact ⟨hfits.1, by rw [hcopy, List.take_append_drop, List.nil_append]⟩

theorem takes_bytes (maxLen : ℕ) : Takes [] (BootstrapParser.bytes maxLen) appendBytes := by
  refine takes_uvarint.bind fun length ↦ ?_
  intro r value r' hrun herr
  change (if _ then _ else _ : Reading Bytes).run r = _ at hrun
  split at hrun
  · cases hrun
    cases herr
  · rename_i hfits
    cases hrun
    simp only [Bool.or_eq_true, decide_eq_true_eq, not_or, not_lt] at hfits
    have hlength : (r.b.take length.toNat).length = length.toNat := by
      rw [List.length_take]
      omega
    refine ⟨herr, ?_⟩
    rw [appendBytes, appendLen, hlength, UInt64.ofNat_toNat, List.nil_append, List.append_assoc]
    exact congrArg (putUvarint length ++ ·) (List.take_append_drop length.toNat r.b).symm

theorem takes_message : Takes [] BootstrapParser.message appendBootstrapMessage := by
  refine takes_uvarint.bind fun version ↦ Takes.guarded fun hversion ↦ ?_
  rw [not_not] at hversion
  subst hversion
  refine takes_uvarint8.bind fun type ↦ takes_fixed.bind fun cluster ↦ ?_
  refine takes_fixed.bind fun plan ↦ takes_uvarint.bind fun source ↦ ?_
  refine takes_uvarint.bind fun fromIncarnation ↦ takes_uvarint.bind fun target ↦ ?_
  refine takes_uvarint.bind fun baseID ↦ takes_fixed.bind fun baseDigest ↦ ?_
  refine (takes_bytes _).bind fun payload ↦ takes_fixed.bind fun payloadDigest ↦ ?_
  exact Takes.pure (by simp only [appendBootstrapMessage, List.nil_append])

theorem takes_chunk : Takes [] BootstrapParser.chunk appendBootstrapChunk := by
  refine takes_uvarint.bind fun version ↦ Takes.guarded fun hversion ↦ ?_
  rw [not_not] at hversion
  subst hversion
  refine takes_fixed.bind fun cluster ↦ takes_fixed.bind fun plan ↦ ?_
  refine takes_uvarint.bind fun source ↦ takes_uvarint.bind fun fromIncarnation ↦ ?_
  refine takes_uvarint.bind fun target ↦ takes_fixed.bind fun manifest ↦ ?_
  refine takes_uvarint.bind fun index ↦ takes_uvarint.bind fun offset ↦ ?_
  refine takes_uvarint.bind fun total ↦ (takes_bytes _).bind fun payload ↦ ?_
  exact takes_fixed.bind fun payloadDigest ↦
    Takes.pure (by simp only [appendBootstrapChunk, List.nil_append])

/-! ### What the parser reads back -/

theorem reads_canonicalUvarint (v : UInt64) : Reads BootstrapParser.uvarint (putUvarint v) v := by
  intro rest
  have hlength : (putUvarint v ++ rest).length - rest.length = (putUvarint v).length := by
    rw [List.length_append, Nat.add_sub_cancel]
  change BootstrapParser.uvarint ⟨putUvarint v ++ rest, false⟩ = _
  simp only [BootstrapParser.uvarint, Bool.false_eq_true, if_false, uvarint_putUvarint, hlength,
    List.take_left, List.take_length, ne_eq, not_true_eq_false, or_self, List.drop_left]

theorem reads_canonicalUvarint8 (v : UInt8) :
    Reads BootstrapParser.uvarint8 (appendUint8 v) v := by
  have hsmall : ¬ (255 : UInt64) < v.toUInt64 := not_lt_toUInt64 v
  rw [← List.append_nil (appendUint8 v)]
  refine (reads_canonicalUvarint v.toUInt64).bind (Reads.raiseIf (decide_eq_false hsmall) ?_)
  rw [if_neg hsmall, UInt8.toUInt8_toUInt64]
  exact Reads.pure v

theorem reads_fixed (digest : Digest) : Reads BootstrapParser.fixed digest.bytes digest := by
  intro rest
  have hlength := digest.length_eq
  have htake : (digest.bytes ++ rest).take 32 = digest.bytes := List.take_left' hlength
  have hdrop : (digest.bytes ++ rest).drop 32 = rest := List.drop_left' hlength
  change BootstrapParser.fixed ⟨digest.bytes ++ rest, false⟩ = _
  simp [BootstrapParser.fixed, hlength, htake, hdrop, Digest.copy_bytes]

theorem reads_bytes {maxLen : ℕ} {b : Bytes} (hmax : maxLen < 2 ^ 64)
    (hlength : b.length ≤ maxLen) :
    Reads (BootstrapParser.bytes maxLen) (appendBytes b) b := by
  refine (reads_canonicalUvarint _).bind (Reads.get fun rest ↦ ?_)
  have hcount := toNat_ofNat_length hlength hmax
  simp [hcount, hlength.not_gt]

theorem reads_bootstrapMessage {message : BootstrapMessage}
    (hpayload : message.payload.length ≤ maxBootstrapPayload) :
    Reads BootstrapParser.message (appendBootstrapMessage message) message := by
  simp only [appendBootstrapMessage, List.append_assoc]
  refine (reads_canonicalUvarint _).bind (Reads.guarded (not_not.mpr rfl) ?_)
  refine (reads_canonicalUvarint8 _).bind ((reads_fixed _).bind ((reads_fixed _).bind ?_))
  refine (reads_canonicalUvarint _).bind ((reads_canonicalUvarint _).bind ?_)
  refine (reads_canonicalUvarint _).bind ((reads_canonicalUvarint _).bind ?_)
  exact (reads_fixed _).bind ((reads_bytes (by decide) hpayload).bind ((reads_fixed _).map _))

theorem reads_bootstrapChunk {chunk : BootstrapChunk}
    (hpayload : chunk.payload.length ≤ maxBootstrapChunk) :
    Reads BootstrapParser.chunk (appendBootstrapChunk chunk) chunk := by
  simp only [appendBootstrapChunk, List.append_assoc]
  refine (reads_canonicalUvarint _).bind (Reads.guarded (not_not.mpr rfl) ?_)
  refine (reads_fixed _).bind ((reads_fixed _).bind ((reads_canonicalUvarint _).bind ?_))
  refine (reads_canonicalUvarint _).bind ((reads_canonicalUvarint _).bind ?_)
  refine (reads_fixed _).bind ((reads_canonicalUvarint _).bind ?_)
  refine (reads_canonicalUvarint _).bind ((reads_canonicalUvarint _).bind ?_)
  exact (reads_bytes (by decide) hpayload).bind ((reads_fixed _).map _)

/-! ### Frames -/

section

variable {α : Type} {magic src bytes : Bytes} {read : Reading α} {encode : α → Bytes} {value : α}
  {validate : α → Except BootstrapError Unit}

/-- A frame that is decoded is the encoding of a valid value. -/
theorem decodeFrame_eq_ok (htakes : Takes [] read encode)
    (hdecode : decodeFrame magic read validate src = .ok value) :
    src = magic ++ encode value ∧ validate value = .ok () := by
  rw [decodeFrame] at hdecode
  split at hdecode
  · cases hdecode
  · rename_i hmagic
    split at hdecode
    · cases hdecode
    · rename_i p hrun
      split at hdecode
      · cases hdecode
      · rename_i hdone
        split at hdecode
        · cases hdecode
        · rename_i hvalid
          cases hdecode
          simp only [Bool.or_eq_true, decide_eq_true_eq, bne_iff_ne, not_or, not_not] at hmagic
          simp only [Bool.or_eq_true, Bool.not_eq_true', not_or, Bool.not_eq_true,
            Bool.not_eq_false] at hdone
          obtain ⟨-, hb⟩ := htakes _ _ _ hrun hdone.1
          rw [List.nil_append, List.isEmpty_iff.mp hdone.2, List.append_nil] at hb
          refine ⟨?_, hvalid⟩
          calc src = src.take magic.length ++ src.drop magic.length :=
                (List.take_append_drop _ _).symm
            _ = magic ++ src.drop magic.length := by rw [hmagic.2]
            _ = magic ++ encode value := congrArg (magic ++ ·) hb

/-- The encoding of a valid value is decoded. -/
theorem decodeFrame_append (hreads : Reads read bytes value) (hvalid : validate value = .ok ()) :
    decodeFrame magic read validate (magic ++ bytes) = .ok value := by
  have hread := hreads []
  rw [List.append_nil] at hread
  simp [decodeFrame, hread, hvalid]

end

section

variable {blake3 : Bytes → Digest} {dst out : Bytes} {message : BootstrapMessage}
  {chunk : BootstrapChunk}

theorem sealed_of_eq_ok {err err' : BootstrapError} {digest sum : Digest} {refused : Prop}
    [Decidable refused] (hencode : (if refused then .error err
      else if digest ≠ .zero ∧ digest ≠ sum then .error err' else .ok dst : Except _ _) = .ok out) :
    ¬ refused ∧ (digest = .zero ∨ digest = sum) ∧ dst = out := by
  split_ifs at hencode with hfields hdigest
  exact ⟨hfields, or_iff_not_imp_left.mpr fun hzero ↦ not_not.mp fun hne ↦ hdigest ⟨hzero, hne⟩,
    Except.ok.inj hencode⟩

/-- What the encoder writes carries the digest of the payload, and it takes no other digest than
that or none. -/
theorem bootstrapMessageCanonicalBytes_eq_ok
    (hencode : bootstrapMessageCanonicalBytes blake3 message = .ok out) :
    message.payload.length ≤ maxBootstrapPayload ∧
      (message.payloadDigest = .zero ∨
        message.payloadDigest = (message.digested blake3).payloadDigest) ∧
      out = bootstrapWireMagic ++ appendBootstrapMessage (message.digested blake3) ∧
      bootstrapMessageCanonicalBytes blake3 (message.digested blake3) = .ok out := by
  obtain ⟨hfields, hdigest, rfl⟩ := sealed_of_eq_ok hencode
  refine ⟨?_, hdigest, rfl, ?_⟩
  · simp only [Bool.or_eq_true, decide_eq_true_eq, not_or, not_lt] at hfields
    exact hfields.2
  · rw [bootstrapMessageCanonicalBytes]
    exact (if_neg hfields).trans (if_neg fun hne ↦ hne.2 rfl)

theorem bootstrapChunkCanonicalBytes_eq_ok
    (hencode : bootstrapChunkCanonicalBytes blake3 chunk = .ok out) :
    chunk.payload.length ≤ maxBootstrapChunk ∧
      (chunk.payloadDigest = .zero ∨ chunk.payloadDigest = (chunk.digested blake3).payloadDigest) ∧
      out = bootstrapChunkMagic ++ appendBootstrapChunk (chunk.digested blake3) ∧
      bootstrapChunkCanonicalBytes blake3 (chunk.digested blake3) = .ok out := by
  obtain ⟨hfields, hdigest, rfl⟩ := sealed_of_eq_ok hencode
  refine ⟨?_, hdigest, rfl, ?_⟩
  · simp only [Bool.or_eq_true, decide_eq_true_eq, not_or, not_lt] at hfields
    exact hfields.1.1.1.1.2
  · rw [bootstrapChunkCanonicalBytes]
    exact (if_neg hfields).trans (if_neg fun hne ↦ hne.2 rfl)

/-- The digest inside a frame is there: it is not left out, or the digest of the payload is zero. -/
def Sealed (src : Bytes) (sum : Digest) : Prop :=
  src.drop (src.length - 32) ≠ Digest.zero.bytes ∨ sum = .zero

theorem sealed_iff {digest sum : Digest} (hdigest : digest = .zero ∨ digest = sum)
    (front : Bytes) :
    (front ++ sum.bytes = front ++ digest.bytes ↔ Sealed (front ++ digest.bytes) sum) ∧
      ((front ++ digest.bytes).drop ((front ++ digest.bytes).length - 32) = sum.bytes ↔
        Sealed (front ++ digest.bytes) sum) := by
  have hbytes : ∀ other : Digest, digest.bytes = other.bytes ↔ digest = other := fun other ↦
    ⟨Digest.ext, congrArg Digest.bytes⟩
  have hsealed : Sealed (front ++ digest.bytes) sum ↔ digest = sum := by
    rw [Sealed, List.length_append, digest.length_eq, Nat.add_sub_cancel, List.drop_left, ne_eq,
      hbytes]
    rcases hdigest with rfl | rfl
    · simp [eq_comm]
    · simp [em']
  rw [hsealed, List.length_append, digest.length_eq, Nat.add_sub_cancel, List.drop_left, hbytes,
    List.append_cancel_left_eq, eq_comm, hbytes]
  exact ⟨Iff.rfl, Iff.rfl⟩

theorem decodeBootstrapMessage_exact {src : Bytes}
    (hdecode : decodeBootstrapMessage blake3 src = .ok message) :
    (encodeBootstrapMessage blake3 [] message = .ok src ↔
        Sealed src (domainDigest blake3 payloadDomain message.payload)) ∧
      (src.drop (src.length - 32) = (domainDigest blake3 payloadDomain message.payload).bytes ↔
        Sealed src (domainDigest blake3 payloadDomain message.payload)) := by
  obtain ⟨rfl, hvalid⟩ := decodeFrame_eq_ok takes_message hdecode
  obtain ⟨canonical, hcanonical, -⟩ := map_eq_ok hvalid
  obtain ⟨-, hdigest, rfl, -⟩ := bootstrapMessageCanonicalBytes_eq_ok hcanonical
  have hencode : encodeBootstrapMessage blake3 [] message =
      .ok (bootstrapWireMagic ++ appendBootstrapMessage (message.digested blake3)) := by
    rw [encodeBootstrapMessage, hcanonical]
    rfl
  obtain ⟨front, hfront⟩ : ∃ front, ∀ digest, bootstrapWireMagic ++
      appendBootstrapMessage { message with payloadDigest := digest } = front ++ digest.bytes := by
    simp only [appendBootstrapMessage, ← List.append_assoc]
    exact ⟨_, fun _ ↦ rfl⟩
  rw [hencode, Except.ok.injEq, hfront message.payloadDigest, BootstrapMessage.digested, hfront]
  exact sealed_iff hdigest front

theorem decodeBootstrapChunk_exact {src : Bytes}
    (hdecode : decodeBootstrapChunk blake3 src = .ok chunk) :
    (encodeBootstrapChunk blake3 [] chunk = .ok src ↔
        Sealed src (domainDigest blake3 chunkPayloadDomain chunk.payload)) ∧
      (src.drop (src.length - 32) = (domainDigest blake3 chunkPayloadDomain chunk.payload).bytes ↔
        Sealed src (domainDigest blake3 chunkPayloadDomain chunk.payload)) := by
  obtain ⟨rfl, hvalid⟩ := decodeFrame_eq_ok takes_chunk hdecode
  obtain ⟨canonical, hcanonical, -⟩ := map_eq_ok hvalid
  obtain ⟨-, hdigest, rfl, -⟩ := bootstrapChunkCanonicalBytes_eq_ok hcanonical
  have hencode : encodeBootstrapChunk blake3 [] chunk =
      .ok (bootstrapChunkMagic ++ appendBootstrapChunk (chunk.digested blake3)) := by
    rw [encodeBootstrapChunk, hcanonical]
    rfl
  obtain ⟨front, hfront⟩ : ∃ front, ∀ digest, bootstrapChunkMagic ++
      appendBootstrapChunk { chunk with payloadDigest := digest } = front ++ digest.bytes := by
    simp only [appendBootstrapChunk, ← List.append_assoc]
    exact ⟨_, fun _ ↦ rfl⟩
  rw [hencode, Except.ok.injEq, hfront chunk.payloadDigest, BootstrapChunk.digested, hfront]
  exact sealed_iff hdigest front

theorem decodeBootstrapMessage_encode
    (hencode : encodeBootstrapMessage blake3 dst message = .ok out) :
    ∃ frame, out = dst ++ frame ∧
      decodeBootstrapMessage blake3 frame = .ok (message.digested blake3) := by
  obtain ⟨frame, hframe, hout⟩ := map_eq_ok (f := (dst ++ ·)) hencode
  obtain ⟨hpayload, -, hbytes, hagain⟩ := bootstrapMessageCanonicalBytes_eq_ok hframe
  have hvalid : validateBootstrapMessage blake3 (message.digested blake3) = .ok () := by
    rw [validateBootstrapMessage, hagain]
    rfl
  refine ⟨frame, hout.symm, ?_⟩
  rw [hbytes]
  exact decodeFrame_append (reads_bootstrapMessage hpayload) hvalid

theorem decodeBootstrapChunk_encode (hencode : encodeBootstrapChunk blake3 dst chunk = .ok out) :
    ∃ frame, out = dst ++ frame ∧
      decodeBootstrapChunk blake3 frame = .ok (chunk.digested blake3) := by
  obtain ⟨frame, hframe, hout⟩ := map_eq_ok (f := (dst ++ ·)) hencode
  obtain ⟨hpayload, -, hbytes, hagain⟩ := bootstrapChunkCanonicalBytes_eq_ok hframe
  refine ⟨frame, hout.symm, ?_⟩
  rw [hbytes]
  refine decodeFrame_append (reads_bootstrapChunk hpayload) ?_
  rw [hagain]
  rfl

end

/-- Bootstrap frames are canonical and carry the digest of their payload, exactly when the digest is
not left out: a frame that is decoded is the encoding of the result, and ends in the digest of its
payload, if and only if it does not end in 32 zero bytes or that digest is zero; and everything that
is encoded is decoded with its digest filled in. -/
theorem bootstrapFrames_canonical (blake3 : Bytes → Digest) :
    ((∀ src message, decodeBootstrapMessage blake3 src = .ok message →
        (encodeBootstrapMessage blake3 [] message = .ok src ↔
          Sealed src (domainDigest blake3 payloadDomain message.payload)) ∧
        (src.drop (src.length - 32) = (domainDigest blake3 payloadDomain message.payload).bytes ↔
          Sealed src (domainDigest blake3 payloadDomain message.payload))) ∧
      ∀ dst message out, encodeBootstrapMessage blake3 dst message = .ok out →
        ∃ frame, out = dst ++ frame ∧
          decodeBootstrapMessage blake3 frame = .ok (message.digested blake3)) ∧
    (∀ src chunk, decodeBootstrapChunk blake3 src = .ok chunk →
        (encodeBootstrapChunk blake3 [] chunk = .ok src ↔
          Sealed src (domainDigest blake3 chunkPayloadDomain chunk.payload)) ∧
        (src.drop (src.length - 32) = (domainDigest blake3 chunkPayloadDomain chunk.payload).bytes ↔
          Sealed src (domainDigest blake3 chunkPayloadDomain chunk.payload))) ∧
      ∀ dst chunk out, encodeBootstrapChunk blake3 dst chunk = .ok out →
        ∃ frame, out = dst ++ frame ∧
          decodeBootstrapChunk blake3 frame = .ok (chunk.digested blake3) :=
  ⟨⟨fun _ _ ↦ decodeBootstrapMessage_exact, fun _ _ _ ↦ decodeBootstrapMessage_encode⟩,
    fun _ _ ↦ decodeBootstrapChunk_exact, fun _ _ _ ↦ decodeBootstrapChunk_encode⟩

/-- A FenceRequest of an empty payload, its digest left out. -/
def undigested : BootstrapMessage :=
  { type := bootstrapMsgFenceRequest, cluster := Digest.copy [1], plan := Digest.copy [2],
    source := 1, fromIncarnation := 1, target := 2, baseID := 1, baseDigest := Digest.copy [3] }

theorem canonicalBytes_undigested (blake3 : Bytes → Digest) :
    bootstrapMessageCanonicalBytes blake3 undigested =
      .ok (bootstrapWireMagic ++ appendBootstrapMessage (undigested.digested blake3)) := by
  rw [bootstrapMessageCanonicalBytes]
  exact (if_neg (by decide +kernel)).trans (if_neg fun hne ↦ hne.1 rfl)

theorem bootstrapFrames_canonical_fenceRequest :
    ∃ frame, frame.drop (frame.length - 32) ≠ Digest.zero.bytes ∧
      decodeBootstrapMessage (fun _ ↦ Digest.copy [7]) frame =
        .ok (undigested.digested fun _ ↦ Digest.copy [7]) ∧
      encodeBootstrapMessage (fun _ ↦ Digest.copy [7]) []
        (undigested.digested fun _ ↦ Digest.copy [7]) = .ok frame := by
  have hencode : encodeBootstrapMessage (fun _ ↦ Digest.copy [7]) [] undigested =
      .ok (bootstrapWireMagic ++
        appendBootstrapMessage (undigested.digested fun _ ↦ Digest.copy [7])) := by
    decide +kernel
  obtain ⟨frame, hframe, hdecode⟩ :=
    (bootstrapFrames_canonical fun _ ↦ Digest.copy [7]).1.2 [] undigested _ hencode
  rw [List.nil_append] at hframe
  subst hframe
  have hdigest : ∀ frame, frame = bootstrapWireMagic ++
      appendBootstrapMessage (undigested.digested fun _ ↦ Digest.copy [7]) →
        frame.drop (frame.length - 32) ≠ Digest.zero.bytes := by
    rintro frame rfl
    decide +kernel
  have hnonzero := hdigest _ rfl
  have hexact := (bootstrapFrames_canonical fun _ ↦ Digest.copy [7]).1.1 _ _ hdecode
  exact ⟨_, hnonzero, hdecode, hexact.1.mpr (.inl hnonzero)⟩

/-- The frame of `undigested` as it stands, with 32 zero bytes for the digest, is decoded. Unless
the digest of the empty payload is zero, that is not the frame the result is encoded to, and the
digest inside it is not the digest of the payload. -/
theorem decodeBootstrapMessage_zeroDigest :
    undigested.payloadDigest = .zero ∧
      ∀ blake3 : Bytes → Digest, domainDigest blake3 payloadDomain [] ≠ .zero →
        ∃ src message, decodeBootstrapMessage blake3 src = .ok message ∧
          encodeBootstrapMessage blake3 [] message ≠ .ok src ∧
          src.drop (src.length - 32) ≠
            (domainDigest blake3 payloadDomain message.payload).bytes := by
  refine ⟨rfl, fun blake3 hdigest ↦ ?_⟩
  have hvalid : validateBootstrapMessage blake3 undigested = .ok () := by
    rw [validateBootstrapMessage, canonicalBytes_undigested]
    rfl
  have hdecode : decodeBootstrapMessage blake3 (bootstrapWireMagic ++
      appendBootstrapMessage undigested) = .ok undigested :=
    decodeFrame_append (reads_bootstrapMessage (by decide)) hvalid
  have hopen : ¬ Sealed (bootstrapWireMagic ++ appendBootstrapMessage undigested)
      (domainDigest blake3 payloadDomain []) := not_or.mpr ⟨by decide +kernel, hdigest⟩
  obtain ⟨hencode, hinside⟩ := decodeBootstrapMessage_exact hdecode
  exact ⟨_, undigested, hdecode, hencode.not.mpr hopen, hinside.not.mpr hopen⟩

end MoreConsensus.Wire
