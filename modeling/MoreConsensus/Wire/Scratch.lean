import MoreConsensus.Wire.Codec

/-!
# Decoding into scratch buffers

`DecodeMessageWithScratch` of `epaxos/codec.go` decodes into buffers the caller keeps. It first
scans the whole body with a scanner of its own, and it takes the dependencies of all the accept
evidence from one arena, whose size another scan has counted.

Every place of a buffer that ends up in a message is written first (`overwrite_eq_times`), and the
arena is as large as the evidence needs (`evidenceInto_run`): reading into buffers is plain reading
(`messageInto_eq`). The scanner and the decoder look at their flags at different points, but they
accept the same bodies and leave the same input (`agrees_message`). `decodeMessageWithScratch_eq`
puts the two together. What a call leaves in the buffers is not modelled; the next may find
anything.
-/

set_option autoImplicit false

namespace MoreConsensus.Wire

open Library Library.Reading

/-! ### The buffers -/

/-- The buffers of a scratch, each with what it holds up to its capacity. -/
structure DecodeScratch where
  deps : List UInt64 := []
  acceptDeps : List UInt64 := []
  acceptEvidence : List AcceptEvidence := []
  acceptEvidenceDeps : List UInt64 := []
  points : List Bytes := []
  spans : List Span := []

/-- The first `count` places of a buffer with what they hold, or new ones when it is too small. -/
def reserveBuffer {α : Type} (blank : α) (buffer : List α) (count : ℕ) : List α :=
  if buffer.length < count then List.replicate count blank else buffer.take count

/-- Reads into the places of a buffer, one after another. -/
def overwrite {α : Type} (read : Reading α) : List α → Reading (List α)
  | [] => pure []
  | _ :: buffer => do
    let value ← read
    let values ← overwrite read buffer
    return value :: values

/-! ### The scanner -/

namespace Parser

def scanDeps : Reading Unit := do
  let count ← uvarint
  if maxWireDeps < count.toNat then failure
  else do
    let _ ← times uvarint count.toNat

def scanEvidenceBody : Reading Unit := do
  let _ ← uvarint
  let _ ← uvarint
  scanDeps

def scanEvidenceBodies : Reading Unit := do
  let count ← uvarint
  if maxWireAcceptEvidence < count.toNat then failure
  else do
    let _ ← times scanEvidenceBody count.toNat

def scanCommand : Reading Unit := do
  let client ← uvarint
  let sequence ← uvarint
  let payload ← bytesBound maxWireCommandPayload
  let all ← bool
  let pointCount ← uvarint
  let p ← MonadState.get
  if p.err || maxWireFootprintPoints < pointCount.toNat then failure
  else do
    let points ← times (bytesBound maxWireFootprintBytes) pointCount.toNat
    let spanCount ← uvarint
    let p ← MonadState.get
    if p.err || maxWireFootprintSpans < spanCount.toNat then failure
    else do
      let spans ← times span spanCount.toNat
      let cycleKey ← bytesBound maxWireCycleKeyBytes
      let p ← MonadState.get
      let footprint : Footprint := { all, points, spans }
      if p.err || maxWireFootprintBytes < footprintBytes footprint then failure
      else if client == 0 && sequence == 0 && payload.isEmpty && !all && points.isEmpty &&
          spans.isEmpty && cycleKey.isEmpty then return ()
      else if footprintCanonical footprint then return ()
      else failure

/-- The scan ahead of a decoding into scratch buffers. It checks every count and the footprint of
the command; the flag and what is left are looked at in the end. -/
def scanMessageBody : Reading Unit := do
  let _ ← uvarint8
  let _ ← uvarint
  let _ ← uvarint
  let _ ← uvarint
  let _ ← uvarint
  let _ ← times uvarint 3
  let _ ← uvarint
  let _ ← byte
  let _ ← times uvarint 7
  scanDeps
  let _ ← uvarint
  scanDeps
  scanEvidenceBodies
  let _ ← times uvarint 3
  let _ ← uvarint8
  let _ ← uvarint8
  let _ ← uvarint
  let _ ← bytesBound maxWireProtocolControl
  scanCommand
  let _ ← byte
  let _ ← times uvarint 3
  let _ ← uvarint8
  let _ ← times uvarint 3
  let _ ← uvarint8
  let _ ← byte
  let _ ← uvarint
  let _ ← uvarint8

/-- Whether the scan accepts a body. -/
def bodyScanned (body : Bytes) : Bool :=
  (scanMessageBody.run ⟨body, false⟩).elim false fun (_, p) ↦ !p.err && p.b.isEmpty

/-! ### The decoder with buffers -/

def depsInto (buffer : List UInt64) : Reading (List UInt64) := do
  let count ← uvarint
  if maxWireDeps < count.toNat then failure
  else overwrite uvarint (reserveBuffer 0 buffer count.toNat)

/-- The evidence into the places of a buffer, with its dependencies taken from what is left of the
arena. -/
def evidenceInto : List AcceptEvidence → List UInt64 → Reading (List AcceptEvidence)
  | [], _ => pure []
  | _ :: buffer, arena => do
    let sender ← uvarint
    let seq ← uvarint
    let count ← uvarint
    let p ← MonadState.get
    if p.err || maxWireDeps < count.toNat then failure
    else if arena.length < count.toNat then failure
    else do
      let deps ← overwrite uvarint (arena.take count.toNat)
      let evidence ← evidenceInto buffer (arena.drop count.toNat)
      return ⟨sender, seq, deps⟩ :: evidence

/-- Tries a reading on a copy of the reader and returns what it read. -/
def ahead {α : Type} (read : Reading α) : Reading α := fun r ↦
  (read.run r).map fun (value, _) ↦ (value, r)

def acceptEvidenceInto (buffer : List AcceptEvidence) (arena : List UInt64) :
    Reading (List AcceptEvidence) := do
  let count ← uvarint
  if maxWireAcceptEvidence < count.toNat then failure
  else do
    let total ← ahead (scanAcceptEvidence count.toNat)
    evidenceInto (reserveBuffer ⟨0, 0, []⟩ buffer count.toNat) (reserveBuffer 0 arena total)

def commandInto (points : List Bytes) (spans : List Span) : Reading Command :=
  commandFrom (fun count ↦ overwrite (bytesBound maxWireFootprintBytes)
    (reserveBuffer [] points count)) fun count ↦ overwrite span (reserveBuffer ⟨[], []⟩ spans count)

def messageInto (scratch : DecodeScratch) : Reading Message :=
  messageFrom (depsInto scratch.deps) (depsInto scratch.acceptDeps)
    (acceptEvidenceInto scratch.acceptEvidence scratch.acceptEvidenceDeps)
    (commandInto scratch.points scratch.spans)

end Parser

/-- Decodes a message, into the buffers of a scratch if one is given. -/
def decodeMessageWithScratch (blake3 : Bytes → Digest) (src : Bytes) :
    Option DecodeScratch → Except WireError Message
  | none => decodeMessage blake3 src
  | some scratch =>
    if src.length < wireMagic.length + 32 || src.take wireMagic.length != wireMagic then
      .error .invalidMessage
    else
      let body := (src.take (src.length - 32)).drop wireMagic.length
      if !Parser.bodyScanned body then .error .invalidMessage
      else match (Parser.messageInto scratch).run ⟨body, false⟩ with
        | none => .error .invalidMessage
        | some (m, p) =>
          if p.err || !p.b.isEmpty then .error .invalidMessage
          else
            let m := { m with checksum := Digest.copy (src.drop (src.length - 32)) }
            if verifyMessageChecksum blake3 m then .ok m else .error .checksumMismatch

/-! ### Buffers do not matter -/

@[simp]
theorem length_reserveBuffer {α : Type} (blank : α) (buffer : List α) (count : ℕ) :
    (reserveBuffer blank buffer count).length = count := by
  unfold reserveBuffer
  split
  · exact List.length_replicate
  · rw [List.length_take]
    omega

/-- Whatever the places of a buffer held is written over. -/
theorem overwrite_eq_times {α : Type} (read : Reading α) (buffer : List α) :
    overwrite read buffer = times read buffer.length := by
  induction buffer with
  | nil => rfl
  | cons _ buffer ih => simp only [overwrite, ih, List.length_cons, times]

namespace Parser

theorem depsInto_eq (buffer : List UInt64) : depsInto buffer = deps := by
  simp only [depsInto, deps, overwrite_eq_times, length_reserveBuffer]

theorem commandInto_eq (points : List Bytes) (spans : List Span) :
    commandInto points spans = command := by
  simp only [commandInto, overwrite_eq_times, length_reserveBuffer]
  rfl

/-- What a scan of one piece of evidence has read. -/
theorem scanEvidence_eq_some {r r' : Reader} {count : ℕ}
    (hscan : scanEvidence.run r = some (count, r')) :
    ∃ sender r₁ seq r₂ n r₃ deps, uvarint.run r = some (sender, r₁) ∧
      uvarint.run r₁ = some (seq, r₂) ∧ uvarint.run r₂ = some (n, r₃) ∧
      (r₃.err || decide (maxWireDeps < n.toNat)) = false ∧
      (times uvarint n.toNat).run r₃ = some (deps, r') ∧ n.toNat = count := by
  simp only [scanEvidence, StateT.run_bind, Option.bind_eq_bind, Option.bind_eq_some_iff,
    Prod.exists] at hscan
  obtain ⟨sender, r₁, hsender, seq, r₂, hseq, n, r₃, hn, p, r₄, hget, hrest⟩ := hscan
  cases hget
  split at hrest
  · cases hrest
  rename_i hbound
  simp only [StateT.run_bind, Option.bind_eq_bind, Option.bind_eq_some_iff, Prod.exists] at hrest
  obtain ⟨deps, r₅, hdeps, p, r₆, hget, hlast⟩ := hrest
  cases hget
  split at hlast
  · cases hlast
  · cases hlast
    exact ⟨sender, r₁, seq, r₂, n, r₃, deps, hsender, hseq, hn, by simpa using hbound, hdeps, rfl⟩

/-- Where the scan has counted the dependencies, an arena of that size suffices: the evidence is
read as if each piece had a buffer of its own. -/
theorem evidenceInto_run (buffer : List AcceptEvidence) (arena : List UInt64) {counts : List ℕ}
    {r r' : Reader} (hscan : (times scanEvidence buffer.length).run r = some (counts, r'))
    (harena : counts.sum ≤ arena.length) :
    (evidenceInto buffer arena).run r = (times evidence buffer.length).run r := by
  induction buffer generalizing arena counts r with
  | nil => rfl
  | cons place buffer ih =>
    simp only [List.length_cons, times, StateT.run_bind, Option.bind_eq_bind,
      Option.bind_eq_some_iff, Prod.exists] at hscan
    obtain ⟨count, r₁, hfirst, rest, r₂, hrest, hcounts⟩ := hscan
    cases hcounts
    rw [List.sum_cons] at harena
    obtain ⟨sender, s₁, seq, s₂, n, s₃, deps, hsender, hseq, hn, hbound, hdeps, rfl⟩ :=
      scanEvidence_eq_some hfirst
    have hlength : (arena.take n.toNat).length = n.toNat := List.length_take_of_le (by omega)
    have hroom : ¬ arena.length < n.toNat := by omega
    have hih := ih (arena.drop n.toNat) hrest (by rw [List.length_drop]; omega)
    have hflag : ¬ (s₃.err = true ∨ maxWireDeps < n.toNat) := by simpa using hbound
    have hmin : min n.toNat arena.length = n.toNat := by omega
    have hplain : evidence.run r = some (⟨sender, seq, deps⟩, r₁) := by
      simp [evidence, hsender, hseq, hn, hflag, hdeps]
    have hinto : (evidenceInto (place :: buffer) arena).run r =
        ((evidenceInto buffer (arena.drop n.toNat)).run r₁).map fun (evidence, last) ↦
          (⟨sender, seq, deps⟩ :: evidence, last) := by
      simp [evidenceInto, hsender, hseq, hn, hflag, hdeps, hroom, overwrite_eq_times, hmin]
    rw [hinto, hih, List.length_cons, times, StateT.run_bind, hplain]
    simp

theorem acceptEvidenceInto_eq (buffer : List AcceptEvidence) (arena : List UInt64) :
    acceptEvidenceInto buffer arena = acceptEvidence := by
  unfold acceptEvidenceInto acceptEvidence
  congr 1
  funext count
  split
  · rfl
  funext r
  have hscan : (scanAcceptEvidence count.toNat).run r =
      ((times scanEvidence count.toNat).run r).map fun (counts, last) ↦ (counts.sum, last) := by
    simp [scanAcceptEvidence]
  change ((ahead (scanAcceptEvidence count.toNat)).run r).bind _ =
    ((lookahead (scanAcceptEvidence count.toNat)).run r).bind _
  change (((scanAcceptEvidence count.toNat).run r).map _).bind _ =
    (if ((scanAcceptEvidence count.toNat).run r).isNone then none else some ((), r)).bind _
  rw [hscan]
  cases hcounts : (times scanEvidence count.toNat).run r with
  | none => rfl
  | some found =>
    obtain ⟨counts, r'⟩ := found
    have hread := evidenceInto_run (reserveBuffer ⟨0, 0, []⟩ buffer count.toNat)
      (reserveBuffer 0 arena counts.sum) (by rwa [length_reserveBuffer])
      (by rw [length_reserveBuffer])
    rw [length_reserveBuffer] at hread
    exact hread

theorem messageInto_eq (scratch : DecodeScratch) : messageInto scratch = message := by
  unfold messageInto
  rw [depsInto_eq, depsInto_eq, acceptEvidenceInto_eq, commandInto_eq]
  rfl

/-! ### The scanner accepts what the decoder accepts -/

/-- A count and what it counts, against the same with the values thrown away. -/
theorem agrees_deps : Agrees scanDeps deps := by
  refine Agrees.bind_same sticky_uvarint fun count ↦ Agrees.ite (fun _ ↦ ?_) fun _ ↦ ?_
  · exact Agrees.dead not_accepts_failure not_accepts_failure
  · exact Agrees.map (sticky_uvarint.times _) _

theorem agrees_evidence : Agrees scanEvidenceBody evidence := by
  refine Agrees.bind_same sticky_uvarint fun sender ↦
    Agrees.bind_same sticky_uvarint fun seq ↦ Agrees.bind_same sticky_uvarint fun count ↦ ?_
  have htimes := sticky_uvarint.times count.toNat
  refine Agrees.trans ?_ (Agrees.unflag (htimes.bind fun _ ↦ Sticky.pure _)).symm
  refine Agrees.ite (fun _ ↦ ?_) fun _ ↦ ?_
  · exact Agrees.dead not_accepts_failure not_accepts_failure
  · exact Agrees.bind_same htimes fun _ ↦ Agrees.pure _ _

theorem agrees_scanEvidence : Agrees scanEvidenceBody scanEvidence := by
  refine Agrees.bind_same sticky_uvarint fun sender ↦
    Agrees.bind_same sticky_uvarint fun seq ↦ Agrees.bind_same sticky_uvarint fun count ↦ ?_
  have htimes := sticky_uvarint.times count.toNat
  have hlast : Agrees (times uvarint count.toNat >>= fun _ ↦ pure ())
      (times uvarint count.toNat >>= fun _ ↦ do
        let p ← MonadState.get
        if p.err then failure else pure count.toNat) :=
    Agrees.bind_same htimes fun _ ↦ Agrees.flag () count.toNat
  refine Agrees.trans ?_ (Agrees.unflag hlast.sticky_other).symm
  refine Agrees.ite (fun _ ↦ ?_) fun _ ↦ hlast
  exact Agrees.dead not_accepts_failure not_accepts_failure

theorem agrees_acceptEvidence : Agrees scanEvidenceBodies acceptEvidence := by
  refine Agrees.bind_same sticky_uvarint fun count ↦ Agrees.ite (fun _ ↦ ?_) fun _ ↦ ?_
  · exact Agrees.dead not_accepts_failure not_accepts_failure
  · have hscan := agrees_scanEvidence.times count.toNat
    refine (Agrees.map hscan.sticky _).trans ?_
    exact Agrees.lookahead (hscan.trans (Agrees.map hscan.sticky_other _).symm)
      (agrees_evidence.times count.toNat)

/-- The end of a command: the scanner checks the size of the footprint after the cycle key, the
decoder ahead of it. -/
theorem agrees_cycleKey (client sequence : UInt64) (payload : Bytes) (footprint : Footprint) :
    Agrees (do
        let cycleKey ← bytesBound maxWireCycleKeyBytes
        let p ← MonadState.get
        if p.err || maxWireFootprintBytes < footprintBytes footprint then failure
        else if client == 0 && sequence == 0 && payload.isEmpty && !footprint.all &&
            footprint.points.isEmpty && footprint.spans.isEmpty && cycleKey.isEmpty then return ()
        else if footprintCanonical footprint then return ()
        else failure)
      (do
        raiseIf (maxWireFootprintBytes < footprintBytes footprint)
        let cycleKey ← bytesBound maxWireCycleKeyBytes
        let c : Command := { id := ⟨client, sequence⟩, payload, footprint, cycleKey }
        let p ← MonadState.get
        raiseIf (!p.err && !commandEmpty c && !footprintCanonical c.footprint)
        return c) := by
  by_cases hbig : maxWireFootprintBytes < footprintBytes footprint
  · refine Agrees.dead (fun r value r' haccepts ↦ ?_) fun r value r' haccepts ↦ ?_
    · obtain ⟨cycleKey, r₁, -, hrest⟩ := accepts_bind.mp haccepts
      change Accepts (if r₁.err || decide (maxWireFootprintBytes < footprintBytes footprint) then _
        else _) r₁ value r' at hrest
      rw [decide_eq_true hbig, Bool.or_true, if_pos rfl] at hrest
      exact not_accepts_failure _ _ _ hrest
    · rw [decide_eq_true hbig] at haccepts
      exact not_accepts_raise (fun _ ↦ (sticky_bytesBound _).bind fun _ ↦
        sticky_checked _) r value r'
        haccepts
  · have hpass : raiseIf (decide (maxWireFootprintBytes < footprintBytes footprint)) = pure () := by
      rw [decide_eq_false hbig]
      rfl
    rw [hpass, pure_bind]
    refine Agrees.bind_same (sticky_bytesBound _) fun cycleKey ↦ ?_
    have hempty : (client == 0 && sequence == 0 && payload.isEmpty && !footprint.all &&
        footprint.points.isEmpty && footprint.spans.isEmpty && cycleKey.isEmpty) =
        commandEmpty { id := ⟨client, sequence⟩, payload, footprint, cycleKey } := by
      rw [Bool.eq_iff_iff]
      simp only [commandEmpty, Bool.and_eq_true, beq_iff_eq, CommandID.mk.injEq]
      tauto
    rw [hempty]
    set c : Command := { id := ⟨client, sequence⟩, payload, footprint, cycleKey }
    by_cases hgood : commandEmpty c = true ∨ footprintCanonical footprint = true
    · have hleft : (if commandEmpty c then pure () else if footprintCanonical footprint then
          pure () else failure : Reading Unit) = pure () := by
        rcases hgood with hgood | hgood <;> simp [hgood]
      have hright : (do
          let p ← MonadState.get
          raiseIf (!p.err && !commandEmpty c && !footprintCanonical c.footprint)
          return c : Reading Command) = pure c := by
        funext r
        change (raiseIf (!r.err && !commandEmpty c && !footprintCanonical footprint) >>=
          fun _ ↦ pure c).run r = _
        have hnone : (!r.err && !commandEmpty c && !footprintCanonical footprint) = false := by
          rcases hgood with hgood | hgood <;> simp [hgood]
        rw [hnone]
        rfl
      rw [hleft]
      refine (Agrees.unflag (Sticky.pure ())).trans ?_
      rw [if_neg hbig]
      exact (Agrees.pure () c).trans (hright ▸ Agrees.refl (sticky_checked c))
    · obtain ⟨hne, hloose⟩ := not_or.mp hgood
      refine Agrees.dead (fun r value r' haccepts ↦ ?_) fun r value r' haccepts ↦ ?_
      · change Accepts (if r.err || _ then failure else if commandEmpty c then pure () else
          if footprintCanonical footprint then pure () else failure) r value r' at haccepts
        rw [if_neg hne, if_neg hloose, ite_self] at haccepts
        exact not_accepts_failure _ _ _ haccepts
      · have herr := sticky_checked c r value r' haccepts
        change Accepts (raiseIf (!r.err && !commandEmpty c && !footprintCanonical footprint) >>=
          fun _ ↦ pure c) r value r' at haccepts
        rw [herr, Bool.not_eq_true _ |>.mp hne, Bool.not_eq_true _ |>.mp hloose] at haccepts
        exact not_accepts_raise (fun _ ↦ Sticky.pure _) r value r' haccepts

/-- Over a limit the scanner gives up and the decoder raises its flag. -/
theorem agrees_limit {α β : Type} {condition : Prop} [Decidable condition] {read : Reading α}
    {other : Reading β} (refused : β) (h : Agrees read other) :
    Agrees (do
        let p ← MonadState.get
        if p.err || decide condition then failure else read)
      (if condition then (do raise; return refused) else other) := by
  refine (Agrees.unflag h.sticky).trans (Agrees.ite (fun _ ↦ ?_) fun _ ↦ h)
  exact Agrees.dead not_accepts_failure (not_accepts_raise fun _ ↦ Sticky.pure _)

theorem agrees_command : Agrees scanCommand command := by
  refine Agrees.bind_same sticky_uvarint fun client ↦ Agrees.bind_same sticky_uvarint fun sequence ↦
    Agrees.bind_same (sticky_bytesBound _) fun payload ↦ Agrees.bind_same sticky_bool fun all ↦
    Agrees.bind_same sticky_uvarint fun pointCount ↦ agrees_limit _ ?_
  refine Agrees.bind_same ((sticky_bytesBound _).times _) fun points ↦
    Agrees.bind_same sticky_uvarint fun spanCount ↦ agrees_limit _ ?_
  exact Agrees.bind_same (sticky_span.times _) fun spans ↦
    agrees_cycleKey client sequence payload { all, points, spans }

/-- The scanner accepts a body exactly when the decoder does, and leaves the same. -/
theorem agrees_message : Agrees scanMessageBody message := by
  -- references and ballots are read number by number on both sides
  simp only [scanMessageBody, message, messageFrom, times, ref, ballot, bool, bind_assoc, pure_bind]
  repeat first
    | exact Agrees.pure _ _
    | refine Agrees.bind_same sticky_uvarint fun _ ↦ ?_
    | refine Agrees.bind_same sticky_uvarint8 fun _ ↦ ?_
    | refine Agrees.bind_same sticky_byte fun _ ↦ ?_
    | refine Agrees.bind_same (sticky_bytesBound _) fun _ ↦ ?_
    | refine Agrees.bind agrees_deps fun _ _ ↦ ?_
    | refine Agrees.bind agrees_acceptEvidence fun _ _ ↦ ?_
    | refine Agrees.bind agrees_command fun _ _ ↦ ?_

/-- A body is scanned when the decoder reads it to its end without raising its flag. -/
theorem bodyScanned_iff (body : Bytes) :
    bodyScanned body = true ↔ ∃ m p, message.run ⟨body, false⟩ = some (m, p) ∧ p.err = false ∧
      p.b = [] := by
  have hscanned : bodyScanned body = true ↔
      ∃ p, scanMessageBody.run ⟨body, false⟩ = some ((), p) ∧ p.err = false ∧ p.b = [] := by
    unfold bodyScanned
    cases scanMessageBody.run ⟨body, false⟩ with
    | none => simp
    | some found => simp [Prod.ext_iff]
  rw [hscanned]
  constructor
  · rintro ⟨p, hrun, herr, hrest⟩
    obtain ⟨m, hm⟩ := agrees_message.forth _ _ p ⟨hrun, herr⟩
    exact ⟨m, p, hm.1, herr, hrest⟩
  · rintro ⟨m, p, hrun, herr, hrest⟩
    obtain ⟨_, hscan⟩ := agrees_message.back _ m p ⟨hrun, herr⟩
    exact ⟨p, hscan.1, herr, hrest⟩

end Parser

/-- Decoding into scratch buffers, whatever they held before, gives what plain decoding gives: the
same message or the same error. The scan ahead accepts exactly the bodies the decoder reads to
their end, and the arena it reserves for the dependencies of the evidence is never too small. -/
theorem decodeMessageWithScratch_eq (blake3 : Bytes → Digest) :
    (∀ src scratch, decodeMessageWithScratch blake3 src scratch = decodeMessage blake3 src) ∧
      (∀ body, Parser.bodyScanned body = true ↔
        ∃ m p, Parser.message.run ⟨body, false⟩ = some (m, p) ∧ p.err = false ∧ p.b = []) ∧
      ∀ r r' buffer arena total,
        (Parser.scanAcceptEvidence buffer.length).run r = some (total, r') → total ≤ arena.length →
          (Parser.evidenceInto buffer arena).run r =
            (times Parser.evidence buffer.length).run r := by
  refine ⟨fun src scratch ↦ ?_, Parser.bodyScanned_iff,
    fun r r' buffer arena total hscan hroom ↦ ?_⟩
  · cases scratch with
    | none => rfl
    | some scratch =>
      unfold decodeMessageWithScratch decodeMessage
      dsimp only
      rw [Parser.messageInto_eq]
      split
      · rfl
      split
      · -- a body that was not scanned is refused by the decoder in the end
        rename_i hscanned
        split
        · rfl
        rename_i m p hrun
        have hrefused : (p.err || !p.b.isEmpty) = true := by
          by_contra hdone
          simp only [Bool.or_eq_true, Bool.not_eq_true', not_or, Bool.not_eq_true,
            Bool.not_eq_false, List.isEmpty_iff] at hdone
          rw [(Parser.bodyScanned_iff _).mpr ⟨m, p, hrun, hdone.1, hdone.2⟩] at hscanned
          cases hscanned
        rw [if_pos hrefused]
      · rfl
  · rw [Parser.scanAcceptEvidence, StateT.run_bind] at hscan
    obtain ⟨⟨counts, last⟩, hcounts, htotal⟩ := Option.bind_eq_some_iff.mp hscan
    cases htotal
    exact Parser.evidenceInto_run buffer arena hcounts hroom

/-- One piece of evidence, from the first sender with one dependency, read into used buffers. -/
theorem decodeMessageWithScratch_eq_used :
    (Parser.scanAcceptEvidence 1).run ⟨[1, 2, 1, 5], false⟩ = some (1, ⟨[], false⟩) ∧
      (Parser.evidenceInto [⟨9, 9, [9]⟩] [7]).run ⟨[1, 2, 1, 5], false⟩ =
        (times Parser.evidence 1).run ⟨[1, 2, 1, 5], false⟩ := by
  have hscan : (Parser.scanAcceptEvidence 1).run ⟨[1, 2, 1, 5], false⟩ =
      some (1, ⟨[], false⟩) := by decide
  exact ⟨hscan, (decodeMessageWithScratch_eq fun _ ↦ .zero).2.2 _ _ [⟨9, 9, [9]⟩] [7] 1 hscan
    (by decide)⟩

end MoreConsensus.Wire
