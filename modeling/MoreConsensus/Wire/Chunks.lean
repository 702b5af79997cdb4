import MoreConsensus.Wire.Frames
import MoreConsensus.Library.FiniteMap

/-!
# Chunk sets

`BootstrapChunkSet` of `epaxos/bootstrap.go` collects the chunks of a snapshot transfer, each
validated on its own and against the authenticated sender. The sums of offsets and lengths are sums
of 64-bit words.

Whatever calls are made, the chunks retained carry the total of the set, lie inside it, are stored
under their own indexes and do not overlap (`sound_addAll`), and adding one of them once more is a
stutter (`Sound.addAuthenticated_retained`). Nothing compares the cluster, the plan, the manifest,
the sender or the receiver of different chunks: `addAuthenticated_mixes_plans` adds halves of two
transfers to one set, and `addAuthenticated_one_transfer` is what holds when the chunks agree.
-/

set_option autoImplicit false

namespace MoreConsensus.Wire

open Library

/-! ### The set and its operation -/

/-- The chunks of a transfer received so far, by index, with the total they agree on and the quota
of the receiver. -/
structure BootstrapChunkSet where
  total : UInt64 := 0
  limit : UInt64 := 0
  chunks : FiniteMap ℕ BootstrapChunk := .empty

/-- One call of `AddAuthenticated`: the chunk, and the sender as the transport authenticated it. -/
structure ChunkCall where
  chunk : BootstrapChunk
  authenticatedReplica : UInt64
  authenticatedIncarnation : UInt64

def bootstrapChunkEqual (a b : BootstrapChunk) : Bool :=
  a.cluster == b.cluster && a.plan == b.plan && a.source == b.source &&
    a.fromIncarnation == b.fromIncarnation && a.target == b.target && a.manifest == b.manifest &&
    a.index == b.index && a.offset == b.offset && a.total == b.total &&
    a.payloadDigest == b.payloadDigest && a.payload == b.payload

/-- The end of a chunk as the source computes it, in 64 bits. -/
def BootstrapChunk.stop (chunk : BootstrapChunk) : UInt64 :=
  chunk.offset + UInt64.ofNat chunk.payload.length

section

variable (blake3 : Bytes → Digest)

def validateBootstrapChunk (call : ChunkCall) : Except BootstrapError Unit := do
  if call.chunk.source ≠ call.authenticatedReplica ||
      call.chunk.fromIncarnation ≠ call.authenticatedIncarnation ||
      call.authenticatedReplica == 0 || call.authenticatedIncarnation == 0 then
    .error .invalidBootstrapMessage
  let _ ← bootstrapChunkCanonicalBytes blake3 call.chunk

/-- The quota that applies: none given, or one beyond the bound of a transfer, is that bound. -/
def BootstrapChunkSet.quota (s : BootstrapChunkSet) : UInt64 :=
  if s.limit == 0 || maxBootstrapTransfer < s.limit then maxBootstrapTransfer else s.limit

/-- Validates and retains one chunk. An exact duplicate changes nothing. -/
def BootstrapChunkSet.addAuthenticated (s : BootstrapChunkSet) (call : ChunkCall) :
    BootstrapChunkSet × Except BootstrapError Unit :=
  let chunk := call.chunk
  match validateBootstrapChunk blake3 call with
  | .error err => (s, .error err)
  | .ok () =>
    if maxBootstrapChunks ≤ chunk.index || chunk.total == 0 || s.quota < chunk.total ||
        chunk.total < chunk.offset ||
        (chunk.total - chunk.offset).toNat < chunk.payload.length then
      (s, .error .bootstrapBounds)
    else if s.total ≠ 0 && s.total ≠ chunk.total then
      (s, .error .bootstrapChunkConflict)
    else
      match s.chunks.get? chunk.index.toNat with
      | some existing =>
        if bootstrapChunkEqual existing chunk then (s, .ok ())
        else (s, .error .bootstrapChunkConflict)
      | none =>
        if s.chunks.entries.any fun entry ↦
            chunk.offset < entry.2.stop && entry.2.offset < chunk.stop then
          (s, .error .bootstrapChunkConflict)
        else if maxBootstrapChunks.toNat ≤ s.chunks.entries.length then
          (s, .error .bootstrapBounds)
        else
          ({ s with total := chunk.total, chunks := s.chunks.insert chunk.index.toNat chunk },
            .ok ())

/-- The set after a sequence of calls, whatever they return. -/
def BootstrapChunkSet.addAll (s : BootstrapChunkSet) (calls : List ChunkCall) :
    BootstrapChunkSet :=
  calls.foldl (fun s call ↦ (s.addAuthenticated blake3 call).1) s

end

/-! ### One call -/

variable {blake3 : Bytes → Digest} {s : BootstrapChunkSet} {call : ChunkCall}
  {chunk other : BootstrapChunk}

/-- The bytes of the transfer a chunk carries. -/
def BootstrapChunk.range (chunk : BootstrapChunk) : Set ℕ :=
  Set.Ico chunk.offset.toNat (chunk.offset.toNat + chunk.payload.length)

/-- What `addAuthenticated` has checked of a chunk by itself when it looks for its index. -/
structure Admitted (blake3 : Bytes → Digest) (quota : UInt64) (chunk : BootstrapChunk) : Prop where
  /-- The chunk is valid when it comes from the sender it names. -/
  valid : validateBootstrapChunk blake3 ⟨chunk, chunk.source, chunk.fromIncarnation⟩ = .ok ()
  index_lt : chunk.index < maxBootstrapChunks
  total_ne_zero : chunk.total ≠ 0
  total_le : chunk.total ≤ quota
  /-- The last byte lies inside the total. -/
  inside : chunk.offset.toNat + chunk.payload.length ≤ chunk.total.toNat

theorem bootstrapChunkEqual_iff (a b : BootstrapChunk) :
    bootstrapChunkEqual a b = true ↔ a = b := by
  cases a
  cases b
  simp only [bootstrapChunkEqual, Bool.and_eq_true, beq_iff_eq, BootstrapChunk.mk.injEq]
  tauto

/-- The end of a chunk that lies inside its total is computed without overflow. -/
theorem BootstrapChunk.toNat_stop
    (hinside : chunk.offset.toNat + chunk.payload.length ≤ chunk.total.toNat) :
    chunk.stop.toNat = chunk.offset.toNat + chunk.payload.length := by
  have htotal := chunk.total.toNat_lt
  have hlength : (UInt64.ofNat chunk.payload.length).toNat = chunk.payload.length :=
    toNat_ofNat_length (by omega) htotal
  rw [BootstrapChunk.stop, UInt64.toNat_add, hlength, Nat.mod_eq_of_lt (by omega)]

/-- The validator accepts a chunk only from the sender it names. -/
theorem validateBootstrapChunk_eq_ok (hvalid : validateBootstrapChunk blake3 call = .ok ()) :
    call.chunk.source = call.authenticatedReplica ∧
      call.chunk.fromIncarnation = call.authenticatedIncarnation := by
  by_contra hsender
  rw [validateBootstrapChunk, if_pos] at hvalid
  · cases hvalid
  · simp only [Bool.or_eq_true, decide_eq_true_eq]
    tauto

/-- The validator and the bounds checked after it make a chunk admitted. -/
theorem admitted_of_checks {quota : UInt64} (hvalid : validateBootstrapChunk blake3 call = .ok ())
    (hbounds : ¬ (maxBootstrapChunks ≤ call.chunk.index || call.chunk.total == 0 ||
      quota < call.chunk.total || call.chunk.total < call.chunk.offset ||
      (call.chunk.total - call.chunk.offset).toNat < call.chunk.payload.length) = true) :
    Admitted blake3 quota call.chunk := by
  obtain ⟨hsource, hincarnation⟩ := validateBootstrapChunk_eq_ok hvalid
  simp only [Bool.or_eq_true, decide_eq_true_eq, beq_iff_eq, not_or, UInt64.not_le,
    UInt64.not_lt, not_lt] at hbounds
  obtain ⟨⟨⟨⟨hindex, hzero⟩, hquota⟩, hoffset⟩, hlength⟩ := hbounds
  refine ⟨?_, hindex, hzero, hquota, ?_⟩
  · rw [hsource, hincarnation]
    exact hvalid
  · rw [UInt64.toNat_sub_of_le _ _ hoffset] at hlength
    have hstart : call.chunk.offset.toNat ≤ call.chunk.total.toNat :=
      UInt64.le_iff_toNat_le.mp hoffset
    omega

/-- A call leaves the set as it is, or retains the chunk under an index that was free, at the
total of the set and clear of every chunk retained before. -/
theorem addAuthenticated_cases (blake3 : Bytes → Digest) (s : BootstrapChunkSet)
    (call : ChunkCall) :
    (s.addAuthenticated blake3 call).1 = s ∨
      Admitted blake3 s.quota call.chunk ∧ (s.total = 0 ∨ s.total = call.chunk.total) ∧
        s.chunks.get? call.chunk.index.toNat = none ∧
        (∀ entry ∈ s.chunks.entries,
          ¬ (call.chunk.offset < entry.2.stop ∧ entry.2.offset < call.chunk.stop)) ∧
        (s.addAuthenticated blake3 call).1 =
          { s with total := call.chunk.total,
                   chunks := s.chunks.insert call.chunk.index.toNat call.chunk } := by
  generalize hresult : s.addAuthenticated blake3 call = result
  unfold BootstrapChunkSet.addAuthenticated at hresult
  dsimp only at hresult
  split at hresult
  · exact .inl (hresult ▸ rfl)
  rename_i hvalid
  split at hresult
  · exact .inl (hresult ▸ rfl)
  rename_i hbounds
  split at hresult
  · exact .inl (hresult ▸ rfl)
  rename_i htotal
  split at hresult
  · refine .inl ?_
    split at hresult <;> exact hresult ▸ rfl
  rename_i hfree
  split at hresult
  · exact .inl (hresult ▸ rfl)
  rename_i hclear
  split at hresult
  · exact .inl (hresult ▸ rfl)
  refine .inr ⟨admitted_of_checks hvalid hbounds, ?_, hfree, ?_, hresult ▸ rfl⟩
  · simp only [ne_eq, Bool.and_eq_true, decide_eq_true_eq, not_and_or, not_not] at htotal
    exact htotal
  · simpa only [List.any_eq_true, Bool.and_eq_true, decide_eq_true_eq, not_exists,
      not_and] using hclear

/-! ### Every sequence of calls -/

/-- What holds of a chunk set after any calls: a chunk is stored under its own index, passes the
checks under the quota and the total, and shares no byte with another one. -/
structure BootstrapChunkSet.Sound (blake3 : Bytes → Digest) (s : BootstrapChunkSet) : Prop where
  indexed : ∀ {key chunk}, s.chunks.get? key = some chunk → chunk.index.toNat = key
  admitted : ∀ {key chunk}, s.chunks.get? key = some chunk → Admitted blake3 s.quota chunk
  total : ∀ {key chunk}, s.chunks.get? key = some chunk → chunk.total = s.total
  apart : ∀ {key key' chunk other}, key ≠ key' → s.chunks.get? key = some chunk →
    s.chunks.get? key' = some other → Disjoint chunk.range other.range

/-- Chunks whose 64-bit ends do not cross share no byte. -/
theorem disjoint_range {quota : UInt64} (hchunk : Admitted blake3 quota chunk)
    (hother : Admitted blake3 quota other)
    (hclear : ¬ (chunk.offset < other.stop ∧ other.offset < chunk.stop)) :
    Disjoint chunk.range other.range := by
  rw [UInt64.lt_iff_toNat_lt, UInt64.lt_iff_toNat_lt, BootstrapChunk.toNat_stop hchunk.inside,
    BootstrapChunk.toNat_stop hother.inside] at hclear
  rw [BootstrapChunk.range, BootstrapChunk.range, Set.Ico_disjoint_Ico]
  omega

/-- A call keeps a chunk set sound. -/
theorem BootstrapChunkSet.Sound.addAuthenticated (hsound : s.Sound blake3) (call : ChunkCall) :
    (s.addAuthenticated blake3 call).1.Sound blake3 := by
  rcases addAuthenticated_cases blake3 s call with hsame | ⟨hadmitted, htotal, hfree, hclear, hadd⟩
  · rwa [hsame]
  rw [hadd]
  -- a chunk retained before has the set's total, which the new chunk was compared with
  have hagree {key chunk} (hget : s.chunks.get? key = some chunk) :
      chunk.total = call.chunk.total := by
    rcases htotal with hzero | hequal
    · exact absurd ((hsound.total hget).trans hzero) (hsound.admitted hget).total_ne_zero
    · exact (hsound.total hget).trans hequal
  have hapart {key chunk} (hget : s.chunks.get? key = some chunk) :
      Disjoint call.chunk.range chunk.range :=
    disjoint_range hadmitted (hsound.admitted hget)
      (hclear (key, chunk) ((s.chunks.mem_entries key chunk).mpr hget))
  have hcases {key chunk}
      (hget : (s.chunks.insert call.chunk.index.toNat call.chunk).get? key = some chunk) :
      key = call.chunk.index.toNat ∧ chunk = call.chunk ∨ s.chunks.get? key = some chunk := by
    rw [FiniteMap.get?_insert] at hget
    split at hget
    · rename_i hkey
      exact .inl ⟨hkey, (Option.some.inj hget).symm⟩
    · exact .inr hget
  refine ⟨fun hget ↦ ?_, fun hget ↦ ?_, fun hget ↦ ?_, fun hne hget hget' ↦ ?_⟩
  · rcases hcases hget with ⟨rfl, rfl⟩ | hold
    · rfl
    · exact hsound.indexed hold
  · rcases hcases hget with ⟨-, rfl⟩ | hold
    · exact hadmitted
    · exact hsound.admitted hold
  · rcases hcases hget with ⟨-, rfl⟩ | hold
    · rfl
    · exact hagree hold
  · rcases hcases hget with ⟨rfl, rfl⟩ | hold
    · rcases hcases hget' with ⟨rfl, -⟩ | hold'
      · exact absurd rfl hne
      · exact hapart hold'
    · rcases hcases hget' with ⟨-, rfl⟩ | hold'
      · exact (hapart hold).symm
      · exact hsound.apart hne hold hold'

/-- A set that has retained nothing yet is sound, whatever its total and its quota. -/
theorem sound_of_empty (hempty : s.chunks = .empty) : s.Sound blake3 := by
  refine ⟨fun hget ↦ ?_, fun hget ↦ ?_, fun hget ↦ ?_, fun _ hget ↦ ?_⟩ <;>
    · rw [hempty] at hget
      cases hget

/-- Calls keep a chunk set sound. -/
theorem sound_addAll (hsound : s.Sound blake3) (calls : List ChunkCall) :
    (s.addAll blake3 calls).Sound blake3 := by
  induction calls generalizing s with
  | nil => exact hsound
  | cons call calls ih => exact ih (hsound.addAuthenticated call)

/-- Handing in a retained chunk once more changes nothing, whoever is named as its sender. -/
theorem BootstrapChunkSet.Sound.addAuthenticated_retained (hsound : s.Sound blake3) {key : ℕ}
    (hget : s.chunks.get? key = some chunk) (replica incarnation : UInt64) :
    (s.addAuthenticated blake3 ⟨chunk, replica, incarnation⟩).1 = s := by
  rcases addAuthenticated_cases blake3 s ⟨chunk, replica, incarnation⟩ with
    hsame | ⟨-, -, hfree, -⟩
  · exact hsame
  · have hindex := hsound.indexed hget
    rw [hindex, hget] at hfree
    cases hfree

/-- A retained chunk that its sender repeats is accepted. -/
theorem BootstrapChunkSet.Sound.addAuthenticated_repeated (hsound : s.Sound blake3) {key : ℕ}
    (hget : s.chunks.get? key = some chunk) :
    (s.addAuthenticated blake3 ⟨chunk, chunk.source, chunk.fromIncarnation⟩).2 = .ok () := by
  have hadmitted := hsound.admitted hget
  have hinside := hadmitted.inside
  have hoffset : chunk.offset ≤ chunk.total := UInt64.le_iff_toNat_le.mpr (by omega)
  have hbounds : ¬ (maxBootstrapChunks ≤ chunk.index || chunk.total == 0 ||
      s.quota < chunk.total || chunk.total < chunk.offset ||
      (chunk.total - chunk.offset).toNat < chunk.payload.length) = true := by
    simp only [Bool.or_eq_true, decide_eq_true_eq, beq_iff_eq, not_or, UInt64.not_le,
      UInt64.not_lt, not_lt]
    refine ⟨⟨⟨⟨hadmitted.index_lt, hadmitted.total_ne_zero⟩, hadmitted.total_le⟩, hoffset⟩, ?_⟩
    rw [UInt64.toNat_sub_of_le _ _ hoffset]
    omega
  have htotal : ¬ (s.total ≠ 0 && s.total ≠ chunk.total) = true := by
    simp [hsound.total hget]
  have hequal := (bootstrapChunkEqual_iff chunk chunk).mpr rfl
  unfold BootstrapChunkSet.addAuthenticated
  simp only [hadmitted.valid, if_neg hbounds, if_neg htotal, hsound.indexed hget, hget,
    if_pos hequal]

/-! ### One transfer -/

/-- The parties, the plan and the snapshot a chunk belongs to. -/
structure TransferID where
  cluster : Digest
  plan : Digest
  manifest : Digest
  source : UInt64
  fromIncarnation : UInt64
  target : UInt64
  deriving DecidableEq

def BootstrapChunk.transferID (chunk : BootstrapChunk) : TransferID :=
  ⟨chunk.cluster, chunk.plan, chunk.manifest, chunk.source, chunk.fromIncarnation, chunk.target⟩

/-- The retained chunks lie inside the total, have distinct indexes and disjoint byte ranges, and
handing one of them in again is a stutter. -/
structure BootstrapChunkSet.Consistent (blake3 : Bytes → Digest) (s : BootstrapChunkSet) :
    Prop where
  inside : ∀ key chunk, s.chunks.get? key = some chunk →
    chunk.range ⊆ Set.Ico 0 s.total.toNat
  distinct : ∀ key key' chunk other, key ≠ key' → s.chunks.get? key = some chunk →
    s.chunks.get? key' = some other →
      chunk.index ≠ other.index ∧ Disjoint chunk.range other.range
  stutters : ∀ key chunk, s.chunks.get? key = some chunk →
    s.addAuthenticated blake3 ⟨chunk, chunk.source, chunk.fromIncarnation⟩ = (s, .ok ()) ∧
      ∀ replica incarnation, (s.addAuthenticated blake3 ⟨chunk, replica, incarnation⟩).1 = s

/-- Any two retained chunks share cluster, plan, manifest, sender, receiver and total. -/
def BootstrapChunkSet.OneTransfer (s : BootstrapChunkSet) : Prop :=
  ∀ key key' chunk other, s.chunks.get? key = some chunk → s.chunks.get? key' = some other →
    chunk.transferID = other.transferID ∧ chunk.total = other.total

/-- The chunk handed in names the transfer of every chunk retained. -/
def BootstrapChunkSet.Agrees (s : BootstrapChunkSet) (call : ChunkCall) : Prop :=
  ∀ key other, s.chunks.get? key = some other → call.chunk.transferID = other.transferID

/-- Every call of a sequence hands in a chunk that names the transfer of those retained then. -/
def BootstrapChunkSet.AgreesAlong (blake3 : Bytes → Digest) :
    BootstrapChunkSet → List ChunkCall → Prop
  | _, [] => True
  | s, call :: calls =>
    s.Agrees call ∧ BootstrapChunkSet.AgreesAlong blake3 (s.addAuthenticated blake3 call).1 calls

theorem BootstrapChunkSet.Sound.consistent (hsound : s.Sound blake3) : s.Consistent blake3 := by
  refine ⟨fun key chunk hget ↦ ?_, fun key key' chunk other hne hget hget' ↦ ⟨?_, ?_⟩,
    fun key chunk hget ↦ ⟨?_, ?_⟩⟩
  · rw [BootstrapChunk.range, ← hsound.total hget]
    exact Set.Ico_subset_Ico (Nat.zero_le _) (hsound.admitted hget).inside
  · intro hindex
    refine hne ?_
    rw [← hsound.indexed hget, hindex, hsound.indexed hget']
  · exact hsound.apart hne hget hget'
  · exact Prod.ext (hsound.addAuthenticated_retained hget _ _)
      (hsound.addAuthenticated_repeated hget)
  · exact hsound.addAuthenticated_retained hget

/-- A chunk that names the transfer of those retained keeps the set at one transfer. -/
theorem BootstrapChunkSet.OneTransfer.addAuthenticated (hsound : s.Sound blake3)
    (hone : s.OneTransfer) (hagrees : s.Agrees call) :
    (s.addAuthenticated blake3 call).1.OneTransfer := by
  have hnext := hsound.addAuthenticated call
  rcases addAuthenticated_cases blake3 s call with hsame | ⟨-, -, -, -, hadd⟩
  · rwa [hsame]
  intro key key' chunk other hget hget'
  refine ⟨?_, (hnext.total hget).trans (hnext.total hget').symm⟩
  rw [hadd, FiniteMap.get?_insert] at hget hget'
  split at hget
  · cases hget
    split at hget'
    · cases hget'
      rfl
    · exact hagrees key' other hget'
  · split at hget'
    · cases hget'
      exact (hagrees key chunk hget).symm
    · exact (hone key key' chunk other hget hget').1

theorem oneTransfer_addAll (hsound : s.Sound blake3) (hone : s.OneTransfer)
    {calls : List ChunkCall} (hagrees : BootstrapChunkSet.AgreesAlong blake3 s calls) :
    (s.addAll blake3 calls).OneTransfer := by
  induction calls generalizing s with
  | nil => exact hone
  | cons call calls ih =>
    exact ih (hsound.addAuthenticated call) (hone.addAuthenticated hsound hagrees.1) hagrees.2

/-- After any calls on a chunk set the retained chunks lie inside the total, with distinct indexes
and disjoint ranges, and repeating one is a stutter. They belong to one transfer after calls that
each hand in a chunk of the transfer of those retained at the time.

Assumes: the set starts without chunks; its total and its quota are arbitrary. -/
theorem addAuthenticated_one_transfer (blake3 : Bytes → Digest) (start : BootstrapChunkSet)
    (hempty : start.chunks = .empty) (calls : List ChunkCall) :
    (start.addAll blake3 calls).Consistent blake3 ∧
      (BootstrapChunkSet.AgreesAlong blake3 start calls →
        (start.addAll blake3 calls).OneTransfer) := by
  have hsound : start.Sound blake3 := sound_of_empty hempty
  refine ⟨(sound_addAll hsound calls).consistent, fun hagrees ↦ ?_⟩
  refine oneTransfer_addAll hsound (fun key key' chunk other hget ↦ ?_) hagrees
  rw [hempty] at hget
  cases hget

/-- The first byte of a two-byte snapshot of one plan, from the second replica to the first. -/
def firstHalf : BootstrapChunk :=
  { cluster := .copy [1], plan := .copy [1], source := 2, fromIncarnation := 1, target := 1,
    manifest := .copy [1], total := 2, payload := [7] }

def secondHalf : BootstrapChunk := { firstHalf with index := 1, offset := 1, payload := [8] }

/-- The second byte of a snapshot of another plan, from another sender. -/
def foreignHalf : BootstrapChunk :=
  { secondHalf with plan := .copy [2], source := 3, manifest := .copy [2] }

/-- Any hash will do for chunks that leave their digest out. -/
def constantHash : Bytes → Digest := fun _ ↦ .copy [9]

def ofSender (chunk : BootstrapChunk) : ChunkCall := ⟨chunk, chunk.source, chunk.fromIncarnation⟩

/-- The two halves of one transfer are both retained. -/
theorem addAuthenticated_one_transfer_halves :
    let s := BootstrapChunkSet.addAll constantHash {} [ofSender firstHalf, ofSender secondHalf]
    s.chunks.get? 0 = some firstHalf ∧ s.chunks.get? 1 = some secondHalf ∧
      s.Consistent constantHash ∧ s.OneTransfer := by
  have hresult := addAuthenticated_one_transfer constantHash {} rfl
    [ofSender firstHalf, ofSender secondHalf]
  refine ⟨by decide, by decide, hresult.1, hresult.2 ⟨fun key other hget ↦ ?_, ?_, trivial⟩⟩
  · cases hget
  · intro key other hget
    have hfirst : (BootstrapChunkSet.addAuthenticated constantHash {} (ofSender firstHalf)).1
        = { total := 2, chunks := FiniteMap.empty.insert 0 firstHalf } := rfl
    rw [hfirst, FiniteMap.get?_insert] at hget
    split at hget
    · cases hget
      rfl
    · cases hget

/-- Halves of different transfers, of different plans and from different senders, are both
accepted and end up in one set. -/
theorem addAuthenticated_mixes_plans :
    let start : BootstrapChunkSet := {}
    let first := start.addAuthenticated constantHash (ofSender firstHalf)
    let second := first.1.addAuthenticated constantHash (ofSender foreignHalf)
    first.2 = .ok () ∧ second.2 = .ok () ∧ second.1.chunks.get? 0 = some firstHalf ∧
      second.1.chunks.get? 1 = some foreignHalf ∧ firstHalf.plan ≠ foreignHalf.plan ∧
      firstHalf.source ≠ foreignHalf.source ∧ ¬ second.1.OneTransfer := by
  refine ⟨rfl, rfl, by decide, by decide, by decide, by decide, fun hone ↦ ?_⟩
  have hsame := (hone 0 1 firstHalf foreignHalf (by decide) (by decide)).1
  revert hsame
  decide

end MoreConsensus.Wire
