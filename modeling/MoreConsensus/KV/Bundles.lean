import MoreConsensus.KV.Keys
import MoreConsensus.Library.Checks
import MoreConsensus.Wire.Codec

/-!
# Snapshot bundles and checkpoint manifests

The two formats of the store whose bytes are hashed: the bundle of an application snapshot
(`examples/kv/epaxos_storage.go`) and the manifest of a backup (`examples/kv/backup.go`). Both
decoders take one spelling of each value, in increasing order and with nothing after it, so what
they accept is what the encoder writes for the result.

A bundle has no limits, and increasing entries are decoded from their encoding. The encoder of a
manifest writes any manifest, but the decoder has limits and fills in the checksum; within the
limits a manifest is decoded to itself with its checksum
(`decodeCheckpointManifest_encodeCheckpointManifest`).
-/

set_option autoImplicit false

namespace MoreConsensus.KV

open Library Library.Reading

/-! ### Numbers in their shortest spelling -/

namespace RecordParser

/-- A number; a canonical parser takes its shortest spelling only. -/
def uvarint (canonical : Bool) : Reading UInt64 := fun p ↦
  if p.err then some (0, p)
  else match Library.uvarint p.b with
    | none => some (0, { p with err := true })
    | some (value, rest) =>
      if canonical && (putUvarint value).length != p.b.length - rest.length then
        some (0, { p with err := true })
      else some (value, { p with b := rest })

def bytes (canonical : Bool) : Reading Bytes := do
  let length ← uvarint canonical
  let p ← MonadState.get
  if p.err || p.b.length < length.toNat then do
    raise
    return []
  else do
    set { p with b := p.b.drop length.toNat }
    return p.b.take length.toNat

end RecordParser

theorem takes_shortest : Takes [] (RecordParser.uvarint true) putUvarint := by
  intro r value r' hrun herr
  change RecordParser.uvarint true r = _ at hrun
  rw [RecordParser.uvarint] at hrun
  split at hrun
  · rename_i hfailed
    cases hrun
    exact absurd hfailed (by rw [herr]; decide)
  · rename_i hclean
    split at hrun
    · cases hrun
      cases herr
    · rename_i hread
      split at hrun
      · cases hrun
        cases herr
      · rename_i hshortest
        cases hrun
        refine ⟨Bool.eq_false_iff.mpr hclean, uvarint_eq_some hread ?_⟩
        simpa using hshortest

theorem takes_lengthBytes : Takes [] (RecordParser.bytes true) appendLengthBytes := by
  refine takes_shortest.bind fun length ↦ ?_
  intro r value r' hrun herr
  change (if r.err || r.b.length < length.toNat then _ else _ : Reading Bytes).run r = _ at hrun
  split at hrun
  · cases hrun
    cases herr
  · rename_i hroom
    obtain ⟨hclean, hroom⟩ : r.err = false ∧ length.toNat ≤ r.b.length := by simpa using hroom
    cases hrun
    refine ⟨hclean, ?_⟩
    have hlength : UInt64.ofNat (r.b.take length.toNat).length = length := by
      rw [List.length_take, Nat.min_eq_left hroom, UInt64.ofNat_toNat]
    rw [List.nil_append, appendLengthBytes, hlength, List.append_assoc, List.take_append_drop]

theorem reads_recordUvarint (canonical : Bool) (value : UInt64) :
    Reads (RecordParser.uvarint canonical) (putUvarint value) value := by
  intro rest
  change RecordParser.uvarint canonical ⟨putUvarint value ++ rest, false⟩ = _
  simp [RecordParser.uvarint]

variable {b : Bytes} {entries : List (Bytes × Bytes)} {size : ℕ}

theorem reads_lengthBytes (canonical : Bool) (hfits : Fits b) :
    Reads (RecordParser.bytes canonical) (appendLengthBytes b) b := by
  refine (reads_recordUvarint canonical _).bind (Reads.get fun rest ↦ ?_)
  simp [hfits.toNat_length]

/-! ### Snapshot bundles -/

def epaxosStorePrefix : UInt8 := 101
def epaxosAppliedEntry : UInt8 := 97
def epaxosCommandResultEntry : UInt8 := 100
def epaxosApplicationSnapshotCodec : UInt8 := 1

/-- Whether a key is part of the application state: a version, a command result or an applied
instance. -/
def applicationStateKey : Bytes → Bool
  | [] => false
  | [region] => region == recordPrefix
  | region :: entry :: _ => region == recordPrefix ||
      region == epaxosStorePrefix && (entry == epaxosCommandResultEntry ||
        entry == epaxosAppliedEntry)

def appendEntry (entry : Bytes × Bytes) : Bytes :=
  appendLengthBytes entry.1 ++ appendLengthBytes entry.2

def encodeApplicationSnapshot (entries : List (Bytes × Bytes)) : Bytes :=
  epaxosApplicationSnapshotCodec ::
    (putUvarint (UInt64.ofNat entries.length) ++ entries.flatMap appendEntry)

def readEntry : Reading (Bytes × Bytes) := do
  let key ← RecordParser.bytes true
  let value ← RecordParser.bytes true
  return (key, value)

/-- An entry of a bundle has a key of the application state, above the one before it. -/
def checkEntry (previous : Option (Bytes × Bytes)) (entry : Bytes × Bytes) : Except KVError Unit :=
  refuseIf (!applicationStateKey entry.1 ||
    previous.any fun before ↦ !bytesLess before.1 entry.1) .malformedSnapshot

def decodeApplicationSnapshot (bundle : Bytes) : Except KVError (List (Bytes × Bytes)) :=
  if bundle.length < 2 || bundle.head? != some epaxosApplicationSnapshotCodec then
    .error .malformedSnapshot
  else
    match (RecordParser.uvarint true).run ⟨bundle.tail, false⟩ with
    | none => .error .malformedSnapshot
    | some (count, p) => do
      refuseIf (bundle.length < count.toNat) .malformedSnapshot
      let (entries, p) ← checkedTimes readEntry checkEntry .malformedSnapshot count.toNat none p
      refuseIf (p.err || !p.b.isEmpty) .malformedSnapshot
      return entries

theorem bytesLess_trans {a c : Bytes} (hab : bytesLess a b = true) (hbc : bytesLess b c = true) :
    bytesLess a c = true := by
  have hab' : StoreKey.mk a < StoreKey.mk b := StoreKey.lt_iff.mpr hab
  have hbc' : StoreKey.mk b < StoreKey.mk c := StoreKey.lt_iff.mpr hbc
  exact StoreKey.lt_iff.mp (hab'.trans hbc')

theorem checkEntry_eq_ok (previous : Option (Bytes × Bytes)) (entry : Bytes × Bytes) :
    checkEntry previous entry = .ok () ↔ applicationStateKey entry.1 = true ∧
      ∀ before ∈ previous, bytesLess before.1 entry.1 = true := by
  rw [checkEntry, refuseIf_eq_ok]
  cases previous <;> simp

/-- Entries of application state in increasing order of their keys. -/
structure SnapshotEntries (entries : List (Bytes × Bytes)) : Prop where
  state : ∀ entry ∈ entries, applicationStateKey entry.1 = true
  increasing : entries.Pairwise fun a b ↦ bytesLess a.1 b.1 = true

theorem checked_entries_iff :
    Checked checkEntry none entries ↔ SnapshotEntries entries := by
  rw [checked_iff checkEntry_eq_ok fun _ _ _ ↦ bytesLess_trans]
  constructor
  · rintro ⟨hstate, hincreasing, -⟩
    exact ⟨hstate, hincreasing⟩
  · rintro ⟨hstate, hincreasing⟩
    exact ⟨hstate, hincreasing, fun _ h ↦ by cases h⟩

theorem takes_entry : Takes [] readEntry appendEntry :=
  takes_lengthBytes.bind fun _ ↦ takes_lengthBytes.bind fun _ ↦ Takes.pure rfl

theorem reads_entry {entry : Bytes × Bytes} (hkey : Fits entry.1) (hvalue : Fits entry.2) :
    Reads readEntry (appendEntry entry) entry :=
  (reads_lengthBytes true hkey).bind ((reads_lengthBytes true hvalue).map _)

/-- A bundle that is decoded is the encoding of its entries, and they increase. -/
theorem decodeApplicationSnapshot_eq_ok {bundle : Bytes}
    (hdecode : decodeApplicationSnapshot bundle = .ok entries) :
    encodeApplicationSnapshot entries = bundle ∧ SnapshotEntries entries := by
  rw [decodeApplicationSnapshot] at hdecode
  split at hdecode
  · cases hdecode
  · rename_i hhead
    have hhead : bundle.head? = some epaxosApplicationSnapshotCodec := by
      simp only [Bool.or_eq_true, not_or, bne_iff_ne, ne_eq, not_not] at hhead
      exact hhead.2
    split at hdecode
    · cases hdecode
    · rename_i count p hcount
      obtain ⟨-, hdecode⟩ := refuseIf_bind_eq_ok.mp hdecode
      obtain ⟨⟨values, p'⟩, hvalues, hdecode⟩ := bind_eq_ok.mp hdecode
      obtain ⟨hend, hdecode⟩ := refuseIf_bind_eq_ok.mp hdecode
      cases hdecode
      obtain ⟨hclean, hempty⟩ : p'.err = false ∧ p'.b = [] := by simpa using hend
      obtain ⟨hbytes, hlength, hchecked, hsticky⟩ := checkedTimes_eq_ok takes_entry hvalues
      refine ⟨?_, checked_entries_iff.mp hchecked⟩
      obtain ⟨-, hnumber⟩ := takes_shortest _ _ _ hcount (hsticky hclean)
      rw [List.nil_append] at hnumber
      rw [hempty, List.append_nil] at hbytes
      rw [encodeApplicationSnapshot, hlength, UInt64.ofNat_toNat, ← hbytes, ← hnumber]
      exact List.cons_head?_tail hhead

theorem length_le_flatMap_appendEntry (entries : List (Bytes × Bytes)) :
    entries.length ≤ (entries.flatMap appendEntry).length := by
  induction entries with
  | nil => exact Nat.zero_le _
  | cons entry entries ih =>
    have hpos : 0 < (appendEntry entry).length := by
      have hlength := length_putUvarint_pos (UInt64.ofNat entry.1.length)
      rw [appendEntry, appendLengthBytes, List.length_append, List.length_append]
      omega
    rw [List.flatMap_cons, List.length_append, List.length_cons]
    omega

/-- Increasing entries of application state are decoded from their encoding. Assumes: their number
and the lengths of their slices are numbers of the source. -/
theorem decodeApplicationSnapshot_encodeApplicationSnapshot
    (hentries : SnapshotEntries entries) (hfits : Fits entries)
    (hslices : ∀ entry ∈ entries, Fits entry.1 ∧ Fits entry.2) :
    decodeApplicationSnapshot (encodeApplicationSnapshot entries) = .ok entries := by
  have hread : checkedTimes readEntry checkEntry KVError.malformedSnapshot entries.length none
      ⟨entries.flatMap appendEntry ++ [], false⟩ = .ok (entries, ⟨[], false⟩) :=
    checkedTimes_append
      (fun entry hentry ↦ reads_entry (hslices entry hentry).1 (hslices entry hentry).2)
      (checked_entries_iff.mpr hentries) []
  rw [List.append_nil] at hread
  have hnumber := reads_recordUvarint true (UInt64.ofNat entries.length)
    (entries.flatMap appendEntry)
  have hpos := length_putUvarint_pos (UInt64.ofNat entries.length)
  have hroom := length_le_flatMap_appendEntry entries
  rw [decodeApplicationSnapshot, if_neg]
  · rw [encodeApplicationSnapshot, List.tail_cons, hnumber]
    simp only [hfits.toNat_length]
    rw [refuseIf_bind, if_neg, hread]
    · rfl
    · rw [decide_eq_true_eq, List.length_cons, List.length_append]
      omega
  · simp only [encodeApplicationSnapshot, List.length_cons, List.length_append, List.head?_cons,
      bne_self_eq_false, Bool.or_false, decide_eq_true_eq]
    omega

/-! ### Texts and paths -/

/-- A byte after the first of a sequence. -/
def continuation (b : UInt8) : Bool := 0x80 ≤ b && b ≤ 0xBF

/-- Whether the second byte of a sequence of three may follow the first: no overlong spelling and no
surrogate. -/
def acceptThree (first second : UInt8) : Bool :=
  if first == 0xE0 then 0xA0 ≤ second && second ≤ 0xBF
  else if first == 0xED then 0x80 ≤ second && second ≤ 0x9F
  else 0xE1 ≤ first && first ≤ 0xEF && continuation second

/-- Whether the second byte of a sequence of four may follow the first: no overlong spelling and
nothing above the last code point. -/
def acceptFour (first second : UInt8) : Bool :=
  if first == 0xF0 then 0x90 ≤ second && second ≤ 0xBF
  else if first == 0xF4 then 0x80 ≤ second && second ≤ 0x8F
  else 0xF1 ≤ first && first ≤ 0xF3 && continuation second

/-- Whether bytes are a text in UTF-8. -/
def utf8Valid : Bytes → Bool
  | [] => true
  | b₀ :: rest =>
    if b₀ < 0x80 then utf8Valid rest
    else match rest with
      | [] => false
      | b₁ :: rest =>
        if 0xC2 ≤ b₀ && b₀ ≤ 0xDF then continuation b₁ && utf8Valid rest
        else match rest with
          | [] => false
          | b₂ :: rest =>
            if acceptThree b₀ b₁ then continuation b₂ && utf8Valid rest
            else match rest with
              | [] => false
              | b₃ :: rest =>
                acceptFour b₀ b₁ && continuation b₂ && continuation b₃ && utf8Valid rest

def slash : UInt8 := 47
def dot : UInt8 := 46

/-- The elements of a path that are left when `.` and empty elements are dropped and each `..` takes
the element before it away; above the root there is nothing. -/
def pathElements (rooted : Bool) (path : Bytes) : List Bytes :=
  (path.splitOn slash).foldl (fun elements element ↦
    if element = [] ∨ element = [dot] then elements
    else if element = [dot, dot] then
      if !elements.isEmpty && elements.getLast? != some [dot, dot] then elements.dropLast
      else if rooted then elements
      else elements ++ [element]
    else elements ++ [element]) []

/-- The shortest path that is lexically equivalent. -/
def pathClean (path : Bytes) : Bytes :=
  let rooted := path.head? == some slash
  let cleaned := (if rooted then [slash] else []) ++ [slash].intercalate (pathElements rooted path)
  if cleaned.isEmpty then [dot] else cleaned

/-! ### Checkpoint manifests -/

structure CheckpointManifestFile where
  path : Bytes
  size : UInt64
  digest : Wire.Digest
  deriving DecidableEq, Repr

structure CheckpointManifest where
  sourceIdentity : Bytes := []
  releaseChecksum : Bytes := []
  semanticDigest : Wire.Digest := .zero
  recordCount : UInt64 := 0
  appliedCount : UInt64 := 0
  hardStateDigest : Wire.Digest := .zero
  files : List CheckpointManifestFile := []
  checksum : Wire.Digest := .zero
  deriving DecidableEq, Repr

inductive CheckpointManifestError
  | malformed | malformedMagic | unknownVersion (version : UInt8) | checksumMismatch
  | invalidPath (path : Bytes) | duplicateEntry (path : Bytes) | unsortedEntries | trailingBytes
  deriving DecidableEq, Repr

/-- `CHECKPOINT-MANIFEST`. -/
def checkpointManifestName : Bytes :=
  [67, 72, 69, 67, 75, 80, 79, 73, 78, 84, 45, 77, 65, 78, 73, 70, 69, 83, 84]

/-- `KVCPMFST`. -/
def checkpointManifestMagic : Bytes := [75, 86, 67, 80, 77, 70, 83, 84]

def checkpointManifestVersion : UInt8 := 1
def checkpointManifestMaxSize : ℕ := 67108864
def checkpointManifestMaxFiles : ℕ := 1048576
def checkpointManifestMaxField : ℕ := 4096
def checkpointManifestChecksumSize : ℕ := 32

/-- Whether a source identity or a release checksum can be written. -/
def validateCheckpointMetadataField (value : Bytes) : Bool :=
  value.length ≤ checkpointManifestMaxField && utf8Valid value && !value.contains 0

def validateCheckpointRelativePath (relative : Bytes) : Bool :=
  !relative.isEmpty && relative.length ≤ checkpointManifestMaxField && relative != [dot] &&
    relative != checkpointManifestName && !relative.contains 92 && !relative.contains 0 &&
    utf8Valid relative && relative.head? != some slash && pathClean relative == relative &&
    relative != [dot, dot] && !([dot, dot, slash].isPrefixOf relative)

def checkpointAppendString (value : Bytes) : Bytes := bigEndian 4 value.length ++ value

def appendFile (file : CheckpointManifestFile) : Bytes :=
  checkpointAppendString file.path ++ bigEndian 8 file.size.toNat ++ file.digest.bytes

/-- The fields of a manifest between the version and the files. -/
def appendFields (manifest : CheckpointManifest) (fileCount : ℕ) : Bytes :=
  checkpointAppendString manifest.sourceIdentity ++
    checkpointAppendString manifest.releaseChecksum ++
    manifest.semanticDigest.bytes ++ bigEndian 8 manifest.recordCount.toNat ++
    bigEndian 8 manifest.appliedCount.toNat ++ manifest.hardStateDigest.bytes ++
    bigEndian 4 fileCount

/-- What the checksum of a manifest is taken of. -/
def CheckpointManifest.payload (manifest : CheckpointManifest) : Bytes :=
  checkpointManifestMagic ++ checkpointManifestVersion ::
    (appendFields manifest manifest.files.length ++ manifest.files.flatMap appendFile)

namespace ManifestParser

/-- The next bytes, or none of them with the parser failed. -/
def bytes (size : ℕ) : Reading (Option Bytes) := fun p ↦
  if p.err || p.b.length < size then some (none, { p with err := true })
  else some (some (p.b.take size), { p with b := p.b.drop size })

def uint32 : Reading ℕ := do
  let value ← bytes 4
  return (value.map ofBigEndian).getD 0

def uint64 : Reading UInt64 := do
  let value ← bytes 8
  return UInt64.ofNat ((value.map ofBigEndian).getD 0)

def digest : Reading Wire.Digest := do
  let value ← bytes 32
  return Wire.Digest.copy (value.getD [])

def string (maxLen : ℕ) : Reading Bytes := do
  let size ← uint32
  let p ← MonadState.get
  if p.err || maxLen < size then do
    raise
    return []
  else do
    let value ← bytes size
    match value with
    | none => do
      raise
      return []
    | some value =>
      if !utf8Valid value || value.contains 0 then do
        raise
        return []
      else return value

/-- The fields of a manifest without its files, and the number of files. -/
def fields : Reading (CheckpointManifest × ℕ) := do
  let sourceIdentity ← string checkpointManifestMaxField
  let releaseChecksum ← string checkpointManifestMaxField
  let semanticDigest ← digest
  let recordCount ← uint64
  let appliedCount ← uint64
  let hardStateDigest ← digest
  let fileCount ← uint32
  return (⟨sourceIdentity, releaseChecksum, semanticDigest, recordCount, appliedCount,
    hardStateDigest, [], .zero⟩, fileCount)

def file : Reading CheckpointManifestFile := do
  let path ← string checkpointManifestMaxField
  let size ← uint64
  let digest ← digest
  return ⟨path, size, digest⟩

end ManifestParser

/-- A file of a manifest has a valid path, above the one before it. -/
def checkFile (previous : Option CheckpointManifestFile) (file : CheckpointManifestFile) :
    Except CheckpointManifestError Unit := do
  refuseIf (!validateCheckpointRelativePath file.path) (.invalidPath file.path)
  refuseIf (previous.any fun before ↦ file.path == before.path) (.duplicateEntry file.path)
  refuseIf (previous.any fun before ↦ !bytesLess before.path file.path) .unsortedEntries

/-- The least number of bytes a file takes. -/
def minimumManifestFileEntry : ℕ := 4 + 8 + 32

/-- The length of a manifest without texts and files. -/
def minimumManifest : ℕ :=
  checkpointManifestMagic.length + 1 + 4 + 4 + 32 + 8 + 8 + 32 + 4 + checkpointManifestChecksumSize

section

variable (checkpointDigest : Bytes → Wire.Digest)

def encodeCheckpointManifest (manifest : CheckpointManifest) : Bytes :=
  manifest.payload ++ (checkpointDigest manifest.payload).bytes

/-- The fields and the files of a payload, after its magic number and its version. -/
def decodePayload (b : Bytes) : Except CheckpointManifestError CheckpointManifest :=
  match ManifestParser.fields.run ⟨b, false⟩ with
  | none => .error .malformed
  | some ((manifest, fileCount), p) => do
    refuseIf (p.err || checkpointManifestMaxFiles < fileCount ||
      p.b.length < fileCount * minimumManifestFileEntry) .malformed
    let (files, p) ← checkedTimes ManifestParser.file checkFile .malformed fileCount none p
    refuseIf (p.err || !p.b.isEmpty) .trailingBytes
    return { manifest with files := files }

def decodeCheckpointManifest (encoded : Bytes) :
    Except CheckpointManifestError CheckpointManifest := do
  refuseIf (encoded.length < minimumManifest || checkpointManifestMaxSize <
    encoded.length) .malformed
  refuseIf (encoded.take checkpointManifestMagic.length != checkpointManifestMagic) .malformedMagic
  let version := encoded.getD checkpointManifestMagic.length 0
  refuseIf (version != checkpointManifestVersion) (.unknownVersion version)
  let payload := encoded.take (encoded.length - checkpointManifestChecksumSize)
  let storedChecksum := Wire.Digest.copy (encoded.drop payload.length)
  refuseIf (checkpointDigest payload != storedChecksum) .checksumMismatch
  let manifest ← decodePayload (payload.drop (checkpointManifestMagic.length + 1))
  return { manifest with checksum := storedChecksum }

end

/-! ### What the parser of manifests accepts -/

theorem ofBigEndian_lt (b : Bytes) : ofBigEndian b < 256 ^ b.length := by
  induction b using List.reverseRecOn with
  | nil => decide
  | append_singleton b digit ih =>
    have hdigit := digit.toNat_lt
    rw [ofBigEndian_append, List.length_append, List.length_singleton, pow_succ]
    omega

theorem bigEndian_ofBigEndian (b : Bytes) : bigEndian b.length (ofBigEndian b) = b := by
  induction b using List.reverseRecOn with
  | nil => rfl
  | append_singleton b digit ih =>
    have hdigit := digit.toNat_lt
    have hhigh : ofBigEndian (b ++ [digit]) / 256 = ofBigEndian b := by
      rw [ofBigEndian_append]
      omega
    have hlow : UInt8.ofNat (ofBigEndian (b ++ [digit])) = digit := by
      apply UInt8.toNat_inj.mp
      rw [UInt8.toNat_ofNat', ofBigEndian_append]
      omega
    rw [List.length_append, List.length_singleton, bigEndian_succ, hhigh, hlow, ih]

theorem manifestBytes_run {r r' : Reader} {value : Option Bytes}
    (hrun : (ManifestParser.bytes size).run r = some (value, r')) (herr : r'.err = false) :
    ∃ b, value = some b ∧ b.length = size ∧ r.err = false ∧ r.b = b ++ r'.b := by
  change ManifestParser.bytes size r = _ at hrun
  rw [ManifestParser.bytes] at hrun
  split at hrun
  · cases hrun
    cases herr
  · rename_i hroom
    obtain ⟨hclean, hroom⟩ : r.err = false ∧ size ≤ r.b.length := by simpa using hroom
    cases hrun
    exact ⟨_, rfl, by rw [List.length_take, Nat.min_eq_left hroom], hclean,
      (List.take_append_drop size r.b).symm⟩

/-- A reading of a fixed number of bytes takes the encoding of what it makes of them. -/
theorem takes_manifestBytes {α : Type} {make : Option Bytes → α} {encode : α → Bytes}
    (hmake : ∀ b : Bytes, b.length = size → encode (make (some b)) = b) :
    Takes [] (ManifestParser.bytes size >>= fun value ↦ pure (make value)) encode := by
  intro r result r' hrun herr
  rw [StateT.run_bind] at hrun
  obtain ⟨⟨value, r₁⟩, hfirst, hsecond⟩ := Option.bind_eq_some_iff.mp hrun
  cases hsecond
  obtain ⟨b, rfl, hsize, hclean, hbytes⟩ := manifestBytes_run hfirst herr
  exact ⟨hclean, by rw [List.nil_append, hmake b hsize, hbytes]⟩

theorem takes_uint32 : Takes [] ManifestParser.uint32 (bigEndian 4) :=
  takes_manifestBytes fun b hsize ↦ by
    rw [← hsize]
    exact bigEndian_ofBigEndian b

theorem takes_uint64 : Takes [] ManifestParser.uint64 fun value ↦ bigEndian 8 value.toNat :=
  takes_manifestBytes fun b hsize ↦ by
    have hlt : ofBigEndian b < 2 ^ 64 := by
      have hlt := ofBigEndian_lt b
      rwa [hsize] at hlt
    rw [Option.map_some, Option.getD_some, UInt64.toNat_ofNat', Nat.mod_eq_of_lt hlt, ← hsize]
    exact bigEndian_ofBigEndian b

theorem takes_digest : Takes [] ManifestParser.digest Wire.Digest.bytes :=
  takes_manifestBytes fun _ hsize ↦ List.take_left' hsize

theorem takes_string (maxLen : ℕ) :
    Takes [] (ManifestParser.string maxLen) checkpointAppendString := by
  refine takes_uint32.bind fun size ↦ ?_
  intro r value r' hrun herr
  change (if r.err || maxLen < size then _ else _ : Reading Bytes).run r = _ at hrun
  split at hrun
  · cases hrun
    cases herr
  · rw [StateT.run_bind] at hrun
    obtain ⟨⟨read, r₁⟩, hfirst, hsecond⟩ := Option.bind_eq_some_iff.mp hrun
    cases read with
    | none =>
      cases hsecond
      cases herr
    | some b =>
      dsimp only at hsecond
      split at hsecond
      · cases hsecond
        cases herr
      · cases hsecond
        obtain ⟨_, heq, hsize, hclean, hbytes⟩ := manifestBytes_run hfirst herr
        cases heq
        exact ⟨hclean, by rw [List.nil_append, checkpointAppendString, hsize, hbytes,
          List.append_assoc]⟩

theorem takes_fields :
    Takes [] ManifestParser.fields fun result ↦ appendFields result.1 result.2 := by
  refine (takes_string _).bind fun sourceIdentity ↦ (takes_string _).bind fun releaseChecksum ↦ ?_
  refine takes_digest.bind fun semanticDigest ↦ takes_uint64.bind fun recordCount ↦ ?_
  refine takes_uint64.bind fun appliedCount ↦ takes_digest.bind fun hardStateDigest ↦ ?_
  exact takes_uint32.bind fun fileCount ↦ Takes.pure (by simp [appendFields])

theorem takes_file : Takes [] ManifestParser.file appendFile :=
  (takes_string _).bind fun _ ↦ takes_uint64.bind fun _ ↦ takes_digest.bind fun _ ↦ Takes.pure rfl

/-! ### What the parser of manifests reads back -/

theorem manifestBytes_append (hsize : b.length = size) :
    Reads (ManifestParser.bytes size) b (some b) := by
  intro rest
  have hroom : ¬ (b ++ rest).length < size := by
    rw [List.length_append, hsize]
    omega
  change ManifestParser.bytes size ⟨b ++ rest, false⟩ = _
  simp only [ManifestParser.bytes, decide_eq_false hroom, Bool.or_self,
    Bool.false_eq_true, if_false,
    List.take_left' hsize, List.drop_left' hsize]

theorem reads_uint32 {value : ℕ} (hvalue : value < 2 ^ 32) :
    Reads ManifestParser.uint32 (bigEndian 4 value) value := by
  have hread := (manifestBytes_append (length_bigEndian 4 value)).map
    fun b ↦ (b.map ofBigEndian).getD 0
  rwa [Option.map_some, Option.getD_some, ofBigEndian_bigEndian 4 value hvalue] at hread

theorem reads_uint64 (value : UInt64) :
    Reads ManifestParser.uint64 (bigEndian 8 value.toNat) value := by
  have hread := (manifestBytes_append (length_bigEndian 8 value.toNat)).map
    fun b ↦ UInt64.ofNat ((b.map ofBigEndian).getD 0)
  rwa [Option.map_some, Option.getD_some, ofBigEndian_bigEndian 8 _ value.toNat_lt,
    UInt64.ofNat_toNat] at hread

theorem reads_digest (digest : Wire.Digest) :
    Reads ManifestParser.digest digest.bytes digest := by
  have hread := (manifestBytes_append digest.length_eq).map fun b ↦ Wire.Digest.copy (b.getD [])
  rwa [Option.getD_some, Wire.Digest.copy_bytes] at hread

theorem reads_string {value : Bytes} (hvalue : validateCheckpointMetadataField value = true) :
    Reads (ManifestParser.string checkpointManifestMaxField)
      (checkpointAppendString value) value := by
  obtain ⟨⟨hlength, htext⟩, hzero⟩ :
      (value.length ≤ checkpointManifestMaxField ∧ utf8Valid value = true) ∧
        value.contains 0 = false := by simpa [validateCheckpointMetadataField] using hvalue
  have hsmall : value.length < 2 ^ 32 := hlength.trans_lt (by decide)
  refine (reads_uint32 hsmall).bind (Reads.get fun rest ↦ ?_)
  rw [if_neg (by simpa using hlength), StateT.run_bind, manifestBytes_append rfl rest]
  change (if !utf8Valid value || value.contains 0 then _ else _ : Reading Bytes).run _ = _
  rw [htext, hzero]
  rfl

theorem validateCheckpointMetadataField_of_path {path : Bytes}
    (hpath : validateCheckpointRelativePath path = true) :
    validateCheckpointMetadataField path = true := by
  simp only [validateCheckpointRelativePath, Bool.and_eq_true] at hpath
  simp only [validateCheckpointMetadataField, Bool.and_eq_true]
  tauto

theorem checkFile_eq_ok (previous : Option CheckpointManifestFile) (file : CheckpointManifestFile) :
    checkFile previous file = .ok () ↔ validateCheckpointRelativePath file.path = true ∧
      ∀ before ∈ previous, bytesLess before.path file.path = true := by
  rw [checkFile, refuseIf_bind_eq_ok, refuseIf_bind_eq_ok, refuseIf_eq_ok]
  cases previous with
  | none => simp
  | some before =>
    have hne : bytesLess before.path file.path = true → file.path ≠ before.path := by
      intro hless heq
      rw [heq] at hless
      exact lt_irrefl (StoreKey.mk before.path) (StoreKey.lt_iff.mpr hless)
    simp only [Option.any_some, Bool.not_eq_false', beq_eq_false_iff_ne, Option.mem_def,
      Option.some.injEq, forall_eq']
    tauto

/-- Files of a manifest: valid paths in increasing order. -/
structure ManifestFiles (files : List CheckpointManifestFile) : Prop where
  paths : ∀ file ∈ files, validateCheckpointRelativePath file.path = true
  increasing : files.Pairwise fun a b ↦ bytesLess a.path b.path = true

theorem checked_files_iff {files : List CheckpointManifestFile} :
    Checked checkFile none files ↔ ManifestFiles files := by
  rw [checked_iff checkFile_eq_ok fun _ _ _ ↦ bytesLess_trans]
  constructor
  · rintro ⟨hpaths, hincreasing, -⟩
    exact ⟨hpaths, hincreasing⟩
  · rintro ⟨hpaths, hincreasing⟩
    exact ⟨hpaths, hincreasing, fun _ h ↦ by cases h⟩

/-- A manifest within the limits of the decoder. -/
structure CheckpointManifest.Valid (manifest : CheckpointManifest) : Prop where
  sourceIdentity : validateCheckpointMetadataField manifest.sourceIdentity = true
  releaseChecksum : validateCheckpointMetadataField manifest.releaseChecksum = true
  files : ManifestFiles manifest.files
  count : manifest.files.length ≤ checkpointManifestMaxFiles
  size : manifest.payload.length + checkpointManifestChecksumSize ≤ checkpointManifestMaxSize

theorem reads_fields_of_valid {manifest : CheckpointManifest} (hvalid : manifest.Valid) :
    Reads ManifestParser.fields (appendFields manifest manifest.files.length)
      ({ manifest with files := [], checksum := .zero }, manifest.files.length) := by
  have hcount : manifest.files.length < 2 ^ 32 := hvalid.count.trans_lt (by decide)
  simp only [appendFields, List.append_assoc]
  exact (reads_string hvalid.sourceIdentity).bind ((reads_string hvalid.releaseChecksum).bind
    ((reads_digest manifest.semanticDigest).bind ((reads_uint64 manifest.recordCount).bind
      ((reads_uint64 manifest.appliedCount).bind ((reads_digest manifest.hardStateDigest).bind
        ((reads_uint32 hcount).map _))))))

theorem reads_file {file : CheckpointManifestFile}
    (hpath : validateCheckpointRelativePath file.path = true) :
    Reads ManifestParser.file (appendFile file) file := by
  rw [appendFile, List.append_assoc]
  exact (reads_string (validateCheckpointMetadataField_of_path hpath)).bind
    ((reads_uint64 file.size).bind ((reads_digest file.digest).map _))

/-! ### Both directions -/

variable {checkpointDigest : Bytes → Wire.Digest} {manifest : CheckpointManifest}

/-- A payload that is decoded is its manifest's, without the magic number and the version. -/
theorem decodePayload_eq_ok
    (hdecode : decodePayload b = .ok manifest) :
    b = appendFields manifest manifest.files.length ++ manifest.files.flatMap appendFile ∧
      ManifestFiles manifest.files := by
  rw [decodePayload] at hdecode
  split at hdecode
  · cases hdecode
  · rename_i header fileCount p hfields
    obtain ⟨-, hdecode⟩ := refuseIf_bind_eq_ok.mp hdecode
    obtain ⟨⟨files, p'⟩, hfiles, hdecode⟩ := bind_eq_ok.mp hdecode
    obtain ⟨hend, hdecode⟩ := refuseIf_bind_eq_ok.mp hdecode
    cases hdecode
    obtain ⟨hclean, hempty⟩ : p'.err = false ∧ p'.b = [] := by simpa using hend
    obtain ⟨hbytes, hlength, hchecked, hsticky⟩ := checkedTimes_eq_ok takes_file hfiles
    obtain ⟨-, hheader⟩ := takes_fields _ _ _ hfields (hsticky hclean)
    rw [hempty, List.append_nil] at hbytes
    refine ⟨?_, checked_files_iff.mp hchecked⟩
    rw [List.nil_append, hbytes, ← hlength] at hheader
    exact hheader

theorem length_appendFile (file : CheckpointManifestFile) :
    minimumManifestFileEntry ≤ (appendFile file).length := by
  simp only [appendFile, checkpointAppendString, List.length_append, length_bigEndian,
    file.digest.length_eq, minimumManifestFileEntry]
  omega

theorem length_flatMap_appendFile (files : List CheckpointManifestFile) :
    files.length * minimumManifestFileEntry ≤ (files.flatMap appendFile).length := by
  induction files with
  | nil => exact Nat.le_of_eq (Nat.zero_mul _)
  | cons file files ih =>
    have hfile := length_appendFile file
    rw [List.flatMap_cons, List.length_append, List.length_cons, Nat.succ_mul]
    omega

theorem decodePayload_append (hvalid : manifest.Valid) :
    decodePayload (appendFields manifest manifest.files.length ++
      manifest.files.flatMap appendFile) =
      .ok { manifest with checksum := .zero } := by
  have hfields := reads_fields_of_valid hvalid (manifest.files.flatMap appendFile)
  have hfiles : checkedTimes ManifestParser.file checkFile .malformed manifest.files.length none
      ⟨manifest.files.flatMap appendFile ++ [], false⟩ = .ok (manifest.files, ⟨[], false⟩) :=
    checkedTimes_append (fun file hfile ↦ reads_file (hvalid.files.paths file hfile))
      (checked_files_iff.mpr hvalid.files) []
  rw [List.append_nil] at hfiles
  have hroom := length_flatMap_appendFile manifest.files
  rw [decodePayload, hfields]
  dsimp only
  rw [refuseIf_bind, if_neg, hfiles]
  · rfl
  · have hcount := hvalid.count
    simp only [Bool.false_or, Bool.or_eq_true, decide_eq_true_eq]
    omega

theorem take_append_getD_drop {n : ℕ} (hn : n < b.length) :
    b.take n ++ b.getD n 0 :: b.drop (n + 1) = b := by
  rw [List.getD_eq_getElem b 0 hn, List.getElem_cons_drop, List.take_append_drop]

/-- A manifest that is decoded is encoded to the same bytes; its paths increase, and its checksum is
the one of its payload. -/
theorem decodeCheckpointManifest_eq_ok {encoded : Bytes}
    (hdecode : decodeCheckpointManifest checkpointDigest encoded = .ok manifest) :
    encodeCheckpointManifest checkpointDigest manifest = encoded ∧ ManifestFiles manifest.files ∧
      manifest.checksum = checkpointDigest manifest.payload := by
  rw [decodeCheckpointManifest] at hdecode
  obtain ⟨hlength, hdecode⟩ := refuseIf_bind_eq_ok.mp hdecode
  obtain ⟨hmagic, hdecode⟩ := refuseIf_bind_eq_ok.mp hdecode
  obtain ⟨hversion, hdecode⟩ := refuseIf_bind_eq_ok.mp hdecode
  obtain ⟨hchecksum, hdecode⟩ := refuseIf_bind_eq_ok.mp hdecode
  obtain ⟨decoded, hpayload, hdecode⟩ := bind_eq_ok.mp hdecode
  cases hdecode
  obtain ⟨hbytes, hfiles⟩ := decodePayload_eq_ok hpayload
  set payload := encoded.take (encoded.length - checkpointManifestChecksumSize) with hpayload_eq
  obtain ⟨hlong, -⟩ : minimumManifest ≤ encoded.length ∧
      encoded.length ≤ checkpointManifestMaxSize := by simpa using hlength
  have hlong : 133 ≤ encoded.length := hlong
  have hsize : payload.length = encoded.length - 32 := by
    rw [hpayload_eq, List.length_take, Nat.min_eq_left (Nat.sub_le _ _)]
    rfl
  have hfront : payload.take checkpointManifestMagic.length = checkpointManifestMagic := by
    rw [hpayload_eq, List.take_take, Nat.min_eq_left]
    · simpa using hmagic
    · change 8 ≤ encoded.length - 32
      omega
  have hmark : payload.getD checkpointManifestMagic.length 0 = checkpointManifestVersion := by
    rw [hpayload_eq, List.getD_eq_getElem?_getD, List.getElem?_take_of_lt,
      ← List.getD_eq_getElem?_getD]
    · simpa using hversion
    · change 8 < encoded.length - 32
      omega
  have hwhole : decoded.payload = payload := by
    have hcut : checkpointManifestMagic.length < payload.length := by
      rw [hsize]
      change 8 < encoded.length - 32
      omega
    have hsplit := take_append_getD_drop hcut
    rw [hfront, hmark, hbytes] at hsplit
    exact hsplit
  have hstored : checkpointDigest payload = Wire.Digest.copy (encoded.drop payload.length) := by
    simpa using hchecksum
  have hrest : (Wire.Digest.copy (encoded.drop payload.length)).bytes =
      encoded.drop payload.length := by
    refine List.take_left' ?_
    rw [List.length_drop, hsize]
    omega
  refine ⟨?_, hfiles, ?_⟩
  · change decoded.payload ++ (checkpointDigest decoded.payload).bytes = encoded
    rw [hwhole, hstored, hrest, hsize]
    exact List.take_append_drop (encoded.length - 32) encoded
  · change Wire.Digest.copy (encoded.drop payload.length) = checkpointDigest decoded.payload
    rw [hwhole, hstored]

theorem length_payload (manifest : CheckpointManifest) :
    minimumManifest ≤ manifest.payload.length + checkpointManifestChecksumSize := by
  have hsemantic := manifest.semanticDigest.length_eq
  have hhard := manifest.hardStateDigest.length_eq
  simp only [CheckpointManifest.payload, appendFields, checkpointAppendString, List.length_append,
    List.length_cons, length_bigEndian, minimumManifest]
  omega

/-- A manifest within the limits is decoded from its encoding, with its checksum filled in. -/
theorem decodeCheckpointManifest_encodeCheckpointManifest
    (hvalid : manifest.Valid) :
    decodeCheckpointManifest checkpointDigest (encodeCheckpointManifest checkpointDigest manifest) =
      .ok { manifest with checksum := checkpointDigest manifest.payload } := by
  have hdigest := (checkpointDigest manifest.payload).length_eq
  have hlength : (encodeCheckpointManifest checkpointDigest manifest).length =
      manifest.payload.length + checkpointManifestChecksumSize := by
    rw [encodeCheckpointManifest, List.length_append, hdigest]
    rfl
  have htake : (encodeCheckpointManifest checkpointDigest manifest).take
      ((encodeCheckpointManifest checkpointDigest manifest).length -
        checkpointManifestChecksumSize) = manifest.payload := by
    rw [hlength, Nat.add_sub_cancel, encodeCheckpointManifest]
    exact List.take_left
  have hdrop : (encodeCheckpointManifest checkpointDigest manifest).drop manifest.payload.length =
      (checkpointDigest manifest.payload).bytes := List.drop_left
  have hsmall := length_payload manifest
  have hlarge := hvalid.size
  rw [decodeCheckpointManifest, refuseIf_bind, if_neg, refuseIf_bind, if_neg, refuseIf_bind, if_neg]
  · simp only [htake, hdrop, Wire.Digest.copy_bytes]
    rw [refuseIf_bind, if_neg (by simp)]
    have hrest : manifest.payload.drop (checkpointManifestMagic.length + 1) =
        appendFields manifest manifest.files.length ++ manifest.files.flatMap appendFile := rfl
    rw [hrest, decodePayload_append hvalid]
    rfl
  · exact Bool.false_ne_true
  · exact Bool.false_ne_true
  · rw [hlength]
    simp only [Bool.or_eq_true, decide_eq_true_eq]
    omega

/-- Bundles and manifests are strict codecs. What is decoded is encoded to the same bytes, and its
keys or paths increase. Increasing entries of application state are decoded from their encoding, and
a manifest within the limits of the decoder is decoded from its encoding with its checksum filled
in.

Assumes: the entries of a bundle are slices of the source (`Fits`). -/
theorem storedCodecs_strict (checkpointDigest : Bytes → Wire.Digest) :
    (∀ bundle entries, decodeApplicationSnapshot bundle = .ok entries →
      encodeApplicationSnapshot entries = bundle ∧ SnapshotEntries entries) ∧
    (∀ entries, SnapshotEntries entries → Fits entries →
      (∀ entry ∈ entries, Fits entry.1 ∧ Fits entry.2) →
        decodeApplicationSnapshot (encodeApplicationSnapshot entries) = .ok entries) ∧
    (∀ encoded manifest, decodeCheckpointManifest checkpointDigest encoded = .ok manifest →
      encodeCheckpointManifest checkpointDigest manifest = encoded ∧ ManifestFiles manifest.files ∧
        manifest.checksum = checkpointDigest manifest.payload) ∧
    ∀ manifest : CheckpointManifest, manifest.Valid →
      decodeCheckpointManifest checkpointDigest
          (encodeCheckpointManifest checkpointDigest manifest) =
        .ok { manifest with checksum := checkpointDigest manifest.payload } :=
  ⟨fun _ _ ↦ decodeApplicationSnapshot_eq_ok,
    fun _ hentries hfits hslices ↦
      decodeApplicationSnapshot_encodeApplicationSnapshot hentries hfits hslices,
    fun _ _ ↦ decodeCheckpointManifest_eq_ok,
    fun _ ↦ decodeCheckpointManifest_encodeCheckpointManifest⟩

/-- A manifest of one file, `a`. -/
def sampleManifest : CheckpointManifest where
  sourceIdentity := [65]
  recordCount := 2
  files := [⟨[97], 3, .zero⟩]

/-- A bundle of a version and an applied instance, and a manifest of one file, both read back. -/
theorem storedCodecs_strict_sample :
    decodeApplicationSnapshot (encodeApplicationSnapshot [([100, 1], [2]), ([101, 97], [])]) =
        .ok [([100, 1], [2]), ([101, 97], [])] ∧
      decodeCheckpointManifest (fun _ ↦ .zero)
          (encodeCheckpointManifest (fun _ ↦ .zero) sampleManifest) = .ok sampleManifest :=
  ⟨(storedCodecs_strict fun _ ↦ .zero).2.1 _ ⟨by decide, by decide⟩ (by decide) (by decide),
    (storedCodecs_strict fun _ ↦ .zero).2.2.2 _
      ⟨by decide, by decide, ⟨by decide, by decide⟩, by decide, by decide +kernel⟩⟩

/-- The encoder of manifests writes any manifest. One whose checksum is not filled in is decoded
with it, and one whose source identity has a zero byte is refused. -/
theorem decodeCheckpointManifest_not_inverse :
    (ManifestFiles ({ } : CheckpointManifest).files ∧
      decodeCheckpointManifest (fun _ ↦ Wire.Digest.copy [1])
          (encodeCheckpointManifest (fun _ ↦ Wire.Digest.copy [1]) { }) =
        .ok { checksum := Wire.Digest.copy [1] } ∧
      ({ } : CheckpointManifest) ≠ { checksum := Wire.Digest.copy [1] }) ∧
    ManifestFiles ({ sourceIdentity := [0] } : CheckpointManifest).files ∧
      decodeCheckpointManifest (fun _ ↦ .zero)
          (encodeCheckpointManifest (fun _ ↦ .zero) { sourceIdentity := [0] }) =
        .error .malformed := by
  refine ⟨⟨⟨by decide, by decide⟩, by decide +kernel, by decide⟩, ⟨by decide, by decide⟩,
    by decide +kernel⟩

end MoreConsensus.KV
