import MoreConsensus.Conflicts.Queries
import MoreConsensus.Library.Canonical
import MoreConsensus.Library.Checks
import MoreConsensus.Message

/-!
# Footprints

A proposal brings the resources its command touches as points and spans in any order, and the node
makes them canonical (`epaxos/footprint.go`): points sorted and without repetitions, spans sorted
and merged where they overlap or meet, and no point inside a span. A footprint stands for a set of
keys (`Footprint.keys`). Making a footprint canonical keeps its keys, and canonical footprints
conflict when they share a key (`canonicalizeFootprint_exact`).
-/

set_option autoImplicit false

namespace MoreConsensus

open Library

variable {spans : List Span} {points : List Bytes} {f : Footprint}

/-! ### Making a footprint canonical -/

structure FootprintLimits where
  points : ℕ := 128
  spans : ℕ := 128
  bytes : ℕ := 2 ^ 20

def wireFootprintLimits : FootprintLimits := {}

def addBytes (limit total size : ℕ) : Except Err ℕ := do
  refuseIf (decide (limit < total + size)) .invalidFootprint
  return total + size

/-- The order of spans: by start, then by end. -/
def Span.rank (span : Span) : Bytes ×ₗ Bytes := toLex (span.start, span.stop)

/-- The loop that merges spans in order: the last span of the output is kept apart and extended as
long as the next one does not begin beyond its end. -/
def mergeSpansFrom (last : Span) : List Span → List Span
  | [] => [last]
  | span :: spans =>
    if bytesLess last.stop span.start then last :: mergeSpansFrom span spans
    else if bytesLess last.stop span.stop then mergeSpansFrom { last with stop := span.stop } spans
    else mergeSpansFrom last spans

def mergeSpans : List Span → List Span
  | [] => []
  | span :: spans => mergeSpansFrom span spans

/-- The loop that leaves out the points inside spans, with an index into the spans. -/
def filterPoints : List Span → List Bytes → List Bytes
  | _, [] => []
  | spans, point :: points =>
    let spans := spans.dropWhile fun span ↦ !bytesLess point span.stop
    match spans with
    | [] => point :: filterPoints spans points
    | span :: _ =>
      if span.covers point then filterPoints spans points else point :: filterPoints spans points

def canonicalizeFootprint (limits : FootprintLimits) (src : Footprint) (borrowCanonical : Bool) :
    Except Err Footprint := do
  refuseIf (decide (limits.points < src.points.length) ||
    decide (limits.spans < src.spans.length)) .invalidFootprint
  let total ← src.points.foldlM (fun total point ↦ addBytes limits.bytes total point.length) 0
  let _ ← src.spans.foldlM (fun total span ↦ do
    refuseIf (!bytesLess span.start span.stop) .invalidFootprint
    let total ← addBytes limits.bytes total span.start.length
    addBytes limits.bytes total span.stop.length) total
  refuseIf (!src.all && src.points.isEmpty && src.spans.isEmpty) .invalidFootprint
  if src.all then return { all := true }
  if footprintCanonical src && borrowCanonical then return src
  let points := sortedUnion src.points
  let spans := mergeSpans (src.spans.insertionSort fun first second ↦ first.rank ≤ second.rank)
  return { points := filterPoints spans points, spans := spans }

/-! ### Spans in order -/

/-- Nonempty spans in order with room between them. -/
structure Separated (spans : List Span) : Prop where
  proper : ∀ span ∈ spans, span.start < span.stop
  apart : spans.Pairwise fun span next ↦ span.stop < next.start

variable {span : Span} {point : Bytes} {limit total result : ℕ} {limits : FootprintLimits}
  {src : Footprint}

theorem Separated.tail (hspans : Separated (span :: spans)) :
    Separated spans :=
  ⟨fun other hother ↦ hspans.proper other (List.mem_cons_of_mem _ hother),
    (List.pairwise_cons.mp hspans.apart).2⟩

theorem Separated.dropWhile (hspans : Separated spans) (p : Span → Bool) :
    Separated (spans.dropWhile p) :=
  ⟨fun span hspan ↦ hspans.proper span ((List.dropWhile_sublist p).subset hspan),
    hspans.apart.sublist (List.dropWhile_sublist p)⟩

theorem spansCanonical_iff : spansCanonical spans = true ↔ Separated spans := by
  induction spans with
  | nil => exact iff_of_true rfl ⟨by simp, List.Pairwise.nil⟩
  | cons span spans ih =>
    cases spans with
    | nil =>
      rw [spansCanonical, bytesLess_eq, decide_eq_true_eq]
      exact ⟨fun hlt ↦ ⟨by simpa using hlt, List.pairwise_singleton _ _⟩,
        fun hspans ↦ hspans.proper span List.mem_cons_self⟩
    | cons next spans =>
      simp only [spansCanonical, bytesLess_eq, Bool.and_eq_true, decide_eq_true_eq, ih]
      constructor
      · rintro ⟨⟨⟨hproper, -⟩, hroom⟩, hrest⟩
        refine ⟨List.forall_mem_cons.mpr ⟨hproper, hrest.proper⟩,
          List.pairwise_cons.mpr ⟨fun other hother ↦ ?_, hrest.apart⟩⟩
        rcases List.mem_cons.mp hother with rfl | hlater
        · exact hroom
        · have hnext := hrest.proper next List.mem_cons_self
          exact (hroom.trans hnext).trans ((List.pairwise_cons.mp hrest.apart).1 other hlater)
      · intro hspans
        have hproper := hspans.proper span List.mem_cons_self
        have hroom := (List.pairwise_cons.mp hspans.apart).1 next List.mem_cons_self
        exact ⟨⟨⟨hproper, hproper.trans hroom⟩, hroom⟩, hspans.tail⟩

theorem pointsCanonical_iff :
    pointsCanonical points = true ↔ points.Pairwise (· < ·) := by
  rw [← List.isChain_iff_pairwise]
  induction points with
  | nil => exact iff_of_true rfl .nil
  | cons point points ih =>
    cases points with
    | nil => exact iff_of_true rfl (.singleton _)
    | cons next points =>
      rw [List.isChain_cons_cons, ← ih, pointsCanonical, bytesLess_eq, Bool.and_eq_true,
        decide_eq_true_eq]

/-! ### Points in spans -/

/-- Whether a point is in one of some spans. -/
def coveredBy (spans : List Span) (point : Bytes) : Bool := spans.any fun span ↦ span.covers point

theorem covers_iff :
    span.covers point = true ↔ span.start ≤ point ∧ point < span.stop := by
  rw [span.covers_eq, Bool.and_eq_true, decide_eq_true_eq, decide_eq_true_eq]

/-- Spans that end at or before a point do not have a later point. -/
theorem coveredBy_dropWhile (spans : List Span) {later : Bytes} (hle : point ≤ later) :
    coveredBy (spans.dropWhile fun span ↦ !bytesLess point span.stop) later =
      coveredBy spans later := by
  induction spans with
  | nil => rfl
  | cons span spans ih =>
    by_cases hpassed : point < span.stop
    · rw [List.dropWhile_cons_of_neg (by simpa [bytesLess_eq] using hpassed)]
    · have hmissed : span.covers later = false := by
        rw [← Bool.not_eq_true, covers_iff]
        exact fun hcovers ↦ hpassed (hle.trans_lt hcovers.2)
      rw [List.dropWhile_cons_of_pos (by simpa [bytesLess_eq] using hpassed), ih]
      simp [coveredBy, hmissed]

/-- A point before the end of the first span is in it or in none. -/
theorem Separated.coveredBy_cons
    (hspans : Separated (span :: spans)) (hlt : point < span.stop) :
    coveredBy (span :: spans) point = span.covers point := by
  have hrest : spans.any (fun other ↦ other.covers point) = false := by
    rw [List.any_eq_false]
    intro other hother hcovers
    have hroom := (List.pairwise_cons.mp hspans.apart).1 other hother
    exact absurd ((covers_iff.mp hcovers).1) (not_le.mpr (hlt.trans hroom))
  simp [coveredBy, hrest]

/-- What the loops over the points find at one point. -/
theorem Separated.at_point (hspans : Separated spans) (point : Bytes) :
    coveredBy spans point =
      match spans.dropWhile fun span ↦ !bytesLess point span.stop with
      | [] => false
      | span :: _ => span.covers point := by
  rw [← coveredBy_dropWhile spans le_rfl]
  cases hrest : spans.dropWhile fun span ↦ !bytesLess point span.stop with
  | nil => rfl
  | cons span rest =>
    have hfirst : (!bytesLess point span.stop) = false := by
      have hhead := List.head?_dropWhile_not (fun span : Span ↦ !bytesLess point span.stop) spans
      simpa [hrest] using hhead
    have hseparated := hspans.dropWhile fun span ↦ !bytesLess point span.stop
    rw [hrest] at hseparated
    exact hseparated.coveredBy_cons (by simpa [bytesLess_eq] using hfirst)

theorem scanPoints_iff (hspans : Separated spans)
    (hpoints : points.Pairwise (· < ·)) :
    scanPoints spans points = true ↔ ∀ point ∈ points, coveredBy spans point = false := by
  induction points generalizing spans with
  | nil => simp [scanPoints]
  | cons point points ih =>
    obtain ⟨hpoint, hrest⟩ := List.pairwise_cons.mp hpoints
    have htail := ih (hspans.dropWhile fun span ↦ !bytesLess point span.stop) hrest
    have hlater : (∀ later ∈ points, coveredBy (spans.dropWhile fun span ↦
        !bytesLess point span.stop) later = false) ↔
        ∀ later ∈ points, coveredBy spans later = false :=
      forall₂_congr fun later hmem ↦ by rw [coveredBy_dropWhile spans (hpoint later hmem).le]
    rw [List.forall_mem_cons, ← hlater, ← htail, hspans.at_point, scanPoints]
    cases spans.dropWhile fun span ↦ !bytesLess point span.stop with
    | nil => simp
    | cons span rest => simp

theorem filterPoints_eq (hspans : Separated spans)
    (hpoints : points.Pairwise (· < ·)) :
    filterPoints spans points = points.filter fun point ↦ !coveredBy spans point := by
  induction points generalizing spans with
  | nil => rfl
  | cons point points ih =>
    obtain ⟨hpoint, hrest⟩ := List.pairwise_cons.mp hpoints
    have htail := ih (hspans.dropWhile fun span ↦ !bytesLess point span.stop) hrest
    have hlater : (points.filter fun later ↦ !coveredBy (spans.dropWhile fun span ↦
        !bytesLess point span.stop) later) = points.filter fun later ↦ !coveredBy spans later :=
      List.filter_congr fun later hmem ↦ by rw [coveredBy_dropWhile spans (hpoint later hmem).le]
    rw [List.filter_cons, ← hlater, ← htail, hspans.at_point, filterPoints]
    cases spans.dropWhile fun span ↦ !bytesLess point span.stop with
    | nil => simp
    | cons span rest => cases hcovers : span.covers point <;> simp [hcovers]

/-- What a canonical footprint is. -/
theorem footprintCanonical_iff (hall : f.all = false) :
    footprintCanonical f = true ↔ (f.points ≠ [] ∨ f.spans ≠ []) ∧ Separated f.spans ∧
      f.points.Pairwise (· < ·) ∧ ∀ point ∈ f.points, coveredBy f.spans point = false := by
  have hempty : (!(f.points.isEmpty && f.spans.isEmpty)) = true ↔
      f.points ≠ [] ∨ f.spans ≠ [] := by
    rw [Bool.not_eq_true', Bool.and_eq_false_iff, List.isEmpty_eq_false_iff,
      List.isEmpty_eq_false_iff]
  rw [footprintCanonical, hall, if_neg (by simp), Bool.and_eq_true, Bool.and_eq_true,
    Bool.and_eq_true, hempty, spansCanonical_iff, pointsCanonical_iff, and_assoc, and_assoc]
  refine and_congr_right fun _ ↦ and_congr_right fun hspans ↦ and_congr_right fun hpoints ↦ ?_
  exact scanPoints_iff hspans hpoints

/-! ### Merged spans -/

/-- The keys of some spans. -/
def spanKeys (spans : List Span) : Set Bytes := {key | coveredBy spans key = true}

@[simp]
theorem mem_spanKeys {key : Bytes} :
    key ∈ spanKeys spans ↔ ∃ span ∈ spans, span.start ≤ key ∧ key < span.stop := by
  simp [spanKeys, coveredBy, List.any_eq_true, covers_iff]

theorem spanKeys_cons (span : Span) (spans : List Span) :
    spanKeys (span :: spans) = Set.Ico span.start span.stop ∪ spanKeys spans := by
  ext key
  simp

/-- The loop merges what does not begin beyond the span that it extends. -/
theorem mergeSpansFrom_spec {last : Span}
    (hproper : ∀ span ∈ last :: spans, span.start < span.stop)
    (hsorted : (last :: spans).Pairwise fun span next ↦ span.start ≤ next.start) :
    Separated (mergeSpansFrom last spans) ∧
      (∀ span ∈ mergeSpansFrom last spans, last.start ≤ span.start) ∧
        spanKeys (mergeSpansFrom last spans) = spanKeys (last :: spans) := by
  induction spans generalizing last with
  | nil =>
    exact ⟨⟨hproper, List.pairwise_singleton _ _⟩, by simp [mergeSpansFrom], rfl⟩
  | cons span spans ih =>
    obtain ⟨hlast, hspans⟩ := List.forall_mem_cons.mp hproper
    obtain ⟨hstarts, hrest⟩ := List.pairwise_cons.mp hsorted
    have hstart := hstarts span List.mem_cons_self
    rw [mergeSpansFrom]
    by_cases hroom : last.stop < span.start
    · rw [if_pos (by simpa [bytesLess_eq] using hroom)]
      obtain ⟨hseparated, hfrom, hkeys⟩ := ih hspans hrest
      refine ⟨⟨List.forall_mem_cons.mpr ⟨hlast, hseparated.proper⟩,
        List.pairwise_cons.mpr ⟨fun other hother ↦ ?_, hseparated.apart⟩⟩, ?_, ?_⟩
      · exact hroom.trans_le (hfrom other hother)
      · exact List.forall_mem_cons.mpr ⟨le_rfl, fun other hother ↦
          hstart.trans (hfrom other hother)⟩
      · rw [spanKeys_cons, hkeys, ← spanKeys_cons]
    · rw [if_neg (by simpa [bytesLess_eq] using hroom)]
      obtain ⟨hspan, hproper'⟩ := List.forall_mem_cons.mp hspans
      have hstarts' : ∀ other ∈ spans, last.start ≤ other.start := fun other hother ↦
        hstarts other (List.mem_cons_of_mem _ hother)
      have hrest' := (List.pairwise_cons.mp hrest).2
      by_cases hextends : last.stop < span.stop
      · rw [if_pos (by simpa [bytesLess_eq] using hextends)]
        have hlonger : ∀ other ∈ { last with stop := span.stop } :: spans,
            other.start < other.stop :=
          List.forall_mem_cons.mpr ⟨hlast.trans hextends, hproper'⟩
        obtain ⟨hseparated, hfrom, hkeys⟩ := ih hlonger
          (List.pairwise_cons.mpr ⟨hstarts', hrest'⟩)
        refine ⟨hseparated, hfrom, ?_⟩
        -- The two spans overlap or meet, so that the longer one has the keys of both.
        have hunion := Set.Ico_union_Ico' (not_lt.mp hroom) (hstart.trans hspan.le)
        rw [min_eq_left hstart, max_eq_right hextends.le] at hunion
        rw [hkeys, spanKeys_cons, spanKeys_cons, spanKeys_cons, ← Set.union_assoc, hunion]
      · rw [if_neg (by simpa [bytesLess_eq] using hextends)]
        obtain ⟨hseparated, hfrom, hkeys⟩ := ih
          (List.forall_mem_cons.mpr ⟨hlast, hproper'⟩)
          (List.pairwise_cons.mpr ⟨hstarts', hrest'⟩)
        refine ⟨hseparated, hfrom, ?_⟩
        have hinside : Set.Ico span.start span.stop ⊆ Set.Ico last.start last.stop :=
          Set.Ico_subset_Ico hstart (not_lt.mp hextends)
        rw [hkeys, spanKeys_cons, spanKeys_cons, spanKeys_cons, ← Set.union_assoc,
          Set.union_eq_self_of_subset_right hinside]

theorem mergeSpansFrom_eq {last : Span} (hspans : Separated (last :: spans)) :
    mergeSpansFrom last spans = last :: spans := by
  induction spans generalizing last with
  | nil => rfl
  | cons span spans ih =>
    have hroom := (List.pairwise_cons.mp hspans.apart).1 span List.mem_cons_self
    rw [mergeSpansFrom, if_pos (by simpa [bytesLess_eq] using hroom), ih hspans.tail]

/-- The bytes of a span. -/
def Span.size (span : Span) : ℕ := span.start.length + span.stop.length

theorem mergeSpansFrom_size (last : Span) (spans : List Span) :
    (mergeSpansFrom last spans).length ≤ (last :: spans).length ∧
      ((mergeSpansFrom last spans).map Span.size).sum ≤ ((last :: spans).map Span.size).sum := by
  induction spans generalizing last with
  | nil => exact ⟨le_rfl, le_rfl⟩
  | cons span spans ih =>
    rw [mergeSpansFrom]
    split_ifs
    · have hnext := ih span
      simp only [List.length_cons, List.map_cons, List.sum_cons] at hnext ⊢
      omega
    · have hnext := ih { last with stop := span.stop }
      simp only [List.length_cons, List.map_cons, List.sum_cons, Span.size] at hnext ⊢
      omega
    · have hnext := ih last
      simp only [List.length_cons, List.map_cons, List.sum_cons] at hnext ⊢
      omega

/-- The spans of a canonical form. -/
def mergedSpans (spans : List Span) : List Span :=
  mergeSpans (spans.insertionSort fun first second ↦ first.rank ≤ second.rank)

theorem mergedSpans_spec (hproper : ∀ span ∈ spans, span.start < span.stop) :
    Separated (mergedSpans spans) ∧ spanKeys (mergedSpans spans) = spanKeys spans := by
  have : Std.Total fun a b : Span ↦ a.rank ≤ b.rank := ⟨fun a b ↦ le_total a.rank b.rank⟩
  have : IsTrans Span fun a b ↦ a.rank ≤ b.rank := ⟨fun _ _ _ ↦ le_trans⟩
  have hperm := List.perm_insertionSort (fun a b : Span ↦ a.rank ≤ b.rank) spans
  have hsorted := List.pairwise_insertionSort (fun a b : Span ↦ a.rank ≤ b.rank) spans
  have hkeys : spanKeys (spans.insertionSort fun a b ↦ a.rank ≤ b.rank) = spanKeys spans := by
    ext key
    simp only [mem_spanKeys, hperm.mem_iff]
  have hproper' := fun span hspan ↦ hproper span (hperm.mem_iff.mp hspan)
  rw [← hkeys, mergedSpans]
  cases hlist : spans.insertionSort fun a b ↦ a.rank ≤ b.rank with
  | nil => exact ⟨⟨by simp [mergeSpans], List.Pairwise.nil⟩, rfl⟩
  | cons span rest =>
    rw [hlist] at hsorted hproper'
    obtain ⟨hseparated, -, hsame⟩ := mergeSpansFrom_spec hproper'
      (hsorted.imp fun hle ↦ Prod.Lex.monotone_fst _ _ hle)
    exact ⟨hseparated, hsame⟩

theorem mergedSpans_eq (hspans : Separated spans) :
    mergedSpans spans = spans := by
  have hsorted : spans.Pairwise fun a b ↦ a.rank ≤ b.rank := by
    refine (List.Pairwise.and_mem.mp hspans.apart).imp fun {a b} hroom ↦ ?_
    exact Prod.Lex.toLex_le_toLex.mpr (.inl ((hspans.proper a hroom.1).trans hroom.2.2))
  rw [mergedSpans, hsorted.insertionSort_eq]
  cases spans with
  | nil => rfl
  | cons span spans => exact mergeSpansFrom_eq hspans

theorem mergedSpans_size (spans : List Span) :
    (mergedSpans spans).length ≤ spans.length ∧
      ((mergedSpans spans).map Span.size).sum ≤ (spans.map Span.size).sum := by
  have hperm := List.perm_insertionSort (fun a b : Span ↦ a.rank ≤ b.rank) spans
  rw [← hperm.length_eq, ← (hperm.map Span.size).sum_eq, mergedSpans]
  cases spans.insertionSort fun a b ↦ a.rank ≤ b.rank with
  | nil => exact ⟨le_rfl, le_rfl⟩
  | cons span rest => exact mergeSpansFrom_size span rest

/-! ### The keys of a footprint -/

/-- The keys that a footprint covers. -/
def Footprint.keys (f : Footprint) : Set Bytes :=
  {key | f.all = true ∨ ∃ resource ∈ footprintResources f, key ∈ resource.keys}

theorem Footprint.keys_of_all (hall : f.all = true) : f.keys = Set.univ :=
  Set.eq_univ_of_forall fun _ ↦ Or.inl hall

theorem Footprint.mem_keys (hall : f.all = false) {key : Bytes} :
    key ∈ f.keys ↔ key ∈ f.points ∨ key ∈ spanKeys f.spans := by
  simp [Footprint.keys, hall, footprintResources, or_and_right, exists_or, Extent.keys]

/-- A footprint touches a resource when they share a key. Assumes: nothing is an empty span. -/
theorem Footprint.touches_iff (hall : f.all = false)
    (hspans : ∀ span ∈ f.spans, span.start < span.stop) {resource : Resource}
    (hproper : resource.Proper) :
    f.Touches resource ↔ (f.keys ∩ resource.keys).Nonempty := by
  constructor
  · rintro (⟨key, hkey, rfl | hcovers⟩ | ⟨span, hspan, hoverlaps⟩)
    · exact ⟨key, (mem_keys hall).mpr (.inl hkey), rfl⟩
    · exact ⟨key, (mem_keys hall).mpr (.inl hkey), (Extent.covers_iff.mp hcovers).2⟩
    · obtain ⟨key, hkey, hcovered⟩ := (Extent.overlaps_iff hproper (hspans span hspan)).mp hoverlaps
      exact ⟨key, (mem_keys hall).mpr (.inr (mem_spanKeys.mpr ⟨span, hspan, hcovered⟩)), hkey⟩
  · rintro ⟨key, hkey, hresource⟩
    rcases (mem_keys hall).mp hkey with hpoint | hspan
    · refine .inl ⟨key, hpoint, ?_⟩
      cases resource with
      | point other =>
        obtain rfl : key = other := hresource
        exact .inl rfl
      | span start stop => exact .inr (Extent.covers_iff.mpr ⟨rfl, hresource⟩)
    · obtain ⟨span, hspan, hcovered⟩ := mem_spanKeys.mp hspan
      exact .inr ⟨span, hspan,
        (Extent.overlaps_iff hproper (hspans span hspan)).mpr ⟨key, hresource, hcovered⟩⟩

theorem keys_nonempty (hcanonical : footprintCanonical f = true) :
    f.keys.Nonempty := by
  cases hall : f.all with
  | true =>
    rw [Footprint.keys_of_all hall]
    exact Set.univ_nonempty
  | false =>
    obtain ⟨hsome, hspans, -⟩ := (footprintCanonical_iff hall).mp hcanonical
    rcases hsome with hpoints | hnonempty
    · obtain ⟨point, hpoint⟩ := List.exists_mem_of_ne_nil _ hpoints
      exact ⟨point, (Footprint.mem_keys hall).mpr (.inl hpoint)⟩
    · obtain ⟨span, hspan⟩ := List.exists_mem_of_ne_nil _ hnonempty
      exact ⟨span.start, (Footprint.mem_keys hall).mpr
        (.inr (mem_spanKeys.mpr ⟨span, hspan, le_rfl, hspans.proper span hspan⟩))⟩

theorem conflict_iff_keys {f other : Footprint} (hf : footprintCanonical f = true)
    (hother : footprintCanonical other = true) :
    footprintsConflict f other = true ↔ (f.keys ∩ other.keys).Nonempty := by
  cases hall : f.all with
  | true =>
    rw [Footprint.keys_of_all hall, Set.univ_inter]
    exact iff_of_true (by simp [footprintsConflict, hall]) (keys_nonempty hother)
  | false =>
    cases hall' : other.all with
    | true =>
      rw [Footprint.keys_of_all hall', Set.inter_univ]
      exact iff_of_true (by simp [footprintsConflict, hall']) (keys_nonempty hf)
    | false =>
      obtain ⟨-, hspans, -⟩ := (footprintCanonical_iff hall).mp hf
      obtain ⟨-, hspans', -⟩ := (footprintCanonical_iff hall').mp hother
      have hproper : ∀ resource ∈ footprintResources other, resource.Proper := by
        simp only [footprintResources, List.mem_append, List.mem_map]
        rintro _ (⟨point, -, rfl⟩ | ⟨span, hspan, rfl⟩)
        · trivial
        · exact hspans'.proper span hspan
      rw [footprintsConflict_iff hall hall']
      constructor
      · rintro ⟨resource, hresource, htouches⟩
        obtain ⟨key, hkey, hin⟩ :=
          (Footprint.touches_iff hall hspans.proper (hproper resource hresource)).mp htouches
        exact ⟨key, hkey, .inr ⟨resource, hresource, hin⟩⟩
      · rintro ⟨key, hkey, hkey'⟩
        rcases hkey' with hwide | ⟨resource, hresource, hin⟩
        · exact absurd hwide (by simp [hall'])
        · exact ⟨resource, hresource,
            (Footprint.touches_iff hall hspans.proper (hproper resource hresource)).mpr
              ⟨key, hkey, hin⟩⟩

/-! ### Accepted footprints -/

/-- What the checks ask of a footprint. -/
structure Accepted (limits : FootprintLimits) (src : Footprint) : Prop where
  points : src.points.length ≤ limits.points
  spans : src.spans.length ≤ limits.spans
  bytes : (src.points.map List.length).sum + (src.spans.map Span.size).sum ≤ limits.bytes
  proper : ∀ span ∈ src.spans, span.start < span.stop
  nonempty : src.all = true ∨ src.points ≠ [] ∨ src.spans ≠ []

theorem addBytes_eq_ok {size : ℕ} :
    addBytes limit total size = .ok result ↔ total + size ≤ limit ∧ result = total + size := by
  rw [addBytes, refuseIf_bind_eq_ok, decide_eq_false_iff_not, not_lt]
  exact and_congr_right fun _ ↦ ⟨fun h ↦ (Except.ok.inj h).symm, fun h ↦ h ▸ rfl⟩

theorem addPoints_eq_ok (htotal : total ≤ limit) :
    points.foldlM (fun total point ↦ addBytes limit total point.length) total = .ok result ↔
      total + (points.map List.length).sum ≤ limit ∧
        result = total + (points.map List.length).sum := by
  induction points generalizing total with
  | nil =>
    rw [List.foldlM_nil, List.map_nil, List.sum_nil, Nat.add_zero]
    exact ⟨fun h ↦ ⟨htotal, (Except.ok.inj h).symm⟩, fun h ↦ h.2 ▸ rfl⟩
  | cons point points ih =>
    rw [List.foldlM_cons, bind_eq_ok, List.map_cons, List.sum_cons, ← Nat.add_assoc]
    constructor
    · rintro ⟨next, hnext, hrest⟩
      obtain ⟨hle, rfl⟩ := addBytes_eq_ok.mp hnext
      exact (ih hle).mp hrest
    · rintro ⟨hle, hresult⟩
      have hnext : total + point.length ≤ limit := (Nat.le_add_right _ _).trans hle
      exact ⟨_, addBytes_eq_ok.mpr ⟨hnext, rfl⟩, (ih hnext).mpr ⟨hle, hresult⟩⟩

theorem addSpans_eq_ok (htotal : total ≤ limit) :
    spans.foldlM (fun total span ↦ do
      refuseIf (!bytesLess span.start span.stop) Err.invalidFootprint
      let total ← addBytes limit total span.start.length
      addBytes limit total span.stop.length) total = .ok result ↔
      (∀ span ∈ spans, span.start < span.stop) ∧ total + (spans.map Span.size).sum ≤ limit ∧
        result = total + (spans.map Span.size).sum := by
  induction spans generalizing total with
  | nil =>
    rw [List.foldlM_nil, List.map_nil, List.sum_nil, Nat.add_zero]
    exact ⟨fun h ↦ ⟨by simp, htotal, (Except.ok.inj h).symm⟩, fun h ↦ h.2.2 ▸ rfl⟩
  | cons span spans ih =>
    rw [List.foldlM_cons, bind_eq_ok, List.map_cons, List.sum_cons, ← Nat.add_assoc,
      List.forall_mem_cons]
    constructor
    · rintro ⟨next, hnext, hrest⟩
      rw [refuseIf_bind_eq_ok, bind_eq_ok, bytesLess_eq, Bool.not_eq_false',
        decide_eq_true_eq] at hnext
      obtain ⟨hproper, middle, hmiddle, hnext⟩ := hnext
      obtain ⟨-, rfl⟩ := addBytes_eq_ok.mp hmiddle
      obtain ⟨hle, rfl⟩ := addBytes_eq_ok.mp hnext
      rw [Nat.add_assoc] at hrest hle
      obtain ⟨hspans, hbytes, hresult⟩ := (ih hle).mp hrest
      exact ⟨⟨hproper, hspans⟩, hbytes, hresult⟩
    · rintro ⟨⟨hproper, hspans⟩, hle, hresult⟩
      have hnext : total + span.size ≤ limit := (Nat.le_add_right _ _).trans hle
      have hmiddle : total + span.start.length ≤ limit := by
        rw [Span.size] at hnext
        omega
      refine ⟨total + span.size, ?_, (ih hnext).mpr ⟨hspans, hle, hresult⟩⟩
      rw [refuseIf_bind_eq_ok, bind_eq_ok, bytesLess_eq, Bool.not_eq_false', decide_eq_true_eq]
      refine ⟨hproper, _, addBytes_eq_ok.mpr ⟨hmiddle, rfl⟩, addBytes_eq_ok.mpr ?_⟩
      rw [Nat.add_assoc]
      exact ⟨hnext, rfl⟩

/-- The footprint with its points and spans in order. -/
def canonicalForm (src : Footprint) : Footprint :=
  { points := filterPoints (mergedSpans src.spans) (sortedUnion src.points),
    spans := mergedSpans src.spans }

section CanonicalForm

variable {src : Footprint} (hproper : ∀ span ∈ src.spans, span.start < span.stop)
include hproper

theorem points_canonicalForm :
    (canonicalForm src).points =
      (sortedUnion src.points).filter fun point ↦ !coveredBy (mergedSpans src.spans) point :=
  filterPoints_eq (mergedSpans_spec hproper).1 (pairwise_sortedUnion src.points)

theorem keys_canonicalForm (hall : src.all = false) : (canonicalForm src).keys = src.keys := by
  have hspans : spanKeys (canonicalForm src).spans = spanKeys src.spans :=
    (mergedSpans_spec hproper).2
  ext key
  rw [Footprint.mem_keys rfl, Footprint.mem_keys hall, points_canonicalForm hproper, hspans,
    List.mem_filter, mem_sortedUnion]
  have hcovered : coveredBy (mergedSpans src.spans) key = true ↔ key ∈ spanKeys src.spans := by
    rw [← (mergedSpans_spec hproper).2]
    exact Iff.rfl
  by_cases hkey : key ∈ spanKeys src.spans
  · simp [hkey]
  · have hoff : coveredBy (mergedSpans src.spans) key = false :=
      Bool.not_eq_true _ ▸ hcovered.not.mpr hkey
    simp [hkey, hoff]

theorem canonical_canonicalForm (hall : src.all = false)
    (hsome : src.points ≠ [] ∨ src.spans ≠ []) : footprintCanonical (canonicalForm src) = true := by
  refine (footprintCanonical_iff rfl).mpr
    ⟨?_, (mergedSpans_spec hproper).1, ?_, fun point hpoint ↦ ?_⟩
  · -- A footprint without points and spans would have no keys.
    by_contra hempty
    push Not at hempty
    have hkeys : (canonicalForm src).keys = ∅ := by
      ext key
      simp [Footprint.mem_keys (f := canonicalForm src) rfl, hempty.1, hempty.2]
    rw [keys_canonicalForm hproper hall] at hkeys
    rcases hsome with hpoints | hspans
    · obtain ⟨point, hpoint⟩ := List.exists_mem_of_ne_nil _ hpoints
      exact Set.notMem_empty point (hkeys ▸ (Footprint.mem_keys hall).mpr (.inl hpoint))
    · obtain ⟨span, hspan⟩ := List.exists_mem_of_ne_nil _ hspans
      exact Set.notMem_empty span.start (hkeys ▸ (Footprint.mem_keys hall).mpr
        (.inr (mem_spanKeys.mpr ⟨span, hspan, le_rfl, hproper span hspan⟩)))
  · rw [points_canonicalForm hproper]
    exact (pairwise_sortedUnion src.points).sublist List.filter_sublist
  · rw [points_canonicalForm hproper] at hpoint
    simpa [canonicalForm] using (List.mem_filter.mp hpoint).2

end CanonicalForm

/-- A canonical form is within the limits of what it was made from. -/
theorem Accepted.canonicalForm
    (haccepted : Accepted limits src) (hall : src.all = false) :
    Accepted limits (canonicalForm src) := by
  have hcanonical := canonical_canonicalForm haccepted.proper hall
    (by simpa [hall] using haccepted.nonempty)
  obtain ⟨hsome, hspans, -⟩ := (footprintCanonical_iff rfl).mp hcanonical
  obtain ⟨hlength, hsize⟩ := mergedSpans_size src.spans
  -- The points that are kept are in order among the sorted points.
  have hsublist : (MoreConsensus.canonicalForm src).points.Sublist
      (src.points.insertionSort (· ≤ ·)) := by
    rw [points_canonicalForm haccepted.proper]
    exact List.filter_sublist.trans (sortedUnion_sublist src.points)
  have hperm := List.perm_insertionSort (· ≤ ·) src.points
  have hpoints : ((MoreConsensus.canonicalForm src).points.map List.length).sum ≤
      (src.points.map List.length).sum := by
    rw [← (hperm.map List.length).sum_eq]
    exact (hsublist.map List.length).sum_le_sum fun _ _ ↦ Nat.zero_le _
  exact {
    points := (hsublist.length_le.trans_eq hperm.length_eq).trans haccepted.points
    spans := hlength.trans haccepted.spans
    bytes := (Nat.add_le_add hpoints hsize).trans haccepted.bytes
    proper := hspans.proper
    nonempty := .inr hsome }

theorem canonicalForm_eq (hall : src.all = false)
    (hcanonical : footprintCanonical src = true) : canonicalForm src = src := by
  obtain ⟨-, hspans, hpoints, huncovered⟩ := (footprintCanonical_iff hall).mp hcanonical
  have hkept : filterPoints src.spans src.points = src.points := by
    rw [filterPoints_eq hspans hpoints, List.filter_eq_self]
    exact fun point hpoint ↦ by rw [huncovered point hpoint, Bool.not_false]
  obtain ⟨points, spans, all⟩ := src
  obtain rfl : all = false := hall
  rw [canonicalForm, mergedSpans_eq hspans, sortedUnion_of_pairwise hpoints, hkept]

/-- Whether a canonical footprint is copied or not makes no difference to its contents. -/
theorem canonicalizeFootprint_eq_ok {dst : Footprint}
    {borrow : Bool} :
    canonicalizeFootprint limits src borrow = .ok dst ↔ Accepted limits src ∧
      dst = if src.all then { all := true } else canonicalForm src := by
  have hform : (if src.all then (pure { all := true } : Except Err Footprint)
      else if footprintCanonical src && borrow then pure src
      else pure (canonicalForm src)) = .ok dst ↔
      dst = if src.all then { all := true } else canonicalForm src := by
    cases hall : src.all with
    | true => exact ⟨fun h ↦ (Except.ok.inj h).symm, fun h ↦ h ▸ rfl⟩
    | false =>
      simp only [Bool.false_eq_true, if_false]
      by_cases hborrow : (footprintCanonical src && borrow) = true
      · have hcanonical := (Bool.and_eq_true _ _ ▸ hborrow).1
        rw [if_pos hborrow, canonicalForm_eq hall hcanonical]
        exact ⟨fun h ↦ (Except.ok.inj h).symm, fun h ↦ h ▸ rfl⟩
      · rw [if_neg hborrow]
        exact ⟨fun h ↦ (Except.ok.inj h).symm, fun h ↦ h ▸ rfl⟩
  rw [← hform, canonicalizeFootprint, refuseIf_bind_eq_ok, Bool.or_eq_false_iff,
    decide_eq_false_iff_not, decide_eq_false_iff_not, not_lt, not_lt]
  have hsome : refuseIf (!src.all && src.points.isEmpty && src.spans.isEmpty)
      Err.invalidFootprint = .ok () ↔ src.all = true ∨ src.points ≠ [] ∨ src.spans ≠ [] := by
    rw [refuseIf_eq_ok, Bool.and_eq_false_iff, Bool.and_eq_false_iff, Bool.not_eq_false',
      List.isEmpty_eq_false_iff, List.isEmpty_eq_false_iff, or_assoc]
  constructor
  · rintro ⟨⟨hpoints, hspans⟩, hrest⟩
    obtain ⟨total, htotal, hrest⟩ := bind_eq_ok.mp hrest
    obtain ⟨hle, rfl⟩ := (addPoints_eq_ok (Nat.zero_le _)).mp htotal
    obtain ⟨bytes, hbytes, hrest⟩ := bind_eq_ok.mp hrest
    obtain ⟨hproper, hbytes, -⟩ := (addSpans_eq_ok hle).mp hbytes
    obtain ⟨hcheck, hresult⟩ := unit_bind_eq_ok.mp hrest
    rw [Nat.zero_add] at hbytes
    exact ⟨⟨hpoints, hspans, hbytes, hproper, hsome.mp hcheck⟩, hresult⟩
  · rintro ⟨haccepted, hresult⟩
    have hle : 0 + (src.points.map List.length).sum ≤ limits.bytes := by
      rw [Nat.zero_add]
      exact (Nat.le_add_right _ _).trans haccepted.bytes
    refine ⟨⟨haccepted.points, haccepted.spans⟩,
      bind_eq_ok.mpr ⟨_, (addPoints_eq_ok (Nat.zero_le _)).mpr ⟨hle, rfl⟩, bind_eq_ok.mpr ⟨_,
        (addSpans_eq_ok hle).mpr ⟨haccepted.proper, ?_, rfl⟩,
        unit_bind_eq_ok.mpr ⟨hsome.mpr haccepted.nonempty, hresult⟩⟩⟩⟩
    rw [Nat.zero_add]
    exact haccepted.bytes

theorem footprintCanonical_of_canonicalizeFootprint
    {dst : Footprint} {borrow : Bool}
    (hcanonicalize : canonicalizeFootprint limits src borrow = .ok dst) :
    footprintCanonical dst = true := by
  obtain ⟨haccepted, hdst⟩ := canonicalizeFootprint_eq_ok.mp hcanonicalize
  cases hall : src.all with
  | true =>
    obtain rfl : dst = { all := true } := by simpa [hall] using hdst
    rfl
  | false =>
    obtain rfl : dst = canonicalForm src := by simpa [hall] using hdst
    exact canonical_canonicalForm haccepted.proper hall (by simpa [hall] using haccepted.nonempty)

/-- The result of a footprint that was accepted is canonical, stays as it is when it is made
canonical once more, and covers the same keys; canonical footprints conflict when they share a key.
Assumes: `canonicalizeFootprint` accepted the footprint. -/
theorem canonicalizeFootprint_exact {limits : FootprintLimits} {src dst : Footprint} {borrow : Bool}
    (hcanonicalize : canonicalizeFootprint limits src borrow = .ok dst) :
    footprintCanonical dst = true ∧
      (∀ again, canonicalizeFootprint limits dst again = .ok dst) ∧ dst.keys = src.keys ∧
        ∀ f other, footprintCanonical f = true → footprintCanonical other = true →
          (footprintsConflict f other = true ↔ (f.keys ∩ other.keys).Nonempty) := by
  obtain ⟨haccepted, hdst⟩ := canonicalizeFootprint_eq_ok.mp hcanonicalize
  have hconflict : ∀ f other, footprintCanonical f = true → footprintCanonical other = true →
      (footprintsConflict f other = true ↔ (f.keys ∩ other.keys).Nonempty) :=
    fun f other hf hother ↦ conflict_iff_keys hf hother
  have hcanonical := footprintCanonical_of_canonicalizeFootprint hcanonicalize
  simp only [canonicalizeFootprint_eq_ok]
  cases hall : src.all with
  | true =>
    obtain rfl : dst = { all := true } := by simpa [hall] using hdst
    refine ⟨hcanonical, fun _ ↦ ⟨?_, rfl⟩, ?_, hconflict⟩
    · exact ⟨Nat.zero_le _, Nat.zero_le _, Nat.zero_le _, by simp, .inl rfl⟩
    · rw [Footprint.keys_of_all hall, Footprint.keys_of_all rfl]
  | false =>
    obtain rfl : dst = canonicalForm src := by simpa [hall] using hdst
    refine ⟨hcanonical, fun _ ↦ ⟨haccepted.canonicalForm hall, ?_⟩,
      keys_canonicalForm haccepted.proper hall, hconflict⟩
    exact (canonicalForm_eq rfl hcanonical).symm

/-- Two spans that meet become one, and a point inside it is left out. -/
theorem canonicalizeFootprint_exact_meeting :
    ({ points := [[9]], spans := [⟨[1], [7]⟩] } : Footprint).keys =
      ({ points := [[9], [4], [9]], spans := [⟨[4], [7]⟩, ⟨[1], [4]⟩] } : Footprint).keys :=
  (@canonicalizeFootprint_exact wireFootprintLimits _ _ false (by decide +kernel)).2.2.1

end MoreConsensus
