import CallGraph.Proofs.Build.Round

namespace CallGraph

namespace Inquiry

variable {σ ε : Type}

/-- One question after the other is answered, each with the token that is read
for its unit. -/
inductive Answers (ask : Inquiry σ ε VersionToken) :
    σ → List UnitVersion → σ → Prop
  | done (state : σ) : Answers ask state [] state
  | next {source : SourceUnit} {token : VersionToken} {start state last : σ}
      {rest : List UnitVersion}
      (hanswer : ask source start = (state, .ok token))
      (hrest : Answers ask state rest last) :
      Answers ask start (⟨source, token⟩ :: rest) last

/-- The units up to `source` are answered for, and the question about `source`
fails.  Nothing is asked behind it. -/
def StopsAt (ask : Inquiry σ ε VersionToken) (sources : List SourceUnit)
    (start : σ) (reason : ε) (last : σ) : Prop :=
  ∃ read source unasked state,
    sources = read.map UnitVersion.source ++ source :: unasked ∧
      Answers ask start read state ∧ ask source state = (last, .error reason)

end Inquiry

open Inquiry (Answers StopsAt)

variable {σ ε : Type} {ask : Inquiry σ ε VersionToken}

theorem readVersions_asks (sources : List SourceUnit) (read : VersionMap)
    (start : σ) :
    match readVersions ask sources read start with
    | (last, .error reason) => StopsAt ask sources start reason last
    | (last, .ok versions) => ∃ reads : List UnitVersion,
        Answers ask start reads last ∧ reads.map UnitVersion.source = sources ∧
          versions = read.putAll reads := by
  induction sources generalizing read start with
  | nil => exact ⟨[], .done start, rfl, rfl⟩
  | cons source rest ih =>
      unfold readVersions
      cases hask : ask source start with
      | mk state answer =>
          cases answer with
          | error reason =>
              exact ⟨[], source, rest, start, rfl, .done start, hask⟩
          | ok token =>
              have hrest := ih (read.put ⟨source, token⟩) state
              dsimp only
              split at hrest
              · rename_i last reason _
                obtain ⟨reads, failing, unasked, middle, hsources, hanswers,
                  hfails⟩ := hrest
                exact ⟨⟨source, token⟩ :: reads, failing, unasked, middle,
                  congrArg (source :: ·) hsources, .next hask hanswers, hfails⟩
              · rename_i last versions _
                obtain ⟨reads, hanswers, hsources, hversions⟩ := hrest
                exact ⟨⟨source, token⟩ :: reads, .next hask hanswers,
                  congrArg (source :: ·) hsources, hversions⟩

theorem Edge.touches_iff {edge : Edge} {source : SourceUnit} :
    edge.touches source = true ↔
      edge.caller.source = source ∨ edge.callee.source = source := by
  simp [touches]

theorem KeyedSet.entries_putAll_empty {α κ : Type} [Keyed α κ] [KeyOrder κ]
    {entries : List α} (hentries : Ascending entries) :
    (KeyedSet.putAll ∅ entries : KeyedSet α).entries = entries := by
  apply Ascending.eq_of_mem_iff (KeyedSet.ascending _) hentries
  intro entry
  have hmem : entry ∈ (∅ : KeyedSet α).putAll entries ↔ _ :=
    mem_putAll (hentries.imp key_ne_of_before)
  rw [← mem_def, hmem]
  exact or_iff_left fun hnone => not_mem_empty hnone.1

theorem ascending_of_sources {units : UnitSet} {reads : List UnitVersion}
    (hsources : reads.map UnitVersion.source = units.entries) :
    KeyedSet.Ascending reads := by
  have hunits := units.ascending
  rw [← hsources, List.pairwise_map] at hunits
  exact hunits

namespace Build.Plan

variable (baseline : Snapshot) (units : UnitSet) (versions : VersionMap)
  (source : SourceUnit)

def IsNew : Prop := baseline.versions.token? source = none

def HasOtherToken : Prop :=
  ∃ seen token, baseline.versions.token? source = some seen ∧
    versions.token? source = some token ∧ token ≠ seen

def IsGone : Prop :=
  source ∉ units ∧ ∃ seen, baseline.versions.token? source = some seen

def FailedBefore : Prop :=
  source ∈ baseline.failed ∧ ∃ seen, baseline.versions.token? source = some seen

/-- The unit is still enumerated, has its previous token and has not failed. -/
def IsUntouched : Prop :=
  source ∈ units ∧ versions.token? source = baseline.versions.token? source ∧
    source ∉ baseline.failed

/-- The edges of a unit that is gone, has moved or has failed are not trusted
any more. -/
def IsSuspect : Prop :=
  IsGone baseline units source ∨ HasOtherToken baseline versions source ∨
    source ∈ baseline.failed

/-- The plan keeps and extracts what it should, and nothing else. -/
structure IsExact (plan : Plan) : Prop where
  kept : ∀ edge, edge ∈ plan.invalidation.valid ↔
    edge ∈ baseline.edges ∧
      IsUntouched baseline units versions edge.caller.source ∧
      IsUntouched baseline units versions edge.callee.source
  parted : (plan.invalidation.stale.entries ++
    plan.invalidation.valid.entries).Perm baseline.edges.entries
  extracted : ∀ source, source ∈ plan.invalidation.reparse ↔
    source ∈ units ∧
      (IsNew baseline source ∨ HasOtherToken baseline versions source ∨
        FailedBefore baseline source ∨
        ∃ edge ∈ baseline.edges, edge.touches source = true ∧
          ∃ other, edge.touches other = true ∧
            IsSuspect baseline units versions other)

variable {baseline : Snapshot} {units : UnitSet} {versions : VersionMap}
  {source : SourceUnit}

theorem isNew_iff :
    IsNew baseline source ↔ baseline.versions.records source = false := by
  rw [IsNew, Option.eq_none_iff_forall_ne_some, ← Bool.not_eq_true,
    VersionMap.records_iff, not_exists]
  exact forall_congr' fun token => not_congr VersionMap.token?_eq_some_iff

theorem records_iff_token? :
    versions.records source = true ↔
      ∃ token, versions.token? source = some token := by
  simp only [VersionMap.records_iff, VersionMap.token?_eq_some_iff]

section Enumerated

variable (hunits : ∀ source, versions.records source = true ↔ source ∈ units)
include hunits

theorem contains_invalidated_iff :
    (ChangeSet.between baseline.versions baseline.failed
        versions).invalidated.contains source = true ↔
      baseline.versions.records source = true ∧
        IsSuspect baseline units versions source := by
  rw [ChangeSet.contains_invalidated, ChangeSet.mem_changed,
    ChangeSet.mem_removed, ← Bool.not_eq_true, hunits, IsSuspect, IsGone,
    HasOtherToken]
  simp only [← VersionMap.token?_eq_some_iff, records_iff_token?] at *
  have hread := hunits source
  grind

theorem isUntouched_iff (hrecorded : baseline.versions.records source = true) :
    IsUntouched baseline units versions source ↔
      ¬IsSuspect baseline units versions source := by
  obtain ⟨seen, hseen⟩ := records_iff_token?.mp hrecorded
  have hread := (hunits source).symm.trans records_iff_token?
  unfold IsUntouched IsSuspect IsGone HasOtherToken
  rw [hseen, hread]
  grind

/-- What makes an enumerated unit be extracted for its own sake. -/
theorem mem_added_or_invalidated_iff (hsource : source ∈ units) :
    source ∈ (ChangeSet.between baseline.versions baseline.failed
        versions).added ∨
      source ∈ (ChangeSet.between baseline.versions baseline.failed
        versions).invalidated ↔
      IsNew baseline source ∨ HasOtherToken baseline versions source ∨
        FailedBefore baseline source := by
  have hinvalidated : source ∈ (ChangeSet.between baseline.versions
      baseline.failed versions).invalidated ↔ _ :=
    SourceUnit.contains_iff_mem.symm.trans (contains_invalidated_iff hunits)
  rw [ChangeSet.mem_added, hunits, hinvalidated, isNew_iff]
  unfold IsSuspect IsGone HasOtherToken FailedBefore
  rw [records_iff_token?]
  grind

end Enumerated

section Exact

variable (hbaseline : baseline.isSelfConsistent = true)
include hbaseline

theorem records_of_touches {edge : Edge} (hedge : edge ∈ baseline.edges)
    (htouches : edge.touches source = true) :
    baseline.versions.records source = true := by
  have hcovers := Snapshot.covers_iff.mp
    (Snapshot.isSelfConsistent_iff.mp hbaseline edge hedge)
  rcases Edge.touches_iff.mp htouches with rfl | rfl
  · exact hcovers.1
  · exact hcovers.2

variable (hunits : ∀ source, versions.records source = true ↔ source ∈ units)
include hunits

theorem contains_invalidated_of_touches {edge : Edge}
    (hedge : edge ∈ baseline.edges) (htouches : edge.touches source = true) :
    (ChangeSet.between baseline.versions baseline.failed
        versions).invalidated.contains source = true ↔
      IsSuspect baseline units versions source :=
  (contains_invalidated_iff hunits).trans
    (and_iff_right (records_of_touches hbaseline hedge htouches))

theorem mem_valid_iff {edge : Edge} :
    edge ∈ (against baseline units versions).invalidation.valid ↔
      edge ∈ baseline.edges ∧
        IsUntouched baseline units versions edge.caller.source ∧
        IsUntouched baseline units versions edge.callee.source := by
  refine Invalidation.mem_valid.trans (and_congr_right fun hedge => ?_)
  have huntouched : ∀ source, edge.touches source = true →
      ((ChangeSet.between baseline.versions baseline.failed
          versions).invalidated.contains source = false ↔
        IsUntouched baseline units versions source) := by
    intro source htouches
    have hsuspect :=
      contains_invalidated_of_touches hbaseline hunits hedge htouches
    rw [isUntouched_iff hunits (records_of_touches hbaseline hedge htouches),
      ← hsuspect, Bool.not_eq_true]
  exact and_congr (huntouched _ (Edge.touches_iff.mpr (Or.inl rfl)))
    (huntouched _ (Edge.touches_iff.mpr (Or.inr rfl)))

theorem mem_stale_iff {edge : Edge} :
    edge ∈ (against baseline units versions).invalidation.stale ↔
      edge ∈ baseline.edges ∧ ∃ other, edge.touches other = true ∧
        IsSuspect baseline units versions other := by
  refine Invalidation.mem_stale.trans (and_congr_right fun hedge => ?_)
  have hsuspect := fun source (htouches : edge.touches source = true) =>
    contains_invalidated_of_touches hbaseline hunits hedge htouches
  rw [Invalidation.isStale_iff,
    hsuspect _ (Edge.touches_iff.mpr (Or.inl rfl)),
    hsuspect _ (Edge.touches_iff.mpr (Or.inr rfl))]
  simp only [Edge.touches_iff, or_and_right, exists_or, exists_eq_left']

theorem against_isExact :
    (against baseline units versions).IsExact baseline units versions where
  kept _ := mem_valid_iff hbaseline hunits
  parted := List.filter_append_perm _ _
  extracted source := by
    refine Invalidation.mem_reparse.trans (and_congr_right fun hsource => ?_)
    rw [mem_added_or_invalidated_iff hunits hsource, or_comm, or_assoc,
      or_assoc]
    refine or_congr_right (or_congr_right (or_congr_right ?_))
    refine exists_congr fun edge => ?_
    apply (and_congr_left' (mem_stale_iff hbaseline hunits)).trans
    rw [and_assoc, and_comm (b := edge.touches source = true)]

end Exact

/-- The tokens are read in ascending order, once for each enumerated unit, up to
the first that cannot be read.  When all of them are read the plan is the one
that they and the baseline call for. -/
theorem asked_isExact (hbaseline : baseline.isSelfConsistent = true)
    (ask : Inquiry σ ε VersionToken) (units : UnitSet) (start : σ) :
    units.entries.Pairwise (fun first second => first.path < second.path) ∧
      match readVersions ask units.entries ∅ start with
      | (last, .error reason) =>
          ask.StopsAt units.entries start reason last
      | (last, .ok versions) =>
          ask.Answers start versions.entries last ∧
            versions.entries.map UnitVersion.source = units.entries ∧
            (against baseline units versions).IsExact baseline units
              versions := by
  refine ⟨units.ascending.imp of_decide_eq_true, ?_⟩
  have hasks := @readVersions_asks _ _ ask units.entries ∅ start
  split at hasks
  · exact hasks
  · rename_i last versions _
    obtain ⟨reads, hanswers, hsources, hversions⟩ := hasks
    have hentries : versions.entries = reads := by
      rw [hversions]
      exact KeyedSet.entries_putAll_empty (ascending_of_sources hsources)
    rw [← hentries] at hanswers hsources
    refine ⟨hanswers, hsources, against_isExact hbaseline fun source => ?_⟩
    rw [VersionMap.records_iff, KeyedSet.mem_def, ← hsources, List.mem_map]
    constructor
    · rintro ⟨token, hmem⟩
      exact ⟨⟨source, token⟩, hmem, rfl⟩
    · rintro ⟨version, hmem, rfl⟩
      exact ⟨version.token, hmem⟩

end Build.Plan

/-! Seven units are enumerated.  `A` has an edge to itself and one to `B`, which
has moved; `C` failed and has the token it had, and calls `F`; `D` is gone and
was called by `E`; `G` stands for itself, and `N` is new. -/

namespace Sample

def standing (word : UInt64) (path : String) : Method :=
  ⟨⟨word⟩, ⟨path⟩, "T", "m", []⟩

def agedSnapshot : Snapshot where
  generation := 4
  edges := KeyedSet.ofList
    [⟨standing 1 "A", standing 1 "A"⟩, ⟨standing 1 "A", standing 2 "B"⟩,
      ⟨standing 3 "C", standing 6 "F"⟩, ⟨standing 5 "E", standing 4 "D"⟩,
      ⟨standing 7 "G", standing 7 "G"⟩]
  versions := KeyedSet.ofList
    (["A", "B", "C", "D", "E", "F", "G"].map fun path => ⟨⟨path⟩, ⟨1⟩⟩)
  failed := KeyedSet.ofList [⟨"C"⟩, ⟨"X"⟩]

def presentUnits : UnitSet :=
  KeyedSet.ofList (["N", "G", "F", "E", "C", "B", "A"].map SourceUnit.mk)

def notingReader : Inquiry (List SourceUnit) String VersionToken :=
  fun source asked =>
    (asked ++ [source], .ok (if source = ⟨"B"⟩ then ⟨2⟩ else ⟨1⟩))

theorem agedSnapshot_isExact :
    agedSnapshot.isSelfConsistent = true ∧
      ∃ versions,
        readVersions notingReader presentUnits.entries ∅ [] =
            (presentUnits.entries, .ok versions) ∧
          (Build.Plan.against agedSnapshot presentUnits versions).IsExact
            agedSnapshot presentUnits versions ∧
          (Build.Plan.against agedSnapshot presentUnits
            versions).invalidation.valid.entries =
              [⟨standing 1 "A", standing 1 "A"⟩,
                ⟨standing 7 "G", standing 7 "G"⟩] ∧
          (Build.Plan.against agedSnapshot presentUnits
            versions).invalidation.reparse.entries =
              ["A", "B", "C", "E", "F", "N"].map SourceUnit.mk := by
  have hbaseline : agedSnapshot.isSelfConsistent = true := by decide
  have hexact := Build.Plan.asked_isExact hbaseline notingReader presentUnits []
  exact ⟨hbaseline, _, rfl, hexact.2.2.2, by decide, by decide⟩

end Sample

end CallGraph
