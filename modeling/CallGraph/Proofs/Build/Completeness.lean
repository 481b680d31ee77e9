import CallGraph.Proofs.Build.Consistency

namespace CallGraph

open BuildLog (latest)
open Keyed (key)

/-! Which calls of a unit a snapshot holds when units come and go. -/

namespace BuildLog

variable {source : SourceUnit} {log : List BuildEvent}

/-- The snapshot of the last committed build that extracted a unit, in a log
that is read backwards. -/
def lastExtractionBackwards (source : SourceUnit) :
    List BuildEvent → Option Snapshot
  | [] => none
  | .committed id snapshot :: earlier =>
      if .extracted id source ∈ earlier then some snapshot
      else lastExtractionBackwards source earlier
  | _ :: earlier => lastExtractionBackwards source earlier

def lastExtraction (source : SourceUnit) (log : List BuildEvent) :
    Option Snapshot :=
  lastExtractionBackwards source log.reverse

theorem lastExtraction_note {event : BuildEvent}
    (hevent : event.isCommit = false) :
    lastExtraction source (log ++ [event]) = lastExtraction source log := by
  unfold lastExtraction
  rw [List.reverse_append]
  cases event with
  | committed => cases hevent
  | _ => rfl

theorem lastExtraction_commit {id : BuildId} {snapshot : Snapshot} :
    lastExtraction source (log ++ [.committed id snapshot]) =
      if .extracted id source ∈ log then some snapshot
      else lastExtraction source log := by
  unfold lastExtraction
  rw [List.reverse_append]
  simp [lastExtractionBackwards]

end BuildLog

/-- The calls to be found in the units lead out of them, and the identities of
their ends tell in which units these are. -/
structure Locates (found : SourceUnit → VersionToken → List Edge) : Prop where
  callers : ∀ {source token edge}, edge ∈ found source token →
    edge.caller.source = source
  ends : ∀ {source token edge source' token' edge'},
    edge ∈ found source token → edge' ∈ found source' token' →
    key edge = key edge' →
    edge.caller.source = edge'.caller.source ∧
      edge.callee.source = edge'.callee.source

def Snapshot.IsFound (found : SourceUnit → VersionToken → List Edge)
    (snapshot : Snapshot) : Prop :=
  ∀ edge ∈ snapshot.edges, ∃ source token, edge ∈ found source token

namespace Round

variable {found : SourceUnit → VersionToken → List Edge} {round : Round}
  {baseline : Snapshot} {source : SourceUnit} {token : VersionToken}
  {edge : Edge}

/-- What was extracted is what is to be found at the version that was read. -/
def Finds (found : SourceUnit → VersionToken → List Edge) (round : Round) :
    Prop :=
  ∀ result ∈ round.results, ∀ extraction, result.outcome = .ok extraction →
    ∃ token, ⟨result.source, token⟩ ∈ round.reads ∧
      extraction.edges = found result.source token

theorem Finds.exists_result (hfinds : round.Finds found)
    (hlocates : Locates found)
    (hedge : edge ∈ Recomputed.foundEdges round.results) :
    (∃ result ∈ round.results, result.source = edge.caller.source) ∧
      ∃ source token, edge ∈ found source token := by
  obtain ⟨result, hresult, extraction, houtcome, hmem⟩ :=
    Recomputed.mem_foundEdges.mp hedge
  obtain ⟨token, _, hedges⟩ := hfinds result hresult extraction houtcome
  rw [hedges] at hmem
  exact ⟨⟨result, hresult, (hlocates.callers hmem).symm⟩,
    result.source, token, hmem⟩

theorem Finds.exists_of_mem_union (hfinds : round.Finds found)
    (hlocates : Locates found) (hbaseline : baseline.IsFound found)
    (hedge : edge ∈ (round.plan baseline).invalidation.valid.union
      (KeyedSet.ofList ((Recomputed.foundEdges round.results).filter
        (Recomputed.isInside round.versions)))) :
    ∃ source token, edge ∈ found source token := by
  rcases KeyedSet.mem_or_mem_of_mem_union hedge with hvalid | hfresh
  · exact hbaseline edge (mem_valid_iff.mp hvalid).1
  · have hmem := (List.mem_filter.mp (KeyedSet.mem_of_mem_ofList hfresh)).1
    exact (hfinds.exists_result hlocates hmem).2

theorem Finds.snapshot_isFound (hfinds : round.Finds found)
    (hlocates : Locates found) (hbaseline : baseline.IsFound found) :
    (round.snapshot baseline).IsFound found :=
  fun _ hedge => hfinds.exists_of_mem_union hlocates hbaseline
    (Recomputed.mem_merge.mp hedge).1

/-- Which of two calls with the same ends the union keeps does not matter: both
lead out of the same unit. -/
theorem Finds.contains_of_mem_union (hfinds : round.Finds found)
    (hlocates : Locates found) (hbaseline : baseline.IsFound found)
    (hcurrent : source ∉ (round.snapshot baseline).failed)
    (hedge : edge ∈ found source token) {held : Edge}
    (hheld : held ∈ (round.plan baseline).invalidation.valid.union
      (KeyedSet.ofList ((Recomputed.foundEdges round.results).filter
        (Recomputed.isInside round.versions))))
    (hkey : key held = key edge) :
    (round.snapshot baseline).edges.contains edge = true := by
  obtain ⟨_, _, hheldFound⟩ :=
    hfinds.exists_of_mem_union hlocates hbaseline hheld
  have hcaller : held.caller.source = source :=
    (hlocates.ends hheldFound hedge hkey).1.trans (hlocates.callers hedge)
  refine KeyedSet.contains_iff.mpr
    ⟨held, Recomputed.mem_merge.mpr ⟨hheld, ?_⟩, hkey⟩
  rw [hcaller]
  exact hcurrent

theorem Finds.mem_foundEdges (hfinds : round.Finds found)
    (hfits : round.Fits baseline)
    (htoken : ⟨source, token⟩ ∈ (round.snapshot baseline).versions)
    (hcurrent : source ∉ (round.snapshot baseline).failed)
    (hresult : ∃ result ∈ round.results, result.source = source)
    (hedge : edge ∈ found source token) :
    edge ∈ Recomputed.foundEdges round.results := by
  obtain ⟨result, hmem, rfl⟩ := hresult
  cases houtcome : result.outcome with
  | error fault =>
      exact absurd (mem_failed_iff.mpr ⟨result, hmem, rfl, fault, houtcome⟩)
        hcurrent
  | ok extraction =>
      obtain ⟨seen, hread, hedges⟩ := hfinds result hmem extraction houtcome
      have hsame : seen = token := VersionMap.token_unique
        (hfits.mem_versions.mpr hread) htoken
      exact Recomputed.mem_foundEdges.mpr
        ⟨result, hmem, extraction, houtcome, by rwa [hedges, hsame]⟩

theorem Finds.contains_iff_of_extracted (hfinds : round.Finds found)
    (hlocates : Locates found) (hfits : round.Fits baseline)
    (hbaseline : baseline.IsFound found)
    (hconsistent : baseline.isSelfConsistent = true)
    (htoken : ⟨source, token⟩ ∈ (round.snapshot baseline).versions)
    (hcurrent : source ∉ (round.snapshot baseline).failed)
    (hresult : ∃ result ∈ round.results, result.source = source)
    (hedge : edge ∈ found source token) :
    (round.snapshot baseline).edges.contains edge = true ↔
      (round.snapshot baseline).versions.records edge.callee.source = true := by
  constructor
  · intro hcontains
    obtain ⟨held, hheld, hkey⟩ := KeyedSet.contains_iff.mp hcontains
    obtain ⟨_, _, hheldFound⟩ :=
      hfinds.snapshot_isFound hlocates hbaseline held hheld
    have hcovers := Snapshot.isSelfConsistent_iff.mp
      (snapshot_isSelfConsistent hconsistent) held hheld
    rw [← (hlocates.ends hheldFound hedge hkey).2]
    exact (Snapshot.covers_iff.mp hcovers).2
  · intro hcallee
    have hfresh := hfinds.mem_foundEdges hfits htoken hcurrent hresult hedge
    have hinside : Recomputed.isInside round.versions edge = true := by
      refine Recomputed.isInside_iff.mpr ⟨?_, hcallee⟩
      rw [hlocates.callers hedge]
      exact VersionMap.records_of_mem htoken
    obtain ⟨held, hheld, hkey⟩ := Recomputed.exists_mem_union_fresh.mpr
      (Or.inr ⟨edge, hfresh, hinside, rfl⟩)
    exact hfinds.contains_of_mem_union hlocates hbaseline hcurrent hedge hheld
      hkey

theorem Finds.contains_iff_of_not_extracted (hfinds : round.Finds found)
    (hlocates : Locates found) (hfits : round.Fits baseline)
    (hbaseline : baseline.IsFound found)
    (htoken : ⟨source, token⟩ ∈ (round.snapshot baseline).versions)
    (hresult : ¬∃ result ∈ round.results, result.source = source)
    (hedge : edge ∈ found source token) :
    (round.snapshot baseline).edges.contains edge = true ↔
      baseline.edges.contains edge = true := by
  have hcaller : edge.caller.source = source := hlocates.callers hedge
  constructor
  · intro hcontains
    obtain ⟨held, hheld, hkey⟩ := KeyedSet.contains_iff.mp hcontains
    refine KeyedSet.contains_iff.mpr ⟨held, ?_, hkey⟩
    rcases valid_or_found hheld with hvalid | ⟨hfresh, _⟩
    · exact (mem_valid_iff.mp hvalid).1
    · obtain ⟨⟨result, hmem, hsource⟩, _, _, hheldFound⟩ :=
        hfinds.exists_result hlocates hfresh
      have hends := hlocates.ends hheldFound hedge hkey
      exact absurd ⟨result, hmem, hsource.trans (hends.1.trans hcaller)⟩ hresult
  · intro hcontains
    obtain ⟨held, hheld, hkey⟩ := KeyedSet.contains_iff.mp hcontains
    obtain ⟨_, _, hheldFound⟩ := hbaseline held hheld
    have hheldCaller : held.caller.source = source :=
      (hlocates.ends hheldFound hedge hkey).1.trans hcaller
    obtain ⟨_, _, hinvalidated, hstale⟩ :=
      hfits.unmoved_of_not_extracted htoken hresult
    -- Were the called unit invalidated, the call would be stale and bring its
    -- caller among the units to be extracted.
    have hcallee : (round.plan baseline).changes.invalidated.contains
        held.callee.source = false := by
      refine Bool.eq_false_iff.mpr fun hmoved => ?_
      have htouches := hstale held (Invalidation.mem_stale.mpr
        ⟨hheld, Invalidation.isStale_iff.mpr (Or.inr hmoved)⟩)
      simp [Edge.touches, hheldCaller] at htouches
    have hvalid : held ∈ (round.plan baseline).invalidation.valid :=
      mem_valid_iff.mpr ⟨hheld, hheldCaller ▸ hinvalidated, hcallee⟩
    have hcurrent : source ∉ (round.snapshot baseline).failed := by
      intro hfailed
      obtain ⟨result, hmem, hsource, _⟩ := mem_failed_iff.mp hfailed
      exact hresult ⟨result, hmem, hsource⟩
    exact hfinds.contains_of_mem_union hlocates hbaseline hcurrent hedge
      (KeyedSet.mem_union_left hvalid) hkey

end Round

/-- A log after which the snapshot holds a call of a unit just when the unit
that is called was known to the last committed build that extracted the first.
-/
structure BuildLog.IsAccounted
    (found : SourceUnit → VersionToken → List Edge) (log : List BuildEvent) :
    Prop where
  isFound : (latest .initial log).IsFound found
  complete : ∀ {source token},
    ⟨source, token⟩ ∈ (latest .initial log).versions →
    source ∉ (latest .initial log).failed →
    ∃ extracted, BuildLog.lastExtraction source log = some extracted ∧
      ∀ edge ∈ found source token,
        (latest .initial log).edges.contains edge = true ↔
          extracted.versions.records edge.callee.source = true

theorem Chronicle.isAccounted
    {found : SourceUnit → VersionToken → List Edge} {log : List BuildEvent}
    (hlocates : Locates found)
    (hlog : Chronicle (Round.Finds found) .initial log) :
    BuildLog.IsAccounted found log := by
  induction hlog with
  | nil =>
      exact ⟨fun _ hedge => absurd hedge KeyedSet.not_mem_empty,
        fun hversion => absurd hversion KeyedSet.not_mem_empty⟩
  | @note log event hlog hevent ih =>
      constructor
      · rw [BuildLog.latest_note hevent]
        exact ih.isFound
      · intro source token
        rw [BuildLog.latest_note hevent, BuildLog.lastExtraction_note hevent]
        exact ih.complete
  | @commit log earlier id round hlog hrecord hfresh hfits hfinds ih =>
      have hconsistent := hlog.latest_isSelfConsistent rfl
      constructor
      · rw [BuildLog.latest_commit]
        exact hfinds.snapshot_isFound hlocates ih.isFound
      · intro source token
        rw [BuildLog.latest_commit, BuildLog.lastExtraction_commit]
        intro htoken hcurrent
        have hextracted :=
          @Round.extracted_mem_iff round id earlier hfresh source
        rw [← hrecord] at hextracted
        split
        · rename_i hmem
          refine ⟨_, rfl, fun edge hedge => ?_⟩
          exact hfinds.contains_iff_of_extracted hlocates hfits ih.isFound
            hconsistent htoken hcurrent (hextracted.mp hmem) hedge
        · rename_i hmem
          have hresult := mt hextracted.mpr hmem
          obtain ⟨hprior, hsound, _⟩ :=
            hfits.unmoved_of_not_extracted htoken hresult
          obtain ⟨extracted, hlast, hcalls⟩ := ih.complete hprior hsound
          refine ⟨extracted, hlast, fun edge hedge => ?_⟩
          rw [hfinds.contains_iff_of_not_extracted hlocates hfits ih.isFound
            htoken hresult hedge]
          exact hcalls edge hedge

def SameVersions {σ : Type}
    (token? : σ → SourceUnit → Option VersionToken) (first last : σ) : Prop :=
  ∀ source, token? last source = token? first source

theorem Round.Told.finds {σ : Type}
    {token? : σ → SourceUnit → Option VersionToken}
    {found : SourceUnit → VersionToken → List Edge} {baseline : Snapshot}
    {start surveyed ready : σ} {round : Round} (hfits : round.Fits baseline)
    (htold : round.Told (SameVersions token?) token? found start surveyed
      ready) : round.Finds found := by
  intro result hresult extraction houtcome
  obtain ⟨moment, token, hfrom, _, htoken, hedges⟩ :=
    htold.results result hresult extraction houtcome
  have hrecorded := hfits.records_result hresult
  obtain ⟨seen, hseen⟩ := VersionMap.records_iff.mp hrecorded
  have hread := hfits.mem_versions.mp hseen
  obtain ⟨earlier, _, hto, hearlier⟩ := htold.reads _ hread
  have hsame : some token = some seen := by
    rw [← htoken, ← hearlier, hfrom, hto]
  rw [Option.some.inj hsame] at hedges
  exact ⟨seen, hread, hedges⟩

/-- Of a unit that did not fail, a committed snapshot holds a call just when the
unit that is called was known to the last committed build that extracted the
calling one.  A unit that has appeared since does not have its callers
extracted again. -/
theorem World.Reaches.contains_iff_of_committed {σ : Type} {host : Host σ}
    {token? : σ → SourceUnit → Option VersionToken}
    {found : SourceUnit → VersionToken → List Edge} {edits : σ → σ → Prop}
    {state : σ} {world : World σ} {before after : List BuildEvent}
    {id : BuildId} {snapshot : Snapshot} {source : SourceUnit}
    {token : VersionToken} {edge : Edge}
    (hhost : host.Truthful (SameVersions token?) token? found)
    (hlocates : Locates found)
    (hreaches : World.Reaches host edits ⟨.startingFrom .initial, state⟩ world)
    (hcommit : world.coordinator.events =
      before ++ .committed id snapshot :: after)
    (htoken : ⟨source, token⟩ ∈ snapshot.versions)
    (hcurrent : source ∉ snapshot.failed) (hedge : edge ∈ found source token) :
    ∃ extracted,
      BuildLog.lastExtraction source (before ++ [.committed id snapshot]) =
        some extracted ∧
      (snapshot.edges.contains edge = true ↔
        extracted.versions.records edge.callee.source = true) := by
  have hchronicled :
      world.coordinator.IsChronicled (Round.Finds found) .initial := by
    refine Build.isChronicled_of_reaches hhost.follows ?_ hreaches
      (.startingFrom _ _)
    intro nested number start ready round hnested hgathered
    obtain ⟨surveyed, htold⟩ := hgathered.told hhost And.left hnested
    exact htold.finds hgathered.fits
  obtain ⟨hbefore, earlier, round, hrecord, hfresh, hfits, hfinds, rfl⟩ :=
    hchronicled.chronicle.exists_round hcommit
  have haccounted := (hbefore.commit hrecord hfresh hfits hfinds).isAccounted
    hlocates
  have hcomplete := @haccounted.complete source token
  rw [BuildLog.latest_commit] at hcomplete
  obtain ⟨extracted, hlast, hcalls⟩ := hcomplete htoken hcurrent
  exact ⟨extracted, hlast, hcalls edge hedge⟩

namespace Sample

theorem locates_callsOf : Locates callsOf where
  callers hedge := by
    obtain ⟨rfl, rfl⟩ := mem_callsOf.mp hedge
    rfl
  ends hedge hedge' _ := by
    rw [(mem_callsOf.mp hedge).2, (mem_callsOf.mp hedge').2]
    exact ⟨rfl, rfl⟩

def callerAlone : VersionMap := (∅ : VersionMap).put ⟨firstUnit, ⟨1⟩⟩

def callsHost : Host VersionMap := Host.ofTable (fun _ => id) callsOf

def calleeLate : World VersionMap :=
  (((((⟨default, callerAlone⟩ : World VersionMap).build callsHost 0
    default).1).withHost (callerAlone.put ⟨secondUnit, ⟨1⟩⟩)).build callsHost 0
      default).1

theorem sameVersions_timeline {σ : Type}
    (token? : σ → SourceUnit → Option VersionToken) :
    Timeline (SameVersions token?) where
  refl _ _ := rfl
  trans hfirst hlast source := (hlast source).trans (hfirst source)

theorem calleeLate_contains_iff :
    ∃ extracted,
      BuildLog.lastExtraction firstUnit
          (calleeLate.coordinator.events.take 12 ++
            [.committed 2 calleeLate.coordinator.snapshot]) = some extracted ∧
        (calleeLate.coordinator.snapshot.edges.contains linkingCall = true ↔
          extracted.versions.records secondUnit = true) := by
  have htruthful : callsHost.Truthful (SameVersions VersionMap.token?)
      VersionMap.token? callsOf :=
    Host.ofTable_truthful (sameVersions_timeline _) fun _ _ _ => rfl
  have hreaches : World.Reaches callsHost (fun _ _ => True)
      ⟨.startingFrom .initial, callerAlone⟩ calleeLate :=
    .build (.edit (.build .start 0 default) trivial) 0 default
  have hcommit : calleeLate.coordinator.events =
      calleeLate.coordinator.events.take 12 ++
        .committed 2 calleeLate.coordinator.snapshot ::
          [.presented 2, .finished 2 .committed] := by decide
  have htoken :
      ⟨firstUnit, ⟨1⟩⟩ ∈ calleeLate.coordinator.snapshot.versions := by
    decide
  exact World.Reaches.contains_iff_of_committed htruthful
    locates_callsOf hreaches hcommit htoken (by decide) (by decide)

def callerFirst : Script :=
  (Script.empty.setVersion firstUnit ⟨1⟩).setEdges firstUnit [linkingCall]

def calleeAdded : World Script :=
  let first := ((⟨default, callerFirst⟩ : World Script).build
    (Script.bareHost false) 0 default).1
  ((first.withHost (first.host.setVersion secondUnit ⟨1⟩)).build
    (Script.bareHost false) 0 default).1

/-- The second build knows both units and extracts only the new one; a build
from scratch finds the call. -/
theorem calleeAdded_misses_call :
    calleeAdded.host.edgesOf firstUnit = [linkingCall] ∧
      .committed 2 calleeAdded.coordinator.snapshot ∈
        calleeAdded.coordinator.events ∧
      calleeAdded.coordinator.snapshot.versions.entries =
        [⟨firstUnit, ⟨1⟩⟩, ⟨secondUnit, ⟨1⟩⟩] ∧
      calleeAdded.coordinator.snapshot.failed = ∅ ∧
      calleeAdded.coordinator.snapshot.edges.contains linkingCall = false ∧
      ((⟨default, calleeAdded.host⟩ : World Script).build
        (Script.bareHost false) 0 default).1.coordinator.snapshot.edges.contains
          linkingCall = true := by
  decide

end Sample

end CallGraph
