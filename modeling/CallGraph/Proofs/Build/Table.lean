import CallGraph.Proofs.Build.Conduct
import CallGraph.Proofs.Plan

namespace CallGraph

/-! A host that is a table of versions.  What is to be found in a unit depends
on its version alone; `touch` is what somebody does to the table when a unit is
extracted. -/

def VersionMap.read (versions : VersionMap) (source : SourceUnit) :
    Except Fault VersionToken :=
  match versions.token? source with
  | some token => .ok token
  | none => .error (.because (source.path ++ " vanished"))

namespace Host

def ofTable (touch : SourceUnit → VersionMap → VersionMap)
    (found : SourceUnit → VersionToken → List Edge) : Host VersionMap where
  allUnits versions := .done versions (.ok versions.units)
  versionOf source versions := .done versions (versions.read source)
  extract source versions :=
    .done (touch source versions)
      (((touch source versions).read source).map fun token =>
        ⟨[], found source token⟩)
  unitsInScope _ versions := .done versions (.ok versions.units)
  methodsInScope _ versions := .done versions (.ok [])
  layout := layoutNothing
  present := presentNothing
  resetProgress _ versions := versions
  countProgress versions := versions

variable {touch : SourceUnit → VersionMap → VersionMap}
  {found : SourceUnit → VersionToken → List Edge}
  {later : VersionMap → VersionMap → Prop}

theorem token?_of_read {versions : VersionMap} {source : SourceUnit}
    {token : VersionToken} (hread : versions.read source = .ok token) :
    versions.token? source = some token := by
  unfold VersionMap.read at hread
  split at hread
  · rename_i seen hseen
    rw [hseen, Except.ok.inj hread]
  · cases hread

theorem ofTable_follows (htimeline : Timeline later)
    (htouch : ∀ source versions, later versions (touch source versions)) :
    (ofTable touch found).Follows later where
  timeline := htimeline
  asked hasks start := by
    cases hasks with
    | extract source => exact ⟨htouch source start, trivial⟩
    | _ => exact ⟨htimeline.refl start, trivial⟩
  resetProgress _ start := htimeline.refl start
  countProgress start := htimeline.refl start

theorem ofTable_truthful (htimeline : Timeline later)
    (htouch : ∀ source versions, later versions (touch source versions)) :
    (ofTable touch found).Truthful later VersionMap.token? found where
  follows := ofTable_follows htimeline htouch
  versionOf source start := by
    refine ⟨htimeline.refl start, fun token hanswer => ?_⟩
    exact ⟨start, htimeline.refl start, htimeline.refl start,
      token?_of_read hanswer⟩
  extract source start := by
    refine ⟨htouch source start, fun extraction houtcome => ?_⟩
    cases hread : (touch source start).read source with
    | error fault =>
        rw [hread] at houtcome
        cases houtcome
    | ok token =>
        rw [hread] at houtcome
        obtain rfl := Except.ok.inj houtcome
        exact ⟨touch source start, token, htouch source start,
          htimeline.refl _, token?_of_read hread, rfl⟩

end Host

namespace Sample

def firstUnit : SourceUnit := ⟨"A.java"⟩

def secondUnit : SourceUnit := ⟨"B.java"⟩

def linkingCall : Edge :=
  ⟨.declare firstUnit "A" "a" [], .declare secondUnit "B" "b" []⟩

def callsOf (source : SourceUnit) (_ : VersionToken) : List Edge :=
  if source = firstUnit then [linkingCall] else []

theorem mem_callsOf {source : SourceUnit} {token : VersionToken} {edge : Edge} :
    edge ∈ callsOf source token ↔ source = firstUnit ∧ edge = linkingCall := by
  unfold callsOf
  split
  · rename_i hsource
    simp [hsource]
  · rename_i hsource
    simp [hsource]

end Sample

end CallGraph
