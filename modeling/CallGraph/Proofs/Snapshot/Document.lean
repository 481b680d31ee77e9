import CallGraph.Proofs.Json.Compact
import CallGraph.Proofs.Snapshot.Binary
import CallGraph.Snapshot.Document

namespace CallGraph.Snapshot

namespace Document

theorem mapM_map {α β : Type} {write : α → β} {read : β → Option α}
    (hread : ∀ value, read (write value) = some value) (values : List α) :
    (values.map write).mapM read = some values := by
  induction values with
  | nil => rfl
  | cons value rest ih => simp [hread, ih]

theorem param?_ofParam (param : Param) :
    param? (ofParam param) = some param := by
  simp [param?, ofParam, text?, member?, Json.string?]

theorem method?_ofMethod (method : Method) :
    method? (ofMethod method) = some method := by
  simp [method?, ofMethod, ofWord, word?, text?, list?, items?, member?,
    Json.string?, Json.word?_ofNat, mapM_map param?_ofParam]

theorem edge?_ofEdge (edge : Edge) : edge? (ofEdge edge) = some edge := by
  simp [edge?, ofEdge, member?, method?_ofMethod]

theorem version?_ofVersion (version : UnitVersion) :
    version? (ofVersion version) = some version := by
  simp [version?, ofVersion, ofWord, Json.word?_ofNat]

theorem source?_string (source : SourceUnit) :
    source? (.string source.path) = some source := rfl

theorem isData_string (text : String) : (Json.string text).IsData :=
  .plain (.string text)

theorem isData_ofWord (word : UInt64) : (ofWord word).IsData :=
  .plain (.number word.toNat)

theorem isData_arrayOf {α : Type} {write : α → Json}
    (hwrite : ∀ value, (write value).IsData) (values : List α) :
    (Json.array (values.map write)).IsData := by
  apply Json.IsData.array
  intro item hitem
  obtain ⟨value, _, rfl⟩ := List.mem_map.mp hitem
  exact hwrite value

theorem isData_ofParam (param : Param) : (ofParam param).IsData := by
  apply Json.IsData.object
  simp [isData_string]

theorem isData_ofMethod (method : Method) : (ofMethod method).IsData := by
  apply Json.IsData.object
  simp [isData_string, isData_ofWord, isData_arrayOf isData_ofParam]

theorem isData_ofEdge (edge : Edge) : (ofEdge edge).IsData := by
  apply Json.IsData.object
  simp [isData_ofMethod]

theorem isData_ofVersions (versions : List UnitVersion) :
    (Json.object (versions.map ofVersion)).IsData := by
  apply Json.IsData.object
  intro member hmember
  obtain ⟨version, _, rfl⟩ := List.mem_map.mp hmember
  exact isData_ofWord version.token.word

end Document

open Document

theorem ofJson?_toJson (snapshot : Snapshot) :
    ofJson? snapshot.toJson = some snapshot := by
  simp [ofJson?, toJson, ofWord, Document.word?, Document.members?,
    Document.items?, list?, member?, Json.word?_ofNat, mapM_map edge?_ofEdge,
    mapM_map version?_ofVersion, mapM_map source?_string,
    KeyedSet.ofList_entries, KeyedSet.putAll_entries]

/-- Every snapshot is read back from its text in all its fields. -/
theorem document_roundTrips (snapshot : Snapshot) :
    ofText? snapshot.toText = some snapshot := by
  have hparsed : Json.parse? snapshot.toText = some snapshot.toJson := by
    apply Json.parse?_compact
    simp [isData_ofWord, isData_arrayOf isData_ofEdge, isData_ofVersions,
      isData_arrayOf fun source : SourceUnit => isData_string source.path]
  rw [ofText?, hparsed]
  exact ofJson?_toJson snapshot

end CallGraph.Snapshot
