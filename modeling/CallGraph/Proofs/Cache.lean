import CallGraph.Cache
import CallGraph.Proofs.FileSystem.Write
import CallGraph.Proofs.Json
import CallGraph.Proofs.Snapshot.Binary
import CallGraph.Proofs.Text.Utf8

namespace CallGraph

/-! What is saved is loaded again, and nothing else is changed by it. -/

namespace CacheRecord

theorem ofText?_toText (record : CacheRecord) :
    ofText? record.toText = some record := by
  have hparsed := @Json.parse?_pretty ("version", .string record.version)
    [("generation", .ofNat record.generation.toNat),
      ("edge_count", .ofNat record.edges.toNat),
      ("unit_count", .ofNat record.units.toNat),
      ("cached_at", .string record.storedAt)] (by
    simp only [List.mem_cons, List.not_mem_nil, or_false]
    rintro other (rfl | rfl | rfl | rfl | rfl)
    · exact .string _
    · exact .number _
    · exact .number _
    · exact .number _
    · exact .string _)
  rw [ofText?, toText, hparsed]
  simp [ofJson?, ofValues?, Snapshot.Document.member?, Json.word?_ofNat,
    Json.string?]

end CacheRecord

namespace Cache

open FileSystem
open CallGraph.Path (IsName Component)

variable {files files' : FileSystem} {root : Path} {home place : Location}
  {followLast : Bool} {name storedAt : String} {snapshot : Snapshot}

def placeIn (home : Location) : Location := home ++ [".callweave"]

theorem placeIn_ne_nil : placeIn home ≠ [] := by simp [placeIn]

theorem mem_placeIn : ".callweave" ∈ placeIn home :=
  List.mem_append_right _ List.mem_cons_self

theorem isFileName_directory : IsFileName ".callweave" :=
  ⟨⟨by decide, by decide, rfl⟩, by decide, by decide⟩

theorem isFileName_payload : IsFileName "snapshot.bin" :=
  ⟨⟨by decide, by decide, rfl⟩, by decide, by decide⟩

theorem isFileName_draft : IsFileName "snapshot.bin.tmp" :=
  ⟨⟨by decide, by decide, rfl⟩, by decide, by decide⟩

theorem isFileName_record : IsFileName "snapshot.json" :=
  ⟨⟨by decide, by decide, rfl⟩, by decide, by decide⟩

section Paths

variable (hroot : IsPlain root)
include hroot

theorem directory_components : (directory root).components =
    root.components ++ [.named ".callweave"] := by
  have hname := isFileName_directory.isName
  rw [directory, Path.components_join hroot.some hname.isAbsolute, hname.named]

theorem directory_isPlain : IsPlain (directory root) ∧
    steps (directory root) = root.components ++ [.named ".callweave"] := by
  have hname := isFileName_directory
  have hends := Path.endsWith_join hroot.some hname.isName
  refine ⟨⟨hends.text_ne hname.isName, ?_⟩, ?_⟩
  · unfold directory
    rw [Path.mem_join_text hroot.some hname.isName.isAbsolute]
    rintro (hnul | hnul | hnul)
    · exact hroot.noNul hnul
    · exact absurd hnul (by decide)
    · exact hname.noNul hnul
  · rw [← directory_components hroot]
    exact hends.steps hname.isName

theorem inside_isPlain (hname : IsFileName name) :
    IsPlain ((directory root).join ⟨name⟩) ∧
      steps ((directory root).join ⟨name⟩) =
        root.components ++ [.named ".callweave", .named name] := by
  obtain ⟨hplain, -⟩ := directory_isPlain hroot
  have hends := Path.endsWith_join hplain.some hname.isName
  refine ⟨⟨hends.text_ne hname.isName, ?_⟩, ?_⟩
  · rw [Path.mem_join_text hplain.some hname.isName.isAbsolute]
    rintro (hnul | hnul | hnul)
    · exact hplain.noNul hnul
    · exact absurd hnul (by decide)
    · exact hname.noNul hnul
  · rw [hends.steps hname.isName,
      Path.components_join hplain.some hname.isName.isAbsolute,
      hname.isName.named, directory_components hroot, List.append_assoc]
    rfl

theorem ofComponents_isPlain :
    IsPlain (ofComponents (directory root).components) ∧
      steps (ofComponents (directory root).components) =
        root.components ++ [.named ".callweave"] ∧
          withoutSeparators (ofComponents (directory root).components) =
            ofComponents (directory root).components := by
  obtain ⟨hplain, -⟩ := directory_isPlain hroot
  have hname := isFileName_directory.isName
  have hends := Path.endsWith_ofComponents root.components ".callweave"
  rw [← directory_components hroot] at hends
  refine ⟨⟨hends.text_ne hname, fun hnul => ?_⟩, ?_,
    hends.withoutSeparators hname⟩
  · rcases Path.mem_text_ofComponents hnul with hnul |
      ⟨component, hcomponent, hnul⟩
    · exact absurd hnul (by decide)
    · rcases Path.mem_text_of_mem_component hcomponent hnul with
        hnul | hnul | hnul
      · exact absurd hnul (by decide)
      · exact absurd hnul (by decide)
      · exact hplain.noNul hnul
  · rw [hends.steps hname, Path.components_ofComponents,
      directory_components hroot]

theorem draftPath_eq :
    draftPath root = (directory root).join ⟨"snapshot.bin.tmp"⟩ :=
  Path.withExtension_join (directory_isPlain hroot).1.some
    isFileName_payload.isName rfl (by decide) (by decide)

end Paths

theorem ensure_cases
    (hlocated : files.locate true root = .ok (home, .directory)) :
    ensure root files = .ok files ∨
      (∃ reason, ensure root files = .error reason) ∨
        files.entry? (placeIn home) = none ∧
          ensure root files = .ok (files.set (placeIn home) .directory) := by
  have hroot := isPlain_of_locate hlocated
  obtain ⟨hplain, hsteps, htrimmed⟩ := ofComponents_isPlain hroot
  obtain ⟨left, hleft⟩ := exists_find_below hlocated
  have hfind : files.find false (ofComponents (directory root).components) =
      .ok (files.foundAt (placeIn home)) :=
    (hleft false _ _ hplain (List.cons_ne_nil _ _) hsteps).trans
      (follow_last isFileName_directory.short fun _ _ => rfl)
  have hsome : (directory root).components ≠ [] := by
    rw [directory_components hroot]
    simp
  unfold ensure
  split
  · exact Or.inl rfl
  · cases hentry : files.entry? (placeIn home) with
    | none =>
        have hmade : files.makeDirectory
            (ofComponents (directory root).components) =
              .ok (files.set (placeIn home) .directory) := by
          rw [makeDirectory, htrimmed, hfind, foundAt, hentry]
        rw [makeDirectories_eq hsome (by simp [hmade]), makeIfMissing, hmade]
        exact Or.inr (Or.inr ⟨rfl, rfl⟩)
    | some entry =>
        have hthere : files.makeDirectory
            (ofComponents (directory root).components) =
              .error .alreadyExists := by
          rw [makeDirectory, htrimmed, hfind, foundAt, hentry]
        rw [makeDirectories_eq hsome (by simp [hthere]), makeIfMissing, hthere]
        dsimp only
        split
        · exact Or.inl rfl
        · exact Or.inr (Or.inl ⟨_, rfl⟩)

def fileNames : List String :=
  ["snapshot.bin.tmp", "snapshot.bin", "snapshot.json"]

theorem isFileName_of_mem (hname : name ∈ fileNames) : IsFileName name := by
  simp only [fileNames, List.mem_cons, List.not_mem_nil, or_false] at hname
  rcases hname with rfl | rfl | rfl
  · exact isFileName_draft
  · exact isFileName_payload
  · exact isFileName_record

theorem endsIn_inside (hroot : IsPlain root) (hname : IsFileName name) :
    EndsIn ((directory root).join ⟨name⟩)
      (root.components ++ [.named ".callweave"]) name where
  plain := (inside_isPlain hroot hname).1
  steps := by
    rw [(inside_isPlain hroot hname).2, List.append_assoc]
    rfl
  short := hname.short

/-- The cache is a directory at this place, by whatever links, and has no links
for its files. -/
structure Cached (root : Path) (place : Location) (files : FileSystem) :
    Prop where
  isPlain : IsPlain root
  leads : files.LeadsTo (root.components ++ [.named ".callweave"]) place
  unlinked : ∀ name ∈ fileNames, ∀ target,
    files.entry? (place ++ [name]) ≠ some (.link target)

section Cached

variable (hcached : Cached root place files)
include hcached

theorem Cached.find (hname : name ∈ fileNames) :
    files.find followLast ((directory root).join ⟨name⟩) =
      .ok (files.foundAt (place ++ [name])) :=
  (endsIn_inside hcached.isPlain (isFileName_of_mem hname)).find_last
    hcached.leads fun target hlink =>
      absurd hlink (hcached.unlinked name hname target)

theorem Cached.locate (hname : name ∈ fileNames) :
    files.locate followLast ((directory root).join ⟨name⟩) =
      match files.entry? (place ++ [name]) with
      | none => .error .notFound
      | some entry => .ok (place ++ [name], entry) := by
  unfold FileSystem.locate
  rw [hcached.find hname, foundAt]
  cases files.entry? (place ++ [name]) <;> rfl

theorem Cached.exists? (hname : name ∈ fileNames) :
    files.exists? ((directory root).join ⟨name⟩) =
      files.entry? (place ++ [name]) := by
  unfold FileSystem.exists?
  rw [hcached.locate hname]
  cases files.entry? (place ++ [name]) <;> rfl

theorem Cached.write (hname : name ∈ fileNames) (bytes : List UInt8)
    (modified : Int) :
    files.write ((directory root).join ⟨name⟩) bytes modified =
      if files.entry? (place ++ [name]) = some .directory then
        .error .isDirectory
      else .ok (files.set (place ++ [name]) (.file bytes modified)) :=
  write_eq (hcached.find hname) (hcached.unlinked name hname)

theorem Cached.rename {target : String} (hname : name ∈ fileNames)
    (htarget : target ∈ fileNames) (hne : target ≠ name)
    {bytes : List UInt8} {modified : Int}
    (hentry : files.entry? (place ++ [name]) = some (.file bytes modified)) :
    files.rename ((directory root).join ⟨name⟩)
        ((directory root).join ⟨target⟩) =
      if files.entry? (place ++ [target]) = some .directory then
        .error .isDirectory
      else .ok (files.moveWithin (place ++ [name]) (place ++ [target])) := by
  have hlocate : files.locate false ((directory root).join ⟨name⟩) =
      .ok (place ++ [name], .file bytes modified) :=
    (hcached.locate hname).trans (by rw [hentry])
  have hfile : Entry.file bytes modified ≠ .directory := by simp
  exact rename_eq hlocate hfile (hcached.find htarget) (by simpa using hne)
    (by simp [Location.isBelow])

end Cached

theorem exists_error_of_not_leads (hroot : IsPlain root)
    (hnone : ¬∃ place, files.LeadsTo
      (root.components ++ [.named ".callweave"]) place)
    (hname : IsFileName name) :
    ∃ reason, files.find followLast ((directory root).join ⟨name⟩) =
      .error reason := by
  cases hfind : files.find followLast ((directory root).join ⟨name⟩) with
  | error reason => exact ⟨reason, rfl⟩
  | ok found =>
      exact absurd ((endsIn_inside hroot hname).exists_directory hfind) hnone

theorem exists?_of_not_leads (hroot : IsPlain root)
    (hnone : ¬∃ place, files.LeadsTo
      (root.components ++ [.named ".callweave"]) place)
    (hname : IsFileName name) :
    files.exists? ((directory root).join ⟨name⟩) = none := by
  obtain ⟨reason, hreason⟩ : ∃ reason,
      files.find true ((directory root).join ⟨name⟩) = .error reason :=
    exists_error_of_not_leads hroot hnone hname
  unfold FileSystem.exists? FileSystem.locate
  rw [hreason]
  rfl

theorem leadsTo_placeIn
    (hlocated : files.locate true root = .ok (home, .directory))
    (hplace : files.entry? (placeIn home) = some .directory) :
    files.LeadsTo (root.components ++ [.named ".callweave"])
      (placeIn home) := by
  obtain ⟨left, hleft⟩ := exists_follow_below hlocated
  unfold LeadsTo
  rw [List.append_assoc, hleft _ _ (by simp)]
  exact (follow_into isFileName_directory.short hplace).trans
    (follow_here.trans follow_nil)

/-- A project whose cache, if it has one, is a directory of its own, and not
reached by a link. -/
structure IsHome (root : Path) (home : Location) (files : FileSystem) :
    Prop where
  located : files.locate true root = .ok (home, .directory)
  unlinked : ∀ location target, placeIn home <+: location →
    files.entry? location ≠ some (.link target)

theorem IsHome.isPlain (hhome : IsHome root home files) : IsPlain root :=
  isPlain_of_locate hhome.located

section Inside

variable (hhome : IsHome root home files)
include hhome

theorem IsHome.cached (hplace : files.entry? (placeIn home) = some .directory) :
    Cached root (placeIn home) files where
  isPlain := hhome.isPlain
  leads := leadsTo_placeIn hhome.located hplace
  unlinked _ _ target := hhome.unlinked _ target (List.prefix_append _ _)

theorem IsHome.not_leads
    (hplace : files.entry? (placeIn home) ≠ some .directory) :
    ¬∃ place, files.LeadsTo (root.components ++ [.named ".callweave"])
      place := by
  rintro ⟨place, hleads⟩
  obtain ⟨left, hleft⟩ := exists_follow_below hhome.located
  unfold LeadsTo at hleads
  rw [List.append_assoc, hleft _ _ (by simp)] at hleads
  obtain ⟨-, ⟨hentry, -⟩ | ⟨target, _, hentry, -⟩⟩ :=
    follow_named_ok (Or.inl (List.cons_ne_nil _ _)) hleads
  · exact hplace hentry
  · exact hhome.unlinked _ target List.prefix_rfl hentry

theorem write_inside (hname : name ∈ fileNames) {bytes : List UInt8}
    {modified : Int}
    (hwrite : files.write ((directory root).join ⟨name⟩) bytes modified =
      .ok files') :
    files.entry? (placeIn home) = some .directory ∧
      files' = files.set (placeIn home ++ [name]) (.file bytes modified) := by
  by_cases hplace : files.entry? (placeIn home) = some .directory
  · rw [(hhome.cached hplace).write hname] at hwrite
    split at hwrite
    · cases hwrite
    · exact ⟨hplace, (Except.ok.inj hwrite).symm⟩
  · obtain ⟨reason, hfind⟩ : ∃ reason,
        files.find true ((directory root).join ⟨name⟩) = .error reason :=
      exists_error_of_not_leads hhome.isPlain (hhome.not_leads hplace)
        (isFileName_of_mem hname)
    obtain ⟨reason, hreason⟩ : ∃ reason,
        files.write ((directory root).join ⟨name⟩) bytes modified =
          .error reason := exists_error_of_write hfind
    rw [hreason] at hwrite
    cases hwrite

theorem rename_inside {target : String} (hname : name ∈ fileNames)
    (htarget : target ∈ fileNames) (hne : target ≠ name)
    {bytes : List UInt8} {modified : Int}
    (hplace : files.entry? (placeIn home) = some .directory)
    (hentry : files.entry? (placeIn home ++ [name]) =
      some (.file bytes modified))
    (hrename : files.rename ((directory root).join ⟨name⟩)
      ((directory root).join ⟨target⟩) = .ok files') :
    files' = files.moveWithin (placeIn home ++ [name])
      (placeIn home ++ [target]) := by
  rw [(hhome.cached hplace).rename hname htarget hne hentry] at hrename
  split at hrename
  · cases hrename
  · exact (Except.ok.inj hrename).symm

theorem ensure_eq (hensure : ensure root files = .ok files') :
    files' = files ∨ files.entry? (placeIn home) = none ∧
      files' = files.set (placeIn home) .directory := by
  rcases ensure_cases hhome.located with hkept | ⟨reason, hfailed⟩ |
    ⟨hnone, hmade⟩
  · exact Or.inl (Except.ok.inj (hkept.symm.trans hensure)).symm
  · cases hfailed.symm.trans hensure
  · exact Or.inr ⟨hnone, (Except.ok.inj (hmade.symm.trans hensure)).symm⟩

end Inside

def saveSteps (snapshot : Snapshot) (root : Path) (storedAt : String) :
    List FileStep :=
  [ensure root,
    fun files => files.write (draftPath root) snapshot.toBytes 0,
    fun files => files.rename (draftPath root) (payloadPath root),
    fun files => files.write (recordPath root) (Utf8.encode
      (CacheRecord.describe snapshot storedAt).toText) 0]

theorem save_eq : save snapshot root storedAt files =
    ((inSequence files (saveSteps snapshot root storedAt)).1,
      (inSequence files (saveSteps snapshot root storedAt)).2.mapError
        fun reason => .io (.os reason)) := by
  unfold save saveSteps
  rfl

theorem exists_of_inSequence {step : FileStep} {rest : List FileStep}
    (hdone : inSequence files (step :: rest) = (files', .ok ())) :
    ∃ next, step files = .ok next ∧
      inSequence next rest = (files', .ok ()) := by
  rw [inSequence] at hdone
  cases hstep : step files with
  | error reason => rw [hstep] at hdone; cases hdone
  | ok next =>
      rw [hstep] at hdone
      exact ⟨next, rfl, hdone⟩

theorem inSequence_of_save
    (hsave : save snapshot root storedAt files = (files', .ok ())) :
    inSequence files (saveSteps snapshot root storedAt) =
      (files', .ok ()) := by
  rw [save_eq] at hsave
  obtain ⟨hfiles, hresult⟩ := Prod.mk.inj hsave
  refine Prod.ext hfiles ?_
  generalize (inSequence files _).2 = result at hresult
  cases result with
  | ok => rfl
  | error => cases hresult

/-- A cache that holds a snapshot, beside a record of this version. -/
structure Holds (home : Location) (snapshot : Snapshot) (files : FileSystem) :
    Prop where
  directory : files.entry? (placeIn home) = some .directory
  payload : ∃ modified, files.entry? (placeIn home ++ ["snapshot.bin"]) =
    some (.file snapshot.toBytes modified)
  record : ∃ (record : CacheRecord) (modified : Int),
    record.version = toolVersion ∧
      files.entry? (placeIn home ++ ["snapshot.json"]) =
        some (.file (Utf8.encode record.toText) modified)

structure IsSavedIn (root : Path) (home : Location)
    (files files' : FileSystem) : Prop where
  agrees : AgreesOutside (placeIn home) files files'
  names : files'.IsNamed
  isHome : IsHome root home files'

section Save

variable {before : FileSystem} (hclear : before.KeepsClearOf ".callweave")
  (hroot : Component.named ".callweave" ∉ root.components)
  (hhome : IsHome root home before)
include hclear hroot hhome

theorem isSavedIn_of_agrees
    (hagrees : AgreesOutside (placeIn home) before files)
    (hnames : files.IsNamed)
    (hunlinked : ∀ location target, placeIn home <+: location →
      files.entry? location ≠ some (.link target)) :
    IsSavedIn root home before files where
  agrees := hagrees
  names := hnames
  isHome :=
    ⟨(locate_agrees hclear (hagrees.but mem_placeIn) hroot).1.trans
      hhome.located, hunlinked⟩

theorem isName_of_mem_placeIn :
    ∀ part ∈ placeIn home, IsName part := by
  have hhome' := (locate_agrees hclear (.refl _ _) hroot).2 _ _ hhome.located
  intro part hpart
  rcases List.mem_append.mp hpart with hpart | hpart
  · exact (hhome' part hpart).1
  · rw [List.mem_singleton.mp hpart]
    exact isFileName_directory.isName

theorem isSavedIn_set (hsaved : IsSavedIn root home before files)
    {below : Location} {entry : Entry} (hnames : ∀ part ∈ below, IsName part)
    (hentry : ∀ target, entry ≠ .link target) :
    IsSavedIn root home before (files.set (placeIn home ++ below) entry) := by
  have hwithin : placeIn home <+: placeIn home ++ below :=
    List.prefix_append _ _
  have hsome : placeIn home ++ below ≠ [] :=
    List.append_ne_nil_of_left_ne_nil placeIn_ne_nil _
  refine isSavedIn_of_agrees hclear hroot hhome
    (hsaved.agrees.trans ⟨rfl, fun other hother => ?_⟩)
    (fun stored hstored => ?_) fun other target hother hlink => ?_
  · rw [entry?_set hsome, if_neg]
    rintro rfl
    exact hother hwithin
  · rcases KeyedSet.mem_put.mp hstored with rfl | ⟨hstored, -⟩
    · intro part hpart
      rcases List.mem_append.mp hpart with hpart | hpart
      · exact isName_of_mem_placeIn hclear hroot hhome part hpart
      · exact hnames part hpart
    · exact hsaved.names stored hstored
  · rw [entry?_set hsome] at hlink
    split at hlink
    · exact hentry target (Option.some.inj hlink)
    · exact hsaved.isHome.unlinked other target hother hlink

theorem isSavedIn_moveWithin (hsaved : IsSavedIn root home before files)
    {source target : String} (hname : IsName target) :
    IsSavedIn root home before (files.moveWithin (placeIn home ++ [source])
      (placeIn home ++ [target])) := by
  have hsource : placeIn home <+: placeIn home ++ [source] :=
    List.prefix_append _ _
  have htarget : placeIn home <+: placeIn home ++ [target] :=
    List.prefix_append _ _
  refine isSavedIn_of_agrees hclear hroot hhome
    (hsaved.agrees.trans ⟨rfl, fun other hother => ?_⟩)
    (fun stored hstored => ?_) fun other link hother hlink => ?_
  · exact entry?_moveWithin_of_not (by simp)
      (fun hwithin => hother (hsource.trans hwithin))
      fun hwithin => hother (htarget.trans hwithin)
  · obtain ⟨old, hold, -, rfl⟩ := mem_moveWithin.mp hstored
    unfold moved
    split
    · intro part hpart
      rcases List.mem_append.mp hpart with hpart | hpart
      · rcases List.mem_append.mp hpart with hpart | hpart
        · exact isName_of_mem_placeIn hclear hroot hhome part hpart
        · rw [List.mem_singleton.mp hpart]
          exact hname
      · exact hsaved.names old hold part (List.mem_of_mem_drop hpart)
    · exact hsaved.names old hold
  · obtain ⟨old, hold, rfl | hmoved⟩ :=
      exists_entry_of_moveWithin (by simp) hlink
    · exact hsaved.isHome.unlinked old link hother hold
    · exact hsaved.isHome.unlinked old link (hsource.trans hmoved) hold

theorem save_spec {after : FileSystem}
    (hsave : save snapshot root storedAt before = (after, .ok ())) :
    IsSavedIn root home before after ∧ Holds home snapshot after := by
  obtain ⟨ensured, hensure, hdone⟩ :=
    exists_of_inSequence (inSequence_of_save hsave)
  obtain ⟨drafted, hdraft, hdone⟩ := exists_of_inSequence hdone
  obtain ⟨moved, hmove, hdone⟩ := exists_of_inSequence hdone
  obtain ⟨recorded, hrecord, hdone⟩ := exists_of_inSequence hdone
  obtain rfl : recorded = after := congrArg Prod.fst hdone
  rw [draftPath_eq hhome.isPlain] at hdraft hmove
  have hensured : IsSavedIn root home before ensured := by
    have hfirst : IsSavedIn root home before before :=
      ⟨.refl _ _, hclear.names, hhome⟩
    rcases ensure_eq hhome hensure with rfl | ⟨-, rfl⟩
    · exact hfirst
    · have hset : IsSavedIn root home before
          (before.set (placeIn home ++ []) .directory) :=
        isSavedIn_set hclear hroot hhome hfirst (by simp) (by simp)
      rwa [List.append_nil] at hset
  obtain ⟨hplace, hdrafted⟩ :=
    write_inside hensured.isHome (by decide) hdraft
  have hisDrafted : IsSavedIn root home before drafted :=
    hdrafted ▸ isSavedIn_set hclear hroot hhome hensured
      (by simpa using isFileName_draft.isName) (by simp)
  have hdraftEntry : drafted.entry? (placeIn home ++ ["snapshot.bin.tmp"]) =
      some (.file snapshot.toBytes 0) := by
    rw [hdrafted, entry?_set (by simp), if_pos rfl]
  have hplace : drafted.entry? (placeIn home) = some .directory := by
    rw [hdrafted, entry?_set (by simp), if_neg (by simp), hplace]
  have hmoved := rename_inside hisDrafted.isHome (by decide) (by decide)
    (by decide) hplace hdraftEntry hmove
  have hisMoved : IsSavedIn root home before moved :=
    hmoved ▸ isSavedIn_moveWithin hclear hroot hhome hisDrafted
      isFileName_payload.isName
  have hpayload : moved.entry? (placeIn home ++ ["snapshot.bin"]) =
      some (.file snapshot.toBytes 0) := by
    have hapart : ¬placeIn home ++ ["snapshot.bin"] <+:
        placeIn home ++ ["snapshot.bin.tmp"] := by simp
    rw [hmoved, entry?_moveWithin_target (by simp) hapart, hdraftEntry]
  obtain ⟨hplace, hrecorded⟩ :=
    write_inside hisMoved.isHome (by decide) hrecord
  refine ⟨hrecorded ▸ isSavedIn_set hclear hroot hhome hisMoved
    (by simpa using isFileName_record.isName) (by simp), ?_, ⟨0, ?_⟩,
      ⟨CacheRecord.describe snapshot storedAt, 0, rfl, ?_⟩⟩
  · rw [hrecorded, entry?_set (by simp), if_neg (by simp), hplace]
  · rw [hrecorded, entry?_set (by simp), if_neg (by simp), hpayload]
  · rw [hrecorded, entry?_set (by simp), if_pos rfl]

end Save

theorem load_of_missing (hmissing : files.hasEntry (payloadPath root) = false) :
    load root files = .ok none := by
  unfold load
  rw [hmissing]
  rfl

theorem load_congr_of_locate
    (hpayload : files'.locate true (payloadPath root) =
      files.locate true (payloadPath root))
    (hrecord : files'.locate true (recordPath root) =
      files.locate true (recordPath root)) :
    load root files' = load root files := by
  unfold load hasEntry exists? readRecord readText FileSystem.read
  rw [hpayload, hrecord]

theorem load_of_directory {recordPlace : Location}
    (hpayload : files.hasEntry (payloadPath root) = true)
    (hrecord : files.locate true (recordPath root) =
      .ok (recordPlace, .directory)) :
    load root files = .error (.io (.os .isDirectory)) := by
  have hfound : files.hasEntry (recordPath root) = true := by
    unfold hasEntry exists?
    rw [hrecord]
    rfl
  unfold load readRecord readText FileSystem.read
  rw [hpayload, hfound, hrecord]
  rfl

theorem load_of_stored (hstorable : snapshot.IsStorable)
    {record : CacheRecord} (hversion : record.version = toolVersion)
    {payloadPlace recordPlace : Location} {modified recorded : Int}
    (hpayload : files.locate true (payloadPath root) =
      .ok (payloadPlace, .file snapshot.toBytes modified))
    (hrecord : files.locate true (recordPath root) =
      .ok (recordPlace, .file (Utf8.encode record.toText) recorded)) :
    load root files = .ok (some snapshot) := by
  have hfound : (files.hasEntry (payloadPath root) &&
      files.hasEntry (recordPath root)) = true := by
    unfold hasEntry exists?
    rw [hpayload, hrecord]
    rfl
  have htext : files.readText (recordPath root) = .ok record.toText := by
    simp [readText, FileSystem.read, hrecord, Utf8.decode?,
      Utf8.decode_encode, Except.toOption]
  have hread : readRecord root files = .ok record := by
    unfold readRecord
    rw [htext]
    dsimp only
    rw [CacheRecord.ofText?_toText]
  have hbytes : files.read (payloadPath root) = .ok snapshot.toBytes := by
    unfold FileSystem.read
    rw [hpayload]
  have hsame : (record.version == toolVersion) = true := by
    rw [hversion]
    exact beq_self_eq_true _
  unfold load
  rw [if_pos hfound, hread]
  dsimp only
  rw [if_pos hsame, hbytes]
  dsimp only
  rw [Snapshot.ofBytes_toBytes hstorable]

theorem Cached.load_congr (hcached : Cached root place files)
    (hcached' : Cached root place files')
    (hpayload : files'.entry? (place ++ ["snapshot.bin"]) =
      files.entry? (place ++ ["snapshot.bin"]))
    (hrecord : files'.entry? (place ++ ["snapshot.json"]) =
      files.entry? (place ++ ["snapshot.json"])) :
    load root files' = load root files := by
  have hlocate : ∀ name ∈ fileNames,
      files'.entry? (place ++ [name]) = files.entry? (place ++ [name]) →
        files'.locate true ((directory root).join ⟨name⟩) =
          files.locate true ((directory root).join ⟨name⟩) := by
    intro name hname hentry
    rw [hcached.locate hname, hcached'.locate hname, hentry]
  exact load_congr_of_locate (hlocate _ (by decide) hpayload)
    (hlocate _ (by decide) hrecord)

section Load

variable (hhome : IsHome root home files)
include hhome

theorem load_of_not_directory
    (hplace : files.entry? (placeIn home) ≠ some .directory) :
    load root files = .ok none := by
  have hexists : files.exists? (payloadPath root) = none :=
    exists?_of_not_leads hhome.isPlain (hhome.not_leads hplace)
      isFileName_payload
  exact load_of_missing (congrArg Option.isSome hexists)

theorem load_congr (hhome' : IsHome root home files')
    (hwithin : ∀ location, placeIn home <+: location →
      files'.entry? location = files.entry? location) :
    load root files' = load root files := by
  have hsame := hwithin _ List.prefix_rfl
  by_cases hplace : files.entry? (placeIn home) = some .directory
  · exact (hhome.cached hplace).load_congr (hhome'.cached (hsame.trans hplace))
      (hwithin _ (List.prefix_append _ _)) (hwithin _ (List.prefix_append _ _))
  · rw [load_of_not_directory hhome hplace, load_of_not_directory hhome']
    rwa [hsame]

theorem load_of_holds (hstorable : snapshot.IsStorable)
    (hholds : Holds home snapshot files) :
    load root files = .ok (some snapshot) := by
  obtain ⟨hplace, ⟨modified, hpayload⟩, record, recorded, hversion, hrecord⟩ :=
    hholds
  have hpayload : files.locate true (payloadPath root) =
      .ok (_, .file snapshot.toBytes modified) :=
    ((hhome.cached hplace).locate (by decide)).trans (by rw [hpayload])
  have hrecord : files.locate true (recordPath root) =
      .ok (_, .file (Utf8.encode record.toText) recorded) :=
    ((hhome.cached hplace).locate (by decide)).trans (by rw [hrecord])
  exact load_of_stored hstorable hversion hpayload hrecord

end Load

end Cache

end CallGraph
