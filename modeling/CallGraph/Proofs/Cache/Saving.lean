import CallGraph.Proofs.Cache

namespace CallGraph

inductive CacheError.Kind where
  | io
  | decode
  | record
  deriving DecidableEq, Repr

def CacheError.kind : CacheError → CacheError.Kind
  | io _ => .io
  | decode _ => .decode
  | record => .record

def FileSystem.isLink (files : FileSystem) (path : Path) : Bool :=
  match files.locate false path with
  | .ok (_, .link _) => true
  | _ => false

namespace Cache

open FileSystem
open CallGraph.Path (Component)

variable {files files' after : FileSystem} {root : Path}
  {home place : Location} {name storedAt : String} {snapshot : Snapshot}
  {followLast : Bool} {reason : OsError}

/-- What is loaded, with no more of an error than its kind. -/
def loaded (root : Path) (files : FileSystem) :
    Except CacheError.Kind (Option Snapshot) :=
  (load root files).mapError CacheError.kind

/-- Either the snapshot is saved, and loaded from then on, or what is loaded
stays as it was. -/
structure AllOrNothing (snapshot : Snapshot) (root : Path) (storedAt : String)
    (files : FileSystem) : Prop where
  stored : (save snapshot root storedAt files).2 = .ok () →
    load root (save snapshot root storedAt files).1 = .ok (some snapshot)
  kept : ∀ reason, (save snapshot root storedAt files).2 = .error reason →
    loaded root (save snapshot root storedAt files).1 = loaded root files

theorem inSequence_ok {step : FileStep} {rest : List FileStep}
    (hstep : step files = .ok files') :
    inSequence files (step :: rest) = inSequence files' rest := by
  rw [inSequence, hstep]

theorem inSequence_error {step : FileStep} {rest : List FileStep}
    (hstep : step files = .error reason) :
    inSequence files (step :: rest) = (files, .error reason) := by
  rw [inSequence, hstep]

theorem save_of_inSequence {result : Except OsError Unit}
    (hdone : inSequence files (saveSteps snapshot root storedAt) =
      (after, result)) :
    save snapshot root storedAt files =
      (after, result.mapError fun reason => .io (.os reason)) := by
  rw [save_eq, hdone]

theorem allOrNothing_of_stored
    (hdone : inSequence files (saveSteps snapshot root storedAt) =
      (after, .ok ()))
    (hload : load root after = .ok (some snapshot)) :
    AllOrNothing snapshot root storedAt files := by
  have hsave := save_of_inSequence hdone
  refine ⟨fun _ => ?_, fun reason hfailed => ?_⟩
  · rw [hsave]
    exact hload
  · rw [hsave] at hfailed
    cases hfailed

theorem allOrNothing_iff_of_failed
    (hdone : inSequence files (saveSteps snapshot root storedAt) =
      (after, .error reason)) :
    AllOrNothing snapshot root storedAt files ↔
      loaded root after = loaded root files := by
  have hsave := save_of_inSequence hdone
  constructor
  · intro hall
    have hkept := hall.kept (.io (.os reason)) (by rw [hsave]; rfl)
    rwa [hsave] at hkept
  · intro hkept
    refine ⟨fun hstored => ?_, fun reason _ => ?_⟩
    · rw [hsave] at hstored
      cases hstored
    · rw [hsave]
      exact hkept

section Cached

variable (hcached : Cached root place files)
include hcached

theorem Cached.locate_directory :
    files.locate true (directory root) = .ok (place, .directory) := by
  obtain ⟨hplain, hsteps⟩ := directory_isPlain hcached.isPlain
  exact hcached.leads.locate hplain hsteps

theorem Cached.ensure : ensure root files = .ok files := by
  have hfound : files.hasEntry (directory root) = true := by
    unfold hasEntry FileSystem.exists?
    rw [hcached.locate_directory]
    rfl
  exact if_pos hfound

section File

variable (hname : name ∈ fileNames)
  (hfile : files.entry? (place ++ [name]) ≠ some .directory)
include hname hfile

theorem Cached.takesFile (htree : files.IsTree) :
    files.TakesFile (place ++ [name]) where
  parent := by simpa using htree.entry?_of_locate hcached.locate_directory
  free entry hentry := by
    cases entry with
    | file bytes modified => exact ⟨bytes, modified, rfl⟩
    | directory => exact absurd hentry hfile
    | link target => exact absurd hentry (hcached.unlinked name hname target)

theorem Cached.set (bytes : List UInt8) :
    Cached root place (files.set (place ++ [name]) (.file bytes 0)) where
  isPlain := hcached.isPlain
  leads := hcached.leads.kept
    (keepsWays_set hfile (hcached.unlinked name hname))
  unlinked other hother target := by
    rw [entry?_set (by simp)]
    split
    · nofun
    · exact hcached.unlinked other hother target

end File

end Cached

theorem Cached.loaded_of_directory (hcached : Cached root place files)
    (hrecord : files.entry? (place ++ ["snapshot.json"]) = some .directory) :
    loaded root files =
      if files.entry? (place ++ ["snapshot.bin"]) = none then .ok none
      else .error .io := by
  have hpayload : files.hasEntry (payloadPath root) =
      (files.entry? (place ++ ["snapshot.bin"])).isSome :=
    congrArg Option.isSome (hcached.exists? (by decide))
  have hlocate : files.locate true (recordPath root) =
      .ok (_, .directory) :=
    (hcached.locate (by decide)).trans (by rw [hrecord])
  unfold loaded
  cases hentry : files.entry? (place ++ ["snapshot.bin"]) with
  | none =>
      rw [hentry] at hpayload
      rw [load_of_missing hpayload]
      rfl
  | some entry =>
      rw [hentry] at hpayload
      rw [load_of_directory hpayload hlocate]
      rfl

def withDraft (snapshot : Snapshot) (place : Location) (files : FileSystem) :
    FileSystem :=
  files.set (place ++ ["snapshot.bin.tmp"]) (.file snapshot.toBytes 0)

def withPayload (snapshot : Snapshot) (place : Location)
    (files : FileSystem) : FileSystem :=
  (withDraft snapshot place files).moveWithin (place ++ ["snapshot.bin.tmp"])
    (place ++ ["snapshot.bin"])

def withRecord (snapshot : Snapshot) (storedAt : String) (place : Location)
    (files : FileSystem) : FileSystem :=
  (withPayload snapshot place files).set (place ++ ["snapshot.json"])
    (.file (Utf8.encode (CacheRecord.describe snapshot storedAt).toText) 0)

theorem entry?_withDraft (location : Location) :
    entry? (withDraft snapshot place files) location =
      if location = place ++ ["snapshot.bin.tmp"] then
        some (.file snapshot.toBytes 0)
      else files.entry? location :=
  entry?_set (by simp)

theorem Cached.write_draft (hcached : Cached root place files) :
    files.write (draftPath root) snapshot.toBytes 0 =
      if files.entry? (place ++ ["snapshot.bin.tmp"]) = some .directory then
        .error .isDirectory
      else .ok (withDraft snapshot place files) := by
  rw [draftPath_eq hcached.isPlain]
  exact hcached.write (by decide) _ 0

section Steps

variable (hcached : Cached root place files) (htree : files.IsTree)
  (hdraft : files.entry? (place ++ ["snapshot.bin.tmp"]) ≠ some .directory)
include hcached hdraft

theorem Cached.withDraft :
    Cached root place (withDraft snapshot place files) :=
  hcached.set (by decide) hdraft _

theorem load_withDraft :
    load root (withDraft snapshot place files) = load root files := by
  refine hcached.load_congr (hcached.withDraft hdraft) ?_ ?_
  · rw [entry?_withDraft, if_neg (by simp)]
  · rw [entry?_withDraft, if_neg (by simp)]

theorem Cached.rename_draft :
    (Cache.withDraft snapshot place files).rename (draftPath root)
        (payloadPath root) =
      if files.entry? (place ++ ["snapshot.bin"]) = some .directory then
        .error .isDirectory
      else .ok (withPayload snapshot place files) := by
  have hdrafted := @Cached.withDraft _ _ _ snapshot hcached hdraft
  have hentry : entry? (Cache.withDraft snapshot place files)
      (place ++ ["snapshot.bin.tmp"]) = some (.file snapshot.toBytes 0) :=
    (entry?_withDraft _).trans (if_pos rfl)
  have hpayload : entry? (Cache.withDraft snapshot place files)
      (place ++ ["snapshot.bin"]) = files.entry? (place ++ ["snapshot.bin"]) :=
    (entry?_withDraft _).trans (if_neg (by simp))
  have hrename := hdrafted.rename (by decide)
    (by decide : "snapshot.bin" ∈ fileNames) (by decide) hentry
  rw [hpayload] at hrename
  rw [draftPath_eq hcached.isPlain]
  exact hrename

variable (hpayload : files.entry? (place ++ ["snapshot.bin"]) ≠
  some .directory)
include htree hpayload

theorem entry?_withPayload (location : Location) :
    entry? (withPayload snapshot place files) location =
      if location = place ++ ["snapshot.bin"] then
        some (.file snapshot.toBytes 0)
      else if location = place ++ ["snapshot.bin.tmp"] then none
      else files.entry? location := by
  have htakes := hcached.takesFile (by decide) hdraft htree
  have hmoved := @entry?_moveWithin_beside (withDraft snapshot place files)
    (place ++ ["snapshot.bin"]) (place ++ ["snapshot.bin.tmp"])
    (.file snapshot.toBytes 0) (by rw [entry?_withDraft, if_pos rfl]) (by simp)
    (by simp) (by simp)
    (fun rest hrest => htree.entry?_set_below htakes hdraft hrest)
    (fun rest hrest => htree.entry?_set_below htakes hpayload hrest) location
  rw [withPayload, hmoved, entry?_withDraft]
  by_cases hsource : location = place ++ ["snapshot.bin.tmp"]
  · simp only [hsource, if_true]
  · simp only [hsource, if_false]

theorem entry?_record :
    entry? (withPayload snapshot place files) (place ++ ["snapshot.json"]) =
      files.entry? (place ++ ["snapshot.json"]) := by
  rw [entry?_withPayload hcached htree hdraft hpayload, if_neg (by simp),
    if_neg (by simp)]

theorem Cached.withPayload :
    Cached root place (withPayload snapshot place files) := by
  have hentry := @entry?_withPayload files root place snapshot hcached htree
    hdraft hpayload
  have hkeeps : files.KeepsWays (Cache.withPayload snapshot place files) := by
    refine ⟨rfl, fun location hlocation => ?_,
      fun location target hlocation => ?_⟩
    · rw [hentry, if_neg, if_neg, hlocation]
      · rintro rfl
        exact hdraft hlocation
      · rintro rfl
        exact hpayload hlocation
    · rw [hentry, if_neg, if_neg, hlocation]
      · rintro rfl
        exact hcached.unlinked _ (by decide) target hlocation
      · rintro rfl
        exact hcached.unlinked _ (by decide) target hlocation
  refine ⟨hcached.isPlain, hcached.leads.kept hkeeps, ?_⟩
  intro name hname target
  rw [hentry]
  split
  · nofun
  · split
    · nofun
    · exact hcached.unlinked name hname target

theorem Cached.write_record :
    (Cache.withPayload snapshot place files).write (recordPath root)
        (Utf8.encode (CacheRecord.describe snapshot storedAt).toText) 0 =
      if files.entry? (place ++ ["snapshot.json"]) = some .directory then
        .error .isDirectory
      else .ok (withRecord snapshot storedAt place files) := by
  have hmoved := @Cached.withPayload _ _ _ snapshot hcached htree hdraft
    hpayload
  have hwrite := hmoved.write (by decide : "snapshot.json" ∈ fileNames)
    (Utf8.encode (CacheRecord.describe snapshot storedAt).toText) 0
  rw [entry?_record hcached htree hdraft hpayload] at hwrite
  exact hwrite

variable (hrecord : files.entry? (place ++ ["snapshot.json"]) ≠
  some .directory)
include hrecord

theorem Cached.withRecord :
    Cached root place (withRecord snapshot storedAt place files) := by
  refine (hcached.withPayload htree hdraft hpayload).set (by decide) ?_ _
  rwa [entry?_record hcached htree hdraft hpayload]

theorem load_withRecord (hstorable : snapshot.IsStorable) :
    load root (Cache.withRecord snapshot storedAt place files) =
      .ok (some snapshot) := by
  have hsaved : Cached root place
      (Cache.withRecord snapshot storedAt place files) :=
    hcached.withRecord htree hdraft hpayload hrecord
  have hpayload' : entry? (Cache.withRecord snapshot storedAt place files)
      (place ++ ["snapshot.bin"]) = some (.file snapshot.toBytes 0) := by
    rw [Cache.withRecord, entry?_set (by simp), if_neg (by simp),
      entry?_withPayload hcached htree hdraft hpayload, if_pos rfl]
  have hrecord' : entry? (Cache.withRecord snapshot storedAt place files)
      (place ++ ["snapshot.json"]) = some (.file (Utf8.encode
        (CacheRecord.describe snapshot storedAt).toText) 0) := by
    rw [Cache.withRecord, entry?_set (by simp), if_pos rfl]
  have hlocate : (Cache.withRecord snapshot storedAt place files).locate true
      (payloadPath root) = .ok (_, .file snapshot.toBytes 0) :=
    (hsaved.locate (by decide)).trans (by rw [hpayload'])
  have hlocate' : (Cache.withRecord snapshot storedAt place files).locate true
      (recordPath root) = .ok (_, .file (Utf8.encode
        (CacheRecord.describe snapshot storedAt).toText) 0) :=
    (hsaved.locate (by decide)).trans (by rw [hrecord'])
  exact load_of_stored hstorable rfl hlocate hlocate'

end Steps

/-- What saving does to a cache that is there. -/
theorem Cached.inSequence_eq (hcached : Cached root place files)
    (htree : files.IsTree) :
    inSequence files (saveSteps snapshot root storedAt) =
      if files.entry? (place ++ ["snapshot.bin.tmp"]) = some .directory then
        (files, .error .isDirectory)
      else if files.entry? (place ++ ["snapshot.bin"]) = some .directory then
        (Cache.withDraft snapshot place files, .error .isDirectory)
      else if files.entry? (place ++ ["snapshot.json"]) = some .directory then
        (Cache.withPayload snapshot place files, .error .isDirectory)
      else (Cache.withRecord snapshot storedAt place files, .ok ()) := by
  simp only [saveSteps, inSequence, hcached.ensure, hcached.write_draft]
  by_cases hdraft : files.entry? (place ++ ["snapshot.bin.tmp"]) =
      some .directory
  · rw [if_pos hdraft, if_pos hdraft]
  · rw [if_neg hdraft, if_neg hdraft]
    dsimp only
    rw [hcached.rename_draft hdraft]
    by_cases hpayload : files.entry? (place ++ ["snapshot.bin"]) =
        some .directory
    · rw [if_pos hpayload, if_pos hpayload]
    · rw [if_neg hpayload, if_neg hpayload]
      dsimp only
      rw [hcached.write_record htree hdraft hpayload]
      by_cases hrecord : files.entry? (place ++ ["snapshot.json"]) =
          some .directory
      · rw [if_pos hrecord, if_pos hrecord]
      · rw [if_neg hrecord, if_neg hrecord]

theorem Cached.allOrNothing_iff (hcached : Cached root place files)
    (htree : files.IsTree) (hstorable : snapshot.IsStorable) :
    AllOrNothing snapshot root storedAt files ↔
      ¬(files.entry? (place ++ ["snapshot.bin.tmp"]) ≠ some .directory ∧
        files.entry? (place ++ ["snapshot.bin"]) = none ∧
          files.entry? (place ++ ["snapshot.json"]) = some .directory) := by
  have hdone := @Cached.inSequence_eq _ _ _ storedAt snapshot hcached htree
  by_cases hdraft : files.entry? (place ++ ["snapshot.bin.tmp"]) =
      some .directory
  · rw [if_pos hdraft] at hdone
    rw [allOrNothing_iff_of_failed hdone]
    exact iff_of_true rfl fun hblocked => hblocked.1 hdraft
  rw [if_neg hdraft] at hdone
  by_cases hpayload : files.entry? (place ++ ["snapshot.bin"]) =
      some .directory
  · rw [if_pos hpayload] at hdone
    rw [allOrNothing_iff_of_failed hdone, loaded, loaded,
      load_withDraft hcached hdraft]
    refine iff_of_true rfl fun hblocked => ?_
    rw [hblocked.2.1] at hpayload
    cases hpayload
  rw [if_neg hpayload] at hdone
  by_cases hrecord : files.entry? (place ++ ["snapshot.json"]) =
      some .directory
  · rw [if_pos hrecord] at hdone
    have hmoved : Cached root place (Cache.withPayload snapshot place files) :=
      hcached.withPayload htree hdraft hpayload
    have hrecord' : entry? (Cache.withPayload snapshot place files)
        (place ++ ["snapshot.json"]) = some .directory :=
      (entry?_record hcached htree hdraft hpayload).trans hrecord
    have hpayload' : entry? (Cache.withPayload snapshot place files)
        (place ++ ["snapshot.bin"]) ≠ none := by
      rw [entry?_withPayload hcached htree hdraft hpayload, if_pos rfl]
      nofun
    -- After the move there is a payload, and loading goes on to the record.
    rw [allOrNothing_iff_of_failed hdone, hcached.loaded_of_directory hrecord,
      hmoved.loaded_of_directory hrecord', if_neg hpayload']
    by_cases hmissing : files.entry? (place ++ ["snapshot.bin"]) = none
    · rw [if_pos hmissing]
      exact iff_of_false nofun fun hwhole => hwhole ⟨hdraft, hmissing, hrecord⟩
    · rw [if_neg hmissing]
      exact iff_of_true rfl fun hblocked => hmissing hblocked.2.1
  · rw [if_neg hrecord] at hdone
    exact iff_of_true (allOrNothing_of_stored hdone
      (load_withRecord hcached htree hdraft hpayload hrecord hstorable))
      fun hblocked => hrecord hblocked.2.2

theorem cached_made (htree : files.IsTree)
    (hlocated : files.locate true root = .ok (home, .directory))
    (hentry : files.entry? (placeIn home) = none) :
    Cached root (placeIn home) (files.set (placeIn home) .directory) ∧
      ∀ name, entry? (files.set (placeIn home) .directory)
        (placeIn home ++ [name]) = none := by
  have hkeeps : files.KeepsWays (files.set (placeIn home) .directory) :=
    keepsWays_set (by rw [hentry]; nofun) fun target => by rw [hentry]; nofun
  have hempty : ∀ name, entry? (files.set (placeIn home) .directory)
      (placeIn home ++ [name]) = none := by
    intro name
    rw [find?_set_of_ne (by simp),
      htree.entry?_below (by rw [hentry]; nofun) (List.cons_ne_nil _ _)]
  have hplace : entry? (files.set (placeIn home) .directory) (placeIn home) =
      some .directory := (entry?_set placeIn_ne_nil).trans (if_pos rfl)
  refine ⟨⟨isPlain_of_locate hlocated,
    leadsTo_placeIn (hkeeps.locate hlocated) hplace,
      fun name _ target => ?_⟩, hempty⟩
  rw [hempty]
  nofun

/-- No file of the cache is a link. -/
def Unlinked (root : Path) (files : FileSystem) : Prop :=
  ∀ path ∈ [draftPath root, payloadPath root, recordPath root],
    files.isLink path = false

instance (root : Path) (files : FileSystem) : Decidable (Unlinked root files) :=
  inferInstanceAs (Decidable (∀ path ∈ [draftPath root, payloadPath root,
    recordPath root], files.isLink path = false))

/-- A draft can be written, nothing stands where the payload belongs, and a
directory where the record does. -/
structure Blocked (root : Path) (files : FileSystem) : Prop where
  draft : files.isDirectory (draftPath root) = false
  payload : files.hasEntry (payloadPath root) = false
  record : files.isDirectory (recordPath root) = true

theorem cached_of_leads (hroot : IsPlain root) (hunlinked : Unlinked root files)
    (hleads : files.LeadsTo (root.components ++ [.named ".callweave"]) place) :
    Cached root place files where
  isPlain := hroot
  leads := hleads
  unlinked name hname target hlink := by
    have hpaths : [draftPath root, payloadPath root, recordPath root] =
        fileNames.map fun name => (directory root).join ⟨name⟩ := by
      rw [draftPath_eq hroot]
      rfl
    have hnot := hunlinked _
      (hpaths ▸ List.mem_map.mpr ⟨name, hname, rfl⟩)
    unfold FileSystem.isLink FileSystem.locate at hnot
    rw [(endsIn_inside hroot (isFileName_of_mem hname)).find hleads, foundAt,
      hlink] at hnot
    contradiction

theorem Cached.blocked_iff (hcached : Cached root place files) :
    Blocked root files ↔
      files.entry? (place ++ ["snapshot.bin.tmp"]) ≠ some .directory ∧
        files.entry? (place ++ ["snapshot.bin"]) = none ∧
          files.entry? (place ++ ["snapshot.json"]) = some .directory := by
  have hdraft : files.isDirectory (draftPath root) = false ↔
      files.entry? (place ++ ["snapshot.bin.tmp"]) ≠ some .directory := by
    rw [draftPath_eq hcached.isPlain, isDirectory, hcached.exists? (by decide),
      beq_eq_false_iff_ne]
  have hpayload : files.hasEntry (payloadPath root) = false ↔
      files.entry? (place ++ ["snapshot.bin"]) = none := by
    have hexists := hcached.exists? (by decide : "snapshot.bin" ∈ fileNames)
    rw [hasEntry, payloadPath, hexists, Option.isSome_eq_false_iff,
      Option.isNone_iff_eq_none]
  have hrecord : files.isDirectory (recordPath root) = true ↔
      files.entry? (place ++ ["snapshot.json"]) = some .directory := by
    have hexists := hcached.exists? (by decide : "snapshot.json" ∈ fileNames)
    rw [isDirectory, recordPath, hexists, beq_iff_eq]
  constructor
  · exact fun hblocked => ⟨hdraft.mp hblocked.draft,
      hpayload.mp hblocked.payload, hrecord.mp hblocked.record⟩
  · exact fun hblocked => ⟨hdraft.mpr hblocked.1,
      hpayload.mpr hblocked.2.1, hrecord.mpr hblocked.2.2⟩

theorem AllOrNothing.congr
    (hsave : save snapshot root storedAt files =
      save snapshot root storedAt files')
    (hload : loaded root files' = loaded root files)
    (hall : AllOrNothing snapshot root storedAt files') :
    AllOrNothing snapshot root storedAt files := by
  refine ⟨fun hstored => ?_, fun reason hfailed => ?_⟩
  · rw [hsave] at hstored ⊢
    exact hall.stored hstored
  · rw [hsave] at hfailed ⊢
    exact (hall.kept reason hfailed).trans hload

/-- Without a cache nothing is loaded, and a save that fails changes nothing. -/
theorem allOrNothing_of_not_leads (htree : files.IsTree)
    (hlocated : files.locate true root = .ok (home, .directory))
    (hnone : ¬∃ place, files.LeadsTo
      (root.components ++ [.named ".callweave"]) place)
    (hstorable : snapshot.IsStorable) :
    AllOrNothing snapshot root storedAt files := by
  have hroot := isPlain_of_locate hlocated
  rcases ensure_cases hlocated with hkept | ⟨reason, hfailed⟩ | ⟨hentry, hmade⟩
  · obtain ⟨reason, hfind⟩ : ∃ reason, files.find true (draftPath root) =
        .error reason := by
      rw [draftPath_eq hroot]
      exact exists_error_of_not_leads hroot hnone isFileName_draft
    obtain ⟨reason, hwrite⟩ : ∃ reason, files.write (draftPath root)
        snapshot.toBytes 0 = .error reason := exists_error_of_write hfind
    have hdone : inSequence files (saveSteps snapshot root storedAt) =
        (files, .error reason) := by
      simp only [saveSteps, inSequence, hkept, hwrite]
    exact (allOrNothing_iff_of_failed hdone).mpr rfl
  · have hdone : inSequence files (saveSteps snapshot root storedAt) =
        (files, .error reason) := inSequence_error hfailed
    exact (allOrNothing_iff_of_failed hdone).mpr rfl
  · obtain ⟨hcached, hempty⟩ := cached_made htree hlocated hentry
    have hmadeTree : IsTree (files.set (placeIn home) .directory) :=
      htree.set_directory (htree.entry?_of_locate hlocated)
        isFileName_directory
    -- Saving is the same from here on as with an empty cache from the start.
    refine AllOrNothing.congr ?_ ?_
      ((hcached.allOrNothing_iff hmadeTree hstorable).mpr ?_)
    · have hdone : inSequence files (saveSteps snapshot root storedAt) =
          inSequence (files.set (placeIn home) .directory)
            (saveSteps snapshot root storedAt) :=
        (inSequence_ok hmade).trans (inSequence_ok hcached.ensure).symm
      rw [save_eq, hdone, save_eq]
    · have hexists : files.exists? (payloadPath root) = none :=
        exists?_of_not_leads hroot hnone isFileName_payload
      have hexists' : FileSystem.exists?
          (files.set (placeIn home) .directory) (payloadPath root) = none :=
        (hcached.exists? (by decide)).trans (hempty _)
      rw [loaded, loaded, load_of_missing (congrArg Option.isSome hexists),
        load_of_missing (congrArg Option.isSome hexists')]
    · intro hblocked
      have hrecord := hblocked.2.2
      rw [hempty] at hrecord
      cases hrecord

end Cache

namespace Sample

def newProject : FileSystem := FileSystem.empty.set ["p"] .directory

def linkedDraft : FileSystem :=
  (newProject.set ["p", ".callweave"] .directory).set
    ["p", ".callweave", "snapshot.bin.tmp"] (.link ⟨"snapshot.bin"⟩)

/-- The payload comes to be a link to itself: it is saved, and not found. -/
example :
    (Cache.save default ⟨"/p"⟩ "now" linkedDraft).2 = .ok () ∧
      Cache.loaded ⟨"/p"⟩ (Cache.save default ⟨"/p"⟩ "now" linkedDraft).1 =
        .ok none := by
  decide +kernel

def recordDirectory : FileSystem :=
  (newProject.set ["p", ".callweave"] .directory).set
    ["p", ".callweave", "snapshot.json"] .directory

end Sample

end CallGraph
