import CallGraph.Drawing
import CallGraph.Proofs.Disk
import CallGraph.Proofs.Path.Extension

namespace CallGraph.Drawing

open FileSystem
open CallGraph.Path (Component)

variable {disk : Disk} {files : FileSystem} {target : Path}
  {bytes : List UInt8} {above : List Component} {name draft : String}
  {directory place : Location}

/-- A step fails: the draft cannot be opened, or the target refuses to be
replaced, or only directories can stand where it leads. -/
inductive Fails (disk : Disk) (files : FileSystem) (target : Path) : Prop where
  | unopened {reason : OsError}
      (hopened : disk.opened (draftPath target) files = .error reason)
  | refused {reason : OsError} (hrefused : disk.refusal? target = some reason)
  | directory (hdirectory : ∀ place, files.Names false target place →
      files.entry? place = some .directory)

/-- The files before and after bytes were drawn to a path by way of its draft. -/
structure Draws (disk : Disk) (files after : FileSystem) (target : Path)
    (bytes : List UInt8) : Prop where
  /-- Nothing changes but the target, the draft, and what shows the bytes that
  are written to the draft: the file that a link in its place leads to, and the
  other names of the file. -/
  elsewhere : ∀ place, ¬files.Names false target place →
    ¬files.Names false (draftPath target) place →
      ¬disk.Reaches files (draftPath target) place →
        after.entry? place = files.entry? place
  unopened : ∀ reason, disk.opened (draftPath target) files = .error reason →
    after = files
  cut : disk.taken bytes ≠ bytes →
    ∀ place, ¬disk.Reaches files (draftPath target) place →
      after.entry? place = files.entry? place
  /-- Once the draft is written, and no link stands in its place, the target is
  the file that was drawn, and no draft is left.  If a step fails the target is as
  it was, and so is everything but the draft. -/
  whole : disk.taken bytes = bytes →
    (∀ place link, files.Names false (draftPath target) place →
      files.entry? place ≠ some (.link link)) →
    (∃ place, files.Names false target place ∧
      after.entry? place = some (.file bytes 0) ∧
        ∀ draft, files.Names false (draftPath target) draft →
          place ∉ disk.names draft → after.entry? draft = none) ∨
      Fails disk files target ∧
        ∀ place, files.Names false target place ∨
            ¬disk.Reaches files (draftPath target) place →
          after.entry? place = files.entry? place
  /-- A link in the draft's place is moved to the target's place.  If a step fails
  nothing changes but the file that it leads to. -/
  linked : disk.taken bytes = bytes →
    ∀ place link, files.Names false (draftPath target) place →
      files.entry? place = some (.link link) →
        (∃ place, files.Names false target place ∧
          after.entry? place = some (.link link)) ∨
        Fails disk files target ∧
          ∀ place, ¬disk.Reaches files (draftPath target) place →
            after.entry? place = files.entry? place

/-- The draft was opened: it is named beside the target, and the file that it
leads to can be written under all its names. -/
structure Drafted (disk : Disk) (files : FileSystem) (target : Path)
    (above : List Component) (draft : String) (directory place : Location) :
    Prop where
  fits : disk.Fits files
  opened : disk.opened (draftPath target) files = .ok place
  ends : EndsIn (draftPath target) above draft
  leads : files.LeadsTo above directory
  names : files.Names true (draftPath target) place
  takes : ∀ other ∈ disk.names place, files.TakesFile other

theorem exists_drafted (hfits : disk.Fits files)
    (hopened : disk.opened (draftPath target) files = .ok place) :
    ∃ above name draft directory,
      target.components = above ++ [.named name] ∧
        Drafted disk files target above draft directory place := by
  obtain ⟨hnames, htakes⟩ := hfits.takesFile_of_opened hopened
  obtain ⟨found, hfind, hplace⟩ := hnames
  have hsibling := @Path.withExtension_sibling target "tmp" (by decide)
    (by decide)
  rcases hsibling with
    hnone | ⟨above, name, draft, htarget, hdraft, hcomponents, hends⟩
  · obtain ⟨location, rfl⟩ := exists_directory_of_fileName? hnone hfind
    obtain rfl : location = place := hplace
    exact absurd (hfits.tree.entry?_of_find hfind)
      (htakes location List.mem_cons_self).not_directory
  · have hsteps : steps (draftPath target) = above ++ [.named draft] :=
      (hends.steps hdraft).trans hcomponents
    have hendsIn := endsIn_of_find hsteps hfind
    obtain ⟨directory, hleads⟩ := hendsIn.exists_directory hfind
    exact ⟨above, name, draft, directory, htarget, hfits, hopened, hendsIn,
      hleads, ⟨found, hfind, hplace⟩, htakes⟩

namespace Drafted

variable (hdrafted : Drafted disk files target above draft directory place)
include hdrafted

theorem names_iff {location : Location} :
    files.Names false (draftPath target) location ↔
      location = directory ++ [draft] :=
  names_iff_of_find (hdrafted.ends.find hdrafted.leads)

/-- The draft itself is written, unless a link stands in its place. -/
theorem isWritten (hunlinked : ∀ link, files.entry? (directory ++ [draft]) ≠
    some (.link link)) : place = directory ++ [draft] := by
  have hfind : files.find true (draftPath target) =
      .ok (files.foundAt (directory ++ [draft])) :=
    hdrafted.ends.find_last hdrafted.leads fun link hlink =>
      absurd hlink (hunlinked link)
  exact (names_iff_of_find hfind).mp hdrafted.names

theorem isWritten_of_unlinked
    (hunlinked : ∀ place link, files.Names false (draftPath target) place →
      files.entry? place ≠ some (.link link)) : place = directory ++ [draft] :=
  hdrafted.isWritten fun link =>
    hunlinked _ link (hdrafted.names_iff.mpr rfl)

theorem not_directory :
    files.entry? (directory ++ [draft]) ≠ some .directory := by
  intro hdirectory
  have hwritten := hdrafted.isWritten fun link hlink => by
    rw [hdirectory] at hlink
    cases hlink
  exact (hdrafted.takes place List.mem_cons_self).not_directory
    (hwritten ▸ hdirectory)

/-- The draft can be moved: it is the file that was written, or the link that
led there. -/
theorem exists_entry (bytes : List UInt8) :
    ∃ entry, entry ≠ .directory ∧
      entry? (files.setAll (disk.names place) (.file bytes 0))
          (directory ++ [draft]) = some entry ∧
        locate (files.setAll (disk.names place) (.file bytes 0)) false
          (draftPath target) = .ok (directory ++ [draft], entry) := by
  let written := files.setAll (disk.names place) (.file bytes 0)
  have hfind : written.find false (draftPath target) =
      .ok (written.foundAt (directory ++ [draft])) :=
    hdrafted.ends.find (hdrafted.leads.setAll hdrafted.takes)
  obtain ⟨entry, hother, hentry⟩ : ∃ entry, entry ≠ Entry.directory ∧
      written.entry? (directory ++ [draft]) = some entry := by
    by_cases hmem : directory ++ [draft] ∈ disk.names place
    · exact ⟨.file bytes 0, nofun, entry?_setAll_of_mem hdrafted.takes hmem⟩
    · by_contra hnone
      -- Nothing but a link in the draft's place leads elsewhere.
      have hwritten := hdrafted.isWritten fun link hlink =>
        hnone ⟨.link link, nofun, (entry?_setAll_of_notMem hmem).trans hlink⟩
      exact hmem (hwritten ▸ List.mem_cons_self)
  refine ⟨entry, hother, hentry, ?_⟩
  unfold locate
  rw [hfind, foundAt, hentry]

/-- The draft stays where it is, because a step fails or because the draft is
another name of the target. -/
theorem draws_of_stays {taken : List UInt8} (htaken : disk.taken bytes = taken)
    (hwhy : disk.taken bytes = bytes → Fails disk files target ∨
      ∃ other ∈ disk.names (directory ++ [draft]),
        files.Names false target other) :
    Draws disk files (files.setAll (disk.names place) (.file taken 0)) target
      bytes := by
  have helse : ∀ other, ¬disk.Reaches files (draftPath target) other →
      entry? (files.setAll (disk.names place) (.file taken 0)) other =
        files.entry? other := fun other hother =>
    entry?_setAll_of_notMem fun hmem => hother ⟨place, hdrafted.names, hmem⟩
  refine ⟨fun other _ _ => helse other, fun reason herror => ?_,
    fun _ => helse, fun hwhole hunlinked => ?_,
    fun hwhole location link hlocation hlink => ?_⟩
  · rw [hdrafted.opened] at herror
    cases herror
  · have hplace := hdrafted.isWritten_of_unlinked hunlinked
    obtain rfl : taken = bytes := htaken.symm.trans hwhole
    by_cases htarget : ∃ other ∈ disk.names place, files.Names false target other
    · obtain ⟨other, hother, hnames⟩ := htarget
      refine Or.inl ⟨other, hnames, entry?_setAll_of_mem hdrafted.takes hother,
        fun location hlocation hapart => ?_⟩
      rw [hdrafted.names_iff, ← hplace] at hlocation
      exact absurd (hlocation ▸ hother) hapart
    · refine Or.inr ⟨(hwhy hwhole).resolve_right (hplace ▸ htarget),
        fun location hlocation => helse location ?_⟩
      rw [Disk.reaches_iff_of_names hdrafted.names]
      intro hmem
      rcases hlocation with hnames | hnot
      · exact htarget ⟨location, hmem, hnames⟩
      · exact hnot ⟨place, hdrafted.names, hmem⟩
  · rw [hdrafted.names_iff] at hlocation
    rcases hwhy hwhole with hfails | ⟨other, hother, hnames⟩
    · exact Or.inr ⟨hfails, helse⟩
    · have hshown := hdrafted.fits.entry?_of_mem_names hother
        (hlocation ▸ hlink)
      refine Or.inl ⟨other, hnames, ?_⟩
      rw [entry?_setAll_of_notMem, hshown]
      exact fun hmem => (hdrafted.takes other hmem).not_link link hshown

/-- The draft is moved to the target's place. -/
theorem draws_of_move (hends : EndsIn target above name) (hother : name ≠ draft)
    (hwhole : disk.taken bytes = bytes)
    (hfree : files.entry? (directory ++ [name]) ≠ some .directory) :
    Draws disk files ((files.setAll (disk.names place)
      (.file bytes 0)).moveWithin (directory ++ [draft])
        (directory ++ [name])) target bytes := by
  have hnames : ∀ {location}, files.Names false target location ↔
      location = directory ++ [name] :=
    names_iff_of_find (hends.find hdrafted.leads)
  obtain ⟨entry, -, hentry, -⟩ := hdrafted.exists_entry bytes
  have hplaces : directory ++ [name] ≠ directory ++ [draft] := by
    simpa using hother
  have hmoved := entry?_moveWithin_beside hentry hplaces (by simp) (by simp)
    (fun rest hrest => hdrafted.fits.tree.entry?_setAll_below hdrafted.takes
      hdrafted.not_directory hrest)
    (fun rest hrest => hdrafted.fits.tree.entry?_setAll_below hdrafted.takes
      hfree hrest)
  refine ⟨fun location htarget hdraft hreached => ?_, fun reason herror => ?_,
    fun hcut => absurd hwhole hcut, fun _ hunlinked => ?_,
    fun _ location link hlocation hlink => ?_⟩
  · rw [hmoved, if_neg fun hsame => htarget (hnames.mpr hsame),
      if_neg fun hsame => hdraft (hdrafted.names_iff.mpr hsame)]
    exact entry?_setAll_of_notMem fun hmem =>
      hreached ⟨place, hdrafted.names, hmem⟩
  · rw [hdrafted.opened] at herror
    cases herror
  · have hplace := hdrafted.isWritten_of_unlinked hunlinked
    rw [← hplace, entry?_setAll_of_mem hdrafted.takes List.mem_cons_self]
      at hentry
    refine Or.inl ⟨directory ++ [name], hnames.mpr rfl, ?_,
      fun other hother _ => ?_⟩
    · rw [hmoved, if_pos rfl, hentry]
    · rw [hdrafted.names_iff.mp hother, hmoved, if_neg hplaces.symm,
        if_pos rfl]
  · rw [hdrafted.names_iff.mp hlocation] at hlink
    have hkept : entry? (files.setAll (disk.names place) (.file bytes 0))
        (directory ++ [draft]) = files.entry? (directory ++ [draft]) :=
      entry?_setAll_of_notMem fun hmem =>
        (hdrafted.takes _ hmem).not_link link hlink
    refine Or.inl ⟨directory ++ [name], hnames.mpr rfl, ?_⟩
    rw [hmoved, if_pos rfl, ← hentry, hkept, hlink]

/-- A target that names an entry of its directory. -/
theorem draws_of_rename_beside (hends : EndsIn target above name)
    (hwhole : disk.taken bytes = bytes) :
    Draws disk files ((disk.rename (draftPath target) target
      (files.setAll (disk.names place) (.file bytes 0))).toOption.getD
        (files.setAll (disk.names place) (.file bytes 0))) target bytes := by
  let written := files.setAll (disk.names place) (.file bytes 0)
  have hnames : files.Names false target (directory ++ [name]) :=
    (names_iff_of_find (hends.find hdrafted.leads)).mpr rfl
  have hfind : written.find false target =
      .ok (written.foundAt (directory ++ [name])) :=
    hends.find (hdrafted.leads.setAll hdrafted.takes)
  have hstays := hdrafted.draws_of_stays hwhole
  obtain ⟨entry, hentry, hstands, hlocate⟩ := hdrafted.exists_entry bytes
  unfold Disk.rename
  cases hrefused : disk.refusal? target with
  | some reason => exact hstays fun _ => .inl (.refused hrefused)
  | none =>
      dsimp only
      by_cases hsame : disk.areSame (draftPath target) target written = true
      · rw [if_pos hsame]
        refine hstays fun _ => .inr ⟨directory ++ [name], ?_, hnames⟩
        exact List.mem_cons_of_mem _ (Disk.mem_otherNames_of_areSame hlocate
          hfind hsame)
      · rw [if_neg hsame]
        have hbelow : (directory ++ [draft]).isBelow (directory ++ [name]) =
            false := by
          simp [Location.isBelow]
        rw [rename_beside hlocate hentry hstands hfind hbelow]
        split
        · rename_i hstops
          refine hstays fun _ => ?_
          rcases hstops with hsame | hdirectory
          · exact .inr ⟨directory ++ [name], hsame ▸ List.mem_cons_self, hnames⟩
          · refine .inl (.directory fun location hlocation => ?_)
            rw [hlocation.eq hnames]
            exact directory_of_setAll hdrafted.takes hdirectory
        · rename_i hgoes
          rw [not_or] at hgoes
          have hfree : files.entry? (directory ++ [name]) ≠ some .directory :=
            mt ((keepsWays_setAll hdrafted.takes).directories _) hgoes.2
          exact hdrafted.draws_of_move hends
            (fun hsame => hgoes.1 (by rw [hsame])) hwhole hfree

/-- The move fails, or has nothing to do, or moves the draft. -/
theorem draws_of_rename
    (htarget : target.components = above ++ [.named name])
    (hwhole : disk.taken bytes = bytes) :
    Draws disk files ((disk.rename (draftPath target) target
      (files.setAll (disk.names place) (.file bytes 0))).toOption.getD
        (files.setAll (disk.names place) (.file bytes 0))) target bytes := by
  rcases endsIn_or_directory htarget with hends | hdirectory
  · exact hdrafted.draws_of_rename_beside hends hwhole
  · have hfails : Fails disk files target := by
      refine .directory fun location hlocation => ?_
      obtain ⟨found, hfind, rfl⟩ := hlocation
      obtain ⟨location, rfl⟩ := hdirectory hfind
      exact hdrafted.fits.tree.entry?_of_find hfind
    obtain ⟨entry, hentry, hstands, hlocate⟩ := hdrafted.exists_entry bytes
    have hkept : (disk.rename (draftPath target) target
        (files.setAll (disk.names place) (.file bytes 0))).toOption.getD
          (files.setAll (disk.names place) (.file bytes 0)) =
        files.setAll (disk.names place) (.file bytes 0) := by
      unfold Disk.rename
      split
      · rfl
      · split
        · rfl
        · exact rename_onto_directory hlocate hentry fun _ => hdirectory
    rw [hkept]
    exact hdrafted.draws_of_stays hwhole fun _ => .inl hfails

end Drafted

theorem draws_nothing {reason : OsError}
    (hopened : disk.opened (draftPath target) files = .error reason) :
    Draws disk files files target bytes where
  elsewhere _ _ _ _ := rfl
  unopened _ _ := rfl
  cut _ _ _ := rfl
  whole _ _ := Or.inr ⟨.unopened hopened, fun _ _ => rfl⟩
  linked _ _ _ _ _ := Or.inr ⟨.unopened hopened, fun _ _ => rfl⟩

theorem writeFile_draws (hfits : disk.Fits files) (text : String)
    (target : Path) :
    Draws disk files (writeFile disk text target files) target
      (Utf8.encode text) := by
  unfold writeFile Disk.write
  cases hopened : disk.opened (draftPath target) files with
  | error reason => exact draws_nothing hopened
  | ok place =>
      obtain ⟨above, name, draft, directory, htarget, hdrafted⟩ :=
        exists_drafted hfits hopened
      dsimp only
      by_cases hcut : (disk.taken (Utf8.encode text)).length <
          (Utf8.encode text).length
      · rw [if_pos hcut]
        refine hdrafted.draws_of_stays rfl fun hwhole => ?_
        rw [hwhole] at hcut
        exact absurd hcut (Nat.lt_irrefl _)
      · have hwhole := disk.taken_eq_of_length hcut
        rw [if_neg hcut, hwhole]
        exact hdrafted.draws_of_rename htarget hwhole

/-- A drawing to a file is whole or leaves the target as it was, and changes
nothing but the target, its draft, and what is written with the draft. -/
theorem draw_wholeOrNothing (disk : Disk) (format : OutputFormat)
    (target : Path) (graph : Graph) {surface : Surface}
    (hfits : disk.Fits surface.files) :
    (draw ⟨format, some target⟩ disk graph surface).screen = surface.screen ∧
      Draws disk surface.files
        (draw ⟨format, some target⟩ disk graph surface).files target
          (Utf8.encode (format.render graph)) :=
  ⟨rfl, writeFile_draws hfits (format.render graph) target⟩

end CallGraph.Drawing

namespace CallGraph.Sample

def drawingDirectory (draft : Entry) : FileSystem :=
  ((FileSystem.empty.set ["w"] .directory).set ["w", "kept.txt"]
    (.file (Utf8.encode "kept") 5)).set ["w", "out.tmp"] draft

/-- A full disk, on which the draft of a drawing is a second name of a file. -/
def fullDisk : Disk where
  room := some 3
  refusal? _ := none
  otherNames place :=
    if place = ["w", "out.tmp"] then [["w", "kept.txt"]]
    else if place = ["w", "kept.txt"] then [["w", "out.tmp"]]
    else []

def drawn (disk : Disk) (files : FileSystem) : FileSystem :=
  (Drawing.draw ⟨.dot, some ⟨"/w/out.dot"⟩⟩ disk Graph.empty ⟨files, ""⟩).files

theorem fullDisk_fits :
    fullDisk.Fits (drawingDirectory (.file (Utf8.encode "kept") 5)) where
  tree := by decide +kernel
  shared place other hother := by
    unfold fullDisk at hother
    refine ⟨.file (Utf8.encode "kept") 5, nofun, ?_⟩
    dsimp only at hother
    split at hother
    · rename_i hplace
      obtain rfl := List.mem_singleton.mp hother
      exact hplace ▸ ⟨by decide +kernel, by decide +kernel⟩
    · split at hother
      · rename_i hplace
        obtain rfl := List.mem_singleton.mp hother
        exact hplace ▸ ⟨by decide +kernel, by decide +kernel⟩
      · cases hother

theorem drawn_isWhole :
    fullDisk.Fits (drawingDirectory (.file (Utf8.encode "kept") 5)) ∧
      Drawing.Draws fullDisk (drawingDirectory (.file (Utf8.encode "kept") 5))
        (drawn fullDisk (drawingDirectory (.file (Utf8.encode "kept") 5)))
        ⟨"/w/out.dot"⟩ (Utf8.encode (Render.dot Graph.empty)) ∧
      Drawing.Draws .plain (drawingDirectory (.file (Utf8.encode "kept") 5))
        (drawn .plain (drawingDirectory (.file (Utf8.encode "kept") 5)))
        ⟨"/w/out.dot"⟩ (Utf8.encode (Render.dot Graph.empty)) ∧
      FileSystem.entry?
          (drawn .plain (drawingDirectory (.file (Utf8.encode "kept") 5)))
          ["w", "out.dot"] =
        some (.file (Utf8.encode (Render.dot Graph.empty)) 0) := by
  let surface : Drawing.Surface :=
    ⟨drawingDirectory (.file (Utf8.encode "kept") 5), ""⟩
  have hfull := @Drawing.draw_wholeOrNothing fullDisk .dot ⟨"/w/out.dot"⟩
    Graph.empty surface fullDisk_fits
  have hplain := @Drawing.draw_wholeOrNothing .plain .dot ⟨"/w/out.dot"⟩
    Graph.empty surface (Disk.plain_fits fullDisk_fits.tree)
  exact ⟨fullDisk_fits, hfull.2, hplain.2, by decide +kernel⟩

/-- A file with the name of the draft is lost, and the file that a link with
this name leads to is overwritten.  A draft stays behind if the target is a
directory.  On a full disk the draft stays as far as it was written, under
every name that it has. -/
theorem drawn_costsNeighbours :
    FileSystem.entry?
        (drawn .plain (drawingDirectory (.file (Utf8.encode "kept") 5)))
        ["w", "out.tmp"] = none ∧
      FileSystem.entry? (drawn .plain (drawingDirectory (.link ⟨"kept.txt"⟩)))
          ["w", "kept.txt"] =
        some (.file (Utf8.encode (Render.dot Graph.empty)) 0) ∧
      FileSystem.entry?
          (drawn .plain ((FileSystem.empty.set ["w"] .directory).set
            ["w", "out.dot"] .directory)) ["w", "out.tmp"] =
        some (.file (Utf8.encode (Render.dot Graph.empty)) 0) ∧
      FileSystem.entry?
          (drawn fullDisk (drawingDirectory (.file (Utf8.encode "kept") 5)))
          ["w", "kept.txt"] = some (.file (Utf8.encode "dig") 0) := by
  exact ⟨by decide +kernel, by decide +kernel, by decide +kernel,
    by decide +kernel⟩

end CallGraph.Sample
