import CallGraph.Disk
import CallGraph.Proofs.FileSystem.Write

namespace CallGraph

open CallGraph.Path (Component)

namespace FileSystem

variable {files : FileSystem} {places : List Location} {entry : Entry}
  {location source directory : Location} {above : List Component}
  {bytes : List UInt8} {modified : Int}

theorem entry?_setAll_of_notMem (hlocation : location ∉ places) :
    entry? (files.setAll places entry) location = files.entry? location := by
  induction places generalizing files with
  | nil => rfl
  | cons place rest ih =>
      rw [List.mem_cons, not_or] at hlocation
      exact (ih hlocation.2).trans (find?_set_of_ne hlocation.1)

theorem workingDirectory_setAll :
    (files.setAll places entry).workingDirectory = files.workingDirectory := by
  induction places generalizing files with
  | nil => rfl
  | cons place rest ih => exact ih

section TakesFile

variable (htake : ∀ place ∈ places, files.TakesFile place)
include htake

theorem entry?_setAll_of_mem (hlocation : location ∈ places) :
    entry? (files.setAll places entry) location = some entry := by
  have hsome : ∀ place ∈ places, place ≠ [] := fun place hplace =>
    (htake place hplace).ne_nil
  clear htake
  induction places generalizing files with
  | nil => cases hlocation
  | cons place rest ih =>
      by_cases hrest : location ∈ rest
      · exact ih hrest fun other hother =>
          hsome other (List.mem_cons_of_mem place hother)
      · obtain rfl := (List.mem_cons.mp hlocation).resolve_right hrest
        have hset : entry? (files.set location entry) location = some entry := by
          rw [entry?_set (hsome location List.mem_cons_self), if_pos rfl]
        exact (entry?_setAll_of_notMem hrest).trans hset

theorem keepsWays_setAll : files.KeepsWays (files.setAll places entry) where
  working := workingDirectory_setAll
  directories location hlocation := by
    rwa [entry?_setAll_of_notMem]
    exact fun hmem => (htake location hmem).not_directory hlocation
  links location target hlocation := by
    rwa [entry?_setAll_of_notMem]
    exact fun hmem => (htake location hmem).not_link target hlocation

theorem directory_of_setAll
    (hlocation : entry? (files.setAll places (.file bytes modified)) location =
      some .directory) : files.entry? location = some .directory := by
  by_cases hmem : location ∈ places
  · rw [entry?_setAll_of_mem htake hmem] at hlocation
    cases hlocation
  · rwa [entry?_setAll_of_notMem hmem] at hlocation

theorem LeadsTo.setAll (hleads : files.LeadsTo above directory) :
    (files.setAll places entry).LeadsTo above directory :=
  hleads.kept (keepsWays_setAll htake)

theorem IsTree.entry?_setAll_below (htree : files.IsTree)
    (hsource : files.entry? source ≠ some .directory) {rest : Location}
    (hrest : rest ≠ []) :
    entry? (files.setAll places entry) (source ++ rest) = none := by
  rw [entry?_setAll_of_notMem, htree.entry?_below hsource hrest]
  intro hmem
  exact (htake _ hmem).not_below htree hsource hrest rfl

end TakesFile

end FileSystem

namespace Disk

open FileSystem

variable {disk : Disk} {files : FileSystem} {path : Path}
  {place other : Location} {bytes : List UInt8}

theorem taken_eq_of_length (disk : Disk)
    (hlength : ¬(disk.taken bytes).length < bytes.length) :
    disk.taken bytes = bytes := by
  unfold taken at hlength ⊢
  cases hroom : disk.room with
  | none => rfl
  | some room =>
      rw [hroom, Nat.not_lt, List.length_take] at hlength
      exact List.take_of_length_le (Nat.le_min.mp hlength).1

/-- The files can be what is seen of the disk: another name of an entry shows
the same, and a directory has none. -/
structure Fits (disk : Disk) (files : FileSystem) : Prop where
  tree : files.IsTree
  shared : ∀ place, ∀ other ∈ disk.otherNames place, ∃ entry ≠ .directory,
    files.entry? place = some entry ∧ files.entry? other = some entry

/-- The place shows what is written to the path. -/
def Reaches (disk : Disk) (files : FileSystem) (path : Path)
    (place : Location) : Prop :=
  ∃ first, files.Names true path first ∧ place ∈ disk.names first

theorem Fits.takesFile_of_opened (hfits : disk.Fits files)
    (hopened : disk.opened path files = .ok place) :
    files.Names true path place ∧
      ∀ other ∈ disk.names place, files.TakesFile other := by
  unfold opened at hopened
  split at hopened
  · cases hopened
  · obtain ⟨hnames, htakes⟩ := hfits.tree.takesFile_of_writePlace hopened
    refine ⟨hnames, fun other hother => ?_⟩
    rcases List.mem_cons.mp hother with rfl | hother
    · exact htakes
    · obtain ⟨entry, _, hplace, hentry⟩ := hfits.shared place other hother
      refine ⟨hfits.tree.parent hentry, fun found hfound => ?_⟩
      rw [hentry] at hfound
      exact htakes.free found (hplace.trans hfound)

theorem Fits.entry?_of_mem_names (hfits : disk.Fits files) {entry : Entry}
    (hother : other ∈ disk.names place)
    (hplace : files.entry? place = some entry) :
    files.entry? other = some entry := by
  rcases List.mem_cons.mp hother with rfl | hother
  · exact hplace
  · obtain ⟨shown, _, hshown, hentry⟩ := hfits.shared place other hother
    rw [hentry, ← hshown, hplace]

theorem mem_otherNames_of_areSame {target : Path} {entry : Entry}
    (hlocate : files.locate false path = .ok (place, entry))
    (hfind : files.find false target = .ok (files.foundAt other))
    (hsame : disk.areSame path target files = true) :
    other ∈ disk.otherNames place := by
  unfold areSame at hsame
  rw [hlocate] at hsame
  unfold locate at hsame
  rw [hfind] at hsame
  unfold foundAt at hsame
  cases hother : files.entry? other with
  | none =>
      rw [hother] at hsame
      cases hsame
  | some entry =>
      rw [hother] at hsame
      exact List.contains_iff_mem.mp hsame

theorem reaches_iff_of_names (hnames : files.Names true path place) :
    disk.Reaches files path other ↔ other ∈ disk.names place := by
  refine ⟨fun ⟨first, hfirst, hother⟩ => ?_, fun hother => ⟨place, hnames, hother⟩⟩
  rwa [hnames.eq hfirst]

theorem plain_fits (htree : files.IsTree) : plain.Fits files :=
  ⟨htree, fun _ _ hother => absurd hother List.not_mem_nil⟩

end Disk

end CallGraph
