import CallGraph.Project
import CallGraph.Proofs.FileSystem.Tree
import CallGraph.Proofs.Ignore.Walk
import CallGraph.Proofs.Plan

namespace CallGraph

open FileSystem
open CallGraph.Path (IsName Component)

/-! Of the files below a root an enumeration finds those that the filter lets
pass, unless an ignore rule leaves them out: the filter does not ask these. -/

namespace RuleBook

variable {book : RuleBook} {top below : Location}

/-- A rule ignores a file or a directory on the way to it. -/
def Ignores (book : RuleBook) (top below : Location) : Prop :=
  ∃ depth, 0 < depth ∧ depth ≤ below.length ∧
    book.verdict (top ++ below.take depth) (decide (depth < below.length)) =
      .ignored

theorem leavesOut_eq_true_iff {location : Location} {isDirectory : Bool}
    (hplain : isHidden location = false) :
    book.leavesOut location isDirectory = true ↔
      book.verdict location isDirectory = .ignored := by
  unfold leavesOut
  cases book.verdict location isDirectory with
  | silent => simp [hplain]
  | ignored => simp
  | admitted => simp

theorem isHidden_append_take {depth : Nat} (hdepth : 0 < depth)
    (hsome : below ≠ [])
    (hplain : ∀ part ∈ below, (part.toList.head? == some '.') = false) :
    isHidden (top ++ below.take depth) = false := by
  have htaken : below.take depth ≠ [] := by
    simpa [hsome] using Nat.ne_of_gt hdepth
  unfold isHidden
  rw [List.getLast?_append, List.getLast?_eq_some_getLast htaken]
  exact hplain _ (List.mem_of_mem_take (List.getLast_mem htaken))

theorem reaches_eq_true_iff (hsome : below ≠ [])
    (hplain : ∀ part ∈ below, (part.toList.head? == some '.') = false) :
    book.reaches top below = true ↔ ¬book.Ignores top below := by
  have hfile : book.leavesOut (top ++ below) false = true ↔
      book.verdict (top ++ below.take below.length)
        (decide (below.length < below.length)) = .ignored := by
    have hhidden := @isHidden_append_take top below below.length
      (List.length_pos_iff.mpr hsome) hsome hplain
    rw [List.take_length] at hhidden ⊢
    rw [leavesOut_eq_true_iff hhidden, decide_eq_false (Nat.lt_irrefl _)]
  have hway : ∀ depth, 0 < depth → depth < below.length →
      (book.leavesOut (top ++ below.take depth) true = true ↔
        book.verdict (top ++ below.take depth)
          (decide (depth < below.length)) = .ignored) := by
    intro depth hdepth hless
    rw [leavesOut_eq_true_iff (isHidden_append_take hdepth hsome hplain),
      decide_eq_true hless]
  unfold reaches Ignores
  simp only [Bool.and_eq_true, Bool.not_eq_true', ← Bool.not_eq_true,
    List.all_eq_true, List.mem_range, Bool.or_eq_true, beq_iff_eq]
  constructor
  · rintro ⟨hkept, hall⟩ ⟨depth, hdepth, hle, hignored⟩
    rcases Nat.lt_or_eq_of_le hle with hless | rfl
    · rcases hall depth hless with hzero | hkept
      · exact Nat.ne_of_gt hdepth hzero
      · exact hkept ((hway depth hdepth hless).mpr hignored)
    · exact hkept (hfile.mpr hignored)
  · intro hnone
    refine ⟨fun hleft => hnone ⟨below.length, List.length_pos_iff.mpr hsome,
      Nat.le_refl _, hfile.mp hleft⟩, fun depth hless => ?_⟩
    rcases Nat.eq_zero_or_pos depth with hzero | hdepth
    · exact Or.inl hzero
    · exact Or.inr fun hleft => hnone ⟨depth, hdepth, Nat.le_of_lt hless,
        (hway depth hdepth hless).mp hleft⟩

end RuleBook

namespace FileSystem

variable {files : FileSystem} {top below : Location}

theorem mem_filesBelow : below ∈ files.filesBelow top ↔
    below ≠ [] ∧ ∃ bytes modified,
      files.entry? (top ++ below) = some (.file bytes modified) := by
  unfold filesBelow
  rw [List.mem_map]
  constructor
  · rintro ⟨stored, hstored, rfl⟩
    obtain ⟨hstored, hkept⟩ := List.mem_filter.mp hstored
    obtain ⟨hbelow, hregular⟩ := Bool.and_eq_true_iff.mp hkept
    have hlocation := eq_append_of_isBelow hbelow
    obtain ⟨location, entry⟩ := stored
    obtain ⟨bytes, modified, rfl⟩ : ∃ bytes modified,
        entry = .file bytes modified := by
      cases entry with
      | file bytes modified => exact ⟨bytes, modified, rfl⟩
      | directory => cases hregular
      | link => cases hregular
    unfold Location.isBelow at hbelow
    have hlength : top.length < location.length := by simp_all
    refine ⟨by simpa using hlength, bytes, modified, ?_⟩
    rw [hlocation]
    refine entry?_eq_some_iff.mpr (Or.inr ⟨?_, hstored⟩)
    rintro rfl
    exact Nat.not_lt_zero _ hlength
  · rintro ⟨hsome, bytes, modified, hentry⟩
    have hmem := ((entry?_eq_some_iff.mp hentry).resolve_left
      fun ⟨hroot, _⟩ => hsome (List.append_eq_nil_iff.mp hroot).2).2
    have hlength : 0 < below.length := List.length_pos_iff.mpr hsome
    refine ⟨_, List.mem_filter.mpr ⟨hmem, ?_⟩, List.drop_left⟩
    simp [Location.isBelow, isRegular, hlength]

end FileSystem

namespace Project

variable {project : Project} {files : FileSystem} {path : Path}
  {patterns : List String} {top below : Location}

/-- A project in a directory of a tree, to which the path leads by which it was
opened. -/
structure LiesAt (project : Project) (top : Location) (files : FileSystem) :
    Prop where
  tree : files.IsTree
  root : project.root = top.path
  opened : files.locate true project.openedAs = .ok (top, .directory)

theorem liesAt_of_openAt (htree : files.IsTree)
    (hopened : openAt path patterns files = .ok project)
    (htop : files.locate true path = .ok (top, .directory)) :
    project.LiesAt top files := by
  unfold openAt at hopened
  rw [htop] at hopened
  dsimp only at hopened
  split at hopened
  · cases hopened
  · cases hopened
    exact ⟨htree, rfl, htop⟩

section Lies

variable (hlies : project.LiesAt top files)
include hlies

theorem LiesAt.standing : files.entry? top = some .directory :=
  hlies.tree.entry?_of_locate hlies.opened

theorem LiesAt.located (followLast : Bool) :
    files.locate followLast project.root = .ok (top, .directory) := by
  rw [hlies.root]
  exact hlies.tree.locate_location hlies.standing

theorem LiesAt.isName_top : ∀ part ∈ top, IsName part := fun part hpart =>
  (hlies.tree.isFileName hlies.standing part hpart).isName

theorem LiesAt.root_components :
    project.root.components = .root :: top.map .named := by
  rw [hlies.root, Path.components_location hlies.isName_top]

theorem LiesAt.root_text : project.root.text ≠ "" := by
  rw [hlies.root]
  simp [Location.path]

theorem LiesAt.below?_of_components {rest : List Component}
    (hcomponents : path.components = project.root.components ++ rest) :
    ∃ relative, Path.below? project.root path = some relative ∧
      relative.components = rest := by
  refine Path.below?_of_components ?_ hcomponents
  rw [hlies.root_components]
  exact List.cons_ne_nil _ _

theorem LiesAt.relative?_of_components {rest : List Component}
    (hcomponents : path.components = project.root.components ++ rest) :
    ∃ relative, project.relative? path = some relative ∧
      relative.components = rest := by
  obtain ⟨relative, hrelative, hrest⟩ := hlies.below?_of_components hcomponents
  refine ⟨relative, ?_, hrest⟩
  unfold relative?
  rw [hrelative]

end Lies

/-- The unit that is named by the way down from the root. -/
def unitBelow (below : Location) : SourceUnit :=
  ⟨String.intercalate "/" below⟩

section Below

variable (hlies : project.LiesAt top files)
  (hnames : ∀ part ∈ below, IsName part)
include hlies hnames

theorem LiesAt.pathOf_components :
    (project.pathOf (unitBelow below)).components =
      project.root.components ++ below.map .named :=
  Path.components_join_names hnames hlies.root_text

theorem LiesAt.ofPath_pathOf :
    SourceUnit.ofPath project.root (project.pathOf (unitBelow below)) =
      unitBelow below := by
  obtain ⟨relative, hrelative, hcomponents⟩ :=
    hlies.below?_of_components (hlies.pathOf_components hnames)
  unfold SourceUnit.ofPath
  rw [hrelative, Option.getD_some]
  dsimp only
  rw [hcomponents, List.map_map]
  exact congrArg (fun names => SourceUnit.mk (String.intercalate "/" names))
    (List.map_id below)

theorem LiesAt.tracks_pathOf :
    project.tracks (project.pathOf (unitBelow below)) = true ↔
      (project.pathOf (unitBelow below)).isJava = true ∧
        project.excludes (project.pathOf (unitBelow below)) = false := by
  obtain ⟨relative, hrelative, -⟩ :=
    hlies.relative?_of_components (hlies.pathOf_components hnames)
  unfold tracks
  rw [hrelative]
  simp

theorem LiesAt.plain_of_not_excludes
    (hkept : project.excludes (project.pathOf (unitBelow below)) = false) :
    ∀ part ∈ below, (part.toList.head? == some '.') = false := by
  obtain ⟨relative, hrelative, hcomponents⟩ :=
    hlies.relative?_of_components (hlies.pathOf_components hnames)
  unfold excludes at hkept
  rw [hrelative, Option.getD_some] at hkept
  dsimp only at hkept
  rw [hcomponents] at hkept
  intro part hpart
  have hplain := (Bool.or_eq_false_iff.mp hkept).1
  rw [List.any_eq_false] at hplain
  simpa [isHiddenComponent] using
    hplain (.named part) (List.mem_map_of_mem hpart)

end Below

theorem unitBelow_injective {other : Location}
    (hnames : ∀ part ∈ below, IsName part)
    (hother : ∀ part ∈ other, IsName part)
    (hsame : unitBelow below = unitBelow other) : below = other := by
  have htext : String.intercalate "/" below = String.intercalate "/" other :=
    congrArg SourceUnit.path hsame
  have hnamed := congrArg (fun text : String => Path.named text.toList) htext
  rw [Path.named_intercalate hnames, Path.named_intercalate hother] at hnamed
  exact (List.map_inj_right fun _ _ => Component.named.inj).mp hnamed

/-- The units of an enumeration are the ways down to the files that the walk
finds and the filter keeps. -/
theorem LiesAt.mem_enumerate_iff (hlies : project.LiesAt top files)
    {source : SourceUnit} :
    source ∈ (project.enumerate files).2 ↔
      ∃ below ∈ files.walkBelow top, unitBelow below = source ∧
        project.tracks (project.pathOf (unitBelow below)) = true := by
  have hwalk : files.walk project.root = (files.walkBelow top).map fun below =>
      project.pathOf (unitBelow below) := by
    unfold FileSystem.walk
    rw [hlies.located, hlies.located]
    rfl
  have hlisted : source ∈ (project.enumerate files).2 ↔
      source ∈ ((files.walk project.root).filter fun path =>
        path.isJava && !project.excludes path).map
          (SourceUnit.ofPath project.root) :=
    SourceUnit.mem_ofList
  rw [hlisted, hwalk]
  simp only [List.mem_map, List.mem_filter, Bool.and_eq_true,
    Bool.not_eq_true']
  constructor
  · rintro ⟨path, ⟨⟨below, hbelow, rfl⟩, hkept⟩, rfl⟩
    have hnames := isName_of_mem_walkBelow hlies.tree.isNamed hbelow
    exact ⟨below, hbelow, (hlies.ofPath_pathOf hnames).symm,
      (hlies.tracks_pathOf hnames).mpr hkept⟩
  · rintro ⟨below, hbelow, rfl, htracked⟩
    have hnames := isName_of_mem_walkBelow hlies.tree.isNamed hbelow
    exact ⟨_, ⟨⟨below, hbelow, rfl⟩, (hlies.tracks_pathOf hnames).mp htracked⟩,
      hlies.ofPath_pathOf hnames⟩

/-- An enumeration finds the unit of a file. -/
def Finds (project : Project) (files : FileSystem) (below : Location) : Prop :=
  SourceUnit.ofPath project.root (project.pathOf (unitBelow below)) ∈
    (project.enumerate files).2

/-- The filter tells of a file whether an enumeration finds it. -/
def FilterAgrees (project : Project) (files : FileSystem) (below : Location) :
    Prop :=
  project.tracks (project.pathOf (unitBelow below)) = true ↔
    project.Finds files below

/-- A file that the filter lets pass is found by an enumeration exactly if no
ignore rule leaves it out, and files that it does not let pass are never found.
Filter and enumeration thus agree on all files but those that only a rule leaves
out. -/
theorem tracked_foundUnlessIgnored (htree : files.IsTree)
    (hopened : openAt path patterns files = .ok project)
    (htop : files.locate true path = .ok (top, .directory))
    {bytes : List UInt8} {modified : Int}
    (hfile : files.entry? (top ++ below) = some (.file bytes modified)) :
    (project.Finds files below ↔
      project.tracks (project.pathOf (unitBelow below)) = true ∧
        ¬(RuleBook.forWalk files top).Ignores top below) ∧
      (project.FilterAgrees files below ↔
        ¬(project.tracks (project.pathOf (unitBelow below)) = true ∧
          (RuleBook.forWalk files top).Ignores top below)) := by
  have hlies := liesAt_of_openAt htree hopened htop
  have hsome : below ≠ [] := by
    rintro rfl
    rw [List.append_nil, hlies.standing] at hfile
    cases hfile
  have hnames : ∀ part ∈ below, IsName part := fun part hpart =>
    (htree.isFileName hfile part (List.mem_append_right _ hpart)).isName
  have hfinds : project.Finds files below ↔
      project.tracks (project.pathOf (unitBelow below)) = true ∧
        ¬(RuleBook.forWalk files top).Ignores top below := by
    unfold Finds
    rw [hlies.ofPath_pathOf hnames, hlies.mem_enumerate_iff]
    have hreaches :
        project.tracks (project.pathOf (unitBelow below)) = true →
          (below ∈ files.walkBelow top ↔
            ¬(RuleBook.forWalk files top).Ignores top below) := by
      intro htracked
      have hplain := hlies.plain_of_not_excludes hnames
        ((hlies.tracks_pathOf hnames).mp htracked).2
      unfold walkBelow
      rw [List.mem_filter, mem_filesBelow,
        RuleBook.reaches_eq_true_iff hsome hplain]
      exact and_iff_right ⟨hsome, bytes, modified, hfile⟩
    constructor
    · rintro ⟨other, hother, hsame, htracked⟩
      obtain rfl := unitBelow_injective
        (isName_of_mem_walkBelow htree.isNamed hother) hnames hsame
      exact ⟨htracked, (hreaches htracked).mp hother⟩
    · rintro ⟨htracked, hkept⟩
      exact ⟨below, (hreaches htracked).mpr hkept, rfl, htracked⟩
  refine ⟨hfinds, ?_⟩
  unfold FilterAgrees
  rw [hfinds]
  tauto

end Project

namespace Sample

def ignoringFiles : FileSystem :=
  ((((FileSystem.empty.set ["p"] .directory).set ["p", "gen"] .directory).set
    ["p", ".gitignore"] (.file (Utf8.encode "gen/\n") 5)).set
      ["p", "gen", "A.java"] (.file [] 5)).set ["p", "B.java"] (.file [] 5)

def ignoringProject : Project := ⟨⟨"/p"⟩, ⟨"/p"⟩, [], 0, ∅⟩

theorem ignoringProject_isOpened :
    Project.openAt ⟨"/p"⟩ [] ignoringFiles = .ok ignoringProject := by
  have hroot : ignoringFiles.locate true ⟨"/p"⟩ = .ok (["p"], .directory) := by
    decide +kernel
  unfold Project.openAt
  rw [hroot]
  rfl

theorem plainFile_isFound :
    ignoringProject.Finds ignoringFiles ["B.java"] ∧
      ¬(RuleBook.forWalk ignoringFiles ["p"]).Ignores ["p"] ["B.java"] := by
  have hfinds : ignoringProject.Finds ignoringFiles ["B.java"] := by
    unfold Project.Finds
    decide +kernel
  have hfile : ignoringFiles.entry? (["p"] ++ ["B.java"]) =
      some (.file [] 5) := by
    decide +kernel
  have hiff := (Project.tracked_foundUnlessIgnored (by decide +kernel)
    ignoringProject_isOpened (by decide +kernel) hfile).1
  exact ⟨hfinds, (hiff.mp hfinds).2⟩

/-- The filter lets an ignored file pass, which no enumeration finds. -/
theorem ignoredFile_isTrackedOnly :
    ignoringFiles.entry? ["p", "gen", "A.java"] = some (.file [] 5) ∧
      ignoringProject.tracks ⟨"/p/gen/A.java"⟩ = true ∧
        ¬ignoringProject.FilterAgrees ignoringFiles ["gen", "A.java"] := by
  have hsame : ignoringProject.pathOf
      (Project.unitBelow ["gen", "A.java"]) = ⟨"/p/gen/A.java"⟩ := by
    decide +kernel
  have htracked : ignoringProject.tracks ⟨"/p/gen/A.java"⟩ = true := by
    decide +kernel
  have hmissing : ¬ignoringProject.Finds ignoringFiles ["gen", "A.java"] := by
    unfold Project.Finds
    decide +kernel
  refine ⟨by decide +kernel, htracked, fun hagrees => hmissing ?_⟩
  rw [Project.FilterAgrees, hsame] at hagrees
  exact hagrees.mp htracked

end Sample

end CallGraph
