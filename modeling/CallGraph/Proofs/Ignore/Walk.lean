import CallGraph.Ignore.Walk
import CallGraph.Proofs.FileSystem.Change

namespace CallGraph

open FileSystem
open CallGraph.Path (IsName Component)

/-! A walk sees nothing of what differs below directories named like the cache,
apart from the paths that lead there. -/

section Agree

variable {files files' : FileSystem}
  (hclear : files.KeepsClearOf ".callweave")
  (hagrees : AgreesBut ".callweave" files files')
include hclear hagrees

theorem FileSystem.read_agrees {path : Path}
    (hpath : Component.named ".callweave" ∉ path.components) :
    files'.read path = files.read path := by
  unfold FileSystem.read
  rw [(locate_agrees hclear hagrees hpath).1]

theorem FileSystem.stat_agrees {path : Path}
    (hpath : Component.named ".callweave" ∉ path.components) :
    files'.stat path = files.stat path := by
  unfold FileSystem.stat
  rw [(locate_agrees hclear hagrees hpath).1]

theorem RuleLists.ofDirectory_agrees {directory : Location}
    (hdirectory : Spares ".callweave" directory) :
    ofDirectory files' directory = ofDirectory files directory := by
  have hsources : ∀ source ∈ sources, source.isAbsolute = false ∧
      Component.named ".callweave" ∉ Path.named source.text.toList := by
    decide
  have hsome : directory.path.text ≠ "" := by
    simp [Location.path]
  have hread : ∀ source ∈ sources,
      files'.read (directory.path.join source) =
        files.read (directory.path.join source) := by
    intro source hsource
    obtain ⟨hrelative, hother⟩ := hsources source hsource
    refine read_agrees hclear hagrees ?_
    rw [Path.components_join hsome hrelative,
      Path.components_location fun part hpart => (hdirectory part hpart).1]
    simp only [List.cons_append, List.mem_cons, reduceCtorEq, false_or,
      List.mem_append, List.mem_map, not_or]
    refine ⟨?_, hother⟩
    rintro ⟨part, hpart, heq⟩
    exact (hdirectory part hpart).2 (Component.named.inj heq)
  unfold ofDirectory
  refine congrArg _ ?_
  exact List.map_congr_left fun source hsource => by
    rw [hread source hsource]

end Agree

namespace RuleBook

theorem rulesAt?_forWalk (files : FileSystem) (top directory : Location) :
    (forWalk files top).rulesAt? directory =
      if directory ∈ ancestors top ++ files.directoriesBelow top ∧
          (RuleLists.ofDirectory files directory).isEmpty = false then
        some (RuleLists.ofDirectory files directory)
      else none := by
  have hasks : (forWalk files top).rulesAt? directory =
      ((ancestors top ++ files.directoriesBelow top).find? fun place =>
        !(RuleLists.ofDirectory files place).isEmpty && place == directory).map
          (RuleLists.ofDirectory files) := by
    unfold rulesAt? forWalk
    rw [List.find?_filter, List.find?_map]
    refine congrArg (Option.map _)
      (congrArg (List.find? · _) (funext fun place => ?_))
    simp only [Function.comp_apply, Bool.decide_and, Bool.decide_eq_true]
    rfl
  rw [hasks]
  cases hfind : (ancestors top ++ files.directoriesBelow top).find? fun place =>
      !(RuleLists.ofDirectory files place).isEmpty && place == directory with
  | none =>
      rw [Option.map_none, if_neg]
      rintro ⟨hmem, hsome⟩
      have hnone := List.find?_eq_none.mp hfind directory hmem
      simp [hsome] at hnone
  | some place =>
      have hplace := List.find?_some hfind
      simp only [Bool.and_eq_true, Bool.not_eq_true', beq_iff_eq] at hplace
      have hmem := List.mem_of_find?_eq_some hfind
      obtain ⟨hsome, rfl⟩ := hplace
      rw [if_pos ⟨hmem, hsome⟩, Option.map_some]

theorem mem_ancestors {directory location : Location} :
    directory ∈ ancestors location ↔ directory <+: location := by
  unfold ancestors
  simp only [List.mem_map, List.mem_reverse, List.mem_range]
  constructor
  · rintro ⟨length, -, rfl⟩
    exact List.take_prefix _ _
  · intro habove
    exact ⟨directory.length, Nat.lt_succ_of_le habove.length_le,
      (List.prefix_iff_eq_take.mp habove).symm⟩

theorem mem_directoriesBelow {files : FileSystem}
    {top directory : Location} :
    directory ∈ files.directoriesBelow top ↔
      top.isBelow directory = true ∧
        files.entry? directory = some .directory := by
  unfold directoriesBelow
  rw [List.mem_map]
  constructor
  · rintro ⟨stored, hstored, rfl⟩
    obtain ⟨hstored, hkept⟩ := List.mem_filter.mp hstored
    simp only [Bool.and_eq_true, beq_iff_eq] at hkept
    refine ⟨hkept.1, entry?_eq_some_iff.mpr (Or.inr ⟨?_, ?_⟩)⟩
    · intro hroot
      rw [hroot] at hkept
      simp [Location.isBelow] at hkept
    · rw [← hkept.2]
      exact hstored
  · rintro ⟨hbelow, hentry⟩
    rcases entry?_eq_some_iff.mp hentry with ⟨rfl, -⟩ | ⟨-, hmem⟩
    · simp [Location.isBelow] at hbelow
    · exact ⟨_, List.mem_filter.mpr ⟨hmem, by simp [hbelow]⟩, rfl⟩

section Agree

variable {files files' : FileSystem}
  (hclear : files.KeepsClearOf ".callweave")
  (hagrees : AgreesBut ".callweave" files files')
include hclear hagrees

theorem rulesAt?_agrees (top : Location) {directory : Location}
    (hdirectory : Spares ".callweave" directory) :
    (forWalk files' top).rulesAt? directory =
      (forWalk files top).rulesAt? directory := by
  have hmem : directory ∈ ancestors top ++ files'.directoriesBelow top ↔
      directory ∈ ancestors top ++ files.directoriesBelow top := by
    rw [List.mem_append, List.mem_append, mem_directoriesBelow,
      mem_directoriesBelow, hagrees.entries _ hdirectory.not_mem]
  simp only [rulesAt?_forWalk, hmem,
    RuleLists.ofDirectory_agrees hclear hagrees hdirectory]

theorem leavesOut_agrees (top : Location) {location : Location}
    (hlocation : Spares ".callweave" location) (isDirectory : Bool) :
    (forWalk files' top).leavesOut location isDirectory =
      (forWalk files top).leavesOut location isDirectory := by
  have hkind : ∀ kind,
      (forWalk files' top).verdictOfKind location isDirectory kind =
        (forWalk files top).verdictOfKind location isDirectory kind := by
    intro kind
    unfold verdictOfKind
    refine congrArg _ ?_
    refine List.map_congr_left fun directory hdirectory => ?_
    have habove := mem_ancestors.mp hdirectory
    rw [rulesAt?_agrees hclear hagrees top fun part hpart =>
      hlocation.dropLast part (habove.subset hpart)]
  have hverdict : (forWalk files' top).verdict location isDirectory =
      (forWalk files top).verdict location isDirectory := by
    unfold verdict
    rw [List.map_congr_left fun kind _ => hkind kind]
  unfold leavesOut
  rw [hverdict]

theorem reaches_agrees {top below : Location}
    (hlocation : Spares ".callweave" (top ++ below)) :
    (forWalk files' top).reaches top below =
      (forWalk files top).reaches top below := by
  have hdirectories : ∀ depth,
      (forWalk files' top).leavesOut (top ++ below.take depth) true =
        (forWalk files top).leavesOut (top ++ below.take depth) true := by
    intro depth
    refine leavesOut_agrees hclear hagrees top (fun part hpart => ?_) true
    refine hlocation part ?_
    rcases List.mem_append.mp hpart with hpart | hpart
    · exact List.mem_append_left _ hpart
    · exact List.mem_append_right _ (List.mem_of_mem_take hpart)
  unfold reaches
  simp only [leavesOut_agrees hclear hagrees top hlocation, hdirectories]

end Agree

end RuleBook

namespace FileSystem

def clearBelow (files : FileSystem) (top : Location) : KeyedSet Stored :=
  files.stored.filter fun stored =>
    top.isBelow stored.location && !stored.location.contains ".callweave"

section Agree

variable {files files' : FileSystem}
  (hclear : files.KeepsClearOf ".callweave")
  (hagrees : AgreesBut ".callweave" files files')

theorem mem_clearBelow {top : Location} {stored : Stored} :
    stored ∈ files.clearBelow top ↔ top.isBelow stored.location = true ∧
      ".callweave" ∉ stored.location ∧
        files.entry? stored.location = some stored.entry := by
  unfold clearBelow
  rw [KeyedSet.mem_filter, entry?_eq_some_iff]
  have haway : (!stored.location.contains ".callweave") = true ↔
      ".callweave" ∉ stored.location := by simp
  rw [Bool.and_eq_true, haway]
  constructor
  · rintro ⟨hmem, hbelow, hclear⟩
    refine ⟨hbelow, hclear, Or.inr ⟨?_, hmem⟩⟩
    intro hroot
    rw [hroot] at hbelow
    simp [Location.isBelow] at hbelow
  · rintro ⟨hbelow, hclear, ⟨hroot, -⟩ | ⟨-, hmem⟩⟩
    · rw [hroot] at hbelow
      simp [Location.isBelow] at hbelow
    · exact ⟨hmem, hbelow, hclear⟩

include hagrees in
theorem clearBelow_agrees (top : Location) :
    files'.clearBelow top = files.clearBelow top := by
  refine KeyedSet.ext_of_mem fun stored => ?_
  rw [mem_clearBelow, mem_clearBelow]
  refine and_congr_right fun _ => and_congr_right fun hstored => ?_
  rw [hagrees.entries _ hstored]

theorem eq_append_of_isBelow {top location : Location}
    (hbelow : top.isBelow location = true) :
    top ++ location.drop top.length = location := by
  unfold Location.isBelow at hbelow
  rw [Bool.and_eq_true] at hbelow
  obtain ⟨below, rfl⟩ := List.isPrefixOf_iff_prefix.mp hbelow.1
  rw [List.drop_left]

theorem filter_walkBelow
    (hnames : files.IsNamed)
    {top : Location} (htop : ".callweave" ∉ top) {keep : Location → Bool}
    (hkeep : ∀ below : Location, (∀ part ∈ below, IsName part) →
      ".callweave" ∈ below → keep below = false) :
    (files.walkBelow top).filter keep =
      (((files.clearBelow top).entries.filter fun stored =>
        isRegular stored.entry &&
          ((RuleBook.forWalk files top).reaches top
            (stored.location.drop top.length) &&
              keep (stored.location.drop top.length))).map fun stored =>
                stored.location.drop top.length) := by
  unfold walkBelow filesBelow clearBelow KeyedSet.filter
  dsimp only
  rw [List.filter_filter, List.filter_map, List.filter_filter,
    List.filter_filter]
  refine congrArg _ ?_
  refine List.filter_congr fun stored hstored => ?_
  simp only [Function.comp_apply]
  cases hbelow : top.isBelow stored.location with
  | false => simp
  | true =>
      have hlocation := eq_append_of_isBelow hbelow
      by_cases hmem : ".callweave" ∈ stored.location
      · rw [← hlocation, List.mem_append] at hmem
        rw [hkeep _ (fun part hpart => hnames stored hstored part
          (List.mem_of_mem_drop hpart)) (hmem.resolve_left htop)]
        simp
      · have hcontains : stored.location.contains ".callweave" = false := by
          simpa using hmem
        rw [hcontains]
        simp only [Bool.true_and, Bool.not_false, Bool.and_true]
        grind

include hclear hagrees in
/-- Of a walk below a directory nothing changes but paths with such a name in
them. -/
theorem walkBelow_agrees
    (hnames' : files'.IsNamed)
    {top : Location} (htop : Spares ".callweave" top) {keep : Location → Bool}
    (hkeep : ∀ below : Location, (∀ part ∈ below, IsName part) →
      ".callweave" ∈ below → keep below = false) :
    (files'.walkBelow top).filter keep =
      (files.walkBelow top).filter keep := by
  rw [filter_walkBelow hnames' htop.not_mem hkeep,
    filter_walkBelow hclear.names htop.not_mem hkeep,
    clearBelow_agrees hagrees]
  refine congrArg _ ?_
  refine List.filter_congr fun stored hstored => ?_
  obtain ⟨hbelow, haway, hentry⟩ := mem_clearBelow.mp hstored
  rw [RuleBook.reaches_agrees hclear hagrees]
  rw [eq_append_of_isBelow hbelow]
  intro part hpart
  refine ⟨isName_of_entry hclear.names hentry part hpart, ?_⟩
  rintro rfl
  exact haway hpart

theorem isName_of_mem_walkBelow
    (hnames : files.IsNamed)
    {top below : Location} (hbelow : below ∈ files.walkBelow top) :
    ∀ part ∈ below, IsName part := by
  obtain ⟨stored, hstored, rfl⟩ :=
    List.mem_map.mp (List.mem_filter.mp hbelow).1
  exact fun part hpart => hnames stored (List.mem_filter.mp hstored).1 part
    (List.mem_of_mem_drop hpart)

theorem components_of_mem_walk
    (hnames : files.IsNamed)
    {start path : Path} (hpath : path ∈ files.walk start) :
    ∃ below : List Component,
      path.components = start.components ++ below := by
  unfold walk at hpath
  split at hpath
  · obtain rfl := List.mem_singleton.mp hpath
    exact ⟨[], (List.append_nil _).symm⟩
  · split at hpath
    · rename_i hlocate
      obtain ⟨below, hbelow, rfl⟩ := List.mem_map.mp hpath
      exact ⟨_, Path.components_join_names
        (isName_of_mem_walkBelow hnames hbelow)
        (isPlain_of_locate hlocate).some⟩
    · cases hpath

include hclear hagrees in
theorem walk_agrees
    (hnames' : files'.IsNamed)
    (start : Path) {keep : Path → Bool}
    (hkeep : ∀ path : Path, Component.named ".callweave" ∈ path.components →
      keep path = false) :
    (files'.walk start).filter keep = (files.walk start).filter keep := by
  by_cases hstart : Component.named ".callweave" ∈ start.components
  · have hnone : ∀ {tree : FileSystem},
        tree.IsNamed →
          (tree.walk start).filter keep = [] := by
      intro tree hnames
      refine List.filter_eq_nil_iff.mpr fun path hpath => ?_
      obtain ⟨below, hcomponents⟩ := components_of_mem_walk hnames hpath
      rw [hkeep path (by rw [hcomponents]; exact List.mem_append_left _ hstart)]
      exact Bool.false_ne_true
    rw [hnone hnames', hnone hclear.names]
  · have hlocate : ∀ followLast,
        files'.locate followLast start = files.locate followLast start :=
      fun _ => (locate_agrees hclear hagrees hstart).1
    unfold walk
    rw [hlocate, hlocate]
    split
    · rfl
    · split
      · rename_i top htop
        rw [List.filter_map, List.filter_map]
        refine congrArg _ ?_
        refine walkBelow_agrees hclear hagrees hnames'
          ((locate_agrees hclear hagrees hstart).2 _ _ htop)
          fun below hbelow hmem => hkeep _ ?_
        rw [Path.components_join_names hbelow (isPlain_of_locate htop).some]
        exact List.mem_append_right _ (List.mem_map_of_mem hmem)
      · rfl

end Agree

end FileSystem

end CallGraph
