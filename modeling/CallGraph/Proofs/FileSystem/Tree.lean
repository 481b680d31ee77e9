import Mathlib.Data.List.Induction
import CallGraph.Proofs.FileSystem.Change

namespace CallGraph

open CallGraph.Path (IsName Component)

namespace FileSystem

variable {files : FileSystem} {directory place : Location} {entry : Entry}
  {followLast : Bool} {budget : Nat} {components tail : List Component}
  {names : List String} {found : Found}

structure IsFileName (name : String) : Prop where
  isName : IsName name
  noNul : Char.ofNat 0 ∉ name.toList
  short : ¬nameLimit < (Utf8.encode name).length

theorem isFileName_iff {name : String} :
    IsFileName name ↔ Path.IsPiece (.named name) ∧
      Char.ofNat 0 ∉ name.toList ∧
        ¬nameLimit < (Utf8.encode name).length :=
  ⟨fun hname => ⟨hname.isName, hname.noNul, hname.short⟩,
    fun ⟨hpiece, hnul, hshort⟩ => ⟨hpiece, hnul, hshort⟩⟩

instance (name : String) : Decidable (IsFileName name) :=
  decidable_of_iff' _ isFileName_iff

/-- Every entry has a name that fits and stands in a directory.  The directory
that is worked in is there. -/
structure IsTree (files : FileSystem) : Prop where
  names : ∀ stored ∈ files.stored.entries, ∀ part ∈ stored.location,
    IsFileName part
  parents : ∀ stored ∈ files.stored.entries,
    files.entry? stored.location.dropLast = some .directory
  working : files.entry? files.workingDirectory = some .directory

theorem isTree_iff : files.IsTree ↔
    (∀ stored ∈ files.stored.entries,
      (∀ part ∈ stored.location, IsFileName part) ∧
        files.entry? stored.location.dropLast = some .directory) ∧
      files.entry? files.workingDirectory = some .directory :=
  ⟨fun htree => ⟨fun stored hstored =>
      ⟨htree.names stored hstored, htree.parents stored hstored⟩,
        htree.working⟩,
    fun ⟨hstored, hworking⟩ => ⟨fun stored hmem => (hstored stored hmem).1,
      fun stored hmem => (hstored stored hmem).2, hworking⟩⟩

instance (files : FileSystem) : Decidable files.IsTree :=
  decidable_of_iff' _ isTree_iff

theorem IsTree.isNamed (htree : files.IsTree) : files.IsNamed :=
  fun stored hstored part hpart => (htree.names stored hstored part hpart).isName

theorem IsTree.isFileName (htree : files.IsTree)
    (hentry : files.entry? place = some entry) :
    ∀ part ∈ place, IsFileName part := by
  rcases entry?_eq_some_iff.mp hentry with ⟨rfl, -⟩ | ⟨-, hmem⟩
  · exact fun _ hpart => absurd hpart List.not_mem_nil
  · exact htree.names _ hmem

theorem IsTree.parent (htree : files.IsTree)
    (hentry : files.entry? place = some entry) :
    files.entry? place.dropLast = some .directory := by
  rcases entry?_eq_some_iff.mp hentry with ⟨rfl, -⟩ | ⟨-, hmem⟩
  · rfl
  · exact htree.parents _ hmem

theorem IsTree.above (htree : files.IsTree) {above : Location}
    (hentry : files.entry? place = some entry) (habove : above <+: place)
    (hother : above ≠ place) : files.entry? above = some .directory := by
  induction place using List.reverseRecOn generalizing entry with
  | nil => exact absurd (List.prefix_nil.mp habove) hother
  | append_singleton front last ih =>
      have hfront : files.entry? front = some .directory := by
        simpa using htree.parent hentry
      have hprefix := (List.prefix_concat_iff.mp habove).resolve_left hother
      by_cases hsame : above = front
      · rw [hsame, hfront]
      · exact ih hfront hprefix hsame

theorem IsTree.entry?_below (htree : files.IsTree)
    (hplace : files.entry? place ≠ some .directory) {rest : Location}
    (hrest : rest ≠ []) : files.entry? (place ++ rest) = none := by
  cases hentry : files.entry? (place ++ rest) with
  | none => rfl
  | some entry =>
      refine absurd (htree.above hentry (List.prefix_append _ _) ?_) hplace
      simpa using hrest.symm

theorem IsTree.set_directory (htree : files.IsTree)
    (hplace : files.entry? place = some .directory) {name : String}
    (hname : IsFileName name) :
    IsTree (files.set (place ++ [name]) .directory) := by
  have hkept : ∀ location, files.entry? location = some .directory →
      entry? (files.set (place ++ [name]) .directory) location =
        some .directory := by
    intro location hlocation
    rw [entry?_set (by simp)]
    split
    · rfl
    · exact hlocation
  refine ⟨fun stored hstored => ?_, fun stored hstored => ?_,
    hkept _ htree.working⟩
  · rcases KeyedSet.mem_put.mp hstored with rfl | ⟨hold, -⟩
    · intro part hpart
      rcases List.mem_append.mp hpart with hpart | hpart
      · exact htree.isFileName hplace part hpart
      · exact List.mem_singleton.mp hpart ▸ hname
    · exact htree.names stored hold
  · rcases KeyedSet.mem_put.mp hstored with rfl | ⟨hold, -⟩
    · exact hkept _ (by simpa using hplace)
    · exact hkept _ (htree.parents stored hold)

/-- What is found stands where it is found, and in a directory. -/
theorem IsTree.follow_stands (htree : files.IsTree)
    (hdirectory : files.entry? directory = some .directory)
    (hfollow : files.follow followLast budget directory components =
      .ok found) :
    files.foundAt found.place = found ∧
      files.entry? found.place.dropLast = some .directory := by
  induction budget, directory, components using files.follow_induction with
  | nil budget directory =>
      rw [follow_nil] at hfollow
      cases hfollow
      exact ⟨by rw [Found.place, foundAt, hdirectory],
        htree.parent hdirectory⟩
  | root budget directory rest ih => exact ih rfl (follow_root ▸ hfollow)
  | here budget directory rest ih => exact ih hdirectory (follow_here ▸ hfollow)
  | above budget directory rest ih =>
      exact ih (htree.parent hdirectory) (follow_above ▸ hfollow)
  | named budget directory name rest hinto hthrough =>
      have hparent : files.entry? (directory ++ [name]).dropLast =
          some .directory := by simpa using hdirectory
      rw [follow_named] at hfollow
      split at hfollow
      · cases hfollow
      · cases hentry : files.entry? (directory ++ [name]) with
        | none =>
            rw [hentry] at hfollow
            dsimp only at hfollow
            split at hfollow <;> cases hfollow
            exact ⟨by rw [Found.place, foundAt, hentry], hparent⟩
        | some entry =>
            rw [hentry] at hfollow
            cases entry with
            | directory => exact hinto hentry hentry hfollow
            | file bytes modified =>
                dsimp only at hfollow
                split at hfollow <;> cases hfollow
                exact ⟨by rw [Found.place, foundAt, hentry], hparent⟩
            | link target =>
                dsimp only at hfollow
                split at hfollow
                · cases hfollow
                  exact ⟨by rw [Found.place, foundAt, hentry], hparent⟩
                · cases budget with
                  | zero => cases hfollow
                  | succ budget =>
                      rw [through_succ] at hfollow
                      split at hfollow
                      · cases hfollow
                      · exact hthrough target budget hentry rfl hdirectory
                          hfollow

theorem IsTree.find_stands (htree : files.IsTree) {path : Path}
    (hfind : files.find followLast path = .ok found) :
    files.foundAt found.place = found ∧
      files.entry? found.place.dropLast = some .directory := by
  rw [find_of_isPlain (isPlain_of_find hfind)] at hfind
  exact htree.follow_stands htree.working hfind

theorem IsTree.entry?_of_find (htree : files.IsTree) {path : Path}
    (hfind : files.find followLast path = .ok (.present place entry)) :
    files.entry? place = some entry := by
  obtain ⟨hfound, -⟩ := htree.find_stands hfind
  unfold Found.place foundAt at hfound
  cases hentry : files.entry? place with
  | none => rw [hentry] at hfound; cases hfound
  | some other =>
      rw [hentry] at hfound
      rw [(Found.present.inj hfound).2]

theorem IsTree.entry?_of_locate (htree : files.IsTree) {path : Path}
    (hlocate : files.locate followLast path = .ok (place, entry)) :
    files.entry? place = some entry :=
  htree.entry?_of_find (find_of_locate hlocate)

theorem follow_names
    (hshort : ∀ name ∈ names, ¬nameLimit < (Utf8.encode name).length)
    (hentries : ∀ below, below <+: names →
      files.entry? (directory ++ below) = some .directory) :
    files.follow followLast budget directory (names.map .named) =
      .ok (.present (directory ++ names) .directory) := by
  induction names generalizing directory with
  | nil => rw [List.map_nil, follow_nil, List.append_nil]
  | cons first rest ih =>
      rw [List.map_cons, follow_into (hshort first List.mem_cons_self)
        (hentries [first] ⟨rest, rfl⟩)]
      have hrest := @ih (directory ++ [first])
        (fun name hname => hshort name (List.mem_cons_of_mem _ hname))
        fun below hbelow => by
          rw [List.append_assoc]
          exact hentries _ (List.cons_prefix_cons.mpr ⟨rfl, hbelow⟩)
      rw [hrest, List.append_assoc]
      rfl

theorem place_of_follow_names (htail : tail = [] ∨ tail = [.here])
    (hunlinked : ∀ below target, below <+: names →
      files.entry? (directory ++ below) ≠ some (.link target))
    (hfollow : files.follow followLast budget directory
      (names.map .named ++ tail) = .ok found) :
    found.place = directory ++ names := by
  induction names generalizing directory with
  | nil =>
      have hhere : files.follow followLast budget directory tail =
          .ok (.present directory .directory) := by
        rcases htail with rfl | rfl
        · exact follow_nil
        · exact follow_here.trans follow_nil
      rw [List.map_nil, List.nil_append, hhere] at hfollow
      cases hfollow
      exact (List.append_nil _).symm
  | cons first rest ih =>
      have hlast : ((rest.map Component.named ++ tail).isEmpty = true) →
          rest = [] := by
        intro hempty
        simpa using (List.append_eq_nil_iff.mp (List.isEmpty_iff.mp hempty)).1
      rw [List.map_cons, List.cons_append, follow_named] at hfollow
      split at hfollow
      · cases hfollow
      · cases hentry : files.entry? (directory ++ [first]) with
        | none =>
            rw [hentry] at hfollow
            dsimp only at hfollow
            split at hfollow <;> cases hfollow
            rename_i hempty
            rw [hlast hempty, Found.place]
        | some entry =>
            rw [hentry] at hfollow
            cases entry with
            | directory =>
                have hplace := ih (fun below target hbelow => by
                  rw [List.append_assoc]
                  exact hunlinked _ target
                    (List.cons_prefix_cons.mpr ⟨rfl, hbelow⟩)) hfollow
                rw [hplace, List.append_assoc]
                rfl
            | file bytes modified =>
                dsimp only at hfollow
                split at hfollow <;> cases hfollow
                rename_i hempty
                rw [hlast hempty, Found.place]
            | link target =>
                exact absurd hentry (hunlinked [first] target ⟨rest, rfl⟩)

theorem ofComponents_names (place : Location) :
    ofComponents (.root :: place.map .named) = Location.path place := by
  have hnames : (place.map Component.named).map Component.text = place := by
    rw [List.map_map]
    exact List.map_id place
  unfold ofComponents Location.path
  dsimp only
  rw [hnames]

theorem steps_location (hnames : ∀ part ∈ place, IsName part) :
    steps (Location.path place) = .root :: place.map .named ++
      if place = [] then [.here] else [] := by
  induction place using List.reverseRecOn with
  | nil => rfl
  | append_singleton front last =>
      have hends : (Location.path (front ++ [last])).EndsWith last := by
        rw [← ofComponents_names, List.map_append, List.map_singleton,
          ← List.cons_append]
        exact Path.endsWith_ofComponents _ last
      rw [hends.steps (hnames last (by simp)),
        Path.components_location hnames]
      simp

theorem location_isPlain (hnames : ∀ part ∈ place, IsFileName part) :
    IsPlain (Location.path place) := by
  refine ⟨by simp [Location.path], fun hnul => ?_⟩
  rw [← ofComponents_names] at hnul
  rcases Path.mem_text_ofComponents hnul with hslash |
    ⟨component, hcomponent, hnul⟩
  · exact absurd hslash (by decide)
  · rcases List.mem_cons.mp hcomponent with rfl | hcomponent
    · exact absurd hnul (by decide)
    · obtain ⟨name, hname, rfl⟩ := List.mem_map.mp hcomponent
      exact (hnames name hname).noNul hnul

theorem IsTree.locate_location (htree : files.IsTree)
    (hplace : files.entry? place = some .directory) :
    files.locate followLast (Location.path place) =
      .ok (place, .directory) := by
  have hnames := htree.isFileName hplace
  have hfollow : files.follow followLast linkLimit files.workingDirectory
      (steps (Location.path place)) = .ok (.present place .directory) := by
    rw [steps_location fun part hpart => (hnames part hpart).isName,
      List.cons_append, follow_root]
    by_cases hroot : place = []
    · rw [hroot]
      exact follow_here.trans follow_nil
    · rw [if_neg hroot, List.append_nil]
      refine follow_names (fun part hpart => (hnames part hpart).short)
        fun below hbelow => ?_
      rw [List.nil_append]
      by_cases hsame : below = place
      · rw [hsame, hplace]
      · exact htree.above hplace hbelow hsame
  unfold locate
  rw [find_of_isPlain (location_isPlain hnames), hfollow]

end FileSystem

end CallGraph
