import CallGraph.Proofs.FileSystem.Follow

namespace CallGraph

open CallGraph.Path (IsName Component)

namespace FileSystem

variable {files files' : FileSystem} {location : Location} {entry : Entry}
  {followLast : Bool} {budget : Nat} {name : String}

/-! Trees that differ only below directories of one name.  A path that neither
names such a directory nor meets a link that does leads to the same in both. -/

def Spares (name : String) (location : Location) : Prop :=
  ∀ part ∈ location, IsName part ∧ part ≠ name

theorem Spares.not_mem {location : Location} (hspares : Spares name location) :
    name ∉ location :=
  fun hmem => (hspares name hmem).2 rfl

theorem spares_nil (name : String) : Spares name [] :=
  fun _ hpart => absurd hpart List.not_mem_nil

theorem Spares.concat {location : Location} {part : String}
    (hspares : Spares name location) (hpart : IsName part ∧ part ≠ name) :
    Spares name (location ++ [part]) := by
  intro other hother
  rcases List.mem_append.mp hother with hother | hother
  · exact hspares other hother
  · rw [List.mem_singleton.mp hother]
    exact hpart

theorem Spares.dropLast {location : Location}
    (hspares : Spares name location) : Spares name location.dropLast :=
  fun part hpart => hspares part ((List.dropLast_sublist _).mem hpart)

/-- A tree in which every name is one. -/
def IsNamed (files : FileSystem) : Prop :=
  ∀ stored ∈ files.stored, ∀ part ∈ stored.location, IsName part

/-- A tree whose links do not name such a directory.  Links below one may. -/
structure KeepsClearOf (files : FileSystem) (name : String) : Prop where
  names : files.IsNamed
  working : Spares name files.workingDirectory
  links : ∀ location target, name ∉ location →
    files.entry? location = some (.link target) →
      Component.named name ∉ target.components

/-- Trees with the same at every place to which no directory of that name leads.
-/
structure AgreesBut (name : String) (files files' : FileSystem) : Prop where
  working : files'.workingDirectory = files.workingDirectory
  entries : ∀ location, name ∉ location →
    files'.entry? location = files.entry? location

theorem AgreesBut.refl (name : String) (files : FileSystem) :
    AgreesBut name files files :=
  ⟨rfl, fun _ _ => rfl⟩

/-- Trees with the same everywhere but at one place and below it. -/
structure AgreesOutside (place : Location) (files files' : FileSystem) :
    Prop where
  working : files'.workingDirectory = files.workingDirectory
  entries : ∀ location, ¬place <+: location →
    files'.entry? location = files.entry? location

theorem AgreesOutside.but {place : Location} (hname : name ∈ place)
    (hagrees : AgreesOutside place files files') :
    AgreesBut name files files' where
  working := hagrees.working
  entries location hlocation := hagrees.entries location fun hwithin =>
    hlocation (hwithin.subset hname)

theorem AgreesOutside.refl (place : Location) (files : FileSystem) :
    AgreesOutside place files files :=
  ⟨rfl, fun _ _ => rfl⟩

theorem AgreesOutside.trans {place : Location} {files'' : FileSystem}
    (hfirst : AgreesOutside place files files')
    (hsecond : AgreesOutside place files' files'') :
    AgreesOutside place files files'' where
  working := hsecond.working.trans hfirst.working
  entries location hlocation :=
    (hsecond.entries location hlocation).trans
      (hfirst.entries location hlocation)

theorem KeepsClearOf.of_agrees (hclear : files.KeepsClearOf name)
    (hagrees : AgreesBut name files files')
    (hnames : files'.IsNamed) : files'.KeepsClearOf name where
  names := hnames
  working := hagrees.working ▸ hclear.working
  links location target hlocation hentry :=
    hclear.links location target hlocation
      ((hagrees.entries location hlocation).symm.trans hentry)

theorem isName_of_entry
    (hnames : files.IsNamed)
    (hentry : files.entry? location = some entry) :
    ∀ part ∈ location, IsName part := by
  unfold entry? at hentry
  split at hentry
  · rename_i hempty
    rw [List.isEmpty_iff.mp hempty]
    exact fun _ hpart => absurd hpart List.not_mem_nil
  · obtain ⟨stored, hstored, -⟩ := Option.map_eq_some_iff.mp hentry
    obtain ⟨hmem, rfl⟩ := KeyedSet.find?_eq_some_iff.mp hstored
    exact hnames stored hmem

def Avoids (name : String) (components : List Component) : Prop :=
  ∀ part, .named part ∈ components → IsName part ∧ part ≠ name

theorem avoids_steps {path : Path}
    (hpath : Component.named name ∉ path.components) :
    Avoids name (steps path) := by
  intro part hpart
  have hmem : .named part ∈ path.components := by
    refine (List.mem_append.mp hpart).resolve_right ?_
    split <;> simp
  refine ⟨Path.isName_of_mem_components hmem, ?_⟩
  rintro rfl
  exact hpath hmem

theorem Avoids.tail {first : Component} {rest : List Component}
    (havoids : Avoids name (first :: rest)) : Avoids name rest :=
  fun part hpart => havoids part (List.mem_cons_of_mem _ hpart)

theorem Avoids.append {first second : List Component}
    (hfirst : Avoids name first) (hsecond : Avoids name second) :
    Avoids name (first ++ second) := fun part hpart =>
  (List.mem_append.mp hpart).elim (hfirst part) (hsecond part)

def Found.place : Found → Location
  | present location _ => location
  | absent location => location

def Settles (name : String) (result : Except OsError Found) : Prop :=
  ∀ found, result = .ok found → Spares name found.place

section Agree

variable (hclear : files.KeepsClearOf name)
  (hagrees : AgreesBut name files files')
include hclear hagrees

theorem follow_agrees {components : List Component} {directory : Location}
    (hdirectory : Spares name directory)
    (hcomponents : Avoids name components) :
    files'.follow followLast budget directory components =
        files.follow followLast budget directory components ∧
      Settles name (files.follow followLast budget directory components) := by
  induction budget, directory, components using files.follow_induction with
  | nil budget directory =>
      simp only [follow_nil, true_and]
      intro found hfound
      cases hfound
      exact hdirectory
  | root budget directory rest ih =>
      simp only [follow_root]
      exact ih (spares_nil name) hcomponents.tail
  | here budget directory rest ih =>
      simp only [follow_here]
      exact ih hdirectory hcomponents.tail
  | above budget directory rest ih =>
      simp only [follow_above]
      exact ih hdirectory.dropLast hcomponents.tail
  | named budget directory part rest hinto hthrough =>
      have hplace : Spares name (directory ++ [part]) :=
        hdirectory.concat (hcomponents part List.mem_cons_self)
      rw [follow_named, follow_named, hagrees.entries _ hplace.not_mem]
      split
      · exact ⟨rfl, nofun⟩
      · cases hentry : files.entry? (directory ++ [part]) with
        | none =>
            refine ⟨rfl, fun found hfound => ?_⟩
            dsimp only at hfound
            split at hfound <;> cases hfound
            exact hplace
        | some entry =>
            cases entry with
            | directory => exact hinto hentry hplace hcomponents.tail
            | file bytes modified =>
                refine ⟨rfl, fun found hfound => ?_⟩
                dsimp only at hfound
                split at hfound <;> cases hfound
                exact hplace
            | link target =>
                dsimp only
                split
                · refine ⟨rfl, fun found hfound => ?_⟩
                  cases hfound
                  exact hplace
                · cases budget with
                  | zero => exact ⟨rfl, fun _ hfound => by cases hfound⟩
                  | succ budget =>
                      rw [through_succ, through_succ]
                      split
                      · exact ⟨rfl, nofun⟩
                      · have htarget := hclear.links _ _ hplace.not_mem hentry
                        exact hthrough target budget hentry rfl hdirectory
                          ((avoids_steps htarget).append hcomponents.tail)

theorem find_agrees {path : Path}
    (hpath : Component.named name ∉ path.components) :
    files'.find followLast path = files.find followLast path ∧
      Settles name (files.find followLast path) := by
  have hfollow := @follow_agrees files files' followLast linkLimit name hclear
    hagrees (steps path) files.workingDirectory hclear.working
    (avoids_steps hpath)
  unfold find
  rw [hagrees.working]
  split
  · exact ⟨rfl, nofun⟩
  · split
    · exact ⟨rfl, nofun⟩
    · exact hfollow

theorem locate_agrees {path : Path}
    (hpath : Component.named name ∉ path.components) :
    files'.locate followLast path = files.locate followLast path ∧
      ∀ place entry, files.locate followLast path = .ok (place, entry) →
        Spares name place := by
  have hfind := @find_agrees files files' followLast name hclear hagrees path
    hpath
  refine ⟨by unfold locate; rw [hfind.1], fun place entry hlocate => ?_⟩
  exact hfind.2 _ (find_of_locate hlocate)

end Agree

end FileSystem

end CallGraph
