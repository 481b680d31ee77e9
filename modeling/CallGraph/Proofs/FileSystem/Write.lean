import CallGraph.Proofs.FileSystem.Tree

namespace CallGraph

open CallGraph.Path (IsName Component)

namespace FileSystem

variable {files written : FileSystem} {followLast : Bool} {budget : Nat}
  {directory place source : Location} {above front rest : List Component}
  {found : Found} {path target : Path} {name : String} {entry other : Entry}
  {bytes : List UInt8} {modified : Int}

/-- Something stands at the place, or it is free. -/
def Names (files : FileSystem) (followLast : Bool) (path : Path)
    (place : Location) : Prop :=
  ∃ found, files.find followLast path = .ok found ∧ found.place = place

theorem place_foundAt (place : Location) :
    (files.foundAt place).place = place := by
  unfold foundAt
  cases files.entry? place <;> rfl

theorem names_iff_of_find
    (hfind : files.find followLast path = .ok (files.foundAt directory)) :
    files.Names followLast path place ↔ place = directory := by
  unfold Names
  rw [hfind]
  constructor
  · rintro ⟨found, hfound, rfl⟩
    rw [← Except.ok.inj hfound, place_foundAt]
  · rintro rfl
    exact ⟨_, rfl, place_foundAt place⟩

theorem Names.eq {followLast : Bool} {path : Path} {place other : Location}
    (hplace : files.Names followLast path place)
    (hother : files.Names followLast path other) : place = other := by
  obtain ⟨found, hfound, rfl⟩ := hplace
  obtain ⟨found', hfound', rfl⟩ := hother
  rw [Except.ok.inj (hfound.symm.trans hfound')]

structure TakesFile (files : FileSystem) (place : Location) : Prop where
  parent : files.entry? place.dropLast = some .directory
  free : ∀ entry, files.entry? place = some entry →
    ∃ bytes modified, entry = .file bytes modified

theorem TakesFile.not_directory (htakes : files.TakesFile place) :
    files.entry? place ≠ some .directory := by
  intro hdirectory
  obtain ⟨_, _, hfile⟩ := htakes.free _ hdirectory
  cases hfile

theorem TakesFile.not_link (htakes : files.TakesFile place) (link : Path) :
    files.entry? place ≠ some (.link link) := by
  intro hlink
  obtain ⟨_, _, hfile⟩ := htakes.free _ hlink
  cases hfile

theorem TakesFile.ne_nil (htakes : files.TakesFile place) : place ≠ [] := by
  rintro rfl
  exact htakes.not_directory rfl

theorem IsTree.takesFile_of_writePlace (htree : files.IsTree)
    (hwrite : files.writePlace path = .ok place) :
    files.Names true path place ∧ files.TakesFile place := by
  unfold writePlace at hwrite
  split at hwrite
  · split at hwrite
    · split at hwrite <;> cases hwrite
    · cases hwrite
  · cases hwrite
  · rename_i location bytes' modified' hfind
    obtain rfl := Except.ok.inj hwrite
    obtain ⟨hfound, hparent⟩ := htree.find_stands hfind
    refine ⟨⟨_, hfind, rfl⟩, ⟨hparent, fun entry hentry => ?_⟩⟩
    unfold Found.place foundAt at hfound
    rw [hentry] at hfound
    exact ⟨bytes', modified', (Found.present.inj hfound).2⟩
  · cases hwrite
  · rename_i location hfind
    obtain rfl := Except.ok.inj hwrite
    obtain ⟨hfound, hparent⟩ := htree.find_stands hfind
    refine ⟨⟨_, hfind, rfl⟩, ⟨hparent, fun entry hentry => ?_⟩⟩
    unfold Found.place foundAt at hfound
    rw [hentry] at hfound
    cases hfound

theorem write_eq (hfind : files.find true path = .ok (files.foundAt place))
    (hlink : ∀ link, files.entry? place ≠ some (.link link)) :
    files.write path bytes modified =
      if files.entry? place = some .directory then .error .isDirectory
      else .ok (files.set place (.file bytes modified)) := by
  unfold write writePlace
  rw [hfind, foundAt]
  cases hentry : files.entry? place with
  | none => rfl
  | some entry =>
      cases entry with
      | link link => exact absurd hentry (hlink link)
      | _ => rfl

theorem exists_error_of_write {reason : OsError}
    (hfind : files.find true path = .error reason) :
    ∃ reason, files.write path bytes modified = .error reason := by
  unfold write writePlace
  rw [hfind]
  cases reason with
  | notFound =>
      dsimp only
      split
      · split <;> exact ⟨_, rfl⟩
      · exact ⟨_, rfl⟩
  | _ => exact ⟨_, rfl⟩

theorem makeBelow_eq {above : Except OsError FileSystem}
    (hmake : files.makeDirectory path ≠ .error .notFound) :
    files.makeBelow above path = files.makeIfMissing path := by
  unfold makeBelow makeIfMissing
  split
  · rfl
  · rename_i reason hfailed
    refine if_neg ?_
    rintro rfl
    exact hmake hfailed

theorem makeDirectories_eq (hsome : path.components ≠ [])
    (hmake : files.makeDirectory (ofComponents path.components) ≠
      .error .notFound) :
    files.makeDirectories path =
      files.makeIfMissing (ofComponents path.components) := by
  obtain ⟨last, above, hreverse⟩ :=
    List.exists_cons_of_ne_nil (mt List.reverse_eq_nil_iff.mp hsome)
  have hback := congrArg List.reverse hreverse
  rw [List.reverse_reverse] at hback
  rw [makeDirectories, hreverse, makeUpwards, ← hback, makeBelow_eq hmake]

theorem TakesFile.not_below (htakes : files.TakesFile place)
    (htree : files.IsTree) (hsource : files.entry? source ≠ some .directory)
    {rest : Location} (hrest : rest ≠ []) : source ++ rest ≠ place := by
  rintro rfl
  have hparent := htakes.parent
  rw [List.dropLast_append_of_ne_nil hrest] at hparent
  refine hsource ?_
  by_cases hlast : rest.dropLast = []
  · rwa [hlast, List.append_nil] at hparent
  · exact htree.above hparent (List.prefix_append _ _) (by simpa using hlast)

theorem IsTree.entry?_set_below (htree : files.IsTree)
    (htakes : files.TakesFile place)
    (hsource : files.entry? source ≠ some .directory) {rest : Location}
    (hrest : rest ≠ []) :
    entry? (files.set place entry) (source ++ rest) = none := by
  rw [find?_set_of_ne (htakes.not_below htree hsource hrest),
    htree.entry?_below hsource hrest]

def LeadsTo (files : FileSystem) (components : List Component)
    (directory : Location) : Prop :=
  files.follow true linkLimit files.workingDirectory (components ++ [.here]) =
    .ok (.present directory .directory)

theorem exists_directory_of_follow (hrest : rest ≠ [])
    (hfollow : files.follow followLast budget directory (front ++ rest) =
      .ok found) :
    ∃ place, files.follow true budget directory (front ++ [.here]) =
      .ok (.present place .directory) := by
  induction budget, directory, front using files.follow_induction with
  | nil budget directory => exact ⟨directory, follow_here.trans follow_nil⟩
  | root budget directory front ih =>
      rw [List.cons_append, follow_root] at hfollow ⊢
      exact ih hfollow
  | here budget directory front ih =>
      rw [List.cons_append, follow_here] at hfollow ⊢
      exact ih hfollow
  | above budget directory front ih =>
      rw [List.cons_append, follow_above] at hfollow ⊢
      exact ih hfollow
  | named budget directory name front hinto hthrough =>
      have hmore : front ++ rest ≠ [] := by simp [hrest]
      rw [List.cons_append] at hfollow ⊢
      obtain ⟨hlength, ⟨hentry, hfollow⟩ |
          ⟨target, left, hentry, rfl, htext, hfollow⟩⟩ :=
        follow_named_ok (Or.inl hmore) hfollow
      · rw [follow_into hlength hentry]
        exact hinto hentry hfollow
      · rw [← List.append_assoc] at hfollow
        rw [follow_link hlength hentry htext (Or.inr rfl),
          ← List.append_assoc]
        exact hthrough target left hentry rfl hfollow

/-- Where directories and links stand as before, so do the ways that lead to
directories. -/
structure KeepsWays (files files' : FileSystem) : Prop where
  working : files'.workingDirectory = files.workingDirectory
  directories : ∀ location, files.entry? location = some .directory →
    files'.entry? location = some .directory
  links : ∀ location target, files.entry? location = some (.link target) →
    files'.entry? location = some (.link target)

theorem KeepsWays.follow (hkeeps : files.KeepsWays written)
    (hfollow : files.follow true budget directory front =
      .ok (.present source .directory)) :
    written.follow true budget directory front =
      .ok (.present source .directory) := by
  induction budget, directory, front using files.follow_induction with
  | nil budget directory => rwa [follow_nil] at hfollow ⊢
  | root budget directory front ih =>
      rw [follow_root] at hfollow ⊢
      exact ih hfollow
  | here budget directory front ih =>
      rw [follow_here] at hfollow ⊢
      exact ih hfollow
  | above budget directory front ih =>
      rw [follow_above] at hfollow ⊢
      exact ih hfollow
  | named budget directory name front hinto hthrough =>
      obtain ⟨hlength, ⟨hentry, hfollow⟩ |
          ⟨target, left, hentry, rfl, htext, hfollow⟩⟩ :=
        follow_named_ok (Or.inr ⟨rfl, source, rfl⟩) hfollow
      · rw [follow_into hlength (hkeeps.directories _ hentry)]
        exact hinto hentry hfollow
      · rw [follow_link hlength (hkeeps.links _ _ hentry) htext (Or.inr rfl)]
        exact hthrough target left hentry rfl hfollow

theorem LeadsTo.kept (hkeeps : files.KeepsWays written)
    (hleads : files.LeadsTo above directory) :
    written.LeadsTo above directory := by
  unfold LeadsTo at hleads ⊢
  rw [hkeeps.working]
  exact hkeeps.follow hleads

theorem KeepsWays.locate (hkeeps : files.KeepsWays written)
    (hlocate : files.locate true path = .ok (directory, .directory)) :
    written.locate true path = .ok (directory, .directory) := by
  have hfind := find_of_locate hlocate
  have hplain := isPlain_of_find hfind
  rw [find_of_isPlain hplain] at hfind
  unfold FileSystem.locate
  rw [find_of_isPlain hplain, hkeeps.working, hkeeps.follow hfind]

theorem keepsWays_set (hdirectory : files.entry? place ≠ some .directory)
    (hlink : ∀ target, files.entry? place ≠ some (.link target)) :
    files.KeepsWays (files.set place entry) where
  working := rfl
  directories location hlocation := by
    rwa [find?_set_of_ne]
    rintro rfl
    exact hdirectory hlocation
  links location target hlocation := by
    rwa [find?_set_of_ne]
    rintro rfl
    exact hlink target hlocation

theorem follow_of_here
    (hfollow : files.follow true budget directory (front ++ [.here]) =
      .ok (.present source .directory)) :
    files.follow true budget directory front =
      .ok (.present source .directory) := by
  induction budget, directory, front using files.follow_induction with
  | nil budget directory => rwa [List.nil_append, follow_here] at hfollow
  | root budget directory front ih =>
      rw [List.cons_append, follow_root] at hfollow
      exact follow_root.trans (ih hfollow)
  | here budget directory front ih =>
      rw [List.cons_append, follow_here] at hfollow
      exact follow_here.trans (ih hfollow)
  | above budget directory front ih =>
      rw [List.cons_append, follow_above] at hfollow
      exact follow_above.trans (ih hfollow)
  | named budget directory name front hinto hthrough =>
      rw [List.cons_append] at hfollow
      obtain ⟨hlength, ⟨hentry, hfollow⟩ |
          ⟨target, left, hentry, rfl, htext, hfollow⟩⟩ :=
        follow_named_ok (Or.inr ⟨rfl, source, rfl⟩) hfollow
      · exact (follow_into hlength hentry).trans (hinto hentry hfollow)
      · rw [← List.append_assoc] at hfollow
        rw [follow_link hlength hentry htext (Or.inr rfl)]
        exact hthrough target left hentry rfl hfollow

theorem LeadsTo.locate (hleads : files.LeadsTo above directory)
    (hplain : IsPlain path) (hsteps : steps path = above) :
    files.locate true path = .ok (directory, .directory) := by
  unfold FileSystem.locate
  rw [find_of_isPlain hplain, hsteps, follow_of_here hleads]

theorem LeadsTo.exists_follow (hleads : files.LeadsTo above directory) :
    ∃ left, ∀ followLast rest, rest ≠ [] →
      files.follow followLast linkLimit files.workingDirectory
          (above ++ rest) = files.follow followLast left directory rest :=
  goesOn (Or.inr rfl) hleads

theorem exists_directory_of_unnamed {last : Component}
    (hlast : ∀ name, last ≠ .named name)
    (hfollow : files.follow followLast linkLimit files.workingDirectory
      (above ++ [last]) = .ok found) :
    ∃ place, found = .present place .directory := by
  have hsome : [last] ≠ [] := List.cons_ne_nil _ _
  obtain ⟨directory, hleads⟩ := exists_directory_of_follow hsome hfollow
  obtain ⟨left, hleft⟩ := LeadsTo.exists_follow hleads
  rw [hleft followLast [last] hsome] at hfollow
  cases last with
  | root =>
      rw [follow_root, follow_nil] at hfollow
      exact ⟨_, (Except.ok.inj hfollow).symm⟩
  | here =>
      rw [follow_here, follow_nil] at hfollow
      exact ⟨_, (Except.ok.inj hfollow).symm⟩
  | above =>
      rw [follow_above, follow_nil] at hfollow
      exact ⟨_, (Except.ok.inj hfollow).symm⟩
  | named name => exact absurd rfl (hlast name)

structure EndsIn (path : Path) (above : List Component) (name : String) :
    Prop where
  plain : IsPlain path
  steps : steps path = above ++ [.named name]
  short : ¬nameLimit < (Utf8.encode name).length

section EndsIn

variable (hends : EndsIn path above name)
include hends

theorem EndsIn.find_last (hleads : files.LeadsTo above directory)
    (hentry : ∀ link, files.entry? (directory ++ [name]) =
      some (.link link) → followLast = false) :
    files.find followLast path =
      .ok (files.foundAt (directory ++ [name])) := by
  obtain ⟨left, hleft⟩ := hleads.exists_follow
  rw [find_of_isPlain hends.plain, hends.steps,
    hleft followLast _ (List.cons_ne_nil _ _)]
  exact follow_last hends.short hentry

theorem EndsIn.find (hleads : files.LeadsTo above directory) :
    files.find false path = .ok (files.foundAt (directory ++ [name])) :=
  hends.find_last hleads fun _ _ => rfl

theorem EndsIn.exists_directory
    (hfind : files.find followLast path = .ok found) :
    ∃ directory, files.LeadsTo above directory := by
  rw [find_of_isPlain hends.plain, hends.steps] at hfind
  exact exists_directory_of_follow (List.cons_ne_nil _ _) hfind

end EndsIn

theorem endsIn_of_find (hsteps : steps path = above ++ [.named name])
    (hfind : files.find followLast path = .ok found) :
    EndsIn path above name := by
  refine ⟨isPlain_of_find hfind, hsteps, fun hlong => ?_⟩
  have hsome : [Component.named name] ≠ [] := List.cons_ne_nil _ _
  rw [find_of_isPlain (isPlain_of_find hfind), hsteps] at hfind
  obtain ⟨directory, hleads⟩ := exists_directory_of_follow hsome hfind
  obtain ⟨left, hleft⟩ := LeadsTo.exists_follow hleads
  rw [hleft followLast _ hsome, follow_named, if_pos hlong] at hfind
  cases hfind

theorem endsIn_or_directory (hpath : path.components = above ++ [.named name]) :
    EndsIn path above name ∨
      ∀ {files : FileSystem} {found : Found}, files.find false path =
        .ok found → ∃ place, found = .present place .directory := by
  by_cases hends : EndsIn path above name
  · exact Or.inl hends
  · refine Or.inr fun {files found} hfind => ?_
    have hsteps : steps path = above ++ [.named name] ∨
        steps path = above ++ [.named name] ++ [.here] := by
      unfold steps
      rw [hpath]
      split
      · exact Or.inl (List.append_nil _)
      · exact Or.inr rfl
    rcases hsteps with hsteps | hsteps
    · exact absurd (endsIn_of_find hsteps hfind) hends
    · rw [find_of_isPlain (isPlain_of_find hfind), hsteps] at hfind
      exact exists_directory_of_unnamed (by simp) hfind

theorem exists_directory_of_fileName? (hname : path.fileName? = none)
    (hfind : files.find followLast path = .ok found) :
    ∃ place, found = .present place .directory := by
  have hplain := isPlain_of_find hfind
  obtain ⟨front, last, hcomponents⟩ :=
    (List.eq_nil_or_concat path.components).resolve_left
      (Path.components_ne_nil hplain.some)
  rw [List.concat_eq_append] at hcomponents
  have hlast : ∀ name, last ≠ .named name := by
    rintro name rfl
    unfold Path.fileName? at hname
    rw [hcomponents, List.getLast?_concat] at hname
    cases hname
  rw [find_of_isPlain hplain, steps, hcomponents] at hfind
  split at hfind
  · rw [List.append_nil] at hfind
    exact exists_directory_of_unnamed hlast hfind
  · exact exists_directory_of_unnamed (by simp) hfind

section Rename

variable (hlocate : files.locate false path = .ok (source, entry))
  (hentry : entry ≠ .directory)
include hlocate hentry

theorem rename_onto_directory
    (hfind : ∀ found, files.find false target = .ok found →
      ∃ place, found = .present place .directory) :
    (files.rename path target).toOption.getD files = files := by
  have hreplace : ∀ place, files.mayReplace place entry .directory =
      .error .isDirectory := by
    cases entry with
    | directory => exact absurd rfl hentry
    | file => exact fun _ => rfl
    | link => exact fun _ => rfl
  unfold rename
  rw [hlocate]
  dsimp only
  rw [if_neg hentry]
  cases hfound : files.find false target with
  | error => rfl
  | ok found =>
      obtain ⟨place, rfl⟩ := hfind found hfound
      dsimp only
      rw [hreplace]
      split
      · rfl
      · split <;> rfl

theorem rename_eq (hfind : files.find false target = .ok (files.foundAt place))
    (hother : place ≠ source) (hbelow : source.isBelow place = false) :
    files.rename path target =
      if files.entry? place = some .directory then .error .isDirectory
      else .ok (files.moveWithin source place) := by
  unfold rename
  rw [hlocate]
  dsimp only
  rw [if_neg hentry, hfind, foundAt]
  cases hplace : files.entry? place with
  | none =>
      dsimp only
      rw [hbelow]
      rfl
  | some old =>
      have hreplace : files.mayReplace place entry old =
          if old = .directory then .error .isDirectory else .ok () := by
        cases entry with
        | directory => exact absurd rfl hentry
        | _ => cases old <;> rfl
      dsimp only
      rw [if_neg hother, hbelow, hreplace]
      by_cases hdirectory : old = .directory
      · simp [hdirectory]
      · simp [hdirectory]

theorem rename_beside (hsource : files.entry? source = some entry)
    (hfind : files.find false target = .ok (files.foundAt place))
    (hbelow : source.isBelow place = false) :
    (files.rename path target).toOption.getD files =
      if place = source ∨ files.entry? place = some .directory then files
      else files.moveWithin source place := by
  by_cases hsame : place = source
  · rw [if_pos (Or.inl hsame)]
    unfold rename
    rw [hlocate]
    dsimp only
    rw [if_neg hentry, hfind, foundAt, hsame, hsource]
    dsimp only
    rw [if_pos rfl]
    rfl
  · rw [rename_eq hlocate hentry hfind hsame hbelow]
    by_cases hdirectory : files.entry? place = some .directory
    · rw [if_pos hdirectory, if_pos (Or.inr hdirectory)]
      rfl
    · rw [if_neg hdirectory, if_neg (not_or.mpr ⟨hsame, hdirectory⟩)]
      rfl

end Rename

/-- A file or link that is moved over another one, or to a free name. -/
theorem entry?_moveWithin_beside
    (hsource : files.entry? source = some entry) (hother : place ≠ source)
    (hlength : place.length = source.length) (hsome : source ≠ [])
    (hunder : ∀ rest, rest ≠ [] → files.entry? (source ++ rest) = none)
    (hunder' : ∀ rest, rest ≠ [] → files.entry? (place ++ rest) = none)
    (location : Location) :
    entry? (files.moveWithin source place) location =
      if location = place then some entry
      else if location = source then none
      else files.entry? location := by
  have hapart : ¬place <+: source := fun hbefore =>
    hother (hbefore.eq_of_length hlength)
  by_cases hplace : location = place
  · rw [if_pos hplace, hplace, entry?_moveWithin_target hsome hapart, hsource]
  · rw [if_neg hplace]
    by_cases hroot : location = []
    · rw [hroot, if_neg hsome.symm]
      rfl
    · rw [entry?_moveWithin hsome hroot]
      by_cases hwithin : place <+: location
      · obtain ⟨rest, rfl⟩ := hwithin
        have hrest : rest ≠ [] := by
          rintro rfl
          exact hplace (List.append_nil place)
        have hnot : place ++ rest ≠ source := fun hsame =>
          hapart ⟨rest, hsame⟩
        rw [if_pos (List.prefix_append _ _), List.drop_left, if_neg hnot,
          hunder rest hrest, hunder' rest hrest, ite_self]
      · rw [if_neg hwithin]
        by_cases hsame : location = source
        · rw [if_pos hsame, hsame, if_pos List.prefix_rfl]
        · rw [if_neg hsame]
          split
          · rename_i hbelow
            obtain ⟨rest, rfl⟩ := hbelow
            rw [hunder rest]
            rintro rfl
            exact hsame (List.append_nil source)
          · rfl

end FileSystem

end CallGraph
