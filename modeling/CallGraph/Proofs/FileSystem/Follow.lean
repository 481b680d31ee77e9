import CallGraph.Proofs.Keyed
import CallGraph.Proofs.Path

namespace CallGraph

open CallGraph.Path (IsName Component)

namespace FileSystem

variable {files files' : FileSystem} {location : Location} {entry : Entry}
  {followLast : Bool} {budget : Nat} {directory : Location}
  {name : String} {rest : List Component}

def through (files : FileSystem) (followLast : Bool) :
    Nat → Location → Path → List Component → Except OsError Found
  | 0, _, _, _ => .error .tooManyLinks
  | budget + 1, directory, target, rest =>
      if target.text.isEmpty then .error .notFound
      else files.follow followLast budget directory (steps target ++ rest)

theorem through_succ {target : Path} :
    files.through followLast (budget + 1) directory target rest =
      if target.text.isEmpty then .error .notFound
      else files.follow followLast budget directory (steps target ++ rest) :=
  rfl

theorem follow_eq (files : FileSystem) (followLast : Bool) (budget : Nat) :
    files.follow followLast budget =
      files.followWith followLast (files.through followLast budget) := by
  cases budget <;> rfl

theorem follow_nil :
    files.follow followLast budget directory [] =
      .ok (.present directory .directory) := by
  rw [follow_eq, followWith]

theorem follow_root :
    files.follow followLast budget directory (.root :: rest) =
      files.follow followLast budget [] rest := by
  rw [follow_eq, followWith]

theorem follow_here :
    files.follow followLast budget directory (.here :: rest) =
      files.follow followLast budget directory rest := by
  rw [follow_eq, followWith]

theorem follow_above :
    files.follow followLast budget directory (.above :: rest) =
      files.follow followLast budget directory.dropLast rest := by
  rw [follow_eq, followWith]

theorem follow_named :
    files.follow followLast budget directory (.named name :: rest) =
      if nameLimit < (Utf8.encode name).length then .error .nameTooLong
      else
        match files.entry? (directory ++ [name]) with
        | none =>
            if rest.isEmpty then .ok (.absent (directory ++ [name]))
            else .error .notFound
        | some .directory =>
            files.follow followLast budget (directory ++ [name]) rest
        | some (.file bytes modified) =>
            if rest.isEmpty then
              .ok (.present (directory ++ [name]) (.file bytes modified))
            else .error .notDirectory
        | some (.link target) =>
            if rest.isEmpty && !followLast then
              .ok (.present (directory ++ [name]) (.link target))
            else files.through followLast budget directory target rest := by
  cases budget <;> rfl

def foundAt (files : FileSystem) (location : Location) : Found :=
  match files.entry? location with
  | none => .absent location
  | some entry => .present location entry

section Named

variable (hlength : ¬nameLimit < (Utf8.encode name).length)
include hlength

theorem follow_into
    (hentry : files.entry? (directory ++ [name]) = some .directory) :
    files.follow followLast budget directory (.named name :: rest) =
      files.follow followLast budget (directory ++ [name]) rest := by
  rw [follow_named, if_neg hlength, hentry]

theorem follow_through {target : Path}
    (hentry : files.entry? (directory ++ [name]) = some (.link target))
    (hgoes : rest ≠ [] ∨ followLast = true) :
    files.follow followLast budget directory (.named name :: rest) =
      files.through followLast budget directory target rest := by
  have hthrough : (rest.isEmpty && !followLast) = false := by
    rcases hgoes with hrest | hlast
    · simp [hrest]
    · simp [hlast]
  rw [follow_named, if_neg hlength, hentry]
  dsimp only
  rw [hthrough]
  rfl

theorem follow_link {target : Path}
    (hentry : files.entry? (directory ++ [name]) = some (.link target))
    (htext : ¬target.text.isEmpty = true)
    (hgoes : rest ≠ [] ∨ followLast = true) :
    files.follow followLast (budget + 1) directory (.named name :: rest) =
      files.follow followLast budget directory (steps target ++ rest) := by
  rw [follow_through hlength hentry hgoes, through_succ, if_neg htext]

theorem follow_last
    (hentry : ∀ target, files.entry? (directory ++ [name]) =
      some (.link target) → followLast = false) :
    files.follow followLast budget directory [.named name] =
      .ok (files.foundAt (directory ++ [name])) := by
  rw [follow_named, if_neg hlength]
  unfold foundAt
  cases hfound : files.entry? (directory ++ [name]) with
  | none => rfl
  | some entry =>
      cases entry with
      | directory => exact follow_nil
      | file => rfl
      | link target =>
          rw [hentry target hfound]
          rfl

end Named

/-- Following a path goes on in a directory, or behind a link with one link less
to go. -/
theorem follow_induction (files : FileSystem)
    {motive : Nat → Location → List Component → Prop}
    (nil : ∀ budget directory, motive budget directory [])
    (root : ∀ budget directory rest, motive budget [] rest →
      motive budget directory (.root :: rest))
    (here : ∀ budget directory rest, motive budget directory rest →
      motive budget directory (.here :: rest))
    (above : ∀ budget directory rest, motive budget directory.dropLast rest →
      motive budget directory (.above :: rest))
    (named : ∀ budget directory name rest,
      (files.entry? (directory ++ [name]) = some .directory →
        motive budget (directory ++ [name]) rest) →
      (∀ target left, files.entry? (directory ++ [name]) =
        some (.link target) → budget = left + 1 →
          motive left directory (steps target ++ rest)) →
      motive budget directory (.named name :: rest))
    (budget : Nat) (directory : Location) (components : List Component) :
    motive budget directory components := by
  induction budget using Nat.strongRecOn generalizing directory components with
  | ind budget hless =>
      induction components generalizing directory with
      | nil => exact nil budget directory
      | cons first rest ih =>
          cases first with
          | root => exact root _ _ _ (ih [])
          | here => exact here _ _ _ (ih directory)
          | above => exact above _ _ _ (ih directory.dropLast)
          | named name =>
              refine named _ _ _ _ (fun _ => ih (directory ++ [name])) ?_
              rintro target left - rfl
              exact hless left (Nat.lt_succ_self left) directory _

theorem follow_named_ok {found : Found}
    (hgoes : rest ≠ [] ∨
      followLast = true ∧ ∃ place, found = .present place .directory)
    (hfollow : files.follow followLast budget directory (.named name :: rest) =
      .ok found) :
    ¬nameLimit < (Utf8.encode name).length ∧
      (files.entry? (directory ++ [name]) = some .directory ∧
          files.follow followLast budget (directory ++ [name]) rest =
            .ok found ∨
        ∃ target left, files.entry? (directory ++ [name]) =
            some (.link target) ∧ budget = left + 1 ∧
          ¬target.text.isEmpty = true ∧
            files.follow followLast left directory (steps target ++ rest) =
              .ok found) := by
  rw [follow_named] at hfollow
  split at hfollow
  · cases hfollow
  · rename_i hlength
    refine ⟨hlength, ?_⟩
    -- What ends here is no directory.
    have hnothing : ∀ {ended : Found} {reason : OsError},
        (∀ place, ended ≠ .present place .directory) →
          (if rest.isEmpty then Except.ok ended else .error reason) ≠
            .ok found := by
      intro ended reason hended hsame
      split at hsame
      · rename_i hempty
        rcases hgoes with hrest | ⟨-, place, hplace⟩
        · exact hrest (List.isEmpty_iff.mp hempty)
        · exact hended place ((Except.ok.inj hsame).trans hplace)
      · cases hsame
    cases hentry : files.entry? (directory ++ [name]) with
    | none =>
        rw [hentry] at hfollow
        exact absurd hfollow (hnothing fun _ => nofun)
    | some entry =>
        rw [hentry] at hfollow
        cases entry with
        | directory => exact Or.inl ⟨rfl, hfollow⟩
        | file => exact absurd hfollow (hnothing fun _ => by simp)
        | link target =>
            have hthrough : (rest.isEmpty && !followLast) = false := by
              rcases hgoes with hrest | ⟨hlast, -⟩
              · simp [hrest]
              · simp [hlast]
            dsimp only at hfollow
            rw [hthrough] at hfollow
            cases budget with
            | zero => cases hfollow
            | succ left =>
                have hbehind : files.through followLast (left + 1) directory
                    target rest = .ok found := hfollow
                rw [through_succ] at hbehind
                split at hbehind
                · cases hbehind
                · rename_i htext
                  exact Or.inr ⟨target, left, rfl, rfl, htext, hbehind⟩

def GoesOn (files : FileSystem) (place : Location)
    (follow : Bool → List Component → Except OsError Found) : Prop :=
  ∃ left, ∀ followLast rest, rest ≠ [] →
    follow followLast rest = files.follow followLast left place rest

theorem goesOn {place : Location} {tail front : List Component}
    (htail : tail = [] ∨ tail = [.here])
    (hplace : files.follow true budget directory (front ++ tail) =
      .ok (.present place .directory)) :
    files.GoesOn place fun followLast rest =>
      files.follow followLast budget directory (front ++ rest) := by
  induction budget, directory, front using files.follow_induction with
  | nil budget directory =>
      have hhere : files.follow true budget directory tail =
          .ok (.present directory .directory) := by
        rcases htail with rfl | rfl
        · exact follow_nil
        · exact follow_here.trans follow_nil
      rw [List.nil_append, hhere] at hplace
      cases hplace
      exact ⟨budget, fun _ _ _ => rfl⟩
  | root budget directory front ih =>
      simp only [List.cons_append, follow_root] at hplace ⊢
      exact ih hplace
  | here budget directory front ih =>
      simp only [List.cons_append, follow_here] at hplace ⊢
      exact ih hplace
  | above budget directory front ih =>
      simp only [List.cons_append, follow_above] at hplace ⊢
      exact ih hplace
  | named budget directory name front hinto hthrough =>
      rw [List.cons_append] at hplace
      obtain ⟨hlength, ⟨hentry, hplace⟩ |
          ⟨target, left, hentry, rfl, htext, hplace⟩⟩ :=
        follow_named_ok (Or.inr ⟨rfl, place, rfl⟩) hplace
      · obtain ⟨left, hleft⟩ := hinto hentry hplace
        refine ⟨left, fun followLast rest hrest => ?_⟩
        exact (follow_into hlength hentry).trans (hleft followLast rest hrest)
      · rw [← List.append_assoc] at hplace
        obtain ⟨left', hleft⟩ := hthrough target left hentry rfl hplace
        refine ⟨left', fun followLast rest hrest => ?_⟩
        have hmore : front ++ rest ≠ [] := by simpa using fun _ => hrest
        refine Eq.trans ?_ (hleft followLast rest hrest)
        dsimp only
        rw [List.cons_append, follow_link hlength hentry htext (Or.inl hmore),
          List.append_assoc]

structure IsPlain (path : Path) : Prop where
  some : path.text ≠ ""
  noNul : Char.ofNat 0 ∉ path.text.toList

theorem find_of_isPlain {path : Path} (hplain : IsPlain path) :
    files.find followLast path = files.follow followLast linkLimit
      files.workingDirectory (steps path) := by
  unfold find
  rw [if_neg (by simpa using hplain.noNul), if_neg (by simpa using hplain.some)]

theorem find_of_locate {path : Path} {place : Location}
    (hlocate : files.locate followLast path = .ok (place, entry)) :
    files.find followLast path = .ok (.present place entry) := by
  unfold locate at hlocate
  split at hlocate
  · cases hlocate
  · cases hlocate
  · rename_i hfind
    cases hlocate
    exact hfind

theorem isPlain_of_find {path : Path} {found : Found}
    (hfind : files.find followLast path = .ok found) : IsPlain path := by
  unfold find at hfind
  split at hfind
  · cases hfind
  · rename_i hnul
    split at hfind
    · cases hfind
    · rename_i hempty
      exact ⟨by simpa using hempty, by simpa using hnul⟩

theorem isPlain_of_locate {path : Path} {place : Location}
    (hlocate : files.locate followLast path = .ok (place, entry)) :
    IsPlain path :=
  isPlain_of_find (find_of_locate hlocate)

theorem exists_follow_below {root : Path} {place : Location}
    (hroot : files.locate true root = .ok (place, .directory)) :
    ∃ left, ∀ followLast rest, rest ≠ [] →
      files.follow followLast linkLimit files.workingDirectory
          (root.components ++ rest) =
        files.follow followLast left place rest := by
  have hfind := find_of_locate hroot
  rw [find_of_isPlain (isPlain_of_locate hroot), steps] at hfind
  exact goesOn (by split <;> simp) hfind

theorem exists_find_below {root : Path} {place : Location}
    (hroot : files.locate true root = .ok (place, .directory)) :
    ∃ left, ∀ (followLast : Bool) (path : Path) (rest : List Component),
      IsPlain path → rest ≠ [] → steps path = root.components ++ rest →
        files.find followLast path =
          files.follow followLast left place rest := by
  obtain ⟨left, hleft⟩ := exists_follow_below hroot
  refine ⟨left, fun followLast path rest hplain hrest hsteps => ?_⟩
  rw [find_of_isPlain hplain, hsteps]
  exact hleft followLast rest hrest

end FileSystem

end CallGraph
