import CallGraph.Proofs.FileSystem.Agreement

namespace CallGraph

open CallGraph.Path (IsName Component)

namespace FileSystem

variable {files files' : FileSystem} {location : Location} {entry : Entry}

theorem entry?_eq_some_iff :
    files.entry? location = some entry ↔
      location = [] ∧ entry = .directory ∨
        location ≠ [] ∧ ⟨location, entry⟩ ∈ files.stored := by
  unfold entry?
  by_cases hempty : location = []
  · simp [hempty, eq_comm]
  · simp only [hempty, List.isEmpty_iff, if_false, false_and, ne_eq,
      not_false_eq_true, true_and, false_or, Option.map_eq_some_iff,
      KeyedSet.find?_eq_some_iff]
    constructor
    · rintro ⟨stored, ⟨hstored, rfl⟩, rfl⟩
      exact hstored
    · exact fun hstored => ⟨_, ⟨hstored, rfl⟩, rfl⟩

theorem entry?_set {place : Location} (hplace : place ≠ []) :
    entry? (files.set place entry) location =
      if location = place then some entry else files.entry? location := by
  unfold entry? set
  by_cases hempty : location = []
  · subst hempty
    simp [Ne.symm hplace]
  · simp only [List.isEmpty_iff, hempty, if_false, KeyedSet.find?_put]
    by_cases heq : location = place
    · subst heq
      simp [Keyed.key]
    · have hne : Keyed.key (Stored.mk place entry) ≠ location :=
        fun hkey => heq hkey.symm
      rw [if_neg hne, if_neg heq]

theorem isWithin_iff {directory : Location} :
    directory.isWithin location = true ↔ directory <+: location :=
  List.isPrefixOf_iff_prefix

section Move

variable {source target : Location}

theorem moved_eq {stored : Stored} (hstored : ¬source <+: stored.location) :
    moved source target stored = stored := by
  unfold moved
  rw [if_neg]
  rwa [isWithin_iff]

theorem moved_append (rest : Location) :
    moved source target ⟨source ++ rest, entry⟩ = ⟨target ++ rest, entry⟩ := by
  unfold moved
  rw [if_pos (isWithin_iff.mpr (List.prefix_append _ _))]
  simp

theorem moved_eq_iff {old : Stored} :
    moved source target old = ⟨location, entry⟩ ↔
      (∃ rest, old = ⟨source ++ rest, entry⟩ ∧ target ++ rest = location) ∨
        ¬source <+: old.location ∧ old = ⟨location, entry⟩ := by
  by_cases hwithin : source <+: old.location
  · obtain ⟨place, oldEntry⟩ := old
    obtain ⟨rest, rfl⟩ := hwithin
    rw [moved_append]
    constructor
    · intro hmoved
      cases hmoved
      exact Or.inl ⟨rest, rfl, rfl⟩
    · rintro (⟨rest', hold, rfl⟩ | ⟨hnot, -⟩)
      · obtain ⟨hplace, rfl⟩ := Stored.mk.inj hold
        rw [List.append_cancel_left hplace]
      · exact absurd (List.prefix_append _ _) hnot
  · rw [moved_eq hwithin]
    refine ⟨fun hold => Or.inr ⟨hwithin, hold⟩, ?_⟩
    rintro (⟨rest, rfl, -⟩ | ⟨-, hold⟩)
    · exact absurd (List.prefix_append _ _) hwithin
    · exact hold

theorem location_eq_of_moved {old other : Stored}
    (hold : ¬target <+: old.location) (hother : ¬target <+: other.location)
    (hmoved : (moved source target old).location =
      (moved source target other).location) :
    old.location = other.location := by
  obtain ⟨oldPlace, oldEntry⟩ := old
  obtain ⟨place, entry⟩ := other
  by_cases hwithin : source <+: oldPlace <;>
    by_cases hwithin' : source <+: place
  · obtain ⟨rest, rfl⟩ := hwithin
    obtain ⟨rest', rfl⟩ := hwithin'
    simpa [moved_append] using hmoved
  · obtain ⟨rest, rfl⟩ := hwithin
    rw [moved_append, moved_eq hwithin'] at hmoved
    exact absurd ⟨rest, hmoved⟩ hother
  · obtain ⟨rest', rfl⟩ := hwithin'
    rw [moved_append, moved_eq hwithin] at hmoved
    exact absurd ⟨rest', hmoved.symm⟩ hold
  · rwa [moved_eq hwithin, moved_eq hwithin'] at hmoved

theorem mem_moveWithin {stored : Stored} :
    stored ∈ (files.moveWithin source target).stored ↔
      ∃ old ∈ files.stored, ¬target <+: old.location ∧
        moved source target old = stored := by
  have hmap : ∀ {other : Stored},
      other ∈ (files.removeWithin target).stored.entries.map
          (moved source target) ↔
        ∃ old ∈ files.stored, ¬target <+: old.location ∧
          moved source target old = other := by
    intro other
    simp [List.mem_map, removeWithin, KeyedSet.filter, KeyedSet.mem_def,
      ← isWithin_iff, and_assoc]
  constructor
  · exact fun hmem => hmap.mp (KeyedSet.mem_of_mem_ofList hmem)
  · rintro ⟨old, hold, hkept, rfl⟩
    refine KeyedSet.mem_ofList_of_unique
      (hmap.mpr ⟨old, hold, hkept, rfl⟩) ?_
    intro moved' hmoved' hkey
    obtain ⟨other, hother, hkept', rfl⟩ := hmap.mp hmoved'
    rw [KeyedSet.eq_of_key_eq hother hold
      (location_eq_of_moved hkept' hkept hkey)]

theorem entry?_moveWithin (hsource : source ≠ []) (hlocation : location ≠ []) :
    entry? (files.moveWithin source target) location =
      if target <+: location then
        if target <+: source ++ location.drop target.length then none
        else files.entry? (source ++ location.drop target.length)
      else if source <+: location then none
      else files.entry? location := by
  ext entry
  have hmem : entry? (files.moveWithin source target) location = some entry ↔
      ∃ old ∈ files.stored, ¬target <+: old.location ∧
        moved source target old = ⟨location, entry⟩ := by
    rw [entry?_eq_some_iff, ← mem_moveWithin]
    simp [hlocation]
  simp only [hmem, moved_eq_iff]
  split
  · rename_i hwithin
    obtain ⟨rest, rfl⟩ := hwithin
    rw [List.drop_left]
    split
    · rename_i hcovered
      refine iff_of_false ?_ nofun
      rintro ⟨old, -, hkept, ⟨rest', rfl, hrest⟩ | ⟨-, rfl⟩⟩
      · rw [List.append_cancel_left hrest] at hkept
        exact hkept hcovered
      · exact hkept (List.prefix_append _ _)
    · rename_i hkept
      have hsome : source ++ rest ≠ [] := by simp [hsource]
      rw [entry?_eq_some_iff]
      constructor
      · rintro ⟨old, hold, hkept', ⟨rest', rfl, hrest⟩ | ⟨-, rfl⟩⟩
        · rw [List.append_cancel_left hrest] at hold
          exact Or.inr ⟨hsome, hold⟩
        · exact absurd (List.prefix_append _ _) hkept'
      · rintro (⟨hroot, -⟩ | ⟨-, hold⟩)
        · exact absurd hroot hsome
        · exact ⟨_, hold, hkept, Or.inl ⟨rest, rfl, rfl⟩⟩
  · rename_i houtside
    split
    · rename_i hleft
      refine iff_of_false ?_ nofun
      rintro ⟨old, -, -, ⟨rest, -, hrest⟩ | ⟨hkept, rfl⟩⟩
      · exact houtside ⟨rest, hrest⟩
      · exact hkept hleft
    · rename_i hkept
      rw [entry?_eq_some_iff]
      constructor
      · rintro ⟨old, hold, -, ⟨rest, -, hrest⟩ | ⟨-, rfl⟩⟩
        · exact absurd ⟨rest, hrest⟩ houtside
        · exact Or.inr ⟨hlocation, hold⟩
      · rintro (⟨hroot, -⟩ | ⟨-, hold⟩)
        · exact absurd hroot hlocation
        · exact ⟨_, hold, houtside, Or.inr ⟨hkept, rfl⟩⟩

theorem entry?_moveWithin_target (hsource : source ≠ [])
    (htarget : ¬target <+: source) :
    entry? (files.moveWithin source target) target = files.entry? source := by
  have hsome : target ≠ [] := by
    rintro rfl
    exact htarget List.nil_prefix
  rw [entry?_moveWithin hsource hsome, if_pos List.prefix_rfl]
  simp [htarget]

theorem entry?_moveWithin_of_not (hsource : source ≠ [])
    (hnotSource : ¬source <+: location) (hnotTarget : ¬target <+: location) :
    entry? (files.moveWithin source target) location =
      files.entry? location := by
  by_cases hlocation : location = []
  · subst hlocation
    rfl
  · rw [entry?_moveWithin hsource hlocation, if_neg hnotTarget,
      if_neg hnotSource]

theorem exists_entry_of_moveWithin (hsource : source ≠ [])
    (hentry : entry? (files.moveWithin source target) location = some entry) :
    ∃ old, files.entry? old = some entry ∧
      (old = location ∨ source <+: old) := by
  by_cases hlocation : location = []
  · subst hlocation
    exact ⟨[], hentry, Or.inl rfl⟩
  · rw [entry?_moveWithin hsource hlocation] at hentry
    split at hentry
    · split at hentry
      · cases hentry
      · exact ⟨_, hentry, Or.inr (List.prefix_append _ _)⟩
    · split at hentry
      · cases hentry
      · exact ⟨_, hentry, Or.inl rfl⟩

end Move

inductive Edit where
  | put (location : Location) (entry : Entry)
  | remove (location : Location)
  deriving DecidableEq

def Edit.apply (files : FileSystem) : Edit → FileSystem
  | put location entry => files.set location entry
  | remove location => files.removeWithin location

def edited (files : FileSystem) (edits : List Edit) : FileSystem :=
  edits.foldl Edit.apply files

/-- An edit that leaves a place alone, and what is below it. -/
def Edit.Spares (place : Location) : Edit → Prop
  | put location _ => ¬place <+: location
  | remove location => ¬place <+: location ∧ ¬location <+: place

instance (place : Location) (edit : Edit) : Decidable (edit.Spares place) :=
  match edit with
  | .put location _ => inferInstanceAs (Decidable ¬place <+: location)
  | .remove location =>
      inferInstanceAs (Decidable (¬place <+: location ∧ ¬location <+: place))

variable {place : Location}

theorem workingDirectory_edited (edits : List Edit) :
    (files.edited edits).workingDirectory = files.workingDirectory := by
  unfold edited
  induction edits generalizing files with
  | nil => rfl
  | cons edit rest ih =>
      rw [List.foldl_cons, ih]
      cases edit <;> rfl

theorem find?_set_of_ne {entry : Entry} (hne : location ≠ place) :
    entry? (files.set place entry) location = files.entry? location := by
  have hkey : Keyed.key (Stored.mk place entry) ≠ location :=
    fun hkey => hne hkey.symm
  unfold entry? set
  rw [KeyedSet.find?_put, if_neg hkey]

theorem entry?_removeWithin (hsome : location ≠ []) :
    entry? (files.removeWithin place) location =
      if place <+: location then none else files.entry? location := by
  ext entry
  rw [entry?_eq_some_iff]
  have hmem : ⟨location, entry⟩ ∈ (files.removeWithin place).stored ↔
      ⟨location, entry⟩ ∈ files.stored ∧ ¬place <+: location := by
    unfold removeWithin
    rw [KeyedSet.mem_filter, ← isWithin_iff]
    simp
  rw [hmem]
  split
  · rename_i hwithin
    simp [hsome, hwithin]
  · rename_i hwithin
    rw [entry?_eq_some_iff]
    simp [hsome, hwithin]

theorem entry?_apply_congr (edit : Edit)
    (hsame : files'.entry? location = files.entry? location) :
    entry? (edit.apply files') location =
      entry? (edit.apply files) location := by
  by_cases hsome : location = []
  · rw [hsome]
    rfl
  · cases edit with
    | put place entry =>
        unfold Edit.apply
        by_cases hplace : location = place
        · subst hplace
          rw [entry?_set hsome, entry?_set hsome, if_pos rfl, if_pos rfl]
        · rw [find?_set_of_ne hplace, find?_set_of_ne hplace, hsame]
    | remove place =>
        unfold Edit.apply
        rw [entry?_removeWithin hsome, entry?_removeWithin hsome, hsame]

theorem entry?_apply_of_spares {edit : Edit} (hspares : edit.Spares place)
    (hplace : place ≠ []) (hwithin : place <+: location) :
    entry? (edit.apply files) location = files.entry? location := by
  cases edit with
  | put other entry =>
      refine find?_set_of_ne ?_
      rintro rfl
      exact hspares hwithin
  | remove other =>
      have hsome : location ≠ [] := by
        rintro rfl
        exact hplace (List.prefix_nil.mp hwithin)
      unfold Edit.apply
      rw [entry?_removeWithin hsome, if_neg]
      intro hother
      rcases List.prefix_or_prefix_of_prefix hother hwithin with hbelow | habove
      · exact hspares.2 hbelow
      · exact hspares.1 habove

theorem AgreesOutside.edited (hagrees : AgreesOutside place files files')
    (edits : List Edit) :
    AgreesOutside place (files.edited edits) (files'.edited edits) := by
  refine ⟨?_, fun location hlocation => ?_⟩
  · rw [workingDirectory_edited, workingDirectory_edited, hagrees.working]
  · have hsame := hagrees.entries location hlocation
    unfold FileSystem.edited
    clear hagrees
    induction edits generalizing files files' with
    | nil => exact hsame
    | cons edit rest ih => exact ih (entry?_apply_congr edit hsame)

theorem entry?_edited {edits : List Edit}
    (hspares : ∀ edit ∈ edits, edit.Spares place) (hplace : place ≠ [])
    (hwithin : place <+: location) :
    entry? (files.edited edits) location = files.entry? location := by
  unfold edited
  induction edits generalizing files with
  | nil => rfl
  | cons edit rest ih =>
      rw [List.foldl_cons, ih fun other hother =>
        hspares other (List.mem_cons_of_mem _ hother)]
      exact entry?_apply_of_spares (hspares edit List.mem_cons_self) hplace
        hwithin

theorem AgreesOutside.names {within : FileSystem}
    (hagrees : AgreesOutside place files files')
    (hwithin : ∀ location, place <+: location →
      files'.entry? location = within.entry? location)
    (hnames : files.IsNamed)
    (hnames' : within.IsNamed) :
    files'.IsNamed := by
  rintro ⟨location, entry⟩ hstored
  by_cases hsome : location = []
  · subst hsome
    exact fun _ hpart => absurd hpart List.not_mem_nil
  · have hentry : files'.entry? location = some entry :=
      entry?_eq_some_iff.mpr (Or.inr ⟨hsome, hstored⟩)
    by_cases hplace : place <+: location
    · rw [hwithin location hplace] at hentry
      exact isName_of_entry hnames' hentry
    · rw [hagrees.entries location hplace] at hentry
      exact isName_of_entry hnames hentry

end FileSystem

end CallGraph
