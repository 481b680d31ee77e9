import Mathlib.Data.List.Induction
import Mathlib.Data.List.Nodup
import CallGraph.Proofs.SymbolTable

namespace CallGraph

namespace SymbolTable

/-! What a table holds after any number of requests: of each unit the declarations
that were given last, under their names in the order in which the units were given
them. -/

inductive Request where
  | replace (source : SourceUnit) (token : VersionToken)
      (methods : List Method)
  | remove (source : SourceUnit)

namespace Request

def source : Request → SourceUnit
  | replace source _ _ => source
  | remove source => source

def apply (table : SymbolTable) : Request → SymbolTable
  | replace source token methods => table.replaceUnit source token methods
  | remove source => table.removeUnit source

def row? : Request → Option UnitDeclarations
  | replace source token methods => some ⟨source, token, methods⟩
  | remove _ => none

end Request

def after (requests : List Request) : SymbolTable :=
  requests.foldl Request.apply empty

/-- The declarations that still stand after all requests: no later request is
about their unit. -/
def standing : List Request → List UnitDeclarations
  | [] => []
  | .remove _ :: later => standing later
  | .replace source token methods :: later =>
      if later.any fun request => request.source == source then standing later
      else ⟨source, token, methods⟩ :: standing later

/-- Methods that were ever given for different units have different identities.
The methods of one unit may repeat theirs, and their names. -/
def KeepsApart (requests : List Request) : Prop :=
  ∀ first ∈ requests.filterMap Request.row?,
    ∀ second ∈ requests.filterMap Request.row?,
      first.source ≠ second.source → ∀ method ∈ first.methods,
        ∀ other ∈ second.methods, method.id ≠ other.id

instance (requests : List Request) : Decidable (KeepsApart requests) :=
  inferInstanceAs (Decidable (∀ first ∈ requests.filterMap Request.row?,
    ∀ second ∈ requests.filterMap Request.row?, _))

/-- A table that answers from the given rows, and from nothing else. -/
structure Agrees (rows : List UnitDeclarations) (table : SymbolTable) :
    Prop where
  lookup : ∀ name, table.lookup name = rows.flatMap fun row =>
    row.methods.filter fun method => method.name == name
  methodsIn : ∀ source, table.methodsIn source =
    ((rows.find? fun row => row.source == source).map
      UnitDeclarations.methods).getD []
  token : ∀ source, table.token? source =
    (rows.find? fun row => row.source == source).map UnitDeclarations.token
  units : table.units.Perm (rows.map UnitDeclarations.source)

variable {table : SymbolTable} {rows : List UnitDeclarations}
  {source : SourceUnit} {requests : List Request} {row : UnitDeclarations}

def without (rows : List UnitDeclarations) (source : SourceUnit) :
    List UnitDeclarations :=
  rows.filter fun row => !(row.source == source)

theorem mem_without : row ∈ without rows source ↔
    row ∈ rows ∧ row.source ≠ source := by
  simp [without]

theorem flatMap_without {α : Type} (rows : List UnitDeclarations)
    (source : SourceUnit) (give : UnitDeclarations → List α) :
    (without rows source).flatMap give =
      rows.flatMap fun row => if row.source = source then [] else give row := by
  unfold without
  induction rows with
  | nil => rfl
  | cons row rest ih =>
      rw [List.filter_cons, List.flatMap_cons, ← ih]
      by_cases hrow : row.source = source <;> simp [hrow]

theorem find?_without (rows : List UnitDeclarations)
    (source other : SourceUnit) :
    (without rows source).find? (fun row => row.source == other) =
      if other = source then none
      else rows.find? fun row => row.source == other := by
  unfold without
  rw [List.find?_filter]
  split
  · rename_i hsame
    simp [hsame]
  · rename_i hother
    congr 1
    funext row
    by_cases hrow : row.source = other
    · simp [hrow, hother]
    · simp [hrow]

theorem standing_concat (requests : List Request) (request : Request) :
    standing (requests ++ [request]) =
      without (standing requests) request.source ++ request.row?.toList := by
  induction requests with
  | nil => cases request <;> rfl
  | cons first later ih =>
      cases first with
      | remove => exact ih
      | replace source token methods =>
          rw [List.cons_append, standing, standing, ih, List.any_append]
          by_cases hlater : later.any fun other => other.source == source
          · simp [hlater]
          · by_cases hsame : request.source = source
            · simp [hlater, hsame, without]
            · simp [hlater, hsame, Ne.symm hsame, without]

theorem mem_row_of_mem_standing (hrow : row ∈ standing requests) :
    row ∈ requests.filterMap Request.row? := by
  induction requests with
  | nil => cases hrow
  | cons first later ih =>
      cases first with
      | remove => exact ih hrow
      | replace source token methods =>
          rw [standing] at hrow
          split at hrow
          · exact List.mem_cons_of_mem _ (ih hrow)
          · rcases List.mem_cons.mp hrow with rfl | hrow
            · exact List.mem_cons_self
            · exact List.mem_cons_of_mem _ (ih hrow)

/-- A table whose two maps hold the given rows, one for a unit. -/
structure Holds (rows : List UnitDeclarations) (table : SymbolTable) : Prop where
  once : (rows.map UnitDeclarations.source).Nodup
  lookup : ∀ name, table.lookup name = rows.flatMap fun row =>
    row.methods.filter fun method => method.name == name
  find : ∀ source, table.byUnit.find? source.path =
    rows.find? fun row => row.source == source

theorem holds_empty : Holds [] empty where
  once := List.nodup_nil
  lookup _ := rfl
  find _ := rfl

theorem Holds.methodsIn_of_mem (hholds : Holds rows table)
    (hrow : row ∈ rows) : table.methodsIn row.source = row.methods := by
  unfold methodsIn
  rw [hholds.find]
  cases hfind : rows.find? fun other => other.source == row.source with
  | none => simpa using List.find?_eq_none.mp hfind row hrow
  | some other =>
      have hsame : other.source = row.source := by
        simpa using List.find?_some hfind
      have hother : other = row := List.inj_on_of_nodup_map hholds.once
        (List.mem_of_find?_eq_some hfind) hrow hsame
      rw [hother]
      rfl

theorem Holds.removeUnit (hholds : Holds rows table)
    (hapart : ∀ row ∈ rows, row.source ≠ source →
      ∀ method ∈ table.methodsIn source, ∀ other ∈ row.methods,
        method.id ≠ other.id) :
    Holds (without rows source) (table.removeUnit source) where
  once := hholds.once.sublist (List.filter_sublist.map _)
  find other := by
    rw [row?_removeUnit, find?_without, hholds.find]
  lookup name := by
    have hrow : ∀ row ∈ rows,
        (row.methods.filter fun method => method.name == name).filter
            (fun held => !isTaken name (table.methodsIn source) held) =
          if row.source = source then []
          else row.methods.filter fun method => method.name == name := by
      intro row hmem
      split
      · rename_i hsame
        rw [← hsame, hholds.methodsIn_of_mem hmem]
        refine List.filter_eq_nil_iff.mpr fun held hheld => ?_
        obtain ⟨hin, hname⟩ := List.mem_filter.mp hheld
        have htaken : isTaken name row.methods held = true :=
          List.any_eq_true.mpr ⟨held, hin, by simpa using hname⟩
        simp [htaken]
      · rename_i hother
        refine List.filter_eq_self.mpr fun held hheld => ?_
        have hfree : isTaken name (table.methodsIn source) held = false := by
          refine Bool.eq_false_iff.mpr fun htaken => ?_
          obtain ⟨taken, htaken, hsame⟩ := List.any_eq_true.mp htaken
          simp only [Bool.and_eq_true, beq_iff_eq] at hsame
          exact hapart row hmem hother taken htaken held
            (List.mem_filter.mp hheld).1 hsame.2
        simp [hfree]
    rw [lookup_removeUnit, hholds.lookup, List.filter_flatMap,
      flatMap_without]
    exact List.flatMap_congr hrow

theorem Holds.replaceUnit {token : VersionToken} {methods : List Method}
    (hcleared : Holds rows (table.removeUnit source))
    (hnew : ∀ row ∈ rows, row.source ≠ source) :
    Holds (rows ++ [⟨source, token, methods⟩])
      (table.replaceUnit source token methods) where
  once := by
    rw [List.map_append, List.map_singleton, List.nodup_append]
    refine ⟨hcleared.once, List.nodup_singleton _, ?_⟩
    intro held hheld given hgiven hsame
    obtain ⟨row, hrow, rfl⟩ := List.mem_map.mp hheld
    exact hnew row hrow (hsame.trans (List.mem_singleton.mp hgiven))
  find other := by
    have hcleared := hcleared.find other
    rw [row?_removeUnit] at hcleared
    rw [row?_replaceUnit, List.find?_append, ← hcleared]
    split
    · rename_i hsame
      simp [hsame]
    · rename_i hother
      simp [Ne.symm hother]
  lookup name := by
    rw [lookup_replaceUnit, hcleared.lookup, List.flatMap_append]
    simp

theorem KeepsApart.apart (hapart : KeepsApart requests)
    (hholds : Holds (standing requests) table) :
    ∀ row ∈ standing requests, row.source ≠ source →
      ∀ method ∈ table.methodsIn source, ∀ other ∈ row.methods,
        method.id ≠ other.id := by
  intro row hrow hother method hmethod
  unfold methodsIn at hmethod
  rw [hholds.find] at hmethod
  cases hfind : (standing requests).find? fun row => row.source == source with
  | none =>
      rw [hfind] at hmethod
      cases hmethod
  | some held =>
      rw [hfind] at hmethod
      have hsource : held.source = source := by
        simpa using List.find?_some hfind
      exact hapart held
        (mem_row_of_mem_standing (List.mem_of_find?_eq_some hfind)) row
        (mem_row_of_mem_standing hrow) (hsource ▸ hother.symm) method hmethod

theorem KeepsApart.of_append {more : List Request}
    (hapart : KeepsApart (requests ++ more)) : KeepsApart requests := by
  unfold KeepsApart at hapart
  rw [List.filterMap_append] at hapart
  exact fun first hfirst second hsecond =>
    hapart first (List.mem_append_left _ hfirst) second
      (List.mem_append_left _ hsecond)

theorem holds_after (hapart : KeepsApart requests) :
    Holds (standing requests) (after requests) := by
  induction requests using List.reverseRecOn with
  | nil => exact holds_empty
  | append_singleton requests request ih =>
      have hholds := ih hapart.of_append
      have hcleared : Holds (without (standing requests) request.source)
          ((after requests).removeUnit request.source) :=
        hholds.removeUnit (hapart.of_append.apart hholds)
      have hafter : after (requests ++ [request]) =
          request.apply (after requests) := by
        unfold after
        rw [List.foldl_append]
        rfl
      rw [hafter, standing_concat]
      cases request with
      | remove source =>
          rw [Request.row?, Option.toList, List.append_nil]
          exact hcleared
      | replace source token methods =>
          exact hcleared.replaceUnit fun row hrow => (mem_without.mp hrow).2

theorem mem_units_iff :
    source ∈ table.units ↔ (table.byUnit.find? source.path).isSome := by
  rw [units, List.mem_map, Option.isSome_iff_exists]
  simp only [KeyedSet.find?_eq_some_iff]
  constructor
  · rintro ⟨row, hrow, rfl⟩
    exact ⟨row, hrow, rfl⟩
  · rintro ⟨row, hrow, hpath⟩
    exact ⟨row, hrow, SourceUnit.eq_of_path_eq hpath⟩

/-- Every name and every unit finds what still stands. -/
theorem Holds.agrees (hholds : Holds rows table) : table.Agrees rows where
  lookup := hholds.lookup
  methodsIn source := by
    unfold SymbolTable.methodsIn
    rw [hholds.find]
  token source := by
    unfold token?
    rw [hholds.find]
  units := by
    have hunits : table.units.Nodup := by
      refine List.Nodup.of_map SourceUnit.path ?_
      rw [SymbolTable.units, List.map_map]
      exact KeyedSet.nodup_keys table.byUnit
    refine (List.perm_ext_iff_of_nodup hunits hholds.once).mpr fun source => ?_
    rw [mem_units_iff, hholds.find, List.find?_isSome, List.mem_map]
    simp

/-- After any requests, a name finds the methods that the units' last declarations
have under it, unit after unit in the order in which these were given; and of
each unit the table knows what was given last, if it was not removed. -/
theorem after_agrees (hapart : KeepsApart requests) :
    (after requests).Agrees (standing requests) :=
  (holds_after hapart).agrees

end SymbolTable

namespace Sample

open SymbolTable (Request KeepsApart)

def declaredIn (source : SourceUnit) (word : UInt64) (name : String) : Method :=
  ⟨⟨word⟩, source, "T", name, []⟩

/-- Two units share a name, and one of them repeats it. A third one goes, and
the first one is read again. -/
def rereadRequests : List Request :=
  let first : SourceUnit := ⟨"A.java"⟩
  let second : SourceUnit := ⟨"B.java"⟩
  let third : SourceUnit := ⟨"C.java"⟩
  [.replace first ⟨1⟩ [declaredIn first 1 "run", declaredIn first 1 "run",
      declaredIn first 1 "stop"],
    .replace third ⟨1⟩ [declaredIn third 3 "run"],
    .replace second ⟨1⟩ [declaredIn second 2 "run"],
    .remove third,
    .replace first ⟨2⟩ [declaredIn first 1 "run", declaredIn first 4 "run"]]

theorem rereadUnit_agrees :
    KeepsApart rereadRequests ∧
      (SymbolTable.standing rereadRequests).map UnitDeclarations.source =
        [⟨"B.java"⟩, ⟨"A.java"⟩] ∧
      (SymbolTable.after rereadRequests).Agrees
        (SymbolTable.standing rereadRequests) := by
  have hapart : KeepsApart rereadRequests := by decide
  exact ⟨hapart, by decide, SymbolTable.after_agrees hapart⟩

end Sample

end CallGraph
