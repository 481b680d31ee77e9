import CallGraph.Proofs.Alike
import CallGraph.Proofs.Plan
import CallGraph.SymbolTable

namespace CallGraph

/-! The symbol table holds the same methods twice, by unit and by name.  The order
in a bucket is the order in which units were read, but what a bucket holds of one
unit is what the unit declares under that name. -/

/-- What a version of a unit declares.  One that cannot be read has no
declarations. -/
abbrev Declared := SourceUnit → VersionToken → Option (List Method)

/-- Declarations stay in the unit that was read, and no two units share an
identity. -/
structure Declared.IsApart (declared : Declared) : Prop where
  source : ∀ {source token methods}, declared source token = some methods →
    ∀ method ∈ methods, method.source = source
  apart : ∀ {source token methods source' token' methods'},
    declared source token = some methods →
    declared source' token' = some methods' →
    ∀ method ∈ methods, ∀ method' ∈ methods', method.id = method'.id →
      source = source'

namespace SymbolTable

def bucket (buckets : KeyedSet NameBucket) (name : String) : List Method :=
  ((buckets.find? name).map NameBucket.methods).getD []

theorem lookup_eq (table : SymbolTable) (name : String) :
    table.lookup name = bucket table.byName name := rfl

theorem bucket_addToBucket (buckets : KeyedSet NameBucket) (method : Method)
    (name : String) :
    bucket (addToBucket buckets method) name =
      bucket buckets name ++ [method].filter fun added => added.name == name := by
  unfold addToBucket bucket
  rw [KeyedSet.find?_put]
  by_cases hname : method.name = name
  · subst hname
    simp [Keyed.key]
  · simp [Keyed.key, hname]

theorem bucket_foldl_addToBucket (methods : List Method)
    (buckets : KeyedSet NameBucket) (name : String) :
    bucket (methods.foldl addToBucket buckets) name =
      bucket buckets name ++ methods.filter fun added => added.name == name := by
  induction methods generalizing buckets with
  | nil => simp
  | cons method rest ih =>
      rw [List.foldl_cons, ih, bucket_addToBucket, List.append_assoc,
        ← List.filter_append, List.singleton_append]

def isTaken (name : String) (taken : List Method) (method : Method) : Bool :=
  taken.any fun other => other.name == name && other.id == method.id

theorem bucket_removeFromBucket (buckets : KeyedSet NameBucket)
    (method : Method) (name : String) :
    bucket (removeFromBucket buckets method) name =
      (bucket buckets name).filter fun held => !isTaken name [method] held := by
  have htaken : ∀ held, isTaken name [method] held =
      (method.name == name && method.id == held.id) := by
    simp [isTaken]
  simp only [htaken]
  by_cases hname : method.name = name
  · subst hname
    have hside : ∀ held : Method,
        (!(method.name == method.name && method.id == held.id)) =
          !(held.id == method.id) := by
      intro held
      rw [beq_self_eq_true, Bool.true_and, Bool.beq_comm]
    simp only [hside]
    unfold removeFromBucket bucket
    split
    · rename_i hnone
      simp [hnone]
    · rename_i held hheld
      rw [hheld]
      dsimp only
      split
      · rename_i hempty
        rw [KeyedSet.find?_erase, if_pos rfl]
        simp only [Option.map_none, Option.getD_none, Option.map_some,
          Option.getD_some]
        exact (List.isEmpty_iff.mp hempty).symm
      · rw [KeyedSet.find?_put]
        simp [Keyed.key]
  · have hkept : bucket (removeFromBucket buckets method) name =
        bucket buckets name := by
      unfold removeFromBucket bucket
      split
      · rfl
      · dsimp only
        split
        · rw [KeyedSet.find?_erase, if_neg (Ne.symm hname)]
        · rw [KeyedSet.find?_put]
          simp [Keyed.key, hname]
    rw [hkept]
    refine (List.filter_eq_self.mpr fun held _ => ?_).symm
    simp [hname]

theorem bucket_foldl_removeFromBucket (methods : List Method)
    (buckets : KeyedSet NameBucket) (name : String) :
    bucket (methods.foldl removeFromBucket buckets) name =
      (bucket buckets name).filter fun held => !isTaken name methods held := by
  induction methods generalizing buckets with
  | nil => exact (List.filter_eq_self.mpr fun _ _ => rfl).symm
  | cons method rest ih =>
      rw [List.foldl_cons, ih, bucket_removeFromBucket, List.filter_filter]
      refine List.filter_congr fun held _ => ?_
      simp [isTaken, Bool.and_comm]

variable {table : SymbolTable} {source other : SourceUnit}
  {token : VersionToken} {methods : List Method}

theorem row?_removeUnit (table : SymbolTable) (source other : SourceUnit) :
    (table.removeUnit source).byUnit.find? other.path =
      if other = source then none else table.byUnit.find? other.path := by
  have hpath : other.path = source.path ↔ other = source :=
    ⟨SourceUnit.eq_of_path_eq, fun heq => heq ▸ rfl⟩
  unfold removeUnit
  split
  · rename_i hnone
    split
    · rename_i heq
      rw [heq, hnone]
    · rfl
  · rw [KeyedSet.find?_erase]
    simp only [hpath]

theorem row?_replaceUnit (table : SymbolTable) (source other : SourceUnit)
    (token : VersionToken) (methods : List Method) :
    (table.replaceUnit source token methods).byUnit.find? other.path =
      if other = source then some ⟨source, token, methods⟩
      else table.byUnit.find? other.path := by
  have hpath : source.path = other.path ↔ other = source :=
    ⟨fun hpath => (SourceUnit.eq_of_path_eq hpath).symm, fun heq => heq ▸ rfl⟩
  unfold replaceUnit
  rw [KeyedSet.find?_put, row?_removeUnit]
  simp only [Keyed.key, hpath]
  split <;> rfl

theorem methodsIn_removeUnit (table : SymbolTable)
    (source other : SourceUnit) :
    (table.removeUnit source).methodsIn other =
      if other = source then [] else table.methodsIn other := by
  unfold methodsIn
  rw [row?_removeUnit]
  split <;> rfl

theorem methodsIn_replaceUnit (table : SymbolTable)
    (source other : SourceUnit) (token : VersionToken)
    (methods : List Method) :
    (table.replaceUnit source token methods).methodsIn other =
      if other = source then methods else table.methodsIn other := by
  unfold methodsIn
  rw [row?_replaceUnit]
  split <;> rfl

theorem methodsIn_removeUnits (gone : List SourceUnit) (table : SymbolTable)
    (source : SourceUnit) :
    (gone.foldl removeUnit table).methodsIn source =
      if source ∈ gone then [] else table.methodsIn source := by
  induction gone generalizing table with
  | nil => rfl
  | cons first rest ih =>
      rw [List.foldl_cons, ih, methodsIn_removeUnit]
      by_cases hfirst : source = first <;> simp [hfirst]

theorem methodsIn_eq_nil (hsource : source ∉ table.units) :
    table.methodsIn source = [] := by
  unfold methodsIn
  cases hrow : table.byUnit.find? source.path with
  | none => rfl
  | some row =>
      obtain ⟨hmem, hpath⟩ := KeyedSet.find?_eq_some_iff.mp hrow
      have heq : row.source = source := SourceUnit.eq_of_path_eq hpath
      exact absurd (List.mem_map.mpr ⟨row, hmem, heq⟩) hsource

def IsOwned (table : SymbolTable) : Prop :=
  ∀ ⦃name method⦄, method ∈ table.lookup name →
    method ∈ table.methodsIn method.source ∧ method.name = name

theorem isOwned_empty : empty.IsOwned :=
  fun _ _ hmethod => absurd hmethod List.not_mem_nil

theorem removeUnit_of_no_row
    (hrow : table.byUnit.find? source.path = none) :
    table.removeUnit source = table := by
  unfold removeUnit
  rw [hrow]

theorem lookup_removeUnit (table : SymbolTable) (source : SourceUnit)
    (name : String) :
    (table.removeUnit source).lookup name =
      (table.lookup name).filter fun held =>
        !isTaken name (table.methodsIn source) held := by
  cases hrow : table.byUnit.find? source.path with
  | none =>
      have hmethods : table.methodsIn source = [] := by
        simp [methodsIn, hrow]
      rw [removeUnit_of_no_row hrow, hmethods]
      exact (List.filter_eq_self.mpr fun _ _ => rfl).symm
  | some row =>
      have hmethods : table.methodsIn source = row.methods := by
        simp [methodsIn, hrow]
      rw [hmethods]
      unfold removeUnit
      rw [hrow, lookup_eq, bucket_foldl_removeFromBucket, lookup_eq]

theorem lookup_replaceUnit (table : SymbolTable) (source : SourceUnit)
    (token : VersionToken) (methods : List Method) (name : String) :
    (table.replaceUnit source token methods).lookup name =
      (table.removeUnit source).lookup name ++
        methods.filter fun method => method.name == name := by
  unfold replaceUnit
  rw [lookup_eq, bucket_foldl_addToBucket, lookup_eq]

/-- Other units may lose methods that share an identity with those taken out, but
no method stays behind. -/
theorem IsOwned.removeUnit (howned : table.IsOwned) (source : SourceUnit) :
    (table.removeUnit source).IsOwned := by
  intro name held hheld
  rw [lookup_removeUnit] at hheld
  obtain ⟨hfound, hfree⟩ := List.mem_filter.mp hheld
  obtain ⟨hin, hname⟩ := howned hfound
  refine ⟨?_, hname⟩
  rw [methodsIn_removeUnit]
  split
  · rename_i heq
    rw [heq] at hin
    have htaken : isTaken name (table.methodsIn source) held = true :=
      List.any_eq_true.mpr ⟨held, hin, by simp [hname]⟩
    simp [htaken] at hfree
  · exact hin

theorem IsOwned.removeUnits (howned : table.IsOwned)
    (gone : List SourceUnit) :
    (gone.foldl SymbolTable.removeUnit table).IsOwned := by
  induction gone generalizing table with
  | nil => exact howned
  | cons first rest ih => exact ih (howned.removeUnit first)

theorem IsOwned.replaceUnit (howned : table.IsOwned)
    (hsource : ∀ method ∈ methods, method.source = source) :
    (table.replaceUnit source token methods).IsOwned := by
  intro name held hheld
  rw [lookup_replaceUnit] at hheld
  rw [methodsIn_replaceUnit]
  rcases List.mem_append.mp hheld with hold | hnew
  · obtain ⟨hin, hname⟩ := howned.removeUnit source hold
    rw [methodsIn_removeUnit] at hin
    split at hin
    · cases hin
    · rename_i hother
      rw [if_neg hother]
      exact ⟨hin, hname⟩
  · obtain ⟨hin, hname⟩ := List.mem_filter.mp hnew
    rw [if_pos (hsource held hin)]
    exact ⟨hin, beq_iff_eq.mp hname⟩

/-- A table of declarations that were all read at some version.  What a name finds
in a unit is what the unit declares under it. -/
structure IsIndexOf (declared : Declared) (table : SymbolTable) : Prop where
  rows : ∀ {source row}, table.byUnit.find? source.path = some row →
    row.source = source ∧ declared source row.token = some row.methods
  found : ∀ name source,
    (table.lookup name).filter (fun method => method.source == source) =
      (table.methodsIn source).filter fun method => method.name == name

variable {declared : Declared}

theorem isIndexOf_empty (declared : Declared) : empty.IsIndexOf declared where
  rows hrow := by cases hrow
  found _ _ := rfl

namespace IsIndexOf

variable (hindex : table.IsIndexOf declared)
include hindex

theorem declared_of_mem {method : Method}
    (hmethod : method ∈ table.methodsIn source) :
    ∃ row, table.byUnit.find? source.path = some row ∧
      declared source row.token = some row.methods ∧ method ∈ row.methods := by
  unfold methodsIn at hmethod
  cases hrow : table.byUnit.find? source.path with
  | none => simp [hrow] at hmethod
  | some row =>
      rw [hrow] at hmethod
      exact ⟨row, rfl, (hindex.rows hrow).2, hmethod⟩

theorem mem_lookup_iff {name : String} {method : Method} :
    method ∈ table.lookup name ↔
      method ∈ table.methodsIn method.source ∧ method.name = name := by
  have hmem := congrArg (method ∈ ·) (hindex.found name method.source)
  simpa using hmem

theorem removeUnit (hapart : declared.IsApart) (source : SourceUnit) :
    (table.removeUnit source).IsIndexOf declared where
  rows {other row} hrow := by
    rw [row?_removeUnit] at hrow
    split at hrow
    · cases hrow
    · exact hindex.rows hrow
  found name other := by
    rw [lookup_removeUnit, List.filter_filter, methodsIn_removeUnit]
    split
    · rename_i heq
      subst heq
      refine List.filter_eq_nil_iff.mpr fun held hheld => ?_
      simp only [Bool.and_eq_true, beq_iff_eq, Bool.not_eq_true', not_and]
      rintro rfl
      obtain ⟨hin, hname⟩ := hindex.mem_lookup_iff.mp hheld
      rw [Bool.not_eq_false]
      exact List.any_eq_true.mpr ⟨held, hin, by simp [hname]⟩
    · rename_i hne
      rw [← hindex.found name other]
      refine List.filter_congr fun held hheld => ?_
      by_cases hsource : held.source = other
      · have hfree :
            isTaken name (table.methodsIn source) held = false := by
          refine Bool.eq_false_iff.mpr fun htaken => hne ?_
          obtain ⟨taken, htaken, hsame⟩ := List.any_eq_true.mp htaken
          simp only [Bool.and_eq_true, beq_iff_eq] at hsame
          obtain ⟨row, _, hdeclared, htaken⟩ := hindex.declared_of_mem htaken
          obtain ⟨hin, _⟩ := hindex.mem_lookup_iff.mp hheld
          obtain ⟨row', _, hdeclared', hmem⟩ := hindex.declared_of_mem hin
          rw [← hsource]
          exact (hapart.apart hdeclared hdeclared' taken htaken held hmem
            hsame.2).symm
        simp [hfree]
      · simp [hsource]

theorem removeUnits (hapart : declared.IsApart) (gone : List SourceUnit) :
    (gone.foldl SymbolTable.removeUnit table).IsIndexOf declared := by
  induction gone generalizing table with
  | nil => exact hindex
  | cons first rest ih => exact ih (hindex.removeUnit hapart first)

theorem replaceUnit (hapart : declared.IsApart)
    (hdeclared : declared source token = some methods) :
    (table.replaceUnit source token methods).IsIndexOf declared where
  rows {other row} hrow := by
    rw [row?_replaceUnit] at hrow
    split at hrow
    · rename_i heq
      obtain rfl := Option.some.inj hrow
      exact ⟨heq.symm, heq ▸ hdeclared⟩
    · exact hindex.rows hrow
  found name other := by
    have hcleared := (hindex.removeUnit hapart source).found name other
    rw [lookup_replaceUnit, List.filter_append, hcleared, methodsIn_removeUnit,
      methodsIn_replaceUnit]
    split
    · rename_i heq
      subst heq
      rw [List.filter_filter, List.filter_nil, List.nil_append]
      refine List.filter_congr fun method hmethod => ?_
      simp [hapart.source hdeclared method hmethod]
    · rename_i hne
      have hnone : (methods.filter fun method => method.name == name).filter
          (fun method => method.source == other) = [] := by
        refine List.filter_eq_nil_iff.mpr fun method hmethod => ?_
        rw [hapart.source hdeclared method (List.mem_filter.mp hmethod).1,
          beq_iff_eq]
        exact Ne.symm hne
      rw [hnone, List.append_nil]

omit hindex in
/-- Two tables of the same units find the same under every name, up to the order
of the units. -/
theorem lookup_alike {other : SymbolTable} (hapart : declared.IsApart)
    (hindex : table.IsIndexOf declared) (hother : other.IsIndexOf declared)
    (hmethods : ∀ source, table.methodsIn source = other.methodsIn source)
    (name : String) :
    AlikeBy Method.id (table.lookup name) (other.lookup name) := by
  have hsources : AlikeBy Method.source (table.lookup name)
      (other.lookup name) := by
    intro source
    rw [hindex.found, hother.found, hmethods]
  refine hsources.refine fun method hmethod method' hmethod' hsame => ?_
  obtain ⟨_, _, hdeclared, hmem⟩ :=
    hindex.declared_of_mem (hindex.mem_lookup_iff.mp hmethod).1
  obtain ⟨_, _, hdeclared', hmem'⟩ :=
    hindex.declared_of_mem (hindex.mem_lookup_iff.mp hmethod').1
  exact hapart.apart hdeclared hdeclared' method hmem method' hmem' hsame

end IsIndexOf

end SymbolTable

end CallGraph
