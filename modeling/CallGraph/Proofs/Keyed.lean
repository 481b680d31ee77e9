import CallGraph.Keyed

namespace CallGraph

open KeyOrder (before)
open Keyed (key)

namespace KeyedSet

variable {α κ : Type} [Keyed α κ] [KeyOrder κ]

instance [DecidableEq α] (entry : α) (collection : KeyedSet α) :
    Decidable (entry ∈ collection) :=
  inferInstanceAs (Decidable (entry ∈ collection.entries))

theorem key_ne_of_before {first second : α}
    (hbefore : before (key first) (key second) = true) :
    key first ≠ key second := by
  intro hkey
  rw [hkey, KeyOrder.before_irrefl] at hbefore
  contradiction

theorem Ascending.eq_of_key_eq {entries : List α} (hentries : Ascending entries)
    {first second : α} (hfirst : first ∈ entries) (hsecond : second ∈ entries)
    (hkey : key first = key second) : first = second := by
  induction entries with
  | nil => cases hfirst
  | cons head rest ih =>
      have hhead := (List.pairwise_cons.mp hentries).1
      have hrest := (List.pairwise_cons.mp hentries).2
      rcases List.mem_cons.mp hfirst with rfl | hfirst'
      · rcases List.mem_cons.mp hsecond with rfl | hsecond'
        · rfl
        · exact absurd hkey (key_ne_of_before (hhead second hsecond'))
      · rcases List.mem_cons.mp hsecond with rfl | hsecond'
        · exact absurd hkey.symm (key_ne_of_before (hhead first hfirst'))
        · exact ih hrest hfirst' hsecond'

theorem eq_of_key_eq {collection : KeyedSet α} {first second : α}
    (hfirst : first ∈ collection) (hsecond : second ∈ collection)
    (hkey : key first = key second) : first = second :=
  Ascending.eq_of_key_eq collection.ascending hfirst hsecond hkey

theorem nodup_keys (collection : KeyedSet α) :
    (collection.entries.map key).Nodup :=
  List.pairwise_map.mpr (collection.ascending.imp key_ne_of_before)

theorem mem_place_iff (keep : α → α → α) (entry other : α) {entries : List α}
    (hentries : Ascending entries) :
    other ∈ place keep entry entries ↔
      other ∈ entries ∧ key other ≠ key entry ∨
        (∃ held ∈ entries, key held = key entry ∧ other = keep held entry) ∨
          other = entry ∧ ∀ held ∈ entries, key held ≠ key entry := by
  induction entries with
  | nil => simp [place]
  | cons head rest ih =>
      have hhead := (List.pairwise_cons.mp hentries).1
      have hrest := (List.pairwise_cons.mp hentries).2
      have ih := ih hrest
      unfold place
      split
      · rename_i hbefore
        have hfree : ∀ held ∈ head :: rest, key held ≠ key entry := by
          intro held hheld hkey
          rcases List.mem_cons.mp hheld with rfl | hheld
          · exact key_ne_of_before hbefore hkey.symm
          · exact key_ne_of_before
              (KeyOrder.before_trans hbefore (hhead held hheld)) hkey.symm
        grind
      · rename_i hnotBefore
        split
        · rename_i hafter
          have hne : key head ≠ key entry := key_ne_of_before hafter
          grind
        · rename_i hnotAfter
          have hkey : key head = key entry :=
            KeyOrder.eq_of_not_before (by simpa using hnotAfter)
              (by simpa using hnotBefore)
          have hfree : ∀ held ∈ rest, key held ≠ key entry := by
            intro held hheld hheldKey
            exact key_ne_of_before (hhead held hheld)
              (hkey.trans hheldKey.symm)
          grind

theorem mem_insert {collection : KeyedSet α} {entry other : α} :
    other ∈ collection.insert entry ↔
      other ∈ collection ∨
        other = entry ∧ ∀ held ∈ collection, key held ≠ key entry := by
  have hplace := mem_place_iff (fun old _ => old) entry other
    collection.ascending
  simp only [insert, mem_def, hplace]
  grind

theorem mem_put {collection : KeyedSet α} {entry other : α} :
    other ∈ collection.put entry ↔
      other = entry ∨ other ∈ collection ∧ key other ≠ key entry := by
  have hplace := mem_place_iff (fun _ new => new) entry other
    collection.ascending
  simp only [put, mem_def, hplace]
  grind

theorem mem_insertAll_of_mem (entries : List α) {collection : KeyedSet α}
    {other : α} (hmem : other ∈ collection) :
    other ∈ collection.insertAll entries := by
  induction entries generalizing collection with
  | nil => exact hmem
  | cons head rest ih => exact ih (mem_insert.mpr (Or.inl hmem))

theorem mem_or_mem_of_mem_insertAll {entries : List α}
    {collection : KeyedSet α} {other : α}
    (hmem : other ∈ collection.insertAll entries) :
    other ∈ collection ∨ other ∈ entries := by
  induction entries generalizing collection with
  | nil => exact Or.inl hmem
  | cons head rest ih =>
      rcases ih hmem with hinsert | hrest
      · rcases mem_insert.mp hinsert with hold | ⟨heq, _⟩
        · exact Or.inl hold
        · exact Or.inr (heq ▸ List.mem_cons_self)
      · exact Or.inr (List.mem_cons_of_mem head hrest)

theorem exists_mem_insertAll (collection : KeyedSet α) {entries : List α}
    {entry : α} (hmem : entry ∈ entries) :
    ∃ other ∈ collection.insertAll entries, key other = key entry := by
  induction entries generalizing collection with
  | nil => cases hmem
  | cons head rest ih =>
      rcases List.mem_cons.mp hmem with rfl | hrest
      · by_cases hheld : ∃ held ∈ collection, key held = key entry
        · obtain ⟨held, hheld, hkey⟩ := hheld
          have hkept : held ∈ collection.insert entry :=
            mem_insert.mpr (Or.inl hheld)
          exact ⟨held, mem_insertAll_of_mem rest hkept, hkey⟩
        · have hfree : ∀ held ∈ collection, key held ≠ key entry := by
            intro held hmem hkey
            exact hheld ⟨held, hmem, hkey⟩
          have hplaced : entry ∈ collection.insert entry :=
            mem_insert.mpr (Or.inr ⟨rfl, hfree⟩)
          exact ⟨entry, mem_insertAll_of_mem rest hplaced, rfl⟩
      · exact ih (collection.insert head) hrest

theorem not_mem_empty {entry : α} : entry ∉ (∅ : KeyedSet α) :=
  List.not_mem_nil

theorem mem_of_mem_ofList {entries : List α} {entry : α}
    (hmem : entry ∈ (ofList entries : KeyedSet α)) : entry ∈ entries :=
  (mem_or_mem_of_mem_insertAll hmem).resolve_left not_mem_empty

theorem exists_mem_ofList {wanted : κ} {entries : List α} :
    (∃ entry ∈ (ofList entries : KeyedSet α), key entry = wanted) ↔
      ∃ entry ∈ entries, key entry = wanted := by
  constructor
  · rintro ⟨entry, hmem, hkey⟩
    exact ⟨entry, mem_of_mem_ofList hmem, hkey⟩
  · rintro ⟨entry, hmem, hkey⟩
    obtain ⟨other, hother, hotherKey⟩ := exists_mem_insertAll empty hmem
    exact ⟨other, hother, hotherKey.trans hkey⟩

theorem mem_putAll {entries : List α} {collection : KeyedSet α} {other : α}
    (hkeys : entries.Pairwise fun first second => key first ≠ key second) :
    other ∈ collection.putAll entries ↔
      other ∈ entries ∨
        other ∈ collection ∧ ∀ entry ∈ entries, key other ≠ key entry := by
  induction entries generalizing collection with
  | nil => simp [putAll]
  | cons head rest ih =>
      have hhead := (List.pairwise_cons.mp hkeys).1
      have hstep : collection.putAll (head :: rest) =
          (collection.put head).putAll rest := rfl
      rw [hstep, ih (List.pairwise_cons.mp hkeys).2, mem_put]
      grind

theorem mem_or_mem_of_mem_putAll {entries : List α} {collection : KeyedSet α}
    {other : α} (hmem : other ∈ collection.putAll entries) :
    other ∈ collection ∨ other ∈ entries := by
  induction entries generalizing collection with
  | nil => exact Or.inl hmem
  | cons head rest ih =>
      rcases ih hmem with hput | hrest
      · rcases mem_put.mp hput with heq | hold
        · exact Or.inr (heq ▸ List.mem_cons_self)
        · exact Or.inl hold.1
      · exact Or.inr (List.mem_cons_of_mem head hrest)

theorem length_place_le (keep : α → α → α) (entry : α) (entries : List α) :
    (place keep entry entries).length ≤ entries.length + 1 := by
  induction entries with
  | nil => exact Nat.le_refl 1
  | cons head rest ih =>
      unfold place
      split
      · exact Nat.le_refl _
      · split
        · exact Nat.succ_le_succ ih
        · exact Nat.le_succ _

theorem size_foldl_le (step : KeyedSet α → α → KeyedSet α)
    (hstep : ∀ collection entry,
      (step collection entry).size ≤ collection.size + 1)
    (collection : KeyedSet α) (entries : List α) :
    (entries.foldl step collection).size ≤ collection.size + entries.length := by
  induction entries generalizing collection with
  | nil => exact Nat.le_refl _
  | cons head rest ih =>
      have hhead := hstep collection head
      have hrest := ih (step collection head)
      rw [List.foldl_cons, List.length_cons]
      omega

theorem size_ofList_le (entries : List α) :
    (ofList entries : KeyedSet α).size ≤ entries.length :=
  Nat.le_trans
    (size_foldl_le insert (fun collection entry =>
      length_place_le _ entry collection.entries) empty entries)
    (Nat.le_of_eq (Nat.zero_add _))

theorem size_putAll_empty_le (entries : List α) :
    (putAll ∅ entries : KeyedSet α).size ≤ entries.length :=
  Nat.le_trans
    (size_foldl_le put (fun collection entry =>
      length_place_le _ entry collection.entries) empty entries)
    (Nat.le_of_eq (Nat.zero_add _))

theorem mem_or_mem_of_mem_union {first second : KeyedSet α} {entry : α}
    (hmem : entry ∈ first.union second) : entry ∈ first ∨ entry ∈ second :=
  mem_or_mem_of_mem_insertAll hmem

theorem mem_union_left {first second : KeyedSet α} {entry : α}
    (hmem : entry ∈ first) : entry ∈ first.union second :=
  mem_insertAll_of_mem second.entries hmem

theorem exists_mem_union {first second : KeyedSet α} {wanted : κ} :
    (∃ entry ∈ first.union second, key entry = wanted) ↔
      (∃ entry ∈ first, key entry = wanted) ∨
        ∃ entry ∈ second, key entry = wanted := by
  constructor
  · rintro ⟨entry, hmem, hkey⟩
    exact (mem_or_mem_of_mem_union hmem).imp (⟨entry, ·, hkey⟩)
      (⟨entry, ·, hkey⟩)
  · rintro (⟨entry, hmem, hkey⟩ | ⟨entry, hmem, hkey⟩)
    · exact ⟨entry, mem_union_left hmem, hkey⟩
    · obtain ⟨other, hother, hotherKey⟩ := exists_mem_insertAll first hmem
      exact ⟨other, hother, hotherKey.trans hkey⟩

theorem contains_iff [DecidableEq κ] {collection : KeyedSet α} {wanted : α} :
    collection.contains wanted = true ↔
      ∃ entry ∈ collection, key entry = key wanted :=
  has_iff

theorem contains_of_mem [DecidableEq κ] {collection : KeyedSet α} {entry : α}
    (hmem : entry ∈ collection) : collection.contains entry = true :=
  contains_iff.mpr ⟨entry, hmem, rfl⟩

theorem find?_eq_some_iff [DecidableEq κ] {collection : KeyedSet α} {wanted : κ}
    {entry : α} :
    collection.find? wanted = some entry ↔
      entry ∈ collection ∧ key entry = wanted := by
  constructor
  · intro hfind
    exact ⟨List.mem_of_find?_eq_some hfind,
      by simpa using List.find?_some hfind⟩
  · rintro ⟨hmem, hkey⟩
    cases hfind : collection.find? wanted with
    | none =>
        have hnone := List.find?_eq_none.mp hfind entry hmem
        simp [hkey] at hnone
    | some found =>
        have hfound : found ∈ collection := List.mem_of_find?_eq_some hfind
        have hfoundKey : key found = wanted := by
          simpa using List.find?_some hfind
        rw [eq_of_key_eq hfound hmem (hfoundKey.trans hkey.symm)]

theorem find?_put [DecidableEq κ] {collection : KeyedSet α} {entry : α}
    {wanted : κ} :
    (collection.put entry).find? wanted =
      if key entry = wanted then some entry else collection.find? wanted := by
  ext other
  rw [find?_eq_some_iff, mem_put]
  split
  · rename_i hkey
    simp only [Option.some.injEq]
    grind
  · rw [find?_eq_some_iff]
    grind

theorem find?_erase [DecidableEq κ] {collection : KeyedSet α}
    {unwanted wanted : κ} :
    (collection.erase unwanted).find? wanted =
      if wanted = unwanted then none else collection.find? wanted := by
  ext other
  rw [find?_eq_some_iff, erase, mem_filter]
  split
  · simp only [Bool.not_eq_true', beq_eq_false_iff_ne]
    grind
  · rw [find?_eq_some_iff]
    simp only [Bool.not_eq_true', beq_eq_false_iff_ne]
    grind

theorem mem_insertAll_iff [DecidableEq κ] {entries : List α}
    {collection : KeyedSet α} {entry : α} :
    entry ∈ collection.insertAll entries ↔
      entry ∈ collection ∨ (∀ held ∈ collection, key held ≠ key entry) ∧
        entries.find? (fun other => key other == key entry) = some entry := by
  induction entries generalizing collection with
  | nil => simp [insertAll]
  | cons head rest ih =>
      change entry ∈ (collection.insert head).insertAll rest ↔ _
      rw [ih, mem_insert, List.find?_cons]
      by_cases hkey : key head = key entry
      · have htaken : ¬∀ held ∈ collection.insert head,
            key held ≠ key entry := by
          obtain ⟨held, hheld, hheldKey⟩ :=
            exists_mem_insertAll collection (List.mem_singleton_self head)
          exact fun hfree => hfree held hheld (hheldKey.trans hkey)
        simp only [hkey, beq_self_eq_true, Option.some.injEq]
        grind
      · have hfree : (∀ held ∈ collection.insert head, key held ≠ key entry) ↔
            ∀ held ∈ collection, key held ≠ key entry := by
          simp only [mem_insert]
          grind
        simp only [hfree, beq_eq_false_iff_ne.mpr hkey]
        grind

theorem mem_ofList_iff [DecidableEq κ] {entries : List α} {entry : α} :
    entry ∈ (ofList entries : KeyedSet α) ↔
      entries.find? (fun other => key other == key entry) = some entry := by
  unfold ofList
  rw [mem_insertAll_iff]
  refine ⟨fun hmem => ?_, fun hfind => Or.inr ⟨?_, hfind⟩⟩
  · exact (hmem.resolve_left not_mem_empty).2
  · exact fun held hheld => absurd hheld not_mem_empty

theorem mem_ofList_of_unique [DecidableEq κ] {entries : List α} {entry : α}
    (hmem : entry ∈ entries)
    (hunique : ∀ other ∈ entries, key other = key entry → other = entry) :
    entry ∈ (ofList entries : KeyedSet α) := by
  rw [mem_ofList_iff]
  cases hfind : entries.find? fun other => key other == key entry with
  | none => simpa using List.find?_eq_none.mp hfind entry hmem
  | some found =>
      have hkey : key found = key entry := by simpa using List.find?_some hfind
      rw [hunique found (List.mem_of_find?_eq_some hfind) hkey]

theorem mem_union_iff [DecidableEq κ] {first second : KeyedSet α} {entry : α} :
    entry ∈ first.union second ↔
      entry ∈ first ∨
        entry ∈ second ∧ ∀ held ∈ first, key held ≠ key entry := by
  have hfind := @find?_eq_some_iff _ _ _ _ _ second (key entry) entry
  unfold find? at hfind
  unfold union
  rw [mem_insertAll_iff, hfind]
  grind

theorem Ascending.eq_of_mem_iff {first second : List α}
    (hfirst : Ascending first) (hsecond : Ascending second)
    (hmem : ∀ entry, entry ∈ first ↔ entry ∈ second) : first = second := by
  induction first generalizing second with
  | nil =>
      cases second with
      | nil => rfl
      | cons head rest => exact absurd ((hmem head).mpr (by simp)) (by simp)
  | cons head rest ih =>
      cases second with
      | nil => exact absurd ((hmem head).mp (by simp)) (by simp)
      | cons other others =>
          have hrest := List.pairwise_cons.mp hfirst
          have hothers := List.pairwise_cons.mp hsecond
          -- Each head is the least of the same entries.
          have hhead : head = other := by
            rcases List.mem_cons.mp ((hmem head).mp (by simp)) with hsame | hlater
            · exact hsame
            rcases List.mem_cons.mp ((hmem other).mpr (by simp)) with
              hsame | hlater'
            · exact hsame.symm
            · have hcycle := KeyOrder.before_trans (hrest.1 other hlater')
                (hothers.1 head hlater)
              rw [KeyOrder.before_irrefl] at hcycle
              cases hcycle
          subst hhead
          refine congrArg (head :: ·) (ih hrest.2 hothers.2 fun entry => ?_)
          have hne : ∀ entry ∈ rest, entry ≠ head := fun entry hentry hsame =>
            key_ne_of_before (hrest.1 entry hentry) (congrArg key hsame.symm)
          have hne' : ∀ entry ∈ others, entry ≠ head :=
            fun entry hentry hsame =>
              key_ne_of_before (hothers.1 entry hentry)
                (congrArg key hsame.symm)
          have hentry := hmem entry
          simp only [List.mem_cons] at hentry
          grind

theorem ext_of_mem {first second : KeyedSet α}
    (hmem : ∀ entry, entry ∈ first ↔ entry ∈ second) : first = second :=
  ext (Ascending.eq_of_mem_iff first.ascending second.ascending hmem)

/-- Of two collections of which one is part of the other, the smaller one is what
the larger one has in common with it. -/
theorem entries_eq_filter [DecidableEq α] {first second : KeyedSet α}
    (hsub : ∀ entry ∈ first, entry ∈ second) :
    first.entries = second.entries.filter (· ∈ first) := by
  have hascending := second.ascending.filter (fun entry => decide (entry ∈ first))
  refine Ascending.eq_of_mem_iff first.ascending hascending fun entry => ?_
  rw [List.mem_filter, decide_eq_true_eq]
  exact ⟨fun hentry => ⟨hsub entry hentry, hentry⟩, And.right⟩

end KeyedSet

end CallGraph
