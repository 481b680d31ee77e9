import CallGraph.Proofs.Keyed

namespace CallGraph

open Keyed (key)

/-- Two lists that are told apart by the order of their items at most, and that
keep the order of those with the same key. -/
def AlikeBy {α κ : Type} [DecidableEq κ] (keyOf : α → κ)
    (first second : List α) : Prop :=
  ∀ wanted, first.filter (fun item => keyOf item == wanted) =
    second.filter fun item => keyOf item == wanted

namespace AlikeBy

variable {α β κ ι : Type} [DecidableEq κ] [DecidableEq ι] {keyOf : α → κ}
  {first second third first' second' : List α} {item : α}

theorem refl (keyOf : α → κ) (items : List α) : AlikeBy keyOf items items :=
  fun _ => rfl

theorem trans (halike : AlikeBy keyOf first second)
    (halike' : AlikeBy keyOf second third) : AlikeBy keyOf first third :=
  fun wanted => (halike wanted).trans (halike' wanted)

theorem mem_iff (halike : AlikeBy keyOf first second) :
    item ∈ first ↔ item ∈ second := by
  have hmem := congrArg (item ∈ ·) (halike (keyOf item))
  simpa [List.mem_filter] using hmem

theorem filter (halike : AlikeBy keyOf first second) (keep : α → Bool) :
    AlikeBy keyOf (first.filter keep) (second.filter keep) := by
  intro wanted
  have hkept := congrArg (List.filter keep) (halike wanted)
  simpa only [List.filter_filter, Bool.and_comm] using hkept

theorem isEmpty_eq (halike : AlikeBy keyOf first second) :
    first.isEmpty = second.isEmpty := by
  rw [Bool.eq_iff_iff, List.isEmpty_iff, List.isEmpty_iff,
    List.eq_nil_iff_forall_not_mem, List.eq_nil_iff_forall_not_mem]
  simp only [halike.mem_iff]

theorem append (halike : AlikeBy keyOf first second)
    (halike' : AlikeBy keyOf first' second') :
    AlikeBy keyOf (first ++ first') (second ++ second') := by
  intro wanted
  rw [List.filter_append, List.filter_append, halike wanted, halike' wanted]

theorem flatMap {items : List β} {found found' : β → List α}
    (halike : ∀ item ∈ items, AlikeBy keyOf (found item) (found' item)) :
    AlikeBy keyOf (items.flatMap found) (items.flatMap found') := by
  induction items with
  | nil => exact refl keyOf []
  | cons item rest ih =>
      rw [List.flatMap_cons, List.flatMap_cons]
      exact (halike item (by simp)).append
        (ih fun other hother => halike other (by simp [hother]))

theorem map {keyOf' : β → κ} {f : α → β}
    (halike : AlikeBy (fun item => keyOf' (f item)) first second) :
    AlikeBy keyOf' (first.map f) (second.map f) := by
  intro wanted
  rw [List.filter_map, List.filter_map]
  exact congrArg (List.map f) (halike wanted)

theorem refine {finer : α → ι} (halike : AlikeBy keyOf first second)
    (hfiner : ∀ item ∈ first, ∀ other ∈ first,
      finer item = finer other → keyOf item = keyOf other) :
    AlikeBy finer first second := by
  intro wanted
  by_cases hfound : ∃ item ∈ first, finer item = wanted
  · obtain ⟨found, hfound, rfl⟩ := hfound
    have hnarrow : ∀ items : List α, (∀ item ∈ items, item ∈ first) →
        items.filter (fun item => finer item == finer found) =
          (items.filter fun item => keyOf item == keyOf found).filter
            fun item => finer item == finer found := by
      intro items hitems
      rw [List.filter_filter]
      refine List.filter_congr fun item hitem => ?_
      by_cases hsame : finer item = finer found
      · simp [hsame, hfiner item (hitems item hitem) found hfound hsame]
      · simp [hsame]
    rw [hnarrow first fun _ hitem => hitem,
      hnarrow second fun _ hitem => halike.mem_iff.mpr hitem,
      halike (keyOf found)]
  · have hnone : ∀ items : List α, (∀ item ∈ items, item ∈ first) →
        items.filter (fun item => finer item == wanted) = [] := by
      intro items hitems
      refine List.filter_eq_nil_iff.mpr fun item hitem hwanted => hfound ?_
      exact ⟨item, hitems item hitem, by simpa using hwanted⟩
    rw [hnone first fun _ hitem => hitem,
      hnone second fun _ hitem => halike.mem_iff.mpr hitem]

theorem perm [DecidableEq α] (halike : AlikeBy keyOf first second) :
    first.Perm second := by
  refine List.perm_iff_count.mpr fun item => ?_
  have hcount := congrArg (List.count item) (halike (keyOf item))
  rwa [List.count_filter (by simp), List.count_filter (by simp)] at hcount

theorem length_eq [DecidableEq α] (halike : AlikeBy keyOf first second) :
    first.length = second.length :=
  halike.perm.length_eq

/-- A set keeps the first item of each key, so the order of the others does not
matter. -/
theorem ofList_eq {α κ : Type} [Keyed α κ] [KeyOrder κ] [DecidableEq κ]
    {first second : List α} (halike : AlikeBy (key : α → κ) first second) :
    (KeyedSet.ofList first : KeyedSet α) = KeyedSet.ofList second := by
  refine KeyedSet.ext_of_mem fun entry => ?_
  rw [KeyedSet.mem_ofList_iff, KeyedSet.mem_ofList_iff, ← List.head?_filter,
    ← List.head?_filter, halike (key entry)]

end AlikeBy

end CallGraph
