import CallGraph.Reach
import Mathlib.Logic.Relation

namespace CallGraph.Reach

/-! What is reached is what a chain of links leads to. -/

theorem length_filter_lt {α : Type} {narrow wide : α → Bool} {entries : List α}
    {entry : α} (hentry : entry ∈ entries)
    (hnarrow : ∀ other ∈ entries, narrow other = true → wide other = true)
    (hwide : wide entry = true) (hnot : narrow entry = false) :
    (entries.filter narrow).length < (entries.filter wide).length := by
  have hpart : entries.filter narrow =
      (entries.filter wide).filter narrow := by
    rw [List.filter_filter]
    apply List.filter_congr
    intro other hother
    cases hpasses : narrow other with
    | false => rfl
    | true => simp [hnarrow other hother hpasses]
  rw [hpart, List.length_filter_lt_length_iff_exists]
  exact ⟨entry, List.mem_filter.mpr ⟨hentry, hwide⟩, by simp [hnot]⟩

variable {κ : Type} {links : List (κ × κ)} {seen start : List κ}
  {source target : κ} {rounds : Nat}

/-- Some links, or none, lead from one to the other. -/
def Leads (links : List (κ × κ)) : κ → κ → Prop :=
  Relation.ReflTransGen fun source target => (source, target) ∈ links

variable [DecidableEq κ]

theorem mem_fresh :
    target ∈ fresh links seen ↔
      target ∉ seen ∧ ∃ source ∈ seen, (source, target) ∈ links := by
  simp only [fresh, List.mem_eraseDups, List.mem_map, List.mem_filter,
    Prod.exists, exists_eq_right]
  grind

theorem mem_within_of_mem (hseen : target ∈ seen) :
    target ∈ within links rounds seen := by
  induction rounds generalizing seen with
  | zero => exact hseen
  | succ rounds ih =>
      unfold within
      split
      · exact hseen
      · exact ih (List.mem_append_left _ hseen)

theorem leads_of_mem_within (hmem : target ∈ within links rounds seen) :
    ∃ source ∈ seen, Leads links source target := by
  induction rounds generalizing seen with
  | zero => exact ⟨target, hmem, .refl⟩
  | succ rounds ih =>
      unfold within at hmem
      split at hmem
      · exact ⟨target, hmem, .refl⟩
      · rename_i hfresh
        obtain ⟨middle, hmiddle, hleads⟩ := ih hmem
        rcases List.mem_append.mp hmiddle with hold | hnew
        · exact ⟨middle, hold, hleads⟩
        · rw [← hfresh, mem_fresh] at hnew
          obtain ⟨_, source, hsource, hlink⟩ := hnew
          exact ⟨source, hsource, hleads.head hlink⟩

def unseen (links : List (κ × κ)) (seen : List κ) : List (κ × κ) :=
  links.filter fun (_, target) => !seen.contains target

theorem length_unseen_lt {more : List κ} (hmore : seen ⊆ more)
    (htarget : target ∈ more) (hnew : target ∉ seen)
    (hlink : (source, target) ∈ links) :
    (unseen links more).length < (unseen links seen).length := by
  apply length_filter_lt (hlink : (source, target) ∈ links)
  · intro link _ hlater
    have hearlier := @hmore link.2
    simp only [Bool.not_eq_true', List.contains_eq_mem,
      decide_eq_false_iff_not] at hlater ⊢
    exact mt hearlier hlater
  · simpa using hnew
  · simpa using htarget

theorem target_mem_of_fresh_eq_nil (hfresh : fresh links seen = [])
    (hsource : source ∈ seen) (hlink : (source, target) ∈ links) :
    target ∈ seen := by
  apply Decidable.byContradiction
  intro hnew
  have hmem := mem_fresh.mpr ⟨hnew, source, hsource, hlink⟩
  rw [hfresh] at hmem
  cases hmem

theorem within_closed (hrounds : (unseen links seen).length ≤ rounds)
    (hmem : source ∈ within links rounds seen)
    (hlink : (source, target) ∈ links) :
    target ∈ within links rounds seen := by
  induction rounds generalizing seen with
  | zero =>
      -- No link leads to anything that was not seen.
      have hnone := List.eq_nil_of_length_eq_zero (Nat.le_zero.mp hrounds)
      apply Decidable.byContradiction
      intro hnew
      have hunseen : (source, target) ∈ unseen links seen :=
        List.mem_filter.mpr ⟨hlink, by simpa [within] using hnew⟩
      rw [hnone] at hunseen
      cases hunseen
  | succ rounds ih =>
      unfold within at hmem ⊢
      split at hmem
      · rename_i hfresh
        exact target_mem_of_fresh_eq_nil hfresh hmem hlink
      · rename_i head rest hfresh
        have hhead := mem_fresh.mp (hfresh ▸ List.mem_cons_self)
        obtain ⟨hnew, source, _, hfound⟩ := hhead
        have hmore : seen ⊆ seen ++ head :: rest :=
          List.subset_append_left _ _
        have hfewer := length_unseen_lt hmore (by simp) hnew hfound
        exact ih (by omega) hmem

theorem mem_reached :
    target ∈ reached links start ↔
      ∃ source ∈ start, Leads links source target := by
  constructor
  · exact leads_of_mem_within
  · rintro ⟨source, hsource, hleads⟩
    induction hleads with
    | refl => exact mem_within_of_mem hsource
    | tail _ hlink ih =>
        exact within_closed (List.length_filter_le _ _) ih hlink

end CallGraph.Reach
