import CallGraph.Text.Blank

namespace CallGraph.Text

theorem filter_trimStart (characters : List Char) :
    (trimStart characters).filter (fun character => !isBlank character) =
      characters.filter fun character => !isBlank character := by
  induction characters with
  | nil => rfl
  | cons first rest ih =>
      cases hfirst : isBlank first with
      | true => rw [trimStart, List.dropWhile_cons_of_pos hfirst, ← trimStart,
          ih, List.filter_cons_of_neg (by simp [hfirst])]
      | false => rw [trimStart, List.dropWhile_cons_of_neg (by simp [hfirst])]

theorem filter_trimEnd (characters : List Char) :
    (trimEnd characters).filter (fun character => !isBlank character) =
      characters.filter fun character => !isBlank character := by
  rw [trimEnd, List.filter_reverse, ← trimStart, filter_trimStart,
    List.filter_reverse, List.reverse_reverse]

theorem compact_trim (text : String) : compact (trim text) = compact text := by
  rw [compact, compact, trim, String.toList_ofList, filter_trimEnd,
    filter_trimStart]

theorem mem_compact {text : String} {character : Char} :
    character ∈ (compact text).toList ↔
      character ∈ text.toList ∧ isBlank character = false := by
  simp [compact]

theorem trimStart_of_forall {characters : List Char}
    (hplain : ∀ character ∈ characters, isBlank character = false) :
    trimStart characters = characters := by
  cases characters with
  | nil => rfl
  | cons first rest =>
      exact List.dropWhile_cons_of_neg (by simp [hplain first])

theorem trimEnd_of_forall {characters : List Char}
    (hplain : ∀ character ∈ characters, isBlank character = false) :
    trimEnd characters = characters := by
  rw [trimEnd, ← trimStart, trimStart_of_forall, List.reverse_reverse]
  exact fun character hmem => hplain character (List.mem_reverse.mp hmem)

theorem trim_of_forall {text : String}
    (hplain : ∀ character ∈ text.toList, isBlank character = false) :
    trim text = text := by
  rw [trim, trimStart_of_forall hplain, trimEnd_of_forall hplain,
    String.ofList_toList]

structure IsFirstCut (mark text front back : List Char) : Prop where
  parts : text = front ++ mark ++ back
  first : ∀ {before after}, text = before ++ mark ++ after →
    front.length ≤ before.length

section Cut

variable {mark text front back : List Char}

theorem IsFirstCut.unique {other rest : List Char}
    (hcut : IsFirstCut mark text front back)
    (hother : IsFirstCut mark text other rest) :
    front = other ∧ back = rest := by
  have hlength : front.length = other.length :=
    Nat.le_antisymm (hcut.first hother.parts) (hother.first hcut.parts)
  have hsame := hcut.parts.symm.trans hother.parts
  rw [List.append_assoc, List.append_assoc] at hsame
  obtain ⟨hfront, hback⟩ := List.append_inj hsame hlength
  exact ⟨hfront, List.append_cancel_left hback⟩

theorem IsFirstCut.here (mark back : List Char) :
    IsFirstCut mark (mark ++ back) [] back :=
  ⟨rfl, fun _ => Nat.zero_le _⟩

theorem IsFirstCut.cons {head : Char} (hhead : ¬mark <+: head :: text)
    (hcut : IsFirstCut mark text front back) :
    IsFirstCut mark (head :: text) (head :: front) back where
  parts := congrArg (head :: ·) hcut.parts
  first := by
    intro before after hparts
    cases before with
    | nil => exact absurd ⟨after, hparts.symm⟩ hhead
    | cons other before =>
        exact Nat.succ_le_succ (hcut.first (List.cons.inj hparts).2)

theorem isFirstCut_of_not_mem {head : Char} {tail : List Char}
    (hfront : head ∉ front) (back : List Char) :
    IsFirstCut (head :: tail) (front ++ head :: tail ++ back) front back := by
  induction front with
  | nil => exact .here (head :: tail) back
  | cons first front ih =>
      obtain ⟨hfirst, hrest⟩ := not_or.mp (mt List.mem_cons.mpr hfront)
      refine (ih hrest).cons fun hstarts => hfirst ?_
      exact (List.cons_prefix_cons.mp hstarts).1

theorem isFirstCut_of_cutAt? (hcut : cutAt? mark text = some (front, back)) :
    IsFirstCut mark text front back := by
  induction text generalizing front with
  | nil =>
      cases mark with
      | nil =>
          cases hcut
          exact .here [] []
      | cons => cases hcut
  | cons head rest ih =>
      rw [cutAt?] at hcut
      split at hcut
      · rename_i hstarts
        cases hcut
        obtain ⟨back, hback⟩ := List.isPrefixOf_iff_prefix.mp hstarts
        rw [← hback, List.drop_left]
        exact .here mark back
      · rename_i hstarts
        obtain ⟨⟨front, back⟩, hrest, hparts⟩ := Option.map_eq_some_iff.mp hcut
        cases hparts
        exact (ih hrest).cons (mt List.isPrefixOf_iff_prefix.mpr hstarts)

theorem cutAt?_of_starts (hstarts : mark <+: text) :
    cutAt? mark text = some ([], text.drop mark.length) := by
  cases text with
  | nil =>
      rw [List.prefix_nil.mp hstarts]
      rfl
  | cons head rest =>
      rw [cutAt?, if_pos (List.isPrefixOf_iff_prefix.mpr hstarts)]

theorem exists_cutAt? (mark before after : List Char) :
    ∃ cut, cutAt? mark (before ++ mark ++ after) = some cut := by
  induction before with
  | nil => exact ⟨_, cutAt?_of_starts (List.prefix_append mark after)⟩
  | cons head before ih =>
      obtain ⟨⟨front, back⟩, hcut⟩ := ih
      rw [List.cons_append, List.cons_append]
      by_cases hstarts : mark <+: head :: (before ++ mark ++ after)
      · exact ⟨_, cutAt?_of_starts hstarts⟩
      · refine ⟨(head :: front, back), ?_⟩
        rw [cutAt?, if_neg (mt List.isPrefixOf_iff_prefix.mp hstarts), hcut]
        rfl

theorem cutAt?_eq_some_iff :
    cutAt? mark text = some (front, back) ↔
      IsFirstCut mark text front back := by
  refine ⟨isFirstCut_of_cutAt?, fun hcut => ?_⟩
  -- A text with the mark in it is cut, and there is one place for it.
  obtain ⟨⟨other, rest⟩, hfound⟩ := exists_cutAt? mark front back
  rw [← hcut.parts] at hfound
  obtain ⟨rfl, rfl⟩ := hcut.unique (isFirstCut_of_cutAt? hfound)
  exact hfound

end Cut

end CallGraph.Text
