import Mathlib.Data.List.DropRight
import Mathlib.Data.List.TakeDrop
import CallGraph.Proofs.Path

namespace CallGraph.Path

open Component (ofPiece)

/-! A name in a path is one of the pieces of its text, whatever the anchor. -/

theorem named_mem_components_iff {path : Path} {part : String} :
    .named part ∈ path.components ↔ .named part ∈ named path.text.toList := by
  have hpath : path = ⟨String.ofList path.text.toList⟩ := eq_ofList rfl
  generalize path.text.toList = characters at hpath
  subst hpath
  by_cases hloose : IsLoose characters
  · rw [components_of_isLoose hloose]
  · unfold IsLoose at hloose
    split at hloose
    · rename_i rest
      rw [components_slash, ← List.nil_append ('/' :: rest), named_append]
      simp [named_nil]
    · rw [components_dot]
      exact iff_of_false (by simp) (by simp [named, Text.splitChars, isGap])
    · rename_i rest
      have hdot : named ('.' :: '/' :: rest) = named rest :=
        named_append ['.'] rest
      have hslash : named ('/' :: rest) = named rest := named_append [] rest
      rw [components_dotSlash, hdot, hslash]
      simp
    · exact absurd trivial hloose

def IsGaps (text : List Char) : Prop :=
  text = [] ∨ ∃ rest, text = '/' :: rest ∧ named rest = []

def above (front : List (List Char)) : List Char :=
  front.flatMap fun piece => piece ++ ['/']

theorem above_eq_joinPieces {front : List (List Char)} (hfront : front ≠ []) :
    above front = joinPieces front ++ ['/'] := by
  induction front with
  | nil => exact absurd rfl hfront
  | cons first rest ih =>
      cases rest with
      | nil => simp [above, joinPieces]
      | cons second rest =>
          have hrest := ih (List.cons_ne_nil _ _)
          rw [above, List.flatMap_cons, ← above, hrest]
          simp [joinPieces, List.intercalate_cons_cons]

theorem joinPieces_append (front : List (List Char)) (last : List Char)
    (trailing : List (List Char)) :
    joinPieces (front ++ last :: trailing) =
      above front ++ joinPieces (last :: trailing) := by
  induction front with
  | nil => rfl
  | cons first rest ih =>
      have hcons : joinPieces (first :: (rest ++ last :: trailing)) =
          first ++ '/' :: joinPieces (rest ++ last :: trailing) := by
        cases rest <;> simp [joinPieces, List.intercalate_cons_cons]
      rw [List.cons_append, hcons, ih]
      simp [above]

theorem directoryText_eq_above (path : Path) :
    path.directoryText =
      above (dropTrailingGaps
        (Text.splitChars '/' path.text.toList)).dropLast := by
  unfold directoryText
  dsimp only
  split
  · rename_i hnone
    rw [hnone]
    rfl
  · rename_i hsome
    rw [above_eq_joinPieces hsome]

theorem named_append_gaps {last gaps : List Char} (hunparted : '/' ∉ last)
    (hgap : isGap last = false) (hgaps : IsGaps gaps) :
    named (last ++ gaps) = [ofPiece last] := by
  have hlast : named last = [ofPiece last] := by
    rw [named, Text.splitChars_eq_splitOn, List.splitOn_eq_singleton hunparted]
    simp [hgap]
  rcases hgaps with rfl | ⟨rest, rfl, hrest⟩
  · rw [List.append_nil, hlast]
  · rw [named_append, hlast, hrest, List.append_nil]

theorem exists_components_above (front : List (List Char)) :
    ∃ components : List Component, ∀ {last gaps : List Char}, '/' ∉ last →
      isGap last = false → IsGaps gaps →
        (Path.mk (String.ofList (above front ++ last ++ gaps))).components =
          components ++ [ofPiece last] := by
  by_cases hfront : front = []
  · subst hfront
    refine ⟨[], fun {last gaps} hunparted hgap hgaps => ?_⟩
    have hsome : last ≠ [] := by
      rintro rfl
      cases hgap
    have hloose : (Path.mk (String.ofList last)).components = named last :=
      components_of_isLoose (by
        simpa [joinPieces] using isLoose_joinPieces hunparted hgap [])
    have hlast := @named_append_gaps last [] hunparted hgap (Or.inl rfl)
    rw [List.append_nil] at hlast
    change (Path.mk (String.ofList (last ++ gaps))).components = _
    rcases hgaps with rfl | ⟨rest, rfl, hrest⟩
    · rw [List.append_nil, hloose, hlast]
      rfl
    · rw [components_append_slash hsome, hloose, hlast, hrest,
        List.append_nil]
      rfl
  · rw [above_eq_joinPieces hfront]
    cases hjoined : joinPieces front with
    | nil =>
        refine ⟨[.root], fun {last gaps} hunparted hgap hgaps => ?_⟩
        have htext : [] ++ ['/'] ++ last ++ gaps = '/' :: (last ++ gaps) := rfl
        rw [htext, components_slash, named_append_gaps hunparted hgap hgaps]
        rfl
    | cons first rest =>
        refine ⟨(Path.mk (String.ofList (first :: rest))).components,
          fun {last gaps} hunparted hgap hgaps => ?_⟩
        have htext : first :: rest ++ ['/'] ++ last ++ gaps =
            (first :: rest) ++ '/' :: (last ++ gaps) := by simp
        rw [htext, components_append_slash (List.cons_ne_nil _ _),
          named_append_gaps hunparted hgap hgaps]

theorem exists_trailing (pieces : List (List Char)) :
    ∃ trailing, pieces = dropTrailingGaps pieces ++ trailing ∧
      ∀ piece ∈ trailing, isGap piece = true := by
  refine ⟨(pieces.reverse.takeWhile isGap).reverse, ?_, fun piece hpiece =>
    List.mem_takeWhile_imp (List.mem_reverse.mp hpiece)⟩
  rw [dropTrailingGaps, ← List.reverse_append,
    List.takeWhile_append_dropWhile, List.reverse_reverse]

theorem isGap_getLast {pieces : List (List Char)}
    (hkept : dropTrailingGaps pieces ≠ []) :
    isGap ((dropTrailingGaps pieces).getLast hkept) = false :=
  Bool.eq_false_iff.mpr (List.rdropWhile_last_not isGap pieces hkept)

theorem getLast?_of_fileName? {path : Path} {name : String}
    (hname : path.fileName? = some name) :
    path.components.getLast? = some (.named name) := by
  unfold fileName? at hname
  split at hname
  · rename_i hlast
    rw [hlast, Option.some.inj hname]
  · cases hname

theorem joinPieces_cons_gaps {last : List Char} {trailing : List (List Char)}
    (hunparted : ∀ piece ∈ trailing, '/' ∉ piece)
    (htrailing : ∀ piece ∈ trailing, isGap piece = true) :
    ∃ gaps, IsGaps gaps ∧ joinPieces (last :: trailing) = last ++ gaps := by
  cases trailing with
  | nil => exact ⟨[], Or.inl rfl, by simp [joinPieces]⟩
  | cons first rest =>
      refine ⟨'/' :: joinPieces (first :: rest), Or.inr ⟨_, rfl, ?_⟩,
        by simp [joinPieces, List.intercalate_cons_cons]⟩
      rw [named_joinPieces hunparted, List.filter_eq_nil_iff.mpr]
      · rfl
      · intro piece hpiece
        simp [htrailing piece hpiece]

theorem eq_name_of_ofPiece {piece : List Char} {name : String}
    (hpiece : ofPiece piece = .named name) : piece = name.toList := by
  unfold ofPiece at hpiece
  split at hpiece
  · cases hpiece
  · rw [← Component.named.inj hpiece, String.toList_ofList]

theorem exists_gaps {path : Path} {name : String}
    (hname : path.fileName? = some name) :
    ∃ gaps, IsGaps gaps ∧
      path.text.toList = path.directoryText ++ name.toList ++ gaps := by
  have hlast := getLast?_of_fileName? hname
  have hunparted : ∀ piece ∈ Text.splitChars '/' path.text.toList,
      '/' ∉ piece := Text.not_mem_of_mem_splitChars
  have htext : path.text.toList =
      joinPieces (Text.splitChars '/' path.text.toList) := by
    rw [Text.splitChars_eq_splitOn, joinPieces, List.intercalate_splitOn]
  have hmem := named_mem_components_iff.mp (List.mem_of_getLast? hlast)
  rw [directoryText_eq_above]
  unfold named at hmem
  generalize Text.splitChars '/' path.text.toList = pieces at *
  obtain ⟨trailing, hpieces, htrailing⟩ := exists_trailing pieces
  have hkept : dropTrailingGaps pieces ≠ [] := by
    intro hnone
    obtain ⟨piece, hpiece, -⟩ := List.mem_map.mp hmem
    obtain ⟨hpiece, hgap⟩ := List.mem_filter.mp hpiece
    rw [hpieces, hnone] at hpiece
    rw [htrailing piece hpiece] at hgap
    cases hgap
  have hgap := isGap_getLast hkept
  have hconcat := List.dropLast_append_getLast hkept
  generalize (dropTrailingGaps pieces).getLast hkept = last at *
  generalize (dropTrailingGaps pieces).dropLast = front at *
  have hall : pieces = front ++ last :: trailing := by
    rw [hpieces, ← hconcat, List.append_assoc]
    rfl
  obtain ⟨gaps, hgaps, hback⟩ := @joinPieces_cons_gaps last trailing
    (fun piece hpiece => hunparted piece (by simp [hall, hpiece])) htrailing
  rw [hall, joinPieces_append, hback, ← List.append_assoc] at htext
  obtain ⟨components, hcomponents⟩ := exists_components_above front
  rw [eq_ofList htext,
    hcomponents (hunparted last (by simp [hall])) hgap hgaps,
    List.getLast?_concat] at hlast
  refine ⟨gaps, hgaps, ?_⟩
  rw [htext, eq_name_of_ofPiece (Option.some.inj hlast)]

theorem mem_of_mem_stem {name : String} {character : Char}
    (hmem : character ∈ (stemAndExtension name).1.toList) :
    character ∈ name.toList := by
  unfold stemAndExtension at hmem
  cases hcut : cutAtLastDot? name.toList with
  | none => rwa [hcut] at hmem
  | some parts =>
      obtain ⟨stem, extension⟩ := parts
      rw [hcut] at hmem
      have hstem : ∀ other ∈ stem, other ∈ name.toList := by
        unfold cutAtLastDot? at hcut
        rw [List.span_eq_takeWhile_dropWhile] at hcut
        split at hcut
        · cases hcut
        · rename_i dot rest hsplit
          cases hcut
          intro other hother
          have hrest : name.toList.reverse.dropWhile (· != '.') = dot :: rest :=
            congrArg Prod.snd hsplit
          have hkept : other ∈ name.toList.reverse.dropWhile (· != '.') := by
            rw [hrest]
            exact List.mem_cons_of_mem _ (List.mem_reverse.mp hother)
          exact List.mem_reverse.mp ((List.dropWhile_sublist _).mem hkept)
      cases stem with
      | nil => exact hmem
      | cons => simpa using hstem character (by simpa using hmem)

theorem stem_ne_nil {name : String} (hname : name.toList ≠ []) :
    (stemAndExtension name).1.toList ≠ [] := by
  unfold stemAndExtension
  split
  · exact hname
  · exact hname
  · rename_i stem extension hstem _
    simpa using hstem

theorem ofPiece_name {name : String} (hname : IsName name) :
    ofPiece name.toList = .named name := IsPiece.ofPiece hname

theorem isName_draft {name extension : String} (hname : IsName name)
    (hsome : extension.toList ≠ []) (hslash : '/' ∉ extension.toList) :
    IsName ((stemAndExtension name).1 ++ "." ++ extension) := by
  have hparts : (Component.named ((stemAndExtension name).1 ++ "." ++
      extension)).text.toList =
        (stemAndExtension name).1.toList ++ '.' :: extension.toList := by
    simp [Component.text]
  have hstem := stem_ne_nil hname.ne_nil
  have hunparted : '/' ∉ (stemAndExtension name).1.toList :=
    fun hmem => hname.slash_notMem (mem_of_mem_stem hmem)
  have hlong : 3 ≤ ((stemAndExtension name).1.toList ++
      '.' :: extension.toList).length := by
    have hfront := List.length_pos_iff.mpr hstem
    have hback := List.length_pos_iff.mpr hsome
    rw [List.length_append, List.length_cons]
    omega
  refine ⟨?_, ?_, ?_⟩
  · rw [hparts]
    simp [hunparted, hslash]
  · rw [hparts, Bool.eq_false_iff]
    intro hgap
    rcases Bool.or_eq_true_iff.mp hgap with hshort | hshort <;>
      · rw [eq_of_beq hshort] at hlong
        simp at hlong
  · have hother : ((stemAndExtension name).1.toList ++
        '.' :: extension.toList == ['.', '.']) = false := by
      rw [beq_eq_false_iff_ne]
      intro hshort
      rw [hshort] at hlong
      simp at hlong
    unfold Component.ofPiece
    rw [hparts, hother, ← hparts]
    simp [Component.text, String.append_assoc]

theorem endsWith_above {front : List (List Char)} {name : String} :
    (Path.mk (String.ofList (above front ++ name.toList))).EndsWith name := by
  unfold EndsWith
  rw [String.toList_ofList]
  by_cases hfront : front = []
  · subst hfront
    exact Or.inl rfl
  · rw [above_eq_joinPieces hfront]
    exact Or.inr ⟨joinPieces front, by simp⟩

/-- With another extension a path has another last name, if it has one at
all. -/
theorem withExtension_sibling (path : Path) {extension : String}
    (hsome : extension.toList ≠ []) (hslash : '/' ∉ extension.toList) :
    (path.withExtension extension).fileName? = none ∨
      ∃ (above : List Component) (name draft : String),
        path.components = above ++ [.named name] ∧ IsName draft ∧
          (path.withExtension extension).components =
            above ++ [.named draft] ∧
          (path.withExtension extension).EndsWith draft := by
  unfold withExtension
  split
  · rename_i hnone
    exact Or.inl hnone
  · rename_i name hfile
    have hname : IsName name :=
      isName_of_mem_components (List.mem_of_getLast? (getLast?_of_fileName? hfile))
    obtain ⟨gaps, hgaps, htext⟩ := exists_gaps hfile
    rw [directoryText_eq_above] at htext ⊢
    generalize (dropTrailingGaps
      (Text.splitChars '/' path.text.toList)).dropLast = front at *
    obtain ⟨components, hcomponents⟩ := exists_components_above front
    have hpath := hcomponents hname.slash_notMem hname.isGap hgaps
    rw [← eq_ofList htext, ofPiece_name hname] at hpath
    dsimp only
    split
    · have htext : String.ofList (above front) ++ ".." =
          String.ofList (above front ++ ['.', '.'] ++ []) := by
        apply String.toList_injective
        simp
      refine Or.inl ?_
      rw [htext]
      unfold fileName?
      rw [hcomponents (by decide) (by decide) (Or.inl rfl),
        List.getLast?_concat]
      rfl
    · have hdraft := isName_draft hname hsome hslash
      have htext : String.ofList (above front) ++
          (stemAndExtension name).1 ++ "." ++ extension =
            String.ofList (above front ++
              ((stemAndExtension name).1 ++ "." ++ extension).toList) := by
        apply String.toList_injective
        simp
      have hlast := hcomponents hdraft.slash_notMem hdraft.isGap (Or.inl rfl)
      rw [List.append_nil, ofPiece_name hdraft] at hlast
      refine Or.inr ⟨components, name, _, hpath, hdraft, ?_, ?_⟩
      · rw [htext, hlast]
      · rw [htext]
        exact endsWith_above

end CallGraph.Path
