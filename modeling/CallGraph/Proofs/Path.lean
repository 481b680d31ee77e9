import CallGraph.FileSystem

namespace CallGraph

namespace Text

theorem splitChars_eq_splitOn (separator : Char) (characters : List Char) :
    splitChars separator characters = characters.splitOn separator := by
  induction characters with
  | nil => rfl
  | cons head rest ih =>
      rw [splitChars, ih, List.splitOn_cons_eq_if_modifyHead]
      split
      · rfl
      · cases hrest : rest.splitOn separator with
        | nil => exact absurd hrest (List.splitOn_ne_nil separator rest)
        | cons first others => rfl

theorem not_mem_of_mem_splitChars {separator : Char} {characters : List Char} :
    ∀ piece ∈ splitChars separator characters, separator ∉ piece := by
  induction characters with
  | nil => simp [splitChars]
  | cons head rest ih =>
      unfold splitChars
      split
      · intro piece hpiece
        rcases List.mem_cons.mp hpiece with rfl | hpiece
        · exact List.not_mem_nil
        · exact ih piece hpiece
      · rename_i hhead
        have hne : separator ≠ head := fun heq => hhead (by simp [heq])
        split
        · simpa using hne
        · rename_i first others hrest
          rw [hrest] at ih
          intro piece hpiece
          rcases List.mem_cons.mp hpiece with rfl | hpiece
          · simpa [hne] using ih first (by simp)
          · exact ih piece (by simp [hpiece])

theorem mem_of_mem_splitChars {separator : Char} {characters : List Char} :
    ∀ piece ∈ splitChars separator characters, ∀ character ∈ piece,
      character ∈ characters := by
  induction characters with
  | nil => simp [splitChars]
  | cons head rest ih =>
      unfold splitChars
      split
      · intro piece hpiece character hcharacter
        rcases List.mem_cons.mp hpiece with rfl | hpiece
        · cases hcharacter
        · exact List.mem_cons_of_mem _ (ih piece hpiece character hcharacter)
      · split
        · simp
        · rename_i first others hrest
          rw [hrest] at ih
          intro piece hpiece character hcharacter
          rcases List.mem_cons.mp hpiece with rfl | hpiece
          · rcases List.mem_cons.mp hcharacter with rfl | hcharacter
            · exact List.mem_cons_self
            · exact List.mem_cons_of_mem _
                (ih first (by simp) character hcharacter)
          · exact List.mem_cons_of_mem _
              (ih piece (by simp [hpiece]) character hcharacter)

end Text

namespace Path

open Component (ofPiece)

def named (characters : List Char) : List Component :=
  ((Text.splitChars '/' characters).filter fun piece => !isGap piece).map
    ofPiece

theorem named_nil : named [] = [] := rfl

theorem named_append (front back : List Char) :
    named (front ++ '/' :: back) = named front ++ named back := by
  simp only [named, Text.splitChars_eq_splitOn,
    List.splitOn_append_cons_self, List.filter_append, List.map_append]

theorem components_slash (rest : List Char) :
    (Path.mk (String.ofList ('/' :: rest))).components =
      .root :: named rest := by
  simp [components, anchored, Anchored.pieces, named]

theorem components_dot : (Path.mk (String.ofList ['.'])).components =
    [.here] := rfl

theorem components_dotSlash (rest : List Char) :
    (Path.mk (String.ofList ('.' :: '/' :: rest))).components =
      .here :: named ('/' :: rest) := by
  simp [components, anchored, Anchored.pieces, named]

def IsLoose : List Char → Prop
  | '/' :: _ => False
  | ['.'] => False
  | '.' :: '/' :: _ => False
  | _ => True

theorem components_of_isLoose {characters : List Char}
    (hloose : IsLoose characters) :
    (Path.mk (String.ofList characters)).components = named characters := by
  unfold components anchored
  dsimp only
  rw [String.toList_ofList]
  unfold IsLoose at hloose
  split at hloose <;> simp_all [Anchored.pieces, named]

theorem components_append_slash {front : List Char} (hfront : front ≠ [])
    (back : List Char) :
    (Path.mk (String.ofList (front ++ '/' :: back))).components =
      (Path.mk (String.ofList front)).components ++ named back := by
  by_cases hloose : IsLoose front
  · have hloose' : IsLoose (front ++ '/' :: back) := by
      match front, hfront with
      | [head], _ =>
          by_cases hslash : head = '/'
          · simp [hslash, IsLoose] at hloose
          · by_cases hdot : head = '.'
            · simp [hdot, IsLoose] at hloose
            · simp [IsLoose, hslash, hdot]
      | head :: next :: rest, _ =>
          unfold IsLoose at hloose ⊢
          split at hloose <;> simp_all
    rw [components_of_isLoose hloose, components_of_isLoose hloose',
      named_append]
  · unfold IsLoose at hloose
    split at hloose
    · rename_i rest
      rw [components_slash, List.cons_append, components_slash, named_append]
      rfl
    · rw [components_dot, List.singleton_append, components_dotSlash]
      exact congrArg (Component.here :: ·) (named_append [] back)
    · rename_i rest
      rw [components_dotSlash, List.cons_append, List.cons_append,
        components_dotSlash, ← List.cons_append, named_append]
      rfl
    · exact absurd trivial hloose

theorem eq_ofList {path : Path} {characters : List Char}
    (htext : path.text.toList = characters) :
    path = ⟨String.ofList characters⟩ := by
  rw [← htext, String.ofList_toList]

theorem exists_join {base : Path} (hbase : base.text ≠ "") :
    ∃ front, (base.text.toList = front ∧ front ≠ [] ∨
        base.text.toList = front ++ ['/']) ∧
      ∀ path : Path, path.isAbsolute = false →
        base.join path =
          ⟨String.ofList (front ++ '/' :: path.text.toList)⟩ := by
  have hempty : base.text.isEmpty = false := by simpa using hbase
  by_cases hlast : base.text.toList.getLast? = some '/'
  · obtain ⟨front, hfront⟩ := List.getLast?_eq_some_iff.mp hlast
    exact ⟨front, Or.inr hfront, fun path hpath =>
      eq_ofList (by simp [join, hpath, hfront])⟩
  · have hsome : base.text.toList ≠ [] := by simpa using hbase
    exact ⟨_, Or.inl ⟨rfl, hsome⟩, fun path hpath =>
      eq_ofList (by simp [join, hpath, hlast, hempty])⟩

section Join

variable {base path : Path} (hbase : base.text ≠ "")
  (hpath : path.isAbsolute = false)
include hbase hpath

theorem components_join :
    (base.join path).components =
      base.components ++ named path.text.toList := by
  obtain ⟨front, hfront, hjoin⟩ := exists_join hbase
  rw [hjoin path hpath]
  rcases hfront with ⟨hfront, hsome⟩ | hfront
  · rw [components_append_slash hsome, ← eq_ofList hfront]
  · rw [eq_ofList hfront]
    cases front with
    | nil =>
        rw [List.nil_append, List.nil_append, components_slash,
          components_slash, named_nil]
        rfl
    | cons head rest =>
        rw [components_append_slash (List.cons_ne_nil _ _),
          components_append_slash (List.cons_ne_nil _ _), named_nil,
          List.append_nil]

theorem mem_join_text {character : Char} :
    character ∈ (base.join path).text.toList ↔
      character ∈ base.text.toList ∨ character = '/' ∨
        character ∈ path.text.toList := by
  obtain ⟨front, hfront, hjoin⟩ := exists_join hbase
  rw [hjoin path hpath]
  rcases hfront with ⟨hfront, _⟩ | hfront
  · simp [hfront]
  · rw [hfront, String.toList_ofList]
    grind

end Join

theorem named_joinPieces {pieces : List (List Char)}
    (hunparted : ∀ piece ∈ pieces, '/' ∉ piece) :
    named (joinPieces pieces) =
      (pieces.filter fun piece => !isGap piece).map ofPiece := by
  cases pieces with
  | nil => rfl
  | cons first rest =>
      rw [named, Text.splitChars_eq_splitOn, joinPieces,
        List.splitOn_intercalate _ hunparted (List.cons_ne_nil _ _)]

theorem isLoose_joinPieces {first : List Char} (hunparted : '/' ∉ first)
    (hgap : isGap first = false) (rest : List (List Char)) :
    IsLoose (joinPieces (first :: rest)) := by
  obtain ⟨more, hmore⟩ : ∃ more,
      joinPieces (first :: rest) = first ++ more ∧
        (more = [] ∨ ∃ tail, more = '/' :: tail) := by
    cases rest with
    | nil => exact ⟨[], by simp [joinPieces], Or.inl rfl⟩
    | cons second rest =>
        exact ⟨'/' :: joinPieces (second :: rest),
          by simp [joinPieces, List.intercalate_cons_cons], Or.inr ⟨_, rfl⟩⟩
  rw [hmore.1]
  simp only [isGap, Bool.or_eq_false_iff, beq_eq_false_iff_ne] at hgap
  match first, hgap with
  | [head], hgap =>
      have hslash : head ≠ '/' := fun hslash => hunparted (by simp [hslash])
      have hdot : head ≠ '.' := fun hdot => hgap.2 (by rw [hdot])
      simp [IsLoose, hslash, hdot]
  | head :: next :: tail, hgap =>
      have hslash : head ≠ '/' := fun hslash => hunparted (by simp [hslash])
      have hnext : next ≠ '/' := fun hnext => hunparted (by simp [hnext])
      simp [IsLoose, hslash, hnext]

theorem isAbsolute_of_isLoose {characters : List Char}
    (hloose : IsLoose characters) :
    (Path.mk (String.ofList characters)).isAbsolute = false := by
  unfold isAbsolute
  rw [String.toList_ofList]
  cases characters with
  | nil => rfl
  | cons head rest =>
      by_cases hslash : head = '/'
      · rw [hslash] at hloose
        exact hloose.elim
      · simpa using hslash

structure IsPiece (component : Component) : Prop where
  unparted : '/' ∉ component.text.toList
  isGap : isGap component.text.toList = false
  ofPiece : Component.ofPiece component.text.toList = component

theorem isPiece_iff {component : Component} :
    IsPiece component ↔ '/' ∉ component.text.toList ∧
      Path.isGap component.text.toList = false ∧
        Component.ofPiece component.text.toList = component :=
  ⟨fun hpiece => ⟨hpiece.unparted, hpiece.isGap, hpiece.ofPiece⟩,
    fun ⟨hunparted, hgap, hpiece⟩ => ⟨hunparted, hgap, hpiece⟩⟩

instance (component : Component) : Decidable (IsPiece component) :=
  decidable_of_iff' _ isPiece_iff

theorem isPiece_of_mem_named {characters : List Char} {component : Component}
    (hmem : component ∈ named characters) : IsPiece component := by
  obtain ⟨piece, hpiece, rfl⟩ := List.mem_map.mp hmem
  obtain ⟨hpiece, hgap⟩ := List.mem_filter.mp hpiece
  have hunparted := Text.not_mem_of_mem_splitChars piece hpiece
  unfold Component.ofPiece
  split
  · exact ⟨by decide, by decide, rfl⟩
  · rename_i habove
    refine ⟨?_, ?_, ?_⟩
    · simpa [Component.text] using hunparted
    · simpa [Component.text] using hgap
    · simp only [Component.text, String.toList_ofList, Component.ofPiece]
      rw [if_neg habove]

def joined (components : List Component) : List Char :=
  joinPieces (components.map fun component => component.text.toList)

theorem toList_intercalate_text (components : List Component) :
    (String.intercalate "/" (components.map Component.text)).toList =
      joined components := by
  rw [String.toList_intercalate, List.map_map]
  rfl

theorem named_joined {components : List Component}
    (hpieces : ∀ component ∈ components, IsPiece component) :
    named (joined components) = components := by
  have hpieces' : ∀ piece ∈ components.map fun component =>
      component.text.toList, ∃ component, IsPiece component ∧
        component.text.toList = piece := by
    intro piece hpiece
    obtain ⟨component, hcomponent, rfl⟩ := List.mem_map.mp hpiece
    exact ⟨component, hpieces component hcomponent, rfl⟩
  rw [joined, named_joinPieces, List.filter_eq_self.mpr, List.map_map]
  · refine (List.map_congr_left fun component hcomponent => ?_).trans
      (List.map_id _)
    exact (hpieces component hcomponent).ofPiece
  · intro piece hpiece
    obtain ⟨component, hcomponent, rfl⟩ := hpieces' piece hpiece
    rw [hcomponent.isGap]
    rfl
  · intro piece hpiece
    obtain ⟨component, hcomponent, rfl⟩ := hpieces' piece hpiece
    exact hcomponent.unparted

theorem isLoose_joined {components : List Component}
    (hpieces : ∀ component ∈ components, IsPiece component) :
    IsLoose (joined components) := by
  cases components with
  | nil => exact trivial
  | cons first rest =>
      have hfirst := hpieces first List.mem_cons_self
      exact isLoose_joinPieces hfirst.unparted hfirst.isGap _

def IsName (name : String) : Prop := IsPiece (.named name)

theorem isPiece_named {names : List String}
    (hnames : ∀ name ∈ names, IsName name) :
    ∀ component ∈ names.map Component.named, IsPiece component := by
  intro component hcomponent
  obtain ⟨name, hname, rfl⟩ := List.mem_map.mp hcomponent
  exact hnames name hname

theorem intercalate_eq_joined (names : List String) :
    (String.intercalate "/" names).toList =
      joined (names.map Component.named) := by
  rw [← toList_intercalate_text, List.map_map]
  exact congrArg (fun texts => (String.intercalate "/" texts).toList)
    (List.map_id names).symm

section Names

variable {names : List String} (hnames : ∀ name ∈ names, IsName name)
include hnames

theorem named_intercalate :
    named (String.intercalate "/" names).toList =
      names.map Component.named := by
  rw [intercalate_eq_joined, named_joined (isPiece_named hnames)]

theorem isAbsolute_intercalate :
    (Path.mk (String.intercalate "/" names)).isAbsolute = false := by
  have hpath : Path.mk (String.intercalate "/" names) =
      ⟨String.ofList (joined (names.map Component.named))⟩ :=
    eq_ofList (intercalate_eq_joined names)
  rw [hpath]
  exact isAbsolute_of_isLoose (isLoose_joined (isPiece_named hnames))

theorem components_join_names {base : Path} (hbase : base.text ≠ "") :
    (base.join ⟨String.intercalate "/" names⟩).components =
      base.components ++ names.map Component.named := by
  rw [components_join hbase (isAbsolute_intercalate hnames),
    named_intercalate hnames]

theorem components_location :
    (Location.path names).components =
      .root :: names.map Component.named := by
  have htext : (Location.path names).text.toList =
      '/' :: (String.intercalate "/" names).toList := by
    simp [Location.path]
  rw [eq_ofList htext, components_slash, named_intercalate hnames]

end Names

section Name

variable {name : String} (hname : IsName name)
include hname

theorem IsName.slash_notMem : '/' ∉ name.toList := IsPiece.unparted hname

theorem IsName.isGap : Path.isGap name.toList = false := IsPiece.isGap hname

theorem IsName.ne_nil : name.toList ≠ [] := by
  intro hempty
  have hgap := hname.isGap
  rw [hempty] at hgap
  cases hgap

theorem IsName.isAbsolute : (Path.mk name).isAbsolute = false := by
  have habsolute := @isAbsolute_intercalate [name] (by simpa using hname)
  rwa [String.intercalate_singleton] at habsolute

theorem IsName.named : Path.named name.toList = [.named name] := by
  have hnamed := @named_intercalate [name] (by simpa using hname)
  rwa [String.intercalate_singleton] at hnamed

end Name

theorem dropTrailingGaps_concat (pieces : List (List Char)) {piece : List Char}
    (hpiece : isGap piece = false) :
    dropTrailingGaps (pieces ++ [piece]) = pieces ++ [piece] := by
  unfold dropTrailingGaps
  rw [List.reverse_append, List.reverse_singleton, List.singleton_append,
    List.dropWhile_cons, hpiece]
  simp

theorem directoryText_eq {path : Path} {front : List Char} {name : String}
    (hname : IsName name)
    (htext : path.text.toList = front ++ '/' :: name.toList) :
    path.directoryText = front ++ ['/'] := by
  unfold directoryText
  dsimp only
  rw [htext, Text.splitChars_eq_splitOn, List.splitOn_append_cons_self,
    List.splitOn_eq_singleton hname.slash_notMem,
    dropTrailingGaps_concat _ hname.isGap, List.dropLast_concat]
  split
  · rename_i hnil
    exact absurd hnil (List.splitOn_ne_nil _ _)
  · rw [joinPieces, List.intercalate_splitOn]

theorem withExtension_join {base : Path} (hbase : base.text ≠ "")
    {name stem old extension : String} (hname : IsName name)
    (hcut : stemAndExtension name = (stem, some old)) (hstem : stem ≠ ".")
    (hnew : (Path.mk (stem ++ "." ++ extension)).isAbsolute = false) :
    (base.join ⟨name⟩).withExtension extension =
      base.join ⟨stem ++ "." ++ extension⟩ := by
  have hfile : (base.join ⟨name⟩).fileName? = some name := by
    unfold fileName?
    rw [components_join hbase hname.isAbsolute, hname.named]
    simp
  obtain ⟨front, _, hjoin⟩ := exists_join hbase
  have hdirectory : (base.join ⟨name⟩).directoryText = front ++ ['/'] := by
    refine directoryText_eq hname ?_
    rw [hjoin _ hname.isAbsolute, String.toList_ofList]
  unfold withExtension
  rw [hfile]
  dsimp only
  rw [hcut]
  have hplain : (stem == ".") = false := by simpa using hstem
  simp only [hplain, Bool.false_and, Bool.false_eq_true, if_false]
  rw [hjoin _ hnew, hdirectory]
  congr 1
  apply String.toList_injective
  simp

open FileSystem (ofComponents)

theorem exists_components (path : Path) :
    ∃ (anchor : Option Component) (body : List Char),
      path.components = anchor.toList ++ named body ∧
        (anchor = none ∨ anchor = some .root ∨ anchor = some .here) ∧
          ∀ character ∈ body, character ∈ path.text.toList := by
  unfold components anchored
  dsimp only
  split
  · exact ⟨some .root, _, rfl, by simp, by simp_all⟩
  · exact ⟨some .here, [], rfl, by simp, by simp⟩
  · exact ⟨some .here, _, rfl, by simp, by simp_all⟩
  · exact ⟨none, _, rfl, by simp, by simp⟩

theorem components_ofComponents (path : Path) :
    (ofComponents path.components).components = path.components := by
  obtain ⟨anchor, body, hcomponents, hanchor, -⟩ := exists_components path
  have hpieces : ∀ component ∈ named body, IsPiece component :=
    fun _ => isPiece_of_mem_named
  rw [hcomponents]
  generalize named body = pieces at hpieces
  have hnamed := named_joined hpieces
  have hloose := isLoose_joined hpieces
  rcases hanchor with rfl | rfl | rfl
  · have hplain : ofComponents pieces = ⟨String.ofList (joined pieces)⟩ := by
      rw [← toList_intercalate_text]
      cases pieces with
      | nil => rfl
      | cons first rest =>
          have hfirst := (hpieces first (by simp)).unparted
          cases first with
          | root => exact absurd (by simp [Component.text]) hfirst
          | here => exact eq_ofList rfl
          | above => exact eq_ofList rfl
          | named name => exact eq_ofList rfl
    rw [Option.toList_none, List.nil_append, hplain,
      components_of_isLoose hloose, hnamed]
  · have hrooted : ofComponents (.root :: pieces) =
        ⟨String.ofList ('/' :: joined pieces)⟩ :=
      eq_ofList (by
        rw [← toList_intercalate_text]
        simp [ofComponents])
    rw [Option.toList_some, List.singleton_append, hrooted, components_slash,
      hnamed]
  · rw [Option.toList_some, List.singleton_append]
    cases pieces with
    | nil => rfl
    | cons first rest =>
        have hdotted : ofComponents (.here :: first :: rest) =
            ⟨String.ofList (['.'] ++ '/' :: joined (first :: rest))⟩ :=
          eq_ofList (by
            rw [← toList_intercalate_text]
            simp [ofComponents, Component.text])
        rw [hdotted, components_append_slash (List.cons_ne_nil _ _), hnamed]
        rfl

theorem isPiece_of_mem_drop {path : Path} {count : Nat} (hcount : 0 < count)
    {component : Component} (hmem : component ∈ path.components.drop count) :
    IsPiece component := by
  obtain ⟨anchor, body, hcomponents, -⟩ := exists_components path
  have hnamed : component ∈ named body := by
    rw [hcomponents] at hmem
    cases anchor with
    | none => exact List.mem_of_mem_drop hmem
    | some anchor =>
        obtain ⟨rest, rfl⟩ : ∃ rest, count = rest + 1 := ⟨count - 1, by omega⟩
        exact List.mem_of_mem_drop hmem
  exact isPiece_of_mem_named hnamed

theorem isName_of_mem_components {path : Path} {name : String}
    (hmem : .named name ∈ path.components) : IsName name := by
  obtain ⟨anchor, body, hcomponents, hanchor, -⟩ := exists_components path
  rw [hcomponents, List.mem_append] at hmem
  refine isPiece_of_mem_named (hmem.resolve_left ?_)
  rcases hanchor with rfl | rfl | rfl <;> simp

theorem mem_joinPieces {pieces : List (List Char)} {character : Char}
    (hmem : character ∈ joinPieces pieces) :
    character = '/' ∨ ∃ piece ∈ pieces, character ∈ piece := by
  cases pieces with
  | nil => cases hmem
  | cons first rest =>
      induction rest generalizing first with
      | nil =>
          exact Or.inr
            ⟨first, List.mem_cons_self, by simpa [joinPieces] using hmem⟩
      | cons second rest ih =>
          rw [joinPieces, List.intercalate_cons_cons, List.append_assoc,
            List.mem_append, List.singleton_append, List.mem_cons] at hmem
          rcases hmem with hfirst | hslash | hrest
          · exact Or.inr ⟨first, List.mem_cons_self, hfirst⟩
          · exact Or.inl hslash
          · rcases ih second hrest with hslash | ⟨piece, hpiece, hmem⟩
            · exact Or.inl hslash
            · exact Or.inr ⟨piece, List.mem_cons_of_mem _ hpiece, hmem⟩

theorem mem_text_ofComponents {components : List Component} {character : Char}
    (hmem : character ∈ (ofComponents components).text.toList) :
    character = '/' ∨
      ∃ component ∈ components, character ∈ component.text.toList := by
  have hjoined : ∀ {others : List Component},
      character ∈ joined others → character = '/' ∨
        ∃ component ∈ others, character ∈ component.text.toList := by
    intro others hmem
    rcases mem_joinPieces hmem with hslash | ⟨piece, hpiece, hmem⟩
    · exact Or.inl hslash
    · obtain ⟨component, hcomponent, rfl⟩ := List.mem_map.mp hpiece
      exact Or.inr ⟨component, hcomponent, hmem⟩
  unfold ofComponents at hmem
  split at hmem
  · rename_i rest
    rw [String.toList_append, List.mem_append, toList_intercalate_text] at hmem
    rcases hmem with hslash | hmem
    · exact Or.inl (by simpa using hslash)
    · rcases hjoined hmem with hslash | ⟨component, hcomponent, hmem⟩
      · exact Or.inl hslash
      · exact Or.inr ⟨component, List.mem_cons_of_mem _ hcomponent, hmem⟩
  · rw [toList_intercalate_text] at hmem
    exact hjoined hmem

theorem mem_text_of_mem_component {path : Path} {component : Component}
    (hcomponent : component ∈ path.components) {character : Char}
    (hmem : character ∈ component.text.toList) :
    character = '/' ∨ character = '.' ∨ character ∈ path.text.toList := by
  obtain ⟨anchor, body, hcomponents, hanchor, hbody⟩ := exists_components path
  rw [hcomponents, List.mem_append] at hcomponent
  rcases hcomponent with hcomponent | hcomponent
  · rcases hanchor with rfl | rfl | rfl
    · cases hcomponent
    · obtain rfl := List.mem_singleton.mp hcomponent
      exact Or.inl (by simpa [Component.text] using hmem)
    · obtain rfl := List.mem_singleton.mp hcomponent
      exact Or.inr (Or.inl (by simpa [Component.text] using hmem))
  · obtain ⟨piece, hpiece, rfl⟩ := List.mem_map.mp hcomponent
    have hpiece := (List.mem_filter.mp hpiece).1
    unfold Component.ofPiece at hmem
    split at hmem
    · exact Or.inr (Or.inl (by simpa [Component.text] using hmem))
    · refine Or.inr (Or.inr (hbody _ ?_))
      refine Text.mem_of_mem_splitChars piece hpiece _ ?_
      simpa [Component.text] using hmem

def EndsWith (path : Path) (name : String) : Prop :=
  path.text.toList = name.toList ∨
    ∃ front, path.text.toList = front ++ '/' :: name.toList

theorem endsWith_join {base : Path} (hbase : base.text ≠ "") {name : String}
    (hname : IsName name) : (base.join ⟨name⟩).EndsWith name := by
  obtain ⟨front, _, hjoin⟩ := exists_join hbase
  exact Or.inr ⟨front, by rw [hjoin _ hname.isAbsolute, String.toList_ofList]⟩

theorem joined_concat (components : List Component) (last : Component) :
    joined (components ++ [last]) = last.text.toList ∨
      ∃ front, joined (components ++ [last]) =
        front ++ '/' :: last.text.toList := by
  induction components with
  | nil => exact Or.inl (by simp [joined, joinPieces])
  | cons first rest ih =>
      obtain ⟨front, hfront⟩ : ∃ front, joined (rest ++ [last]) =
          front ++ last.text.toList := by
        rcases ih with hlast | ⟨front, hfront⟩
        · exact ⟨[], hlast⟩
        · exact ⟨front ++ ['/'], by rw [hfront]; simp⟩
      have hcons : joined (first :: (rest ++ [last])) =
          first.text.toList ++ '/' :: joined (rest ++ [last]) := by
        cases rest <;> simp [joined, joinPieces, List.intercalate_cons_cons]
      refine Or.inr ?_
      rw [List.cons_append, hcons]
      rcases ih with hlast | ⟨front, hfront⟩
      · exact ⟨first.text.toList, by rw [hlast]⟩
      · exact ⟨first.text.toList ++ '/' :: front, by rw [hfront]; simp⟩

theorem endsWith_ofComponents (components : List Component) (name : String) :
    (ofComponents (components ++ [Component.named name])).EndsWith name := by
  have hplain : ∀ others : List Component,
      (String.intercalate "/" ((others ++ [Component.named name]).map
        Component.text)).toList = name.toList ∨
      ∃ front, (String.intercalate "/" ((others ++ [Component.named name]).map
        Component.text)).toList = front ++ '/' :: name.toList := by
    intro others
    rw [toList_intercalate_text]
    exact joined_concat others _
  cases components with
  | nil => exact hplain []
  | cons first rest =>
      by_cases hroot : first = .root
      · subst hroot
        have htext : (ofComponents
            (.root :: rest ++ [Component.named name])).text.toList =
            '/' :: (String.intercalate "/" ((rest ++ [Component.named name]).map
              Component.text)).toList := by
          simp [ofComponents]
        rcases hplain rest with hlast | ⟨front, hfront⟩
        · exact Or.inr ⟨[], by rw [htext, hlast]; rfl⟩
        · exact Or.inr ⟨'/' :: front, by rw [htext, hfront]; rfl⟩
      · have hothers : ofComponents (first :: rest ++ [Component.named name]) =
            ⟨String.intercalate "/"
              ((first :: rest ++ [Component.named name]).map
              Component.text)⟩ := by
          cases first with
          | root => exact absurd rfl hroot
          | here => rfl
          | above => rfl
          | named _ => rfl
        rw [hothers]
        exact hplain (first :: rest)

section EndsWith

variable {path : Path} {name : String} (hends : path.EndsWith name)
  (hname : IsName name)
include hends hname

theorem EndsWith.endsInName : path.endsInName = true := by
  have hlast : ((Text.splitChars '/' path.text.toList).getLast?) =
      some name.toList := by
    rw [Text.splitChars_eq_splitOn]
    rcases hends with htext | ⟨front, htext⟩
    · rw [htext, List.splitOn_eq_singleton hname.slash_notMem]
      rfl
    · rw [htext, List.splitOn_append_cons_self,
        List.splitOn_eq_singleton hname.slash_notMem]
      simp
  unfold Path.endsInName
  rw [hlast]
  simp [hname.isGap]

theorem EndsWith.getLast? :
    ∃ last, path.text.toList.getLast? = some last ∧ last ≠ '/' := by
  have hsome : name.toList.getLast? =
      some (name.toList.getLast hname.ne_nil) :=
    List.getLast?_eq_some_getLast _
  refine ⟨name.toList.getLast hname.ne_nil, ?_, fun hslash =>
    hname.slash_notMem (hslash ▸ List.getLast_mem hname.ne_nil)⟩
  rcases hends with htext | ⟨front, htext⟩
  · rw [htext, hsome]
  · rw [htext, List.getLast?_append, List.getLast?_cons, hsome]
    rfl

theorem EndsWith.text_ne : path.text ≠ "" := by
  obtain ⟨last, hlast, -⟩ := hends.getLast? hname
  intro hempty
  rw [hempty] at hlast
  cases hlast

theorem EndsWith.steps : FileSystem.steps path = path.components := by
  unfold FileSystem.steps
  rw [hends.endsInName hname]
  simp

theorem EndsWith.withoutSeparators :
    FileSystem.withoutSeparators path = path := by
  obtain ⟨last, hlast, hslash⟩ := hends.getLast? hname
  obtain ⟨front, hfront⟩ := List.getLast?_eq_some_iff.mp hlast
  unfold FileSystem.withoutSeparators
  dsimp only
  rw [hfront, List.reverse_append, List.reverse_singleton,
    List.singleton_append, List.dropWhile_cons]
  have hplain : (last == '/') = false := by simpa using hslash
  rw [hplain]
  simp only [Bool.false_eq_true, if_false, List.reverse_cons,
    List.reverse_reverse]
  rw [← hfront, String.ofList_toList, ite_self]

end EndsWith

theorem filter_dropWhile_isGap (pieces : List (List Char)) :
    ((pieces.dropWhile isGap).filter fun piece => !isGap piece) =
      pieces.filter fun piece => !isGap piece := by
  induction pieces with
  | nil => rfl
  | cons first rest ih =>
      by_cases hgap : isGap first = true
      · rw [List.dropWhile_cons, if_pos hgap, ih, List.filter_cons, hgap]
        rfl
      · rw [List.dropWhile_cons, if_neg hgap]

theorem filter_dropTrailingGaps (pieces : List (List Char)) :
    ((dropTrailingGaps pieces).filter fun piece => !isGap piece) =
      pieces.filter fun piece => !isGap piece := by
  rw [dropTrailingGaps, ← List.reverse_inj, ← List.filter_reverse,
    List.reverse_reverse, filter_dropWhile_isGap, List.filter_reverse]

theorem filter_dropNamed (count : Nat) (pieces : List (List Char)) :
    ((dropNamed count pieces).filter fun piece => !isGap piece) =
      (pieces.filter fun piece => !isGap piece).drop count := by
  induction count generalizing pieces with
  | zero => rw [dropNamed, filter_dropWhile_isGap, List.drop_zero]
  | succ count ih =>
      rw [dropNamed, ih, ← filter_dropWhile_isGap pieces]
      cases hrest : pieces.dropWhile isGap with
      | nil => simp
      | cons first rest =>
          have hgap : isGap first = false := by
            have hhead := List.head?_dropWhile_not isGap pieces
            rw [hrest] at hhead
            simpa using hhead
          rw [List.filter_cons, hgap]
          rfl

theorem mem_of_mem_dropNamed {count : Nat} {pieces : List (List Char)} :
    ∀ piece ∈ dropNamed count pieces, piece ∈ pieces := by
  induction count generalizing pieces with
  | zero => exact fun piece hpiece => (List.dropWhile_sublist _).mem hpiece
  | succ count ih =>
      intro piece hpiece
      exact (List.dropWhile_sublist _).mem
        (List.mem_of_mem_drop (ih piece hpiece))

theorem head_dropNamed {count : Nat} {pieces rest : List (List Char)}
    {first : List Char} (hhead : dropNamed count pieces = first :: rest) :
    isGap first = false := by
  induction count generalizing pieces with
  | zero =>
      have hfirst := List.head?_dropWhile_not isGap pieces
      rw [dropNamed] at hhead
      rw [hhead] at hfirst
      simpa using hfirst
  | succ count ih => exact ih hhead

theorem components_behind (path : Path) {count : Nat} (hcount : 0 < count) :
    (path.behind count).components = path.components.drop count := by
  have hbehind : path.behind count = ⟨String.ofList (joinPieces
      (dropTrailingGaps (dropNamed (count - path.anchored.count)
        path.anchored.pieces)))⟩ := by
    unfold behind
    simp [Nat.ne_of_gt hcount]
  have hkept : ∀ piece ∈ dropTrailingGaps (dropNamed
      (count - path.anchored.count) path.anchored.pieces), '/' ∉ piece := by
    intro piece hpiece
    have hpiece := (List.dropWhile_sublist _).mem
      (List.mem_reverse.mp hpiece)
    exact Text.not_mem_of_mem_splitChars piece
      (mem_of_mem_dropNamed piece (List.mem_reverse.mp hpiece))
  have hloose : IsLoose (joinPieces (dropTrailingGaps (dropNamed
      (count - path.anchored.count) path.anchored.pieces))) := by
    cases hpieces : dropTrailingGaps (dropNamed
        (count - path.anchored.count) path.anchored.pieces) with
    | nil => exact trivial
    | cons first rest =>
        rw [hpieces] at hkept
        refine isLoose_joinPieces (hkept first List.mem_cons_self) ?_ rest
        cases hall : dropNamed (count - path.anchored.count)
            path.anchored.pieces with
        | nil =>
            rw [hall] at hpieces
            cases hpieces
        | cons head others =>
            have hfront : dropTrailingGaps (head :: others) <+:
                head :: others := by
              rw [← List.reverse_suffix, dropTrailingGaps,
                List.reverse_reverse]
              exact List.dropWhile_suffix _
            rw [hall] at hpieces
            rw [hpieces] at hfront
            rw [(List.cons_prefix_cons.mp hfront).1]
            exact head_dropNamed hall
  rw [hbehind, components_of_isLoose hloose, named_joinPieces hkept,
    filter_dropTrailingGaps, filter_dropNamed, List.map_drop, components]
  cases hanchor : path.anchored.anchor with
  | none =>
      have hnone : path.anchored.count = 0 := by
        rw [Anchored.count, hanchor]
        rfl
      rw [hnone]
      rfl
  | some anchor =>
      have hone : path.anchored.count = 1 := by
        rw [Anchored.count, hanchor]
        rfl
      obtain ⟨rest, rfl⟩ : ∃ rest, count = rest + 1 :=
        ⟨count - 1, by omega⟩
      rw [hone]
      rfl

theorem below?_of_components {base path : Path} {rest : List Component}
    (hsome : base.components ≠ [])
    (hcomponents : path.components = base.components ++ rest) :
    ∃ relative, below? base path = some relative ∧
      relative.components = rest := by
  have hstarts : path.startsWith base = true := by
    unfold startsWith
    rw [hcomponents]
    exact List.isPrefixOf_iff_prefix.mpr (List.prefix_append _ _)
  refine ⟨_, if_pos hstarts, ?_⟩
  rw [components_behind _ (List.length_pos_iff.mpr hsome), hcomponents,
    List.drop_left]

theorem named_ne_nil {characters : List Char} (hsome : characters ≠ [])
    (hloose : IsLoose characters) : named characters ≠ [] := by
  cases characters with
  | nil => exact absurd rfl hsome
  | cons head rest =>
      have hslash : ¬(head == '/') = true := by
        intro hslash
        rw [eq_of_beq hslash] at hloose
        exact hloose
      cases hrest : Text.splitChars '/' rest with
      | nil =>
          rw [Text.splitChars_eq_splitOn] at hrest
          exact absurd hrest (List.splitOn_ne_nil _ _)
      | cons first others =>
          have hgap : isGap (head :: first) = false := by
            by_cases hdot : head = '.' ∧ first = []
            · obtain ⟨rfl, rfl⟩ := hdot
              cases rest with
              | nil => exact hloose.elim
              | cons next rest =>
                  by_cases hnext : next = '/'
                  · rw [hnext] at hloose
                    exact hloose.elim
                  · rw [Text.splitChars] at hrest
                    split at hrest
                    · rename_i hbeq
                      exact absurd (eq_of_beq hbeq) hnext
                    · split at hrest <;> simp at hrest
            · simpa [isGap] using hdot
          rw [named, Text.splitChars, if_neg hslash, hrest]
          simp [hgap]

theorem components_ne_nil {path : Path} (htext : path.text ≠ "") :
    path.components ≠ [] := by
  have hsome : path.text.toList ≠ [] := by simpa using htext
  by_cases hloose : IsLoose path.text.toList
  · have hpath : path = ⟨String.ofList path.text.toList⟩ := eq_ofList rfl
    rw [hpath, components_of_isLoose hloose]
    exact named_ne_nil hsome hloose
  · unfold components anchored
    unfold IsLoose at hloose
    split at hloose <;> simp_all

end Path

end CallGraph
