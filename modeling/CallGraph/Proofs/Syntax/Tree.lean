import CallGraph.Syntax.Tree

namespace CallGraph.Tree

variable {α : Type} {tree child : Tree} {children : List Tree}
  {place : List Nat}

mutual

theorem of_children {motive : Tree → Prop}
    (step : ∀ kind field span children,
      (∀ child ∈ children, motive child) →
        motive (.node kind field span children)) :
    ∀ tree, motive tree
  | .node kind field span children =>
      step kind field span children (forall_of_children step children)

theorem forall_of_children {motive : Tree → Prop}
    (step : ∀ kind field span children,
      (∀ child ∈ children, motive child) →
        motive (.node kind field span children)) :
    ∀ children : List Tree, ∀ child ∈ children, motive child
  | [], _, hmem => absurd hmem List.not_mem_nil
  | first :: rest, child, hmem => by
      rcases List.mem_cons.mp hmem with hfirst | hrest
      · rw [hfirst]
        exact of_children step first
      · exact forall_of_children step rest child hrest

end

def nodeAt? (tree : Tree) : List Nat → Option Tree
  | [] => some tree
  | step :: rest => tree.children[step]?.bind fun child => child.nodeAt? rest

theorem nodeAt?_append (tree : Tree) (front back : List Nat) :
    tree.nodeAt? (front ++ back) =
      (tree.nodeAt? front).bind fun below => below.nodeAt? back := by
  induction front generalizing tree with
  | nil => rfl
  | cons step rest ih =>
      rw [List.cons_append, nodeAt?, nodeAt?]
      cases tree.children[step]? with
      | none => rfl
      | some child => exact ih child

theorem nodeAt?_singleton (tree : Tree) (step : Nat) :
    tree.nodeAt? [step] = tree.children[step]? := by
  rw [nodeAt?]
  cases tree.children[step]? <;> rfl

def place? (tree : Tree) (wanted : NodeField) : Option Nat :=
  tree.children.findIdx? fun child => child.field == wanted

theorem child?_eq (tree : Tree) (wanted : NodeField) :
    tree.child? wanted =
      (tree.place? wanted).bind fun place => tree.children[place]? :=
  List.find?_eq_bind_findIdx?_getElem?

theorem exists_of_place? {wanted : NodeField} {place : Nat}
    (hplace : tree.place? wanted = some place) :
    ∃ child, tree.children[place]? = some child := by
  obtain ⟨hlt, -⟩ := List.findIdx?_eq_some_iff_getElem.mp hplace
  exact ⟨_, List.getElem?_eq_getElem hlt⟩

mutual

def places : Tree → List (List Nat)
  | .node _ _ _ children => [] :: placesFrom 0 children
termination_by structural tree => tree

def placesFrom (first : Nat) : List Tree → List (List Nat)
  | [] => []
  | child :: rest =>
      (places child).map (first :: ·) ++ placesFrom (first + 1) rest
termination_by structural children => children

end

theorem places_eq (tree : Tree) :
    tree.places = [] :: placesFrom 0 tree.children := by
  obtain ⟨_, _, _, _⟩ := tree
  rw [places, Tree.children]

theorem preorderAll_eq (children : List Tree) :
    preorderAll children = children.flatMap preorder := by
  induction children with
  | nil => rfl
  | cons first rest ih => rw [preorderAll, ih, List.flatMap_cons]

theorem mem_placesFrom {first : Nat} :
    place ∈ placesFrom first children ↔
      ∃ step rest child, place = (first + step) :: rest ∧
        children[step]? = some child ∧ rest ∈ child.places := by
  induction children generalizing first with
  | nil => simp [placesFrom]
  | cons head tail ih =>
      rw [placesFrom, List.mem_append, List.mem_map, ih]
      constructor
      · rintro (⟨rest, hrest, rfl⟩ | ⟨step, rest, child, rfl, hchild, hrest⟩)
        · exact ⟨0, rest, head, rfl, rfl, hrest⟩
        · exact ⟨step + 1, rest, child, by rw [Nat.add_right_comm]; rfl,
            hchild, hrest⟩
      · rintro ⟨_ | step, rest, child, rfl, hchild, hrest⟩
        · obtain rfl := Option.some.inj hchild
          exact Or.inl ⟨rest, hrest, rfl⟩
        · exact Or.inr ⟨step, rest, child, by rw [Nat.add_right_comm]; rfl,
            hchild, hrest⟩

theorem mem_places :
    place ∈ tree.places ↔ ∃ node, tree.nodeAt? place = some node := by
  induction tree using of_children generalizing place with
  | step kind field span children ih =>
    cases place with
    | nil => simp [places, nodeAt?]
    | cons step rest =>
        simp only [places, List.mem_cons, reduceCtorEq, false_or,
          mem_placesFrom, Nat.zero_add, List.cons.injEq, nodeAt?, Tree.children,
          Option.bind_eq_some_iff]
        constructor
        · rintro ⟨_, _, child, ⟨rfl, rfl⟩, hchild, hrest⟩
          obtain ⟨node, hnode⟩ :=
            (ih child (List.mem_of_getElem? hchild)).mp hrest
          exact ⟨node, child, hchild, hnode⟩
        · rintro ⟨node, child, hchild, hnode⟩
          exact ⟨step, rest, child, ⟨rfl, rfl⟩, hchild,
            (ih child (List.mem_of_getElem? hchild)).mpr ⟨node, hnode⟩⟩

theorem pairwise_placesFrom {first : Nat}
    (hchildren : ∀ child ∈ children, child.places.Pairwise (· < ·)) :
    (placesFrom first children).Pairwise (· < ·) := by
  induction children generalizing first with
  | nil => exact List.Pairwise.nil
  | cons head tail ih =>
      rw [placesFrom, List.pairwise_append]
      refine ⟨?_, ih fun child hchild =>
        hchildren child (List.mem_cons_of_mem _ hchild), ?_⟩
      · rw [List.pairwise_map]
        refine (hchildren head List.mem_cons_self).imp fun hlt => ?_
        exact List.cons_lt_cons_iff.mpr (Or.inr ⟨rfl, hlt⟩)
      · intro earlier hearlier later hlater
        obtain ⟨_, _, rfl⟩ := List.mem_map.mp hearlier
        obtain ⟨step, _, _, rfl, _, _⟩ := mem_placesFrom.mp hlater
        exact List.cons_lt_cons_iff.mpr (Or.inl (by omega))

theorem pairwise_places (tree : Tree) : tree.places.Pairwise (· < ·) := by
  induction tree using of_children with
  | step kind field span children ih =>
    rw [places, List.pairwise_cons]
    refine ⟨fun place hplace => ?_, pairwise_placesFrom ih⟩
    obtain ⟨step, rest, _, rfl, _, _⟩ := mem_placesFrom.mp hplace
    exact List.nil_lt_cons _ _

theorem nodup_places (tree : Tree) : tree.places.Nodup := by
  refine (pairwise_places tree).imp ?_
  rintro place _ hlt rfl
  exact List.lt_irrefl place hlt

theorem filterMap_placesFrom {first : Nat} {found : List Nat → Option α}
    {gathered : Tree → List α}
    (hgathered : ∀ step child, children[step]? = some child →
      gathered child =
        child.places.filterMap fun rest => found ((first + step) :: rest)) :
    (placesFrom first children).filterMap found =
      children.flatMap gathered := by
  induction children generalizing first with
  | nil => rfl
  | cons head tail ih =>
      rw [placesFrom, List.filterMap_append, List.filterMap_map,
        List.flatMap_cons, hgathered 0 head rfl, ih]
      · rfl
      · intro step child hchild
        rw [hgathered (step + 1) child hchild, Nat.add_right_comm]
        rfl

theorem filterMap_placesFrom_eq_nil {first : Nat}
    {found : List Nat → Option α}
    (hnone : ∀ step rest, first ≤ step → found (step :: rest) = none) :
    (placesFrom first children).filterMap found = [] := by
  refine List.filterMap_eq_nil_iff.mpr fun place hplace => ?_
  obtain ⟨step, rest, _, rfl, _, _⟩ := mem_placesFrom.mp hplace
  exact hnone _ rest (Nat.le_add_right first step)

theorem filterMap_placesFrom_of_getElem? {first step : Nat}
    {found : List Nat → Option α}
    (hchild : children[step]? = some child)
    (hothers : ∀ other rest, other ≠ first + step →
      found (other :: rest) = none) :
    (placesFrom first children).filterMap found =
      child.places.filterMap fun rest => found ((first + step) :: rest) := by
  induction children generalizing first step with
  | nil => cases hchild
  | cons head tail ih =>
      rw [placesFrom, List.filterMap_append, List.filterMap_map]
      cases step with
      | zero =>
          obtain rfl := Option.some.inj hchild
          have htail : (placesFrom (first + 1) tail).filterMap found = [] :=
            filterMap_placesFrom_eq_nil fun other rest hlater =>
              hothers other rest (Nat.ne_of_gt hlater)
          rw [htail, List.append_nil]
          rfl
      | succ step =>
          have hshift : first + 1 + step = first + (step + 1) := by omega
          rw [ih hchild (hshift ▸ hothers), hshift]
          rw [List.filterMap_eq_nil_iff.mpr, List.nil_append]
          intro rest _
          exact hothers first rest (by omega)

/-- What there is at the places, one after the other, are the nodes in
preorder. -/
theorem filterMap_nodeAt?_places (tree : Tree) :
    tree.places.filterMap tree.nodeAt? = tree.preorder := by
  induction tree using of_children with
  | step kind field span children ih =>
    have hbelow : (placesFrom 0 children).filterMap
        (nodeAt? (.node kind field span children)) =
          children.flatMap preorder := by
      refine filterMap_placesFrom fun step child hchild => ?_
      have hnode : (fun rest => nodeAt? (.node kind field span children)
          ((0 + step) :: rest)) = child.nodeAt? := by
        funext rest
        simp [nodeAt?, Tree.children, hchild]
      rw [hnode, ih child (List.mem_of_getElem? hchild)]
    have hroot : nodeAt? (.node kind field span children) [] =
        some (.node kind field span children) := rfl
    rw [places, List.filterMap_cons_some hroot, hbelow, preorder,
      preorderAll_eq]

theorem filterMap_places_below {root below : Tree} {front : List Nat}
    (hbelow : root.nodeAt? front = some below) (found : List Nat → Option α) :
    (root.places.filter front.isPrefixOf).filterMap found =
      below.places.filterMap fun rest => found (front ++ rest) := by
  induction front generalizing root found with
  | nil =>
      obtain rfl := Option.some.inj hbelow
      have hall : root.places.filter (List.isPrefixOf []) = root.places :=
        List.filter_eq_self.mpr fun _ _ => rfl
      rw [hall]
      rfl
  | cons step rest ih =>
      obtain ⟨kind, field, span, children⟩ := root
      obtain ⟨child, hchild, hrest⟩ := Option.bind_eq_some_iff.mp hbelow
      have hchild : children[step]? = some child := hchild
      let kept := fun place : List Nat =>
        if (step :: rest).isPrefixOf place = true then found place else none
      have hothers : ∀ other back, other ≠ 0 + step →
          kept (other :: back) = none := by
        intro other back hother
        rw [Nat.zero_add] at hother
        simp [kept, Ne.symm hother]
      have hkept : (fun back => kept ((0 + step) :: back)) = fun back =>
          if rest.isPrefixOf back = true then found (step :: back) else none := by
        funext back
        simp [kept]
      rw [List.filterMap_filter, places, List.filterMap_cons_none rfl]
      calc (placesFrom 0 children).filterMap kept
          = child.places.filterMap fun back => kept ((0 + step) :: back) :=
            filterMap_placesFrom_of_getElem? hchild hothers
        _ = (child.places.filter rest.isPrefixOf).filterMap fun back =>
              found (step :: back) := by
            rw [hkept, List.filterMap_filter]
        _ = below.places.filterMap fun back => found (step :: rest ++ back) :=
            ih hrest fun back => found (step :: back)

end CallGraph.Tree
