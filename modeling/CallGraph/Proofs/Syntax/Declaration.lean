import CallGraph.Proofs.Syntax.CallSite
import CallGraph.Syntax.Declaration
import Mathlib.Data.List.Forall2

namespace CallGraph.Declaration

/-! Which nodes of a tree are declared, and with which calls. -/

variable {owner : SourceUnit} {source : SourceText} {types : List String}
  {tree holder member node root : Tree} {place : List Nat}
  {names : List Tree} {declaration : Declaration}

structure IsType (type name : Tree) (inner : Nat) (body : Tree) : Prop where
  kind : type.kind = .typeDeclaration
  named : type.child? .name = some name
  placed : type.place? .body = some inner
  body : type.children[inner]? = some body

/-- From a node whose children are members of a type, a place leads down to
another one: every node on the way is a type with a name, or the body of the type
before it, or a list of the members behind the constants of an enum.  The types
passed on the way go by `names`, the outermost one first. -/
inductive Encloses : Tree → List Nat → List Tree → Tree → Prop where
  | member {holder node : Tree} {step : Nat}
      (child : holder.children[step]? = some node) :
      Encloses holder [step] [] node
  | listed {holder list node : Tree} {step : Nat} {place : List Nat}
      {names : List Tree} (child : holder.children[step]? = some list)
      (kind : list.kind = .enumBodyDeclarations)
      (rest : Encloses list place names node) :
      Encloses holder (step :: place) names node
  | nested {holder type name body node : Tree} {step inner : Nat}
      {place : List Nat} {names : List Tree}
      (child : holder.children[step]? = some type)
      (type : IsType type name inner body)
      (rest : Encloses body place names node) :
      Encloses holder (step :: inner :: place) (name :: names) node

def IsMethod (node : Tree) : Prop :=
  node.kind = .methodDeclaration ∨ node.kind = .constructorDeclaration

instance (node : Tree) : Decidable (IsMethod node) :=
  inferInstanceAs (Decidable (_ ∨ _))

/-- A node that is declared: a method or constructor with a name, in types of
which the outermost one stands at the top of the tree. -/
inductive Declares (root : Tree) : List Nat → List Tree → Tree → Prop where
  | intro {type name body node : Tree} {step inner : Nat} {place : List Nat}
      {names : List Tree} (child : root.children[step]? = some type)
      (type : IsType type name inner body)
      (rest : Encloses body place names node) (method : IsMethod node)
      (named : (node.child? .name).isSome = true) :
      Declares root (step :: inner :: place) (name :: names) node

def membersAt? (owner : SourceUnit) (source : SourceText)
    (types : List String) (holder : Tree) : List Nat → Option Declaration
  | [] => none
  | [step] => holder.children[step]?.bind fun member =>
      if IsMethod member then declared? owner source types member else none
  | step :: inner :: rest => holder.children[step]?.bind fun member =>
      match member.kind with
      | .enumBodyDeclarations =>
          membersAt? owner source types member (inner :: rest)
      | .typeDeclaration => (member.child? .name).bind fun name =>
          if member.place? .body = some inner then
            member.children[inner]?.bind fun body =>
              membersAt? owner source (types ++ [source.textOf name]) body rest
          else none
      | _ => none

section Member

variable {step : Nat} (hchild : holder.children[step]? = some member)
include hchild

theorem membersAt?_last :
    membersAt? owner source types holder [step] =
      if IsMethod member then declared? owner source types member else none := by
  rw [membersAt?, hchild, Option.bind_some]

theorem membersAt?_of_type (hkind : member.kind = .typeDeclaration)
    (inner : Nat) (rest : List Nat) :
    membersAt? owner source types holder (step :: inner :: rest) =
      (member.child? .name).bind fun name =>
        if member.place? .body = some inner then
          member.children[inner]?.bind fun body =>
            membersAt? owner source (types ++ [source.textOf name]) body rest
        else none := by
  rw [membersAt?, hchild, Option.bind_some, hkind]

theorem membersAt?_of_list (hkind : member.kind = .enumBodyDeclarations)
    (rest : List Nat) :
    membersAt? owner source types holder (step :: rest) =
      membersAt? owner source types member rest := by
  cases rest with
  | nil =>
      rw [membersAt?_last hchild, if_neg (by simp [IsMethod, hkind])]
      rfl
  | cons inner rest => rw [membersAt?, hchild, Option.bind_some, hkind]

theorem membersAt?_of_other (htype : member.kind ≠ .typeDeclaration)
    (hlist : member.kind ≠ .enumBodyDeclarations) (inner : Nat)
    (rest : List Nat) :
    membersAt? owner source types holder (step :: inner :: rest) = none := by
  rw [membersAt?, hchild, Option.bind_some]
  split <;> first | contradiction | rfl

end Member

theorem exists_encloses_of_membersAt? :
    ∀ {place : List Nat} {types : List String} {holder : Tree},
      membersAt? owner source types holder place = some declaration →
        ∃ names node, Encloses holder place names node ∧ IsMethod node ∧
          declared? owner source (types ++ names.map source.textOf) node =
            some declaration
  | [], _, _, hfound => by cases hfound
  | [step], types, holder, hfound => by
      obtain ⟨node, hchild, -⟩ := Option.bind_eq_some_iff.mp hfound
      rw [membersAt?_last hchild] at hfound
      split at hfound
      · rename_i hmethod
        exact ⟨[], node, .member hchild, hmethod, by simpa using hfound⟩
      · cases hfound
  | step :: inner :: rest, types, holder, hfound => by
      obtain ⟨member, hchild, -⟩ := Option.bind_eq_some_iff.mp hfound
      by_cases hlist : member.kind = .enumBodyDeclarations
      · rw [membersAt?_of_list hchild hlist] at hfound
        obtain ⟨names, node, hrest, hnode⟩ :=
          exists_encloses_of_membersAt? hfound
        exact ⟨names, node, .listed hchild hlist hrest, hnode⟩
      by_cases htype : member.kind = .typeDeclaration
      · rw [membersAt?_of_type hchild htype] at hfound
        obtain ⟨name, hname, hfound⟩ := Option.bind_eq_some_iff.mp hfound
        split at hfound
        · rename_i hplaced
          obtain ⟨body, hbody, hfound⟩ := Option.bind_eq_some_iff.mp hfound
          obtain ⟨names, node, hrest, hmethod, hdeclared⟩ :=
            exists_encloses_of_membersAt? hfound
          rw [List.append_assoc] at hdeclared
          exact ⟨name :: names, node, .nested hchild
            ⟨htype, hname, hplaced, hbody⟩ hrest, hmethod, hdeclared⟩
        · cases hfound
      · rw [membersAt?_of_other hchild htype hlist] at hfound
        cases hfound

theorem membersAt?_of_encloses (hencloses : Encloses holder place names node)
    (hmethod : IsMethod node) (types : List String) :
    membersAt? owner source types holder place =
      declared? owner source (types ++ names.map source.textOf) node := by
  induction hencloses generalizing types with
  | member hchild =>
      rw [membersAt?_last hchild, if_pos hmethod, List.map_nil,
        List.append_nil]
  | listed hchild hkind _ ih =>
      rw [membersAt?_of_list hchild hkind, ih hmethod]
  | nested hchild htype _ ih =>
      rw [membersAt?_of_type hchild htype.kind, htype.named, Option.bind_some,
        if_pos htype.placed, htype.body, Option.bind_some, ih hmethod,
        List.append_assoc]
      rfl

theorem ofMembers_eq (members : List Tree) :
    ofMembers owner source types members =
      members.flatMap (ofMember owner source types) := by
  induction members with
  | nil => rfl
  | cons first rest ih => rw [ofMembers, ih, List.flatMap_cons]

theorem ofBody_eq (member : Tree) :
    ofBody owner source types member.children =
      match member.child? .body with
      | some body => ofMembers owner source types body.children
      | none => [] := by
  obtain ⟨_, _, _, children⟩ := member
  unfold Tree.child? Tree.children
  induction children with
  | nil => rfl
  | cons first rest ih =>
      rw [ofBody, List.find?_cons]
      split
      · rename_i hbody
        obtain ⟨_, _, _, _⟩ := first
        rw [hbody, ofBodyNode]
      · rename_i hbody
        rw [Bool.not_eq_true] at hbody
        rw [hbody, ih]

theorem ofMember_of_type (hkind : member.kind = .typeDeclaration) :
    ofMember owner source types member =
      match member.child? .name with
      | some name =>
          ofBody owner source (types ++ [source.textOf name]) member.children
      | none => [] := by
  obtain ⟨kind, _, _, _⟩ := member
  obtain rfl : kind = .typeDeclaration := hkind
  rw [ofMember]
  rfl

theorem ofMember_of_list (hkind : member.kind = .enumBodyDeclarations) :
    ofMember owner source types member =
      ofMembers owner source types member.children := by
  obtain ⟨kind, _, _, _⟩ := member
  obtain rfl : kind = .enumBodyDeclarations := hkind
  rw [ofMember]
  rfl

theorem ofMember_of_other (htype : member.kind ≠ .typeDeclaration)
    (hlist : member.kind ≠ .enumBodyDeclarations) :
    ofMember owner source types member =
      (if IsMethod member then declared? owner source types member
        else none).toList := by
  obtain ⟨kind, field, span, children⟩ := member
  by_cases hmethod : IsMethod (.node kind field span children)
  · rw [if_pos hmethod]
    rcases hmethod with hkind | hkind <;> obtain rfl : kind = _ := hkind <;>
      rw [ofMember]
  · rw [if_neg hmethod]
    obtain ⟨hmethod, hconstructor⟩ := not_or.mp hmethod
    unfold ofMember
    split <;> first | contradiction | rfl

def ListsMembers (owner : SourceUnit) (source : SourceText) (holder : Tree) :
    Prop :=
  ∀ types, ofMembers owner source types holder.children =
    holder.places.filterMap (membersAt? owner source types holder)

theorem ofBody_eq_filterMap {found : List Nat → Option Declaration}
    (hbodies : ∀ body ∈ member.children, ListsMembers owner source body)
    (hfound : ∀ inner rest, found (inner :: rest) =
      if member.place? .body = some inner then
        member.children[inner]?.bind fun body =>
          membersAt? owner source types body rest
      else none) :
    ofBody owner source types member.children =
      (Tree.placesFrom 0 member.children).filterMap found := by
  rw [ofBody_eq, Tree.child?_eq]
  cases hplaced : member.place? .body with
  | none =>
      refine (Tree.filterMap_placesFrom_eq_nil fun inner rest _ => ?_).symm
      rw [hfound, hplaced, if_neg (by simp)]
  | some inner =>
      obtain ⟨body, hbody⟩ := Tree.exists_of_place? hplaced
      have hothers : ∀ other rest, other ≠ 0 + inner →
          found (other :: rest) = none := by
        intro other rest hother
        rw [Nat.zero_add] at hother
        rw [hfound, hplaced, if_neg (by simpa using Ne.symm hother)]
      have hbelow : (fun rest => found ((0 + inner) :: rest)) =
          membersAt? owner source types body := by
        funext rest
        rw [Nat.zero_add, hfound, hplaced, if_pos rfl, hbody, Option.bind_some]
      rw [Option.bind_some, hbody,
        Tree.filterMap_placesFrom_of_getElem? hbody hothers, hbelow]
      exact hbodies body (List.mem_of_getElem? hbody) _

section Gathered

variable {step : Nat} (hchild : holder.children[step]? = some member)
  (hbodies : ∀ body ∈ member.children, ListsMembers owner source body)
include hchild hbodies

theorem ofMember_eq_of_type (hkind : member.kind = .typeDeclaration) :
    ofMember owner source types member =
      member.places.filterMap fun rest =>
        membersAt? owner source types holder (step :: rest) := by
  have hself : membersAt? owner source types holder [step] = none := by
    rw [membersAt?_last hchild, if_neg (by simp [IsMethod, hkind])]
  have hinner := @membersAt?_of_type owner source types _ _ _ hchild hkind
  rw [ofMember_of_type hkind, Tree.places_eq, List.filterMap_cons, hself]
  cases hname : member.child? .name with
  | none =>
      rw [hname] at hinner
      exact (Tree.filterMap_placesFrom_eq_nil fun inner rest _ =>
        hinner inner rest).symm
  | some name =>
      simp only [hname, Option.bind_some] at hinner
      exact ofBody_eq_filterMap hbodies hinner

theorem ofMember_eq (hmember : ListsMembers owner source member) :
    ofMember owner source types member =
      member.places.filterMap fun rest =>
        membersAt? owner source types holder (step :: rest) := by
  by_cases htype : member.kind = .typeDeclaration
  · exact ofMember_eq_of_type hchild hbodies htype
  by_cases hlist : member.kind = .enumBodyDeclarations
  · have hrest : (fun rest =>
        membersAt? owner source types holder (step :: rest)) =
          membersAt? owner source types member :=
      funext (membersAt?_of_list hchild hlist)
    rw [hrest, ← hmember types, ofMember_of_list hlist]
  · have hnone : (Tree.placesFrom 0 member.children).filterMap (fun rest =>
        membersAt? owner source types holder (step :: rest)) = [] :=
      Tree.filterMap_placesFrom_eq_nil fun inner rest _ =>
        membersAt?_of_other hchild htype hlist inner rest
    rw [ofMember_of_other htype hlist, Tree.places_eq, List.filterMap_cons,
      hnone, membersAt?_last hchild]
    cases (if IsMethod member then declared? owner source types member
      else none) <;> rfl

end Gathered

/-- By induction on the tree.  A type passes its body over to the members in it,
so the induction takes the children along. -/
theorem listsMembers (owner : SourceUnit) (source : SourceText)
    (holder : Tree) : ListsMembers owner source holder := by
  have hall : ListsMembers owner source holder ∧
      ∀ child ∈ holder.children, ListsMembers owner source child := by
    induction holder using Tree.of_children with
    | step kind field span children ih =>
      refine ⟨fun types => ?_, fun child hchild => (ih child hchild).1⟩
      have hroot : membersAt? owner source types
          (.node kind field span children) [] = none := rfl
      rw [Tree.places_eq, List.filterMap_cons_none hroot, Tree.children,
        ofMembers_eq]
      refine (Tree.filterMap_placesFrom fun step member hchild => ?_).symm
      obtain ⟨hmember, hbodies⟩ := ih member (List.mem_of_getElem? hchild)
      rw [Nat.zero_add]
      exact ofMember_eq hchild hbodies hmember
  exact hall.1

def rootAt? (owner : SourceUnit) (source : SourceText) (root : Tree)
    (place : List Nat) : Option Declaration :=
  if (place.head?.bind fun step => root.children[step]?).any fun child =>
      child.kind == .typeDeclaration
  then membersAt? owner source [] root place
  else none

theorem ofRoot_eq (owner : SourceUnit) (source : SourceText) (root : Tree) :
    ofRoot owner source root =
      root.places.filterMap (rootAt? owner source root) := by
  have hnone : rootAt? owner source root [] = none := rfl
  have htop : ∀ children : List Tree,
      (children.filter fun child => child.kind == .typeDeclaration).flatMap
          (ofMember owner source []) =
        children.flatMap fun child =>
          if child.kind = .typeDeclaration then ofMember owner source [] child
          else [] := by
    intro children
    induction children with
    | nil => rfl
    | cons first rest ih =>
        rw [List.filter_cons, List.flatMap_cons, ← ih]
        by_cases hkind : first.kind = .typeDeclaration <;> simp [hkind]
  rw [ofRoot, ofMembers_eq, htop, Tree.places_eq,
    List.filterMap_cons_none hnone]
  refine (Tree.filterMap_placesFrom fun step child hchild => ?_).symm
  rw [Nat.zero_add]
  split
  · rename_i hkind
    rw [ofMember_eq hchild (fun body _ => listsMembers owner source body)
      (listsMembers owner source child)]
    congr 1
    funext rest
    simp [rootAt?, hchild, hkind]
  · rename_i hkind
    refine (List.filterMap_eq_nil_iff.mpr fun rest _ => ?_).symm
    simp [rootAt?, hchild, hkind]

theorem rootAt?_eq_some_iff :
    rootAt? owner source root place = some declaration ↔
      ∃ names node, Declares root place names node ∧
        declared? owner source (names.map source.textOf) node =
          some declaration := by
  constructor
  · intro hfound
    unfold rootAt? at hfound
    split at hfound
    · rename_i htop
      obtain ⟨names, node, hencloses, hmethod, hdeclared⟩ :=
        exists_encloses_of_membersAt? hfound
      refine ⟨names, node, ?_, hdeclared⟩
      have hnamed : (node.child? .name).isSome = true := by
        obtain ⟨name, hname, -⟩ := Option.map_eq_some_iff.mp hdeclared
        rw [hname]
        rfl
      cases hencloses with
      | member hchild =>
          simp [hchild] at htop
          rcases hmethod with hkind | hkind <;> simp [hkind] at htop
      | listed hchild hkind _ => simp [hchild, hkind] at htop
      | nested hchild htype hrest =>
          exact .intro hchild htype hrest hmethod hnamed
    · cases hfound
  · rintro ⟨names, node, ⟨hchild, htype, hrest, hmethod, -⟩, hdeclared⟩
    have hencloses := Encloses.nested hchild htype hrest
    have htop := htype.kind
    unfold rootAt?
    rw [if_pos (by simp [hchild, htop]), membersAt?_of_encloses hencloses hmethod]
    exact hdeclared

theorem Encloses.nodeAt? (hencloses : Encloses holder place names node) :
    holder.nodeAt? place = some node := by
  induction hencloses with
  | member hchild => rw [Tree.nodeAt?, hchild, Option.bind_some, Tree.nodeAt?]
  | listed hchild _ _ ih => rw [Tree.nodeAt?, hchild, Option.bind_some, ih]
  | nested hchild htype _ ih =>
      rw [Tree.nodeAt?, hchild, Option.bind_some, Tree.nodeAt?, htype.body,
        Option.bind_some, ih]

theorem Encloses.eq_of_prefix {other : List Nat} {otherNames : List Tree}
    {otherNode : Tree} (hencloses : Encloses holder place names node)
    (hmethod : IsMethod node)
    (hother : Encloses holder other otherNames otherNode)
    (hfront : place <+: other) : place = other := by
  induction hencloses generalizing other otherNames with
  | member hchild =>
      cases hother with
      | member hchild' => simpa using hfront
      | listed hchild' hkind _ =>
          obtain ⟨rfl, -⟩ := List.cons_prefix_cons.mp hfront
          obtain rfl := Option.some.inj (hchild.symm.trans hchild')
          simp [IsMethod, hkind] at hmethod
      | nested hchild' htype _ =>
          obtain ⟨rfl, -⟩ := List.cons_prefix_cons.mp hfront
          obtain rfl := Option.some.inj (hchild.symm.trans hchild')
          simp [IsMethod, htype.kind] at hmethod
  | listed hchild hkind hrest ih =>
      cases hother with
      | member hchild' =>
          obtain ⟨rfl, hnil⟩ := List.cons_prefix_cons.mp hfront
          rw [List.prefix_nil.mp hnil]
      | listed hchild' _ hrest' =>
          obtain ⟨rfl, hback⟩ := List.cons_prefix_cons.mp hfront
          obtain rfl := Option.some.inj (hchild.symm.trans hchild')
          rw [ih hmethod hrest' hback]
      | nested hchild' htype _ =>
          obtain ⟨rfl, -⟩ := List.cons_prefix_cons.mp hfront
          obtain rfl := Option.some.inj (hchild.symm.trans hchild')
          simp [htype.kind] at hkind
  | nested hchild htype hrest ih =>
      cases hother with
      | member hchild' => simp at hfront
      | listed hchild' hkind _ =>
          obtain ⟨rfl, -⟩ := List.cons_prefix_cons.mp hfront
          obtain rfl := Option.some.inj (hchild.symm.trans hchild')
          simp [htype.kind] at hkind
      | nested hchild' htype' hrest' =>
          obtain ⟨rfl, hinner⟩ := List.cons_prefix_cons.mp hfront
          obtain rfl := Option.some.inj (hchild.symm.trans hchild')
          obtain ⟨rfl, hback⟩ := List.cons_prefix_cons.mp hinner
          obtain rfl := Option.some.inj (htype.body.symm.trans htype'.body)
          rw [ih hmethod hrest' hback]

theorem Declares.encloses (hdeclares : Declares root place names node) :
    Encloses root place names node ∧ IsMethod node := by
  obtain ⟨hchild, htype, hrest, hmethod, -⟩ := hdeclares
  exact ⟨.nested hchild htype hrest, hmethod⟩

def bodyPlace? (root : Tree) (place : List Nat) : Option (List Nat) :=
  (root.nodeAt? place).bind fun node =>
    (node.place? .body).map fun inner => place ++ [inner]

/-- A place in the body of the declaration that stands at another one. -/
def HasInBody (root : Tree) (place inside : List Nat) : Prop :=
  ∃ body, bodyPlace? root place = some body ∧ body <+: inside

theorem HasInBody.isBelow {inside : List Nat}
    (hinside : HasInBody root place inside) : place <+: inside := by
  obtain ⟨body, hbody, hfront⟩ := hinside
  obtain ⟨node, -, hinner⟩ := Option.bind_eq_some_iff.mp hbody
  obtain ⟨inner, -, rfl⟩ := Option.map_eq_some_iff.mp hinner
  exact (List.prefix_append _ _).trans hfront

theorem Declares.eq_of_hasInBody {other inside : List Nat}
    {otherNames : List Tree} {otherNode : Tree}
    (hdeclares : Declares root place names node)
    (hother : Declares root other otherNames otherNode)
    (hinside : HasInBody root place inside)
    (hinside' : HasInBody root other inside) : place = other := by
  obtain ⟨hencloses, hmethod⟩ := hdeclares.encloses
  obtain ⟨hencloses', hmethod'⟩ := hother.encloses
  rcases List.prefix_or_prefix_of_prefix hinside.isBelow hinside'.isBelow with
    hfront | hfront
  · exact hencloses.eq_of_prefix hmethod hencloses' hfront
  · exact (hencloses'.eq_of_prefix hmethod' hencloses hfront).symm

/-- A declaration tells of the node at a place: its enclosing type goes by the
names of the types around it, and its calls are those of the places in its
body. -/
structure Describes (owner : SourceUnit) (source : SourceText) (root : Tree)
    (place : List Nat) (declaration : Declaration) : Prop where
  method : ∃ names node name, Declares root place names node ∧
    node.child? .name = some name ∧
      declaration.method = Method.declare owner
        (String.intercalate "." (names.map source.textOf))
        (source.textOf name) (params source node)
  body : declaration.body = (bodyPlace? root place).bind root.nodeAt?
  calls : declaration.body.map (CallSite.within source) =
    (bodyPlace? root place).map fun body =>
      (root.places.filter body.isPrefixOf).filterMap fun inside =>
        (root.nodeAt? inside).bind (CallSite.ofNode? source)

/-- Declarations of all nodes that a tree declares, each of them once and in
preorder, and no node in the bodies of two of them. -/
structure Lists (owner : SourceUnit) (source : SourceText) (root : Tree)
    (places : List (List Nat)) (declarations : List Declaration) : Prop where
  exact : ∀ place, place ∈ places ↔
    ∃ names node, Declares root place names node
  once : places.Nodup
  inPreorder : places.Sublist root.places
  described : List.Forall₂ (Describes owner source root) places declarations
  apart : ∀ first ∈ places, ∀ second ∈ places, ∀ inside,
    HasInBody root first inside → HasInBody root second inside →
      first = second

theorem exists_body {front : List Nat}
    (hplace : bodyPlace? root place = some front) :
    ∃ body, root.nodeAt? front = some body := by
  obtain ⟨node, hnode, hbody⟩ := Option.bind_eq_some_iff.mp hplace
  obtain ⟨inner, hinner, rfl⟩ := Option.map_eq_some_iff.mp hbody
  obtain ⟨body, hbody⟩ := Tree.exists_of_place? hinner
  refine ⟨body, ?_⟩
  rw [Tree.nodeAt?_append, hnode, Option.bind_some, Tree.nodeAt?_singleton,
    hbody]

theorem child?_body_eq (hnode : root.nodeAt? place = some node) :
    node.child? .body = (bodyPlace? root place).bind root.nodeAt? := by
  rw [bodyPlace?, hnode, Option.bind_some, Tree.child?_eq]
  cases node.place? .body with
  | none => rfl
  | some inner =>
      rw [Option.bind_some, Option.map_some, Option.bind_some,
        Tree.nodeAt?_append, hnode, Option.bind_some, Tree.nodeAt?_singleton]

/-- The calls in a part of a tree are those of the places below it. -/
theorem within_below {body : Tree} {front : List Nat}
    (hbody : root.nodeAt? front = some body) :
    CallSite.within source body =
      (root.places.filter front.isPrefixOf).filterMap fun inside =>
        (root.nodeAt? inside).bind (CallSite.ofNode? source) := by
  have hrest : (fun rest => (root.nodeAt? (front ++ rest)).bind
      (CallSite.ofNode? source)) = fun rest =>
        (body.nodeAt? rest).bind (CallSite.ofNode? source) := by
    funext rest
    rw [Tree.nodeAt?_append, hbody, Option.bind_some]
  rw [Tree.filterMap_places_below hbody, hrest, CallSite.within_eq,
    ← Tree.filterMap_nodeAt?_places, List.filterMap_filterMap]

theorem Declares.describes (hdeclares : Declares root place names node)
    (hdeclared : declared? owner source (names.map source.textOf) node =
      some declaration) : Describes owner source root place declaration := by
  obtain ⟨name, hname, rfl⟩ := Option.map_eq_some_iff.mp hdeclared
  have hbody := child?_body_eq hdeclares.encloses.1.nodeAt?
  constructor
  case method => exact ⟨names, node, name, hdeclares, hname, rfl⟩
  case body => exact hbody
  case calls =>
    dsimp only
    rw [hbody]
    cases hplace : bodyPlace? root place with
    | none => rfl
    | some front =>
        obtain ⟨body, hfound⟩ := exists_body hplace
        rw [Option.bind_some, hfound, Option.map_some, Option.map_some,
          within_below hfound]

theorem Declares.exists_rootAt? (owner : SourceUnit) (source : SourceText)
    (hdeclares : Declares root place names node) :
    ∃ declaration, rootAt? owner source root place = some declaration := by
  obtain ⟨hchild, htype, hrest, hmethod, hnamed⟩ := hdeclares
  obtain ⟨name, hname⟩ := Option.isSome_iff_exists.mp hnamed
  exact ⟨_, rootAt?_eq_some_iff.mpr ⟨_, _,
    .intro hchild htype hrest hmethod hnamed,
    Option.map_eq_some_iff.mpr ⟨name, hname, rfl⟩⟩⟩

theorem forall₂_filterMap {α β : Type} {found : α → Option β}
    {Fits : α → β → Prop}
    (hfits : ∀ origin result, found origin = some result →
      Fits origin result) (origins : List α) :
    List.Forall₂ Fits (origins.filter fun origin => (found origin).isSome)
      (origins.filterMap found) := by
  induction origins with
  | nil => exact .nil
  | cons first rest ih =>
      rw [List.filter_cons, List.filterMap_cons]
      cases hfound : found first with
      | none => exact ih
      | some result => exact .cons (hfits first result hfound) ih

/-- The declarations of a tree are those of the methods and constructors in its
types, each of them once and in preorder.  No node lies in the bodies of two of
them, so that no call is found twice. -/
theorem ofRoot_listsTree (owner : SourceUnit) (source : SourceText)
    (root : Tree) :
    ∃ places, Lists owner source root places
      (ofRoot owner source root) := by
  let places := root.places.filter fun place =>
    (rootAt? owner source root place).isSome
  have hexact : ∀ place, place ∈ places ↔
      ∃ names node, Declares root place names node := by
    intro place
    rw [List.mem_filter, Tree.mem_places, Option.isSome_iff_exists]
    constructor
    · rintro ⟨-, declaration, hfound⟩
      obtain ⟨names, node, hdeclares, -⟩ := rootAt?_eq_some_iff.mp hfound
      exact ⟨names, node, hdeclares⟩
    · rintro ⟨names, node, hdeclares⟩
      exact ⟨⟨node, hdeclares.encloses.1.nodeAt?⟩,
        hdeclares.exists_rootAt? owner source⟩
  refine ⟨places, ?_⟩
  constructor
  case exact => exact hexact
  case once => exact (Tree.nodup_places root).filter _
  case inPreorder => exact List.filter_sublist
  case described =>
    rw [ofRoot_eq]
    refine forall₂_filterMap (fun place declaration hfound => ?_) _
    obtain ⟨names, node, hdeclares, hdeclared⟩ :=
      rootAt?_eq_some_iff.mp hfound
    exact hdeclares.describes hdeclared
  case apart =>
    intro first hfirst second hsecond inside hinside hinside'
    obtain ⟨_, _, hdeclares⟩ := (hexact first).mp hfirst
    obtain ⟨_, _, hdeclares'⟩ := (hexact second).mp hsecond
    exact hdeclares.eq_of_hasInBody hdeclares' hinside hinside'

end CallGraph.Declaration

namespace CallGraph.Sample

def nestedText : String := "class A { class B { void f(int[] n) {} } A() {} }"

def nestedTree : Tree :=
  .node .other .none ⟨0, 49⟩
    [.node .typeDeclaration .none ⟨0, 49⟩
      [.node .identifier .name ⟨6, 7⟩ [],
        .node .other .body ⟨8, 49⟩
          [.node .typeDeclaration .none ⟨10, 40⟩
            [.node .identifier .name ⟨16, 17⟩ [],
              .node .other .body ⟨18, 40⟩
                [.node .methodDeclaration .none ⟨20, 38⟩
                  [.node .other .type ⟨20, 24⟩ [],
                    .node .identifier .name ⟨25, 26⟩ [],
                    .node .other .parameters ⟨26, 35⟩
                      [.node .formalParameter .none ⟨27, 34⟩
                        [.node .other .type ⟨27, 32⟩ [],
                          .node .identifier .name ⟨33, 34⟩ []]],
                    .node .other .body ⟨36, 38⟩ []]]],
            .node .constructorDeclaration .none ⟨41, 47⟩
              [.node .identifier .name ⟨41, 42⟩ [],
                .node .other .parameters ⟨42, 44⟩ [],
                .node .other .body ⟨45, 47⟩ []]]]]

example : (Declaration.ofRoot ⟨"A.java"⟩ (.ofText nestedText) nestedTree).map
    (fun declaration => declaration.method.signature) =
      ["A.B::f(int[] n)", "A::A()"] := by
  decide +kernel

end CallGraph.Sample
