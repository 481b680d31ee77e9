import CallGraph.Proofs.Syntax.Tree
import CallGraph.Syntax.CallSite
import Mathlib.Logic.Relation

namespace CallGraph.CallSite

/-! The calls in a body are those of its nodes, in preorder.  A search that keeps
the nodes it has still to look at on a stack finds the same. -/

variable {source : SourceText}

theorem withinAll_eq (source : SourceText) (children : List Tree) :
    withinAll source children = children.flatMap (within source) := by
  induction children with
  | nil => rfl
  | cons first rest ih => rw [withinAll, ih, List.flatMap_cons]

theorem within_eq (source : SourceText) (tree : Tree) :
    within source tree = tree.preorder.filterMap (ofNode? source) := by
  induction tree using Tree.of_children with
  | step kind field span children ih =>
    have hbelow : children.flatMap (within source) =
        (children.flatMap Tree.preorder).filterMap (ofNode? source) := by
      rw [List.filterMap_flatMap, List.flatMap_def, List.flatMap_def]
      exact congrArg List.flatten (List.map_congr_left ih)
    rw [within, withinAll_eq, hbelow, Tree.preorder, Tree.preorderAll_eq,
      List.filterMap_cons]
    cases ofNode? source (.node kind field span children) <;> rfl

/-- A node that is a call: of a method by its name, of a constructor by a type,
or of one by `this(...)`. -/
inductive IsCall (node : Tree) : Prop where
  | invocation {name : Tree} (kind : node.kind = .methodInvocation)
      (named : node.child? .name = some name)
  | creation {type : Tree} (kind : node.kind = .objectCreation)
      (typed : node.child? .type = some type)
  | delegation {target : Tree} (kind : node.kind = .constructorInvocation)
      (aimed : node.child? .constructor = some target)
      (own : target.kind = .thisExpression)

theorem exists_ofNode?_iff (source : SourceText) (node : Tree) :
    (∃ site, ofNode? source node = some site) ↔ IsCall node := by
  constructor
  · rintro ⟨site, hsite⟩
    unfold ofNode? at hsite
    split at hsite
    · rename_i hkind
      obtain ⟨name, hname, -⟩ := Option.map_eq_some_iff.mp hsite
      exact .invocation hkind hname
    · rename_i hkind
      obtain ⟨type, htype, -⟩ := Option.map_eq_some_iff.mp hsite
      exact .creation hkind htype
    · rename_i hkind
      split at hsite
      · rename_i hown
        cases htarget : node.child? .constructor with
        | none =>
            rw [htarget] at hown
            cases hown
        | some target =>
            rw [htarget] at hown
            exact .delegation hkind htarget (eq_of_beq hown)
      · cases hsite
    · cases hsite
  · rintro (⟨hkind, hname⟩ | ⟨hkind, htype⟩ | ⟨hkind, htarget, hown⟩)
    · exact ⟨_, by rw [ofNode?, hkind, hname]; rfl⟩
    · exact ⟨_, by rw [ofNode?, hkind, htype]; rfl⟩
    · refine ⟨⟨"", argumentCount node, .construct⟩, ?_⟩
      rw [ofNode?, hkind, htarget]
      exact if_pos (beq_iff_eq.mpr hown)

/-- A search on its way: the calls that it has found, and the nodes that it has
still to look at, the next one last. -/
structure Descent where
  found : List CallSite
  stack : List Tree

namespace Descent

/-- The last node is taken off the stack, and its children are put there, so that
the first of them comes next. -/
def next? (source : SourceText) (descent : Descent) : Option Descent :=
  descent.stack.getLast?.map fun node =>
    ⟨descent.found ++ (ofNode? source node).toList,
      descent.stack.dropLast ++ node.children.reverse⟩

def Step (source : SourceText) (earlier later : Descent) : Prop :=
  earlier.next? source = some later

def ahead (descent : Descent) : List Tree :=
  descent.stack.reverse.flatMap Tree.preorder

variable {earlier later : Descent}

theorem Step.looksAt (hstep : Step source earlier later) :
    ∃ node, earlier.ahead = node :: later.ahead ∧
      later.found = earlier.found ++ (ofNode? source node).toList := by
  obtain ⟨node, hlast, rfl⟩ := Option.map_eq_some_iff.mp hstep
  obtain ⟨front, hfront⟩ := List.getLast?_eq_some_iff.mp hlast
  refine ⟨node, ?_, rfl⟩
  obtain ⟨kind, field, span, children⟩ := node
  unfold ahead
  rw [hfront, List.dropLast_concat, List.reverse_append, List.reverse_append,
    List.reverse_reverse, List.flatMap_append, List.flatMap_append,
    List.reverse_singleton, List.flatMap_singleton, Tree.preorder,
    Tree.preorderAll_eq]
  rfl

theorem wellFounded_step (source : SourceText) :
    WellFounded fun later earlier => Step source earlier later := by
  refine Subrelation.wf (fun {later earlier} hstep => ?_)
    (measure fun descent : Descent => descent.ahead.length).wf
  obtain ⟨node, hahead, -⟩ := Step.looksAt hstep
  change later.ahead.length < earlier.ahead.length
  rw [hahead]
  exact Nat.lt_succ_self _

theorem exists_finished (source : SourceText) (descent : Descent) :
    ∃ last : Descent, Relation.ReflTransGen (Step source) descent last ∧
      last.stack = [] := by
  induction descent using (wellFounded_step source).induction with
  | _ descent ih =>
    cases hnext : descent.next? source with
    | none =>
        exact ⟨descent, .refl, by simpa [next?] using hnext⟩
    | some next =>
        obtain ⟨last, hrun, hdone⟩ := ih next hnext
        exact ⟨last, .head hnext hrun, hdone⟩

/-- What has been found and what is ahead make up the same calls all along. -/
theorem found_of_run
    (hrun : Relation.ReflTransGen (Step source) earlier later) :
    later.found ++ later.ahead.filterMap (ofNode? source) =
      earlier.found ++ earlier.ahead.filterMap (ofNode? source) := by
  induction hrun with
  | refl => rfl
  | tail _ hstep ih =>
      obtain ⟨node, hahead, hfound⟩ := hstep.looksAt
      rw [← ih, hahead, hfound, List.append_assoc]
      cases hnode : ofNode? source node <;> simp [hnode]

end Descent

/-- A search that begins with a body ends with these calls. -/
def FoundByDescent (source : SourceText) (body : Tree)
    (sites : List CallSite) : Prop :=
  ∃ last : Descent,
    Relation.ReflTransGen (Descent.Step source) ⟨[], [body]⟩ last ∧
      last.stack = [] ∧ last.found = sites

theorem foundByDescent_iff {body : Tree} {sites : List CallSite} :
    FoundByDescent source body sites ↔ sites = within source body := by
  have hends : ∀ {last : Descent},
      Relation.ReflTransGen (Descent.Step source) ⟨[], [body]⟩ last →
        last.stack = [] → last.found = within source body := by
    intro last hrun hdone
    have hfound := Descent.found_of_run hrun
    have hahead : last.ahead = [] := by
      unfold Descent.ahead
      rw [hdone]
      rfl
    rw [hahead, List.filterMap_nil, List.append_nil] at hfound
    rw [hfound, within_eq]
    simp [Descent.ahead]
  constructor
  · rintro ⟨last, hrun, hdone, rfl⟩
    exact hends hrun hdone
  · rintro rfl
    obtain ⟨last, hrun, hdone⟩ := Descent.exists_finished source ⟨[], [body]⟩
    exact ⟨last, hrun, hdone, hends hrun hdone⟩

/-- The calls in a body are those of its nodes in preorder: one for each node that
is a call.  A search for them with a stack comes to an end, and to the same
calls. -/
theorem within_followsPreorder (source : SourceText) (body : Tree) :
    within source body = body.preorder.filterMap (ofNode? source) ∧
      (∀ node, (∃ site, ofNode? source node = some site) ↔ IsCall node) ∧
      (WellFounded fun later earlier => Descent.Step source earlier later) ∧
      ∀ sites, FoundByDescent source body sites ↔
        sites = within source body :=
  ⟨within_eq source body, exists_ofNode?_iff source,
    Descent.wellFounded_step source, fun _ => foundByDescent_iff⟩

end CallGraph.CallSite

namespace CallGraph.Sample

def callingText : String := "{ this.f(1, g()); new a.B<T>(); }"

def callingBody : Tree :=
  .node .other .body ⟨0, 33⟩
    [.node .methodInvocation .none ⟨2, 16⟩
      [.node .thisExpression .object ⟨2, 6⟩ [],
        .node .identifier .name ⟨7, 8⟩ [],
        .node .other .arguments ⟨8, 16⟩
          [.node .other .none ⟨9, 10⟩ [],
            .node .methodInvocation .none ⟨12, 15⟩
              [.node .identifier .name ⟨12, 13⟩ [],
                .node .other .arguments ⟨13, 15⟩ []]]],
      .node .objectCreation .none ⟨18, 30⟩
        [.node .other .type ⟨22, 28⟩ [],
          .node .other .arguments ⟨28, 30⟩ []]]

example : CallSite.within (.ofText callingText) callingBody =
    [⟨"f", 2, .this⟩, ⟨"g", 0, .implicit⟩, ⟨"B", 0, .construct⟩] := by
  decide +kernel

end CallGraph.Sample
