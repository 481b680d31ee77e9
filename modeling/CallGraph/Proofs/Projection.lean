import CallGraph.Projection
import CallGraph.Proofs.Graph
import CallGraph.Proofs.Keyed
import CallGraph.Proofs.Reach
import Mathlib.Logic.Basic

namespace CallGraph

open Keyed (key)

/-! The graph of the call chains through a focus, and the searches that find
it. -/

theorem KeyedSet.mem_insertAll_of_part {α κ : Type} [Keyed α κ] [KeyOrder κ]
    {whole part : KeyedSet α} {entries : List α} {entry : α}
    (hpart : ∀ entry ∈ part, entry ∈ whole)
    (hentries : ∀ entry ∈ entries, entry ∈ whole) :
    entry ∈ part.insertAll entries ↔ entry ∈ part ∨ entry ∈ entries := by
  refine ⟨mem_or_mem_of_mem_insertAll, ?_⟩
  rintro (hmem | hmem)
  · exact mem_insertAll_of_mem entries hmem
  · obtain ⟨other, hother, hkey⟩ := exists_mem_insertAll part hmem
    have hwhole : other ∈ whole :=
      (mem_or_mem_of_mem_insertAll hother).elim (hpart other) (hentries other)
    rwa [← eq_of_key_eq hwhole (hentries entry hmem) hkey]

/-- Chains are followed up to the callers and down to the callees. -/
inductive Direction where
  | up
  | down

namespace Direction

def source : Direction → Edge → MethodId
  | up, edge => edge.callee.id
  | down, edge => edge.caller.id

def target : Direction → Edge → MethodId
  | up, edge => edge.caller.id
  | down, edge => edge.callee.id

def links (direction : Direction) (snapshot : Snapshot) :
    List (MethodId × MethodId) :=
  snapshot.edges.entries.map fun edge =>
    (direction.source edge, direction.target edge)

variable {direction : Direction} {snapshot : Snapshot} {edge : Edge}
  {first second : MethodId}

theorem mem_links :
    (first, second) ∈ direction.links snapshot ↔
      ∃ edge ∈ snapshot.edges,
        direction.source edge = first ∧ direction.target edge = second := by
  simp [links, KeyedSet.mem_def]

theorem mem_links_of_mem (hedge : edge ∈ snapshot.edges) :
    (direction.source edge, direction.target edge) ∈ direction.links snapshot :=
  mem_links.mpr ⟨edge, hedge, rfl, rfl⟩

end Direction

/-- A search from some methods on: those that were seen, those that are still to
be looked at, and the edges that were passed. -/
structure Search where
  seen : List MethodId
  pending : List MethodId
  passed : EdgeSet

namespace Search

variable {direction : Direction} {snapshot : Snapshot} {search : Search}
  {edge : Edge} {edges : List Edge} {id : MethodId}

def pass (direction : Direction) (search : Search) (edge : Edge) : Search :=
  let passed := search.passed.insert edge
  if direction.target edge ∈ search.seen then { search with passed := passed }
  else
    { seen := direction.target edge :: search.seen
      pending := direction.target edge :: search.pending
      passed := passed }

def edgesAt (direction : Direction) (snapshot : Snapshot) (id : MethodId) :
    List Edge :=
  snapshot.edges.entries.filter fun edge => direction.source edge == id

/-- Any of the methods that are to be looked at may be the next one. -/
inductive Step (direction : Direction) (snapshot : Snapshot) :
    Search → Search → Prop
  | visit (seen before : List MethodId) (id : MethodId) (after : List MethodId)
      (passed : EdgeSet) :
      Step direction snapshot ⟨seen, before ++ id :: after, passed⟩
        ((edgesAt direction snapshot id).foldl (pass direction)
          ⟨seen, before ++ after, passed⟩)

theorem mem_edgesAt :
    edge ∈ edgesAt direction snapshot id ↔
      edge ∈ snapshot.edges ∧ direction.source edge = id := by
  simp [edgesAt, KeyedSet.mem_def]

theorem mem_seen_foldl :
    id ∈ (edges.foldl (pass direction) search).seen ↔
      id ∈ search.seen ∨ ∃ edge ∈ edges, direction.target edge = id := by
  induction edges generalizing search with
  | nil => simp
  | cons edge rest ih =>
      have hpass : id ∈ (search.pass direction edge).seen ↔
          id ∈ search.seen ∨ direction.target edge = id := by
        unfold pass
        dsimp only
        split
        · grind
        · simp only [List.mem_cons]
          grind
      rw [List.foldl_cons, ih, hpass]
      simp [or_assoc]

theorem mem_pending_foldl :
    id ∈ (edges.foldl (pass direction) search).pending ↔
      id ∈ search.pending ∨
        id ∉ search.seen ∧ ∃ edge ∈ edges, direction.target edge = id := by
  induction edges generalizing search with
  | nil => simp
  | cons edge rest ih =>
      rw [List.foldl_cons, ih]
      unfold pass
      dsimp only
      split
      · grind
      · simp only [List.mem_cons]
        grind

theorem passed_foldl :
    (edges.foldl (pass direction) search).passed =
      search.passed.insertAll edges := by
  induction edges generalizing search with
  | nil => rfl
  | cons edge rest ih =>
      have hpass : (search.pass direction edge).passed =
          search.passed.insert edge := by
        unfold pass
        dsimp only
        split <;> rfl
      rw [List.foldl_cons, ih, hpass]
      rfl

def toDo (direction : Direction) (snapshot : Snapshot) (search : Search) :
    Nat :=
  search.pending.length +
    (Reach.unseen (direction.links snapshot) search.seen).length

theorem toDo_pass_le (hedge : edge ∈ snapshot.edges) :
    (search.pass direction edge).toDo direction snapshot ≤
      search.toDo direction snapshot := by
  unfold pass
  dsimp only
  split
  · exact Nat.le_refl _
  · rename_i hnew
    have hfewer := Reach.length_unseen_lt
      (List.subset_cons_self (direction.target edge) search.seen)
      List.mem_cons_self hnew (Direction.mem_links_of_mem hedge)
    simp only [toDo, List.length_cons]
    omega

theorem toDo_foldl_le (hedges : ∀ edge ∈ edges, edge ∈ snapshot.edges) :
    (edges.foldl (pass direction) search).toDo direction snapshot ≤
      search.toDo direction snapshot := by
  induction edges generalizing search with
  | nil => exact Nat.le_refl _
  | cons edge rest ih =>
      have hrest : _ ≤ (search.pass direction edge).toDo direction snapshot :=
        ih fun other hother => hedges other (List.mem_cons_of_mem edge hother)
      exact Nat.le_trans hrest (toDo_pass_le (hedges edge List.mem_cons_self))

theorem Step.toDo_lt {next : Search}
    (hstep : Step direction snapshot search next) :
    next.toDo direction snapshot < search.toDo direction snapshot := by
  cases hstep with
  | visit seen before id after passed =>
      have hedges : ∀ edge ∈ edgesAt direction snapshot id,
          edge ∈ snapshot.edges := fun edge hedge => (mem_edgesAt.mp hedge).1
      apply Nat.lt_of_le_of_lt (toDo_foldl_le hedges)
      simp only [toDo, List.length_append, List.length_cons]
      omega

theorem wellFounded_step (direction : Direction) (snapshot : Snapshot) :
    WellFounded fun later earlier => Step direction snapshot earlier later :=
  Subrelation.wf Step.toDo_lt (measure (toDo direction snapshot)).wf

theorem exists_finished (direction : Direction) (snapshot : Snapshot)
    (search : Search) :
    ∃ last, Relation.ReflTransGen (Step direction snapshot) search last ∧
      last.pending = [] := by
  induction search using (wellFounded_step direction snapshot).induction with
  | _ search ih =>
      obtain ⟨seen, pending, passed⟩ := search
      cases pending with
      | nil => exact ⟨_, .refl, rfl⟩
      | cons id rest =>
          have hstep : Step direction snapshot ⟨seen, id :: rest, passed⟩ _ :=
            .visit seen [] id rest passed
          obtain ⟨last, hrun, hdone⟩ := ih _ hstep
          exact ⟨last, hrun.head hstep, hdone⟩

/-- An edge is followed when its near end is reached from the focus. -/
def IsFollowed (direction : Direction) (focus : List Method)
    (snapshot : Snapshot) (edge : Edge) : Prop :=
  ∃ method ∈ focus,
    Reach.Leads (direction.links snapshot) method.id (direction.source edge)

structure IsOnTheWay (direction : Direction) (focus : List Method)
    (snapshot : Snapshot) (before : EdgeSet) (search : Search) : Prop where
  known : ∀ id ∈ search.pending, id ∈ search.seen
  started : ∀ method ∈ focus, method.id ∈ search.seen
  reached : ∀ id ∈ search.seen, ∃ method ∈ focus,
    Reach.Leads (direction.links snapshot) method.id id
  kept : ∀ edge ∈ before, edge ∈ search.passed
  passed : ∀ edge ∈ search.passed, edge ∈ before ∨
    edge ∈ snapshot.edges ∧ direction.source edge ∈ search.seen
  closed : ∀ edge ∈ snapshot.edges, direction.source edge ∈ search.seen →
    direction.source edge ∉ search.pending →
      direction.target edge ∈ search.seen ∧ edge ∈ search.passed

variable {focus : List Method} {before : EdgeSet}

theorem IsOnTheWay.step (hbefore : ∀ edge ∈ before, edge ∈ snapshot.edges)
    (hway : IsOnTheWay direction focus snapshot before search) {next : Search}
    (hstep : Step direction snapshot search next) :
    IsOnTheWay direction focus snapshot before next := by
  cases hstep with
  | visit seen early id late passed =>
      have hedges : ∀ edge ∈ edgesAt direction snapshot id,
          edge ∈ snapshot.edges := fun edge hedge => (mem_edgesAt.mp hedge).1
      have hpassed : ∀ edge ∈ passed, edge ∈ snapshot.edges := fun edge hedge =>
        (hway.passed edge hedge).elim (hbefore edge) And.left
      have hid : id ∈ seen := hway.known id (by simp)
      constructor
      case known =>
        intro other hother
        rw [mem_seen_foldl]
        rcases mem_pending_foldl.mp hother with hold | ⟨_, hnew⟩
        · have hpending : other ∈ early ++ id :: late := by
            simp only [List.mem_append, List.mem_cons] at hold ⊢
            grind
          exact Or.inl (hway.known other hpending)
        · exact Or.inr hnew
      case started =>
        intro method hmethod
        exact mem_seen_foldl.mpr (Or.inl (hway.started method hmethod))
      case reached =>
        intro other hother
        rcases mem_seen_foldl.mp hother with hold | ⟨edge, hedge, rfl⟩
        · exact hway.reached other hold
        · obtain ⟨hmem, rfl⟩ := mem_edgesAt.mp hedge
          obtain ⟨method, hmethod, hleads⟩ := hway.reached _ hid
          exact ⟨method, hmethod, hleads.tail (Direction.mem_links_of_mem hmem)⟩
      case kept =>
        intro edge hedge
        rw [passed_foldl]
        exact KeyedSet.mem_insertAll_of_mem _ (hway.kept edge hedge)
      case passed =>
        intro edge hedge
        rw [passed_foldl] at hedge
        rw [mem_seen_foldl]
        rcases KeyedSet.mem_or_mem_of_mem_insertAll hedge with hold | hnew
        · exact (hway.passed edge hold).imp_right fun hseen =>
            ⟨hseen.1, Or.inl hseen.2⟩
        · obtain ⟨hmem, rfl⟩ := mem_edgesAt.mp hnew
          exact Or.inr ⟨hmem, Or.inl hid⟩
      case closed =>
        intro edge hedge hsource hpending
        rw [mem_pending_foldl, not_or] at hpending
        rw [passed_foldl, KeyedSet.mem_insertAll_of_part hpassed hedges,
          mem_seen_foldl]
        -- What was not seen before is still to be looked at.
        have hseen : direction.source edge ∈ seen := by
          rcases mem_seen_foldl.mp hsource with hold | hnew
          · exact hold
          · exact Decidable.byContradiction fun hnot =>
              hpending.2 ⟨hnot, hnew⟩
        by_cases hhere : direction.source edge = id
        · have hmem := mem_edgesAt.mpr ⟨hedge, hhere⟩
          exact ⟨Or.inr ⟨edge, hmem, rfl⟩, Or.inr hmem⟩
        · have hother : direction.source edge ∉ early ++ id :: late := by
            have hnot := hpending.1
            simp only [List.mem_append, List.mem_cons] at hnot ⊢
            grind
          have hclosed := hway.closed edge hedge hseen hother
          exact ⟨Or.inl hclosed.1, Or.inl hclosed.2⟩

theorem IsOnTheWay.run (hbefore : ∀ edge ∈ before, edge ∈ snapshot.edges)
    (hway : IsOnTheWay direction focus snapshot before search) {last : Search}
    (hrun : Relation.ReflTransGen (Step direction snapshot) search last) :
    IsOnTheWay direction focus snapshot before last := by
  induction hrun with
  | refl => exact hway
  | tail _ hstep ih => exact ih.step hbefore hstep

theorem IsOnTheWay.mem_passed_iff
    (hway : IsOnTheWay direction focus snapshot before search)
    (hdone : search.pending = []) :
    edge ∈ search.passed ↔
      edge ∈ before ∨
        edge ∈ snapshot.edges ∧ IsFollowed direction focus snapshot edge := by
  constructor
  · intro hpassed
    exact (hway.passed edge hpassed).imp_right fun hseen =>
      ⟨hseen.1, hway.reached _ hseen.2⟩
  · rintro (hkept | ⟨hedge, method, hmethod, hleads⟩)
    · exact hway.kept edge hkept
    · have hnone : ∀ id, id ∉ search.pending := by simp [hdone]
      have hseen : direction.source edge ∈ search.seen := by
        clear hedge
        generalize direction.source edge = id at hleads
        induction hleads with
        | refl => exact hway.started method hmethod
        | tail _ hlink ih =>
            obtain ⟨passed, hpassed, rfl, rfl⟩ := Direction.mem_links.mp hlink
            exact (hway.closed passed hpassed ih (hnone _)).1
      exact (hway.closed edge hedge hseen (hnone _)).2

structure StartsFrom (focus : List Method) (before : EdgeSet)
    (search : Search) : Prop where
  seen : ∀ id, id ∈ search.seen ↔ ∃ method ∈ focus, method.id = id
  once : search.seen.Nodup
  pending : search.pending.Perm search.seen
  passed : search.passed = before

theorem StartsFrom.isOnTheWay (hstart : StartsFrom focus before search) :
    IsOnTheWay direction focus snapshot before search where
  known _ hid := hstart.pending.mem_iff.mp hid
  started method hmethod := (hstart.seen _).mpr ⟨method, hmethod, rfl⟩
  reached id hid := by
    obtain ⟨method, hmethod, rfl⟩ := (hstart.seen id).mp hid
    exact ⟨method, hmethod, .refl⟩
  kept _ hedge := hstart.passed ▸ hedge
  passed _ hedge := Or.inl (hstart.passed ▸ hedge)
  closed edge _ hseen hpending :=
    absurd (hstart.pending.mem_iff.mpr hseen) hpending

theorem exists_startsFrom (focus : List Method) (before : EdgeSet) :
    ∃ search, StartsFrom focus before search := by
  let seen := (Method.distinct focus).map Method.id
  refine ⟨⟨seen, seen, before⟩, ?_, Method.nodup_distinct focus, .refl _, rfl⟩
  intro id
  rw [List.mem_map, Method.exists_mem_distinct]

/-- A search that has nothing left to look at, and what it has passed. -/
def Collects (direction : Direction) (focus : List Method)
    (snapshot : Snapshot) (before after : EdgeSet) : Prop :=
  ∃ start last, StartsFrom focus before start ∧
    Relation.ReflTransGen (Step direction snapshot) start last ∧
      last.pending = [] ∧ last.passed = after

theorem exists_collects (direction : Direction) (focus : List Method)
    (snapshot : Snapshot) (before : EdgeSet) :
    ∃ after, Collects direction focus snapshot before after := by
  obtain ⟨start, hstart⟩ := exists_startsFrom focus before
  obtain ⟨last, hrun, hdone⟩ := exists_finished direction snapshot start
  exact ⟨last.passed, start, last, hstart, hrun, hdone, rfl⟩

theorem Collects.mem_iff {after : EdgeSet}
    (hcollects : Collects direction focus snapshot before after)
    (hbefore : ∀ edge ∈ before, edge ∈ snapshot.edges) :
    edge ∈ after ↔ edge ∈ before ∨
      edge ∈ snapshot.edges ∧ IsFollowed direction focus snapshot edge := by
  obtain ⟨start, last, hstart, hrun, hdone, rfl⟩ := hcollects
  exact (hstart.isOnTheWay.run hbefore hrun).mem_passed_iff hdone

end Search

/-- Some calls of the snapshot, or none, lead from one method to the other. -/
def Snapshot.LeadsTo (snapshot : Snapshot) : MethodId → MethodId → Prop :=
  Relation.ReflTransGen fun caller callee =>
    ∃ edge ∈ snapshot.edges, edge.caller.id = caller ∧ edge.callee.id = callee

namespace Projection

variable {focus : List Method} {snapshot : Snapshot} {edge : Edge}
  {first second : MethodId}

/-- The call is on its way to a method of the focus, or comes from one. -/
def IsOnChain (focus : List Method) (snapshot : Snapshot) (edge : Edge) :
    Prop :=
  (∃ method ∈ focus, snapshot.LeadsTo edge.callee.id method.id) ∨
    ∃ method ∈ focus, snapshot.LeadsTo method.id edge.caller.id

/-- A graph of the methods in focus, and of the edges of a chain with their
ends.  Each method is a node once, where it is named first. -/
structure Shows (focus : List Method) (chain : EdgeSet) (graph : Graph) :
    Prop where
  nodes : graph.nodes =
    (Method.distinct (focus ++ chain.entries.flatMap Edge.ends)).map
      GraphNode.unplaced
  once : (graph.nodes.map fun node => node.method.id).Nodup
  contains : ∀ id, graph.contains id = true ↔
    (∃ method ∈ focus, method.id = id) ∨
      ∃ edge ∈ chain, edge.caller.id = id ∨ edge.callee.id = id
  links : graph.links = chain.entries.map Edge.link
  ascending : graph.links.Pairwise fun first second =>
    first.caller.word < second.caller.word ∨
      first.caller = second.caller ∧ first.callee.word < second.callee.word

/-- A graph that is assembled from what a search up and a search down from the
focus have passed. -/
def FoundBySearch (focus : List Method) (snapshot : Snapshot) (graph : Graph) :
    Prop :=
  ∃ above chain, Search.Collects .up focus snapshot ∅ above ∧
    Search.Collects .down focus snapshot above chain ∧
      graph = chain.entries.foldl Graph.addEdge (withNodes focus)

theorem leads_down :
    Reach.Leads (Direction.down.links snapshot) first second ↔
      snapshot.LeadsTo first second := by
  unfold Reach.Leads Snapshot.LeadsTo
  simp only [Direction.mem_links, Direction.source, Direction.target]

theorem leads_up :
    Reach.Leads (Direction.up.links snapshot) first second ↔
      snapshot.LeadsTo second first := by
  unfold Reach.Leads Snapshot.LeadsTo
  rw [← Relation.reflTransGen_swap]
  simp only [Direction.mem_links, Direction.source, Direction.target, and_comm]

theorem isOnChain_iff :
    IsOnChain focus snapshot edge ↔
      Search.IsFollowed .up focus snapshot edge ∨
        Search.IsFollowed .down focus snapshot edge := by
  unfold IsOnChain Search.IsFollowed
  simp only [leads_up, leads_down, Direction.source]

theorem mem_chains :
    edge ∈ chains focus snapshot ↔
      edge ∈ snapshot.edges ∧ IsOnChain focus snapshot edge := by
  rw [isOnChain_iff]
  simp only [chains, identities, List.mem_filter, Bool.or_eq_true,
    List.contains_iff_mem, Reach.mem_reached, List.mem_map,
    exists_exists_and_eq_and]
  rfl

theorem pairwise_links (edges : EdgeSet) :
    (edges.entries.map Edge.link).Pairwise fun first second =>
      first.caller.word < second.caller.word ∨
        first.caller = second.caller ∧
          first.callee.word < second.callee.word := by
  rw [List.pairwise_map]
  refine edges.ascending.imp fun {first second} hbefore => ?_
  change first.key.precedes second.key = true at hbefore
  have hkeys : first.key.caller < second.key.caller ∨
      first.key.caller = second.key.caller ∧
        first.key.callee < second.key.callee := by
    simpa [EdgeKey.precedes] using hbefore
  exact hkeys.imp_right fun hsame => ⟨MethodId.word_inj.mp hsame.1, hsame.2⟩

theorem nodup_links (edges : EdgeSet) :
    (edges.entries.map Edge.link).Nodup := by
  refine (pairwise_links edges).imp fun hbefore hsame => ?_
  rcases hbefore with hcaller | ⟨_, hcallee⟩
  · exact UInt64.lt_irrefl _ (hsame ▸ hcaller)
  · exact UInt64.lt_irrefl _ (hsame ▸ hcallee)

theorem shows_foldl_addEdge (focus : List Method) (chain : EdgeSet) :
    Shows focus chain
      (chain.entries.foldl Graph.addEdge (withNodes focus)) := by
  have hfocus : (withNodes focus).nodes =
      (Method.distinct focus).map GraphNode.unplaced :=
    @Graph.nodes_foldl_addNode _ [] rfl focus
  have hnodes := Graph.nodes_foldl_addEdge hfocus chain.entries
  have hlinks : (withNodes focus).links = [] := Graph.links_foldl_addNode focus
  have hall :
      (chain.entries.foldl Graph.addEdge (withNodes focus)).links = _ :=
    Graph.links_foldl_addEdge (nodup_links chain) (by simp [hlinks])
  rw [hlinks, List.nil_append] at hall
  constructor
  case nodes => exact hnodes
  case once =>
    rw [hnodes, List.map_map]
    exact Method.nodup_distinct _
  case contains =>
    intro id
    rw [Graph.contains, hnodes, List.any_map, List.any_eq_true]
    simp only [Function.comp_apply, GraphNode.method_unplaced, beq_iff_eq,
      Method.exists_mem_distinct, List.mem_append, List.mem_flatMap, Edge.ends]
    grind [KeyedSet.mem_def]
  case links => exact hall
  case ascending => exact hall ▸ pairwise_links chain

theorem chain_of_collects {above chain : EdgeSet}
    (habove : Search.Collects .up focus snapshot ∅ above)
    (hchain : Search.Collects .down focus snapshot above chain) :
    chain.entries = chains focus snapshot := by
  have hup : ∀ edge, edge ∈ above ↔
      edge ∈ snapshot.edges ∧ Search.IsFollowed .up focus snapshot edge := by
    intro edge
    have hmem : edge ∈ above ↔ _ := habove.mem_iff fun _ hedge =>
      absurd hedge KeyedSet.not_mem_empty
    exact hmem.trans (or_iff_right KeyedSet.not_mem_empty)
  refine KeyedSet.Ascending.eq_of_mem_iff chain.ascending
    (snapshot.edges.ascending.filter _) fun edge => ?_
  have hall : edge ∈ chain ↔ _ := hchain.mem_iff fun other hother =>
    ((hup other).mp hother).1
  rw [hup, ← and_or_left, ← isOnChain_iff] at hall
  exact hall.trans mem_chains.symm

theorem foundBySearch_iff {graph : Graph} :
    FoundBySearch focus snapshot graph ↔ graph = ofFocus focus snapshot := by
  constructor
  · rintro ⟨above, chain, habove, hchain, rfl⟩
    rw [chain_of_collects habove hchain]
    rfl
  · rintro rfl
    obtain ⟨above, habove⟩ := Search.exists_collects .up focus snapshot ∅
    obtain ⟨chain, hchain⟩ := Search.exists_collects .down focus snapshot above
    refine ⟨above, chain, habove, hchain, ?_⟩
    rw [chain_of_collects habove hchain]
    rfl

/-- The graph around a focus is that of the call chains through it.  A search
for them ends, whichever method is looked at next, and comes to the same
graph. -/
theorem ofFocus_showsChains (focus : List Method) (snapshot : Snapshot) :
    (∃ chain : EdgeSet,
      (∀ edge, edge ∈ chain ↔
        edge ∈ snapshot.edges ∧ IsOnChain focus snapshot edge) ∧
      Shows focus chain (ofFocus focus snapshot)) ∧
    (∀ direction, WellFounded fun later earlier =>
      Search.Step direction snapshot earlier later) ∧
    ∀ graph, FoundBySearch focus snapshot graph ↔
      graph = ofFocus focus snapshot := by
  refine ⟨⟨⟨chains focus snapshot, ?_⟩, fun edge => mem_chains, ?_⟩, ?_, ?_⟩
  · exact snapshot.edges.ascending.filter _
  · exact shows_foldl_addEdge focus _
  · exact fun direction => Search.wellFounded_step direction snapshot
  · exact fun graph => foundBySearch_iff

/-- The call has an end in scope. -/
def Touches (methods : List Method) (edge : Edge) : Prop :=
  ∃ method ∈ methods, method.id = edge.caller.id ∨ method.id = edge.callee.id

def outside (methods : List Method) (edges : EdgeSet) : List Method :=
  (edges.entries.flatMap Edge.ends).filter fun method =>
    !(identities methods).contains method.id

/-- A graph of the methods in scope, of some edges, and of the ends that these
have out of scope.  Methods and ends stand where they are named first. -/
structure ShowsScope (methods : List Method) (shown : EdgeSet)
    (graph : Graph) : Prop where
  nodes : graph.nodes =
    (Method.distinct methods ++ Method.distinct (outside methods shown)).map
      GraphNode.unplaced
  links : graph.links = shown.entries.map Edge.link
  ascending : graph.links.Pairwise fun first second =>
    first.caller.word < second.caller.word ∨
      first.caller = second.caller ∧ first.callee.word < second.callee.word
  wellFormed : graph.WellFormed

theorem Shows.wellFormed {methods : List Method} {shown : EdgeSet}
    {graph : Graph} (hshows : Shows methods shown graph) :
    graph.WellFormed := by
  refine ⟨hshows.once, fun link hlink => ?_⟩
  rw [hshows.links] at hlink
  obtain ⟨edge, hedge, rfl⟩ := List.mem_map.mp hlink
  have hend : ∀ id, edge.caller.id = id ∨ edge.callee.id = id →
      id ∈ graph.ids := fun id hid =>
    Graph.contains_iff_mem_ids.mp
      ((hshows.contains id).mpr (Or.inr ⟨edge, hedge, hid⟩))
  exact ⟨hend _ (Or.inl rfl), hend _ (Or.inr rfl)⟩

theorem Shows.showsScope {methods : List Method} {shown : EdgeSet}
    {graph : Graph} (hshows : Shows methods shown graph) :
    ShowsScope methods shown graph where
  nodes := by
    rw [hshows.nodes, Method.distinct_append]
    rfl
  links := hshows.links
  ascending := hshows.ascending
  wellFormed := hshows.wellFormed

theorem touches_iff {methods : List Method} :
    ((identities methods).contains edge.caller.id ||
        (identities methods).contains edge.callee.id) = true ↔
      Touches methods edge := by
  simp only [identities, Bool.or_eq_true, List.contains_iff_mem, List.mem_map,
    Touches, and_or_left, exists_or]

/-- The graph of a scope has the edges of the snapshot with an end in scope, and
no others.  Its nodes are the methods in scope, and behind them the other ends of
these edges. -/
theorem ofScope_showsScope (methods : List Method) (snapshot : Snapshot) :
    ∃ shown : EdgeSet,
      (∀ edge, edge ∈ shown ↔ edge ∈ snapshot.edges ∧ Touches methods edge) ∧
        ShowsScope methods shown (ofScope methods snapshot) := by
  let shown : EdgeSet := snapshot.edges.filter fun edge =>
    (identities methods).contains edge.caller.id ||
      (identities methods).contains edge.callee.id
  refine ⟨shown, fun edge => ?_, ?_⟩
  · rw [KeyedSet.mem_filter, touches_iff]
  · exact (shows_foldl_addEdge methods shown).showsScope

end Projection

end CallGraph
