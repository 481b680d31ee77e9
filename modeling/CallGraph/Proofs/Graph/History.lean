import Mathlib.Data.List.Nodup
import CallGraph.Proofs.Graph

namespace CallGraph

namespace Graph

/-! What a graph holds after any changes: the methods and the links that these
mention, each of them once and in the order in which they came. -/

variable {graph : Graph} {seen : List Method} {earlier : List Link}

def Change.methods : Change → List Method
  | .node method => [method]
  | .edge added => added.ends
  | .position _ _ => []

def Change.links : Change → List Link
  | .edge added => [added.link]
  | _ => []

theorem methods_addNode (hmethods : graph.methods = Method.distinct seen)
    (method : Method) :
    (graph.addNode method).methods = Method.distinct (seen ++ [method]) := by
  have hcontains : graph.contains method.id = true ↔
      ∃ other ∈ seen, other.id = method.id := by
    rw [contains_iff_mem_ids, ids_eq, hmethods, List.mem_map,
      Method.exists_mem_distinct]
  rw [addNode, Method.distinct_concat]
  simp only [hcontains]
  split
  · exact hmethods
  · unfold methods at hmethods ⊢
    rw [List.map_append, hmethods]
    rfl

theorem methods_setPosition (id : MethodId) (position : Position) :
    (graph.setPosition id position).methods = graph.methods := by
  unfold setPosition methods
  rw [List.map_map]
  refine List.map_congr_left fun node _ => ?_
  dsimp only [Function.comp_apply]
  split <;> rfl

theorem methods_change (hmethods : graph.methods = Method.distinct seen)
    (step : Change) :
    (graph.change step).methods = Method.distinct (seen ++ step.methods) := by
  cases step with
  | node method => exact methods_addNode hmethods method
  | edge edge =>
      have hends := methods_addNode (methods_addNode hmethods edge.caller)
        edge.callee
      rw [List.append_assoc] at hends
      unfold methods at hends ⊢
      exact (congrArg _ (nodes_addEdge edge)).trans hends
  | position id position =>
      rw [Change.methods, List.append_nil, ← hmethods]
      exact methods_setPosition id position

theorem methods_foldl_change
    (hmethods : graph.methods = Method.distinct seen)
    (changes : List Change) :
    (changes.foldl change graph).methods =
      Method.distinct (seen ++ changes.flatMap Change.methods) := by
  induction changes generalizing graph seen with
  | nil => simpa using hmethods
  | cons step rest ih =>
      rw [List.foldl_cons, ih (methods_change hmethods step),
        List.append_assoc, List.flatMap_cons]

theorem methods_built (changes : List Change) :
    (built changes).methods =
      Method.distinct (changes.flatMap Change.methods) :=
  @methods_foldl_change empty [] rfl changes

theorem links_change (hlinks : graph.links = earlier.eraseDups)
    (step : Change) :
    (graph.change step).links = (earlier ++ step.links).eraseDups := by
  rw [List.eraseDups_append, ← hlinks]
  cases step with
  | node method =>
      exact (links_addNode method).trans (List.append_nil _).symm
  | edge edge =>
      have hmem : edge.link ∈ graph.links ↔ edge.link ∈ earlier := by
        rw [hlinks, List.mem_eraseDups]
      refine (links_addEdge edge).trans ?_
      by_cases hold : edge.link ∈ earlier
      · simp [Change.links, List.removeAll, hmem, hold]
      · simp [Change.links, List.removeAll, hmem, hold, List.eraseDups_cons]
  | position id position => exact (List.append_nil _).symm

theorem links_foldl_change (hlinks : graph.links = earlier.eraseDups)
    (changes : List Change) :
    (changes.foldl change graph).links =
      (earlier ++ changes.flatMap Change.links).eraseDups := by
  induction changes generalizing graph earlier with
  | nil => simpa using hlinks
  | cons step rest ih =>
      rw [List.foldl_cons, ih (links_change hlinks step), List.append_assoc,
        List.flatMap_cons]

theorem links_built (changes : List Change) :
    (built changes).links = (changes.flatMap Change.links).eraseDups :=
  @links_foldl_change empty [] rfl changes

theorem nodup_eraseDups (links : List Link) : links.eraseDups.Nodup := by
  cases links with
  | nil => exact List.nodup_nil
  | cons link rest =>
      rw [List.eraseDups_cons, List.nodup_cons]
      exact ⟨by simp [List.mem_eraseDups], nodup_eraseDups _⟩
termination_by links.length
decreasing_by exact Nat.lt_succ_of_le (List.length_filter_le _ _)

def ends? (graph : Graph) (link : Link) : Option (GraphNode × GraphNode) := do
  let caller ← graph.node? link.caller
  let callee ← graph.node? link.callee
  return (caller, callee)

def linkOf (pair : GraphNode × GraphNode) : Link :=
  ⟨pair.1.method.id, pair.2.method.id⟩

theorem linkedNodes_eq :
    graph.linkedNodes = graph.links.filterMap graph.ends? :=
  rfl

theorem node?_of_mem_ids {id : MethodId} (hid : id ∈ graph.ids) :
    ∃ node ∈ graph.nodes, graph.node? id = some node ∧ node.method.id = id := by
  unfold node?
  cases hfind : graph.nodes.find? fun node => node.method.id == id with
  | none =>
      obtain ⟨node, hnode, rfl⟩ := List.mem_map.mp hid
      exact absurd (List.find?_eq_none.mp hfind node hnode) (by simp)
  | some node =>
      exact ⟨node, List.mem_of_find?_eq_some hfind, rfl,
        by simpa using List.find?_some hfind⟩

structure Joins (graph : Graph) (link : Link) (pair : GraphNode × GraphNode) :
    Prop where
  caller : graph.node? link.caller = some pair.1
  callee : graph.node? link.callee = some pair.2
  mem : pair.1 ∈ graph.nodes ∧ pair.2 ∈ graph.nodes
  link : linkOf pair = link

theorem Joins.ends? {link : Link} {pair : GraphNode × GraphNode}
    (hjoins : graph.Joins link pair) : graph.ends? link = some pair := by
  unfold Graph.ends?
  rw [hjoins.caller, hjoins.callee]
  rfl

theorem WellFormed.exists_joins (hgraph : graph.WellFormed) {link : Link}
    (hlink : link ∈ graph.links) : ∃ pair, graph.Joins link pair := by
  obtain ⟨hcaller, hcallee⟩ := hgraph.ends link hlink
  obtain ⟨caller, hin, hfound, hsame⟩ := node?_of_mem_ids hcaller
  obtain ⟨callee, hin', hfound', hsame'⟩ := node?_of_mem_ids hcallee
  refine ⟨(caller, callee), hfound, hfound', ⟨hin, hin'⟩, ?_⟩
  rw [linkOf, hsame, hsame']

theorem WellFormed.joins_of_mem (hgraph : graph.WellFormed)
    {pair : GraphNode × GraphNode} (hpair : pair ∈ graph.linkedNodes) :
    ∃ link ∈ graph.links, graph.Joins link pair := by
  rw [linkedNodes_eq] at hpair
  obtain ⟨link, hlink, hends⟩ := List.mem_filterMap.mp hpair
  obtain ⟨other, hjoins⟩ := hgraph.exists_joins hlink
  rw [hjoins.ends?] at hends
  exact ⟨link, hlink, Option.some.inj hends ▸ hjoins⟩

theorem WellFormed.map_linkedNodes (hgraph : graph.WellFormed) :
    graph.linkedNodes.map linkOf = graph.links := by
  have hends : ∀ links : List Link, (∀ link ∈ links, link ∈ graph.links) →
      (links.filterMap graph.ends?).map linkOf = links := by
    intro links hlinks
    induction links with
    | nil => rfl
    | cons link rest ih =>
        obtain ⟨pair, hjoins⟩ :=
          hgraph.exists_joins (hlinks link List.mem_cons_self)
        rw [List.filterMap_cons, hjoins.ends?, List.map_cons, hjoins.link,
          ih fun other hother => hlinks other (List.mem_cons_of_mem _ hother)]
  exact hends graph.links fun _ hlink => hlink

section Neighbours

variable {id : MethodId}

theorem filterMap_far {links : List Link} {near far : Link → MethodId}
    {nearNode farNode : GraphNode × GraphNode → GraphNode}
    (hends : ∀ link ∈ links, ∃ pair, graph.ends? link = some pair ∧
      (nearNode pair).method.id = near link ∧
        graph.node? (far link) = some (farNode pair)) :
    (links.filter fun link => near link == id).filterMap
        (fun link => graph.node? (far link)) =
      ((links.filterMap graph.ends?).filter fun pair =>
        (nearNode pair).method.id == id).map farNode := by
  induction links with
  | nil => rfl
  | cons link rest ih =>
      obtain ⟨pair, hpair, hnear, hfar⟩ := hends link List.mem_cons_self
      have hrest := ih fun other hother =>
        hends other (List.mem_cons_of_mem _ hother)
      rw [List.filter_cons, List.filterMap_cons, hpair, List.filter_cons, hnear]
      split
      · rw [List.filterMap_cons, hfar, List.map_cons, hrest]
      · exact hrest

theorem WellFormed.callees_eq (hgraph : graph.WellFormed) :
    graph.callees id = (graph.linkedNodes.reverse.filter fun pair =>
      pair.1.method.id == id).map Prod.snd := by
  rw [linkedNodes_eq, ← List.filterMap_reverse]
  refine filterMap_far fun link hlink => ?_
  obtain ⟨pair, hjoins⟩ := hgraph.exists_joins (List.mem_reverse.mp hlink)
  exact ⟨pair, hjoins.ends?, congrArg Link.caller hjoins.link, hjoins.callee⟩

theorem WellFormed.callers_eq (hgraph : graph.WellFormed) :
    graph.callers id = (graph.linkedNodes.reverse.filter fun pair =>
      pair.2.method.id == id).map Prod.fst := by
  rw [linkedNodes_eq, ← List.filterMap_reverse]
  refine filterMap_far fun link hlink => ?_
  obtain ⟨pair, hjoins⟩ := hgraph.exists_joins (List.mem_reverse.mp hlink)
  exact ⟨pair, hjoins.ends?, congrArg Link.callee hjoins.link, hjoins.caller⟩

theorem nodup_far {pairs : List (GraphNode × GraphNode)}
    (near far : GraphNode × GraphNode → MethodId)
    (hpairs : (pairs.map linkOf).Nodup)
    (hnear : ∀ pair ∈ pairs, near pair = id)
    (htold : ∀ first second, near first = near second →
      far first = far second → linkOf first = linkOf second) :
    (pairs.map far).Nodup := by
  refine List.pairwise_map.mpr ?_
  refine (List.pairwise_map.mp hpairs).imp_of_mem ?_
  intro first second hfirst hsecond hdiffer hsame
  exact hdiffer (htold first second
    ((hnear first hfirst).trans (hnear second hsecond).symm) hsame)

theorem WellFormed.nodup_meeting (hgraph : graph.WellFormed)
    (hlinks : graph.links.Nodup) (meets : GraphNode × GraphNode → Bool) :
    ((graph.linkedNodes.reverse.filter meets).map linkOf).Nodup := by
  refine List.Nodup.sublist (List.filter_sublist.map linkOf) ?_
  rw [List.map_reverse, hgraph.map_linkedNodes]
  exact List.nodup_reverse.mpr hlinks

theorem WellFormed.nodup_callees (hgraph : graph.WellFormed)
    (hlinks : graph.links.Nodup) :
    ((graph.callees id).map fun node => node.method.id).Nodup := by
  have hmeets : ∀ pair ∈ graph.linkedNodes.reverse.filter
      fun pair => pair.1.method.id == id, pair.1.method.id = id :=
    fun pair hpair => by simpa using (List.mem_filter.mp hpair).2
  rw [hgraph.callees_eq, List.map_map]
  exact nodup_far (fun pair => pair.1.method.id)
    (fun pair => pair.2.method.id) (hgraph.nodup_meeting hlinks _) hmeets
    fun first second hnear hfar => congrArg₂ Link.mk hnear hfar

theorem WellFormed.nodup_callers (hgraph : graph.WellFormed)
    (hlinks : graph.links.Nodup) :
    ((graph.callers id).map fun node => node.method.id).Nodup := by
  have hmeets : ∀ pair ∈ graph.linkedNodes.reverse.filter
      fun pair => pair.2.method.id == id, pair.2.method.id = id :=
    fun pair hpair => by simpa using (List.mem_filter.mp hpair).2
  rw [hgraph.callers_eq, List.map_map]
  exact nodup_far (fun pair => pair.2.method.id)
    (fun pair => pair.1.method.id) (hgraph.nodup_meeting hlinks _) hmeets
    fun first second hnear hfar => congrArg₂ Link.mk hfar hnear

end Neighbours

end Graph

end CallGraph
