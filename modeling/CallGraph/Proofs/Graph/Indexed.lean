import CallGraph.Graph.Indexed
import CallGraph.Proofs.Graph.History
import CallGraph.Proofs.Keyed

namespace CallGraph

/-! The numbers of a graph that is kept, its index and its pairs tell the same
as its lists of nodes and links. -/

namespace Graph

variable {graph : Graph} {id : MethodId}

theorem indexOf?_isSome : (graph.indexOf? id).isSome ↔ id ∈ graph.ids := by
  rw [← contains_iff_mem_ids]
  unfold indexOf? contains
  rw [List.findIdx?_isSome]

theorem node?_eq : graph.node? id =
    (graph.indexOf? id).bind fun number => graph.nodes[number]? :=
  List.find?_eq_bind_findIdx?_getElem?

theorem exists_of_indexOf? {number : Nat}
    (hnumber : graph.indexOf? id = some number) :
    ∃ node, graph.nodes[number]? = some node ∧ node.method.id = id := by
  obtain ⟨hlength, hid, -⟩ := List.findIdx?_eq_some_iff_getElem.mp hnumber
  exact ⟨_, List.getElem?_eq_getElem hlength, beq_iff_eq.mp hid⟩

theorem indexOf?_inj {other : MethodId} {number : Nat}
    (hnumber : graph.indexOf? id = some number) :
    graph.indexOf? other = some number ↔ other = id := by
  constructor
  · intro hother
    obtain ⟨node, hnode, rfl⟩ := exists_of_indexOf? hnumber
    obtain ⟨node', hnode', rfl⟩ := exists_of_indexOf? hother
    rw [Option.some.inj (hnode'.symm.trans hnode)]
  · rintro rfl
    exact hnumber

theorem indexOf?_addNode (method : Method) :
    (graph.addNode method).indexOf? id =
      (graph.indexOf? id).or
        (if method.id = id then some graph.nodes.length else none) := by
  unfold addNode
  split
  · rename_i hcontains
    by_cases hid : method.id = id
    · rw [hid, contains_iff_mem_ids, ← indexOf?_isSome] at hcontains
      rw [Option.or_of_isSome hcontains]
    · rw [if_neg hid, Option.or_none]
  · unfold indexOf?
    rw [List.findIdx?_append]
    by_cases hid : method.id = id <;> simp [hid]

theorem indexOf?_addNode_of_mem (method : Method) (hid : id ∈ graph.ids) :
    (graph.addNode method).indexOf? id = graph.indexOf? id := by
  rw [indexOf?_addNode, Option.or_of_isSome (indexOf?_isSome.mpr hid)]

theorem indexOf?_congr {other : Graph} (hids : other.ids = graph.ids) :
    other.indexOf? id = graph.indexOf? id := by
  have hmap : ∀ some : Graph, some.indexOf? id =
      some.ids.findIdx? fun other => other == id := by
    intro some
    unfold indexOf? ids
    rw [List.findIdx?_map]
    rfl
  rw [hmap, hmap, hids]

theorem WellFormed.indexOf?_getElem (hgraph : graph.WellFormed) {number : Nat}
    (hnumber : number < graph.nodes.length) :
    graph.indexOf? graph.nodes[number].method.id = some number := by
  refine List.findIdx?_eq_some_iff_getElem.mpr
    ⟨hnumber, beq_self_eq_true _, fun earlier hearlier => ?_⟩
  have hdiffer := List.pairwise_iff_getElem.mp
    (List.pairwise_map.mp hgraph.once) earlier number (by omega) hnumber
      hearlier
  simpa using hdiffer

theorem WellFormed.nodes_setPosition (hgraph : graph.WellFormed) {number : Nat}
    {node : GraphNode} (hnumber : graph.indexOf? id = some number)
    (hnode : graph.nodes[number]? = some node) (position : Position) :
    (graph.setPosition id position).nodes =
      graph.nodes.set number { node with position := some position } := by
  refine List.ext_getElem (by simp [Graph.setPosition]) fun other _ hset => ?_
  have hother : other < graph.nodes.length := by simpa using hset
  rw [List.getElem_set]
  simp only [Graph.setPosition, List.getElem_map, beq_iff_eq]
  have hiff : graph.nodes[other].method.id = id ↔ number = other := by
    rw [← indexOf?_inj hnumber, hgraph.indexOf?_getElem hother,
      Option.some_inj, eq_comm]
  simp only [hiff]
  split
  · rename_i hsame
    subst hsame
    obtain ⟨-, rfl⟩ := List.getElem?_eq_some_iff.mp hnode
    rfl
  · rfl

theorem setPosition_of_not_mem (hid : id ∉ graph.ids) (position : Position) :
    graph.setPosition id position = graph := by
  have hnodes : graph.nodes.map (fun node => if node.method.id == id
      then { node with position := some position } else node) =
        graph.nodes.map fun node => node := by
    refine List.map_congr_left fun node hnode => if_neg fun hsame => hid ?_
    exact beq_iff_eq.mp hsame ▸ List.mem_map_of_mem hnode
  exact congrArg (Graph.mk · graph.links) (hnodes.trans (List.map_id' _))

def endNumbers (graph : Graph) (link : Link) : Option Nat × Option Nat :=
  (graph.indexOf? link.caller, graph.indexOf? link.callee)

theorem endNumbers_congr {other : Graph} (hids : other.ids = graph.ids) :
    other.endNumbers = graph.endNumbers := by
  funext link
  unfold endNumbers
  rw [indexOf?_congr hids, indexOf?_congr hids]

end Graph

namespace IndexedGraph

variable {kept : IndexedGraph} {graph : Graph} {id : MethodId}

def change (graph : IndexedGraph) : Graph.Change → IndexedGraph
  | .node method => (graph.addNode method).1
  | .edge edge => (graph.addEdge edge).1
  | .position id position => (graph.setPosition id position).1

def built (changes : List Graph.Change) : IndexedGraph :=
  changes.foldl change empty

def endsOf (arc : Arc) : Option Nat × Option Nat :=
  (some arc.caller, some arc.callee)

/-- What is kept of a graph, in all of its parts. -/
structure Keeps (kept : IndexedGraph) (graph : Graph) : Prop where
  wellFormed : graph.WellFormed
  nodes : kept.nodes = graph.nodes
  numbers : ∀ id, kept.number? id = graph.indexOf? id
  arcs : kept.arcs.map endsOf = graph.links.map graph.endNumbers
  joined : ∀ link, link ∈ kept.joined ↔ link ∈ graph.links

theorem link_eq_of_key_eq {first second : Link}
    (hkey : Keyed.key first = Keyed.key second) : first = second := by
  obtain ⟨⟨caller⟩, ⟨callee⟩⟩ := first
  obtain ⟨⟨caller'⟩, ⟨callee'⟩⟩ := second
  obtain ⟨hcaller, hcallee⟩ := EdgeKey.mk.inj hkey
  rw [show caller = caller' from hcaller, show callee = callee' from hcallee]

theorem joined_contains_iff {link : Link} :
    kept.joined.contains link = true ↔ link ∈ kept.joined := by
  constructor
  · intro hcontains
    obtain ⟨held, hheld, hkey⟩ := KeyedSet.contains_iff.mp hcontains
    exact link_eq_of_key_eq hkey ▸ hheld
  · exact KeyedSet.contains_of_mem

theorem keeps_empty : Keeps empty Graph.empty where
  wellFormed := Graph.wellFormed_built []
  nodes := rfl
  numbers _ := rfl
  arcs := rfl
  joined _ := Iff.rfl

theorem map_endNumbers_addNode (hgraph : graph.WellFormed) (method : Method) :
    (graph.addNode method).links.map (graph.addNode method).endNumbers =
      graph.links.map graph.endNumbers := by
  rw [Graph.links_addNode]
  refine List.map_congr_left fun link hlink => ?_
  obtain ⟨hcaller, hcallee⟩ := hgraph.ends link hlink
  rw [Graph.endNumbers, Graph.indexOf?_addNode_of_mem method hcaller,
    Graph.indexOf?_addNode_of_mem method hcallee]
  rfl

theorem number?_put (nodes : List GraphNode) (arcs : List Arc)
    (joined : KeyedSet Link) (given : MethodId) (number : Nat) :
    number? ⟨nodes, arcs, kept.numbers.put ⟨given, number⟩, joined⟩ id =
      if given = id then some number else kept.number? id := by
  unfold number?
  rw [KeyedSet.find?_put]
  simp only [Keyed.key, MethodId.word_inj]
  split <;> rfl

theorem Keeps.addNode (hkeeps : Keeps kept graph) (method : Method) :
    Keeps (kept.addNode method).1 (graph.addNode method) ∧
      (graph.addNode method).indexOf? method.id =
        some (kept.addNode method).2 := by
  unfold IndexedGraph.addNode
  cases hnumber : kept.number? method.id with
  | some number =>
      rw [hkeeps.numbers] at hnumber
      have hold : graph.contains method.id = true := by
        rw [Graph.contains_iff_mem_ids, ← Graph.indexOf?_isSome, hnumber]
        rfl
      have hsame : graph.addNode method = graph := if_pos hold
      rw [hsame]
      exact ⟨hkeeps, hnumber⟩
  | none =>
      rw [hkeeps.numbers] at hnumber
      have hnew : ¬graph.contains method.id = true := by
        rw [Graph.contains_iff_mem_ids, ← Graph.indexOf?_isSome, hnumber]
        nofun
      have hnodes : (graph.addNode method).nodes =
          graph.nodes ++ [⟨method, none⟩] := by
        unfold Graph.addNode
        rw [if_neg hnew]
      refine ⟨⟨hkeeps.wellFormed.addNode method, ?_, fun id => ?_, ?_, ?_⟩, ?_⟩
      · rw [hnodes, ← hkeeps.nodes]
      · rw [number?_put, Graph.indexOf?_addNode, hkeeps.numbers, hkeeps.nodes]
        by_cases hid : method.id = id
        · rw [← hid, hnumber, if_pos rfl, Option.none_or]
        · rw [if_neg hid, if_neg hid, Option.or_none]
      · rw [map_endNumbers_addNode hkeeps.wellFormed]
        exact hkeeps.arcs
      · rw [Graph.links_addNode]
        exact hkeeps.joined
      · rw [Graph.indexOf?_addNode, hnumber, hkeeps.nodes, if_pos rfl]
        rfl

theorem Keeps.addEnds (hkeeps : Keeps kept graph) (edge : Edge) :
    let first := kept.addNode edge.caller
    let second := first.1.addNode edge.callee
    Keeps second.1 ((graph.addNode edge.caller).addNode edge.callee) ∧
      ((graph.addNode edge.caller).addNode edge.callee).endNumbers edge.link =
        endsOf ⟨first.2, second.2⟩ := by
  obtain ⟨hfirst, hcaller⟩ := hkeeps.addNode edge.caller
  obtain ⟨hsecond, hcallee⟩ := hfirst.addNode edge.callee
  have hmem : edge.caller.id ∈ (graph.addNode edge.caller).ids :=
    (Graph.mem_ids_addNode edge.caller).mpr (Or.inr rfl)
  refine ⟨hsecond, ?_⟩
  unfold Graph.endNumbers Edge.link endsOf
  rw [hcallee, Graph.indexOf?_addNode_of_mem edge.callee hmem, hcaller]

theorem Keeps.addEdge (hkeeps : Keeps kept graph) (edge : Edge) :
    Keeps (kept.addEdge edge).1 (graph.addEdge edge) ∧
      ((kept.addEdge edge).2 = true ↔ edge.link ∉ graph.links) := by
  obtain ⟨hends, hnumbers⟩ := hkeeps.addEnds edge
  have hlinks : ((graph.addNode edge.caller).addNode edge.callee).links =
      graph.links := by rw [Graph.links_addNode, Graph.links_addNode]
  have hwellFormed := hkeeps.wellFormed.addEdge edge
  have hjoined : ((kept.addNode edge.caller).1.addNode
      edge.callee).1.joined.contains ⟨edge.caller.id, edge.callee.id⟩ = true ↔
        edge.link ∈ graph.links := by
    rw [joined_contains_iff, hends.joined, hlinks]
    rfl
  unfold IndexedGraph.addEdge
  dsimp only
  by_cases hold : edge.link ∈ graph.links
  · have hsame : graph.addEdge edge =
        (graph.addNode edge.caller).addNode edge.callee := by
      refine if_pos ?_
      rw [Graph.hasLink, hlinks]
      exact List.contains_iff_mem.mpr hold
    rw [if_pos (hjoined.mpr hold), hsame]
    exact ⟨hends, by simp [hold]⟩
  · have hids : (graph.addEdge edge).ids =
        ((graph.addNode edge.caller).addNode edge.callee).ids := by
      unfold Graph.ids
      rw [Graph.nodes_addEdge]
    have hadded : (graph.addEdge edge).links = graph.links ++ [edge.link] := by
      rw [Graph.links_addEdge, if_neg hold]
    rw [if_neg (mt hjoined.mp hold)]
    refine ⟨⟨hwellFormed, ?_, fun id => ?_, ?_, fun link => ?_⟩, by simp [hold]⟩
    · rw [Graph.nodes_addEdge]
      exact hends.nodes
    · rw [Graph.indexOf?_congr hids]
      exact hends.numbers id
    · rw [hadded, List.map_append, List.map_append, hends.arcs,
        Graph.endNumbers_congr hids, hlinks, List.map_singleton,
        List.map_singleton, hnumbers]
    · rw [KeyedSet.mem_insert, hends.joined, hlinks, hadded, List.mem_append,
        List.mem_singleton]
      refine or_congr_right (and_iff_left fun held hheld hkey => ?_)
      rw [hends.joined, hlinks, link_eq_of_key_eq hkey] at hheld
      exact hold hheld

theorem Keeps.setPosition (hkeeps : Keeps kept graph) (id : MethodId)
    (position : Position) :
    Keeps (kept.setPosition id position).1 (graph.setPosition id position) ∧
      (kept.setPosition id position).2 = graph.contains id := by
  have hcontains : graph.contains id = (graph.indexOf? id).isSome := by
    rw [Bool.eq_iff_iff, Graph.contains_iff_mem_ids, Graph.indexOf?_isSome]
  unfold IndexedGraph.setPosition
  rw [hcontains, hkeeps.numbers]
  cases hnumber : graph.indexOf? id with
  | none =>
      have hid : id ∉ graph.ids := by
        rw [← Graph.indexOf?_isSome, hnumber]
        nofun
      rw [Graph.setPosition_of_not_mem hid]
      exact ⟨hkeeps, rfl⟩
  | some number =>
      obtain ⟨node, hnode, -⟩ := Graph.exists_of_indexOf? hnumber
      have hids := @Graph.ids_setPosition graph id position
      dsimp only
      rw [hkeeps.nodes, hnode]
      refine ⟨⟨hkeeps.wellFormed.setPosition id position, ?_, fun other => ?_,
        ?_, hkeeps.joined⟩, rfl⟩
      · exact (hkeeps.wellFormed.nodes_setPosition hnumber hnode position).symm
      · rw [Graph.indexOf?_congr hids]
        exact hkeeps.numbers other
      · rw [Graph.endNumbers_congr hids]
        exact hkeeps.arcs

theorem Keeps.change (hkeeps : Keeps kept graph) (step : Graph.Change) :
    Keeps (kept.change step) (graph.change step) := by
  cases step with
  | node method => exact (hkeeps.addNode method).1
  | edge edge => exact (hkeeps.addEdge edge).1
  | position id position => exact (hkeeps.setPosition id position).1

theorem keeps_built (changes : List Graph.Change) :
    Keeps (built changes) (Graph.built changes) := by
  unfold built Graph.built
  suffices hall : ∀ kept graph, Keeps kept graph →
      Keeps (changes.foldl IndexedGraph.change kept)
        (changes.foldl Graph.change graph) by
    exact hall empty Graph.empty keeps_empty
  induction changes with
  | nil => exact fun _ _ hkeeps => hkeeps
  | cons step rest ih => exact fun _ _ hkeeps => ih _ _ (hkeeps.change step)

theorem Keeps.node? (hkeeps : Keeps kept graph) (id : MethodId) :
    kept.node? id = graph.node? id := by
  rw [IndexedGraph.node?, hkeeps.numbers, hkeeps.nodes, Graph.node?_eq]

theorem Keeps.contains (hkeeps : Keeps kept graph) (id : MethodId) :
    kept.contains id = graph.contains id := by
  have hnumber : kept.contains id = true ↔ (kept.number? id).isSome := by
    rw [number?, Option.isSome_map, KeyedSet.find?, List.find?_isSome,
      IndexedGraph.contains, KeyedSet.has, List.any_eq_true]
  rw [Bool.eq_iff_iff, hnumber, hkeeps.numbers, Graph.indexOf?_isSome,
    Graph.contains_iff_mem_ids]

theorem Keeps.hasLink (hkeeps : Keeps kept graph) (caller callee : MethodId) :
    kept.hasLink caller callee = graph.hasLink caller callee := by
  rw [Bool.eq_iff_iff, IndexedGraph.hasLink, joined_contains_iff,
    hkeeps.joined, Graph.hasLink, List.contains_iff_mem]

theorem Keeps.linkCount (hkeeps : Keeps kept graph) :
    kept.linkCount = graph.links.length := by
  have hlength := congrArg List.length hkeeps.arcs
  rwa [List.length_map, List.length_map] at hlength

def nodesAt (nodes : List GraphNode) (ends : Option Nat × Option Nat) :
    Option (GraphNode × GraphNode) := do
  let caller ← ends.1.bind fun number => nodes[number]?
  let callee ← ends.2.bind fun number => nodes[number]?
  return (caller, callee)

theorem Keeps.linkedNodes (hkeeps : Keeps kept graph) :
    kept.linkedNodes = graph.linkedNodes := by
  have hkept : kept.linkedNodes =
      (kept.arcs.map endsOf).filterMap (nodesAt kept.nodes) := by
    rw [List.filterMap_map]
    rfl
  have hgraph : graph.linkedNodes =
      (graph.links.map graph.endNumbers).filterMap (nodesAt graph.nodes) := by
    rw [List.filterMap_map, Graph.linkedNodes_eq]
    refine List.filterMap_congr fun link _ => ?_
    unfold Graph.ends?
    rw [Graph.node?_eq, Graph.node?_eq]
    rfl
  rw [hkept, hgraph, hkeeps.arcs, hkeeps.nodes]

theorem Keeps.toGraph (hkeeps : Keeps kept graph) : kept.toGraph = graph := by
  have hlinks := hkeeps.wellFormed.map_linkedNodes
  rw [← hkeeps.linkedNodes] at hlinks
  exact congrArg₂ Graph.mk hkeeps.nodes hlinks

theorem Keeps.neighbours (hkeeps : Keeps kept graph) (id : MethodId)
    {near far : Arc → Nat} {near' far' : Link → MethodId}
    (nearOf farOf : Option Nat × Option Nat → Option Nat)
    (harcs : ∀ arc, nearOf (endsOf arc) = some (near arc) ∧
      farOf (endsOf arc) = some (far arc))
    (hlinks : ∀ link, nearOf (graph.endNumbers link) =
        graph.indexOf? (near' link) ∧
      farOf (graph.endNumbers link) = graph.indexOf? (far' link))
    (hends : ∀ link ∈ graph.links, near' link ∈ graph.ids) :
    kept.neighbours id near far =
      (graph.links.reverse.filter fun link => near' link == id).filterMap
        fun link => graph.node? (far' link) := by
  unfold IndexedGraph.neighbours
  rw [hkeeps.numbers]
  cases hnumber : graph.indexOf? id with
  | none =>
      have hnone : graph.links.reverse.filter (fun link => near' link == id) =
          [] := by
        refine List.filter_eq_nil_iff.mpr fun link hlink hnear => ?_
        have hid := hends link (List.mem_reverse.mp hlink)
        rw [beq_iff_eq.mp hnear, ← Graph.indexOf?_isSome, hnumber] at hid
        contradiction
      rw [hnone]
      rfl
  | some number =>
      have hnear : ∀ other, (graph.indexOf? other == some number) =
          (other == id) := by
        intro other
        rw [Bool.eq_iff_iff, beq_iff_eq, beq_iff_eq]
        exact Graph.indexOf?_inj hnumber
      have hkept : ((kept.arcs.reverse.filter fun arc =>
            near arc == number).filterMap fun arc => kept.nodes[far arc]?) =
          ((kept.arcs.map endsOf).reverse.filter fun ends =>
            nearOf ends == some number).filterMap fun ends =>
              (farOf ends).bind fun number => kept.nodes[number]? := by
        rw [← List.map_reverse, List.filter_map, List.filterMap_map]
        simp [Function.comp_def, harcs]
      have hgraph : ((graph.links.reverse.filter fun link =>
            near' link == id).filterMap fun link => graph.node? (far' link)) =
          ((graph.links.map graph.endNumbers).reverse.filter fun ends =>
            nearOf ends == some number).filterMap fun ends =>
              (farOf ends).bind fun number => graph.nodes[number]? := by
        rw [← List.map_reverse, List.filter_map, List.filterMap_map]
        simp only [Function.comp_def, hnear, hlinks, Graph.node?_eq]
      rw [hgraph, ← hkeeps.arcs, ← hkeeps.nodes]
      exact hkept

theorem Keeps.callees (hkeeps : Keeps kept graph) (id : MethodId) :
    kept.callees id = graph.callees id :=
  hkeeps.neighbours id Prod.fst Prod.snd (fun _ => ⟨rfl, rfl⟩)
    (fun _ => ⟨rfl, rfl⟩) fun link hlink =>
      (hkeeps.wellFormed.ends link hlink).1

theorem Keeps.callers (hkeeps : Keeps kept graph) (id : MethodId) :
    kept.callers id = graph.callers id :=
  hkeeps.neighbours id Prod.snd Prod.fst (fun _ => ⟨rfl, rfl⟩)
    (fun _ => ⟨rfl, rfl⟩) fun link hlink =>
      (hkeeps.wellFormed.ends link hlink).2

theorem Keeps.setPosition_eq (hkeeps : Keeps kept graph) (id : MethodId)
    (position : Position) :
    kept.setPosition id position =
      ({ kept with
          nodes := kept.nodes.map fun node =>
            if node.method.id = id then { node with position := some position }
            else node }, kept.contains id) := by
  obtain ⟨hplaced, hcontains⟩ := hkeeps.setPosition id position
  have hnodes : (kept.setPosition id position).1.nodes =
      kept.nodes.map fun node =>
        if node.method.id = id then { node with position := some position }
        else node := by
    rw [hplaced.nodes, hkeeps.nodes]
    simp only [Graph.setPosition, beq_iff_eq]
  have hrest : (kept.setPosition id position).1 =
      { kept with nodes := (kept.setPosition id position).1.nodes } := by
    unfold IndexedGraph.setPosition
    split
    · rfl
    · split <;> rfl
  rw [← hnodes, ← hrest, hkeeps.contains, ← hcontains]

/-- What is laid out and shown after any changes is the graph of its lists. -/
theorem toGraph_built (changes : List Graph.Change) :
    (built changes).toGraph = Graph.built changes :=
  (keeps_built changes).toGraph

/-- What a graph tells after changes that mention these methods and links. -/
structure Accounts (graph : IndexedGraph) (methods : List Method)
    (links : List Link) : Prop where
  nodes : graph.nodes.map GraphNode.method = Method.distinct methods
  nodes_once : (graph.nodes.map fun node => node.method.id).Nodup
  edges : graph.linkedNodes.map Graph.linkOf = links.eraseDups
  edges_once : (graph.linkedNodes.map Graph.linkOf).Nodup
  ends : ∀ pair ∈ graph.linkedNodes,
    pair.1 ∈ graph.nodes ∧ pair.2 ∈ graph.nodes
  added : ∀ edge, (graph.addEdge edge).2 = true ↔ edge.link ∉ links
  node : ∀ id, graph.node? id =
    graph.nodes.find? fun node => node.method.id == id
  contains : ∀ id, graph.contains id = true ↔
    ∃ node ∈ graph.nodes, node.method.id = id
  hasLink : ∀ caller callee, graph.hasLink caller callee = true ↔
    ∃ pair ∈ graph.linkedNodes,
      pair.1.method.id = caller ∧ pair.2.method.id = callee
  nodeCount : graph.nodeCount = graph.nodes.length
  linkCount : graph.linkCount = graph.linkedNodes.length
  callees : ∀ id, graph.callees id = (graph.linkedNodes.reverse.filter
    fun pair => pair.1.method.id == id).map Prod.snd
  callees_once : ∀ id, ((graph.callees id).map fun node =>
    node.method.id).Nodup
  callers : ∀ id, graph.callers id = (graph.linkedNodes.reverse.filter
    fun pair => pair.2.method.id == id).map Prod.fst
  callers_once : ∀ id, ((graph.callers id).map fun node =>
    node.method.id).Nodup
  placed : ∀ id position, graph.setPosition id position =
    ({ graph with
        nodes := graph.nodes.map fun node =>
          if node.method.id = id then { node with position := some position }
          else node }, graph.contains id)

theorem built_accounts (changes : List Graph.Change) :
    (built changes).Accounts (changes.flatMap Graph.Change.methods)
      (changes.flatMap Graph.Change.links) := by
  have hkeeps := keeps_built changes
  have hgraph := hkeeps.wellFormed
  have hlinks := Graph.links_built changes
  have honce : (Graph.built changes).links.Nodup :=
    hlinks ▸ Graph.nodup_eraseDups _
  have hmap := hgraph.map_linkedNodes
  refine
    { nodes := ?nodes, nodes_once := ?nodesOnce, edges := ?edges,
      edges_once := ?edgesOnce, ends := ?ends, added := ?added, node := ?node,
      contains := ?contains, hasLink := ?hasLink, nodeCount := rfl,
      linkCount := ?linkCount, callees := ?callees,
      callees_once := ?calleesOnce, callers := ?callers,
      callers_once := ?callersOnce, placed := hkeeps.setPosition_eq }
  case nodes =>
    rw [hkeeps.nodes]
    exact Graph.methods_built changes
  case nodesOnce =>
    rw [hkeeps.nodes]
    exact hgraph.once
  case edges => rw [hkeeps.linkedNodes, hmap, hlinks]
  case edgesOnce => rwa [hkeeps.linkedNodes, hmap]
  case ends =>
    intro pair hpair
    rw [hkeeps.linkedNodes] at hpair
    obtain ⟨link, -, hjoins⟩ := hgraph.joins_of_mem hpair
    rw [hkeeps.nodes]
    exact hjoins.mem
  case added =>
    intro edge
    rw [(hkeeps.addEdge edge).2, hlinks, List.mem_eraseDups]
  case node =>
    intro id
    rw [hkeeps.node?, hkeeps.nodes]
    rfl
  case contains =>
    intro id
    rw [hkeeps.contains, hkeeps.nodes, Graph.contains_iff_mem_ids]
    exact List.mem_map
  case hasLink =>
    intro caller callee
    rw [hkeeps.hasLink, hkeeps.linkedNodes, Graph.hasLink,
      List.contains_iff_mem, ← hmap, List.mem_map]
    simp [Graph.linkOf]
  case linkCount =>
    rw [hkeeps.linkCount, hkeeps.linkedNodes, ← hmap, List.length_map]
  case callees =>
    intro id
    rw [hkeeps.callees, hkeeps.linkedNodes, hgraph.callees_eq]
  case calleesOnce =>
    intro id
    rw [hkeeps.callees]
    exact hgraph.nodup_callees honce
  case callers =>
    intro id
    rw [hkeeps.callers, hkeeps.linkedNodes, hgraph.callers_eq]
  case callersOnce =>
    intro id
    rw [hkeeps.callers]
    exact hgraph.nodup_callers honce

end IndexedGraph

end CallGraph
