import CallGraph.Graph

namespace CallGraph

theorem MethodId.word_inj {first second : MethodId} :
    first.word = second.word ↔ first = second :=
  ⟨congrArg MethodId.mk, congrArg MethodId.word⟩

namespace Method

def distinct : List Method → List Method
  | [] => []
  | method :: rest =>
      method :: (distinct rest).filter fun other => !(other.id == method.id)

variable {methods : List Method} {method : Method} {id : MethodId}

theorem exists_mem_distinct :
    (∃ method ∈ distinct methods, method.id = id) ↔
      ∃ method ∈ methods, method.id = id := by
  induction methods with
  | nil => simp [distinct]
  | cons head rest ih =>
      simp only [distinct, List.mem_cons, List.mem_filter]
      grind

theorem nodup_distinct (methods : List Method) :
    ((distinct methods).map Method.id).Nodup := by
  induction methods with
  | nil => exact List.nodup_nil
  | cons head rest ih =>
      rw [distinct, List.map_cons, List.nodup_cons]
      refine ⟨by simp, ?_⟩
      exact ih.sublist (List.filter_sublist.map _)

theorem distinct_concat (methods : List Method) (method : Method) :
    distinct (methods ++ [method]) =
      if ∃ other ∈ methods, other.id = method.id then distinct methods
      else distinct methods ++ [method] := by
  induction methods with
  | nil => simp [distinct]
  | cons head rest ih =>
      rw [List.cons_append, distinct, ih]
      by_cases hrest : ∃ other ∈ rest, other.id = method.id
      · have hany : ∃ other ∈ head :: rest, other.id = method.id :=
          hrest.imp fun _ hother => hother.imp_left (List.mem_cons_of_mem head)
        rw [if_pos hrest, if_pos hany, distinct]
      · rw [if_neg hrest, List.filter_append]
        by_cases hhead : head.id = method.id
        · rw [if_pos ⟨head, List.mem_cons_self, hhead⟩]
          simp [distinct, hhead]
        · rw [if_neg (by simpa [hhead] using hrest)]
          simp [distinct, Ne.symm hhead]

theorem distinct_filter (keep : MethodId → Bool) (methods : List Method) :
    distinct (methods.filter fun method => keep method.id) =
      (distinct methods).filter fun method => keep method.id := by
  induction methods with
  | nil => rfl
  | cons head rest ih =>
      rw [distinct, List.filter_cons, List.filter_cons]
      cases hkeep : keep head.id with
      | true =>
          rw [if_pos rfl, if_pos rfl, distinct, ih, List.filter_filter,
            List.filter_filter]
          simp only [Bool.and_comm]
      | false =>
          rw [if_neg Bool.false_ne_true, if_neg Bool.false_ne_true, ih,
            List.filter_filter]
          refine List.filter_congr fun method _ => ?_
          by_cases hsame : method.id = head.id
          · simp [hsame, hkeep]
          · simp [hsame]

theorem distinct_append (first second : List Method) :
    distinct (first ++ second) =
      distinct first ++ distinct (second.filter fun method =>
        !(first.map Method.id).contains method.id) := by
  induction first with
  | nil =>
      have hall : second.filter (fun method =>
          !(([] : List Method).map Method.id).contains method.id) = second :=
        List.filter_eq_self.mpr fun _ _ => rfl
      rw [hall]
      rfl
  | cons head rest ih =>
      have hsecond : second.filter (fun method =>
          !((head :: rest).map Method.id).contains method.id) =
            (second.filter fun method =>
              !(rest.map Method.id).contains method.id).filter
                fun method => !(method.id == head.id) := by
        rw [List.filter_filter]
        refine List.filter_congr fun method _ => ?_
        rw [List.map_cons, List.contains_cons, Bool.not_or]
      rw [List.cons_append, distinct, ih, List.filter_append, distinct,
        List.cons_append, hsecond, distinct_filter fun id => !(id == head.id)]

end Method

namespace Edge

def link (edge : Edge) : Link := ⟨edge.caller.id, edge.callee.id⟩

def ends (edge : Edge) : List Method := [edge.caller, edge.callee]

end Edge

def GraphNode.unplaced (method : Method) : GraphNode := ⟨method, none⟩

@[simp] theorem GraphNode.method_unplaced (method : Method) :
    (unplaced method).method = method := rfl

namespace Graph

variable {graph : Graph} {seen : List Method} {edges : List Edge}
  {id : MethodId}

theorem nodes_addNode (hnodes :
      graph.nodes = (Method.distinct seen).map GraphNode.unplaced)
    (method : Method) :
    (graph.addNode method).nodes =
      (Method.distinct (seen ++ [method])).map GraphNode.unplaced := by
  have hcontains : graph.contains method.id = true ↔
      ∃ other ∈ seen, other.id = method.id := by
    rw [contains, hnodes, List.any_map, ← Method.exists_mem_distinct]
    simp
  rw [addNode, Method.distinct_concat]
  simp only [hcontains]
  split
  · exact hnodes
  · simp [hnodes, GraphNode.unplaced]

theorem links_addNode (method : Method) :
    (graph.addNode method).links = graph.links := by
  unfold addNode
  split <;> rfl

theorem nodes_foldl_addNode (hnodes :
      graph.nodes = (Method.distinct seen).map GraphNode.unplaced)
    (methods : List Method) :
    (methods.foldl addNode graph).nodes =
      (Method.distinct (seen ++ methods)).map GraphNode.unplaced := by
  induction methods generalizing graph seen with
  | nil => simpa using hnodes
  | cons method rest ih =>
      rw [List.foldl_cons, ih (nodes_addNode hnodes method), List.append_assoc]
      rfl

theorem links_foldl_addNode (methods : List Method) :
    (methods.foldl addNode graph).links = graph.links := by
  induction methods generalizing graph with
  | nil => rfl
  | cons method rest ih => rw [List.foldl_cons, ih, links_addNode]

theorem nodes_addEdge (edge : Edge) :
    (graph.addEdge edge).nodes =
      ((graph.addNode edge.caller).addNode edge.callee).nodes := by
  unfold addEdge
  dsimp only
  split <;> rfl

theorem links_addEdge (edge : Edge) :
    (graph.addEdge edge).links =
      if edge.link ∈ graph.links then graph.links
      else graph.links ++ [edge.link] := by
  unfold addEdge hasLink
  simp only [links_addNode, List.contains_iff_mem]
  split <;> simp_all [Edge.link, links_addNode]

theorem nodes_foldl_addEdge (hnodes :
      graph.nodes = (Method.distinct seen).map GraphNode.unplaced)
    (edges : List Edge) :
    (edges.foldl addEdge graph).nodes =
      (Method.distinct (seen ++ edges.flatMap Edge.ends)).map
        GraphNode.unplaced := by
  induction edges generalizing graph seen with
  | nil => simpa using hnodes
  | cons edge rest ih =>
      have hends : (graph.addEdge edge).nodes =
          (Method.distinct (seen ++ edge.ends)).map GraphNode.unplaced :=
        (nodes_addEdge edge).trans (nodes_foldl_addNode hnodes edge.ends)
      rw [List.foldl_cons, ih hends, List.append_assoc, List.flatMap_cons]

theorem links_foldl_addEdge (hedges : (edges.map Edge.link).Nodup)
    (hnew : ∀ edge ∈ edges, edge.link ∉ graph.links) :
    (edges.foldl addEdge graph).links = graph.links ++ edges.map Edge.link := by
  induction edges generalizing graph with
  | nil => simp
  | cons edge rest ih =>
      rw [List.map_cons, List.nodup_cons] at hedges
      have hlinks :
          (graph.addEdge edge).links = graph.links ++ [edge.link] := by
        rw [links_addEdge, if_neg (hnew edge List.mem_cons_self)]
      have hrest : ∀ other ∈ rest, other.link ∉ (graph.addEdge edge).links := by
        intro other hother
        have hother' := hnew other (List.mem_cons_of_mem edge hother)
        have hne : other.link ≠ edge.link := fun hsame =>
          hedges.1 (hsame ▸ List.mem_map_of_mem hother)
        rw [hlinks]
        simp [hother', hne]
      rw [List.foldl_cons, ih hedges.2 hrest, hlinks, List.append_assoc]
      rfl

inductive Change where
  | node (method : Method)
  | edge (edge : Edge)
  | position (id : MethodId) (position : Position)

def change (graph : Graph) : Change → Graph
  | .node method => graph.addNode method
  | .edge edge => graph.addEdge edge
  | .position id position => graph.setPosition id position

def built (changes : List Change) : Graph := changes.foldl change empty

def methods (graph : Graph) : List Method := graph.nodes.map GraphNode.method

def ids (graph : Graph) : List MethodId :=
  graph.nodes.map fun node => node.method.id

theorem ids_eq : graph.ids = graph.methods.map Method.id := by
  rw [methods, List.map_map]
  rfl

theorem contains_iff_mem_ids : graph.contains id = true ↔ id ∈ graph.ids := by
  simp [contains, ids]

/-- Each identity is that of one node, and links have their ends among the
nodes. -/
structure WellFormed (graph : Graph) : Prop where
  once : graph.ids.Nodup
  ends : ∀ link ∈ graph.links,
    link.caller ∈ graph.ids ∧ link.callee ∈ graph.ids

theorem ids_addNode (method : Method) :
    (graph.addNode method).ids =
      if method.id ∈ graph.ids then graph.ids
      else graph.ids ++ [method.id] := by
  unfold addNode
  simp only [contains_iff_mem_ids]
  split
  · rfl
  · simp [ids]

theorem WellFormed.addNode (hgraph : graph.WellFormed) (method : Method) :
    (graph.addNode method).WellFormed where
  once := by
    rw [ids_addNode]
    split
    · exact hgraph.once
    · rename_i hnew
      exact List.nodup_append.mpr ⟨hgraph.once, by simp, by grind⟩
  ends := by
    intro link hlink
    rw [links_addNode] at hlink
    have hends := hgraph.ends link hlink
    rw [ids_addNode]
    split
    · exact hends
    · exact ⟨List.mem_append_left _ hends.1, List.mem_append_left _ hends.2⟩

theorem mem_ids_addNode (method : Method) :
    id ∈ (graph.addNode method).ids ↔ id ∈ graph.ids ∨ id = method.id := by
  rw [ids_addNode]
  split <;> grind

theorem WellFormed.addEdge (hgraph : graph.WellFormed) (edge : Edge) :
    (graph.addEdge edge).WellFormed := by
  have hnodes := (hgraph.addNode edge.caller).addNode edge.callee
  have hids : (graph.addEdge edge).ids =
      ((graph.addNode edge.caller).addNode edge.callee).ids := by
    unfold ids
    rw [nodes_addEdge]
  refine ⟨hids ▸ hnodes.once, fun link hlink => ?_⟩
  rw [hids]
  have hlinks : link ∈ graph.links ∨ link = edge.link := by
    rw [links_addEdge] at hlink
    grind
  rcases hlinks with hold | rfl
  · exact hnodes.ends link (by rwa [links_addNode, links_addNode])
  · simp [mem_ids_addNode, Edge.link]

theorem ids_setPosition (position : Position) :
    (graph.setPosition id position).ids = graph.ids := by
  unfold setPosition ids
  rw [List.map_map]
  apply List.map_congr_left
  intro node _
  dsimp only [Function.comp_apply]
  split <;> rfl

theorem WellFormed.setPosition (hgraph : graph.WellFormed) (id : MethodId)
    (position : Position) : (graph.setPosition id position).WellFormed := by
  have hids : (graph.setPosition id position).ids = graph.ids :=
    ids_setPosition position
  exact ⟨hids ▸ hgraph.once, fun link hlink => hids ▸ hgraph.ends link hlink⟩

theorem wellFormed_built (changes : List Change) :
    (built changes).WellFormed := by
  unfold built
  suffices hall : ∀ graph : Graph, graph.WellFormed →
      (changes.foldl change graph).WellFormed by
    exact hall empty ⟨List.nodup_nil, nofun⟩
  induction changes with
  | nil => exact fun _ hgraph => hgraph
  | cons step rest ih =>
      intro graph hgraph
      refine ih _ ?_
      cases step with
      | node method => exact hgraph.addNode method
      | edge edge => exact hgraph.addEdge edge
      | position id position => exact hgraph.setPosition id position

end Graph

end CallGraph
