import CallGraph.Proofs.Layout.Rank
import Mathlib.Data.List.Nodup
import Mathlib.Order.Nat

namespace CallGraph

/-! Places depend on the methods and the links of a graph, not on the order in
which they were added. -/

namespace Graph

variable {graph first second : Graph} {start id : MethodId} {count : Nat}

/-- Two graphs of the same methods and links, in whatever order. -/
structure IsRearranged (first second : Graph) : Prop where
  methods : ∀ method, method ∈ first.methods ↔ method ∈ second.methods
  links : ∀ link, link ∈ first.links ↔ link ∈ second.links

namespace IsRearranged

theorem symm (hsame : first.IsRearranged second) :
    second.IsRearranged first where
  methods method := (hsame.methods method).symm
  links link := (hsame.links link).symm

theorem mem_ids (hsame : first.IsRearranged second) :
    id ∈ first.ids ↔ id ∈ second.ids := by
  simp only [ids_eq, List.mem_map, hsame.methods]

theorem calls (hsame : first.IsRearranged second) :
    first.Calls = second.Calls := by
  funext caller callee
  exact propext (hsame.links _)

theorem inOneComponent (hsame : first.IsRearranged second) :
    first.InOneComponent = second.InOneComponent := by
  unfold InOneComponent LeadsTo
  rw [hsame.calls]

theorem path (hsame : first.IsRearranged second)
    (hpath : first.Path start id count) : second.Path start id count := by
  induction hpath with
  | start hid => exact .start _ (hsame.mem_ids.mp hid)
  | inside _ hcall hone ih =>
      exact ih.inside (hsame.calls ▸ hcall) (hsame.inOneComponent ▸ hone)
  | across _ hcall hother ih =>
      exact ih.across (hsame.calls ▸ hcall) (hsame.inOneComponent ▸ hother)

theorem path_iff (hsame : first.IsRearranged second) :
    first.Path start id count ↔ second.Path start id count :=
  ⟨hsame.path, hsame.symm.path⟩

theorem perm_methods (hsame : first.IsRearranged second)
    (hfirst : first.WellFormed) (hsecond : second.WellFormed) :
    first.methods.Perm second.methods := by
  have hnodup : ∀ {graph : Graph}, graph.WellFormed → graph.methods.Nodup :=
    fun hgraph => .of_map Method.id (ids_eq ▸ hgraph.once)
  exact (List.perm_ext_iff_of_nodup (hnodup hfirst) (hnodup hsecond)).mpr
    hsame.methods

end IsRearranged

end Graph

section Find

variable {α : Type} {key : α → MethodId}

theorem find?_of_mem {entries : List α} {entry : α}
    (honce : (entries.map key).Nodup) (hentry : entry ∈ entries) :
    (entries.find? fun other => key other == key entry) = some entry := by
  cases hfind : entries.find? fun other => key other == key entry with
  | none => simpa using List.find?_eq_none.mp hfind entry hentry
  | some found =>
      have hkey : key found = key entry := by simpa using List.find?_some hfind
      have hfound := List.mem_of_find?_eq_some hfind
      rw [List.inj_on_of_nodup_map honce hfound hentry hkey]

theorem find?_eq_of_perm {first second : List α}
    (honce : (first.map key).Nodup) (hperm : first.Perm second)
    (id : MethodId) :
    (first.find? fun entry => key entry == id) =
      second.find? fun entry => key entry == id := by
  cases hfind : first.find? fun entry => key entry == id with
  | none =>
      refine (List.find?_eq_none.mpr fun entry hentry => ?_).symm
      exact List.find?_eq_none.mp hfind entry (hperm.mem_iff.mpr hentry)
  | some found =>
      obtain rfl : key found = id := by simpa using List.find?_some hfind
      have hfound := hperm.mem_iff.mp (List.mem_of_find?_eq_some hfind)
      exact (find?_of_mem ((hperm.map key).nodup_iff.mp honce) hfound).symm

end Find

namespace LayeredLayout

variable {first second method : Method} {rank row : Nat}

def Above (first second : Method) : Prop :=
  first.name < second.name ∨
    first.name = second.name ∧ first.id.word < second.id.word

theorem rowBefore_iff : rowBefore first second = true ↔
    first.name < second.name ∨
      first.name = second.name ∧ first.id.word ≤ second.id.word := by
  simp [rowBefore]

theorem rowBefore_total (first second : Method) :
    (rowBefore first second || rowBefore second first) = true := by
  rw [Bool.or_eq_true, rowBefore_iff, rowBefore_iff]
  have hnames := @String.le_antisymm first.name second.name
  have hwords := UInt64.le_total first.id.word second.id.word
  rw [← String.not_lt, ← String.not_lt] at hnames
  grind

theorem rowBefore_trans (first second third : Method)
    (hfirst : rowBefore first second = true)
    (hsecond : rowBefore second third = true) :
    rowBefore first third = true := by
  rw [rowBefore_iff] at hfirst hsecond ⊢
  rcases hfirst with hfirst | ⟨hname, hfirst⟩
  · left
    rcases hsecond with hsecond | ⟨hname, _⟩
    · exact String.lt_trans hfirst hsecond
    · exact hname ▸ hfirst
  · rw [hname]
    exact hsecond.imp_right (And.imp_right (UInt64.le_trans hfirst))

theorem above_of_rowBefore (hbefore : rowBefore first second = true)
    (hne : first.id ≠ second.id) : Above first second := by
  refine (rowBefore_iff.mp hbefore).imp_right (And.imp_right fun hle => ?_)
  exact UInt64.lt_of_le_of_ne hle fun hword => hne (MethodId.word_inj.mp hword)

theorem Above.asymm (hfirst : Above first second) : ¬Above second first := by
  rintro (hname | ⟨hname, hword⟩)
  · rcases hfirst with hother | ⟨hother, _⟩
    · exact String.lt_asymm hother hname
    · exact String.lt_irrefl _ (hother ▸ hname)
  · rcases hfirst with hother | ⟨_, hother⟩
    · exact String.lt_irrefl _ (hname ▸ hother)
    · exact UInt64.lt_asymm hother hword

theorem eq_of_perm_of_above {rows others : List Method}
    (hperm : rows.Perm others) (hrows : rows.Pairwise Above)
    (hothers : others.Pairwise Above) : rows = others :=
  hperm.eq_of_pairwise
    (fun _ _ _ _ hbefore hafter => absurd hafter hbefore.asymm) hrows hothers

def IsOnce (ranks : List Ranked) : Prop :=
  (ranks.map fun ranked => ranked.method.id).Nodup

def lastRank (ranks : List Ranked) : Nat :=
  ranks.foldl (fun highest ranked => max highest ranked.rank) 0

def rowOf (ranks : List Ranked) (method : Method) : Nat :=
  ((layer ranks (rankOf ranks method.id)).findIdx? fun other =>
    other.id == method.id).getD 0

theorem place_eq (layout : LayeredLayout) (ranks : List Ranked)
    (method : Method) :
    layout.place ranks method =
      ⟨share layout.xRatio (rankOf ranks method.id) (lastRank ranks),
        share layout.yRatio (rowOf ranks method)
          ((layer ranks (rankOf ranks method.id)).length - 1)⟩ :=
  rfl

section Once

variable {ranks listed : List Ranked} (honce : IsOnce ranks)
include honce

theorem rankOf_method {ranked : Ranked} (hranked : ranked ∈ ranks) :
    rankOf ranks ranked.method.id = ranked.rank := by
  rw [rankOf, find?_of_mem honce hranked]
  rfl

theorem eq_map_rankOf :
    ranks = (ranks.map Ranked.method).map fun method =>
      ⟨method, rankOf ranks method.id⟩ := by
  conv => lhs; rw [← List.map_id ranks]
  rw [List.map_map]
  refine List.map_congr_left fun ranked hranked => ?_
  rw [Function.comp_apply, rankOf_method honce hranked]
  rfl

theorem mem_layer : method ∈ layer ranks rank ↔
    method ∈ ranks.map Ranked.method ∧ rankOf ranks method.id = rank := by
  simp only [layer, List.mem_mergeSort, List.mem_map, List.mem_filter,
    beq_iff_eq]
  constructor
  · rintro ⟨ranked, ⟨hranked, hrank⟩, rfl⟩
    exact ⟨⟨ranked, hranked, rfl⟩, (rankOf_method honce hranked).trans hrank⟩
  · rintro ⟨⟨ranked, hranked, rfl⟩, hrank⟩
    exact ⟨ranked, ⟨hranked, (rankOf_method honce hranked).symm.trans hrank⟩,
      rfl⟩

theorem nodup_layer (rank : Nat) :
    ((layer ranks rank).map Method.id).Nodup := by
  refine ((List.mergeSort_perm _ rowBefore).map Method.id).nodup_iff.mpr ?_
  rw [List.map_map]
  exact honce.sublist (List.filter_sublist.map _)

theorem layer_ascends (rank : Nat) : (layer ranks rank).Pairwise Above := by
  have hsorted := List.pairwise_mergeSort rowBefore_trans rowBefore_total
    ((ranks.filter fun ranked => ranked.rank == rank).map Ranked.method)
  have hapart := List.pairwise_map.mp (nodup_layer honce rank)
  exact (hsorted.and hapart).imp fun hboth =>
    above_of_rowBefore hboth.1 hboth.2

theorem rowOf_eq (hrow : (layer ranks rank)[row]? = some method) :
    rowOf ranks method = row := by
  have hrank := ((mem_layer honce).mp (List.mem_of_getElem? hrow)).2
  obtain ⟨hlt, hmethod⟩ := List.getElem?_eq_some_iff.mp hrow
  have hapart := List.pairwise_iff_getElem.mp
    (List.pairwise_map.mp (nodup_layer honce rank))
  have hindex : (layer ranks rank).findIdx?
      (fun other => other.id == method.id) = some row := by
    refine List.findIdx?_eq_some_iff_getElem.mpr ⟨hlt, by simp [hmethod], ?_⟩
    intro earlier hearlier
    simpa [hmethod] using
      hapart earlier row (Nat.lt_trans hearlier hlt) hlt hearlier
  rw [rowOf, hrank, hindex]
  rfl

theorem exists_row (hmethod : method ∈ ranks.map Ranked.method) :
    (layer ranks (rankOf ranks method.id))[rowOf ranks method]? =
      some method := by
  obtain ⟨row, hrow⟩ := List.mem_iff_getElem?.mp
    ((mem_layer honce).mpr ⟨hmethod, rfl⟩)
  rw [rowOf_eq honce hrow, hrow]

theorem map_rowOf_layer (rank : Nat) :
    (layer ranks rank).map (rowOf ranks) =
      List.range (layer ranks rank).length := by
  refine List.ext_getElem (by simp) fun row hrow _ => ?_
  rw [List.length_map] at hrow
  rw [List.getElem_map, List.getElem_range]
  exact rowOf_eq honce (List.getElem?_eq_getElem hrow)

theorem eq_of_rowOf_eq (hfirst : first ∈ ranks.map Ranked.method)
    (hsecond : second ∈ ranks.map Ranked.method)
    (hrank : rankOf ranks first.id = rankOf ranks second.id)
    (hrow : rowOf ranks first = rowOf ranks second) : first = second := by
  have hat := exists_row honce hfirst
  rw [hrank, hrow, exists_row honce hsecond] at hat
  exact (Option.some.inj hat).symm

variable (hperm : ranks.Perm listed)
include hperm

theorem rankOf_eq_of_perm (id : MethodId) :
    rankOf ranks id = rankOf listed id := by
  rw [rankOf, find?_eq_of_perm honce hperm]
  rfl

theorem layer_eq_of_perm (rank : Nat) :
    layer ranks rank = layer listed rank := by
  have honce' : IsOnce listed := (hperm.map _).nodup_iff.mp honce
  have hlayers : (layer ranks rank).Perm (layer listed rank) :=
    (List.mergeSort_perm _ _).trans <|
      ((hperm.filter _).map _).trans (List.mergeSort_perm _ _).symm
  exact eq_of_perm_of_above hlayers (layer_ascends honce rank)
    (layer_ascends honce' rank)

omit honce in
theorem lastRank_eq_of_perm : lastRank ranks = lastRank listed := by
  refine eq_of_forall_le_iff fun bound => ?_
  simp only [lastRank, le_foldl_max_iff, hperm.mem_iff]

theorem place_eq_of_perm (layout : LayeredLayout) (method : Method) :
    layout.place ranks method = layout.place listed method := by
  have hrow : rowOf ranks method = rowOf listed method := by
    rw [rowOf, rankOf_eq_of_perm honce hperm, layer_eq_of_perm honce hperm]
    rfl
  rw [place_eq, place_eq, rankOf_eq_of_perm honce hperm,
    lastRank_eq_of_perm hperm, layer_eq_of_perm honce hperm, hrow]

end Once

variable {graph other : Graph} {id : MethodId}

theorem isOnce_ranks (hgraph : graph.WellFormed) : IsOnce (ranks graph) := by
  have hids :
      (ranks graph).map (fun ranked => ranked.method.id) = graph.ids := by
    rw [Graph.ids_eq, ← methods_ranks, List.map_map]
    rfl
  rw [IsOnce, hids]
  exact hgraph.once

theorem ranks_eq (hgraph : graph.WellFormed) :
    ranks graph = graph.methods.map fun method =>
      ⟨method, rankOf (ranks graph) method.id⟩ := by
  rw [← methods_ranks]
  exact eq_map_rankOf (isOnce_ranks hgraph)

section Rearranged

variable (hsame : graph.IsRearranged other) (hgraph : graph.WellFormed)
  (hother : other.WellFormed)
include hsame hgraph hother

theorem rankOf_of_isRearranged (hid : id ∈ graph.ids) :
    rankOf (ranks graph) id = rankOf (ranks other) id := by
  have hid' := hsame.mem_ids.mp hid
  refine eq_of_forall_le_iff fun bound => ?_
  rw [le_rankOf_iff hgraph hid, climbs_iff_path hgraph hid,
    le_rankOf_iff hother hid', climbs_iff_path hother hid']
  simp only [hsame.path_iff]

theorem perm_ranks : (ranks graph).Perm (ranks other) := by
  have hmethods := hsame.perm_methods hgraph hother
  calc ranks graph
      = graph.methods.map fun method =>
          ⟨method, rankOf (ranks graph) method.id⟩ := ranks_eq hgraph
    _ = graph.methods.map fun method =>
          ⟨method, rankOf (ranks other) method.id⟩ := by
        refine List.map_congr_left fun method hmethod => ?_
        rw [rankOf_of_isRearranged hsame hgraph hother
          (Graph.ids_eq ▸ List.mem_map_of_mem hmethod)]
    List.Perm _ <| other.methods.map fun method =>
          ⟨method, rankOf (ranks other) method.id⟩ := hmethods.map _
    _ = ranks other := (ranks_eq hother).symm

end Rearranged

theorem methods_apply (layout : LayeredLayout) (graph : Graph) :
    (layout.apply graph).methods = graph.methods := by
  rw [Graph.methods, apply, List.map_map]
  rfl

theorem node?_apply (layout : LayeredLayout) (graph : Graph) (id : MethodId) :
    (layout.apply graph).node? id =
      (graph.methods.find? fun method => method.id == id).map fun method =>
        ⟨method, some (layout.place (ranks graph) method)⟩ := by
  rw [Graph.node?, apply, Graph.methods, List.find?_map, List.find?_map,
    Option.map_map]
  rfl

theorem node?_apply_of_isRearranged (layout : LayeredLayout)
    (hsame : graph.IsRearranged other) (hgraph : graph.WellFormed)
    (hother : other.WellFormed) (id : MethodId) :
    (layout.apply graph).node? id = (layout.apply other).node? id := by
  have hplace : layout.place (ranks graph) = layout.place (ranks other) :=
    funext (place_eq_of_perm (isOnce_ranks hgraph)
      (perm_ranks hsame hgraph hother) layout)
  rw [node?_apply, node?_apply, hplace, find?_eq_of_perm
    (Graph.ids_eq ▸ hgraph.once) (hsame.perm_methods hgraph hother)]

def placeRows (layout : LayeredLayout) (ranks : List Ranked) (graph : Graph)
    (rank : Nat) : Graph :=
  let rows := layer ranks rank
  rows.zipIdx.foldl (fun graph (method, row) =>
    graph.setPosition method.id
      ⟨share layout.xRatio rank (lastRank ranks),
        share layout.yRatio row (rows.length - 1)⟩) graph

def placeLayers (layout : LayeredLayout) (ranks : List Ranked)
    (graph : Graph) : Graph :=
  (List.range (lastRank ranks + 1)).foldl (layout.placeRows ranks) graph

theorem foldl_setPosition {position : Method → Position}
    (hposition : ∀ first second : Method, first.id = second.id →
      position first = position second)
    (methods : List Method) (graph : Graph) :
    methods.foldl (fun graph method =>
        graph.setPosition method.id (position method)) graph =
      { graph with
        nodes := graph.nodes.map fun node =>
          if node.method.id ∈ methods.map Method.id then
            { node with position := some (position node.method) }
          else node } := by
  induction methods generalizing graph with
  | nil => simp
  | cons method rest ih =>
      rw [List.foldl_cons, ih, Graph.setPosition, List.map_map]
      congr 1
      refine List.map_congr_left fun node _ => ?_
      by_cases hid : node.method.id = method.id
      · simp [hid, hposition node.method method hid]
      · simp [hid]

theorem le_lastRank {ranks : List Ranked} {ranked : Ranked}
    (hranked : ranked ∈ ranks) :
    ranked.rank ≤ lastRank ranks :=
  le_foldl_max_iff.mpr (.inr ⟨ranked, hranked, Nat.le_refl _⟩)

theorem place_congr (layout : LayeredLayout) (ranks : List Ranked)
    (hid : first.id = second.id) :
    layout.place ranks first = layout.place ranks second := by
  unfold place
  rw [hid]

theorem placeRows_eq {ranks : List Ranked} (honce : IsOnce ranks)
    (layout : LayeredLayout) (graph : Graph) (rank : Nat) :
    layout.placeRows ranks graph rank =
      (layer ranks rank).foldl (fun graph method =>
        graph.setPosition method.id (layout.place ranks method)) graph := by
  conv => rhs; rw [← List.zipIdx_map_fst 0 (layer ranks rank), List.foldl_map]
  refine List.foldl_ext _ _ _ fun graph entry hentry => ?_
  obtain ⟨method, row⟩ := entry
  have hrow := List.mem_zipIdx_iff_getElem?.mp hentry
  have hrank := ((mem_layer honce).mp (List.mem_of_getElem? hrow)).2
  rw [place_eq, rowOf_eq honce hrow, hrank]

/-- Layer by layer each node is assigned its place. -/
theorem placeLayers_eq {ranks : List Ranked} (honce : IsOnce ranks)
    (layout : LayeredLayout) (graph : Graph)
    (hlisted : ∀ method ∈ graph.methods, method ∈ ranks.map Ranked.method) :
    layout.placeLayers ranks graph =
      { graph with
        nodes := graph.nodes.map fun node => { node with
          position := some (layout.place ranks node.method) } } := by
  have hrows : layout.placeRows ranks = fun graph rank =>
      (layer ranks rank).foldl (fun graph method =>
        graph.setPosition method.id (layout.place ranks method)) graph := by
    funext graph rank
    exact placeRows_eq honce layout graph rank
  rw [placeLayers, hrows, ← List.foldl_flatMap,
    foldl_setPosition fun _ _ => place_congr layout ranks]
  congr 1
  refine List.map_congr_left fun node hnode => if_pos ?_
  obtain ⟨ranked, hranked, hmethod⟩ :=
    List.mem_map.mp (hlisted _ (List.mem_map_of_mem hnode))
  refine List.mem_map_of_mem (List.mem_flatMap.mpr ⟨ranked.rank, ?_, ?_⟩)
  · exact List.mem_range.mpr (Nat.lt_succ_of_le (le_lastRank hranked))
  · rw [mem_layer honce, ← hmethod]
    exact ⟨List.mem_map_of_mem hranked, rankOf_method honce hranked⟩

/-- The ranks as one pass over listed components assigns them. -/
def swept (graph : Graph) (components : List (List MethodId)) : List Ranked :=
  graph.methods.map fun method => ⟨method, sweep graph components method.id⟩

theorem swept_eq_ranks (hgraph : graph.WellFormed)
    {components : List (List MethodId)}
    (hcomponents : ListsComponents graph components) :
    swept graph components = ranks graph := by
  rw [ranks_eq hgraph]
  refine List.map_congr_left fun method hmethod => ?_
  rw [sweep_eq_rankOf hgraph hcomponents
    (Graph.ids_eq ▸ List.mem_map_of_mem hmethod)]

theorem placeLayers_eq_apply (hgraph : graph.WellFormed)
    {components : List (List MethodId)} {listed : List Ranked}
    (hcomponents : ListsComponents graph components)
    (hlisted : listed.Perm (swept graph components)) (layout : LayeredLayout) :
    layout.placeLayers listed graph = layout.apply graph := by
  rw [swept_eq_ranks hgraph hcomponents] at hlisted
  have honce := isOnce_ranks hgraph
  have hplace : layout.place listed = layout.place (ranks graph) :=
    (funext (place_eq_of_perm honce hlisted.symm layout)).symm
  rw [placeLayers_eq ((hlisted.map _).nodup_iff.mpr honce), hplace]
  · rfl
  · intro method hmethod
    rw [(hlisted.map Ranked.method).mem_iff, methods_ranks]
    exact hmethod

/-- A graph `laid` is `graph` but for the positions.  Those go by rank and row;
the rows of a rank hold its methods by name and identity, counted from zero. -/
structure LaysOut (layout : LayeredLayout) (graph laid : Graph)
    (rank row : Method → Nat) (rows : Nat → List Method) (last : Nat) :
    Prop where
  methods : laid.methods = graph.methods
  links : laid.links = graph.links
  placed : ∀ node ∈ laid.nodes, node.position = some
    ⟨if last = 0 then 0
      else layout.xRatio * (rank node.method).toFloat32 / last.toFloat32,
      if (rows (rank node.method)).length ≤ 1 then 0
      else layout.yRatio * (row node.method).toFloat32 /
        ((rows (rank node.method)).length - 1).toFloat32⟩
  last : graph.methods = [] ∧ last = 0 ∨
    IsGreatest {value | ∃ method ∈ graph.methods, rank method = value} last
  members : ∀ value method, method ∈ rows value ↔
    method ∈ graph.methods ∧ rank method = value
  ascending : ∀ value, (rows value).Pairwise Above
  counted : ∀ value, (rows value).map row = List.range (rows value).length
  apart : ∀ first ∈ graph.methods, ∀ second ∈ graph.methods,
    rank first = rank second → row first = row second → first = second

theorem isGreatest_lastRank (hgraph : graph.WellFormed) :
    graph.methods = [] ∧ lastRank (ranks graph) = 0 ∨
      IsGreatest {value | ∃ method ∈ graph.methods,
        rankOf (ranks graph) method.id = value} (lastRank (ranks graph)) := by
  have honce := isOnce_ranks hgraph
  have hmem : ∀ ranked ∈ ranks graph, ranked.method ∈ graph.methods :=
    fun ranked hranked => methods_ranks graph ▸ List.mem_map_of_mem hranked
  have hupper : lastRank (ranks graph) ∈ upperBounds {value |
      ∃ method ∈ graph.methods, rankOf (ranks graph) method.id = value} := by
    rintro value ⟨method, hmethod, rfl⟩
    rw [← methods_ranks] at hmethod
    obtain ⟨ranked, hranked, rfl⟩ := List.mem_map.mp hmethod
    rw [rankOf_method honce hranked]
    exact le_lastRank hranked
  rcases le_foldl_max_iff.mp (Nat.le_refl (lastRank (ranks graph))) with
    hzero | ⟨ranked, hranked, hle⟩
  · have hzero := Nat.le_zero.mp hzero
    cases hmethods : graph.methods with
    | nil => exact .inl ⟨rfl, hzero⟩
    | cons method rest =>
        right
        rw [hmethods] at hupper
        refine ⟨⟨method, List.mem_cons_self, ?_⟩, hupper⟩
        have hle := hupper ⟨method, List.mem_cons_self, rfl⟩
        omega
  · right
    refine ⟨⟨ranked.method, hmem ranked hranked, ?_⟩, hupper⟩
    rw [rankOf_method honce hranked]
    exact Nat.le_antisymm (le_lastRank hranked) hle

theorem laysOut_apply (layout : LayeredLayout) (hgraph : graph.WellFormed) :
    LaysOut layout graph (layout.apply graph)
      (fun method => rankOf (ranks graph) method.id) (rowOf (ranks graph))
      (layer (ranks graph)) (lastRank (ranks graph)) where
  methods := methods_apply layout graph
  links := rfl
  placed node hnode := by
    obtain ⟨before, _, rfl⟩ := List.mem_map.mp hnode
    simp only [place_eq, share, Nat.sub_eq_zero_iff_le]
  last := isGreatest_lastRank hgraph
  members value method := by
    rw [mem_layer (isOnce_ranks hgraph), methods_ranks]
  ascending := layer_ascends (isOnce_ranks hgraph)
  counted := map_rowOf_layer (isOnce_ranks hgraph)
  apart first hfirst second hsecond :=
    eq_of_rowOf_eq (isOnce_ranks hgraph) (methods_ranks graph ▸ hfirst)
      (methods_ranks graph ▸ hsecond)

/-- However the methods and links of a graph were added, its layout is the
same: each node is placed by its rank and row, and nothing else changes.  So it
is when the ranks come from a pass over listed components, in any order. -/
theorem apply_ignoresOrder (layout : LayeredLayout)
    {changes others : List Graph.Change}
    (hsame : (Graph.built changes).IsRearranged (.built others)) :
    LaysOut layout (.built changes) (layout.apply (.built changes))
        (fun method => rankOf (ranks (.built changes)) method.id)
        (rowOf (ranks (.built changes))) (layer (ranks (.built changes)))
        (lastRank (ranks (.built changes))) ∧
      (∀ id, (layout.apply (.built changes)).node? id =
        (layout.apply (.built others)).node? id) ∧
      ∀ components listed, ListsComponents (.built changes) components →
        listed.Perm (swept (.built changes) components) →
          layout.placeLayers listed (.built changes) =
            layout.apply (.built changes) := by
  have hgraph := Graph.wellFormed_built changes
  refine ⟨laysOut_apply layout hgraph, ?_, ?_⟩
  · exact node?_apply_of_isRearranged layout hsame hgraph
      (Graph.wellFormed_built others)
  · intro components listed hcomponents hlisted
    exact placeLayers_eq_apply hgraph hcomponents hlisted layout

end LayeredLayout

namespace Sample

theorem ringedCalls_isRearranged :
    (Graph.built ringedCalls).IsRearranged (.built ringedCalls.reverse) := by
  let graph := Graph.built ringedCalls
  let other := Graph.built ringedCalls.reverse
  have hmethods : graph.methods ⊆ other.methods ∧
      other.methods ⊆ graph.methods := by decide
  have hlinks : graph.links ⊆ other.links ∧ other.links ⊆ graph.links := by
    decide
  exact ⟨fun _ => ⟨@hmethods.1 _, @hmethods.2 _⟩,
    fun _ => ⟨@hlinks.1 _, @hlinks.2 _⟩⟩

theorem ringedCalls_ignoresOrder :
    (Graph.built ringedCalls).ids ≠ (Graph.built ringedCalls.reverse).ids ∧
      (∀ id, (LayeredLayout.apply default (.built ringedCalls)).node? id =
        (LayeredLayout.apply default (.built ringedCalls.reverse)).node? id) ∧
      LayeredLayout.layer (LayeredLayout.ranks (.built ringedCalls)) 1 =
        [layered 2 "b", layered 3 "c"] ∧
      (∃ node ∈ (LayeredLayout.apply default (.built ringedCalls)).nodes,
        node.method = layered 3 "c" ∧ node.position = some ⟨0.5, 2⟩) := by
  have hplaces :=
    LayeredLayout.apply_ignoresOrder default ringedCalls_isRearranged
  have hlisted : ((LayeredLayout.ranks (.built ringedCalls)).filter
      fun ranked => ranked.rank == 1).map LayeredLayout.Ranked.method =
        [layered 3 "c", layered 2 "b"] := by decide
  have hrows : (LayeredLayout.layer (LayeredLayout.ranks (.built ringedCalls))
      1).Perm [layered 2 "b", layered 3 "c"] :=
    (List.mergeSort_perm _ _).trans (hlisted ▸ .swap _ _ [])
  have habove : [layered 2 "b", layered 3 "c"].Pairwise LayeredLayout.Above :=
    List.pairwise_pair.mpr (.inl (by decide))
  have hlayer : LayeredLayout.layer
      (LayeredLayout.ranks (.built ringedCalls)) 1 =
        [layered 2 "b", layered 3 "c"] :=
    LayeredLayout.eq_of_perm_of_above hrows (hplaces.1.ascending 1) habove
  refine ⟨by decide, hplaces.2.1, hlayer, ?_⟩
  have hmethod : layered 3 "c" ∈
      (LayeredLayout.apply default (.built ringedCalls)).methods := by
    rw [hplaces.1.methods]
    decide
  obtain ⟨node, hnode, hc⟩ := List.mem_map.mp hmethod
  have hposition := hplaces.1.placed node hnode
  have hrank : LayeredLayout.rankOf (LayeredLayout.ranks (.built ringedCalls))
      (layered 3 "c").id = 1 := by decide
  have hlast : LayeredLayout.lastRank
      (LayeredLayout.ranks (.built ringedCalls)) = 2 := by decide
  have hcounted := hplaces.1.counted 1
  rw [hlayer] at hcounted
  have hrow : LayeredLayout.rowOf (LayeredLayout.ranks (.built ringedCalls))
      (layered 3 "c") = 1 := (List.cons.inj (List.cons.inj hcounted).2).1
  rw [hc, hrank, hlast, hlayer, hrow] at hposition
  have hx : (1 * Nat.toFloat32 1 / Nat.toFloat32 2 : Float32) = 0.5 := by
    decide +kernel
  have hy : (2 * Nat.toFloat32 1 / Nat.toFloat32 1 : Float32) = 2 := by
    decide +kernel
  exact ⟨node, hnode, hc,
    hposition.trans (congrArg some (congrArg₂ Position.mk hx hy))⟩

end Sample

end CallGraph
