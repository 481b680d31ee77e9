import CallGraph.Layout
import CallGraph.Proofs.Graph
import CallGraph.Proofs.Reach
import Mathlib.Data.List.Dedup
import Mathlib.Order.Bounds.Defs

namespace CallGraph

/-! The rank of a method counts the calls between components on the longest
chain of calls that ends at it. -/

namespace Graph

variable {graph : Graph} {first second third : MethodId}

def Calls (graph : Graph) (caller callee : MethodId) : Prop :=
  ⟨caller, callee⟩ ∈ graph.links

def LeadsTo (graph : Graph) : MethodId → MethodId → Prop :=
  Relation.ReflTransGen graph.Calls

def InOneComponent (graph : Graph) (first second : MethodId) : Prop :=
  graph.LeadsTo first second ∧ graph.LeadsTo second first

/-- A path of calls from one method to another, and how many of its calls lead
from one component to another. -/
inductive Path (graph : Graph) : MethodId → MethodId → Nat → Prop
  | start (id : MethodId) (hid : id ∈ graph.ids) : Path graph id id 0
  | inside {start caller callee : MethodId} {count : Nat}
      (hpath : Path graph start caller count)
      (hcall : graph.Calls caller callee)
      (hsame : graph.InOneComponent caller callee) :
      Path graph start callee count
  | across {start caller callee : MethodId} {count : Nat}
      (hpath : Path graph start caller count)
      (hcall : graph.Calls caller callee)
      (hother : ¬graph.InOneComponent caller callee) :
      Path graph start callee (count + 1)

theorem InOneComponent.refl (id : MethodId) : graph.InOneComponent id id :=
  ⟨.refl, .refl⟩

theorem InOneComponent.symm (hsame : graph.InOneComponent first second) :
    graph.InOneComponent second first :=
  ⟨hsame.2, hsame.1⟩

theorem InOneComponent.trans (hfirst : graph.InOneComponent first second)
    (hsecond : graph.InOneComponent second third) :
    graph.InOneComponent first third :=
  ⟨hfirst.1.trans hsecond.1, hsecond.2.trans hfirst.2⟩

theorem Path.led_on {start : MethodId} {count : Nat}
    (hpath : graph.Path start first count)
    (hsame : graph.InOneComponent first second) :
    graph.Path start second count := by
  obtain ⟨hleads, hback⟩ := hsame
  induction hleads with
  | refl => exact hpath
  | @tail middle last hleads hcall ih =>
      have hmiddle : graph.LeadsTo middle first := hback.head hcall
      exact (ih hmiddle).inside hcall
        ⟨Relation.ReflTransGen.single hcall, hback.trans hleads⟩

end Graph

namespace LayeredLayout

variable {graph : Graph} {first second source target id : MethodId}

theorem leads_iff :
    Reach.Leads (graph.links.map fun link => (link.caller, link.callee)) first
        second ↔ graph.LeadsTo first second := by
  unfold Reach.Leads Graph.LeadsTo Graph.Calls
  have hlink : ∀ caller callee, (caller, callee) ∈
      graph.links.map (fun link => (link.caller, link.callee)) ↔
        ⟨caller, callee⟩ ∈ graph.links := by
    intro caller callee
    simp only [List.mem_map, Prod.mk.injEq]
    constructor
    · rintro ⟨link, hlink, rfl, rfl⟩
      exact hlink
    · exact fun hlink => ⟨_, hlink, rfl, rfl⟩
  simp only [hlink]

instance (graph : Graph) (caller callee : MethodId) :
    Decidable (graph.Calls caller callee) :=
  inferInstanceAs (Decidable (_ ∈ graph.links))

instance (graph : Graph) (first second : MethodId) :
    Decidable (graph.LeadsTo first second) :=
  decidable_of_iff (second ∈ Reach.reached
    (graph.links.map fun link => (link.caller, link.callee)) [first]) <| by
      simp only [Reach.mem_reached, List.mem_singleton, exists_eq_left,
        leads_iff]

instance (graph : Graph) (first second : MethodId) :
    Decidable (graph.InOneComponent first second) :=
  inferInstanceAs (Decidable (_ ∧ _))

theorem reaches_iff :
    reaches (reachability graph) first second = true ↔
      first ∈ graph.ids ∧ graph.LeadsTo first second := by
  simp only [reaches, reachability, List.any_map, List.any_eq_true,
    Function.comp_apply, Bool.and_eq_true, beq_iff_eq, List.contains_iff_mem,
    Reach.mem_reached, List.mem_singleton, exists_eq_left, leads_iff,
    Graph.ids, List.mem_map]
  grind

theorem sameComponent_iff :
    sameComponent (reachability graph) first second = true ↔
      first ∈ graph.ids ∧ second ∈ graph.ids ∧
        graph.InOneComponent first second := by
  unfold sameComponent Graph.InOneComponent
  rw [Bool.and_eq_true, reaches_iff, reaches_iff]
  grind

theorem mem_layerSteps (hgraph : graph.WellFormed) :
    (source, target) ∈ layerSteps graph ↔
      target ∈ graph.ids ∧ ∃ callee, graph.Calls source callee ∧
        ¬graph.InOneComponent source callee ∧
          graph.InOneComponent callee target := by
  simp only [layerSteps, List.mem_flatMap]
  constructor
  · rintro ⟨link, hlink, hmem⟩
    have hends := hgraph.ends link hlink
    split at hmem
    · cases hmem
    · rename_i hacross
      obtain ⟨node, hnode, hsame⟩ := List.mem_map.mp hmem
      obtain ⟨rfl, rfl⟩ := Prod.mk.inj hsame
      obtain ⟨_, hnode⟩ := List.mem_filter.mp hnode
      rw [sameComponent_iff] at hacross hnode
      exact ⟨hnode.2.1, link.callee, hlink,
        fun hsame => hacross ⟨hends.1, hends.2, hsame⟩, hnode.2.2⟩
  · rintro ⟨htarget, callee, hlink, hacross, hsame⟩
    have hends := hgraph.ends _ hlink
    obtain ⟨node, hnode, rfl⟩ := List.mem_map.mp htarget
    refine ⟨_, hlink, ?_⟩
    rw [if_neg fun hone => hacross (sameComponent_iff.mp hone).2.2]
    refine List.mem_map.mpr ⟨node, List.mem_filter.mpr ⟨hnode, ?_⟩, rfl⟩
    exact sameComponent_iff.mpr ⟨hends.2, htarget, hsame⟩

inductive Climbs (steps : List (MethodId × MethodId)) : MethodId → Nat → Prop
  | rest (id : MethodId) : Climbs steps id 0
  | step {source target : MethodId} {count : Nat}
      (hclimbs : Climbs steps source count) (hstep : (source, target) ∈ steps) :
      Climbs steps target (count + 1)

theorem climbs_succ_iff {steps : List (MethodId × MethodId)} {count : Nat} :
    Climbs steps target (count + 1) ↔
      ∃ source, (source, target) ∈ steps ∧ Climbs steps source count := by
  constructor
  · intro hcount
    cases hcount with
    | step hclimbs hstep => exact ⟨_, hstep, hclimbs⟩
  · rintro ⟨source, hstep, hclimbs⟩
    exact .step hclimbs hstep

theorem le_foldl_max_iff {α : Type} {value : α → Nat} {entries : List α}
    {first bound : Nat} :
    bound ≤ entries.foldl (fun highest entry => max highest (value entry))
        first ↔
      bound ≤ first ∨ ∃ entry ∈ entries, bound ≤ value entry := by
  induction entries generalizing first with
  | nil => simp
  | cons entry rest ih =>
      have hmax : bound ≤ max first (value entry) ↔
          bound ≤ first ∨ bound ≤ value entry := by omega
      rw [List.foldl_cons, ih, hmax, or_assoc]
      simp only [List.mem_cons, exists_eq_or_imp]

theorem raiseRounds_succ (steps : List (MethodId × MethodId)) (rounds : Nat)
    (ranks : List Ranked) :
    raiseRounds steps (rounds + 1) ranks =
      raise steps (raiseRounds steps rounds ranks) := by
  induction rounds generalizing ranks with
  | zero => rfl
  | succ rounds ih => exact ih (raise steps ranks)

theorem methods_raise (steps : List (MethodId × MethodId))
    (ranks : List Ranked) :
    (raise steps ranks).map Ranked.method = ranks.map Ranked.method := by
  simp [raise]

theorem methods_raiseRounds (steps : List (MethodId × MethodId)) (rounds : Nat)
    (ranks : List Ranked) :
    (raiseRounds steps rounds ranks).map Ranked.method =
      ranks.map Ranked.method := by
  induction rounds with
  | zero => rfl
  | succ rounds ih => rw [raiseRounds_succ, methods_raise, ih]

theorem rankOf_raise {steps : List (MethodId × MethodId)} {ranks : List Ranked}
    (hid : ∃ ranked ∈ ranks, ranked.method.id = id) :
    rankOf (raise steps ranks) id =
      (steps.filter fun (_, target) => target == id).foldl
        (fun highest (source, _) =>
          max highest (rankOf ranks source + 1)) 0 := by
  cases hfind : ranks.find? fun ranked => ranked.method.id == id with
  | none =>
      obtain ⟨ranked, hranked, hsame⟩ := hid
      simpa [hsame] using List.find?_eq_none.mp hfind ranked hranked
  | some found =>
      have hsame : found.method.id = id := by simpa using List.find?_some hfind
      rw [rankOf, raise, List.find?_map]
      -- The search by identity does not see the ranks.
      change ((Option.map _ (ranks.find? fun ranked =>
        ranked.method.id == id)).map Ranked.rank).getD 0 = _
      rw [hfind, ← hsame]
      rfl

/-- After some rounds a rank counts the steps that lead up to its method, as far
as there have been rounds. -/
theorem le_rankOf_raiseRounds {steps : List (MethodId × MethodId)}
    {start : List Ranked} (hzero : ∀ ranked ∈ start, ranked.rank = 0)
    (hsources : ∀ source target, (source, target) ∈ steps →
      ∃ ranked ∈ start, ranked.method.id = source)
    {rounds bound : Nat} (hid : ∃ ranked ∈ start, ranked.method.id = id) :
    bound ≤ rankOf (raiseRounds steps rounds start) id ↔
      bound ≤ rounds ∧ Climbs steps id bound := by
  induction rounds generalizing id bound with
  | zero =>
      have hrank : rankOf start id = 0 := by
        unfold rankOf
        cases hfind : start.find? fun ranked => ranked.method.id == id with
        | none => rfl
        | some found => exact hzero found (List.mem_of_find?_eq_some hfind)
      rw [raiseRounds, hrank]
      refine ⟨fun hbound => ?_, And.left⟩
      rw [Nat.le_zero.mp hbound]
      exact ⟨Nat.le_refl 0, .rest id⟩
  | succ rounds ih =>
      have hlisted : ∃ ranked ∈ raiseRounds steps rounds start,
          ranked.method.id = id := by
        obtain ⟨ranked, hranked, rfl⟩ := hid
        have hmethod := List.mem_map_of_mem (f := Ranked.method) hranked
        rw [← methods_raiseRounds steps rounds] at hmethod
        obtain ⟨raised, hraised, hsame⟩ := List.mem_map.mp hmethod
        exact ⟨raised, hraised, congrArg Method.id hsame⟩
      rw [raiseRounds_succ, rankOf_raise hlisted, le_foldl_max_iff]
      cases bound with
      | zero => simp [Climbs.rest]
      | succ bound =>
          rw [climbs_succ_iff]
          simp only [List.mem_filter, beq_iff_eq, Prod.exists]
          constructor
          · rintro (hnone | ⟨source, _, ⟨hstep, rfl⟩, hbound⟩)
            · exact absurd hnone (Nat.not_succ_le_zero bound)
            · have hsource := (ih (hsources _ _ hstep)).mp
                (Nat.le_of_succ_le_succ hbound)
              exact ⟨Nat.succ_le_succ hsource.1, source, hstep, hsource.2⟩
          · rintro ⟨hrounds, source, hstep, hclimbs⟩
            have hsource := (ih (hsources _ _ hstep)).mpr
              ⟨Nat.le_of_succ_le_succ hrounds, hclimbs⟩
            exact Or.inr ⟨source, id, ⟨hstep, rfl⟩, Nat.succ_le_succ hsource⟩

/-! In a graph each step leads to a method that more methods lead to, so that
there are enough rounds for all steps. -/

section WellFormed

variable (hgraph : graph.WellFormed)
include hgraph

def leadingTo (graph : Graph) (id : MethodId) : List GraphNode :=
  graph.nodes.filter fun node =>
    reaches (reachability graph) node.method.id id

theorem length_leadingTo_lt (hstep : (source, target) ∈ layerSteps graph) :
    (leadingTo graph source).length < (leadingTo graph target).length := by
  obtain ⟨htarget, callee, hcall, hacross, hsame⟩ :=
    (mem_layerSteps hgraph).mp hstep
  have hleads : graph.LeadsTo source target := hsame.1.head hcall
  obtain ⟨node, hnode, rfl⟩ := List.mem_map.mp htarget
  refine Reach.length_filter_lt hnode ?_ ?_ ?_
  · intro other _ hother
    rw [reaches_iff] at hother ⊢
    exact hother.imp_right fun hearlier => hearlier.trans hleads
  · exact reaches_iff.mpr ⟨htarget, .refl⟩
  · -- A way back would make one component of both ends of the call.
    rw [← Bool.not_eq_true, reaches_iff]
    rintro ⟨_, hback⟩
    exact hacross ⟨Relation.ReflTransGen.single hcall, hsame.1.trans hback⟩

theorem Climbs.lt_length_leadingTo {count : Nat} (hid : id ∈ graph.ids)
    (hclimbs : Climbs (layerSteps graph) id count) :
    count < (leadingTo graph id).length := by
  induction hclimbs with
  | rest id =>
      obtain ⟨node, hnode, rfl⟩ := List.mem_map.mp hid
      exact List.length_pos_of_mem
        (List.mem_filter.mpr ⟨hnode, reaches_iff.mpr ⟨hid, .refl⟩⟩)
  | step _ hstep ih =>
      obtain ⟨_, callee, hcall, _⟩ := (mem_layerSteps hgraph).mp hstep
      exact Nat.lt_of_le_of_lt (ih (hgraph.ends _ hcall).1)
        (length_leadingTo_lt hgraph hstep)

theorem le_rankOf_iff {bound : Nat} (hid : id ∈ graph.ids) :
    bound ≤ rankOf (ranks graph) id ↔ Climbs (layerSteps graph) id bound := by
  have hlisted : ∀ id ∈ graph.ids, ∃ ranked ∈ graph.nodes.map
      (fun node => (⟨node.method, 0⟩ : Ranked)), ranked.method.id = id := by
    intro id hid
    obtain ⟨node, hnode, rfl⟩ := List.mem_map.mp hid
    exact ⟨_, List.mem_map_of_mem hnode, rfl⟩
  have hsources : ∀ source target, (source, target) ∈ layerSteps graph →
      source ∈ graph.ids := by
    intro source target hstep
    obtain ⟨_, callee, hcall, _⟩ := (mem_layerSteps hgraph).mp hstep
    exact (hgraph.ends _ hcall).1
  rw [ranks, le_rankOf_raiseRounds (by simp)
    (fun source target hstep => hlisted _ (hsources source target hstep))
    (hlisted id hid)]
  refine and_iff_right_of_imp fun hclimbs => ?_
  have hlt := hclimbs.lt_length_leadingTo hgraph hid
  exact Nat.le_of_lt (Nat.lt_of_lt_of_le hlt (List.length_filter_le _ _))

theorem Climbs.within_component {count : Nat} (hsecond : second ∈ graph.ids)
    (hsame : graph.InOneComponent first second)
    (hclimbs : Climbs (layerSteps graph) first count) :
    Climbs (layerSteps graph) second count := by
  cases hclimbs with
  | rest => exact .rest second
  | step hsource hstep =>
      obtain ⟨_, callee, hcall, hacross, hfirst⟩ :=
        (mem_layerSteps hgraph).mp hstep
      exact .step hsource ((mem_layerSteps hgraph).mpr
        ⟨hsecond, callee, hcall, hacross, hfirst.trans hsame⟩)

theorem climbs_iff_path {count : Nat} (hid : id ∈ graph.ids) :
    Climbs (layerSteps graph) id count ↔
      ∃ start, graph.Path start id count := by
  constructor
  · intro hclimbs
    induction hclimbs with
    | rest id => exact ⟨id, .start id hid⟩
    | step _ hstep ih =>
        obtain ⟨_, callee, hcall, hacross, hsame⟩ :=
          (mem_layerSteps hgraph).mp hstep
        obtain ⟨start, hpath⟩ := ih (hgraph.ends _ hcall).1
        exact ⟨start, (hpath.across hcall hacross).led_on hsame⟩
  · rintro ⟨start, hpath⟩
    induction hpath with
    | start => exact .rest _
    | inside _ hcall hsame ih =>
        exact (ih (hgraph.ends _ hcall).1).within_component hgraph hid hsame
    | across _ hcall hacross ih =>
        exact .step (ih (hgraph.ends _ hcall).1) ((mem_layerSteps hgraph).mpr
          ⟨hid, _, hcall, hacross, .refl _⟩)

end WellFormed

/-- Ranks that layer a graph: each is the largest number of calls between
components on a path that ends at the method. -/
structure IsLayering (graph : Graph) (rank : MethodId → Nat) : Prop where
  longest : ∀ id ∈ graph.ids,
    IsGreatest {count | ∃ start, graph.Path start id count} (rank id)
  shared : ∀ first ∈ graph.ids, ∀ second, graph.InOneComponent first second →
    rank first = rank second
  rises : ∀ caller callee, graph.Calls caller callee →
    ¬graph.InOneComponent caller callee → rank caller < rank callee
  lowest : ∀ id ∈ graph.ids, rank id = 0 ↔
    ∀ caller callee, graph.Calls caller callee →
      graph.InOneComponent callee id → graph.InOneComponent caller callee

theorem Graph.LeadsTo.mem_ids (hgraph : graph.WellFormed)
    (hfirst : first ∈ graph.ids) (hleads : graph.LeadsTo first second) :
    second ∈ graph.ids := by
  induction hleads with
  | refl => exact hfirst
  | tail _ hcall _ => exact (hgraph.ends _ hcall).2

theorem ranks_isLayering (hgraph : graph.WellFormed) :
    IsLayering graph (rankOf (ranks graph)) where
  longest id hid := by
    constructor
    · exact (climbs_iff_path hgraph hid).mp
        ((le_rankOf_iff hgraph hid).mp (Nat.le_refl _))
    · intro count hpath
      exact (le_rankOf_iff hgraph hid).mpr
        ((climbs_iff_path hgraph hid).mpr hpath)
  shared first hfirst second hsame := by
    have hsecond := Graph.LeadsTo.mem_ids hgraph hfirst hsame.1
    have hlower := (le_rankOf_iff hgraph hfirst).mp (Nat.le_refl _)
    have hupper := (le_rankOf_iff hgraph hsecond).mp (Nat.le_refl _)
    apply Nat.le_antisymm
    · exact (le_rankOf_iff hgraph hsecond).mpr
        (hlower.within_component hgraph hsecond hsame)
    · exact (le_rankOf_iff hgraph hfirst).mpr
        (hupper.within_component hgraph hfirst hsame.symm)
  rises caller callee hcall hacross := by
    have hends := hgraph.ends _ hcall
    have hcaller := (le_rankOf_iff hgraph hends.1).mp (Nat.le_refl _)
    exact (le_rankOf_iff hgraph hends.2).mpr (.step hcaller
      ((mem_layerSteps hgraph).mpr ⟨hends.2, _, hcall, hacross, .refl _⟩))
  lowest id hid := by
    have hzero : rankOf (ranks graph) id = 0 ↔
        ¬0 + 1 ≤ rankOf (ranks graph) id := by omega
    rw [hzero, le_rankOf_iff hgraph hid, climbs_succ_iff]
    simp only [mem_layerSteps hgraph, Climbs.rest, and_true, hid, true_and]
    constructor
    · intro hnone caller callee hcall hsame
      exact Classical.byContradiction fun hacross =>
        hnone ⟨caller, callee, hcall, hacross, hsame⟩
    · rintro hall ⟨caller, callee, hcall, hacross, hsame⟩
      exact hacross (hall caller callee hcall hsame)

/-! The components of a graph in reverse topological order, and one pass over
them from the last one back.  A rank that was not assigned yet reads as zero. -/

structure IsComponent (graph : Graph) (component : List MethodId) : Prop where
  inside : ∀ id ∈ component, id ∈ graph.ids
  full : ∀ id ∈ component, ∀ other ∈ graph.ids,
    other ∈ component ↔ graph.InOneComponent id other

def CallsNoneOf (graph : Graph) (callers callees : List MethodId) : Prop :=
  ∀ caller ∈ callers, ∀ callee ∈ callees, ¬graph.Calls caller callee

instance (graph : Graph) (callers callees : List MethodId) :
    Decidable (CallsNoneOf graph callers callees) :=
  inferInstanceAs (Decidable (∀ _ ∈ _, ∀ _ ∈ _, ¬_))

structure ListsComponents (graph : Graph)
    (components : List (List MethodId)) : Prop where
  complete : ∀ id ∈ graph.ids, ∃ component ∈ components, id ∈ component
  component : ∀ component ∈ components, IsComponent graph component
  ordered : components.Pairwise (CallsNoneOf graph)

def outerCallers (graph : Graph) (component : List MethodId) : List MethodId :=
  ((component.flatMap graph.callers).map fun node => node.method.id).filter
    fun caller => !component.contains caller

def sweep (graph : Graph) : List (List MethodId) → MethodId → Nat
  | [], _ => 0
  | component :: rest, id =>
      if component.contains id then
        (outerCallers graph component).foldl
          (fun highest caller => max highest (sweep graph rest caller + 1)) 0
      else sweep graph rest id

section Sweep

variable (hgraph : graph.WellFormed)
include hgraph

theorem exists_mem_callers_iff :
    (∃ node ∈ graph.callers second, node.method.id = first) ↔
      graph.Calls first second := by
  simp only [Graph.callers, List.mem_filterMap, List.mem_filter,
    List.mem_reverse, beq_iff_eq]
  constructor
  · rintro ⟨node, ⟨link, ⟨hlink, rfl⟩, hnode⟩, rfl⟩
    have hsame : node.method.id = link.caller := by
      simpa using List.find?_some hnode
    rw [hsame]
    exact hlink
  · intro hcall
    obtain ⟨node, hnode, hid⟩ := List.mem_map.mp (hgraph.ends _ hcall).1
    cases hfind : graph.node? first with
    | none => simpa [hid] using List.find?_eq_none.mp hfind node hnode
    | some found =>
        exact ⟨found, ⟨_, ⟨hcall, rfl⟩, hfind⟩,
          by simpa using List.find?_some hfind⟩

theorem mem_outerCallers {component : List MethodId} :
    source ∈ outerCallers graph component ↔
      source ∉ component ∧ ∃ callee ∈ component, graph.Calls source callee := by
  simp only [← exists_mem_callers_iff hgraph, outerCallers, List.mem_filter,
    List.mem_map, List.mem_flatMap, Bool.not_eq_true', List.contains_eq_mem,
    decide_eq_false_iff_not]
  grind

theorem mem_outerCallers_iff {component : List MethodId}
    (hcomponent : IsComponent graph component) (hid : id ∈ component) :
    source ∈ outerCallers graph component ↔
      (source, id) ∈ layerSteps graph := by
  rw [mem_outerCallers hgraph, mem_layerSteps hgraph]
  have hinside := hcomponent.inside id hid
  constructor
  · rintro ⟨houter, callee, hcallee, hcall⟩
    have hends := hgraph.ends _ hcall
    refine ⟨hinside, callee, hcall, fun hsame => houter ?_, ?_⟩
    · exact (hcomponent.full callee hcallee source hends.1).mpr hsame.symm
    · exact (hcomponent.full callee hcallee id hinside).mp hid
  · rintro ⟨_, callee, hcall, hacross, hsame⟩
    have hends := hgraph.ends _ hcall
    have hcallee := (hcomponent.full id hid callee hends.2).mpr hsame.symm
    refine ⟨fun hinner => hacross ?_, callee, hcallee, hcall⟩
    exact ((hcomponent.full callee hcallee source hends.1).mp hinner).symm

/-- The pass over the last components is right: what calls into them is among
them. -/
theorem le_sweep_iff {components : List (List MethodId)}
    (hcomponent : ∀ component ∈ components, IsComponent graph component)
    (hordered : components.Pairwise (CallsNoneOf graph))
    (hclosed : ∀ component ∈ components, ∀ callee ∈ component, ∀ caller,
      graph.Calls caller callee → ∃ other ∈ components, caller ∈ other)
    (hid : ∃ component ∈ components, id ∈ component) {bound : Nat} :
    bound ≤ sweep graph components id ↔
      Climbs (layerSteps graph) id bound := by
  induction components generalizing id bound with
  | nil => exact absurd hid nofun
  | cons component rest ih =>
      have hhead := hcomponent component List.mem_cons_self
      obtain ⟨hlater, hordered⟩ := List.pairwise_cons.mp hordered
      have hrest : ∀ other ∈ rest, ∀ callee ∈ other, ∀ caller,
          graph.Calls caller callee → ∃ first ∈ rest, caller ∈ first := by
        intro other hother callee hcallee caller hcall
        obtain ⟨first, hfirst, hcaller⟩ := hclosed other
          (List.mem_cons_of_mem component hother) callee hcallee caller hcall
        rcases List.mem_cons.mp hfirst with rfl | hfirst
        · exact absurd hcall (hlater other hother caller hcaller callee hcallee)
        · exact ⟨first, hfirst, hcaller⟩
      have ih : ∀ {id}, (∃ other ∈ rest, id ∈ other) → ∀ {bound},
          bound ≤ sweep graph rest id ↔ Climbs (layerSteps graph) id bound :=
        ih (fun other hother =>
          hcomponent other (List.mem_cons_of_mem component hother))
          hordered hrest
      by_cases hmem : id ∈ component
      · rw [sweep, if_pos (by simpa using hmem), le_foldl_max_iff]
        cases bound with
        | zero => simp [Climbs.rest]
        | succ bound =>
            rw [climbs_succ_iff]
            rw [or_iff_right (Nat.not_succ_le_zero bound)]
            simp only [← mem_outerCallers_iff hgraph hhead hmem,
              Nat.add_one_le_add_one_iff]
            refine exists_congr fun caller => and_congr_right fun hcaller => ?_
            obtain ⟨houter, callee, hcallee, hcall⟩ :=
              (mem_outerCallers hgraph).mp hcaller
            obtain ⟨other, hother, hamong⟩ :=
              hclosed component List.mem_cons_self callee hcallee caller hcall
            rcases List.mem_cons.mp hother with rfl | hother
            · exact absurd hamong houter
            · exact ih ⟨other, hother, hamong⟩
      · rw [sweep, if_neg (by simpa using hmem)]
        obtain ⟨other, hother, hid⟩ := hid
        rcases List.mem_cons.mp hother with rfl | hother
        · exact absurd hid hmem
        · exact ih ⟨other, hother, hid⟩

theorem sweep_eq_rankOf {components : List (List MethodId)}
    (hcomponents : ListsComponents graph components) (hid : id ∈ graph.ids) :
    sweep graph components id = rankOf (ranks graph) id := by
  have hclosed : ∀ component ∈ components, ∀ callee ∈ component, ∀ caller,
      graph.Calls caller callee → ∃ other ∈ components, caller ∈ other :=
    fun _ _ _ _ _ hcall => hcomponents.complete _ (hgraph.ends _ hcall).1
  have hsweep := @le_sweep_iff _ id hgraph components hcomponents.component
    hcomponents.ordered hclosed (hcomponents.complete id hid)
  apply Nat.le_antisymm
  · exact (le_rankOf_iff hgraph hid).mpr (hsweep.mp (Nat.le_refl _))
  · exact hsweep.mpr ((le_rankOf_iff hgraph hid).mp (Nat.le_refl _))

end Sweep

def componentOf (graph : Graph) (id : MethodId) : List MethodId :=
  graph.ids.filter fun other => graph.InOneComponent id other

theorem mem_componentOf : target ∈ componentOf graph id ↔
    target ∈ graph.ids ∧ graph.InOneComponent id target := by
  simp [componentOf]

theorem componentOf_congr (hsame : graph.InOneComponent first second) :
    componentOf graph first = componentOf graph second := by
  refine List.filter_congr fun other _ => decide_eq_decide.mpr ?_
  exact ⟨hsame.symm.trans, hsame.trans⟩

def ranksHigher (graph : Graph) (first second : MethodId) : Bool :=
  rankOf (ranks graph) second ≤ rankOf (ranks graph) first

def componentsByRank (graph : Graph) : List (List MethodId) :=
  ((graph.ids.mergeSort (ranksHigher graph)).map (componentOf graph)).dedup

theorem mem_componentsByRank {component : List MethodId} :
    component ∈ componentsByRank graph ↔
      ∃ id ∈ graph.ids, componentOf graph id = component := by
  simp [componentsByRank]

theorem callsNoneOf_of_ranksHigher (hgraph : graph.WellFormed)
    (hrank : ranksHigher graph first second = true)
    (hne : componentOf graph first ≠ componentOf graph second) :
    CallsNoneOf graph (componentOf graph first) (componentOf graph second) := by
  intro source hsource target htarget hcall
  obtain ⟨hsource, hfirst⟩ := mem_componentOf.mp hsource
  obtain ⟨htarget, hsecond⟩ := mem_componentOf.mp htarget
  have hranks := ranks_isLayering hgraph
  have hrises := hranks.rises source target hcall fun hsame =>
    hne (componentOf_congr ((hfirst.trans hsame).trans hsecond.symm))
  rw [hranks.shared source hsource first hfirst.symm,
    hranks.shared target htarget second hsecond.symm] at hrises
  exact Nat.not_le_of_lt hrises (of_decide_eq_true hrank)

theorem componentsByRank_areListed (hgraph : graph.WellFormed) :
    ListsComponents graph (componentsByRank graph) where
  complete id hid := ⟨_, mem_componentsByRank.mpr ⟨id, hid, rfl⟩,
    mem_componentOf.mpr ⟨hid, .refl id⟩⟩
  component component hcomponent := by
    obtain ⟨first, _, rfl⟩ := mem_componentsByRank.mp hcomponent
    refine ⟨fun id hid => (mem_componentOf.mp hid).1, ?_⟩
    intro id hid other hother
    have hsame := (mem_componentOf.mp hid).2
    rw [mem_componentOf, and_iff_right hother]
    exact ⟨hsame.symm.trans, hsame.trans⟩
  ordered := by
    have hsorted := @List.pairwise_mergeSort _ (ranksHigher graph)
      (by grind [ranksHigher]) (by grind [ranksHigher]) graph.ids
    have hcalls : (graph.ids.mergeSort _).map (componentOf graph) |>.Pairwise
        fun earlier later => earlier ≠ later →
          CallsNoneOf graph earlier later :=
      List.pairwise_map.mpr (hsorted.imp (callsNoneOf_of_ranksHigher hgraph))
    exact ((hcalls.sublist (List.dedup_sublist _)).and
      (List.nodup_dedup _)).imp fun hboth => hboth.1 hboth.2

theorem methods_ranks (graph : Graph) :
    (ranks graph).map Ranked.method = graph.methods := by
  rw [ranks, methods_raiseRounds, List.map_map]
  rfl

/-- Every method of a graph has a rank, and the ranks are those of the longest
chains.  The components can be listed in reverse topological order, and one pass
back over any such list assigns the same ranks. -/
theorem ranks_areLongest (changes : List Graph.Change) :
    (ranks (.built changes)).map Ranked.method = (Graph.built changes).methods ∧
      IsLayering (.built changes) (rankOf (ranks (.built changes))) ∧
      (∃ components, ListsComponents (.built changes) components) ∧
      ∀ components, ListsComponents (.built changes) components →
        ∀ id ∈ (Graph.built changes).ids,
          sweep (.built changes) components id =
            rankOf (ranks (.built changes)) id := by
  have hgraph := Graph.wellFormed_built changes
  refine ⟨methods_ranks _, ranks_isLayering hgraph,
    ⟨_, componentsByRank_areListed hgraph⟩, ?_⟩
  intro components hcomponents id hid
  exact sweep_eq_rankOf hgraph hcomponents hid

end LayeredLayout

namespace Sample

def layered (word : UInt64) (name : String) : Method :=
  ⟨⟨word⟩, ⟨"L"⟩, "L", name, []⟩

def ringedCalls : List Graph.Change :=
  [.node (layered 5 "e"), .edge ⟨layered 3 "c", layered 2 "b"⟩,
    .edge ⟨layered 1 "a", layered 4 "d"⟩, .edge ⟨layered 4 "d", layered 4 "d"⟩,
    .edge ⟨layered 1 "a", layered 2 "b"⟩, .edge ⟨layered 2 "b", layered 3 "c"⟩,
    .edge ⟨layered 3 "c", layered 4 "d"⟩]

def ringedComponents : List (List MethodId) :=
  [[⟨5⟩], [⟨4⟩], [⟨2⟩, ⟨3⟩], [⟨1⟩]]

theorem ringedComponents_areListed :
    LayeredLayout.ListsComponents (.built ringedCalls) ringedComponents where
  complete := by decide
  component component hcomponent := by
    constructor
    · revert component
      decide
    · revert component
      decide
  ordered := by decide

theorem ringedCalls_areLongest :
    LayeredLayout.ListsComponents (.built ringedCalls) ringedComponents ∧
      (∀ id ∈ (Graph.built ringedCalls).ids,
        LayeredLayout.sweep (.built ringedCalls) ringedComponents id =
          LayeredLayout.rankOf (LayeredLayout.ranks (.built ringedCalls)) id) ∧
      (LayeredLayout.ranks (.built ringedCalls)).map (fun ranked =>
        (ranked.method.name, ranked.rank)) =
          [("e", 0), ("c", 1), ("b", 1), ("a", 0), ("d", 2)] := by
  have hlongest := LayeredLayout.ranks_areLongest ringedCalls
  exact ⟨ringedComponents_areListed,
    hlongest.2.2.2 ringedComponents ringedComponents_areListed, by decide⟩

end Sample

end CallGraph
