import CallGraph.Proofs.SymbolTable
import CallGraph.Resolution

namespace CallGraph

open Keyed (key)

namespace Resolution

/-! What a call may reach does not depend on the order in which the units were
read, the order of the methods of one identity apart. -/

variable {passes : Method → Bool} {found found' : List Method}
  {symbols symbols' : SymbolTable} {caller callee : Method} {edge : Edge}

theorem narrowed_alike (passes : Method → Bool)
    (halike : AlikeBy Method.id found found') :
    AlikeBy Method.id (narrowed passes found) (narrowed passes found') := by
  unfold narrowed
  rw [(halike.filter passes).isEmpty_eq]
  split
  · exact halike
  · exact halike.filter passes

theorem implicitTargets_alike (caller : Method)
    (halike : AlikeBy Method.id found found') :
    AlikeBy Method.id (implicitTargets caller found)
      (implicitTargets caller found') := by
  unfold implicitTargets
  dsimp only
  rw [(halike.filter (isInSameType caller)).isEmpty_eq]
  split
  · exact narrowed_alike _ halike
  · exact halike.filter _

theorem namedTargets_alike (name : String)
    (halike : AlikeBy Method.id found found') :
    AlikeBy Method.id (namedTargets name found)
      (namedTargets name found') := by
  unfold namedTargets
  split
  · exact narrowed_alike _ halike
  · exact halike

section Alike

variable (halike : ∀ name,
  AlikeBy Method.id (symbols.lookup name) (symbols'.lookup name))
include halike

theorem targets_alike (caller : Method) (site : CallSite) :
    AlikeBy Method.id (targets symbols caller site)
      (targets symbols' caller site) := by
  have hfound := (halike site.name).filter fun method =>
    method.params.length == site.arity
  unfold targets
  dsimp only
  cases site.receiver with
  | construct => exact ((halike _).filter _).filter _
  | this => exact narrowed_alike _ hfound
  | implicit => exact implicitTargets_alike caller hfound
  | super => exact hfound.filter _
  | named name => exact namedTargets_alike name hfound
  | expression => exact hfound

theorem edgesOfSite_alike (caller : Method) (site : CallSite) :
    AlikeBy key (edgesOfSite symbols caller site)
      (edgesOfSite symbols' caller site) := by
  refine AlikeBy.map ?_
  refine (targets_alike halike caller site).refine ?_
  intro callee _ callee' _ hkey
  have hword := congrArg EdgeKey.callee hkey
  exact congrArg MethodId.mk hword

theorem edgesOf_alike (text : SourceText) (declaration : Declaration) :
    AlikeBy key (edgesOf symbols text declaration)
      (edgesOf symbols' text declaration) := by
  unfold edgesOf
  split
  · exact AlikeBy.refl key []
  · exact AlikeBy.flatMap fun site _ =>
      edgesOfSite_alike halike declaration.method site

end Alike

theorem mem_candidates_of_mem_targets {site : CallSite}
    (hcallee : callee ∈ targets symbols caller site) :
    ∃ name, callee ∈ candidates symbols name site.arity := by
  unfold targets at hcallee
  dsimp only at hcallee
  split at hcallee
  · exact ⟨_, (List.mem_filter.mp hcallee).1⟩
  · exact ⟨_, mem_of_mem_narrowed hcallee⟩
  · unfold implicitTargets at hcallee
    dsimp only at hcallee
    split at hcallee
    · exact ⟨_, mem_of_mem_narrowed hcallee⟩
    · exact ⟨_, (List.mem_filter.mp hcallee).1⟩
  · exact ⟨_, (List.mem_filter.mp hcallee).1⟩
  · unfold namedTargets at hcallee
    split at hcallee
    · exact ⟨_, mem_of_mem_narrowed hcallee⟩
    · exact ⟨_, hcallee⟩
  · exact ⟨_, hcallee⟩

theorem exists_site_of_mem_edgesOf {text : SourceText}
    {declaration : Declaration}
    (hedge : edge ∈ edgesOf symbols text declaration) :
    edge.caller = declaration.method ∧
      ∃ body, declaration.body = some body ∧
        ∃ site ∈ CallSite.within text body,
          edge.callee ∈ targets symbols declaration.method site := by
  unfold edgesOf at hedge
  split at hedge
  · cases hedge
  · rename_i body hbody
    obtain ⟨site, hwithin, hsite⟩ := List.mem_flatMap.mp hedge
    obtain ⟨callee, hcallee, rfl⟩ := List.mem_map.mp hsite
    exact ⟨rfl, body, hbody, site, hwithin, hcallee⟩

theorem ends_of_mem_edgesOf {text : SourceText} {declaration : Declaration}
    (hedge : edge ∈ edgesOf symbols text declaration) :
    edge.caller = declaration.method ∧
      ∃ name, edge.callee ∈ symbols.lookup name := by
  obtain ⟨hcaller, _, _, _, _, hcallee⟩ := exists_site_of_mem_edgesOf hedge
  obtain ⟨name, hfound⟩ := mem_candidates_of_mem_targets hcallee
  exact ⟨hcaller, name, (List.mem_filter.mp hfound).1⟩

end Resolution

end CallGraph
