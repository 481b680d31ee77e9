namespace CallGraph.Reach

/-! What can be reached from a start along directed links.  Every round that
finds something new uses up a link whose target was not seen before, so as many
rounds as there are links are enough. -/

variable {κ : Type} [DecidableEq κ]

def fresh (links : List (κ × κ)) (seen : List κ) : List κ :=
  ((links.filter fun (source, target) =>
    seen.contains source && !seen.contains target).map Prod.snd).eraseDups

def within (links : List (κ × κ)) : Nat → List κ → List κ
  | 0, seen => seen
  | rounds + 1, seen =>
      match fresh links seen with
      | [] => seen
      | head :: rest => within links rounds (seen ++ head :: rest)

def reached (links : List (κ × κ)) (start : List κ) : List κ :=
  within links links.length start

end CallGraph.Reach
