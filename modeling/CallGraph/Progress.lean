namespace CallGraph

structure Progress where
  done : Nat
  total : Nat
  deriving DecidableEq, Repr, Inhabited

namespace Progress

def none : Progress := ⟨0, 0⟩

def reset (total : Nat) : Progress := ⟨0, total⟩

def count (progress : Progress) : Progress :=
  if progress.done < progress.total then
    { progress with done := progress.done + 1 }
  else progress

def countTimes : Nat → Progress → Progress
  | 0, progress => progress
  | times + 1, progress => countTimes times progress.count

end Progress

end CallGraph
