import CallGraph.Proofs.Snapshot.Binary
import Mathlib.Data.List.Chain

namespace CallGraph

/-! A store that is shared.  Every snapshot lies in a cell of its own; whoever
takes the current one keeps the number of its cell. -/

/-- What is done with the tokens and the store, one at a time. -/
inductive Access (τ : Type) where
  | fire (token : τ)
  | attempt (token : τ) (next : Snapshot)

structure SharedStore (τ : Type) where
  cells : List Snapshot
  current : Nat
  inside : current < cells.length
  fired : List τ

namespace SharedStore

variable {τ : Type}

def snapshot (shared : SharedStore τ) : Snapshot :=
  shared.cells.get ⟨shared.current, shared.inside⟩

def read (shared : SharedStore τ) (cell : Nat) : Option Snapshot :=
  shared.cells[cell]?

/-- A snapshot that was just loaded, and no token fired. -/
def startingFrom (snapshot : Snapshot) : SharedStore τ :=
  ⟨[snapshot], 0, Nat.zero_lt_one, []⟩

variable [DecidableEq τ]

def step (shared : SharedStore τ) : Access τ → SharedStore τ
  | .fire token => { shared with fired := token :: shared.fired }
  | .attempt token next =>
      match (SnapshotStore.mk shared.snapshot).commit? next
          (shared.fired.contains token) with
      | none => shared
      | some store =>
          { shared with
            cells := shared.cells ++ [store.current]
            current := shared.cells.length
            inside := by simp }

def run (shared : SharedStore τ) (accesses : List (Access τ)) : SharedStore τ :=
  accesses.foldl step shared

variable {shared start : SharedStore τ} {token : τ} {next : Snapshot}
  {accesses before : List (Access τ)}

theorem run_append (after : List (Access τ)) :
    start.run (before ++ after) = (start.run before).run after :=
  List.foldl_append

theorem step_refused (hfired : token ∈ shared.fired) :
    shared.step (.attempt token next) = shared := by
  simp [step, SnapshotStore.commit?, hfired]

theorem cells_step_accepted (hopen : token ∉ shared.fired) :
    (shared.step (.attempt token next)).cells =
      shared.cells ++ [next.succeeding shared.snapshot] := by
  simp [step, SnapshotStore.commit?, hopen]

theorem snapshot_step_accepted (hopen : token ∉ shared.fired) :
    (shared.step (.attempt token next)).snapshot =
      next.succeeding shared.snapshot := by
  simp [step, SnapshotStore.commit?, hopen, snapshot]

theorem fired_step_attempt :
    (shared.step (.attempt token next)).fired = shared.fired := by
  unfold step
  dsimp only
  split <;> rfl

theorem mem_fired_run :
    token ∈ (start.run before).fired ↔
      token ∈ start.fired ∨ .fire token ∈ before := by
  induction before generalizing start with
  | nil => simp [run]
  | cons access rest ih =>
      change token ∈ ((start.step access).run rest).fired ↔ _
      rw [ih]
      cases access with
      | fire other => simp [step, or_left_comm, or_assoc]
      | attempt other next => simp [fired_step_attempt]

def accepted : List τ → List (Access τ) → List Snapshot
  | _, [] => []
  | fired, .fire token :: rest => accepted (token :: fired) rest
  | fired, .attempt token next :: rest =>
      if token ∈ fired then accepted fired rest
      else next :: accepted fired rest

end SharedStore

/-- The snapshots numbered on from a generation. -/
def Snapshot.countedFrom : UInt64 → List Snapshot → List Snapshot
  | _, [] => []
  | generation, next :: rest =>
      { next with generation := generation + 1 } ::
        countedFrom (generation + 1) rest

namespace SharedStore

open Snapshot (countedFrom)

variable {τ : Type} [DecidableEq τ] {start : SharedStore τ} {token : τ}
  {next : Snapshot} {before : List (Access τ)}

theorem cells_run (accesses : List (Access τ)) :
    (start.run accesses).cells = start.cells ++
      countedFrom start.snapshot.generation
        (accepted start.fired accesses) := by
  induction accesses generalizing start with
  | nil => exact (List.append_nil _).symm
  | cons access rest ih =>
      change ((start.step access).run rest).cells = _
      rw [ih]
      cases access with
      | fire token => rfl
      | attempt token next =>
          by_cases hfired : token ∈ start.fired
          · rw [step_refused hfired, accepted, if_pos hfired]
          · rw [cells_step_accepted hfired, snapshot_step_accepted hfired,
              fired_step_attempt, accepted, if_neg hfired, List.append_assoc]
            rfl

theorem snapshot_run (accesses : List (Access τ)) :
    (start.run accesses).snapshot =
      (start.snapshot :: countedFrom start.snapshot.generation
        (accepted start.fired accesses)).getLast (List.cons_ne_nil _ _) := by
  induction accesses generalizing start with
  | nil => rfl
  | cons access rest ih =>
      change ((start.step access).run rest).snapshot = _
      rw [ih]
      cases access with
      | fire token => rfl
      | attempt token next =>
          by_cases hfired : token ∈ start.fired
          · simp only [step_refused hfired, accepted, if_pos hfired]
          · simp only [snapshot_step_accepted hfired, fired_step_attempt,
              accepted, if_neg hfired]
            rfl

/-- Cells are never written again. -/
theorem read_run {cell : Nat} {snapshot : Snapshot}
    (hread : start.read cell = some snapshot) (accesses : List (Access τ)) :
    (start.run accesses).read cell = some snapshot := by
  unfold read at hread ⊢
  obtain ⟨hcell, _⟩ := List.getElem?_eq_some_iff.mp hread
  rw [cells_run, List.getElem?_append_left hcell]
  exact hread

end SharedStore

namespace Snapshot

theorem toNat_succ_iff (generation : UInt64) :
    (generation + 1).toNat = generation.toNat + 1 ↔
      generation.toNat + 1 < UInt64.size := by
  constructor
  · intro hcounted
    rw [← hcounted]
    exact (generation + 1).toNat_lt_size
  · intro hfits
    exact (UInt64.toNat_add generation 1).trans (Nat.mod_eq_of_lt hfits)

theorem lt_succ_iff (generation : UInt64) :
    generation < generation + 1 ↔ generation.toNat + 1 < UInt64.size := by
  rw [UInt64.lt_iff_toNat_lt]
  constructor
  · intro hbelow
    have hlater := (generation + 1).toNat_lt_size
    exact Nat.lt_of_le_of_lt hbelow hlater
  · intro hfits
    rw [(toNat_succ_iff generation).mpr hfits]
    exact Nat.lt_succ_self _

/-- With each step there is one generation less to count on to. -/
theorem isChain_countedFrom_iff {Rel : UInt64 → UInt64 → Prop}
    (hrel : ∀ generation, Rel generation (generation + 1) ↔
      generation.toNat + 1 < UInt64.size)
    (earlier : Snapshot) (nexts : List Snapshot) :
    (earlier :: countedFrom earlier.generation nexts).IsChain
        (fun earlier later => Rel earlier.generation later.generation) ↔
      earlier.generation.toNat + nexts.length < UInt64.size := by
  induction nexts generalizing earlier with
  | nil => simp [countedFrom, earlier.generation.toNat_lt_size]
  | cons next rest ih =>
      have hrest := ih { next with generation := earlier.generation + 1 }
      have hcount := toNat_succ_iff earlier.generation
      rw [countedFrom, List.isChain_cons_cons, hrel, hrest, List.length_cons]
      constructor
      · intro hchain
        have hnumber := hcount.mpr hchain.1
        have hfits := hchain.2
        simp only [hnumber] at hfits
        omega
      · intro hfits
        have hnumber := hcount.mpr (by omega)
        simp only [hnumber]
        omega

end Snapshot

namespace SharedStore

variable {τ : Type} [DecidableEq τ]

def committed (start : SharedStore τ) (accesses : List (Access τ)) :
    List Snapshot :=
  (start.run accesses).cells.drop start.cells.length

theorem committed_eq (start : SharedStore τ) (accesses : List (Access τ)) :
    start.committed accesses = Snapshot.countedFrom start.snapshot.generation
      (accepted start.fired accesses) := by
  rw [committed, cells_run]
  exact List.drop_left

/-- Whether a token has been fired, seen from the accesses alone. -/
def HasFired (start : SharedStore τ) (before : List (Access τ)) (token : τ) :
    Prop :=
  token ∈ start.fired ∨ .fire token ∈ before

/-- What a run does to the current snapshot and to those that were taken. -/
structure Accounts (start : SharedStore τ) (accesses : List (Access τ)) :
    Prop where
  fired : ∀ before token after, accesses = before ++ .fire token :: after →
    (start.run (before ++ [.fire token])).snapshot = (start.run before).snapshot
  refused : ∀ before token next after,
    accesses = before ++ .attempt token next :: after →
      start.HasFired before token →
        (start.run (before ++ [.attempt token next])).snapshot =
          (start.run before).snapshot
  accepted : ∀ before token next after,
    accesses = before ++ .attempt token next :: after →
      ¬start.HasFired before token →
        (start.run (before ++ [.attempt token next])).snapshot =
          { next with generation :=
              (start.run before).snapshot.generation + 1 }
  current : (start.run accesses).snapshot =
    (start.snapshot :: start.committed accesses).getLast
      (List.cons_ne_nil _ _)
  kept : ∀ before after cell snapshot, accesses = before ++ after →
    (start.run before).read cell = some snapshot →
      (start.run accesses).read cell = some snapshot

theorem run_accounts (start : SharedStore τ) (accesses : List (Access τ)) :
    start.Accounts accesses where
  fired before token after _ := by
    rw [run_append]
    rfl
  refused before token next after _ hfired := by
    rw [run_append]
    exact congrArg snapshot (step_refused (mem_fired_run.mpr hfired))
  accepted before token next after _ hopen := by
    rw [run_append]
    exact snapshot_step_accepted (mt mem_fired_run.mp hopen)
  current := by
    simp only [committed_eq]
    exact snapshot_run accesses
  kept before after cell snapshot hsplit hread := by
    rw [hsplit, run_append]
    exact read_run hread after

/-- Refusals, the accepted snapshots and those that were taken are as they
should be in every run.  The generations count on, and ascend, as long as a word
holds the number of the start and of the accepted attempts together. -/
theorem run_ascends_iff (start : SharedStore τ) (accesses : List (Access τ)) :
    start.Accounts accesses ∧
      ((start.snapshot :: start.committed accesses).IsChain
          (fun earlier later =>
            later.generation.toNat = earlier.generation.toNat + 1) ↔
        start.snapshot.generation.toNat +
          (accepted start.fired accesses).length < UInt64.size) ∧
      ((start.snapshot :: start.committed accesses).IsChain
          (fun earlier later => earlier.generation < later.generation) ↔
        start.snapshot.generation.toNat +
          (accepted start.fired accesses).length < UInt64.size) := by
  have hcounts := @Snapshot.isChain_countedFrom_iff
    (fun earlier later => later.toNat = earlier.toNat + 1)
    Snapshot.toNat_succ_iff start.snapshot (accepted start.fired accesses)
  have hascends := @Snapshot.isChain_countedFrom_iff
    (fun earlier later => earlier < later)
    Snapshot.lt_succ_iff start.snapshot (accepted start.fired accesses)
  rw [committed_eq]
  exact ⟨run_accounts start accesses, hcounts, hascends⟩

end SharedStore

namespace Sample

def lastCounted : Snapshot where
  generation := 18446744073709551615
  edges := ∅
  versions := KeyedSet.putAll ∅ [⟨⟨"A.java"⟩, ⟨1⟩⟩]
  failed := ∅

def afterLast : SharedStore String :=
  (SharedStore.startingFrom lastCounted).run [.attempt "build" lastCounted]

theorem afterLast_counts_anew :
    Snapshot.ofBytes lastCounted.toBytes = .ok lastCounted ∧
      "build" ∉ (SharedStore.startingFrom lastCounted : SharedStore String).fired ∧
      afterLast.snapshot = { lastCounted with generation := 0 } ∧
      ¬lastCounted.generation < afterLast.snapshot.generation := by
  have hstorable : lastCounted.IsStorable := by decide
  refine ⟨Snapshot.ofBytes_toBytes hstorable, ?_, ?_, ?_⟩ <;> decide

end Sample

end CallGraph
