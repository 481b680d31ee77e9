namespace CallGraph

class KeyOrder (κ : Type) where
  before : κ → κ → Bool
  before_irrefl : ∀ a, before a a = false
  before_trans : ∀ {a b c}, before a b = true → before b c = true →
    before a c = true
  eq_of_not_before : ∀ {a b}, before a b = false → before b a = false → a = b

instance : KeyOrder String where
  before first second := decide (first < second)
  before_irrefl text := by simp
  before_trans hfirst hsecond := by
    simp only [decide_eq_true_eq] at *
    exact String.lt_trans hfirst hsecond
  eq_of_not_before hfirst hsecond := by
    simp only [decide_eq_false_iff_not] at *
    exact String.le_antisymm (String.not_lt.mp hsecond) (String.not_lt.mp hfirst)

instance : KeyOrder UInt64 where
  before first second := decide (first < second)
  before_irrefl word := by simp
  before_trans hfirst hsecond := by
    simp only [decide_eq_true_eq] at *
    exact UInt64.lt_trans hfirst hsecond
  eq_of_not_before hfirst hsecond := by
    simp only [decide_eq_false_iff_not] at *
    exact UInt64.le_antisymm (UInt64.not_lt.mp hsecond) (UInt64.not_lt.mp hfirst)

namespace KeyOrder

def listBefore {κ : Type} [KeyOrder κ] : List κ → List κ → Bool
  | [], [] => false
  | [], _ :: _ => true
  | _ :: _, [] => false
  | first :: rest, other :: others =>
      before first other ||
        (!before other first && listBefore rest others)

theorem listBefore_irrefl {κ : Type} [KeyOrder κ] (keys : List κ) :
    listBefore keys keys = false := by
  induction keys with
  | nil => rfl
  | cons head rest ih => simp [listBefore, before_irrefl, ih]

theorem eq_of_not_listBefore {κ : Type} [KeyOrder κ] :
    ∀ {first second : List κ}, listBefore first second = false →
      listBefore second first = false → first = second
  | [], [], _, _ => rfl
  | [], _ :: _, hfirst, _ => by simp [listBefore] at hfirst
  | _ :: _, [], _, hsecond => by simp [listBefore] at hsecond
  | head :: rest, other :: others, hfirst, hsecond => by
      simp only [listBefore, Bool.or_eq_false_iff, Bool.and_eq_false_iff,
        Bool.not_eq_false'] at hfirst hsecond
      have hhead : head = other := eq_of_not_before hfirst.1 hsecond.1
      have hrest : rest = others :=
        eq_of_not_listBefore
          (hfirst.2.resolve_left (by simp [hsecond.1]))
          (hsecond.2.resolve_left (by simp [hfirst.1]))
      rw [hhead, hrest]

theorem listBefore_trans {κ : Type} [KeyOrder κ] :
    ∀ {first second third : List κ}, listBefore first second = true →
      listBefore second third = true → listBefore first third = true
  | [], [], _, hfirst, _ => by simp [listBefore] at hfirst
  | [], _ :: _, [], _, hsecond => by simp [listBefore] at hsecond
  | [], _ :: _, _ :: _, _, _ => by simp [listBefore]
  | _ :: _, [], _, hfirst, _ => by simp [listBefore] at hfirst
  | _ :: _, _ :: _, [], _, hsecond => by simp [listBefore] at hsecond
  | head :: rest, other :: others, last :: more, hfirst, hsecond => by
      simp only [listBefore, Bool.or_eq_true, Bool.and_eq_true,
        Bool.not_eq_true'] at hfirst hsecond ⊢
      rcases hfirst with hfirst | ⟨hnot, hfirst⟩
      · rcases hsecond with hsecond | ⟨hnot', _⟩
        · exact Or.inl (before_trans hfirst hsecond)
        · cases hlast : before other last with
          | true => exact Or.inl (before_trans hfirst hlast)
          | false =>
              rw [eq_of_not_before hlast hnot'] at hfirst
              exact Or.inl hfirst
      · cases hhead : before head other with
        | true =>
            rcases hsecond with hsecond | ⟨hnot', _⟩
            · exact Or.inl (before_trans hhead hsecond)
            · cases hlast : before other last with
              | true => exact Or.inl (before_trans hhead hlast)
              | false =>
                  rw [eq_of_not_before hlast hnot'] at hhead
                  exact Or.inl hhead
        | false =>
            have heq := eq_of_not_before hhead hnot
            subst heq
            rcases hsecond with hsecond | ⟨hnot', hsecond⟩
            · exact Or.inl hsecond
            · exact Or.inr ⟨hnot', listBefore_trans hfirst hsecond⟩

instance {κ : Type} [KeyOrder κ] : KeyOrder (List κ) where
  before := listBefore
  before_irrefl := listBefore_irrefl
  before_trans := listBefore_trans
  eq_of_not_before := eq_of_not_listBefore

end KeyOrder

/-- Values that are told apart by a key. -/
class Keyed (α : Type) (κ : outParam Type) where
  key : α → κ

open KeyOrder (before)
open Keyed (key)

/-- Finite collections with at most one entry per key, in ascending order. -/
structure KeyedSet (α : Type) {κ : Type} [Keyed α κ] [KeyOrder κ] where
  entries : List α
  ascending : entries.Pairwise fun first second =>
    before (key first) (key second) = true

namespace KeyedSet

variable {α κ : Type} [Keyed α κ] [KeyOrder κ]

def Ascending (entries : List α) : Prop :=
  entries.Pairwise fun first second => before (key first) (key second) = true

@[ext] theorem ext {first second : KeyedSet α}
    (hentries : first.entries = second.entries) : first = second := by
  cases first
  cases second
  simp_all

instance [DecidableEq α] : DecidableEq (KeyedSet α) := fun first second =>
  decidable_of_iff (first.entries = second.entries) ⟨ext, congrArg _⟩

def empty : KeyedSet α := ⟨[], List.Pairwise.nil⟩

instance : Inhabited (KeyedSet α) := ⟨empty⟩

instance : EmptyCollection (KeyedSet α) := ⟨empty⟩

def place (keep : α → α → α) (entry : α) : List α → List α
  | [] => [entry]
  | head :: rest =>
      if before (key entry) (key head) then entry :: head :: rest
      else if before (key head) (key entry) then head :: place keep entry rest
      else keep head entry :: rest

theorem mem_place {keep : α → α → α} {entry other : α} {entries : List α}
    (hmem : other ∈ place keep entry entries) :
    other = entry ∨ other ∈ entries ∨
      ∃ head ∈ entries, key head = key entry ∧ other = keep head entry := by
  induction entries with
  | nil => exact Or.inl (by simpa [place] using hmem)
  | cons head rest ih =>
      unfold place at hmem
      split at hmem
      · rcases List.mem_cons.mp hmem with heq | hrest
        · exact Or.inl heq
        · exact Or.inr (Or.inl hrest)
      · rename_i hnotBefore
        split at hmem
        · rcases List.mem_cons.mp hmem with heq | hrest
          · exact Or.inr (Or.inl (by simp [heq]))
          · rcases ih hrest with heq | hold | ⟨found, hfound, hkey, heq⟩
            · exact Or.inl heq
            · exact Or.inr (Or.inl (by simp [hold]))
            · exact Or.inr (Or.inr ⟨found, by simp [hfound], hkey, heq⟩)
        · rename_i hnotAfter
          have hkey : key head = key entry :=
            KeyOrder.eq_of_not_before (by simpa using hnotAfter)
              (by simpa using hnotBefore)
          rcases List.mem_cons.mp hmem with heq | hrest
          · exact Or.inr (Or.inr ⟨head, by simp, hkey, heq⟩)
          · exact Or.inr (Or.inl (by simp [hrest]))

theorem place_ascending {keep : α → α → α}
    (hkeep : ∀ old new, key old = key new → key (keep old new) = key new)
    (entry : α) {entries : List α} (hentries : Ascending entries) :
    Ascending (place keep entry entries) := by
  induction entries with
  | nil => simp [place, Ascending]
  | cons head rest ih =>
      have hhead := (List.pairwise_cons.mp hentries).1
      have hrest := (List.pairwise_cons.mp hentries).2
      unfold place
      split
      · rename_i hbefore
        refine List.pairwise_cons.mpr ⟨?_, hentries⟩
        intro other hother
        rcases List.mem_cons.mp hother with heq | hmem
        · rw [heq]
          exact hbefore
        · exact KeyOrder.before_trans hbefore (hhead other hmem)
      · rename_i hnotBefore
        split
        · rename_i hafter
          refine List.pairwise_cons.mpr ⟨?_, ih hrest⟩
          intro other hother
          rcases mem_place hother with heq | hmem | ⟨found, hfound, hkey, heq⟩
          · rw [heq]
            exact hafter
          · exact hhead other hmem
          · rw [heq, hkeep found entry hkey]
            exact hafter
        · rename_i hnotAfter
          have hkey : key head = key entry :=
            KeyOrder.eq_of_not_before (by simpa using hnotAfter)
              (by simpa using hnotBefore)
          refine List.pairwise_cons.mpr ⟨?_, hrest⟩
          intro other hother
          rw [hkeep head entry hkey, ← hkey]
          exact hhead other hother

/-! `insert` leaves an entry with the same key where it is; `put` replaces it. -/

def insert (collection : KeyedSet α) (entry : α) : KeyedSet α :=
  ⟨place (fun old _ => old) entry collection.entries,
    place_ascending (fun _ _ hkey => hkey) entry collection.ascending⟩

def put (collection : KeyedSet α) (entry : α) : KeyedSet α :=
  ⟨place (fun _ new => new) entry collection.entries,
    place_ascending (fun _ _ _ => rfl) entry collection.ascending⟩

def find? [DecidableEq κ] (collection : KeyedSet α) (wanted : κ) : Option α :=
  collection.entries.find? fun entry => key entry == wanted

def has [DecidableEq κ] (collection : KeyedSet α) (wanted : κ) : Bool :=
  collection.entries.any fun entry => key entry == wanted

def contains [DecidableEq κ] (collection : KeyedSet α) (entry : α) : Bool :=
  collection.has (key entry)

def filter (keep : α → Bool) (collection : KeyedSet α) : KeyedSet α :=
  ⟨collection.entries.filter keep, collection.ascending.filter keep⟩

def insertAll (collection : KeyedSet α) (entries : List α) : KeyedSet α :=
  entries.foldl insert collection

def putAll (collection : KeyedSet α) (entries : List α) : KeyedSet α :=
  entries.foldl put collection

def ofList (entries : List α) : KeyedSet α := insertAll empty entries

def union (first second : KeyedSet α) : KeyedSet α :=
  first.insertAll second.entries

def erase [DecidableEq κ] (collection : KeyedSet α) (unwanted : κ) :
    KeyedSet α :=
  collection.filter fun entry => !(key entry == unwanted)

def size (collection : KeyedSet α) : Nat := collection.entries.length

def isEmpty (collection : KeyedSet α) : Bool := collection.entries.isEmpty

instance : Membership α (KeyedSet α) :=
  ⟨fun collection entry => entry ∈ collection.entries⟩

theorem mem_def {entry : α} {collection : KeyedSet α} :
    entry ∈ collection ↔ entry ∈ collection.entries := Iff.rfl

theorem has_iff [DecidableEq κ] {collection : KeyedSet α} {wanted : κ} :
    collection.has wanted = true ↔ ∃ entry ∈ collection, key entry = wanted := by
  simp [has, mem_def]

theorem mem_filter {keep : α → Bool} {collection : KeyedSet α} {entry : α} :
    entry ∈ collection.filter keep ↔ entry ∈ collection ∧ keep entry = true := by
  simp [filter, mem_def]

end KeyedSet

end CallGraph
