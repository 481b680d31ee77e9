import CallGraph.Proofs.Keyed
import CallGraph.Proofs.Text.Utf8
import CallGraph.Snapshot.Binary

namespace CallGraph

namespace Digest

theorem toNat_wordOfBytes {width : Nat} (hwidth : width ≤ 8) (number : Nat) :
    (wordOfBytes (bytesOfNat width number)).toNat =
      number % Nat.pow 256 width := by
  induction width generalizing number with
  | zero => exact (Nat.mod_one number).symm
  | succ width ih =>
      have hrest := ih (by omega) (number / 256)
      have hbound : Nat.pow 256 width ≤ Nat.pow 256 7 :=
        Nat.pow_le_pow_right (by decide) (by omega)
      have hsmall : number / 256 % Nat.pow 256 width < Nat.pow 256 width :=
        Nat.mod_lt _ (Nat.pow_pos (by decide))
      have hlow : (UInt8.ofNat (number % 256)).toUInt64.toNat =
          number % 256 := by
        simp
      have hshift : (wordOfBytes (bytesOfNat width (number / 256)) <<<
          (8 : UInt64)).toNat = (number / 256 % Nat.pow 256 width) <<< 8 := by
        rw [UInt64.toNat_shiftLeft, hrest]
        refine Nat.mod_eq_of_lt ?_
        rw [Nat.shiftLeft_eq]
        change _ * 256 < 2 ^ 64
        have hseven : Nat.pow 256 7 * 256 = 2 ^ 64 := by decide
        omega
      rw [bytesOfNat, wordOfBytes, UInt64.toNat_or, hshift, hlow, Nat.or_comm,
        ← Nat.shiftLeft_add_eq_or_of_lt (by omega), Nat.shiftLeft_eq]
      change _ = number % (Nat.pow 256 width * 256)
      rw [Nat.mul_comm (Nat.pow 256 width), Nat.mod_mul]
      omega

theorem wordOfBytes_wordBytes (word : UInt64) :
    wordOfBytes (wordBytes word) = word := by
  refine UInt64.toNat_inj.mp ?_
  rw [wordBytes, toNat_wordOfBytes (Nat.le_refl 8)]
  exact Nat.mod_eq_of_lt word.toNat_lt

end Digest

namespace KeyedSet

open Keyed (key)

variable {α κ : Type} [Keyed α κ] [KeyOrder κ]

theorem ofList_entries [DecidableEq κ] (collection : KeyedSet α) :
    ofList collection.entries = collection :=
  ext_of_mem fun _ => mem_ofList_iff.trans
    (find?_eq_some_iff.trans (and_iff_left rfl))

theorem putAll_entries (collection : KeyedSet α) :
    putAll ∅ collection.entries = collection :=
  ext_of_mem fun _ =>
    (mem_putAll (collection.ascending.imp key_ne_of_before)).trans
      (or_iff_left fun hempty => not_mem_empty hempty.1)

end KeyedSet

namespace Snapshot

namespace Binary

section Readers

variable {α β : Type}

def Reads (reader : Reader α) (bytes : List UInt8) (value : α) : Prop :=
  ∀ rest, reader (bytes ++ rest) = .ok (value, rest)

theorem Reads.read {reader : Reader α} {next : α → Reader β}
    {bytes more : List UInt8} {value : α} {result : β}
    (hreads : Reads reader bytes value)
    (hnext : Reads (next value) more result) :
    Reads (Binary.read reader next) (bytes ++ more) result := by
  intro rest
  rw [List.append_assoc, Binary.read, hreads]
  exact hnext rest

theorem Reads.last {reader : Reader α} {make : α → β} {bytes : List UInt8}
    {value : α} (hreads : Reads reader bytes value) :
    Reads (Binary.read reader fun found => produce (make found)) bytes
      (make value) := by
  intro rest
  rw [Binary.read, hreads]
  rfl

theorem reads_word (word : UInt64) :
    Reads readWord (Digest.wordBytes word) word := by
  intro rest
  exact congrArg (fun found => Except.ok (found, rest))
    (Digest.wordOfBytes_wordBytes word)

theorem reads_length {length : Nat} (hlength : length < UInt64.size) :
    Reads readWord (writeLength length) (UInt64.ofNat length) := by
  have hword := reads_word (UInt64.ofNat length)
  rwa [Digest.wordBytes, UInt64.toNat_ofNat_of_lt' hlength] at hword

/-- Lengths are stored as words. -/
def FitsText (text : String) : Prop :=
  (Utf8.encode text).length < UInt64.size

def FitsList (fits : α → Prop) (items : List α) : Prop :=
  items.length < UInt64.size ∧ ∀ item ∈ items, fits item

instance (text : String) : Decidable (FitsText text) :=
  inferInstanceAs (Decidable ((Utf8.encode text).length < UInt64.size))

instance (fits : α → Prop) [DecidablePred fits] (items : List α) :
    Decidable (FitsList fits items) :=
  inferInstanceAs
    (Decidable (items.length < UInt64.size ∧ ∀ item ∈ items, fits item))

theorem reads_text {text : String} (hfits : FitsText text) :
    Reads readText (writeText text) text := by
  refine (reads_length hfits).read fun rest => ?_
  have hlength : (UInt64.ofNat (Utf8.encode text).length).toNat =
      (Utf8.encode text).length := UInt64.toNat_ofNat_of_lt' hfits
  simp only [hlength, List.take_left, List.drop_left, Nat.lt_irrefl, if_false,
    Utf8.decode_encode]

variable {reader : Reader α} {write : α → List UInt8} {fits : α → Prop}
  (hreads : ∀ {item}, fits item → Reads reader (write item) item)
include hreads

theorem reads_items {items : List α} (hitems : ∀ item ∈ items, fits item) :
    Reads (readItems reader items.length) (items.flatMap write) items := by
  induction items with
  | nil => exact fun rest => rfl
  | cons item more ih =>
      have hmore := ih fun other hother => hitems other (by simp [hother])
      exact (hreads (hitems item (by simp))).read hmore.last

theorem reads_list {items : List α} (hfits : FitsList fits items) :
    Reads (readList reader) (writeList write items) items := by
  refine (reads_length hfits.1).read ?_
  rw [UInt64.toNat_ofNat_of_lt' hfits.1]
  exact reads_items hreads hfits.2

end Readers

def FitsParam (param : Param) : Prop :=
  FitsText param.type ∧ FitsText param.name

def FitsMethod (method : Method) : Prop :=
  FitsText method.source.path ∧ FitsText method.enclosingType ∧
    FitsText method.name ∧ FitsList FitsParam method.params

def FitsEdge (edge : Edge) : Prop :=
  FitsMethod edge.caller ∧ FitsMethod edge.callee

def FitsVersion (version : UnitVersion) : Prop :=
  FitsText version.source.path

instance (param : Param) : Decidable (FitsParam param) :=
  inferInstanceAs (Decidable (FitsText param.type ∧ FitsText param.name))

instance (method : Method) : Decidable (FitsMethod method) :=
  inferInstanceAs (Decidable (FitsText method.source.path ∧
    FitsText method.enclosingType ∧ FitsText method.name ∧
      FitsList FitsParam method.params))

instance (edge : Edge) : Decidable (FitsEdge edge) :=
  inferInstanceAs (Decidable (FitsMethod edge.caller ∧ FitsMethod edge.callee))

instance (version : UnitVersion) : Decidable (FitsVersion version) :=
  inferInstanceAs (Decidable (FitsText version.source.path))

theorem reads_param {param : Param} (hfits : FitsParam param) :
    Reads readParam (writeParam param) param :=
  (reads_text hfits.1).read (reads_text hfits.2).last

theorem reads_source {source : SourceUnit} (hfits : FitsText source.path) :
    Reads readSource (writeSource source) source :=
  (reads_text hfits).last

theorem reads_method {method : Method} (hfits : FitsMethod method) :
    Reads readMethod (writeMethod method) method := by
  obtain ⟨hsource, htype, hname, hparams⟩ := hfits
  unfold writeMethod
  simp only [List.append_assoc]
  exact (reads_word method.id.word).read ((reads_source hsource).read
    ((reads_text htype).read ((reads_text hname).read
      (reads_list reads_param hparams).last)))

theorem reads_edge {edge : Edge} (hfits : FitsEdge edge) :
    Reads readEdge (writeEdge edge) edge :=
  (reads_method hfits.1).read (reads_method hfits.2).last

theorem reads_version {version : UnitVersion} (hfits : FitsVersion version) :
    Reads readVersion (writeVersion version) version :=
  (reads_source hfits).read (reads_word version.token.word).last

end Binary

/-- A snapshot in which each text and each list is shorter than a word counts.
-/
structure IsStorable (snapshot : Snapshot) : Prop where
  edges : Binary.FitsList Binary.FitsEdge snapshot.edges.entries
  versions : Binary.FitsList Binary.FitsVersion snapshot.versions.entries
  failed : Binary.FitsList (fun source => Binary.FitsText source.path)
    snapshot.failed.entries

theorem isStorable_iff {snapshot : Snapshot} :
    snapshot.IsStorable ↔
      Binary.FitsList Binary.FitsEdge snapshot.edges.entries ∧
        Binary.FitsList Binary.FitsVersion snapshot.versions.entries ∧
          Binary.FitsList (fun source => Binary.FitsText source.path)
            snapshot.failed.entries := by
  constructor
  · rintro ⟨hedges, hversions, hfailed⟩
    exact And.intro hedges (And.intro hversions hfailed)
  · rintro ⟨hedges, hversions, hfailed⟩
    exact IsStorable.mk hedges hversions hfailed

instance (snapshot : Snapshot) : Decidable snapshot.IsStorable :=
  decidable_of_iff' _ isStorable_iff

/-- The lists need not be those of a snapshot: sorted or not, they are read as
the collections made of them. -/
theorem reads_lists (generation : UInt64) {edges : List Edge}
    {versions : List UnitVersion} {failed : List SourceUnit}
    (hedges : Binary.FitsList Binary.FitsEdge edges)
    (hversions : Binary.FitsList Binary.FitsVersion versions)
    (hfailed : Binary.FitsList (fun source => Binary.FitsText source.path)
      failed) :
    Binary.Reads readBytes
      (Digest.wordBytes generation ++
        Binary.writeList Binary.writeEdge edges ++
        Binary.writeList Binary.writeVersion versions ++
        Binary.writeList Binary.writeSource failed)
      { generation := generation
        edges := KeyedSet.ofList edges
        versions := KeyedSet.putAll ∅ versions
        failed := KeyedSet.ofList failed } := by
  rw [List.append_assoc, List.append_assoc]
  exact (Binary.reads_word generation).read
    ((Binary.reads_list Binary.reads_edge hedges).read
      ((Binary.reads_list Binary.reads_version hversions).read
        (Binary.reads_list Binary.reads_source hfailed).last))

theorem reads_toBytes {snapshot : Snapshot} (hstorable : snapshot.IsStorable) :
    Binary.Reads readBytes snapshot.toBytes snapshot := by
  have hreads := reads_lists snapshot.generation hstorable.edges
    hstorable.versions hstorable.failed
  rwa [KeyedSet.ofList_entries, KeyedSet.putAll_entries,
    KeyedSet.ofList_entries] at hreads

theorem ofBytes_toBytes_append {snapshot : Snapshot}
    (hstorable : snapshot.IsStorable) (rest : List UInt8) :
    ofBytes (snapshot.toBytes ++ rest) = .ok snapshot := by
  rw [ofBytes, reads_toBytes hstorable rest]
  rfl

theorem ofBytes_toBytes {snapshot : Snapshot} (hstorable : snapshot.IsStorable) :
    ofBytes snapshot.toBytes = .ok snapshot := by
  have hread := ofBytes_toBytes_append hstorable []
  rwa [List.append_nil] at hread

end Snapshot

end CallGraph
