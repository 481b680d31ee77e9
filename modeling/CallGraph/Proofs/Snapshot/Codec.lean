import CallGraph.Proofs.Snapshot.Binary

namespace CallGraph

namespace Snapshot

namespace Binary

section Yields

variable {α β : Type} {reader : Reader α} {fits : α → Prop}

def Yields (reader : Reader α) (fits : α → Prop) : Prop :=
  ∀ bytes value rest, reader bytes = .ok (value, rest) → fits value

theorem Yields.read {next : α → Reader β} {fits' : β → Prop}
    (hreader : Yields reader fits)
    (hnext : ∀ value, fits value → Yields (next value) fits') :
    Yields (Binary.read reader next) fits' := by
  intro bytes value rest hread
  unfold Binary.read at hread
  split at hread
  · cases hread
  · rename_i found more hfound
    exact hnext found (hreader _ _ _ hfound) _ _ _ hread

theorem yields_produce {value : α} (hfits : fits value) :
    Yields (produce value) fits := by
  intro bytes other rest hread
  cases hread
  exact hfits

theorem yields_word : Yields readWord fun _ => True := fun _ _ _ _ => trivial

theorem yields_text : Yields readText FitsText := by
  refine Yields.read yields_word fun length _ => ?_
  intro bytes text rest hread
  dsimp only at hread
  split at hread
  · cases hread
  · split at hread
    · cases hread
    · rename_i hdecode
      cases hread
      have htaken := Utf8.encode_decode hdecode
      have hlength : (Utf8.encode text).length ≤ length.toNat := by
        rw [htaken]
        exact List.length_take_le ..
      exact Nat.lt_of_le_of_lt hlength length.toNat_lt

theorem yields_items (hreader : Yields reader fits) (count : Nat) :
    Yields (readItems reader count) fun items =>
      items.length = count ∧ ∀ item ∈ items, fits item := by
  induction count with
  | zero => exact yields_produce ⟨rfl, fun _ hitem => by cases hitem⟩
  | succ count ih =>
      refine hreader.read fun item hitem => ih.read fun items hitems => ?_
      exact yields_produce ⟨congrArg (· + 1) hitems.1, fun other hother =>
        (List.mem_cons.mp hother).elim (fun heq => heq ▸ hitem)
          (hitems.2 other)⟩

theorem yields_list (hreader : Yields reader fits) :
    Yields (readList reader) (FitsList fits) := by
  refine Yields.read yields_word fun count _ => ?_
  intro bytes items rest hread
  have hitems := yields_items hreader count.toNat bytes items rest hread
  exact ⟨hitems.1 ▸ count.toNat_lt, hitems.2⟩

theorem yields_param : Yields readParam FitsParam :=
  Yields.read yields_text fun _ htype =>
    Yields.read yields_text fun _ hname => yields_produce ⟨htype, hname⟩

theorem yields_source :
    Yields readSource fun source => FitsText source.path :=
  Yields.read yields_text fun _ hpath => yields_produce hpath

theorem yields_method : Yields readMethod FitsMethod :=
  Yields.read yields_word fun _ _ =>
    Yields.read yields_source fun _ hsource =>
      Yields.read yields_text fun _ htype =>
        Yields.read yields_text fun _ hname =>
          (yields_list yields_param).read fun _ hparams =>
            yields_produce ⟨hsource, htype, hname, hparams⟩

theorem yields_edge : Yields readEdge FitsEdge :=
  Yields.read yields_method fun _ hcaller =>
    Yields.read yields_method fun _ hcallee =>
      yields_produce ⟨hcaller, hcallee⟩

theorem yields_version : Yields readVersion FitsVersion :=
  Yields.read yields_source fun _ hsource =>
    Yields.read yields_word fun _ _ => yields_produce hsource

end Yields

/-! How a reading goes when more bytes follow.  It takes the same value and
leaves the bytes that were added, it is refused for the same reason, or the
bytes were cut short: a reader looks at no byte behind its value. -/

def Fault.isCutShort : Fault → Bool
  | .wordCutShort | .textCutShort => true
  | .notText _ => false

section Sequential

variable {α β : Type} {reader : Reader α}

inductive Continues (more : List UInt8) :
    Except Fault (α × List UInt8) → Except Fault (α × List UInt8) → Prop
  | taken (value : α) (rest : List UInt8) :
      Continues more (.ok (value, rest)) (.ok (value, rest ++ more))
  | refused (fault : Fault) : Continues more (.error fault) (.error fault)
  | cutShort {fault : Fault} (hcut : fault.isCutShort = true)
      (result : Except Fault (α × List UInt8)) :
      Continues more (.error fault) result

theorem Continues.exists_cutShort {more : List UInt8} (hmore : more ≠ [])
    {first : Except Fault (α × List UInt8)} {value : α}
    (hcontinues : Continues more first (.ok (value, []))) :
    ∃ fault, first = .error fault ∧ fault.isCutShort = true := by
  generalize hsecond : Except.ok (value, []) = second at hcontinues
  cases hcontinues with
  | taken found rest =>
      have hrest : [] = rest ++ more :=
        congrArg Prod.snd (Except.ok.inj hsecond)
      exact absurd (List.append_eq_nil_iff.mp hrest.symm).2 hmore
  | refused fault => cases hsecond
  | cutShort hcut => exact ⟨_, rfl, hcut⟩

def IsSequential (reader : Reader α) : Prop :=
  ∀ bytes more, Continues more (reader bytes) (reader (bytes ++ more))

theorem isSequential_produce (value : α) : IsSequential (produce value) :=
  fun bytes _ => .taken value bytes

theorem IsSequential.read {next : α → Reader β} (hreader : IsSequential reader)
    (hnext : ∀ value, IsSequential (next value)) :
    IsSequential (Binary.read reader next) := by
  intro bytes more
  have hcontinues := hreader bytes more
  unfold Binary.read
  generalize reader bytes = first at hcontinues
  generalize reader (bytes ++ more) = second at hcontinues
  cases hcontinues with
  | taken value rest => exact hnext value rest more
  | refused fault => exact .refused fault
  | cutShort hcut result => exact .cutShort hcut _

theorem isSequential_word : IsSequential readWord := by
  intro bytes more
  conv => arg 2; unfold readWord
  split
  · exact .taken _ _
  · exact .cutShort rfl _

theorem isSequential_text : IsSequential readText := by
  refine IsSequential.read isSequential_word fun length bytes more => ?_
  dsimp only
  by_cases hshort : (bytes.take length.toNat).length < length.toNat
  · rw [if_pos hshort]
    exact .cutShort rfl _
  · have hlength : length.toNat ≤ bytes.length := by
      rw [List.length_take] at hshort
      omega
    rw [if_neg hshort, List.take_append_of_le_length hlength, if_neg hshort,
      List.drop_append_of_le_length hlength]
    cases Utf8.decode (bytes.take length.toNat) with
    | error fault => exact .refused _
    | ok text => exact .taken _ _

theorem isSequential_items (hreader : IsSequential reader) (count : Nat) :
    IsSequential (readItems reader count) := by
  induction count with
  | zero => exact isSequential_produce []
  | succ count ih =>
      exact hreader.read fun item => ih.read fun items =>
        isSequential_produce (item :: items)

theorem isSequential_list (hreader : IsSequential reader) :
    IsSequential (readList reader) :=
  IsSequential.read isSequential_word fun count =>
    isSequential_items hreader count.toNat

theorem isSequential_param : IsSequential readParam :=
  IsSequential.read isSequential_text fun _ =>
    IsSequential.read isSequential_text fun _ => isSequential_produce _

theorem isSequential_source : IsSequential readSource :=
  IsSequential.read isSequential_text fun _ => isSequential_produce _

theorem isSequential_method : IsSequential readMethod :=
  IsSequential.read isSequential_word fun _ =>
    IsSequential.read isSequential_source fun _ =>
      IsSequential.read isSequential_text fun _ =>
        IsSequential.read isSequential_text fun _ =>
          (isSequential_list isSequential_param).read fun _ =>
            isSequential_produce _

theorem isSequential_edge : IsSequential readEdge :=
  IsSequential.read isSequential_method fun _ =>
    IsSequential.read isSequential_method fun _ => isSequential_produce _

theorem isSequential_version : IsSequential readVersion :=
  IsSequential.read isSequential_source fun _ =>
    IsSequential.read isSequential_word fun _ => isSequential_produce _

end Sequential

end Binary

open Binary (Fault)

theorem isStorable_of_readBytes : Binary.Yields readBytes IsStorable := by
  refine Binary.Yields.read Binary.yields_word fun _ _ =>
    (Binary.yields_list Binary.yields_edge).read fun edges hedges =>
      (Binary.yields_list Binary.yields_version).read fun versions hversions =>
        (Binary.yields_list Binary.yields_source).read fun failed hfailed =>
          Binary.yields_produce ⟨⟨?_, ?_⟩, ⟨?_, ?_⟩, ⟨?_, ?_⟩⟩
  · exact Nat.lt_of_le_of_lt (KeyedSet.size_ofList_le edges) hedges.1
  · exact fun edge hedge => hedges.2 edge (KeyedSet.mem_of_mem_ofList hedge)
  · exact Nat.lt_of_le_of_lt (KeyedSet.size_putAll_empty_le versions)
      hversions.1
  · exact fun version hversion => hversions.2 version
      ((KeyedSet.mem_or_mem_of_mem_putAll hversion).resolve_left
        KeyedSet.not_mem_empty)
  · exact Nat.lt_of_le_of_lt (KeyedSet.size_ofList_le failed) hfailed.1
  · exact fun source hsource =>
      hfailed.2 source (KeyedSet.mem_of_mem_ofList hsource)

theorem isStorable_of_ofBytes {bytes : List UInt8} {snapshot : Snapshot}
    (hread : ofBytes bytes = .ok snapshot) : snapshot.IsStorable := by
  unfold ofBytes at hread
  cases hbytes : readBytes bytes with
  | error fault =>
      rw [hbytes] at hread
      cases hread
  | ok found =>
      rw [hbytes] at hread
      cases hread
      exact isStorable_of_readBytes bytes _ _ hbytes

theorem isSequential_readBytes : Binary.IsSequential readBytes :=
  Binary.IsSequential.read Binary.isSequential_word fun _ =>
    (Binary.isSequential_list Binary.isSequential_edge).read fun _ =>
      (Binary.isSequential_list Binary.isSequential_version).read fun _ =>
        (Binary.isSequential_list Binary.isSequential_source).read fun _ =>
          Binary.isSequential_produce _

/-- A snapshot is read back from its bytes whatever follows them.  Any bytes at
all that are read as a snapshot, sorted or not, give ascending collections, and
the snapshot they give is read back from its own bytes. -/
theorem codec_roundTrips :
    (∀ snapshot : Snapshot, snapshot.IsStorable →
      ∀ rest, ofBytes (snapshot.toBytes ++ rest) = .ok snapshot) ∧
      ∀ bytes snapshot, ofBytes bytes = .ok snapshot →
        KeyedSet.Ascending snapshot.edges.entries ∧
          KeyedSet.Ascending snapshot.versions.entries ∧
            KeyedSet.Ascending snapshot.failed.entries ∧
              ofBytes snapshot.toBytes = .ok snapshot := by
  refine ⟨fun snapshot => ofBytes_toBytes_append, fun bytes snapshot hread => ?_⟩
  exact ⟨snapshot.edges.ascending, snapshot.versions.ascending,
    snapshot.failed.ascending, ofBytes_toBytes (isStorable_of_ofBytes hread)⟩

/-- However much is missing at the end of a stored snapshot, it is not read as
one. -/
theorem ofBytes_cutShort {snapshot : Snapshot} (hstorable : snapshot.IsStorable)
    {front back : List UInt8} (hcut : snapshot.toBytes = front ++ back)
    (hback : back ≠ []) :
    ∃ fault, ofBytes front = .error fault ∧ fault.isCutShort = true := by
  have hwhole : readBytes (front ++ back) = .ok (snapshot, []) := by
    have hreads := reads_toBytes hstorable []
    rwa [List.append_nil, hcut] at hreads
  have hcontinues := isSequential_readBytes front back
  rw [hwhole] at hcontinues
  obtain ⟨fault, hfront, hfault⟩ := hcontinues.exists_cutShort hback
  exact ⟨fault, congrArg (Except.map Prod.fst) hfront, hfault⟩

end Snapshot

namespace Sample

def storedCall : Edge :=
  ⟨⟨⟨1⟩, ⟨"A.java"⟩, "A", "a", []⟩,
    ⟨⟨2⟩, ⟨"B.java"⟩, "B", "b", [⟨"int", "n"⟩]⟩⟩

def storedSnapshot : Snapshot where
  generation := 4
  edges := KeyedSet.ofList [storedCall]
  versions := KeyedSet.putAll ∅ [⟨⟨"A.java"⟩, ⟨1⟩⟩, ⟨⟨"B.java"⟩, ⟨2⟩⟩]
  failed := KeyedSet.ofList [⟨"B.java"⟩]

theorem isStorable_storedSnapshot : storedSnapshot.IsStorable := by decide

def repeatedCalls : List Edge := [storedCall, storedCall]

def fallingVersions : List UnitVersion :=
  [⟨⟨"B.java"⟩, ⟨7⟩⟩, ⟨⟨"B.java"⟩, ⟨2⟩⟩, ⟨⟨"A.java"⟩, ⟨1⟩⟩]

def unsortedBytes : List UInt8 :=
  Digest.wordBytes storedSnapshot.generation ++
    Snapshot.Binary.writeList Snapshot.Binary.writeEdge repeatedCalls ++
    Snapshot.Binary.writeList Snapshot.Binary.writeVersion fallingVersions ++
    Snapshot.Binary.writeList Snapshot.Binary.writeSource
      storedSnapshot.failed.entries

theorem ofBytes_unsortedBytes :
    Snapshot.ofBytes (unsortedBytes ++ [7]) = .ok storedSnapshot := by
  have hcalls : Snapshot.Binary.FitsList Snapshot.Binary.FitsEdge
      repeatedCalls := by decide
  have hversions : Snapshot.Binary.FitsList Snapshot.Binary.FitsVersion
      fallingVersions := by decide
  have hreads := Snapshot.reads_lists storedSnapshot.generation hcalls
    hversions isStorable_storedSnapshot.failed [7]
  have hedges : KeyedSet.ofList repeatedCalls = storedSnapshot.edges := by
    decide
  have hlast : KeyedSet.putAll ∅ fallingVersions = storedSnapshot.versions := by
    decide
  rw [hedges, hlast, KeyedSet.ofList_entries] at hreads
  exact congrArg (Except.map Prod.fst) hreads

theorem unsortedBytes_roundTrips :
    Snapshot.ofBytes (storedSnapshot.toBytes ++ [7]) = .ok storedSnapshot ∧
      Snapshot.ofBytes (unsortedBytes ++ [7]) = .ok storedSnapshot ∧
        Snapshot.ofBytes storedSnapshot.toBytes = .ok storedSnapshot := by
  have hcodec := Snapshot.codec_roundTrips
  have hstored := hcodec.1 storedSnapshot isStorable_storedSnapshot [7]
  have hread := hcodec.2 _ storedSnapshot ofBytes_unsortedBytes
  exact ⟨hstored, ofBytes_unsortedBytes, hread.2.2.2⟩

theorem halfStored_cutShort :
    ∃ fault, Snapshot.ofBytes (storedSnapshot.toBytes.take 40) = .error fault ∧
      fault.isCutShort = true :=
  Snapshot.ofBytes_cutShort isStorable_storedSnapshot
    (List.take_append_drop 40 _).symm (by decide +kernel)

end Sample

end CallGraph
