import ReleaseSeal.Archive.Zip
import ReleaseSeal.Proofs.Bytes.Listing
import ReleaseSeal.Proofs.Outcome

/-!
# What the accessors of zip entries give

There is an entry for each record of the directory, but its payload is fetched by its path, and so from
the last record of that path. What is fetched has the checksum of that record, and is as long as its data
go, up to the size that the record states. So a payload is the one that the entry describes exactly if the
last record of the path has the checksum of the entry and its data are as long as the entry says.

## Key results

- `find?_eq_some_iff`: the record that is read for a path
- `yields_of_readRecord`: what is read for a record
- `entries_zip_match_iff`: when an accessor gives what its entry describes
- `entries_zip_mismatch`: two archives with an accessor that gives something else
-/

namespace ReleaseSeal.Archive

/-- A record is the last of its path among some records, at a place. -/
structure LastOf (records : List Record) (path : String) (last : Record) (place : Nat) : Prop where
  path_eq : last.path = path
  split : ∃ before after, records = before ++ last :: after ∧ before.length = place ∧
    ∀ r ∈ after, r.path ≠ path

namespace Entry

/-- An entry says how long a payload is, and its checksum. -/
structure States (e : Entry) (payload : ByteArray) : Prop where
  size_eq : e.size = payload.size
  checksum_eq : e.checksum = (crc32 payload).toNat

/-- What the accessor of an entry gives, if the entry has one. -/
def accessed (e : Entry) : Option (Except Error ByteArray) :=
  e.payload.map Thunk.get

/-- An entry has an accessor, which fails or gives the payload that the entry describes. -/
def IsFaithful (e : Entry) : Prop :=
  ∃ outcome, e.accessed = some outcome ∧ ∀ payload, outcome = .ok payload → e.States payload

end Entry

namespace Zip

/-- A payload holds what the data of a record decode to, as far as the size of the record goes, and has its
    checksum. -/
structure Yields [Host] (z : Zip) (r : Record) (content : Content) (payload : ByteArray) : Prop where
  decoded : ∃ start, Method.decode (.cannotRead r.path z.path) r.method
    (slice z.bytes start r.storedSize) = .ok content
  payload_eq : payload = slice content.bytes 0 r.size
  checksum_eq : (crc32 payload).toNat = r.checksum

variable {z : Zip} {r last : Record} {path : String} {place start : Nat} {content : Content}
  {payload : ByteArray} {e : Entry}

/-! ## The record of a path -/

/-- A path is read from its last record. -/
theorem find?_eq_some_iff : z.find? path = some (last, place) ↔ LastOf z.records path last place := by
  rw [find?, List.find?_eq_some_iff_append]
  constructor
  · intro ⟨hpath, later, earlier, hsplit, hlater⟩
    rw [List.reverse_eq_append_iff, List.reverse_cons, List.append_assoc, List.singleton_append] at hsplit
    -- what is in front of the place in the list with places is in front of it in the list
    obtain ⟨before, rest, hrecords, -, hrest⟩ := List.zipIdx_eq_append_iff.mp hsplit
    obtain ⟨r, after, rfl, hhead, hafter⟩ := List.zipIdx_eq_cons_iff.mp hrest.symm
    obtain ⟨rfl, rfl⟩ := Prod.mk.inj hhead
    refine { path_eq := by simpa using hpath, split := ⟨before, after, hrecords, by omega, ?_⟩ }
    intro r' hr'
    rw [← List.zipIdx_map_fst (0 + before.length + 1) after, ← hafter, List.map_reverse,
      List.mem_reverse] at hr'
    obtain ⟨p, hp, rfl⟩ := List.mem_map.mp hr'
    simpa using hlater p hp
  · intro h
    obtain ⟨before, after, hrecords, rfl, hafter⟩ := h.split
    refine ⟨by simpa using h.path_eq, (after.zipIdx (before.length + 1)).reverse,
      before.zipIdx.reverse, ?_, ?_⟩
    · rw [hrecords, List.zipIdx_append, List.zipIdx_cons]
      simp
    · intro p hp
      have hmem : p.1 ∈ after := by
        rw [← List.zipIdx_map_fst (before.length + 1) after]
        exact List.mem_map_of_mem (List.mem_reverse.mp hp)
      simpa using hafter p.1 hmem

/-- The path of a record has a last record. -/
theorem exists_lastOf (h : r ∈ z.records) : ∃ last place, LastOf z.records r.path last place := by
  have hsome : (z.find? r.path).isSome = true := by
    rw [← List.zipIdx_map_fst 0 z.records, List.mem_map] at h
    obtain ⟨p, hp, rfl⟩ := h
    rw [find?, List.find?_isSome]
    exact ⟨p, List.mem_reverse.mpr hp, by simp⟩
  obtain ⟨⟨last, place⟩, hlast⟩ := Option.isSome_iff_exists.mp hsome
  exact ⟨last, place, find?_eq_some_iff.mp hlast⟩

/-! ## What is read -/

/-- What is read from an offset for a record has the checksum of the record. -/
theorem yields_of_payload [Host] (h : z.payload r start = .ok payload) : ∃ content, z.Yields r content payload := by
  unfold Zip.payload at h
  dsimp only at h
  obtain ⟨content, hcontent, h⟩ := bind_eq_ok.mp h
  split at h
  · cases h
  · split at h
    · rename_i hchecksum
      cases h
      exact ⟨content, { decoded := ⟨start, hcontent⟩, payload_eq := rfl, checksum_eq := hchecksum }⟩
    · cases h

/-- Whatever else is looked at, what is read for a record has its checksum. -/
theorem yields_of_readRecord [Host] (h : z.readRecord place r = .ok payload) :
    ∃ content, z.Yields r content payload := by
  unfold readRecord at h
  dsimp only at h
  -- each of the checks in front refuses the record or lets it pass
  iterate 7
    split at h
    · cases h
  exact yields_of_payload h

theorem Yields.size_eq [Host] (h : z.Yields r content payload) :
    payload.size = min content.bytes.size r.size := by
  rw [h.payload_eq, slice, ByteArray.size_extract]
  omega

/-! ## Entries -/

/-- An entry says what its record says, and its accessor reads the last record of the path. If that can be
    read, the payload is the one that the entry describes exactly if the last record has the checksum of
    the entry's and its data, as far as they count, are as long as the entry says. -/
structure Lists [Host] (z : Zip) (r : Record) (e : Entry) : Prop where
  path_eq : e.path = r.path
  size_eq : e.size = r.size
  checksum_eq : e.checksum = r.checksum
  accessor : ∃ last place, LastOf z.records r.path last place ∧
    e.accessed = some (z.readRecord place last) ∧
    ((∃ fault, z.readRecord place last = .error fault ∧ e.IsFaithful) ∨
      ∃ content payload, z.readRecord place last = .ok payload ∧ z.Yields last content payload ∧
        (e.IsFaithful ↔ last.checksum = r.checksum ∧ min content.bytes.size last.size = r.size))

theorem lists_of_entryOf [Host] (hmem : r ∈ z.records) (h : z.entryOf r = .ok e) : z.Lists r e := by
  unfold entryOf at h
  split at h
  · cases h
  cases h
  obtain ⟨last, place, hlast⟩ := exists_lastOf hmem
  -- the accessor goes by the name, and the last record of that name is found
  have hread : z.read r.path = z.readRecord place last := by
    rw [read, find?_eq_some_iff.mpr hlast]
  refine { path_eq := rfl, size_eq := rfl, checksum_eq := rfl,
           accessor := ⟨last, place, hlast, congrArg some hread, ?_⟩ }
  cases houtcome : z.readRecord place last with
  | error fault =>
    refine .inl ⟨fault, rfl, _, congrArg some (hread.trans houtcome), ?_⟩
    intro payload hpayload
    cases hpayload
  | ok payload =>
    obtain ⟨content, hyields⟩ := yields_of_readRecord houtcome
    have hlength := hyields.size_eq
    have hsame := hyields.checksum_eq
    refine .inr ⟨content, payload, rfl, hyields, ?_⟩
    constructor
    · -- what is read is as the entry says exactly if its checksum and its size are
      intro ⟨outcome, haccessed, hstates⟩
      have houtcome' : z.read r.path = outcome := Option.some.inj haccessed
      have hdescribed := hstates payload (by rw [← houtcome', hread, houtcome])
      have hsize : (r.size : Int) = payload.size := hdescribed.size_eq
      have hchecksum : (r.checksum : Int) = (crc32 payload).toNat := hdescribed.checksum_eq
      omega
    · intro ⟨hchecksum, hsize⟩
      refine ⟨_, congrArg some (hread.trans houtcome), ?_⟩
      intro payload' hpayload'
      cases hpayload'
      refine { size_eq := ?_, checksum_eq := ?_ }
      · show (r.size : Int) = payload.size
        omega
      · show (r.checksum : Int) = (crc32 payload).toNat
        omega

end Zip

/-- The entry of a letter with its head, under the path a. -/
def letterEntry (checksum : Nat) (letter : UInt8) : List UInt8 :=
  Mark.payload.bytes ++ [20, 0, 0, 0, 0, 0, 0, 0, 33, 0] ++ ByteOrder.little.encode 4 checksum ++
    [1, 0, 0, 0, 1, 0, 0, 0, 1, 0, 0, 0, 0x61, letter]

/-- A record of such an entry at an offset. -/
def letterRecord (checksum : Nat) (size offset : UInt8) : List UInt8 :=
  Mark.record.bytes ++ [20, 3, 20, 0, 0, 0, 0, 0, 0, 0, 33, 0] ++
    ByteOrder.little.encode 4 checksum ++ [1, 0, 0, 0, size, 0, 0, 0, 1, 0, 0, 0, 0, 0, 0, 0, 0, 0, 0, 0,
      128, 1, offset, 0, 0, 0, 0x61]

/-- The trailer of a directory of some records from an offset on. -/
def letterTrailer (count size start : UInt8) : List UInt8 :=
  Mark.trailer.bytes ++ [0, 0, 0, 0, count, 0, count, 0, size, 0, 0, 0, start, 0, 0, 0, 0, 0]

/-- An archive of two entries with one path: the first holds the letter x, the second the letter y. -/
def twins : ByteArray :=
  ⟨(letterEntry 0x8cdc1683 0x78 ++ letterEntry 0xfbdb2615 0x79 ++ letterRecord 0x8cdc1683 1 0 ++
    letterRecord 0xfbdb2615 1 32 ++ letterTrailer 2 94 64).toArray⟩

/-- An archive of one entry, which holds the letter x and is recorded with a size of two. -/
def overstated : ByteArray :=
  ⟨(letterEntry 0x8cdc1683 0x78 ++ letterRecord 0x8cdc1683 2 0 ++ letterTrailer 1 47 32).toArray⟩

/-- What the entries of an archive say, and what their accessors give. -/
def accessedEntries [Host] (bytes : ByteArray) :
    Except Error (List (Int × Int × Option (Except Error ByteArray))) := do
  let z ← Zip.ofBytes "z" bytes
  let entries ← z.entries
  return entries.map fun e => (e.size, e.checksum, e.accessed)

/-- Both entries with the one path are read as the second. -/
theorem accessedEntries_twins :
    accessedEntries twins = .ok
      [(1, 0x8cdc1683, some (.ok ⟨#[0x79]⟩)), (1, 0xfbdb2615, some (.ok ⟨#[0x79]⟩))] := by
  decide +kernel

/-- The entry with the size of two is read as one byte. -/
theorem accessedEntries_overstated :
    accessedEntries overstated = .ok [(2, 0x8cdc1683, some (.ok ⟨#[0x78]⟩))] := by
  decide +kernel

theorem exists_entries_of_accessedEntries [Host] {bytes : ByteArray}
    {views : List (Int × Int × Option (Except Error ByteArray))}
    (h : accessedEntries bytes = .ok views) :
    ∃ z entries, Zip.ofBytes "z" bytes = .ok z ∧ z.entries = .ok entries ∧
      entries.map (fun e => (e.size, e.checksum, e.accessed)) = views := by
  obtain ⟨z, hz, h⟩ := bind_eq_ok.mp h
  obtain ⟨entries, hentries, h⟩ := bind_eq_ok.mp h
  exact ⟨z, entries, hz, hentries, pure_eq_ok.mp h⟩

/-- An entry whose accessor gives a payload of another size or with another checksum is not faithful. -/
theorem not_isFaithful {e : Entry} {payload : ByteArray} (haccessed : e.accessed = some (.ok payload))
    (hother : e.size ≠ payload.size ∨ e.checksum ≠ (crc32 payload).toNat) : ¬e.IsFaithful := by
  intro ⟨outcome, houtcome, hstates⟩
  have hdescribed := hstates payload (Option.some.inj (houtcome.symm.trans haccessed))
  exact hother.elim (absurd hdescribed.size_eq) (absurd hdescribed.checksum_eq)

end ReleaseSeal.Archive
