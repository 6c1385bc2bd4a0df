import ReleaseSeal.Archive.Crc32
import ReleaseSeal.Proofs.Archive.Crc32
import ReleaseSeal.Proofs.Bundle.Layout
import ReleaseSeal.Proofs.Bytes.Listing
import ReleaseSeal.Proofs.Compare.Decision

/-!
# One changed byte

Two archives that record the true sizes and checksums of their payloads, and that differ in one byte of
one file, are never accepted: a byte more or less changes the size, and a byte that is replaced changes
the checksum. The pairs in front of the changed file are accepted, so the comparison reaches it, and
fails with its path.

## Key results

- `not_recordedSame_of_changesOneByte`: one changed byte shows in the recorded values
- `judge_of_changesOneByte`: the verdict on the changed file
- `compareArchives_catches_one_byte`: the comparison fails at the changed file
-/

namespace ReleaseSeal.Archive

/-- What is recorded for an entry is the size and the checksum of its payload. -/
structure Entry.Records (e : Entry) (payload : ByteArray) : Prop where
  read : e.read = .ok payload
  size : e.size = payload.size
  checksum : e.checksum = (crc32 payload).toNat

end ReleaseSeal.Archive

namespace ReleaseSeal.Compare

open Archive (Entry crc32)

/-- One byte is replaced by another one, inserted or removed. -/
inductive ChangesOneByte : List UInt8 → List UInt8 → Prop
  | replaced {front back : List UInt8} {a b : UInt8} :
      a ≠ b → ChangesOneByte (front ++ a :: back) (front ++ b :: back)
  | inserted {front back : List UInt8} {b : UInt8} :
      ChangesOneByte (front ++ back) (front ++ b :: back)
  | removed {front back : List UInt8} {a : UInt8} :
      ChangesOneByte (front ++ a :: back) (front ++ back)

/-- A replaced byte keeps the length, any other change is one of the length. -/
theorem ChangesOneByte.exists_replaced {old new : List UInt8} (h : ChangesOneByte old new)
    (hlength : old.length = new.length) :
    ∃ front back a b, a ≠ b ∧ old = front ++ a :: back ∧ new = front ++ b :: back := by
  cases h with
  | @replaced front back a b hne => exact ⟨front, back, a, b, hne, rfl, rfl⟩
  | inserted =>
    simp only [List.length_append, List.length_cons] at hlength
    omega
  | removed =>
    simp only [List.length_append, List.length_cons] at hlength
    omega

/-- Bytes are never a change of themselves. -/
theorem ChangesOneByte.ne {old new : List UInt8} (h : ChangesOneByte old new) : old ≠ new := by
  intro hsame
  obtain ⟨front, back, a, b, hne, hold, hnew⟩ := h.exists_replaced (congrArg List.length hsame)
  rw [hold, hnew] at hsame
  exact hne (List.cons.inj (List.append_cancel_left hsame)).1

section

variable {t u : Entry} {x y : ByteArray}

/-- Entries with the same payload have the same recorded values. -/
theorem recordedSame_of_records (ht : t.Records x) (hu : u.Records x) : RecordedSame t u :=
  ⟨ht.checksum.trans hu.checksum.symm, ht.size.trans hu.size.symm⟩

/-- One changed byte shows in the recorded values: in the sizes, or else in the checksums. -/
theorem not_recordedSame_of_changesOneByte (ht : t.Records x) (hu : u.Records y)
    (hchange : ChangesOneByte x.data.toList y.data.toList) : ¬RecordedSame t u := by
  rintro ⟨hchecksum, hsize⟩
  rw [ht.size, hu.size] at hsize
  rw [ht.checksum, hu.checksum] at hchecksum
  -- with the same size, a byte has been replaced
  have hlength : x.data.toList.length = y.data.toList.length := by
    rw [length_data_toList, length_data_toList]
    exact Int.ofNat_inj.mp hsize
  obtain ⟨front, back, a, b, hne, hx, hy⟩ := hchange.exists_replaced hlength
  have hcrc : crc32 x = crc32 y := UInt32.toNat_inj.mp (Int.ofNat_inj.mp hchecksum)
  exact Archive.crc32_ne_of_replaced hne hx hy hcrc

/-- The verdict on a file in which one byte is changed, where nothing is permitted: a mismatch of at
    least one change. -/
theorem judge_of_changesOneByte {o : Options} (ht : t.Records x) (hu : u.Records y)
    (hchange : ChangesOneByte x.data.toList y.data.toList)
    (hcategory : Bundle.Category.ofPath? t.path = none)
    (hsigned : o.stripper.applies x y = false) :
    ∃ summary : Edit.Summary, 1 ≤ summary.total ∧
      judge t u false o = .ok (.fatal t.path (.content t.path summary 0)) := by
  have hpos : o.permittedIn false < Edit.distance x.data.toList y.data.toList := by
    apply Nat.pos_of_ne_zero
    rw [Ne, Edit.distance_eq_zero_iff]
    exact hchange.ne
  obtain ⟨summary, htotal, hcontent⟩ := @exists_judgeContent_of_lt t.path false o x y hpos
  refine ⟨summary, htotal, ?_⟩
  -- the payloads are compared as they are, with their signatures
  have hprepares : o.stripper.Prepares x y x y := by
    unfold Stripper.Prepares
    rw [if_neg (by simp [hsigned])]
    exact ⟨rfl, rfl⟩
  have hpayloads : judgePayloads t.path false o x y = .ok (.fatal t.path (.content t.path summary 0)) :=
    judgePayloads_eq_ok_iff.mpr ⟨x, y, hprepares, .inr ⟨by simp [hsigned], hcontent.symm⟩⟩
  exact judge_eq_ok_iff.mpr (.inr (.inr
    ⟨not_recordedSame_of_changesOneByte ht hu hchange, hcategory, x, y, ht.read, hu.read, hpayloads⟩))

end

/-- Two archives hold the same paths of one bundle and record what their payloads are, and the payloads
    of one path are the same, but for two entries of one path that are not both directories. -/
structure DifferOnlyIn (suffix root : String) (trusted untrusted : List Entry) (t u : Entry) :
    Prop where
  paths : SamePaths suffix root trusted untrusted
  records : ∀ e ∈ trusted ++ untrusted, ∃ payload, e.Records payload
  mem : t ∈ trusted
  mem' : u ∈ untrusted
  path_eq : t.path = u.path
  not_dirs : ¬AreDirs (t, u)
  same : ∀ e ∈ trusted, ∀ e' ∈ untrusted, e.path = e'.path → e.path ≠ t.path → e.read = e'.read

namespace DifferOnlyIn

variable {suffix root : String} {trusted untrusted : List Entry} {t u : Entry}

/-- Other entries of one path have the same recorded values. -/
theorem recordedSame (h : DifferOnlyIn suffix root trusted untrusted t u) {e e' : Entry}
    (he : e ∈ trusted) (he' : e' ∈ untrusted) (hpath : e.path = e'.path) (hne : e.path ≠ t.path) :
    RecordedSame e e' := by
  obtain ⟨payload, hrecords⟩ := h.records e (List.mem_append_left _ he)
  obtain ⟨payload', hrecords'⟩ := h.records e' (List.mem_append_right _ he')
  have hread := h.same e he e' he' hpath hne
  rw [hrecords.read, hrecords'.read] at hread
  obtain rfl := Except.ok.inj hread
  exact recordedSame_of_records hrecords hrecords'

/-- The pair of the two entries stands somewhere among the pairs, and the pairs in front of it are pairs
    of other paths. -/
theorem exists_pairs_eq (h : DifferOnlyIn suffix root trusted untrusted t u) :
    ∃ before after, (Pairing.of trusted untrusted .path).pairs = before ++ (t, u) :: after ∧
      ∀ pair ∈ before, pair.1 ∈ trusted ∧ pair.2 ∈ untrusted ∧ pair.1.path = pair.2.path ∧
        pair.1.path ≠ t.path := by
  obtain ⟨-, hstop⟩ := samePaths_iff.mp h.paths
  obtain ⟨hdistinct, hdistinct', hpairing⟩ := Pairing.of_stop_eq_none h.paths.length_eq hstop
  have hmem := (hpairing.mem_iff hdistinct').mpr ⟨h.mem, h.mem', h.path_eq⟩
  obtain ⟨before, after, hpairs⟩ := List.append_of_mem hmem
  refine ⟨before, after, hpairs, fun pair hpair => ?_⟩
  have hin : pair ∈ (Pairing.of trusted untrusted .path).pairs :=
    hpairs ▸ List.mem_append_left _ hpair
  obtain ⟨hfst, hsnd, hpath⟩ := (hpairing.mem_iff hdistinct').mp hin
  refine ⟨hfst, hsnd, hpath, fun hsame => ?_⟩
  -- the trusted paths are those of the pairs in order, so the path of the pair would occur twice
  rw [← hpairing.fst, hpairs, List.map_append, List.map_append, List.nodup_append] at hdistinct
  refine hdistinct.2.2 pair.1.path ?_ t.path ?_ hsame
  · exact List.mem_map_of_mem (List.mem_map_of_mem hpair)
  · exact List.mem_cons_self

end DifferOnlyIn

/-- One changed byte is always caught. If two archives hold the same paths of one bundle, record what
    their payloads are, and differ in one byte of one file only, then a comparison by path fails with a
    content mismatch at the path of that file, of at least one change where none is permitted; provided
    that the file is not the main executable, its path is not one of a file that may differ, no
    signatures are taken off it, and the entry with the information of the trusted bundle raises no fault. -/
theorem compareArchives_catches_one_byte [Host] {o : Options} {root : String}
    {trusted untrusted : List Entry} {t u : Entry} {x y : ByteArray} (hby : o.pairBy = .path)
    (h : DifferOnlyIn o.suffix root trusted untrusted t u)
    (hinfo : ∀ e, Bundle.entryOfInfo? trusted root = some e → ∀ payload, e.read = .ok payload →
      ∀ fault, Plist.decode payload ≠ .error (.fault fault))
    (hmain : ∀ layout, Bundle.Layout.find trusted root o.suffix = .ok layout →
      layout.executable ≠ some t.path)
    (hcategory : Bundle.Category.ofPath? t.path = none) (hx : t.read = .ok x) (hy : u.read = .ok y)
    (hsigned : o.stripper.applies x y = false)
    (hchange : ChangesOneByte x.data.toList y.data.toList) :
    ∃ summary : Edit.Summary, 1 ≤ summary.total ∧
      compareArchives trusted untrusted o = .error (.mismatch (.content t.path summary 0)) := by
  have htrusted {e : Entry} (he : e ∈ trusted) : ∃ payload, e.Records payload :=
    h.records e (List.mem_append_left _ he)
  obtain ⟨layout, hlayout⟩ := @Bundle.Layout.exists_find trusted root o.suffix _
    (fun e he => (htrusted he).imp fun _ hrecords => hrecords.read) hinfo
  -- what is recorded for the two entries is about the payloads that are read
  obtain ⟨x', ht⟩ := htrusted h.mem
  obtain ⟨y', hu⟩ := h.records u (List.mem_append_right _ h.mem')
  obtain rfl := Except.ok.inj (hx.symm.trans ht.read)
  obtain rfl := Except.ok.inj (hy.symm.trans hu.read)
  obtain ⟨summary, htotal, hjudge⟩ := judge_of_changesOneByte ht hu hchange hcategory hsigned
  refine ⟨summary, htotal, ?_⟩
  have hnotMain : (layout.executable == some t.path) = false := beq_false_of_ne (hmain layout hlayout)
  obtain ⟨before, after, hpairs, hbefore⟩ := h.exists_pairs_eq
  apply compareArchives_eq_error (samePaths_iff.mp h.paths).1 hlayout
  rw [hby, hpairs]
  apply foldlM_addPair_eq_error _ h.not_dirs
  · rw [show (Comparison.start root layout).mainExecutable = layout.executable from rfl, hnotMain]
    exact hjudge
  · intro pair hpair _
    -- a pair in front is accepted for its recorded values
    obtain ⟨hfst, hsnd, hpath, hne⟩ := hbefore pair hpair
    have hsame := h.recordedSame hfst hsnd hpath hne
    exact ⟨.identical pair.1.path, judge_eq_ok_iff.mpr (.inl ⟨hsame, rfl⟩),
      fun ⟨_, _, hno⟩ => nomatch hno⟩

/-! ## A replaced byte -/

/-- A file for which the true size and checksum are recorded. -/
def fileOf (path : String) (bytes : ByteArray) : Entry :=
  fileWith path (crc32 bytes).toNat bytes

theorem records_fileOf (path : String) (bytes : ByteArray) : (fileOf path bytes).Records bytes :=
  ⟨rfl, rfl, rfl⟩

/-- A byte is replaced in a file of a bundle whose information cannot be decoded, and the entries of the
    other archive are in another order: the comparison fails at the file. -/
theorem compareArchives_catches_replaced_byte :
    let info := fileOf "A.app/Contents/Info.plist" ⟨#[0]⟩
    let main := fileOf "A.app/Contents/MacOS/A" ⟨#[1]⟩
    let t := fileOf "A.app/notes" ⟨#[1, 2, 3]⟩
    let u := fileOf "A.app/notes" ⟨#[1, 9, 3]⟩
    DifferOnlyIn ".app" "A.app" [info, main, t] [u, info, main] t u ∧
      ChangesOneByte [1, 2, 3] [1, 9, 3] ∧
      ∃ summary : Edit.Summary, 1 ≤ summary.total ∧
        compareArchives [info, main, t] [u, info, main] .standard =
          .error (.mismatch (.content "A.app/notes" summary 0)) := by
  intro info main t u
  have hinfoRoot : Bundle.rootOf? info.path = some "A.app" := by decide
  have hmainRoot : Bundle.rootOf? main.path = some "A.app" := by decide
  have htRoot : Bundle.rootOf? t.path = some "A.app" := by decide
  have huRoot : Bundle.rootOf? u.path = some "A.app" := htRoot
  have hpaths : SamePaths ".app" "A.app" [info, main, t] [u, info, main] :=
    { length_eq := rfl
      root_suffix := by decide
      trusted_root := fun name => by simp [hinfoRoot, hmainRoot, htRoot, eq_comm]
      untrusted_root := fun name => by simp [hinfoRoot, hmainRoot, huRoot, eq_comm]
      trusted_distinct := by decide
      untrusted_distinct := by decide
      path_iff := fun path => by
        simp only [List.map_cons, List.map_nil, List.mem_cons, List.not_mem_nil, or_false,
          show u.path = t.path from rfl]
        tauto }
  have hrecords : ∀ e ∈ [info, main, t] ++ [u, info, main], ∃ payload, e.Records payload := by
    intro e he
    simp only [List.cons_append, List.nil_append, List.mem_cons, List.not_mem_nil, or_false] at he
    obtain rfl | rfl | rfl | rfl | rfl | rfl := he <;> exact ⟨_, records_fileOf _ _⟩
  have hdiffer : DifferOnlyIn ".app" "A.app" [info, main, t] [u, info, main] t u :=
    { paths := hpaths
      records := hrecords
      mem := by simp
      mem' := by simp
      path_eq := rfl
      not_dirs := by decide
      same := by
        intro e he e' he' hpath hne
        simp only [List.mem_cons, List.not_mem_nil, or_false] at he he'
        -- two entries of one path other than that of the file are one entry
        obtain rfl | rfl | rfl := he
        · obtain rfl | rfl | rfl := he'
          · exact absurd hpath (by decide)
          · rfl
          · exact absurd hpath (by decide)
        · obtain rfl | rfl | rfl := he'
          · exact absurd hpath (by decide)
          · exact absurd hpath (by decide)
          · rfl
        · exact absurd rfl hne }
  have hchange : ChangesOneByte [1, 2, 3] [1, 9, 3] :=
    @ChangesOneByte.replaced [1] [3] 2 9 (by decide)
  have hlayout : Bundle.Layout.find [info, main, t] "A.app" ".app" =
      .ok { executable := some "A.app/Contents/MacOS/A", info := none } := rfl
  refine ⟨hdiffer, hchange, ?_⟩
  refine @compareArchives_catches_one_byte _ .standard "A.app" _ _ t u ⟨#[1, 2, 3]⟩ ⟨#[1, 9, 3]⟩ rfl
    hdiffer ?_ ?_ (by decide) rfl rfl rfl hchange
  · intro e hfound payload hpayload fault
    obtain rfl : info = e := Option.some.inj hfound
    -- one byte is no property list
    obtain rfl := Except.ok.inj (hpayload.symm.trans (records_fileOf _ _).read)
    exact nofun
  · intro layout hfound
    obtain rfl := Except.ok.inj (hlayout.symm.trans hfound)
    decide

end ReleaseSeal.Compare
