import ReleaseSeal.MachO.Signature
import ReleaseSeal.Proofs.MachO.Signatures
import ReleaseSeal.Proofs.Outcome

/-!
# Embedded entitlements

A thin binary in either byte order locates its signature by a load command. The signature is an index of
blobs in big-endian order, and the first blob with the mark of entitlements holds them. Whatever the
other commands and the other blobs are, the reader finds that blob, and there are no entitlements
where there is none.

## Key results

- `readSignature_eq_ok_iff`: the entitlements of a signature
- `sliceEntitlements_eq_ok_iff`: the entitlements of a thin binary, signature by signature
- `readEntitlements_embedded`: the entitlements of a binary with one signature
-/

namespace ReleaseSeal.Entitlements

/-! ## Payloads -/

variable {arch : Option String} {payload : ByteArray}

/-- Entitlements hold the dictionary that their payload decodes to. -/
theorem ofPayload_eq_ok_iff [Host] {e : Entitlements} :
    ofPayload arch payload = .ok e ↔
      ∃ values, Plist.decode payload = .ok (.dict values) ∧ e = { values, arch } := by
  unfold ofPayload
  generalize Plist.decode payload = outcome
  cases outcome with
  | ok value => cases value <;> simp [@eq_comm _ _ e]
  | error failure => cases failure <;> simp

/-- Why there are no entitlements: the payload holds another value, is malformed, or raises a fault. -/
theorem ofPayload_eq_error_iff [Host] {error : MachO.Error} :
    ofPayload arch payload = .error error ↔
      (∃ value, Plist.decode payload = .ok value ∧ (∀ values, value ≠ .dict values) ∧
          error = .payloadNotDictionary value.typeName) ∨
        (Plist.decode payload = .error .malformed ∧ error = .unreadablePayload) ∨
        ∃ fault, Plist.decode payload = .error (.fault fault) ∧ error = .payloadFault fault := by
  unfold ofPayload
  generalize Plist.decode payload = outcome
  cases outcome with
  | ok value => cases value <;> simp [@eq_comm _ _ error]
  | error failure => cases failure <;> simp [@eq_comm _ _ error]

end ReleaseSeal.Entitlements

namespace ReleaseSeal.MachO

/-! ## Signatures -/

/-- Where the blob of an index entry starts, in the signature at an offset. -/
def blobStart (bytes : ByteArray) (offset index : Nat) : Nat :=
  offset + (wordAt .big bytes (offset + signatureHeadSize + index * blobIndexSize + 4)).toNat

/-- From an index entry on, the blobs start at the given offsets, and each has a mark. -/
def HoldsIndex (bytes : ByteArray) (offset : Nat) : Nat → List Nat → Prop
  | _, [] => True
  | index, blob :: rest =>
    offset + signatureHeadSize + index * blobIndexSize + blobIndexSize ≤ bytes.size ∧
      blob = blobStart bytes offset index ∧ blob + 4 ≤ bytes.size ∧
        HoldsIndex bytes offset (index + 1) rest

/-- Whether an index leads to given blobs can be computed. -/
def HoldsIndex.decidable (bytes : ByteArray) (offset : Nat) :
    (index : Nat) → (blobs : List Nat) → Decidable (HoldsIndex bytes offset index blobs)
  | _, [] => .isTrue trivial
  | index, blob :: rest =>
    have := HoldsIndex.decidable bytes offset (index + 1) rest
    inferInstanceAs (Decidable
      (offset + signatureHeadSize + index * blobIndexSize + blobIndexSize ≤ bytes.size ∧
        blob = blobStart bytes offset index ∧ blob + 4 ≤ bytes.size ∧
          HoldsIndex bytes offset (index + 1) rest))

instance {bytes : ByteArray} {offset index : Nat} {blobs : List Nat} :
    Decidable (HoldsIndex bytes offset index blobs) :=
  HoldsIndex.decidable bytes offset index blobs

/-- A signature at an offset, whose blobs start at the given offsets. -/
structure HoldsSignature (bytes : ByteArray) (offset : Nat) (blobs : List Nat) : Prop where
  head_le : offset + signatureHeadSize ≤ bytes.size
  magic : wordAt .big bytes offset = signatureMagic
  count : (wordAt .big bytes (offset + 8)).toNat = blobs.length
  le_max : blobs.length ≤ maxBlobs
  index : HoldsIndex bytes offset 0 blobs

/-- The first blob with the mark of entitlements. -/
def entitlementsBlob? (bytes : ByteArray) (blobs : List Nat) : Option Nat :=
  blobs.find? fun blob => wordAt .big bytes blob = entitlementsMagic

/-- The size of a blob, its head included. -/
def blobSize (bytes : ByteArray) (blob : Nat) : Nat :=
  (wordAt .big bytes (blob + 4)).toNat

/-- The bytes of a blob behind its head. -/
def blobPayload (bytes : ByteArray) (blob : Nat) : ByteArray :=
  slice bytes (blob + blobHeadSize) (blobSize bytes blob - blobHeadSize)

/-- A blob has a size that is admitted, and its payload is in the bytes. -/
structure HoldsBlob (bytes : ByteArray) (blob : Nat) : Prop where
  head_le : blob + blobHeadSize ≤ bytes.size
  size_ge : blobHeadSize ≤ blobSize bytes blob
  size_le : blobSize bytes blob ≤ blobHeadSize + maxPayload
  inside : blob + blobSize bytes blob ≤ bytes.size

/-- What the blobs of a signature hold: the entitlements in the first blob with their mark, or none if
    there is no such blob. -/
def BlobsHold [Host] (arch : Option String) (bytes : ByteArray) (blobs : List Nat) :
    Option Entitlements → Prop
  | none => entitlementsBlob? bytes blobs = none
  | some e => ∃ blob, entitlementsBlob? bytes blobs = some blob ∧ HoldsBlob bytes blob ∧
      Entitlements.ofPayload arch (blobPayload bytes blob) = .ok e

section Signature

variable {f : Frame} {arch : Option String} {offset i : Nat} {blobs : List Nat}

/-- Behind the mark of a blob, the entitlements in its payload are read. -/
theorem yields_readPayload_iff [Host] (hbig : f.order = .big) {blob : Nat} {e : Entitlements} :
    (∃ j, Reading.Yields f (blob + 4) (readPayload arch) e j) ↔
      HoldsBlob f.bytes blob ∧ Entitlements.ofPayload arch (blobPayload f.bytes blob) = .ok e := by
  have hread : (∃ j, Reading.Yields f (blob + 4) (readPayload arch) e j) ↔
      blob + 8 ≤ f.bytes.size ∧ 8 ≤ blobSize f.bytes blob ∧ blobSize f.bytes blob - 8 ≤ maxPayload ∧
        blob + (8 + (blobSize f.bytes blob - 8)) ≤ f.bytes.size ∧
          Entitlements.ofPayload arch (blobPayload f.bytes blob) = .ok e := by
    simp only [readPayload, Reading.yields_bind, Reading.yields_word, Reading.yields_guard,
      Reading.yields_take, Reading.yields_ofOutcome, hbig, and_assoc, exists_and_left, existsAndEq,
      true_and, and_true, Nat.not_lt, Frame.size, Nat.add_assoc, Nat.reduceAdd]
    rfl
  rw [hread]
  constructor
  · rintro ⟨hhead, hge, hle, hin, he⟩
    exact ⟨⟨hhead, hge, by unfold blobHeadSize; omega, by omega⟩, he⟩
  · rintro ⟨⟨hhead, hge, hle, hin⟩, he⟩
    unfold blobHeadSize at hhead hge hle
    exact ⟨hhead, hge, by omega, by omega, he⟩

/-- The search through an index finds the first blob of entitlements. -/
theorem yields_findEntitlements_iff [Host] (hbig : f.order = .big) {index : Nat} {e : Option Entitlements}
    (h : HoldsIndex f.bytes offset index blobs) :
    (∃ j, Reading.Yields f i (findEntitlements arch offset blobs.length index) e j) ↔
      BlobsHold arch f.bytes blobs e := by
  -- by induction on the entries that are left; each is sought by its index, so the reader may be anywhere
  induction blobs generalizing i index with
  | nil => cases e <;> simp [findEntitlements, BlobsHold, entitlementsBlob?]
  | cons blob rest ih =>
    obtain ⟨hin, hblob, hmark, hrest⟩ := h
    rw [blobStart] at hblob
    -- the entry leads to the blob and its mark
    have hstep : (∃ j, Reading.Yields f i
        (findEntitlements arch offset (blob :: rest).length index) e j) ↔
          ∃ j, Reading.Yields f (blob + 4) (if wordAt .big f.bytes blob = entitlementsMagic then
            do return some (← readPayload arch)
            else findEntitlements arch offset rest.length (index + 1)) e j := by
      refine exists_congr fun j => ?_
      simp only [List.length_cons, findEntitlements, Reading.yields_bind, Reading.yields_seek_natCast,
        Reading.yields_wordPair, Reading.yields_word, hbig, and_assoc, exists_and_left, existsAndEq,
        true_and, exists_const, ← hblob]
      constructor
      · rintro ⟨-, -, -, -, hrest⟩
        exact hrest
      · intro hrest
        exact ⟨Nat.le_trans (Nat.le_add_right ..) hin, hin,
          Nat.le_trans (Nat.le_add_right ..) hmark, hmark, hrest⟩
    rw [hstep]
    by_cases hmagic : wordAt .big f.bytes blob = entitlementsMagic
    · have hfirst : entitlementsBlob? f.bytes (blob :: rest) = some blob := by
        simp [entitlementsBlob?, hmagic]
      rw [if_pos hmagic]
      cases e with
      | none => simp [BlobsHold, hfirst]
      | some e =>
        simp only [Reading.yields_bind, Reading.yields_pure, Option.some.injEq, existsAndEq, true_and,
          and_true, BlobsHold, hfirst, yields_readPayload_iff hbig]
    · have hlater : BlobsHold arch f.bytes (blob :: rest) e ↔ BlobsHold arch f.bytes rest e := by
        cases e <;> simp [BlobsHold, entitlementsBlob?, hmagic]
      rw [if_neg hmagic, hlater]
      exact ih hrest

/-- The entitlements of a signature are those in its first blob with their mark. -/
theorem readSignature_eq_ok_iff [Host] (hbig : f.order = .big) {e : Option Entitlements}
    (h : HoldsSignature f.bytes offset blobs) :
    Reading.result f (readSignature arch offset) = .ok e ↔
      BlobsHold arch f.bytes blobs e := by
  -- the search starts behind the head of the signature, at the first entry
  have hsearch := @yields_findEntitlements_iff f arch offset (offset + signatureHeadSize) blobs _ hbig 0 e
    h.index
  rw [Reading.result_eq_ok_iff, ← hsearch]
  refine exists_congr fun j => ?_
  simp only [readSignature, Reading.yields_bind, Reading.yields_seek_natCast, Reading.yields_record,
    Reading.yields_read, Reading.yields_guard, hbig, and_assoc, exists_and_left, existsAndEq,
    true_and, exists_const, h.magic, h.count]
  constructor
  · rintro ⟨-, -, -, -, hfind⟩
    exact hfind
  · intro hfind
    have hin := h.head_le
    exact ⟨Nat.le_trans (Nat.le_add_right ..) hin, hin, not_not_intro rfl, Nat.not_lt.mpr h.le_max,
      hfind⟩

end Signature

/-! ## Thin binaries -/

section Thin

variable {f : Frame} {arch : Option String}

/-- What a command that locates a signature adds to the entitlements. A signature of size zero has been
    removed. -/
def PlacedCommand.FindsEntitlements [Host] (f : Frame) (arch : Option String) (c : PlacedCommand)
    (e : Option Entitlements) : Prop :=
  c.locator + 8 ≤ f.size ∧
    if c.signatureSize f = 0 then e = none
    else Reading.result (f.withOrder (some .big)) (readSignature arch (c.signatureOffset f)) = .ok e

theorem yields_collectEntitlements_iff [Host] {c : PlacedCommand} (hc : c.IsSignature)
    {found found' : List Entitlements} :
    (∃ j, Reading.Yields f c.locator (collectEntitlements arch c.start c.command found) found' j) ↔
      ∃ e, c.FindsEntitlements f arch e ∧ found' = found ++ e.toList := by
  have hkind : c.command.kind = LoadCommand.codeSignature := hc
  have hsize : wordAt f.order f.bytes (c.locator + 4) = 0 ↔ c.signatureSize f = 0 :=
    UInt32.toNat_inj.symm
  simp only [collectEntitlements, hkind, ne_eq, not_true, if_false, Reading.yields_bind,
    Reading.yields_wordPair, and_assoc, exists_and_left, existsAndEq, true_and,
    PlacedCommand.FindsEntitlements, hsize]
  refine and_congr_right fun _ => ?_
  -- a signature that was removed is not read
  by_cases hremoved : c.signatureSize f = 0
  · simp [hremoved]
  · simp only [hremoved, if_false, Reading.yields_bind, Reading.yields_read, Reading.yields_on,
      and_assoc, existsAndEq, true_and]
    constructor
    · rintro ⟨_, e, he, h⟩
      cases e with
      | none => exact ⟨none, he, by simpa using (Reading.yields_pure.mp h).1⟩
      | some e => exact ⟨some e, he, (Reading.yields_pure.mp h).1⟩
    · rintro ⟨e, he, rfl⟩
      cases e with
      | none => exact ⟨_, none, he, Reading.yields_pure.mpr ⟨List.append_nil _, rfl⟩⟩
      | some e => exact ⟨_, some e, he, Reading.yields_pure.mpr ⟨rfl, rfl⟩⟩

/-- A command that locates no signature adds nothing. -/
theorem yields_collectEntitlements_of_not_isSignature [Host] {c : PlacedCommand} (hc : ¬c.IsSignature)
    {found found' : List Entitlements} :
    (∃ j, Reading.Yields f c.locator (collectEntitlements arch c.start c.command found) found' j) ↔
      found' = found := by
  have hkind : c.command.kind ≠ LoadCommand.codeSignature := hc
  simp [collectEntitlements, hkind]

/-- The entitlements of a thin binary are those of its signatures, in order. -/
theorem sliceEntitlements_eq_ok_iff [Host] (B : ThinBinary f) {es : List Entitlements} :
    Reading.result f (sliceEntitlements arch B.header) = .ok es ↔
      ∃ found, List.Forall₂ (PlacedCommand.FindsEntitlements f (some (sliceName arch B.header)))
          B.signatures found ∧
        es = found.flatMap Option.toList := by
  rw [sliceEntitlements, B.walk_signatures_iff fun c hc s t =>
    yields_collectEntitlements_of_not_isSignature hc, visits_iff fun c hc s t =>
    yields_collectEntitlements_iff (ThinBinary.mem_signatures.mp hc).2]
  refine exists_congr fun found => and_congr_right fun _ => ?_
  rw [List.flatMap_eq_foldl]

/-- The entitlements in a frame at whose start a thin binary stands are those of its slice. -/
theorem entitlementsIn_thin [Host] (B : ThinBinary f) {fatLevels : Nat} :
    entitlementsIn fatLevels arch f = Reading.result f (sliceEntitlements arch B.header) := by
  rw [entitlementsIn, B.classify_eq]
  rfl

theorem readEntitlements_thin [Host] (B : ThinBinary f) :
    readEntitlements f 0 arch 0 = Reading.result f (sliceEntitlements arch B.header) :=
  entitlementsIn_thin B

/-- The entitlements embedded in a thin binary. Without a command that locates a signature there are
    none. With one that locates a signature, there are none if no blob has the mark of entitlements;
    else, if the first blob that has it holds a property list of a dictionary, they are the pairs of that
    dictionary under the name of the binary's architecture. -/
theorem readEntitlements_embedded [Host] {bytes : ByteArray} {order : ByteOrder}
    (B : ThinBinary ⟨bytes, order⟩) :
    (B.signatures = [] → readEntitlements (.ofBytes none bytes) 0 none 0 = .ok []) ∧
    ∀ c blobs, B.signatures = [c] → c.locator + 8 ≤ bytes.size →
      c.signatureSize ⟨bytes, order⟩ ≠ 0 →
      HoldsSignature bytes (c.signatureOffset ⟨bytes, order⟩) blobs →
        (entitlementsBlob? bytes blobs = none →
          readEntitlements (.ofBytes none bytes) 0 none 0 = .ok []) ∧
        ∀ blob values, entitlementsBlob? bytes blobs = some blob → HoldsBlob bytes blob →
          Plist.decode (blobPayload bytes blob) = .ok (.dict values) →
            readEntitlements (.ofBytes none bytes) 0 none 0 =
              .ok [{ values, arch := some B.header.name }] := by
  -- the reader finds the byte order of the binary
  have hframe : Frame.ofBytes none bytes = ⟨bytes, order⟩ :=
    congrArg (Frame.mk bytes) (probeOrder_eq_of_holdsWords B.opens)
  rw [hframe]
  refine ⟨fun hnone => ?_, fun c blobs hone hlocator hsize hsignature => ?_⟩
  · exact (readEntitlements_thin B).trans
      ((sliceEntitlements_eq_ok_iff B).mpr ⟨[], hnone ▸ .nil, rfl⟩)
  -- what the one signature holds is all there is
  have hholds (e : Option Entitlements) (he : BlobsHold (some B.header.name) bytes blobs e) :
      readEntitlements ⟨bytes, order⟩ 0 none 0 = .ok e.toList := by
    have hread := (@readSignature_eq_ok_iff (.ofBytes (some .big) bytes) _ _ _ _ rfl e hsignature).mpr he
    have hc : c.FindsEntitlements ⟨bytes, order⟩ (some (sliceName none B.header)) e :=
      ⟨hlocator, by rw [if_neg hsize]; exact hread⟩
    exact (readEntitlements_thin B).trans
      ((sliceEntitlements_eq_ok_iff B).mpr ⟨[e], hone ▸ .cons hc .nil, by simp⟩)
  exact ⟨hholds none, fun blob values hfirst hblob hdecode => hholds (some _)
    ⟨blob, hfirst, hblob, Entitlements.ofPayload_eq_ok_iff.mpr ⟨values, hdecode, rfl⟩⟩⟩

/-! ## A signed binary -/

/-- The payload of a blob of entitlements: a binary property list of one pair. -/
def grantedPayload : ByteArray :=
  ⟨#[0x62, 0x70, 0x6c, 0x69, 0x73, 0x74, 0x30, 0x30, 0xd1, 1, 2, 0x51, 0x61, 9, 8, 11, 13,
    0, 0, 0, 0, 0, 0, 1, 1, 0, 0, 0, 0, 0, 0, 0, 3, 0, 0, 0, 0, 0, 0, 0, 0, 0, 0, 0, 0, 0, 0, 0, 14]⟩

def grantedHeader : Header :=
  { layout := .bits64 0, cpuType := 0x0100000c, cpuSubtype := 0, fileType := 2, commandCount := 2,
    commandsSize := 28, flags := 0 }

/-- A 64-bit binary in little-endian order with two commands, the second of which locates a signature.
    The signature has two blobs, the second of which holds entitlements. -/
def granted : ByteArray :=
  ⟨(grantedHeader.encode .little ++
    ([0x0b, 12, 7, 0x1d, 16, 60, 93].flatMap fun w => ByteOrder.little.encode 4 w) ++
    ([0xfade0cc0, 93, 2, 0, 28, 5, 36, 0xfade0c01, 8, 0xfade7171, 57].flatMap fun w =>
      ByteOrder.big.encode 4 w) ++ grantedPayload.data.toList).toArray⟩

def grantedCommand : PlacedCommand :=
  { start := 44, command := { kind := 0x1d, size := 16 } }

set_option maxRecDepth 4000 in
def grantedBinary : ThinBinary ⟨granted, .little⟩ where
  header := grantedHeader
  commands := [{ start := 32, command := { kind := 0x0b, size := 12 } }, grantedCommand]
  stop := 60
  opens := by decide +kernel
  length_commands := by decide
  length_le := by decide
  tiles := .cons (by decide +kernel) (by decide +kernel)
    (.cons (by decide +kernel) (by decide +kernel) (.nil (by decide +kernel)))

set_option maxRecDepth 4000 in
theorem decode_grantedPayload :
    Plist.decode grantedPayload = .ok (.dict [(.text "a", .bool true)]) := by
  rfl

set_option maxRecDepth 4000 in
theorem readEntitlements_granted :
    readEntitlements (.ofBytes none granted) 0 none 0 =
      .ok [{ values := [(.text "a", .bool true)], arch := some "arm64" }] := by
  have hname : grantedBinary.header.name = "arm64" := by decide +kernel
  have hoffset : grantedCommand.signatureOffset ⟨granted, .little⟩ = 60 := by decide +kernel
  have hsize : grantedCommand.signatureSize ⟨granted, .little⟩ ≠ 0 := by decide +kernel
  have hsignature : HoldsSignature granted 60 [88, 96] :=
    ⟨by decide +kernel, by decide +kernel, by decide +kernel, by decide, by decide +kernel⟩
  have hblob : HoldsBlob granted 96 :=
    ⟨by decide +kernel, by decide +kernel, by decide +kernel, by decide +kernel⟩
  have hpayload : blobPayload granted 96 = grantedPayload := by decide +kernel
  rw [← hname]
  exact ((readEntitlements_embedded grantedBinary).2 grantedCommand [88, 96] (by decide)
    (by decide +kernel) hsize (hoffset ▸ hsignature)).2 96 _ (by decide +kernel) hblob
    (hpayload ▸ decode_grantedPayload)

end Thin

end ReleaseSeal.MachO
