import ReleaseSeal.MachO.File
import ReleaseSeal.MachO.Strip
import ReleaseSeal.Proofs.Bytes.Listing
import ReleaseSeal.Proofs.MachO.Embedded
import ReleaseSeal.Proofs.MachO.Failing
import ReleaseSeal.Proofs.Outcome
import ReleaseSeal.Proofs.Plist.Objects

/-!
# The faults of malformed binaries

A count, a size or an offset that a file tells may be any number. Each read, each move and each window
is checked before it is made, so that whatever the bytes are, an operation on them has a result or fails
with a fault of a class. The one fault without a class that is left comes from an entitlements payload,
in whose decoding it occurs.

## Key results

- `LoadCommand.failsOnly_walk`: a walk fails as a visitor does, or with a fault of a class
- `readEntitlements_isFaultOf`: the faults of reading entitlements
- `malformed_fails_typed`: the operations on a binary fail only with faults of a class
-/

namespace ReleaseSeal.Plist

/-- Where there is room for everything, only a document in markup can be at fault; so bytes that nowhere
    open one are not, and neither is any window of them. -/
theorem decode_slice_ne_fault [Host] {bytes : ByteArray}
    (hroom : ∀ referenceSize around mark, Host.roomToRead referenceSize around mark = true)
    (hopening : ∀ opening ∈ markupOpenings, ¬opening <:+: bytes.data.toList) (start length : Nat)
    (fault : Fault) : decode (slice bytes start length) ≠ .error (.fault fault) := by
  have hhead : ∀ opening ∈ markupOpenings,
      ¬opening.isPrefixOf (sliceList (slice bytes start length) 0 32) = true := by
    intro opening hmem hprefix
    -- the head of a window is a part of the bytes
    have hinfix : sliceList (slice bytes start length) 0 32 <:+: bytes.data.toList := by
      rw [sliceList, slice, data_toList_extract, data_toList_extract]
      exact ((List.drop_suffix ..).isInfix.trans (List.take_prefix ..).isInfix).trans
        ((List.drop_suffix ..).isInfix.trans (List.take_prefix ..).isInfix)
    exact hopening opening hmem ((List.isPrefixOf_iff_prefix.mp hprefix).isInfix.trans hinfix)
  unfold decode
  rw [if_neg (by simpa using hhead), overflows_eq_false hroom]
  intro hfault
  split at hfault
  · cases hvalue : ofBinary? (slice bytes start length) with
    | none => rw [hvalue] at hfault; cases hfault
    | some value => rw [hvalue] at hfault; cases hfault
  · cases hfault

end ReleaseSeal.Plist

namespace ReleaseSeal.MachO

/-- The fault has a class. -/
def Error.IsTyped (e : Error) : Prop :=
  e.kind?.isSome = true

/-- A fault that has a class, or that of a payload in a window of some bytes which occurs when it is
    decoded. -/
inductive Error.IsFaultOf [Host] (bytes : ByteArray) : Error → Prop where
  | typed {e : Error} (h : e.IsTyped) : IsFaultOf bytes e
  | payload {fault : Plist.Fault} {start length : Nat} (inside : start + length ≤ bytes.size)
      (h : Plist.decode (slice bytes start length) = .error (.fault fault)) :
      IsFaultOf bytes (.payloadFault fault)

/-- A fault of a window is one of the bytes around it. -/
theorem Error.IsFaultOf.of_slice [Host] {bytes : ByteArray} {start length : Nat} {e : Error}
    (inside : start + length ≤ bytes.size) (h : IsFaultOf (slice bytes start length) e) :
    IsFaultOf bytes e := by
  cases h with
  | typed h => exact .typed h
  | @payload fault i k hin h =>
    rw [size_slice inside] at hin
    rw [slice_slice hin] at h
    exact .payload (by omega) h

/-! ## Windows and words -/

section Frame

variable {f g : Frame} {e : Error}

theorem Frame.isTyped_of_view_eq_error {start length : Int} {order : Option ByteOrder}
    (h : f.view start length order = .error e) : e.IsTyped := by
  unfold Frame.view at h
  split at h
  · obtain rfl := Except.error.inj h
    rfl
  · exact nomatch h

/-- A window has the bytes of a range inside the frame. -/
theorem Frame.exists_slice_of_view_eq_ok {start length : Int} {order : Option ByteOrder}
    (h : f.view start length order = .ok g) :
    ∃ i k, i + k ≤ f.bytes.size ∧ g.bytes = slice f.bytes i k := by
  unfold Frame.view at h
  split at h
  · exact nomatch h
  · rename_i hrange
    obtain rfl := Except.ok.inj h
    have hin : 0 ≤ start ∧ 0 ≤ length ∧ start + length ≤ f.bytes.size := by
      simpa [Frame.size, and_assoc] using hrange
    exact ⟨start.toNat, length.toNat, by omega, rfl⟩

/-- Only a word that is counted from the end can straddle an end of the window. -/
theorem Frame.isTyped_of_peek_eq_error {offset : Int} {order : Option ByteOrder} (hoffset : 0 ≤ offset)
    (h : f.peek offset order = .error e) : e.IsTyped := by
  unfold Frame.peek at h
  rw [if_pos hoffset] at h
  split at h
  · obtain rfl := Except.error.inj h
    rfl
  · exact nomatch h

end Frame

/-! ## Elementary actions -/

namespace Reading

variable {f : Frame} {P : Error → Prop} (hP : ∀ e, Error.IsTyped e → P e)
include hP

theorem failsOnly_seek {offset : Int} : FailsOnly f P (seek offset) := by
  intro i e h
  rw [(fails_seek.mp h).2]
  exact hP _ rfl

theorem failsOnly_record {what : String} {width : Nat} : FailsOnly f P (record what width) := by
  intro i e h
  rw [(fails_record.mp h).2]
  exact hP _ rfl

theorem failsOnly_word {what : String} : FailsOnly f P (word what) := by
  intro i e h
  rw [(fails_word.mp h).2]
  exact hP _ rfl

theorem failsOnly_wordPair {what : String} : FailsOnly f P (wordPair what) := by
  intro i e h
  rw [(fails_wordPair.mp h).2]
  exact hP _ rfl

end Reading

open Reading (FailsOnly)

/-! ## Headers -/

section

variable {f : Frame} {P : Error → Prop} (hP : ∀ e, Error.IsTyped e → P e)
include hP

theorem failsOnly_readHeader : FailsOnly f P Header.read := by
  refine .read_bind (Reading.failsOnly_tell.bind fun i => ?_)
  have hpeek : FailsOnly f P (Reading.ofOutcome (f.peek i none)) :=
    Reading.failsOnly_ofOutcome fun e h =>
      hP e (Frame.isTyped_of_peek_eq_error (Int.natCast_nonneg i) h)
  refine hpeek.bind fun magic => ?_
  split
  · exact (Reading.failsOnly_record hP).bind fun _ => Reading.failsOnly_pure
  · exact (Reading.failsOnly_record hP).bind fun _ => Reading.failsOnly_pure

theorem FatLayout.failsOnly_readRecords {layout : FatLayout} {count index : Nat} :
    FailsOnly f P (layout.readRecords count index) := by
  induction count generalizing index with
  | zero => exact Reading.failsOnly_pure
  | succ count ih =>
    refine (Reading.failsOnly_record hP).bind fun _ => .read_bind ?_
    exact ih.bind fun _ => Reading.failsOnly_pure

theorem failsOnly_readFat {magic : UInt32} : FailsOnly f P (readFat magic) := by
  refine (Reading.failsOnly_wordPair hP).bind fun (fatMagic, count) => ?_
  dsimp only
  cases FatLayout.ofMagic? fatMagic with
  | none => exact Reading.failsOnly_pure
  | some layout =>
    have hrecords : FailsOnly f P (layout.readRecords count.toNat 0) :=
      FatLayout.failsOnly_readRecords hP
    refine .guard (.guard ?_ (hP _ rfl)) (hP _ rfl)
    exact hrecords.bind fun _ => Reading.failsOnly_pure

/-- At whatever offset a binary is sought. -/
theorem failsOnly_classify {offset : Int} : FailsOnly f P (classify offset) := by
  intro i e h
  obtain hseek | ⟨_, k, hseek, hrest⟩ := Reading.fails_bind.mp h
  · exact Reading.failsOnly_seek hP i e hseek
  -- the reader has moved there, so the mark is not counted from the end
  have hoffset : 0 ≤ offset := (Reading.yields_seek.mp hseek).1
  refine FailsOnly.read_bind ?_ k e hrest
  have hpeek : FailsOnly f P (Reading.ofOutcome (f.peek offset none)) :=
    Reading.failsOnly_ofOutcome fun e h => hP e (Frame.isTyped_of_peek_eq_error hoffset h)
  refine hpeek.bind fun magic => ?_
  split
  · exact (failsOnly_readHeader hP).bind fun _ => Reading.failsOnly_pure
  · exact ((Reading.failsOnly_seek hP).bind fun _ => failsOnly_readFat hP).on

/-! ## Load commands -/

section Walk

variable {σ : Type} {visit : Nat → LoadCommand → σ → Reading σ}
  (hvisit : ∀ start command s, FailsOnly f P (visit start command s))
include hvisit

theorem LoadCommand.failsOnly_walkFrom {count index : Nat} {s : σ} :
    FailsOnly f P (walkFrom visit count index s) := by
  -- by induction on the commands that are left, whatever state the visitor has reached
  induction count generalizing index s with
  | zero => exact Reading.failsOnly_pure
  | succ count ih =>
    refine Reading.failsOnly_tell.bind fun start =>
      (Reading.failsOnly_wordPair hP).bind fun (kind, size) => .guard ?_ (hP _ rfl)
    exact .bind (hvisit start ⟨kind, size⟩ s) fun _ => (Reading.failsOnly_seek hP).bind fun _ => ih

/-- A walk fails as the visitor does, or with a fault of a class. -/
theorem LoadCommand.failsOnly_walk {header : Header} {s : σ} :
    FailsOnly f P (walk header visit s) := by
  refine .guard ?_ (hP _ rfl)
  exact (Reading.failsOnly_seek hP).bind fun _ => failsOnly_walkFrom hP hvisit

end Walk

end

theorem classify_isTyped {f : Frame} {offset : Int} {e : Error}
    (h : Reading.result f (classify offset) = .error e) : e.IsTyped :=
  (failsOnly_classify fun _ => id).result h

/-! ## Signatures -/

section Signature

variable [Host] {f : Frame} {arch : Option String} {e : Error}

theorem failsOnly_readPayload : FailsOnly f (Error.IsFaultOf f.bytes) (readPayload arch) := by
  refine (Reading.failsOnly_word fun _ => .typed).bind fun length => ?_
  refine .guard (.guard ?_ (.typed rfl)) (.typed rfl)
  intro i e h
  obtain htake | ⟨payload, k, htake, hpayload⟩ := Reading.fails_bind.mp h
  · rw [(Reading.fails_take.mp htake).2]
    exact .typed rfl
  -- the bytes that are decoded are those behind the head of the blob
  obtain ⟨hin, rfl, -⟩ := Reading.yields_take.mp htake
  obtain ⟨value, -, -, rfl⟩ | ⟨-, rfl⟩ | ⟨fault, hfault, rfl⟩ :=
    Entitlements.ofPayload_eq_error_iff.mp (Reading.fails_ofOutcome.mp hpayload)
  · exact .typed rfl
  · exact .typed rfl
  · exact .payload hin hfault

theorem failsOnly_findEntitlements {offset count index : Nat} :
    FailsOnly f (Error.IsFaultOf f.bytes) (findEntitlements arch offset count index) := by
  -- by induction on the entries that are left
  induction count generalizing index with
  | zero => exact Reading.failsOnly_pure
  | succ count ih =>
    -- the entry and the mark of its blob are sought wherever they are said to be
    refine (Reading.failsOnly_seek fun _ => .typed).bind fun _ =>
      (Reading.failsOnly_wordPair fun _ => .typed).bind fun _ =>
        (Reading.failsOnly_seek fun _ => .typed).bind fun _ =>
          (Reading.failsOnly_word fun _ => .typed).bind fun magic => ?_
    split
    · exact failsOnly_readPayload.bind fun _ => Reading.failsOnly_pure
    · exact ih

theorem failsOnly_readSignature {offset : Nat} :
    FailsOnly f (Error.IsFaultOf f.bytes) (readSignature arch offset) := by
  refine (Reading.failsOnly_seek fun _ => .typed).bind fun _ =>
    (Reading.failsOnly_record fun _ => .typed).bind fun _ => .read_bind ?_
  exact .guard (.guard failsOnly_findEntitlements (.typed rfl)) (.typed rfl)

theorem failsOnly_collectEntitlements {start : Nat} {command : LoadCommand}
    {found : List Entitlements} :
    FailsOnly f (Error.IsFaultOf f.bytes) (collectEntitlements arch start command found) := by
  unfold collectEntitlements
  split
  · exact Reading.failsOnly_pure
  · refine (Reading.failsOnly_wordPair fun _ => .typed).bind fun (offset, size) => ?_
    dsimp only
    split
    · exact Reading.failsOnly_pure
    · -- the same bytes are read in the order of signatures
      have hsignature : FailsOnly (f.withOrder (some .big)) (Error.IsFaultOf f.bytes)
          (readSignature arch offset.toNat) := failsOnly_readSignature
      refine .read_bind (hsignature.on.bind fun found => ?_)
      cases found with
      | none => exact Reading.failsOnly_pure
      | some e => exact Reading.failsOnly_pure

/-- Reading the entitlements of a thin binary, whatever its commands and its signatures are. -/
theorem failsOnly_sliceEntitlements {header : Header} :
    FailsOnly f (Error.IsFaultOf f.bytes) (sliceEntitlements arch header) :=
  LoadCommand.failsOnly_walk (fun _ => .typed) fun _ _ _ => failsOnly_collectEntitlements

/-- However deep fat binaries may contain each other. -/
theorem entitlementsIn_isFaultOf {fatLevels : Nat} (h : entitlementsIn fatLevels arch f = .error e) :
    e.IsFaultOf f.bytes := by
  -- by induction on the levels; only a fat binary uses one, and its slices' faults are the frame's
  induction fatLevels using Nat.strongRecOn generalizing arch f with
  | ind fatLevels ih =>
    rw [entitlementsIn, bind_eq_error] at h
    obtain hclassify | ⟨binary, -, h⟩ := h
    · exact .typed (classify_isTyped hclassify)
    cases binary with
    | thin header => exact failsOnly_sliceEntitlements.result h
    | unrecognized magic =>
      obtain rfl := Except.error.inj h
      exact .typed rfl
    | fat layout arches =>
      cases fatLevels with
      | zero =>
        obtain rfl := Except.error.inj h
        exact .typed rfl
      | succ fatLevels =>
        obtain hslices | ⟨_, -, hno⟩ := bind_eq_error.mp h
        · -- a slice is not in the file, or reading it fails
          obtain ⟨a, -, hslice⟩ := exists_of_mapM_eq_error hslices
          obtain hview | ⟨g, hview, hslice⟩ := bind_eq_error.mp hslice
          · exact .typed (Frame.isTyped_of_view_eq_error hview)
          · obtain ⟨i, k, hin, hbytes⟩ := Frame.exists_slice_of_view_eq_ok hview
            have hslice := ih fatLevels (Nat.lt_succ_self fatLevels) hslice
            rw [hbytes] at hslice
            exact .of_slice hin hslice
        · cases hno

/-- Reading entitlements fails with a fault of a class, or with one that occurs in the decoding of a
    payload. -/
theorem readEntitlements_isFaultOf {offset depth : Int}
    (h : readEntitlements f offset arch depth = .error e) : e.IsFaultOf f.bytes := by
  rw [readEntitlements] at h
  -- at the head of the frame no window is made
  split at h
  · exact entitlementsIn_isFaultOf h
  obtain hview | ⟨g, hview, h⟩ := bind_eq_error.mp h
  · exact .typed (Frame.isTyped_of_view_eq_error hview)
  · obtain ⟨i, k, hin, hbytes⟩ := Frame.exists_slice_of_view_eq_ok hview
    have hg := entitlementsIn_isFaultOf h
    rw [hbytes] at hg
    exact .of_slice hin hg

end Signature

/-! ## Removing signatures -/

section Stripping

variable {f : Frame} {e : Error}

theorem failsOnly_stripCommand {base start : Nat} {truncate : Bool} {command : LoadCommand}
    {s : Stripping} : FailsOnly f Error.IsTyped (stripCommand base truncate start command s) := by
  unfold stripCommand
  split
  · exact Reading.failsOnly_pure
  · -- behind the check of its range nothing can fail, whatever the signature lies over
    refine (Reading.failsOnly_wordPair fun _ => id).bind fun _ => .read_bind (.guard ?_ rfl)
    exact Reading.failsOnly_pure

theorem failsOnly_stripSlice {base : Nat} {truncate : Bool} {header : Header} {bytes : ByteArray} :
    FailsOnly f Error.IsTyped (stripSlice base truncate header bytes) :=
  .read_bind (LoadCommand.failsOnly_walk (fun _ => id) fun _ _ _ => failsOnly_stripCommand)

theorem stripArch_isTyped {bytes : ByteArray} {a : FatArch} (h : stripArch f bytes a = .error e) :
    e.IsTyped := by
  obtain hview | ⟨g, -, h⟩ := bind_eq_error.mp h
  · exact Frame.isTyped_of_view_eq_error hview
  obtain hclassify | ⟨binary, -, h⟩ := bind_eq_error.mp h
  · exact classify_isTyped hclassify
  cases binary with
  | thin header =>
    obtain hslice | ⟨_, -, hno⟩ := bind_eq_error.mp h
    · exact failsOnly_stripSlice.result hslice
    · exact nomatch hno
  | fat layout arches => exact nomatch h
  | unrecognized magic => exact nomatch h

/-- Removing the signatures of a binary, whatever overlaps or leaves its slice. -/
theorem stripSignatures_isTyped {bytes : ByteArray} (h : stripSignatures bytes = .error e) :
    e.IsTyped := by
  obtain hclassify | ⟨binary, -, h⟩ := bind_eq_error.mp h
  · exact classify_isTyped hclassify
  cases binary with
  | thin header =>
    obtain hslice | ⟨_, -, hno⟩ := bind_eq_error.mp h
    · exact failsOnly_stripSlice.result hslice
    · exact nomatch hno
  | fat layout arches =>
    obtain ⟨bytes', a, -, ha⟩ := exists_of_foldlM_eq_error h
    exact stripArch_isTyped ha
  | unrecognized magic =>
    obtain rfl := Except.error.inj h
    rfl

end Stripping

/-! ## Opening a binary -/

section Image

variable {bytes : ByteArray} {e : Error}

theorem checkFileSize_isTyped {size : Int} (h : checkFileSize size = .error e) : e.IsTyped := by
  unfold checkFileSize at h
  split at h
  · obtain rfl := Except.error.inj h
    rfl
  split at h
  · obtain rfl := Except.error.inj h
    rfl
  · exact nomatch h

theorem Image.ofBytes_isTyped (h : Image.ofBytes bytes = .error e) : e.IsTyped := by
  obtain hsize | ⟨_, -, h⟩ := bind_eq_error.mp h
  · exact checkFileSize_isTyped hsize
  obtain hclassify | ⟨binary, -, h⟩ := bind_eq_error.mp h
  · exact classify_isTyped hclassify
  cases binary with
  | thin header => exact nomatch h
  | fat layout arches => exact nomatch h
  | unrecognized magic =>
    obtain rfl := Except.error.inj h
    rfl

/-- Opening the bytes of a binary fails as opening its image does. -/
theorem File.ofBytes_eq_error {failure : Failure} (h : File.ofBytes bytes = .error failure) :
    ∃ e, Error.IsTyped e ∧ failure = .binary e := by
  obtain himage | ⟨_, -, hno⟩ := bind_eq_error.mp h
  · obtain ⟨e, he, rfl⟩ := mapError_eq_error.mp himage
    exact ⟨e, Image.ofBytes_isTyped he, rfl⟩
  · exact nomatch hno

/-- Bytes look like a binary if there is at least the mark and one field of a header, and a thin or a fat
    header is recognised. -/
theorem looksLikeMachO_iff :
    looksLikeMachO bytes = true ↔ 8 ≤ bytes.size ∧
      ∃ binary, Reading.result (.ofBytes none bytes) (classify 0) = .ok binary ∧
        ∀ magic, binary ≠ .unrecognized magic := by
  unfold looksLikeMachO
  by_cases hsize : bytes.size < 8
  · rw [if_pos hsize]
    exact ⟨nofun, fun h => absurd h.1 (Nat.not_le.mpr hsize)⟩
  rw [if_neg hsize, and_iff_right (Nat.not_lt.mp hsize)]
  cases Reading.result (.ofBytes none bytes) (classify 0) with
  | error e => simp
  | ok binary => cases binary <;> simp

end Image

/-- Whatever bytes an operation on a binary is given, it has a result or fails with a fault of a class:
    recognising the bytes, telling what stands at any offset of them, reading the entitlements at any
    offset under any name and at any depth, removing signatures and opening a file of them. The one
    condition is that the bytes hold no payload which, when it is decoded, is at fault instead of being
    malformed. -/
theorem malformed_fails_typed [Host] {bytes : ByteArray}
    (hdecode : ∀ start length, start + length ≤ bytes.size → ∀ fault,
      Plist.decode (slice bytes start length) ≠ .error (.fault fault)) :
    (looksLikeMachO bytes = true ↔ 8 ≤ bytes.size ∧
      ∃ binary, Reading.result (.ofBytes none bytes) (classify 0) = .ok binary ∧
        ∀ magic, binary ≠ .unrecognized magic) ∧
    (∀ offset e, Reading.result (.ofBytes none bytes) (classify offset) = .error e → e.IsTyped) ∧
    (∀ offset arch depth e,
      readEntitlements (.ofBytes none bytes) offset arch depth = .error e → e.IsTyped) ∧
    (∀ e, stripSignatures bytes = .error e → e.IsTyped) ∧
    ∀ failure, File.ofBytes bytes = .error failure → ∃ e, Error.IsTyped e ∧ failure = .binary e := by
  refine ⟨looksLikeMachO_iff, fun offset e => classify_isTyped, ?_, fun e => stripSignatures_isTyped,
    fun failure => File.ofBytes_eq_error⟩
  intro offset arch depth e h
  cases readEntitlements_isFaultOf h with
  | typed h => exact h
  | payload inside hfault => exact absurd hfault (hdecode _ _ inside _)

/-! ## A truncated binary -/

/-- A signed binary that ends inside the payload of its entitlements. -/
def truncated : ByteArray :=
  granted.extract 0 120

theorem malformed_fails_typed_truncated :
    (∀ start length, start + length ≤ truncated.size → ∀ fault,
      Plist.decode (slice truncated start length) ≠ .error (.fault fault)) ∧
    (readEntitlements (.ofBytes none truncated) 0 none 0).map List.length =
      .error (.insufficientBytes 49 104) ∧ Error.IsTyped (.insufficientBytes 49 104) ∧
    stripSignatures truncated = .error (.signatureBeyondSlice 60 93) ∧
      Error.IsTyped (.signatureBeyondSlice 60 93) := by
  have hdecode : ∀ start length, start + length ≤ truncated.size → ∀ fault,
      Plist.decode (slice truncated start length) ≠ .error (.fault fault) := by
    intro start length _
    exact Plist.decode_slice_ne_fault (fun _ _ _ => rfl) (by decide +kernel) start length
  have hread : (readEntitlements (.ofBytes none truncated) 0 none 0).map List.length =
      .error (.insufficientBytes 49 104) := by decide +kernel
  have hstrip : stripSignatures truncated = .error (.signatureBeyondSlice 60 93) := by decide +kernel
  obtain ⟨-, -, hreads, hstrips, -⟩ := malformed_fails_typed hdecode
  refine ⟨hdecode, hread, ?_, hstrip, hstrips _ hstrip⟩
  cases hresult : readEntitlements (.ofBytes none truncated) 0 none 0 with
  | error e =>
    rw [hresult] at hread
    obtain rfl := Except.error.inj hread
    exact hreads 0 none 0 _ hresult
  | ok es =>
    rw [hresult] at hread
    exact nomatch hread

end ReleaseSeal.MachO
