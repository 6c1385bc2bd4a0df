import ReleaseSeal.Proofs.MachO.Stripping

/-!
# Tables that stripping keeps

Stripping is meant to leave the header and the load commands of a binary as they are, but for the fields
that locate a signature. What it blanks is declared by the binary itself, though, and only the end of a
declared signature is checked: it may lie over the header or over other commands, and the fields may
belong to the next command if their own has no room for them. The table of a slice is kept exactly if no
blanked byte of its heads was other than zero before, and the file is not cut in front of its end.

## Key results

- `ThinBinary.exists_sameTable_iff`: when other bytes hold the table of a binary
- `stripSignatures_keeps_tables_iff`: when stripping keeps the tables of a file
- `stripSignatures_blanks_header`: it does not always
- `StrippedThin.not_exists_sameTable_of_crowded`: fields without room lose the next command
-/

namespace ReleaseSeal.MachO

namespace ThinBinary

variable {f g : Frame}

/-- Two binaries have the same header, and the same commands at the same offsets. -/
structure SameTable (B : ThinBinary f) (B' : ThinBinary g) : Prop where
  header_eq : B'.header = B.header
  commands_eq : B'.commands = B.commands

/-- The offset lies in the header or in the head of a command. -/
def InHeads (B : ThinBinary f) (i : Nat) : Prop :=
  i < B.header.size ∨ ∃ c ∈ B.commands, c.start ≤ i ∧ i < c.start + LoadCommand.headSize

/-- The bytes of the header and of the commands are the same in two files, where the binary starts at
    `base`, apart from the fields that locate signatures. -/
def KeepsBytes (B : ThinBinary f) (base : Nat) (before after : ByteArray) : Prop :=
  ∀ i < B.stop, ¬B.InLocator i → byteAt after (base + i) = byteAt before (base + i)

theorem SameTable.stop_eq {B : ThinBinary f} {B' : ThinBinary g} (h : B.SameTable B') :
    B'.stop = B.stop :=
  B.tiles.stop_eq (h.commands_eq ▸ B'.tiles) (h.header_eq ▸ rfl)

/-- The heads are in front of the end of the table. -/
theorem InHeads.lt_stop {B : ThinBinary f} {i : Nat} (h : B.InHeads i) : i < B.stop := by
  obtain hheader | ⟨c, hc, -, hlt⟩ := h
  · exact Nat.lt_of_lt_of_le hheader B.header_size_le
  · obtain ⟨-, hsize, -, hend⟩ := B.tiles.of_mem hc
    omega

/-- Bytes with the heads of a binary hold the table of that binary, in the same byte order. -/
theorem exists_sameTable_of_heads_eq (B : ThinBinary f) {bytes : ByteArray} (hstop : B.stop ≤ bytes.size)
    (hbytes : ∀ i, B.InHeads i → byteAt bytes i = byteAt f.bytes i) :
    probeOrder bytes = f.order ∧ ∃ B' : ThinBinary (.ofBytes none bytes), B.SameTable B' := by
  have hheader := B.header_size_le
  have hopens : HoldsWords f.order bytes 0 B.header.words := by
    rw [B.opens.iff_byteAt_eq (Nat.zero_le _), Nat.zero_add, Header.length_words]
    exact ⟨by omega, fun k _ hk => hbytes k (.inl hk)⟩
  have horder : probeOrder bytes = f.order := probeOrder_eq_of_holdsWords hopens
  have htiles : Tiles (.ofBytes none bytes) B.header.size B.commands B.stop :=
    B.tiles.congr horder hstop fun c hc k hk =>
      hbytes _ (.inr ⟨c, hc, Nat.le_add_right .., Nat.add_lt_add_left hk _⟩)
  let B' : ThinBinary (.ofBytes none bytes) :=
    { header := B.header, commands := B.commands, stop := B.stop
      opens := by rw [← horder] at hopens; exact hopens
      length_commands := B.length_commands, length_le := B.length_le, tiles := htiles }
  exact ⟨horder, B', rfl, rfl⟩

/-- Bytes some of which were set to zero hold the table of a binary exactly if its heads are as they
    were and the table is not cut. -/
theorem exists_sameTable_iff (B : ThinBinary f) {bytes : ByteArray}
    (hchange : ∀ i, byteAt bytes i = byteAt f.bytes i ∨ byteAt bytes i = 0) :
    (∃ B' : ThinBinary (.ofBytes none bytes), B.SameTable B') ↔
      B.stop ≤ bytes.size ∧ ∀ i, B.InHeads i → byteAt bytes i = byteAt f.bytes i := by
  constructor
  · rintro ⟨B', hsame⟩
    have hopens : HoldsWords (probeOrder bytes) bytes 0 B.header.words := hsame.header_eq ▸ B'.opens
    -- a mark that was changed to zeros only cannot be read in the other order
    have horder : probeOrder bytes = f.order :=
      order_eq_of_holdsWords B.opens hopens (hchange 0)
    have hstop : B.stop ≤ bytes.size := hsame.stop_eq ▸ B'.tiles.stop_le
    refine ⟨hstop, fun i hi => ?_⟩
    -- the same words in the same order are the same bytes
    obtain hheader | ⟨c, hc, hle, hlt⟩ := hi
    · rw [horder, B.opens.iff_byteAt_eq (Nat.zero_le _), Nat.zero_add, Header.length_words] at hopens
      exact hopens.2 i (Nat.zero_le _) hheader
    · obtain ⟨hat, hsize, -, hend⟩ := B.tiles.of_mem hc
      obtain ⟨hat', -, -, -⟩ := B'.tiles.of_mem (hsame.commands_eq ▸ hc)
      have hin := B.tiles.stop_le
      have hin' : c.start + LoadCommand.headSize ≤ bytes.size := by omega
      have hheads := (@LoadCommand.at_eq_iff f (.ofBytes none bytes) c.start horder hin'
        (by omega)).mp (hat'.symm.trans hat)
      obtain ⟨k, rfl⟩ := Nat.exists_eq_add_of_le hle
      exact hheads k (Nat.lt_of_add_lt_add_left hlt)
  · rintro ⟨hstop, hbytes⟩
    exact (B.exists_sameTable_of_heads_eq hstop hbytes).2

/-! ## Well laid out binaries -/

/-- The commands that locate signatures have room for their fields, and signatures that are not empty
    are behind the load commands. -/
structure WellLaidOut (B : ThinBinary f) : Prop where
  size_ge : ∀ c ∈ B.signatures, 16 ≤ c.command.size.toNat
  behind : ∀ c ∈ B.signatures, 0 < c.signatureSize f → B.stop ≤ c.signatureOffset f

namespace WellLaidOut

variable {B : ThinBinary f}

/-- The fields of a command are inside the table. -/
theorem locator_le (h : B.WellLaidOut) {c : PlacedCommand} (hc : c ∈ B.signatures) :
    c.locator + 8 ≤ B.stop := by
  obtain ⟨-, -, -, hend⟩ := B.tiles.of_mem (mem_signatures.mp hc).1
  have hsize := h.size_ge c hc
  unfold PlacedCommand.locator LoadCommand.headSize
  omega

/-- Nothing that is blanked is in a head. -/
theorem not_covers_of_inHeads (h : B.WellLaidOut) {i : Nat} (hi : B.InHeads i) : ¬B.Covers i := by
  have hlt := hi.lt_stop
  rintro (⟨c, hc, hdeclares⟩ | ⟨c, hc, hlocates⟩)
  · -- a signature that is not empty is behind all heads
    obtain ⟨hle, hend⟩ := hdeclares
    unfold PlacedCommand.signatureEnd at hend
    have hbehind := h.behind c hc (by omega)
    omega
  · obtain ⟨-, -, hstart, hend⟩ := B.tiles.of_mem (mem_signatures.mp hc).1
    have hsize := h.size_ge c hc
    unfold PlacedCommand.Locates PlacedCommand.locator at hlocates
    obtain hheader | ⟨d, hd, hle, hhead⟩ := hi
    · omega
    · -- the fields are behind the head of their own command and inside it
      obtain ⟨-, hdsize, -, -⟩ := B.tiles.of_mem hd
      obtain rfl | hbefore | hafter := B.tiles.disjoint (mem_signatures.mp hc).1 hd
      · omega
      · unfold LoadCommand.headSize at *
        omega
      · unfold LoadCommand.headSize at *
        omega

end WellLaidOut

end ThinBinary

section Stripped

variable {bytes stripped : ByteArray}

/-- A thin file that was stripped holds the table exactly if no byte of the heads was lost. -/
theorem StrippedThin.exists_sameTable_iff {B : ThinBinary (.ofBytes none bytes)}
    (h : StrippedThin B stripped) :
    (∃ B' : ThinBinary (.ofBytes none stripped), B.SameTable B') ↔
      B.stop ≤ stripped.size ∧ ∀ i, B.InHeads i → B.Covers i → byteAt bytes i = 0 := by
  have hchange (i : Nat) : byteAt stripped i = byteAt bytes i ∨ byteAt stripped i = 0 := by
    by_cases hlt : i < stripped.size
    · by_cases hi : B.Covers i
      · exact .inr (h.zero i hi)
      · exact .inl (h.keep i hlt hi)
    · exact .inr (dif_neg hlt)
  rw [B.exists_sameTable_iff hchange]
  refine and_congr_right fun hstop => forall₂_congr fun i hheads => ?_
  have hlt : i < stripped.size := Nat.lt_of_lt_of_le hheads.lt_stop hstop
  exact blanked_eq_iff (h.zero i) (h.keep i hlt)

/-- A slice of a file in which bytes were blanked holds the table exactly if no byte of the heads was
    lost. -/
theorem FatArch.exists_sameTable_iff {a : FatArch} {p : Nat → Prop} (h : Blanked p bytes stripped)
    (hin : a.offset.toNat + a.size.toNat ≤ bytes.size) (B : ThinBinary (a.frame bytes)) :
    (∃ B' : ThinBinary (a.frame stripped), B.SameTable B') ↔
      ∀ i, B.InHeads i → p (a.offset.toNat + i) → byteAt bytes (a.offset.toNat + i) = 0 := by
  have hin' : a.offset.toNat + a.size.toNat ≤ stripped.size := h.size_eq ▸ hin
  have hsize : (a.frame stripped).bytes.size = a.size.toNat := a.size_frame hin'
  have hchange (i : Nat) : byteAt (a.frame stripped).bytes i = byteAt (a.frame bytes).bytes i ∨
      byteAt (a.frame stripped).bytes i = 0 := by
    by_cases hlt : i < a.size.toNat
    · rw [byteAt_frame hlt, byteAt_frame hlt]
      exact h.eq_or_zero _
    · exact .inr (dif_neg (hsize ▸ hlt))
  have hstop : B.stop ≤ a.size.toNat := a.size_frame hin ▸ B.tiles.stop_le
  have hiff := B.exists_sameTable_iff hchange
  rw [show (Frame.ofBytes none (a.frame stripped).bytes) = a.frame stripped from rfl] at hiff
  rw [hiff, hsize, and_iff_right hstop]
  refine forall₂_congr fun i hheads => ?_
  have hlt : i < a.size.toNat := Nat.lt_of_lt_of_le hheads.lt_stop hstop
  rw [byteAt_frame hlt, byteAt_frame hlt]
  exact blanked_eq_iff (h.zero _) (h.keep _)

/-- The commands of a thin file that was stripped change in the fields that locate signatures only,
    exactly if no byte of them is lost in a signature. -/
theorem StrippedThin.keepsBytes_iff {B : ThinBinary (.ofBytes none bytes)} (h : StrippedThin B stripped)
    (hstop : B.stop ≤ stripped.size) :
    B.KeepsBytes 0 bytes stripped ↔
      ∀ i < B.stop, ¬B.InLocator i → B.InSignature i → byteAt bytes i = 0 := by
  simp only [ThinBinary.KeepsBytes, Nat.zero_add]
  refine forall₃_congr fun i hi hlocator => ?_
  have hcovers : B.Covers i ↔ B.InSignature i := or_iff_left hlocator
  rw [← hcovers]
  exact blanked_eq_iff (h.zero i) (h.keep i (Nat.lt_of_lt_of_le hi hstop))

/-- When stripping keeps the tables of a file. The table of a thin file is kept exactly if the file is
    not cut in front of the end of the table, and no byte of its heads is blanked that was not zero; the
    header and the commands as a whole change in the fields that locate signatures only, exactly if none
    of their other bytes that is not zero lies in a signature. A fat file remains one with the same
    records if no byte of its header is blanked that was not zero, and the table of a thin slice is kept
    exactly if no slice blanks a byte of its heads that was not zero; its header and commands change in
    those fields only, exactly if no slice blanks one of their other bytes that was not zero. -/
theorem stripSignatures_keeps_tables_iff (h : stripSignatures bytes = .ok stripped) :
    (∀ B : ThinBinary (.ofBytes none bytes),
      ((∃ B' : ThinBinary (.ofBytes none stripped), B.SameTable B') ↔
        B.stop ≤ stripped.size ∧ ∀ i, B.InHeads i → B.Covers i → byteAt bytes i = 0) ∧
      (B.stop ≤ stripped.size ∧ B.KeepsBytes 0 bytes stripped ↔
        B.stop ≤ stripped.size ∧
          ∀ i < B.stop, ¬B.InLocator i → B.InSignature i → byteAt bytes i = 0)) ∧
    ∀ layout arches,
      Reading.result (.ofBytes none bytes) (classify 0) = .ok (.fat layout arches) →
        ((∀ i < 8 + arches.length * layout.recordSize,
            (∃ a ∈ arches, a.Covers bytes i) → byteAt bytes i = 0) →
          Reading.result (.ofBytes none stripped) (classify 0) = .ok (.fat layout arches)) ∧
        ∀ a ∈ arches, ∀ B : ThinBinary (a.frame bytes),
          ((∃ B' : ThinBinary (a.frame stripped), B.SameTable B') ↔
            ∀ i, B.InHeads i → (∃ a' ∈ arches, a'.Covers bytes (a.offset.toNat + i)) →
              byteAt bytes (a.offset.toNat + i) = 0) ∧
          (B.KeepsBytes a.offset.toNat bytes stripped ↔
            ∀ i < B.stop, ¬B.InLocator i →
              (∃ a' ∈ arches, a'.Covers bytes (a.offset.toNat + i)) →
                byteAt bytes (a.offset.toNat + i) = 0) := by
  constructor
  · intro B
    have hthin := StrippedThin.of_stripSignatures B h
    exact ⟨hthin.exists_sameTable_iff, and_congr_right hthin.keepsBytes_iff⟩
  intro layout arches hclassify
  obtain ⟨hstrippable, hblanked⟩ := (stripSignatures_fat_iff hclassify).mp h
  refine ⟨fun hzero => ?_, fun a ha B =>
    ⟨a.exists_sameTable_iff hblanked (hstrippable a ha).in_file B,
      forall₃_congr fun i _ _ => blanked_eq_iff (hblanked.zero _) (hblanked.keep _)⟩⟩
  -- the table of the copies stands at the start, and is read the same if its bytes are
  have hopens := (classify_eq_fat_iff.mp hclassify).2
  refine classify_eq_fat_congr hclassify (hblanked.size_eq ▸ hopens.size_le) fun i hi => ?_
  exact (blanked_eq_iff (hblanked.zero i) (hblanked.keep i)).mpr (hzero i hi)

end Stripped

/-- The binary in a signed file is well laid out if its signature is behind the command. -/
theorem signedBinary_wellLaidOut {f : Frame} {hheader hcommand hin}
    (hbehind : 44 ≤ signedCommand.signatureOffset f) :
    (signedBinary f hheader hcommand hin).WellLaidOut where
  size_ge c hc := by
    obtain rfl := List.mem_singleton.mp (signatures_signedBinary hheader hcommand hin ▸ hc)
    decide
  behind c hc _ := by
    obtain rfl := List.mem_singleton.mp (signatures_signedBinary hheader hcommand hin ▸ hc)
    exact hbehind

set_option maxRecDepth 4000 in
/-- A signature behind the table leaves the table as it is. -/
theorem stripSignatures_keeps_table_of_signedFile :
    stripSignatures (signedFile [1, 2, 3, 4]) = .ok unsignedFile ∧
      ∃ (B : ThinBinary (.ofBytes none (signedFile [1, 2, 3, 4])))
        (B' : ThinBinary (.ofBytes none unsignedFile)), B.SameTable B' := by
  have hstrip : stripSignatures (signedFile [1, 2, 3, 4]) = .ok unsignedFile := by decide +kernel
  let B : ThinBinary (.ofBytes none (signedFile [1, 2, 3, 4])) :=
    signedBinary _ (by decide +kernel) (by decide +kernel) (by decide +kernel)
  have hlaid : B.WellLaidOut := signedBinary_wellLaidOut (by decide +kernel)
  have hstop : B.stop ≤ unsignedFile.size := by decide +kernel
  have hkept (i : Nat) (hi : B.InHeads i) (hcovers : B.Covers i) :
      byteAt (signedFile [1, 2, 3, 4]) i = 0 :=
    absurd hcovers (hlaid.not_covers_of_inHeads hi)
  exact ⟨hstrip, B, ((stripSignatures_keeps_tables_iff hstrip).1 B).1.mpr ⟨hstop, hkept⟩⟩

/-! ## Tables that are lost -/

/-- A binary whose signature lies over its own header. -/
def overlaidFile : ByteArray :=
  ⟨(signedHeader.encode .big ++
    [0x1d, 16, 0, 28].flatMap fun w => ByteOrder.big.encode 4 w).toArray⟩

/-- The header is blanked with the signature that lies over it, and the result is no binary. -/
theorem stripSignatures_blanks_header :
    Reading.result (.ofBytes none overlaidFile) (classify 0) = .ok (.thin signedHeader) ∧
      ∃ stripped, stripSignatures overlaidFile = .ok stripped ∧
        Reading.result (.ofBytes none stripped) (classify 0) = .ok (.unrecognized 0) := by
  refine ⟨by decide +kernel, ⟨(List.replicate 28 0 ++
    [0x1d, 16, 0, 0].flatMap fun w => ByteOrder.big.encode 4 w).toArray⟩, ?_, ?_⟩
  · decide +kernel
  · decide +kernel

/-- The table is lost if a command that locates a signature has no room for its fields and another command
    follows: the size of that command is blanked in their place. -/
theorem StrippedThin.not_exists_sameTable_of_crowded {bytes stripped : ByteArray}
    {B : ThinBinary (.ofBytes none bytes)} (h : StrippedThin B stripped) {c d : PlacedCommand}
    (hc : c ∈ B.signatures) (hd : d ∈ B.commands) (hnext : d.start = c.locator) :
    ¬∃ B' : ThinBinary (.ofBytes none stripped), B.SameTable B' := by
  rw [h.exists_sameTable_iff]
  rintro ⟨-, hzero⟩
  obtain ⟨hat, hsize, -, hend⟩ := B.tiles.of_mem hd
  have hstop : B.stop ≤ bytes.size := B.tiles.stop_le
  have hword : d.command.size = wordAt (Frame.ofBytes none bytes).order bytes (d.start + 4) := by
    rw [hat]
    rfl
  unfold LoadCommand.headSize at hsize
  -- the second field is where the size stands
  have hfield : d.command.size = 0 := by
    rw [hword]
    refine wordAt_eq_zero (by omega) fun k hk => hzero _ (.inr ⟨d, hd, by omega, ?_⟩)
      (.inr ⟨c, hc, by omega, by omega⟩)
    unfold LoadCommand.headSize
    omega
  rw [hfield, UInt32.toNat_zero] at hsize
  omega

/-- A binary with two commands, the first of which locates a signature but has no room for its
    fields. -/
def crowdedFile : ByteArray :=
  ⟨(Header.encode .big { signedHeader with commandCount := 2 } ++
    ([0x1d, 8, 44, 8].flatMap fun w => ByteOrder.big.encode 4 w) ++ List.replicate 16 1).toArray⟩

example : (stripSignatures crowdedFile).bind stripSignatures = .error (.commandSize 1 0) := by
  decide +kernel

end ReleaseSeal.MachO
