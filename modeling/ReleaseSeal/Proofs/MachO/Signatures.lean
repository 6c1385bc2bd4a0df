import ReleaseSeal.Proofs.MachO.Table

/-!
# Declared signatures

A load command of the kind that locates a signature declares a range of its slice, by two fields behind
the command's head. What it declares is untrusted: the range may lie anywhere, and the fields need not
even belong to the command, whose size may be that of its head. `ThinBinary.Covers` collects what the
commands of a binary declare, ranges and fields.
-/

namespace ReleaseSeal.MachO

namespace PlacedCommand

/-- The command locates a signature. -/
def IsSignature (c : PlacedCommand) : Prop :=
  c.command.kind = LoadCommand.codeSignature

instance : DecidablePred IsSignature :=
  fun c => inferInstanceAs (Decidable (c.command.kind = LoadCommand.codeSignature))

/-- Where the two fields stand that locate the signature. -/
def locator (c : PlacedCommand) : Nat :=
  c.start + LoadCommand.headSize

/-- Where the declared signature starts. -/
def signatureOffset (f : Frame) (c : PlacedCommand) : Nat :=
  (wordAt f.order f.bytes c.locator).toNat

/-- The size of the declared signature. -/
def signatureSize (f : Frame) (c : PlacedCommand) : Nat :=
  (wordAt f.order f.bytes (c.locator + 4)).toNat

/-- Where the declared signature ends. -/
def signatureEnd (f : Frame) (c : PlacedCommand) : Nat :=
  c.signatureOffset f + c.signatureSize f

/-- The offset lies in the signature that the command declares. -/
def Declares (f : Frame) (c : PlacedCommand) (i : Nat) : Prop :=
  c.signatureOffset f ≤ i ∧ i < c.signatureEnd f

/-- The offset lies in the fields that locate the signature. -/
def Locates (c : PlacedCommand) (i : Nat) : Prop :=
  c.locator ≤ i ∧ i < c.locator + 8

/-- The fields and the signature that they locate are inside the frame. -/
def IsInside (f : Frame) (c : PlacedCommand) : Prop :=
  c.locator + 8 ≤ f.size ∧ c.signatureEnd f ≤ f.size

end PlacedCommand

namespace ThinBinary

variable {f : Frame}

/-- The commands that locate signatures. -/
def signatures (B : ThinBinary f) : List PlacedCommand :=
  B.commands.filter (·.IsSignature)

/-- The offset lies in a signature that the binary declares. -/
def InSignature (B : ThinBinary f) (i : Nat) : Prop :=
  ∃ c ∈ B.signatures, c.Declares f i

/-- The offset lies in fields that locate a signature of the binary. -/
def InLocator (B : ThinBinary f) (i : Nat) : Prop :=
  ∃ c ∈ B.signatures, c.Locates i

/-- The offset lies in a declared signature or in the fields that locate one. -/
def Covers (B : ThinBinary f) (i : Nat) : Prop :=
  B.InSignature i ∨ B.InLocator i

/-- What a binary covers, command by command. -/
theorem covers_iff {B : ThinBinary f} {i : Nat} :
    B.Covers i ↔ ∃ c ∈ B.signatures, c.Declares f i ∨ c.Locates i := by
  simp only [Covers, InSignature, InLocator, and_or_left, exists_or]

theorem mem_signatures {B : ThinBinary f} {c : PlacedCommand} :
    c ∈ B.signatures ↔ c ∈ B.commands ∧ c.IsSignature := by
  simp [signatures]

/-- A walk that only looks at the commands that locate signatures. -/
theorem walk_signatures_iff {σ : Type} {visit : Nat → LoadCommand → σ → Reading σ} {s t : σ}
    (B : ThinBinary f)
    (hskip : ∀ c : PlacedCommand, ¬c.IsSignature → ∀ s t,
      (∃ k, Reading.Yields f c.locator (visit c.start c.command s) t k) ↔ t = s) :
    Reading.result f (LoadCommand.walk B.header visit s) = .ok t ↔ Visits f visit B.signatures s t := by
  rw [B.walk_eq_ok_iff, visits_filter_iff hskip, signatures]

end ThinBinary

/-! ## Signed files -/

def signedHeader : Header :=
  { layout := .bits32, cpuType := 18, cpuSubtype := 0, fileType := 2, commandCount := 1,
    commandsSize := 16, flags := 0 }

/-- The command of a signed file. -/
def signedCommand : PlacedCommand :=
  { start := 28, command := { kind := 0x1d, size := 16 } }

/-- A 32-bit binary in big-endian order with one command, which locates the signature behind it. -/
def signedFile (signature : List UInt8) : ByteArray :=
  ⟨(signedHeader.encode .big ++
    ([0x1d, 16, 44, signature.length].flatMap fun w => ByteOrder.big.encode 4 w) ++
    signature).toArray⟩

/-- The same file without its signature. -/
def unsignedFile : ByteArray :=
  ⟨(signedHeader.encode .big ++ [0x1d, 16, 0, 0].flatMap fun w => ByteOrder.big.encode 4 w).toArray⟩

/-- The binary in a frame that holds a signed file. -/
def signedBinary (f : Frame) (hheader : HoldsWords f.order f.bytes 0 signedHeader.words)
    (hcommand : HoldsWords f.order f.bytes 28 [0x1d, 16]) (hin : 44 ≤ f.size) : ThinBinary f where
  header := signedHeader
  commands := [signedCommand]
  stop := 44
  opens := hheader
  length_commands := by decide
  length_le := by decide
  tiles := by
    obtain ⟨hhead, hat⟩ := (@LoadCommand.holdsWords_iff f 28 { kind := 0x1d, size := 16 }).mp hcommand
    have htiles : Tiles f 28 [{ start := 28, command := .at f 28 }]
        (28 + (LoadCommand.at f 28).size.toNat) :=
      .cons hhead (by rw [← hat]; decide) (.nil (by rw [← hat]; exact hin))
    rw [← hat] at htiles
    exact htiles

theorem signatures_signedBinary {f : Frame} (hheader hcommand hin) :
    (signedBinary f hheader hcommand hin).signatures = [signedCommand] :=
  rfl

end ReleaseSeal.MachO
