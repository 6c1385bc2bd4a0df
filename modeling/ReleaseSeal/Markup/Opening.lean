import ReleaseSeal.Markup.Character

/-!
# The opening of a document

The declaration of version, encoding and `standalone` that may open a document.
-/

namespace ReleaseSeal.Markup

/-- What the opening declaration of a document says. -/
structure Declaration where
  encoding : Option String
  standalone : Bool

/-- A character of the value of a pseudo-attribute. -/
def isDeclarationChar (c : Char) : Bool :=
  c.isAlphanum || c == '.' || c == '-' || c == '_'

/-- The next pseudo-attribute of a declaration: `some none` at the end of its text. White space must
stand in front of it. -/
def pseudoAttribute? (cs : List Char) : Option (Option (List Char × List Char × List Char)) :=
  match cs with
  | [] => some none
  | c :: _ =>
    if !isSpace c then none
    else
      match skipSpace cs with
      | [] => some none
      | cs => do
        let (name, rest) := cs.span fun c => c != '=' && !isSpace c
        if name.isEmpty then none
        else
          let rest ← after? ['='] (skipSpace rest)
          match skipSpace rest with
          | quote :: rest =>
            if quote = '"' || quote = '\'' then
              let (value, rest) := rest.span isDeclarationChar
              let rest ← after? [quote] rest
              return some (name, value, rest)
            else none
          | [] => none

/-- The value of `standalone`, which ends a declaration. -/
def standalone? (name value rest : List Char) : Option Bool :=
  if name = "standalone".toList && (skipSpace rest).isEmpty then
    if value = "yes".toList then some true
    else if value = "no".toList then some false
    else none
  else none

/-- Reads the text between `<?xml` and `?>`: the version, then the encoding and `standalone`, each of
which may be missing. -/
def Declaration.ofText? (cs : List Char) : Option Declaration := do
  let some (name, _, rest) ← pseudoAttribute? cs | none
  if name ≠ "version".toList then none
  else
    match ← pseudoAttribute? rest with
    | none => return { encoding := none, standalone := false }
    | some (name, value, rest) =>
      if name = "encoding".toList then
        if (value.head?.map Char.isAlpha).getD false then
          let encoding := some (String.ofList value)
          match ← pseudoAttribute? rest with
          | none => return { encoding, standalone := false }
          | some (name, value, rest) =>
            return { encoding, standalone := ← standalone? name value rest }
        else none
      else return { encoding := none, standalone := ← standalone? name value rest }

/-- The opening of a document, split off. -/
inductive Opening where
  | absent (rest : List Char)
  | declared (declaration : Declaration) (rest : List Char)
  | malformed

/-- Splits off the declaration that a document may start with. -/
def Opening.split (a : Alphabet) (cs : List Char) : Opening :=
  match after? "<?xml".toList cs with
  | none => .absent cs
  | some rest =>
    match rest with
    | [] => .malformed
    | c :: _ =>
      if a.isPart c then .absent cs
      else
        match upTo? ['?', '>'] [] rest with
        | none => .malformed
        | some (body, rest) =>
          match Declaration.ofText? body with
          | some declaration => .declared declaration rest
          | none => .malformed

end ReleaseSeal.Markup
