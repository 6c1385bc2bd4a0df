import ReleaseSeal.Markup.AttributeList
import ReleaseSeal.Markup.ContentModel

/-!
# Document type declarations

No external subset is ever read. A document type may declare elements, attributes and notations, which
mean nothing here but have to be well formed; a document that declares an entity of its own is refused.
-/

namespace ReleaseSeal.Markup

/-- What the prolog of a document says about the names in the rest of it. -/
structure Rules where
  alphabet : Alphabet
  /-- There are declarations that were not read. -/
  unread : Bool
  /-- The document says that it stands alone. -/
  standalone : Bool

/-- A reference to an unknown entity stands for nothing where its declaration may be in a part that
was not read. -/
def Rules.lenient (r : Rules) : Bool :=
  r.unread && !r.standalone

/-- Declarations of entities and default values still count. They no longer do after a reference to a
part that is not read, unless the document stands alone. -/
structure Following where
  rules : Rules
  active : Bool

/-- A character of a public identifier. -/
def isPublicChar (c : Char) : Bool :=
  c.isAlphanum || " \n\r-'()+,./:=?;!*#@$_%".toList.contains c

/-- The tokens after an external identifier. -/
def externalId? : List Token → Option (List Token)
  | .name kind .once :: .literal first :: rest =>
    if kind = "SYSTEM".toList then some rest
    else if kind = "PUBLIC".toList && first.all isPublicChar then
      match rest with
      | .literal _ :: rest => some rest
      | _ => none
    else none
  | _ => none

/-- The tokens of a notation declaration: an external identifier, or only a public one. -/
def isNotationDeclaration : List Token → Bool
  | [.name _ .once, .name kind .once, .literal identifier] =>
    kind = "SYSTEM".toList || (kind = "PUBLIC".toList && identifier.all isPublicChar)
  | .name _ .once :: rest =>
    match externalId? rest with
    | some rest => rest.isEmpty
    | none => false
  | _ => false

/-- The declaration of an entity. -/
structure EntityDeclaration where
  /-- The entity is referred to in the content, not in the document type. -/
  general : Bool
  name : List Char
  /-- The text between the quotes; an external entity has none. -/
  value : Option (List Char)

/-- What an entity stands for. Only a general one may be external data in a notation. -/
def entityValue? (general : Bool) : List Token → Option (Option (List Char))
  | [.literal value] => some (some value)
  | tokens => do
    match ← externalId? tokens with
    | [] => return none
    | [.name kind .once, .name _ .once] =>
      if general && kind = "NDATA".toList then return none else none
    | _ => none

/-- Reads the tokens of an entity declaration. -/
def EntityDeclaration.ofTokens? : List Token → Option EntityDeclaration
  | .percent :: .name name .once :: rest => do
    return { general := false, name, value := ← entityValue? false rest }
  | .name name .once :: rest => do
    return { general := true, name, value := ← entityValue? true rest }
  | _ => none

/-- An entity declaration that counts may only repeat a predefined entity, with a value in which every
reference is well formed and no percent sign stands. -/
def EntityDeclaration.isHarmless (a : Alphabet) (d : EntityDeclaration) : Bool :=
  d.general && (predefined.lookup (String.ofList d.name)).isSome &&
    match d.value with
    | none => true
    | some value => !value.contains '%' && validReferences a true (value.length + 1) value

/-- A markup declaration of the internal subset is well formed, and harmless if it counts. -/
def Following.admits (f : Following) (kind : String) (tokens : List Token) : Bool :=
  let a := f.rules.alphabet
  match kind with
  | "ELEMENT" => isElementDeclaration tokens
  | "NOTATION" => isNotationDeclaration tokens
  | "ATTLIST" =>
    match attributeList? tokens with
    | some values => !f.active || values.all (validAttribute a f.rules.lenient)
    | none => false
  | "ENTITY" =>
    match EntityDeclaration.ofTokens? tokens with
    | some declaration => !f.active || declaration.isHarmless a
    | none => false
  | _ => false

/-- A markup declaration, without its opening. -/
def Following.declaration? (f : Following) (cs : List Char) : Option (List Char) := do
  let (kind, rest) ← name? f.rules.alphabet cs
  let rest ← space? rest
  let (tokens, rest) ← tokens? f.rules.alphabet (rest.length + 1) [] rest
  if f.admits (String.ofList kind) tokens then after? ['>'] rest else none

/-- Reads the internal subset of a document type, up to its bracket. -/
def internalSubset? : (fuel : Nat) → Following → List Char → Option (Rules × List Char)
  | 0, _, _ => none
  | fuel + 1, f, cs =>
    let a := f.rules.alphabet
    match skipSpace cs with
    | ']' :: rest => some (f.rules, rest)
    | '%' :: rest => do
      let (_, rest) ← name? a rest
      let rest ← after? [';'] rest
      let rules := { f.rules with unread := true }
      internalSubset? fuel { rules, active := rules.standalone } rest
    | '<' :: '?' :: rest => do internalSubset? fuel f (← instruction? a rest)
    | '<' :: '!' :: '-' :: '-' :: rest => do internalSubset? fuel f (← comment? rest)
    | '<' :: '!' :: rest => do internalSubset? fuel f (← f.declaration? rest)
    | _ => none

/-- The tokens in front of the internal subset: the name of the root, then an external identifier or
nothing. -/
def isExternal? : List Token → Option Bool
  | [.name _ .once] => some false
  | .name _ .once :: rest => do
    match ← externalId? rest with
    | [] => return true
    | _ => none
  | _ => none

/-- A document type declaration, without its opening. -/
def documentType? (rules : Rules) (cs : List Char) : Option (Rules × List Char) := do
  let rest ← space? cs
  let (tokens, rest) ← tokens? rules.alphabet (rest.length + 1) [] rest
  let rules := { rules with unread := ← isExternal? tokens }
  match rest with
  | '>' :: rest => return (rules, rest)
  | '[' :: rest => do
    let (rules, rest) ← internalSubset? rest.length { rules, active := true } rest
    return (rules, ← after? ['>'] (skipSpace rest))
  | _ => none

end ReleaseSeal.Markup
