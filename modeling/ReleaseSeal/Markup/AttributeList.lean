import ReleaseSeal.Markup.Token

/-!
# Attribute lists

The declarations of attributes. All that counts of them is that they are well formed, and the default
values they hold.
-/

namespace ReleaseSeal.Markup

/-- The types of attributes that have a name of their own. -/
def attributeTypes : List String :=
  ["CDATA", "ID", "IDREF", "IDREFS", "ENTITY", "ENTITIES", "NMTOKEN", "NMTOKENS"]

/-- A name. -/
def Token.isName : Token → Bool
  | .name _ .once => true
  | _ => false

/-- A name or a name token. -/
def Token.isNameToken : Token → Bool
  | .name _ .once | .nameToken => true
  | _ => false

/-- The tokens after an enumeration of items between bars, the opening of which is gone. -/
def enumeration? (isItem : Token → Bool) : List Token → Option (List Token)
  | item :: .bar :: rest => if isItem item then enumeration? isItem rest else none
  | item :: .closing .once :: rest => if isItem item then some rest else none
  | _ => none

/-- The tokens after the type of an attribute. -/
def attributeType? : List Token → Option (List Token)
  | .opening :: rest => enumeration? Token.isNameToken rest
  | .name cs .once :: rest =>
    if cs = "NOTATION".toList then
      match rest with
      | .opening :: rest => enumeration? Token.isName rest
      | _ => none
    else if attributeTypes.contains (String.ofList cs) then some rest
    else none
  | _ => none

/-- What an attribute is by default: its value, if it has one, and the tokens behind. -/
def attributeDefault? : List Token → Option (Option (List Char) × List Token)
  | .literal value :: rest => some (some value, rest)
  | .keyword cs :: rest =>
    if cs = "IMPLIED".toList || cs = "REQUIRED".toList then some (none, rest)
    else if cs = "FIXED".toList then
      match rest with
      | .literal value :: rest => some (some value, rest)
      | _ => none
    else none
  | _ => none

/-- The default values of a list of attributes. `fuel` exceeds the number of tokens. -/
def defaultValues? : (fuel : Nat) → List Token → Option (List (List Char))
  | 0, _ => none
  | _, [] => some []
  | fuel + 1, .name _ .once :: rest => do
    let (value, rest) ← attributeDefault? (← attributeType? rest)
    return value.toList ++ (← defaultValues? fuel rest)
  | _, _ => none

/-- The default values in an attribute list declaration. -/
def attributeList? : List Token → Option (List (List Char))
  | .name _ .once :: rest => defaultValues? (rest.length + 1) rest
  | _ => none

end ReleaseSeal.Markup
