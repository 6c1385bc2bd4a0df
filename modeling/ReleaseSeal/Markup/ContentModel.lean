import ReleaseSeal.Markup.Token

/-!
# Content models

What an element declaration says about the content of the element: nothing, anything, text mixed with
elements, or elements in groups. The parts of one group are joined by commas or by bars, never by
both.
-/

namespace ReleaseSeal.Markup

/-- What joins the parts of a group. -/
inductive Connector where
  | sequence | choice
  deriving DecidableEq

/-- The rest of a content model of elements. `groups` holds the open groups, each with what joins its
parts if that is known; `expecting` says that a part has to follow. -/
def isElementModel : (groups : List (Option Connector)) → (expecting : Bool) → List Token → Bool
  | groups, true, .opening :: rest => isElementModel (none :: groups) true rest
  | groups, true, .name _ _ :: rest => isElementModel groups false rest
  | _ :: groups, false, .closing _ :: rest => isElementModel groups false rest
  | connector :: groups, false, .comma :: rest =>
    connector != some .choice && isElementModel (some .sequence :: groups) true rest
  | connector :: groups, false, .bar :: rest =>
    connector != some .sequence && isElementModel (some .choice :: groups) true rest
  | groups, false, [] => groups.isEmpty
  | _, _, _ => false

/-- The rest of a mixed content model after at least one element name. -/
def isMixedTail : List Token → Bool
  | .bar :: .name _ .once :: rest => isMixedTail rest
  | [.closing .anyNumber] => true
  | _ => false

/-- The content model at the end of an element declaration. -/
def isContentModel : List Token → Bool
  | [.name cs .once] => cs = "EMPTY".toList || cs = "ANY".toList
  | .opening :: .keyword cs :: rest =>
    cs = "PCDATA".toList &&
      match rest with
      | [.closing .once] => true
      | rest => isMixedTail rest
  | .opening :: rest => isElementModel [none] true rest
  | _ => false

/-- The tokens of an element declaration. -/
def isElementDeclaration : List Token → Bool
  | .name _ .once :: model => isContentModel model
  | _ => false

end ReleaseSeal.Markup
