import ReleaseSeal.Text.Encoding
import ReleaseSeal.Text.Split

/-!
# Character sets by name

A character set assigns characters to bytes. The sets that can be read have one byte a character and
ASCII in their lower half.
-/

namespace ReleaseSeal.Text

/-- How the bytes of a character set stand for characters. -/
inductive Coding where
  /-- ASCII below 0x80, and the listed characters from there on. -/
  | octets (upper : String)
  /-- ASCII without the tilde, which opens escapes. -/
  | tildeless
  /-- Several bytes a character, or a lower half other than ASCII. -/
  | unreadable

/-- A character set, its own names, and the other names it goes by. -/
structure CharacterSet where
  names : List String
  otherNames : List String
  coding : Coding

/-- As `ascii`, without the tilde. -/
def asciiWithoutTilde : ScalarDecoder := fun bytes =>
  match ascii bytes with
  | some ('~', _) => none
  | decoded => decoded

/-- The decoder of a character set, if it can be read. -/
def Coding.decoder? : Coding → Option ScalarDecoder
  | .octets upper => some (Text.octets upper.toList.toArray)
  | .tildeless => some asciiWithoutTilde
  | .unreadable => none

/-- The name of a character set as registries spell it: words of letters, digits and dots in lower
case, with underscores between them. -/
def CharacterSet.registeredName (name : List Char) : String :=
  let spelled := name.map fun c => if c.isAlphanum || c == '.' then c.toLower else '_'
  let words := (splitOn '_' spelled).filter fun word => !word.isEmpty
  "_".intercalate (words.map String.ofList)

end ReleaseSeal.Text
