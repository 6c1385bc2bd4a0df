/-!
# Splitting text

Cutting a text at a separator, and the segments of a path.
-/

namespace ReleaseSeal.Text

/-- The pieces of a text between the occurrences of a separator. There is one piece at least. -/
def splitOn (separator : Char) : List Char → List (List Char)
  | [] => [[]]
  | c :: rest =>
    if c = separator then [] :: splitOn separator rest
    else
      match splitOn separator rest with
      | [] => [[c]]
      | piece :: pieces => (c :: piece) :: pieces

/-- The segments of a path that are not empty. -/
def segments (path : String) : List String :=
  ((splitOn '/' path.toList).filter fun piece => !piece.isEmpty).map String.ofList

/-- The text after the last separator, all of it if there is none. -/
def afterLast (separator : Char) (cs : List Char) : List Char :=
  (cs.reverse.takeWhile (· ≠ separator)).reverse

/-- The text before the last separator, empty if there is none. -/
def beforeLast (separator : Char) (cs : List Char) : List Char :=
  ((cs.reverse.dropWhile (· ≠ separator)).drop 1).reverse

/-- A text ends with another. -/
def endsWith (s suffix : String) : Bool :=
  suffix.toList.isSuffixOf s.toList

end ReleaseSeal.Text
