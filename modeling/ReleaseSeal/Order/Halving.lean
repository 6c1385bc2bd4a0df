/-!
# Sorting by halving

The run that a list starts with is taken as it is, or backwards if it descends; each further item is
put in front of the first item that halving finds behind it. For a comparison that is an order this
sorts, and leaves equal items in their order.
-/

namespace ReleaseSeal.Order

/-- The place between two others at which a test turns true, looked for by halving. -/
def searchPlace (isBehind : Nat → Bool) (low high : Nat) : Nat :=
  if low < high then
    let middle := low + (high - low) / 2
    if isBehind middle then searchPlace isBehind low middle
    else searchPlace isBehind (middle + 1) high
  else low
termination_by high - low
decreasing_by all_goals omega

/-- Puts an item in its place. -/
def insertByHalving {α : Type} (less : α → α → Bool) (items : List α) (item : α) : List α :=
  let isBehind (i : Nat) : Bool := (items[i]?.map (less item)).getD false
  let place := searchPlace isBehind 0 items.length
  items.take place ++ item :: items.drop place

/-- The items that each stand in one relation to the one in front, from a first item on, and the rest.
-/
def runFrom {α : Type} (follows : α → α → Bool) : (first : α) → List α → List α × List α
  | first, [] => ([first], [])
  | first, next :: rest =>
    if follows first next then
      let (run, rest) := runFrom follows next rest
      (first :: run, rest)
    else ([first], next :: rest)

/-- The run that a list starts with, in ascending order, and the rest. -/
def leadingRun {α : Type} (less : α → α → Bool) : List α → List α × List α
  | [] => ([], [])
  | first :: rest =>
    if (rest.head?.map fun next => less next first).getD false then
      let (run, rest) := runFrom (fun a b => less b a) first rest
      (run.reverse, rest)
    else runFrom (fun a b => !less b a) first rest

/-- The items in ascending order. -/
def sortByHalving {α : Type} (less : α → α → Bool) (items : List α) : List α :=
  let (run, rest) := leadingRun less items
  rest.foldl (insertByHalving less) run

end ReleaseSeal.Order
