import ReleaseSeal.Bundle.Root
import ReleaseSeal.Compare.OptionError
import ReleaseSeal.Compare.Stripper

/-!
# Options of a comparison

How entries are paired and how much may differ. Both limits are within the one of the search for
differences.
-/

namespace ReleaseSeal.Compare

/-- What pairs the entries of two archives. -/
inductive PairBy where
  | path
  | position
deriving DecidableEq, Repr

namespace PairBy

/-- The name of a way of pairing. -/
def name : PairBy → String
  | path => "path"
  | position => "position"

/-- The way of pairing of a name. -/
def ofName? (name : String) : Option PairBy :=
  [path, position].find? fun by' => by'.name == name

end PairBy

/-- The options of a comparison. -/
structure Options where
  /-- How many bytes of the main executable may be inserted or removed. -/
  permitted : Nat
  suffix : String
  pairBy : PairBy
  stripper : Stripper
  editLimit : Nat
  permitted_le : permitted ≤ Edit.maxLimit
  editLimit_le : editLimit ≤ Edit.maxLimit

namespace Options

/-- The options with a number of permitted changes and a limit of the search. -/
def make (permitted : Int) (suffix : String) (pairBy : PairBy) (stripper : Stripper)
    (editLimit : Int) : Except OptionError Options :=
  if hp : 0 ≤ permitted ∧ permitted ≤ Edit.maxLimit then
    if he : 0 ≤ editLimit ∧ editLimit ≤ Edit.maxLimit then
      .ok
        { permitted := permitted.toNat, suffix, pairBy, stripper, editLimit := editLimit.toNat,
          permitted_le := by omega, editLimit_le := by omega }
    else .error .editLimitOutOfRange
  else .error .permittedOutOfRange

/-- The options with the way of pairing of a name. -/
def ofNames (permitted : Int) (suffix pairBy : String) (stripper : Stripper) (editLimit : Int) :
    Except OptionError Options :=
  match PairBy.ofName? pairBy with
  | none => .error (.unknownPairing pairBy)
  | some pairBy => make permitted suffix pairBy stripper editLimit

/-- The options that count where none are given. -/
def standard : Options :=
  { permitted := 0, suffix := Bundle.appSuffix, pairBy := .path, stripper := .none,
    editLimit := Edit.defaultLimit, permitted_le := by decide, editLimit_le := by decide }

/-- How many changes are permitted in an entry. -/
def permittedIn (o : Options) (isMain : Bool) : Nat :=
  if isMain then o.permitted else 0

/-- The limit of the search for differences in an entry. -/
def searchLimit (o : Options) (isMain : Bool) : Nat :=
  max o.editLimit (o.permittedIn isMain)

theorem searchLimit_le (o : Options) (isMain : Bool) : o.searchLimit isMain ≤ Edit.maxLimit := by
  have hp := o.permitted_le
  have he := o.editLimit_le
  cases isMain <;> simp only [searchLimit, permittedIn] <;> grind

end Options

end ReleaseSeal.Compare
