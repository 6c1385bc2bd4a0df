import ReleaseSeal.Edit.Summary
import ReleaseSeal.Text.Quoted

/-!
# Refused options

Why the options of a comparison are refused, and the wording.
-/

namespace ReleaseSeal.Compare

/-- Why options are refused. -/
inductive OptionError where
  | unknownPairing (name : String)
  | missingPairing
  | permittedOutOfRange
  | editLimitOutOfRange
deriving DecidableEq, Repr

/-- The wording of a refusal. -/
def OptionError.message : OptionError → String
  | unknownPairing name => "pair_by must be 'path' or 'position', not " ++ Text.quoted name
  | missingPairing => "pair_by must be 'path' or 'position', not []"
  | permittedOutOfRange => s!"permitted_diffs must be between 0 and {Edit.maxLimit}"
  | editLimitOutOfRange => s!"edit_limit must be between 0 and {Edit.maxLimit}"

end ReleaseSeal.Compare
