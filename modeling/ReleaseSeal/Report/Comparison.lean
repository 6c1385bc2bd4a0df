import ReleaseSeal.Compare.Archives
import ReleaseSeal.Report.Text

/-!
# Reports on comparisons

The outcome of a comparison: how many pairs are identical or tolerated, and the tolerated ones.
-/

namespace ReleaseSeal.Report

open Compare (Comparison Verdict)

/-- What a tolerated difference consists of. -/
def differenceText (count : Option Int) : Option Bundle.Category → String
  | some category => category.name
  | none => ((count.map toString).getD "None") ++ " changes"

/-- The line of a tolerated difference. -/
def verdictLine? : Verdict → Option String
  | .tolerated path count category => some (path ++ ": " ++ differenceText count category)
  | .identical _ | .fatal .. => none

/-- The report on a comparison. -/
def comparisonText (c : Comparison) : String :=
  titled ("Comparison - " ++ c.root)
    (["core_size: " ++ toString c.coreSize,
      "identical: " ++ toString c.identicalCount,
      "main_executable: " ++ c.mainExecutable.getD "None",
      "tolerated: " ++ toString c.tolerated.length] ++ c.verdicts.filterMap verdictLine?)

end ReleaseSeal.Report
