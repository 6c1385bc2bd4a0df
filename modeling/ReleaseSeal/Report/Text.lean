import ReleaseSeal.Failure
import ReleaseSeal.Plist.Display
import ReleaseSeal.Plist.KeyOrder

/-!
# Text reports

A text report is a row of sections. Each has a title between brackets below an empty line, and its
lines are indented by a tab. A report that cannot be finished stands as far as it is written.
-/

namespace ReleaseSeal.Report

open Plist (Value Dict)

/-- A report as far as it is written, and the failure that keeps it from going on. -/
structure Draft where
  text : String
  failure : Option Failure

namespace Draft

/-- A finished report. -/
def finished (text : String) : Draft :=
  { text, failure := none }

/-- A report that is either finished or not begun. -/
def ofExcept : Except Failure String → Draft
  | .ok text => finished text
  | .error e => { text := "", failure := some e }

/-- A report with another one behind it, which is only begun if the first is finished. -/
def append (a b : Draft) : Draft :=
  if a.failure.isSome then a else { text := a.text ++ b.text, failure := b.failure }

/-- Reports one behind the other. -/
def join (drafts : List Draft) : Draft :=
  drafts.foldl append (finished "")

end Draft

/-- A section of a report. -/
def titled (title : String) (lines : List String) : String :=
  "\n[" ++ title ++ "]\n" ++ String.join (lines.map fun line => "\t" ++ line ++ "\n")

/-- The line of a pair. -/
def pairLine (pair : Value × Value) : String :=
  pair.1.shown ++ ": " ++ pair.2.shown

/-- A section that lists a dictionary in the order of its keys, up to a pair that cannot be shown. -/
def dictSection [Host] (title : String) (d : Dict) : Draft :=
  match Plist.sortByKey? d with
  | none => { text := titled title [], failure := some .unorderedKeys }
  | some pairs =>
    let shown := pairs.takeWhile fun pair => (Value.pairFault? [] pair).isNone
    { text := titled title (shown.map pairLine),
      failure := (pairs.findSome? (Value.pairFault? [])).map .ofText }

end ReleaseSeal.Report
