import ReleaseSeal.Markup.DocumentType
import ReleaseSeal.Markup.Encoding

/-!
# Markup events

A document as the sequence of its start tags, end tags and texts. `Scan.ofBytes` yields the events
that stand before the first place where the document is not well formed, so that a consumer that
refuses an event can do so before the fault behind it is found.
-/

namespace ReleaseSeal.Markup

/-- What a consumer of a document sees. -/
inductive Event where
  | opened (name : String)
  | closed (name : String)
  | text (cs : List Char)

/-- The events of a document, in order, and how it ends. -/
structure Scan where
  events : List Event
  ending : Ending

/-- The rest of a start tag after its name. -/
structure TagEnd where
  isEmpty : Bool
  rest : List Char

/-- The attributes of a start tag, up to its end. Their names must differ; `seen` holds those in
front. -/
def attributes? (rules : Rules) : (fuel : Nat) → (seen : List (List Char)) → List Char →
    Option TagEnd
  | 0, _, _ => none
  | fuel + 1, seen, cs =>
    let spaced := (cs.head?.map isSpace).getD false
    match skipSpace cs with
    | '>' :: rest => some { isEmpty := false, rest }
    | '/' :: '>' :: rest => some { isEmpty := true, rest }
    | cs =>
      if !spaced then none
      else do
        let (name, rest) ← name? rules.alphabet cs
        let rest ← after? ['='] (skipSpace rest)
        match skipSpace rest with
        | quote :: rest =>
          if quote = '"' || quote = '\'' then
            let (value, rest) ← upTo? [quote] [] rest
            if seen.contains name || !validAttribute rules.alphabet rules.lenient value then none
            else attributes? rules fuel (name :: seen) rest
          else none
        | [] => none

/-- Text up to the next tag or reference; the mark that ends a marked section may not occur. -/
def plainText? : (acc cs : List Char) → Option (List Char × List Char)
  | acc, [] => some (acc.reverse, [])
  | acc, c :: rest =>
    if c = '<' || c = '&' then some (acc.reverse, c :: rest)
    else if (after? [']', ']', '>'] (c :: rest)).isSome || !isLegal c then none
    else plainText? (c :: acc) rest

/-- After the root only comments, processing instructions and white space may follow. -/
def epilog (a : Alphabet) : (fuel : Nat) → List Char → Bool
  | 0, _ => false
  | fuel + 1, cs =>
    match skipSpace cs with
    | [] => true
    | '<' :: '?' :: rest => ((instruction? a rest).map (epilog a fuel)).getD false
    | '<' :: '!' :: '-' :: '-' :: rest => ((comment? rest).map (epilog a fuel)).getD false
    | _ => false

/-- The events in reverse order, as a scan. -/
def Scan.close (complete : Bool) (acc : List Event) : Scan :=
  { events := acc.reverse, ending := if complete then .complete else .malformed }

/-- What one construct of the content amounts to. -/
inductive Step where
  | malformed
  | more (stack : List (List Char)) (events : List Event) (rest : List Char)

/-- Reads one construct of the content inside the elements on the stack. -/
def Step.next (rules : Rules) (fuel : Nat) (stack : List (List Char)) (cs : List Char) : Step :=
  let skipped : Option (List Char) → Step
    | some rest => .more stack [] rest
    | none => .malformed
  match cs with
  | [] => .malformed
  | '<' :: '/' :: rest =>
    match name? rules.alphabet rest, stack with
    | some (name, rest), top :: stack =>
      match after? ['>'] (skipSpace rest) with
      | some rest =>
        if name = top then .more stack [.closed (String.ofList name)] rest else .malformed
      | none => .malformed
    | _, _ => .malformed
  | '<' :: '!' :: '-' :: '-' :: rest => skipped (comment? rest)
  | '<' :: '!' :: rest =>
    match (after? "[CDATA[".toList rest).bind (upTo? [']', ']', '>'] []) with
    | some (body, rest) => .more stack [.text body] rest
    | none => .malformed
  | '<' :: '?' :: rest => skipped (instruction? rules.alphabet rest)
  | '<' :: rest =>
    match name? rules.alphabet rest with
    | none => .malformed
    | some (name, rest) =>
      match attributes? rules fuel [] rest with
      | none => .malformed
      | some tag =>
        let label := String.ofList name
        if tag.isEmpty then .more stack [.opened label, .closed label] tag.rest
        else .more (name :: stack) [.opened label] tag.rest
  | '&' :: rest =>
    match reference? rules.alphabet rules.lenient rest with
    | some (some c, rest) => .more stack [.text [c]] rest
    | some (none, rest) => .more stack [] rest
    | none => .malformed
  | cs =>
    match plainText? [] cs with
    | some (body, rest) => .more stack [.text body] rest
    | none => .malformed

/-- Scans the content of a document inside the elements on the stack; once the stack is empty the
root has ended. -/
def Scan.content (rules : Rules) : (fuel : Nat) → List (List Char) → List Event → List Char → Scan
  | 0, _, acc, _ => .close false acc
  | fuel + 1, stack, acc, cs =>
    match Step.next rules (fuel + 1) stack cs with
    | .malformed => .close false acc
    | .more [] events rest =>
      .close (epilog rules.alphabet (rest.length + 1) rest) (events.reverse ++ acc)
    | .more stack events rest => content rules fuel stack (events.reverse ++ acc) rest

/-- Scans a document from its prolog on. Comments, processing instructions and one document type
declaration may stand before the root. -/
def Scan.prolog : (fuel : Nat) → (typed : Bool) → Rules → List Char → Scan
  | 0, _, _, _ => .close false []
  | fuel + 1, typed, rules, cs =>
    let continued : Option (List Char) → Scan
      | some rest => prolog fuel typed rules rest
      | none => .close false []
    match skipSpace cs with
    | '<' :: '?' :: rest => continued (instruction? rules.alphabet rest)
    | '<' :: '!' :: '-' :: '-' :: rest => continued (comment? rest)
    | '<' :: '!' :: rest =>
      match (after? "DOCTYPE".toList rest).bind (documentType? rules) with
      | some (rules, rest) => if typed then .close false [] else prolog fuel true rules rest
      | none => .close false []
    | '<' :: rest =>
      match name? rules.alphabet rest with
      | some _ => content rules (rest.length + 2) [] [] ('<' :: rest)
      | none => .close false []
    | _ => .close false []

/-- Scans the bytes of a document. What the opening declares takes effect right behind it. -/
def Scan.ofBytes (bytes : List UInt8) : Scan :=
  let (layout, bytes) := Layout.split bytes
  let cs := characters layout.encoding.decoder bytes
  let scan (standalone : Bool) (encoding : Encoding) (bytes : List UInt8) : Scan :=
    let cs := joinLineEnds [] (characters encoding.decoder bytes)
    let rules : Rules := { alphabet := encoding.alphabet, unread := false, standalone }
    prolog (cs.length + 1) false rules cs
  match Opening.split layout.encoding.alphabet cs with
  | .malformed => .close false []
  | .absent _ => scan false layout.encoding bytes
  | .declared declaration rest =>
    match layout.declared declaration.encoding with
    | .error ending => { events := [], ending }
    | .ok encoding =>
      let size := (cs.length - rest.length) * layout.width
      scan declaration.standalone encoding (bytes.drop size)

end ReleaseSeal.Markup
