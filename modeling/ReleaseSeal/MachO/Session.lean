import ReleaseSeal.MachO.Binary

/-!
# Sessions of several readers

A session owns readers onto one backing string of bytes. An operation works on one of them; looking
at a window of it, or at the same window in another byte order, adds a reader.
-/

namespace ReleaseSeal.MachO

/-- A reader: what it looks at, and its offset. -/
structure Cursor where
  frame : Frame
  offset : Nat

/-- What a reader can be asked to do. -/
inductive Operation where
  | seek (offset : Int)
  | skip (count : Int)
  | tell
  | size
  | order
  | fields (what : String) (fields : List Field)
  | take (count : Int)
  | peek (offset : Int) (order : Option ByteOrder)
  | classify (offset : Int)
  | view (start length : Int) (order : Option ByteOrder)
  | withOrder (order : Option ByteOrder)

/-- What an operation yields. -/
inductive Outcome where
  | done
  | number (n : Int)
  | numbers (ns : List Int)
  | order (order : ByteOrder)
  | bytes (bytes : ByteArray)
  | binary (binary : Binary)
  | reader (index : Nat) (frame : Frame)

namespace Cursor

/-- Runs an action on a reader; also a failed action leaves the offset that it has reached. -/
def run {α : Type} (c : Cursor) (action : Reading α) : Except Error α × Cursor :=
  match (ReaderT.run action c.frame).run c.offset with
  | .ok a offset => (.ok a, { c with offset })
  | .error e offset => (.error e, { c with offset })

/-- The action of an operation that adds no reader. -/
def action : Operation → Reading Outcome
  | .seek offset => do Reading.seek offset; return .done
  | .skip count => do Reading.skip count; return .done
  | .tell => return .number (← Reading.tell)
  | .size => return .number (← read).size
  | .order => return .order (← read).order
  | .fields what fields => return .numbers (← Reading.fields what fields)
  | .take count => return .bytes (← Reading.take count)
  | .peek offset order => do
    return .number (← Reading.ofOutcome ((← read).peek offset order)).toNat
  | .classify offset => return .binary (← ReleaseSeal.MachO.classify offset)
  | .view .. | .withOrder _ => return .done

end Cursor

/-- The readers of a session, in the order in which they were made. -/
abbrev Session := Array Cursor

namespace Session

/-- A session with one reader at the head of a frame. -/
def start (frame : Frame) : Session :=
  #[{ frame, offset := 0 }]

/-- Adds a reader. -/
def add (s : Session) (frame : Frame) (offset : Nat) : Except Error Outcome × Session :=
  (.ok (.reader s.size frame), s.push { frame, offset })

/-- Performs an operation on the reader of an index, if there is one. -/
def perform? (s : Session) (index : Nat) (op : Operation) : Option (Except Error Outcome × Session) :=
  (s[index]?).map fun c =>
    match op with
    | .view start length order =>
      match c.frame.view start length order with
      | .ok frame => s.add frame 0
      | .error e => (.error e, s)
    | .withOrder order => s.add (c.frame.withOrder order) c.offset
    | op =>
      let (outcome, c) := c.run (Cursor.action op)
      (outcome, s.setIfInBounds index c)

end Session

end ReleaseSeal.MachO
