import ReleaseSeal.Markup.Opening
import ReleaseSeal.Text.CharacterSet.Registry

/-!
# The encoding of a document

The first bytes of a document tell whether it is laid out in single bytes or in two-byte units; its
opening may then declare a particular encoding. Some encodings are built in, all others come from the
registry of character sets.
-/

namespace ReleaseSeal.Markup

/-- How a document ends. -/
inductive Ending where
  | complete
  | malformed
  | unknownEncoding (name : String)

/-- How the bytes of a document are read, and what its names may hold. -/
structure Encoding where
  decoder : Text.ScalarDecoder
  alphabet : Alphabet

/-- UTF-16 in one of its byte orders. -/
def Encoding.utf16 (order : ByteOrder) : Encoding :=
  { decoder := Text.utf16Loose order, alphabet := { signs := true } }

/-- UTF-8. -/
def Encoding.utf8 : Encoding :=
  { decoder := Text.utf8, alphabet := { signs := false } }

/-- How the bytes of a document are known to be laid out before its declaration is read. -/
inductive Layout where
  | octets
  | units (order : ByteOrder)

/-- The layout that a byte order mark tells, and the bytes after the mark. -/
def Layout.split : List UInt8 → Layout × List UInt8
  | 0xef :: 0xbb :: 0xbf :: rest => (.octets, rest)
  | 0xfe :: 0xff :: rest => (.units .big, rest)
  | 0xff :: 0xfe :: rest => (.units .little, rest)
  | bytes => (.octets, bytes)

/-- How many bytes an ASCII character takes. -/
def Layout.width : Layout → Nat
  | .octets => 1
  | .units _ => 2

/-- The encoding of a document that declares none. -/
def Layout.encoding : Layout → Encoding
  | .octets => .utf8
  | .units order => .utf16 order

/-- The encoding of a character set from the registry. -/
def registeredEncoding (name : String) : Except Ending Encoding :=
  match Text.CharacterSet.find? name with
  | none => .error (.unknownEncoding name)
  | some set =>
    match set.coding.decoder? with
    | some decoder => .ok { decoder, alphabet := { signs := false } }
    | none => .error .malformed

/-- The encoding that the opening of a document declares. A built-in one has to agree with the layout;
one from the registry replaces it. -/
def Layout.declared (layout : Layout) (declared : Option String) : Except Ending Encoding :=
  match declared with
  | none => .ok layout.encoding
  | some name =>
    match layout, name.map Char.toLower with
    | .octets, "utf-8" => .ok .utf8
    | .octets, "us-ascii" => .ok { decoder := Text.ascii, alphabet := { signs := false } }
    | .octets, "iso-8859-1" => .ok { decoder := Text.latin1, alphabet := { signs := true } }
    | .units order, "utf-16" => .ok (.utf16 order)
    | .units .big, "utf-16be" => .ok (.utf16 .big)
    | .units .little, "utf-16le" => .ok (.utf16 .little)
    | _, "utf-8" | _, "us-ascii" | _, "iso-8859-1" | _, "utf-16" | _, "utf-16be" | _, "utf-16le" =>
      .error .malformed
    | _, _ => registeredEncoding name

/-- The characters of a document, with a NUL where decoding stopped. -/
def characters (decoder : Text.ScalarDecoder) (bytes : List UInt8) : List Char :=
  match Text.decode decoder bytes with
  | (cs, true) => cs
  | (cs, false) => cs ++ ['\x00']

end ReleaseSeal.Markup
