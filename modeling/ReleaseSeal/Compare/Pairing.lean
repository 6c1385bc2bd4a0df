import ReleaseSeal.Archive.Entry
import ReleaseSeal.Compare.Mismatch
import ReleaseSeal.Compare.Options

/-!
# Pairing of entries

No path may occur twice in an archive. By path, every entry is paired with the one of the same path,
and there must be one on both sides; by position, the entries of both archives are paired in order,
and the first two with different paths end the pairing.
-/

namespace ReleaseSeal.Compare

open Archive (Entry)

/-- Pairs of entries, and what the pairing ends with if it does not end well. -/
structure Pairing where
  pairs : List (Entry × Entry)
  stop : Option Mismatch

namespace Pairing

/-- A pairing that ends before the first pair. -/
def failed (m : Mismatch) : Pairing :=
  { pairs := [], stop := some m }

/-- The first path that repeats an earlier one. -/
def repeated? : (earlier : List String) → List String → Option String
  | _, [] => none
  | earlier, path :: rest =>
    if earlier.contains path then some path else repeated? (path :: earlier) rest

/-- The first path that occurs twice in an archive. -/
def duplicate? (entries : List Entry) : Option String :=
  repeated? [] (entries.map Entry.path)

/-- The first path of some entries that is missing among others. -/
def missing? (entries others : List Entry) : Option String :=
  (entries.map Entry.path).find? fun path => others.all fun e => e.path != path

/-- Pairs the entries of two archives in order. -/
def byPosition : List Entry → List Entry → Pairing
  | t :: trusted, u :: untrusted =>
    if t.path = u.path then
      let rest := byPosition trusted untrusted
      { rest with pairs := (t, u) :: rest.pairs }
    else failed (.paths (some t.path) (some u.path))
  | _, _ => { pairs := [], stop := none }

/-- Pairs the entries of two archives by their paths, in the order of the trusted one. -/
def byPath (trusted untrusted : List Entry) : Pairing :=
  match missing? trusted untrusted, missing? untrusted trusted with
  | some path, _ => failed (.paths (some path) none)
  | none, some path => failed (.paths none (some path))
  | none, none =>
    { pairs := trusted.filterMap fun t => (untrusted.find? fun u => u.path == t.path).map (t, ·),
      stop := none }

/-- Pairs the entries of two archives. -/
def of (trusted untrusted : List Entry) (by' : PairBy) : Pairing :=
  match duplicate? trusted, duplicate? untrusted with
  | some path, _ => failed (.duplicate path .trusted)
  | none, some path => failed (.duplicate path .untrusted)
  | none, none =>
    match by' with
    | .path => byPath trusted untrusted
    | .position => byPosition trusted untrusted

end Pairing

end ReleaseSeal.Compare
