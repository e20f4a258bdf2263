import ModuleRoster.Failure
import ModuleRoster.FileTree.Access
import ModuleRoster.Log
import ModuleRoster.Roster.ModuleSet

/-!
# Roster/Listing — the public names of a registry, and the sets made of them

A registry holds the names of the bundled modules, in any order and perhaps more than once.  A name
that begins with an underscore is private.  The listing is the public names in order, duplicates
kept, and it is written one name to a line.
-/

namespace ModuleRoster

/-- **The names of the bundled modules**, as they are found. -/
abbrev Registry := List Text

/-- The registry of a machine, which may have none. -/
abbrev Host := Option Registry

/-- **The registry to list**: the one that is given, or else the one of the machine. -/
def Host.registryOr (host : Host) (given : Option Registry) : Except Failure Registry :=
  match given, host with
  | some registry, _ => .ok registry
  | none, some registry => .ok registry
  | none, none => .error .noRegistry

/-- Is a name public? -/
def isPublic (name : Text) : Bool := name.head? != some '_'

namespace Registry

/-- **The public names, sorted by code point.** -/
def listing (registry : Registry) : List Text := Text.sort (registry.filter isPublic)

/-- What is noted when the names are listed: their number, and how many of them are left out. -/
def entry (registry : Registry) : LogEntry :=
  .registryRead registry.length (registry.length - registry.listing.length)

/-- The listing as it is written. -/
def listText (registry : Registry) : Text := Text.unlines registry.listing

end Registry

/-- **List the public names** of the given registry, or else of the machine: the listing, and what
is noted meanwhile. -/
def listPublic (host : Host) (given : Option Registry) :
    Except Failure (List Text) × List LogEntry :=
  match host.registryOr given with
  | .error failure => (.error failure, [])
  | .ok registry => (.ok registry.listing, [registry.entry])

namespace ModuleSet

/-- The set of the public names of the machine. -/
def current (host : Host) : Except Failure ModuleSet :=
  (listPublic host none).1.map ofList

/-- **The set in a written file**: UTF-8, in which the common line breaks are the same. -/
def load (tree : FileTree) (path : Text) : Except Failure ModuleSet :=
  match tree.read path with
  | .error fault => .error (.badPath fault path)
  | .ok bytes =>
      match Utf8.decode bytes with
      | .error fault => .error (.undecodable fault)
      | .ok t => .ok (parse (Text.unifyBreaks t))

end ModuleSet

end ModuleRoster
