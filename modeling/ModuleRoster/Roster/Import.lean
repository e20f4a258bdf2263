import ModuleRoster.Roster.Listing

/-!
# Roster/Import — does an import name a bundled module?

Only the root of a dotted name is looked up.  A name that begins with a dot is relative: it points
into the importing package whatever the set holds, and no set is needed to say so.
-/

namespace ModuleRoster

namespace Import

/-- What stands between the names of an import. -/
def separator : Char := '.'

/-- Does the import start from the importing package? -/
def isRelative (dotted : Text) : Bool := dotted.head? == some separator

/-- The name before the first dot. -/
def root (dotted : Text) : Text := dotted.takeWhile fun c => c != separator

end Import

/-- **Does a set hold the module that an import names?** -/
def ModuleSet.holdsImport (s : ModuleSet) (dotted : Text) : Bool :=
  !Import.isRelative dotted && decide (Import.root dotted ∈ s)

/-- The same for the public names of the machine, if no set is given.  The machine is asked only if
it matters. -/
def isBundledImport (host : Host) (given : Option ModuleSet) (dotted : Text) :
    Except Failure Bool :=
  if Import.isRelative dotted then .ok false
  else
    match given with
    | some s => .ok (s.holdsImport dotted)
    | none => (ModuleSet.current host).map fun s => s.holdsImport dotted

/-- The answers for several imports, or the first failure. -/
def areBundledImports (host : Host) (given : Option ModuleSet) :
    List Text → Except Failure (List Bool)
  | [] => .ok []
  | m :: ms =>
      match isBundledImport host given m with
      | .error failure => .error failure
      | .ok b => (areBundledImports host given ms).map (b :: ·)

end ModuleRoster
