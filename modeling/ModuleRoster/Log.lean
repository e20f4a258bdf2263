import ModuleRoster.Number.Binary64

/-!
# Log — what is noted for the user who wants to know

Every entry is of the lowest level, so it is shown at that level alone.
-/

namespace ModuleRoster

/-- How grave an entry has to be to be shown. -/
inductive LogLevel
  | debug
  | info
  | warning
  | error
  deriving DecidableEq, Repr

/-- **An entry of the log.** -/
inductive LogEntry
  /-- So many names were found, and so many of them are private. -/
  | registryRead (total skipped : Nat)
  /-- A named piece of work took so many seconds. -/
  | took (name : Text) (seconds : Binary64)
  /-- The list was written to a file. -/
  | wrote (path : Text)
  deriving DecidableEq

namespace LogEntry

/-- The words of an entry. -/
def message : LogEntry → Text
  | .registryRead total skipped =>
      "registry has ".toList ++ Text.ofInt total ++ " names, ".toList ++ Text.ofInt skipped ++
        " private skipped".toList
  | .took name seconds => name ++ " took ".toList ++ seconds.toThousandths ++ ['s']
  | .wrote path => "wrote ".toList ++ path

/-- The entry as a line of the log, without its end. -/
def line (e : LogEntry) : Text := "DEBUG ".toList ++ e.message

/-- The lines of a log that are shown at a level. -/
def shown (level : LogLevel) (log : List LogEntry) : List Text :=
  if level = .debug then log.map line else []

end LogEntry

end ModuleRoster
