import ModuleRoster.Main
import ModuleRoster.Proofs.AtomicWrite.Determined
import ModuleRoster.Proofs.AtomicWrite.NameParts
import ModuleRoster.Proofs.AtomicWrite.Race
import ModuleRoster.Proofs.AtomicWrite.Refusal
import ModuleRoster.Proofs.AtomicWrite.Sequence
import ModuleRoster.Proofs.AtomicWrite.TakenName
import ModuleRoster.Proofs.AtomicWrite.Timestamp
import ModuleRoster.Proofs.CommandLine.Accepted
import ModuleRoster.Proofs.CommandLine.OptionGroup
import ModuleRoster.Proofs.Program.Agreement
import ModuleRoster.Proofs.Program.CommandLines
import ModuleRoster.Proofs.Program.Endings
import ModuleRoster.Proofs.Program.Relisted
import ModuleRoster.Proofs.Program.SortedLines
import ModuleRoster.Proofs.Program.Verbosity
import ModuleRoster.Proofs.Roster.DefaultSet
import ModuleRoster.Proofs.Roster.Joined
import ModuleRoster.Proofs.Roster.Load
import ModuleRoster.Proofs.Roster.Root
import ModuleRoster.Proofs.Roster.StandsAlone
import ModuleRoster.Proofs.Stopwatch.Bracketed
import ModuleRoster.Proofs.Stopwatch.Guard
import ModuleRoster.Proofs.Stopwatch.Nested
