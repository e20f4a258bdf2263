import ModuleRoster.Log
import ModuleRoster.Text.Quoted

/-!
# Stopwatch — timing work that may fail

`timed` reads the clock before and after a piece of work and notes the difference, whether the
work succeeds or fails; the result it passes on.  Clock readings are counted, so a piece of work is
a function of the number of its first reading.
-/

namespace ModuleRoster

/-- **A clock**: its successive readings in seconds.  When they are used up the last one repeats;
without any it shows zero. -/
structure Clock where
  readings : List Binary64
  deriving DecidableEq

/-- The reading with a number, counted from zero. -/
def Clock.read (clock : Clock) (i : Nat) : Binary64 :=
  (clock.readings[i]?.or clock.readings.getLast?).getD .zero

/-- **What a piece of work did**: how it ended, what it noted, and the number of the clock reading
that comes next. -/
structure Trace (ε α : Type) where
  result : Except ε α
  log : List LogEntry
  next : Nat

/-- **Time a piece of work.** -/
def timed {ε α : Type} (clock : Clock) (name : Text) (work : Nat → Trace ε α) (i : Nat) :
    Trace ε α :=
  let t := work (i + 1)
  { result := t.result
    log := t.log ++ [.took name ((clock.read t.next).sub (clock.read i))]
    next := t.next + 1 }

/-! ## Blocks of timed work -/

/-- **A timed block**: it runs its body block by block, then raises its own failure if it has one.
A failure that leaves the block ends there if the block catches its kind. -/
inductive Block (ε : Type)
  | mk (name : Text) (body : List (Block ε)) (raises catches : Option ε)

instance {ε : Type} : Inhabited (Block ε) := ⟨.mk [] [] none none⟩

/-- The end of a block: a failure is gone if the block catches it. -/
def Block.settle {ε : Type} [DecidableEq ε] (catches : Option ε) :
    Except ε Unit → Except ε Unit
  | .ok () => .ok ()
  | .error e => if catches = some e then .ok () else .error e

/-- The end of a body that ran through: its own failure, if it has one. -/
def Block.raise {ε : Type} : Option ε → Except ε Unit
  | none => .ok ()
  | some e => .error e

mutual

/-- **Run a block**, from the reading with number `i` on. -/
def Block.run {ε : Type} [DecidableEq ε] (clock : Clock) : Block ε → Nat → Trace ε Unit
  | .mk name body raises catches, i =>
      let t := timed clock name (fun j =>
        let t := Block.runAll clock body j
        { t with result := t.result.bind fun _ => Block.raise raises }) i
      { t with result := Block.settle catches t.result }

/-- Run blocks one after the other, up to the first from which a failure escapes. -/
def Block.runAll {ε : Type} [DecidableEq ε] (clock : Clock) : List (Block ε) → Nat → Trace ε Unit
  | [], i => ⟨.ok (), [], i⟩
  | b :: bs, i =>
      let t := Block.run clock b i
      match t.result with
      | .error e => ⟨.error e, t.log, t.next⟩
      | .ok () =>
          let u := Block.runAll clock bs t.next
          ⟨u.result, t.log ++ u.log, u.next⟩

end

/-! ## Kinds of failure -/

/-- The kinds of failure that a block may raise and catch. -/
inductive Signal
  | badValue
  | missingKey
  | exhausted
  | interrupted
  | system
  deriving DecidableEq, Repr

/-- The words for a failure raised with a text; for a missing key the text is that key, quoted. -/
def Signal.message : Signal → Text → Text
  | .missingKey, t => Text.quoted t
  | _, t => t

end ModuleRoster
