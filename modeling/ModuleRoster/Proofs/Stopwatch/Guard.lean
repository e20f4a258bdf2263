import Mathlib.Data.Option.Basic
import ModuleRoster.Stopwatch

/-!
# Proofs/Stopwatch/Guard — timing by a suspended computation

`timed` passes a result on.  Here the same timing is done step by step by a computation that is
suspended between its two clock readings and is resumed when the work is over: a failure of the
work is raised inside it, and what it lets out again decides how the work ends.  A failure that
means "no more" is the hard one, since it may not leave a suspended computation as it is: it leaves
it as a fault with that cause, and the guard has to know its own failure again.  It does
(`guarded_eq_timed`), and so a tree of blocks runs alike under guards (`Block.runGuarded_eq`).
-/

namespace ModuleRoster

/-! ## Suspended computations -/

/-- **A failure of work under guard**: one of the work, or one that a guard adds. -/
inductive Raised
  | signal (s : Signal)
  /-- A failure that means "no more" left a suspended computation. -/
  | brokeOff (cause : Raised)
  /-- A suspended computation that should have ended is suspended again. -/
  | unended
  deriving DecidableEq

/-- The failure by which a computation says that it has ended. -/
def Raised.IsEnd (e : Raised) : Prop := e = .signal .exhausted

instance (e : Raised) : Decidable e.IsEnd := inferInstanceAs (Decidable (e = _))

/-- **What a suspended computation does** when it is resumed. -/
inductive Reply
  | suspended
  | ended
  | failed (e : Raised)

/-- The reply when its code comes to an end: the failure that means "no more" is not let out. -/
def Reply.ofCode : Except Raised Unit → Reply
  | .ok () => .ended
  | .error e => if e.IsEnd then .failed (.brokeOff e) else .failed e

/-- **The end of guarded work**, from what came of the work and what the guard replied to it.  The
failure of the work goes on if it is let out again, also as the cause of a fault; if the guard ends
without a failure it is gone. -/
def Reply.close : Except Raised Unit → Reply → Except Raised Unit
  | .ok (), .ended => .ok ()
  | .ok (), .failed f => .error f
  | .error _, .ended => .ok ()
  | .error e, .failed f =>
      if f = e ∨ (e.IsEnd ∧ f = .brokeOff e) then .error e else .error f
  | _, .suspended => .error .unended

/-- **Closing with the reply of code that lets out what it was given** changes nothing, whatever
that is. -/
theorem Reply.close_ofCode (result : Except Raised Unit) :
    Reply.close result (.ofCode result) = result := by
  rcases result with e | ⟨⟩
  · by_cases h : e.IsEnd
    · simp [Reply.ofCode, Reply.close, h]
    · simp [Reply.ofCode, Reply.close, h]
  · rfl

/-! ## The watch -/

/-- **A watch that has been started**: it is suspended, and holds the first reading. -/
structure Watch where
  name : Text
  start : Binary64

/-- Resume the watch, with what came of the work: it notes the time in any case, and ends with what
it was given. -/
def Watch.resume (clock : Clock) (watch : Watch) (given : Except Raised Unit) (i : Nat) :
    Reply × LogEntry :=
  (.ofCode given, .took watch.name ((clock.read i).sub watch.start))

/-- **Work under the guard of a watch**. -/
def guarded (clock : Clock) (name : Text) (work : Nat → Trace Raised Unit) (i : Nat) :
    Trace Raised Unit :=
  let watch : Watch := ⟨name, clock.read i⟩
  let t := work (i + 1)
  let (reply, entry) := watch.resume clock t.result t.next
  ⟨reply.close t.result, t.log ++ [entry], t.next + 1⟩

/-- **A guard does what `timed` does**, to any work and whatever failure comes out of it. -/
theorem guarded_eq_timed (clock : Clock) (name : Text) (work : Nat → Trace Raised Unit) (i : Nat) :
    guarded clock name work i = timed clock name work i := by
  simp only [guarded, timed, Watch.resume, Reply.close_ofCode]

/-! ## Blocks under guard -/

/-- A trace as one of work under guard. -/
def Trace.raised (t : Trace Signal Unit) : Trace Raised Unit :=
  ⟨t.result.mapError .signal, t.log, t.next⟩

namespace Block

/-- What a block catches of work under guard is what it catches of a signal. -/
theorem settle_mapError (catches : Option Signal) (result : Except Signal Unit) :
    settle (catches.map Raised.signal) (result.mapError .signal)
      = (settle catches result).mapError .signal := by
  rcases result with e | ⟨⟩
  · by_cases h : catches = some e
    · simp [settle, Except.mapError, h]
    · have h' : catches.map Raised.signal ≠ some (.signal e) := by
        simpa [Option.map_eq_some_iff] using h
      simp [settle, Except.mapError, h, h']
  · rfl

/-- A body's end and then the block's own failure, raised under guard. -/
theorem bind_raise_mapError (raises : Option Signal) (result : Except Signal Unit) :
    (result.mapError Raised.signal).bind (fun _ => raise (raises.map .signal))
      = (result.bind fun _ => raise raises).mapError .signal := by
  rcases result with e | ⟨⟩
  · rfl
  · rcases raises with _ | e <;> rfl

mutual

/-- **Run a block under the guard of a watch**, and the blocks in it under theirs. -/
def runGuarded (clock : Clock) : Block Signal → Nat → Trace Raised Unit
  | .mk name body raises catches, i =>
      let t := guarded clock name (fun j =>
        let t := runAllGuarded clock body j
        { t with result := t.result.bind fun _ => raise (raises.map .signal) }) i
      { t with result := settle (catches.map .signal) t.result }

/-- Run blocks one after the other, each under guard, up to the first that a failure leaves. -/
def runAllGuarded (clock : Clock) : List (Block Signal) → Nat → Trace Raised Unit
  | [], i => ⟨.ok (), [], i⟩
  | b :: bs, i =>
      let t := runGuarded clock b i
      match t.result with
      | .error e => ⟨.error e, t.log, t.next⟩
      | .ok () =>
          let u := runAllGuarded clock bs t.next
          ⟨u.result, t.log ++ u.log, u.next⟩

end

mutual

/-- **A block runs alike under guard**: its failure, its log and its readings are the same. -/
theorem runGuarded_eq (clock : Clock) : ∀ (b : Block Signal) (i : Nat),
    runGuarded clock b i = (run clock b i).raised
  | .mk name body raises catches, i => by
      have hbody := runAllGuarded_eq clock body (i + 1)
      simp only [runGuarded, run, guarded_eq_timed, timed, hbody, Trace.raised]
      rw [bind_raise_mapError, settle_mapError]

theorem runAllGuarded_eq (clock : Clock) : ∀ (blocks : List (Block Signal)) (i : Nat),
    runAllGuarded clock blocks i = (runAll clock blocks i).raised
  | [], i => by
      simp only [runAllGuarded, runAll, Trace.raised, Except.mapError]
  | b :: bs, i => by
      have hb := runGuarded_eq clock b i
      rcases hresult : (run clock b i).result with e | ⟨⟩
      · simp only [runAllGuarded, runAll, hb, hresult, Trace.raised, Except.mapError]
      · have hbs := runAllGuarded_eq clock bs (run clock b i).next
        simp only [runAllGuarded, runAll, hb, hresult, hbs, Trace.raised, Except.mapError]

end

end Block

end ModuleRoster
