import ModuleRoster.Proofs.Stopwatch.Guard

/-!
# Proofs/Stopwatch/Transparent — a tree of blocks ends as if nothing were timed

`Block.untimed` runs a tree of blocks without a clock, and a timed run ends as it does
(`Block.run_result`), by induction over the tree.  A failure on its way out leaves undone what
comes after it: what is around a block is a list of frames (`Frame`), and up to the frame that
catches the failure all that is left to do can be taken away without any change to the run
(`Block.run_enclose`).
-/

namespace ModuleRoster

variable {ε : Type} [DecidableEq ε] {clock : Clock} {b : Block ε} {e : ε}

/-! ## Blocks without a clock -/

namespace Block

mutual

/-- **The end of a block that is not timed.** -/
def untimed : Block ε → Except ε Unit
  | .mk _ body raises catches =>
      settle catches ((untimedAll body).bind fun _ => raise raises)

/-- The end of blocks that are run one after the other and not timed. -/
def untimedAll : List (Block ε) → Except ε Unit
  | [] => .ok ()
  | b :: bs => (untimed b).bind fun _ => untimedAll bs

end

mutual

/-- **A timed block ends as it does without the clock.** -/
theorem run_result (clock : Clock) : ∀ (b : Block ε) (i : Nat), (run clock b i).result = untimed b
  | .mk name body raises catches, i => by
      simp only [run, timed, untimed, runAll_result clock body]

theorem runAll_result (clock : Clock) : ∀ (blocks : List (Block ε)) (i : Nat),
    (runAll clock blocks i).result = untimedAll blocks
  | [], i => by
      simp only [runAll, untimedAll]
  | b :: bs, i => by
      have hb := run_result clock b i
      rcases hresult : (run clock b i).result with e | ⟨⟩
      · rw [hresult] at hb
        simp only [runAll, untimedAll, hresult, ← hb, Except.bind]
      · rw [hresult] at hb
        simp only [runAll, untimedAll, hresult, ← hb, Except.bind, runAll_result clock bs]

end

theorem untimedAll_append (before after : List (Block ε)) :
    untimedAll (before ++ after) = (untimedAll before).bind fun _ => untimedAll after := by
  induction before with
  | nil => simp only [List.nil_append, untimedAll, Except.bind]
  | cons b before ih =>
    simp only [List.cons_append, untimedAll, ih]
    cases untimed b <;> rfl

/-! ## What a failure leaves undone -/

/-- **Blocks after one from which a failure escapes** are not run. -/
theorem runAll_append_of_error (escapes : untimed b = .error e) (before after : List (Block ε))
    (i : Nat) : runAll clock (before ++ b :: after) i = runAll clock (before ++ [b]) i := by
  induction before generalizing i with
  | nil =>
    have hresult := (run_result clock b i).trans escapes
    simp only [List.nil_append, runAll, hresult]
  | cons b' before ih => simp only [List.cons_append, runAll, ih]

/-- Blocks that run alike can stand for each other. -/
theorem runAll_append_congr {b' : Block ε} (same : run clock b = run clock b')
    (before after : List (Block ε)) (i : Nat) :
    runAll clock (before ++ b :: after) i = runAll clock (before ++ b' :: after) i := by
  induction before generalizing i with
  | nil => simp only [List.nil_append, runAll, same]
  | cons b'' before ih => simp only [List.cons_append, runAll, ih]

end Block

/-- **What is around a block inside another one**: the name of the outer block, the blocks before
and after the inner one, and the failures that the outer one raises and catches. -/
structure Frame (ε : Type) where
  name : Text
  before : List (Block ε)
  after : List (Block ε)
  raises : Option ε
  catches : Option ε

namespace Frame

/-- The outer block, around an inner one. -/
def around (f : Frame ε) (b : Block ε) : Block ε :=
  .mk f.name (f.before ++ b :: f.after) f.raises f.catches

/-- The frame without what is left to do after the inner block. -/
def cut (f : Frame ε) : Frame ε := { f with after := [], raises := none }

/-- The inner block is reached: no failure escapes before it. -/
def Reaches (f : Frame ε) : Prop := Block.untimedAll f.before = .ok ()

/-- **A failure goes through the frame**: the inner block is reached, and the outer one does not
catch the failure. -/
structure Passes (e : ε) (f : Frame ε) : Prop where
  reaches : f.Reaches
  uncaught : f.catches ≠ some e

/-- **A failure ends in the frame**: the inner block is reached, and the outer one catches the
failure. -/
structure Stops (e : ε) (f : Frame ε) : Prop where
  reaches : f.Reaches
  caught : f.catches = some e

variable {f : Frame ε}

/-- A frame settles the failure of the inner block, and its own is never raised. -/
theorem untimed_around (reaches : f.Reaches) (escapes : b.untimed = .error e) :
    (f.around b).untimed = Block.settle f.catches (.error e) := by
  unfold Reaches at reaches
  simp only [around, Block.untimed, Block.untimedAll_append, Block.untimedAll, reaches, escapes,
    Except.bind]

theorem untimed_around_of_passes (passes : f.Passes e) (escapes : b.untimed = .error e) :
    (f.around b).untimed = .error e := by
  rw [untimed_around passes.reaches escapes, Block.settle, if_neg passes.uncaught]

theorem untimed_around_of_stops (stops : f.Stops e) (escapes : b.untimed = .error e) :
    (f.around b).untimed = .ok () := by
  rw [untimed_around stops.reaches escapes, Block.settle, if_pos stops.caught]

/-- **A failure of the inner block leaves undone what is after it**, the outer block's own failure
with it. -/
theorem run_around (reaches : f.Reaches) (escapes : b.untimed = .error e) (clock : Clock) :
    Block.run clock (f.around b) = Block.run clock (f.cut.around b) := by
  funext i
  have hbefore : Block.untimedAll (f.before ++ [b]) = .error e := by
    unfold Reaches at reaches
    simp only [Block.untimedAll_append, Block.untimedAll, reaches, escapes, Except.bind]
  have hresult := (Block.runAll_result clock (f.before ++ [b]) (i + 1)).trans hbefore
  simp only [around, cut, Block.run, timed, Block.runAll_append_of_error escapes f.before f.after,
    hresult, Except.bind]

theorem run_around_congr {b' : Block ε} (same : Block.run clock b = Block.run clock b') :
    Block.run clock (f.around b) = Block.run clock (f.around b') := by
  funext i
  simp only [around, Block.run, timed, Block.runAll_append_congr same]

end Frame

namespace Block

/-- A block inside frames, the innermost first. -/
def enclose (frames : List (Frame ε)) (b : Block ε) : Block ε :=
  frames.foldl (fun b f => f.around b) b

variable {frames : List (Frame ε)}

/-- **A failure goes out through frames that do not catch it.**  The induction is on the frames: the
innermost one makes a block from which the failure escapes again. -/
theorem untimed_enclose (passes : ∀ f ∈ frames, f.Passes e) (escapes : b.untimed = .error e) :
    (enclose frames b).untimed = .error e := by
  induction frames generalizing b with
  | nil => exact escapes
  | cons f frames ih =>
    obtain ⟨hf, hframes⟩ := List.forall_mem_cons.1 passes
    exact ih hframes (Frame.untimed_around_of_passes hf escapes)

/-- Blocks that run alike do so inside frames. -/
theorem run_enclose_congr {b' : Block ε} (frames : List (Frame ε))
    (same : run clock b = run clock b') :
    run clock (enclose frames b) = run clock (enclose frames b') := by
  induction frames generalizing b b' with
  | nil => exact same
  | cons f frames ih => exact ih (Frame.run_around_congr same)

/-- **On its way out the failure leaves undone** what comes after it in each frame. -/
theorem run_enclose (passes : ∀ f ∈ frames, f.Passes e) (escapes : b.untimed = .error e)
    (clock : Clock) :
    run clock (enclose frames b) = run clock (enclose (frames.map Frame.cut) b) := by
  induction frames generalizing b with
  | nil => rfl
  | cons f frames ih =>
    obtain ⟨hf, hframes⟩ := List.forall_mem_cons.1 passes
    calc run clock (enclose frames (f.around b))
        = run clock (enclose (frames.map Frame.cut) (f.around b)) :=
          ih hframes (Frame.untimed_around_of_passes hf escapes)
      _ = run clock (enclose (frames.map Frame.cut) (f.cut.around b)) :=
          run_enclose_congr _ (Frame.run_around hf.reaches escapes clock)

/-! ## What is seen -/

/-- **What is seen of timed blocks** whose failures are raised with a text: how they end, with the
words for the failure that escapes, and the lines of the log at a level. -/
def observed (clock : Clock) (level : LogLevel) (text : Text) (blocks : List (Block Signal)) :
    Except (Signal × Text) Unit × List Text :=
  let t := runAll clock blocks 0
  (t.result.mapError fun e => (e, e.message text), LogEntry.shown level t.log)

/-- **Timing is transparent to failures.**  Whatever the clock shows and at any level of the log,
blocks end as they do if nothing is timed, and a failure is the same when it has to go through the
suspended watches on its way out.  It goes through every frame that does not catch it, ends in the
first one that does, and leaves undone what comes after it up to there: the run is the same when all
of that is cut off. -/
theorem runAll_transparent (clock : Clock) (level : LogLevel) (text : Text)
    (blocks : List (Block Signal)) :
    (observed clock level text blocks).1
        = ((untimedAll blocks).mapError fun e => (e, e.message text)) ∧
      runAllGuarded clock blocks 0 = (runAll clock blocks 0).raised ∧
      ∀ (e : Signal) (b : Block Signal) (frames : List (Frame Signal)),
        b.untimed = .error e → (∀ f ∈ frames, f.Passes e) →
          (∀ f : Frame Signal, f.Stops e →
            (f.around (enclose frames b)).untimed = .ok () ∧
              run clock (f.around (enclose frames b))
                = run clock (f.cut.around (enclose (frames.map Frame.cut) b))) ∧
          ∀ before after, untimedAll before = .ok () →
            blocks = before ++ enclose frames b :: after →
              untimedAll blocks = .error e ∧
                runAll clock blocks 0
                  = runAll clock (before ++ [enclose (frames.map Frame.cut) b]) 0 := by
  refine ⟨?_, runAllGuarded_eq clock blocks 0, fun e b frames escapes passes => ?_⟩
  · simp only [observed, runAll_result]
  have houter := untimed_enclose passes escapes
  have hcut := run_enclose passes escapes clock
  refine ⟨fun f stops => ⟨Frame.untimed_around_of_stops stops houter, ?_⟩, ?_⟩
  · exact (Frame.run_around stops.reaches houter clock).trans (Frame.run_around_congr hcut)
  · rintro before after hbefore rfl
    refine ⟨?_, ?_⟩
    · simp only [untimedAll_append, untimedAll, hbefore, houter, Except.bind]
    · exact (runAll_append_of_error houter before after 0).trans
        (runAll_append_congr hcut before [] 0)

/-- A failure that means "no more", on its way out of one block into the block that catches it,
under a clock that shows no number. -/
theorem runAll_transparent_exhausted :
    let clock : Clock := ⟨[.ofBits 0x7ff8000000000000]⟩
    let quiet (name : Char) : Block Signal := .mk [name] [] none none
    let inner : Block Signal := .mk ['a'] [] (some .exhausted) (some .badValue)
    let through : Frame Signal := ⟨['b'], [], [quiet 'c'], some .badValue, some .missingKey⟩
    let last : Frame Signal := ⟨['d'], [quiet 'e'], [quiet 'f'], some .system, some .exhausted⟩
    (observed clock .debug "boom".toList [quiet 'g', through.around inner, quiet 'h']).1
        = .error (.exhausted, "boom".toList) ∧
      (last.around (through.around inner)).untimed = .ok () ∧
      (runAll clock [quiet 'g', through.around inner, quiet 'h'] 0).log
        = (runAll clock [quiet 'g', through.cut.around inner] 0).log := by
  intro clock quiet inner through last
  obtain ⟨hsame, -, hout⟩ := runAll_transparent clock .debug "boom".toList
    [quiet 'g', through.around inner, quiet 'h']
  have passes : ∀ f ∈ [through], f.Passes .exhausted :=
    List.forall_mem_singleton.2 ⟨rfl, by decide⟩
  obtain ⟨hstops, hescapes⟩ := hout .exhausted inner [through] rfl passes
  obtain ⟨hend, hrun⟩ := hescapes [quiet 'g'] [quiet 'h'] rfl rfl
  refine ⟨?_, (hstops last ⟨rfl, rfl⟩).1, congrArg Trace.log hrun⟩
  rw [hsame, hend]
  rfl

end Block

end ModuleRoster
