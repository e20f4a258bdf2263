import Mathlib.Order.Monotone.Basic
import ModuleRoster.Proofs.Stopwatch.Bracketed
import ModuleRoster.Proofs.Stopwatch.Duration

/-!
# Proofs/Stopwatch/Nested — durations of blocks inside each other

A block takes its two readings around those of the blocks inside it (`Block.isNested_lapsAll`, by
induction over the tree).  Under a steady clock the readings are numbers that do not go back
(`Clock.IsSteady.exists_times`), so the difference of the outer readings is the greater one, and
what is noted of it is no less (`Block.measured_nested`).
-/

namespace ModuleRoster

/-! ## Steady clocks -/

/-- **A clock is steady** if its readings are the numbers of a list that does not go down. -/
def Clock.IsSteady (clock : Clock) : Prop :=
  ∃ times : List ℚ, clock.readings.map Binary64.value? = times.map some ∧ times.Pairwise (· ≤ ·)

/-- The last reading is that of every greater number. -/
theorem Clock.read_eq (clock : Clock) (i : Nat) : clock.read i =
    (clock.readings[min i (clock.readings.length - 1)]?).getD .zero := by
  rw [Clock.read, List.getLast?_eq_getElem?]
  rcases Nat.lt_or_ge i clock.readings.length with h | h
  · rw [Nat.min_eq_left (by omega), List.getElem?_eq_getElem h, Option.some_or]
  · rw [Nat.min_eq_right (by omega), List.getElem?_eq_none h, Option.none_or]

theorem Binary64.value?_getD {x : Option Binary64} {q : Option ℚ}
    (h : x.map value? = q.map some) : (x.getD .zero).value? = some (q.getD 0) := by
  cases x with
  | none =>
    cases q with
    | none => rw [Option.getD_none, Option.getD_none, value?_zero]
    | some q => simp at h
  | some x =>
    cases q with
    | none => simp at h
    | some q => simpa using h

/-- **A steady clock shows a time at every reading**, also when its readings are used up. -/
theorem Clock.IsSteady.exists_times {clock : Clock} (steady : clock.IsSteady) :
    ∃ time : ℕ → ℚ, Monotone time ∧ ∀ i, (clock.read i).value? = some (time i) := by
  obtain ⟨times, htimes, ordered⟩ := steady
  have hlength : clock.readings.length = times.length := by
    simpa using congrArg List.length htimes
  refine ⟨fun i => (times[min i (times.length - 1)]?).getD 0, fun i j hij => ?_, fun i => ?_⟩
  · dsimp only
    rcases Nat.eq_zero_or_pos times.length with hzero | hpos
    · rw [List.length_eq_zero_iff.1 hzero]
      exact le_rfl
    · have hi : min i (times.length - 1) < times.length := by omega
      have hj : min j (times.length - 1) < times.length := by omega
      rw [List.getElem?_eq_getElem hi, List.getElem?_eq_getElem hj]
      rcases (min_le_min_right (times.length - 1) hij).eq_or_lt with heq | hlt
      · simp only [heq, le_refl]
      · exact List.pairwise_iff_getElem.1 ordered _ _ hi hj hlt
  · rw [Clock.read_eq, hlength]
    refine Binary64.value?_getD ?_
    simpa only [List.getElem?_map] using congrArg (·[min i (times.length - 1)]?) htimes

/-! ## Nested laps -/

namespace Lap

/-- The seconds that are noted of a lap, under a clock. -/
def seconds (clock : Clock) (l : Lap) : Text :=
  ((clock.read l.stop).sub (clock.read l.start)).toThousandths

theorem line_eq_seconds (clock : Clock) (l : Lap) : l.line clock =
    "DEBUG ".toList ++ (l.name ++ " took ".toList ++ l.seconds clock ++ ['s']) := rfl

end Lap

/-- **Under a steady clock what is noted of a lap is read as its seconds**: those of the difference
between its times. -/
theorem Clock.IsSteady.exists_seconds {clock : Clock} (steady : clock.IsSteady) :
    ∃ time : ℕ → ℚ, Monotone time ∧ ∀ l : Lap, l.start ≤ l.stop → ∃ n : ℕ,
      (n : ℚ) / unitsInOne = time l.stop - time l.start ∧
        Text.IsSeconds (l.seconds clock) (secondsOf n) := by
  obtain ⟨time, mono, htime⟩ := steady.exists_times
  refine ⟨time, mono, fun l hl => ?_⟩
  obtain ⟨s, n, hsub, hsign, hn⟩ := Binary64.exists_sub_of_le (htime l.stop) (htime l.start) (mono hl)
  refine ⟨n, hn, ?_⟩
  rw [Lap.seconds, hsub]
  exact isSeconds_ofUnits hsign

/-- **Laps that are nested**: one inside another has its readings between those of the outer one. -/
def IsNested (laps : List Lap) : Prop :=
  ∀ l ∈ laps, ∀ m ∈ laps, l.position.isInside m.position = true →
    l.start < m.start ∧ m.stop < l.stop

section

variable {laps rest : List Lap} {l m : Lap} {i : Nat}

theorem IsBracketed.le_start (h : IsBracketed laps i) (hl : l ∈ laps) : i ≤ l.start := by
  have hmem : l.start ∈ laps.flatMap fun l => [l.start, l.stop] :=
    List.mem_flatMap.2 ⟨l, hl, by simp⟩
  exact (List.mem_range'_1.1 (h.readings.mem_iff.1 hmem)).1

theorem IsBracketed.start_le_stop (h : IsBracketed laps i) (hl : l ∈ laps) : l.start ≤ l.stop := by
  have hclosed := h.closed l hl
  omega

namespace IsNested

theorem nil : IsNested [] := by
  simp [IsNested]

/-- **Around the laps of its body** a block has the first reading and the last one. -/
theorem block (h : IsNested laps) (bracketed : IsBracketed laps (i + 1)) (name : Text) :
    IsNested (laps ++ [⟨[], name, i, i + 1 + 2 * laps.length⟩]) := by
  intro l hl m hm inside
  rcases List.mem_append.1 hm with hm | hm
  · rcases List.mem_append.1 hl with hl | hl
    · exact h l hl m hm inside
    · obtain rfl := List.mem_singleton.1 hl
      have hstart := bracketed.le_start hm
      have hstop := (bracketed.stop_mem hm).2
      exact ⟨hstart, hstop⟩
  · obtain rfl := List.mem_singleton.1 hm
    simp [Position.not_isInside_nil] at inside

/-- **Two blocks of a row** have nothing inside each other. -/
theorem row (h : IsNested laps) (h' : IsNested rest) (inRow : ∀ l ∈ rest, l.position ≠ []) :
    IsNested (laps.map Lap.inFirst ++ rest.map Lap.inLater) := by
  intro l hl m hm inside
  rcases List.mem_append.1 hl with hl | hl
  · obtain ⟨l, hl', rfl⟩ := List.mem_map.1 hl
    rcases List.mem_append.1 hm with hm | hm
    · obtain ⟨m, hm', rfl⟩ := List.mem_map.1 hm
      exact h l hl' m hm' (Position.isInside_cons 0 ▸ inside)
    · obtain ⟨m, hm', rfl⟩ := List.mem_map.1 hm
      cases inside.symm.trans (Position.not_isInside_later (inRow m hm'))
  · obtain ⟨l, hl', rfl⟩ := List.mem_map.1 hl
    rcases List.mem_append.1 hm with hm | hm
    · obtain ⟨m, hm', rfl⟩ := List.mem_map.1 hm
      cases inside.symm.trans (Position.not_isInside_first (inRow l hl'))
    · obtain ⟨m, hm', rfl⟩ := List.mem_map.1 hm
      exact h' l hl' m hm' (Position.isInside_later ▸ inside)

end IsNested

end

namespace Block

variable {ε : Type} [DecidableEq ε]

mutual

/-- **The laps of every tree are nested.** -/
theorem isNested_laps : ∀ (b : Block ε) (i : Nat), IsNested (laps b i)
  | .mk name body raises catches, i => by
      rw [laps]
      exact (isNested_lapsAll body (i + 1)).block (isBracketed_lapsAll body (i + 1)) name

theorem isNested_lapsAll : ∀ (blocks : List (Block ε)) (i : Nat), IsNested (lapsAll blocks i)
  | [], i => by
      rw [lapsAll]
      exact .nil
  | b :: bs, i => by
      have first := isNested_laps b i
      rw [lapsAll]
      cases hend : b.untimed with
      | error e => exact first.row .nil (by simp)
      | ok done => exact first.row (isNested_lapsAll bs _) fun _ => position_ne_nil

end

/-- **The durations of nested blocks are consistent.**  Under a steady clock each block that is
entered is noted with seconds that are read as a number not below zero, and a block inside another
one, however deep, with no more seconds than the outer one. -/
theorem measured_nested {clock : Clock} (steady : clock.IsSteady) (blocks : List (Block ε)) :
    ∃ laps : List Lap, IsBracketed laps 0 ∧
      (∀ p name, (∃ l ∈ laps, l.position = p ∧ l.name = name) ↔ Entered blocks p name) ∧
      (measured clock .debug blocks).1 = laps.map (fun l =>
        "DEBUG ".toList ++ (l.name ++ " took ".toList ++ l.seconds clock ++ ['s'])) ∧
      (∀ l ∈ laps, l.seconds clock ≠ "nan".toList ∧
        ∃ d, Text.IsSeconds (l.seconds clock) d ∧ 0 ≤ d) ∧
      ∀ l ∈ laps, ∀ m ∈ laps, l.position.isInside m.position = true → ∀ d e,
        Text.IsSeconds (l.seconds clock) d → Text.IsSeconds (m.seconds clock) e → e ≤ d := by
  obtain ⟨time, mono, hseconds⟩ := steady.exists_seconds
  have bracketed := isBracketed_lapsAll blocks 0
  refine ⟨lapsAll blocks 0, bracketed, fun p name => mem_lapsAll blocks 0, ?_, ?_, ?_⟩
  · obtain ⟨hlog, -⟩ := runAll_eq_laps clock blocks 0
    simp only [measured, LogEntry.shown, hlog, List.map_map, if_true]
    exact List.map_congr_left fun l _ => (l.line_entry_eq clock).trans (l.line_eq_seconds clock)
  · intro l hl
    obtain ⟨n, -, hread⟩ := hseconds l (bracketed.start_le_stop hl)
    exact ⟨hread.ne_nan, _, hread, secondsOf_nonneg n⟩
  · intro l hl m hm inside d e hd he
    obtain ⟨n, hn, hread⟩ := hseconds l (bracketed.start_le_stop hl)
    obtain ⟨k, hk, hread'⟩ := hseconds m (bracketed.start_le_stop hm)
    obtain ⟨hstart, hstop⟩ := isNested_lapsAll blocks 0 l hl m hm inside
    rw [hd.unique hread, he.unique hread']
    refine secondsOf_mono (units_div_le_iff.1 ?_)
    rw [hn, hk]
    exact sub_le_sub (mono hstop.le) (mono hstart.le)

/-- The inner block fails and the outer one catches, under a clock that runs from the least double
to the greatest one. -/
theorem measured_nested_failed :
    let clock : Clock :=
      ⟨[.ofBits 0xffefffffffffffff, .ofBits 0x8000000000000000, .ofBits 0x3fb0000000000000,
        .ofBits 0x7fefffffffffffff]⟩
    let blocks : List (Block Signal) :=
      [.mk "a".toList [.mk "b".toList [] (some .badValue) none] none (some .badValue)]
    clock.IsSteady ∧
      measured clock .debug blocks
        = (["DEBUG b took 0.062s".toList, "DEBUG a took infs".toList], 4) ∧
      ∃ laps : List Lap, IsBracketed laps 0 ∧
        (∀ p name, (∃ l ∈ laps, l.position = p ∧ l.name = name) ↔ Entered blocks p name) ∧
        (measured clock .debug blocks).1 = laps.map (fun l =>
          "DEBUG ".toList ++ (l.name ++ " took ".toList ++ l.seconds clock ++ ['s'])) ∧
        (∀ l ∈ laps, l.seconds clock ≠ "nan".toList ∧
          ∃ d, Text.IsSeconds (l.seconds clock) d ∧ 0 ≤ d) ∧
        ∀ l ∈ laps, ∀ m ∈ laps, l.position.isInside m.position = true → ∀ d e,
          Text.IsSeconds (l.seconds clock) d → Text.IsSeconds (m.seconds clock) e → e ≤ d := by
  intro clock blocks
  have steady : clock.IsSteady :=
    ⟨[2 ^ 971 - 2 ^ 1024, 0, 1 / 16, 2 ^ 1024 - 2 ^ 971], by decide +kernel, by decide +kernel⟩
  exact ⟨steady, by decide +kernel, measured_nested steady blocks⟩

end Block

end ModuleRoster
