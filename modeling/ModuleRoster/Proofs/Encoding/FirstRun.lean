import ModuleRoster.Proofs.Encoding.OneByte
import ModuleRoster.Proofs.Text.Escape

/-!
# Proofs/Encoding/FirstRun — where a one-byte set refuses a text

The fault of a text cuts it into what the set holds, a run that it does not hold, and a rest that
does not go on with the run (`exists_parts_of_encode`).  Counted in characters this is the first
whole run beyond the limit (`IsFirstRun`), and the words for the fault show the character if the run
has only one, and its first and last position if it has more (`IsTold`).
-/

namespace ModuleRoster

variable {s : OneByte} {t before run rest : Text} {limit i j : Nat}

/-- **The first whole run of characters beyond a limit**: from `i` on and before `j` there are only
such characters, and at least one; there is none before `i`, and at `j` the text ends or goes on
with another character. -/
structure IsFirstRun (limit : Nat) (t : Text) (i j : Nat) : Prop where
  nonempty : i < j
  inside : j ≤ t.length
  before : ∀ k c, k < i → t[k]? = some c → c.toNat < limit
  beyond : ∀ k c, i ≤ k → k < j → t[k]? = some c → limit ≤ c.toNat
  stops : j = t.length ∨ ∃ c, t[j]? = some c ∧ c.toNat < limit

/-- A text in three parts has its first run in the middle. -/
theorem isFirstRun_append (hbefore : ∀ c ∈ before, c.toNat < limit)
    (hrun : ∀ c ∈ run, limit ≤ c.toNat) (nonempty : run ≠ [])
    (hrest : ∀ c, rest.head? = some c → c.toNat < limit) :
    IsFirstRun limit (before ++ run ++ rest) before.length (before.length + run.length) where
  nonempty := Nat.lt_add_of_pos_right (List.length_pos_iff.2 nonempty)
  inside := by simp
  before k c hk hc := by
    rw [List.append_assoc, List.getElem?_append_left hk] at hc
    exact hbefore c (List.mem_of_getElem? hc)
  beyond k c hi hj hc := by
    rw [List.append_assoc, List.getElem?_append_right hi,
      List.getElem?_append_left (by omega)] at hc
    exact hrun c (List.mem_of_getElem? hc)
  stops := by
    cases rest with
    | nil => exact Or.inl (by simp)
    | cons c rest => exact Or.inr ⟨c, by simp, hrest c rfl⟩

namespace IsFirstRun

variable {i' j' : Nat} (h : IsFirstRun limit t i j)
include h

theorem start_le (h' : IsFirstRun limit t i' j') : i' ≤ i := by
  refine Nat.le_of_not_lt fun earlier => ?_
  have hi : i < t.length := Nat.lt_of_lt_of_le h.nonempty h.inside
  have beyond := h.beyond i t[i] (Nat.le_refl i) h.nonempty (List.getElem?_eq_getElem hi)
  have below := h'.before i t[i] earlier (List.getElem?_eq_getElem hi)
  omega

theorem stop_le (h' : IsFirstRun limit t i j') : j' ≤ j := by
  rcases h.stops with rfl | ⟨c, hc, below⟩
  · exact h'.inside
  · refine Nat.le_of_not_lt fun later => ?_
    have beyond := h'.beyond j c (Nat.le_of_lt h.nonempty) later hc
    omega

/-- **There is only one such run.** -/
theorem unique (h' : IsFirstRun limit t i' j') : i = i' ∧ j = j' := by
  obtain rfl := Nat.le_antisymm (h'.start_le h) (h.start_le h')
  exact ⟨rfl, Nat.le_antisymm (h'.stop_le h) (h.stop_le h')⟩

end IsFirstRun

namespace OneByte

variable {f : Fault}

/-! ## The run -/

/-- **What a fault says of the text**: behind characters that the set holds there is the run, and
the rest does not go on with it. -/
theorem exists_parts_of_encode (h : s.encode t = .error f) : ∃ before rest,
    t = before ++ f.run ++ rest ∧ f.charset = s ∧ f.start = before.length ∧ f.run ≠ [] ∧
      (∀ c ∈ before, c.toNat < s.limit) ∧ (∀ c ∈ f.run, s.limit ≤ c.toNat) ∧
      ∀ c, rest.head? = some c → c.toNat < s.limit := by
  obtain ⟨tail, htail⟩ : ∃ tail, tail = t.dropWhile s.holds := ⟨_, rfl⟩
  rcases hrun : tail.takeWhile fun c => !s.holds c with _ | ⟨c, run⟩
  · simp [encode, ← htail, hrun] at h
  obtain rfl : ⟨s, (t.takeWhile s.holds).length, c :: run⟩ = f := by
    simpa [encode, ← htail, hrun] using h
  have holds : ∀ d, s.holds d = true ↔ d.toNat < s.limit := fun d => decide_eq_true_iff
  have lacks : ∀ d, (!s.holds d) = true ↔ s.limit ≤ d.toNat := fun d => by simp [OneByte.holds]
  refine ⟨t.takeWhile s.holds, tail.dropWhile fun c => !s.holds c, ?_, rfl, rfl, by simp,
    fun d hd => (holds d).1 (List.mem_takeWhile_imp hd), fun d hd => (lacks d).1 ?_, ?_⟩
  · change t = t.takeWhile s.holds ++ (c :: run) ++ _
    rw [← hrun, List.append_assoc, List.takeWhile_append_dropWhile, htail,
      List.takeWhile_append_dropWhile]
  · exact List.mem_takeWhile_imp (p := fun c => !s.holds c) (l := tail) (hrun ▸ hd)
  · -- what follows the run is held, or it would belong to the run
    intro d hd
    have stop := List.head?_dropWhile_not (fun c => !s.holds c) tail
    rw [hd] at stop
    exact (holds d).1 (by simpa using stop)

/-! ## The words -/

/-- The words of a set that does not hold what is at a place of a text. -/
def refusal (s : OneByte) (place : Text) : Text :=
  [Text.apostrophe] ++ s.name ++ "' codec can't encode ".toList ++ place ++
    ": ordinal not in range(".toList ++ Text.ofInt s.limit ++ [')']

/-- **The words for the characters from `i` on and before `j`.**  A single one is shown by its
escape, and more are given by their first and last position. -/
structure IsTold (s : OneByte) (t : Text) (i j : Nat) (message : Text) : Prop where
  single : j = i + 1 → ∃ c escape, t[i]? = some c ∧ Text.IsEscape c escape ∧
    message = s.refusal ("character '".toList ++ escape ++ "' in position ".toList ++ Text.ofInt i)
  several : i + 1 < j → message = s.refusal ("characters in position ".toList ++ Text.ofInt i ++
    ['-'] ++ Text.ofInt (j - 1 : Nat))

theorem isTold_message {start : Nat} (hrun : run ≠ []) (hstart : start = before.length) :
    s.IsTold (before ++ run ++ rest) start (start + run.length)
      (Fault.message ⟨s, start, run⟩) := by
  rcases run with _ | ⟨c, _ | ⟨d, run⟩⟩
  · exact absurd rfl hrun
  · refine ⟨fun _ => ⟨c, _, by simp [hstart], Text.isEscape_escapeCode c, rfl⟩, fun h => ?_⟩
    exact absurd h (Nat.lt_irrefl _)
  · refine ⟨fun h => ?_, fun _ => ?_⟩
    · simp at h
    · have hlast : ((start + (c :: d :: run).length - 1 : Nat) : Int)
          = start + (c :: d :: run).length - 1 := by
        simp only [List.length_cons]
        omega
      rw [hlast]
      rfl

/-- **A refused text has a first run beyond the limit, and this is what the fault and its words
tell.** -/
theorem exists_isFirstRun_of_encode (h : s.encode t = .error f) : ∃ i j,
    f = ⟨s, i, (t.drop i).take (j - i)⟩ ∧ IsFirstRun s.limit t i j ∧
      s.IsTold t i j f.message := by
  obtain ⟨before, rest, rfl, hset, hstart, nonempty, hbefore, hrun, hrest⟩ :=
    exists_parts_of_encode h
  obtain ⟨charset, start, run⟩ := f
  dsimp only at hset hstart nonempty hrun
  subst hset hstart
  exact ⟨before.length, before.length + run.length, by simp,
    isFirstRun_append hbefore hrun nonempty hrest, isTold_message nonempty rfl⟩

end OneByte

end ModuleRoster
