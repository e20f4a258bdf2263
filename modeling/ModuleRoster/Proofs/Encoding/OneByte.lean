import Mathlib.Data.List.TakeWhile
import ModuleRoster.Encoding.Basic

/-!
# Proofs/Encoding/OneByte — which texts a one-byte set writes

A one-byte set writes exactly the texts whose characters it holds, one byte for each
(`encode_eq_ok_iff`).  ASCII bytes are the bytes of UTF-8 (`encode_eq_map_of_ascii`).
-/

namespace ModuleRoster

namespace OneByte

variable {s : OneByte} {t : Text} {bytes : Bytes}

/-- **A set writes the texts that it holds**, and no others. -/
theorem encode_eq_ok_iff : s.encode t = .ok bytes ↔
    (∀ c ∈ t, s.holds c = true) ∧ bytes = t.map fun c => .ofNat c.toNat := by
  unfold encode
  rcases hrest : t.dropWhile s.holds with _ | ⟨c, rest⟩
  · have hall := List.dropWhile_eq_nil_iff.1 hrest
    simp only [List.takeWhile_nil, Except.ok.injEq]
    exact ⟨fun h => ⟨hall, h.symm⟩, fun h => h.2.symm⟩
  · have hc : s.holds c = false := by
      have := List.head?_dropWhile_not s.holds t
      simpa [hrest] using this
    rw [List.takeWhile_cons_of_pos (by simp [hc])]
    refine iff_of_false nofun fun ⟨hall, _⟩ => ?_
    have hmem : c ∈ t := (List.dropWhile_sublist s.holds).subset (hrest ▸ List.mem_cons_self)
    simp [hall c hmem] at hc

end OneByte

/-- **A text that ASCII holds has the same bytes in UTF-8.** -/
theorem Utf8.encode_eq_map_of_ascii : ∀ {t : Text}, (∀ c ∈ t, OneByte.ascii.holds c = true) →
    Utf8.encode t = t.map fun c => .ofNat c.toNat
  | [], _ => rfl
  | c :: t, h => by
      have hc : c.toNat < 0x80 := of_decide_eq_true (h c List.mem_cons_self)
      have ih := encode_eq_map_of_ascii fun d hd => h d (List.mem_cons_of_mem c hd)
      rw [encode] at ih
      simp [encode, encodeChar, hc, ih]

end ModuleRoster
