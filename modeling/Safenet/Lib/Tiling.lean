/-
Ranges that follow one another.

`Tiles` describes the ranges into which an interval of numbers is split, none wider than a span.  Laid out
one after the other they are the interval (`Tiles.flatMap_range`), so that a number of it is in one of them
(`Tiles.exists_iff`).
-/
import Mathlib.Data.List.Range
import Mathlib.Order.Nat

/-- The ranges follow one another from the first number to the last. -/
inductive Tiles (span last : Nat) : Nat → List (Nat × Nat) → Prop where
  | last {start : Nat} (hle : start ≤ last) (hspan : last - start ≤ span) :
      Tiles span last start [(start, last)]
  | cons {start stop : Nat} {ranges : List (Nat × Nat)} (hle : start ≤ stop) (hspan : stop - start ≤ span)
      (hlt : stop < last) (hrest : Tiles span last (stop + 1) ranges) :
      Tiles span last start ((start, stop) :: ranges)

namespace Tiles

variable {span last start : Nat} {ranges : List (Nat × Nat)}

/-- One after the other the ranges are the interval. -/
theorem flatMap_range (h : Tiles span last start ranges) :
    ranges.flatMap (fun range => List.range' range.1 (range.2 + 1 - range.1)) =
      List.range' start (last + 1 - start) := by
  induction h with
  | last _ _ => exact List.append_nil _
  | @cons start stop ranges hle _ hlt _ ih =>
      have hjoin : start + 1 * (stop + 1 - start) = stop + 1 := by omega
      have hlength : stop + 1 - start + (last + 1 - (stop + 1)) = last + 1 - start := by omega
      rw [List.flatMap_cons, ih, ← hlength, ← List.range'_append, hjoin]

/-- A number is in the interval if it is in one of the ranges. -/
theorem exists_iff (h : Tiles span last start ranges) (n : Nat) :
    (∃ range ∈ ranges, range.1 ≤ n ∧ n ≤ range.2) ↔ start ≤ n ∧ n ≤ last := by
  have hmem : (∃ range ∈ ranges, n ∈ List.range' range.1 (range.2 + 1 - range.1)) ↔
      n ∈ List.range' start (last + 1 - start) := by
    rw [← h.flatMap_range, List.mem_flatMap]
  have hrange : ∀ a b : Nat, n ∈ List.range' a (b + 1 - a) ↔ a ≤ n ∧ n ≤ b := by
    intro a b
    rw [List.mem_range'_1]
    omega
  rw [← hrange, ← hmem]
  exact exists_congr fun range => and_congr_right fun _ => (hrange range.1 range.2).symm

/-- No range is empty or too wide. -/
theorem span_le (h : Tiles span last start ranges) {range : Nat × Nat} (hrange : range ∈ ranges) :
    range.1 ≤ range.2 ∧ range.2 - range.1 ≤ span := by
  induction h with
  | last hle hspan =>
      rw [List.mem_singleton.mp hrange]
      exact ⟨hle, hspan⟩
  | cons hle hspan _ _ ih =>
      rcases List.mem_cons.mp hrange with rfl | hrest
      · exact ⟨hle, hspan⟩
      · exact ih hrest

end Tiles
