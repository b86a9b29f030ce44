/-
Formats and their decoders.

A format says which words stand for a value.  `Decodes` says that a decoder reads exactly these words off
the front of its input, and leaves what follows.  A decoder that is run until the input is used up then
reads exactly the sequences of words (`many_eq_some_iff`).  It takes no more rounds than there are symbols,
so that a bound on the rounds does not matter (`many_fuel`).
-/
import Mathlib.Data.List.Basic

universe u

namespace Format

variable {α β : Type u}

/-- The decoder reads the words of the format, and nothing else. -/
def Decodes (decode : List β → Option (α × List β)) (format : α → List β → Prop) : Prop :=
  ∀ data a rest, decode data = some (a, rest) ↔ ∃ word, format a word ∧ data = word ++ rest

/-- Words of the format, one after the other. -/
inductive Sequence (format : α → List β → Prop) : List α → List β → Prop where
  | nil : Sequence format [] []
  | cons {a : α} {word : List β} {as : List α} {rest : List β} (hword : format a word)
      (hrest : Sequence format as rest) : Sequence format (a :: as) (word ++ rest)

/-- Decodes until nothing is left, for at most `fuel` rounds. -/
def many (decode : List β → Option (α × List β)) : Nat → List β → Option (List α)
  | _, [] => some []
  | 0, _ :: _ => none
  | fuel + 1, b :: data => do
      let (a, rest) ← decode (b :: data)
      let as ← many decode fuel rest
      return a :: as

variable {decode : List β → Option (α × List β)} {format : α → List β → Prop}

theorem Sequence.eq_nil {as : List α} {data : List β} (h : Sequence format as data)
    (hne : ∀ a word, format a word → word ≠ []) (hdata : data = []) : as = [] := by
  cases h with
  | nil => rfl
  | cons hword _ => exact absurd (List.append_eq_nil_iff.mp hdata).1 (hne _ _ hword)

theorem Sequence.split {as : List α} {data : List β} (h : Sequence format as data) (hdata : data ≠ []) :
    ∃ a as' word rest, as = a :: as' ∧ data = word ++ rest ∧ format a word ∧ Sequence format as' rest := by
  cases h with
  | nil => exact absurd rfl hdata
  | cons hword hrest => exact ⟨_, _, _, _, rfl, rfl, hword, hrest⟩

/-- **What is decoded to the end is a sequence of words.** -/
theorem many_eq_some_iff (h : Decodes decode format) (hne : ∀ a word, format a word → word ≠ [])
    {fuel : Nat} {data : List β} (hfuel : data.length ≤ fuel) {as : List α} :
    many decode fuel data = some as ↔ Sequence format as data := by
  induction fuel generalizing data as with
  | zero =>
      have hdata : data = [] := List.eq_nil_of_length_eq_zero (Nat.le_zero.mp hfuel)
      subst hdata
      constructor
      · intro hdecode
        cases hdecode
        exact .nil
      · intro hsequence
        rw [hsequence.eq_nil hne rfl]
        rfl
  | succ fuel ih =>
      cases data with
      | nil =>
          constructor
          · intro hdecode
            cases hdecode
            exact .nil
          · intro hsequence
            rw [hsequence.eq_nil hne rfl]
            rfl
      | cons b data =>
          -- a word is not empty, so what follows it is shorter
          have hshorter : ∀ word rest, b :: data = word ++ rest → word ≠ [] → rest.length ≤ fuel := by
            intro word rest heq hword
            have hlength := congrArg List.length heq
            have hpos := List.length_pos_iff.mpr hword
            rw [List.length_append] at hlength
            omega
          constructor
          · intro hdecode
            obtain ⟨⟨a, rest⟩, hfirst, hdecode⟩ := Option.bind_eq_some_iff.mp hdecode
            obtain ⟨as', hrest, heq⟩ := Option.bind_eq_some_iff.mp hdecode
            cases heq
            obtain ⟨word, hword, hdata⟩ := (h _ a rest).mp hfirst
            rw [hdata]
            exact .cons hword ((ih (hshorter word rest hdata (hne a word hword))).mp hrest)
          · intro hsequence
            obtain ⟨a, as', word, rest, rfl, hdata, hword, hrest⟩ := hsequence.split (List.cons_ne_nil b data)
            have hfirst : decode (b :: data) = some (a, rest) := (h _ a rest).mpr ⟨word, hword, hdata⟩
            have hlater := (ih (hshorter word rest hdata (hne a word hword))).mpr hrest
            unfold many
            rw [hfirst]
            show (many decode fuel rest).bind _ = _
            rw [hlater]
            rfl

/-- More rounds make no difference. -/
theorem many_fuel (h : Decodes decode format) (hne : ∀ a word, format a word → word ≠ []) {fuel : Nat}
    {data : List β} (hfuel : data.length ≤ fuel) : many decode fuel data = many decode data.length data := by
  apply Option.ext
  intro as
  rw [many_eq_some_iff h hne hfuel, many_eq_some_iff h hne (Nat.le_refl _)]

end Format
