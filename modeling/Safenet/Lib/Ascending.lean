/-
Lists in ascending order.

A finite set as the list of its elements, and a list sorted by a key.  Mathlib's `Finset.sort` does
not evaluate in the kernel; these are insertion sorts.  Where the keys are distinct, the sorted
list depends on the elements only (`sortByKey_congr`).
-/
import Mathlib.Data.Finset.Card
import Mathlib.Data.List.Sort

universe u v

namespace Finset

variable {α : Type u} [LinearOrder α]

/-- The elements, smallest first. -/
def ascending (s : Finset α) : List α :=
  Quot.lift (fun l : List α => l.insertionSort (· ≤ ·))
    (fun _ _ h => List.Perm.eq_of_pairwise' (List.pairwise_insertionSort _ _)
      (List.pairwise_insertionSort _ _)
      (((List.perm_insertionSort _ _).trans h).trans (List.perm_insertionSort _ _).symm)) s.val

theorem ascending_perm (s : Finset α) : s.ascending.Perm s.toList := by
  obtain ⟨m, hnodup⟩ := s
  induction m using Quot.inductionOn with
  | h l =>
      have hl : (Multiset.toList (Quot.mk _ l)).Perm l := Multiset.coe_eq_coe.mp (Multiset.coe_toList _)
      exact (List.perm_insertionSort _ l).trans hl.symm

@[simp] theorem mem_ascending {s : Finset α} {a : α} : a ∈ s.ascending ↔ a ∈ s := by
  rw [(ascending_perm s).mem_iff, mem_toList]

theorem length_ascending (s : Finset α) : s.ascending.length = s.card := by
  rw [(ascending_perm s).length_eq, length_toList]

theorem ascending_strict (s : Finset α) : s.ascending.Pairwise (· < ·) := by
  have hsorted : s.ascending.Pairwise (· ≤ ·) := by
    obtain ⟨m, hnodup⟩ := s
    induction m using Quot.inductionOn with
    | h l => exact List.pairwise_insertionSort _ l
  have hne : s.ascending.Pairwise (· ≠ ·) := (ascending_perm s).nodup_iff.mpr s.nodup_toList
  exact (hsorted.and hne).imp fun h => lt_of_le_of_ne h.1 h.2

/-- An element stands behind the smaller ones. -/
theorem ascending_getElem? {s : Finset α} {a : α} (h : a ∈ s) :
    s.ascending[(s.filter (· < a)).card]? = some a := by
  obtain ⟨before, after, hsplit⟩ := List.append_of_mem (mem_ascending.mpr h)
  have hstrict := ascending_strict s
  rw [hsplit, List.pairwise_append, List.pairwise_cons] at hstrict
  obtain ⟨-, ⟨hafter, -⟩, hbefore⟩ := hstrict
  have hsmaller : s.ascending.filter (· < a) = before := by
    rw [hsplit, List.filter_append, List.filter_cons_of_neg (by simp)]
    have hall : before.filter (· < a) = before :=
      List.filter_eq_self.mpr fun b hb => decide_eq_true (hbefore b hb a List.mem_cons_self)
    have hnone : after.filter (· < a) = [] :=
      List.filter_eq_nil_iff.mpr fun b hb => by simpa using (hafter b hb).le
    rw [hall, hnone, List.append_nil]
  have hcard : (s.filter (· < a)).card = before.length := by
    have hfinset : s.filter (· < a) = before.toFinset := by
      ext b
      rw [← hsmaller]
      simp
    have hnodup : before.Nodup := by
      rw [← hsmaller]
      exact ((ascending_perm s).nodup_iff.mpr s.nodup_toList).filter _
    rw [hfinset, List.toFinset_card_of_nodup hnodup]
  rw [hcard, hsplit, List.getElem?_append_right le_rfl, Nat.sub_self, List.getElem?_cons_zero]

end Finset

namespace List

variable {α : Type u} {κ : Type v} [LinearOrder κ] {key : α → κ} {l l' : List α}

/-- The list sorted by a key. -/
def sortByKey (key : α → κ) (l : List α) : List α := l.insertionSort fun a b => key a ≤ key b

theorem sortByKey_perm (key : α → κ) (l : List α) : (l.sortByKey key).Perm l :=
  List.perm_insertionSort _ l

@[simp] theorem mem_sortByKey {a : α} : a ∈ l.sortByKey key ↔ a ∈ l :=
  (sortByKey_perm key l).mem_iff

theorem sortByKey_sorted (key : α → κ) (l : List α) :
    (l.sortByKey key).Pairwise fun a b => key a ≤ key b := by
  have : Std.Total fun a b : α => key a ≤ key b := ⟨fun a b => le_total (key a) (key b)⟩
  have : IsTrans α fun a b => key a ≤ key b := ⟨fun _ _ _ => le_trans⟩
  exact List.pairwise_insertionSort _ l

/-- With distinct keys the order is strict. -/
theorem sortByKey_strict (hnodup : (l.map key).Nodup) :
    (l.sortByKey key).Pairwise fun a b => key a < key b := by
  have hne : (l.sortByKey key).Pairwise fun a b => key a ≠ key b := by
    have hperm := (sortByKey_perm key l).map key
    exact List.pairwise_map.mp (hperm.nodup_iff.mpr hnodup)
  exact ((sortByKey_sorted key l).and hne).imp fun h => lt_of_le_of_ne h.1 h.2

/-- **With distinct keys the order of the input does not matter.** -/
theorem sortByKey_congr (hperm : l.Perm l') (hnodup : (l.map key).Nodup) :
    l.sortByKey key = l'.sortByKey key := by
  have hsame : (l.sortByKey key).Perm (l'.sortByKey key) :=
    ((sortByKey_perm key l).trans hperm).trans (sortByKey_perm key l').symm
  refine hsame.eq_of_pairwise (fun a b _ _ hab hba => absurd hab (lt_asymm hba))
    (sortByKey_strict hnodup) (sortByKey_strict ((hperm.map key).nodup_iff.mp hnodup))

end List
