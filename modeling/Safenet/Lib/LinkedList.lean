/-
Doubly linked lists stored in maps.

A node is a key.  `next` and `prev` give the links of every key, and a list is read off
them: `Segment next prev before l after` says that the nodes of `l` are linked one after
the other in both directions, that the first one points back to `before` and the last one
on to `after`.  A whole list is a segment between two null keys.

An operation on the list rewrites a few links.  The two `relink` lemmas say what rewriting
the first and the last link of a segment does, `Segment.insert` puts a node anywhere into
a list.
-/
import Mathlib.Data.List.Basic

universe u

namespace LinkedList

variable {κ : Type u} {next prev next' prev' : κ → κ} {before after : κ}

/-- The nodes of a list, linked in both directions. -/
def Segment (next prev : κ → κ) : κ → List κ → κ → Prop
  | _, [], _ => True
  | before, k :: rest, after =>
      prev k = before ∧ next k = rest.headD after ∧ Segment next prev k rest after

theorem segment_append {l₁ l₂ : List κ} :
    Segment next prev before (l₁ ++ l₂) after ↔
      Segment next prev before l₁ (l₂.headD after) ∧
        Segment next prev (l₁.getLastD before) l₂ after := by
  induction l₁ generalizing before with
  | nil => simp [Segment]
  | cons k rest ih =>
      have hhead : (rest ++ l₂).headD after = rest.headD (l₂.headD after) := by
        cases rest <;> simp
      have hlast : (k :: rest).getLastD before = rest.getLastD k := by
        cases rest <;> simp [List.getLastD]
      simp only [List.cons_append, Segment, ih, hhead, hlast, and_assoc]

/-- The links of a node in the middle of a segment. -/
theorem Segment.links {l₁ l₂ : List κ} {k : κ}
    (h : Segment next prev before (l₁ ++ k :: l₂) after) :
    prev k = l₁.getLastD before ∧ next k = l₂.headD after := by
  obtain ⟨-, hprev, hnext, -⟩ := segment_append.mp h
  exact ⟨hprev, hnext⟩

/-- A segment only reads the links of its nodes. -/
theorem Segment.congr {l : List κ} (h : Segment next prev before l after)
    (hnext : ∀ k ∈ l, next' k = next k) (hprev : ∀ k ∈ l, prev' k = prev k) :
    Segment next' prev' before l after := by
  induction l generalizing before with
  | nil => trivial
  | cons k rest ih =>
      obtain ⟨hp, hn, hrest⟩ := h
      refine ⟨(hprev k (by simp)).trans hp, (hnext k (by simp)).trans hn, ?_⟩
      exact ih hrest (fun j hj => hnext j (by simp [hj])) (fun j hj => hprev j (by simp [hj]))

variable [DecidableEq κ]

/-- Rewriting the link back from the first node. -/
theorem Segment.relink_first {l : List κ} {before' : κ} (h : Segment next prev before l after)
    (hl : l.Nodup) (hnext : ∀ k ∈ l, next' k = next k)
    (hprev : ∀ k ∈ l, prev' k = if k = l.headD after then before' else prev k) :
    Segment next' prev' before' l after := by
  cases l with
  | nil => trivial
  | cons k rest =>
      obtain ⟨-, hn, hrest⟩ := h
      rw [List.nodup_cons] at hl
      refine ⟨?_, (hnext k (by simp)).trans hn, ?_⟩
      · rw [hprev k (by simp), if_pos (by simp)]
      · refine hrest.congr (fun j hj => hnext j (by simp [hj])) ?_
        intro j hj
        rw [hprev j (by simp [hj]), if_neg]
        rw [List.headD_cons]
        exact fun hjk => hl.1 (hjk ▸ hj)

/-- Rewriting the link on from the last node. -/
theorem Segment.relink_last {l : List κ} {after' : κ} (h : Segment next prev before l after)
    (hl : l.Nodup) (hprev : ∀ k ∈ l, prev' k = prev k)
    (hnext : ∀ k ∈ l, next' k = if k = l.getLastD before then after' else next k) :
    Segment next' prev' before l after' := by
  cases List.eq_nil_or_concat l with
  | inl hnil => rw [hnil]; trivial
  | inr hconcat =>
      obtain ⟨init, k, rfl⟩ := hconcat
      rw [List.concat_eq_append] at h hl hprev hnext ⊢
      rw [segment_append] at h ⊢
      rw [List.getLastD_concat] at hnext
      obtain ⟨hinit, hp, -, -⟩ := h
      refine ⟨hinit.congr ?_ (fun j hj => hprev j (by simp [hj])), ?_, ?_, trivial⟩
      · intro j hj
        rw [hnext j (by simp [hj]), if_neg]
        intro hjk
        simp [List.nodup_append] at hl
        exact hl.2 j hj hjk
      · exact (hprev k (by simp)).trans hp
      · rw [hnext k (by simp), if_pos rfl]
        rfl

/-- Linking a new node between two parts of a list. -/
theorem Segment.insert {l₁ l₂ : List κ} {k null : κ}
    (h : Segment next prev null (l₁ ++ l₂) null) (hl : (l₁ ++ l₂).Nodup)
    (hnull : null ∉ l₁ ++ l₂) (hk : prev' k = l₁.getLastD null ∧ next' k = l₂.headD null)
    (hnext : ∀ j ∈ l₁ ++ l₂, next' j = if j = l₁.getLastD null then k else next j)
    (hprev : ∀ j ∈ l₁ ++ l₂, prev' j = if j = l₂.headD null then k else prev j) :
    Segment next' prev' null (l₁ ++ k :: l₂) null := by
  obtain ⟨h₁, h₂⟩ := segment_append.mp h
  obtain ⟨hl₁, hl₂, hdisjoint⟩ := List.nodup_append.mp hl
  rw [segment_append, List.headD_cons]
  refine ⟨h₁.relink_last hl₁ ?_ (fun j hj => hnext j (List.mem_append_left _ hj)),
    hk.1, hk.2, h₂.relink_first hl₂ ?_ (fun j hj => hprev j (List.mem_append_right _ hj))⟩
  · -- the link back from the second part leaves the first part alone
    intro j hj
    rw [hprev j (List.mem_append_left _ hj), if_neg]
    intro hhead
    cases l₂ with
    | nil => exact hnull (by simpa [hhead] using hj)
    | cons i rest => exact hdisjoint j hj i (by simp) (by simpa using hhead)
  · intro j hj
    rw [hnext j (List.mem_append_right _ hj), if_neg]
    intro hlast
    cases List.eq_nil_or_concat l₁ with
    | inl hnil => exact hnull (by simpa [hnil, hlast] using hj)
    | inr hconcat =>
        obtain ⟨init, i, rfl⟩ := hconcat
        rw [List.concat_eq_append, List.getLastD_concat] at hlast
        exact hdisjoint i (by simp) j hj hlast.symm

end LinkedList
