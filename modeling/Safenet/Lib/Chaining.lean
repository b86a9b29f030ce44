/-
Rules with one premise, applied one at a time.

A rule leads from its `source` to its `target`.  `Derives` is what a set of rules derives from a
root; `fire` applies one rule to the set of what is known so far, and does nothing when the
premise is missing.  Applying a list of rules is sound (`derives_of_fired`), and it is complete
for every derivation whose rules occur in the list in their order (`fired_of_path`).  Where the
rules lead upwards in some order a derivation uses no rule twice, so as many rounds as there are
rules are enough, whatever the order within each round (`fired_rounds`).
-/
import Mathlib.Data.Finset.Card
import Mathlib.Data.List.Sublists
import Mathlib.Data.Set.Insert

universe u v w

namespace Chaining

variable {α : Type u} {ρ : Type v} {source target : ρ → α} {rules rules' : Set ρ} {root x : α}

/-- What the rules derive from the root. -/
inductive Derives (source target : ρ → α) (rules : Set ρ) (root : α) : α → Prop
  | root : Derives source target rules root root
  | rule {r : ρ} (premise : Derives source target rules root (source r)) (mem : r ∈ rules) :
      Derives source target rules root (target r)

theorem Derives.mono (h : Derives source target rules root x) (hsub : rules ⊆ rules') :
    Derives source target rules' root x := by
  induction h with
  | root => exact .root
  | rule _ mem ih => exact .rule ih (hsub mem)

/-- A rule whose premise is derived adds its conclusion and nothing else, if the premises of all
other rules are derived already. -/
theorem derives_insert {r : ρ}
    (hpremises : ∀ r' ∈ rules, Derives source target rules root (source r'))
    (hr : Derives source target rules root (source r)) :
    Derives source target (insert r rules) root x ↔
      x = target r ∨ Derives source target rules root x := by
  constructor
  · intro h
    cases h with
    | root => exact .inr .root
    | rule _ mem =>
        rcases mem with rfl | mem
        · exact .inl rfl
        · exact .inr (.rule (hpremises _ mem) mem)
  · rintro (rfl | h)
    · exact .rule (hr.mono (Set.subset_insert r rules)) (Set.mem_insert r rules)
    · exact h.mono (Set.subset_insert r rules)

/-! ### Derivations as lists -/

/-- The rules of a derivation, in their order. -/
inductive Path (source target : ρ → α) (rules : Set ρ) (root : α) : List ρ → α → Prop
  | nil : Path source target rules root [] root
  | concat {path : List ρ} {r : ρ} (premise : Path source target rules root path (source r))
      (mem : r ∈ rules) : Path source target rules root (path ++ [r]) (target r)

theorem Derives.path (h : Derives source target rules root x) :
    ∃ path, Path source target rules root path x := by
  induction h with
  | root => exact ⟨[], .nil⟩
  | rule _ mem ih =>
      obtain ⟨path, hpath⟩ := ih
      exact ⟨_, .concat hpath mem⟩

theorem Path.mem {path : List ρ} (h : Path source target rules root path x) :
    ∀ r ∈ path, r ∈ rules := by
  induction h with
  | nil => intro r hr; cases hr
  | concat _ mem ih =>
      intro r hr
      cases List.mem_append.mp hr with
      | inl hr => exact ih r hr
      | inr hr =>
          rw [List.mem_singleton.mp hr]
          exact mem

section Ranked

variable {β : Type w} [Preorder β] {rank : α → β}

/-- Where rules lead upwards no rule of a derivation leads above its end. -/
theorem Path.rank_le (hrank : ∀ r ∈ rules, rank (source r) < rank (target r)) {path : List ρ}
    (h : Path source target rules root path x) : ∀ r ∈ path, rank (target r) ≤ rank x := by
  induction h with
  | nil => intro r hr; cases hr
  | concat _ mem ih =>
      intro r hr
      cases List.mem_append.mp hr with
      | inl hr => exact (ih r hr).trans (hrank _ mem).le
      | inr hr => rw [List.mem_singleton.mp hr]

/-- Where rules lead upwards no derivation uses a rule twice. -/
theorem Path.nodup (hrank : ∀ r ∈ rules, rank (source r) < rank (target r)) {path : List ρ}
    (h : Path source target rules root path x) : path.Nodup := by
  induction h with
  | nil => exact List.nodup_nil
  | @concat path r premise mem ih =>
      refine List.nodup_append.mpr ⟨ih, List.nodup_singleton r, fun r' hr' r'' hr'' => ?_⟩
      rw [List.mem_singleton.mp hr'']
      rintro rfl
      exact absurd (premise.rank_le hrank r' hr') (not_le_of_gt (hrank r' mem))

end Ranked

/-! ### Applying rules -/

/-- Applies one rule to what is known. -/
def fire (source target : ρ → α) (known : Set α) (r : ρ) : Set α :=
  { x | x ∈ known ∨ source r ∈ known ∧ x = target r }

/-- Applies the rules one after another. -/
def fired (source target : ρ → α) (known : Set α) (submitted : List ρ) : Set α :=
  submitted.foldl (fire source target) known

theorem fired_append (known : Set α) (l₁ l₂ : List ρ) :
    fired source target known (l₁ ++ l₂) =
      fired source target (fired source target known l₁) l₂ := by
  simp [fired, List.foldl_append]

theorem subset_fired (submitted : List ρ) :
    ∀ known : Set α, known ⊆ fired source target known submitted := by
  induction submitted with
  | nil => intro known; exact Set.Subset.rfl
  | cons r rest ih => intro known; exact Set.Subset.trans (fun x hx => .inl hx) (ih _)

/-- **Nothing is known but what the rules derive.** -/
theorem derives_of_fired {submitted : List ρ} (hsub : ∀ r ∈ submitted, r ∈ rules) :
    ∀ {known : Set α}, (∀ x ∈ known, Derives source target rules root x) →
      ∀ x ∈ fired source target known submitted, Derives source target rules root x := by
  induction submitted with
  | nil => intro known h; exact h
  | cons r rest ih =>
      intro known h
      refine ih (fun r' hr' => hsub r' (List.mem_cons_of_mem _ hr')) fun x hx => ?_
      rcases hx with hx | ⟨hsource, rfl⟩
      · exact h x hx
      · exact .rule (h _ hsource) (hsub r List.mem_cons_self)

/-- **A derivation whose rules are applied in their order is known.** -/
theorem fired_of_path {path submitted : List ρ} (h : Path source target rules root path x)
    (hsub : path.Sublist submitted) : x ∈ fired source target {root} submitted := by
  induction h generalizing submitted with
  | nil => exact subset_fired submitted _ rfl
  | @concat path r premise mem ih =>
      obtain ⟨l₁, l₂, rfl, hl₁, hl₂⟩ := List.append_sublist_iff.mp hsub
      obtain ⟨before, after, rfl⟩ := List.append_of_mem (List.singleton_sublist.mp hl₂)
      rw [fired_append, List.append_cons, fired_append]
      have hsource : source r ∈ fired source target (fired source target {root} l₁) before :=
        subset_fired before _ (ih hl₁)
      refine subset_fired after _ ?_
      rw [fired_append]
      exact .inr ⟨hsource, rfl⟩

/-- A list whose elements occur in each of as many rounds is a part of the rounds. -/
theorem sublist_rounds {path : List ρ} : ∀ {rounds : List (List ρ)}, path.length ≤ rounds.length →
    (∀ round ∈ rounds, ∀ r ∈ path, r ∈ round) → path.Sublist rounds.flatten := by
  induction path with
  | nil => intro rounds _ _; exact List.nil_sublist _
  | cons r rest ih =>
      intro rounds hlength hmem
      cases rounds with
      | nil => simp at hlength
      | cons round rounds =>
          have hr : [r].Sublist round :=
            List.singleton_sublist.mpr (hmem round List.mem_cons_self r List.mem_cons_self)
          have hrest : rest.Sublist rounds.flatten :=
            ih (by simpa using hlength) fun round' hround' r' hr' =>
              hmem round' (List.mem_cons_of_mem _ hround') r' (List.mem_cons_of_mem _ hr')
          exact hr.append hrest

/-- **As many rounds as there are rules derive everything, in whatever order.** -/
theorem fired_rounds {β : Type w} [Preorder β] (rank : α → β) (submissions : Finset ρ)
    (hrules : rules ⊆ submissions)
    (hrank : ∀ r ∈ rules, rank (source r) < rank (target r)) {rounds : List (List ρ)}
    (hlength : submissions.card ≤ rounds.length)
    (hrounds : ∀ round ∈ rounds, ∀ r ∈ submissions, r ∈ round)
    (h : Derives source target rules root x) :
    x ∈ fired source target {root} rounds.flatten := by
  classical
  obtain ⟨path, hpath⟩ := h.path
  have hsub : ∀ r ∈ path, r ∈ submissions := fun r hr => hrules (hpath.mem r hr)
  refine fired_of_path hpath (sublist_rounds ?_ fun round hround r hr =>
    hrounds round hround r (hsub r hr))
  calc path.length = path.toFinset.card := (List.toFinset_card_of_nodup (hpath.nodup hrank)).symm
    _ ≤ submissions.card := Finset.card_le_card fun r hr => hsub r (List.mem_toFinset.mp hr)
    _ ≤ rounds.length := hlength

end Chaining
