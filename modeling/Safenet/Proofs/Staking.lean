/-
The withdrawal queues of the staking contract stay well formed, and its books balance.

A queue is read off the storage as a list of ids (`QueueOK`).  Both ways to withdraw
amount to splitting that list and linking the new node in between (`Inserted`), whatever
position the caller names; a claim takes the first node off.  `Sound` ties the queues to
the withdrawals initiated and not claimed in the history, and to the totals.
-/
import Mathlib.Data.FinEnum
import Safenet.Contracts.Staking
import Safenet.Lib.LinkedList
import Safenet.Lib.Trace

namespace Safenet.Contracts.Staking

open Fallible LinkedList

variable {nodes nodes' : Nodes} {queue queue' : WithdrawalQueue} {ids l₁ l₂ : List Nat}
  {id amount claimableAt : Nat}

/-! ### One queue -/

/-- The storage holds the queue `ids`. -/
structure QueueOK (nodes : Nodes) (queue : WithdrawalQueue) (ids : List Nat) : Prop where
  links : Segment (fun id => (nodes id).next) (fun id => (nodes id).previous) 0 ids 0
  head : queue.head = ids.headD 0
  tail : queue.tail = ids.getLastD 0
  nodup : ids.Nodup
  nonzero : 0 ∉ ids
  sorted : ids.Pairwise fun a b => (nodes a).claimableAt ≤ (nodes b).claimableAt
  unused : ∀ id, id ∉ ids → nodes id = emptyNode

/-- The new node stands between the two parts of the queue. -/
structure Inserted (nodes nodes' : Nodes) (queue' : WithdrawalQueue) (l₁ l₂ : List Nat)
    (id amount claimableAt : Nat) : Prop where
  new : nodes' id = ⟨amount, claimableAt, l₁.getLastD 0, l₂.headD 0⟩
  listed : ∀ j ∈ l₁ ++ l₂, nodes' j =
    ⟨(nodes j).amount, (nodes j).claimableAt,
      if j = l₂.headD 0 then id else (nodes j).previous,
      if j = l₁.getLastD 0 then id else (nodes j).next⟩
  other : ∀ j, j ≠ id → j ∉ l₁ ++ l₂ → nodes' j = nodes j
  head : queue'.head = (l₁ ++ [id]).headD 0
  tail : queue'.tail = (id :: l₂).getLastD 0
  earlier : ∀ j ∈ l₁, (nodes j).claimableAt ≤ claimableAt
  later : ∀ j ∈ l₂, claimableAt ≤ (nodes j).claimableAt

private theorem getLastD_append_cons (l₁ l₂ : List Nat) (k : Nat) :
    (l₁ ++ k :: l₂).getLastD 0 = (k :: l₂).getLastD 0 := by
  cases List.eq_nil_or_concat l₂ with
  | inl hnil => rw [hnil, List.getLastD_concat]; rfl
  | inr hconcat =>
      obtain ⟨init, j, rfl⟩ := hconcat
      rw [List.concat_eq_append, ← List.cons_append, ← List.append_assoc, List.getLastD_concat,
        List.getLastD_concat]

theorem QueueOK.insert (h : QueueOK nodes queue (l₁ ++ l₂)) (hfresh : id ∉ l₁ ++ l₂)
    (hid : id ≠ 0) (hins : Inserted nodes nodes' queue' l₁ l₂ id amount claimableAt) :
    QueueOK nodes' queue' (l₁ ++ id :: l₂) := by
  have hmem : ∀ j, j ∈ l₁ ++ id :: l₂ ↔ j = id ∨ j ∈ l₁ ++ l₂ := by
    intro j
    simp only [List.mem_append, List.mem_cons]
    tauto
  have htime : ∀ j ∈ l₁ ++ l₂, (nodes' j).claimableAt = (nodes j).claimableAt := by
    intro j hj
    rw [hins.listed j hj]
  refine ⟨?_, ?_, ?_, ?_, ?_, ?_, ?_⟩
  · refine h.links.insert h.nodup h.nonzero ?_ ?_ ?_
    · simp only [hins.new, and_self]
    · intro j hj
      simp only [hins.listed j hj]
    · intro j hj
      simp only [hins.listed j hj]
  · rw [hins.head]
    cases l₁ <;> simp
  · rw [hins.tail, getLastD_append_cons]
  · rw [List.nodup_middle, List.nodup_cons]
    exact ⟨hfresh, h.nodup⟩
  · rw [hmem]
    intro h0
    cases h0 with
    | inl h0 => exact hid h0.symm
    | inr h0 => exact h.nonzero h0
  · obtain ⟨hs₁, hs₂, hs⟩ := List.pairwise_append.mp h.sorted
    refine List.pairwise_append.mpr ⟨?_, List.pairwise_cons.mpr ⟨?_, ?_⟩, ?_⟩
    · refine hs₁.imp_of_mem ?_
      intro a b ha hb hab
      rwa [htime a (by simp [ha]), htime b (by simp [hb])]
    · intro j hj
      rw [hins.new, htime j (by simp [hj])]
      exact hins.later j hj
    · refine hs₂.imp_of_mem ?_
      intro a b ha hb hab
      rwa [htime a (by simp [ha]), htime b (by simp [hb])]
    · intro a ha b hb
      rw [htime a (by simp [ha])]
      cases List.mem_cons.mp hb with
      | inl hb =>
          rw [hb, hins.new]
          exact hins.earlier a ha
      | inr hb =>
          rw [htime b (by simp [hb])]
          exact hs a ha b hb
  · intro j hj
    rw [hmem, not_or] at hj
    rw [hins.other j hj.1 hj.2, h.unused j hj.2]

/-- The nodes once `id` is linked in between `previousId` and `nextId`. -/
def linked (nodes : Nodes) (id amount claimableAt previousId nextId : Nat) : Nodes := fun j =>
  if j = id then ⟨amount, claimableAt, previousId, nextId⟩
  else ⟨(nodes j).amount, (nodes j).claimableAt,
    if j = nextId ∧ j ≠ 0 then id else (nodes j).previous,
    if j = previousId ∧ j ≠ 0 then id else (nodes j).next⟩

private theorem headD_mem {l : List Nat} {j : Nat} (hj : j = l.headD 0) (h0 : j ≠ 0) : j ∈ l := by
  cases l with
  | nil => exact absurd hj h0
  | cons k rest => simp [hj]

private theorem getLastD_mem {l : List Nat} {j : Nat} (hj : j = l.getLastD 0) (h0 : j ≠ 0) :
    j ∈ l := by
  cases List.eq_nil_or_concat l with
  | inl hnil => rw [hnil] at hj; exact absurd hj h0
  | inr hconcat =>
      obtain ⟨init, k, rfl⟩ := hconcat
      rw [List.concat_eq_append, List.getLastD_concat] at hj
      simp [hj]

/-- The ends of the queue once `id` is linked in between `previousId` and `nextId`. -/
def linkedQueue (queue : WithdrawalQueue) (id previousId nextId : Nat) : WithdrawalQueue where
  head := if previousId = 0 then id else queue.head
  tail := if nextId = 0 then id else queue.tail

private theorem QueueOK.last_eq_zero (h : QueueOK nodes queue (l₁ ++ l₂)) :
    l₁.getLastD 0 = 0 ↔ l₁ = [] := by
  refine ⟨fun h0 => ?_, fun hnil => by rw [hnil]; rfl⟩
  cases List.eq_nil_or_concat l₁ with
  | inl hnil => exact hnil
  | inr hconcat =>
      obtain ⟨init, k, rfl⟩ := hconcat
      rw [List.concat_eq_append, List.getLastD_concat] at h0
      exact absurd (by simp [h0]) h.nonzero

private theorem QueueOK.first_eq_zero (h : QueueOK nodes queue (l₁ ++ l₂)) :
    l₂.headD 0 = 0 ↔ l₂ = [] := by
  cases l₂ with
  | nil => simp
  | cons k rest =>
      have hk : k ≠ 0 := fun h0 => h.nonzero (by simp [h0])
      simp [hk]

private theorem inserted_linked (h : QueueOK nodes queue (l₁ ++ l₂)) (hfresh : id ∉ l₁ ++ l₂)
    (hearlier : ∀ j ∈ l₁, (nodes j).claimableAt ≤ claimableAt)
    (hlater : ∀ j ∈ l₂, claimableAt ≤ (nodes j).claimableAt) :
    Inserted nodes (linked nodes id amount claimableAt (l₁.getLastD 0) (l₂.headD 0))
      (linkedQueue queue id (l₁.getLastD 0) (l₂.headD 0)) l₁ l₂ id amount claimableAt := by
  refine ⟨if_pos rfl, ?_, ?_, ?_, ?_, hearlier, hlater⟩
  · intro j hj
    have hne : j ≠ id := fun heq => hfresh (heq ▸ hj)
    have h0 : j ≠ 0 := fun heq => h.nonzero (heq ▸ hj)
    simp only [linked, if_neg hne, h0, ne_eq, not_false_eq_true, and_true]
  · intro j hne hj
    have hnext : ¬ (j = l₂.headD 0 ∧ j ≠ 0) := by
      intro hc
      exact hj (List.mem_append_right _ (headD_mem hc.1 hc.2))
    have hprevious : ¬ (j = l₁.getLastD 0 ∧ j ≠ 0) := by
      intro hc
      exact hj (List.mem_append_left _ (getLastD_mem hc.1 hc.2))
    simp only [linked, if_neg hne, if_neg hnext, if_neg hprevious]
  · show (if l₁.getLastD 0 = 0 then id else queue.head) = _
    simp only [h.last_eq_zero, h.head]
    cases l₁ <;> simp
  · show (if l₂.headD 0 = 0 then id else queue.tail) = _
    simp only [h.first_eq_zero, h.tail]
    cases l₂ with
    | nil => simp
    | cons k rest =>
        rw [if_neg (by simp), getLastD_append_cons, ← getLastD_append_cons [id] rest k]
        rfl

/-! The writes of the two insertions, in either order, link the new node. -/

private theorem setNext_set {previousId : Nat} (node : WithdrawalNode) (hp : previousId ≠ id) :
    (nodes.set id node).setNext previousId id = (nodes.setNext previousId id).set id node := by
  unfold Nodes.set Nodes.setNext
  rw [Function.update_of_ne hp, Function.update_comm hp]

private theorem setPrevious_set {nextId : Nat} (node : WithdrawalNode) (hn : nextId ≠ id) :
    (nodes.set id node).setPrevious nextId id = (nodes.setPrevious nextId id).set id node := by
  unfold Nodes.set Nodes.setPrevious
  rw [Function.update_of_ne hn, Function.update_comm hn]

private theorem set_eq_linked :
    nodes.set id ⟨amount, claimableAt, 0, 0⟩ = linked nodes id amount claimableAt 0 0 := by
  funext j
  by_cases hj : j = id
  · simp [linked, Nodes.set, hj]
  · simp [linked, Nodes.set, hj]

private theorem setNext_eq_linked {previousId : Nat} (h0 : previousId ≠ 0) :
    (nodes.setNext previousId id).set id ⟨amount, claimableAt, previousId, 0⟩ =
      linked nodes id amount claimableAt previousId 0 := by
  funext j
  by_cases hj : j = id
  · simp [linked, Nodes.set, hj]
  · by_cases hjp : j = previousId
    · subst hjp
      simp [linked, Nodes.set, Nodes.setNext, hj, h0]
    · simp [linked, Nodes.set, Nodes.setNext, hj, hjp]

private theorem setPrevious_eq_linked {nextId : Nat} (h0 : nextId ≠ 0) :
    (nodes.setPrevious nextId id).set id ⟨amount, claimableAt, 0, nextId⟩ =
      linked nodes id amount claimableAt 0 nextId := by
  funext j
  by_cases hj : j = id
  · simp [linked, Nodes.set, hj]
  · by_cases hjn : j = nextId
    · subst hjn
      simp [linked, Nodes.set, Nodes.setPrevious, hj, h0]
    · simp [linked, Nodes.set, Nodes.setPrevious, hj, hjn]

private theorem setBoth_eq_linked {previousId nextId : Nat} (hp : previousId ≠ 0)
    (hn : nextId ≠ 0) (hne : previousId ≠ nextId) :
    ((nodes.setNext previousId id).setPrevious nextId id).set id
        ⟨amount, claimableAt, previousId, nextId⟩ =
      linked nodes id amount claimableAt previousId nextId := by
  funext j
  by_cases hj : j = id
  · simp [linked, Nodes.set, hj]
  · by_cases hjn : j = nextId
    · subst hjn
      simp [linked, Nodes.set, Nodes.setPrevious, Nodes.setNext, hj, hn, Ne.symm hne]
    · by_cases hjp : j = previousId
      · subst hjp
        simp [linked, Nodes.set, Nodes.setPrevious, Nodes.setNext, hj, hp, hne]
      · simp [linked, Nodes.set, Nodes.setPrevious, Nodes.setNext, hj, hjn, hjp]

/-- A queue whose first node is claimable late enough. -/
private theorem QueueOK.later (h : QueueOK nodes queue (l₁ ++ l₂))
    (hfirst : l₂.headD 0 = 0 ∨ claimableAt ≤ (nodes (l₂.headD 0)).claimableAt) :
    ∀ j ∈ l₂, claimableAt ≤ (nodes j).claimableAt := by
  cases l₂ with
  | nil => simp
  | cons k rest =>
      have hk : k ≠ 0 := fun h0 => h.nonzero (by simp [h0])
      have hle : claimableAt ≤ (nodes k).claimableAt := by simpa [hk] using hfirst
      have hsorted := List.pairwise_cons.mp (List.pairwise_append.mp h.sorted).2.1
      intro j hj
      cases List.mem_cons.mp hj with
      | inl hj => rw [hj]; exact hle
      | inr hj => exact hle.trans (hsorted.1 j hj)

/-- A queue whose last node is claimable early enough. -/
private theorem QueueOK.earlier (h : QueueOK nodes queue (l₁ ++ l₂))
    (hlast : l₁.getLastD 0 = 0 ∨ (nodes (l₁.getLastD 0)).claimableAt ≤ claimableAt) :
    ∀ j ∈ l₁, (nodes j).claimableAt ≤ claimableAt := by
  cases List.eq_nil_or_concat l₁ with
  | inl hnil => simp [hnil]
  | inr hconcat =>
      obtain ⟨init, k, rfl⟩ := hconcat
      rw [List.concat_eq_append, List.getLastD_concat] at hlast
      have hk : k ≠ 0 := fun h0 => h.nonzero (by simp [h0])
      have hle : (nodes k).claimableAt ≤ claimableAt := by simpa [hk] using hlast
      have hsorted := (List.pairwise_append.mp h.sorted).1
      rw [List.concat_eq_append, List.pairwise_append] at hsorted
      intro j hj
      rw [List.concat_eq_append] at hj
      cases List.mem_append.mp hj with
      | inl hj => exact (hsorted.2.2 j hj k (by simp)).trans hle
      | inr hj => rw [List.mem_singleton.mp hj]; exact hle

/-! ### The scan -/

/-- Where the scan stands: everything behind is claimable later. -/
private def Scanned (nodes : Nodes) (ids : List Nat) (claimableAt n currentId : Nat) : Prop :=
  ∃ l₁ l₂, ids = l₁ ++ l₂ ∧ currentId = l₁.getLastD 0 ∧ n = l₁.length ∧
    ∀ j ∈ l₂, claimableAt < (nodes j).claimableAt

private theorem Scanned.round (h : QueueOK nodes queue ids) {n currentId : Nat}
    (hs : Scanned nodes ids claimableAt n currentId)
    (hgo : (currentId ≠ 0 && claimableAt < (nodes currentId).claimableAt) = true) :
    ∃ m < n, Scanned nodes ids claimableAt m (nodes currentId).previous := by
  obtain ⟨l₁, l₂, hids, hcurrent, hn, hlater⟩ := hs
  rw [Bool.and_eq_true, decide_eq_true_eq, decide_eq_true_eq] at hgo
  cases List.eq_nil_or_concat l₁ with
  | inl hnil =>
      rw [hnil] at hcurrent
      exact absurd hcurrent hgo.1
  | inr hconcat =>
      obtain ⟨init, k, rfl⟩ := hconcat
      rw [List.concat_eq_append] at hids hcurrent hn
      rw [List.getLastD_concat] at hcurrent
      subst hcurrent
      have hids' : ids = init ++ currentId :: l₂ := by simp [hids]
      have hlinks := h.links
      rw [hids'] at hlinks
      refine ⟨init.length, by simp [hn], init, currentId :: l₂, hids', hlinks.links.1, rfl, ?_⟩
      intro j hj
      cases List.mem_cons.mp hj with
      | inl hj => rw [hj]; exact hgo.2
      | inr hj => exact hlater j hj

/-- The scan finds the place of the new node. -/
theorem scan_ok (h : QueueOK nodes queue ids) {gas currentId : Nat}
    (hscan : scan nodes claimableAt gas queue.tail = some currentId) :
    ∃ l₁ l₂, ids = l₁ ++ l₂ ∧ currentId = l₁.getLastD 0 ∧
      (∀ j ∈ l₁, (nodes j).claimableAt ≤ claimableAt) ∧
      ∀ j ∈ l₂, claimableAt ≤ (nodes j).claimableAt := by
  have hstart : Scanned nodes ids claimableAt ids.length queue.tail :=
    ⟨ids, [], by simp, h.tail, rfl, by simp⟩
  obtain ⟨⟨n, l₁, l₂, hids, hcurrent, -, hlater⟩, hstop⟩ :=
    Loop.iterate_invariant (I := fun s => ∃ n, Scanned nodes ids claimableAt n s)
      (fun s ⟨n, hs⟩ hgo => let ⟨m, _, hm⟩ := hs.round h hgo; ⟨m, hm⟩) hscan ⟨_, hstart⟩
  subst hids
  refine ⟨l₁, l₂, rfl, hcurrent, h.earlier ?_, fun j hj => (hlater j hj).le⟩
  -- the scan stopped at the last node of `l₁`, and the queue is sorted up to it
  rw [← hcurrent]
  by_cases h0 : currentId = 0
  · exact .inl h0
  · exact .inr (by simpa [h0] using hstop)

/-- A scan with gas for the whole queue does not run out. -/
theorem scan_terminates (h : QueueOK nodes queue ids) {gas : Nat} (hgas : ids.length ≤ gas) :
    ∃ currentId, scan nodes claimableAt gas queue.tail = some currentId :=
  Loop.iterate_terminates (I := Scanned nodes ids claimableAt)
    (fun _ _ hs hgo => hs.round h hgo) ⟨ids, [], by simp, h.tail, rfl, by simp⟩ hgas

/-! ### The two insertions -/

private theorem QueueOK.nil_of_head (h : QueueOK nodes queue ids) (h0 : queue.head = 0) :
    ids = [] := by
  cases ids with
  | nil => rfl
  | cons k rest =>
      have hk : k = 0 := by rw [← h0, h.head]; rfl
      exact absurd (by simp [hk]) h.nonzero

private theorem QueueOK.tail_split (h : QueueOK nodes queue (l₁ ++ l₂)) (hl₁ : l₁ ≠ [])
    (htail : l₁.getLastD 0 = queue.tail) : l₂ = [] := by
  cases List.eq_nil_or_concat l₂ with
  | inl hnil => exact hnil
  | inr hconcat =>
      obtain ⟨init, k, rfl⟩ := hconcat
      obtain ⟨init', j, rfl⟩ := (List.eq_nil_or_concat l₁).resolve_left hl₁
      rw [h.tail, List.concat_eq_append, List.concat_eq_append, ← List.append_assoc,
        List.getLastD_concat, List.getLastD_concat] at htail
      have hdisjoint := (List.nodup_append.mp h.nodup).2.2
      exact absurd htail (hdisjoint j (by simp) k (by simp))

/-- The links around a split of the queue. -/
private theorem QueueOK.around (h : QueueOK nodes queue (l₁ ++ l₂)) (hl₁ : l₁ ≠ []) :
    (nodes (l₁.getLastD 0)).next = l₂.headD 0 ∧ (l₂ ≠ [] → l₁.getLastD 0 ≠ l₂.headD 0) := by
  obtain ⟨init, k, rfl⟩ := (List.eq_nil_or_concat l₁).resolve_left hl₁
  rw [List.concat_eq_append, List.getLastD_concat]
  rw [List.concat_eq_append, List.append_assoc, List.singleton_append] at h
  refine ⟨h.links.links.2, ?_⟩
  intro hl₂
  obtain ⟨j, rest, rfl⟩ := List.exists_cons_of_ne_nil hl₂
  have hnodup := (List.nodup_append.mp h.nodup).2.1
  intro hkj
  exact (List.nodup_cons.mp hnodup).1 (by simp [hkj])

theorem insertSorted_ok (h : QueueOK nodes queue ids) (hfresh : id ∉ ids)
    {gas : Nat} (hok : insertSorted nodes queue id amount claimableAt gas = .ok (nodes', queue')) :
    ∃ l₁ l₂, ids = l₁ ++ l₂ ∧ Inserted nodes nodes' queue' l₁ l₂ id amount claimableAt := by
  suffices hsuff : ∃ l₁ l₂, ids = l₁ ++ l₂ ∧
      (∀ j ∈ l₁, (nodes j).claimableAt ≤ claimableAt) ∧
      (∀ j ∈ l₂, claimableAt ≤ (nodes j).claimableAt) ∧
      linked nodes id amount claimableAt (l₁.getLastD 0) (l₂.headD 0) = nodes' ∧
      linkedQueue queue id (l₁.getLastD 0) (l₂.headD 0) = queue' by
    obtain ⟨l₁, l₂, rfl, hearlier, hlater, rfl, rfl⟩ := hsuff
    exact ⟨l₁, l₂, rfl, inserted_linked h hfresh hearlier hlater⟩
  unfold insertSorted at hok
  dsimp only at hok
  by_cases hhead : queue.head = 0
  · -- an empty queue
    rw [if_pos hhead, Except.ok.injEq, Prod.mk.injEq] at hok
    refine ⟨[], [], h.nil_of_head hhead, by simp, by simp, ?_, ?_⟩
    · rw [← hok.1]
      exact set_eq_linked.symm
    · rw [← hok.2]
      rfl
  · rw [if_neg hhead] at hok
    split at hok
    next => cases hok
    next currentId hscan =>
      obtain ⟨l₁, l₂, rfl, hcurrent, hearlier, hlater⟩ := scan_ok h hscan
      refine ⟨l₁, l₂, rfl, hearlier, hlater, ?_⟩
      rw [hcurrent] at hok
      by_cases hl₁ : l₁ = []
      · -- in front of the head
        subst hl₁
        have hl₂ : l₂ ≠ [] := by
          intro hnil
          exact hhead (by rw [h.head, hnil]; rfl)
        have hnext : queue.head = l₂.headD 0 := h.head
        have htail : (0 : Nat) ≠ queue.tail := by
          rw [h.tail]
          have h' : QueueOK nodes queue (l₂ ++ []) := by simpa using h
          exact fun h0 => hl₂ (h'.last_eq_zero.mp h0.symm)
        rw [if_neg (by simpa using htail), if_pos (by rfl), Except.ok.injEq, Prod.mk.injEq] at hok
        rw [← hok.1, ← hok.2, ← hnext]
        exact ⟨(setPrevious_eq_linked hhead).symm, by simp [linkedQueue, hhead]⟩
      · have hlast : l₁.getLastD 0 ≠ 0 := fun h0 => hl₁ (h.last_eq_zero.mp h0)
        obtain ⟨hnext, hne⟩ := h.around hl₁
        by_cases hl₂ : l₂ = []
        · -- behind the tail
          subst hl₂
          have htail : l₁.getLastD 0 = queue.tail := by rw [h.tail, List.append_nil]
          rw [if_pos htail, Except.ok.injEq, Prod.mk.injEq] at hok
          rw [← hok.1, ← hok.2, ← htail]
          exact ⟨(setNext_eq_linked hlast).symm, by rw [linkedQueue, if_neg hlast]; rfl⟩
        · -- in the middle
          have hfirst : l₂.headD 0 ≠ 0 := fun h0 => hl₂ (h.first_eq_zero.mp h0)
          have htail : l₁.getLastD 0 ≠ queue.tail := fun heq => hl₂ (h.tail_split hl₁ heq)
          rw [if_neg htail, if_neg hlast, hnext, Except.ok.injEq, Prod.mk.injEq] at hok
          rw [← hok.1, ← hok.2]
          exact ⟨(setBoth_eq_linked hlast hfirst (hne hl₂)).symm,
            by rw [linkedQueue, if_neg hlast, if_neg hfirst]⟩

/-- A position the caller may name splits the queue behind it. -/
private theorem QueueOK.position (h : QueueOK nodes queue ids) {previousId : Nat}
    (hp : previousId ≠ 0 → 0 < (nodes previousId).claimableAt) :
    ∃ l₁ l₂, ids = l₁ ++ l₂ ∧ previousId = l₁.getLastD 0 ∧
      (if previousId = 0 then queue.head else (nodes previousId).next) = l₂.headD 0 := by
  by_cases h0 : previousId = 0
  · exact ⟨[], ids, rfl, h0, by rw [if_pos h0, h.head]⟩
  · have hmem : previousId ∈ ids := by
      by_contra hc
      have hpos := hp h0
      rw [h.unused previousId hc] at hpos
      exact absurd hpos (Nat.lt_irrefl 0)
    obtain ⟨init, l₂, hids⟩ := List.append_of_mem hmem
    have hlinks := h.links
    rw [hids] at hlinks
    refine ⟨init ++ [previousId], l₂, by simp [hids], by rw [List.getLastD_concat], ?_⟩
    rw [if_neg h0]
    exact hlinks.links.2

theorem insertAtPosition_ok (h : QueueOK nodes queue ids) (hfresh : id ∉ ids)
    {previousId : Nat}
    (hok : insertAtPosition nodes queue id amount claimableAt previousId = .ok (nodes', queue')) :
    ∃ l₁ l₂, ids = l₁ ++ l₂ ∧ Inserted nodes nodes' queue' l₁ l₂ id amount claimableAt := by
  unfold insertAtPosition at hok
  obtain ⟨nextId, hnextId, hok⟩ := bind_eq_ok.mp hok
  -- what the code checked of the position
  have hchecked : nextId = (if previousId = 0 then queue.head else (nodes previousId).next) ∧
      (previousId ≠ 0 → 0 < (nodes previousId).claimableAt ∧
        (nodes previousId).claimableAt ≤ claimableAt) := by
    unfold checkPosition at hnextId
    by_cases h0 : previousId = 0
    · rw [if_pos h0] at hnextId
      exact ⟨by rw [if_pos h0]; exact (pure_eq_ok.mp hnextId).symm, fun hc => absurd h0 hc⟩
    · rw [if_neg h0] at hnextId
      obtain ⟨_, hpos, hnextId⟩ := bind_eq_ok.mp hnextId
      obtain ⟨_, hle, hnextId⟩ := bind_eq_ok.mp hnextId
      rw [require_eq_ok, decide_eq_true_eq] at hpos hle
      exact ⟨by rw [if_neg h0]; exact (pure_eq_ok.mp hnextId).symm, fun _ => ⟨hpos, hle⟩⟩
  obtain ⟨hnext, hprevious⟩ := hchecked
  obtain ⟨l₁, l₂, rfl, hlast, hfirst⟩ := h.position fun h0 => (hprevious h0).1
  rw [hfirst] at hnext
  obtain ⟨_, hordered, hok⟩ := bind_eq_ok.mp hok
  have hordered : nextId = 0 ∨ claimableAt ≤ (nodes nextId).claimableAt := by
    simpa [require_eq_ok] using hordered
  have heq := pure_eq_ok.mp hok
  rw [Prod.mk.injEq] at heq
  -- neither neighbour is the new node
  have hpid : previousId ≠ 0 → previousId ≠ id := by
    intro h0 heq
    exact hfresh (List.mem_append_left _ (getLastD_mem (heq ▸ hlast) (heq ▸ h0)))
  have hnid : nextId ≠ 0 → nextId ≠ id := by
    intro h0 heq
    exact hfresh (List.mem_append_right _ (headD_mem (heq ▸ hnext) (heq ▸ h0)))
  have hwrites : linked nodes id amount claimableAt previousId nextId = nodes' ∧
      linkedQueue queue id previousId nextId = queue' := by
    rw [← heq.1, ← heq.2]
    by_cases hp : previousId = 0
    · by_cases hn : nextId = 0
      · simp [hp, hn, set_eq_linked, linkedQueue]
      · simp [hp, hn, setPrevious_set _ (hnid hn), setPrevious_eq_linked hn, linkedQueue]
    · by_cases hn : nextId = 0
      · simp [hp, hn, setNext_set _ (hpid hp), setNext_eq_linked hp, linkedQueue]
      · have hl₁ : l₁ ≠ [] := fun hnil => hp (by rw [hlast, hnil]; rfl)
        have hl₂ : l₂ ≠ [] := fun hnil => hn (by rw [hnext, hnil]; rfl)
        have hne : previousId ≠ nextId := by
          rw [hlast, hnext]
          exact (h.around hl₁).2 hl₂
        simp [hp, hn, setNext_set _ (hpid hp), setPrevious_set _ (hnid hn),
          setBoth_eq_linked hp hn hne, linkedQueue]
  refine ⟨l₁, l₂, rfl, ?_⟩
  rw [← hwrites.1, ← hwrites.2, hlast, hnext]
  refine inserted_linked h hfresh (h.earlier ?_) (h.later ?_)
  · rw [← hlast]
    by_cases h0 : previousId = 0
    · exact .inl h0
    · exact .inr (hprevious h0).2
  · rw [← hnext]
    exact hordered

/-! ### Claiming and listing -/

/-- Taking the head off a queue leaves the rest of it. -/
theorem QueueOK.removeHead {head : Nat} (h : QueueOK nodes queue (head :: ids)) :
    QueueOK (removeHead nodes queue).1 (removeHead nodes queue).2 ids ∧
      ∀ j ∈ ids, ((Staking.removeHead nodes queue).1 j).amount = (nodes j).amount ∧
        ((Staking.removeHead nodes queue).1 j).claimableAt = (nodes j).claimableAt := by
  have hhead : queue.head = head := h.head
  have hnext : (nodes head).next = ids.headD 0 := h.links.2.1
  have hnodup := List.nodup_cons.mp h.nodup
  have hmem : ∀ j ∈ ids, j ≠ head := fun j hj heq => hnodup.1 (heq ▸ hj)
  have hnodes : ∀ j, (Staking.removeHead nodes queue).1 j =
      if j = head then emptyNode
      else ⟨(nodes j).amount, (nodes j).claimableAt,
        if j = ids.headD 0 ∧ j ≠ 0 then 0 else (nodes j).previous, (nodes j).next⟩ := by
    intro j
    unfold Staking.removeHead
    dsimp only
    rw [hhead, hnext]
    by_cases hj : j = head
    · by_cases h0 : ids.headD 0 = 0
      · simp only [if_pos h0, hj, Nodes.set, Function.update_self, if_true]
      · simp only [if_neg h0, hj, Nodes.set, Function.update_self, if_true]
    · by_cases h0 : ids.headD 0 = 0
      · have hc : ¬ (j = ids.headD 0 ∧ j ≠ 0) := fun hc => hc.2 (hc.1.trans h0)
        simp only [if_pos h0, if_neg hj, if_neg hc, Nodes.set, Function.update_of_ne hj]
      · simp only [if_neg h0, if_neg hj, Nodes.set, Function.update_of_ne hj, Nodes.setPrevious]
        by_cases hjn : j = ids.headD 0
        · subst hjn
          rw [Function.update_self, if_pos ⟨rfl, h0⟩]
        · rw [Function.update_of_ne hjn, if_neg fun hc => hjn hc.1]
  have hkept : ∀ j ∈ ids, (Staking.removeHead nodes queue).1 j =
      ⟨(nodes j).amount, (nodes j).claimableAt,
        if j = ids.headD 0 then 0 else (nodes j).previous, (nodes j).next⟩ := by
    intro j hj
    have h0 : j ≠ 0 := fun heq => h.nonzero (by simp [← heq, hj])
    rw [hnodes, if_neg (hmem j hj)]
    simp only [h0, ne_eq, not_false_eq_true, and_true]
  refine ⟨⟨?_, ?_, ?_, hnodup.2, fun h0 => h.nonzero (by simp [h0]), ?_, ?_⟩, ?_⟩
  · refine h.links.2.2.relink_first hnodup.2 ?_ ?_
    · intro j hj
      simp only [hkept j hj]
    · intro j hj
      simp only [hkept j hj]
  · unfold Staking.removeHead
    dsimp only
    rw [hhead, hnext]
    by_cases h0 : ids.headD 0 = 0
    · rw [if_pos h0, h0]
    · rw [if_neg h0]
  · have htail := h.tail
    unfold Staking.removeHead
    dsimp only
    rw [hhead, hnext]
    cases ids with
    | nil => rfl
    | cons k rest =>
        have hk : k ≠ 0 := fun h0 => h.nonzero (by simp [h0])
        rw [if_neg (by simpa using hk)]
        exact htail.trans (getLastD_append_cons [head] rest k)
  · refine (List.pairwise_cons.mp h.sorted).2.imp_of_mem ?_
    intro a b ha hb hab
    rwa [hkept a ha, hkept b hb]
  · intro j hj
    rw [hnodes]
    by_cases hjh : j = head
    · rw [if_pos hjh]
    · rw [if_neg hjh, if_neg fun hc => hj (headD_mem hc.1 hc.2),
        h.unused j (by simp [hjh, hj])]
  · intro j hj
    rw [hkept j hj]
    exact ⟨rfl, rfl⟩

/-- What the view answers for one node. -/
def info (nodes : Nodes) (id : Nat) : WithdrawalInfo := ⟨(nodes id).amount, (nodes id).claimableAt⟩

private theorem collect_eq {before : Nat}
    (h : Segment (fun id => (nodes id).next) (fun id => (nodes id).previous) before ids 0) :
    collect nodes ids.length (ids.headD 0) = ids.map (info nodes) := by
  induction ids generalizing before with
  | nil => rfl
  | cons k rest ih =>
      obtain ⟨-, hnext, hrest⟩ := h
      have hnext : (nodes k).next = rest.headD 0 := hnext
      rw [List.map_cons, ← ih hrest, ← hnext]
      rfl

/-- The view answers with the whole queue, given the gas to walk along it. -/
theorem getPendingWithdrawals_eq {s : State} {staker : Address} {gas : Nat}
    (h : QueueOK (s.withdrawalNodes staker) (s.withdrawalQueues staker) ids)
    (hgas : ids.length ≤ gas) :
    getPendingWithdrawals s gas staker = some (ids.map (info (s.withdrawalNodes staker))) := by
  unfold getPendingWithdrawals
  by_cases h0 : (s.withdrawalQueues staker).head = 0
  · rw [if_pos h0, h.nil_of_head h0]
    rfl
  · rw [if_neg h0]
    -- the counting loop stands before `l₂` and has counted `l₁`
    let Counted (n : Nat) (loop : Nat × Nat) : Prop :=
      ∃ l₁ l₂, ids = l₁ ++ l₂ ∧ loop = (l₁.length, l₂.headD 0) ∧ n = l₂.length
    have hround : ∀ n loop, Counted n loop → decide (loop.2 ≠ 0) = true →
        ∃ m < n, Counted m (loop.1 + 1, (s.withdrawalNodes staker loop.2).next) := by
      intro n loop hloop hgo
      obtain ⟨l₁, l₂, hids, rfl, rfl⟩ := hloop
      rw [decide_eq_true_eq] at hgo
      cases l₂ with
      | nil => exact absurd rfl hgo
      | cons k rest =>
          have hlinks := h.links
          rw [hids] at hlinks
          refine ⟨rest.length, by simp, l₁ ++ [k], rest, by simp [hids], ?_, rfl⟩
          rw [List.length_append, List.length_singleton, List.headD_cons]
          exact congrArg _ hlinks.links.2
    have hstart : Counted ids.length (0, (s.withdrawalQueues staker).head) :=
      ⟨[], ids, rfl, by rw [h.head]; rfl, rfl⟩
    obtain ⟨loop, hloop⟩ := Loop.iterate_terminates (I := Counted) hround hstart hgas
    obtain ⟨⟨_, l₁, l₂, hids, rfl, -⟩, hstop⟩ :=
      Loop.iterate_invariant (I := fun loop => ∃ n, Counted n loop)
        (fun loop ⟨n, hl⟩ hgo => let ⟨m, _, hm⟩ := hround n loop hl hgo; ⟨m, hm⟩) hloop ⟨_, hstart⟩
    have hl₂ : l₂ = [] := by
      have hok := h
      rw [hids] at hok
      exact hok.first_eq_zero.mp (by simpa using hstop)
    rw [hloop, Option.map_some, h.head]
    dsimp only
    rw [hl₂, List.append_nil] at hids
    rw [← hids, collect_eq h.links]

/-! ### What a call that returns does -/

variable {keccak256 : Keccak} {deployment : Deployment} {env : Env} {world world' : World}
  {s s' : State} {events : List Event}

/-- Everything about stakes and withdrawals is the same. -/
structure SameBooks (s s' : State) : Prop where
  stakes : s'.stakes = s.stakes
  stakers : s'.totalStakerStakes = s.totalStakerStakes
  validators : s'.totalValidatorStakes = s.totalValidatorStakes
  staked : s'.totalStakedAmount = s.totalStakedAmount
  pending : s'.totalPendingWithdrawals = s.totalPendingWithdrawals
  nextId : s'.nextWithdrawalId = s.nextWithdrawalId
  queues : s'.withdrawalQueues = s.withdrawalQueues
  nodes : s'.withdrawalNodes = s.withdrawalNodes

/-- The time a withdrawal initiated now becomes claimable: the sum is cast to a `uint128`. -/
def claimTime (env : Env) (s : State) : Nat := (env.timestamp + s.withdrawDelay) % 2 ^ 128

/-- The books after a withdrawal was initiated, its node apart. -/
def State.withdraw (s : State) (user validator : Address) (amount : Nat) : State :=
  { s with
    stakes := Function.update s.stakes user (Ledger.debit (s.stakes user) validator amount)
    totalValidatorStakes := Ledger.debit s.totalValidatorStakes validator amount
    totalStakerStakes := Ledger.debit s.totalStakerStakes user amount
    totalStakedAmount := s.totalStakedAmount - amount
    totalPendingWithdrawals := s.totalPendingWithdrawals + amount
    nextWithdrawalId := s.nextWithdrawalId + 1 }

/-- The books after tokens were staked. -/
def State.deposit (s : State) (staker validator : Address) (amount : Nat) : State :=
  { s with
    stakes := Function.update s.stakes staker (Ledger.credit (s.stakes staker) validator amount)
    totalValidatorStakes := Ledger.credit s.totalValidatorStakes validator amount
    totalStakerStakes := Ledger.credit s.totalStakerStakes staker amount
    totalStakedAmount := s.totalStakedAmount + amount }

/-- An event that is about no withdrawal. -/
def Event.quiet : Event → Bool
  | .withdrawalInitiated .. | .withdrawalClaimed .. => false
  | _ => true

/-- A call that returned, with the world and the events it leaves. -/
inductive Returns (deployment : Deployment) (env : Env) (world : World) :
    World → List Event → Prop
  | staked {validator : Address} {amount : Nat} {token : ERC20.T}
      (hamount : amount ≠ 0)
      (htoken : ERC20.transferFrom world.token deployment.this env.sender deployment.this amount =
        .ok token) :
      Returns deployment env world ⟨world.staking.deposit env.sender validator amount, token⟩
        [.stakeIncreased env.sender validator amount]
  | initiated {validator : Address} {amount : Nat} {nodes : Nodes} {queue : WithdrawalQueue}
      (hstake : amount ≤ world.staking.stakes env.sender validator)
      (hstaked : amount ≤ world.staking.totalStakedAmount)
      (hinsert :
        (∃ gas, insertSorted (world.staking.withdrawalNodes env.sender)
          (world.staking.withdrawalQueues env.sender) world.staking.nextWithdrawalId amount
          (claimTime env world.staking) gas = .ok (nodes, queue)) ∨
        (∃ previousId, insertAtPosition (world.staking.withdrawalNodes env.sender)
          (world.staking.withdrawalQueues env.sender) world.staking.nextWithdrawalId amount
          (claimTime env world.staking) previousId = .ok (nodes, queue))) :
      Returns deployment env world
        { world with staking :=
          (world.staking.withdraw env.sender validator amount).setQueue env.sender nodes queue }
        [.withdrawalInitiated env.sender validator world.staking.nextWithdrawalId amount]
  | claimed {token : ERC20.T}
      (hhead : (world.staking.withdrawalQueues env.sender).head ≠ 0)
      (hdue : (world.staking.withdrawalNodes env.sender
        (world.staking.withdrawalQueues env.sender).head).claimableAt ≤ env.timestamp)
      (htoken : ERC20.transfer world.token deployment.this env.sender
        (world.staking.withdrawalNodes env.sender
          (world.staking.withdrawalQueues env.sender).head).amount = .ok token) :
      Returns deployment env world
        { token
          staking := { world.staking.setQueue env.sender
              (removeHead (world.staking.withdrawalNodes env.sender)
                (world.staking.withdrawalQueues env.sender)).1
              (removeHead (world.staking.withdrawalNodes env.sender)
                (world.staking.withdrawalQueues env.sender)).2 with
            totalPendingWithdrawals := world.staking.totalPendingWithdrawals -
              (world.staking.withdrawalNodes env.sender
                (world.staking.withdrawalQueues env.sender).head).amount } }
        [.withdrawalClaimed env.sender (world.staking.withdrawalQueues env.sender).head
          (world.staking.withdrawalNodes env.sender
            (world.staking.withdrawalQueues env.sender).head).amount]
  | recovered {safeToken recipient : Address} {amount : Nat} {token : ERC20.T}
      (hamount : amount + world.staking.totalPendingWithdrawals + world.staking.totalStakedAmount =
        world.token.balances deployment.this)
      (htoken : ERC20.transfer world.token deployment.this recipient amount = .ok token) :
      Returns deployment env world { world with token }
        [.tokensRecovered safeToken recipient amount]
  | other {s : State} {events : List Event} (hsame : SameBooks world.staking s)
      (hquiet : ∀ event ∈ events, event.quiet = true) :
      Returns deployment env world { world with staking := s } events

private theorem stake_ok {validator : Address}
    (h : stake deployment env world validator amount = .ok (world', events)) :
    Returns deployment env world world' events := by
  unfold stake at h
  dsimp only at h
  obtain ⟨_, hamount, h⟩ := bind_eq_ok.mp h
  obtain ⟨_, -, h⟩ := bind_eq_ok.mp h
  obtain ⟨_, -, h⟩ := bind_eq_ok.mp h
  obtain ⟨_, h₁, h⟩ := bind_eq_ok.mp h
  obtain ⟨_, h₂, h⟩ := bind_eq_ok.mp h
  obtain ⟨_, h₃, h⟩ := bind_eq_ok.mp h
  obtain ⟨_, h₄, h⟩ := bind_eq_ok.mp h
  obtain ⟨token, htoken, h⟩ := bind_eq_ok.mp h
  rw [require_eq_ok, decide_eq_true_eq] at hamount
  rw [mapError_eq_ok] at htoken
  obtain ⟨-, rfl⟩ := checkedAdd_ok.mp h₁
  obtain ⟨-, rfl⟩ := checkedAdd_ok.mp h₂
  obtain ⟨-, rfl⟩ := checkedAdd_ok.mp h₃
  obtain ⟨-, rfl⟩ := checkedAdd_ok.mp h₄
  have heq := pure_eq_ok.mp h
  rw [Prod.mk.injEq] at heq
  obtain ⟨rfl, rfl⟩ := heq
  exact .staked hamount htoken

private theorem initiateWithdrawal_shared_ok {user validator : Address} {withdrawalId : Nat}
    (h : _initiateWithdrawal env s user amount validator = .ok (s', withdrawalId, claimableAt, events)) :
    s' = s.withdraw user validator amount ∧ withdrawalId = s.nextWithdrawalId ∧
      claimableAt = claimTime env s ∧ amount ≤ s.stakes user validator ∧
      amount ≤ s.totalStakedAmount ∧
      events = [.withdrawalInitiated user validator s.nextWithdrawalId amount] := by
  unfold _initiateWithdrawal at h
  obtain ⟨_, -, h⟩ := bind_eq_ok.mp h
  obtain ⟨_, hstake, h⟩ := bind_eq_ok.mp h
  obtain ⟨_, htime, h⟩ := bind_eq_ok.mp h
  obtain ⟨_, h₁, h⟩ := bind_eq_ok.mp h
  obtain ⟨_, h₂, h⟩ := bind_eq_ok.mp h
  obtain ⟨_, h₃, h⟩ := bind_eq_ok.mp h
  obtain ⟨_, h₄, h⟩ := bind_eq_ok.mp h
  obtain ⟨_, h₅, h⟩ := bind_eq_ok.mp h
  obtain ⟨_, h₆, h⟩ := bind_eq_ok.mp h
  rw [require_eq_ok, decide_eq_true_eq] at hstake
  obtain ⟨-, rfl⟩ := checkedAdd_ok.mp htime
  obtain ⟨-, rfl⟩ := checkedSub_ok.mp h₁
  obtain ⟨-, rfl⟩ := checkedSub_ok.mp h₂
  obtain ⟨-, rfl⟩ := checkedSub_ok.mp h₃
  obtain ⟨hstaked, rfl⟩ := checkedSub_ok.mp h₄
  obtain ⟨-, rfl⟩ := checkedAdd_ok.mp h₅
  obtain ⟨-, rfl⟩ := checkedAdd_ok.mp h₆
  have heq := pure_eq_ok.mp h
  simp only [Prod.mk.injEq] at heq
  obtain ⟨rfl, rfl, rfl, rfl⟩ := heq
  exact ⟨rfl, rfl, rfl, hstake, hstaked, rfl⟩

private theorem initiateWithdrawal_ok {validator : Address} {gas : Nat}
    (h : initiateWithdrawal env world validator amount gas = .ok (world', events)) :
    Returns deployment env world world' events := by
  unfold initiateWithdrawal at h
  dsimp only at h
  obtain ⟨⟨s', withdrawalId, claimableAt, events'⟩, hshared, h⟩ := bind_eq_ok.mp h
  obtain ⟨rfl, rfl, rfl, hstake, hstaked, rfl⟩ := initiateWithdrawal_shared_ok hshared
  obtain ⟨⟨nodes, queue⟩, hinsert, h⟩ := bind_eq_ok.mp h
  have heq := pure_eq_ok.mp h
  rw [Prod.mk.injEq] at heq
  obtain ⟨rfl, rfl⟩ := heq
  exact .initiated hstake hstaked (.inl ⟨gas, hinsert⟩)

private theorem initiateWithdrawalAtPosition_ok {validator : Address} {previousId : Nat}
    (h : initiateWithdrawalAtPosition env world validator amount previousId =
      .ok (world', events)) :
    Returns deployment env world world' events := by
  unfold initiateWithdrawalAtPosition at h
  dsimp only at h
  obtain ⟨⟨s', withdrawalId, claimableAt, events'⟩, hshared, h⟩ := bind_eq_ok.mp h
  obtain ⟨rfl, rfl, rfl, hstake, hstaked, rfl⟩ := initiateWithdrawal_shared_ok hshared
  obtain ⟨⟨nodes, queue⟩, hinsert, h⟩ := bind_eq_ok.mp h
  have heq := pure_eq_ok.mp h
  rw [Prod.mk.injEq] at heq
  obtain ⟨rfl, rfl⟩ := heq
  exact .initiated hstake hstaked (.inr ⟨previousId, hinsert⟩)

private theorem claimWithdrawal_ok
    (h : claimWithdrawal deployment env world = .ok (world', events)) :
    Returns deployment env world world' events := by
  unfold claimWithdrawal at h
  dsimp only at h
  obtain ⟨_, hhead, h⟩ := bind_eq_ok.mp h
  obtain ⟨_, hdue, h⟩ := bind_eq_ok.mp h
  obtain ⟨_, hpending, h⟩ := bind_eq_ok.mp h
  obtain ⟨token, htoken, h⟩ := bind_eq_ok.mp h
  rw [require_eq_ok, decide_eq_true_eq] at hhead hdue
  rw [mapError_eq_ok] at htoken
  obtain ⟨-, rfl⟩ := checkedSub_ok.mp hpending
  have heq := pure_eq_ok.mp h
  rw [Prod.mk.injEq] at heq
  obtain ⟨rfl, rfl⟩ := heq
  exact .claimed hhead hdue htoken

private theorem recoverTokens_ok {token recipient : Address} {balance : Nat}
    (h : recoverTokens deployment env world token recipient balance = .ok (world', events)) :
    Returns deployment env world world' events := by
  unfold recoverTokens at h
  dsimp only at h
  obtain ⟨_, -, h⟩ := bind_eq_ok.mp h
  obtain ⟨_, -, h⟩ := bind_eq_ok.mp h
  by_cases hsafe : token = deployment.safeToken
  · rw [if_pos hsafe] at h
    obtain ⟨_, h₁, h⟩ := bind_eq_ok.mp h
    obtain ⟨_, h₂, h⟩ := bind_eq_ok.mp h
    obtain ⟨_, -, h⟩ := bind_eq_ok.mp h
    obtain ⟨ledger, htoken, h⟩ := bind_eq_ok.mp h
    rw [mapError_eq_ok] at htoken
    obtain ⟨hle₁, rfl⟩ := checkedSub_ok.mp h₁
    obtain ⟨hle₂, rfl⟩ := checkedSub_ok.mp h₂
    have heq := pure_eq_ok.mp h
    rw [Prod.mk.injEq] at heq
    obtain ⟨rfl, rfl⟩ := heq
    refine .recovered ?_ htoken
    unfold ERC20.balanceOf at hle₁ hle₂ ⊢
    omega
  · rw [if_neg hsafe] at h
    obtain ⟨_, -, h⟩ := bind_eq_ok.mp h
    have heq := pure_eq_ok.mp h
    rw [Prod.mk.injEq] at heq
    obtain ⟨rfl, rfl⟩ := heq
    exact .other ⟨rfl, rfl, rfl, rfl, rfl, rfl, rfl, rfl⟩ (by simp [Event.quiet])

/-- A configuration call leaves the books alone. -/
private theorem onStaking_ok {result : Except Error (State × List Event)}
    (h : onStaking world result = .ok (world', events))
    (hresult : ∀ s events, result = .ok (s, events) →
      SameBooks world.staking s ∧ ∀ event ∈ events, event.quiet = true) :
    Returns deployment env world world' events := by
  cases result with
  | error e => cases h
  | ok r =>
      obtain ⟨s, events'⟩ := r
      obtain ⟨hsame, hquiet⟩ := hresult s events' rfl
      cases h
      exact .other hsame hquiet

private theorem updateValidators_quiet {isValidator isValidator' : Address → Bool}
    {validators : List Address} {isRegistration : List Bool}
    (h : updateValidators isValidator validators isRegistration = .ok (isValidator', events)) :
    ∀ event ∈ events, event.quiet = true := by
  induction validators generalizing isValidator isValidator' isRegistration events with
  | nil =>
      cases h
      simp
  | cons v validators ih =>
      cases isRegistration with
      | nil => cases h
      | cons b isRegistration =>
          unfold updateValidators at h
          obtain ⟨⟨_, events'⟩, hrest, h⟩ := bind_eq_ok.mp h
          have heq := pure_eq_ok.mp h
          rw [Prod.mk.injEq] at heq
          obtain ⟨-, rfl⟩ := heq
          intro event hevent
          cases List.mem_cons.mp hevent with
          | inl hevent => rw [hevent]; rfl
          | inr hevent => exact ih hrest event hevent

/-- What a call does that does not revert. -/
theorem call_ok {c : Call} (h : call keccak256 deployment env world c = .ok (world', events)) :
    Returns deployment env world world' events := by
  cases c with
  | stake validator amount => exact stake_ok h
  | initiateWithdrawal validator amount gas => exact initiateWithdrawal_ok h
  | initiateWithdrawalAtPosition validator amount previousId =>
      exact initiateWithdrawalAtPosition_ok h
  | claimWithdrawal => exact claimWithdrawal_ok h
  | recoverTokens token recipient balance => exact recoverTokens_ok h
  | proposeWithdrawDelay newDelay =>
      refine onStaking_ok h ?_
      intro s events h
      unfold proposeWithdrawDelay at h
      obtain ⟨_, -, h⟩ := bind_eq_ok.mp h
      obtain ⟨_, -, h⟩ := bind_eq_ok.mp h
      obtain ⟨_, -, h⟩ := bind_eq_ok.mp h
      obtain ⟨_, -, h⟩ := bind_eq_ok.mp h
      cases pure_eq_ok.mp h
      exact ⟨⟨rfl, rfl, rfl, rfl, rfl, rfl, rfl, rfl⟩, by simp [Event.quiet]⟩
  | proposeValidators validators isRegistration =>
      refine onStaking_ok h ?_
      intro s events h
      unfold proposeValidators at h
      obtain ⟨_, -, h⟩ := bind_eq_ok.mp h
      obtain ⟨_, -, h⟩ := bind_eq_ok.mp h
      obtain ⟨_, -, h⟩ := bind_eq_ok.mp h
      obtain ⟨_, -, h⟩ := bind_eq_ok.mp h
      obtain ⟨_, -, h⟩ := bind_eq_ok.mp h
      cases pure_eq_ok.mp h
      exact ⟨⟨rfl, rfl, rfl, rfl, rfl, rfl, rfl, rfl⟩, by simp [Event.quiet]⟩
  | executeWithdrawDelayChange =>
      refine onStaking_ok h ?_
      intro s events h
      unfold executeWithdrawDelayChange at h
      obtain ⟨_, -, h⟩ := bind_eq_ok.mp h
      obtain ⟨_, -, h⟩ := bind_eq_ok.mp h
      cases pure_eq_ok.mp h
      exact ⟨⟨rfl, rfl, rfl, rfl, rfl, rfl, rfl, rfl⟩, by simp [Event.quiet]⟩
  | executeValidatorChanges validators isRegistration executableAt =>
      refine onStaking_ok h ?_
      intro s events h
      unfold executeValidatorChanges at h
      obtain ⟨_, -, h⟩ := bind_eq_ok.mp h
      obtain ⟨_, -, h⟩ := bind_eq_ok.mp h
      obtain ⟨_, -, h⟩ := bind_eq_ok.mp h
      obtain ⟨_, -, h⟩ := bind_eq_ok.mp h
      obtain ⟨⟨_, _⟩, hupdate, h⟩ := bind_eq_ok.mp h
      cases pure_eq_ok.mp h
      exact ⟨⟨rfl, rfl, rfl, rfl, rfl, rfl, rfl, rfl⟩, updateValidators_quiet hupdate⟩
  | transferOwnership newOwner =>
      refine onStaking_ok h ?_
      intro s events h
      unfold transferOwnership at h
      obtain ⟨_, -, h⟩ := bind_eq_ok.mp h
      obtain ⟨_, -, h⟩ := bind_eq_ok.mp h
      cases pure_eq_ok.mp h
      exact ⟨⟨rfl, rfl, rfl, rfl, rfl, rfl, rfl, rfl⟩, by simp [Event.quiet]⟩
  | renounceOwnership =>
      refine onStaking_ok h ?_
      intro s events h
      unfold renounceOwnership at h
      obtain ⟨_, -, h⟩ := bind_eq_ok.mp h
      cases pure_eq_ok.mp h
      exact ⟨⟨rfl, rfl, rfl, rfl, rfl, rfl, rfl, rfl⟩, by simp [Event.quiet]⟩

/-! ### The history -/

/-- A withdrawal as it was initiated. -/
structure Withdrawal where
  id : Nat
  amount : Nat
  claimableAt : Nat
deriving DecidableEq, Repr

/-- A step of the contract and the token in a run. -/
abbrev StakingStep (deployment : Deployment) :=
  Trace.Step World (Input deployment) (Except Error (List Event))

/-- The events of a step; a reverted call has none. -/
def eventsOf (t : StakingStep deployment) : List Event :=
  match t.out with
  | .ok events => events
  | .error _ => []

/-- When a withdrawal initiated in this step becomes claimable. -/
def timeOf (t : StakingStep deployment) : Nat :=
  match t.input with
  | .call env _ => claimTime env t.pre.staking
  | .token .. => 0

/-- The withdrawal of the staker an event is about. -/
def Event.initiation (staker : Address) (time : Nat) : Event → Option Withdrawal
  | .withdrawalInitiated user _ id amount => if user = staker then some ⟨id, amount, time⟩ else none
  | _ => none

/-- The id of the withdrawal of the staker that an event says is claimed. -/
def Event.claim (staker : Address) : Event → Option Nat
  | .withdrawalClaimed user id _ => if user = staker then some id else none
  | _ => none

/-- The withdrawals the staker initiated, in order. -/
def initiated (history : List (StakingStep deployment)) (staker : Address) : List Withdrawal :=
  history.flatMap fun t => (eventsOf t).filterMap (Event.initiation staker (timeOf t))

/-- The ids of the withdrawals the staker claimed. -/
def claimed (history : List (StakingStep deployment)) (staker : Address) : List Nat :=
  history.flatMap fun t => (eventsOf t).filterMap (Event.claim staker)

/-- The withdrawals initiated and not claimed. -/
def outstanding (history : List (StakingStep deployment)) (staker : Address) : List Withdrawal :=
  (initiated history staker).filter fun w => w.id ∉ claimed history staker

variable {history : List (StakingStep deployment)} {t : StakingStep deployment}

private theorem initiated_concat (staker : Address) :
    initiated (history ++ [t]) staker =
      initiated history staker ++ (eventsOf t).filterMap (Event.initiation staker (timeOf t)) := by
  simp [initiated]

private theorem claimed_concat (staker : Address) :
    claimed (history ++ [t]) staker =
      claimed history staker ++ (eventsOf t).filterMap (Event.claim staker) := by
  simp [claimed]

/-- A step about no withdrawal of the staker. -/
private theorem outstanding_quiet {staker : Address}
    (hinit : ∀ e ∈ eventsOf t, e.initiation staker (timeOf t) = none)
    (hclaim : ∀ e ∈ eventsOf t, e.claim staker = none) :
    outstanding (history ++ [t]) staker = outstanding history staker ∧
      claimed (history ++ [t]) staker = claimed history staker := by
  have h₁ : (eventsOf t).filterMap (Event.initiation staker (timeOf t)) = [] :=
    List.filterMap_eq_nil_iff.mpr hinit
  have h₂ : (eventsOf t).filterMap (Event.claim staker) = [] :=
    List.filterMap_eq_nil_iff.mpr hclaim
  have hclaimed : claimed (history ++ [t]) staker = claimed history staker := by
    rw [claimed_concat, h₂, List.append_nil]
  refine ⟨?_, hclaimed⟩
  unfold outstanding
  rw [hclaimed, initiated_concat, h₁, List.append_nil]

private theorem quiet_events {e : Event} (h : e.quiet = true) (staker : Address) (time : Nat) :
    e.initiation staker time = none ∧ e.claim staker = none := by
  cases e <;> first | exact ⟨rfl, rfl⟩ | cases h

/-! ### The invariant -/

/-- The withdrawal a node stands for. -/
def entry (nodes : Nodes) (id : Nat) : Withdrawal := ⟨id, (nodes id).amount, (nodes id).claimableAt⟩

/-- The amount of a whole queue. -/
def queueTotal (nodes : Nodes) (ids : List Nat) : Nat := (ids.map fun id => (nodes id).amount).sum

/-- The storage, read with the queues `ids`, agrees with the history. -/
structure Sound (deployment : Deployment) (history : List (StakingStep deployment)) (world : World)
    (ids : Address → List Nat) : Prop where
  queues : ∀ a, QueueOK (world.staking.withdrawalNodes a) (world.staking.withdrawalQueues a) (ids a)
  apart : ∀ a b, a ≠ b → (ids a).Disjoint (ids b)
  fresh : ∀ a, ∀ id ∈ ids a, id < world.staking.nextWithdrawalId
  started : 0 < world.staking.nextWithdrawalId
  past : ∀ a, ∀ id ∈ claimed history a, id < world.staking.nextWithdrawalId
  recorded : ∀ a, ((ids a).map (entry (world.staking.withdrawalNodes a))).Perm (outstanding history a)
  pending : ∑ a, queueTotal (world.staking.withdrawalNodes a) (ids a) =
    world.staking.totalPendingWithdrawals
  books : Ledger.Balanced world.staking.stakes world.staking.totalStakerStakes
    world.staking.totalValidatorStakes world.staking.totalStakedAmount
  allowance : ∀ spender, world.token.allowances deployment.this spender = 0
  solvent : world.staking.totalStakedAmount + world.staking.totalPendingWithdrawals ≤
    world.token.balances deployment.this

variable {queueOf : Address → List Nat}

/-- A step that leaves the stakes and the queues alone. -/
private theorem Sound.keep (h : Sound deployment history world queueOf)
    (hsame : SameBooks world.staking world'.staking)
    (hquiet : ∀ e ∈ eventsOf t, e.quiet = true)
    (hallowance : ∀ spender, world'.token.allowances deployment.this spender = 0)
    (hsolvent : world.staking.totalStakedAmount + world.staking.totalPendingWithdrawals ≤
      world'.token.balances deployment.this) :
    Sound deployment (history ++ [t]) world' queueOf := by
  have hhistory : ∀ a, outstanding (history ++ [t]) a = outstanding history a ∧
      claimed (history ++ [t]) a = claimed history a := fun a =>
    outstanding_quiet (fun e he => (quiet_events (hquiet e he) a _).1)
      (fun e he => (quiet_events (hquiet e he) a 0).2)
  refine ⟨?_, h.apart, ?_, ?_, ?_, ?_, ?_, ?_, hallowance, ?_⟩
  · rw [hsame.nodes, hsame.queues]
    exact h.queues
  · rw [hsame.nextId]
    exact h.fresh
  · rw [hsame.nextId]
    exact h.started
  · intro a
    rw [hsame.nextId, (hhistory a).2]
    exact h.past a
  · intro a
    rw [hsame.nodes, (hhistory a).1]
    exact h.recorded a
  · rw [hsame.nodes, hsame.pending]
    exact h.pending
  · rw [hsame.stakes, hsame.stakers, hsame.validators, hsame.staked]
    exact h.books
  · rw [hsame.staked, hsame.pending]
    exact hsolvent

/-- Staking moves the tokens it books. -/
private theorem Sound.stake (h : Sound deployment history world queueOf) {validator : Address}
    {token : ERC20.T} (hamount : amount ≠ 0)
    (htoken : ERC20.transferFrom world.token deployment.this env.sender deployment.this amount =
      .ok token)
    (hevents : eventsOf t = [.stakeIncreased env.sender validator amount]) :
    Sound deployment (history ++ [t])
      ⟨world.staking.deposit env.sender validator amount, token⟩ queueOf := by
  obtain ⟨hmoved, hzero, hother⟩ := ERC20.transferFrom_ok htoken
  have hsender : deployment.this ≠ env.sender := by
    intro heq
    rw [← heq] at hzero
    exact hamount (hzero (h.allowance _)).1
  have hmoved := hmoved deployment.this
  rw [if_neg hsender, if_pos rfl] at hmoved
  have hhistory : ∀ a, outstanding (history ++ [t]) a = outstanding history a ∧
      claimed (history ++ [t]) a = claimed history a := fun a =>
    outstanding_quiet (by simp [hevents, Event.initiation]) (by simp [hevents, Event.claim])
  refine ⟨h.queues, h.apart, h.fresh, h.started, ?_, ?_, h.pending,
    h.books.credit env.sender validator amount, ?_, ?_⟩
  · intro a
    rw [(hhistory a).2]
    exact h.past a
  · intro a
    rw [(hhistory a).1]
    exact h.recorded a
  · intro spender
    rw [hother deployment.this hsender]
    exact h.allowance spender
  · have hsolvent := h.solvent
    show world.staking.totalStakedAmount + amount + world.staking.totalPendingWithdrawals ≤
      token.balances deployment.this
    omega

/-- The sum over the queues when the queue of one staker is replaced. -/
private theorem sum_setQueue (queueOf : Address → List Nat) (N : Address → Nodes) (user : Address) (nodes : Nodes)
    (ids : List Nat) :
    ∑ a, queueTotal (Function.update N user nodes a) (Function.update queueOf user ids a) +
        queueTotal (N user) (queueOf user) =
      ∑ a, queueTotal (N a) (queueOf a) + queueTotal nodes ids := by
  rw [← Ledger.sum_update (fun a => queueTotal (N a) (queueOf a)) user (queueTotal nodes ids)]
  refine congrArg (· + queueTotal (N user) (queueOf user)) (Finset.sum_congr rfl fun a _ => ?_)
  by_cases ha : a = user
  · subst ha
    simp only [Function.update_self]
  · simp only [Function.update_of_ne ha]

private theorem queueTotal_insert
    (hins : Inserted nodes nodes' queue' l₁ l₂ id amount claimableAt) :
    queueTotal nodes' (l₁ ++ id :: l₂) = queueTotal nodes (l₁ ++ l₂) + amount := by
  have hkeep : ∀ j ∈ l₁ ++ l₂, (nodes' j).amount = (nodes j).amount := by
    intro j hj
    rw [hins.listed j hj]
  have h₁ : l₁.map (fun j => (nodes' j).amount) = l₁.map fun j => (nodes j).amount :=
    List.map_congr_left fun j hj => hkeep j (by simp [hj])
  have h₂ : l₂.map (fun j => (nodes' j).amount) = l₂.map fun j => (nodes j).amount :=
    List.map_congr_left fun j hj => hkeep j (by simp [hj])
  simp only [queueTotal, List.map_append, List.map_cons, List.sum_append, List.sum_cons, h₁, h₂,
    hins.new]
  omega

private theorem entries_insert
    (hins : Inserted nodes nodes' queue' l₁ l₂ id amount claimableAt) :
    ((l₁ ++ id :: l₂).map (entry nodes')).Perm
      ((l₁ ++ l₂).map (entry nodes) ++ [⟨id, amount, claimableAt⟩]) := by
  have hkeep : ∀ j ∈ l₁ ++ l₂, entry nodes' j = entry nodes j := by
    intro j hj
    rw [entry, entry, hins.listed j hj]
  rw [← List.map_congr_left hkeep]
  have hnew : entry nodes' id = ⟨id, amount, claimableAt⟩ := by rw [entry, hins.new]
  rw [← hnew]
  refine (List.perm_middle.map _).trans ?_
  rw [List.map_cons]
  exact (List.perm_append_singleton _ _).symm

/-- Initiating a withdrawal puts one node into the queue of the staker. -/
private theorem Sound.initiate (h : Sound deployment history world queueOf)
    {validator : Address} (hids : queueOf env.sender = l₁ ++ l₂)
    (hstake : amount ≤ world.staking.stakes env.sender validator)
    (hstaked : amount ≤ world.staking.totalStakedAmount)
    (hins : Inserted (world.staking.withdrawalNodes env.sender) nodes' queue' l₁ l₂
      world.staking.nextWithdrawalId amount (claimTime env world.staking))
    (htime : timeOf t = claimTime env world.staking)
    (hevents : eventsOf t =
      [.withdrawalInitiated env.sender validator world.staking.nextWithdrawalId amount]) :
    Sound deployment (history ++ [t])
      { world with staking :=
        (world.staking.withdraw env.sender validator amount).setQueue env.sender nodes' queue' }
      (Function.update queueOf env.sender (l₁ ++ world.staking.nextWithdrawalId :: l₂)) := by
  have hclaimed : ∀ a, claimed (history ++ [t]) a = claimed history a := by
    intro a
    rw [claimed_concat, hevents]
    simp [Event.claim]
  have hfresh : world.staking.nextWithdrawalId ∉ l₁ ++ l₂ := by
    intro hmem
    exact Nat.lt_irrefl _ (h.fresh env.sender _ (hids ▸ hmem))
  have hnew : ∀ a, ∀ id ∈ Function.update queueOf env.sender
      (l₁ ++ world.staking.nextWithdrawalId :: l₂) a,
      (a = env.sender ∧ id = world.staking.nextWithdrawalId) ∨ id ∈ queueOf a := by
    intro a id hid
    by_cases ha : a = env.sender
    · subst ha
      rw [Function.update_self, List.mem_append, List.mem_cons] at hid
      rw [hids, List.mem_append]
      tauto
    · rw [Function.update_of_ne ha] at hid
      exact .inr hid
  refine ⟨?_, ?_, ?_, Nat.succ_pos _, ?_, ?_, ?_, h.books.debit hstake, h.allowance, ?_⟩
  · intro a
    dsimp only [State.setQueue]
    by_cases ha : a = env.sender
    · subst ha
      simp only [Function.update_self]
      exact (hids ▸ h.queues env.sender).insert hfresh (Nat.ne_of_gt h.started) hins
    · simp only [Function.update_of_ne ha]
      exact h.queues a
  · intro a b hab id hida hidb
    have hlt : ∀ c, id ∈ queueOf c → id ≠ world.staking.nextWithdrawalId := fun c hc =>
      Nat.ne_of_lt (h.fresh c id hc)
    cases hnew a id hida with
    | inl ha =>
        cases hnew b id hidb with
        | inl hb => exact hab (ha.1.trans hb.1.symm)
        | inr hb => exact hlt b hb ha.2
    | inr ha =>
        cases hnew b id hidb with
        | inl hb => exact hlt a ha hb.2
        | inr hb => exact h.apart a b hab ha hb
  · intro a id hid
    show id < world.staking.nextWithdrawalId + 1
    cases hnew a id hid with
    | inl ha => omega
    | inr ha =>
        have hlt := h.fresh a id ha
        omega
  · intro a id hid
    rw [hclaimed] at hid
    exact Nat.lt_succ_of_lt (h.past a id hid)
  · intro a
    dsimp only [State.setQueue]
    unfold outstanding
    rw [hclaimed, initiated_concat, hevents, htime]
    by_cases ha : a = env.sender
    · subst ha
      simp only [Function.update_self]
      have hpast : world.staking.nextWithdrawalId ∉ claimed history env.sender := by
        intro hmem
        exact Nat.lt_irrefl _ (h.past env.sender _ hmem)
      have hrecorded := h.recorded env.sender
      rw [hids] at hrecorded
      have hevent : [Event.withdrawalInitiated env.sender validator world.staking.nextWithdrawalId
          amount].filterMap (Event.initiation env.sender (claimTime env world.staking)) =
          [⟨world.staking.nextWithdrawalId, amount, claimTime env world.staking⟩] := by
        simp [Event.initiation]
      rw [hevent, List.filter_append, List.filter_cons_of_pos (by simpa using hpast),
        List.filter_nil]
      exact (entries_insert hins).trans (hrecorded.append_right _)
    · have hevent : [Event.withdrawalInitiated env.sender validator world.staking.nextWithdrawalId
          amount].filterMap (Event.initiation a (claimTime env world.staking)) = [] := by
        simp [Event.initiation, Ne.symm ha]
      rw [hevent, List.append_nil]
      simp only [Function.update_of_ne ha]
      exact h.recorded a
  · have hsum := sum_setQueue queueOf world.staking.withdrawalNodes env.sender nodes'
      (l₁ ++ world.staking.nextWithdrawalId :: l₂)
    rw [queueTotal_insert hins, hids, h.pending] at hsum
    show _ = world.staking.totalPendingWithdrawals + amount
    exact Nat.add_right_cancel (hsum.trans (by omega))
  · have hsolvent := h.solvent
    show world.staking.totalStakedAmount - amount +
      (world.staking.totalPendingWithdrawals + amount) ≤ world.token.balances deployment.this
    omega

/-- Claiming takes the first node off the queue of the staker. -/
private theorem Sound.claim (h : Sound deployment history world queueOf) {token : ERC20.T}
    {head : Nat} (hids : queueOf env.sender = head :: ids)
    (htoken : ERC20.transfer world.token deployment.this env.sender
      (world.staking.withdrawalNodes env.sender head).amount = .ok token)
    (hevents : eventsOf t = [.withdrawalClaimed env.sender head
      (world.staking.withdrawalNodes env.sender head).amount]) :
    Sound deployment (history ++ [t])
      { token
        staking := { world.staking.setQueue env.sender
            (removeHead (world.staking.withdrawalNodes env.sender)
              (world.staking.withdrawalQueues env.sender)).1
            (removeHead (world.staking.withdrawalNodes env.sender)
              (world.staking.withdrawalQueues env.sender)).2 with
          totalPendingWithdrawals := world.staking.totalPendingWithdrawals -
            (world.staking.withdrawalNodes env.sender head).amount } }
      (Function.update queueOf env.sender ids) := by
  have hqueue := h.queues env.sender
  rw [hids] at hqueue
  obtain ⟨hremoved, hkept⟩ := hqueue.removeHead
  have hinit : ∀ a, initiated (history ++ [t]) a = initiated history a := by
    intro a
    rw [initiated_concat, hevents]
    simp [Event.initiation]
  have hsub : ∀ a, ∀ id ∈ Function.update queueOf env.sender ids a, id ∈ queueOf a := by
    intro a id hid
    by_cases ha : a = env.sender
    · subst ha
      rw [Function.update_self] at hid
      rw [hids]
      exact List.mem_cons_of_mem _ hid
    · rwa [Function.update_of_ne ha] at hid
  have htotal : queueTotal (world.staking.withdrawalNodes env.sender) (head :: ids) =
      (world.staking.withdrawalNodes env.sender head).amount +
        queueTotal (removeHead (world.staking.withdrawalNodes env.sender)
          (world.staking.withdrawalQueues env.sender)).1 ids := by
    unfold queueTotal
    rw [List.map_cons, List.sum_cons, List.map_congr_left fun j hj => (hkept j hj).1]
  have hsum := sum_setQueue queueOf world.staking.withdrawalNodes env.sender
    (removeHead (world.staking.withdrawalNodes env.sender)
      (world.staking.withdrawalQueues env.sender)).1 ids
  rw [hids, htotal, h.pending] at hsum
  have hmoved := (ERC20.move_ok htoken).1 deployment.this
  rw [if_pos rfl] at hmoved
  refine ⟨?_, fun a b hab id hida hidb => h.apart a b hab (hsub a id hida) (hsub b id hidb),
    fun a id hid => h.fresh a id (hsub a id hid), h.started, ?_, ?_, ?_, h.books, ?_, ?_⟩
  · intro a
    dsimp only [State.setQueue]
    by_cases ha : a = env.sender
    · subst ha
      simp only [Function.update_self]
      exact hremoved
    · simp only [Function.update_of_ne ha]
      exact h.queues a
  · intro a id hid
    rw [claimed_concat, hevents, List.mem_append] at hid
    cases hid with
    | inl hid => exact h.past a id hid
    | inr hid =>
        by_cases ha : env.sender = a
        · simp [Event.claim, ha] at hid
          rw [hid]
          exact h.fresh env.sender head (by rw [hids]; simp)
        · simp [Event.claim, ha] at hid
  · intro a
    dsimp only [State.setQueue]
    unfold outstanding
    rw [hinit, claimed_concat, hevents]
    by_cases ha : a = env.sender
    · subst ha
      simp only [Function.update_self]
      have hevent : [Event.withdrawalClaimed env.sender head
          (world.staking.withdrawalNodes env.sender head).amount].filterMap
          (Event.claim env.sender) = [head] := by
        simp [Event.claim]
      -- what is still outstanding is what was, without the head
      have hfilter : (initiated history env.sender).filter
          (fun w => w.id ∉ claimed history env.sender ++ [head]) =
          (outstanding history env.sender).filter fun w => w.id ≠ head := by
        unfold outstanding
        rw [List.filter_filter]
        refine List.filter_congr fun w _ => ?_
        by_cases h₁ : w.id = head <;> by_cases h₂ : w.id ∈ claimed history env.sender <;>
          simp [h₁, h₂]
      have hrecorded := h.recorded env.sender
      rw [hids, List.map_cons] at hrecorded
      have hrest : (ids.map (entry (world.staking.withdrawalNodes env.sender))).filter
          (fun w => w.id ≠ head) =
          ids.map (entry (world.staking.withdrawalNodes env.sender)) := by
        rw [List.filter_eq_self]
        intro w hw
        obtain ⟨j, hj, rfl⟩ := List.mem_map.mp hw
        have hne : j ≠ head := fun heq => (List.nodup_cons.mp hqueue.nodup).1 (heq ▸ hj)
        exact decide_eq_true hne
      have hperm := hrecorded.filter fun w => w.id ≠ head
      rw [List.filter_cons_of_neg (by simp [entry]), hrest] at hperm
      rw [hevent, hfilter]
      refine List.Perm.trans (List.Perm.of_eq ?_) hperm
      refine List.map_congr_left fun j hj => ?_
      rw [entry, entry, (hkept j hj).1, (hkept j hj).2]
    · have hevent : [Event.withdrawalClaimed env.sender head
          (world.staking.withdrawalNodes env.sender head).amount].filterMap
          (Event.claim a) = [] := by
        simp [Event.claim, Ne.symm ha]
      rw [hevent, List.append_nil]
      simp only [Function.update_of_ne ha]
      exact h.recorded a
  · show _ = world.staking.totalPendingWithdrawals -
      (world.staking.withdrawalNodes env.sender head).amount
    exact Nat.eq_sub_of_add_eq (Nat.add_right_cancel ((Nat.add_assoc ..).trans hsum))
  · rw [(ERC20.move_ok htoken).2]
    exact h.allowance
  · have hsolvent := h.solvent
    show world.staking.totalStakedAmount + (world.staking.totalPendingWithdrawals -
      (world.staking.withdrawalNodes env.sender head).amount) ≤ token.balances deployment.this
    omega

/-- A call that returned keeps the invariant, for some queues. -/
private theorem Sound.returns (h : Sound deployment history world queueOf)
    (hret : Returns deployment env world world' events) (hevents : eventsOf t = events)
    (htime : timeOf t = claimTime env world.staking) :
    ∃ queueOf, Sound deployment (history ++ [t]) world' queueOf := by
  cases hret with
  | staked hamount htoken => exact ⟨queueOf, h.stake hamount htoken hevents⟩
  | @initiated _ amount nodes queue hstake hstaked hinsert =>
      have hfresh : world.staking.nextWithdrawalId ∉ queueOf env.sender := fun hmem =>
        Nat.lt_irrefl _ (h.fresh env.sender _ hmem)
      have hsplit : ∃ l₁ l₂, queueOf env.sender = l₁ ++ l₂ ∧
          Inserted (world.staking.withdrawalNodes env.sender) nodes queue l₁ l₂
            world.staking.nextWithdrawalId amount (claimTime env world.staking) := by
        cases hinsert with
        | inl hinsert =>
            obtain ⟨gas, hinsert⟩ := hinsert
            exact insertSorted_ok (h.queues env.sender) hfresh hinsert
        | inr hinsert =>
            obtain ⟨previousId, hinsert⟩ := hinsert
            exact insertAtPosition_ok (h.queues env.sender) hfresh hinsert
      obtain ⟨l₁, l₂, hids, hins⟩ := hsplit
      exact ⟨_, h.initiate hids hstake hstaked hins htime hevents⟩
  | claimed hhead _ htoken =>
      have hqueue := h.queues env.sender
      cases hids : queueOf env.sender with
      | nil =>
          rw [hids] at hqueue
          exact absurd hqueue.head hhead
      | cons head ids =>
          rw [hids] at hqueue
          have heq : (world.staking.withdrawalQueues env.sender).head = head := hqueue.head
          rw [heq] at htoken hevents
          rw [heq]
          exact ⟨_, h.claim hids htoken hevents⟩
  | recovered hamount htoken =>
      obtain ⟨hmoved, hallowances⟩ := ERC20.move_ok htoken
      have hmoved := hmoved deployment.this
      rw [if_pos rfl] at hmoved
      refine ⟨queueOf, h.keep ⟨rfl, rfl, rfl, rfl, rfl, rfl, rfl, rfl⟩ ?_ ?_ ?_⟩
      · simp [hevents, Event.quiet]
      · rw [hallowances]
        exact h.allowance
      · dsimp only
        omega
  | other hsame hquiet =>
      exact ⟨queueOf, h.keep hsame (hevents ▸ hquiet) h.allowance h.solvent⟩

/-- One step keeps the invariant, for some queues. -/
theorem sound_step (input : Input deployment)
    (h : ∃ queueOf, Sound deployment history world queueOf) :
    ∃ queueOf, Sound deployment (history ++ [Trace.take (step keccak256 deployment) world input])
      (step keccak256 deployment world input).1 queueOf := by
  obtain ⟨queueOf, h⟩ := h
  cases hout : (step keccak256 deployment world input).2 with
  | error e =>
      have hstate : (step keccak256 deployment world input).1 = world := by
        cases input with
        | call env c => exact transact_error hout
        | token sender c => exact transact_error hout
      rw [hstate]
      refine ⟨queueOf, h.keep ⟨rfl, rfl, rfl, rfl, rfl, rfl, rfl, rfl⟩ ?_ h.allowance h.solvent⟩
      simp [eventsOf, hout]
  | ok events =>
      have hevents : eventsOf (Trace.take (step keccak256 deployment) world input) = events := by
        simp [eventsOf, hout]
      cases input with
      | call env c => exact h.returns (call_ok (transact_ok hout)) hevents rfl
      | token sender c =>
          have hcall : ((ERC20.call world.token sender c).mapError Error.token).map
              (fun token => (({ world with token }, []) : World × List Event)) =
              .ok ((step keccak256 deployment world (.token sender c)).1, events) :=
            transact_ok hout
          cases htoken : ERC20.call world.token sender c with
          | error e =>
              rw [htoken] at hcall
              cases hcall
          | ok token =>
              rw [htoken] at hcall
              obtain ⟨hbalance, hallowance⟩ := ERC20.call_guarded htoken sender.2 h.allowance
              have hworld : (step keccak256 deployment world (.token sender c)).1 =
                  { world with token } ∧ events = [] := by
                have heq := Except.ok.inj hcall
                rw [Prod.mk.injEq] at heq
                exact ⟨heq.1.symm, heq.2.symm⟩
              rw [hworld.1]
              refine ⟨queueOf, h.keep ⟨rfl, rfl, rfl, rfl, rfl, rfl, rfl, rfl⟩ ?_ hallowance
                (h.solvent.trans hbalance)⟩
              simp [hevents, hworld.2]

/-! ### Whole runs -/

theorem sound_deploy {this initialOwner safeToken : Address}
    {initialWithdrawDelay configTimeDelay : Nat}
    (hdeploy : deploy this initialOwner safeToken initialWithdrawDelay configTimeDelay =
      .ok (deployment, s, events)) {token : ERC20.T}
    (hallowance : ∀ spender, token.allowances deployment.this spender = 0) :
    Sound deployment [] ⟨s, token⟩ fun _ => [] := by
  unfold deploy at hdeploy
  obtain ⟨_, -, hdeploy⟩ := bind_eq_ok.mp hdeploy
  obtain ⟨_, -, hdeploy⟩ := bind_eq_ok.mp hdeploy
  obtain ⟨_, -, hdeploy⟩ := bind_eq_ok.mp hdeploy
  obtain ⟨_, -, hdeploy⟩ := bind_eq_ok.mp hdeploy
  obtain ⟨_, -, hdeploy⟩ := bind_eq_ok.mp hdeploy
  have heq := pure_eq_ok.mp hdeploy
  simp only [Prod.mk.injEq] at heq
  obtain ⟨rfl, rfl, -⟩ := heq
  refine ⟨?_, ?_, ?_, Nat.one_pos, ?_, ?_, ?_, ⟨?_, ?_, ?_⟩, hallowance, Nat.zero_le _⟩
  · intro a
    exact ⟨trivial, rfl, rfl, List.nodup_nil, by simp, List.Pairwise.nil, fun _ _ => rfl⟩
  · intro a b _
    simp
  · intro a id hid
    cases hid
  · intro a id hid
    cases hid
  · intro a
    exact List.Perm.refl _
  · exact Finset.sum_const_zero
  · intro a
    exact Finset.sum_const_zero
  · intro v
    exact Finset.sum_const_zero
  · exact Finset.sum_eq_zero fun a _ => Finset.sum_const_zero

/-- In every run, whatever mix of insertions, claims, delay changes and recoveries it makes, the
storage holds for every staker a doubly linked queue of exactly the withdrawals initiated and not
claimed, in the order they become claimable, and the view returns it; no two stakers share a
node, all totals are exact, and the contract holds the tokens it owes. -/
theorem staking_queues_well_formed (keccak256 : Keccak) {this initialOwner safeToken : Address}
    {initialWithdrawDelay configTimeDelay : Nat}
    (hdeploy : deploy this initialOwner safeToken initialWithdrawDelay configTimeDelay =
      .ok (deployment, s, events)) (token : ERC20.T)
    (hallowance : ∀ spender, token.allowances deployment.this spender = 0)
    (inputs : List (Input deployment)) :
    let history := Trace.trace (step keccak256 deployment) ⟨s, token⟩ inputs
    let world := Trace.final (step keccak256 deployment) ⟨s, token⟩ inputs
    ∃ queueOf : Address → List Nat,
      (∀ staker,
        QueueOK (world.staking.withdrawalNodes staker) (world.staking.withdrawalQueues staker)
          (queueOf staker) ∧
        ((queueOf staker).map (entry (world.staking.withdrawalNodes staker))).Perm
          (outstanding history staker) ∧
        ∀ gas, (queueOf staker).length ≤ gas →
          getPendingWithdrawals world.staking gas staker =
            some ((queueOf staker).map (info (world.staking.withdrawalNodes staker)))) ∧
      (∀ a b, a ≠ b → (queueOf a).Disjoint (queueOf b)) ∧
      ∑ staker, queueTotal (world.staking.withdrawalNodes staker) (queueOf staker) =
        world.staking.totalPendingWithdrawals ∧
      (∀ staker, ∑ validator, world.staking.stakes staker validator =
        world.staking.totalStakerStakes staker) ∧
      (∀ validator, ∑ staker, world.staking.stakes staker validator =
        world.staking.totalValidatorStakes validator) ∧
      ∑ staker, ∑ validator, world.staking.stakes staker validator =
        world.staking.totalStakedAmount ∧
      world.staking.totalStakedAmount + world.staking.totalPendingWithdrawals ≤
        ERC20.balanceOf world.token deployment.this := by
  intro history world
  obtain ⟨queueOf, h⟩ : ∃ queueOf, Sound deployment history world queueOf :=
    Trace.history_invariant (I := fun history world => ∃ queueOf, Sound deployment history world queueOf)
      (E := fun _ => True) ⟨_, sound_deploy hdeploy hallowance⟩
      (fun _ _ input h _ => sound_step input h) inputs fun _ _ => trivial
  refine ⟨queueOf, ?_, h.apart, h.pending, h.books.row, h.books.column, h.books.all, h.solvent⟩
  intro staker
  exact ⟨h.queues staker, h.recorded staker, fun gas hgas =>
    getPendingWithdrawals_eq (h.queues staker) hgas⟩

/-- A staker holds ten tokens, nobody has approved anything. -/
private def sampleToken : ERC20.T where
  balances := fun a => if a = 2 then 10 else 0
  allowances := fun _ _ => 0

private def sampleDeployment : Deployment := ⟨9, 8, 5⟩

private def sampleEnv (sender : Address) (timestamp : Nat) : Env := ⟨sender, timestamp, 0, 1⟩

/-- A validator is registered and staked to; two withdrawals are queued, one is claimed. -/
private def sampleInputs : List (Input sampleDeployment) :=
  [.call (sampleEnv 1 0) (.proposeValidators [3] [true]),
    .call (sampleEnv 2 5) (.executeValidatorChanges [3] [true] 5),
    .token ⟨2, by decide⟩ (.approve 9 10),
    .call (sampleEnv 2 6) (.stake 3 10),
    .call (sampleEnv 2 10) (.initiateWithdrawal 3 4 1),
    .call (sampleEnv 2 10) (.initiateWithdrawalAtPosition 3 2 0),
    .call (sampleEnv 2 13) .claimWithdrawal]

private def sampleState : State := ((deploy 9 1 8 3 5).toOption.get (by rfl)).2.1

theorem claimed_position_leaves_queue :
    let world := Trace.final (step (fun _ => 1) sampleDeployment) ⟨sampleState, sampleToken⟩ sampleInputs
    world.staking.withdrawalQueues 2 = ⟨1, 1⟩ ∧ world.staking.totalPendingWithdrawals = 4 ∧
      world.staking.totalStakedAmount + world.staking.totalPendingWithdrawals ≤
        ERC20.balanceOf world.token sampleDeployment.this := by
  refine ⟨by decide +kernel, by decide +kernel, ?_⟩
  obtain ⟨_, -, -, -, -, -, -, hsolvent⟩ := staking_queues_well_formed (fun _ => 1)
    (rfl : deploy 9 1 8 3 5 = .ok (sampleDeployment, sampleState, _)) sampleToken
    (fun _ => rfl) sampleInputs
  exact hsolvent

end Safenet.Contracts.Staking
