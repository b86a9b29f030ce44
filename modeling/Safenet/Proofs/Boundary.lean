/-
Where the index begins.

A watcher that resumes, or is configured with a start block, is not to report anything below that
boundary.  `start` filters what it queues, but the watcher then follows the chain from the head of
the node, and takes back whatever blocks it holds.  Nothing below the boundary is reported as long
as the head was not below it at the start, and no answer of the node replaces the block before it
(`Keeps`).  Both can fail.
-/
import Safenet.Proofs.BlockWatcher

namespace Safenet.Core

/-- The first block the update is about. -/
def BlockUpdate.first : BlockUpdate → Nat
  | .warp first _ => first
  | .uncle number => number
  | .new number _ _ _ => number

/-- Whether the update takes a block back. -/
def BlockUpdate.isUncle : BlockUpdate → Bool
  | .uncle _ => true
  | _ => false

namespace BlockWatcher

/-- The first block that is not processed yet. -/
def boundaryOf (config : Config) (indexed : Option BlockStatus) : Option Nat :=
  match indexed with
  | some indexed => some (indexed.safe + 1)
  | none => config.startBlock

/-- The reports begin with the boundary, after the synthetic reorg if there is one. -/
def Opens (boundary : Nat) (updates : List BlockUpdate) : Prop :=
  ∃ uncles blocks, updates = uncles ++ blocks ∧ (uncles = [] ∨ uncles = [.uncle boundary]) ∧
    ∀ update ∈ blocks.head?, update.isUncle = false ∧ update.first = boundary

section Node

variable {node : Node} {watcher watcher' : BlockWatcher} {boundary : Nat}

/-! ### The condition -/

/-- What the node serves for a number, within some attempts. -/
def served (node : Node) (number : Nat) : Nat → Nat → Option BlockHeader
  | 0, _ => none
  | attempts + 1, requests =>
      match node requests (.number number) with
      | .failed => none
      | .missing => served node number attempts (requests + 1)
      | .found block => some block

/-- The answers to this call do not replace the block before the boundary. -/
def Keeps (node : Node) (boundary : Nat) (watcher : BlockWatcher) : Input → Prop
  | .next attempts => watcher.queue = [] → ∀ last ∈ watcher.recent.getLast?,
      last.number < boundary →
        ∀ block ∈ served node watcher.pending.number attempts watcher.requests,
          block.parentHash = last.hash
  | .revalidateLastBlock => ∀ last ∈ lastReported watcher, last.number < boundary →
      node watcher.requests (.number last.number) ≠ .missing ∧
        ∀ block, node watcher.requests (.number last.number) = .found block →
          block.hash = last.hash

/-! ### The pending number -/

/-- The block waited for is the one the node serves. -/
theorem poll_served (attempts : Nat) :
    ∀ {retryCount : Nat} {watcher watcher' : BlockWatcher} {block : BlockHeader},
      poll node attempts retryCount watcher = (watcher', .ok (some block)) →
        served node watcher.pending.number attempts watcher.requests = some block ∧
          watcher'.recent = watcher.recent := by
  induction attempts with
  | zero =>
      intro retryCount watcher watcher' block h
      cases h
  | succ attempts ih =>
      intro retryCount watcher watcher' block h
      unfold poll getBlock at h
      unfold served
      cases hanswer : node watcher.requests (.number watcher.pending.number) with
      | failed =>
          rw [hanswer] at h
          cases h
      | found found =>
          rw [hanswer] at h
          cases h
          exact ⟨rfl, rfl⟩
      | missing =>
          rw [hanswer] at h
          dsimp only at h ⊢
          split at h
          · exact ih h
          · split at h
            · cases h
            · exact ih h

/-- Recording a block takes none back. -/
theorem record_ne_uncle (watcher : BlockWatcher) (block : BlockHeader) (number : Nat) :
    (record watcher block).2.map some ≠ .ok (some (.uncle number)) := by
  unfold record
  split
  · exact nofun
  · dsimp only
    split
    · split
      · exact nofun
      · exact nofun
    · exact nofun

/-- A call of `next` that reports nothing changes no block and no update. -/
theorem next_quiet (hnode : Numbered node) {attempts : Nat} {output : Output}
    (h : step node (some watcher) (.next attempts) = (some watcher', output))
    (hquiet : output.reported = none) : SameBlocks watcher watcher' := by
  unfold step at h
  dsimp only at h
  unfold next at h
  cases hqueue : watcher.queue with
  | cons update queue =>
      rw [hqueue] at h
      cases h
      cases hquiet
  | nil =>
      rw [hqueue] at h
      dsimp only at h
      rcases hpoll : poll node attempts 0 watcher with ⟨polled, result⟩
      rw [hpoll] at h
      obtain ⟨hsame, -, -⟩ := poll_ok hnode attempts hpoll
      cases result with
      | error error =>
          dsimp only at h
          cases error <;> cases h <;> exact hsame
      | ok found =>
          cases found with
          | none =>
              cases h
              exact hsame
          | some block =>
              dsimp only at h
              rcases hreceive : receive polled block with ⟨after, received⟩
              rw [hreceive] at h
              cases received with
              | ok update =>
                  cases h
                  cases hquiet
              | error error =>
                  rcases receive_error hreceive with rfl | ⟨rfl, rfl, -, -⟩
                  · cases h
                  · cases h
                    exact hsame

/-- What is reported is what `next` returned. -/
theorem next_reported {attempts : Nat} {output : Output} {after : Option BlockWatcher}
    {update : BlockUpdate} (h : step node (some watcher) (.next attempts) = (after, output))
    (hreported : output.reported = some update) :
    (next node watcher attempts).2 = .ok (some update) := by
  unfold step at h
  dsimp only at h
  split at h
  · next hcall =>
      cases h
      cases hreported
      rw [hcall]
  · cases h
    cases hreported
  · cases h
    cases hreported

/-- A block is only taken back if the node serves one that does not build on it. -/
theorem next_uncle {attempts number : Nat} (hqueue : watcher.queue = [])
    (h : (next node watcher attempts).2 = .ok (some (.uncle number))) :
    ∃ last ∈ watcher.recent.getLast?, last.number = number ∧
      ∃ block ∈ served node watcher.pending.number attempts watcher.requests,
        block.parentHash ≠ last.hash := by
  unfold next at h
  rw [hqueue] at h
  dsimp only at h
  rcases hpoll : poll node attempts 0 watcher with ⟨polled, result⟩
  rw [hpoll] at h
  cases result with
  | error error => cases h
  | ok found =>
      cases found with
      | none => cases h
      | some block =>
          obtain ⟨hserved, hrecent⟩ := poll_served attempts hpoll
          dsimp only at h
          unfold receive at h
          rw [hrecent] at h
          split at h
          · next last hlast =>
              split at h
              · next hne =>
                  unfold uncleLast at h
                  split at h
                  · cases h
                  · cases h
                    exact ⟨last, hlast, rfl, block, hserved, fun heq => hne heq.symm⟩
              · exact absurd h (record_ne_uncle _ _ _)
          · split at h
            · cases h
            · exact absurd h (record_ne_uncle _ _ _)

/-- Looking at the last block again drops it only if the node answers with another one. -/
theorem revalidate_pending {result : Except Error (Option InvalidatedBlock)}
    (h : revalidateLastBlock node watcher = (watcher', result)) :
    (watcher'.pending = watcher.pending ∧ ∀ invalidated, result ≠ .ok (some invalidated)) ∨
      ∃ last ∈ lastReported watcher, watcher'.pending.number = last.number ∧
        result = .ok (some ⟨last.number, last.hash⟩) ∧
        (node watcher.requests (.number last.number) = .missing ∨
          ∃ block, node watcher.requests (.number last.number) = .found block ∧
            block.hash ≠ last.hash) := by
  rcases revalidate_cases h with ⟨-, rfl, rfl⟩ |
    ⟨init, last, rest, number, -, -, -, -, hlast, ⟨rfl, hresult⟩ | ⟨⟨t, rfl⟩, rfl, hreplaced⟩⟩
  · exact .inl ⟨rfl, nofun⟩
  · refine .inl ⟨rfl, fun invalidated heq => ?_⟩
    rw [heq] at hresult
    rcases hresult with hnone | hrpc | hpanicked
    · cases hnone
    · cases hrpc
    · cases hpanicked
  · exact .inr ⟨last, hlast, rfl, rfl, hreplaced⟩

/-- **The pending number stays at or above the boundary** while the node keeps what is below. -/
theorem Keeps.pending (hnode : Numbered node) {input : Input} {output : Output}
    (hkeeps : Keeps node boundary watcher input)
    (h : step node (some watcher) input = (some watcher', output))
    (hpending : boundary ≤ watcher.pending.number) : boundary ≤ watcher'.pending.number := by
  cases input with
  | revalidateLastBlock =>
      have hpost : watcher' = (revalidateLastBlock node watcher).1 := by
        unfold step at h
        dsimp only at h
        split at h
        · next hcall =>
            cases h
            rw [hcall]
        · next error hcall =>
            rw [hcall]
            cases error <;> cases h <;> rfl
      rcases revalidate_pending (Prod.ext hpost.symm rfl) with ⟨hsame, -⟩ |
        ⟨last, hlast, hnumber, -, hreplaced⟩
      · rw [hsame]
        exact hpending
      · rw [hnumber]
        by_contra hbelow
        obtain ⟨hpresent, hhash⟩ := hkeeps last hlast (Nat.lt_of_not_le hbelow)
        rcases hreplaced with hmissing | ⟨block, hfound, hne⟩
        · exact hpresent hmissing
        · exact hne (hhash block hfound)
  | next attempts =>
      have hmoves := step_moves hnode h
      generalize hreported : output.reported = reported at hmoves
      cases hmoves with
      | idle hsame =>
          rw [hsame.pending]
          exact hpending
      | dequeue update queue hqueue hpost =>
          rw [hpost]
          exact hpending
      | new block hqueue hnumber hanswered hparent hconfig hwindow hqueue' hpending' =>
          rw [hpending', hnumber]
          omega
      | invalidated =>
          rw [(next_quiet hnode h hreported).pending]
          exact hpending
      | uncle init last hqueue hrecent hconfig hsafe hrecent' hqueue' hpending' =>
          rw [hpending']
          by_contra hbelow
          obtain ⟨last', hlast', hnumber, block, hserved, hne⟩ :=
            next_uncle hqueue (next_reported h hreported)
          rw [← hnumber] at hbelow
          exact hne (hkeeps hqueue last' hlast' (Nat.lt_of_not_le hbelow) block hserved)

/-! ### What is reported -/

/-- The reports and what is queued lie at or above the boundary, and begin with it. -/
structure Above (boundary : Nat) (updates : List BlockUpdate) (watcher : BlockWatcher) : Prop where
  pending : boundary ≤ watcher.pending.number
  bound : ∀ update ∈ updates ++ watcher.queue, boundary ≤ update.first
  opens : Opens boundary (updates ++ watcher.queue)
  /-- As long as no block is reported or queued, the pending one is the first. -/
  first : (updates ++ watcher.queue).all BlockUpdate.isUncle = true →
    watcher.pending.number = boundary

private theorem uncles_all {uncles : List BlockUpdate}
    (h : uncles = [] ∨ uncles = [.uncle boundary]) : uncles.all BlockUpdate.isUncle = true := by
  rcases h with rfl | rfl
  · rfl
  · rfl

theorem Opens.of_append {l l' : List BlockUpdate} (h : Opens boundary (l ++ l')) :
    Opens boundary l := by
  obtain ⟨uncles, blocks, heq, huncles, hblocks⟩ := h
  rcases List.append_eq_append_iff.mp heq with ⟨c, huncles', -⟩ | ⟨c, hl, hc⟩
  · -- only the synthetic reorg, or not even that
    refine ⟨l, [], (List.append_nil l).symm, ?_, by simp⟩
    rcases huncles with rfl | rfl
    · exact .inl (List.append_eq_nil_iff.mp huncles'.symm).1
    · cases l with
      | nil => exact .inl rfl
      | cons update l =>
          obtain ⟨rfl, hnil⟩ := List.cons.inj huncles'
          rw [(List.append_eq_nil_iff.mp hnil.symm).1]
          exact .inr rfl
  · refine ⟨uncles, c, hl, huncles, fun update hupdate => hblocks update ?_⟩
    cases c with
    | nil => cases hupdate
    | cons first c =>
        rw [hc]
        exact hupdate

/-- The first update that takes no block back is about the boundary. -/
theorem Opens.next {l l' : List BlockUpdate} {update : BlockUpdate}
    (h : Opens boundary (l ++ update :: l')) (hl : l.all BlockUpdate.isUncle = true)
    (hupdate : update.isUncle = false) : update.first = boundary := by
  obtain ⟨uncles, blocks, heq, huncles, hblocks⟩ := h
  rcases List.append_eq_append_iff.mp heq with ⟨c, huncles', hc⟩ | ⟨c, hl', hc⟩
  · cases c with
    | nil =>
        rw [List.nil_append] at hc
        exact (hblocks update (by rw [← hc]; rfl)).2
    | cons first c =>
        -- the update would be one of the uncles
        obtain ⟨rfl, -⟩ := List.cons.inj hc
        have hall := uncles_all huncles
        rw [huncles'] at hall
        simp [hupdate] at hall
  · cases c with
    | nil =>
        rw [List.nil_append] at hc
        exact (hblocks update (by rw [hc]; rfl)).2
    | cons first c =>
        have hfirst := (hblocks first (by rw [hc]; rfl)).1
        rw [hl'] at hl
        simp [hfirst] at hl

theorem Opens.concat {l : List BlockUpdate} (h : Opens boundary l)
    (hl : l.all BlockUpdate.isUncle = true) {update : BlockUpdate}
    (hupdate : update.isUncle = false) (hfirst : update.first = boundary) :
    Opens boundary (l ++ [update]) := by
  obtain ⟨uncles, blocks, rfl, huncles, hblocks⟩ := h
  cases blocks with
  | nil =>
      rw [List.append_nil]
      refine ⟨uncles, [update], rfl, huncles, fun other hother => ?_⟩
      cases hother
      exact ⟨hupdate, hfirst⟩
  | cons first blocks =>
      have hblock := (hblocks first rfl).1
      simp [hblock] at hl

/-- Once a block is reported, anything may follow. -/
theorem Opens.append {l : List BlockUpdate} (h : Opens boundary l)
    (hblock : ¬ l.all BlockUpdate.isUncle = true) (l' : List BlockUpdate) :
    Opens boundary (l ++ l') := by
  obtain ⟨uncles, blocks, rfl, huncles, hblocks⟩ := h
  refine ⟨uncles, blocks ++ l', List.append_assoc .., huncles, fun update hupdate => ?_⟩
  cases blocks with
  | nil =>
      rw [List.append_nil] at hblock
      exact absurd (uncles_all huncles) hblock
  | cons first blocks => exact hblocks update hupdate

/-- **Every call that keeps the pending number above the boundary keeps the reports above it.** -/
theorem Above.moves {config : Config} {updates : List BlockUpdate} {reported : Option BlockUpdate}
    (hwindow : Window config watcher) (h : Above boundary updates watcher)
    (hmoves : Moves node watcher watcher' reported)
    (hpending : boundary ≤ watcher'.pending.number) :
    Above boundary (updates ++ reported.toList) watcher' := by
  have hbound := h.bound
  have hopens := h.opens
  have hfirst := h.first
  cases hmoves with
  | idle hsame =>
      rw [Option.toList_none, List.append_nil]
      refine ⟨hpending, ?_, ?_, ?_⟩
      · rw [hsame.queue]
        exact hbound
      · rw [hsame.queue]
        exact hopens
      · rw [hsame.queue, hsame.pending]
        exact hfirst
  | dequeue update queue hqueue hpost =>
      subst hpost
      have hsame : updates ++ watcher.queue = updates ++ [update] ++ queue := by
        rw [hqueue, List.append_assoc]
        rfl
      rw [hsame] at hbound hopens hfirst
      exact ⟨hpending, hbound, hopens, hfirst⟩
  | uncle init last hqueue hrecent hconfig hsafe hrecent' hqueue' hpending' =>
      rw [hqueue, List.append_nil] at hbound hopens hfirst
      rw [hpending'] at hpending
      have hblock : ¬ updates.all BlockUpdate.isUncle = true := by
        intro hall
        have hnumber : last.number < watcher.pending.number := by
          have hlinked := hwindow.linked
          rw [hrecent] at hlinked
          rw [hlinked.number, hwindow.pending, hrecent, List.length_append, List.length_singleton]
          omega
        have := hfirst hall
        omega
      refine ⟨by rw [hpending']; exact hpending, ?_, ?_, ?_⟩
      · rw [hqueue', List.append_nil]
        intro update hupdate
        rcases List.mem_append.mp hupdate with hold | hnew
        · exact hbound update hold
        · rw [List.mem_singleton.mp hnew]
          exact hpending
      · rw [hqueue', List.append_nil]
        exact hopens.append hblock _
      · intro hall
        rw [hqueue', List.append_nil, List.all_append, Bool.and_eq_true] at hall
        exact absurd hall.1 hblock
  | new block hqueue hnumber hanswered hparent hconfig hwindow' hqueue' hpending' =>
      rw [hqueue, List.append_nil] at hbound hopens hfirst
      refine ⟨hpending, ?_, ?_, ?_⟩
      · rw [hqueue', List.append_nil]
        intro update hupdate
        rcases List.mem_append.mp hupdate with hold | hnew
        · exact hbound update hold
        · rw [List.mem_singleton.mp hnew]
          show boundary ≤ block.number
          rw [hnumber]
          exact h.pending
      · rw [hqueue', List.append_nil]
        by_cases hall : updates.all BlockUpdate.isUncle = true
        · exact hopens.concat hall rfl (hnumber.trans (hfirst hall))
        · exact hopens.append hall _
      · intro hall
        rw [hqueue', List.append_nil, List.all_append, Bool.and_eq_true] at hall
        cases hall.2
  | invalidated init rest last number hnumber hrecent hlast hrest hconfig hsafe hrecent' hqueue'
      hpending' =>
      rw [Option.toList_none, List.append_nil]
      rw [hpending'] at hpending
      have hblock : ¬ updates.all BlockUpdate.isUncle = true := by
        intro hall
        cases hqueue : watcher.queue with
        | nil =>
            rw [hqueue, List.append_nil] at hfirst
            have hlinked := hwindow.linked
            rw [hrecent] at hlinked
            have hpend := hwindow.pending
            rw [hrecent, List.length_append, List.length_cons] at hpend
            have := hfirst hall
            have := hlinked.number
            omega
        | cons update queue =>
            rw [hqueue] at hnumber hopens
            cases update with
            | warp first final => cases hnumber
            | uncle number => cases hnumber
            | new number hash timestamp logsBloom =>
                cases hnumber
                have hnext : number = boundary := hopens.next hall rfl
                have hlt : last.number < number := of_decide_eq_true hlast
                omega
      refine ⟨by rw [hpending']; exact hpending, ?_, ?_, ?_⟩
      · rw [hqueue']
        intro update hupdate
        rcases List.mem_append.mp hupdate with hold | hnew
        · exact hbound update (List.mem_append_left _ hold)
        · rw [List.mem_singleton.mp hnew]
          exact hpending
      · rw [hqueue']
        exact hopens.of_append.append hblock _
      · intro hall
        rw [hqueue', List.all_append, Bool.and_eq_true] at hall
        exact absurd hall.1 hblock

/-! ### The start -/

/-- Of a run of blocks that begins below the boundary, the rest begins with the boundary. -/
theorem Linked.filter_boundary {l : List BlockHeader} : ∀ {safe : SafeBlock}, Linked safe l →
    safe.number < boundary →
      (∀ block ∈ (l.filter fun block => boundary ≤ block.number).head?, block.number = boundary) ∧
        ((l.filter fun block => boundary ≤ block.number) = [] →
          safe.number + l.length < boundary) := by
  induction l with
  | nil =>
      intro safe _ hsafe
      exact ⟨by simp, fun _ => hsafe⟩
  | cons block l ih =>
      intro safe hlinked hsafe
      obtain ⟨hnumber, -, hlinked⟩ := hlinked
      by_cases hblock : boundary ≤ block.number
      · rw [List.filter_cons_of_pos (by simpa using hblock)]
        refine ⟨fun first hfirst => ?_, nofun⟩
        cases hfirst
        omega
      · rw [List.filter_cons_of_neg (by simpa using hblock)]
        obtain ⟨hhead, hnil⟩ := ih hlinked (Nat.lt_of_not_le hblock)
        refine ⟨hhead, fun hempty => ?_⟩
        have : block.number + l.length < boundary := hnil hempty
        rw [List.length_cons]
        omega

/-- Nothing of a run of blocks above the boundary is left out. -/
theorem Linked.filter_all {l : List BlockHeader} : ∀ {safe : SafeBlock}, Linked safe l →
    boundary ≤ safe.number + 1 → (l.filter fun block => boundary ≤ block.number) = l := by
  induction l with
  | nil => intro safe _ _; rfl
  | cons block l ih =>
      intro safe hlinked hsafe
      obtain ⟨hnumber, -, hlinked⟩ := hlinked
      have hblock : boundary ≤ block.number := by omega
      rw [List.filter_cons_of_pos (by simpa using hblock), ih hlinked (Nat.le_succ_of_le hblock)]

/-- What is left of a run of blocks is its end. -/
theorem Linked.filter_suffix {l : List BlockHeader} : ∀ {safe : SafeBlock}, Linked safe l →
    ∃ done, l = done ++ l.filter fun block => boundary ≤ block.number := by
  induction l with
  | nil => intro safe _; exact ⟨[], rfl⟩
  | cons block l ih =>
      intro safe hlinked
      obtain ⟨hnumber, -, hlinked⟩ := hlinked
      by_cases hblock : boundary ≤ block.number
      · refine ⟨[], ?_⟩
        rw [List.filter_cons_of_pos (by simpa using hblock),
          hlinked.filter_all (Nat.le_succ_of_le hblock)]
        rfl
      · obtain ⟨done, hdone⟩ := ih hlinked
        refine ⟨block :: done, ?_⟩
        rw [List.filter_cons_of_neg (by simpa using hblock), List.cons_append, ← hdone]

/-- What is queued at the start, by the boundary. -/
theorem start_queue {config : Config} {indexed : Option BlockStatus}
    (hboundary : boundaryOf config indexed = some boundary)
    (hfits : indexed.isSome → boundary < 2 ^ 64) (safe : Nat) (recent : List BlockHeader) :
    ∃ uncles, (uncles = [] ∨ uncles = [.uncle boundary]) ∧
      initialUpdates config indexed safe ++
          (recent.filter (isUnprocessed config indexed)).map BlockHeader.update =
        uncles ++ ((if boundary ≤ safe then [.warp boundary safe] else []) ++
          (recent.filter fun block => boundary ≤ block.number).map BlockHeader.update) := by
  cases indexed with
  | none =>
      have hstart : config.startBlock = some boundary := hboundary
      have hfilter : isUnprocessed config none = fun block => decide (boundary ≤ block.number) := by
        funext block
        simp [isUnprocessed, hstart]
      refine ⟨[], .inl rfl, ?_⟩
      rw [hfilter, initialUpdates, hstart]
      rfl
  | some indexed =>
      have hsafe : indexed.safe + 1 = boundary := Option.some.inj hboundary
      have hfilter : isUnprocessed config (some indexed) =
          fun block => decide (boundary ≤ block.number) := by
        funext block
        rw [isUnprocessed, hsafe, decide_eq_true (hfits rfl), Bool.true_and]
      refine ⟨if boundary ≤ indexed.latest then [.uncle boundary] else [], ?_, ?_⟩
      · split
        · exact .inr rfl
        · exact .inl rfl
      · rw [hfilter, initialUpdates, hsafe]
        simp only [if_pos (hfits rfl), List.append_assoc]

/-- **Nothing below the boundary is queued at the start, and the boundary comes first.** -/
theorem start_above (hnode : Numbered node) {config : Config} {timings : Timings}
    {indexed : Option BlockStatus} {fuel : Nat}
    (hboundary : boundaryOf config indexed = some boundary)
    (hhead : ∀ latest, node 0 .latest = .found latest → boundary ≤ latest.number + 1)
    (h : start node config timings indexed fuel = some (.ok watcher)) :
    Above boundary [] watcher := by
  obtain ⟨hwindow, -, ⟨latest, hlatest, hpending, hfits⟩, hqueue⟩ := start_ok hnode h
  have hle := hhead latest hlatest
  obtain ⟨uncles, huncles, hsplit⟩ := start_queue hboundary (fun _ => by omega) watcher.safe.number
    watcher.recent
  rw [hsplit] at hqueue
  refine ⟨by rw [hpending]; exact hle, ?_, ?_, ?_⟩
  · rw [List.nil_append, hqueue]
    intro update hupdate
    rcases List.mem_append.mp hupdate with huncle | hrest
    · rcases huncles with rfl | rfl
      · cases huncle
      · rw [List.mem_singleton.mp huncle]
        exact Nat.le_refl _
    · rcases List.mem_append.mp hrest with hwarp | hblock
      · split at hwarp
        · rw [List.mem_singleton.mp hwarp]
          exact Nat.le_refl _
        · cases hwarp
      · obtain ⟨block, hkept, rfl⟩ := List.mem_map.mp hblock
        have hnumber : boundary ≤ block.number := by simpa using (List.mem_filter.mp hkept).2
        exact hnumber
  · rw [List.nil_append, hqueue]
    refine ⟨uncles, _, rfl, huncles, fun update hupdate => ?_⟩
    split at hupdate
    · cases hupdate
      exact ⟨rfl, rfl⟩
    · next hwarp =>
        obtain ⟨hfilter, -⟩ := hwindow.linked.filter_boundary (Nat.lt_of_not_le hwarp)
        rw [List.nil_append, List.head?_map] at hupdate
        obtain ⟨block, hblock, rfl⟩ := Option.map_eq_some_iff.mp hupdate
        exact ⟨rfl, hfilter block hblock⟩
  · rw [List.nil_append, hqueue]
    intro hall
    rw [List.all_append, List.all_append, Bool.and_eq_true, Bool.and_eq_true] at hall
    obtain ⟨-, hwarp, hblocks⟩ := hall
    split at hwarp
    · cases hwarp
    · next hbelow =>
        obtain ⟨-, hnil⟩ := hwindow.linked.filter_boundary (Nat.lt_of_not_le hbelow)
        have hempty : (watcher.recent.filter fun block => boundary ≤ block.number) = [] := by
          cases hfilter : watcher.recent.filter fun block => boundary ≤ block.number with
          | nil => rfl
          | cons block blocks =>
              rw [hfilter] at hblocks
              cases hblocks
        have := hnil hempty
        have := hwindow.pending
        omega

end Node

/-! ### Every run -/

section Run

variable {node : Node} {config : Config} {boundary : Nat}

/-- The reports of a run lie above the boundary, and the watcher will not go below it. -/
structure Bounded (config : Config) (boundary : Nat) (history : List CallStep)
    (watcher : Option BlockWatcher) : Prop where
  window : ∀ alive, watcher = some alive → Window config alive
  above : ∀ alive, watcher = some alive → Above boundary (reportedBy history) alive
  bound : ∀ update ∈ reportedBy history, boundary ≤ update.first
  opens : Opens boundary (reportedBy history)

/-- A call whose answers keep what is below the boundary. -/
def KeepsStep (node : Node) (boundary : Nat) (st : CallStep) : Prop :=
  ∀ watcher, st.pre = some watcher → Keeps node boundary watcher st.input

theorem Bounded.step (hnode : Numbered node) {history : List CallStep}
    {watcher : Option BlockWatcher} (h : Bounded config boundary history watcher) (input : Input)
    (hkeeps : KeepsStep node boundary (Trace.take (BlockWatcher.step node) watcher input)) :
    Bounded config boundary (history ++ [Trace.take (BlockWatcher.step node) watcher input])
      (BlockWatcher.step node watcher input).1 := by
  cases hpost : (BlockWatcher.step node watcher input).1 with
  | none =>
      have hsame : reportedBy (history ++ [Trace.take (BlockWatcher.step node) watcher input]) =
          reportedBy history := by
        rw [reportedBy_concat, Trace.take_out, reported_of_none hpost, Option.toList_none,
          List.append_nil]
      refine ⟨nofun, nofun, ?_, ?_⟩
      · rw [hsame]
        exact h.bound
      · rw [hsame]
        exact h.opens
  | some after =>
      cases watcher with
      | none => cases hpost
      | some alive =>
          have hwindow := h.window alive rfl
          have habove := h.above alive rfl
          have hstep : BlockWatcher.step node (some alive) input =
              (some after, (BlockWatcher.step node (some alive) input).2) := Prod.ext hpost rfl
          have hmoves := step_moves hnode hstep
          have hpending := (hkeeps alive rfl).pending hnode hstep habove.pending
          have habove' := habove.moves hwindow hmoves hpending
          rw [← Trace.take_out, ← reportedBy_concat] at habove'
          refine ⟨?_, ?_, ?_, habove'.opens.of_append⟩
          · intro alive' heq
            cases heq
            exact hwindow.moves hmoves
          · intro alive' heq
            cases heq
            exact habove'
          · intro update hupdate
            exact habove'.bound update (List.mem_append_left _ hupdate)

theorem bounded_new (hnode : Numbered node) {chainId : Nat} {indexed : Option BlockStatus}
    {fuel : Nat} {started : BlockWatcher} (hboundary : boundaryOf config indexed = some boundary)
    (hhead : ∀ latest, node 0 .latest = .found latest → boundary ≤ latest.number + 1)
    (h : new node config chainId indexed fuel = some (.ok started)) :
    Bounded config boundary [] (some started) := by
  unfold new at h
  split at h
  · cases h
  · have hwindow := (start_ok hnode h).1
    have habove := start_above hnode hboundary hhead h
    refine ⟨?_, ?_, by simp [reportedBy], habove.opens.of_append⟩
    · intro alive heq
      cases heq
      exact hwindow
    · intro alive heq
      cases heq
      exact habove

/-- A block that is found to be replaced is the pending one from then on. -/
theorem revalidated_pending {watcher : BlockWatcher} {after : Option BlockWatcher} {input : Input}
    {invalidated : InvalidatedBlock}
    (h : BlockWatcher.step node (some watcher) input = (after, .revalidated (some invalidated))) :
    ∃ watcher', after = some watcher' ∧ watcher'.pending.number = invalidated.number := by
  unfold BlockWatcher.step at h
  cases input with
  | next attempts =>
      dsimp only at h
      split at h
      · cases h
      · cases h
      · cases h
  | revalidateLastBlock =>
      dsimp only at h
      split at h
      · next watcher' _ hcall =>
          cases h
          refine ⟨watcher', rfl, ?_⟩
          rcases revalidate_pending hcall with ⟨-, hnone⟩ | ⟨last, -, hnumber, hresult, -⟩
          · exact absurd rfl (hnone invalidated)
          · cases hresult
            exact hnumber
      · cases h

end Run

/-- **Nothing below the boundary is reported** in a run in which the head of the node is not below
the boundary at the start, and no answer replaces the block before the boundary.  What is queued at
the start, what is reported and what is found to be replaced lies at or above the boundary, and
after the synthetic reorg, if there is one, the reports begin with the boundary. -/
theorem never_below_boundary (node : Node) (hnode : Numbered node) (config : Config)
    (chainId : Nat) (indexed : Option BlockStatus) (fuel : Nat) (started : BlockWatcher)
    (hstarted : new node config chainId indexed fuel = some (.ok started)) (boundary : Nat)
    (hboundary : boundaryOf config indexed = some boundary)
    (hhead : ∀ latest, node 0 .latest = .found latest → boundary ≤ latest.number + 1)
    (inputs : List Input)
    (hkeeps : ∀ st ∈ Trace.trace (step node) (some started) inputs, ∀ watcher,
      st.pre = some watcher → Keeps node boundary watcher st.input) :
    let history := Trace.trace (step node) (some started) inputs
    (∀ update ∈ started.queue ++ reportedBy history, boundary ≤ update.first) ∧
      (∀ st ∈ history, ∀ invalidated, st.out = .revalidated (some invalidated) →
        boundary ≤ invalidated.number) ∧
      Opens boundary (reportedBy history) := by
  intro history
  have hnew := bounded_new hnode hboundary hhead hstarted
  have hstep : ∀ (history : List CallStep) watcher input, Bounded config boundary history watcher →
      KeepsStep node boundary (Trace.take (step node) watcher input) →
      Bounded config boundary (history ++ [Trace.take (step node) watcher input])
        (step node watcher input).1 :=
    fun _ _ input h hkeeps => h.step hnode input hkeeps
  have hbounded := Trace.history_invariant hnew hstep inputs hkeeps
  refine ⟨?_, ?_, hbounded.opens⟩
  · intro update hupdate
    rcases List.mem_append.mp hupdate with hqueued | hreported
    · exact (hnew.above started rfl).bound update (List.mem_append_right _ hqueued)
    · exact hbounded.bound update hreported
  · intro st hst invalidated hout
    obtain ⟨before, after, hsplit⟩ := List.append_of_mem hst
    obtain ⟨hbefore, htake⟩ := Trace.split_invariant hnew hstep hkeeps hsplit
    cases hpre : st.pre with
    | none =>
        rw [htake, hpre] at hout
        cases hout
    | some watcher =>
        have hpost : step node (some watcher) st.input = (st.post, .revalidated (some invalidated)) := by
          rw [← hpre, ← hout, htake]
          rfl
        obtain ⟨watcher', hwatcher', hnumber⟩ := revalidated_pending hpost
        rw [hwatcher'] at hpost
        rw [← hnumber]
        exact (hkeeps st hst watcher hpre).pending hnode hpost (hbefore.above watcher hpre).pending

/-! ### Runs that keep the boundary, and runs that cross it

The node serves blocks up to 2 while the watcher starts, and block 3 afterwards.  In the second
version it replaces blocks 1 and 2 in between.
-/

/-- The chain of the node; the blocks from `fork` on are other ones after the start. -/
def forkNode (fork : Nat) (requests : Nat) (id : BlockId) : Answer :=
  let hash := fun number : Nat =>
    if requests < 3 ∨ number < fork then BitVec.ofNat 256 (0xA0 + number)
    else BitVec.ofNat 256 (0xB0 + number)
  let block := fun number : Nat => Answer.found
    { number, hash := hash number, parentHash := hash (number - 1), timestamp := number
      logsBloom := 0 }
  match id with
  | .latest => block 2
  | .number number => if number ≤ 3 then block number else .missing

/-- Two blocks may be replaced. -/
def startingAt (startBlock : Nat) : Config where
  blockTime := .auto
  blockPropagationDelay := .auto
  blockRetryDelays := .auto
  maxReorgDepth := 2
  startBlock := some startBlock

/-- The watcher after the start, with what it has queued. -/
def startedAt (startBlock : Nat) (queue : List BlockUpdate) : BlockWatcher where
  config := startingAt startBlock
  timings := ⟨5000, 500, [500, 500, 500, 1000, 250, 250]⟩
  pending := ⟨3, 7000⟩
  safe := ⟨0, 0xA0⟩
  recent := [⟨1, 0xA1, 0xA0, 1, 0⟩, ⟨2, 0xA2, 0xA1, 2, 0⟩]
  queue
  requests := 3

theorem forkNode_numbered (fork : Nat) : Numbered (forkNode fork) := by
  intro requests number block h
  unfold forkNode at h
  dsimp only at h
  split at h
  · cases h
    rfl
  · cases h

/-- **A start block above the head, and a reorg below the start block, are crossed.**  The watcher
that is to begin at block 5 reports block 3, and the one that is to begin at block 2 takes block 1
back. -/
theorem boundary_is_crossed :
    (new (forkNode 4) (startingAt 5) 100 none 4 = some (.ok (startedAt 5 [])) ∧
      boundaryOf (startingAt 5) none = some 5 ∧
      ¬ ∀ update ∈ reportedBy (Trace.trace (step (forkNode 4)) (some (startedAt 5 []))
          [.next 1]), 5 ≤ update.first) ∧
    new (forkNode 1) (startingAt 2) 100 none 4 = some (.ok (startedAt 2 [.new 2 0xA2 2 0])) ∧
      boundaryOf (startingAt 2) none = some 2 ∧
      ¬ ∀ update ∈ reportedBy (Trace.trace (step (forkNode 1))
          (some (startedAt 2 [.new 2 0xA2 2 0])) (List.replicate 3 (.next 1))),
        2 ≤ update.first := by
  decide +kernel

/-- Without a reorg the watcher that is to begin at block 2 begins there. -/
theorem boundary_is_kept :
    reportedBy (Trace.trace (step (forkNode 4)) (some (startedAt 2 [.new 2 0xA2 2 0]))
        [.next 1, .next 1]) = [.new 2 0xA2 2 0, .new 3 0xA3 3 0] ∧
      Opens 2 (reportedBy (Trace.trace (step (forkNode 4))
        (some (startedAt 2 [.new 2 0xA2 2 0])) [.next 1, .next 1])) := by
  have hkeeps : ∀ st ∈ Trace.trace (step (forkNode 4)) (some (startedAt 2 [.new 2 0xA2 2 0]))
      [.next 1, .next 1], ∀ watcher, st.pre = some watcher →
        Keeps (forkNode 4) 2 watcher st.input := by
    intro st hst watcher hpre
    simp only [Trace.trace_cons, Trace.trace_nil, List.mem_cons, List.not_mem_nil, or_false] at hst
    rcases hst with rfl | rfl
    · cases hpre
      intro hqueue
      cases hqueue
    · -- the last block is the boundary itself
      have hpre' : some watcher = some (startedAt 2 []) := hpre.symm
      cases hpre'
      intro _ last hlast hbelow
      cases hlast
      exact absurd hbelow (by decide)
  obtain ⟨-, -, hopens⟩ := never_below_boundary (forkNode 4) (forkNode_numbered 4) (startingAt 2)
    100 none 4 (startedAt 2 [.new 2 0xA2 2 0]) (by decide +kernel) 2 rfl
    (fun latest hlatest => by cases hlatest; decide) [.next 1, .next 1] hkeeps
  exact ⟨by decide +kernel, hopens⟩

end BlockWatcher

end Safenet.Core
