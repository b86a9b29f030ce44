/-
The window of the block watcher, and the chain it reports.

`Linked` is a run of blocks with consecutive numbers, each the parent of the next, on top of a
block of which only number and hash are known.  The blocks after the safe one are always such a
run (`Window`), for every way of starting and whatever the node answers.

For a fresh start the reported blocks are a run on top of the first safe block.  `Following` keeps
track of how far the reports are behind the window: either the last blocks of the window are
still queued, or a block that was dropped from it is still to be taken back.
-/
import Safenet.Core.BlockWatcher
import Safenet.Lib.Trace

namespace Safenet.Core

open Fallible

namespace BlockWatcher

/-! ### Runs of blocks -/

/-- The block a run of blocks ends in. -/
def tip (safe : SafeBlock) : List BlockHeader → SafeBlock
  | [] => safe
  | block :: blocks => tip ⟨block.number, block.hash⟩ blocks

/-- Blocks with consecutive numbers, each the parent of the next. -/
def Linked (safe : SafeBlock) : List BlockHeader → Prop
  | [] => True
  | block :: blocks => block.number = safe.number + 1 ∧ block.parentHash = safe.hash ∧
      Linked ⟨block.number, block.hash⟩ blocks

theorem tip_append (l : List BlockHeader) : ∀ (safe : SafeBlock) (l' : List BlockHeader),
    tip safe (l ++ l') = tip (tip safe l) l' := by
  induction l with
  | nil => intro safe l'; rfl
  | cons block l ih => intro safe l'; exact ih _ l'

theorem linked_append (l : List BlockHeader) : ∀ {safe : SafeBlock} {l' : List BlockHeader},
    Linked safe (l ++ l') ↔ Linked safe l ∧ Linked (tip safe l) l' := by
  induction l with
  | nil => intro safe l'; simp [Linked, tip]
  | cons block l ih =>
      intro safe l'
      show _ ∧ _ ∧ Linked _ (l ++ l') ↔ (_ ∧ _ ∧ Linked _ l) ∧ Linked (tip _ l) l'
      rw [ih, and_assoc, and_assoc]

theorem Linked.tip_number {l : List BlockHeader} : ∀ {safe : SafeBlock}, Linked safe l →
    (tip safe l).number = safe.number + l.length := by
  induction l with
  | nil => intro safe _; rfl
  | cons block l ih =>
      intro safe h
      rw [tip, ih h.2.2, List.length_cons]
      show block.number + l.length = _
      rw [h.1]
      omega

/-- The number of a block says where in the run it stands. -/
theorem Linked.number {safe : SafeBlock} {l l' : List BlockHeader} {block : BlockHeader}
    (h : Linked safe (l ++ block :: l')) : block.number = safe.number + l.length + 1 := by
  obtain ⟨hl, hblock, -⟩ := (linked_append l).mp h
  rw [hblock, hl.tip_number]

theorem linked_concat {safe : SafeBlock} {l : List BlockHeader} {block : BlockHeader} :
    Linked safe (l ++ [block]) ↔
      Linked safe l ∧ block.number = (tip safe l).number + 1 ∧ block.parentHash = (tip safe l).hash := by
  rw [linked_append]
  simp [Linked]

@[simp] theorem tip_concat (safe : SafeBlock) (l : List BlockHeader) (block : BlockHeader) :
    tip safe (l ++ [block]) = ⟨block.number, block.hash⟩ := by
  rw [tip_append]
  rfl

/-! ### The answers of the node -/

/-- The node answers a request for a number with a block of that number. -/
def Numbered (node : Node) : Prop :=
  ∀ requests number block, node requests (.number number) = .found block → block.number = number

/-- The node has sent this header. -/
def Answered (node : Node) (block : BlockHeader) : Prop := ∃ requests id, node requests id = .found block

section Node

variable {node : Node} {watcher watcher' : BlockWatcher} {block : BlockHeader}

private theorem getBlock_ok {requests : Nat} {id : BlockId}
    (h : getBlock node requests id = .ok (some block)) : node requests id = .found block := by
  unfold getBlock at h
  split at h
  · cases h
  · cases h
  · next found heq =>
      cases h
      exact heq

private theorem requireBlock_ok {requests : Nat} {id : BlockId}
    (h : requireBlock node requests id = .ok block) : node requests id = .found block := by
  obtain ⟨answer, hget, h⟩ := bind_eq_ok.mp h
  cases answer with
  | none => cases h
  | some found =>
      rw [← pure_eq_ok.mp h]
      exact getBlock_ok hget

theorem checked_ok {n m : Nat} (h : checked n = .ok m) : n = m := by
  unfold checked at h
  split at h
  · exact Except.ok.inj h
  · cases h

private theorem getBlock_error {requests : Nat} {id : BlockId} {error : Error}
    (h : getBlock node requests id = .error error) : error = .rpc := by
  unfold getBlock at h
  split at h
  · cases h
    rfl
  · cases h
  · cases h

/-- A smaller value fits too. -/
theorem checked_of_le {n m k : Nat} (hle : n ≤ m) (h : checked m = .ok k) : checked n = .ok n := by
  unfold checked at h ⊢
  split at h
  · rw [if_pos (by omega)]
  · cases h

theorem checked_error {n : Nat} {error : Error} (h : checked n = .error error) :
    error = .panicked := by
  unfold checked at h
  split at h
  · cases h
  · cases h
    rfl

private theorem nextPendingBlock_error {timings : Timings} {number timestamp : Nat} {error : Error}
    (h : nextPendingBlock timings number timestamp = .error error) : error = .panicked := by
  have hchecked : ∀ n : Nat, Avoids (· ≠ .panicked) (checked n) := by
    intro n error herror
    rw [checked_error herror, not_not]
  have havoids : Avoids (· ≠ .panicked) (nextPendingBlock timings number timestamp) := by
    apply avoids_bind (hchecked _)
    intro next _
    apply avoids_bind (hchecked _)
    intro product _
    apply avoids_bind (hchecked _)
    intro sum _
    exact avoids_ok
  exact not_not.mp (havoids error h)

private theorem nextPendingBlock_ok {timings : Timings} {number timestamp : Nat} {pending : PendingBlock}
    (h : nextPendingBlock timings number timestamp = .ok pending) : pending.number = number + 1 := by
  obtain ⟨next, hnext, h⟩ := bind_eq_ok.mp h
  obtain ⟨ms, -, h⟩ := bind_eq_ok.mp h
  obtain ⟨ms', -, h⟩ := bind_eq_ok.mp h
  rw [← pure_eq_ok.mp h]
  exact (checked_ok hnext).symm

/-- The number after a block is a `u64`. -/
private theorem nextPendingBlock_lt {timings : Timings} {number timestamp : Nat}
    {pending : PendingBlock} (h : nextPendingBlock timings number timestamp = .ok pending) :
    number + 1 < 2 ^ 64 := by
  obtain ⟨next, hnext, -⟩ := bind_eq_ok.mp h
  unfold checked at hnext
  split at hnext
  · assumption
  · cases hnext

/-! ### The window -/

/-- The blocks the watcher holds. -/
structure Window (config : Config) (watcher : BlockWatcher) : Prop where
  config_eq : watcher.config = config
  linked : Linked watcher.safe watcher.recent
  depth : watcher.recent.length ≤ config.maxReorgDepth
  pending : watcher.pending.number = watcher.safe.number + watcher.recent.length + 1

/-- What the scan has found so far: a run of blocks from the safe one on. -/
structure Scanned (node : Node) (safe latestNumber : Nat) (scan : Scan) : Prop where
  number : scan.number = safe + scan.recent.length
  bound : scan.number ≤ latestNumber + 1
  parentHash : scan.parentHash = scan.recent.getLast?.map BlockHeader.hash
  linked : ∀ anchor rest, scan.recent = anchor :: rest →
    anchor.number = safe ∧ Linked ⟨anchor.number, anchor.hash⟩ rest
  answered : ∀ block ∈ scan.recent, Answered node block
  latest : ∀ block ∈ scan.canonicalLatest, block.number = latestNumber ∧ Answered node block

/-- The block a round looks at has the number asked for. -/
private theorem round_ok (hnode : Numbered node) {safe latestNumber : Nat} {scan scan' : Scan}
    (h : Scanned node safe latestNumber scan)
    (hround : scan.round node safe latestNumber = .ok scan') :
    ∃ block requests canonicalLatest, block.number = scan.number ∧ Answered node block ∧
      (∀ latest ∈ canonicalLatest, latest ∈ scan.canonicalLatest) ∧
      scan' = if scan.parentHash.all (· = block.parentHash) then
        { number := scan.number + 1, parentHash := some block.hash, canonicalLatest,
          recent := scan.recent ++ [block], requests }
      else { number := safe, parentHash := none, canonicalLatest := none, recent := [], requests } := by
  obtain ⟨⟨block, requests⟩, hblock, hround⟩ := bind_eq_ok.mp hround
  refine ⟨block, requests, if scan.number = latestNumber then none else scan.canonicalLatest, ?_⟩
  have hfound : block.number = scan.number ∧ Answered node block := by
    unfold Scan.fetch at hblock
    split at hblock
    · next cached hcached =>
        have heq := pure_eq_ok.mp hblock
        simp only [Prod.mk.injEq] at heq
        rw [← heq.1]
        split at hcached
        · next hnumber =>
            rw [hnumber]
            exact h.latest cached hcached
        · cases hcached
    · obtain ⟨found, hrequire, hblock⟩ := bind_eq_ok.mp hblock
      have heq := pure_eq_ok.mp hblock
      simp only [Prod.mk.injEq] at heq
      rw [← heq.1]
      have hanswer := requireBlock_ok hrequire
      exact ⟨hnode _ _ _ hanswer, _, _, hanswer⟩
  refine ⟨hfound.1, hfound.2, ?_, ?_⟩
  · intro latest hlatest
    split at hlatest
    · cases hlatest
    · exact hlatest
  · dsimp only at hround
    split at hround
    · next hlinks =>
        rw [if_pos hlinks]
        exact (pure_eq_ok.mp hround).symm
    · next hlinks =>
        rw [if_neg hlinks]
        exact (pure_eq_ok.mp hround).symm

private theorem Scanned.round (hnode : Numbered node) {safe latestNumber : Nat} {scan scan' : Scan}
    (hsafe : safe ≤ latestNumber) (h : Scanned node safe latestNumber scan)
    (hrunning : scan.number ≤ latestNumber)
    (hround : scan.round node safe latestNumber = .ok scan') : Scanned node safe latestNumber scan' := by
  obtain ⟨block, requests, canonicalLatest, hnumber, hanswered, hlatest, rfl⟩ :=
    round_ok hnode h hround
  split
  · next hlinks =>
      refine ⟨?_, ?_, ?_, ?_, ?_, ?_⟩
      · show scan.number + 1 = safe + (scan.recent ++ [block]).length
        rw [List.length_append, List.length_singleton, h.number]
        omega
      · show scan.number + 1 ≤ latestNumber + 1
        omega
      · simp
      · intro anchor rest hrest
        cases hrecent : scan.recent with
        | nil =>
            rw [hrecent] at hrest
            cases hrest
            have hfirst := h.number
            rw [hrecent, List.length_nil] at hfirst
            exact ⟨by omega, trivial⟩
        | cons first others =>
            rw [hrecent, List.cons_append] at hrest
            cases hrest
            obtain ⟨hanchor, hlinked⟩ := h.linked anchor others hrecent
            refine ⟨hanchor, linked_concat.mpr ⟨hlinked, ?_, ?_⟩⟩
            · have hcount := h.number
              rw [hrecent, List.length_cons] at hcount
              rw [hlinked.tip_number, hnumber, hcount]
              show _ = anchor.number + _ + 1
              omega
            · have hparent := h.parentHash
              rw [hrecent] at hparent
              -- the last hash seen is that of the tip
              have htip : (anchor :: others).getLast?.map BlockHeader.hash =
                  some (tip ⟨anchor.number, anchor.hash⟩ others).hash := by
                rcases List.eq_nil_or_concat others with rfl | ⟨init, last, rfl⟩
                · rfl
                · rw [List.concat_eq_append, tip_concat, ← List.cons_append, List.getLast?_concat]
                  rfl
              rw [htip] at hparent
              rw [hparent] at hlinks
              have heq : (tip ⟨anchor.number, anchor.hash⟩ others).hash = block.parentHash := by
                simpa using hlinks
              exact heq.symm
      · intro other hother
        rcases List.mem_append.mp hother with hold | hnew
        · exact h.answered other hold
        · rw [List.mem_singleton.mp hnew]
          exact hanswered
      · intro latest hin
        exact h.latest latest (hlatest latest hin)
  · refine ⟨rfl, ?_, rfl, ?_, ?_, ?_⟩
    · show safe ≤ latestNumber + 1
      omega
    · intro anchor rest hrest
      cases hrest
    · intro other hother
      cases hother
    · intro latest hin
      cases hin

/-- **A watcher starts with a window** that ends in the head of the chain, and with what is not
processed of it queued. -/
theorem start_ok (hnode : Numbered node) {config : Config} {timings : Timings}
    {indexed : Option BlockStatus} {fuel : Nat}
    (h : start node config timings indexed fuel = some (.ok watcher)) :
    Window config watcher ∧ (∀ block ∈ watcher.recent, Answered node block) ∧
      (∃ latest, node 0 .latest = .found latest ∧ watcher.pending.number = latest.number + 1 ∧
        latest.number + 1 < 2 ^ 64) ∧
      watcher.queue = initialUpdates config indexed watcher.safe.number ++
        (watcher.recent.filter (isUnprocessed config indexed)).map BlockHeader.update := by
  unfold start at h
  split at h
  · cases h
  · next latest pending hlatest =>
      obtain ⟨found, hrequire, hlatest⟩ := bind_eq_ok.mp hlatest
      obtain ⟨after, hpending, hlatest⟩ := bind_eq_ok.mp hlatest
      have heq := pure_eq_ok.mp hlatest
      simp only [Prod.mk.injEq] at heq
      obtain ⟨rfl, rfl⟩ := heq
      obtain ⟨result, hscan, h⟩ := Option.bind_eq_some_iff.mp h
      have hinvariant := Loop.iterate_invariant
        (I := fun result => ∀ scan, result = .ok scan →
          Scanned node (found.number - config.maxReorgDepth) found.number scan)
        (fun result hresult hrunning scan' hround => by
          obtain ⟨scan, hok, hround⟩ := bind_eq_ok.mp hround
          have hnumber : scan.number ≤ found.number := by
            rw [hok] at hrunning
            exact of_decide_eq_true hrunning
          exact Scanned.round hnode (Nat.sub_le _ _) (hresult scan hok) hnumber hround)
        hscan
        (fun scan hstart => by
          cases hstart
          refine ⟨rfl, ?_, rfl, ?_, ?_, ?_⟩
          · show found.number - config.maxReorgDepth ≤ found.number + 1
            omega
          · intro anchor rest hrest
            cases hrest
          · intro block hblock
            cases hblock
          · intro block hblock
            cases hblock
            exact ⟨rfl, _, _, requireBlock_ok hrequire⟩)
      obtain ⟨hscanned, hended⟩ := hinvariant
      cases result with
      | error error => cases h
      | ok scan =>
          have hscan := hscanned scan rfl
          have hlast : ¬ scan.number ≤ found.number := of_decide_eq_false hended
          dsimp only at h
          split at h
          · cases h
          · next anchor recent hrecent =>
              cases h
              obtain ⟨hanchor, hlinked⟩ := hscan.linked anchor recent hrecent
              have hcount := hscan.number
              have hbound := hscan.bound
              rw [hrecent, List.length_cons] at hcount
              refine ⟨⟨rfl, hlinked, ?_, ?_⟩, ?_,
                ⟨found, requireBlock_ok hrequire, nextPendingBlock_ok hpending,
                  nextPendingBlock_lt hpending⟩, ?_⟩
              · show recent.length ≤ config.maxReorgDepth
                omega
              · show after.number = anchor.number + recent.length + 1
                rw [nextPendingBlock_ok hpending]
                omega
              · intro block hblock
                apply hscan.answered
                rw [hrecent]
                exact List.mem_cons_of_mem _ hblock
              · show initialUpdates config indexed _ ++ _ = initialUpdates config indexed anchor.number ++ _
                rw [hanchor]

/-! ### What a call can do -/

/-- The two watchers hold the same blocks and updates. -/
structure SameBlocks (watcher watcher' : BlockWatcher) : Prop where
  config : watcher'.config = watcher.config
  safe : watcher'.safe = watcher.safe
  recent : watcher'.recent = watcher.recent
  queue : watcher'.queue = watcher.queue
  pending : watcher'.pending.number = watcher.pending.number

/-- The update an output carries. -/
def Output.reported : Output → Option BlockUpdate
  | .update report => some report
  | _ => none

/-- What a call that leaves the watcher alive does to it, with what it reports. -/
inductive Moves (node : Node) (watcher watcher' : BlockWatcher) : Option BlockUpdate → Prop
  /-- Nothing but time passes. -/
  | idle (hsame : SameBlocks watcher watcher') : Moves node watcher watcher' none
  /-- A queued update is reported. -/
  | dequeue (update : BlockUpdate) (queue : List BlockUpdate) (hqueue : watcher.queue = update :: queue)
      (hpost : watcher' = { watcher with queue }) : Moves node watcher watcher' (some update)
  /-- The last block is taken back. -/
  | uncle (init : List BlockHeader) (last : BlockHeader) (hqueue : watcher.queue = [])
      (hrecent : watcher.recent = init ++ [last]) (hconfig : watcher'.config = watcher.config)
      (hsafe : watcher'.safe = watcher.safe) (hrecent' : watcher'.recent = init)
      (hqueue' : watcher'.queue = []) (hpending : watcher'.pending.number = last.number) :
      Moves node watcher watcher' (some (.uncle last.number))
  /-- A block is added, and the oldest one leaves a full window. -/
  | new (block : BlockHeader) (hqueue : watcher.queue = [])
      (hnumber : block.number = watcher.pending.number) (hanswered : Answered node block)
      (hparent : block.parentHash = (tip watcher.safe watcher.recent).hash)
      (hconfig : watcher'.config = watcher.config)
      (hwindow : (watcher.recent ++ [block] = watcher'.recent ∧ watcher'.safe = watcher.safe ∧
          watcher'.recent.length ≤ watcher.config.maxReorgDepth) ∨
        ∃ evicted, watcher.recent ++ [block] = evicted :: watcher'.recent ∧
          watcher'.safe = ⟨evicted.number, evicted.hash⟩)
      (hqueue' : watcher'.queue = []) (hpending : watcher'.pending.number = block.number + 1) :
      Moves node watcher watcher' (some block.update)
  /-- The last block reported, and what comes after it, is dropped. -/
  | invalidated (init rest : List BlockHeader) (last : BlockHeader) (number : Option Nat)
      (hnumber : nextNumber watcher.queue = some number)
      (hrecent : watcher.recent = init ++ last :: rest)
      (hlast : number.all (last.number < ·) = true)
      (hrest : ∀ block ∈ rest, number.all (block.number < ·) = false)
      (hconfig : watcher'.config = watcher.config) (hsafe : watcher'.safe = watcher.safe)
      (hrecent' : watcher'.recent = init) (hqueue' : watcher'.queue = [.uncle last.number])
      (hpending : watcher'.pending.number = last.number) : Moves node watcher watcher' none

private theorem SameBlocks.refl (watcher : BlockWatcher) : SameBlocks watcher watcher :=
  ⟨rfl, rfl, rfl, rfl, rfl⟩

/-- Waiting changes nothing, and the block waited for is the pending one. -/
theorem poll_ok (hnode : Numbered node) (attempts : Nat) :
    ∀ {retryCount : Nat} {watcher watcher' : BlockWatcher} {result : Except Error (Option BlockHeader)},
      poll node attempts retryCount watcher = (watcher', result) →
        SameBlocks watcher watcher' ∧
          (∀ block, result = .ok (some block) →
            block.number = watcher.pending.number ∧ Answered node block) ∧
          ∀ error, result = .error error → error = .rpc ∨ error = .panicked := by
  induction attempts with
  | zero =>
      intro retryCount watcher watcher' result h
      cases h
      exact ⟨.refl _, by simp, by simp⟩
  | succ attempts ih =>
      intro retryCount watcher watcher' result h
      unfold poll at h
      dsimp only at h
      split at h
      · next error herror =>
          cases h
          refine ⟨⟨rfl, rfl, rfl, rfl, rfl⟩, by simp, ?_⟩
          intro error' heq
          cases heq
          exact .inl (getBlock_error herror)
      · next found hget =>
          cases h
          refine ⟨⟨rfl, rfl, rfl, rfl, rfl⟩, ?_, by simp⟩
          intro block hblock
          cases hblock
          have hanswer := getBlock_ok hget
          exact ⟨hnode _ _ _ hanswer, _, _, hanswer⟩
      · split at h
        · obtain ⟨⟨hconfig, hsafe, hrecent, hqueue, hpending⟩, hresult⟩ := ih h
          exact ⟨⟨hconfig, hsafe, hrecent, hqueue, hpending⟩, hresult⟩
        · split at h
          · next error herror =>
              cases h
              refine ⟨⟨rfl, rfl, rfl, rfl, rfl⟩, by simp, ?_⟩
              intro error' heq
              cases heq
              exact .inr (checked_error herror)
          · obtain ⟨⟨hconfig, hsafe, hrecent, hqueue, hpending⟩, hresult⟩ := ih h
            exact ⟨⟨hconfig, hsafe, hrecent, hqueue, hpending⟩, hresult⟩

private theorem record_ok {polled : BlockWatcher} {update : BlockUpdate}
    (hsame : SameBlocks watcher polled) (hqueue : watcher.queue = [])
    (hnumber : block.number = watcher.pending.number) (hanswered : Answered node block)
    (hparent : block.parentHash = (tip polled.safe polled.recent).hash)
    (h : record polled block = (watcher', .ok update)) :
    Moves node watcher watcher' (some update) := by
  have hqueue' : polled.queue = [] := hsame.queue.trans hqueue
  rw [hsame.safe, hsame.recent] at hparent
  unfold record at h
  split at h
  · cases h
  · next pending hpending =>
      have hnext := nextPendingBlock_ok hpending
      dsimp only at h
      split at h
      · split at h
        · next hnil => simp at hnil
        · next evicted rest hrest =>
            cases h
            rw [hsame.recent] at hrest
            exact .new block hqueue hnumber hanswered hparent hsame.config (.inr ⟨evicted, hrest, rfl⟩)
              hqueue' hnext
      · next hfits =>
          cases h
          have hwithin := Nat.le_of_not_lt hfits
          rw [hsame.config] at hwithin
          refine .new block hqueue hnumber hanswered hparent hsame.config (.inl ⟨?_, hsame.safe, hwithin⟩)
            hqueue' hnext
          show watcher.recent ++ [block] = polled.recent ++ [block]
          rw [hsame.recent]

private theorem tip_hash (safe : SafeBlock) (recent : List BlockHeader) :
    (tip safe recent).hash = match recent.getLast? with
      | some last => last.hash
      | none => safe.hash := by
  rcases List.eq_nil_or_concat recent with rfl | ⟨init, last, rfl⟩
  · rfl
  · rw [List.concat_eq_append, tip_concat, List.getLast?_concat]

private theorem receive_ok {polled : BlockWatcher} {update : BlockUpdate}
    (hsame : SameBlocks watcher polled) (hqueue : watcher.queue = [])
    (hnumber : block.number = watcher.pending.number) (hanswered : Answered node block)
    (h : receive polled block = (watcher', .ok update)) :
    Moves node watcher watcher' (some update) := by
  have htip := tip_hash polled.safe polled.recent
  unfold receive at h
  split at h
  · next last hlast =>
      rw [hlast] at htip
      split at h
      · unfold uncleLast at h
        split at h
        · cases h
        · cases h
          obtain ⟨init, hrecent⟩ := List.getLast?_eq_some_iff.mp hlast
          refine .uncle init last hqueue (hsame.recent.symm.trans hrecent) hsame.config hsame.safe ?_
            (hsame.queue.trans hqueue) rfl
          show polled.recent.dropLast = init
          rw [hrecent, List.dropLast_concat]
      · next heq =>
          rw [not_not] at heq
          exact record_ok hsame hqueue hnumber hanswered (heq.symm.trans htip.symm) h
  · next hnil =>
      rw [hnil] at htip
      split at h
      · cases h
      · next heq =>
          rw [not_not] at heq
          exact record_ok hsame hqueue hnumber hanswered (heq.symm.trans htip.symm) h

private theorem record_error {error : Error} (h : record watcher block = (watcher', .error error)) :
    error = .panicked := by
  unfold record at h
  split at h
  · next herror =>
      cases h
      exact nextPendingBlock_error herror
  · dsimp only at h
    split at h
    · split at h
      · cases h
      · cases h
    · cases h

/-- A fetched block is refused only by a panic, or if it does not build on the safe block. -/
theorem receive_error {error : Error} (h : receive watcher block = (watcher', .error error)) :
    error = .panicked ∨ (watcher' = watcher ∧
      error = .exceededMaxReorgDepth watcher.config.maxReorgDepth ∧
      watcher.recent = [] ∧ block.parentHash ≠ watcher.safe.hash) := by
  unfold receive at h
  split at h
  · split at h
    · unfold uncleLast at h
      split at h
      · next herror =>
          cases h
          exact .inl (checked_error herror)
      · cases h
    · exact .inl (record_error h)
  · next hnil =>
      split at h
      · next hne =>
          cases h
          exact .inr ⟨rfl, rfl, List.getLast?_eq_none_iff.mp hnil, fun heq => hne heq.symm⟩
      · exact .inl (record_error h)

private theorem rposition_none {α : Type} {p : α → Bool} (l : List α) (h : rposition p l = none) :
    ∀ a ∈ l, p a = false := by
  induction l with
  | nil =>
      intro a ha
      cases ha
  | cons b l ih =>
      unfold rposition at h
      split at h
      · cases h
      · next hnone =>
          split at h
          · cases h
          · next hb =>
              intro a ha
              rcases List.mem_cons.mp ha with rfl | hin
              · exact Bool.eq_false_iff.mpr hb
              · exact ih hnone a hin

/-- `rposition` finds the last element with the property. -/
theorem rposition_some {α : Type} {p : α → Bool} (l : List α) : ∀ {i : Nat},
    rposition p l = some i → ∃ init a rest, l = init ++ a :: rest ∧ init.length = i ∧ p a = true ∧
      ∀ b ∈ rest, p b = false := by
  induction l with
  | nil => intro i h; cases h
  | cons a l ih =>
      intro i h
      unfold rposition at h
      split at h
      · next j hj =>
          cases h
          obtain ⟨init, b, rest, hl, hlength, hb, hrest⟩ := ih hj
          refine ⟨a :: init, b, rest, ?_, ?_, hb, hrest⟩
          · rw [hl, List.cons_append]
          · rw [List.length_cons, hlength]
      · next hnone =>
          split at h
          · next ha =>
              cases h
              exact ⟨[], a, l, rfl, rfl, ha, rposition_none l hnone⟩
          · cases h

/-- **What looking at the last block again can do.**  If there is such a block, it is dropped exactly
when the node answers with another one, or with none. -/
theorem revalidate_cases {result : Except Error (Option InvalidatedBlock)}
    (h : revalidateLastBlock node watcher = (watcher', result)) :
    (lastReported watcher = none ∧ watcher' = watcher ∧ result = .ok none) ∨
      ∃ init last rest number, nextNumber watcher.queue = some number ∧
        watcher.recent = init ++ last :: rest ∧ number.all (last.number < ·) = true ∧
        (∀ block ∈ rest, number.all (block.number < ·) = false) ∧
        lastReported watcher = some last ∧
        ((watcher' = { watcher with requests := watcher.requests + 1 } ∧
            (result = .ok none ∨ result = .error .rpc ∨ result = .error .panicked)) ∨
          ((∃ timestampMs, watcher' =
              { watcher with
                  requests := watcher.requests + 1
                  recent := init
                  pending := ⟨last.number, timestampMs⟩
                  queue := [.uncle last.number] }) ∧
            result = .ok (some ⟨last.number, last.hash⟩) ∧
            (node watcher.requests (.number last.number) = .missing ∨
              ∃ block, node watcher.requests (.number last.number) = .found block ∧
                block.hash ≠ last.hash))) := by
  unfold revalidateLastBlock at h
  unfold lastReported
  split at h
  · next hnumber =>
      cases h
      rw [hnumber]
      exact .inl ⟨rfl, rfl, rfl⟩
  · next number hnumber =>
      rw [hnumber, Option.bind_some]
      split at h
      · next hindex =>
          cases h
          rw [hindex]
          exact .inl ⟨rfl, rfl, rfl⟩
      · next lastIndex hindex =>
          obtain ⟨init, last, rest, hrecent, hlength, hlast, hrest⟩ := rposition_some _ hindex
          have hget : watcher.recent[lastIndex]? = some last := by
            rw [hrecent, ← hlength]
            simp
          have htake : watcher.recent.take lastIndex = init := by
            rw [hrecent, ← hlength]
            simp
          rw [hindex, Option.bind_some]
          rw [hget] at h ⊢
          refine .inr ⟨init, last, rest, number, rfl, hrecent, hlast, hrest, rfl, ?_⟩
          dsimp only at h
          split at h
          · next error herror =>
              cases h
              rw [getBlock_error herror]
              exact .inl ⟨rfl, .inr (.inl rfl)⟩
          · next current hcurrent =>
              split at h
              · cases h
                exact .inl ⟨rfl, .inl rfl⟩
              · next hne =>
                  split at h
                  · next error herror =>
                      cases h
                      rw [checked_error herror]
                      exact .inl ⟨rfl, .inr (.inr rfl)⟩
                  · cases h
                    rw [htake]
                    refine .inr ⟨⟨_, rfl⟩, rfl, ?_⟩
                    unfold getBlock at hcurrent
                    cases hanswer : node watcher.requests (.number last.number) with
                    | failed =>
                        rw [hanswer] at hcurrent
                        cases hcurrent
                    | missing => exact .inl rfl
                    | found block =>
                        rw [hanswer] at hcurrent
                        cases hcurrent
                        exact .inr ⟨block, rfl, fun heq => hne (congrArg some heq)⟩

private theorem revalidate_ok {result : Except Error (Option InvalidatedBlock)}
    (h : revalidateLastBlock node watcher = (watcher', result)) :
    Moves node watcher watcher' none := by
  rcases revalidate_cases h with ⟨-, rfl, -⟩ |
    ⟨init, last, rest, number, hnumber, hrecent, hlast, hrest, -, hsame | ⟨⟨t, rfl⟩, -, -⟩⟩
  · exact .idle (.refl _)
  · rw [hsame.1]
    exact .idle ⟨rfl, rfl, rfl, rfl, rfl⟩
  · exact .invalidated init rest last number hnumber hrecent hlast hrest rfl rfl rfl rfl rfl

/-- **Every call that the watcher survives does one of the listed things.** -/
theorem step_moves (hnode : Numbered node) {input : Input} {output : Output}
    (h : step node (some watcher) input = (some watcher', output)) :
    Moves node watcher watcher' output.reported := by
  unfold step at h
  cases input with
  | revalidateLastBlock =>
      dsimp only at h
      split at h
      · next after invalidated hcall =>
          cases h
          exact revalidate_ok hcall
      · next after error hcall =>
          have hmoves := revalidate_ok hcall
          cases error <;> cases h <;> exact hmoves
  | next attempts =>
      dsimp only at h
      unfold next at h
      cases hqueue : watcher.queue with
      | cons update queue =>
          rw [hqueue] at h
          cases h
          exact .dequeue update queue hqueue rfl
      | nil =>
          rw [hqueue] at h
          dsimp only at h
          rcases hpoll : poll node attempts 0 watcher with ⟨polled, result⟩
          rw [hpoll] at h
          obtain ⟨hsame, hblock, -⟩ := poll_ok hnode attempts hpoll
          cases result with
          | error error =>
              dsimp only at h
              cases error <;> cases h <;> exact .idle hsame
          | ok found =>
              cases found with
              | none =>
                  cases h
                  exact .idle hsame
              | some block =>
                  dsimp only at h
                  obtain ⟨hnumber, hanswered⟩ := hblock block rfl
                  rcases hreceive : receive polled block with ⟨after, received⟩
                  rw [hreceive] at h
                  cases received with
                  | ok update =>
                      cases h
                      exact receive_ok hsame hqueue hnumber hanswered hreceive
                  | error error =>
                      rcases receive_error hreceive with rfl | ⟨rfl, rfl, -, -⟩
                      · cases h
                      · cases h
                        exact .idle hsame

/-- **A reorg is too deep exactly when nothing recent is left and the block fetched does not build
on the safe one.** -/
theorem next_exceeded (hnode : Numbered node) {attempts depth : Nat} :
    (next node watcher attempts).2 = .error (.exceededMaxReorgDepth depth) ↔
      depth = watcher.config.maxReorgDepth ∧ watcher.queue = [] ∧ watcher.recent = [] ∧
        ∃ polled block, poll node attempts 0 watcher = (polled, .ok (some block)) ∧
          block.parentHash ≠ watcher.safe.hash := by
  unfold next
  rcases hpoll : poll node attempts 0 watcher with ⟨polled, result⟩
  obtain ⟨hsame, -, herror⟩ := poll_ok hnode attempts hpoll
  cases hqueue : watcher.queue with
  | cons update queue => simp
  | nil =>
      cases result with
      | error error =>
          have hother := herror error rfl
          constructor
          · intro h
            cases h
            rcases hother with hrpc | hpanicked
            · cases hrpc
            · cases hpanicked
          · intro h
            obtain ⟨-, -, -, polled', block, heq, -⟩ := h
            cases heq
      | ok found =>
          cases found with
          | none => simp
          | some block =>
              rcases hreceive : receive polled block with ⟨after, received⟩
              dsimp only
              rw [hreceive]
              show (received.map some) = _ ↔ _
              constructor
              · intro h
                cases received with
                | ok update => cases h
                | error error =>
                    cases h
                    rcases receive_error hreceive with hpanicked | ⟨-, hdepth, hrecent, hparent⟩
                    · cases hpanicked
                    · cases hdepth
                      rw [hsame.config]
                      exact ⟨rfl, rfl, hsame.recent.symm.trans hrecent, polled, block, rfl,
                        by rw [← hsame.safe]; exact hparent⟩
              · intro h
                obtain ⟨rfl, -, hrecent, polled', block', heq, hparent⟩ := h
                cases heq
                have hnil : polled.recent.getLast? = none := by
                  rw [hsame.recent, hrecent]
                  rfl
                unfold receive at hreceive
                rw [hnil] at hreceive
                dsimp only at hreceive
                rw [if_pos (by rw [hsame.safe]; exact fun heq => hparent heq.symm)] at hreceive
                cases hreceive
                rw [hsame.config]
                rfl

/-! ### One call -/

variable {config : Config} {reported : Option BlockUpdate}

/-- **Every call keeps the window.** -/
theorem Window.moves (h : Window config watcher) (hmoves : Moves node watcher watcher' reported) :
    Window config watcher' := by
  have hpending := h.pending
  cases hmoves with
  | idle hsame =>
      refine ⟨hsame.config.trans h.config_eq, ?_, ?_, ?_⟩
      · rw [hsame.safe, hsame.recent]
        exact h.linked
      · rw [hsame.recent]
        exact h.depth
      · rw [hsame.pending, hsame.safe, hsame.recent]
        exact hpending
  | dequeue update queue hqueue hpost =>
      subst hpost
      exact ⟨h.config_eq, h.linked, h.depth, hpending⟩
  | uncle init last hqueue hrecent hconfig hsafe hrecent' hqueue' hpending' =>
      have hlinked := h.linked
      have hdepth := h.depth
      rw [hrecent] at hlinked hdepth
      rw [List.length_append] at hdepth
      refine ⟨hconfig.trans h.config_eq, ?_, ?_, ?_⟩
      · rw [hsafe, hrecent']
        exact ((linked_append init).mp hlinked).1
      · rw [hrecent']
        omega
      · rw [hpending', hsafe, hrecent']
        exact hlinked.number
  | new block hqueue hnumber hanswered hparent hconfig hwindow hqueue' hpending' =>
      have hlinked : Linked watcher.safe (watcher.recent ++ [block]) := by
        refine linked_concat.mpr ⟨h.linked, ?_, hparent⟩
        rw [h.linked.tip_number, hnumber]
        exact hpending
      rcases hwindow with ⟨hrecent', hsafe, hdepth⟩ | ⟨evicted, hrecent', hsafe⟩
      · refine ⟨hconfig.trans h.config_eq, ?_, ?_, ?_⟩
        · rw [hsafe, ← hrecent']
          exact hlinked
        · rw [← h.config_eq]
          exact hdepth
        · rw [hpending', hsafe, ← hrecent', List.length_append, List.length_singleton]
          omega
      · have hlength := congrArg List.length hrecent'
        rw [List.length_append, List.length_singleton, List.length_cons] at hlength
        rw [hrecent'] at hlinked
        have hfirst := hlinked.1
        have hdepth := h.depth
        refine ⟨hconfig.trans h.config_eq, ?_, ?_, ?_⟩
        · rw [hsafe]
          exact hlinked.2.2
        · omega
        · rw [hpending', hsafe]
          show block.number + 1 = evicted.number + _ + 1
          omega
  | invalidated init rest last number hnumber hrecent hlast hrest hconfig hsafe hrecent' hqueue' hpending' =>
      have hlinked := h.linked
      have hdepth := h.depth
      rw [hrecent] at hlinked hdepth
      rw [List.length_append] at hdepth
      refine ⟨hconfig.trans h.config_eq, ?_, ?_, ?_⟩
      · rw [hsafe, hrecent']
        exact ((linked_append init).mp hlinked).1
      · rw [hrecent']
        omega
      · rw [hpending', hsafe, hrecent']
        exact hlinked.number

/-- The safe block moves by at most one, and forwards. -/
theorem Window.safe_le (h : Window config watcher) (hmoves : Moves node watcher watcher' reported) :
    watcher.safe.number ≤ watcher'.safe.number := by
  cases hmoves with
  | idle hsame => rw [hsame.safe]
  | dequeue update queue hqueue hpost => subst hpost; exact Nat.le_refl _
  | uncle init last hqueue hrecent hconfig hsafe hrecent' hqueue' hpending' => rw [hsafe]
  | invalidated init rest last number hnumber hrecent hlast hrest hconfig hsafe hrecent' hqueue' hpending' =>
      rw [hsafe]
  | new block hqueue hnumber hanswered hparent hconfig hwindow hqueue' hpending' =>
      rcases hwindow with ⟨-, hsafe, -⟩ | ⟨evicted, hrecent', hsafe⟩
      · rw [hsafe]
      · -- the evicted block is the first of the window, or the new one
        have hfirst : evicted.number = watcher.safe.number + 1 := by
          have hlinked : Linked watcher.safe (watcher.recent ++ [block]) := by
            refine linked_concat.mpr ⟨h.linked, ?_, hparent⟩
            rw [h.linked.tip_number, hnumber]
            exact h.pending
          rw [hrecent'] at hlinked
          exact hlinked.1
        rw [hsafe]
        show watcher.safe.number ≤ evicted.number
        omega

/-! ### The reported chain -/

/-- A consumer's chain after one more update: a new block goes on top, and only the top is taken
back. -/
def follow (chain : List BlockUpdate) (update : BlockUpdate) : Option (List BlockUpdate) :=
  match update with
  | .new .. => some (chain ++ [update])
  | .uncle number =>
      match chain.getLast? with
      | some (.new top _ _ _) => if top = number then some chain.dropLast else none
      | _ => none
  | .warp .. => none

/-- The chain a consumer has after the updates. -/
def followAll (updates : List BlockUpdate) : Option (List BlockUpdate) := updates.foldlM follow []

theorem followAll_concat (updates : List BlockUpdate) (update : BlockUpdate) :
    followAll (updates ++ [update]) = (followAll updates).bind (follow · update) := by
  unfold followAll
  rw [List.foldlM_append]
  simp

private theorem follow_new (blocks : List BlockHeader) (block : BlockHeader) :
    follow (blocks.map BlockHeader.update) block.update =
      some ((blocks ++ [block]).map BlockHeader.update) := by
  rw [List.map_append]
  rfl

private theorem follow_uncle (blocks : List BlockHeader) (block : BlockHeader) :
    follow ((blocks ++ [block]).map BlockHeader.update) (.uncle block.number) =
      some (blocks.map BlockHeader.update) := by
  unfold follow
  rw [List.map_append, List.map_singleton, List.getLast?_concat]
  show (if block.number = block.number then _ else _) = _
  rw [if_pos rfl, List.dropLast_concat]

/-- How far the reports are behind the window.  `lower` are the blocks reported before it. -/
structure Following (node : Node) (base : SafeBlock) (updates : List BlockUpdate)
    (watcher : BlockWatcher) (lower : List BlockHeader) : Prop where
  linked : Linked base lower
  tip_eq : tip base lower = watcher.safe
  answered : ∀ block ∈ lower ++ watcher.recent, Answered node block
  chain :
    -- the end of the window is queued
    (∃ done rest, watcher.recent = done ++ rest ∧ watcher.queue = rest.map BlockHeader.update ∧
      followAll updates = some ((lower ++ done).map BlockHeader.update)) ∨
    -- a block that was dropped from the window is to be taken back
    ∃ last, watcher.queue = [.uncle last.number] ∧ Answered node last ∧
      Linked base (lower ++ watcher.recent ++ [last]) ∧
      followAll updates = some ((lower ++ watcher.recent ++ [last]).map BlockHeader.update)

/-- The chain that was reported, by its headers. -/
private theorem Following.chain_linked {base : SafeBlock} {updates : List BlockUpdate}
    {lower : List BlockHeader} (h : Following node base updates watcher lower)
    (hwindow : Window config watcher) :
    ∃ blocks, followAll updates = some (blocks.map BlockHeader.update) ∧ Linked base blocks ∧
      (∀ block ∈ blocks, Answered node block) ∧
      (watcher.queue = [] → blocks = lower ++ watcher.recent) := by
  have hall : Linked base (lower ++ watcher.recent) := by
    rw [linked_append, h.tip_eq]
    exact ⟨h.linked, hwindow.linked⟩
  rcases h.chain with ⟨done, rest, hrecent, hqueue, hchain⟩ | ⟨last, hqueue, hanswered, hlinked, hchain⟩
  · refine ⟨lower ++ done, hchain, ?_, ?_, ?_⟩
    · rw [hrecent, ← List.append_assoc] at hall
      exact ((linked_append _).mp hall).1
    · intro block hblock
      apply h.answered
      rw [hrecent, ← List.append_assoc]
      exact List.mem_append_left _ hblock
    · intro hnil
      rw [hqueue, List.map_eq_nil_iff] at hnil
      rw [hrecent, hnil, List.append_nil]
  · refine ⟨_, hchain, hlinked, ?_, ?_⟩
    · intro block hblock
      rcases List.mem_append.mp hblock with hold | hlast
      · exact h.answered block hold
      · rw [List.mem_singleton.mp hlast]
        exact hanswered
    · intro hnil
      rw [hqueue] at hnil
      cases hnil

/-- The last block below the first queued one is the last one that was reported. -/
theorem done_eq {safe : SafeBlock} {recent done queued init rest : List BlockHeader}
    {last : BlockHeader} {number : Option Nat} (hlinked : Linked safe recent)
    (hsplit : recent = done ++ queued) (hrecent : recent = init ++ last :: rest)
    (hnumber : nextNumber (queued.map BlockHeader.update) = some number)
    (hlast : number.all (last.number < ·) = true)
    (hrest : ∀ block ∈ rest, number.all (block.number < ·) = false) : done = init ++ [last] := by
  have hsame : done ++ queued = (init ++ [last]) ++ rest := by
    rw [← hsplit, hrecent, List.append_cons]
  have hlength : done.length = (init ++ [last]).length := by
    have htotal := congrArg List.length hsame
    rw [List.length_append, List.length_append, List.length_append, List.length_singleton] at htotal
    rw [List.length_append, List.length_singleton]
    cases queued with
    | nil =>
        cases hnumber
        cases rest with
        | nil =>
            rw [List.length_nil] at htotal
            omega
        | cons block rest => cases hrest block (List.mem_cons_self ..)
    | cons block queued =>
        cases hnumber
        have hblock : block.number = safe.number + done.length + 1 := by
          rw [hsplit] at hlinked
          exact hlinked.number
        have hbefore : last.number = safe.number + init.length + 1 := by
          rw [hrecent] at hlinked
          exact hlinked.number
        have hlt : last.number < block.number := of_decide_eq_true hlast
        rw [List.length_cons] at htotal
        cases rest with
        | nil =>
            rw [List.length_nil] at htotal
            omega
        | cons next rest =>
            have hnext : next.number = safe.number + (init ++ [last]).length + 1 := by
              rw [hrecent, List.append_cons] at hlinked
              exact hlinked.number
            have hle : ¬ next.number < block.number :=
              of_decide_eq_false (hrest next (List.mem_cons_self ..))
            rw [List.length_append, List.length_singleton] at hnext
            omega
  exact (List.append_inj hsame hlength).1

/-- **Every call keeps the reports in step with the window.** -/
private theorem Following.moves {base : SafeBlock} {updates : List BlockUpdate}
    {lower : List BlockHeader} (hwindow : Window config watcher)
    (h : Following node base updates watcher lower) (hmoves : Moves node watcher watcher' reported) :
    ∃ lower', Following node base (updates ++ reported.toList) watcher' lower' := by
  have hchain := h.chain
  cases hmoves with
  | idle hsame =>
      rw [Option.toList_none, List.append_nil]
      refine ⟨lower, h.linked, h.tip_eq.trans hsame.safe.symm, ?_, ?_⟩
      · rw [hsame.recent]
        exact h.answered
      · rw [hsame.recent, hsame.queue]
        exact hchain
  | dequeue update queue hqueue hpost =>
      subst hpost
      refine ⟨lower, h.linked, h.tip_eq, h.answered, .inl ?_⟩
      rw [Option.toList_some, followAll_concat]
      rcases hchain with ⟨done, rest, hrecent, hqueued, hchain⟩ | ⟨last, hqueued, hanswered, hlinked, hchain⟩
      · rw [hqueue] at hqueued
        cases rest with
        | nil => cases hqueued
        | cons block rest =>
            rw [List.map_cons, List.cons.injEq] at hqueued
            obtain ⟨rfl, hqueued⟩ := hqueued
            refine ⟨done ++ [block], rest, ?_, hqueued, ?_⟩
            · rw [List.append_assoc]
              exact hrecent
            · rw [hchain, Option.bind_some, follow_new, List.append_assoc]
      · rw [hqueue, List.cons.injEq] at hqueued
        obtain ⟨rfl, rfl⟩ := hqueued
        refine ⟨watcher.recent, [], (List.append_nil _).symm, rfl, ?_⟩
        rw [hchain, Option.bind_some, follow_uncle]
  | uncle init last hqueue hrecent hconfig hsafe hrecent' hqueue' hpending' =>
      refine ⟨lower, h.linked, h.tip_eq.trans hsafe.symm, ?_, .inl ⟨init, [], ?_, hqueue', ?_⟩⟩
      · intro block hblock
        apply h.answered
        rw [hrecent'] at hblock
        rw [hrecent, ← List.append_assoc]
        exact List.mem_append_left _ hblock
      · rw [List.append_nil]
        exact hrecent'
      · obtain ⟨blocks, hfollow, -, -, hblocks⟩ := h.chain_linked hwindow
        rw [hblocks hqueue, hrecent, ← List.append_assoc] at hfollow
        rw [Option.toList_some, followAll_concat, hfollow, Option.bind_some, follow_uncle]
  | new block hqueue hnumber hanswered hparent hconfig hwindow' hqueue' hpending' =>
      obtain ⟨blocks, hfollow, -, -, hblocks⟩ := h.chain_linked hwindow
      rw [hblocks hqueue] at hfollow
      have hreported : followAll (updates ++ (some block.update).toList) =
          some ((lower ++ (watcher.recent ++ [block])).map BlockHeader.update) := by
        rw [Option.toList_some, followAll_concat, hfollow, Option.bind_some, follow_new,
          List.append_assoc]
      have hall : ∀ other ∈ lower ++ (watcher.recent ++ [block]), Answered node other := by
        intro other hother
        rw [← List.append_assoc] at hother
        rcases List.mem_append.mp hother with hold | hnew
        · exact h.answered other hold
        · rw [List.mem_singleton.mp hnew]
          exact hanswered
      rcases hwindow' with ⟨hrecent', hsafe, -⟩ | ⟨evicted, hrecent', hsafe⟩
      · rw [hrecent'] at hreported hall
        exact ⟨lower, h.linked, h.tip_eq.trans hsafe.symm, hall,
          .inl ⟨watcher'.recent, [], (List.append_nil _).symm, hqueue', hreported⟩⟩
      · -- the evicted block goes to the lower part
        rw [hrecent', List.append_cons] at hreported hall
        have hlinked : Linked base (lower ++ [evicted]) := by
          have hnext : Linked watcher.safe (watcher.recent ++ [block]) := by
            refine linked_concat.mpr ⟨hwindow.linked, ?_, hparent⟩
            rw [hwindow.linked.tip_number, hnumber]
            exact hwindow.pending
          rw [hrecent'] at hnext
          rw [linked_append, h.tip_eq]
          exact ⟨h.linked, hnext.1, hnext.2.1, trivial⟩
        refine ⟨lower ++ [evicted], hlinked, ?_, hall,
          .inl ⟨watcher'.recent, [], (List.append_nil _).symm, hqueue', hreported⟩⟩
        rw [tip_concat]
        exact hsafe.symm
  | invalidated init rest last number hnumber hrecent hlast hrest hconfig hsafe hrecent' hqueue' hpending' =>
      rw [Option.toList_none, List.append_nil]
      have hsub : ∀ other ∈ lower ++ (init ++ [last]), Answered node other := by
        intro other hother
        apply h.answered
        rw [hrecent, List.append_cons, ← List.append_assoc]
        exact List.mem_append_left _ hother
      refine ⟨lower, h.linked, h.tip_eq.trans hsafe.symm, ?_, .inr ⟨last, hqueue', ?_, ?_, ?_⟩⟩
      · rw [hrecent']
        intro other hother
        apply hsub
        rw [← List.append_assoc]
        exact List.mem_append_left _ hother
      · apply hsub
        simp
      · rw [hrecent', List.append_assoc, linked_append, h.tip_eq]
        have hlinked := hwindow.linked
        rw [hrecent, List.append_cons] at hlinked
        exact ⟨h.linked, ((linked_append _).mp hlinked).1⟩
      · -- what is dropped behind the last reported block was still queued
        rcases hchain with ⟨done, queued, hsplit, hqueued, hchain⟩ | ⟨other, hqueued, -⟩
        · have hdone := done_eq hwindow.linked hsplit hrecent (hqueued ▸ hnumber) hlast hrest
          rw [hrecent', List.append_assoc, ← hdone]
          exact hchain
        · rw [hqueued] at hnumber
          cases hnumber

end Node

/-! ### Every run -/

/-- A step of a run. -/
abbrev CallStep := Trace.Step (Option BlockWatcher) Input Output

/-- What a run reported. -/
def reportedBy (history : List CallStep) : List BlockUpdate := history.filterMap fun st => st.out.reported

section Run

variable {node : Node} {config : Config} {base : SafeBlock} {fresh : Prop}

/-- The watcher and its reports after a run; what is said of the reports is for a fresh start. -/
structure Watching (node : Node) (config : Config) (base : SafeBlock) (fresh : Prop)
    (history : List CallStep) (watcher : Option BlockWatcher) : Prop where
  window : ∀ alive, watcher = some alive → Window config alive
  following : fresh → ∀ alive, watcher = some alive →
    ∃ lower, Following node base (reportedBy history) alive lower
  chain : fresh → ∃ blocks, followAll (reportedBy history) = some (blocks.map BlockHeader.update) ∧
    Linked base blocks ∧ ∀ block ∈ blocks, Answered node block

theorem reportedBy_concat (history : List CallStep) (st : CallStep) :
    reportedBy (history ++ [st]) = reportedBy history ++ st.out.reported.toList := by
  unfold reportedBy
  rw [List.filterMap_append]
  cases hreported : st.out.reported with
  | none => simp [hreported]
  | some update => simp [hreported]

/-- A watcher that is gone, or goes, reports nothing. -/
theorem reported_of_none {watcher : Option BlockWatcher} {input : Input}
    (h : (step node watcher input).1 = none) : (step node watcher input).2.reported = none := by
  cases watcher with
  | none => rfl
  | some alive =>
      cases input with
      | revalidateLastBlock =>
          unfold step at h ⊢
          dsimp only at h ⊢
          split
          · rfl
          · rfl
      | next attempts =>
          unfold step at h ⊢
          dsimp only at h ⊢
          split
          · next hcall =>
              rw [hcall] at h
              cases h
          · rfl
          · rfl

private theorem Watching.step (hnode : Numbered node) {history : List CallStep}
    {watcher : Option BlockWatcher} (h : Watching node config base fresh history watcher)
    (input : Input) :
    Watching node config base fresh (history ++ [Trace.take (BlockWatcher.step node) watcher input])
      (BlockWatcher.step node watcher input).1 := by
  cases hpost : (BlockWatcher.step node watcher input).1 with
  | none =>
      have hsame : reportedBy (history ++ [Trace.take (BlockWatcher.step node) watcher input]) =
          reportedBy history := by
        rw [reportedBy_concat, Trace.take_out, reported_of_none hpost, Option.toList_none,
          List.append_nil]
      refine ⟨?_, ?_, ?_⟩
      · intro alive halive
        cases halive
      · intro _ alive halive
        cases halive
      · rw [hsame]
        exact h.chain
  | some after =>
      cases watcher with
      | none => cases hpost
      | some alive =>
          have hmoves := step_moves hnode (Prod.ext hpost rfl)
          have hwindow := h.window alive rfl
          have hwindow' := hwindow.moves hmoves
          have hfollowing : fresh → ∃ lower, Following node base
              (reportedBy (history ++ [Trace.take (BlockWatcher.step node) (some alive) input])) after
              lower := by
            intro hfresh
            obtain ⟨lower, hlower⟩ := h.following hfresh alive rfl
            rw [reportedBy_concat]
            exact hlower.moves hwindow hmoves
          refine ⟨?_, ?_, ?_⟩
          · intro after' heq
            cases heq
            exact hwindow'
          · intro hfresh after' heq
            cases heq
            exact hfollowing hfresh
          · intro hfresh
            obtain ⟨lower, hlower⟩ := hfollowing hfresh
            obtain ⟨blocks, hchain, hlinked, hanswered, -⟩ := hlower.chain_linked hwindow'
            exact ⟨blocks, hchain, hlinked, hanswered⟩

private theorem watching_new (hnode : Numbered node) {chainId : Nat} {indexed : Option BlockStatus}
    {fuel : Nat} {started : BlockWatcher}
    (h : new node config chainId indexed fuel = some (.ok started)) :
    Watching node config started.safe (indexed = none ∧ config.startBlock = none) [] (some started) := by
  unfold new at h
  split at h
  · cases h
  · obtain ⟨hwindow, hanswered, -, hqueue⟩ := start_ok hnode h
    have hfollowing : indexed = none ∧ config.startBlock = none →
        Following node started.safe [] started [] := by
      rintro ⟨rfl, hstart⟩
      refine ⟨trivial, rfl, hanswered, .inl ⟨[], started.recent, rfl, ?_, rfl⟩⟩
      -- nothing was processed before
      have hall : started.recent.filter (isUnprocessed config none) = started.recent := by
        rw [List.filter_eq_self]
        intro block _
        simp [isUnprocessed, hstart]
      rw [hqueue, initialUpdates, hstart, hall]
      rfl
    refine ⟨?_, ?_, ?_⟩
    · intro alive heq
      cases heq
      exact hwindow
    · intro hfresh alive heq
      cases heq
      exact ⟨[], hfollowing hfresh⟩
    · intro _
      exact ⟨[], rfl, trivial, by simp⟩

/-- What the step of a call says about a reorg that is too deep. -/
private theorem step_exceeded {watcher : BlockWatcher} {attempts depth : Nat} :
    (BlockWatcher.step node (some watcher) (.next attempts)).2 =
        .failed (.exceededMaxReorgDepth depth) ↔
      (next node watcher attempts).2 = .error (.exceededMaxReorgDepth depth) := by
  unfold BlockWatcher.step
  dsimp only
  split
  · next hcall => simp [hcall]
  · next hcall => simp [hcall]
  · next hcall => simp [hcall]

end Run

/-- **The chain invariant of the block watcher.**  For every node, every way of starting and every
sequence of calls: the blocks the watcher holds are linked with consecutive numbers on top of the
safe one, at most as many as may be replaced, and the pending number comes after them; the safe
block never moves back; a reorg is too deep exactly when nothing recent is left and the block that
was fetched does not build on the safe one.  After a fresh start without a start block, the
updates make a linked chain on top of the first safe block, in which only the top is ever taken
back, and it ends in the recent blocks once the queue is empty. -/
theorem block_watcher_follows_chain (node : Node) (hnode : Numbered node) (config : Config)
    (chainId : Nat) (indexed : Option BlockStatus) (fuel : Nat) (started : BlockWatcher)
    (hstarted : new node config chainId indexed fuel = some (.ok started)) (inputs : List Input) :
    let history := Trace.trace (step node) (some started) inputs
    let final := Trace.final (step node) (some started) inputs
    (∀ watcher, final = some watcher → Window config watcher) ∧
      (∀ st ∈ history, ∀ watcher, st.pre = some watcher →
        (∀ watcher', st.post = some watcher' → watcher.safe.number ≤ watcher'.safe.number) ∧
        ∀ attempts depth, st.input = .next attempts →
          (st.out = .failed (.exceededMaxReorgDepth depth) ↔
            depth = config.maxReorgDepth ∧ watcher.queue = [] ∧ watcher.recent = [] ∧
              ∃ polled block, poll node attempts 0 watcher = (polled, .ok (some block)) ∧
                block.parentHash ≠ watcher.safe.hash)) ∧
      (indexed = none → config.startBlock = none →
        ∃ blocks, followAll (reportedBy history) = some (blocks.map BlockHeader.update) ∧
          Linked started.safe blocks ∧ (∀ block ∈ blocks, Answered node block) ∧
          ∀ watcher, final = some watcher → watcher.queue = [] →
            ∃ lower, blocks = lower ++ watcher.recent) := by
  intro history final
  have hwatching : Watching node config started.safe (indexed = none ∧ config.startBlock = none)
      history final :=
    Trace.history_invariant (E := fun _ => True) (watching_new hnode hstarted)
      (fun _ _ input h _ => h.step hnode input) inputs (fun _ _ => trivial)
  refine ⟨hwatching.window, ?_, ?_⟩
  · intro st hst watcher hpre
    obtain ⟨before, after, hsplit⟩ := List.append_of_mem hst
    obtain ⟨hbefore, htake⟩ := Trace.split_invariant (E := fun _ => True)
      (watching_new hnode hstarted) (fun _ _ input h _ => h.step hnode input) (fun _ _ => trivial) hsplit
    have hwindow := hbefore.window watcher hpre
    rw [hpre] at htake
    constructor
    · intro watcher' hpost
      have hmoves : Moves node watcher watcher' (step node (some watcher) st.input).2.reported := by
        apply step_moves hnode
        refine Prod.ext ?_ rfl
        rw [← hpost, htake]
        rfl
      exact hwindow.safe_le hmoves
    · intro attempts depth hinput
      rw [htake, Trace.take_out, hinput, step_exceeded, next_exceeded hnode, hwindow.config_eq]
  · intro hindexed hstart
    cases hfinal : final with
    | none =>
        obtain ⟨blocks, hchain, hlinked, hanswered⟩ := hwatching.chain ⟨hindexed, hstart⟩
        refine ⟨blocks, hchain, hlinked, hanswered, ?_⟩
        intro watcher hwatcher
        cases hwatcher
    | some watcher =>
        obtain ⟨lower, hlower⟩ := hwatching.following ⟨hindexed, hstart⟩ watcher hfinal
        obtain ⟨blocks, hchain, hlinked, hanswered, hblocks⟩ :=
          hlower.chain_linked (hwatching.window watcher hfinal)
        refine ⟨blocks, hchain, hlinked, hanswered, ?_⟩
        intro watcher' heq hqueue
        cases heq
        exact ⟨lower, hblocks hqueue⟩

/-! ### A reorg

The node serves blocks up to 2 while the watcher starts, and another block 2 with a successor
afterwards.
-/

private def reorgNode (requests : Nat) (id : BlockId) : Answer :=
  let block := fun (number : Nat) (hash parentHash : B256) =>
    Answer.found { number, hash, parentHash, timestamp := number, logsBloom := 0 }
  match id with
  | .latest => block 2 0xA2 0xA1
  | .number 0 => block 0 0xA0 0
  | .number 1 => block 1 0xA1 0xA0
  | .number 2 => if requests < 3 then block 2 0xA2 0xA1 else block 2 0xB2 0xA1
  | .number 3 => block 3 0xB3 0xB2
  | .number _ => .missing

private def reorgConfig : Config where
  blockTime := .auto
  blockPropagationDelay := .auto
  blockRetryDelays := .auto
  maxReorgDepth := 2
  startBlock := none

private theorem reorgNode_numbered : Numbered reorgNode := by
  intro requests number block h
  unfold reorgNode at h
  match number with
  | 0 => cases h; rfl
  | 1 => cases h; rfl
  | 2 =>
      change (if requests < 3 then _ else _) = _ at h
      split at h
      · cases h; rfl
      · cases h; rfl
  | 3 => cases h; rfl
  | number + 4 => cases h

private def reorgWatcher : BlockWatcher where
  config := reorgConfig
  timings := ⟨5000, 500, [500, 500, 500, 1000, 250, 250]⟩
  pending := ⟨3, 7000⟩
  safe := ⟨0, 0xA0⟩
  recent := [⟨1, 0xA1, 0xA0, 1, 0⟩, ⟨2, 0xA2, 0xA1, 2, 0⟩]
  queue := [.new 1 0xA1 1 0, .new 2 0xA2 2 0]
  requests := 3

/-- Block 2 is reported, taken back and replaced, and the reported blocks are linked. -/
theorem reorg_is_followed :
    let history := Trace.trace (step reorgNode) (some reorgWatcher) (List.replicate 5 (.next 1))
    reportedBy history =
        [.new 1 0xA1 1 0, .new 2 0xA2 2 0, .uncle 2, .new 2 0xB2 2 0, .new 3 0xB3 3 0] ∧
      ∃ blocks, followAll (reportedBy history) = some (blocks.map BlockHeader.update) ∧
        Linked ⟨0, 0xA0⟩ blocks := by
  obtain ⟨-, -, hchain⟩ := block_watcher_follows_chain reorgNode reorgNode_numbered reorgConfig 100
    none 4 reorgWatcher (by decide +kernel) (List.replicate 5 (.next 1))
  obtain ⟨blocks, hfollow, hlinked, -, -⟩ := hchain rfl rfl
  exact ⟨by decide +kernel, blocks, hfollow, hlinked⟩

end BlockWatcher

end Safenet.Core
