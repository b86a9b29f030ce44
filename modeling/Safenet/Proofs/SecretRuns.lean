/-
What the secret store does for a running validator.

The store part of a node goes through a run of its own calls (`storeSteps_eq`), so what holds for every
run of the store holds here.  A pair that the store has handed out is either waiting for delivery or was
delivered, and not both (`Delivery`); as a share is only made of a delivered pair, no pair makes two.
-/
import Safenet.Validator.Service
import Safenet.Proofs.SecretStore
import Safenet.Proofs.ValidatorCommands

namespace Safenet.Validator

open Trace

/-- The call of an effect on the store; there is none if its secrets could not be generated. -/
def Effect.storeCall (account : Address) (sampled : Sampled) : Effect → Option StoreCall
  | .keyGenSetup groupId _ _ =>
      match sampled.secrets with
      | .ok secrets => some (.storeKeygenSecrets groupId account secrets)
      | .error _ => none
  | .generateNonces groupId signatureId _ =>
      some (.storeSigningNonces groupId signatureId account sampled.nonces)
  | .useNonces _ signatureId => some (.takeSigningNonces signatureId)
  | .reconcileGroupSecrets block groups => some (.scheduleGroupSecretsDeletion block groups)

/-- The pair of an answer. -/
def Resume.nonces? : Resume → Option SigningNonces
  | .nonces _ pair => some pair
  | _ => none

section Effects

variable {account : Address} {sampled : Sampled} {store : SecretStore}

theorem performEffect_store (effect : Effect) :
    (performEffect account sampled store effect).1 =
      ((effect.storeCall account sampled).map fun c => (store.call c).1).getD store := by
  cases effect with
  | keyGenSetup groupId count threshold =>
    simp only [performEffect, Effect.storeCall]
    cases sampled.secrets <;> rfl
  | generateNonces groupId signatureId keyShare =>
    simp only [performEffect, Effect.storeCall]
    split <;> rfl
  | useNonces message signatureId =>
    simp only [performEffect, Effect.storeCall]
    split <;> rfl
  | reconcileGroupSecrets block groups =>
    simp only [performEffect, Effect.storeCall, Option.map_some, Option.getD_some, SecretStore.call]
    cases store.scheduleGroupSecretsDeletion block groups <;> rfl

/-- An effect answers a pair if its call has taken it. -/
theorem performEffect_nonces (effect : Effect) :
    (performEffect account sampled store effect).2.nonces? =
      (effect.storeCall account sampled).bind fun c => (store.call c).2.taken? := by
  cases effect with
  | keyGenSetup groupId count threshold =>
    simp only [performEffect, Effect.storeCall]
    cases sampled.secrets <;> rfl
  | generateNonces groupId signatureId keyShare =>
    simp only [performEffect, Effect.storeCall]
    split <;> rfl
  | useNonces message signatureId =>
    simp only [performEffect, Effect.storeCall, Option.bind_some, SecretStore.call, StoreAnswer.taken?]
    cases (store.takeSigningNonces signatureId).2 <;> rfl
  | reconcileGroupSecrets block groups =>
    simp only [performEffect, Effect.storeCall, Option.bind_some, SecretStore.call]
    cases store.scheduleGroupSecretsDeletion block groups <;> rfl

/-- An effect answers secrets if its call has returned them. -/
theorem performEffect_setup {effect : Effect} {groupId : B256} {secrets : Secrets}
    (h : (performEffect account sampled store effect).2 = .setup groupId secrets) :
    ∃ generated, effect.storeCall account sampled = some (.storeKeygenSecrets groupId account generated) ∧
      (store.call (.storeKeygenSecrets groupId account generated)).2 = .secrets secrets := by
  cases effect with
  | keyGenSetup group count threshold =>
    cases hsampled : sampled.secrets with
    | ok generated =>
      simp only [performEffect, hsampled] at h
      cases h
      exact ⟨generated, by simp only [Effect.storeCall, hsampled], rfl⟩
    | error e =>
      simp only [performEffect, hsampled] at h
      cases h
  | generateNonces group signatureId keyShare =>
    simp only [performEffect] at h
    split at h <;> cases h
  | useNonces message signatureId =>
    simp only [performEffect] at h
    split at h <;> cases h
  | reconcileGroupSecrets block groups =>
    simp only [performEffect] at h
    split at h <;> cases h

end Effects

theorem housekeeping_eq (safe : Nat) (store : SecretStore) :
    housekeeping safe store = (store.call (.pruneScheduledSecrets safe)).1 := by
  simp only [housekeeping, SecretStore.call]
  cases store.pruneScheduledSecrets safe <;> rfl

namespace Node

abbrev Step := Trace.Step Node Input Output

section Store

variable (t : Transition)

/-- The call that an input makes on the store. -/
def storeCall (node : Node) : Input → Option StoreCall
  | .perform index sampled => node.spawned[index]?.bind (Effect.storeCall t.account sampled)
  | .housekeeping safe => some (.pruneScheduledSecrets safe)
  | _ => none

/-- The run of the store in a run of the node. -/
def storeSteps (steps : List Step) : List SecretStore.Step :=
  project SecretStore.call Node.store (storeCall t) steps

theorem store_step (node : Node) (input : Input) :
    (node.step t input).1.store =
      ((node.storeCall t input).map fun c => (node.store.call c).1).getD node.store := by
  cases input with
  | newBlock number => rfl
  | event log => rfl
  | perform index sampled =>
    simp only [step, storeCall]
    cases node.spawned[index]? with
    | none => rfl
    | some effect => exact performEffect_store effect
  | deliver index =>
    simp only [step, storeCall]
    cases node.finished[index]? <;> rfl
  | housekeeping safe => exact housekeeping_eq safe node.store
  | restore index =>
    simp only [step, storeCall]
    cases node.reached[index]? <;> rfl

/-- **The store of a node goes through a run of the store.** -/
theorem storeSteps_eq (inputs : List Input) :
    ∃ calls, storeSteps t (trace (step t) .default inputs) = trace SecretStore.call .empty calls :=
  ⟨_, (trace_project (store_step t) inputs Node.default).1.symm⟩

end Store

/-! ### Each pair makes one share -/

/-- The pair that an effect has answered. -/
def answered? : Output → Option SigningNonces
  | .answered _ result => result.nonces?
  | _ => none

/-- The pair that was delivered. -/
def delivered? : Output → Option SigningNonces
  | .resumed result _ => result.nonces?
  | _ => none

/-- A signature share. -/
def isSignShare : Command → Bool
  | .action (.signShare _ _ _ _) => true
  | _ => false

/-- The pairs of the shares that a step has made, one for each share. -/
def sharedPairs : Output → List SigningNonces
  | .resumed result commands => (commands.filter isSignShare).flatMap fun _ => result.nonces?.toList
  | _ => []

/-- The commands of a step. -/
def Output.commandList : Output → List Command
  | .commands list => list
  | .resumed _ list => list
  | _ => []

variable {t : Transition}

/-- The pairs that were answered are the delivered ones and those that wait. -/
def Delivery (steps : List Step) (node : Node) : Prop :=
  (node.finished.filterMap Resume.nonces? ++ steps.filterMap fun x => delivered? x.out).Perm
    (steps.filterMap fun x => answered? x.out)

theorem filterMap_concat {α β : Type} (f : α → Option β) (l : List α) (x : α) :
    (l ++ [x]).filterMap f = l.filterMap f ++ (f x).toList := by
  rw [List.filterMap_append]
  cases hx : f x <;> simp [hx]

theorem delivery_step {steps : List Step} {node : Node} (h : Delivery steps node) (input : Input) :
    Delivery (steps ++ [take (step t) node input]) (node.step t input).1 := by
  have hidle : ∀ {output : Output} {node' : Node} {x : Step}, x.out = output → delivered? output = none →
      answered? output = none → node'.finished = node.finished → Delivery (steps ++ [x]) node' := by
    intro output node' x hout hdelivered hanswered hfinished
    rw [Delivery, filterMap_concat, filterMap_concat, hout, hdelivered, hanswered, hfinished]
    simp only [Option.toList_none, List.append_nil]
    exact h
  cases input with
  | newBlock number => exact hidle rfl rfl rfl rfl
  | event log => exact hidle rfl rfl rfl rfl
  | perform index sampled =>
    cases heffect : node.spawned[index]? with
    | none =>
      have hstep : node.step t (.perform index sampled) = (node, .idle) := by simp only [step, heffect]
      rw [hstep]
      exact hidle (by rw [take_out, hstep]) rfl rfl rfl
    | some effect =>
      have hstep : node.step t (.perform index sampled) =
          ({ node with
              store := (performEffect t.account sampled node.store effect).1
              finished := node.finished ++ [(performEffect t.account sampled node.store effect).2] },
            .answered effect (performEffect t.account sampled node.store effect).2) := by
        simp only [step, heffect]
      rw [Delivery, filterMap_concat, filterMap_concat, take_out, hstep]
      dsimp only [delivered?, answered?]
      rw [filterMap_concat]
      -- the new pair waits
      simp only [Option.toList_none, List.append_nil]
      refine List.Perm.trans ?_ (h.append_right _)
      rw [List.append_assoc, List.append_assoc]
      exact List.Perm.append_left _ List.perm_append_comm
  | deliver index =>
    cases hanswer : node.finished[index]? with
    | none =>
      have hstep : node.step t (.deliver index) = (node, .idle) := by simp only [step, hanswer]
      rw [hstep]
      exact hidle (by rw [take_out, hstep]) rfl rfl rfl
    | some answer =>
      have hout : (node.step t (.deliver index)).2 = .resumed answer
          ({ node with finished := node.finished.eraseIdx index }.advance t (.resume answer)).2 := by
        simp only [step, hanswer]
      have hfinished : (node.step t (.deliver index)).1.finished = node.finished.eraseIdx index := by
        simp only [step, hanswer]
        rfl
      rw [Delivery, filterMap_concat, filterMap_concat, take_out, hout, hfinished]
      dsimp only [delivered?, answered?]
      -- the pair that waited is delivered
      simp only [Option.toList_none, List.append_nil]
      refine List.Perm.trans ?_ h
      obtain ⟨hlt, hget⟩ := List.getElem?_eq_some_iff.mp hanswer
      have hperm : (answer :: node.finished.eraseIdx index).Perm node.finished := by
        rw [← hget]
        exact List.getElem_cons_eraseIdx_perm hlt
      have hpairs := hperm.filterMap Resume.nonces?
      rw [List.filterMap_cons] at hpairs
      refine List.Perm.trans ?_ (hpairs.append_right _)
      rw [← List.append_assoc]
      refine List.perm_append_comm.trans ?_
      cases answer.nonces? <;> rfl
  | housekeeping safe => exact hidle rfl rfl rfl rfl
  | restore index =>
    cases hstate : node.reached[index]? with
    | none =>
      have hstep : node.step t (.restore index) = (node, .idle) := by simp only [step, hstate]
      rw [hstep]
      exact hidle (by rw [take_out, hstep]) rfl rfl rfl
    | some state =>
      have hstep : node.step t (.restore index) = ({ node with state }, .idle) := by
        simp only [step, hstate]
      rw [hstep]
      exact hidle (by rw [take_out, hstep]) rfl rfl rfl

/-- A step answers the pair that its call has taken. -/
theorem answered_step (node : Node) (input : Input) :
    answered? (node.step t input).2 =
      (node.storeCall t input).bind fun c => (node.store.call c).2.taken? := by
  cases input with
  | newBlock number => rfl
  | event log => rfl
  | perform index sampled =>
    simp only [step, storeCall]
    cases node.spawned[index]? with
    | none => rfl
    | some effect => exact performEffect_nonces effect
  | deliver index =>
    simp only [step, storeCall]
    cases node.finished[index]? <;> rfl
  | housekeeping safe =>
    show none = (node.store.call (.pruneScheduledSecrets safe)).2.taken?
    simp only [SecretStore.call]
    cases node.store.pruneScheduledSecrets safe <;> rfl
  | restore index =>
    simp only [step, storeCall]
    cases node.reached[index]? <;> rfl

theorem takenPairs_storeSteps (inputs : List Input) :
    SecretStore.takenPairs (storeSteps t (trace (step t) .default inputs)) =
      (trace (step t) .default inputs).filterMap fun x => answered? x.out := by
  rw [SecretStore.takenPairs, storeSteps, project, List.filterMap_filterMap]
  refine List.filterMap_congr fun x hx => ?_
  have hout : x.out = (x.pre.step t x.input).2 := congrArg Trace.Step.out (eq_take hx)
  rw [hout, answered_step]
  cases storeCall t x.pre x.input <;> rfl

/-- What a delivered pair asks for is at most one share. -/
theorem handleNonces_length (state : State) (message : B256) (nonces : SigningNonces) :
    (t.handleNonces state message nonces).2.length ≤ 1 := by
  unfold Transition.handleNonces
  split
  · split
    · exact le_refl 1
    · exact Nat.zero_le 1
  · exact Nat.zero_le 1

/-- A share is made of the pair that was delivered. -/
theorem resumed_of_signShare {node : Node} {input : Input} {c : Command}
    (hc : c ∈ (node.step t input).2.commandList) (hshare : isSignShare c = true) :
    ∃ message nonces commands, (node.step t input).2 = .resumed (.nonces message nonces) commands ∧
      commands = [c] := by
  have hresume : ∀ {message : Message}, c ∈ (t.applyTransition node.state message).2 →
      ∃ m nonces, message = .resume (.nonces m nonces) := by
    intro message hmem
    cases Emitted.applyTransition hmem with
    | keyGen h => cases h <;> cases hshare
    | reconcile hmessage => cases hshare
    | generate hx => cases hshare
    | use hx => cases hshare
    | commit hx => cases hshare
    | share hx hmessage hshare => exact ⟨_, _, hmessage⟩
    | sign hx => cases hshare
    | attest hx =>
      rename_i session deadline
      cases hpacket : session.packet <;> rw [hpacket] at hshare <;> cases hshare
  cases input with
  | newBlock number =>
    obtain ⟨m, nonces, h⟩ := hresume hc
    cases h
  | event log =>
    obtain ⟨m, nonces, h⟩ := hresume hc
    cases h
  | perform index sampled =>
    simp only [step] at hc
    cases hspawned : node.spawned[index]? <;> rw [hspawned] at hc <;> cases hc
  | deliver index =>
    simp only [step] at hc ⊢
    cases hanswer : node.finished[index]? with
    | none =>
      rw [hanswer] at hc
      cases hc
    | some answer =>
      rw [hanswer] at hc
      obtain ⟨m, nonces, h⟩ := hresume hc
      cases h
      refine ⟨m, nonces, _, rfl, ?_⟩
      have hlength := handleNonces_length (t := t) node.state m nonces
      change c ∈ (t.handleNonces node.state m nonces).2 at hc
      show (t.handleNonces node.state m nonces).2 = [c]
      obtain ⟨first, hsingle⟩ := List.length_eq_one_iff.mp
        (le_antisymm hlength (List.length_pos_of_mem hc))
      rw [hsingle] at hc ⊢
      rw [List.mem_singleton.mp hc]
  | housekeeping safe => cases hc
  | restore index =>
    simp only [step] at hc
    cases hreached : node.reached[index]? <;> rw [hreached] at hc <;> cases hc

theorem sublist_sharedPairs {steps : List Step} (h : ∀ x ∈ steps, x = take (step t) x.pre x.input) :
    (steps.flatMap fun x => sharedPairs x.out).Sublist (steps.filterMap fun x => delivered? x.out) := by
  induction steps with
  | nil => exact List.Sublist.slnil
  | cons x steps ih =>
    have hsteps := ih fun y hy => h y (List.mem_cons_of_mem _ hy)
    have hx : (sharedPairs x.out).Sublist (delivered? x.out).toList := by
      have hout : x.out = (x.pre.step t x.input).2 :=
        congrArg Trace.Step.out (h x List.mem_cons_self)
      cases hresumed : x.out with
      | commands commands => exact List.nil_sublist _
      | answered effect result => exact List.nil_sublist _
      | idle => exact List.nil_sublist _
      | resumed result commands =>
        rw [hout] at hresumed
        show ((commands.filter isSignShare).flatMap fun _ => result.nonces?.toList).Sublist
          result.nonces?.toList
        cases hshares : commands.filter isSignShare with
        | nil => exact List.nil_sublist _
        | cons c shares =>
          have hmem : c ∈ commands.filter isSignShare := by
            rw [hshares]
            exact List.mem_cons_self
          obtain ⟨hc, hshare⟩ := List.mem_filter.mp hmem
          have hlist : c ∈ (x.pre.step t x.input).2.commandList := by
            rw [hresumed]
            exact hc
          obtain ⟨message, nonces, commands', heq, hsingle⟩ := resumed_of_signShare hlist hshare
          rw [hresumed] at heq
          cases heq
          rw [hsingle, List.filter_singleton, hshare] at hshares
          cases hshares
          exact List.Sublist.refl _
    rw [List.flatMap_cons, List.filterMap_cons]
    cases hdelivered : delivered? x.out with
    | none =>
      rw [hdelivered] at hx
      rw [List.sublist_nil.mp hx]
      exact hsteps
    | some nonces =>
      rw [hdelivered] at hx
      exact hx.append hsteps

/-- **No pair makes two shares.** -/
theorem nodup_sharedPairs {inputs : List Input}
    (h : (SecretStore.sampledPairs (storeSteps t (trace (step t) .default inputs))).Nodup) :
    ((trace (step t) .default inputs).flatMap fun x => sharedPairs x.out).Nodup := by
  have hempty : Delivery [] Node.default := List.Perm.nil
  have hdelivery : Delivery (trace (step t) .default inputs) (final (step t) .default inputs) :=
    history_invariant (I := Delivery) (E := fun _ => True) hempty
      (fun steps node input ih _ => delivery_step ih input) inputs fun _ _ => trivial
  have htaken : (SecretStore.takenPairs (storeSteps t (trace (step t) .default inputs))).Nodup := by
    obtain ⟨calls, hcalls⟩ := storeSteps_eq t inputs
    rw [hcalls] at h ⊢
    exact SecretStore.nodup_takenPairs h
  rw [takenPairs_storeSteps] at htaken
  have hdelivered := (hdelivery.nodup_iff.mpr htaken).of_append_right
  exact (sublist_sharedPairs fun x hx => eq_take hx).nodup hdelivered

end Node

open SecretStore in
/-- **FROST nonces are used once**, in every run of the store that samples no pair twice, and in every run
of a validator. -/
theorem nonces_are_single_use (t : Transition) (calls : List StoreCall) (inputs : List Node.Input) :
    ((sampledPairs (trace call .empty calls)).Nodup → (takenPairs (trace call .empty calls)).Nodup) ∧
    (∀ before x middle y after group signatureId me nonces,
      trace call .empty calls = before ++ x :: (middle ++ y :: after) →
      x.input = .storeSigningNonces group signatureId me nonces → x.pre.held signatureId = none →
      (∀ z ∈ middle, ¬RemovesNonces signatureId z) →
        x.out = .commitments (some nonces.published) ∧
        (∀ group' me' sampled, y.input = .storeSigningNonces group' signatureId me' sampled →
          y.out = .commitments (some nonces.published) ∨ y.out = .commitments none) ∧
        (y.input = .takeSigningNonces signatureId →
          y.out = .taken (some nonces) ∨ y.out = .taken none)) ∧
    (∀ before x middle y after signatureId nonces group me sampled,
      trace call .empty calls = before ++ x :: (middle ++ y :: after) →
      x.input = .takeSigningNonces signatureId → x.out = .taken (some nonces) →
      (∀ z ∈ middle, ¬RemovesNonces signatureId z) →
      y.input = .storeSigningNonces group signatureId me sampled → y.out = .commitments none) ∧
    (∀ x ∈ trace call .empty calls, ∀ signatureId, RemovesNonces signatureId x →
      ∃ safe, x.input = .pruneScheduledSecrets safe) ∧
    ((sampledPairs (Node.storeSteps t (trace (Node.step t) .default inputs))).Nodup →
      ((trace (Node.step t) .default inputs).flatMap fun x => Node.sharedPairs x.out).Nodup) ∧
    ∀ x ∈ trace (Node.step t) .default inputs, ∀ c ∈ x.out.commandList, Node.isSignShare c = true →
      ∃ message nonces, x.out = .resumed (.nonces message nonces) [c] := by
  refine ⟨nodup_takenPairs, ?_, ?_, ?_, Node.nodup_sharedPairs, ?_⟩
  · intro before x middle y after group signatureId me nonces hrun hinput hrow hmiddle
    obtain ⟨hx, hy⟩ := eq_take_between hrun
    obtain ⟨hout, hpost⟩ := call_inserted hrow
    rw [← hinput] at hout hpost
    have hheld : Holds signatureId nonces y.pre :=
      kept_between (fun store c h hnot => holds_call h hnot) hrun (by rw [hx]; exact hpost) hmiddle
    obtain ⟨hstore, htake⟩ := call_of_holds hheld
    refine ⟨by rw [hx]; exact hout, fun group' me' sampled hinput' => ?_, fun hinput' => ?_⟩
    · rw [hy, hinput']
      exact hstore group' me' sampled
    · rw [hy, hinput']
      exact htake
  · intro before x middle y after signatureId nonces group me sampled hrun hinput hout hmiddle hinput'
    obtain ⟨hx, hy⟩ := eq_take_between hrun
    rw [hx, hinput] at hout
    have hpost : x.post.held signatureId = some none := by
      rw [hx, hinput]
      exact spent_of_taken hout
    have hspent : y.pre.held signatureId = some none :=
      kept_between (P := fun store => store.held signatureId = some none)
        (fun store c h hnot => spent_call h hnot) hrun hpost hmiddle
    rw [hy, hinput']
    exact call_of_spent hspent
  · intro x hx signatureId hremoves
    rw [eq_take hx] at hremoves
    exact prune_of_removesNonces hremoves
  · intro x hx c hc hshare
    rw [eq_take hx] at hc ⊢
    obtain ⟨message, nonces, commands, hout, rfl⟩ := Node.resumed_of_signShare hc hshare
    exact ⟨message, nonces, hout⟩

end Safenet.Validator
