import Photon.EventLog
import Photon.Publisher
import Photon.Registry

/-!
# From the chain to the queue

The proposals of the endpoint on their way : a transaction puts them out, its log shows them, the
reader fetches the log, the processor reads them off it, and the publisher hands them to the broker.

The chain is a list of transactions, some of which fail (`outcomes`). A node shows it if it has the
signatures in order, says which transactions failed, and has the logs of the others (`Shows`).

`announced_in_order` : whatever the node's pages and the number of rounds, and whatever the broker
and the connection do, the broker takes the proposals of the allowed protocols in the order of their
nonces, none twice and none left out, and each is read back with the operation it was made from.
-/

open scoped List

namespace Photon

open Machine

/-! ## The chain -/

/-- A transaction on the chain. -/
structure ChainTx (env : Env) where
  signature : TxSignature
  /-- Its calls of the endpoint. -/
  calls : List (Invocation env)
  /-- Something else in it fails. -/
  aborted : Bool

section Chain

variable (env : Env)

/-- The steps of the endpoint and the ledger after them, or none if the transaction fails. -/
def ChainTx.commit (l : Ledger) (tx : ChainTx env) :
    Option (List (Record Ledger (Invocation env) Effect) × Ledger) :=
  if tx.aborted then none else ((endpoint env).transact l tx.calls).toOption

/-- What the endpoint puts out in each transaction, none for one that fails. -/
def outcomes : Ledger → List (ChainTx env) → List (TxSignature × Option (List Effect))
  | _, [] => []
  | l, tx :: txs =>
    match tx.commit env l with
    | some (rs, l') => (tx.signature, some (outputs rs)) :: outcomes l' txs
    | none => (tx.signature, none) :: outcomes l txs

/-- The ledger after them. -/
def ledgerAfter : Ledger → List (ChainTx env) → Ledger
  | l, [] => l
  | l, tx :: txs =>
    match tx.commit env l with
    | some (_, l') => ledgerAfter l' txs
    | none => ledgerAfter l txs

/-- The outcomes of the transactions after `start`. -/
def outcomesAfter (start : TxSignature) (chain : List (ChainTx env)) :
    List (TxSignature × Option (List Effect)) :=
  ((outcomes env Ledger.genesis chain).dropWhile (·.1 ≠ start)).tail

/-- The proposals of the allowed protocols in a transaction. -/
def announced (allowed : List Bytes) (outcome : TxSignature × Option (List Effect)) :
    List (TxSignature × ProposeEvent) :=
  ((proposals (outcome.2.getD [])).filter (ProposalEventProcessor.allows allowed)).map
    (outcome.1, ·)

/-- At its call number `t` the node has the chain, with the logs of what succeeded. -/
structure Shows (node : Node) (t : ℕ) (chain : List (ChainTx env)) : Prop where
  history : node.history t = chain.map ChainTx.signature
  failed : ∀ signature, (signature, none) ∈ outcomes env Ledger.genesis chain →
    ∀ statusMeta ∈ (node.getTransaction signature).statusMeta, statusMeta.failed = true
  logged : ∀ signature out, (signature, some out) ∈ outcomes env Ledger.genesis chain →
    ∃ log, Logged log out ∧
      (node.getTransaction signature).statusMeta = some ⟨false, some (lines [] log)⟩

end Chain

variable {env : Env} {chain : List (ChainTx env)} {l : Ledger} {allowed : List Bytes}

theorem outcomes_fst (l : Ledger) (chain : List (ChainTx env)) :
    (outcomes env l chain).map Prod.fst = chain.map ChainTx.signature := by
  induction chain generalizing l with
  | nil => rfl
  | cons tx chain ih =>
    rw [outcomes]
    cases tx.commit env l with
    | none => simp [ih]
    | some r => simp [ih]

/-- The signatures after the start. -/
theorem outcomesAfter_fst {start : TxSignature} (h : start ∈ chain.map ChainTx.signature) :
    (outcomesAfter env start chain).map Prod.fst =
      Window.after start (chain.map ChainTx.signature) := by
  rw [Window.after, if_pos h, ← outcomes_fst Ledger.genesis chain, outcomesAfter,
    List.dropWhile_map, List.map_tail]
  rfl

/-- What the transactions put out is what a run of the endpoint does. -/
theorem run_of_outcomes {h : List (Record Ledger (Invocation env) Effect)}
    (hr : (endpoint env).Run Ledger.genesis h l) (chain : List (ChainTx env)) :
    ∃ h', (endpoint env).Run Ledger.genesis (h ++ h') (ledgerAfter env l chain) ∧
      ((outcomes env l chain).flatMap fun x => x.2.getD []) = outputs h' := by
  induction chain generalizing h l with
  | nil => exact ⟨[], by simpa [ledgerAfter] using hr, rfl⟩
  | cons tx chain ih =>
    rw [outcomes, ledgerAfter]
    cases hcommit : tx.commit env l with
    | none =>
      obtain ⟨h', hr', hout⟩ := ih hr
      exact ⟨h', hr', by simpa using hout⟩
    | some r =>
      obtain ⟨rs, l₁⟩ := r
      have hok : (endpoint env).transact l tx.calls = .ok (rs, l₁) := by
        unfold ChainTx.commit at hcommit
        split_ifs at hcommit
        exact Except.toOption_eq_some.1 hcommit
      obtain ⟨h', hr', hout⟩ := ih (hr.transact hok)
      refine ⟨rs ++ h', by simpa using hr', ?_⟩
      simp only [List.flatMap_cons, Option.getD_some, hout]
      simp [outputs]

theorem outcomesAfter_suffix (start : TxSignature) (chain : List (ChainTx env)) :
    outcomesAfter env start chain <:+ outcomes env Ledger.genesis chain :=
  (List.tail_suffix _).trans (List.dropWhile_suffix _)

/-- The proposals of the allowed protocols are some of all. -/
theorem announced_sublist (xs : List (TxSignature × Option (List Effect))) :
    (xs.flatMap (announced allowed)).map Prod.snd <+
      proposals (xs.flatMap fun x => x.2.getD []) := by
  induction xs with
  | nil => exact List.nil_sublist _
  | cons x xs ih =>
    rw [List.flatMap_cons, List.flatMap_cons, List.map_append, proposals_append]
    refine List.Sublist.append ?_ ih
    rw [announced, List.map_map]
    exact (List.map_id _).symm ▸ List.filter_sublist

/-- The nonces of the proposals go up. -/
theorem announced_nonces (start : TxSignature) (chain : List (ChainTx env)) :
    (((outcomesAfter env start chain).flatMap (announced allowed)).map
      fun x => x.2.nonce.toNat).Pairwise (· < ·) := by
  obtain ⟨pre, hpre⟩ := outcomesAfter_suffix start chain
  obtain ⟨h, hr, hout⟩ := run_of_outcomes .nil chain
  have hall := nonces_of_run hr
  rw [List.nil_append, ← hout, ← hpre, List.flatMap_append, proposals_append] at hall
  have hsub : ((outcomesAfter env start chain).flatMap (announced allowed)).map Prod.snd <+
      proposals (pre.flatMap fun x => x.2.getD []) ++
        proposals ((outcomesAfter env start chain).flatMap fun x => x.2.getD []) :=
    (announced_sublist _).trans (List.sublist_append_right _ _)
  have hnonces := hsub.map fun e => e.nonce.toNat
  rw [hall, List.map_map] at hnonces
  exact List.pairwise_lt_range.sublist hnonces

/-! ## What the listener reads -/

/-- The listener of proposals. -/
def proposalListener (B : Base64Decoder) (feature : Feature) (allowed : List String) :
    ProposalEventProcessor :=
  .new feature (EventType.propose.reader B) Listener.photon.val allowed

theorem proposals_eq (out : List Effect) :
    proposals out = (emitted out).filterMap EventType.propose.pick := by
  rw [emitted, List.filterMap_filterMap]
  refine List.filterMap_congr fun effect _ => ?_
  cases effect with
  | emit e => cases e <;> rfl
  | _ => rfl

section Reading

variable {B : Base64Decoder} {feature : Feature} {names : List String} {node : Node} {t : ℕ}

/-- The reader skips a transaction only if it has no events, and else the parser reads these off
its logs. -/
theorem bunch_of_shows {T : Type} (K : EventType T) (B : Base64Decoder) (needCheck : Bool)
    (h : Shows env node t chain) {x : TxSignature × Option (List Effect)}
    (hx : x ∈ outcomes env Ledger.genesis chain) :
    (node.bunch needCheck x.1 = none ∧ (emitted (x.2.getD [])).filterMap K.pick = []) ∨
      ∃ b, node.bunch needCheck x.1 = some b ∧
        parseLogs (K.reader B) b.logs Listener.photon.val =
          .ok ((emitted (x.2.getD [])).filterMap K.pick) := by
  obtain ⟨signature, out⟩ := x
  cases out with
  | none =>
    refine .inl ⟨?_, rfl⟩
    have hfailed := h.failed signature hx
    cases hmeta : (node.getTransaction signature).statusMeta with
    | none => simp [Node.bunch, hmeta]
    | some m => simp [Node.bunch, hmeta, hfailed m hmeta]
  | some out =>
    obtain ⟨log, hlog, hmeta⟩ := h.logged signature out hx
    have hparse := parseLogs_logged K B hlog
    by_cases hempty : lines [] log = []
    · rw [hempty] at hparse
      refine .inl ⟨?_, (Except.ok.inj hparse).symm⟩
      simp [Node.bunch, hmeta, hempty]
    · refine .inr ⟨⟨needCheck, signature, (node.getTransaction signature).slot, lines [] log⟩,
        ?_, hparse⟩
      simp [Node.bunch, hmeta, Option.filter, hempty]

/-- The listener reads off a transaction what the endpoint has announced in it. -/
theorem proposed_of_shows (h : Shows env node t chain) {x : TxSignature × Option (List Effect)}
    (hx : x ∈ outcomes env Ledger.genesis chain) :
    (proposalListener B feature names).proposed node x.1 =
      some (announced (names.map allowedProtocol) x) := by
  rcases bunch_of_shows EventType.propose B false h hx with ⟨hnone, hno⟩ | ⟨b, hb, hparse⟩
  · rw [← proposals_eq] at hno
    simp [ProposalEventProcessor.proposed, hnone, announced, hno]
  · rw [← proposals_eq] at hparse
    simp only [ProposalEventProcessor.proposed, hb]
    simp only [proposalListener, ProposalEventProcessor.new, hparse]
    rfl

/-- The listener announces what was announced on the chain, for any marks of the bunches. -/
theorem execute_of_shows (h : Shows env node t chain) {start : TxSignature}
    (hstart : start ∈ node.history t) (marked : TxSignature → Bool) :
    ((proposalListener B feature names).execute ((Window.after start (node.history t)).filterMap
        fun x => node.bunch (marked x) x)).map ProposeMsg.event =
      (outcomesAfter env start chain).flatMap (announced (names.map allowedProtocol)) := by
  rw [ProposalEventProcessor.map_execute]
  rw [h.history] at hstart ⊢
  rw [← outcomesAfter_fst hstart]
  exact Replay.delivered_map fun x hx => proposed_of_shows h ((outcomesAfter_suffix _ _).subset hx)

end Reading

/-! ## What the publisher is sent -/

/-- The message that the processor makes, if it does. -/
def PublishAction.handled (P : ProposalEventProcessor) : PublishAction → Option ProposeMsg
  | .onEvent event signature slot needCheck => P.onEvent event signature slot needCheck
  | _ => none

/-- The processor is not at its end. -/
def PublishAction.isDrop : PublishAction → Bool
  | .dropSender => true
  | _ => false

namespace RabbitmqPublisher

variable {P : ProposalEventProcessor} {signatureText : TxSignature → String} {attempts : ℕ}
  {s s' : RabbitmqPublisher} {a : PublishAction} {out : List PublishDeed}

@[simp] theorem closed_publishPropose (s : RabbitmqPublisher) (p : ProposeMsg) :
    (publishPropose signatureText s p).closed = s.closed := by
  unfold publishPropose
  split <;> rfl

theorem closed_select (s : RabbitmqPublisher) (notified notifiedFirst : Bool) :
    (s.select signatureText notified notifiedFirst).closed = s.closed := by
  unfold select
  split
  · rfl
  · cases htaken : s.proposeToProgress with
    | none => cases notified <;> rfl
    | some x =>
      obtain ⟨_ | p, s₁⟩ := x
      · rw [eq_of_proposeToProgress htaken]
      · have hclosed : s₁.closed = s.closed := by
          unfold proposeToProgress at htaken
          split at htaken
          · simp only [Option.some.injEq, Prod.mk.injEq] at htaken
            rw [← htaken.2]
          · simp only [Option.some.injEq, Prod.mk.injEq] at htaken
            rw [← htaken.2]
          · split_ifs at htaken
            simp at htaken
        simp [hclosed]

/-- A step sends the message that the processor makes, and closes the channel at its end. -/
theorem sent_of_step (h : step P signatureText attempts s a = .ok (s', out)) :
    out.flatMap PublishDeed.sentMsgs = (a.handled P).toList ∧
      s'.closed = (s.closed || a.isDrop) := by
  cases a with
  | onEvent event signature slot needCheck =>
    simp only [step, Except.bind_eq_ok] at h
    obtain ⟨-, -, h⟩ := h
    simp only [PublishAction.handled, PublishAction.isDrop, Bool.or_false]
    cases hevent : P.onEvent event signature slot needCheck with
    | none =>
      rw [hevent] at h
      obtain ⟨rfl, rfl⟩ := Prod.mk.inj (Except.pure_eq_ok.1 h)
      exact ⟨rfl, rfl⟩
    | some p =>
      rw [hevent] at h
      obtain ⟨rfl, rfl⟩ := Prod.mk.inj (Except.pure_eq_ok.1 h)
      exact ⟨rfl, rfl⟩
  | dropSender =>
    obtain ⟨rfl, rfl⟩ := Prod.mk.inj (Except.pure_eq_ok.1 h)
    exact ⟨rfl, by simp [PublishAction.isDrop]⟩
  | reconnect ok =>
    simp only [step] at h
    split at h
    · split_ifs at h
      all_goals
        obtain ⟨rfl, rfl⟩ := Prod.mk.inj (Except.pure_eq_ok.1 h)
        exact ⟨rfl, by simp [PublishAction.isDrop]⟩
    · simp at h
  | close =>
    simp only [step] at h
    split at h
    all_goals
      obtain ⟨rfl, rfl⟩ := Prod.mk.inj (Except.pure_eq_ok.1 h)
      exact ⟨rfl, by simp [PublishAction.isDrop]⟩
  | poll notifiedFirst =>
    simp only [step] at h
    split at h
    · obtain ⟨rfl, rfl⟩ := Prod.mk.inj (Except.pure_eq_ok.1 h)
      exact ⟨rfl, by rw [closed_select]; simp [PublishAction.isDrop]⟩
    · simp at h
  | publish ok =>
    simp only [step] at h
    split at h
    · split_ifs at h
      all_goals
        obtain ⟨rfl, rfl⟩ := Prod.mk.inj (Except.pure_eq_ok.1 h)
        exact ⟨rfl, by simp [PublishAction.isDrop]⟩
    · simp at h

/-- The channel takes what the processor makes while it is open. -/
theorem handled_of_error (h : step P signatureText attempts s a = .error ()) :
    a.handled P = none ∨ s.closed = true := by
  cases a with
  | onEvent event signature slot needCheck =>
    by_cases hclosed : s.closed = true
    · exact .inr hclosed
    · have hopen : s.closed = false := by simpa using hclosed
      simp only [step, hopen, require, if_true, bind, Except.bind] at h
      split at h <;> simp [pure, Except.pure] at h
  | _ => exact .inl rfl

/-- Nothing comes into a closed channel. -/
theorem sent_of_closed (hs : s.closed = true) (actions : List PublishAction) :
    sent ((machine P signatureText attempts).run s (actions.map ([·]))).1 = [] := by
  induction actions generalizing s with
  | nil => rfl
  | cons a actions ih =>
    rw [List.map_cons]
    cases hstep : (machine P signatureText attempts).step s a with
    | error e =>
      rw [run_cons_error _ hstep]
      exact ih hs
    | ok r =>
      obtain ⟨s', out⟩ := r
      obtain ⟨hout, hclosed⟩ := sent_of_step hstep
      have hrest := ih (s := s') (by rw [hclosed, hs]; rfl)
      have hnone : out.flatMap PublishDeed.sentMsgs = [] := by
        rw [hout]
        cases a with
        | onEvent event signature slot needCheck =>
          simp [machine, step, hs, require, bind, Except.bind] at hstep
        | _ => rfl
      rw [run_cons_ok _ hstep]
      simp only [sent, outputs, List.flatMap_cons, List.flatMap_append] at hrest ⊢
      rw [hrest, hnone]
      rfl

/-- What comes into the channel is the first part of what the processor makes, and all of it if the
processor does not end. -/
theorem sent_handled (P : ProposalEventProcessor) (signatureText : TxSignature → String)
    (attempts : ℕ) {s : RabbitmqPublisher} (hs : s.closed = false) (actions : List PublishAction) :
    sent ((machine P signatureText attempts).run s (actions.map ([·]))).1 <+:
        actions.filterMap (·.handled P) ∧
      ((∀ a ∈ actions, a.isDrop = false) →
        sent ((machine P signatureText attempts).run s (actions.map ([·]))).1 =
          actions.filterMap (·.handled P)) := by
  induction actions generalizing s with
  | nil => exact ⟨List.nil_prefix, fun _ => rfl⟩
  | cons a actions ih =>
    have hcons : (a :: actions).filterMap (·.handled P) =
        (a.handled P).toList ++ actions.filterMap (·.handled P) := by
      cases hmsg : a.handled P <;> simp [hmsg]
    rw [List.map_cons, hcons, List.forall_mem_cons]
    cases hstep : (machine P signatureText attempts).step s a with
    | error e =>
      have hnone : a.handled P = none := (handled_of_error hstep).resolve_right (by simp [hs])
      rw [run_cons_error _ hstep, hnone, Option.toList_none, List.nil_append]
      exact ⟨(ih hs).1, fun h => (ih hs).2 h.2⟩
    | ok r =>
      obtain ⟨s', out⟩ := r
      obtain ⟨hout, hclosed⟩ := sent_of_step hstep
      have hsent : sent (((machine P signatureText attempts).run s
          ([a] :: actions.map ([·]))).1) = (a.handled P).toList ++
            sent ((machine P signatureText attempts).run s' (actions.map ([·]))).1 := by
        rw [run_cons_ok _ hstep, ← hout]
        simp [sent, outputs]
      rw [hsent]
      cases hdrop : a.isDrop with
      | true =>
        rw [sent_of_closed (by rw [hclosed, hdrop, Bool.or_true]), List.append_nil]
        exact ⟨List.prefix_append _ _, fun h => absurd h.1 (by simp)⟩
      | false =>
        have hopen : s'.closed = false := by rw [hclosed, hs, hdrop]; rfl
        obtain ⟨hfront, hall⟩ := ih hopen
        exact ⟨(List.prefix_append_right_inj _).2 hfront, fun h => by rw [hall h.2]⟩

end RabbitmqPublisher

/-! ## Main theorem -/

namespace RabbitmqPublisher

variable {P : ProposalEventProcessor} {signatureText : TxSignature → String} {attempts : ℕ}
  {actions : List PublishAction} {p : ProposeMsg} {jsonData : Json}

/-- The invariant along the actions, with what is sent and what was delivered of it. -/
theorem inv_after (P : ProposalEventProcessor) (signatureText : TxSignature → String)
    (attempts : ℕ) (actions : List PublishAction) :
    (after P signatureText attempts actions).Inv signatureText ∧
      deliveredTo (history P signatureText attempts actions) ++
        (after P signatureText attempts actions).pending =
          sent (history P signatureText attempts actions) := by
  have hrun : (machine P signatureText attempts).Run new
      (history P signatureText attempts actions) (after P signatureText attempts actions) :=
    Machine.run_sound _ _ _
  refine hrun.conserved inv_new fun s i s' out hs hstep => ?_
  obtain ⟨hs', hnow, -⟩ := step_conserves hs hstep
  exact ⟨hs', hnow⟩

/-- A message is delivered as it is encoded. -/
theorem encode_of_delivered
    (h : .delivered p jsonData ∈ outputs (history P signatureText attempts actions)) :
    p.encode signatureText = some jsonData := by
  have hrun : (machine P signatureText attempts).Run new
      (history P signatureText attempts actions) (after P signatureText attempts actions) :=
    Machine.run_sound _ _ _
  obtain ⟨r, hr, hout⟩ := List.mem_flatMap.1 h
  obtain ⟨pre, post, -, hpre, hstep⟩ := hrun.of_mem hr
  have hbefore : r.before.Inv signatureText :=
    hpre.inv inv_new fun s i s' out hs hstep => (step_conserves hs hstep).1
  obtain ⟨-, -, hencode⟩ := step_conserves hbefore hstep
  exact hencode p jsonData hout

/-- A message of the processor is read back with its operation. -/
theorem operationData_of_encode (hlen : p.operationData.srcOpTxId.length = 64)
    (hencode : p.encode signatureText = some jsonData) :
    (Queue.TransmitterMsg.deserialize jsonData).bind (fun m => m.msg.operationData) =
      some p.operationData := by
  obtain ⟨values, hvalues⟩ := MessageData.exists_serializeFields_iff.2
    (show 32 < p.operationData.srcOpTxId.length by omega)
  rw [Queue.TransmitterMsg.operationData_deserialize (m := p.transmitterMsg signatureText) rfl
    hvalues hencode]
  exact (MessageData.deserializeFields_iff hvalues).2 hlen

theorem length_of_handled {a : PublishAction} (h : a.handled P = some p) :
    p.operationData.srcOpTxId.length = 64 := by
  cases a with
  | onEvent event signature slot needCheck => exact ProposalEventProcessor.length_of_onEvent h
  | _ => simp [PublishAction.handled] at h

end RabbitmqPublisher

/-- For every chain that a node shows, every start that the reader can see, any page sizes and any
number of rounds, and whatever the broker, the connection and the processor do : the broker takes
the proposals of the allowed protocols after the start, up to the newest transaction that the last
scan could see, in the order of their nonces, each once, and reads back the operation of each. Those
that the processor has gone through and the broker has not taken are still with the publisher. -/
theorem announced_in_order (env : Env) (B : Base64Decoder) (feature : Feature)
    (names : List String) (signatureText : TxSignature → String) (attempts : ℕ) (node : Node)
    (start : TxSignature) (c n : ℕ) (hstart : start ∈ node.history c) :
    ∃ s s', Reader.Reads node start c n s ∧ Reader.Reads node start c (n + 1) s' ∧ c ≤ s.clock ∧
      ∀ chain, Shows env node s.clock chain →
        let P := proposalListener B feature names
        let all := (outcomesAfter env start chain).flatMap (announced P.allowedProtocols)
        (all.map fun x => x.2.nonce.toNat).Pairwise (· < ·) ∧
        ∀ actions, actions.filterMap (·.handled P) <+: P.execute s'.sent →
          let h := RabbitmqPublisher.history P signatureText attempts actions
          let r := RabbitmqPublisher.after P signatureText attempts actions
          (deliveredTo h).map ProposeMsg.event <+: all ∧
          (actions.filterMap (·.handled P) = P.execute s'.sent →
            (∀ a ∈ actions, a.isDrop = false) →
              (deliveredTo h ++ (r.held ++ r.proposeReceiver)).map ProposeMsg.event = all) ∧
          ∀ p jsonData, .delivered p jsonData ∈ outputs h →
            (Queue.TransmitterMsg.deserialize jsonData).bind (fun m => m.msg.operationData) =
              some p.operationData := by
  obtain ⟨s, s', hs, hs', hc, -, -, hsent⟩ := Reader.reads_step hstart n
  refine ⟨s, s', hs, hs', hc, fun chain hshows => ?_⟩
  intro P all
  have hseen := (node.history_mono hc).subset hstart
  have hread : (P.execute s'.sent).map ProposeMsg.event = all := by
    rw [hsent, Reader.sentBy]
    exact execute_of_shows hshows hseen _
  refine ⟨announced_nonces start chain, fun actions hactions => ?_⟩
  intro h r
  obtain ⟨-, hconserved⟩ :=
    RabbitmqPublisher.inv_after P signatureText attempts actions
  obtain ⟨hfront, hfull⟩ :=
    RabbitmqPublisher.sent_handled P signatureText attempts (s := .new) rfl actions
  have hdelivered : deliveredTo h <+: sent h := ⟨_, hconserved⟩
  refine ⟨?_, fun hdone hopen => ?_, fun p jsonData hp => ?_⟩
  · rw [← hread]
    exact (hdelivered.trans (hfront.trans hactions)).map _
  · have hall : sent h = P.execute s'.sent := (hfull hopen).trans hdone
    rw [← hread, ← hall]
    exact congrArg _ hconserved
  · have hmem : p ∈ deliveredTo h := List.mem_flatMap.2 ⟨_, hp, List.mem_singleton_self p⟩
    obtain ⟨a, -, ha⟩ := List.mem_filterMap.1 (hfront.subset (hdelivered.subset hmem))
    exact RabbitmqPublisher.operationData_of_encode (RabbitmqPublisher.length_of_handled ha)
      (RabbitmqPublisher.encode_of_delivered hp)

/-! ## A node that shows a chain -/

/-- The log of a transaction that only calls the endpoint. -/
def plainLog (out : List Effect) : List Entry :=
  .invoke Listener.photon ::
    (((emitted out).filterMap Event.text).map (fun text => .print (.data text)) ++ [.success])

/-- A node with the chain, which answers with two signatures at most. -/
def Node.showing (env : Env) (chain : List (ChainTx env))
    (hd : (chain.map ChainTx.signature).Nodup) : Node :=
  .paged (chain.map ChainTx.signature) hd 1 fun signature =>
    ⟨7, match (outcomes env Ledger.genesis chain).find? (·.1 = signature) with
      | some (_, some out) => some ⟨false, some (lines [] (plainLog out))⟩
      | _ => some ⟨true, none⟩⟩

theorem prints_data (q : ProgramId) (texts : List Line) :
    prints [q] (texts.map (fun text => .print (.data text)) ++ [.success]) =
        texts.map (fun text => (q, .data text)) ∧
      WellFormed [q] (texts.map (fun text => .print (.data text)) ++ [.success]) := by
  induction texts with
  | nil => exact ⟨rfl, by simp [WellFormed, Entry.next]⟩
  | cons text texts ih =>
    refine ⟨?_, .inr (by simp), ih.2⟩
    rw [List.map_cons, List.map_cons, ← ih.1]
    rfl

theorem map_some_texts {events : List Event} (h : ∀ e ∈ events, e.text.isSome = true) :
    (events.filterMap Event.text).map some = events.map Event.text := by
  induction events with
  | nil => rfl
  | cons e events ih =>
    rw [List.forall_mem_cons] at h
    obtain ⟨text, htext⟩ := Option.isSome_iff_exists.1 h.1
    simp [htext, ih h.2]

theorem logged_plainLog {out : List Effect} (h : ∀ e ∈ emitted out, e.text.isSome = true) :
    Logged (plainLog out) out := by
  obtain ⟨hprints, hwell⟩ := prints_data Listener.photon ((emitted out).filterMap Event.text)
  have hall : prints [] (plainLog out) =
      ((emitted out).filterMap Event.text).map fun text => (Listener.photon, .data text) := hprints
  refine ⟨⟨.inl ⟨_, rfl⟩, hwell⟩, fun x hx => ?_, ?_, fun q x hx hq => ?_⟩
  · rw [hall] at hx
    obtain ⟨text, htext, heq⟩ := List.mem_map.1 hx
    obtain ⟨e, -, he⟩ := List.mem_filterMap.1 htext
    rw [← (Prod.mk.inj heq).2]
    exact .event he
  · rw [hall, payloads, List.filterMap_map]
    rw [← map_some_texts h]
    simp [Function.comp_def, Print.payload]
  · rw [hall] at hx
    obtain ⟨text, -, heq⟩ := List.mem_map.1 hx
    exact absurd (Prod.mk.inj heq).1.symm hq

theorem find?_of_mem {α β : Type} [DecidableEq α] {xs : List (α × β)} {x : α × β}
    (hd : (xs.map Prod.fst).Nodup) (hx : x ∈ xs) : xs.find? (·.1 = x.1) = some x := by
  induction xs with
  | nil => simp at hx
  | cons y xs ih =>
    obtain ⟨hy, hd⟩ := List.nodup_cons.1 hd
    rcases List.mem_cons.1 hx with rfl | hx
    · simp
    · have hne : y.1 ≠ x.1 := fun heq => hy (heq ▸ List.mem_map_of_mem hx)
      rw [List.find?_cons_of_neg (by simpa using hne)]
      exact ih hd hx

/-- Every chain can be shown, if its events can be written. -/
theorem shows_showing {hd : (chain.map ChainTx.signature).Nodup} {t : ℕ}
    (ht : chain.length ≤ t + 3)
    (htexts : ∀ x ∈ outcomes env Ledger.genesis chain, ∀ e ∈ emitted (x.2.getD []),
      e.text.isSome = true) : Shows env (.showing env chain hd) t chain := by
  have hfind {x : TxSignature × Option (List Effect)}
      (hx : x ∈ outcomes env Ledger.genesis chain) :
      (outcomes env Ledger.genesis chain).find? (·.1 = x.1) = some x :=
    find?_of_mem (by rwa [outcomes_fst]) hx
  constructor
  · exact List.take_of_length_le (by rwa [List.length_map])
  · intro signature hx m hm
    simp only [Node.showing, Node.paged, hfind hx] at hm
    obtain rfl := Option.some_inj.1 hm
    rfl
  · intro signature out hx
    refine ⟨plainLog out, logged_plainLog (htexts _ hx), ?_⟩
    simp only [Node.showing, Node.paged, hfind hx]

section Deployment

open Deployment
open Localnet (transmitter1 transmitter2 onefuncId)

/-- The wallet becomes a proposer for `onefunc`. It proposes before that, then twice in one
transaction, and then in one that fails for another reason. -/
def proposing : List (ChainTx (deployed [addProposer])) :=
  [⟨.of 1, [setUp _ 5000 [transmitter1, transmitter2]], false⟩,
    ⟨.of 2, [load _ addProposer], false⟩,
    ⟨.of 3, [sign _ addProposer], false⟩, ⟨.of 4, [proposeOnefunc], false⟩,
    ⟨.of 5, [execute _ addProposer onefuncId], false⟩,
    ⟨.of 6, [proposeOnefunc, proposeOnefunc], false⟩, ⟨.of 7, [proposeOnefunc], true⟩]

theorem nodup_proposing : (proposing.map ChainTx.signature).Nodup := by
  decide

def onefuncListener : ProposalEventProcessor :=
  proposalListener .strict .localnet ["onefunc_________________________"]

/-- The broker takes the two proposals of the sixth transaction at most, the first one first. -/
theorem announced_in_order_onefunc : ∃ s s',
    Reader.Reads (.showing _ proposing nodup_proposing) (.of 1) 4 1 s ∧
      Reader.Reads (.showing _ proposing nodup_proposing) (.of 1) 4 2 s' ∧
      ∀ actions, actions.filterMap (·.handled onefuncListener) <+: onefuncListener.execute s'.sent →
        (deliveredTo (RabbitmqPublisher.history onefuncListener (fun _ => "") 3 actions)).map
            (fun p => (p.latestBlockId, p.operationData.nonce)) <+: [(.of 6, 0), (.of 6, 1)] := by
  have hrun : (∀ x ∈ outcomes (deployed [addProposer]) Ledger.genesis proposing,
      ∀ e ∈ emitted (x.2.getD []), e.text.isSome = true) ∧
      ((outcomesAfter (deployed [addProposer]) (.of 1) proposing).flatMap
        (announced onefuncListener.allowedProtocols)).map (fun x => (x.1, x.2.nonce)) =
          [(.of 6, 0), (.of 6, 1)] := by
    decide +kernel
  obtain ⟨s, s', hs, hs', hc, h⟩ := announced_in_order (deployed [addProposer]) .strict .localnet
    ["onefunc_________________________"] (fun _ => "") 3 (.showing _ proposing nodup_proposing)
    (.of 1) 4 1 (by decide)
  refine ⟨s, s', hs, hs', fun actions hactions => ?_⟩
  have hlen : proposing.length ≤ s.clock + 3 := by
    change 7 ≤ s.clock + 3
    omega
  obtain ⟨-, hall⟩ := h proposing (shows_showing hlen hrun.1)
  have hfront := (hall actions hactions).1.map fun x => (x.1, x.2.nonce)
  rw [List.map_map] at hfront
  exact hrun.2 ▸ hfront

end Deployment

end Photon
