import Photon.LogEvents
import Photon.OffChain
import Photon.Replay
import Photon.RetroReader

/-!
# The listener and its restarts

The listener reads the logs of the program's transactions (`Reader.readEventsBackward`), turns the
events of the allowed protocols into messages (`ProposalEventProcessor.execute`) and publishes
them to a queue. The consumer of the queue stores the signature that comes with each message. A
listener that crashes loses the messages it has not published, and resumes from the stored
signature when it starts again.

The stored signature is that of a transaction, and the reader leaves this transaction out. So
`restart_complete_iff` : no event is lost exactly if no message of the last consumed transaction
was still to be published, and no log makes the parser panic before an event.
-/

open scoped List

namespace Photon

/-! ## Messages -/

/-- What the listener publishes of an event, the `Propose` of `transmitter_common`. -/
structure ProposeMsg where
  needCheck : Bool
  latestBlockId : TxSignature
  operationData : MessageData

theorem length_defaultMeta : (List.replicate 31 (0 : UInt8) ++ [1]).length = 32 := rfl

def defaultMeta : Bytes32 :=
  ⟨List.replicate 31 0 ++ [1], length_defaultMeta⟩

/-- The event that a message was made from, with the signature of its transaction. -/
def ProposeMsg.event (p : ProposeMsg) : TxSignature × ProposeEvent :=
  (p.latestBlockId,
    { protocolId := p.operationData.protocolId.val
      nonce := p.operationData.nonce
      dstChainId := p.operationData.destChainId
      protocolAddress := p.operationData.protocolAddr
      functionSelector := p.operationData.functionSelector
      params := p.operationData.params })

/-! ## The processor of events -/

/-- The name of a protocol, cut or filled up with zeros to 32 bytes. -/
def allowedProtocol (p : String) : Bytes :=
  (asBytes p).take 32 ++ List.replicate (32 - (asBytes p).length) 0

theorem length_allowedProtocol (p : String) : (allowedProtocol p).length = 32 := by
  simp only [allowedProtocol, List.length_append, List.length_take, List.length_replicate]
  omega

/-- What turns logs into messages. `self` is the address of the program as a text. -/
structure ProposalEventProcessor where
  feature : Feature
  reader : EventReader ProposeEvent
  self : Line
  allowedProtocols : List Bytes
  length_allowed : ∀ p ∈ allowedProtocols, p.length = 32

namespace ProposalEventProcessor

theorem length_of_mem_map {names : List String} {p : Bytes} (h : p ∈ names.map allowedProtocol) :
    p.length = 32 := by
  obtain ⟨name, -, rfl⟩ := List.mem_map.1 h
  exact length_allowedProtocol name

def new (feature : Feature) (reader : EventReader ProposeEvent) (self : Line)
    (allowedProtocols : List String) : ProposalEventProcessor :=
  ⟨feature, reader, self, allowedProtocols.map allowedProtocol, fun _ => length_of_mem_map⟩

variable (P : ProposalEventProcessor)

def onEvent (event : ProposeEvent) (signature : TxSignature) (slot : UInt64) (needCheck : Bool) :
    Option ProposeMsg :=
  if event.protocolId ∈ P.allowedProtocols then do
    let protocolId ← Fixed.ofList? 32 event.protocolId
    some
      { needCheck := needCheck
        latestBlockId := signature
        operationData :=
          { srcChainId := P.feature.solanaChainId
            opMeta := defaultMeta
            srcBlockNumber := slot
            srcOpTxId := signature.val
            protocolId := protocolId
            nonce := event.nonce
            destChainId := event.dstChainId
            protocolAddr := event.protocolAddress
            functionSelector := event.functionSelector
            params := event.params
            reserved := [] } }
  else none

/-- Whether the protocol of an event is an allowed one. -/
def allows (allowedProtocols : List Bytes) (event : ProposeEvent) : Bool :=
  event.protocolId ∈ allowedProtocols

/-- The messages for the logs of a transaction, or none if the parser panics. Logs that are not
parsed give no messages. -/
def onLogs (b : LogsBunch) : Option (List ProposeMsg) :=
  match parseLogs P.reader b.logs P.self with
  | .ok events => some (events.filterMap fun event =>
      P.onEvent event b.txSignature b.slot b.needCheck)
  | .error .solanaParseLogs => some []
  | .error .panic => none

/-- The messages for what the reader has sent. A panic ends the listener. -/
def execute (sent : List LogsBunch) : List ProposeMsg :=
  Replay.delivered P.onLogs sent

/-- The events of allowed protocols that are read off the logs of a transaction, or none if the
parser panics. -/
def proposed (node : Node) (signature : TxSignature) : Option (List (TxSignature × ProposeEvent)) :=
  match node.bunch false signature with
  | none => some []
  | some b =>
    match parseLogs P.reader b.logs P.self with
    | .ok events => some ((events.filter fun event =>
        event.protocolId ∈ P.allowedProtocols).map (signature, ·))
    | .error .solanaParseLogs => some []
    | .error .panic => none

end ProposalEventProcessor

/-! ## The consumer -/

/-- The consumer stores the signature of each message. -/
def consume (_ : TxSignature) (p : ProposeMsg) : TxSignature :=
  p.latestBlockId

/-- Where the reader starts : from the signature of the configuration if there is one, else from
the stored one. -/
def getTxReadFrom (configured stored : Option TxSignature) : Option TxSignature :=
  configured.or stored

/-- The restarted reader : `n` rounds from the stored signature, with none configured. -/
def Resumes (node : Node) (stored : TxSignature) (c n : ℕ) (s : Reader) : Prop :=
  ∃ tx, getTxReadFrom none (some stored) = some tx ∧ Reader.Reads node tx c n s

/-! ## Messages and events -/

/-- The mark of a bunch says nothing else. -/
theorem Node.bunch_eq_map (node : Node) (needCheck : Bool) (signature : TxSignature) :
    node.bunch needCheck signature =
      (node.bunch false signature).map fun b => { b with needCheck := needCheck } := by
  simp only [bunch, Option.bind_eq_bind, Option.map_bind, Function.comp_def]
  refine Option.bind_congr fun m _ => Option.bind_congr fun logs _ => ?_
  split_ifs <;> rfl

namespace ProposalEventProcessor

variable {P : ProposalEventProcessor} {node : Node}

/-- An event gives a message exactly if its protocol is allowed, and the message keeps it. -/
theorem map_onEvent (event : ProposeEvent) (signature : TxSignature) (slot : UInt64)
    (needCheck : Bool) : (P.onEvent event signature slot needCheck).map ProposeMsg.event =
      if event.protocolId ∈ P.allowedProtocols then some (signature, event) else none := by
  unfold onEvent
  split_ifs with hmem
  · have hlen := P.length_allowed _ hmem
    simp [Fixed.ofList?, hlen, ProposeMsg.event]
  · rfl

/-- The messages of a bunch are the events of its transaction. -/
theorem map_onLogs {needCheck : Bool} {signature : TxSignature} {b : LogsBunch}
    (hb : node.bunch needCheck signature = some b) :
    (P.onLogs b).map (List.map ProposeMsg.event) = P.proposed node signature := by
  have hsig := (Node.bunch_eq_some hb).1
  rw [node.bunch_eq_map] at hb
  obtain ⟨b', hb', rfl⟩ := Option.map_eq_some_iff.1 hb
  simp only [onLogs, proposed, hb']
  split
  · rename_i events _
    simp only [Option.map_some, List.map_filterMap, map_onEvent]
    rw [← List.filterMap_eq_map, ← List.filterMap_eq_filter, List.filterMap_filterMap]
    refine congrArg some (List.filterMap_congr fun event _ => ?_)
    by_cases hmem : event.protocolId ∈ P.allowedProtocols <;>
      simp [Option.guard, hmem, show b'.txSignature = signature from hsig]
  · rfl
  · rfl

/-- What is read between two points of the history is handed over as it is in the ledger. -/
theorem map_execute (marked : TxSignature → Bool) (signatures : List TxSignature) :
    (P.execute (signatures.filterMap fun x => node.bunch (marked x) x)).map ProposeMsg.event =
      Replay.delivered (P.proposed node) signatures := by
  induction signatures with
  | nil => rfl
  | cons x signatures ih =>
    cases hx : node.bunch (marked x) x with
    | none =>
      have hnone : P.proposed node x = some [] := by
        simp only [proposed, Node.bunch_eq_none_iff.1 hx]
      simp only [List.filterMap_cons, hx]
      rw [ih, Replay.delivered_cons_some hnone, List.nil_append]
    | some b =>
      simp only [List.filterMap_cons, hx]
      have hmap := map_onLogs (P := P) hx
      cases hlogs : P.onLogs b with
      | none =>
        rw [hlogs, Option.map_none] at hmap
        rw [execute, Replay.delivered_cons_none hlogs, Replay.delivered_cons_none hmap.symm,
          List.map_nil]
      | some l =>
        rw [hlogs, Option.map_some] at hmap
        rw [execute, Replay.delivered_cons_some hlogs, Replay.delivered_cons_some hmap.symm,
          List.map_append, ← ih, execute]

/-- An event is of the transaction that it comes with. -/
theorem fst_of_mem_proposed (x : TxSignature) (l : List (TxSignature × ProposeEvent))
    (hl : P.proposed node x = some l) : ∀ y ∈ l, y.1 = x := by
  unfold proposed at hl
  split at hl
  · obtain rfl := Option.some_inj.1 hl
    simp
  · split at hl
    · obtain rfl := Option.some_inj.1 hl
      intro y hy
      obtain ⟨event, -, rfl⟩ := List.mem_map.1 hy
      rfl
    · obtain rfl := Option.some_inj.1 hl
      simp
    · simp at hl

end ProposalEventProcessor

/-! ## Restarts -/

/-- The stored signature is that of the last message. -/
theorem foldl_consume (tx : TxSignature) (consumed : List ProposeMsg) :
    consumed.foldl consume tx =
      ((consumed.map ProposeMsg.event).getLast?.map Prod.fst).getD tx := by
  induction consumed using List.reverseRecOn with
  | nil => rfl
  | append_singleton consumed p ih => simp [consume, ProposeMsg.event]

namespace Node

variable {node : Node} {tx : TxSignature}

theorem after_mono {t t' : ℕ} (htx : tx ∈ node.history t) (h : t ≤ t') :
    Window.after tx (node.history t) <+: Window.after tx (node.history t') := by
  obtain ⟨new, hnew⟩ := node.history_mono h
  rw [← hnew, Window.after_append htx]
  exact List.prefix_append _ _

theorem nodup_cons_after {t : ℕ} (htx : tx ∈ node.history t) :
    (tx :: Window.after tx (node.history t)).Nodup := by
  obtain ⟨pre, -, hhistory⟩ := Window.exists_eq_append_after htx
  have hd := node.nodup t
  rw [hhistory] at hd
  exact (List.nodup_append.1 hd).2.1

/-- From a later start, only what comes after the earlier one matters. -/
theorem after_eq {t : ℕ} {v : TxSignature} (htx : tx ∈ node.history t)
    (hv : v ∈ tx :: Window.after tx (node.history t)) :
    Window.after v (node.history t) = Window.after v (tx :: Window.after tx (node.history t)) := by
  obtain ⟨pre, -, hhistory⟩ := Window.exists_eq_append_after htx
  have hd := node.nodup t
  rw [hhistory] at hd
  conv_lhs => rw [hhistory]
  exact Window.after_append_right hv fun hmem => (List.nodup_append.1 hd).2.2 v hmem v hv rfl

theorem mem_of_mem_cons_after {t : ℕ} {v : TxSignature} (htx : tx ∈ node.history t)
    (hv : v ∈ tx :: Window.after tx (node.history t)) : v ∈ node.history t := by
  rcases List.mem_cons.1 hv with rfl | hv
  · exact htx
  · exact Window.mem_of_mem_after hv

end Node

/-- A reader has sent what it could see from its start on, up to some point. -/
theorem Reader.exists_reads {node : Node} {tx : TxSignature} {c : ℕ} (htx : tx ∈ node.history c)
    (n : ℕ) : ∃ s seen, Reads node tx c n s ∧ c ≤ s.clock ∧
      seen <+: Window.after tx (node.history s.clock) ∧
      s.sent = seen.filterMap fun signature =>
        node.bunch (signature ∈ node.history c) signature := by
  cases n with
  | zero => exact ⟨start tx c, [], ⟨0, fun _ _ => rfl⟩, le_rfl, List.nil_prefix, rfl⟩
  | succ n =>
    obtain ⟨s, s', -, hs', hc, hclock, -, hsent⟩ := reads_step htx n
    have htx' := (node.history_mono hc).subset htx
    exact ⟨s', _, hs', by omega, Node.after_mono htx' hclock.le, hsent⟩

/-- The entry of the last item taken is the start or one of the entries read. -/
theorem stored_mem {P : ProposalEventProcessor} {node : Node} {tx stored : TxSignature}
    {seen : List TxSignature} {k : ℕ}
    (h : stored = (((Replay.delivered (P.proposed node) seen).take k).getLast?.map
      Prod.fst).getD tx) : stored = tx ∨ stored ∈ seen := by
  cases hy : ((Replay.delivered (P.proposed node) seen).take k).getLast? with
  | none => exact .inl (by rw [h, hy]; rfl)
  | some y =>
    refine .inr ?_
    rw [h, hy, Option.map_some, Option.getD_some]
    exact Replay.key_mem_of_mem_delivered P.fst_of_mem_proposed
      (List.mem_of_mem_take (List.mem_of_getLast? hy))

/-- For every ledger, every start that the reader can see, and a crash after any number of rounds,
when some of the messages are consumed, some are still in the queue and the rest is lost : the
listener starts again, and after any further number of rounds the messages consumed, queued and
published contain all events of allowed protocols since the first start, up to the newest
transaction that the last scan could see, exactly if no event is read after a log that makes the
parser panic, and no lost message is of the transaction that is stored. -/
theorem restart_complete_iff (P : ProposalEventProcessor) (node : Node) (tx : TxSignature)
    (c n : ℕ) (htx : tx ∈ node.history c) : ∃ s, Reader.Reads node tx c n s ∧
      ∀ consumed queued lost, P.execute s.sent = consumed ++ queued ++ lost →
      ∀ c' n', s.clock ≤ c' →
      ∃ s₁ s₂, Resumes node (consumed.foldl consume tx) c' n' s₁ ∧
        Resumes node (consumed.foldl consume tx) c' (n' + 1) s₂ ∧ c' ≤ s₁.clock ∧
        (Replay.items (P.proposed node) (Window.after tx (node.history s₁.clock)) <+~
            (consumed ++ queued ++ P.execute s₂.sent).map ProposeMsg.event ↔
          Replay.Unblocked (P.proposed node) (Window.after tx (node.history s₁.clock)) ∧
            ∀ p ∈ lost, p.latestBlockId ≠ consumed.foldl consume tx) := by
  obtain ⟨s, seen, hs, hc, hseen, hsent⟩ := Reader.exists_reads htx n
  refine ⟨s, hs, fun consumed queued lost hcut c' n' hc' => ?_⟩
  have hread : Replay.delivered (P.proposed node) seen =
      (consumed ++ queued ++ lost).map ProposeMsg.event := by
    rw [← hcut, hsent, P.map_execute]
  set stored := consumed.foldl consume tx
  have hlast : stored = (((Replay.delivered (P.proposed node) seen).take
      consumed.length).getLast?.map Prod.fst).getD tx := by
    rw [hread, List.append_assoc, List.map_append, List.take_left' (List.length_map _),
      ← foldl_consume]
  have hmem := stored_mem hlast
  have htx₁ : ∀ t, s.clock ≤ t → tx ∈ node.history t := fun t ht =>
    (node.history_mono (hc.trans ht)).subset htx
  have hseen₁ : ∀ t, s.clock ≤ t → seen <+: Window.after tx (node.history t) := fun t ht =>
    hseen.trans (Node.after_mono (htx₁ _ le_rfl) ht)
  have hstored : ∀ t, s.clock ≤ t → stored ∈ tx :: Window.after tx (node.history t) :=
    fun t ht => List.mem_cons.2 (hmem.imp id ((hseen₁ t ht).subset ·))
  obtain ⟨s₁, s₂, hs₁, hs₂, hc₁, -, -, hsent₂⟩ :=
    Reader.reads_step (Node.mem_of_mem_cons_after (htx₁ c' hc') (hstored c' hc')) n'
  refine ⟨s₁, s₂, ⟨stored, rfl, hs₁⟩, ⟨stored, rfl, hs₂⟩, hc₁, ?_⟩
  have hs₁clock := hc'.trans hc₁
  have hiff := Replay.resume_iff P.fst_of_mem_proposed consumed.length (consumed ++ queued).length
    (Node.nodup_cons_after (htx₁ _ hs₁clock)) (hseen₁ _ hs₁clock) (by simp) hlast
  rw [hread, ← List.map_take, ← List.map_drop, List.take_left, List.drop_left,
    ← Node.after_eq (htx₁ _ hs₁clock) (hstored _ hs₁clock)] at hiff
  rw [List.map_append, hsent₂, Reader.sentBy, P.map_execute, hiff, List.forall_mem_map]
  rfl

/-! ## A transaction with two events -/

namespace Listener

/-- The payload of the next event of `onefunc`, with the nonce 9. -/
def nextPayload : Line :=
  ("8vb9LnW1kqUgAAAAb25lZnVuY19fX19fX19fX19fX19fX19fX19fX19fX18JAAAAAAAAAG2BAAAAAAAAAAAAAAAA" ++
    "AAADAAAAAQIDAwAAAAECAwMAAAABAgM=").toList

/-- A listener that decodes the two payloads. -/
def processor : ProposalEventProcessor :=
  .new .localnet
    { reader with
      base64Decode := fun text =>
        if text = nextPayload then
          (codec.encode { event with nonce := 9 }).map (discriminator ++ ·)
        else reader.base64Decode text }
    photon.val ["onefunc_________________________"]

/-- A log in which `onefunc` proposes twice. -/
def twoProposals : List Entry :=
  [.invoke onefunc, .invoke photon, .print (.data payload), .success, .invoke photon,
    .print (.data nextPayload), .success, .success]

theorem nodup_two : [TxSignature.of 1, .of 2].Nodup := by
  decide

/-- A ledger of two transactions, the second with two events. -/
def ledger : Node :=
  .paged [.of 1, .of 2] nodup_two 0 fun signature =>
    ⟨7, some ⟨false, if signature = .of 2 then some (lines [] twoProposals) else none⟩⟩

theorem history_ledger (t : ℕ) : ledger.history t = [.of 1, .of 2] :=
  List.take_of_length_le (by simp)

theorem mem_history_ledger (t : ℕ) :
    TxSignature.of 1 ∈ ledger.history t ∧ TxSignature.of 2 ∈ ledger.history t := by
  rw [history_ledger]
  decide

theorem proposed_ledger : processor.proposed ledger (.of 2) =
    some [(.of 2, event), (.of 2, { event with nonce := 9 })] := by
  decide +kernel

/-- A scan of the ledger sees the second transaction if it starts from the first. -/
theorem after_ledger (t : ℕ) : Window.after (.of 1) (ledger.history t) = [.of 2] ∧
    Window.after (.of 2) (ledger.history t) = [] := by
  rw [history_ledger]
  decide

/-- If nothing is lost in the crash, the restarted listener has all events. -/
theorem restart_complete_ledger : TxSignature.of 1 ∈ ledger.history 0 ∧
    ∃ s, Reader.Reads ledger (.of 1) 0 1 s ∧
      ∀ consumed queued, processor.execute s.sent = consumed ++ queued → ∀ n',
      ∃ s₁ s₂, Resumes ledger (consumed.foldl consume (.of 1)) s.clock n' s₁ ∧
        Resumes ledger (consumed.foldl consume (.of 1)) s.clock (n' + 1) s₂ ∧
        s.clock ≤ s₁.clock ∧
        Replay.items (processor.proposed ledger)
            (Window.after (.of 1) (ledger.history s₁.clock)) <+~
          (consumed ++ queued ++ processor.execute s₂.sent).map ProposeMsg.event := by
  have hmem := (mem_history_ledger 0).1
  obtain ⟨s, hs, h⟩ := restart_complete_iff processor ledger (.of 1) 0 1 hmem
  refine ⟨hmem, s, hs, fun consumed queued hcut n' => ?_⟩
  obtain ⟨s₁, s₂, hs₁, hs₂, hc, hiff⟩ :=
    h consumed queued [] (by rw [hcut, List.append_nil]) s.clock n' le_rfl
  refine ⟨s₁, s₂, hs₁, hs₂, hc, hiff.2 ⟨?_, by simp⟩⟩
  rw [(after_ledger _).1]
  exact List.pairwise_singleton _ _

/-- The first event of the second transaction is published and consumed, then the listener
crashes. It never comes back to the second event. -/
theorem second_event_lost : ∃ s p q, Reader.Reads ledger (.of 1) 0 1 s ∧
    processor.execute s.sent = [p] ++ [] ++ [q] ∧ ∀ c' n',
      ∃ s₁ s₂, Resumes ledger ([p].foldl consume (.of 1)) c' n' s₁ ∧
        Resumes ledger ([p].foldl consume (.of 1)) c' (n' + 1) s₂ ∧
        ¬Replay.items (processor.proposed ledger)
            (Window.after (.of 1) (ledger.history s₁.clock)) <+~
          ([p] ++ [] ++ processor.execute s₂.sent).map ProposeMsg.event := by
  obtain ⟨s₀, s, -, hs, -, -, -, hsent⟩ := Reader.reads_step (mem_history_ledger 0).1 0
  have hread : (processor.execute s.sent).map ProposeMsg.event =
      [(.of 2, event), (.of 2, { event with nonce := 9 })] := by
    rw [hsent, Reader.sentBy, processor.map_execute, (after_ledger _).1,
      Replay.delivered_cons_some proposed_ledger]
    rfl
  obtain ⟨p, q, hpq⟩ := List.length_eq_two.1 (by simpa using congrArg List.length hread)
  rw [hpq] at hread
  have hp : [p].foldl consume (.of 1) = .of 2 := congrArg Prod.fst (List.cons.inj hread).1
  refine ⟨s, p, q, hs, hpq, fun c' n' => ?_⟩
  obtain ⟨s₁, s₂, hs₁, hs₂, -, -, -, hsent₂⟩ := Reader.reads_step (mem_history_ledger c').2 n'
  rw [hp]
  refine ⟨s₁, s₂, ⟨_, rfl, hs₁⟩, ⟨_, rfl, hs₂⟩, fun hsub => ?_⟩
  have hnone : (processor.execute s₂.sent).map ProposeMsg.event = [] := by
    rw [hsent₂, Reader.sentBy, processor.map_execute, (after_ledger _).2]
    rfl
  rw [List.map_append, hnone, (after_ledger _).1] at hsub
  have hlen := hsub.length_le
  simp [Replay.items, proposed_ledger] at hlen

end Listener

end Photon
