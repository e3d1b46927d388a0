import Photon.Proposals
import Photon.Queue

/-!
# The publisher of proposals

The processor of events sends messages over an unbounded channel to the publisher, which hands them
to the broker. The publisher waits for the next message and for the news that the connection was
closed at the same time. A wait that ends with the news has taken no message, neither from the
buffer nor from the channel. A message that the broker did not take goes into the buffer, which
comes before the channel the next time.

The two sides and the broker act in any order (`RabbitmqPublisher.step`). What the broker has taken,
the one message that the publisher may hold, and the channel are together what was sent, in order
(`published_in_order`). A message of the processor has a transaction id of 64 bytes, and so can
always be encoded (`ProposeMsg.exists_encode`).
-/

open scoped List

namespace Photon

/-- Where `publish_to_rabbitmq` stands. -/
inductive PublishPhase
  /-- `init_connection`, after some failed attempts. -/
  | connecting (attempts : ℕ)
  /-- In `select!`, and whether the connection was closed since it waits there. -/
  | selecting (notified : Bool)
  /-- `basic_publish`, with a message and what it is encoded as. -/
  | publishing (propose : ProposeMsg) (jsonData : Json)
  | returned (ok : Bool)
  | panicked

/-- The message that is being published. -/
def PublishPhase.held : PublishPhase → List ProposeMsg
  | .publishing p _ => [p]
  | _ => []

/-- The publisher with its channel. -/
structure RabbitmqPublisher where
  phase : PublishPhase
  /-- The messages in the channel. -/
  proposeReceiver : List ProposeMsg
  /-- The sender of the channel is gone. -/
  closed : Bool
  bufferedPropose : Option ProposeMsg
  /-- There is a connection, though it may be broken. -/
  connection : Bool

/-- An action of one of the parties. -/
inductive PublishAction
  /-- The processor handles an event. -/
  | onEvent (event : ProposeEvent) (signature : TxSignature) (slot : UInt64) (needCheck : Bool)
  /-- The processor ends. -/
  | dropSender
  /-- An attempt to connect ends. -/
  | reconnect (ok : Bool)
  /-- The broker closes the connection or the channel. -/
  | close
  /-- `select!` polls its two branches, in either order. -/
  | poll (notifiedFirst : Bool)
  /-- `basic_publish` ends. -/
  | publish (ok : Bool)

/-- What is observed. -/
inductive PublishDeed
  /-- The processor has put a message into the channel. -/
  | sent (propose : ProposeMsg)
  /-- The broker has taken a message. -/
  | delivered (propose : ProposeMsg) (jsonData : Json)

def PublishDeed.sentMsgs : PublishDeed → List ProposeMsg
  | .sent p => [p]
  | .delivered _ _ => []

def PublishDeed.deliveredMsgs : PublishDeed → List ProposeMsg
  | .sent _ => []
  | .delivered p _ => [p]

/-! ## Messages -/

section Encoding

variable (signatureText : TxSignature → String)

/-- The message as `transmitter_common` has it. -/
def ProposeMsg.transmitterMsg (p : ProposeMsg) : Queue.TransmitterMsg where
  needCheck := some p.needCheck
  msg := .v1 (.propose ⟨p.needCheck, signatureText p.latestBlockId, p.operationData⟩)

def ProposeMsg.encode (p : ProposeMsg) : Option Json :=
  (p.transmitterMsg signatureText).serialize

end Encoding

theorem ProposeMsg.exists_encode {signatureText : TxSignature → String} {p : ProposeMsg}
    (hlen : 32 < p.operationData.srcOpTxId.length) :
    ∃ jsonData, p.encode signatureText = some jsonData := by
  obtain ⟨values, hvalues⟩ := MessageData.exists_serializeFields_iff.2 hlen
  obtain ⟨entries, hentries⟩ : ∃ entries,
      (p.transmitterMsg signatureText).msg.serializeEntries = some entries :=
    Queue.TransmitterMsgVersioned.exists_serializeEntries rfl hvalues
  exact ⟨_, by rw [encode, Queue.TransmitterMsg.serialize, hentries]; rfl⟩

/-- The transaction id of a message of the processor is a signature. -/
theorem ProposalEventProcessor.length_of_onEvent {P : ProposalEventProcessor} {event : ProposeEvent}
    {signature : TxSignature} {slot : UInt64} {needCheck : Bool} {p : ProposeMsg}
    (h : P.onEvent event signature slot needCheck = some p) :
    p.operationData.srcOpTxId.length = 64 := by
  unfold onEvent at h
  split_ifs at h
  obtain ⟨id, -, hp⟩ := Option.bind_eq_some_iff.1 h
  obtain rfl := Option.some_inj.1 hp
  exact signature.property

/-! ## Steps -/

namespace RabbitmqPublisher

variable (P : ProposalEventProcessor) (signatureText : TxSignature → String) (attempts : ℕ)

/-- At the start of `publish_to_rabbitmq`. -/
def new : RabbitmqPublisher where
  phase := .connecting 0
  proposeReceiver := []
  closed := false
  bufferedPropose := none
  connection := false

/-- One poll of `propose_to_progress` : none if it has to wait, else its answer, which is none when
the channel has come to its end. -/
def proposeToProgress (s : RabbitmqPublisher) :
    Option (Option ProposeMsg × RabbitmqPublisher) :=
  match s.bufferedPropose, s.proposeReceiver with
  | some p, _ => some (some p, { s with bufferedPropose := none })
  | none, p :: rest => some (some p, { s with proposeReceiver := rest })
  | none, [] => if s.closed then some (none, s) else none

/-- `publish_propose` up to the answer of the broker. A message that cannot be encoded is
dropped. -/
def publishPropose (s : RabbitmqPublisher) (p : ProposeMsg) : RabbitmqPublisher :=
  match p.encode signatureText with
  | none => { s with phase := .selecting false }
  | some jsonData =>
    { s with phase := if s.connection then .publishing p jsonData else .panicked }

/-- One poll of `select!`. -/
def select (s : RabbitmqPublisher) (notified notifiedFirst : Bool) : RabbitmqPublisher :=
  if notified ∧ notifiedFirst then { s with phase := .connecting 0 }
  else
    match s.proposeToProgress with
    | some (some p, s') => publishPropose signatureText s' p
    | some (none, s') => { s' with phase := .returned true }
    | none => if notified then { s with phase := .connecting 0 } else s

def step (s : RabbitmqPublisher) :
    PublishAction → Except Unit (RabbitmqPublisher × List PublishDeed)
  | .onEvent event signature slot needCheck => do
    require (s.closed = false) ()
    match P.onEvent event signature slot needCheck with
    | some p => pure ({ s with proposeReceiver := s.proposeReceiver ++ [p] }, [.sent p])
    | none => pure (s, [])
  | .dropSender => pure ({ s with closed := true }, [])
  | .reconnect ok =>
    match s.phase with
    | .connecting n =>
      if ok then pure ({ s with phase := .selecting false, connection := true }, [])
      else if n + 1 = attempts then pure ({ s with phase := .returned false }, [])
      else pure ({ s with phase := .connecting (n + 1) }, [])
    | _ => .error ()
  | .close =>
    -- the news reaches only a publisher that waits for it
    match s.phase with
    | .selecting _ => pure ({ s with phase := .selecting true }, [])
    | _ => pure (s, [])
  | .poll notifiedFirst =>
    match s.phase with
    | .selecting notified => pure (s.select signatureText notified notifiedFirst, [])
    | _ => .error ()
  | .publish ok =>
    match s.phase with
    | .publishing p jsonData =>
      if ok then pure ({ s with phase := .selecting false }, [.delivered p jsonData])
      else pure ({ s with phase := .selecting false, bufferedPropose := some p }, [])
    | _ => .error ()

def machine : Machine RabbitmqPublisher PublishAction PublishDeed Unit :=
  ⟨step P signatureText attempts⟩

/-- The history of a publisher. -/
def history (actions : List PublishAction) :
    List (Record RabbitmqPublisher PublishAction PublishDeed) :=
  ((machine P signatureText attempts).run new (actions.map ([·]))).1

/-- The publisher after some actions. -/
def after (actions : List PublishAction) : RabbitmqPublisher :=
  ((machine P signatureText attempts).run new (actions.map ([·]))).2

/-! ## What is pending -/

/-- The messages that the publisher has taken from the channel and not delivered. -/
def held (s : RabbitmqPublisher) : List ProposeMsg :=
  s.phase.held ++ s.bufferedPropose.toList

def pending (s : RabbitmqPublisher) : List ProposeMsg :=
  s.held ++ s.proposeReceiver

/-- Every message that is pending can be encoded, and none is in the buffer while one is
published. -/
structure Inv (s : RabbitmqPublisher) : Prop where
  selecting : ∀ b, s.phase = .selecting b → s.connection = true
  publishing : ∀ p jsonData, s.phase = .publishing p jsonData →
    s.connection = true ∧ s.bufferedPropose = none ∧ p.encode signatureText = some jsonData
  running : s.phase ≠ .panicked
  encodes : ∀ p ∈ s.pending, ∃ jsonData, p.encode signatureText = some jsonData

variable {P signatureText attempts} {s s' : RabbitmqPublisher} {p : ProposeMsg}

theorem inv_new : new.Inv signatureText := by
  constructor <;> simp [new, pending, held, PublishPhase.held]

theorem length_held_le (hs : s.Inv signatureText) : s.held.length ≤ 1 := by
  have hbuffer : s.bufferedPropose.toList.length ≤ 1 := by
    cases s.bufferedPropose <;> simp
  unfold held
  cases hphase : s.phase with
  | publishing q jsonData =>
    obtain ⟨-, hnone, -⟩ := hs.publishing q jsonData hphase
    simp [hnone, PublishPhase.held]
  | _ => exact hbuffer

/-- A change of phase with no message in either. -/
theorem inv_phase (phase : PublishPhase) (hs : s.Inv signatureText) (hold : s.phase.held = [])
    (hheld : phase.held = []) (hrunning : phase ≠ .panicked)
    (hselecting : ∀ b, phase = .selecting b → s.connection = true) :
    Inv signatureText { s with phase := phase } ∧
      pending { s with phase := phase } = s.pending := by
  have hpending : pending { s with phase := phase } = s.pending := by
    simp only [pending, held, hold, hheld]
  refine ⟨⟨hselecting, ?_, hrunning, ?_⟩, hpending⟩
  · intro q jsonData hphase
    simp [show phase = .publishing q jsonData from hphase, PublishPhase.held] at hheld
  · rw [hpending]
    exact hs.encodes

/-- A message that is taken was the first of those pending. -/
theorem pending_of_proposeToProgress (hold : s.phase.held = [])
    (h : s.proposeToProgress = some (some p, s')) : s.pending = p :: s'.proposeReceiver ∧
      s'.bufferedPropose = none ∧ s'.connection = s.connection := by
  unfold proposeToProgress at h
  unfold pending held
  split at h
  · rename_i q hbuffer
    simp only [Option.some.injEq, Prod.mk.injEq] at h
    obtain ⟨rfl, rfl⟩ := h
    simp [hold, hbuffer]
  · rename_i q rest hbuffer hchannel
    simp only [Option.some.injEq, Prod.mk.injEq] at h
    obtain ⟨rfl, rfl⟩ := h
    simp [hold, hbuffer, hchannel]
  · split_ifs at h
    simp at h

theorem eq_of_proposeToProgress (h : s.proposeToProgress = some (none, s')) : s' = s := by
  unfold proposeToProgress at h
  split at h
  · simp at h
  · simp at h
  · split_ifs at h
    simp only [Option.some.injEq, Prod.mk.injEq, true_and] at h
    exact h.symm

/-- A message that can be encoded is published, and no message is lost. -/
theorem inv_publishPropose (hconnection : s.connection = true) (hnone : s.bufferedPropose = none)
    (hencodes : ∀ q ∈ p :: s.proposeReceiver, ∃ jsonData, q.encode signatureText = some jsonData) :
    (publishPropose signatureText s p).Inv signatureText ∧
      (publishPropose signatureText s p).pending = p :: s.proposeReceiver := by
  obtain ⟨jsonData, hjson⟩ := hencodes p List.mem_cons_self
  have hpublish : publishPropose signatureText s p =
      { s with phase := .publishing p jsonData } := by
    simp only [publishPropose, hjson, hconnection, if_true]
  have hpending : pending { s with phase := .publishing p jsonData } = p :: s.proposeReceiver := by
    simp [pending, held, PublishPhase.held, hnone]
  rw [hpublish]
  refine ⟨⟨by simp, ?_, by simp, by rwa [hpending]⟩, hpending⟩
  intro q jsonData' hphase
  obtain ⟨rfl, rfl⟩ := PublishPhase.publishing.inj hphase
  exact ⟨hconnection, hnone, hjson⟩

/-- One poll of `select!`, whichever branch comes first. -/
theorem inv_select {notified : Bool} (hs : s.Inv signatureText)
    (hphase : s.phase = .selecting notified) (notifiedFirst : Bool) :
    (s.select signatureText notified notifiedFirst).Inv signatureText ∧
      (s.select signatureText notified notifiedFirst).pending = s.pending := by
  have hold : s.phase.held = [] := congrArg PublishPhase.held hphase
  have hconnecting := inv_phase (.connecting 0) hs hold rfl (by simp) (by simp)
  unfold select
  split
  · exact hconnecting
  · cases htaken : s.proposeToProgress with
    | none =>
      by_cases hclosed : notified = true
      · simpa only [hclosed, if_true] using hconnecting
      · simpa only [hclosed, if_false] using ⟨hs, rfl⟩
    | some x =>
      rcases x with ⟨_ | q, s'⟩
      · obtain rfl := eq_of_proposeToProgress htaken
        exact inv_phase (.returned true) hs hold rfl (by simp) (by simp)
      · obtain ⟨hpending, hnone, hconnection⟩ := pending_of_proposeToProgress hold htaken
        have hencodes := hs.encodes
        rw [hpending] at hencodes
        rw [hpending]
        exact inv_publishPropose (hconnection.trans (hs.selecting _ hphase)) hnone hencodes

/-- What comes into the channel comes after all that is pending. -/
theorem inv_send (hs : s.Inv signatureText)
    (hencode : ∃ jsonData, p.encode signatureText = some jsonData) :
    Inv signatureText { s with proposeReceiver := s.proposeReceiver ++ [p] } ∧
      pending { s with proposeReceiver := s.proposeReceiver ++ [p] } = s.pending ++ [p] := by
  have hpending : pending { s with proposeReceiver := s.proposeReceiver ++ [p] } =
      s.pending ++ [p] := by
    simp [pending, held]
  refine ⟨⟨hs.selecting, hs.publishing, hs.running, ?_⟩, hpending⟩
  rw [hpending, List.forall_mem_append, List.forall_mem_singleton]
  exact ⟨hs.encodes, hencode⟩

/-- An attempt to connect ends. -/
theorem inv_reconnect {n : ℕ} {ok : Bool} {out : List PublishDeed} (hs : s.Inv signatureText)
    (hphase : s.phase = .connecting n)
    (h : step P signatureText attempts s (.reconnect ok) = .ok (s', out)) :
    s'.Inv signatureText ∧ s'.pending = s.pending ∧ out = [] := by
  have hold : s.phase.held = [] := congrArg PublishPhase.held hphase
  simp only [step, hphase] at h
  split_ifs at h
  · have hconnected : Inv signatureText { s with connection := true } :=
      ⟨fun _ _ => rfl, fun q j hq => ⟨rfl, (hs.publishing q j hq).2⟩, hs.running, hs.encodes⟩
    obtain ⟨rfl, rfl⟩ := Prod.mk.inj (Except.pure_eq_ok.1 h)
    obtain ⟨hinv, hpending⟩ :=
      inv_phase (.selecting false) hconnected hold rfl (by simp) (fun _ _ => rfl)
    exact ⟨hinv, hpending, rfl⟩
  · obtain ⟨rfl, rfl⟩ := Prod.mk.inj (Except.pure_eq_ok.1 h)
    obtain ⟨hinv, hpending⟩ := inv_phase (.returned false) hs hold rfl (by simp) (by simp)
    exact ⟨hinv, hpending, rfl⟩
  · obtain ⟨rfl, rfl⟩ := Prod.mk.inj (Except.pure_eq_ok.1 h)
    obtain ⟨hinv, hpending⟩ := inv_phase (.connecting (n + 1)) hs hold rfl (by simp) (by simp)
    exact ⟨hinv, hpending, rfl⟩

/-- `basic_publish` ends. A message that the broker did not take comes first again. -/
theorem inv_publish {ok : Bool} {jsonData : Json} {out : List PublishDeed}
    (hs : s.Inv signatureText) (hphase : s.phase = .publishing p jsonData)
    (h : step P signatureText attempts s (.publish ok) = .ok (s', out)) : s'.Inv signatureText ∧
      out.flatMap PublishDeed.deliveredMsgs ++ s'.pending =
        s.pending ++ out.flatMap PublishDeed.sentMsgs ∧
      ∀ q jsonData', .delivered q jsonData' ∈ out → q.encode signatureText = some jsonData' := by
  obtain ⟨hconnection, hnone, hencode⟩ := hs.publishing p jsonData hphase
  have hpending : s.pending = p :: s.proposeReceiver := by
    simp [pending, held, PublishPhase.held, hphase, hnone]
  have hencodes := hs.encodes
  rw [hpending] at hencodes
  simp only [step, hphase] at h
  split_ifs at h
  · obtain ⟨rfl, rfl⟩ := Prod.mk.inj (Except.pure_eq_ok.1 h)
    have hkept : pending { s with phase := .selecting false } = s.proposeReceiver := by
      simp [pending, held, PublishPhase.held, hnone]
    refine ⟨⟨fun _ _ => hconnection, by simp, by simp, ?_⟩, ?_, ?_⟩
    · rw [hkept]
      exact (List.forall_mem_cons.1 hencodes).2
    · rw [hkept, hpending]
      simp [PublishDeed.deliveredMsgs, PublishDeed.sentMsgs]
    · intro q jsonData' hmem
      obtain ⟨rfl, rfl⟩ := PublishDeed.delivered.inj (List.mem_singleton.1 hmem)
      exact hencode
  · obtain ⟨rfl, rfl⟩ := Prod.mk.inj (Except.pure_eq_ok.1 h)
    have hkept : pending { s with phase := .selecting false, bufferedPropose := some p } =
        p :: s.proposeReceiver := rfl
    refine ⟨⟨fun _ _ => hconnection, by simp, by simp, ?_⟩, ?_, by simp⟩
    · rwa [hkept]
    · rw [hkept, hpending]
      simp

/-- One step : what is delivered was the first of what is pending, as it is encoded, and what is
sent comes after it. -/
theorem step_conserves {i : PublishAction} {out : List PublishDeed} (hs : s.Inv signatureText)
    (h : step P signatureText attempts s i = .ok (s', out)) : s'.Inv signatureText ∧
      out.flatMap PublishDeed.deliveredMsgs ++ s'.pending =
        s.pending ++ out.flatMap PublishDeed.sentMsgs ∧
      ∀ p jsonData, .delivered p jsonData ∈ out → p.encode signatureText = some jsonData := by
  cases i with
  | onEvent event signature slot needCheck =>
    simp only [step, Except.bind_eq_ok] at h
    obtain ⟨-, -, h⟩ := h
    cases hevent : P.onEvent event signature slot needCheck with
    | none =>
      simp only [hevent] at h
      obtain ⟨rfl, rfl⟩ := Prod.mk.inj (Except.pure_eq_ok.1 h)
      exact ⟨hs, by simp, by simp⟩
    | some p =>
      simp only [hevent] at h
      obtain ⟨rfl, rfl⟩ := Prod.mk.inj (Except.pure_eq_ok.1 h)
      have hlen := ProposalEventProcessor.length_of_onEvent hevent
      obtain ⟨hinv, hpending⟩ := inv_send hs (ProposeMsg.exists_encode (p := p) (by omega))
      exact ⟨hinv, hpending, by simp⟩
  | dropSender =>
    obtain ⟨rfl, rfl⟩ := Prod.mk.inj (Except.pure_eq_ok.1 h)
    have hpending : pending { s with closed := true } = s.pending := rfl
    exact ⟨⟨hs.selecting, hs.publishing, hs.running, hs.encodes⟩, by simp [hpending], by simp⟩
  | reconnect ok =>
    cases hphase : s.phase with
    | connecting n =>
      obtain ⟨hinv, hpending, rfl⟩ := inv_reconnect hs hphase h
      exact ⟨hinv, by simp [hpending], by simp⟩
    | _ => simp [step, hphase] at h
  | close =>
    cases hphase : s.phase with
    | selecting notified =>
      simp only [step, hphase] at h
      obtain ⟨rfl, rfl⟩ := Prod.mk.inj (Except.pure_eq_ok.1 h)
      have hold : s.phase.held = [] := congrArg PublishPhase.held hphase
      obtain ⟨hinv, hpending⟩ := inv_phase (.selecting true) hs hold rfl (by simp)
        (fun _ _ => hs.selecting notified hphase)
      exact ⟨hinv, by simp [hpending], by simp⟩
    | _ =>
      simp only [step, hphase] at h
      obtain ⟨rfl, rfl⟩ := Prod.mk.inj (Except.pure_eq_ok.1 h)
      exact ⟨hs, by simp, by simp⟩
  | poll notifiedFirst =>
    cases hphase : s.phase with
    | selecting notified =>
      simp only [step, hphase] at h
      obtain ⟨rfl, rfl⟩ := Prod.mk.inj (Except.pure_eq_ok.1 h)
      obtain ⟨hinv, hpending⟩ := inv_select hs hphase notifiedFirst
      exact ⟨hinv, by simp [hpending], by simp⟩
    | _ => simp [step, hphase] at h
  | publish ok =>
    cases hphase : s.phase with
    | publishing q jsonData =>
      exact inv_publish hs hphase h
    | _ => simp [step, hphase] at h

end RabbitmqPublisher

/-- The messages that were put into the channel, in order. -/
def sent (h : List (Record RabbitmqPublisher PublishAction PublishDeed)) : List ProposeMsg :=
  (Machine.outputs h).flatMap PublishDeed.sentMsgs

/-- The messages that the broker has taken, in order. -/
def deliveredTo (h : List (Record RabbitmqPublisher PublishAction PublishDeed)) :
    List ProposeMsg :=
  (Machine.outputs h).flatMap PublishDeed.deliveredMsgs

/-! ## Main theorem -/

/-- What the broker has taken is the first part of what was sent, each message as it is encoded,
and every message that was sent can be encoded. At most one of the other messages was taken from
the channel, and the publisher still has it. -/
theorem published_in_order (P : ProposalEventProcessor) (signatureText : TxSignature → String)
    (attempts : ℕ) (actions : List PublishAction) :
    let h := RabbitmqPublisher.history P signatureText attempts actions
    let s := RabbitmqPublisher.after P signatureText attempts actions
    deliveredTo h <+: sent h ∧ sent h = deliveredTo h ++ s.held ++ s.proposeReceiver ∧
      s.held.length ≤ 1 ∧ s.phase ≠ .panicked ∧
      (∀ p ∈ sent h, ∃ jsonData, p.encode signatureText = some jsonData) ∧
      ∀ p jsonData, .delivered p jsonData ∈ Machine.outputs h →
        p.encode signatureText = some jsonData := by
  intro h s
  have hrun : (RabbitmqPublisher.machine P signatureText attempts).Run RabbitmqPublisher.new h s :=
    Machine.run_sound _ _ _
  obtain ⟨hs, hconserved⟩ := hrun.conserved RabbitmqPublisher.inv_new
    (fun s i s' out hs hstep => by
      obtain ⟨hs', hnow, -⟩ := RabbitmqPublisher.step_conserves hs hstep
      exact ⟨hs', hnow⟩)
  have hall : deliveredTo h ++ (s.held ++ s.proposeReceiver) = sent h := hconserved
  have hdelivered : ∀ p jsonData, .delivered p jsonData ∈ Machine.outputs h →
      p.encode signatureText = some jsonData := by
    intro p jsonData hmem
    obtain ⟨r, hr, hout⟩ := List.mem_flatMap.1 hmem
    obtain ⟨pre, post, -, hpre, hstep⟩ := hrun.of_mem hr
    have hbefore : r.before.Inv signatureText := hpre.inv RabbitmqPublisher.inv_new
      fun s i s' out hs hstep => (RabbitmqPublisher.step_conserves hs hstep).1
    obtain ⟨-, -, hencode⟩ := RabbitmqPublisher.step_conserves hbefore hstep
    exact hencode p jsonData hout
  refine ⟨⟨_, hall⟩, ?_, RabbitmqPublisher.length_held_le hs, hs.running, ?_, hdelivered⟩
  · rw [List.append_assoc, hall]
  · rw [← hall, List.forall_mem_append]
    refine ⟨fun p hp => ?_, hs.encodes⟩
    obtain ⟨d, hd, hpd⟩ := List.mem_flatMap.1 hp
    cases d with
    | sent q => simp [PublishDeed.deliveredMsgs] at hpd
    | delivered q jsonData =>
      obtain rfl := List.mem_singleton.1 hpd
      exact ⟨jsonData, hdelivered p jsonData hd⟩

open Listener in
/-- The broker refuses the first of two messages and closes the connection, and takes it after the
reconnect. -/
example :
    (deliveredTo (RabbitmqPublisher.history processor (fun _ => "") 3
      [.reconnect true, .onEvent event (.of 2) 7 false,
        .onEvent { event with nonce := 9 } (.of 2) 7 false, .poll false, .publish false, .close,
        .poll true, .reconnect true, .poll false, .publish true, .poll false])).map
      (fun p => p.operationData.nonce) = [8] := by
  decide +kernel

end Photon
