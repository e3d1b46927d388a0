import Photon.Observed

/-!
# The watcher

The watcher reads the program's transactions as the listener does, and reports every operation that
their logs say was executed (`OperationExecutedEventProcessor`). It expects a hash of 32 bytes, and
panics at any other.

`executions_reported` : for every chain that a node shows it never panics, and its reports are the
executions after the start, in order. So an operation is reported once, if the ledger has it as
executed after the newest transaction that the last scan could see and not yet after the start.
-/

open scoped List

namespace Photon

open Machine

/-! ## The processor -/

/-- What the watcher reports, the `ProposalExecuted` of `transmitter_common`. -/
structure ExecutedMsg where
  needCheck : Bool
  lastWatchedBlock : TxSignature
  opHash : Bytes32
  executor : Pubkey

/-- The event that a report was made from, with the signature of its transaction. -/
def ExecutedMsg.event (p : ExecutedMsg) : TxSignature × OpEvent :=
  (p.lastWatchedBlock, ⟨p.opHash.val, p.executor⟩)

structure OperationExecutedEventProcessor where
  reader : EventReader OpEvent
  self : Line

namespace OperationExecutedEventProcessor

variable (P : OperationExecutedEventProcessor)

/-- The report of an event, or none if it panics. -/
def onEvent (event : OpEvent) (signature : TxSignature) (needCheck : Bool) : Option ExecutedMsg :=
  (Fixed.ofList? 32 event.opHash).map fun opHash =>
    { needCheck := needCheck
      lastWatchedBlock := signature
      opHash := opHash
      executor := event.executor }

/-- The reports of some events, and whether an event panics. The reports before it are sent. -/
def onEvents (signature : TxSignature) (needCheck : Bool) :
    List OpEvent → List ExecutedMsg × Bool
  | [] => ([], false)
  | event :: events =>
    match onEvent event signature needCheck with
    | some p =>
      let (reports, panicked) := onEvents signature needCheck events
      (p :: reports, panicked)
    | none => ([], true)

/-- Logs that are not parsed give no reports. -/
def onLogs (b : LogsBunch) : List ExecutedMsg × Bool :=
  match parseLogs P.reader b.logs P.self with
  | .ok events => onEvents b.txSignature b.needCheck events
  | .error .solanaParseLogs => ([], false)
  | .error .panic => ([], true)

/-- The reports for what the reader has sent. A panic ends the watcher. -/
def execute : List LogsBunch → List ExecutedMsg × Bool
  | [] => ([], false)
  | b :: bunches =>
    match P.onLogs b with
    | (reports, true) => (reports, true)
    | (reports, false) =>
      let (later, panicked) := execute bunches
      (reports ++ later, panicked)

theorem onEvents_ok {events : List OpEvent} (signature : TxSignature) (needCheck : Bool)
    (h : ∀ e ∈ events, e.opHash.length = 32) : ∃ reports,
      onEvents signature needCheck events = (reports, false) ∧
        reports.map ExecutedMsg.event = events.map (signature, ·) ∧
        ∀ p ∈ reports, p.needCheck = needCheck := by
  induction events with
  | nil => exact ⟨[], rfl, rfl, by simp⟩
  | cons e events ih =>
    rw [List.forall_mem_cons] at h
    obtain ⟨reports, hreports, hevents, hmarks⟩ := ih h.2
    obtain ⟨opHash, hhash⟩ : ∃ opHash, Fixed.ofList? 32 e.opHash = some opHash :=
      ⟨⟨e.opHash, h.1⟩, Fixed.ofList?_eq_some.2 rfl⟩
    have hval : e.opHash = opHash.val := Fixed.ofList?_eq_some.1 hhash
    refine ⟨⟨needCheck, signature, opHash, e.executor⟩ :: reports, ?_, ?_, ?_⟩
    · simp only [onEvents, onEvent, hhash, Option.map_some, hreports]
    · rw [List.map_cons, List.map_cons, hevents, ExecutedMsg.event, ← hval]
    · rw [List.forall_mem_cons]
      exact ⟨rfl, hmarks⟩

end OperationExecutedEventProcessor

/-- The watcher. -/
def executionWatcher (B : Base64Decoder) : OperationExecutedEventProcessor :=
  ⟨EventType.proposalExecuted.reader B, Listener.photon.val⟩

/-! ## Executions -/

/-- The executions among what is put out. -/
def executions (out : List Effect) : List OpEvent :=
  out.filterMap fun
    | .emit (.proposalExecuted opHash executor) => some ⟨opHash, executor⟩
    | _ => none

@[simp] theorem executions_append (out out' : List Effect) :
    executions (out ++ out') = executions out ++ executions out' :=
  List.filterMap_append

theorem executions_eq (out : List Effect) :
    executions out = (emitted out).filterMap EventType.proposalExecuted.pick := by
  rw [emitted, List.filterMap_filterMap]
  refine List.filterMap_congr fun effect _ => ?_
  cases effect with
  | emit e => cases e <;> rfl
  | _ => rfl

/-- The executions in a transaction. -/
def executed (outcome : TxSignature × Option (List Effect)) : List (TxSignature × OpEvent) :=
  (executions (outcome.2.getD [])).map (outcome.1, ·)

theorem map_executed (xs : List (TxSignature × Option (List Effect))) :
    (xs.flatMap executed).map Prod.snd = executions (xs.flatMap fun x => x.2.getD []) := by
  induction xs with
  | nil => rfl
  | cons x xs ih =>
    rw [List.flatMap_cons, List.flatMap_cons, List.map_append, executions_append, ih, executed,
      List.map_map]
    exact congrArg (· ++ _) (List.map_id _)

section Steps

variable {env : Env} {l l' : Ledger} {i : Invocation env} {out : List Effect}

theorem Ledger.status_setOp (l : Ledger) (c h : Bytes) (o : OpInfo) :
    (l.setOp c o).status h = if h = c then o.status else l.status h := by
  simp only [Ledger.status, Ledger.ops_setOp]
  split_ifs <;> rfl

theorem Governed.executions_eq_nil {op : OpInfo} {code id : Bytes} {c : Config}
    {q : ProtocolInfo} {effects : List Effect} (gov : Governed env l op code id c q effects) :
    executions effects = [] := by
  rw [executions, List.filterMap_eq_nil_iff]
  intro e he
  obtain ⟨ev, rfl⟩ := propose_of_mem_handleGovOperation gov.handled e he
  rfl

/-- An execution marks its operation, and no other. -/
theorem Ledger.executed_setOp {l : Ledger} {c h : Bytes} {o : OpInfo} (ho : o.status = .executed) :
    (l.setOp c o).status h = .executed ↔ h = c ∨ l.status h = .executed := by
  rw [Ledger.status_setOp]
  split_ifs with heq
  · simp [heq, ho]
  · simp [heq]

/-- A step executes nothing, or announces that it has executed one signed operation. -/
theorem Step.executions_cases (hs : Step l i l' out) :
    (executions out = [] ∧ ∀ h, l'.status h = .executed → l.status h = .executed) ∨
      ∃ e : OpEvent, executions out = [e] ∧ l.status e.opHash = .signed ∧
        ∀ h, l'.status h = .executed ↔ h = e.opHash ∨ l.status h = .executed := by
  cases hs with
  | setUp | answer | propose | setAdmin => exact .inl ⟨rfl, fun h hex => hex⟩
  | receive hix hop gov =>
    refine .inl ⟨?_, fun h hex => hex⟩
    rw [executions_append, gov.executions_eq_nil]
    rfl
  | load =>
    refine .inl ⟨rfl, fun h hex => ?_⟩
    rw [Ledger.status_setOp] at hex
    split_ifs at hex
    exact hex
  | @sign c sigs op p signers reached array executor hix signs =>
    refine .inl ⟨by cases reached <;> rfl, fun h hex => ?_⟩
    rw [Ledger.status_setOp] at hex
    split_ifs at hex
    · cases reached with
      | true => simp [OpInfo.signedBy] at hex
      | false => rcases signs.status with hst | hst <;> simp [OpInfo.signedBy, hst] at hex
    · exact hex
  | @execute c op p executor ix hix hop call =>
    exact .inr ⟨⟨c, executor.key⟩, rfl, (Ledger.status_of_ops hop).trans call.signed,
      fun h => Ledger.executed_setOp rfl⟩
  | @executeGov c op p executor ix code id conf q effects hix hop call hsel gov =>
    refine .inr ⟨⟨c, executor.key⟩, ?_, (Ledger.status_of_ops hop).trans call.signed,
      fun h => Ledger.executed_setOp rfl⟩
    rw [executions_append, ← List.singleton_append, executions_append, executions_append,
      gov.executions_eq_nil]
    rfl

theorem OperationData.length_of_hash {o : OperationData} {h : Bytes}
    (hhash : o.opHashWithMessage env = .ok h) : h.length = 32 := by
  simp only [opHashWithMessage, Except.bind_eq_ok, Except.pure_eq_ok] at hhash
  obtain ⟨hash, -, rfl⟩ := hhash
  exact (env.keccak256 _).property

/-- Along every run the executions are about different hashes of 32 bytes, those of the operations
that the ledger has as executed. -/
theorem executions_of_run {history : List (Record Ledger (Invocation env) Effect)}
    (hr : (endpoint env).Run Ledger.genesis history l) :
    (∀ e ∈ executions (outputs history), e.opHash.length = 32) ∧
      ((executions (outputs history)).map OpEvent.opHash).Nodup ∧
      ∀ h, l.status h = .executed ↔
        h ∈ (executions (outputs history)).map OpEvent.opHash := by
  induction hr with
  | nil =>
    refine ⟨by simp [outputs, executions], by simp [outputs, executions], fun h => ?_⟩
    simp [outputs, executions, Ledger.status, Ledger.genesis]
  | @snoc history l i l' out hr hok ih =>
    obtain ⟨hlen, hnodup, hiff⟩ := ih
    have hs := step_cases hok
    have hout : outputs (history ++ [⟨l, i, out, l'⟩]) = outputs history ++ out := by
      simp [outputs]
    rw [hout, executions_append]
    rcases hs.executions_cases with ⟨hnone, hback⟩ | ⟨e, hone, hsigned, hnow⟩
    · rw [hnone, List.append_nil]
      exact ⟨hlen, hnodup, fun h => ⟨fun hex => (hiff h).1 (hback h hex),
        fun hmem => hs.executed_stays ((hiff h).2 hmem)⟩⟩
    · -- A signed operation is not yet executed, so its hash is a new one.
      have hfresh : e.opHash ∉ (executions (outputs history)).map OpEvent.opHash := by
        intro hmem
        have hex := (hiff e.opHash).2 hmem
        rw [hsigned] at hex
        cases hex
      rw [hone, List.map_append, List.map_singleton]
      refine ⟨?_, List.concat_eq_append ▸ hnodup.concat hfresh, fun h => ?_⟩
      · rw [List.forall_mem_append, List.forall_mem_singleton]
        refine ⟨hlen, ?_⟩
        cases hop : l.ops e.opHash with
        | none => simp [Ledger.status, hop] at hsigned
        | some op => exact OperationData.length_of_hash (stored_of_run hr _ op hop).hash
      · rw [hnow, hiff, List.mem_append, List.mem_singleton, or_comm]

end Steps

/-! ## What the watcher reads -/

section Reading

variable {env : Env} {chain : List (ChainTx env)} {B : Base64Decoder} {node : Node} {t : ℕ}

/-- The watcher reports what was executed in some transactions of the chain. -/
theorem reports_of_shows (h : Shows env node t chain) (marked : TxSignature → Bool)
    {xs : List (TxSignature × Option (List Effect))}
    (hxs : ∀ x ∈ xs, x ∈ outcomes env Ledger.genesis chain ∧
      ∀ e ∈ executions (x.2.getD []), e.opHash.length = 32) :
    ∃ reports, (executionWatcher B).execute
        ((xs.map Prod.fst).filterMap fun x => node.bunch (marked x) x) = (reports, false) ∧
      reports.map ExecutedMsg.event = xs.flatMap executed ∧
      ∀ p ∈ reports, p.needCheck = marked p.lastWatchedBlock := by
  induction xs with
  | nil => exact ⟨[], rfl, rfl, by simp⟩
  | cons x xs ih =>
    rw [List.forall_mem_cons] at hxs
    obtain ⟨⟨hx, hlen⟩, hxs⟩ := hxs
    obtain ⟨reports, hreports, hevents, hmarks⟩ := ih hxs
    rw [List.map_cons, List.filterMap_cons, List.flatMap_cons]
    rcases bunch_of_shows EventType.proposalExecuted B (marked x.1) h hx with
      ⟨hnone, hno⟩ | ⟨b, hb, hparse⟩
    · rw [← executions_eq] at hno
      rw [hnone, executed, hno]
      exact ⟨reports, hreports, hevents, hmarks⟩
    · rw [← executions_eq] at hparse
      obtain ⟨hsig, hmark⟩ := Node.bunch_eq_some hb
      obtain ⟨now, hnow, hevents', hmarks'⟩ :=
        OperationExecutedEventProcessor.onEvents_ok b.txSignature b.needCheck hlen
      have hlogs : (executionWatcher B).onLogs b = (now, false) := by
        rw [OperationExecutedEventProcessor.onLogs]
        simp only [executionWatcher, hparse, hnow]
      refine ⟨now ++ reports, ?_, ?_, ?_⟩
      · rw [hb]
        simp only [OperationExecutedEventProcessor.execute, hlogs, hreports]
      · rw [List.map_append, hevents, hevents', hsig]
        rfl
      · rw [List.forall_mem_append]
        refine ⟨fun p hp => ?_, hmarks⟩
        have hmem := List.mem_map_of_mem (f := ExecutedMsg.event) hp
        rw [hevents'] at hmem
        obtain ⟨e, -, he⟩ := List.mem_map.1 hmem
        rw [hmarks' p hp, hmark, ← hsig]
        exact congrArg marked (congrArg Prod.fst he)

end Reading

/-! ## The ledger before and after -/

section Chain

variable {env : Env}

theorem outcomes_append (l : Ledger) (xs ys : List (ChainTx env)) :
    outcomes env l (xs ++ ys) = outcomes env l xs ++ outcomes env (ledgerAfter env l xs) ys := by
  induction xs generalizing l with
  | nil => rfl
  | cons tx xs ih =>
    rw [List.cons_append, outcomes, outcomes, ledgerAfter]
    cases tx.commit env l with
    | none => exact congrArg _ (ih l)
    | some r => exact congrArg _ (ih r.2)

theorem signature_notMem {tx : ChainTx env} {pre post : List (ChainTx env)}
    (hd : ((pre ++ tx :: post).map ChainTx.signature).Nodup) :
    tx.signature ∉ pre.map ChainTx.signature := by
  intro hold
  rw [List.map_append, List.map_cons, List.nodup_append] at hd
  exact hd.2.2 _ hold _ List.mem_cons_self rfl

/-- The outcomes after the start begin from the ledger after it. -/
theorem outcomesAfter_eq {tx : ChainTx env} {pre post : List (ChainTx env)}
    (hnew : tx.signature ∉ pre.map ChainTx.signature) :
    outcomesAfter env tx.signature (pre ++ tx :: post) =
      outcomes env (ledgerAfter env Ledger.genesis (pre ++ [tx])) post := by
  obtain ⟨x, hx, hfst⟩ : ∃ x, outcomes env Ledger.genesis (pre ++ [tx]) =
      outcomes env Ledger.genesis pre ++ [x] ∧ x.1 = tx.signature := by
    rw [outcomes_append, outcomes]
    cases tx.commit env (ledgerAfter env Ledger.genesis pre) with
    | none => exact ⟨_, rfl, rfl⟩
    | some r => exact ⟨_, rfl, rfl⟩
  have hskip : ∀ y ∈ outcomes env Ledger.genesis pre, decide (y.1 ≠ tx.signature) = true := by
    intro y hy
    rw [← outcomes_fst Ledger.genesis pre] at hnew
    exact decide_eq_true fun heq => hnew (heq ▸ List.mem_map_of_mem hy)
  rw [List.append_cons, outcomesAfter, outcomes_append, hx, List.append_assoc,
    List.dropWhile_append_of_pos hskip, List.singleton_append,
    List.dropWhile_cons_of_neg (by simpa using hfst), List.tail_cons]

theorem executions_of_chain (chain : List (ChainTx env)) :
    let all := executions ((outcomes env Ledger.genesis chain).flatMap fun x => x.2.getD [])
    (∀ e ∈ all, e.opHash.length = 32) ∧ (all.map OpEvent.opHash).Nodup ∧
      ∀ h, (ledgerAfter env Ledger.genesis chain).status h = .executed ↔
        h ∈ all.map OpEvent.opHash := by
  obtain ⟨history, hr, hout⟩ := run_of_outcomes .nil chain
  rw [hout]
  exact executions_of_run hr

/-- What is executed after `tx` is what the ledger has as executed at the end, and not yet after
`tx`. -/
theorem executed_between {tx : ChainTx env} {pre post : List (ChainTx env)}
    (hnew : tx.signature ∉ pre.map ChainTx.signature) (h : Bytes) :
    h ∈ (executions ((outcomesAfter env tx.signature (pre ++ tx :: post)).flatMap
        fun x => x.2.getD [])).map OpEvent.opHash ↔
      (ledgerAfter env Ledger.genesis (pre ++ tx :: post)).status h = .executed ∧
        (ledgerAfter env Ledger.genesis (pre ++ [tx])).status h ≠ .executed := by
  obtain ⟨-, hnodup, hall⟩ := executions_of_chain (pre ++ tx :: post)
  obtain ⟨-, -, hbefore⟩ := executions_of_chain (pre ++ [tx])
  have hsplit : outcomes env Ledger.genesis (pre ++ tx :: post) =
      outcomes env Ledger.genesis (pre ++ [tx]) ++
        outcomes env (ledgerAfter env Ledger.genesis (pre ++ [tx])) post := by
    rw [List.append_cons, outcomes_append]
  rw [Ne, hall, hbefore, outcomesAfter_eq hnew]
  rw [hsplit, List.flatMap_append, executions_append, List.map_append] at hnodup ⊢
  have hapart := (List.nodup_append.1 hnodup).2.2
  rw [List.mem_append]
  constructor
  · intro hmem
    exact ⟨.inr hmem, fun hold => hapart h hold h hmem rfl⟩
  · rintro ⟨hold | hmem, hfresh⟩
    · exact absurd hold hfresh
    · exact hmem

end Chain

/-! ## Main theorem -/

/-- For every chain that a node shows, every start that the reader can see, any page sizes and any
number of rounds : the watcher does not panic, and what it reports are the executions after the
start, in their order, up to the newest transaction that the last scan could see. No operation is
reported twice, and one is reported exactly if the ledger has it as executed then, and did not at
the start. Those of the first scan are marked for checking. -/
theorem executions_reported (env : Env) (B : Base64Decoder) (node : Node) (start : TxSignature)
    (c n : ℕ) (hstart : start ∈ node.history c) :
    ∃ s s', Reader.Reads node start c n s ∧ Reader.Reads node start c (n + 1) s' ∧ c ≤ s.clock ∧
      ∀ chain, Shows env node s.clock chain →
        let r := (executionWatcher B).execute s'.sent
        r.2 = false ∧
        r.1.map ExecutedMsg.event = (outcomesAfter env start chain).flatMap executed ∧
        (r.1.map ExecutedMsg.opHash).Nodup ∧
        (∀ p ∈ r.1, p.needCheck = decide (p.lastWatchedBlock ∈ node.history c)) ∧
        ∀ pre tx post, chain = pre ++ tx :: post → tx.signature = start →
          ∀ h : Bytes, (∃ p ∈ r.1, p.opHash.val = h) ↔
            (ledgerAfter env Ledger.genesis chain).status h = .executed ∧
              (ledgerAfter env Ledger.genesis (pre ++ [tx])).status h ≠ .executed := by
  obtain ⟨s, s', hs, hs', hc, -, -, hsent⟩ := Reader.reads_step hstart n
  refine ⟨s, s', hs, hs', hc, fun chain hshows => ?_⟩
  have hseen := (node.history_mono hc).subset hstart
  have hd := node.nodup s.clock
  rw [hshows.history] at hseen hd
  have hsuffix := outcomesAfter_suffix start chain
  obtain ⟨hlen, hnodup, -⟩ := executions_of_chain chain
  have hxs : ∀ x ∈ outcomesAfter env start chain, x ∈ outcomes env Ledger.genesis chain ∧
      ∀ e ∈ executions (x.2.getD []), e.opHash.length = 32 := by
    intro x hx
    have hmem := hsuffix.subset hx
    refine ⟨hmem, fun e he => hlen e ?_⟩
    rw [← map_executed]
    exact List.mem_map.2 ⟨(x.1, e), List.mem_flatMap.2 ⟨x, hmem, List.mem_map_of_mem he⟩, rfl⟩
  obtain ⟨reports, hreports, hevents, hmarks⟩ :=
    reports_of_shows (B := B) hshows (fun x => decide (x ∈ node.history c)) hxs
  rw [outcomesAfter_fst hseen, ← hshows.history] at hreports
  rw [hsent, Reader.sentBy, hreports]
  have hhashes : reports.map (fun p => p.opHash.val) = (executions
      ((outcomesAfter env start chain).flatMap fun x => x.2.getD [])).map OpEvent.opHash := by
    rw [← map_executed, ← hevents, List.map_map, List.map_map]
    rfl
  refine ⟨rfl, hevents, ?_, hmarks, fun pre tx post hchain htx h => ?_⟩
  · refine List.Nodup.of_map Subtype.val ?_
    obtain ⟨front, hfront⟩ := hsuffix
    rw [← hfront, List.flatMap_append, executions_append, List.map_append] at hnodup
    rw [List.map_map]
    exact hhashes ▸ (List.nodup_append.1 hnodup).2.1
  · subst hchain htx
    rw [← executed_between (signature_notMem hd), ← hhashes, List.mem_map]

section Deployment

open Deployment

/-- One operation is executed on the chain `proposing`, by its fifth transaction. -/
theorem executions_reported_proposing : ∃ s s',
    Reader.Reads (.showing _ proposing nodup_proposing) (.of 1) 4 1 s ∧
      Reader.Reads (.showing _ proposing nodup_proposing) (.of 1) 4 2 s' ∧
      ((executionWatcher .strict).execute s'.sent).1.map
          (fun p => (p.lastWatchedBlock, p.opHash.val)) =
        [(.of 5, addProposer.hash.val)] := by
  have hrun : (∀ x ∈ outcomes (deployed [addProposer]) Ledger.genesis proposing,
      ∀ e ∈ emitted (x.2.getD []), e.text.isSome = true) ∧
      ((outcomesAfter (deployed [addProposer]) (.of 1) proposing).flatMap executed).map
        (fun x => (x.1, x.2.opHash)) = [(.of 5, addProposer.hash.val)] := by
    decide +kernel
  obtain ⟨s, s', hs, hs', hc, h⟩ := executions_reported (deployed [addProposer]) .strict
    (.showing _ proposing nodup_proposing) (.of 1) 4 1 (by decide)
  refine ⟨s, s', hs, hs', ?_⟩
  have hlen : proposing.length ≤ s.clock + 3 := by
    change 7 ≤ s.clock + 3
    omega
  obtain ⟨-, hevents, -⟩ := h proposing (shows_showing hlen hrun.1)
  have hpairs := congrArg (List.map fun x => (x.1, x.2.opHash)) hevents
  rw [List.map_map] at hpairs
  exact hpairs.trans hrun.2

end Deployment

end Photon
