import Mathlib.Data.Finset.Basic
import Photon.Bytes
import Photon.Machine
import Photon.OrdMap

/-!
# The executor and its watermark

The executor takes signed operations from a broker, acknowledges them there, and puts them into a
bounded channel. The operation manager takes them out, keeps a bounded number of them in flight,
and tells the updater of the last block when it starts one (`new`) and when it is through with it
(`executed` or `failed`). The updater keeps a registry of the blocks it has been told of, with the
operations under way in each. At every tick it takes the lowest blocks off that have been there
for longer than the timeout and have no operation under way, and hands the last one over to be
stored as the last processed block, the watermark. After a crash, the core sends again what lies
above the watermark.

The parties run side by side, so the system is a machine that takes one action of one party at a
time, in any order (`Executor.step`).

The registry does not know of an operation before its start. So `watermark_safe_iff` : no
watermark passes an acknowledged operation that has not been reported exactly if none comes when
its block has been handed over, and none is on its way to the registry when a tick takes off a
block that is not below its own.
-/

namespace Photon

abbrev OpHash := Fixed UInt8 32

inductive ExecutorOpStatus
  | new
  | loaded
  | signed
  | executed
  | failed
  deriving DecidableEq

/-- A signed operation, as far as the watermark depends on it. -/
structure Operation where
  eobBlockNumber : ℕ
  opHash : OpHash
  deriving DecidableEq

structure OpAcknowledge where
  blockNumber : ℕ
  opHash : OpHash
  status : ExecutorOpStatus

/-- The operation that an acknowledgement is about. -/
def OpAcknowledge.op (a : OpAcknowledge) : Operation :=
  ⟨a.blockNumber, a.opHash⟩

/-! ## The registry -/

/-- A block that the updater knows of, with its operations under way. Times are in
nanoseconds. -/
structure BlockInfo where
  createdAt : ℕ
  ops : Finset OpHash

structure OpRegistry where
  knownOps : OrdMap ℕ BlockInfo
  ackTimeout : ℕ

namespace OpRegistry

def new (ackTimeout : ℕ) : OpRegistry :=
  ⟨.empty, ackTimeout⟩

def onNewOperation (blockInfo : BlockInfo) (opHash : OpHash) : BlockInfo :=
  { blockInfo with ops := insert opHash blockInfo.ops }

def onExecutedOperation (blockInfo : BlockInfo) (opHash : OpHash) : BlockInfo :=
  { blockInfo with ops := blockInfo.ops.erase opHash }

/-- The block's entry after an acknowledgement. Every acknowledgement makes one if there is
none. -/
def updated (now : ℕ) (a : OpAcknowledge) (old : Option BlockInfo) : BlockInfo :=
  let blockInfo := old.getD ⟨now, ∅⟩
  match a.status with
  | .new => onNewOperation blockInfo a.opHash
  | .failed | .executed => onExecutedOperation blockInfo a.opHash
  | .loaded | .signed => blockInfo

def onAcknowledge (now : ℕ) (r : OpRegistry) (a : OpAcknowledge) : OpRegistry :=
  { r with knownOps := r.knownOps.upsert a.blockNumber (updated now a) }

/-- The block has been there for longer than the timeout and has no operation under way. -/
def Done (now : ℕ) (r : OpRegistry) (blockInfo : BlockInfo) : Prop :=
  r.ackTimeout < now - blockInfo.createdAt ∧ blockInfo.ops = ∅

instance decidableDone (now : ℕ) (r : OpRegistry) (blockInfo : BlockInfo) :
    Decidable (r.Done now blockInfo) :=
  inferInstanceAs (Decidable (_ ∧ _))

def getBlockToAck (now : ℕ) (r : OpRegistry) : Option ℕ × OpRegistry :=
  let (block, knownOps) := r.knownOps.popWhile fun _ blockInfo => r.Done now blockInfo
  (block, { r with knownOps := knownOps })

/-- The registry knows the block, and all blocks it knows up to this one are done. -/
def Releasable (now : ℕ) (r : OpRegistry) (block : ℕ) : Prop :=
  r.knownOps.Ready (fun _ blockInfo => r.Done now blockInfo) block

/-- The registry has the operation under way. -/
def Holds (r : OpRegistry) (op : Operation) : Prop :=
  ∃ blockInfo, r.knownOps.get? op.eobBlockNumber = some blockInfo ∧ op.opHash ∈ blockInfo.ops

end OpRegistry

/-! ## The system -/

def OP_DATA_SENDER_CAPACITY : ℕ := 64

/-- Five seconds. -/
def BLOCK_COLLECTING_TIMEOUT : ℕ := 5 * 10 ^ 9

/-- The state of all parties. -/
structure Executor where
  clock : ℕ
  /-- The operations acknowledged to the broker so far. -/
  acked : List Operation
  /-- The operation that the consumer has acknowledged and not put into the channel yet. -/
  hand : Option Operation
  channel : List Operation
  inFlight : List Operation
  /-- The acknowledgements on their way to the updater. -/
  acks : List OpAcknowledge
  /-- The operations reported as executed or failed so far. -/
  reported : List Operation
  registry : OpRegistry
  /-- The blocks on their way to the database. -/
  handed : List ℕ
  /-- The last processed block in the database. -/
  stored : Option ℕ

/-- An action of one of the parties, or the passing of time. -/
inductive Action
  /-- The consumer gets a message. `acked` says whether the broker took the acknowledgement, `data`
  is the operation, or none if the message holds something else. -/
  | consume (acked : Bool) (data : Option Operation)
  /-- The consumer puts its operation into the channel. -/
  | enqueue
  /-- The manager takes an operation out of the channel. -/
  | start
  /-- The manager is through with an operation and says so. -/
  | finish (i : ℕ) (status : ExecutorOpStatus)
  /-- The manager gives an operation up and says nothing. -/
  | abort (i : ℕ)
  /-- The updater takes an acknowledgement. -/
  | receive
  /-- The updater asks its registry for a block to acknowledge. -/
  | tick
  /-- The database is written, or fails to be. -/
  | write (ok : Bool)
  | pass (time : ℕ)

namespace Executor

def init : Executor :=
  ⟨0, [], none, [], [], [], [], .new BLOCK_COLLECTING_TIMEOUT, [], none⟩

/-- One action. It fails if the party has to wait. What is put out is the block that is handed
over. -/
def step (s : Executor) : Action → Except Unit (Executor × List ℕ)
  | .consume acked data => do
    require (s.hand = none) ()
    pure (if acked then { s with acked := s.acked ++ data.toList, hand := data } else s, [])
  | .enqueue => do
    let op ← orFail s.hand ()
    require (s.channel.length < OP_DATA_SENDER_CAPACITY) ()
    pure ({ s with hand := none, channel := s.channel ++ [op] }, [])
  | .start => do
    let op ← orFail s.channel.head? ()
    require (s.inFlight.length < OP_DATA_SENDER_CAPACITY) ()
    pure
      ({ s with
          channel := s.channel.tail
          inFlight := s.inFlight ++ [op]
          acks := s.acks ++ [⟨op.eobBlockNumber, op.opHash, .new⟩] }, [])
  | .finish i status => do
    require (status = .executed ∨ status = .failed) ()
    let op ← orFail s.inFlight[i]? ()
    pure
      ({ s with
          inFlight := s.inFlight.eraseIdx i
          acks := s.acks ++ [⟨op.eobBlockNumber, op.opHash, status⟩]
          reported := s.reported ++ [op] }, [])
  | .abort i => do
    let _ ← orFail s.inFlight[i]? ()
    pure ({ s with inFlight := s.inFlight.eraseIdx i }, [])
  | .receive => do
    let a ← orFail s.acks.head? ()
    pure ({ s with acks := s.acks.tail, registry := s.registry.onAcknowledge s.clock a }, [])
  | .tick => do
    let (block, registry) := s.registry.getBlockToAck s.clock
    pure ({ s with registry := registry, handed := s.handed ++ block.toList }, block.toList)
  | .write ok => do
    let block ← orFail s.handed.head? ()
    pure ({ s with handed := s.handed.tail, stored := if ok then some block else s.stored }, [])
  | .pass time => pure ({ s with clock := s.clock + time }, [])

/-- The executor as a machine. -/
def machine : Machine Executor Action ℕ Unit where
  step := step

/-- The watermark in the database and those on their way there. -/
def watermarks (s : Executor) : List ℕ :=
  s.handed ++ s.stored.toList

/-- No watermark passes an acknowledged operation that has not been reported. -/
def Safe (s : Executor) : Prop :=
  ∀ b ∈ s.watermarks, ∀ op ∈ s.acked, op.eobBlockNumber ≤ b → op ∈ s.reported

/-- The operations on their way to the registry. -/
def waiting (s : Executor) : List Operation :=
  s.hand.toList ++ s.channel ++
    (s.acks.filter fun a => a.status = .new).map OpAcknowledge.op

/-- An operation is acknowledged in time if its block has not been handed over. A tick comes in
time if no operation that is on its way lies at or below a block that it takes off. Operations
that were reported before do not matter. -/
def InTime (s : Executor) : Action → Prop
  | .consume true (some op) => ∀ b ∈ s.watermarks, op.eobBlockNumber ≤ b → op ∈ s.reported
  | .tick => ∀ op ∈ s.waiting, op ∉ s.reported →
      ∀ b, s.registry.Releasable s.clock b → b < op.eobBlockNumber
  | _ => True

end Executor

/-! ## Facts about the registry -/

namespace OpRegistry

variable {now b : ℕ} {r : OpRegistry} {a : OpAcknowledge} {op : Operation}

theorem get?_onAcknowledge (r : OpRegistry) (a : OpAcknowledge) (block : ℕ) :
    (r.onAcknowledge now a).knownOps.get? block =
      if block = a.blockNumber then some (updated now a (r.knownOps.get? a.blockNumber))
      else r.knownOps.get? block :=
  OrdMap.get?_upsert _ _ _ _

/-- A new operation is under way from then on. -/
theorem holds_onAcknowledge_of_new (ha : a.status = .new) : (r.onAcknowledge now a).Holds a.op := by
  refine ⟨updated now a (r.knownOps.get? a.blockNumber), ?_, ?_⟩
  · rw [get?_onAcknowledge]
    exact if_pos rfl
  · simp [updated, ha, onNewOperation, OpAcknowledge.op]

/-- Only a report on the operation itself takes it off. -/
theorem Holds.onAcknowledge (h : r.Holds op)
    (ha : a.op = op → a.status ≠ .executed ∧ a.status ≠ .failed) :
    (r.onAcknowledge now a).Holds op := by
  obtain ⟨blockInfo, hget, hmem⟩ := h
  by_cases hblock : op.eobBlockNumber = a.blockNumber
  · refine ⟨updated now a (some blockInfo), ?_, ?_⟩
    · rw [get?_onAcknowledge, if_pos hblock, ← hblock, hget]
    · by_cases hhash : op.opHash = a.opHash
      · obtain ⟨hexecuted, hfailed⟩ := ha (by cases op; simp_all [OpAcknowledge.op])
        unfold updated
        cases hstatus : a.status <;> simp_all [onNewOperation]
      · unfold updated
        cases a.status <;> simp [onNewOperation, onExecutedOperation, hmem, hhash]
  · exact ⟨blockInfo, by rw [get?_onAcknowledge, if_neg hblock, hget], hmem⟩

/-- The block that is given is the highest that can be released. -/
theorem getBlockToAck_isGreatest :
    (r.getBlockToAck now).1 = some b ↔ IsGreatest {b | r.Releasable now b} b :=
  OrdMap.popWhile_isGreatest

theorem Releasable.exists_getBlockToAck (h : r.Releasable now b) :
    ∃ b', (r.getBlockToAck now).1 = some b' ∧ b ≤ b' := by
  obtain ⟨b', hb'⟩ := OrdMap.Ready.exists_popWhile h
  exact ⟨b', hb', (getBlockToAck_isGreatest.1 hb').2 h⟩

/-- A block with an operation under way is not released. -/
theorem Releasable.lt_of_holds (h : r.Releasable now b) (hop : r.Holds op) :
    b < op.eobBlockNumber := by
  obtain ⟨blockInfo, hget, hmem⟩ := hop
  by_contra hle
  have hdone := h.2 _ _ (not_lt.1 hle) hget
  simp [hdone.2] at hmem

theorem Holds.getBlockToAck (h : r.Holds op) : (r.getBlockToAck now).2.Holds op := by
  obtain ⟨blockInfo, hget, hmem⟩ := h
  refine ⟨blockInfo, OrdMap.get?_popWhile.2 ⟨hget, fun hready => ?_⟩, hmem⟩
  exact lt_irrefl _ (Releasable.lt_of_holds hready ⟨blockInfo, hget, hmem⟩)

end OpRegistry

/-! ## One step -/

namespace Executor

variable {s s' : Executor} {i : Action} {out : List ℕ}

/-- What an action does. -/
inductive Takes (s : Executor) : Action → Executor → List ℕ → Prop
  | refused (data) : Takes s (.consume false data) s []
  | discarded : s.hand = none → Takes s (.consume true none) s []
  | consumed (op) : s.hand = none →
      Takes s (.consume true (some op)) { s with acked := s.acked ++ [op], hand := some op } []
  | enqueued {op} : s.hand = some op →
      Takes s .enqueue { s with hand := none, channel := s.channel ++ [op] } []
  | started {op rest} : s.channel = op :: rest →
      Takes s .start
        { s with
          channel := rest
          inFlight := s.inFlight ++ [op]
          acks := s.acks ++ [⟨op.eobBlockNumber, op.opHash, .new⟩] } []
  | finished {j op status} : status ≠ .new → s.inFlight[j]? = some op →
      Takes s (.finish j status)
        { s with
          inFlight := s.inFlight.eraseIdx j
          acks := s.acks ++ [⟨op.eobBlockNumber, op.opHash, status⟩]
          reported := s.reported ++ [op] } []
  | aborted (j) : Takes s (.abort j) { s with inFlight := s.inFlight.eraseIdx j } []
  | received {a rest} : s.acks = a :: rest →
      Takes s .receive { s with acks := rest, registry := s.registry.onAcknowledge s.clock a } []
  | ticked :
      Takes s .tick
        { s with
          registry := (s.registry.getBlockToAck s.clock).2
          handed := s.handed ++ (s.registry.getBlockToAck s.clock).1.toList }
        (s.registry.getBlockToAck s.clock).1.toList
  | written {block rest} (ok) : s.handed = block :: rest →
      Takes s (.write ok)
        { s with handed := rest, stored := if ok then some block else s.stored } []
  | passed (time) : Takes s (.pass time) { s with clock := s.clock + time } []

theorem takes_of_step (h : s.step i = .ok (s', out)) : s.Takes i s' out := by
  cases i <;> simp only [step, Except.bind_eq_ok, Except.require_eq_ok, Except.orFail_eq_ok,
    Except.pure_eq_ok, Prod.mk.injEq, List.head?_eq_some_iff] at h
  case consume acked data =>
    obtain ⟨-, hhand, rfl, rfl⟩ := h
    cases acked with
    | false => exact .refused data
    | true =>
      cases data with
      | some op => exact .consumed op hhand
      | none =>
        have hsame : { s with acked := s.acked ++ [], hand := none } = s := by
          rw [List.append_nil, ← hhand]
        exact hsame.symm ▸ Takes.discarded hhand
  case enqueue =>
    obtain ⟨op, hop, -, -, rfl, rfl⟩ := h
    exact .enqueued hop
  case start =>
    obtain ⟨op, ⟨rest, hrest⟩, -, -, rfl, rfl⟩ := h
    rw [hrest]
    exact .started hrest
  case finish j status =>
    obtain ⟨-, hstatus, op, hop, rfl, rfl⟩ := h
    exact .finished (by rcases hstatus with rfl | rfl <;> simp) hop
  case abort j =>
    obtain ⟨-, -, rfl, rfl⟩ := h
    exact .aborted j
  case receive =>
    obtain ⟨a, ⟨rest, hrest⟩, rfl, rfl⟩ := h
    rw [hrest]
    exact .received hrest
  case tick =>
    obtain ⟨rfl, rfl⟩ := h
    exact .ticked
  case write ok =>
    obtain ⟨block, ⟨rest, hrest⟩, rfl, rfl⟩ := h
    rw [hrest]
    exact .written ok hrest
  case pass time =>
    obtain ⟨rfl, rfl⟩ := h
    exact .passed time

/-- What holds in every state : an acknowledgement on its way is a start or has been reported, what
is on its way to the registry has been acknowledged to the broker, and an operation that has been
acknowledged to the broker is reported, on its way to the registry, or under way there. -/
structure Inv (s : Executor) : Prop where
  sent : ∀ a ∈ s.acks, a.status = .new ∨ a.op ∈ s.reported
  known : ∀ op ∈ s.waiting, op ∈ s.acked
  found : ∀ op ∈ s.acked, op ∈ s.reported ∨ op ∈ s.waiting ∨ s.registry.Holds op

theorem inv_init : Inv init :=
  ⟨by simp [init], by simp [init, waiting], by simp [init]⟩

theorem mem_waiting {op : Operation} : op ∈ s.waiting ↔
    s.hand = some op ∨ op ∈ s.channel ∨ ∃ a ∈ s.acks, a.status = .new ∧ a.op = op := by
  simp [waiting, and_assoc]

variable {op : Operation}

theorem mem_waiting_of_enqueued (h : s.hand = some op) (op' : Operation) :
    op' ∈ waiting { s with hand := none, channel := s.channel ++ [op] } ↔ op' ∈ s.waiting := by
  simp only [mem_waiting, h, Option.some_inj, List.mem_append, List.mem_singleton,
    reduceCtorEq, false_or, eq_comm (a := op)]
  tauto

theorem mem_waiting_of_started {rest : List Operation} (h : s.channel = op :: rest)
    (op' : Operation) :
    op' ∈ waiting
        { s with
          channel := rest
          inFlight := s.inFlight ++ [op]
          acks := s.acks ++ [⟨op.eobBlockNumber, op.opHash, .new⟩] } ↔ op' ∈ s.waiting := by
  simp only [mem_waiting, h, List.mem_cons, List.mem_append, List.not_mem_nil, or_false,
    or_and_right, exists_or, exists_eq_left, OpAcknowledge.op, true_and, eq_comm (a := op)]
  grind

theorem mem_waiting_of_finished (s : Executor) (j : ℕ) (op : Operation)
    {status : ExecutorOpStatus} (h : status ≠ .new) (op' : Operation) :
    op' ∈ waiting
        { s with
          inFlight := s.inFlight.eraseIdx j
          acks := s.acks ++ [⟨op.eobBlockNumber, op.opHash, status⟩]
          reported := s.reported ++ [op] } ↔ op' ∈ s.waiting := by
  simp [mem_waiting, h, or_and_right, exists_or]

namespace Inv

/-- A step that moves operations on, and takes only reported ones off the registry, keeps the
invariant. -/
theorem of_moved (hs : s.Inv) (hsent : ∀ a ∈ s'.acks, a.status = .new ∨ a.op ∈ s'.reported)
    (hacked : s'.acked = s.acked) (hreported : s.reported ⊆ s'.reported)
    (hback : ∀ op ∈ s'.waiting, op ∈ s.waiting)
    (hwaiting : ∀ op ∈ s.waiting, op ∈ s'.waiting ∨ s'.registry.Holds op)
    (hholds : ∀ op, s.registry.Holds op → op ∈ s'.reported ∨ s'.registry.Holds op) : s'.Inv := by
  refine ⟨hsent, fun op hop => hacked ▸ hs.known op (hback op hop), fun op hop => ?_⟩
  rcases hs.found op (hacked ▸ hop) with h | h | h
  · exact .inl (hreported h)
  · exact .inr (hwaiting op h)
  · exact (hholds op h).imp id .inr

theorem consumed (hs : s.Inv) (hhand : s.hand = none) (op : Operation) :
    Inv { s with acked := s.acked ++ [op], hand := some op } := by
  refine ⟨hs.sent, fun op' hop' => ?_, fun op' hop' => ?_⟩
  · rcases mem_waiting.1 hop' with heq | hrest
    · exact List.mem_append_right _ (List.mem_singleton.2 (Option.some_inj.1 heq).symm)
    · exact List.mem_append_left _ (hs.known op' (mem_waiting.2 (.inr hrest)))
  · rcases List.mem_append.1 hop' with hop' | hop'
    · refine (hs.found op' hop').imp id (Or.imp (fun hw => ?_) id)
      rcases mem_waiting.1 hw with heq | hrest
      · simp [hhand] at heq
      · exact mem_waiting.2 (.inr hrest)
    · exact .inr (.inl (mem_waiting.2 (.inl (by rw [List.mem_singleton.1 hop']))))

/-- The updater takes an acknowledgement : a start is known to the registry from then on, and an
operation that is taken off has been reported. -/
theorem received {a : OpAcknowledge} {rest : List OpAcknowledge} (hs : s.Inv)
    (hacks : s.acks = a :: rest) :
    Inv { s with acks := rest, registry := s.registry.onAcknowledge s.clock a } := by
  have hmem : ∀ a' ∈ rest, a' ∈ s.acks := fun a' ha' => hacks ▸ List.mem_cons_of_mem _ ha'
  refine hs.of_moved (fun a' ha' => hs.sent a' (hmem a' ha')) rfl (List.Subset.refl _)
    (fun op hop => ?_) (fun op hop => ?_) fun op hop => ?_
  · refine mem_waiting.2 ((mem_waiting.1 hop).imp id (Or.imp id ?_))
    rintro ⟨a', ha', hnew⟩
    exact ⟨a', hmem a' ha', hnew⟩
  · rw [mem_waiting, hacks] at hop
    rcases hop with h | h | ⟨a', ha', hnew, rfl⟩
    · exact .inl (mem_waiting.2 (.inl h))
    · exact .inl (mem_waiting.2 (.inr (.inl h)))
    · rcases List.mem_cons.1 ha' with rfl | ha'
      · exact .inr (OpRegistry.holds_onAcknowledge_of_new hnew)
      · exact .inl (mem_waiting.2 (.inr (.inr ⟨a', ha', hnew, rfl⟩)))
  · rcases hs.sent a (hacks ▸ List.mem_cons_self) with hnew | hmem
    · exact .inr (hop.onAcknowledge fun _ => by simp [hnew])
    · by_cases heq : a.op = op
      · exact .inl (heq ▸ hmem)
      · exact .inr (hop.onAcknowledge fun h => absurd h heq)

/-- A step keeps the invariant. -/
theorem step (hs : s.Inv) (h : s.Takes i s' out) : s'.Inv := by
  cases h with
  | refused data => exact hs
  | discarded hhand => exact hs
  | consumed op hhand => exact hs.consumed hhand op
  | enqueued hhand =>
    have hsame := mem_waiting_of_enqueued hhand
    exact hs.of_moved hs.sent rfl (List.Subset.refl _) (fun op => (hsame op).1)
      (fun op hop => .inl ((hsame op).2 hop)) fun op => .inr
  | started hchannel =>
    have hsame := mem_waiting_of_started hchannel
    refine hs.of_moved (fun a ha => ?_) rfl (List.Subset.refl _) (fun op => (hsame op).1)
      (fun op hop => .inl ((hsame op).2 hop)) fun op => .inr
    rcases List.mem_append.1 ha with ha | ha
    · exact hs.sent a ha
    · exact .inl (by rw [List.mem_singleton.1 ha])
  | @finished j op status hstatus hop =>
    have hsame := mem_waiting_of_finished s j op hstatus
    refine hs.of_moved (fun a ha => ?_) rfl (List.subset_append_left _ _)
      (fun op => (hsame op).1) (fun op hop => .inl ((hsame op).2 hop)) fun op => .inr
    rcases List.mem_append.1 ha with ha | ha
    · exact (hs.sent a ha).imp id (List.mem_append_left _)
    · rw [List.mem_singleton.1 ha]
      exact .inr (List.mem_append_right _ (List.mem_singleton_self _))
  | aborted j => exact ⟨hs.sent, hs.known, hs.found⟩
  | received hacks => exact hs.received hacks
  | ticked => exact ⟨hs.sent, hs.known, fun op hop =>
      (hs.found op hop).imp id (Or.imp id OpRegistry.Holds.getBlockToAck)⟩
  | written ok hhanded => exact ⟨hs.sent, hs.known, hs.found⟩
  | passed time => exact ⟨hs.sent, hs.known, hs.found⟩

end Inv

theorem mem_watermarks {b : ℕ} : b ∈ s.watermarks ↔ b ∈ s.handed ∨ s.stored = some b := by
  simp [watermarks]

/-- A tick hands over the highest block that can be released. The operations in the registry are
above it, so only those on their way there matter. -/
theorem Safe.ticked_iff (hs : s.Inv) (hsafe : s.Safe) :
    Safe { s with
      registry := (s.registry.getBlockToAck s.clock).2
      handed := s.handed ++ (s.registry.getBlockToAck s.clock).1.toList } ↔ s.InTime .tick := by
  constructor
  · intro h op hwait hnot b hb
    obtain ⟨b', hb', hle⟩ := hb.exists_getBlockToAck
    by_contra hge
    refine hnot (h b' ?_ op (hs.known op hwait) (by omega))
    rw [mem_watermarks, hb']
    exact .inl (List.mem_append_right _ (List.mem_singleton_self _))
  · intro h b hb op hop hle
    rcases mem_watermarks.1 hb with hb | hb
    · rcases List.mem_append.1 hb with hb | hb
      · exact hsafe b (mem_watermarks.2 (.inl hb)) op hop hle
      · have hrel : s.registry.Releasable s.clock b :=
          (OpRegistry.getBlockToAck_isGreatest.1 (Option.mem_toList.1 hb)).1
        by_contra hnot
        rcases hs.found op hop with hreported | hwait | hholds
        · exact hnot hreported
        · exact absurd (h op hwait hnot b hrel) (by omega)
        · exact absurd (hrel.lt_of_holds hholds) (by omega)
    · exact hsafe b (mem_watermarks.2 (.inr hb)) op hop hle

/-- A step keeps the watermarks from passing an operation exactly if it comes in time. -/
theorem Safe.step_iff (hs : s.Inv) (hsafe : s.Safe) (h : s.Takes i s' out) :
    s'.Safe ↔ s.InTime i := by
  cases h with
  | refused data => exact iff_of_true hsafe trivial
  | discarded hhand => exact iff_of_true hsafe trivial
  | consumed op hhand =>
    constructor
    · intro h b hb hle
      exact h b hb op (List.mem_append_right _ (List.mem_singleton_self _)) hle
    · intro h b hb op' hop' hle
      rcases List.mem_append.1 hop' with hop' | hop'
      · exact hsafe b hb op' hop' hle
      · obtain rfl := List.mem_singleton.1 hop'
        exact h b hb hle
  | enqueued hhand => exact iff_of_true hsafe trivial
  | started hchannel => exact iff_of_true hsafe trivial
  | finished hstatus hop =>
    refine iff_of_true (fun b hb op hop hle => ?_) trivial
    exact List.mem_append_left _ (hsafe b hb op hop hle)
  | aborted j => exact iff_of_true hsafe trivial
  | received hacks => exact iff_of_true hsafe trivial
  | ticked => exact hsafe.ticked_iff hs
  | @written block rest ok hhanded =>
    refine iff_of_true (fun b hb op hop hle => hsafe b ?_ op hop hle) trivial
    rw [mem_watermarks, hhanded]
    rcases mem_watermarks.1 hb with hb | hb
    · exact .inl (List.mem_cons_of_mem _ hb)
    · cases ok with
      | true => exact .inl (by rw [← Option.some_inj.1 hb]; exact List.mem_cons_self)
      | false => exact .inr hb
  | passed time => exact iff_of_true hsafe trivial

/-! ## Runs -/

variable {h : List (Record Executor Action ℕ)}

theorem safe_init : Safe init := by
  simp [Safe, init, watermarks]

theorem inv_of_run (hr : machine.Run init h s) : s.Inv :=
  hr.inv inv_init fun _ _ _ _ hs hstep => hs.step (takes_of_step hstep)

/-- A block that is handed over is a watermark from then on. -/
theorem Safe.of_out (hsafe : s'.Safe) (h : s.Takes i s' out) :
    ∀ b ∈ out, ∀ op ∈ s.acked, op.eobBlockNumber ≤ b → op ∈ s.reported := by
  cases h with
  | ticked =>
    intro b hb op hop hle
    exact hsafe b (mem_watermarks.2 (.inl (List.mem_append_right _ hb))) op hop hle
  | _ => simp

/-- In every run, with the actions of the parties in any order and at any times : whenever a block
is handed over to be stored, every operation that has been acknowledged to the broker and is not
above it has been reported, and in every state reached no acknowledged operation that is not above
a watermark is without report, so a crash there loses none, exactly if every operation is
acknowledged in time and every tick comes in time. -/
theorem watermark_safe_iff (hr : machine.Run init h s) :
    (∀ r ∈ h, (∀ b ∈ r.out, ∀ op ∈ r.before.acked, op.eobBlockNumber ≤ b →
        op ∈ r.before.reported) ∧ r.after.Safe) ↔
      ∀ r ∈ h, r.before.InTime r.input := by
  have hiff : (∀ r ∈ h, r.after.Inv ∧ r.after.Safe) ↔ ∀ r ∈ h, r.before.InTime r.input := by
    refine hr.inv_iff (I := fun s => s.Inv ∧ s.Safe) (C := InTime) (H := fun _ => True)
      ⟨inv_init, safe_init⟩ ?_ fun _ _ => trivial
    rintro s i s' out - ⟨hs, hsafe⟩ hstep
    have htakes := takes_of_step hstep
    rw [and_iff_right (hs.step htakes)]
    exact hsafe.step_iff hs htakes
  rw [← hiff]
  refine forall₂_congr fun r hmem => ?_
  obtain ⟨pre, -, -, hpre, hstep⟩ := hr.of_mem hmem
  have htakes := takes_of_step hstep
  rw [and_iff_right ((inv_of_run hpre).step htakes)]
  exact ⟨And.right, fun hsafe => ⟨hsafe.of_out htakes, hsafe⟩⟩

/-- The first operation of the block 7 is executed and reported, and six seconds pass. -/
def firstExecuted : List Action :=
  [.consume true (some ⟨7, .replicate 32 1⟩), .enqueue, .start, .receive, .finish 0 .executed,
    .receive, .pass (6 * 10 ^ 9)]

/-- The history of single actions. -/
def history (actions : List Action) : List (Record Executor Action ℕ) :=
  (machine.run init (actions.map ([·]))).1

/-- If no further operation comes, the block is handed over. -/
theorem watermark_safe_executed : 7 ∈ Machine.outputs (history (firstExecuted ++ [.tick])) ∧
    ((∀ r ∈ history (firstExecuted ++ [.tick]), (∀ b ∈ r.out, ∀ op ∈ r.before.acked,
        op.eobBlockNumber ≤ b → op ∈ r.before.reported) ∧ r.after.Safe) ↔
      ∀ r ∈ history (firstExecuted ++ [.tick]), r.before.InTime r.input) :=
  ⟨by decide +kernel, watermark_safe_iff (machine.run_sound init _)⟩

/-- A second operation of the block comes late. The next tick hands the block over while the
operation waits in the channel. -/
theorem handed_over_unreported : ∃ h s, machine.Run init h s ∧ ∃ r ∈ h, ∃ b ∈ r.out,
    ∃ op ∈ r.before.acked, op.eobBlockNumber ≤ b ∧ op ∉ r.before.reported :=
  ⟨history (firstExecuted ++ [.consume true (some ⟨7, .replicate 32 2⟩), .enqueue, .tick]), _,
    machine.run_sound init _, by decide +kernel⟩

end Executor

end Photon
