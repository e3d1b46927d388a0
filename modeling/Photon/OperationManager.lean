import Photon.Executor
import Photon.OffChain
import Photon.Packing

/-!
# The operation manager

The executor takes an operation through its stages on chain (`OperationManager.iterate`). In every
round it reads the operation's account, builds the instructions that are missing, and sends them. It
is through when the operation is executed, or when its status has not moved for as many rounds as
there are attempts. Then it acknowledges the operation as executed or failed.

What the outside answers in a round is the input of the round (`Round`) : whether there is balance
enough, what the account holds, and the extensions that are loaded. A round makes one step of a
machine, and there is none after `process_operation` has returned.

A round can also end the loop without an acknowledgement. So every operation ends with one exactly
if no round reads data that cannot be read as an operation, and none fails to build or to compile
its instructions (`terminal_ack_iff`). With statuses that never decrease there are at most three
times as many submissions as attempts (`bounded_retries`).
-/

namespace Photon

/-! ## The plan -/

def ExecutorOpStatus.ofOpStatus : OpStatus → ExecutorOpStatus
  | .none => .new
  | .init => .loaded
  | .signed => .signed
  | .executed => .executed

/-- The order of the stages. -/
def ExecutorOpStatus.stage : ExecutorOpStatus → ℕ
  | .new => 0
  | .loaded => 1
  | .signed => 2
  | .executed => 3
  | .failed => 4

/-- What a protocol tells the executor about its calls. -/
structure ProtocolExtension where
  getAccounts : Bytes → Bytes → Except ExtensionError (List AccountInfo)
  getComputeBudget : Bytes → Bytes → Option UInt32

/-- The extensions that are loaded, by protocol id. -/
structure ExtensionManager where
  getExtension : Bytes32 → Option ProtocolExtension

structure SignedOperation where
  operationData : MessageData
  signatures : List TransmitterSignature
  eobBlockNumber : ℕ

section Builders

variable (env : Env) (executor : Pubkey) (opHash : Bytes)

/-- The executor's `sign_operation` instruction. -/
def buildSignTx (op : SignedOperation) : Except ExecutorError InstructionBundle := do
  let accounts : List AccountInfo :=
    [⟨executor, true, true⟩, ⟨env.pda (.op opHash), false, true⟩,
      ⟨env.pda (.protocol op.operationData.protocolId.val), false, false⟩]
  let args ← orFail
    ((Borsh.Codec.pair .bytes (.vec TransmitterSignature.codec)).encode (opHash, op.signatures))
    ExecutorError.panic
  pure ⟨⟨photonId, accounts, env.sighash "global" "sign_operation" ++ args⟩, 400000⟩

/-- The executor's `execute_operation` instruction. The accounts of the call come from the
protocol's extension. -/
def buildExecuteTx (extensionMng : ExtensionManager) (opData : MessageData) :
    Except ExecutorError InstructionBundle := do
  let protocolId := opData.protocolId
  let extension ← orFail (extensionMng.getExtension protocolId) ExecutorError.extensionMng
  let accounts : List AccountInfo :=
    [⟨executor, true, true⟩, ⟨env.pda (.op opHash), false, true⟩,
      ⟨env.pda (.protocol protocolId.val), false, false⟩,
      ⟨env.pda (.callAuthority protocolId.val), false, false⟩]
  let functionSelector := opData.functionSelector
  require (3 ≤ functionSelector.length) ExecutorError.malformedData
  let extensionAccounts ←
    (extension.getAccounts (functionSelector.drop 2) opData.params).mapError .ofExtension
  let args ← orFail (Borsh.Codec.bytes.encode opHash) ExecutorError.panic
  let computeUnits :=
    (extension.getComputeBudget (functionSelector.drop 2) opData.params).getD 200000
  pure ⟨⟨photonId, accounts ++ extensionAccounts,
    env.sighash "global" "execute_operation" ++ args⟩, computeUnits⟩

/-- The instructions that are missing to an operation with this status. -/
def buildIxs (extensionMng : ExtensionManager) (op : SignedOperation) :
    ExecutorOpStatus → Except ExecutorError (List InstructionBundle)
  | .new => do
    let load ← buildLoadIx env executor opHash op.operationData
    let sign ← buildSignTx env executor opHash op
    let execute ← buildExecuteTx env executor opHash extensionMng op.operationData
    pure [⟨load, 200000⟩, sign, execute]
  | .loaded => do
    let sign ← buildSignTx env executor opHash op
    let execute ← buildExecuteTx env executor opHash extensionMng op.operationData
    pure [sign, execute]
  | .signed => do
    let execute ← buildExecuteTx env executor opHash extensionMng op.operationData
    pure [execute]
  | .executed | .failed => .error .panic

end Builders

/-! ## The loop -/

structure OperationManager where
  env : Env
  sdk : Sdk
  /-- Anchor's reader of the operation's account. -/
  tryDeserialize : Bytes → Option OpInfo
  payer : Pubkey
  executorAttempts : ℕ

/-- What the outside answers in one round. -/
structure Round where
  /-- The answer of `check_balance_and_suspend`. -/
  balance : Bool
  /-- The data of the operation's account, if there is one. -/
  account : Option Bytes
  extensionMng : ExtensionManager

/-- The variables of `process_operation`, and what it has returned. -/
structure Loop where
  lastOpStatus : Option ExecutorOpStatus
  attempts : ℕ
  result : Option (Except ExecutorError Unit)

def Loop.start : Loop :=
  ⟨none, 0, none⟩

/-- What `process_operation` does. -/
inductive Deed
  | acknowledge (a : OpAcknowledge)
  | build (status : ExecutorOpStatus)
  /-- The instructions are handed to the transactor, which sends the messages. -/
  | submit (bundles : List InstructionBundle) (messages : List Message)

def Deed.ack? : Deed → Option OpAcknowledge
  | .acknowledge a => some a
  | _ => none

def Deed.isSubmit : Deed → Bool
  | .submit _ _ => true
  | _ => false

namespace OperationManager

def COMPUTE_UNIT_PRICE_LAMPORTS : UInt64 := 1000

variable (m : OperationManager) (op : SignedOperation) (opHash : OpHash)

def getOpStatus : Option Bytes → Except ExecutorError ExecutorOpStatus
  | some data =>
    match m.tryDeserialize data with
    | some opInfo => .ok (.ofOpStatus opInfo.status)
    | none => .error .malformedData
  | none => .ok .new

/-- The loop's variables after a status is read, and the status to act on : a status that has
been read before is one more attempt, and the last attempt is a failure. -/
def count (s : Loop) (opStatus : ExecutorOpStatus) : Loop × ExecutorOpStatus :=
  if s.lastOpStatus = some opStatus then
    ({ s with attempts := s.attempts + 1 },
      if m.executorAttempts ≤ s.attempts + 1 then .failed else opStatus)
  else ({ s with lastOpStatus := some opStatus, attempts := 0 }, opStatus)

/-- Build the instructions and send them. -/
def advance (s : Loop) (round : Round) (opStatus : ExecutorOpStatus) : Loop × List Deed :=
  match buildIxs m.env m.payer opHash.val round.extensionMng op opStatus with
  | .error e => ({ s with result := some (.error e) }, [.build opStatus])
  | .ok bundles =>
    match sendAllInstructions m.sdk m.payer [] (some COMPUTE_UNIT_PRICE_LAMPORTS) bundles with
    | (.error e, messages) =>
      ({ s with result := some (.error (.solanaTransactorError e)) },
        [.build opStatus, .submit bundles messages])
    | (.ok (), messages) => (s, [.build opStatus, .submit bundles messages])

/-- One round of `process_operation`. -/
def iterate (s : Loop) (round : Round) : Except Unit (Loop × List Deed) := do
  require (s.result.isNone = true) ()
  if round.balance = false then pure (s, [])
  else
    match m.getOpStatus round.account with
    | .error _ => pure ({ s with result := some (.ok ()) }, [])
    | .ok opStatus =>
      let (s, opStatus) := m.count s opStatus
      if opStatus = .executed ∨ opStatus = .failed then
        pure ({ s with result := some (.ok ()) },
          [.acknowledge ⟨op.eobBlockNumber, opHash, opStatus⟩])
      else pure (m.advance op opHash s round opStatus)

def machine : Machine Loop Round Deed Unit where
  step := m.iterate op opHash

/-- The rounds that `process_operation` takes. -/
def history (rounds : List Round) : List (Record Loop Round Deed) :=
  ((m.machine op opHash).run .start (rounds.map ([·]))).1

/-- The loop after these rounds. -/
def after (rounds : List Round) : Loop :=
  ((m.machine op opHash).run .start (rounds.map ([·]))).2

/-! ## One round -/

/-- The status ends the loop with an acknowledgement. -/
def Terminal (opStatus : ExecutorOpStatus) : Prop :=
  opStatus = .executed ∨ opStatus = .failed

instance decidableTerminal (opStatus : ExecutorOpStatus) : Decidable (Terminal opStatus) :=
  inferInstanceAs (Decidable (_ ∨ _))

/-- The instructions for the status can be built, and compiled into messages. -/
def CanAdvance (round : Round) (opStatus : ExecutorOpStatus) : Prop :=
  ∃ bundles, buildIxs m.env m.payer opHash.val round.extensionMng op opStatus = .ok bundles ∧
    (sendAllInstructions m.sdk m.payer [] (some COMPUTE_UNIT_PRICE_LAMPORTS) bundles).1 = .ok ()

/-- What a round does. -/
inductive Turns (s : Loop) (round : Round) : Loop → List Deed → Prop
  | suspended : round.balance = false → Turns s round s []
  | unreadable {e} : round.balance = true → m.getOpStatus round.account = .error e →
      Turns s round { s with result := some (.ok ()) } []
  | acknowledged {read} : round.balance = true → m.getOpStatus round.account = .ok read →
      Terminal (m.count s read).2 →
      Turns s round { (m.count s read).1 with result := some (.ok ()) }
        [.acknowledge ⟨op.eobBlockNumber, opHash, (m.count s read).2⟩]
  | gaveUp {read e submitted} : round.balance = true → m.getOpStatus round.account = .ok read →
      ¬Terminal (m.count s read).2 → ¬m.CanAdvance op opHash round (m.count s read).2 →
      (e = .panic ↔ buildIxs m.env m.payer opHash.val round.extensionMng op (m.count s read).2 =
        .error .panic) →
      submitted = [] ∨ (∃ bundles messages, submitted = [.submit bundles messages]) →
      Turns s round { (m.count s read).1 with result := some (.error e) }
        (.build (m.count s read).2 :: submitted)
  | advanced {read bundles messages} : round.balance = true →
      m.getOpStatus round.account = .ok read → ¬Terminal (m.count s read).2 →
      m.CanAdvance op opHash round (m.count s read).2 →
      Turns s round (m.count s read).1
        [.build (m.count s read).2, .submit bundles messages]

variable {m op opHash} {s s' : Loop} {round : Round} {out : List Deed}

theorem turns_of_iterate (h : m.iterate op opHash s round = .ok (s', out)) :
    s.result = none ∧ m.Turns op opHash s round s' out := by
  simp only [iterate, Except.bind_eq_ok, Except.require_eq_ok, Option.isNone_iff_eq_none] at h
  obtain ⟨-, hresult, h⟩ := h
  refine ⟨hresult, ?_⟩
  by_cases hbalance : round.balance = false
  · simp only [hbalance, if_true, Except.pure_eq_ok, Prod.mk.injEq] at h
    obtain ⟨rfl, rfl⟩ := h
    exact .suspended hbalance
  rw [if_neg hbalance] at h
  rw [Bool.not_eq_false] at hbalance
  cases hread : m.getOpStatus round.account with
  | error e =>
    simp only [hread, Except.pure_eq_ok, Prod.mk.injEq] at h
    obtain ⟨rfl, rfl⟩ := h
    exact .unreadable hbalance hread
  | ok read =>
    simp only [hread] at h
    by_cases hterminal : Terminal (m.count s read).2
    · have hif := hterminal
      unfold Terminal at hif
      simp only [hif, if_true, Except.pure_eq_ok, Prod.mk.injEq] at h
      obtain ⟨rfl, rfl⟩ := h
      exact .acknowledged hbalance hread hterminal
    · have hif := hterminal
      unfold Terminal at hif
      simp only [hif, if_false, Except.pure_eq_ok, advance] at h
      cases hbuild : buildIxs m.env m.payer opHash.val round.extensionMng op (m.count s read).2 with
      | error e =>
        simp only [hbuild, Prod.mk.injEq] at h
        obtain ⟨rfl, rfl⟩ := h
        refine .gaveUp hbalance hread hterminal ?_ (by simp [hbuild]) (.inl rfl)
        rintro ⟨bundles, hok, -⟩
        simp [hbuild] at hok
      | ok bundles =>
        cases hsend : sendAllInstructions m.sdk m.payer [] (some COMPUTE_UNIT_PRICE_LAMPORTS)
          bundles with
        | mk answer messages =>
          cases answer with
          | error e =>
            simp only [hbuild, hsend, Prod.mk.injEq] at h
            obtain ⟨rfl, rfl⟩ := h
            refine .gaveUp hbalance hread hterminal ?_ (by simp [hbuild])
              (.inr ⟨bundles, messages, rfl⟩)
            rintro ⟨bundles', hok, hsent⟩
            obtain rfl := Except.ok.inj (hbuild.symm.trans hok)
            simp [hsend] at hsent
          | ok _ =>
            simp only [hbuild, hsend, Prod.mk.injEq] at h
            obtain ⟨rfl, rfl⟩ := h
            exact .advanced hbalance hread hterminal ⟨bundles, hbuild, by rw [hsend]⟩

theorem result_count (s : Loop) (read : ExecutorOpStatus) :
    (m.count s read).1.result = s.result := by
  unfold count
  split_ifs <;> rfl

/-! ## Acknowledgements -/

/-- The acknowledgements sent in a run. -/
def acks (h : List (Record Loop Round Deed)) : List OpAcknowledge :=
  (Machine.outputs h).filterMap Deed.ack?

/-- `process_operation` has returned, and not panicked. -/
def Returned (s : Loop) : Prop :=
  ∃ r, s.result = some r ∧ r ≠ .error .panic

variable (m op opHash) in
/-- A round with enough balance reads an account that is not there or can be read, and unless its
status is to be acknowledged, the instructions can be built and compiled, or building them
panics. -/
def Answered (s : Loop) (round : Round) : Prop :=
  round.balance = true → ∃ read, m.getOpStatus round.account = .ok read ∧
    (Terminal (m.count s read).2 ∨ m.CanAdvance op opHash round (m.count s read).2 ∨
      buildIxs m.env m.payer opHash.val round.extensionMng op (m.count s read).2 =
        .error .panic)

variable (m op opHash) in
/-- How far a run has got : it goes on, or it has ended with an acknowledgement, with a panic, or
with neither. -/
inductive Outcome (h : List (Record Loop Round Deed)) (s : Loop) : Prop
  | running : s.result = none → acks h = [] →
      (∀ r ∈ h, m.Answered op opHash r.before r.input) → Outcome h s
  | acknowledged (opStatus) : Terminal opStatus →
      acks h = [⟨op.eobBlockNumber, opHash, opStatus⟩] →
      s.result = some (.ok ()) → (∀ r ∈ h, m.Answered op opHash r.before r.input) → Outcome h s
  | panicked : s.result = some (.error .panic) →
      (∀ r ∈ h, m.Answered op opHash r.before r.input) → Outcome h s
  | silent : Returned s → acks h = [] →
      (¬∀ r ∈ h, m.Answered op opHash r.before r.input) → Outcome h s

theorem acks_append (h : List (Record Loop Round Deed)) (r : Record Loop Round Deed) :
    acks (h ++ [r]) = acks h ++ r.out.filterMap Deed.ack? := by
  simp [acks, Machine.outputs]

theorem outcome_snoc {h : List (Record Loop Round Deed)} (hacks : acks h = [])
    (hall : ∀ r ∈ h, m.Answered op opHash r.before r.input) (hresult : s.result = none)
    (hturns : m.Turns op opHash s round s' out) :
    m.Outcome op opHash (h ++ [⟨s, round, out, s'⟩]) s' := by
  have hsnoc : (∀ r ∈ h ++ [⟨s, round, out, s'⟩], m.Answered op opHash r.before r.input) ↔
      m.Answered op opHash s round := by
    simp only [List.forall_mem_append, List.forall_mem_singleton]
    exact and_iff_right hall
  have hacks' : acks (h ++ [⟨s, round, out, s'⟩]) = out.filterMap Deed.ack? := by
    rw [acks_append, hacks, List.nil_append]
  cases hturns with
  | suspended hbalance =>
    exact .running hresult hacks' (hsnoc.2 fun h => by simp [hbalance] at h)
  | unreadable hbalance hread =>
    refine .silent ⟨_, rfl, by simp⟩ hacks' fun h => ?_
    obtain ⟨read, hok, -⟩ := hsnoc.1 h hbalance
    simp [hread] at hok
  | acknowledged hbalance hread hterminal =>
    exact .acknowledged _ hterminal hacks' rfl (hsnoc.2 fun _ => ⟨_, hread, .inl hterminal⟩)
  | @gaveUp read e submitted hbalance hread hterminal hcannot hpanic hsubmitted =>
    have hnone : acks (h ++ [⟨s, round, .build (m.count s read).2 :: submitted,
        { (m.count s read).1 with result := some (.error e) }⟩]) = [] := by
      rw [hacks']
      obtain rfl | ⟨bundles, messages, rfl⟩ := hsubmitted <;> rfl
    by_cases he : e = .panic
    · refine .panicked (by rw [he]) (hsnoc.2 fun _ => ⟨_, hread, .inr (.inr (hpanic.1 he))⟩)
    · refine .silent ⟨_, rfl, by simpa using he⟩ hnone fun h => ?_
      obtain ⟨read', hread', hok⟩ := hsnoc.1 h hbalance
      obtain rfl := Except.ok.inj (hread.symm.trans hread')
      rcases hok with hok | hok | hok
      · exact hterminal hok
      · exact hcannot hok
      · exact he (hpanic.2 hok)
  | advanced hbalance hread hterminal hadvance =>
    refine .running ?_ hacks' (hsnoc.2 fun _ => ⟨_, hread, .inr (.inl hadvance)⟩)
    rw [result_count, hresult]

theorem outcome_of_run {h : List (Record Loop Round Deed)}
    (hr : (m.machine op opHash).Run .start h s) : m.Outcome op opHash h s := by
  induction hr with
  | nil => exact .running rfl rfl (by simp)
  | @snoc h s round s' out hr hstep ih =>
    obtain ⟨hresult, hturns⟩ := turns_of_iterate hstep
    cases ih with
    | running _ hacks hall => exact outcome_snoc hacks hall hresult hturns
    | acknowledged _ _ _ hdone _ => simp [hresult] at hdone
    | panicked hdone _ => simp [hresult] at hdone
    | silent hdone _ _ =>
      obtain ⟨r, hdone, -⟩ := hdone
      simp [hresult] at hdone

/-- For every signed operation and every sequence of answers from outside : if `process_operation`
has returned, normally or with an error, it has sent exactly one acknowledgement with the status
executed or failed for the operation's block and hash, exactly if every round that it took was
answered, so that it could acknowledge or go on. -/
theorem terminal_ack_iff (m : OperationManager) (op : SignedOperation) (opHash : OpHash)
    (rounds : List Round) :
    (Returned (m.after op opHash rounds) → ∃ opStatus, Terminal opStatus ∧
        acks (m.history op opHash rounds) = [⟨op.eobBlockNumber, opHash, opStatus⟩]) ↔
      ∀ r ∈ m.history op opHash rounds, m.Answered op opHash r.before r.input := by
  have hr := (m.machine op opHash).run_sound .start (rounds.map ([·]))
  cases outcome_of_run hr with
  | running hresult _ hall =>
    refine iff_of_true (fun hreturned => ?_) hall
    obtain ⟨r, hr, -⟩ := hreturned
    rw [after, hresult] at hr
    simp at hr
  | acknowledged opStatus hterminal hacks _ hall =>
    exact iff_of_true (fun _ => ⟨opStatus, hterminal, hacks⟩) hall
  | panicked hresult hall =>
    refine iff_of_true (fun hreturned => ?_) hall
    obtain ⟨r, hr, hne⟩ := hreturned
    rw [after, hresult] at hr
    exact absurd (Option.some_inj.1 hr).symm hne
  | silent hreturned hacks hnot =>
    refine iff_of_false (fun h => ?_) hnot
    obtain ⟨opStatus, -, hone⟩ := h hreturned
    rw [history, hacks] at hone
    simp at hone

section Localnet

open Localnet

/-- A manager on the local network, with one attempt. No account is read. -/
def testManager : OperationManager where
  env := localnet
  sdk := Sdk.v0
  tryDeserialize _ := none
  payer := wallet.key
  executorAttempts := 1

/-- The operation of the publisher's tests, from the block 7. -/
def testOperation : SignedOperation where
  operationData := testMessage [0, 4, 1, 2, 3, 4]
  signatures := [signature1, signature2]
  eobBlockNumber := 7

/-- The operation is not on chain, and these extensions are loaded. -/
def absent (extension : Option ProtocolExtension) : Round :=
  ⟨true, none, ⟨fun _ => extension⟩⟩

/-- The extension of the protocol is missing : the loop ends without an acknowledgement. -/
theorem returned_without_ack :
    (testManager.after testOperation (.replicate 32 1) [absent none]).result =
        some (.error .extensionMng) ∧
      acks (testManager.history testOperation (.replicate 32 1) [absent none]) = [] :=
  ⟨by decide +kernel, List.isEmpty_iff.1 (by decide +kernel)⟩

end Localnet

/-! ## Retries -/

theorem lastOpStatus_count (s : Loop) (read : ExecutorOpStatus) :
    (m.count s read).1.lastOpStatus = some read := by
  by_cases hlast : s.lastOpStatus = some read
  · rw [count, if_pos hlast]
    exact hlast
  · rw [count, if_neg hlast]

theorem count_eq_or_failed (s : Loop) (read : ExecutorOpStatus) :
    (m.count s read).2 = read ∨
      (m.count s read).2 = .failed ∧ s.lastOpStatus = some read := by
  unfold count
  split_ifs with hlast hattempts
  · exact .inr ⟨rfl, hlast⟩
  · exact .inl rfl
  · exact .inl rfl

/-- As long as the loop goes on, it has not read a status that ends it. -/
def Live (s : Loop) : Prop :=
  s.result = none → ∀ last ∈ s.lastOpStatus, ¬Terminal last

theorem Live.turns (hs : Live s) (h : m.Turns op opHash s round s' out) : Live s' := by
  cases h with
  | suspended _ => exact hs
  | unreadable _ _ => exact fun hresult => by simp at hresult
  | acknowledged _ _ _ => exact fun hresult => by simp at hresult
  | gaveUp _ _ _ _ _ _ => exact fun hresult => by simp at hresult
  | @advanced read _ _ _ _ hterminal _ =>
    rintro - last hlast
    rw [lastOpStatus_count, Option.mem_some_iff] at hlast
    rw [← hlast]
    rcases count_eq_or_failed s read (m := m) with heq | ⟨hfailed, -⟩
    · rwa [heq] at hterminal
    · exact absurd (.inr hfailed) hterminal

/-- What is acknowledged is executed exactly if this was read, and failed otherwise. -/
theorem truthful {read : ExecutorOpStatus} (hs : Live s) (hresult : s.result = none)
    (hterminal : Terminal (m.count s read).2) :
    ((m.count s read).2 = .executed ↔ read = .executed) ∧
      ((m.count s read).2 ≠ .executed → (m.count s read).2 = .failed) := by
  refine ⟨?_, fun hne => hterminal.resolve_left hne⟩
  rcases count_eq_or_failed s read (m := m) with heq | ⟨hfailed, hlast⟩
  · rw [heq]
  · refine iff_of_false (by simp [hfailed]) fun hexecuted => ?_
    exact hs hresult read hlast (.inl hexecuted)

/-- An acknowledgement is the last thing in a run. -/
theorem last_of_acks {h : List (Record Loop Round Deed)}
    (hr : (m.machine op opHash).Run .start h s) :
    Live s ∧ ∀ a ∈ acks h, s.result ≠ none ∧ ∃ before last, h = before ++ [last] ∧
      (a.status = .executed ↔ m.getOpStatus last.input.account = .ok .executed) ∧
      (a.status ≠ .executed → a.status = .failed) := by
  induction hr with
  | nil => exact ⟨fun _ => by simp [Loop.start], by simp [acks, Machine.outputs]⟩
  | @snoc h s round s' out hr hstep ih =>
    obtain ⟨hlive, hacks⟩ := ih
    obtain ⟨hresult, hturns⟩ := turns_of_iterate hstep
    refine ⟨hlive.turns hturns, fun a ha => ?_⟩
    rw [acks_append, List.mem_append] at ha
    rcases ha with ha | ha
    · exact absurd hresult (hacks a ha).1
    · cases hturns with
      | suspended _ => simp at ha
      | unreadable _ _ => simp at ha
      | @acknowledged read _ hread hterminal =>
        obtain rfl : a = ⟨op.eobBlockNumber, opHash, (m.count s read).2⟩ := by
          simpa [Deed.ack?] using ha
        refine ⟨by simp, h, _, rfl, ?_⟩
        rw [hread, Except.ok.injEq]
        exact truthful hlive hresult hterminal
      | gaveUp _ _ _ _ _ hsubmitted =>
        obtain rfl | ⟨bundles, messages, rfl⟩ := hsubmitted <;> simp [Deed.ack?] at ha
      | advanced _ _ _ _ => simp [Deed.ack?] at ha

variable (m) in
/-- The submissions that are left at most : so many for every stage to come, and those of the stage
that is under way. -/
def left (s : Loop) : ℕ :=
  match s.lastOpStatus with
  | none => 3 * max 1 m.executorAttempts
  | some last => (2 - last.stage) * max 1 m.executorAttempts +
      (max 1 m.executorAttempts - 1 - s.attempts)

/-- A round that goes on uses one up. -/
theorem left_count {read : ExecutorOpStatus}
    (hle : ∀ last ∈ s.lastOpStatus, last.stage ≤ read.stage)
    (hterminal : ¬Terminal (m.count s read).2) : m.left (m.count s read).1 + 1 ≤ m.left s := by
  have hmax : m.executorAttempts ≤ max 1 m.executorAttempts := le_max_right _ _
  have hpos : 1 ≤ max 1 m.executorAttempts := le_max_left _ _
  by_cases hlast : s.lastOpStatus = some read
  · -- the same status once more
    rw [count, if_pos hlast] at hterminal ⊢
    by_cases hattempts : m.executorAttempts ≤ s.attempts + 1
    · rw [if_pos hattempts] at hterminal
      exact absurd (.inr rfl) hterminal
    · simp only [left, hlast]
      omega
  · rw [count, if_neg hlast] at hterminal ⊢
    have hread : read.stage ≤ 2 := by
      cases read <;> simp_all [Terminal, ExecutorOpStatus.stage]
    cases hs : s.lastOpStatus with
    | none =>
      simp only [left, hs]
      have : (2 - read.stage) * max 1 m.executorAttempts ≤ 2 * max 1 m.executorAttempts :=
        Nat.mul_le_mul_right _ (by omega)
      omega
    | some last =>
      -- a later stage, so all that was left of the stages below it counts
      have hlt : last.stage < read.stage := by
        refine lt_of_le_of_ne (hle last hs) fun heq => hlast ?_
        rw [hs]
        cases last <;> cases read <;> simp_all [ExecutorOpStatus.stage]
      simp only [left, hs]
      have : (2 - read.stage + 1) * max 1 m.executorAttempts ≤
          (2 - last.stage) * max 1 m.executorAttempts := Nat.mul_le_mul_right _ (by omega)
      rw [Nat.add_mul] at this
      omega

/-- The submissions of a run. -/
def submissions (h : List (Record Loop Round Deed)) : ℕ :=
  (Machine.outputs h).countP Deed.isSubmit

/-- What one round submits, and what is left after it. -/
theorem left_turns {read : ExecutorOpStatus} (hbalance : round.balance = true)
    (hread : m.getOpStatus round.account = .ok read)
    (hle : ∀ last ∈ s.lastOpStatus, last.stage ≤ read.stage)
    (h : m.Turns op opHash s round s' out) :
    out.countP Deed.isSubmit ≤ m.left s ∧ s'.result ≠ none ∨
      out.countP Deed.isSubmit = 1 ∧ s'.result = s.result ∧ s'.lastOpStatus = some read ∧
        m.left s' + 1 ≤ m.left s := by
  cases h with
  | suspended h => simp [hbalance] at h
  | unreadable _ h => simp [hread] at h
  | acknowledged _ _ _ => exact .inl ⟨by simp [Deed.isSubmit], by simp⟩
  | gaveUp _ hread' hterminal _ _ hsubmitted =>
    obtain rfl := Except.ok.inj (hread.symm.trans hread')
    have := left_count hle hterminal
    refine .inl ⟨?_, by simp⟩
    obtain rfl | ⟨bundles, messages, rfl⟩ := hsubmitted
    · simp [Deed.isSubmit]
    · have hone : List.countP Deed.isSubmit [.build (m.count s read).2,
          .submit bundles messages] = 1 := rfl
      omega
  | advanced _ hread' hterminal _ =>
    obtain rfl := Except.ok.inj (hread.symm.trans hread')
    exact .inr ⟨rfl, result_count s read, lastOpStatus_count s read, left_count hle hterminal⟩

/-- Instructions are only built for a status that does not end the loop. -/
theorem not_terminal_of_build {opStatus : ExecutorOpStatus}
    (h : m.Turns op opHash s round s' out) (hbuild : .build opStatus ∈ out) :
    ¬Terminal opStatus := by
  cases h with
  | suspended _ => simp at hbuild
  | unreadable _ _ => simp at hbuild
  | acknowledged _ _ _ => simp at hbuild
  | @gaveUp read _ _ _ _ hterminal _ _ hsubmitted =>
    obtain rfl : opStatus = (m.count s read).2 := by
      obtain rfl | ⟨bundles, messages, rfl⟩ := hsubmitted <;> simpa using hbuild
    exact hterminal
  | @advanced read _ _ _ _ hterminal _ =>
    obtain rfl : opStatus = (m.count s read).2 := by simpa using hbuild
    exact hterminal

theorem exists_iterate (hresult : s.result = none) (round : Round) :
    ∃ s' out, m.iterate op opHash s round = .ok (s', out) := by
  cases h : m.iterate op opHash s round with
  | ok x => exact ⟨x.1, x.2, rfl⟩
  | error e =>
    simp only [iterate, Except.bind_eq_error, Except.require_eq_error, hresult] at h
    split_ifs at h <;> simp [pure, Except.pure] at h
    split at h
    · simp at h
    · split_ifs at h

/-- There is no round after the end. -/
theorem run_of_result {r : Except ExecutorError Unit} (hresult : s.result = some r)
    (rounds : List Round) : (m.machine op opHash).run s (rounds.map ([·])) = ([], s) := by
  induction rounds with
  | nil => rfl
  | cons round rounds ih =>
    have herror : (m.machine op opHash).step s round = .error () := by
      simp [machine, iterate, hresult, require, bind, Except.bind]
    rw [List.map_cons, Machine.run_cons_error _ herror, ih]

theorem submissions_cons (r : Record Loop Round Deed) (h : List (Record Loop Round Deed)) :
    submissions (r :: h) = r.out.countP Deed.isSubmit + submissions h := by
  simp [submissions, Machine.outputs]

variable (op opHash) in
/-- From any state of the loop, no more is submitted than is left, and with more rounds than that
the loop ends. -/
theorem submissions_le : ∀ {rounds : List Round} {statuses : List ExecutorOpStatus} {s : Loop},
    s.result = none → (∀ round ∈ rounds, round.balance = true) →
    rounds.map (fun round => m.getOpStatus round.account) = statuses.map .ok →
    statuses.Pairwise (fun a b => a.stage ≤ b.stage) →
    (∀ last ∈ s.lastOpStatus, ∀ read ∈ statuses, last.stage ≤ read.stage) →
    submissions ((m.machine op opHash).run s (rounds.map ([·]))).1 ≤ m.left s ∧
      (m.left s < rounds.length →
        ((m.machine op opHash).run s (rounds.map ([·]))).2.result ≠ none)
  | [], _, s, _, _, _, _, _ => by simp [Machine.run, submissions, Machine.outputs]
  | round :: rounds, [], s, _, _, hread, _, _ => by simp at hread
  | round :: rounds, read :: statuses, s, hresult, hbalance, hread, hmono, hle => by
    simp only [List.map_cons, List.cons.injEq] at hread
    obtain ⟨hread, hreads⟩ := hread
    obtain ⟨hfirst, hmono⟩ := List.pairwise_cons.1 hmono
    rw [List.forall_mem_cons] at hbalance
    obtain ⟨s', out, hiterate⟩ : ∃ s' out, m.iterate op opHash s round = .ok (s', out) :=
      exists_iterate hresult round
    have hrun := Machine.run_cons_ok (m := m.machine op opHash) (rounds.map ([·])) hiterate
    obtain ⟨-, hturns⟩ := turns_of_iterate hiterate
    rw [List.map_cons, hrun, submissions_cons]
    rcases left_turns hbalance.1 hread (fun last hlast => hle last hlast read List.mem_cons_self)
      hturns with ⟨hsubmit, hend⟩ | ⟨hsubmit, hkeep, hlast, hleft⟩
    · obtain ⟨r, hr⟩ := Option.ne_none_iff_exists'.1 hend
      rw [run_of_result hr]
      exact ⟨by simpa [submissions, Machine.outputs] using hsubmit, fun _ => hend⟩
    · obtain ⟨ihle, ihend⟩ := submissions_le (hkeep.trans hresult) hbalance.2 hreads hmono
        (fun last hl st hst => by
          rw [hlast, Option.mem_some_iff] at hl
          exact hl ▸ hfirst st hst)
      simp only [List.length_cons]
      exact ⟨by omega, fun hlt => ihend (by omega)⟩

/-- For every number of attempts and every sequence of statuses read that never decreases, with
the balance checks passing : there are at most three times as many submissions as attempts, with
one attempt in place of none, and after as many rounds the loop ends with the next one. If it ends
with an acknowledgement, this is of an execution exactly if the last status read was executed, and
of a failure otherwise. Instructions are never built for an operation that is executed or has
failed. -/
theorem bounded_retries (m : OperationManager) (op : SignedOperation) (opHash : OpHash)
    (rounds : List Round) (statuses : List ExecutorOpStatus)
    (hbalance : ∀ round ∈ rounds, round.balance = true)
    (hread : rounds.map (fun round => m.getOpStatus round.account) = statuses.map .ok)
    (hmono : statuses.Pairwise fun a b => a.stage ≤ b.stage) :
    submissions (m.history op opHash rounds) ≤ 3 * max 1 m.executorAttempts ∧
      (3 * max 1 m.executorAttempts < rounds.length →
        (m.after op opHash rounds).result ≠ none) ∧
      (∀ a ∈ acks (m.history op opHash rounds), ∃ before last,
        m.history op opHash rounds = before ++ [last] ∧
        (a.status = .executed ↔ m.getOpStatus last.input.account = .ok .executed) ∧
        (a.status ≠ .executed → a.status = .failed)) ∧
      ∀ r ∈ m.history op opHash rounds, ∀ opStatus, .build opStatus ∈ r.out →
        opStatus ≠ .executed ∧ opStatus ≠ .failed := by
  have hr := (m.machine op opHash).run_sound .start (rounds.map ([·]))
  have hstart : ∀ last ∈ Loop.start.lastOpStatus, ∀ read ∈ statuses, last.stage ≤ read.stage := by
    simp [Loop.start]
  obtain ⟨hle, hend⟩ := submissions_le op opHash rfl hbalance hread hmono hstart
  refine ⟨hle, hend, fun a ha => ((last_of_acks hr).2 a ha).2, fun r hmem opStatus hbuild => ?_⟩
  obtain ⟨pre, -, -, -, hstep⟩ := hr.of_mem hmem
  obtain ⟨-, hturns⟩ := turns_of_iterate hstep
  exact not_or.1 (not_terminal_of_build hturns hbuild)

/-- An extension that lists the called program. -/
def testExtension : ProtocolExtension where
  getAccounts _ _ := .ok [⟨Localnet.onefuncAddress, false, false⟩]
  getComputeBudget _ _ := none

/-- Two rounds in which the operation is not on chain, with one attempt. -/
theorem bounded_retries_once :
    (acks (testManager.history testOperation (.replicate 32 1)
        [absent testExtension, absent testExtension])).map OpAcknowledge.status = [.failed] ∧
      submissions (testManager.history testOperation (.replicate 32 1)
        [absent testExtension, absent testExtension]) ≤ 3 * max 1 1 :=
  ⟨by decide +kernel, (bounded_retries testManager testOperation (.replicate 32 1)
    [absent testExtension, absent testExtension] [.new, .new] (by simp [absent]) rfl
    (by decide)).1⟩

end OperationManager

end Photon
