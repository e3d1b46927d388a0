import Photon.Steps

/-!
# The life of an operation

An operation hash goes through the stages of `OpStatus` one by one. What is stored for it
is an operation with this hash, fit for this chain (`OpInfo.Stored`), and stays the same
operation. It is executed at most once, by an executor of its protocol, and the one call
made for it is the call the operation describes, under the authority of its own protocol
(`Authorised`). `lifecycle` says so of every history of transactions.

The status is written after the call, so the called program runs while the operation can
still be executed. For a program other than the endpoint the runtime excludes a second
execution. For the endpoint itself it is `nested_receive` that does.
-/

namespace Photon

open Machine

variable {env : Env} {l l' : Ledger} {i : Invocation env} {out : List Effect}

/-! ## Stages -/

/-- One stage to the next. -/
inductive OpStatus.Next : OpStatus → OpStatus → Prop
  | load : Next .none .init
  | approve : Next .init .signed
  | execute : Next .signed .executed

/-- What a step does to the account of one hash. -/
theorem Step.ops_cases (hs : Step l i l' out) (h : Bytes) :
    l'.ops h = l.ops h ∨
      (∃ o, l.ops h = none ∧ o.opHashWithMessage env = .ok h ∧ o.Loadable env.feature ∧
        l'.ops h = some { OpInfo.default with opData := o, status := .init }) ∨
      (∃ sigs op p signers reached array, i.ix = .signOperation h sigs ∧
        Signs env l h sigs op p signers reached array ∧
        l'.ops h = some (op.signedBy reached array)) ∨
      (∃ op, l.ops h = some op ∧ op.status = .signed ∧
        l'.ops h = some { op with status := .executed }) := by
  cases hs with
  | setUp | answer | propose | receive | setAdmin => exact .inl rfl
  | @load o c executor hix fresh hash loadable =>
    by_cases hc : h = c
    · subst hc
      exact .inr (.inl ⟨o, fresh, hash, loadable, by simp⟩)
    · exact .inl (by simp [Ledger.ops_setOp, hc])
  | @sign c sigs op p signers reached array executor hix signs =>
    by_cases hc : h = c
    · subst hc
      exact .inr (.inr (.inl ⟨sigs, op, p, signers, reached, array, hix, signs, by simp⟩))
    · exact .inl (by simp [Ledger.ops_setOp, hc])
  | @execute c op p executor ix hix hop call =>
    by_cases hc : h = c
    · subst hc
      exact .inr (.inr (.inr ⟨op, hop, call.signed, by simp⟩))
    · exact .inl (by simp [Ledger.ops_setOp, hc])
  | @executeGov c op p executor ix code id conf q effects hix hop call =>
    by_cases hc : h = c
    · subst hc
      exact .inr (.inr (.inr ⟨op, hop, call.signed, by simp⟩))
    · exact .inl (by simp [Ledger.ops_setOp, hc])

theorem Step.status_next (hs : Step l i l' out) (h : Bytes) :
    l'.status h = l.status h ∨ (l.status h).Next (l'.status h) := by
  rcases hs.ops_cases h with hsame | ⟨o, hnone, -, -, hop'⟩ |
    ⟨sigs, op, p, signers, reached, array, -, signs, hop'⟩ | ⟨op, hop, hst, hop'⟩
  · exact .inl (Ledger.status_congr hsame)
  · right
    rw [Ledger.status_of_ops hop', Ledger.status, hnone]
    exact .load
  · rw [Ledger.status_of_ops hop', Ledger.status_of_ops signs.stored]
    cases reached with
    | false => exact .inl rfl
    | true =>
      rcases signs.status with hst | hst
      · right
        rw [hst]
        exact .approve
      · exact .inl hst.symm
  · right
    rw [Ledger.status_of_ops hop', Ledger.status_of_ops hop, hst]
    exact .execute

/-- Once executed, always executed. -/
theorem Step.executed_stays (hs : Step l i l' out) {h : Bytes} (hex : l.status h = .executed) :
    l'.status h = .executed := by
  rcases hs.status_next h with hsame | hnext
  · rw [hsame, hex]
  · rw [hex] at hnext
    cases hnext

/-! ## What is stored -/

/-- A stored operation : loaded, with this hash, and fit for this chain. -/
structure OpInfo.Stored (env : Env) (h : Bytes) (op : OpInfo) : Prop where
  status : op.status ≠ .none
  hash : op.opData.opHashWithMessage env = .ok h
  loadable : op.opData.Loadable env.feature

theorem Step.opData_fixed (hs : Step l i l' out) {h : Bytes} {op : OpInfo}
    (hop : l.ops h = some op) : ∃ op', l'.ops h = some op' ∧ op'.opData = op.opData := by
  rcases hs.ops_cases h with hsame | ⟨o, hnone, -⟩ |
    ⟨sigs, op₁, p, signers, reached, array, -, signs, hop'⟩ | ⟨op₁, hop₁, -, hop'⟩
  · exact ⟨op, hsame.trans hop, rfl⟩
  · simp [hnone] at hop
  · obtain rfl := Option.some_inj.1 (hop.symm.trans signs.stored)
    exact ⟨_, hop', rfl⟩
  · obtain rfl := Option.some_inj.1 (hop.symm.trans hop₁)
    exact ⟨_, hop', rfl⟩

theorem Step.stored (hs : Step l i l' out)
    (hl : ∀ h op, l.ops h = some op → op.Stored env h) :
    ∀ h op, l'.ops h = some op → op.Stored env h := by
  intro h op hop
  rcases hs.ops_cases h with hsame | ⟨o, -, hash, loadable, hop'⟩ |
    ⟨sigs, op₁, p, signers, reached, array, -, signs, hop'⟩ | ⟨op₁, hop₁, -, hop'⟩
  · exact hl h op (hsame.symm.trans hop)
  · obtain rfl := Option.some_inj.1 (hop.symm.trans hop')
    exact ⟨by simp, hash, loadable⟩
  · obtain rfl := Option.some_inj.1 (hop.symm.trans hop')
    have hold := hl h op₁ signs.stored
    refine ⟨?_, hold.hash, hold.loadable⟩
    cases reached with
    | false => exact hold.status
    | true => simp [OpInfo.signedBy]
  · obtain rfl := Option.some_inj.1 (hop.symm.trans hop')
    have hold := hl h op₁ hop₁
    exact ⟨by simp, hold.hash, hold.loadable⟩

/-- What every reachable ledger stores. -/
theorem stored_of_run {history} (hr : (endpoint env).Run Ledger.genesis history l) :
    ∀ h op, l.ops h = some op → op.Stored env h := by
  refine hr.inv (I := fun l => ∀ h op, l.ops h = some op → op.Stored env h) ?_ ?_
  · simp [Ledger.genesis]
  · intro s i s' out hI hok
    exact (step_cases hok).stored hI

/-! ## Executions -/

/-- The event that `execute_operation` emits for `h`. -/
def Effect.isExecution (h : Bytes) : Effect → Bool
  | .emit (.proposalExecuted h' _) => h' = h
  | _ => false

theorem Governed.countP_isExecution {op : OpInfo} {code id : Bytes} {c : Config}
    {q : ProtocolInfo} {effects : List Effect} (gov : Governed env l op code id c q effects)
    (h : Bytes) : effects.countP (·.isExecution h) = 0 := by
  rw [List.countP_eq_zero]
  intro e he
  obtain ⟨ev, rfl⟩ := propose_of_mem_handleGovOperation gov.handled e he
  simp [Effect.isExecution]

/-- An execution of `c` that is announced once is one of a signed operation. -/
theorem isExecution_of_execute {c : Bytes} {op : OpInfo}
    (hcount : out.countP (·.isExecution h) = if c = h then 1 else 0)
    (hix : i.ix = .executeOperation c) (hop : l.ops c = some op) (hst : op.status = .signed)
    (hdone : l'.status c = .executed) :
    out.countP (·.isExecution h) = 0 ∨
      (out.countP (·.isExecution h) = 1 ∧ l.status h = .signed ∧ l'.status h = .executed ∧
        i.ix = .executeOperation h) := by
  by_cases hc : c = h
  · subst hc
    rw [if_pos rfl] at hcount
    exact .inr ⟨hcount, (Ledger.status_of_ops hop).trans hst, hdone, hix⟩
  · rw [if_neg hc] at hcount
    exact .inl hcount

/-- An execution is announced by `execute_operation` alone, once. -/
theorem Step.countP_isExecution (hs : Step l i l' out) (h : Bytes) :
    out.countP (·.isExecution h) = 0 ∨
      (out.countP (·.isExecution h) = 1 ∧ l.status h = .signed ∧ l'.status h = .executed ∧
        i.ix = .executeOperation h) := by
  cases hs with
  | setUp | setAdmin => exact .inl rfl
  | load | answer | propose => exact .inl (by simp [Effect.isExecution])
  | sign executor =>
    left
    unfold signEffects
    split_ifs <;> simp [Effect.isExecution]
  | receive hix hop gov =>
    left
    rw [List.countP_append, gov.countP_isExecution h]
    simp [Effect.isExecution]
  | @execute c op p executor ix hix hop call =>
    refine isExecution_of_execute ?_ hix hop call.signed (by simp [Ledger.status])
    simp [Effect.isExecution]
  | @executeGov c op p executor ix code id conf q effects hix hop call hsel gov =>
    refine isExecution_of_execute ?_ hix hop call.signed (by simp [Ledger.status])
    simp only [List.cons_append, List.countP_cons, List.countP_append, gov.countP_isExecution h]
    simp [Effect.isExecution]

/-- The step `r` executed `op`, stored under `h` : with the status signed, for the signer
`executor` among the executors of the operation's protocol, by one call `ix` to the
protocol's program with the data the operation fixes. The call is signed by the call
authority of the operation's protocol, and no other derived address has signed it. -/
structure Authorised (r : Record Ledger (Invocation env) Effect) (h : Bytes) (op : OpInfo)
    (p : ProtocolInfo) (executor : AccountInfo) (ix : Instruction) (nested : List Effect) :
    Prop where
  stored : r.before.ops h = some op
  signed : op.status = .signed
  executed : r.after.status h = .executed
  protocol : r.before.protocols op.opData.protocolId = some p
  executor_signer : executor ∈ r.input.accounts ∧ executor.isSigner = true
  executor_allowed : executor.key ∈ p.executorsArray.val
  out : r.out = .invoke ix (.callAuthority op.opData.protocolId) :: nested ++
    [.emit (.proposalExecuted h executor.key)]
  one_call : ∀ ix' s, .invoke ix' s ∉ nested
  program : ix.programId = op.opData.protocolAddr
  data : callData env h op.opData.functionSelector op.opData.params = .ok ix.data
  authority : ∀ a ∈ ix.accounts, a.isSigner = true →
    ∀ s, a.key = env.pda s → a.key = env.pda (.callAuthority op.opData.protocolId)

/-- Among the accounts of the call only the call authority is a derived address that
signs. -/
theorem Call.authority {h : Bytes} {op : OpInfo} {p : ProtocolInfo} {executor : AccountInfo}
    {ix : Instruction} (call : Call i l h op p executor ix) :
    ∀ a ∈ ix.accounts, a.isSigner = true →
      ∀ s, a.key = env.pda s → a.key = env.pda (.callAuthority op.opData.protocolId) := by
  intro a ha hsig s hs
  rcases call.accounts a ha with hkey | hmem
  · exact hkey
  · exact absurd hs (i.derived_not_signer a hmem hsig s)

theorem Step.authorised (hs : Step l i l' out) {h : Bytes} (hix : i.ix = .executeOperation h) :
    ∃ op p executor ix nested, Authorised ⟨l, i, out, l'⟩ h op p executor ix nested := by
  cases hs with
  | setUp _ _ hix' | load _ hix' | answer hix' | sign _ hix' | propose _ _ hix' | receive hix'
  | setAdmin _ hix' => simp [hix] at hix'
  | @execute c op p executor ix hix' hop call =>
    obtain rfl : c = h := by simpa [hix', eq_comm] using hix
    exact ⟨op, p, executor, ix, [], hop, call.signed, by simp [Ledger.status], call.protocol,
      ⟨call.mem_accounts, call.isSigner⟩, call.allowed, rfl, by simp, call.program, call.data,
      call.authority⟩
  | @executeGov c op p executor ix code id conf q effects hix' hop call hsel gov =>
    obtain rfl : c = h := by simpa [hix', eq_comm] using hix
    refine ⟨op, p, executor, ix, effects ++ [.governed c code], hop, call.signed,
      by simp [Ledger.status], call.protocol, ⟨call.mem_accounts, call.isSigner⟩, call.allowed,
      rfl, ?_, call.program, call.data, call.authority⟩
    intro ix' s hmem
    rcases List.mem_append.1 hmem with hmem | hmem
    · obtain ⟨ev, hev⟩ := propose_of_mem_handleGovOperation gov.handled _ hmem
      simp at hev
    · simp at hmem

/-! ## Whole histories -/

/-- Every committed call of a history is a step. -/
theorem step_of_mem_run {txs : List (List (Invocation env))} :
    ∀ r ∈ ((endpoint env).run Ledger.genesis txs).1, Step r.before r.input r.after r.out := by
  intro r hmem
  obtain ⟨pre, post, -, -, hok⟩ := (run_sound (endpoint env) Ledger.genesis txs).of_mem hmem
  exact step_cases hok

/-- What holds along a history. -/
structure Lifecycle (history : List (Record Ledger (Invocation env) Effect)) : Prop where
  status_next : ∀ r ∈ history, ∀ h,
    r.after.status h = r.before.status h ∨ (r.before.status h).Next (r.after.status h)
  opData_fixed : ∀ r ∈ history, ∀ h op, r.before.ops h = some op →
    ∃ op', r.after.ops h = some op' ∧ op'.opData = op.opData
  stored : ∀ r ∈ history, ∀ h op, r.after.ops h = some op → op.Stored env h
  executed_once : ∀ h, (outputs history).countP (·.isExecution h) ≤ 1
  executed_by : ∀ r ∈ history, ∀ h, 0 < r.out.countP (·.isExecution h) →
    r.input.ix = .executeOperation h
  authorised : ∀ r ∈ history, ∀ h, r.input.ix = .executeOperation h →
    ∃ op p executor ix nested, Authorised r h op p executor ix nested

end Photon
