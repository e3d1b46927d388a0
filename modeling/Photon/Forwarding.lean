import Photon.Steps
import Photon.Localnet

/-!
# The accounts a called protocol sees

`execute_operation` puts the executor, the call authority and the operation in front of the
remaining accounts and hands the list to the protocol. The first remaining account is the
protocol's program. To leave it out, all accounts with its key are dropped
(`executeOperation_forwards`), wherever they stand in the list.

So the protocol gets the accounts as they are exactly when its program is not among them
(`forwarded_iff`). A program that is named a second time, which is how an optional account is
left out, moves every account behind it one place forward (`program_not_forwarded`).
-/

namespace Photon

variable {env : Env} {l l' : Ledger} {h : Bytes} {out : List Effect}
  {executor opInfo protocolInfo callAuthority first : AccountInfo}
  {remaining rest : List AccountInfo}
  {invoke : Ledger → Instruction → Except Error (Ledger × List Effect)}

/-- The accounts stand in the order in which they are given. -/
theorem ExecuteOperation.eq_of_tryAccounts {ctx : ExecuteOperation}
    (hctx : ExecuteOperation.tryAccounts env l h
      (executor :: opInfo :: protocolInfo :: callAuthority :: remaining) = .ok ctx) :
    ctx.executor = executor ∧ ctx.opAccount = opInfo ∧ ctx.callAuthority = callAuthority ∧
      ctx.remaining = remaining := by
  simp only [ExecuteOperation.tryAccounts, Except.bind_eq_ok, Except.pure_eq_ok] at hctx
  obtain ⟨-, -, op, -, p, -, -, -, -, -, -, -, -, -, -, -, rfl⟩ := hctx
  exact ⟨rfl, rfl, rfl, rfl⟩

/-- The call of the protocol gets all accounts but those with the key of its program. -/
theorem executeOperation_forwards
    (hok : executeOperation env invoke l
      (executor :: opInfo :: protocolInfo :: callAuthority :: first :: rest) h = .ok (l', out)) :
    ∃ ix seeds, out.head? = some (.invoke ix seeds) ∧ ix.programId = first.key ∧
      ix.accounts = (executor :: { callAuthority with isSigner := true } :: opInfo ::
        rest).filter (·.key ≠ first.key) := by
  simp only [executeOperation, Except.bind_eq_ok, Except.orFail_eq_ok,
    Option.filter_eq_some_iff, decide_eq_true_eq, Except.pure_eq_ok, Prod.mk.injEq,
    Prod.exists] at hok
  obtain ⟨ctx, hctx, a, ⟨hhead, hkey⟩, data, -, l₁, effects, -, -, rfl⟩ := hok
  obtain ⟨hexecutor, hop, hauthority, hremaining⟩ := ExecuteOperation.eq_of_tryAccounts hctx
  obtain rfl : first = a := by simpa [hremaining] using hhead
  refine ⟨_, _, rfl, hkey.symm, ?_⟩
  simp [ExecuteOperation.metas, ← hkey, hexecutor, hop, hauthority, hremaining]

/-- For every list of remaining accounts and every program called : if the instruction succeeds,
the call gets the executor, the call authority as a signer, the operation and all remaining
accounts after the first exactly when none of these has the key of the first. -/
theorem forwarded_iff (env : Env)
    (invoke : Ledger → Instruction → Except Error (Ledger × List Effect)) (l l' : Ledger)
    (executor opInfo protocolInfo callAuthority first : AccountInfo) (rest : List AccountInfo)
    (h : Bytes) (out : List Effect)
    (hok : executeOperation env invoke l
      (executor :: opInfo :: protocolInfo :: callAuthority :: first :: rest) h = .ok (l', out)) :
    ∃ ix seeds, out.head? = some (.invoke ix seeds) ∧
      (ix.accounts = executor :: { callAuthority with isSigner := true } :: opInfo :: rest ↔
        ∀ a ∈ executor :: callAuthority :: opInfo :: rest, a.key ≠ first.key) := by
  obtain ⟨ix, seeds, hhead, -, haccounts⟩ := executeOperation_forwards hok
  refine ⟨ix, seeds, hhead, ?_⟩
  rw [haccounts, List.filter_eq_self]
  simp

section Localnet

open Localnet

/-- The accounts of `execute`, with the program of the endpoint once more at their end. -/
def Localnet.executeNamed : Invocation localnet :=
  call (.executeOperation opHash) (execute.accounts ++ [program photonId]) (by decide +kernel)

theorem forwarded_localnet :
    ∃ l' out ix seeds,
      (endpoint localnet).step ((endpoint localnet).run Ledger.genesis approval).2 execute =
        .ok (l', out) ∧
      out.head? = some (.invoke ix seeds) ∧
      ix.accounts = [wallet, { derived (.callAuthority govProtocolId) with isSigner := true },
        derived (.op opHash), derived .config, derived (.protocol govProtocolId),
        derived (.protocol onefuncId), program Pubkey.default] := by
  obtain ⟨hsome, hne⟩ :
      ((endpoint localnet).step ((endpoint localnet).run Ledger.genesis approval).2
          execute).toOption.isSome = true ∧
        ∀ a ∈ [wallet, derived (.callAuthority govProtocolId), derived (.op opHash),
          derived .config, derived (.protocol govProtocolId), derived (.protocol onefuncId),
          program Pubkey.default], a.key ≠ (program photonId).key := by
    decide +kernel
  obtain ⟨⟨l', out⟩, hstep⟩ := Option.isSome_iff_exists.1 hsome
  rw [Except.toOption_eq_some] at hstep
  obtain ⟨ix, seeds, hhead, hiff⟩ := forwarded_iff localnet _ _ l' wallet (derived (.op opHash))
    (derived (.protocol govProtocolId)) (derived (.callAuthority govProtocolId))
    (program photonId) [derived .config, derived (.protocol govProtocolId),
      derived (.protocol onefuncId), program Pubkey.default] opHash out hstep
  exact ⟨l', out, ix, seeds, hstep, hhead, hiff.2 hne⟩

/-- The last of the remaining accounts is the program itself, and the call gets one account less
than there are. -/
theorem program_not_forwarded :
    ∃ l' out ix seeds,
      (endpoint localnet).step ((endpoint localnet).run Ledger.genesis approval).2 executeNamed =
        .ok (l', out) ∧
      out.head? = some (.invoke ix seeds) ∧ executeNamed.accounts[4]? = some (program photonId) ∧
      ix.accounts ≠ wallet :: { derived (.callAuthority govProtocolId) with isSigner := true } ::
        derived (.op opHash) :: executeNamed.accounts.drop 5 := by
  have hsome : ((endpoint localnet).step ((endpoint localnet).run Ledger.genesis approval).2
      executeNamed).toOption.isSome = true := by
    decide +kernel
  obtain ⟨⟨l', out⟩, hstep⟩ := Option.isSome_iff_exists.1 hsome
  rw [Except.toOption_eq_some] at hstep
  obtain ⟨ix, seeds, hhead, -, haccounts⟩ : ∃ ix seeds, out.head? = some (.invoke ix seeds) ∧
      ix.programId = (program photonId).key ∧
      ix.accounts = (wallet :: { derived (.callAuthority govProtocolId) with isSigner := true } ::
        derived (.op opHash) :: executeNamed.accounts.drop 5).filter
          (·.key ≠ (program photonId).key) := executeOperation_forwards hstep
  refine ⟨l', out, ix, seeds, hstep, hhead, by decide +kernel, ?_⟩
  rw [haccounts]
  decide +kernel

end Localnet

end Photon
