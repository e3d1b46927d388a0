import Photon.Endpoint

/-!
# What one step can do

`Step` lists what a successful call of the endpoint has checked, written and put out, one
case per instruction and two where an instruction has two ways to succeed. `step_cases`
says that there is nothing else, and every invariant of the later modules is read off it.

The work is in the calls that the endpoint makes to itself. Such a call hands over the
executor, the call authority and the operation, in this order. Every instruction but
`receive_photon_msg` wants an account of another kind in the second place, so only that
one can succeed there (`nested_receive`), and it gets the code that is stored.
-/

namespace Photon

variable {env : Env} {l l' : Ledger} {accounts : List AccountInfo} {out : List Effect}
  {h : Bytes}

/-! ## Account lists

The second account of every list is derived, except that of `receive_photon_msg`. -/

theorem Initialize.of_tryAccounts {ctx : Initialize}
    (hctx : Initialize.tryAccounts env l accounts = .ok ctx) :
    ctx.protocolInfo = (l.protocols govProtocolId).getD ProtocolInfo.default ∧
      ctx.config = l.config.getD Config.default ∧
      (ctx.admin.key = ctx.config.admin ∨ ctx.admin.key = env.feature.deployer) ∧
      ctx.admin.isSigner = true ∧
      accounts[1]?.map AccountInfo.key = some (env.pda (.protocol govProtocolId)) := by
  unfold Initialize.tryAccounts at hctx
  split at hctx
  · simp only [Except.bind_eq_ok, Except.require_eq_ok, Except.pure_eq_ok, Env.checkSigner,
      Env.initProtocol, Env.initConfig, Env.checkSeeds_eq_ok] at hctx
    obtain ⟨-, hsig, -, -, p, ⟨-, ⟨-, hk⟩, -, -, rfl⟩, c, ⟨-, -, -, -, rfl⟩, -, -, -, hadmin,
      rfl⟩ := hctx
    exact ⟨rfl, rfl, hadmin, hsig, congrArg some hk⟩
  · simp at hctx

theorem LoadOperation.of_tryAccounts {o : OperationData} {ctx : LoadOperation}
    (hctx : LoadOperation.tryAccounts env l o h accounts = .ok ctx) :
    l.ops h = none ∧ ctx.opInfo = OpInfo.default ∧
      l.protocols o.protocolId = some ctx.protocolInfo ∧
      ctx.executor.key ∈ ctx.protocolInfo.executorsArray.val ∧
      (ctx.executor ∈ accounts ∧ ctx.executor.isSigner = true) ∧
      accounts[1]?.map AccountInfo.key = some (env.pda (.protocol o.protocolId)) := by
  unfold LoadOperation.tryAccounts at hctx
  split at hctx
  · simp only [Except.bind_eq_ok, Except.require_eq_ok, Except.pure_eq_ok, Env.checkSigner,
      Env.loadProtocol_eq_ok] at hctx
    obtain ⟨-, hsig, p, ⟨⟨-, hk⟩, hp⟩, _, -, -, -, -, -, -, hfresh, -, -, -, -, -, -, -, hexec,
      -, -, rfl⟩ := hctx
    exact ⟨hfresh, rfl, hp, hexec, ⟨by simp, hsig⟩, congrArg some hk⟩
  · simp at hctx

theorem SignOperation.of_tryAccounts {ctx : SignOperation}
    (hctx : SignOperation.tryAccounts env l h accounts = .ok ctx) :
    l.ops h = some ctx.opInfo ∧ (ctx.opInfo.status = .init ∨ ctx.opInfo.status = .signed) ∧
      l.protocols ctx.opInfo.opData.protocolId = some ctx.protocolInfo ∧
      ctx.executor.key ∈ ctx.protocolInfo.executorsArray.val ∧
      (ctx.executor ∈ accounts ∧ ctx.executor.isSigner = true) ∧
      accounts[1]?.map AccountInfo.key = some (env.pda (.op h)) := by
  unfold SignOperation.tryAccounts at hctx
  split at hctx
  · simp only [Except.bind_eq_ok, Except.require_eq_ok, Except.pure_eq_ok, Env.checkSigner,
      Env.loadOp_eq_ok, Env.loadProtocol_eq_ok] at hctx
    obtain ⟨-, hsig, op, ⟨⟨-, hk⟩, hop⟩, p, ⟨-, hp⟩, -, -, -, hexec, -, -, -, hst, rfl⟩ := hctx
    exact ⟨hop, hst, hp, hexec, ⟨by simp, hsig⟩, congrArg some hk⟩
  · simp at hctx

theorem ExecuteOperation.of_tryAccounts {ctx : ExecuteOperation}
    (hctx : ExecuteOperation.tryAccounts env l h accounts = .ok ctx) :
    (l.ops h = some ctx.opInfo ∧ ctx.opInfo.status = .signed) ∧
      l.protocols ctx.opInfo.opData.protocolId = some ctx.protocolInfo ∧
      (ctx.executor.key ∈ ctx.protocolInfo.executorsArray.val ∧ ctx.executor.isSigner = true ∧
        ctx.executor.isWritable = true) ∧
      ctx.callAuthority.key = env.pda (.callAuthority ctx.opInfo.opData.protocolId) ∧
      (ctx.executor ∈ accounts ∧ ctx.opAccount ∈ accounts ∧
        ∀ a ∈ ctx.remaining, a ∈ accounts) ∧
      accounts[1]?.map AccountInfo.key = some (env.pda (.op h)) := by
  unfold ExecuteOperation.tryAccounts at hctx
  split at hctx
  · simp only [Except.bind_eq_ok, Except.require_eq_ok, Except.pure_eq_ok, Env.loadOp_eq_ok,
      Env.loadProtocol_eq_ok, Env.checkSigner, Env.checkMut, Env.checkSeeds_eq_ok] at hctx
    obtain ⟨-, hsig, op, ⟨⟨-, hk⟩, hop⟩, p, ⟨-, hp⟩, -, hmut, -, hexec, -, -, -, hst, -,
      ⟨-, hauth⟩, rfl⟩ := hctx
    refine ⟨⟨hop, hst⟩, hp, ⟨hexec, hsig, hmut⟩, hauth, ⟨by simp, by simp, ?_⟩,
      congrArg some hk⟩
    intro a ha
    simp [ha]
  · simp at hctx

theorem Propose.of_tryAccounts {id : Bytes} {ctx : Propose}
    (hctx : Propose.tryAccounts env l id accounts = .ok ctx) :
    l.config = some ctx.config ∧ l.protocols id = some ctx.protocolInfo ∧
      ctx.proposer.key ∈ ctx.protocolInfo.proposersArray.val ∧
      (ctx.proposer ∈ accounts ∧ ctx.proposer.isSigner = true) ∧
      accounts[1]?.map AccountInfo.key = some (env.pda .config) := by
  unfold Propose.tryAccounts at hctx
  split at hctx
  · simp only [Except.bind_eq_ok, Except.require_eq_ok, Except.pure_eq_ok, Except.orFail_eq_ok,
      Env.checkSigner, Env.loadConfig, Env.loadProtocol_eq_ok, Env.checkSeeds_eq_ok] at hctx
    obtain ⟨-, hsig, c, ⟨-, ⟨-, hk⟩, hc⟩, p, ⟨-, hp⟩, -, hprop, -, -, rfl⟩ := hctx
    exact ⟨hc, hp, hprop, ⟨by simp, hsig⟩, congrArg some hk⟩
  · simp at hctx

theorem ReceivePhotonMsg.of_tryAccounts {ctx : ReceivePhotonMsg}
    (hctx : ReceivePhotonMsg.tryAccounts env l h accounts = .ok ctx) :
    (l.ops h = some ctx.opInfo ∧ ctx.opInfo.status = .signed) ∧
      ctx.config = l.config.getD Config.default ∧
      targetProtocol env ctx.opInfo.opData.functionSelector ctx.opInfo.opData.params =
        .ok ctx.targetId ∧
      ctx.targetProtocolInfo = (l.protocols ctx.targetId).getD ProtocolInfo.default ∧
      accounts[1]? = some ctx.callAuthority ∧ ctx.callAuthority.isSigner = true := by
  unfold ReceivePhotonMsg.tryAccounts at hctx
  split at hctx
  · simp only [Except.bind_eq_ok, Except.require_eq_ok, Except.pure_eq_ok, Env.loadOp_eq_ok,
      Env.loadProtocol_eq_ok, Env.checkSigner, Env.initConfig, Env.initProtocol] at hctx
    obtain ⟨-, -, -, hsig, op, ⟨-, hop⟩, gov, -, -, -, c, ⟨-, -, -, -, rfl⟩, t, ht, p,
      ⟨-, -, -, -, rfl⟩, -, -, -, -, -, hst, rfl⟩ := hctx
    exact ⟨⟨hop, hst⟩, rfl, ht, rfl, rfl, hsig⟩
  · simp at hctx

theorem SetAdmin.of_tryAccounts {ctx : SetAdmin}
    (hctx : SetAdmin.tryAccounts env l accounts = .ok ctx) :
    l.config = some ctx.config ∧ ctx.deployer.key = env.feature.deployer ∧
      ctx.deployer.isSigner = true ∧
      accounts[1]?.map AccountInfo.key = some (env.pda .config) := by
  unfold SetAdmin.tryAccounts at hctx
  split at hctx
  · simp only [Except.bind_eq_ok, Except.require_eq_ok, Except.pure_eq_ok, Except.orFail_eq_ok,
      Env.checkSigner, Env.loadConfig, Env.checkSeeds_eq_ok] at hctx
    obtain ⟨-, hsig, c, ⟨-, ⟨-, hk⟩, hc⟩, -, hdep, -, -, rfl⟩ := hctx
    exact ⟨hc, hdep, hsig, congrArg some hk⟩
  · simp at hctx

/-! ## Loading -/

theorem loadOperation_ok {o : OperationData}
    (hok : loadOperation env l accounts o h = .ok (l', out)) :
    l.ops h = none ∧ o.opHashWithMessage env = .ok h ∧ o.Loadable env.feature ∧
      l' = l.setOp h { OpInfo.default with opData := o, status := .init } ∧
      ∃ executor, out = [.emit (.proposalLoaded h executor)] := by
  simp only [loadOperation, Except.bind_eq_ok, Except.require_eq_ok, Except.pure_eq_ok,
    Prod.mk.injEq] at hok
  obtain ⟨ctx, hctx, h', hhash, -, rfl, -, hdest, -, -, -, ⟨hzero, hlen⟩, rfl, rfl⟩ := hok
  obtain ⟨hfresh, hdef, -⟩ := LoadOperation.of_tryAccounts hctx
  have hsel : o.functionSelector ≠ .dummy := OperationData.selector_of_hash hhash
  exact ⟨hfresh, hhash, ⟨hdest, hlen, hzero, hsel⟩, by rw [hdef], _, rfl⟩

/-! ## Signing -/

/-- The stored operation, with the status and the signers that `sign_operation` leaves. -/
def OpInfo.signedBy (op : OpInfo) (reached : Bool) (array : Fixed EthAddress 16) : OpInfo :=
  { op with status := if reached then .signed else op.status, uniqueSigners := array }

/-- What the recording branch of `sign_operation` puts out. -/
def signEffects (opHash : Bytes) (executor : Pubkey) (reached : Bool) : List Effect :=
  if reached then [.emit (.proposalApproved opHash executor), .returned true]
  else [.returned false]

/-- The recording branch of `sign_operation` : the rate `p` asks for is not met by the stored
signers of `op`, and the loop leaves `signers`, written to `array`. -/
structure Signs (env : Env) (l : Ledger) (h : Bytes) (sigs : List TransmitterSignature)
    (op : OpInfo) (p : ProtocolInfo) (signers : List EthAddress) (reached : Bool)
    (array : Fixed EthAddress 16) : Prop where
  stored : l.ops h = some op
  status : op.status = .init ∨ op.status = .signed
  protocol : l.protocols op.opData.protocolId = some p
  length_pos : 0 < p.transmitters.length
  rate_lt : consensusRate op.signers.length p.transmitters.length < p.consensusTargetRate.toNat
  loop : signLoop env h p.transmitters p.consensusTargetRate op.signers sigs =
    .ok (signers, reached)
  written : Slots.fill EthAddress.default signers = some array

theorem signOperation_cases {sigs : List TransmitterSignature}
    (hok : signOperation env l accounts h sigs = .ok (l', out)) :
    (∃ op p, l.ops h = some op ∧ (op.status = .init ∨ op.status = .signed) ∧
        l.protocols op.opData.protocolId = some p ∧ 0 < p.transmitters.length ∧
        p.consensusTargetRate.toNat ≤ consensusRate op.signers.length p.transmitters.length ∧
        l' = l ∧ out = [.returned true]) ∨
      ∃ op p signers reached array executor, Signs env l h sigs op p signers reached array ∧
        l' = l.setOp h (op.signedBy reached array) ∧ out = signEffects h executor reached := by
  simp only [signOperation, Except.bind_eq_ok, Except.require_eq_ok] at hok
  obtain ⟨ctx, hctx, -, hlen, hok⟩ := hok
  obtain ⟨hop, hst, hp, -⟩ := SignOperation.of_tryAccounts hctx
  split_ifs at hok with hr
  · simp only [Except.pure_eq_ok, Prod.mk.injEq] at hok
    exact .inl ⟨_, _, hop, hst, hp, hlen, hr, hok.1.symm, hok.2.symm⟩
  · simp only [Except.bind_eq_ok, Except.orFail_eq_ok, Except.pure_eq_ok, Prod.exists,
      Prod.mk.injEq] at hok
    obtain ⟨signers, reached, hloop, array, hfill, rfl, rfl⟩ := hok
    exact .inr ⟨_, _, signers, reached, array, _,
      ⟨hop, hst, hp, hlen, not_le.1 hr, hloop, hfill⟩, rfl, rfl⟩

/-! ## Governance -/

/-- The handlers only announce proposals. -/
theorem propose_of_mem_handleGovOperation {c c' : Config} {p p' : ProtocolInfo} {code : Bytes}
    {op : OperationData} {effects : List Effect}
    (hok : handleGovOperation env c p code op = .ok (c', p', effects)) :
    ∀ e ∈ effects, ∃ ev, e = .emit (.propose ev) := by
  simp only [handleGovOperation, Except.bind_eq_ok] at hok
  obtain ⟨-, -, g, -, hok⟩ := hok
  cases g with
  | addAllowedProtocol =>
    simp only [addAllowedProtocol, proposeHandleAddAllowedProtocol, Except.bind_eq_ok,
      Except.pure_eq_ok, Prod.mk.injEq, Prod.exists] at hok
    obtain ⟨_, -, _, -, _, -, _, -, _, -, _, -, _, -, _, -, _, -, _, _,
      ⟨_, -, _, -, _, -, -, rfl⟩, -, -, rfl⟩ := hok
    intro e he
    exact ⟨_, List.mem_singleton.1 he⟩
  | _ =>
    simp only [Except.bind_eq_ok, Except.pure_eq_ok, Prod.mk.injEq] at hok
    obtain ⟨_, -, -, -, rfl⟩ := hok
    simp

/-- The handler for `code` succeeded on the stored operation `op`, whose target is the
protocol `id`, and gave the configuration `c` and the protocol `q`. -/
structure Governed (env : Env) (l : Ledger) (op : OpInfo) (code id : Bytes) (c : Config)
    (q : ProtocolInfo) (effects : List Effect) : Prop where
  signed : op.status = .signed
  protocolId : op.opData.protocolId = govProtocolId
  protocolAddr : op.opData.protocolAddr = photonId
  target : targetProtocol env op.opData.functionSelector op.opData.params = .ok id
  handled : handleGovOperation env (l.config.getD Config.default)
    ((l.protocols id).getD ProtocolInfo.default) code op.opData = .ok (c, q, effects)

theorem receivePhotonMsg_cases {code params : Bytes}
    (hok : receivePhotonMsg env l accounts h code params = .ok (l', out)) :
    ∃ op id c q effects, l.ops h = some op ∧ Governed env l op code id c q effects ∧
      l' = (l.setConfig c).setProtocol id q ∧ out = effects ++ [.governed h code] ∧
      ∃ a, accounts[1]? = some a ∧ a.isSigner = true := by
  simp only [receivePhotonMsg, Except.bind_eq_ok, Except.require_eq_ok, Except.pure_eq_ok,
    Prod.exists, Prod.mk.injEq] at hok
  obtain ⟨ctx, hctx, -, ⟨hid, haddr⟩, c, q, effects, hgov, rfl, rfl⟩ := hok
  obtain ⟨⟨hop, hst⟩, hc, ht, hp, hauth, hsig⟩ := ReceivePhotonMsg.of_tryAccounts hctx
  rw [hc, hp] at hgov
  exact ⟨_, _, c, q, effects, hop, ⟨hst, hid, haddr, ht, hgov⟩, rfl, rfl, _, hauth, hsig⟩

/-! ## Executing -/

/-- Every instruction but `receive_photon_msg` wants an account derived under another tag
than the call authority's in the second place. -/
theorem second_of_dispatch {invoke : Ledger → Instruction → Except Error (Ledger × List Effect)}
    {ix : Ix} {r : Ledger × List Effect} (hix : ∀ h c p, ix ≠ .receivePhotonMsg h c p)
    (hok : dispatch env invoke l accounts ix = .ok r) :
    ∃ s : Seeds, accounts[1]?.map AccountInfo.key = some (env.pda s) ∧
      s.tag ≠ (Seeds.callAuthority []).tag := by
  cases ix with
  | initializeProgram chain master rate transmitters executors =>
    simp only [dispatch, initializeProgram, Except.bind_eq_ok] at hok
    obtain ⟨ctx, hctx, -⟩ := hok
    obtain ⟨-, -, -, -, hk⟩ := Initialize.of_tryAccounts hctx
    exact ⟨_, hk, by decide⟩
  | loadOperation o c =>
    simp only [dispatch, loadOperation, Except.bind_eq_ok] at hok
    obtain ⟨ctx, hctx, -⟩ := hok
    obtain ⟨-, -, -, -, -, hk⟩ := LoadOperation.of_tryAccounts hctx
    exact ⟨_, hk, by simp only [Seeds.tag]; decide⟩
  | signOperation h sigs =>
    simp only [dispatch, signOperation, Except.bind_eq_ok] at hok
    obtain ⟨ctx, hctx, -⟩ := hok
    obtain ⟨-, -, -, -, -, hk⟩ := SignOperation.of_tryAccounts hctx
    exact ⟨_, hk, by simp only [Seeds.tag]; decide⟩
  | executeOperation h =>
    simp only [dispatch, executeOperation, Except.bind_eq_ok] at hok
    obtain ⟨ctx, hctx, -⟩ := hok
    obtain ⟨-, -, -, -, -, hk⟩ := ExecuteOperation.of_tryAccounts hctx
    exact ⟨_, hk, by simp only [Seeds.tag]; decide⟩
  | propose id dst addr selector params =>
    simp only [dispatch, propose, Except.bind_eq_ok] at hok
    obtain ⟨ctx, hctx, -⟩ := hok
    obtain ⟨-, -, -, -, hk⟩ := Propose.of_tryAccounts hctx
    exact ⟨_, hk, by decide⟩
  | receivePhotonMsg h c p => exact absurd rfl (hix h c p)
  | setAdmin admin =>
    simp only [dispatch, setAdmin, Except.bind_eq_ok] at hok
    obtain ⟨ctx, hctx, -⟩ := hok
    obtain ⟨-, -, -, hk⟩ := SetAdmin.of_tryAccounts hctx
    exact ⟨_, hk, by decide⟩

/-- The accounts passed on come from the caller, except for the call authority. -/
theorem ExecuteOperation.mem_metas {ctx : ExecuteOperation} {first a : AccountInfo}
    (hctx : ExecuteOperation.tryAccounts env l h accounts = .ok ctx)
    (hfirst : ctx.remaining.head? = some first) (ha : a ∈ ctx.metas first) :
    a.key = env.pda (.callAuthority ctx.opInfo.opData.protocolId) ∨ a ∈ accounts := by
  obtain ⟨-, -, -, hauth, ⟨hexec, hop, hrem⟩, -⟩ := ExecuteOperation.of_tryAccounts hctx
  have hmem := List.mem_of_mem_filter ha
  simp only [List.mem_cons] at hmem
  rcases hmem with rfl | rfl | rfl | rfl | hmem
  · exact .inr (hrem _ (List.mem_of_mem_head? hfirst))
  · exact .inr hexec
  · exact .inl hauth
  · exact .inr hop
  · exact .inr (hrem _ (List.mem_of_mem_tail hmem))

/-- In a call of the endpoint by itself the call authority is the second account. -/
theorem ExecuteOperation.metas_second {ctx : ExecuteOperation} {first : AccountInfo}
    {i : Invocation env} (hctx : ExecuteOperation.tryAccounts env l h i.accounts = .ok ctx)
    (hfirst : first.key = photonId) (hself : ctx.opInfo.opData.protocolAddr = photonId) :
    (ctx.metas first)[1]?.map AccountInfo.key =
      some (env.pda (.callAuthority ctx.opInfo.opData.protocolId)) := by
  obtain ⟨-, -, ⟨-, -, hmut⟩, hauth, ⟨hmem, -, -⟩, -⟩ := ExecuteOperation.of_tryAccounts hctx
  have hexec : ctx.executor.key ≠ photonId := i.program_not_writable _ hmem hmut
  have hne : env.pda (.callAuthority ctx.opInfo.opData.protocolId) ≠ photonId :=
    env.address_ne_id _
  simp [ExecuteOperation.metas, hself, hfirst, hexec, hauth, hne]

theorem dispatch_of_process {answer : Instruction → Bool} {depth : ℕ} {ix : Ix}
    {r : Ledger × List Effect} (hok : process env answer depth l accounts ix = .ok r) :
    ∃ invoke, dispatch env invoke l accounts ix = .ok r := by
  cases depth with
  | zero => exact ⟨_, hok⟩
  | succ depth => exact ⟨_, hok⟩

/-- A call of the endpoint by itself that succeeds is a `receive_photon_msg`. -/
theorem nested_receive {answer : Instruction → Bool} {depth : ℕ} {id : Bytes} {ix : Ix}
    {r : Ledger × List Effect}
    (hsecond : accounts[1]?.map AccountInfo.key = some (env.pda (.callAuthority id)))
    (hok : process env answer depth l accounts ix = .ok r) :
    ∃ h code params, ix = .receivePhotonMsg h code params ∧
      receivePhotonMsg env l accounts h code params = .ok r := by
  obtain ⟨invoke, hok⟩ := dispatch_of_process hok
  by_cases hix : ∃ h c p, ix = .receivePhotonMsg h c p
  · obtain ⟨h, c, p, rfl⟩ := hix
    exact ⟨h, c, p, rfl, hok⟩
  · push Not at hix
    obtain ⟨s, hs, htag⟩ := second_of_dispatch hix hok
    rw [hsecond, Option.some_inj] at hs
    exact absurd hs (Env.pda_ne_of_tag (Ne.symm htag))

/-- The call that `execute_operation` makes for `op`, stored under `h`, on behalf of
`executor`. -/
structure Call (i : Invocation env) (l : Ledger) (h : Bytes) (op : OpInfo) (p : ProtocolInfo)
    (executor : AccountInfo) (ix : Instruction) : Prop where
  signed : op.status = .signed
  protocol : l.protocols op.opData.protocolId = some p
  allowed : executor.key ∈ p.executorsArray.val
  mem_accounts : executor ∈ i.accounts
  isSigner : executor.isSigner = true
  program : ix.programId = op.opData.protocolAddr
  data : callData env h op.opData.functionSelector op.opData.params = .ok ix.data
  accounts : ∀ a ∈ ix.accounts,
    a.key = env.pda (.callAuthority op.opData.protocolId) ∨ a ∈ i.accounts

/-- The call of another program leaves the ledger. A call of the endpoint by itself is a
`receive_photon_msg` with the stored code. -/
theorem executeOperation_cases {i : Invocation env} (hix : i.ix = .executeOperation h)
    (hok : (endpoint env).step l i = .ok (l', out)) :
    ∃ op p executor ix l₁ nested, l.ops h = some op ∧ Call i l h op p executor ix ∧
      ((op.opData.protocolAddr ≠ photonId ∧ l₁ = l ∧ nested = []) ∨
        (op.opData.protocolAddr = photonId ∧ ∃ code,
          op.opData.functionSelector = .byCode code ∧
          Ix.decode env ix.data = .ok (.receivePhotonMsg h code op.opData.params) ∧
          receivePhotonMsg env l ix.accounts h code op.opData.params = .ok (l₁, nested))) ∧
      l' = l₁.setOp h { op with status := .executed } ∧
      out = .invoke ix (.callAuthority op.opData.protocolId) :: nested ++
        [.emit (.proposalExecuted h executor.key)] := by
  simp only [endpoint, hix] at hok
  cases hdepth : i.depth with
  | zero =>
    simp only [hdepth, process, dispatch, executeOperation, Except.bind_eq_ok, reduceCtorEq,
      false_and, and_false, exists_false] at hok
  | succ depth =>
    simp only [hdepth, process, dispatch, executeOperation, Except.bind_eq_ok,
      Except.orFail_eq_ok, Option.filter_eq_some_iff, decide_eq_true_eq, Prod.exists,
      Except.pure_eq_ok, Prod.mk.injEq] at hok
    obtain ⟨ctx, hctx, first, ⟨hhead, hfirst⟩, data, hdata, l₁, nested, hcall, rfl, rfl⟩ := hok
    obtain ⟨⟨hop, hst⟩, hp, ⟨hexec, hsig, -⟩, -, ⟨hmem, -, -⟩, -⟩ :=
      ExecuteOperation.of_tryAccounts hctx
    refine ⟨_, _, ctx.executor, _, l₁, nested, hop, ⟨hst, hp, hexec, hmem, hsig, rfl, hdata,
      fun a ha => ExecuteOperation.mem_metas hctx hhead ha⟩, ?_, rfl, rfl⟩
    unfold cpi at hcall
    split_ifs at hcall with hself
    · simp only [Except.bind_eq_ok] at hcall
      obtain ⟨ix, hdec, hcall⟩ := hcall
      have hsecond := ExecuteOperation.metas_second hctx (hfirst.trans hself) hself
      obtain ⟨h', code, params, rfl, hrec⟩ := nested_receive hsecond hcall
      obtain ⟨hsel, rfl, rfl⟩ := receivePhotonMsg_of_callData hdata hdec
      exact .inr ⟨hself, code, hsel, hdec, hrec⟩
    · simp only [Except.bind_eq_ok, Except.pure_eq_ok, Prod.mk.injEq] at hcall
      obtain ⟨-, -, rfl, rfl⟩ := hcall
      exact .inl ⟨hself, rfl, rfl⟩

/-! ## All instructions -/

/-- What a successful call from outside does. -/
inductive Step (l : Ledger) (i : Invocation env) : Ledger → List Effect → Prop
  | setUp {chain master rate transmitters executors} (c : Config) (p : ProtocolInfo)
      (hix : i.ix = .initializeProgram chain master rate transmitters executors) :
      Step l i ((l.setConfig c).setProtocol govProtocolId p) []
  | load {o h} (executor : Pubkey) (hix : i.ix = .loadOperation o h) (fresh : l.ops h = none)
      (hash : o.opHashWithMessage env = .ok h) (loadable : o.Loadable env.feature) :
      Step l i (l.setOp h { OpInfo.default with opData := o, status := .init })
        [.emit (.proposalLoaded h executor)]
  /-- The stored signers reach the rate already. -/
  | answer {h sigs op p} (hix : i.ix = .signOperation h sigs) (hop : l.ops h = some op)
      (hst : op.status = .init ∨ op.status = .signed)
      (hp : l.protocols op.opData.protocolId = some p) (hlen : 0 < p.transmitters.length)
      (hrate : p.consensusTargetRate.toNat ≤
        consensusRate op.signers.length p.transmitters.length) :
      Step l i l [.returned true]
  | sign {h sigs op p signers reached array} (executor : Pubkey)
      (hix : i.ix = .signOperation h sigs) (signs : Signs env l h sigs op p signers reached array) :
      Step l i (l.setOp h (op.signedBy reached array)) (signEffects h executor reached)
  | execute {h op p executor ix} (hix : i.ix = .executeOperation h) (hop : l.ops h = some op)
      (call : Call i l h op p executor ix) (hother : op.opData.protocolAddr ≠ photonId) :
      Step l i (l.setOp h { op with status := .executed })
        [.invoke ix (.callAuthority op.opData.protocolId),
          .emit (.proposalExecuted h executor.key)]
  /-- The operation is one of governance : its code is handled within the call. -/
  | executeGov {h op p executor ix code id c q effects} (hix : i.ix = .executeOperation h)
      (hop : l.ops h = some op) (call : Call i l h op p executor ix)
      (hsel : op.opData.functionSelector = .byCode code)
      (gov : Governed env l op code id c q effects) :
      Step l i (((l.setConfig c).setProtocol id q).setOp h { op with status := .executed })
        (.invoke ix (.callAuthority op.opData.protocolId) :: (effects ++ [.governed h code]) ++
          [.emit (.proposalExecuted h executor.key)])
  | propose {id dst addr selector params} (c : Config) (ev : ProposeEvent)
      (hix : i.ix = .propose id dst addr selector params) :
      Step l i (l.setConfig c) [.emit (.propose ev)]
  /-- The handler is called from outside. Some account has signed as the call authority. -/
  | receive {h op code params id c q effects} (hix : i.ix = .receivePhotonMsg h code params)
      (hop : l.ops h = some op) (gov : Governed env l op code id c q effects)
      (authority : ∃ a, i.accounts[1]? = some a ∧ a.isSigner = true) :
      Step l i ((l.setConfig c).setProtocol id q) (effects ++ [.governed h code])
  | setAdmin {admin} (c : Config) (hix : i.ix = .setAdmin admin) : Step l i (l.setConfig c) []

theorem step_cases {i : Invocation env} (hok : (endpoint env).step l i = .ok (l', out)) :
    Step l i l' out := by
  obtain ⟨invoke, hdis⟩ := dispatch_of_process hok
  cases hix : i.ix with
  | initializeProgram chain master rate transmitters executors =>
    simp only [hix, dispatch, initializeProgram, Except.bind_eq_ok, Except.pure_eq_ok,
      Prod.mk.injEq] at hdis
    obtain ⟨_, -, _, -, _, -, _, -, rfl, rfl⟩ := hdis
    exact .setUp _ _ hix
  | loadOperation o h =>
    simp only [hix, dispatch] at hdis
    obtain ⟨fresh, hash, loadable, rfl, executor, rfl⟩ := loadOperation_ok hdis
    exact .load executor hix fresh hash loadable
  | signOperation h sigs =>
    simp only [hix, dispatch] at hdis
    obtain ⟨op, p, hop, hst, hp, hlen, hrate, rfl, rfl⟩ | ⟨op, p, signers, reached, array,
      executor, signs, rfl, rfl⟩ := signOperation_cases hdis
    · exact .answer hix hop hst hp hlen hrate
    · exact .sign executor hix signs
  | executeOperation h =>
    obtain ⟨op, p, executor, ix, l₁, nested, hop, call, ⟨hother, rfl, rfl⟩ | ⟨-, code, hsel,
      -, hrec⟩, rfl, rfl⟩ := executeOperation_cases hix hok
    · exact .execute hix hop call hother
    · obtain ⟨op', id, c, q, effects, hop', gov, rfl, rfl, -⟩ := receivePhotonMsg_cases hrec
      obtain rfl := Option.some_inj.1 (hop.symm.trans hop')
      exact .executeGov hix hop call hsel gov
  | propose id dst addr selector params =>
    simp only [hix, dispatch, propose, Except.bind_eq_ok, Except.pure_eq_ok,
      Prod.mk.injEq] at hdis
    obtain ⟨_, -, _, -, _, -, rfl, rfl⟩ := hdis
    exact .propose _ _ hix
  | receivePhotonMsg h code params =>
    simp only [hix, dispatch] at hdis
    obtain ⟨op, id, c, q, effects, hop, gov, rfl, rfl, authority⟩ := receivePhotonMsg_cases hdis
    exact .receive hix hop gov authority
  | setAdmin admin =>
    simp only [hix, dispatch, setAdmin, Except.bind_eq_ok, Except.pure_eq_ok,
      Prod.mk.injEq] at hdis
    obtain ⟨_, -, rfl, rfl⟩ := hdis
    exact .setAdmin _ hix

end Photon
