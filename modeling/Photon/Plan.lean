import Photon.Frame
import Photon.GovExtension
import Photon.OperationManager
import Photon.Registry
import Photon.Signing

/-!
# The executor's plan on chain

The executor reads how far an operation has got and builds the instructions that are missing
(`buildIxs`). This module runs them on the endpoint. The bytes of each are read as the instruction
that was meant (`Submits`), the addresses derived on both sides are the same, and every check of
the three instructions is met by what is assumed of the operation (`Plan`).

Between the load and the plan others may have sent signatures. As long as the protocol has not
changed since, an operation that is still in its first stage has fewer signers than the rate asks
for (`Waiting`), so the next signatures that reach it also sign the operation.

`plan_completes` : the plan ends with the operation executed after one call of its protocol, if
that call succeeds. The protocol whose id is all zeros is an exception. It can be registered, and
`load_operation` refuses its operations.
-/

namespace Photon

open Machine

variable {env : Env} {l l' : Ledger} {i : Invocation env} {out : List Effect} {h : OpHash}
  {executor : Pubkey}

/-! ## The loop of signatures -/

section SignLoop

variable {h : Bytes} {allowed signers signers' : List EthAddress} {rate : UInt64}
  {sigs : List TransmitterSignature}

variable (env h) in
/-- The transmitters among the signers of a list of signatures. -/
def signedTransmitters (allowed : List EthAddress) (sigs : List TransmitterSignature) :
    List EthAddress :=
  ((recoveredSigners env h sigs).filter (· ∈ allowed)).dedup

/-- With enough transmitters among the signers the loop reaches the rate, whatever was recorded
before, and with no more signers than are needed. -/
theorem signLoop_reaches {k : ℕ} (hrec : ∀ sig ∈ sigs, ∃ t, ecrecover env h sig = .ok t)
    (henough : rate.toNat ≤
      consensusRate (signedTransmitters env h allowed sigs).length allowed.length)
    (hk : rate.toNat ≤ consensusRate k allowed.length)
    (hlt : consensusRate signers.length allowed.length < rate.toNat) :
    ∃ signers', signLoop env h allowed rate signers sigs = .ok (signers', true) ∧
      signers'.length ≤ k := by
  obtain ⟨signers', reached, hloop, -⟩ := signLoop_tally hrec allowed rate signers
  cases reached with
  | false =>
    obtain ⟨hmem, -, hless⟩ := signLoop_not_reached hlt hloop
    have hsub : signedTransmitters env h allowed sigs ⊆ signers' := by
      intro a ha
      simp only [signedTransmitters, List.mem_dedup, List.mem_filter, decide_eq_true_eq] at ha
      exact hmem a ha.1 ha.2
    have hlen := ((List.nodup_dedup _).subperm hsub).length_le
    exact absurd ((henough.trans (consensusRate_le hlen)).trans_lt hless) (lt_irrefl _)
  | true =>
    obtain ⟨added, rfl, hadd⟩ := signLoop_ok hloop
    obtain ⟨hne, -, hlast⟩ := hadd.reaches rfl
    refine ⟨_, hloop, ?_⟩
    by_contra hmore
    have hle : k ≤ (signers ++ added).length - 1 := by omega
    exact absurd ((hk.trans (consensusRate_le hle)).trans_lt (hlast hlt)) (lt_irrefl _)

end SignLoop

/-! ## Operations that wait -/

/-- The call is read off instruction data, as every call is. -/
def Invocation.Wire (i : Invocation env) : Prop :=
  ∃ data, Ix.decode env data = .ok i.ix

/-- The operation names the program of its protocol `p`, and in its first stage its signers do not
reach the rate. -/
structure OpInfo.Pending (p : ProtocolInfo) (op : OpInfo) : Prop where
  address : p.protocolAddress = op.opData.protocolAddr
  rate_lt : op.status = .init → 1 ≤ p.consensusTargetRate.toNat →
    consensusRate op.signers.length p.transmitters.length < p.consensusTargetRate.toNat

/-- What waits under `h` for the protocol `id`. -/
def Waiting (h id : Bytes) (l : Ledger) : Prop :=
  ∀ op p, l.ops h = some op → op.status ≠ .executed → op.opData.protocolId = id →
    l.protocols id = some p → op.Pending p

theorem OpInfo.pending_loaded {p : ProtocolInfo} {o : OperationData}
    (haddr : p.protocolAddress = o.protocolAddr) :
    ({ OpInfo.default with opData := o, status := .init } : OpInfo).Pending p := by
  refine ⟨haddr, fun _ hrate => ?_⟩
  have hnone : ({ OpInfo.default with opData := o, status := .init } : OpInfo).signers = [] :=
    Slots.occupied_replicate _
  have hzero : consensusRate 0 p.transmitters.length = 0 := by simp [consensusRate]
  rw [hnone, List.length_nil, hzero]
  exact hrate

theorem Signs.pending {h : Bytes} {sigs : List TransmitterSignature} {op : OpInfo}
    {p : ProtocolInfo} {signers : List EthAddress} {reached : Bool} {array : Fixed EthAddress 16}
    (signs : Signs env l h sigs op p signers reached array) (hop : op.Pending p) :
    (op.signedBy reached array).Pending p := by
  refine ⟨hop.address, fun hinit _ => ?_⟩
  cases reached with
  | true => simp [OpInfo.signedBy] at hinit
  | false =>
    rw [signs.signers_signedBy]
    exact (signLoop_not_reached signs.rate_lt signs.loop).2.2

/-- A step that leaves the protocol of a stored operation alone keeps it waiting. -/
theorem step_waiting {h id : Bytes} (hok : (endpoint env).step l i = .ok (l', out))
    (hsame : l.ops h ≠ none → l'.protocols id = l.protocols id) (hl : Waiting h id l) :
    Waiting h id l' := by
  intro op' p hop' hst' hid hp
  rcases (step_cases hok).ops_cases h with heq | ⟨o, hnone, -, -, hload⟩ |
    ⟨sigs, op, p₁, signers, reached, array, -, signs, hsign⟩ | ⟨op, -, -, hexec⟩
  · rw [heq] at hop'
    rw [hsame (by simp [hop'])] at hp
    exact hl op' p hop' hst' hid hp
  · rcases pending_of_step hok hop' hst' with ⟨_, hop, -⟩ | hix
    · simp [hnone] at hop
    · obtain ⟨invoke, hdis⟩ := dispatch_of_process hok
      rw [hix, dispatch] at hdis
      obtain rfl := Option.some_inj.1 (hop'.symm.trans hload)
      obtain ⟨p₀, hp₀, haddr⟩ := loadOperation_address hdis
      obtain ⟨-, -, -, rfl, -⟩ := loadOperation_ok hdis
      subst hid
      obtain rfl := Option.some_inj.1 (hp₀.symm.trans hp)
      exact OpInfo.pending_loaded haddr
  · obtain rfl := Option.some_inj.1 (hop'.symm.trans hsign)
    rw [hsame (by simp [signs.stored])] at hp
    have hid₁ : op.opData.protocolId = id := hid
    obtain rfl := Option.some_inj.1 (hp.symm.trans (hid₁ ▸ signs.protocol))
    refine signs.pending (hl op p signs.stored ?_ hid₁ hp)
    rcases signs.status with hst | hst <;> simp [hst]
  · obtain rfl := Option.some_inj.1 (hop'.symm.trans hexec)
    simp at hst'

theorem waiting_of_run {history : List (Record Ledger (Invocation env) Effect)} {h id : Bytes}
    (hr : (endpoint env).Run Ledger.genesis history l)
    (hsame : ∀ r ∈ history, r.before.ops h ≠ none →
      r.after.protocols id = r.before.protocols id) : Waiting h id l := by
  induction hr with
  | nil => simp [Waiting, Ledger.genesis]
  | @snoc history l i l' out _ hok ih =>
    have hl := ih fun r hr => hsame r (List.mem_append_left _ hr)
    exact step_waiting hok (hsame ⟨l, i, out, l'⟩ (by simp)) hl

/-- What is stored was read off instruction data, so it can be written again. -/
theorem encode_of_run {history : List (Record Ledger (Invocation env) Effect)} {h : Bytes}
    {op : OpInfo} (hr : (endpoint env).Run Ledger.genesis history l)
    (hwire : ∀ r ∈ history, r.input.Wire) (hop : l.ops h = some op) :
    ∃ b, OperationData.codec.encode op.opData = some b := by
  obtain ⟨r, hmem, hloads⟩ := loaded_of_run hr hop
  obtain ⟨data, hdata⟩ := hwire r hmem
  cases hix : r.input.ix with
  | loadOperation o c =>
    obtain rfl : o = op.opData := by simpa [hix, Ix.loads] using hloads
    rw [hix] at hdata
    obtain ⟨rest, hread⟩ := args_of_loadOperation hdata
    obtain ⟨r, hop, -⟩ := Borsh.Codec.decode_pair.1 hread
    exact OperationData.total_codec _ _ _ hop
  | _ => simp [hix, Ix.loads] at hloads

/-! ## The instructions -/

/-- A call of another program. -/
def Effect.isInvoke : Effect → Bool
  | .invoke _ _ => true
  | _ => false

/-- The call `i` submits the instruction of `b`, as Anchor reads it. -/
structure Submits (b : InstructionBundle) (i : Invocation env) : Prop where
  accounts : i.accounts = b.instruction.accounts
  ix : Ix.decode env b.instruction.data = .ok i.ix

theorem step_loadOperation {o : OperationData} {c : Bytes} (hix : i.ix = .loadOperation o c) :
    (endpoint env).step l i = loadOperation env l i.accounts o c := by
  simp only [endpoint, hix]
  cases i.depth <;> rfl

theorem step_signOperation {sigs : List TransmitterSignature} {c : Bytes}
    (hix : i.ix = .signOperation c sigs) :
    (endpoint env).step l i = signOperation env l i.accounts c sigs := by
  simp only [endpoint, hix]
  cases i.depth <;> rfl

theorem MessageData.protocolId_of_tryFrom {d : MessageData} {o : OperationData}
    (hconv : d.tryFrom = .ok o) : o.protocolId = d.protocolId.val := by
  simp only [MessageData.tryFrom, Except.bind_eq_ok, Except.pure_eq_ok] at hconv
  obtain ⟨_, -, _, -, rfl⟩ := hconv
  rfl

section Stages

variable {o : OperationData} {op : OpInfo} {p : ProtocolInfo} {d : MessageData}

/-- The `load_operation` that the executor builds stores the operation. -/
theorem load_stage {b : Instruction} {units : UInt32} (hm : env.DistinctMethods)
    (hbuild : buildLoadIx env executor h.val d = .ok b) (submits : Submits ⟨b, units⟩ i)
    (hconv : d.tryFrom = .ok o) (hash : o.opHashWithMessage env = .ok h.val)
    (hchain : o.destChainId = env.feature.solanaChainId) (hlen : o.protocolId.length = 32)
    (hzero : o.protocolId ≠ List.replicate 32 0) (hfresh : l.ops h.val = none) {conf : Config}
    (hconf : l.config = some conf) (hp : l.protocols o.protocolId = some p)
    (haddr : p.protocolAddress = o.protocolAddr) (hallowed : executor ∈ p.executorsArray.val) :
    (endpoint env).step l i =
      .ok (l.setOp h.val { OpInfo.default with opData := o, status := .init },
        [.emit (.proposalLoaded h.val executor)]) := by
  simp only [buildLoadIx, Except.bind_eq_ok, Except.orFail_eq_ok, Except.mapError_eq_ok,
    Except.pure_eq_ok] at hbuild
  obtain ⟨_, -, o', ho', args, hargs, rfl⟩ := hbuild
  obtain rfl := Except.ok.inj (hconv.symm.trans ho')
  have hix := submits.ix
  rw [decode_loadOperation hm hargs, Except.ok.injEq] at hix
  rw [step_loadOperation hix.symm, submits.accounts]
  have hid := (MessageData.protocolId_of_tryFrom hconv).symm
  have haccounts : LoadOperation.tryAccounts env l o h.val
      [⟨executor, true, true⟩, ⟨env.pda (.protocol d.protocolId.val), false, false⟩,
        ⟨env.pda (.op h.val), false, true⟩, ⟨env.pda .config, false, true⟩,
        ⟨Pubkey.default, false, false⟩] =
      .ok ⟨⟨executor, true, true⟩, p, OpInfo.default⟩ := by
    simp only [LoadOperation.tryAccounts, Except.bind_eq_ok, Except.require_eq_ok,
      Except.orFail_eq_ok, Except.pure_eq_ok, Env.checkSigner, Env.checkMut,
      Env.checkSystemProgram, Env.loadProtocol_eq_ok, Env.loadConfig, Env.checkSeeds_eq_ok,
      exists_const, hid, and_true, true_and]
    exact ⟨p, ⟨Seeds.length_parts_protocol hlen, hp⟩, conf, ⟨Seeds.length_parts_config, hconf⟩,
      Seeds.length_parts_op h.property, hfresh, rfl, hallowed, rfl⟩
  simp only [loadOperation, Except.bind_eq_ok, Except.require_eq_ok, Except.pure_eq_ok]
  exact ⟨_, haccounts, _, hash, (), rfl, (), hchain, (), haddr, (), ⟨hzero, hlen⟩, rfl⟩

/-- The `sign_operation` that the executor builds signs an operation in its first stage. -/
theorem sign_stage {b : InstructionBundle} {signed : SignedOperation} (hm : env.DistinctMethods)
    (hbuild : buildSignTx env executor h.val signed = .ok b) (submits : Submits b i)
    (hop : l.ops h.val = some op) (hst : op.status = .init)
    (hid : op.opData.protocolId = signed.operationData.protocolId.val)
    (hp : l.protocols op.opData.protocolId = some p)
    (hallowed : executor ∈ p.executorsArray.val) (hpending : op.Pending p)
    (hrate : 1 ≤ p.consensusTargetRate.toNat)
    (hrec : ∀ sig ∈ signed.signatures, ∃ t, ecrecover env h.val sig = .ok t)
    (henough : p.consensusTargetRate.toNat ≤ consensusRate
      (signedTransmitters env h.val p.transmitters signed.signatures).length p.transmitters.length)
    (hfew : p.consensusTargetRate.toNat ≤ consensusRate 16 p.transmitters.length) :
    ∃ array, (endpoint env).step l i =
      .ok (l.setOp h.val (op.signedBy true array), signEffects h.val executor true) := by
  simp only [buildSignTx, Except.bind_eq_ok, Except.orFail_eq_ok, Except.pure_eq_ok] at hbuild
  obtain ⟨args, hargs, rfl⟩ := hbuild
  have hix := submits.ix
  rw [decode_signOperation hm hargs, Except.ok.injEq] at hix
  rw [step_signOperation hix.symm, submits.accounts]
  have hlen : op.opData.protocolId.length = 32 := by
    rw [hid]
    exact signed.operationData.protocolId.property
  have haccounts : SignOperation.tryAccounts env l h.val
      [⟨executor, true, true⟩, ⟨env.pda (.op h.val), false, true⟩,
        ⟨env.pda (.protocol signed.operationData.protocolId.val), false, false⟩] =
      .ok ⟨⟨executor, true, true⟩, op, p⟩ := by
    simp only [SignOperation.tryAccounts, Except.bind_eq_ok, Except.require_eq_ok,
      Except.pure_eq_ok, Env.checkSigner, Env.checkMut, Env.loadOp_eq_ok, Env.loadProtocol_eq_ok,
      exists_const, ← hid, and_true, true_and]
    exact ⟨op, ⟨Seeds.length_parts_op h.property, hop⟩, p,
      ⟨⟨Seeds.length_parts_protocol hlen, rfl⟩, hp⟩, hallowed, .inl hst, rfl⟩
  have hlt := hpending.rate_lt hst hrate
  obtain ⟨signers, hloop, hsixteen⟩ := signLoop_reaches hrec henough hfew hlt
  obtain ⟨array, hfill⟩ : ∃ array : Fixed EthAddress 16,
      Slots.fill EthAddress.default signers = some array := Slots.exists_fill hsixteen
  have hpos : 0 < p.transmitters.length := by
    by_contra hnone
    have hzero : consensusRate 16 p.transmitters.length = 0 := by
      rw [Nat.eq_zero_of_not_pos hnone]
      rfl
    omega
  refine ⟨array, ?_⟩
  simp only [signOperation, Except.bind_eq_ok, Except.require_eq_ok]
  refine ⟨_, haccounts, (), hpos, ?_⟩
  rw [if_neg (not_le.2 hlt)]
  simp only [Except.bind_eq_ok, Except.orFail_eq_ok, Except.pure_eq_ok, Prod.exists]
  exact ⟨signers, true, hloop, array, hfill, rfl⟩

/-- The call that `execute_operation` makes in the ledger `l` succeeds, within the runtime's
depth. -/
def CpiSucceeds (h : Bytes) (l : Ledger) (i : Invocation env) : Prop :=
  ∀ ctx first data, ExecuteOperation.tryAccounts env l h i.accounts = .ok ctx →
    ctx.remaining.head? = some first →
    callData env h ctx.opInfo.opData.functionSelector ctx.opInfo.opData.params = .ok data →
    ∃ depth r, i.depth = depth + 1 ∧ cpi env i.answer (process env i.answer depth) l
      ⟨ctx.opInfo.opData.protocolAddr, ctx.metas first, data⟩ = .ok r

/-- An execution that succeeds makes one call and marks the operation. -/
theorem executed_of_step {h : Bytes} (hix : i.ix = .executeOperation h)
    (hok : (endpoint env).step l i = .ok (l', out)) :
    l'.status h = .executed ∧ out.countP Effect.isInvoke = 1 := by
  obtain ⟨op, p, executor, ix, l₁, nested, hop, -, hcall, rfl, rfl⟩ :=
    executeOperation_cases hix hok
  have hnone : nested.countP Effect.isInvoke = 0 := by
    rcases hcall with ⟨-, -, rfl⟩ | ⟨-, code, -, -, hrec⟩
    · rfl
    · obtain ⟨_, _, _, _, effects, -, gov, -, rfl, -⟩ := receivePhotonMsg_cases hrec
      rw [List.countP_eq_zero]
      intro e he
      rcases List.mem_append.1 he with he | he
      · obtain ⟨ev, rfl⟩ := propose_of_mem_handleGovOperation gov.handled e he
        simp [Effect.isInvoke]
      · rw [List.mem_singleton.1 he]
        simp [Effect.isInvoke]
  refine ⟨by simp [Ledger.status], ?_⟩
  simp [List.countP_cons, List.countP_append, hnone, Effect.isInvoke]

/-- The `execute_operation` that the executor builds executes a signed operation, if the call it
makes succeeds. -/
theorem execute_stage {b : InstructionBundle} {mng : ExtensionManager} {written : Bytes}
    (hm : env.DistinctMethods) (hbuild : buildExecuteTx env executor h.val mng d = .ok b)
    (submits : Submits b i)
    (hfirst : ∀ extension accounts, mng.getExtension d.protocolId = some extension →
      extension.getAccounts (d.functionSelector.drop 2) d.params = .ok accounts →
      accounts.head?.map AccountInfo.key = some op.opData.protocolAddr)
    (hop : l.ops h.val = some op) (hst : op.status = .signed)
    (hid : op.opData.protocolId = d.protocolId.val)
    (hp : l.protocols op.opData.protocolId = some p)
    (hallowed : executor ∈ p.executorsArray.val)
    (hwritten : OperationData.codec.encode op.opData = some written)
    (hsel : op.opData.functionSelector ≠ .dummy) (hcpi : CpiSucceeds h.val l i) :
    ∃ l' out, (endpoint env).step l i = .ok (l', out) ∧ l'.status h.val = .executed ∧
      out.countP Effect.isInvoke = 1 := by
  simp only [buildExecuteTx, Except.bind_eq_ok, Except.orFail_eq_ok, Except.mapError_eq_ok,
    Except.require_eq_ok, Except.pure_eq_ok] at hbuild
  obtain ⟨extension, hext, -, -, accounts, haccounts, args, hargs, rfl⟩ := hbuild
  have hix := submits.ix
  rw [decode_executeOperation hm hargs, Except.ok.injEq] at hix
  obtain ⟨first, hhead, hkey⟩ := Option.map_eq_some_iff.1 (hfirst _ _ hext haccounts)
  have hlen : op.opData.protocolId.length = 32 := by
    rw [hid]
    exact d.protocolId.property
  have hctx : ExecuteOperation.tryAccounts env l h.val i.accounts =
      .ok ⟨⟨executor, true, true⟩, ⟨env.pda (.op h.val), false, true⟩, op, p,
        ⟨env.pda (.callAuthority d.protocolId.val), false, false⟩, accounts⟩ := by
    rw [submits.accounts]
    simp only [ExecuteOperation.tryAccounts, List.cons_append, List.nil_append,
      Except.bind_eq_ok, Except.require_eq_ok, Except.pure_eq_ok, Env.checkSigner, Env.checkMut,
      Env.loadOp_eq_ok, Env.loadProtocol_eq_ok, Env.checkSeeds_eq_ok, exists_const, ← hid,
      and_true, true_and]
    exact ⟨op, ⟨Seeds.length_parts_op h.property, hop⟩, p,
      ⟨⟨Seeds.length_parts_protocol hlen, rfl⟩, hp⟩, hallowed, hst,
      ⟨Seeds.length_parts_callAuthority hlen, rfl⟩, rfl⟩
  have hshort : h.val.length < 256 ^ 4 := by
    rw [h.property]
    decide
  obtain ⟨data, hdata⟩ := exists_callData env hshort hwritten hsel
  obtain ⟨depth, ⟨l₁, nested⟩, hdepth, hcall⟩ := hcpi _ first data hctx hhead hdata
  obtain ⟨l', out, hok⟩ : ∃ l' out, (endpoint env).step l i = .ok (l', out) := by
    simp only [endpoint, ← hix, hdepth, process, dispatch, executeOperation, Except.bind_eq_ok,
      Except.orFail_eq_ok, Option.filter_eq_some_iff, decide_eq_true_eq, Except.pure_eq_ok,
      Prod.exists]
    exact ⟨_, _, _, hctx, first, ⟨hhead, hkey⟩, data, hdata, l₁, nested, hcall, rfl⟩
  exact ⟨l', out, hok, executed_of_step hix.symm hok⟩

end Stages

/-! ## The plan -/

/-- What is assumed of the operation `signed` for the hash `h` and its plan `bundles`, in the ledger
after `txs`. `o` is the operation as the endpoint takes it, and `p` is its protocol. -/
structure Plan (env : Env) (executor : Pubkey) (h : OpHash) (txs : List (List (Invocation env)))
    (mng : ExtensionManager) (signed : SignedOperation) (o : OperationData) (p : ProtocolInfo)
    (bundles : List InstructionBundle) : Prop where
  status : ((endpoint env).run .genesis txs).2.status h.val ≠ .executed
  converted : signed.operationData.tryFrom = .ok o
  hash : o.opHashWithMessage env = .ok h.val
  chain : o.destChainId = env.feature.solanaChainId
  protocol : ((endpoint env).run .genesis txs).2.protocols o.protocolId = some p
  address : p.protocolAddress = o.protocolAddr
  allowed : executor ∈ p.executorsArray.val
  rate_pos : 1 ≤ p.consensusTargetRate.toNat
  recovered : ∀ sig ∈ signed.signatures, ∃ t, ecrecover env h.val sig = .ok t
  enough : p.consensusTargetRate.toNat ≤ consensusRate
    (signedTransmitters env h.val p.transmitters signed.signatures).length p.transmitters.length
  few : p.consensusTargetRate.toNat ≤ consensusRate 16 p.transmitters.length
  /-- The protocol has not changed since the operation was loaded. -/
  unchanged : ∀ r ∈ ((endpoint env).run .genesis txs).1, r.before.ops h.val ≠ none →
    r.after.protocols o.protocolId = r.before.protocols o.protocolId
  built : buildIxs env executor h.val mng signed
    (.ofOpStatus (((endpoint env).run .genesis txs).2.status h.val)) = .ok bundles
  first : ∀ extension accounts,
    mng.getExtension signed.operationData.protocolId = some extension →
    extension.getAccounts (signed.operationData.functionSelector.drop 2)
      signed.operationData.params = .ok accounts →
    accounts.head?.map AccountInfo.key = some o.protocolAddr

/-- The instructions are read by the endpoint, and calls that carry them complete the operation :
all but the last succeed, and if the call that the last one makes succeeds, then so does the last
one, and the operation is executed after one call of another program. -/
structure Completes (env : Env) (h : Bytes) (l : Ledger) (bundles : List InstructionBundle) :
    Prop where
  reads : ∀ b ∈ bundles, b.instruction.programId = photonId ∧
    ∃ ix, Ix.decode env b.instruction.data = .ok ix
  runs : ∀ calls : List (Invocation env), List.Forall₂ Submits bundles calls →
    ∃ before last rs l₁, calls = before ++ [last] ∧
      (endpoint env).transact l before = .ok (rs, l₁) ∧
      (CpiSucceeds h l₁ last → ∃ l' out, (endpoint env).step l₁ last = .ok (l', out) ∧
        l'.status h = .executed ∧ (outputs rs ++ out).countP Effect.isInvoke = 1)

/-! ## Completion -/

/-- The operation `op` is stored under `h`, and the rest of the plan for `o` is to come. -/
structure Ready (h : OpHash) (l : Ledger) (o : OperationData) (p : ProtocolInfo) (op : OpInfo) :
    Prop where
  stored : l.ops h.val = some op
  id : op.opData.protocolId = o.protocolId
  protocol : l.protocols o.protocolId = some p
  pending : op.Pending p
  written : ∃ b, OperationData.codec.encode op.opData = some b
  selector : op.opData.functionSelector ≠ .dummy

section Completion

variable {txs : List (List (Invocation env))} {mng : ExtensionManager} {signed : SignedOperation}
  {o : OperationData} {p : ProtocolInfo} {bundles : List InstructionBundle} {op : OpInfo}

theorem Ready.set (ready : Ready h l o p op) {op' : OpInfo} (hdata : op'.opData = op.opData)
    (hpending : op'.Pending p) : Ready h (l.setOp h.val op') o p op' :=
  ⟨Ledger.ops_setOp_self l h.val op', by rw [hdata, ready.id], ready.protocol, hpending,
    by rw [hdata]; exact ready.written, by rw [hdata]; exact ready.selector⟩

/-- An operation that is stored and not executed is ready for the rest of its plan. -/
theorem Plan.ready (plan : Plan env executor h txs mng signed o p bundles)
    (hwire : ∀ tx ∈ txs, ∀ i ∈ tx, i.Wire)
    (hcoll : ∀ op, ((endpoint env).run .genesis txs).2.ops h.val = some op →
      op.opData.opHashWithMessage env = o.opHashWithMessage env →
      op.opData.opDataEvm = o.opDataEvm)
    (hop : ((endpoint env).run .genesis txs).2.ops h.val = some op) :
    Ready h ((endpoint env).run .genesis txs).2 o p op := by
  have hr := run_sound (endpoint env) .genesis txs
  have hstored := stored_of_run hr h.val op hop
  have hlen : o.protocolId.length = 32 := by
    rw [MessageData.protocolId_of_tryFrom plan.converted]
    exact signed.operationData.protocolId.property
  have hid : op.opData.protocolId = o.protocolId :=
    OperationData.protocolId_eq hstored.loadable.selector
      (OperationData.selector_of_hash plan.hash) hstored.loadable.length_id hlen
      (hcoll op hop (hstored.hash.trans plan.hash.symm))
  have hst : op.status ≠ .executed := by
    rw [← Ledger.status_of_ops hop]
    exact plan.status
  exact ⟨hop, hid, plan.protocol,
    waiting_of_run hr plan.unchanged op p hop hst hid plan.protocol,
    encode_of_run hr (forall_input_of_run _ _ _ hwire) hop, hstored.loadable.selector⟩

/-- Loading an operation that is not there. -/
theorem Plan.loads (plan : Plan env executor h txs mng signed o p bundles)
    (hm : env.DistinctMethods) {b : Instruction} {units : UInt32}
    (hbuild : buildLoadIx env executor h.val signed.operationData = .ok b)
    (submits : Submits ⟨b, units⟩ i)
    (hop : ((endpoint env).run .genesis txs).2.ops h.val = none)
    (hzero : o.protocolId ≠ List.replicate 32 0) :
    ∃ op out, (endpoint env).step ((endpoint env).run .genesis txs).2 i =
        .ok (((endpoint env).run .genesis txs).2.setOp h.val op, out) ∧ op.status = .init ∧
      Ready h (((endpoint env).run .genesis txs).2.setOp h.val op) o p op ∧
      out.countP Effect.isInvoke = 0 := by
  have hlen : o.protocolId.length = 32 := by
    rw [MessageData.protocolId_of_tryFrom plan.converted]
    exact signed.operationData.protocolId.property
  obtain ⟨conf, hconf⟩ := config_of_protocol (run_sound (endpoint env) .genesis txs) _ _
    plan.protocol
  have hok := load_stage hm hbuild submits plan.converted plan.hash plan.chain hlen hzero hop hconf
    plan.protocol plan.address plan.allowed
  have hwritten : ∃ w, OperationData.codec.encode o = some w := by
    simp only [buildLoadIx, Except.bind_eq_ok, Except.orFail_eq_ok, Except.mapError_eq_ok,
      Except.pure_eq_ok] at hbuild
    obtain ⟨_, -, o', ho', args, hargs, -⟩ := hbuild
    obtain rfl := Except.ok.inj (plan.converted.symm.trans ho')
    obtain ⟨w, hw, -⟩ := Borsh.Codec.encode_pair.1 hargs
    exact ⟨w, hw⟩
  exact ⟨_, _, hok, rfl, ⟨Ledger.ops_setOp_self _ _ _, rfl, plan.protocol,
    OpInfo.pending_loaded plan.address, hwritten, OperationData.selector_of_hash plan.hash⟩, rfl⟩

/-- Signing a ready operation in its first stage. -/
theorem Plan.signs (plan : Plan env executor h txs mng signed o p bundles)
    (hm : env.DistinctMethods) {b : InstructionBundle}
    (hbuild : buildSignTx env executor h.val signed = .ok b) (submits : Submits b i)
    (ready : Ready h l o p op) (hst : op.status = .init) :
    ∃ op' out, (endpoint env).step l i = .ok (l.setOp h.val op', out) ∧ op'.status = .signed ∧
      Ready h (l.setOp h.val op') o p op' ∧ out.countP Effect.isInvoke = 0 := by
  have hid : op.opData.protocolId = signed.operationData.protocolId.val :=
    ready.id.trans (MessageData.protocolId_of_tryFrom plan.converted)
  obtain ⟨array, hok⟩ := sign_stage hm hbuild submits ready.stored hst hid
    (ready.id ▸ ready.protocol) plan.allowed ready.pending plan.rate_pos plan.recovered plan.enough
    plan.few
  refine ⟨_, _, hok, rfl, ready.set rfl ⟨ready.pending.address, ?_⟩, rfl⟩
  intro hinit
  simp [OpInfo.signedBy] at hinit

/-- Executing a ready operation that is signed. -/
theorem Plan.executes (plan : Plan env executor h txs mng signed o p bundles)
    (hm : env.DistinctMethods) {b : InstructionBundle}
    (hbuild : buildExecuteTx env executor h.val mng signed.operationData = .ok b)
    (submits : Submits b i) (ready : Ready h l o p op) (hst : op.status = .signed)
    (hcpi : CpiSucceeds h.val l i) :
    ∃ l' out, (endpoint env).step l i = .ok (l', out) ∧ l'.status h.val = .executed ∧
      out.countP Effect.isInvoke = 1 := by
  obtain ⟨written, hwritten⟩ := ready.written
  have hid : op.opData.protocolId = signed.operationData.protocolId.val :=
    ready.id.trans (MessageData.protocolId_of_tryFrom plan.converted)
  have haddr : op.opData.protocolAddr = o.protocolAddr :=
    ready.pending.address.symm.trans plan.address
  exact execute_stage hm hbuild submits (haddr ▸ plan.first) ready.stored hst hid
    (ready.id ▸ ready.protocol) plan.allowed hwritten ready.selector hcpi

theorem reads_load {b : Instruction} (hm : env.DistinctMethods)
    (hbuild : buildLoadIx env executor h.val signed.operationData = .ok b) :
    b.programId = photonId ∧ ∃ ix, Ix.decode env b.data = .ok ix := by
  simp only [buildLoadIx, Except.bind_eq_ok, Except.orFail_eq_ok, Except.pure_eq_ok] at hbuild
  obtain ⟨_, -, _, -, args, hargs, rfl⟩ := hbuild
  exact ⟨rfl, _, decode_loadOperation hm hargs⟩

theorem reads_sign {b : InstructionBundle} (hm : env.DistinctMethods)
    (hbuild : buildSignTx env executor h.val signed = .ok b) :
    b.instruction.programId = photonId ∧ ∃ ix, Ix.decode env b.instruction.data = .ok ix := by
  simp only [buildSignTx, Except.bind_eq_ok, Except.orFail_eq_ok, Except.pure_eq_ok] at hbuild
  obtain ⟨args, hargs, rfl⟩ := hbuild
  exact ⟨rfl, _, decode_signOperation hm hargs⟩

theorem reads_execute {b : InstructionBundle} (hm : env.DistinctMethods)
    (hbuild : buildExecuteTx env executor h.val mng signed.operationData = .ok b) :
    b.instruction.programId = photonId ∧ ∃ ix, Ix.decode env b.instruction.data = .ok ix := by
  simp only [buildExecuteTx, Except.bind_eq_ok, Except.orFail_eq_ok, Except.pure_eq_ok] at hbuild
  obtain ⟨_, -, -, -, _, -, args, hargs, rfl⟩ := hbuild
  exact ⟨rfl, _, decode_executeOperation hm hargs⟩

/-- From every stage the plan of an operation completes it, unless the protocol is the one whose id
is all zeros. -/
theorem plan_completes (env : Env) (executor : Pubkey) (h : OpHash)
    (txs : List (List (Invocation env))) (mng : ExtensionManager) (signed : SignedOperation)
    (o : OperationData) (p : ProtocolInfo) (bundles : List InstructionBundle)
    (hm : env.DistinctMethods) (hwire : ∀ tx ∈ txs, ∀ i ∈ tx, i.Wire)
    (hcoll : ∀ op, ((endpoint env).run .genesis txs).2.ops h.val = some op →
      op.opData.opHashWithMessage env = o.opHashWithMessage env →
      op.opData.opDataEvm = o.opDataEvm)
    (plan : Plan env executor h txs mng signed o p bundles)
    (hzero : o.protocolId ≠ List.replicate 32 0) :
    Completes env h.val ((endpoint env).run .genesis txs).2 bundles := by
  have hbuilt := plan.built
  cases hop : ((endpoint env).run .genesis txs).2.ops h.val with
  | none =>
    have hst : ((endpoint env).run .genesis txs).2.status h.val = .none := by
      simp [Ledger.status, hop]
    simp only [hst, ExecutorOpStatus.ofOpStatus, buildIxs, Except.bind_eq_ok,
      Except.pure_eq_ok] at hbuilt
    obtain ⟨load, hload, sign, hsign, execute, hexecute, rfl⟩ := hbuilt
    refine ⟨by simpa using ⟨reads_load hm hload, reads_sign hm hsign, reads_execute hm hexecute⟩,
      ?_⟩
    intro calls hcalls
    simp only [List.forall₂_cons_left_iff, List.forall₂_nil_left_iff] at hcalls
    obtain ⟨i, _, loads, ⟨i', _, signs, ⟨i'', _, executes, rfl, rfl⟩, rfl⟩, rfl⟩ := hcalls
    obtain ⟨op, out, hok, hinit, ready, hout⟩ := plan.loads hm hload loads hop hzero
    obtain ⟨op', out', hok', hsigned, ready', hout'⟩ := plan.signs hm hsign signs ready hinit
    refine ⟨[i, i'], i'', _, _, rfl, transact_cons_ok hok (transact_cons_ok hok' rfl),
      fun hcpi => ?_⟩
    obtain ⟨l', out'', hok'', hexec'', hout''⟩ :=
      plan.executes hm hexecute executes ready' hsigned hcpi
    exact ⟨l', out'', hok'', hexec'',
      by simp [outputs, List.countP_append, hout, hout', hout'']⟩
  | some op =>
    have ready := plan.ready hwire hcoll hop
    have hst : ((endpoint env).run .genesis txs).2.status h.val = op.status :=
      Ledger.status_of_ops hop
    have hnone := (stored_of_run (run_sound (endpoint env) .genesis txs) h.val op hop).status
    have hexec : op.status ≠ .executed := hst ▸ plan.status
    rw [hst] at hbuilt
    cases hstage : op.status with
    | none => exact absurd hstage hnone
    | executed => exact absurd hstage hexec
    | init =>
      simp only [hstage, ExecutorOpStatus.ofOpStatus, buildIxs, Except.bind_eq_ok,
        Except.pure_eq_ok] at hbuilt
      obtain ⟨sign, hsign, execute, hexecute, rfl⟩ := hbuilt
      refine ⟨by simpa using ⟨reads_sign hm hsign, reads_execute hm hexecute⟩, ?_⟩
      intro calls hcalls
      simp only [List.forall₂_cons_left_iff, List.forall₂_nil_left_iff] at hcalls
      obtain ⟨i, _, signs, ⟨i', _, executes, rfl, rfl⟩, rfl⟩ := hcalls
      obtain ⟨op', out, hok, hsigned, ready', hout⟩ := plan.signs hm hsign signs ready hstage
      refine ⟨[i], i', _, _, rfl, transact_cons_ok hok rfl, fun hcpi => ?_⟩
      obtain ⟨l', out', hok', hexec', hout'⟩ :=
        plan.executes hm hexecute executes ready' hsigned hcpi
      exact ⟨l', out', hok', hexec', by simp [outputs, List.countP_append, hout, hout']⟩
    | signed =>
      simp only [hstage, ExecutorOpStatus.ofOpStatus, buildIxs, Except.bind_eq_ok,
        Except.pure_eq_ok] at hbuilt
      obtain ⟨execute, hexecute, rfl⟩ := hbuilt
      refine ⟨by simpa using reads_execute hm hexecute, ?_⟩
      intro calls hcalls
      simp only [List.forall₂_cons_left_iff, List.forall₂_nil_left_iff] at hcalls
      obtain ⟨i, _, submits, rfl, rfl⟩ := hcalls
      refine ⟨[], i, [], _, rfl, rfl, fun hcpi => ?_⟩
      simpa [outputs] using plan.executes hm hexecute submits ready hstage hcpi

end Completion

/-! ## Two plans -/

/-- The data that a client writes for an instruction of the life of an operation. -/
def Ix.written (env : Env) : Ix → Option Bytes
  | .initializeProgram chain master rate transmitters executors =>
    ((Borsh.Codec.pair .u64 <| .pair .bytes <| .pair .u64 <| .pair (.vec (.array 20))
      (.vec (.array 32))).encode (chain, master, rate, transmitters, executors)).map
        (env.sighash "global" "initialize" ++ ·)
  | .loadOperation opData opHashCached =>
    ((Borsh.Codec.pair OperationData.codec .bytes).encode (opData, opHashCached)).map
      (env.sighash "global" "load_operation" ++ ·)
  | .signOperation opHash signatures =>
    ((Borsh.Codec.pair .bytes (.vec TransmitterSignature.codec)).encode (opHash, signatures)).map
      (env.sighash "global" "sign_operation" ++ ·)
  | .executeOperation opHash =>
    (Borsh.Codec.bytes.encode opHash).map (env.sighash "global" "execute_operation" ++ ·)
  | _ => none

/-- What is written is read back. -/
theorem decode_written (hm : env.DistinctMethods) {ix : Ix} {data : Bytes}
    (hw : ix.written env = some data) : Ix.decode env data = .ok ix := by
  cases ix with
  | initializeProgram chain master rate transmitters executors =>
    obtain ⟨args, hargs, rfl⟩ := Option.map_eq_some_iff.1 hw
    have hdec := Borsh.Codec.decode_encode _ [] hargs
    rw [List.append_nil] at hdec
    simp only [Ix.decode, take_sighash, drop_sighash, if_true]
    exact decodeArgs_eq_ok.2 ⟨_, _, hdec, rfl⟩
  | loadOperation o c =>
    obtain ⟨args, hargs, rfl⟩ := Option.map_eq_some_iff.1 hw
    exact decode_loadOperation hm hargs
  | signOperation c sigs =>
    obtain ⟨args, hargs, rfl⟩ := Option.map_eq_some_iff.1 hw
    exact decode_signOperation hm hargs
  | executeOperation c =>
    obtain ⟨args, hargs, rfl⟩ := Option.map_eq_some_iff.1 hw
    exact decode_executeOperation hm hargs
  | _ => simp [Ix.written] at hw

theorem wire_of_written (hm : env.DistinctMethods) (hw : (i.ix.written env).isSome = true) :
    i.Wire := by
  obtain ⟨data, hdata⟩ := Option.isSome_iff_exists.1 hw
  exact ⟨data, decode_written hm hdata⟩

section Localnet

open Localnet

/-- The operation is loaded, and one of the two transmitters has signed it. -/
def Localnet.firstSigned : List (List (Invocation localnet)) :=
  approval.take 3

/-- The executor has the signatures of both. -/
def Localnet.signedOperation : SignedOperation :=
  ⟨message, [signature1, signature2], 0⟩

theorem plan_completes_loaded :
    ∃ bundles, buildIxs localnet wallet.key hash.val extensions signedOperation .loaded =
        .ok bundles ∧
      Completes localnet hash.val ((endpoint localnet).run .genesis firstSigned).2 bundles := by
  have hm := distinctMethods_localnet
  have hwire : ∀ tx ∈ firstSigned, ∀ i ∈ tx, (i.ix.written localnet).isSome = true := by
    decide +kernel
  obtain ⟨hstatus, hstored, hsame, p, hp, haddr, hallowed, hpos, henough, hfew⟩ :
      ((endpoint localnet).run .genesis firstSigned).2.status hash.val = .init ∧
        (∀ stored ∈ ((endpoint localnet).run .genesis firstSigned).2.ops hash.val,
          stored.opData = op) ∧
        (∀ r ∈ ((endpoint localnet).run .genesis firstSigned).1, r.before.ops hash.val ≠ none →
          r.after.protocols op.protocolId = r.before.protocols op.protocolId) ∧
        ∃ p ∈ ((endpoint localnet).run .genesis firstSigned).2.protocols op.protocolId,
          p.protocolAddress = op.protocolAddr ∧ wallet.key ∈ p.executorsArray.val ∧
          1 ≤ p.consensusTargetRate.toNat ∧
          p.consensusTargetRate.toNat ≤ consensusRate (signedTransmitters localnet hash.val
            p.transmitters signedOperation.signatures).length p.transmitters.length ∧
          p.consensusTargetRate.toNat ≤ consensusRate 16 p.transmitters.length := by
    decide +kernel
  have hrec : Recoverable localnet hash.val signedOperation.signatures := by
    decide +kernel
  have hfirst : (GovExtension.getAccounts localnet code params).toOption.map
      (·.head?.map AccountInfo.key) = some (some photonId) := by
    decide +kernel
  obtain ⟨bundles, hbuilt, -⟩ : ∃ bundles ∈ (buildIxs localnet wallet.key hash.val extensions
      signedOperation .loaded).toOption, bundles.length = 2 := by
    decide +kernel
  rw [Option.mem_def, Except.toOption_eq_some] at hbuilt
  have plan : Plan localnet wallet.key hash firstSigned extensions signedOperation op p
      bundles := by
    refine
      { status := by simp [hstatus]
        converted := by rfl
        hash := Except.toOption_eq_some.1 (by decide +kernel)
        chain := rfl
        protocol := hp
        address := haddr
        allowed := hallowed
        rate_pos := hpos
        recovered := hrec
        enough := henough
        few := hfew
        unchanged := hsame
        built := by rw [hstatus]; exact hbuilt
        first := ?_ }
    · intro extension accounts hext haccounts
      obtain rfl := Option.some_inj.1 hext
      change GovExtension.getAccounts localnet code params = .ok accounts at haccounts
      rw [haccounts] at hfirst
      exact Option.some_inj.1 hfirst
  refine ⟨bundles, hbuilt, plan_completes localnet wallet.key hash firstSigned extensions
    signedOperation op p bundles hm (fun tx htx i hi => wire_of_written hm (hwire tx htx i hi)) ?_
    plan (by decide +kernel)⟩
  intro stored hop _
  rw [hstored stored hop]

end Localnet

section Deployment

open Deployment
open Localnet (onefuncAddress)

/-- The operation of the zero protocol, as the transmitters hold it. -/
def Deployment.zeroMessage : MessageData where
  protocolId := Fixed.replicate 32 0
  opMeta := zeroOp.op.opMeta
  srcChainId := zeroOp.op.srcChainId
  srcBlockNumber := zeroOp.op.srcBlockNumber
  srcOpTxId := zeroOp.op.srcOpTxId
  nonce := zeroOp.op.nonce
  destChainId := zeroOp.op.destChainId
  protocolAddr := onefuncAddress.val
  functionSelector := [0, 4, 1, 2, 3, 4]
  params := []
  reserved := []

def Deployment.zeroSigned : SignedOperation :=
  ⟨zeroMessage, [zeroOp.signature], 0⟩

/-- The extension of its protocol hands over the program only. -/
def Deployment.programOnly : ExtensionManager :=
  ⟨fun _ => some ⟨fun _ _ => .ok [⟨onefuncAddress, false, false⟩], fun _ _ => none⟩⟩

/-- The calls of its plan. -/
def Deployment.zeroCalls : List (Invocation zeroEnv) :=
  [zeroCall (.loadOperation zeroOp.op zeroOp.hash.val)
      [.wallet, .program (zeroEnv.pda (.protocol zeroId)), .derived (.op zeroOp.hash.val),
        .derived .config, .program Pubkey.default],
    zeroCall (.signOperation zeroOp.hash.val [zeroOp.signature])
      [.wallet, .derived (.op zeroOp.hash.val), .program (zeroEnv.pda (.protocol zeroId))],
    zeroCall (.executeOperation zeroOp.hash.val)
      [.wallet, .derived (.op zeroOp.hash.val), .program (zeroEnv.pda (.protocol zeroId)),
        .program (zeroEnv.pda (.callAuthority zeroId)), .program onefuncAddress]]

/-- Governance has registered the protocol whose id is all zeros. The plan for an operation of it is
built, and its first instruction fails. -/
theorem zero_protocol_refused :
    ∃ p bundles, zeroEnv.DistinctMethods ∧ (∀ tx ∈ zeroRegistered, ∀ i ∈ tx, i.Wire) ∧
      (∀ op, ((endpoint zeroEnv).run .genesis zeroRegistered).2.ops zeroOp.hash.val = some op →
        op.opData.opHashWithMessage zeroEnv = zeroOp.op.opHashWithMessage zeroEnv →
        op.opData.opDataEvm = zeroOp.op.opDataEvm) ∧
      Plan zeroEnv Localnet.wallet.key zeroOp.hash zeroRegistered programOnly zeroSigned zeroOp.op p
        bundles ∧
      ¬Completes zeroEnv zeroOp.hash.val ((endpoint zeroEnv).run .genesis zeroRegistered).2
        bundles := by
  have hm := distinctMethods_zeroEnv
  have hwire : ∀ tx ∈ zeroRegistered, ∀ i ∈ tx, (i.ix.written zeroEnv).isSome = true := by
    decide +kernel
  obtain ⟨hnone, hrefused, hsame, p, hp, haddr, hallowed, hpos, henough, hfew⟩ :
      ((endpoint zeroEnv).run .genesis zeroRegistered).2.ops zeroOp.hash.val = none ∧
        (∀ i ∈ zeroCalls.head?,
          ((endpoint zeroEnv).step ((endpoint zeroEnv).run .genesis zeroRegistered).2 i).toOption =
            none) ∧
        (∀ r ∈ ((endpoint zeroEnv).run .genesis zeroRegistered).1,
          r.before.ops zeroOp.hash.val = none) ∧
        ∃ p ∈ ((endpoint zeroEnv).run .genesis zeroRegistered).2.protocols zeroOp.op.protocolId,
          p.protocolAddress = zeroOp.op.protocolAddr ∧ Localnet.wallet.key ∈ p.executorsArray.val ∧
          1 ≤ p.consensusTargetRate.toNat ∧
          p.consensusTargetRate.toNat ≤ consensusRate (signedTransmitters zeroEnv zeroOp.hash.val
            p.transmitters zeroSigned.signatures).length p.transmitters.length ∧
          p.consensusTargetRate.toNat ≤ consensusRate 16 p.transmitters.length := by
    decide +kernel
  have hrec : Recoverable zeroEnv zeroOp.hash.val zeroSigned.signatures := by
    decide +kernel
  obtain ⟨bundles, hbuilt, hlength, hcarry⟩ :
      ∃ bundles ∈ (buildIxs zeroEnv Localnet.wallet.key zeroOp.hash.val programOnly zeroSigned
        .new).toOption, bundles.length = zeroCalls.length ∧ ∀ x ∈ bundles.zip zeroCalls,
          x.2.accounts = x.1.instruction.accounts ∧
          x.2.ix.written zeroEnv = some x.1.instruction.data := by
    decide +kernel
  rw [Option.mem_def, Except.toOption_eq_some] at hbuilt
  have hstatus : ((endpoint zeroEnv).run .genesis zeroRegistered).2.status zeroOp.hash.val =
      .none := by
    simp [Ledger.status, hnone]
  refine ⟨p, bundles, hm, fun tx htx i hi => wire_of_written hm (hwire tx htx i hi), ?_, ?_, ?_⟩
  · intro op hop
    simp [hnone] at hop
  · refine
      { status := by simp [hstatus]
        converted := by rfl
        hash := Except.toOption_eq_some.1 (by decide +kernel)
        chain := rfl
        protocol := hp
        address := haddr
        allowed := hallowed
        rate_pos := hpos
        recovered := hrec
        enough := henough
        few := hfew
        unchanged := fun r hr hop => absurd (hsame r hr) hop
        built := by rw [hstatus]; exact hbuilt
        first := ?_ }
    · intro extension accounts hext haccounts
      obtain rfl := Option.some_inj.1 hext
      obtain rfl := Except.ok.inj haccounts
      rfl
  · intro completes
    have hcalls : List.Forall₂ Submits bundles zeroCalls := by
      refine List.forall₂_iff_zip.2 ⟨hlength, ?_⟩
      intro b i hmem
      obtain ⟨haccounts, hix⟩ := hcarry (b, i) hmem
      exact ⟨haccounts, decode_written hm hix⟩
    obtain ⟨before, last, rs, l₁, heq, hok, -⟩ := completes.runs _ hcalls
    -- the first of the three calls is not the last one, and it fails
    cases before with
    | nil => simp [zeroCalls] at heq
    | cons i before =>
      have hhead : i ∈ zeroCalls.head? := by simp [heq]
      simp only [transact, Except.bind_eq_ok, Prod.exists] at hok
      obtain ⟨l', out, hstep, -⟩ := hok
      have hfail := hrefused i hhead
      simp [hstep, Except.toOption] at hfail

end Deployment

end Photon
