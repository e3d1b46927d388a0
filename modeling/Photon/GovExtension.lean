import Photon.OperationManager
import Photon.Steps

/-!
# The extension of the governance protocol

The executor asks the extension of an operation's protocol for the accounts of the call. That of
governance reads the code and the params itself, to find the protocol that the operation acts on
(`GovExtension.getAccounts`). The endpoint puts accounts of its own before the extension's and
takes the called program out (`ExecuteOperation.metas`), and then reads the code and the params
of the stored operation (`targetProtocol`) to check what it is handed.

For a governance operation the list that comes out is the one that `receive_photon_msg` asks for,
place by place (`gov_accounts_agree`).
-/

namespace Photon

/-- The ABI decoder gives values of the types it is given : what it decodes as a tuple that begins
with `n` fixed bytes is one tuple with `n` bytes in front. -/
def Env.DecodesTuples (env : Env) : Prop :=
  ∀ n types b tokens, env.abiDecode [.tuple (.fixedBytes n :: types)] b = some tokens →
    ∃ id rest, tokens = [.tuple (.fixedBytes id :: rest)] ∧ id.length = n

namespace GovExtension

variable (env : Env)

/-- The accounts of a governance call. The first four bytes of the selector have to be there : a
shorter one is a panic. -/
def getAccounts (functionSelector params : Bytes) : Except ExtensionError (List AccountInfo) := do
  require (functionSelector ≠ []) ExtensionError.extension
  let code := functionSelector.take 4
  require (code.length = 4) ExtensionError.panic
  let govOperation ← orFail (GovOperation.tryFrom (beNat code)) ExtensionError.extension
  let params ← (decodeAbiParams env params (abiDecodeScheme govOperation)).mapError
    fun _ => ExtensionError.extension
  let first ← orFail params.head? ExtensionError.extension
  let targetProtocolId ← orFail first.intoFixedBytes ExtensionError.extension
  let targetProtocolInfo ←
    (env.derive (.protocol targetProtocolId)).mapError fun _ => ExtensionError.panic
  pure [⟨photonId, false, false⟩, ⟨env.pda .config, false, true⟩,
    ⟨env.pda (.protocol govProtocolId), false, true⟩, ⟨targetProtocolInfo, false, true⟩,
    ⟨Pubkey.default, false, true⟩]

def extension : ProtocolExtension where
  getAccounts := getAccounts env
  getComputeBudget _ _ := some 400000

end GovExtension

/-- What `receive_photon_msg` is to be handed for the operation `h` on the protocol `target`. -/
def receiveAccounts (env : Env) (executor : Pubkey) (h target : Bytes) : List AccountInfo :=
  [⟨executor, true, true⟩, ⟨env.pda (.callAuthority govProtocolId), true, false⟩,
    ⟨env.pda (.op h), false, true⟩, ⟨env.pda .config, false, true⟩,
    ⟨env.pda (.protocol govProtocolId), false, true⟩, ⟨env.pda (.protocol target), false, true⟩,
    ⟨Pubkey.default, false, true⟩]

section Agreement

variable {env : Env} {executor : Pubkey} {h : OpHash} {d : MessageData} {p : OperationData}
  {code params target : Bytes} {g : GovOperation} {tokens : List Token}

theorem length_govProtocolId : govProtocolId.length = 32 := by
  decide +kernel

theorem photonId_ne_default : photonId ≠ Pubkey.default := by
  decide +kernel

theorem abiDecodeScheme_eq (g : GovOperation) :
    ∃ types, abiDecodeScheme g = .tuple (.fixedBytes 32 :: types) := by
  cases g <;> exact ⟨_, rfl⟩

/-- Both sides read the same protocol off a code and params that can be decoded. -/
theorem target_of_decode (habi : env.DecodesTuples) (hlen : U32_SIZE ≤ code.length)
    (hcode : GovOperation.tryFrom (selectorU32 code) = some g)
    (hdec : env.abiDecode [abiDecodeScheme g] params = some tokens) :
    ∃ target, target.length = 32 ∧ targetProtocol env (.byCode code) params = .ok target ∧
      GovExtension.getAccounts env code params = .ok
        [⟨photonId, false, false⟩, ⟨env.pda .config, false, true⟩,
          ⟨env.pda (.protocol govProtocolId), false, true⟩,
          ⟨env.pda (.protocol target), false, true⟩, ⟨Pubkey.default, false, true⟩] := by
  obtain ⟨types, htypes⟩ := abiDecodeScheme_eq g
  rw [htypes] at hdec
  obtain ⟨target, rest, rfl, htarget⟩ := habi _ _ _ _ hdec
  have hparams : decodeAbiParams env params (abiDecodeScheme g) =
      .ok (.fixedBytes target :: rest) := by
    rw [htypes]
    simp [decodeAbiParams, hdec, orFail, Token.intoTuple]
  refine ⟨target, htarget, ?_, ?_⟩
  · have hby : targetProtocolByCode env code params = .ok target := by
      simp only [targetProtocolByCode, Except.bind_eq_ok, Except.require_eq_ok,
        Except.orFail_eq_ok, exists_const]
      refine ⟨hlen, g, hcode, ?_⟩
      simp [hparams, Token.intoFixedBytes]
    simp [targetProtocol, hby]
  · have hne : code ≠ [] := by
      rintro rfl
      simp [U32_SIZE] at hlen
    have htake : (code.take 4).length = 4 := by
      rw [List.length_take]
      exact Nat.min_eq_left hlen
    have hderive : env.derive (.protocol target) = .ok (env.pda (.protocol target)) :=
      Env.derive_eq_ok.2 ⟨Seeds.length_parts_protocol htarget, rfl⟩
    simp only [GovExtension.getAccounts, Except.bind_eq_ok, Except.require_eq_ok,
      Except.orFail_eq_ok, Except.mapError_eq_ok, Except.pure_eq_ok, exists_const]
    exact ⟨hne, htake, g, hcode, _, hparams, _, rfl, target, rfl, _, hderive, rfl⟩

/-- The instruction that the executor builds with these accounts of the extension. -/
theorem buildExecuteTx_ok (env : Env) (executor : Pubkey) (h : OpHash) {mng : ExtensionManager}
    {extension : ProtocolExtension} {accounts : List AccountInfo}
    (hext : mng.getExtension d.protocolId = some extension)
    (hlen : 3 ≤ d.functionSelector.length)
    (haccounts : extension.getAccounts (d.functionSelector.drop 2) d.params = .ok accounts) :
    ∃ bundle, buildExecuteTx env executor h.val mng d = .ok bundle ∧
      bundle.instruction.accounts =
        [⟨executor, true, true⟩, ⟨env.pda (.op h.val), false, true⟩,
          ⟨env.pda (.protocol d.protocolId.val), false, false⟩,
          ⟨env.pda (.callAuthority d.protocolId.val), false, false⟩] ++ accounts := by
  obtain ⟨args, hargs⟩ := Borsh.Codec.exists_encode_bytes.2 (show h.val.length < 256 ^ 4 by
    rw [h.property]
    decide)
  simp only [buildExecuteTx, Except.bind_eq_ok, Except.orFail_eq_ok, Except.require_eq_ok,
    Except.mapError_eq_ok, Except.pure_eq_ok, exists_const]
  exact ⟨_, ⟨extension, hext, hlen, accounts, haccounts, args, hargs, rfl⟩, rfl⟩

/-! ## Agreement -/

theorem FunctionSelector.drop_of_tryFrom {b : Bytes}
    (h : FunctionSelector.tryFrom b = .ok (.byCode code)) :
    b.length = code.length + 2 ∧ b.drop 2 = code := by
  unfold FunctionSelector.tryFrom at h
  split at h
  · simp at h
  · rename_i t rest
    split_ifs at h with h0 h1
    · cases rest with
      | nil => simp at h
      | cons len body =>
        simp only [Except.ok.injEq, FunctionSelector.byCode.injEq] at h
        exact ⟨by simp [h], by simp [h]⟩
    · cases rest with
      | nil => simp at h
      | cons len name =>
        simp only at h
        split at h <;> simp at h

/-- The accounts of `execute_operation` as the executor lists them for a governance operation,
after the endpoint has put its own in front and taken the program out. -/
theorem metas_eq_receiveAccounts {i : Invocation env} {l : Ledger} {ctx : ExecuteOperation}
    (haccounts : i.accounts =
      [⟨executor, true, true⟩, ⟨env.pda (.op h.val), false, true⟩,
        ⟨env.pda (.protocol govProtocolId), false, false⟩,
        ⟨env.pda (.callAuthority govProtocolId), false, false⟩, ⟨photonId, false, false⟩,
        ⟨env.pda .config, false, true⟩, ⟨env.pda (.protocol govProtocolId), false, true⟩,
        ⟨env.pda (.protocol target), false, true⟩, ⟨Pubkey.default, false, true⟩])
    (hctx : ExecuteOperation.tryAccounts env l h.val i.accounts = .ok ctx)
    (haddr : ctx.opInfo.opData.protocolAddr = photonId) :
    ∃ first, ctx.remaining.head? = some first ∧ first.key = photonId ∧
      ctx.metas first = receiveAccounts env executor h.val target := by
  have hexec : executor ≠ photonId := by
    refine i.program_not_writable ⟨executor, true, true⟩ ?_ rfl
    simp [haccounts]
  rw [haccounts] at hctx
  simp only [ExecuteOperation.tryAccounts, Except.bind_eq_ok, Except.pure_eq_ok] at hctx
  obtain ⟨-, -, op, -, protocol, -, -, -, -, -, -, -, -, -, -, -, rfl⟩ := hctx
  change op.opData.protocolAddr = photonId at haddr
  have hpda (s : Seeds) : env.pda s ≠ photonId := env.address_ne_id s
  refine ⟨_, rfl, rfl, ?_⟩
  simp [ExecuteOperation.metas, haddr, hexec, hpda, photonId_ne_default.symm, receiveAccounts]

/-- `receive_photon_msg` accepts these accounts for an operation that `execute_operation` has
accepted. -/
theorem tryAccounts_receiveAccounts {i : Invocation env} {l : Ledger} {ctx : ExecuteOperation}
    (hexec : i.accounts.head? = some ⟨executor, true, true⟩)
    (hctx : ExecuteOperation.tryAccounts env l h.val i.accounts = .ok ctx)
    (hid : ctx.opInfo.opData.protocolId = govProtocolId)
    (htarget : targetProtocol env ctx.opInfo.opData.functionSelector ctx.opInfo.opData.params =
      .ok target) (hlen : target.length = 32) :
    ∃ ctx', ReceivePhotonMsg.tryAccounts env l h.val (receiveAccounts env executor h.val target) =
      .ok ctx' ∧ ctx'.targetId = target := by
  have hkey : ctx.executor.key = executor := by
    unfold ExecuteOperation.tryAccounts at hctx
    split at hctx
    · simp only [Except.bind_eq_ok, Except.pure_eq_ok] at hctx
      obtain ⟨-, -, op, -, protocol, -, -, -, -, -, -, -, -, -, -, -, rfl⟩ := hctx
      rename_i heq
      rw [heq] at hexec
      exact congrArg AccountInfo.key (Option.some_inj.1 hexec)
    · simp at hctx
  obtain ⟨⟨hop, hst⟩, hp, ⟨hallowed, -, -⟩, -⟩ := ExecuteOperation.of_tryAccounts hctx
  rw [hid] at hp
  rw [hkey] at hallowed
  simp only [ReceivePhotonMsg.tryAccounts, receiveAccounts, Except.bind_eq_ok, Except.require_eq_ok,
    Except.pure_eq_ok, Env.loadOp_eq_ok, Env.loadProtocol_eq_ok, Env.checkSigner, Env.checkMut,
    Env.checkSystemProgram, Env.initConfig, Env.initProtocol, Env.checkSeeds_eq_ok, exists_const,
    true_and, and_true]
  exact ⟨_, ⟨_, ⟨Seeds.length_parts_op h.property, hop⟩, _,
    ⟨Seeds.length_parts_protocol length_govProtocolId, hp⟩, _, ⟨Seeds.length_parts_config, rfl⟩,
    target, htarget, _, ⟨⟨Seeds.length_parts_protocol hlen, rfl⟩, rfl⟩, hallowed, hst, rfl⟩, rfl⟩

/-- For every governance operation with a known code and params that can be decoded, the executor
builds an `execute_operation`. Where the endpoint reads its accounts and has the operation stored,
what it passes on is, place by place, what `receive_photon_msg` asks for, with the account of the
protocol that the endpoint itself reads off the stored operation. -/
theorem gov_accounts_agree (env : Env) (executor : Pubkey) (h : OpHash) (mng : ExtensionManager)
    (d : MessageData) (p : OperationData) (code : Bytes) (g : GovOperation) (tokens : List Token)
    (habi : env.DecodesTuples) (hconv : d.tryFrom = .ok p)
    (hgov : d.protocolId.val = govProtocolId) (haddr : p.protocolAddr = photonId)
    (hsel : p.functionSelector = .byCode code) (hlen : U32_SIZE ≤ code.length)
    (hcode : GovOperation.tryFrom (selectorU32 code) = some g)
    (hdec : env.abiDecode [abiDecodeScheme g] p.params = some tokens)
    (hext : mng.getExtension d.protocolId = some (GovExtension.extension env)) :
    ∃ bundle target, buildExecuteTx env executor h.val mng d = .ok bundle ∧
      targetProtocol env p.functionSelector p.params = .ok target ∧
      ∀ (i : Invocation env) (l : Ledger) (ctx : ExecuteOperation),
        i.accounts = bundle.instruction.accounts →
        ExecuteOperation.tryAccounts env l h.val i.accounts = .ok ctx →
        ctx.opInfo.opData = p →
        ∃ first, ctx.remaining.head? = some first ∧ first.key = p.protocolAddr ∧
          ctx.metas first = receiveAccounts env executor h.val target ∧
          ∃ ctx', ReceivePhotonMsg.tryAccounts env l h.val (ctx.metas first) = .ok ctx' ∧
            ctx'.targetId = target := by
  simp only [MessageData.tryFrom, Except.bind_eq_ok, Except.orFail_eq_ok,
    Except.pure_eq_ok] at hconv
  obtain ⟨addr, -, selector, hselector, rfl⟩ := hconv
  simp only at hsel haddr hdec
  subst hsel haddr
  obtain ⟨hselLen, hdrop⟩ := FunctionSelector.drop_of_tryFrom hselector
  obtain ⟨target, htarget, hread, haccounts⟩ := target_of_decode habi hlen hcode hdec
  rw [← hdrop] at haccounts
  have hthree : 3 ≤ d.functionSelector.length := by
    simp only [U32_SIZE] at hlen
    omega
  obtain ⟨bundle, hbuild, hlist⟩ := buildExecuteTx_ok env executor h hext hthree haccounts
  refine ⟨bundle, target, hbuild, hread, ?_⟩
  intro i l ctx hi hctx hstored
  rw [hlist, hgov] at hi
  have haddr : ctx.opInfo.opData.protocolAddr = photonId := by rw [hstored]
  obtain ⟨first, hhead, hkey, hmetas⟩ := metas_eq_receiveAccounts hi hctx haddr
  have hid : ctx.opInfo.opData.protocolId = govProtocolId := by rw [hstored, hgov]
  have hread' : targetProtocol env ctx.opInfo.opData.functionSelector ctx.opInfo.opData.params =
      .ok target := by rw [hstored, hread]
  refine ⟨first, hhead, hkey, hmetas, ?_⟩
  rw [hmetas]
  exact tryAccounts_receiveAccounts (by simp [hi]) hctx hid hread' htarget

end Agreement

section Localnet

open Localnet

theorem decodesTuples_localnet : localnet.DecodesTuples := by
  intro n types b tokens hdec
  simp only [localnet, abiDecode] at hdec
  split at hdec
  · rename_i heq
    split_ifs at hdec
    simp only [List.cons.injEq, ParamType.tuple.injEq, ParamType.fixedBytes.injEq, and_true] at heq
    obtain ⟨rfl, -⟩ := heq
    obtain rfl := Option.some_inj.1 hdec
    exact ⟨onefuncId, _, rfl, by decide +kernel⟩
  · simp at hdec

/-- The operation of the deployment, as the transmitters hold it. -/
def Localnet.message : MessageData where
  protocolId := ⟨govProtocolId, length_govProtocolId⟩
  opMeta := op.opMeta
  srcChainId := op.srcChainId
  srcBlockNumber := op.srcBlockNumber
  srcOpTxId := op.srcOpTxId
  nonce := op.nonce
  destChainId := op.destChainId
  protocolAddr := photonId.val
  functionSelector := [0, 4] ++ code
  params := params
  reserved := op.reserved

/-- Its hash. -/
def Localnet.hash : OpHash :=
  word 0x8df72a20b3247a4d930886014042c7711a5986edb4eb7a42ff4d571d10652f49

/-- The executor has the extension of governance. -/
def Localnet.extensions : ExtensionManager :=
  ⟨fun _ => some (GovExtension.extension localnet)⟩

/-- The `execute_operation` that the executor builds for it. -/
def Localnet.builtExecute : Invocation localnet :=
  call (.executeOperation opHash)
    [wallet, derived (.op opHash), program (localnet.pda (.protocol govProtocolId)),
      program (localnet.pda (.callAuthority govProtocolId)), program photonId, derived .config,
      derived (.protocol govProtocolId), derived (.protocol onefuncId),
      ⟨Pubkey.default, false, true⟩] (by decide +kernel)

/-- The operation is signed, and the executor executes it. -/
theorem gov_accounts_agree_approved :
    ∃ ctx first ctx', ExecuteOperation.tryAccounts localnet
        ((endpoint localnet).run .genesis approval).2 hash.val builtExecute.accounts = .ok ctx ∧
      ctx.metas first = receiveAccounts localnet wallet.key hash.val onefuncId ∧
      ReceivePhotonMsg.tryAccounts localnet ((endpoint localnet).run .genesis approval).2 hash.val
        (ctx.metas first) = .ok ctx' ∧ ctx'.targetId = onefuncId := by
  have hconv : message.tryFrom = .ok op := by rfl
  have hdec : localnet.abiDecode [abiDecodeScheme .addAllowedProtocolAddress] op.params =
      some [.tuple [.fixedBytes onefuncId, .bytes onefuncAddress.val]] := by
    simp [localnet, abiDecode, abiDecodeScheme, op]
  obtain ⟨bundle, target, hbuild, htarget, hagree⟩ := gov_accounts_agree localnet wallet.key hash
    extensions message op code .addAllowedProtocolAddress _ decodesTuples_localnet hconv rfl rfl rfl
    (by decide) (by decide +kernel) hdec rfl
  have hlist : (buildExecuteTx localnet wallet.key hash.val extensions message).toOption.map
      (·.instruction.accounts) = some builtExecute.accounts := by
    decide +kernel
  have hid : (targetProtocol localnet op.functionSelector op.params).toOption =
      some onefuncId := by
    decide +kernel
  have hread : (ExecuteOperation.tryAccounts localnet
      ((endpoint localnet).run .genesis approval).2 hash.val builtExecute.accounts).toOption.map
        (·.opInfo.opData) = some op := by
    decide +kernel
  rw [hbuild] at hlist
  rw [htarget] at hid
  obtain rfl := Option.some_inj.1 hid
  obtain ⟨ctx, hctx, hstored⟩ := Option.map_eq_some_iff.1 hread
  rw [Except.toOption_eq_some] at hctx
  obtain ⟨first, -, -, hmetas, ctx', hctx', htargetId⟩ := hagree builtExecute _ ctx
    (Option.some_inj.1 hlist).symm hctx hstored
  exact ⟨ctx, first, ctx', hctx, hmetas, hctx', htargetId⟩

end Localnet

end Photon
