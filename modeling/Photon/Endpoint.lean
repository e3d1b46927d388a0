import Photon.Gov
import Photon.Interface

/-!
# The endpoint

The seven instructions of the program. Each reads its accounts (`tryAccounts` of the
context it is named after) and then runs its body. An instruction that fails changes
nothing.

`executeOperation` calls the protocol of an operation, which may be the endpoint itself :
then the instruction data it wrote is dispatched again (`cpi`), to a depth the runtime
bounds. Any other program is outside the model. It answers or fails, and it cannot call
back into the endpoint, which the runtime forbids.

An `Invocation` is a call from outside : from a transaction, or from another program. No
address the endpoint derives has signed it, since only the endpoint can sign for these.
-/

namespace Photon

variable (env : Env)

/-! ## initialize -/

/-- The accounts of `initialize`. -/
structure Initialize where
  admin : AccountInfo
  protocolInfo : ProtocolInfo
  config : Config

def Initialize.tryAccounts (l : Ledger) : List AccountInfo → Except Error Initialize
  | admin :: protocolInfo :: config :: systemProgram :: _ => do
    Env.checkSigner admin
    Env.checkSystemProgram systemProgram
    let protocol ← env.initProtocol l protocolInfo govProtocolId
    let conf ← env.initConfig l config
    Env.checkMut admin
    require (admin.key = conf.admin ∨ admin.key = env.feature.deployer)
      (Error.custom .isNotAdmin)
    pure ⟨admin, protocol, conf⟩
  | _ => .error (.anchor .accountNotEnoughKeys)

/-- Set up, or set up again, the configuration and the governance protocol. -/
def initializeProgram (l : Ledger) (accounts : List AccountInfo) (eobChainId : UInt64)
    (eobMasterSmartContract : Bytes) (consensusTargetRate : UInt64)
    (govTransmitters : List EthAddress) (govExecutors : List Pubkey) :
    Except Error (Ledger × List Effect) := do
  let ctx ← Initialize.tryAccounts env l accounts
  let master ← orFail (Fixed.ofList? 32 eobMasterSmartContract) (Error.anchor .requireEqViolated)
  let transmitters ← orFail (Slots.fill EthAddress.default govTransmitters) Error.panic
  let executors ← orFail (Slots.fill Pubkey.default govExecutors) Error.panic
  let config := { ctx.config with
    admin := ctx.admin.key
    eobChainId := eobChainId
    eobMasterSmartContract := master }
  let protocol := { ctx.protocolInfo with
    isInit := true
    protocolAddress := photonId
    consensusTargetRate := consensusTargetRate
    transmittersArray := transmitters
    executorsArray := executors }
  pure ((l.setConfig config).setProtocol govProtocolId protocol, [])

/-! ## load_operation -/

/-- The accounts of `load_operation`. -/
structure LoadOperation where
  executor : AccountInfo
  protocolInfo : ProtocolInfo
  opInfo : OpInfo

/-- An operation account as `init` leaves it. -/
def OpInfo.default : OpInfo where
  status := .none
  uniqueSigners := Fixed.replicate 16 EthAddress.default
  opData :=
    { protocolId := []
      opMeta := Fixed.replicate 32 0
      srcChainId := 0
      srcBlockNumber := 0
      srcOpTxId := []
      nonce := 0
      destChainId := 0
      protocolAddr := Pubkey.default
      functionSelector := .dummy
      params := []
      reserved := [] }

def LoadOperation.tryAccounts (l : Ledger) (opData : OperationData) (opHashCached : Bytes) :
    List AccountInfo → Except Error LoadOperation
  | executor :: protocolInfo :: opInfo :: config :: systemProgram :: _ => do
    Env.checkSigner executor
    let protocol ← env.loadProtocol l protocolInfo opData.protocolId
    let _ ← env.loadConfig l config
    Env.checkSystemProgram systemProgram
    env.checkSeeds opInfo (.op opHashCached)
    require (l.ops opHashCached = none) (Error.anchor .accountAlreadyInUse)
    Env.checkMut opInfo
    require (OpInfo.default.status = .none) (Error.custom .opStateInvalid)
    Env.checkMut executor
    require (executor.key ∈ protocol.executorsArray.val) (Error.custom .executorIsNotAllowed)
    Env.checkMut config
    pure ⟨executor, protocol, OpInfo.default⟩
  | _ => .error (.anchor .accountNotEnoughKeys)

/-- Store an operation under its hash. -/
def loadOperation (l : Ledger) (accounts : List AccountInfo) (opData : OperationData)
    (opHashCached : Bytes) : Except Error (Ledger × List Effect) := do
  let ctx ← LoadOperation.tryAccounts env l opData opHashCached accounts
  let opHash ← opData.opHashWithMessage env
  require (opHash = opHashCached) (Error.custom .cachedOpHashMismatch)
  require (opData.destChainId = env.feature.solanaChainId) (Error.custom .opIsNotForThisChain)
  require (ctx.protocolInfo.protocolAddress = opData.protocolAddr)
    (Error.custom .protocolAddressMismatch)
  require (opData.protocolId ≠ List.replicate 32 0 ∧ opData.protocolId.length = 32)
    (Error.custom .invalidOpData)
  pure (l.setOp opHashCached { ctx.opInfo with opData := opData, status := .init },
    [.emit (.proposalLoaded opHash ctx.executor.key)])

/-! ## sign_operation -/

/-- The accounts of `sign_operation`. -/
structure SignOperation where
  executor : AccountInfo
  opInfo : OpInfo
  protocolInfo : ProtocolInfo

def SignOperation.tryAccounts (l : Ledger) (opHash : Bytes) :
    List AccountInfo → Except Error SignOperation
  | executor :: opInfo :: protocolInfo :: _ => do
    Env.checkSigner executor
    let op ← env.loadOp l opInfo opHash
    let protocol ← env.loadProtocol l protocolInfo op.opData.protocolId
    Env.checkMut executor
    require (executor.key ∈ protocol.executorsArray.val) (Error.custom .executorIsNotAllowed)
    Env.checkMut opInfo
    require (op.status = .init ∨ op.status = .signed) (Error.custom .opStateInvalid)
    pure ⟨executor, op, protocol⟩
  | _ => .error (.anchor .accountNotEnoughKeys)

/-- The share of signers among the transmitters, in units of `RATE_DECIMALS`. -/
def consensusRate (signers transmitters : ℕ) : ℕ :=
  signers * RATE_DECIMALS / transmitters

/-- Recover the signatures in order and record the new signers among `allowed`, up to the
one that reaches the rate. -/
def signLoop (opHash : Bytes) (allowed : List EthAddress) (rate : UInt64) :
    List EthAddress → List TransmitterSignature → Except Error (List EthAddress × Bool)
  | signers, [] => pure (signers, false)
  | signers, sig :: sigs => do
    let transmitter ← ecrecover env opHash sig
    if transmitter ∈ allowed ∧ transmitter ∉ signers then
      if rate.toNat ≤ consensusRate (signers ++ [transmitter]).length allowed.length then
        pure (signers ++ [transmitter], true)
      else signLoop opHash allowed rate (signers ++ [transmitter]) sigs
    else signLoop opHash allowed rate signers sigs

/-- Record signatures. The answer is whether the rate is reached; if it was before, nothing
is recorded and the status stays. -/
def signOperation (l : Ledger) (accounts : List AccountInfo) (opHash : Bytes)
    (signatures : List TransmitterSignature) : Except Error (Ledger × List Effect) := do
  let ctx ← SignOperation.tryAccounts env l opHash accounts
  let allowed := ctx.protocolInfo.transmitters
  let rate := ctx.protocolInfo.consensusTargetRate
  require (0 < allowed.length) (Error.custom .noTransmittersAllowed)
  if rate.toNat ≤ consensusRate ctx.opInfo.signers.length allowed.length then
    pure (l, [.returned true])
  else do
    let (signers, reached) ← signLoop env opHash allowed rate ctx.opInfo.signers signatures
    let array ← orFail (Slots.fill EthAddress.default signers) Error.panic
    let status := if reached then .signed else ctx.opInfo.status
    let effects :=
      if reached then [.emit (.proposalApproved opHash ctx.executor.key), .returned true]
      else [.returned false]
    pure (l.setOp opHash { ctx.opInfo with status := status, uniqueSigners := array }, effects)

/-! ## execute_operation -/

/-- The accounts of `execute_operation`. -/
structure ExecuteOperation where
  executor : AccountInfo
  opAccount : AccountInfo
  opInfo : OpInfo
  protocolInfo : ProtocolInfo
  callAuthority : AccountInfo
  remaining : List AccountInfo

def ExecuteOperation.tryAccounts (l : Ledger) (opHash : Bytes) :
    List AccountInfo → Except Error ExecuteOperation
  | executor :: opInfo :: protocolInfo :: callAuthority :: remaining => do
    Env.checkSigner executor
    let op ← env.loadOp l opInfo opHash
    let protocol ← env.loadProtocol l protocolInfo op.opData.protocolId
    Env.checkMut executor
    require (executor.key ∈ protocol.executorsArray.val) (Error.custom .executorIsNotAllowed)
    Env.checkMut opInfo
    require (op.status = .signed) (Error.custom .opStateInvalid)
    env.checkSeeds callAuthority (.callAuthority op.opData.protocolId)
    pure ⟨executor, opInfo, op, protocol, callAuthority, remaining⟩
  | _ => .error (.anchor .accountNotEnoughKeys)

/-- The accounts passed on to the protocol : the executor, the call authority as a signer,
the operation, and the remaining accounts after the first, less the protocol itself. -/
def ExecuteOperation.metas (ctx : ExecuteOperation) (first : AccountInfo) : List AccountInfo :=
  (first :: ctx.executor :: { ctx.callAuthority with isSigner := true } :: ctx.opAccount ::
    ctx.remaining.tail).filter (·.key ≠ ctx.opInfo.opData.protocolAddr)

/-- Call the protocol of a signed operation, through `invoke`, and mark the operation. The
operation account is written back as it was read before the call. -/
def executeOperation (invoke : Ledger → Instruction → Except Error (Ledger × List Effect))
    (l : Ledger) (accounts : List AccountInfo) (opHash : Bytes) :
    Except Error (Ledger × List Effect) := do
  let ctx ← ExecuteOperation.tryAccounts env l opHash accounts
  let opData := ctx.opInfo.opData
  let first ← orFail (ctx.remaining.head?.filter (·.key = opData.protocolAddr))
    (Error.custom .protocolAddressNotProvided)
  let data ← callData env opHash opData.functionSelector opData.params
  let ix : Instruction := ⟨opData.protocolAddr, ctx.metas first, data⟩
  let (l', effects) ← invoke l ix
  pure (l'.setOp opHash { ctx.opInfo with status := .executed },
    .invoke ix (.callAuthority opData.protocolId) :: effects ++
      [.emit (.proposalExecuted opHash ctx.executor.key)])

/-! ## propose -/

/-- The accounts of `propose`. -/
structure Propose where
  proposer : AccountInfo
  config : Config
  protocolInfo : ProtocolInfo

def Propose.tryAccounts (l : Ledger) (protocolId : Bytes) :
    List AccountInfo → Except Error Propose
  | proposer :: config :: protocolInfo :: _ => do
    Env.checkSigner proposer
    let conf ← env.loadConfig l config
    let protocol ← env.loadProtocol l protocolInfo protocolId
    require (proposer.key ∈ protocol.proposersArray.val) (Error.custom .proposerIsNotAllowed)
    Env.checkMut config
    pure ⟨proposer, conf, protocol⟩
  | _ => .error (.anchor .accountNotEnoughKeys)

/-- Announce an operation for another chain under the next nonce. -/
def propose (l : Ledger) (accounts : List AccountInfo) (protocolId : Bytes)
    (dstChainId : BitVec 128) (protocolAddress : Bytes) (functionSelector : FunctionSelector)
    (params : Bytes) : Except Error (Ledger × List Effect) := do
  let ctx ← Propose.tryAccounts env l protocolId accounts
  let nonce := ctx.config.nonce
  let config ← nextNonce ctx.config
  let selector ← functionSelector.toBytes
  pure (l.setConfig config, [.emit (.propose
    { protocolId := protocolId
      nonce := nonce
      dstChainId := dstChainId
      protocolAddress := protocolAddress
      functionSelector := selector
      params := params })])

/-! ## receive_photon_msg -/

/-- The accounts of `receive_photon_msg`. -/
structure ReceivePhotonMsg where
  executor : AccountInfo
  callAuthority : AccountInfo
  opInfo : OpInfo
  config : Config
  govInfo : ProtocolInfo
  targetId : Bytes
  targetProtocolInfo : ProtocolInfo

/-- The call authority has to be a signer. It is not compared with a derived address. -/
def ReceivePhotonMsg.tryAccounts (l : Ledger) (opHash : Bytes) :
    List AccountInfo → Except Error ReceivePhotonMsg
  | executor :: callAuthority :: opInfo :: config :: govInfo :: targetProtocolInfo ::
      systemProgram :: _ => do
    Env.checkSigner executor
    Env.checkSigner callAuthority
    let op ← env.loadOp l opInfo opHash
    let gov ← env.loadProtocol l govInfo govProtocolId
    Env.checkSystemProgram systemProgram
    let conf ← env.initConfig l config
    let targetId ← targetProtocol env op.opData.functionSelector op.opData.params
    let target ← env.initProtocol l targetProtocolInfo targetId
    Env.checkMut executor
    require (executor.key ∈ gov.executorsArray.val) (Error.custom .executorIsNotAllowed)
    require (op.status = .signed) (Error.custom .opStateInvalid)
    pure ⟨executor, callAuthority, op, conf, gov, targetId, target⟩
  | _ => .error (.anchor .accountNotEnoughKeys)

/-- Run the governance handler for `code` on the stored operation. -/
def receivePhotonMsg (l : Ledger) (accounts : List AccountInfo) (opHash code _params : Bytes) :
    Except Error (Ledger × List Effect) := do
  let ctx ← ReceivePhotonMsg.tryAccounts env l opHash accounts
  let opData := ctx.opInfo.opData
  require (opData.protocolId = govProtocolId ∧ opData.protocolAddr = photonId)
    (Error.custom .invalidEndpoint)
  let (config, target, effects) ←
    handleGovOperation env ctx.config ctx.targetProtocolInfo code opData
  pure ((l.setConfig config).setProtocol ctx.targetId target,
    effects ++ [.governed opHash code])

/-! ## set_admin -/

/-- The accounts of `set_admin`. -/
structure SetAdmin where
  deployer : AccountInfo
  config : Config

def SetAdmin.tryAccounts (l : Ledger) : List AccountInfo → Except Error SetAdmin
  | deployer :: config :: _ => do
    Env.checkSigner deployer
    let conf ← env.loadConfig l config
    require (deployer.key = env.feature.deployer) (Error.anchor .constraintAddress)
    Env.checkMut config
    pure ⟨deployer, conf⟩
  | _ => .error (.anchor .accountNotEnoughKeys)

def setAdmin (l : Ledger) (accounts : List AccountInfo) (admin : Pubkey) :
    Except Error (Ledger × List Effect) := do
  let ctx ← SetAdmin.tryAccounts env l accounts
  pure (l.setConfig { ctx.config with admin := admin }, [])

/-! ## Dispatch -/

/-- Run one instruction. Calls of other programs go through `invoke`. -/
def dispatch (invoke : Ledger → Instruction → Except Error (Ledger × List Effect)) (l : Ledger)
    (accounts : List AccountInfo) : Ix → Except Error (Ledger × List Effect)
  | .initializeProgram chain master rate transmitters executors =>
    initializeProgram env l accounts chain master rate transmitters executors
  | .loadOperation opData opHashCached => loadOperation env l accounts opData opHashCached
  | .signOperation opHash signatures => signOperation env l accounts opHash signatures
  | .executeOperation opHash => executeOperation env invoke l accounts opHash
  | .propose id dst addr selector params => propose env l accounts id dst addr selector params
  | .receivePhotonMsg opHash code params => receivePhotonMsg env l accounts opHash code params
  | .setAdmin admin => setAdmin env l accounts admin

/-- A call of a program : of the endpoint itself through `self`, of any other through its
`answer`. -/
def cpi (answer : Instruction → Bool)
    (self : Ledger → List AccountInfo → Ix → Except Error (Ledger × List Effect)) (l : Ledger)
    (ix : Instruction) : Except Error (Ledger × List Effect) :=
  if ix.programId = photonId then do
    let nested ← Ix.decode env ix.data
    self l ix.accounts nested
  else do
    require (answer ix = true) Error.callee
    pure (l, [])

/-- Run one instruction with at most `depth` levels of calls below it. -/
def process (answer : Instruction → Bool) :
    ℕ → Ledger → List AccountInfo → Ix → Except Error (Ledger × List Effect)
  | 0 => dispatch env fun _ _ => .error .callDepth
  | depth + 1 => dispatch env (cpi env answer (process answer depth))

/-- A call of the endpoint from outside. -/
structure Invocation where
  ix : Ix
  accounts : List AccountInfo
  depth : ℕ
  answer : Instruction → Bool
  /-- Nobody outside signs for an address that the endpoint derives. -/
  derived_not_signer : ∀ a ∈ accounts, a.isSigner = true → ∀ s, a.key ≠ env.pda s
  /-- The runtime loads the program's own account for reading only. -/
  program_not_writable : ∀ a ∈ accounts, a.isWritable = true → a.key ≠ photonId

/-- The endpoint as a machine on its ledger. -/
def endpoint : Machine Ledger (Invocation env) Effect Error where
  step l i := process env i.answer i.depth l i.accounts i.ix

end Photon
