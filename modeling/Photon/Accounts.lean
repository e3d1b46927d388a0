import Photon.ProtocolData
import Photon.Slots

/-!
# The program's accounts

The program owns three kinds of accounts : one `Config`, a `ProtocolInfo` per protocol id
and an `OpInfo` per operation hash. Each lives at the address derived from its seeds, so
the `Ledger` is keyed by the seeds. An account that does not exist is `none`.

An instruction is handed a list of `AccountInfo`s. Every account it reads or writes is
checked against an address derived from seeds (`Env.loadConfig`, `Env.loadProtocol`,
`Env.loadOp`), so what it can touch is fixed by its arguments and by what the ledger
holds.
-/

namespace Photon

/-! ## Stored data -/

def RATE_DECIMALS : ℕ := 10000

def MAX_TRANSMITTERS : ℕ := 20

def MAX_EXECUTORS : ℕ := 20

def MAX_PROPOSERS : ℕ := 20

/-- The system configuration. -/
structure Config where
  admin : Pubkey
  eobChainId : UInt64
  eobMasterSmartContract : Bytes32
  nonce : UInt64
  deriving DecidableEq

/-- A freshly created configuration. -/
def Config.default : Config where
  admin := Pubkey.default
  eobChainId := 0
  eobMasterSmartContract := Fixed.replicate 32 0
  nonce := 0

/-- A registered protocol. -/
structure ProtocolInfo where
  isInit : Bool
  consensusTargetRate : UInt64
  protocolAddress : Pubkey
  transmittersArray : Fixed EthAddress 20
  executorsArray : Fixed Pubkey 20
  proposersArray : Fixed Pubkey 20
  deriving DecidableEq

namespace ProtocolInfo

/-- A freshly created protocol account. -/
def default : ProtocolInfo where
  isInit := false
  consensusTargetRate := 0
  protocolAddress := Pubkey.default
  transmittersArray := Fixed.replicate 20 EthAddress.default
  executorsArray := Fixed.replicate 20 Pubkey.default
  proposersArray := Fixed.replicate 20 Pubkey.default

def transmitters (p : ProtocolInfo) : List EthAddress :=
  Slots.live EthAddress.default p.transmittersArray

def executors (p : ProtocolInfo) : List Pubkey :=
  Slots.live Pubkey.default p.executorsArray

def proposers (p : ProtocolInfo) : List Pubkey :=
  Slots.live Pubkey.default p.proposersArray

end ProtocolInfo

/-- A loaded operation. -/
structure OpInfo where
  status : OpStatus
  uniqueSigners : Fixed EthAddress 16
  opData : OperationData
  deriving DecidableEq

/-- The signers recorded so far. -/
def OpInfo.signers (o : OpInfo) : List EthAddress :=
  Slots.occupied EthAddress.default o.uniqueSigners

/-! ## The ledger -/

/-- The program's accounts, by the seeds of their addresses. -/
structure Ledger where
  config : Option Config
  protocols : Bytes → Option ProtocolInfo
  ops : Bytes → Option OpInfo

namespace Ledger

/-- Before the first instruction no account exists. -/
def genesis : Ledger where
  config := none
  protocols _ := none
  ops _ := none

def setConfig (l : Ledger) (c : Config) : Ledger :=
  { l with config := some c }

def setProtocol (l : Ledger) (id : Bytes) (p : ProtocolInfo) : Ledger :=
  { l with protocols := fun id' => if id' = id then some p else l.protocols id' }

def setOp (l : Ledger) (h : Bytes) (o : OpInfo) : Ledger :=
  { l with ops := fun h' => if h' = h then some o else l.ops h' }

/-- The status stored for an operation hash; an account that is not there has none. -/
def status (l : Ledger) (h : Bytes) : OpStatus :=
  match l.ops h with
  | some o => o.status
  | none => .none

variable (l : Ledger) (c : Config) (id h : Bytes) (p : ProtocolInfo) (o : OpInfo)

@[simp] theorem config_setConfig : (l.setConfig c).config = some c := rfl

@[simp] theorem protocols_setConfig : (l.setConfig c).protocols = l.protocols := rfl

@[simp] theorem ops_setConfig : (l.setConfig c).ops = l.ops := rfl

@[simp] theorem config_setProtocol : (l.setProtocol id p).config = l.config := rfl

@[simp] theorem ops_setProtocol : (l.setProtocol id p).ops = l.ops := rfl

@[simp] theorem config_setOp : (l.setOp h o).config = l.config := rfl

@[simp] theorem protocols_setOp : (l.setOp h o).protocols = l.protocols := rfl

theorem protocols_setProtocol (id' : Bytes) :
    (l.setProtocol id p).protocols id' = if id' = id then some p else l.protocols id' := rfl

theorem ops_setOp (h' : Bytes) :
    (l.setOp h o).ops h' = if h' = h then some o else l.ops h' := rfl

@[simp] theorem ops_setOp_self : (l.setOp h o).ops h = some o := by
  simp [ops_setOp]

variable {l h o}

theorem status_of_ops (ho : l.ops h = some o) : l.status h = o.status := by
  simp [status, ho]

theorem status_congr {l' : Ledger} (ho : l'.ops h = l.ops h) : l'.status h = l.status h := by
  simp [status, ho]

end Ledger

/-! ## Account lists, calls and events -/

/-- An account as an instruction is handed it. -/
structure AccountInfo where
  key : Pubkey
  isSigner : Bool
  isWritable : Bool
  deriving DecidableEq

/-- A call of a program. -/
structure Instruction where
  programId : Pubkey
  accounts : List AccountInfo
  data : Bytes
  deriving DecidableEq

/-- A proposal for another chain. -/
structure ProposeEvent where
  protocolId : Bytes
  nonce : UInt64
  dstChainId : BitVec 128
  protocolAddress : Bytes
  functionSelector : Bytes
  params : Bytes
  deriving DecidableEq

/-- The events the program emits. -/
inductive Event
  | proposalLoaded (opHash : Bytes) (executor : Pubkey)
  | proposalApproved (opHash : Bytes) (executor : Pubkey)
  | proposalExecuted (opHash : Bytes) (executor : Pubkey)
  | propose (e : ProposeEvent)
  deriving DecidableEq

/-- What an instruction does besides changing accounts. -/
inductive Effect
  | emit (e : Event)
  /-- A call signed by the address derived from `signer`. -/
  | invoke (ix : Instruction) (signer : Seeds)
  /-- The value an instruction returns. -/
  | returned (b : Bool)
  /-- The governance handler succeeded for an operation, called with this code. -/
  | governed (opHash code : Bytes)
  deriving DecidableEq

/-! ## Account checks -/

namespace Env

variable (env : Env)

/-- The account is the one derived from `s`. -/
def checkSeeds (a : AccountInfo) (s : Seeds) : Except Error Unit := do
  let k ← env.derive s
  require (a.key = k) (Error.anchor .constraintSeeds)

/-- The stored configuration. -/
def loadConfig (l : Ledger) (a : AccountInfo) : Except Error Config := do
  env.checkSeeds a .config
  orFail l.config (Error.anchor .accountNotInitialized)

/-- The stored protocol with this id. -/
def loadProtocol (l : Ledger) (a : AccountInfo) (id : Bytes) : Except Error ProtocolInfo := do
  env.checkSeeds a (.protocol id)
  orFail (l.protocols id) (Error.anchor .accountNotInitialized)

/-- The stored operation with this hash. -/
def loadOp (l : Ledger) (a : AccountInfo) (h : Bytes) : Except Error OpInfo := do
  env.checkSeeds a (.op h)
  orFail (l.ops h) (Error.anchor .accountNotInitialized)

/-- The stored configuration, created if it is not there (`init_if_needed`). -/
def initConfig (l : Ledger) (a : AccountInfo) : Except Error Config := do
  env.checkSeeds a .config
  require (a.isWritable = true) (Error.anchor .constraintMut)
  pure (l.config.getD Config.default)

/-- The stored protocol with this id, created if it is not there (`init_if_needed`). -/
def initProtocol (l : Ledger) (a : AccountInfo) (id : Bytes) : Except Error ProtocolInfo := do
  env.checkSeeds a (.protocol id)
  require (a.isWritable = true) (Error.anchor .constraintMut)
  pure ((l.protocols id).getD ProtocolInfo.default)

/-- The account signed the transaction. -/
def checkSigner (a : AccountInfo) : Except Error Unit :=
  require (a.isSigner = true) (Error.anchor .accountNotSigner)

/-- The account may be written. -/
def checkMut (a : AccountInfo) : Except Error Unit :=
  require (a.isWritable = true) (Error.anchor .constraintMut)

/-- The account is the system program. -/
def checkSystemProgram (a : AccountInfo) : Except Error Unit :=
  require (a.key = Pubkey.default) (Error.anchor .invalidProgramId)

variable {env} {l : Ledger} {a : AccountInfo} {u : Unit}

@[simp] theorem checkSeeds_eq_ok {s : Seeds} : env.checkSeeds a s = .ok u ↔
    (∀ p ∈ s.parts, p.length ≤ 32) ∧ a.key = env.pda s := by
  simp only [checkSeeds, Except.bind_eq_ok, derive_eq_ok, Except.require_eq_ok]
  constructor
  · rintro ⟨k, ⟨hlen, rfl⟩, hk⟩
    exact ⟨hlen, hk⟩
  · rintro ⟨hlen, hk⟩
    exact ⟨_, ⟨hlen, rfl⟩, hk⟩

theorem loadProtocol_eq_ok {id : Bytes} {p : ProtocolInfo} : env.loadProtocol l a id = .ok p ↔
    ((∀ q ∈ (Seeds.protocol id).parts, q.length ≤ 32) ∧ a.key = env.pda (.protocol id)) ∧
      l.protocols id = some p := by
  simp [loadProtocol]

theorem loadOp_eq_ok {h : Bytes} {o : OpInfo} : env.loadOp l a h = .ok o ↔
    ((∀ q ∈ (Seeds.op h).parts, q.length ≤ 32) ∧ a.key = env.pda (.op h)) ∧
      l.ops h = some o := by
  simp [loadOp]

end Env

end Photon
