import Mathlib.Data.List.Destutter
import Photon.Accounts

/-!
# Governance operations

A governance operation is selected by the first four bytes of a code (`GovOperation`) and
acts on one target protocol, whose id is the first field of its ABI-encoded params
(`targetProtocol`). `handleGovOperation` runs the handler that the code it is given
selects, on the params of the operation.

The handlers that keep a list of keys in a fixed array share their bodies : `addKey`
refuses the zero key, a key that is there and a full array, `removeKey` filters. The
transmitter handlers differ among themselves in how they treat zero and repeated
addresses, and each keeps its own body.
-/

namespace Photon

/-- The governance operations, by their selectors. -/
inductive GovOperation
  | addAllowedProtocol
  | addAllowedProtocolAddress
  | removeAllowedProtocolAddress
  | addAllowedProposerAddress
  | removeAllowedProposerAddress
  | addExecutor
  | removeExecutor
  | addTransmitters
  | removeTransmitters
  | updateTransmitters
  | setConsensusTargetRate
  deriving DecidableEq

namespace GovOperation

/-- The `u32` an operation is selected by. -/
def code : GovOperation → ℕ
  | .addAllowedProtocol => 0x45a004b9
  | .addAllowedProtocolAddress => 0xd296a0ff
  | .removeAllowedProtocolAddress => 0xb0a4ca98
  | .addAllowedProposerAddress => 0xce0940a5
  | .removeAllowedProposerAddress => 0xb8e5f3f4
  | .addExecutor => 0xe0aafb68
  | .removeExecutor => 0x04fa384a
  | .addTransmitters => 0x6c5f5666
  | .removeTransmitters => 0x5206da70
  | .updateTransmitters => 0x654b46e1
  | .setConsensusTargetRate => 0x970b6109

def all : List GovOperation :=
  [.addAllowedProtocol, .addAllowedProtocolAddress, .removeAllowedProtocolAddress,
    .addAllowedProposerAddress, .removeAllowedProposerAddress, .addExecutor, .removeExecutor,
    .addTransmitters, .removeTransmitters, .updateTransmitters, .setConsensusTargetRate]

/-- The operation with this `u32`. -/
def tryFrom (n : ℕ) : Option GovOperation :=
  all.find? fun g => g.code = n

end GovOperation

def U32_SIZE : ℕ := 4

/-- The `u32` in the first four bytes of a code. -/
def selectorU32 (code : Bytes) : ℕ :=
  beNat (code.take U32_SIZE)

/-! ## Decoding params -/

/-- The ABI scheme of an operation's params. -/
def abiDecodeScheme : GovOperation → ParamType
  | .addAllowedProtocol => .tuple [.fixedBytes 32, .uint 256, .array .address]
  | .addAllowedProtocolAddress => .tuple [.fixedBytes 32, .bytes]
  | .removeAllowedProtocolAddress => .tuple [.fixedBytes 32, .bytes]
  | .addAllowedProposerAddress => .tuple [.fixedBytes 32, .bytes]
  | .removeAllowedProposerAddress => .tuple [.fixedBytes 32, .bytes]
  | .addExecutor => .tuple [.fixedBytes 32, .bytes]
  | .removeExecutor => .tuple [.fixedBytes 32, .bytes]
  | .addTransmitters => .tuple [.fixedBytes 32, .array .address]
  | .removeTransmitters => .tuple [.fixedBytes 32, .array .address]
  | .updateTransmitters => .tuple [.fixedBytes 32, .array .address, .array .address]
  | .setConsensusTargetRate => .tuple [.fixedBytes 32, .uint 256]

variable (env : Env)

/-- Decode params that are one tuple. -/
def decodeAbiParams (calldata : Bytes) (t : ParamType) : Except Error (List Token) := do
  let decoded ← orFail (env.abiDecode [t] calldata) (Error.custom .invalidProtoMsg)
  let first ← orFail decoded.head? (Error.custom .invalidProtoMsg)
  orFail first.intoTuple (Error.custom .invalidProtoMsg)

/-- The protocol an operation acts on, from its code and params. -/
def targetProtocolByCode (code params : Bytes) : Except String Bytes := do
  require (U32_SIZE ≤ code.length) "Selector to short"
  let g ← orFail (GovOperation.tryFrom (selectorU32 code))
    "Failed to get gov_operation from selector"
  match decodeAbiParams env params (abiDecodeScheme g) with
  | .error _ => .error "Failed to decode abi params"
  | .ok tokens => do
    let first ← orFail tokens.head? "Failed to get first decoded abi param"
    orFail first.intoFixedBytes "Failed to convert first decoded abi param as fixed_bytes"

/-- The protocol an operation acts on. Panics on a selector that is not a known code. -/
def targetProtocol (selector : FunctionSelector) (params : Bytes) : Except Error Bytes :=
  match selector with
  | .byCode code =>
    match targetProtocolByCode env code params with
    | .ok id => .ok id
    | .error _ => .error .panic
  | _ => .error .panic

/-- The indexing `params[i]`. -/
def param (tokens : List Token) (i : ℕ) : Except Error Token :=
  orFail tokens[i]? Error.panic

/-- The conversion `U256::as_u64`, which panics on a larger number. -/
def asU64 (n : ℕ) : Except Error UInt64 := do
  require (n < 2 ^ 64) Error.panic
  pure (UInt64.ofNat n)

/-- The key in the second field of a `(bytes32, bytes)` message. -/
def decodeKey (calldata : Bytes) : Except Error Pubkey := do
  let params ← decodeAbiParams env calldata (.tuple [.fixedBytes 32, .bytes])
  let token ← param params 1
  let bytes ← orFail token.intoBytes (Error.custom .invalidGovMsg)
  orFail (Fixed.ofList? 32 bytes) (Error.custom .invalidGovMsg)

/-! ## Protocols, addresses and rates -/

def checkConsensusTargetRate (rate : UInt64) : Except Error Unit := do
  require (rate ≠ 0) (Error.custom .consensusTargetRateTooLow)
  require (rate.toNat ≤ RATE_DECIMALS) (Error.custom .consensusTargetRateTooHigh)

/-- The next nonce, with overflow checks on. -/
def nextNonce (c : Config) : Except Error Config := do
  require (c.nonce.toNat + 1 < 2 ^ 64) Error.panic
  pure { c with nonce := c.nonce + 1 }

def HANDLE_ADD_ALLOWED_PROTOCOL_SELECTOR : Bytes :=
  [0xba, 0x96, 0x6e, 0x5f] ++ List.replicate 28 0

/-- Tell the master contract that a protocol was added. -/
def proposeHandleAddAllowedProtocol (params : List Token) (c : Config) :
    Except Error (Config × List Effect) := do
  let nonce := c.nonce
  let c ← nextNonce c
  let functionSelector :=
    [0, 32] ++ env.abiEncode [.fixedBytes HANDLE_ADD_ALLOWED_PROTOCOL_SELECTOR]
  let token ← param params 0
  let protocolId ← orFail token.intoFixedBytes (Error.custom .invalidGovMsg)
  let params :=
    env.abiEncode [.tuple [.fixedBytes protocolId, .uint env.feature.solanaChainId.toNat]]
  pure (c, [.emit (.propose
    { protocolId := govProtocolId
      nonce := nonce
      dstChainId := BitVec.ofNat 128 c.eobChainId.toNat
      protocolAddress := c.eobMasterSmartContract.val
      functionSelector := functionSelector
      params := params })])

/-- Register a protocol. The transmitters are written over the first slots; what was in
the later ones stays. -/
def addAllowedProtocol (calldata : Bytes) (p : ProtocolInfo) (c : Config) :
    Except Error (Config × ProtocolInfo × List Effect) := do
  let params ← decodeAbiParams env calldata
    (.tuple [.fixedBytes 32, .uint 256, .array .address])
  let rateToken ← param params 1
  let rateUint ← orFail rateToken.intoUint (Error.custom .invalidGovMsg)
  let rate ← asU64 rateUint
  checkConsensusTargetRate rate
  let listToken ← param params 2
  let items ← orFail listToken.intoArray (Error.custom .invalidGovMsg)
  let transmitters ← items.mapM fun x => orFail x.intoAddress Error.panic
  let array ← orFail (Slots.overwrite p.transmittersArray transmitters) Error.panic
  let p := { p with isInit := true, consensusTargetRate := rate, transmittersArray := array }
  let (c, effects) ← proposeHandleAddAllowedProtocol env params c
  pure (c, p, effects)

def addAllowedProtocolAddress (calldata : Bytes) (p : ProtocolInfo) :
    Except Error ProtocolInfo := do
  let key ← decodeKey env calldata
  pure { p with protocolAddress := key }

def removeAllowedProtocolAddress (p : ProtocolInfo) : ProtocolInfo :=
  { p with protocolAddress := Pubkey.default }

def setConsensusTargetRate (calldata : Bytes) (p : ProtocolInfo) : Except Error ProtocolInfo := do
  let params ← decodeAbiParams env calldata (.tuple [.fixedBytes 32, .uint 256])
  let token ← param params 1
  let n ← orFail token.intoUint (Error.custom .invalidGovMsg)
  let rate ← asU64 n
  checkConsensusTargetRate rate
  pure { p with consensusTargetRate := rate }

/-! ## Executors and proposers -/

/-- Add a key to the list `keys` : not the zero key, not one that is there, and not
beyond `max`. -/
def addKey (zeroError thereError fullError : CustomError) (max : ℕ) (keys : List Pubkey)
    (key : Pubkey) : Except Error (Fixed Pubkey 20) := do
  require (key ≠ Pubkey.default) (Error.custom zeroError)
  require (key ∉ keys) (Error.custom thereError)
  require (keys.length < max) (Error.custom fullError)
  orFail (Slots.fill Pubkey.default (keys ++ [key])) Error.panic

/-- Remove every copy of a key. -/
def removeKey (keys : List Pubkey) (key : Pubkey) : List Pubkey :=
  keys.filter (· ≠ key)

def addAllowedProposerAddress (calldata : Bytes) (p : ProtocolInfo) :
    Except Error ProtocolInfo := do
  let proposer ← decodeKey env calldata
  let array ← addKey .invalidProposerAddress .proposerIsAlreadyAllowed .maxProposersExceeded
    MAX_PROPOSERS p.proposers proposer
  pure { p with proposersArray := array }

def removeAllowedProposerAddress (calldata : Bytes) (p : ProtocolInfo) :
    Except Error ProtocolInfo := do
  let proposer ← decodeKey env calldata
  let array ← orFail (Slots.fill Pubkey.default (removeKey p.proposers proposer)) Error.panic
  pure { p with proposersArray := array }

def addExecutor (calldata : Bytes) (p : ProtocolInfo) : Except Error ProtocolInfo := do
  let executor ← decodeKey env calldata
  let array ← addKey .invalidExecutorAddress .executorIsAlreadyAllowed .maxExecutorsExceeded
    MAX_EXECUTORS p.executors executor
  pure { p with executorsArray := array }

/-- Remove an executor. `protocolId` is the protocol of the carrying operation, not of the
target. -/
def removeExecutor (calldata protocolId : Bytes) (p : ProtocolInfo) :
    Except Error ProtocolInfo := do
  let executor ← decodeKey env calldata
  let executors := removeKey p.executors executor
  require (¬(executors = [] ∧ protocolId = govProtocolId))
    (Error.custom .tryingToRemoveLastGovExecutor)
  let array ← orFail (Slots.fill Pubkey.default executors) Error.panic
  pure { p with executorsArray := array }

/-! ## Transmitters -/

/-- The nonzero addresses of a list; items that are not addresses are dropped. -/
def getTransmittersToAdd (t : Token) : Except Error (List EthAddress) := do
  let items ← orFail t.intoArray (Error.custom .invalidGovMsg)
  pure ((items.filterMap Token.intoAddress).filter (· ≠ EthAddress.default))

/-- The addresses of a list; an item that is not an address is an error. -/
def getTransmittersToRemove (t : Token) : Except Error (List EthAddress) := do
  let items ← orFail t.intoArray (Error.custom .invalidGovMsg)
  items.mapM fun x => orFail x.intoAddress (Error.custom .invalidGovMsg)

/-- Append the addresses, drop repetitions of neighbours (`Vec::dedup`), and refuse a full
list. -/
def addTransmittersImpl (toAdd : List EthAddress) (p : ProtocolInfo) :
    Except Error ProtocolInfo := do
  let total := (p.transmitters ++ toAdd).destutter (· ≠ ·)
  require (total.length < MAX_TRANSMITTERS) (Error.custom .maxTransmittersExceeded)
  let array ← orFail (Slots.fill EthAddress.default total) Error.panic
  pure { p with transmittersArray := array }

def removeTransmittersImpl (toRemove : List EthAddress) (p : ProtocolInfo) :
    Except Error ProtocolInfo := do
  let total := p.transmitters.filter (· ∉ toRemove)
  let array ← orFail (Slots.fill EthAddress.default total) Error.panic
  pure { p with transmittersArray := array }

def addTransmitters (calldata : Bytes) (p : ProtocolInfo) : Except Error ProtocolInfo := do
  let params ← decodeAbiParams env calldata (abiDecodeScheme .addTransmitters)
  let token ← param params 1
  let transmitters ← getTransmittersToAdd token
  require (transmitters ≠ []) (Error.custom .noTransmittersAllowed)
  addTransmittersImpl transmitters p

def removeTransmitters (calldata : Bytes) (p : ProtocolInfo) : Except Error ProtocolInfo := do
  let params ← decodeAbiParams env calldata (abiDecodeScheme .removeTransmitters)
  let token ← param params 1
  let toRemove ← getTransmittersToRemove token
  removeTransmittersImpl toRemove p

def updateTransmitters (calldata : Bytes) (p : ProtocolInfo) : Except Error ProtocolInfo := do
  let params ← decodeAbiParams env calldata (abiDecodeScheme .updateTransmitters)
  let removeToken ← param params 2
  let toRemove ← getTransmittersToRemove removeToken
  let p ← if toRemove = [] then pure p else removeTransmittersImpl toRemove p
  let addToken ← param params 1
  let toAdd ← getTransmittersToAdd addToken
  if toAdd = [] then pure p else addTransmittersImpl toAdd p

/-! ## Dispatch -/

/-- Run the handler selected by `code` on the params of `op`. -/
def handleGovOperation (c : Config) (p : ProtocolInfo) (code : Bytes) (op : OperationData) :
    Except Error (Config × ProtocolInfo × List Effect) := do
  require (U32_SIZE ≤ code.length) (Error.custom .invalidMethodSelector)
  let g ← orFail (GovOperation.tryFrom (selectorU32 code)) (Error.custom .invalidMethodSelector)
  let only (r : Except Error ProtocolInfo) :
      Except Error (Config × ProtocolInfo × List Effect) := do
    let p ← r
    pure (c, p, [])
  match g with
  | .addAllowedProtocol => addAllowedProtocol env op.params p c
  | .addAllowedProtocolAddress => only (addAllowedProtocolAddress env op.params p)
  | .removeAllowedProtocolAddress => only (pure (removeAllowedProtocolAddress p))
  | .addAllowedProposerAddress => only (addAllowedProposerAddress env op.params p)
  | .removeAllowedProposerAddress => only (removeAllowedProposerAddress env op.params p)
  | .addExecutor => only (addExecutor env op.params p)
  | .removeExecutor => only (removeExecutor env op.params op.protocolId p)
  | .addTransmitters => only (addTransmitters env op.params p)
  | .removeTransmitters => only (removeTransmitters env op.params p)
  | .updateTransmitters => only (updateTransmitters env op.params p)
  | .setConsensusTargetRate => only (setConsensusTargetRate env op.params p)

end Photon
