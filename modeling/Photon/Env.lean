import Photon.Bytes
import Photon.Machine

/-!
# Keys, errors, and what the program calls outside itself

The Photon endpoint is an Anchor program. It calls hash functions, `secp256k1_recover`,
`ethabi` and the Solana runtime, none of which is part of it : `Env` holds them as
functions. The laws `Env` carries are those of program-derived addresses (`Seeds`). Two
addresses derived under different tags are different, and none of them is the program's
own id. An account derived from seeds is identified with the seeds themselves in the
ledger (`Photon.Accounts`), which is the other half of "derived addresses do not
collide".

Errors keep the program's own names (`CustomError`) apart from those Anchor raises for an
account list (`AnchorError`). A Rust panic is an error of its own : on chain it fails the
instruction like any other, off chain it takes the process down.
-/

namespace Photon

/-! ## Keys -/

/-- A 32-byte key, on the curve or derived. -/
abbrev Pubkey := Fixed UInt8 32

/-- An Ethereum address. -/
abbrev EthAddress := Fixed UInt8 20

/-- A block of 32 bytes. -/
abbrev Bytes32 := Fixed UInt8 32

/-- The key of 32 zero bytes, which is also the system program's address. -/
def Pubkey.default : Pubkey :=
  Fixed.replicate 32 0

/-- The address of 20 zero bytes. -/
def EthAddress.default : EthAddress :=
  Fixed.replicate 20 0

/-- The base-58 alphabet of key literals. -/
def base58Alphabet : Bytes :=
  asBytes "123456789ABCDEFGHJKLMNPQRSTUVWXYZabcdefghijkmnopqrstuvwxyz"

/-- The key a base-58 literal denotes. -/
def pubkey58 (s : String) : Pubkey :=
  ⟨beBytes 32 ((asBytes s).foldl (fun n c => 58 * n + base58Alphabet.idxOf c) 0),
    length_beBytes 32 _⟩

/-- The program's own id, from its `declare_id!`. -/
def photonId : Pubkey :=
  pubkey58 "pccm961CjaR7T7Hcht9omrXQb9w54ntJo95FFT7N9AJ"

/-- The build feature, which fixes the chain id and the deployer. -/
inductive Feature
  | devnet
  | localnet
  | mainnet
  deriving DecidableEq

/-- The deployer key compiled into the program. -/
def Feature.deployer : Feature → Pubkey
  | .devnet => pubkey58 "843CN5krDmv6ffi2cJ3W2HxQBTzJwEtvuTBsPX7rRsa2"
  | .localnet => pubkey58 "J85q2bNo4FadDqDmUYPLKav14QRexShwEQXxhbkuvEP2"
  | .mainnet => pubkey58 "7M681DVV9eg5jihLwbL4yvcwtPJTpih99f94c9K8Sipx"

/-- The id of the Solana chain in cross-chain messages. -/
def Feature.solanaChainId : Feature → BitVec 128
  | .devnet | .localnet => 100000000000000000000
  | .mainnet => 11100000000000000501

/-! ## Errors -/

/-- The program's own errors. -/
inductive CustomError
  | isNotAdmin
  | protocolNotInit
  | invalidSignature
  | opIsNotForThisChain
  | invalidEndpoint
  | opStateInvalid
  | cachedOpHashMismatch
  | protocolAddressMismatch
  | targetProtocolMismatch
  | executorIsNotAllowed
  | proposerIsNotAllowed
  | operationNotApproved
  | invalidProtoMsg
  | invalidGovMsg
  | invalidMethodSelector
  | invalidOpData
  | invalidAddress
  | protocolAddressNotProvided
  | noTransmittersAllowed
  | maxTransmittersExceeded
  | maxExecutorsExceeded
  | executorIsAlreadyAllowed
  | proposerIsAlreadyAllowed
  | tryingToRemoveLastGovExecutor
  | invalidExecutorAddress
  | invalidProposerAddress
  | maxProposersExceeded
  | consensusTargetRateTooLow
  | consensusTargetRateTooHigh
  | selectorTooBig
  deriving DecidableEq

/-- The errors Anchor raises itself while it reads an instruction and its accounts. -/
inductive AnchorError
  | instructionFallbackNotFound
  | instructionDidNotDeserialize
  | accountNotEnoughKeys
  | accountNotSigner
  | accountNotInitialized
  | accountAlreadyInUse
  | invalidProgramId
  | constraintMut
  | constraintSeeds
  | constraintAddress
  | requireEqViolated
  deriving DecidableEq

/-- Why an instruction fails. -/
inductive Error
  | custom (e : CustomError)
  | anchor (e : AnchorError)
  | panic
  /-- The called program failed. -/
  | callee
  /-- The runtime's limit on nested calls. -/
  | callDepth
  deriving DecidableEq

/-! ## ABI values -/

/-- The `ethabi` parameter types of governance messages. -/
inductive ParamType
  | address
  | bytes
  | uint (bits : ℕ)
  | fixedBytes (len : ℕ)
  | array (item : ParamType)
  | tuple (items : List ParamType)

/-- The `ethabi` values of those types. -/
inductive Token
  | address (a : EthAddress)
  | bytes (b : Bytes)
  | uint (n : ℕ)
  | fixedBytes (b : Bytes)
  | array (items : List Token)
  | tuple (items : List Token)

namespace Token

def intoAddress : Token → Option EthAddress
  | .address a => some a
  | _ => none

def intoBytes : Token → Option Bytes
  | .bytes b => some b
  | _ => none

def intoUint : Token → Option ℕ
  | .uint n => some n
  | _ => none

def intoFixedBytes : Token → Option Bytes
  | .fixedBytes b => some b
  | _ => none

def intoArray : Token → Option (List Token)
  | .array l => some l
  | _ => none

def intoTuple : Token → Option (List Token)
  | .tuple l => some l
  | _ => none

end Token

/-! ## Derived addresses -/

/-- The base seed of every address the program derives. -/
def ROOT : Bytes :=
  asBytes "r0"

/-- What an address of the program is derived from. -/
inductive Seeds
  | config
  | protocol (protocolId : Bytes)
  | op (opHash : Bytes)
  | callAuthority (protocolId : Bytes)
  deriving DecidableEq

namespace Seeds

/-- The literal after the root seed. -/
def tag : Seeds → Bytes
  | .config => asBytes "CONFIG"
  | .protocol _ => asBytes "PROTOCOL"
  | .op _ => asBytes "OP"
  | .callAuthority _ => asBytes "CALL_AUTHORITY"

/-- The seeds as the program passes them, less the bump. -/
def parts (s : Seeds) : List Bytes :=
  match s with
  | .config => [ROOT, s.tag]
  | .protocol id | .op id | .callAuthority id => [ROOT, s.tag, id]

/-- Only an id can be too long for a seed. -/
theorem length_parts_le {s : Seeds}
    (h : ∀ id, s = .protocol id ∨ s = .op id ∨ s = .callAuthority id → id.length ≤ 32) :
    ∀ q ∈ s.parts, q.length ≤ 32 := by
  have htag : s.tag.length ≤ 32 := by
    cases s <;> simp only [tag] <;> decide
  intro q hq
  cases s with
  | config =>
    simp only [parts, List.mem_cons, List.not_mem_nil, or_false] at hq
    rcases hq with rfl | rfl
    · decide
    · exact htag
  | protocol id | op id | callAuthority id =>
    simp only [parts, List.mem_cons, List.not_mem_nil, or_false] at hq
    rcases hq with rfl | rfl | rfl
    · decide
    · exact htag
    · exact h q (by simp)

theorem length_parts_config : ∀ q ∈ config.parts, q.length ≤ 32 :=
  length_parts_le (by simp)

section Ids

variable {id : Bytes}

theorem length_parts_protocol (h : id.length = 32) :
    ∀ q ∈ (Seeds.protocol id).parts, q.length ≤ 32 :=
  length_parts_le (by simp [h])

theorem length_parts_op (h : id.length = 32) : ∀ q ∈ (Seeds.op id).parts, q.length ≤ 32 :=
  length_parts_le (by simp [h])

theorem length_parts_callAuthority (h : id.length = 32) :
    ∀ q ∈ (Seeds.callAuthority id).parts, q.length ≤ 32 :=
  length_parts_le (by simp [h])

end Ids

end Seeds

/-! ## The environment -/

/-- The functions of other crates and of the runtime that the program calls, and the
features it is built with. -/
structure Env where
  feature : Feature
  keccak256 : Bytes → Bytes32
  sha256 : Bytes → Bytes32
  secp256k1Recover : Bytes → UInt8 → Bytes → Option (Fixed UInt8 64)
  abiDecode : List ParamType → Bytes → Option (List Token)
  abiEncode : List Token → Bytes
  findProgramAddress : List Bytes → Pubkey
  /-- Addresses derived under different tags differ. -/
  tag_of_address : ∀ s t : Seeds,
    findProgramAddress s.parts = findProgramAddress t.parts → s.tag = t.tag
  /-- The program's id is not an address it derives. -/
  address_ne_id : ∀ s : Seeds, findProgramAddress s.parts ≠ photonId

namespace Env

variable (env : Env)

/-- The address derived from `s`. -/
def pda (s : Seeds) : Pubkey :=
  env.findProgramAddress s.parts

/-- The address derived from `s`, or a panic if a seed is longer than 32 bytes. -/
def derive (s : Seeds) : Except Error Pubkey := do
  require (∀ p ∈ s.parts, p.length ≤ 32) Error.panic
  pure (env.pda s)

/-- The eight bytes Anchor dispatches on. -/
def sighash (ns name : String) : Bytes :=
  (env.sha256 (asBytes ns ++ asBytes ":" ++ asBytes name)).val.take 8

variable {env}

theorem derive_eq_ok {s : Seeds} {k : Pubkey} : env.derive s = .ok k ↔
    (∀ p ∈ s.parts, p.length ≤ 32) ∧ env.pda s = k := by
  simp [derive]

theorem pda_ne_of_tag {s t : Seeds} (h : s.tag ≠ t.tag) : env.pda s ≠ env.pda t :=
  fun heq => h (env.tag_of_address s t heq)

end Env

end Photon
