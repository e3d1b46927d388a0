import Photon.Endpoint

/-!
# A local deployment

The environment of a validator with the `localnet` build, on the inputs of one governance
operation : the operation that gives the protocol `onefunc` its program address. The hashes,
derived addresses, recovered keys and ABI values are the ones the real functions give on
these inputs. Off them the functions answer with values that keep the laws of `Env`, and
the first byte of an address tells its tag (`tagOf`), which proves these laws for all seeds.
-/

namespace Photon.Localnet

/-- A word from its value. -/
def word (n : ℕ) : Bytes32 :=
  ⟨beBytes 32 n, length_beBytes 32 n⟩

/-! ## The operation -/

def onefuncId : Bytes :=
  asBytes "onefunc_________________________"

def onefuncAddress : Pubkey :=
  pubkey58 "EjpcUpcuJV2Mq9vjELMZHhgpvJ4ggoWtUYCTFqw6D9CZ"

/-- The ABI encoding of `(bytes32, bytes)` with the protocol and its program. -/
def params : Bytes :=
  beBytes 32 32 ++ onefuncId ++ beBytes 32 64 ++ beBytes 32 32 ++ onefuncAddress.val

/-- The code of `AddAllowedProtocolAddress`. -/
def code : Bytes :=
  [0xd2, 0x96, 0xa0, 0xff]

def op : OperationData where
  protocolId := govProtocolId
  opMeta := Fixed.replicate 32 0
  srcChainId := 33133
  srcBlockNumber := 1
  srcOpTxId := [1, 2]
  nonce := 1
  destChainId := 100000000000000000000
  protocolAddr := photonId
  functionSelector := .byCode code
  params := params
  reserved := []

/-- The hash the operation is signed under. -/
def opHash : Bytes :=
  (word 0x8df72a20b3247a4d930886014042c7711a5986edb4eb7a42ff4d571d10652f49).val

/-! ## Transmitters -/

def key1 : Bytes :=
  beBytes 32 0x79be667ef9dcbbac55a06295ce870b07029bfcdb2dce28d959f2815b16f81798 ++
    beBytes 32 0x483ada7726a3c4655da4fbfc0e1108a8fd17b448a68554199c47d08ffb10d4b8

def key2 : Bytes :=
  beBytes 32 0xc6047f9441ed7d6d3045406e95c07cd85c778e4b8cef3ca7abac09b95c709ee5 ++
    beBytes 32 0x1ae168fea63dc339a3c58419466ceaeef7f632653266d0e1236431a950cfe52a

def address (n : ℕ) : EthAddress :=
  ⟨beBytes 20 n, length_beBytes 20 n⟩

def transmitter1 : EthAddress :=
  address 0x7e5f4552091a69125d5dfcb7b8c2659029395bdf

def transmitter2 : EthAddress :=
  address 0x2b5ad5c4795c026514f8317c7a215e218dccd6cf

def transmitter3 : EthAddress :=
  address 0x6813eb9362372eef6200f3b1dbc3f819671cba69

/-- The first transmitter's signature of the operation. -/
def signature1 : TransmitterSignature where
  v := 27
  r := beBytes 32 0xd47644539acec3da5e3ecf5fe8863c628a9c97e8b71e9ea9167a6f4f83c03c32
  s := beBytes 32 0x7036c81c8c12a9b6b79bd877d85b5b098d414992dc97ea75d710985fedfafc9d

/-- The second transmitter's signature of the operation. -/
def signature2 : TransmitterSignature where
  v := 27
  r := beBytes 32 0xf30e4bd8094e53a679ddb8f55b5216b03c44623fc4279ef0791f9aa1f6930d49
  s := beBytes 32 0x19d0910b86b3326059da5c113ed41547ae4c0d46d57af66286b2d440035a21de

/-! ## Functions of other crates -/

/-- The digest of the operation's bytes. -/
def digest : Bytes32 :=
  word 0x23935d7b3aba56c8b6c043f48d10effa4258ab925d6604d4b8d6f4db2525550d

def keccak256 (b : Bytes) : Bytes32 :=
  if op.opDataEvm = .ok b then digest
  else if b = MSG ++ digest.val then
    word 0x8df72a20b3247a4d930886014042c7711a5986edb4eb7a42ff4d571d10652f49
  else if b = key1 then
    word 0xc0a6c424ac7157ae408398df7e5f4552091a69125d5dfcb7b8c2659029395bdf
  else if b = key2 then
    word 0xeedf1a9c68b3f4a8b1a1032b2b5ad5c4795c026514f8317c7a215e218dccd6cf
  else word 0

def sha256 (b : Bytes) : Bytes32 :=
  if b = asBytes "global:initialize" then
    word 0xafaf6d1f0d989bedd46a95073281adc21bb5e0e1d773b2fbbd7ab504cdd4aa30
  else if b = asBytes "global:load_operation" then
    word 0xfda9f12af39f3e1b6a2010ba5a8c88965f74baa2b774321e8dab7a578f13c365
  else if b = asBytes "global:sign_operation" then
    word 0x769de09c75cf08f48185040db772be6631c9c55423ca77a43c7a01645a9b2003
  else if b = asBytes "global:execute_operation" then
    word 0x69f0fa9f41846fb9ac4fc87388f9c33636d9363c02b114136b3c50d5b117826f
  else if b = asBytes "global:propose" then
    word 0x5dfd52a87621665a1a3006bc09888e08477c274edd3f7ad19c9ef449c9b3f63a
  else if b = asBytes "global:receive_photon_msg" then
    word 0xd423a97c0c261ac5710fa82e11baf6be92cf75c84481db8f4ab65e334b3ad8f9
  else if b = asBytes "global:set_admin" then
    word 0xfba300345bc2bb5c2276288ddbfa511b9bd5ebf5fff5ed1dc5f30fa0fff3fe70
  else word 0

def secp256k1Recover (hash : Bytes) (v : UInt8) (signature : Bytes) :
    Option (Fixed UInt8 64) :=
  if hash = opHash ∧ v = 0 ∧ signature = signature1.r ++ signature1.s then
    some ⟨key1, by simp [key1]⟩
  else if hash = opHash ∧ v = 0 ∧ signature = signature2.r ++ signature2.s then
    some ⟨key2, by simp [key2]⟩
  else none

def abiDecode (types : List ParamType) (b : Bytes) : Option (List Token) :=
  match types with
  | [.tuple [.fixedBytes 32, .bytes]] =>
    if b = params then some [.tuple [.fixedBytes onefuncId, .bytes onefuncAddress.val]] else none
  | _ => none

/-! ## Addresses -/

/-- An address of which only the first byte matters. -/
def other (b : UInt8) : Pubkey :=
  ⟨b :: List.replicate 31 0, by simp⟩

def findProgramAddress : List Bytes → Pubkey
  | [_, tag, id] =>
    if tag = asBytes "PROTOCOL" then
      if id = govProtocolId then pubkey58 "3S41QhsrzERXpFuAiJD2uZbUqEyvS2FYHPHKak6MKMdr"
      else if id = onefuncId then pubkey58 "CEAiFxWTn7Y2p3K8WxbsAFuUKMJqCQvreGWnNuBCsR41"
      else other 0x24
    else if tag = asBytes "OP" then
      if id = opHash then pubkey58 "7PFLaZbVqEF4qqscvaLhQ1ANHb6huGT4Y9tmvBk2aEBL" else other 0x5e
    else if id = govProtocolId then pubkey58 "6u4X75BQKZW8Zv9DHWRdGpf8Bh5y95B2q6ZpjRhTcMyd"
    else other 0x57
  | _ => pubkey58 "H3k5ZHGE7ZGx2zcQKN1okERWTkguUdCn2AcaEEqRcryV"

/-- The tag of a derived address, from its first byte. -/
def tagOf (k : Pubkey) : Option Bytes :=
  match k.val.head? with
  | some 0xee => some (asBytes "CONFIG")
  | some 0x24 | some 0xa6 => some (asBytes "PROTOCOL")
  | some 0x5e => some (asBytes "OP")
  | some 0x57 => some (asBytes "CALL_AUTHORITY")
  | _ => none

theorem tagOf_findProgramAddress (s : Seeds) :
    tagOf (findProgramAddress s.parts) = some s.tag := by
  cases s with
  | config => decide +kernel
  | protocol id =>
    simp only [Seeds.parts, Seeds.tag, findProgramAddress, if_true]
    split_ifs <;> decide +kernel
  | op h =>
    have hne : asBytes "OP" ≠ asBytes "PROTOCOL" := by decide +kernel
    simp only [Seeds.parts, Seeds.tag, findProgramAddress, if_true, if_neg hne]
    split_ifs <;> decide +kernel
  | callAuthority id =>
    have hne : asBytes "CALL_AUTHORITY" ≠ asBytes "PROTOCOL" := by decide +kernel
    have hne' : asBytes "CALL_AUTHORITY" ≠ asBytes "OP" := by decide +kernel
    simp only [Seeds.parts, Seeds.tag, findProgramAddress, if_neg hne, if_neg hne']
    split_ifs <;> decide +kernel

theorem ne_findProgramAddress {k : Pubkey} (hk : tagOf k = none) (s : Seeds) :
    k ≠ findProgramAddress s.parts := by
  rintro rfl
  rw [tagOf_findProgramAddress] at hk
  simp at hk

/-- The environment. -/
def localnet : Env where
  feature := .localnet
  keccak256 := keccak256
  sha256 := sha256
  secp256k1Recover := secp256k1Recover
  abiDecode := abiDecode
  abiEncode _ := []
  findProgramAddress := findProgramAddress
  tag_of_address s t h := by
    have hst := congrArg tagOf h
    rw [tagOf_findProgramAddress, tagOf_findProgramAddress] at hst
    exact Option.some_inj.1 hst
  address_ne_id s h := by
    have hid : tagOf photonId = none := by decide +kernel
    exact ne_findProgramAddress hid s h.symm

theorem distinctMethods_localnet : localnet.DistinctMethods := by
  unfold Env.DistinctMethods
  decide +kernel

/-! ## Calls -/

/-- The deployer's wallet, which is also the governance executor here. -/
def wallet : AccountInfo :=
  ⟨Feature.localnet.deployer, true, true⟩

def derived (s : Seeds) : AccountInfo :=
  ⟨localnet.pda s, false, true⟩

def program (k : Pubkey) : AccountInfo :=
  ⟨k, false, false⟩

/-- A call in which only the wallet signs. -/
def call (ix : Ix) (accounts : List AccountInfo)
    (h : ∀ a ∈ accounts,
      a = wallet ∨ a.isSigner = false ∧ (a.isWritable = true → a.key ≠ photonId)) :
    Invocation localnet where
  ix := ix
  accounts := accounts
  depth := 4
  answer _ := true
  derived_not_signer a ha hsig s := by
    rcases h a ha with rfl | ⟨hno, -⟩
    · exact ne_findProgramAddress (by decide +kernel) s
    · simp [hno] at hsig
  program_not_writable a ha hw := by
    rcases h a ha with rfl | ⟨-, hne⟩
    · decide +kernel
    · exact hne hw

/-- Set up the governance protocol with these transmitters and this rate. -/
def setUp (rate : UInt64) (transmitters : List EthAddress) : Invocation localnet :=
  call (.initializeProgram 33133 (List.replicate 32 0) rate transmitters [wallet.key])
    [wallet, derived (.protocol govProtocolId), derived .config, program Pubkey.default]
    (by decide +kernel)

def load : Invocation localnet :=
  call (.loadOperation op opHash)
    [wallet, derived (.protocol govProtocolId), derived (.op opHash), derived .config,
      program Pubkey.default] (by decide +kernel)

def sign (signatures : List TransmitterSignature) : Invocation localnet :=
  call (.signOperation opHash signatures)
    [wallet, derived (.op opHash), derived (.protocol govProtocolId)] (by decide +kernel)

/-- Execute the operation, with the accounts that its handler needs. -/
def execute : Invocation localnet :=
  call (.executeOperation opHash)
    [wallet, derived (.op opHash), derived (.protocol govProtocolId),
      derived (.callAuthority govProtocolId), program photonId, derived .config,
      derived (.protocol govProtocolId), derived (.protocol onefuncId), program Pubkey.default]
    (by decide +kernel)

/-- Call the handler from outside, with the wallet in place of the call authority. -/
def receive (code : Bytes) : Invocation localnet :=
  call (.receivePhotonMsg opHash code params)
    [wallet, wallet, derived (.op opHash), derived .config, derived (.protocol govProtocolId),
      derived (.protocol onefuncId), program Pubkey.default] (by decide +kernel)

/-- Two transmitters sign the operation, in two calls. -/
def approval : List (List (Invocation localnet)) :=
  [[setUp 10000 [transmitter1, transmitter2]], [load], [sign [signature1]], [sign [signature2]]]

end Photon.Localnet
