import Photon.Localnet

/-!
# Deployments with given operations

The environment of a validator for a list of governance operations that its first
transmitter has signed. Each operation comes with the values that the real functions give
for it (`SignedOp`). Off these the environment is that of `Localnet`, so it keeps the laws of
`Env` for any such list.

A call lists the accounts it hands over by what they are (`Handed`) : the wallet, the only one
to sign, an address the endpoint derives, or a program.
-/

namespace Photon.Deployment

open Localnet

/-- A governance operation with its hashes, the first transmitter's signature, its decoded
params and the address of its account. -/
structure SignedOp where
  op : OperationData
  digest : Bytes32
  hash : Bytes32
  signature : TransmitterSignature
  decoded : List ParamType → Option (List Token)
  address : Pubkey
  tagOf_address : tagOf address = some (asBytes "OP")

/-- The values of a message of a key, or of one of addresses. -/
def decodeAs (key addresses : Option (List Token)) : List ParamType → Option (List Token)
  | [.tuple [.fixedBytes 32, .bytes]] => key
  | [.tuple [.fixedBytes 32, .array .address]] => addresses
  | _ => none

theorem length_key1 : key1.length = 64 := by
  simp [key1]

theorem tagOf_photonId : tagOf photonId = none := by
  decide +kernel

theorem tagOf_wallet : tagOf wallet.key = none := by
  decide +kernel

theorem wallet_ne_photonId : wallet.key ≠ photonId := by
  decide +kernel

section Environment

variable (known : List SignedOp)

def keccak256 (b : Bytes) : Bytes32 :=
  match known.find? fun k => k.op.opDataEvm = .ok b with
  | some k => k.digest
  | none =>
    match known.find? fun k => MSG ++ k.digest.val = b with
    | some k => k.hash
    | none => Localnet.keccak256 b

def secp256k1Recover (hash : Bytes) (v : UInt8) (signature : Bytes) :
    Option (Fixed UInt8 64) :=
  match known.find? fun k => k.hash.val = hash ∧ k.signature.v % 27 = v ∧
      k.signature.r ++ k.signature.s = signature with
  | some _ => some ⟨key1, length_key1⟩
  | none => Localnet.secp256k1Recover hash v signature

def abiDecode (types : List ParamType) (b : Bytes) : Option (List Token) :=
  match known.find? fun k => k.op.params = b with
  | some k => k.decoded types
  | none => Localnet.abiDecode types b

def findProgramAddress (seeds : List Bytes) : Pubkey :=
  match known.find? fun k => (Seeds.op k.hash.val).parts = seeds with
  | some k => k.address
  | none => Localnet.findProgramAddress seeds

theorem tagOf_derived (s : Seeds) : tagOf (findProgramAddress known s.parts) = some s.tag := by
  unfold findProgramAddress
  split
  · rename_i k hk
    have hparts : (Seeds.op k.hash.val).parts = s.parts := by simpa using List.find?_some hk
    rw [k.tagOf_address]
    cases s with
    | op h => rfl
    | config => simp [Seeds.parts] at hparts
    | protocol id | callAuthority id =>
      simp only [Seeds.parts, List.cons.injEq, true_and] at hparts
      exact congrArg some hparts.1
  · exact tagOf_findProgramAddress s

/-- The environment. -/
def deployed : Env where
  feature := .localnet
  keccak256 := keccak256 known
  sha256 := Localnet.sha256
  secp256k1Recover := secp256k1Recover known
  abiDecode := abiDecode known
  abiEncode _ := []
  findProgramAddress := findProgramAddress known
  tag_of_address s t h := by
    have hst := congrArg tagOf h
    rw [tagOf_derived, tagOf_derived] at hst
    exact Option.some_inj.1 hst
  address_ne_id s h := by
    have hid := tagOf_photonId
    rw [← h, tagOf_derived] at hid
    simp at hid

theorem distinctMethods_deployed : (deployed known).DistinctMethods :=
  distinctMethods_localnet

end Environment

/-! ## Calls -/

/-- An account handed to a call. -/
inductive Handed
  | wallet
  | derived (s : Seeds)
  | program (k : Pubkey)

variable (known : List SignedOp)

def Handed.info : Handed → AccountInfo
  | .wallet => Localnet.wallet
  | .derived s => ⟨(deployed known).pda s, false, true⟩
  | .program k => ⟨k, false, false⟩

def call (ix : Ix) (handed : List Handed) : Invocation (deployed known) where
  ix := ix
  accounts := handed.map (·.info known)
  depth := 4
  answer _ := true
  derived_not_signer a ha hsig s := by
    obtain ⟨x, -, rfl⟩ := List.mem_map.1 ha
    cases x with
    | wallet =>
      intro hkey
      have htag := tagOf_wallet
      rw [show Localnet.wallet.key = _ from hkey, Env.pda, deployed, tagOf_derived] at htag
      simp at htag
    | derived t | program k => simp [Handed.info] at hsig
  program_not_writable a ha hw := by
    obtain ⟨x, -, rfl⟩ := List.mem_map.1 ha
    cases x with
    | wallet => exact wallet_ne_photonId
    | derived t => exact (deployed known).address_ne_id t
    | program k => simp [Handed.info] at hw

/-- Set up the governance protocol, with the wallet as its executor. -/
def setUp (rate : UInt64) (transmitters : List EthAddress) : Invocation (deployed known) :=
  call known (.initializeProgram 33133 (List.replicate 32 0) rate transmitters
      [Localnet.wallet.key])
    [.wallet, .derived (.protocol govProtocolId), .derived .config, .program Pubkey.default]

def load (k : SignedOp) : Invocation (deployed known) :=
  call known (.loadOperation k.op k.hash.val)
    [.wallet, .derived (.protocol govProtocolId), .derived (.op k.hash.val), .derived .config,
      .program Pubkey.default]

def sign (k : SignedOp) : Invocation (deployed known) :=
  call known (.signOperation k.hash.val [k.signature])
    [.wallet, .derived (.op k.hash.val), .derived (.protocol govProtocolId)]

/-- Execute an operation that acts on the protocol `target`. -/
def execute (k : SignedOp) (target : Bytes) : Invocation (deployed known) :=
  call known (.executeOperation k.hash.val)
    [.wallet, .derived (.op k.hash.val), .derived (.protocol govProtocolId),
      .derived (.callAuthority govProtocolId), .program photonId, .derived .config,
      .derived (.protocol govProtocolId), .derived (.protocol target), .program Pubkey.default]

/-! ## Operations -/

/-- An operation of the governance protocol. -/
def govOp (nonce : UInt64) (code params : Bytes) : OperationData :=
  { Localnet.op with nonce := nonce, functionSelector := .byCode code, params := params }

/-- The operation of `Localnet`, which gives `onefunc` its program address. -/
def giveAddress : SignedOp where
  op := Localnet.op
  digest := Localnet.digest
  hash := word 0x8df72a20b3247a4d930886014042c7711a5986edb4eb7a42ff4d571d10652f49
  signature := signature1
  decoded types := Localnet.abiDecode types Localnet.params
  address := pubkey58 "7PFLaZbVqEF4qqscvaLhQ1ANHb6huGT4Y9tmvBk2aEBL"
  tagOf_address := by decide +kernel

/-- `AddTransmitters` for the governance protocol, with its first transmitter. -/
def addFirstAgain : SignedOp where
  op := govOp 101 [0x6c, 0x5f, 0x56, 0x66]
    (beBytes 32 32 ++ govProtocolId ++ beBytes 32 64 ++ beBytes 32 1 ++ List.replicate 12 0 ++
      transmitter1.val)
  digest := word 0x353573e786972cbb9b5a9dd58ad9f00419bc3fd5ddab8381456e9345dbfa4f37
  hash := word 0x5f104c9ed94e574ba1494d22073e4e0fb2af89c248656b08892678f19eb7b1d7
  signature :=
    { v := 27
      r := beBytes 32 0xa2b81ea961c1b1b7d681f8f4982c8d94f897a91ebad35f226c45b266b939b336
      s := beBytes 32 0x6d97db1b4655cbb528b8cca4659a8aa4fbbf84f1b222c33cee6b8e7506270e0 }
  decoded := decodeAs none
    (some [.tuple [.fixedBytes govProtocolId, .array [.address transmitter1]]])
  address := pubkey58 "7NgYuGh3RvC51PjbW39hqnRjn64LrPuXhRHFP8WJsYDi"
  tagOf_address := by decide +kernel

/-- `RemoveAllowedProtocolAddress` for the governance protocol. -/
def removeAddress : SignedOp where
  op := govOp 483 [0xb0, 0xa4, 0xca, 0x98]
    (beBytes 32 32 ++ govProtocolId ++ beBytes 32 64 ++ beBytes 32 32 ++ photonId.val)
  digest := word 0x265af12baa1c815f9d4b56b5c71bc257f31d554378cc52ba57e003c166302f46
  hash := word 0x8eb9d75a6c6075b3e8f8511e54f4da63493f8bdb4d1722c8d1027c5b8dbcd03a
  signature :=
    { v := 27
      r := beBytes 32 0x28ce9e6289bf251191ed638860a6cf440dc734eaf121078b00a2de3ae9612c6a
      s := beBytes 32 0x6cee0837d8fb493a6aa22d44a96e54262adf2812a15e0070584f72e3662f505a }
  decoded := decodeAs (some [.tuple [.fixedBytes govProtocolId, .bytes photonId.val]]) none
  address := pubkey58 "7NyTXbmRHBc5wVT1TNFqRukqXLuzVYgg3D9SeKg3SZ93"
  tagOf_address := by decide +kernel

/-- `AddAllowedProposerAddress` for `onefunc`, with the wallet. -/
def addProposer : SignedOp where
  op := govOp 38 [0xce, 0x09, 0x40, 0xa5]
    (beBytes 32 32 ++ onefuncId ++ beBytes 32 64 ++ beBytes 32 32 ++ Localnet.wallet.key.val)
  digest := word 0xf9dd6b50e97491f119bf1fd5039dffb3e656bca9d19daf5d6852c8f39522e6dc
  hash := word 0xe557a1147bed0d17020ff914bc66483e5abc47acfaf817b23b6f7fe11f844e38
  signature :=
    { v := 27
      r := beBytes 32 0x63dbcb29b0178a5ee2ba4d2182e4b24a00f444f7668064ad6e9aa2e19e2528d4
      s := beBytes 32 0x6b7544a275c75b8ffce1eb327902f033a1cab1291d4056a0e46c7de2b0b8f8b5 }
  decoded := decodeAs (some [.tuple [.fixedBytes onefuncId, .bytes Localnet.wallet.key.val]]) none
  address := pubkey58 "7LhZmxr4gAuXamaVuSi6CMok2tfEhKyLGTknXCpj7dD9"
  tagOf_address := by decide +kernel

/-- `AddExecutor` for `onefunc`, with the wallet. -/
def addOnefuncExecutor : SignedOp where
  op := govOp 33 [0xe0, 0xaa, 0xfb, 0x68]
    (beBytes 32 32 ++ onefuncId ++ beBytes 32 64 ++ beBytes 32 32 ++ Localnet.wallet.key.val)
  digest := word 0x597061565d11e79c8a18c7c6bc288e273637d74797e36ff39ab06a41340a188d
  hash := word 0xdeaa211a7624cc7708a0e4d4917bde28d54c449217bfac087a93e886a5596ce8
  signature :=
    { v := 27
      r := beBytes 32 0x2911b768531ac26d8d0333c5bfbf8ab4ad28c3eeceb7c57f863cc0acefddd66c
      s := beBytes 32 0x1461f91fba0a35afd96631d28888eb91cd594f5833f4e9526c877dc9949c151d }
  decoded := decodeAs (some [.tuple [.fixedBytes onefuncId, .bytes Localnet.wallet.key.val]]) none
  address := pubkey58 "7MyPPx9YwyrKUfnznuBeYJrPvDTKc8uHHsYnyNC3xCnd"
  tagOf_address := by decide +kernel

/-- `RemoveExecutor` for `onefunc`, with the wallet. -/
def removeOnefuncExecutor : SignedOp where
  op := govOp 120 [0x04, 0xfa, 0x38, 0x4a]
    (beBytes 32 32 ++ onefuncId ++ beBytes 32 64 ++ beBytes 32 32 ++ Localnet.wallet.key.val)
  digest := word 0x82dac252aa0e567a81511b6002af8b52bad03c6b81eb68be6827b31c577a4d6b
  hash := word 0xfbea694361468636afab1dc8376094e04aad620e490ef8f27eb0d6ee132f1344
  signature :=
    { v := 27
      r := beBytes 32 0x1bb8b28620f4e0e138a991205ba1c740cf1238e96a1c554c08b72c5326456dfc
      s := beBytes 32 0x46a071b0dea0185d69732ef390419bf53f1c87643ca51397a63edad614ae692e }
  decoded := decodeAs (some [.tuple [.fixedBytes onefuncId, .bytes Localnet.wallet.key.val]]) none
  address := pubkey58 "7Mfeuuih21qo2RaiZ8hZtHkCZT5rzG75nXDM1RqofNJP"
  tagOf_address := by decide +kernel

/-- The values of the message that registers the governance protocol again. -/
def decodeGovRegistration : List ParamType → Option (List Token)
  | [.tuple [.fixedBytes 32, .uint 256, .array .address]] =>
    some [.tuple [.fixedBytes govProtocolId, .uint 10000, .array [.address transmitter1]]]
  | _ => none

/-- `AddAllowedProtocol` for the governance protocol, with the first transmitter at the rate of
all. -/
def registerGov : SignedOp where
  op := govOp 181 [0x45, 0xa0, 0x04, 0xb9]
    (beBytes 32 32 ++ govProtocolId ++ beBytes 32 10000 ++ beBytes 32 96 ++ beBytes 32 1 ++
      List.replicate 12 0 ++ transmitter1.val)
  digest := word 0xf68935675c7061a17e947b200a352fd403cfe59d9ced187c331fa5b805d168c3
  hash := word 0xe5955da37ba82727a549a2da559d954fb0368604cba7cf3a0c8a91304926144b
  signature :=
    { v := 27
      r := beBytes 32 0xa45b37cef2a463b9933e616f9ce874d2b46930b038e841a19c4465bd0747151a
      s := beBytes 32 0x535195ea47a552ee86c20a3debe2103fde7635b61b6ab83b4356213fd49934f }
  decoded := decodeGovRegistration
  address := pubkey58 "7N568nq81oBggbbNr64MwuMR6jbes2kd8xfreL7pBAR1"
  tagOf_address := by decide +kernel

/-- The transmitter that leaves, and the one that takes its place. -/
def leaving : EthAddress :=
  Localnet.address 0x811da72aca31e56f770fc33df0e45fd08720e157

def joining : EthAddress :=
  Localnet.address 0x157bfbecd023fd6384dad2bded5dad7e27bf92e4

/-- The values of the message that exchanges them. -/
def decodeRotation : List ParamType → Option (List Token)
  | [.tuple [.fixedBytes 32, .array .address, .array .address]] =>
    some [.tuple [.fixedBytes govProtocolId, .array [.address joining], .array [.address leaving]]]
  | _ => none

/-- `UpdateTransmitters` for the governance protocol, which exchanges them. -/
def rotate : SignedOp where
  op := govOp 37 [0x65, 0x4b, 0x46, 0xe1]
    (beBytes 32 32 ++ govProtocolId ++ beBytes 32 96 ++ beBytes 32 160 ++ beBytes 32 1 ++
      List.replicate 12 0 ++ joining.val ++ beBytes 32 1 ++ List.replicate 12 0 ++ leaving.val)
  digest := word 0xf565d81023bb6bc3a95a50221f70365ad919f50ba5ff4c69cfa05e9f58f3b5f5
  hash := word 0x8ae13732094a8f0f10fde4dde0ccab2182c6106d47fbe87f57645c9770e4edab
  signature :=
    { v := 27
      r := beBytes 32 0x8cb7429c627be8cfc77c6586117fd055257c9f64a3943e32b36dafb3f4f17e42
      s := beBytes 32 0x611ca152c543108c3925eda57177abae6657f8a37016c998859f6378b4907e51 }
  decoded := decodeRotation
  address := pubkey58 "7MHvD71FBfdnUCtFQWLiVrvij2JVXHFcEgSS6un44fop"
  tagOf_address := by decide +kernel

/-- An operation of the governance protocol with a code of 33 bytes. -/
def longCode : SignedOp where
  op := govOp 526 (List.replicate 33 7) []
  digest := word 0x949d930c2c6f730b2b32b5f884818c1fcaef62f5a29c2e741c9c233d952e9b83
  hash := word 0xb08892e0483244b892f3a82e9700021b811150b0f1a454fc9ab85489e18efae8
  signature :=
    { v := 27
      r := beBytes 32 0xc1d2df41d1bf7e74395b5a73ca0d52204de0613c0def3615e506d2420e4877af
      s := beBytes 32 0x1bdd36b47939f9bccd25a3d510b239ee6437dcea91cc0e73425d471f5ceeb8ef }
  decoded _ := none
  address := pubkey58 "7LPVzsDaDEYSJtx8bZRZT8dwhQWEWmyWNhfEHusRei9g"
  tagOf_address := by decide +kernel

/-- An operation of `onefunc` with an empty code. -/
def emptyCode : SignedOp where
  op :=
    { Localnet.op with
      protocolId := onefuncId
      nonce := 206
      protocolAddr := onefuncAddress
      functionSelector := .byCode []
      params := [] }
  digest := word 0xa1ffe94a1d028f5fe914ff6678215d18283257dc71a3df3d8237dc1a44b9188a
  hash := word 0xeab15acc1e691463f5cd8bfed6e2845364882edc0b9b62ba7c9cedcb117cb33b
  signature :=
    { v := 27
      r := beBytes 32 0xef2cf69344bd95cb2814684703a6db90ce826ca5da9e2960bfb7ee9d0180aeb3
      s := beBytes 32 0x2ee8a00778a91e04e9a719fb924ce52c1b23e6003fbaeb974b822777fe5f0323 }
  decoded _ := none
  address := pubkey58 "7NNbN6PWp4hM73fLa5xLi36cvq7Esmgz4jeiZws8Tykz"
  tagOf_address := by decide +kernel

/-! ## The protocol whose id is all zeros -/

def zeroId : Bytes :=
  List.replicate 32 0

def zeroProtocol : Pubkey :=
  pubkey58 "AKG59yS35PTRztvY6b7Dy5TxGyEFmpLhCgn3Y623WQeT"

def zeroAuthority : Pubkey :=
  pubkey58 "6io1CrqUZAWLX6UjUGkfR4JTFyXtwxXVVMXAmRGrBwSV"

def zeroAddress (seeds : List Bytes) : Pubkey :=
  if seeds = (Seeds.protocol zeroId).parts then zeroProtocol
  else if seeds = (Seeds.callAuthority zeroId).parts then zeroAuthority
  else findProgramAddress known seeds

def zeroTagOf (k : Pubkey) : Option Bytes :=
  if k = zeroProtocol then some (asBytes "PROTOCOL")
  else if k = zeroAuthority then some (asBytes "CALL_AUTHORITY")
  else tagOf k

theorem tagOf_zero : tagOf zeroProtocol = none ∧ tagOf zeroAuthority = none := by
  decide +kernel

theorem zeroTagOf_derived (s : Seeds) : zeroTagOf (zeroAddress known s.parts) = some s.tag := by
  unfold zeroAddress
  split_ifs with hprotocol hauthority
  · have htag : s.tag = asBytes "PROTOCOL" := by
      cases s <;> simp_all [Seeds.parts, Seeds.tag]
    rw [htag]
    exact if_pos rfl
  · have htag : s.tag = asBytes "CALL_AUTHORITY" := by
      cases s <;> simp_all [Seeds.parts, Seeds.tag]
    rw [htag]
    decide +kernel
  · have hne {k : Pubkey} (hk : tagOf k = none) : findProgramAddress known s.parts ≠ k := by
      rintro rfl
      simp [tagOf_derived] at hk
    rw [zeroTagOf, if_neg (hne tagOf_zero.1), if_neg (hne tagOf_zero.2), tagOf_derived]

/-- The environment, with the addresses of this protocol. -/
def zeroDeployed : Env :=
  { deployed known with
    findProgramAddress := zeroAddress known
    tag_of_address s t h := by
      have hst := congrArg zeroTagOf h
      rw [zeroTagOf_derived, zeroTagOf_derived] at hst
      exact Option.some_inj.1 hst
    address_ne_id s h := by
      have hid : zeroTagOf photonId = none := by decide +kernel
      rw [← h, zeroTagOf_derived] at hid
      simp at hid }

/-- The values of the message that registers this protocol. -/
def decodeRegistration : List ParamType → Option (List Token)
  | [.tuple [.fixedBytes 32, .uint 256, .array .address]] =>
    some [.tuple [.fixedBytes zeroId, .uint 10000, .array [.address transmitter1]]]
  | _ => none

/-- `AddAllowedProtocol` for this protocol, with the first transmitter at the rate of all. -/
def registerZero : SignedOp where
  op := govOp 2049 [0x45, 0xa0, 0x04, 0xb9]
    (beBytes 32 32 ++ zeroId ++ beBytes 32 10000 ++ beBytes 32 96 ++ beBytes 32 1 ++
      List.replicate 12 0 ++ transmitter1.val)
  digest := word 0x447499185e1586cf6bea72b3ca8c0246db47368e27f7a126d4e1ce77270cf644
  hash := word 0x0a7ab90915fd10237db745c01080dd4b5505a15429c272fd98e15670fe2d85f5
  signature :=
    { v := 27
      r := beBytes 32 0x8f01bc9ab62f1792c9ff0eb5f4c63b8d99fe1195a55ed04c09aebbace6fc7dbb
      s := beBytes 32 0x7becbd34c6ed28f4ea3cb8298e40d111dabbdda25fc294a1af3fd7667bec5467 }
  decoded := decodeRegistration
  address := pubkey58 "7Nnb5AGCMjxk1Hqm7Vwm1jH7MaGhthyHS5fMp2WmHL9u"
  tagOf_address := by decide +kernel

/-- `AddAllowedProtocolAddress` for this protocol, with the program of `onefunc`. -/
def giveZeroAddress : SignedOp where
  op := govOp 499 [0xd2, 0x96, 0xa0, 0xff]
    (beBytes 32 32 ++ zeroId ++ beBytes 32 64 ++ beBytes 32 32 ++ onefuncAddress.val)
  digest := word 0x50391768d1230608bdab6cf055efba06c04f93e882003cf59c30efdc04e8ba09
  hash := word 0xe076a2c1fb8f9a05d08f0f9f7b71a26b4500cc1a38c20de82816bfea56276e01
  signature :=
    { v := 27
      r := beBytes 32 0xe535826de82906aa71bc4f7d2cf78b418503041632f582bfb723caacad3d316b
      s := beBytes 32 0x737c979e8cbeb595e8ea27299d8da476b28ba2381a25d01fc900289b89d41059 }
  decoded := decodeAs (some [.tuple [.fixedBytes zeroId, .bytes onefuncAddress.val]]) none
  address := pubkey58 "7M3VQWfv7Ki1b2PbySCRzz8rXVHUJXFaaLRr6jMpyxpM"
  tagOf_address := by decide +kernel

/-- `AddExecutor` for this protocol, with the wallet. -/
def addZeroExecutor : SignedOp where
  op := govOp 340 [0xe0, 0xaa, 0xfb, 0x68]
    (beBytes 32 32 ++ zeroId ++ beBytes 32 64 ++ beBytes 32 32 ++ Localnet.wallet.key.val)
  digest := word 0xbd9db3736f6bd3c2e617b1ab92c9e2c04041c71c40b61cbf3e728d13dfe822b3
  hash := word 0x74ba55a4351e384ec8532478b442439c4b0ebfb1176c79b1dbdac615db30ab78
  signature :=
    { v := 27
      r := beBytes 32 0x47ca6c7a36e0302bdc182b3fe07203376a45f864422b59f1e9363e754718012e
      s := beBytes 32 0x687739d7f59c35eae47dd29afbd3a5d1a0f815f20239bbec65c135b741753c4 }
  decoded := decodeAs (some [.tuple [.fixedBytes zeroId, .bytes Localnet.wallet.key.val]]) none
  address := pubkey58 "7P5Vai5imfes6MQEtqQM8yNbCfKCb1Rw5sDhFc46wfQQ"
  tagOf_address := by decide +kernel

/-- An operation of this protocol. -/
def zeroOp : SignedOp where
  op :=
    { Localnet.op with
      protocolId := zeroId
      nonce := 1334
      protocolAddr := onefuncAddress
      functionSelector := .byCode [1, 2, 3, 4]
      params := [] }
  digest := word 0x2ae5e20af68697055250bdaa36a7744ecf72fcc8c39cd75d5869ad39875084e6
  hash := word 0x801af72020e4c0bffbaf4de293c45dc18751f719407912e13cc60044901f4972
  signature :=
    { v := 27
      r := beBytes 32 0xc4d2bf02328d6dad6fb9113c3fc5cd0b0b037bd416b3743c1722e2c80b336b3f
      s := beBytes 32 0x26ebce796f9bfc55550b752de3f5aeede6d47345d23094544ff4b50b3a0af00 }
  decoded _ := none
  address := pubkey58 "7MgAtJUDt4nNtBNJDTS2yFJ3tPPWrsTiLSDSDXqUTzB7"
  tagOf_address := by decide +kernel

/-- The validator for these operations. -/
def zeroEnv : Env :=
  zeroDeployed [registerZero, giveZeroAddress, addZeroExecutor, zeroOp]

theorem distinctMethods_zeroEnv : zeroEnv.DistinctMethods :=
  distinctMethods_localnet

/-- A call in which only the wallet signs. -/
def zeroCall (ix : Ix) (handed : List Handed) : Invocation zeroEnv where
  ix := ix
  accounts := handed.map fun
    | .wallet => Localnet.wallet
    | .derived s => ⟨zeroEnv.pda s, false, true⟩
    | .program k => ⟨k, false, false⟩
  depth := 4
  answer _ := true
  derived_not_signer a ha hsig s := by
    obtain ⟨x, -, rfl⟩ := List.mem_map.1 ha
    cases x with
    | wallet =>
      intro hkey
      have htag : zeroTagOf Localnet.wallet.key = none := by decide +kernel
      rw [show Localnet.wallet.key = _ from hkey, Env.pda, zeroEnv, zeroDeployed,
        zeroTagOf_derived] at htag
      simp at htag
    | derived t | program k => simp at hsig
  program_not_writable a ha hw := by
    obtain ⟨x, -, rfl⟩ := List.mem_map.1 ha
    cases x with
    | wallet => exact wallet_ne_photonId
    | derived t => exact zeroEnv.address_ne_id t
    | program k => simp at hw

/-- Load, sign and execute a governance operation on this protocol. -/
def govern (k : SignedOp) : List (List (Invocation zeroEnv)) :=
  [[zeroCall (.loadOperation k.op k.hash.val)
      [.wallet, .derived (.protocol govProtocolId), .derived (.op k.hash.val), .derived .config,
        .program Pubkey.default]],
    [zeroCall (.signOperation k.hash.val [k.signature])
      [.wallet, .derived (.op k.hash.val), .derived (.protocol govProtocolId)]],
    [zeroCall (.executeOperation k.hash.val)
      [.wallet, .derived (.op k.hash.val), .derived (.protocol govProtocolId),
        .derived (.callAuthority govProtocolId), .program photonId, .derived .config,
        .derived (.protocol govProtocolId), .derived (.protocol zeroId),
        .program Pubkey.default]]]

/-- Governance registers this protocol, with a program and an executor. -/
def zeroRegistered : List (List (Invocation zeroEnv)) :=
  [zeroCall (.initializeProgram 33133 (List.replicate 32 0) 10000 [transmitter1]
      [Localnet.wallet.key])
    [.wallet, .derived (.protocol govProtocolId), .derived .config, .program Pubkey.default]] ::
      (govern registerZero ++ govern giveZeroAddress ++ govern addZeroExecutor)

/-! ## Seventeen transmitters -/

/-- A transmitter's public key, its digest, and its signature of the operation of `Localnet`. -/
structure Signer where
  key : Fixed UInt8 64
  digest : Bytes32
  signature : TransmitterSignature

def signer (x y digest : ℕ) (v : UInt8) (r s : ℕ) : Signer where
  key := ⟨beBytes 32 x ++ beBytes 32 y, by simp⟩
  digest := word digest
  signature := ⟨v, beBytes 32 r, beBytes 32 s⟩

def Signer.address (s : Signer) : EthAddress :=
  ⟨s.digest.val.drop 12, by rw [List.length_drop, s.digest.property]⟩

def signers : List Signer :=
  [signer 0x79be667ef9dcbbac55a06295ce870b07029bfcdb2dce28d959f2815b16f81798
      0x483ada7726a3c4655da4fbfc0e1108a8fd17b448a68554199c47d08ffb10d4b8
      0xc0a6c424ac7157ae408398df7e5f4552091a69125d5dfcb7b8c2659029395bdf 28
      0xe304b2fde4837a8b899a2db2553bcbf0d13d18c487ef719f522b5fb047a8571d
      0x796c6e1999369f146bb9ce910ec33ef63ada6fb9b155a3cd4c120da9c65b86b0,
    signer 0xc6047f9441ed7d6d3045406e95c07cd85c778e4b8cef3ca7abac09b95c709ee5
      0x1ae168fea63dc339a3c58419466ceaeef7f632653266d0e1236431a950cfe52a
      0xeedf1a9c68b3f4a8b1a1032b2b5ad5c4795c026514f8317c7a215e218dccd6cf 28
      0x32eb8cb0ea7e0b8bdc3c0637197730252cacd5cc8eb1f68711bcd04d0bd0a91e
      0x38156425a2fa50caeb1505b72f6b2182e8354039e7ae9e4d547827a9c02f819b,
    signer 0xf9308a019258c31049344f85f89d5229b531c845836f99b08601f113bce036f9
      0x388f7b0f632de8140fe337e62a37f3566500a99934c2231b6cb9fd7584b8e672
      0x75bf18e34f9add02a2fe5a146813eb9362372eef6200f3b1dbc3f819671cba69 27
      0x3413979724c77306f694118c08fede266f4917248dc1cbaa90011c60c94e273c
      0x38d8cb267a09c9cc0a582aed0f2ce1fa06f12f00e819aeaadad809507cfe9223,
    signer 0xe493dbf1c10d80f3581e4904930b1404cc6c13900ee0758474fa94abe8c4cd13
      0x51ed993ea0d455b75642e2098ea51448d967ae33bfbdfe40cfe97bdc47739922
      0xe8e3774d93e52335eb2f60651eff47bc3a10a45d4b230b5d10e37751fe6aa718 27
      0xfe1edf404d0357f330abef8a88cf782ca793cc91a1014cd4e90d9997133da476
      0x60cc247f4028d10b2722a2c8a06df3f3f4ab21ca1d19f7a0c9a5824a3afcd546,
    signer 0x2f8bde4d1a07209355b4a7250a5c5128e88b84bddc619ab7cba8d569b240efe4
      0xd8ac222636e5e3d6d4dba9dda6c9c426f788271bab0d6840dca87d3aa6ac62d6
      0x9206f7a6f3a7022a07f08066e1ab8145f7e55dc933d51a18c793f901a3a0b276 27
      0x261aaa76bef20bf8c5b6baca27c3072f448c6055880b8c0e2732dc4cdebb749b
      0x499a3226f28ca9eae601989196250092a2da689d58e31048db685a7d74f4da8a,
    signer 0xfff97bd5755eeea420453a14355235d382f6472f8568a18b2f057a1460297556
      0xae12777aacfbb620f3be96017f45c560de80f0f6518fe4a03c870c36b075f297
      0x43e51637a9b51e7ba9df07d8e57bfe9f44b819898f47bf37e5af72a0783e1141 27
      0x36bd1b42f0ff1c6ec362b26cc56627c0ca4b8b26b91064ec1e9f95c18d76df9a
      0x4317977b49975af405b761e6cf8584a81a001fc3f5593c9dd83efdc9cd6078c1,
    signer 0x5cbdf0646e5db4eaa398f365f2ea7a0e3d419b7e0330e39ce92bddedcac4f9bc
      0x6aebca40ba255960a3178d6d861a54dba813d0b813fde7b5a5082628087264da
      0x73f2a22d0902cd8d5c90937dd41c057fd1c78805aac12b0a94a405c0461a6fbb 28
      0xde972a26e446845636bb976d4a77653f42e0eabaea0c65b799f7a88e412ca4ff
      0x61c7af9ced8ef53ebe7fc78303959516cdcf4707fc04ed460615d1572355d514,
    signer 0x2f01e5e15cca351daff3843fb70f3c2f0a1bdd05e5af888a67784ef3e10a2a01
      0x5c4da8a741539949293d082a132d13b4c2e213d6ba5b7617b5da2cb76cbde904
      0xe710ab856afef758692465fbf1f6619b38a98d6de0800f1defc0a6399eb6d30c 27
      0x531a333df4fd13c6ef8b5059067e6985a2f6a6cb1b36091fd675aa3582b032fd
      0x5484330ef1f670a29bccb9166bf4c35b8e9eef2aebf905d6aea747faa83979b0,
    signer 0xacd484e2f0c7f65309ad178a9f559abde09796974c57e714c35f110dfc27ccbe
      0xcc338921b0a7d9fd64380971763b61e9add888a4375f8e0f05cc262ac64f9c37
      0x93eb76ace9641e52833ffd56f7edc8fa1ecc32967f827c9043fcae6ba73afa5c 28
      0x43079910fbad3fbe80cf10d620af787e19ed35cd61111a047fc5d6d2a4593345
      0x57b7c932d0ccea60021cbd2238c9a4d84becb7b72ca782ff285e612d24cf08ce,
    signer 0xa0434d9e47f3c86235477c7b1ae6ae5d3442d49b1943c2b752a68e2a47e247c7
      0x893aba425419bc27a3b6c7e693a24c696f794c2ed877a1593cbee53b037368d7
      0x9f2353bde94264dbc3d554a94cceba2d7d2b4fdce4304d3e09a1fea9fbeb1528 28
      0x3349b2bb78d89e1e5137cbc6ddaa1a91401d464cea072ca030dd5fd970f6b45e
      0x36e8307118cf2d4a2882690367500a6515094ca84cd1c73b831830ee27386b9f,
    signer 0x774ae7f858a9411e5ef4246b70c65aac5649980be5c17891bbec17895da008cb
      0xd984a032eb6b5e190243dd56d7b7b365372db1e2dff9d6a8301d74c9c953c61b
      0xf4590461845dae2e95d134013da8d322cb2435da26e9c9fee670f9fb7fe74e49 28
      0x9dbea38279fe445370273c5ec5694d901bfa5de6b7fdb3751b2164abb8c45e3a
      0xb56684cce033bf8db80062aa599bf719aa40469b09d009fb3bed03aaa871c40,
    signer 0xd01115d548e7561b15c38f004d734633687cf4419620095bc5b0f47070afe85a
      0xa9f34ffdc815e0d7a8b64537e17bd81579238c5dd9a86d526b051b13f4062327
      0x447bc2095bfabca0f603bbd7dbc23ae43a150ff8884b02cea117b22d1c3b9796 28
      0x6615fc4d8e18f6541858644dd15a9b0e16f942303ae778dd664da53bcae82f16
      0x1b5be630697fef66ec6508fbeec8c78092c63f6544931e58cad55454a8b5211e,
    signer 0xf28773c2d975288bc7d1d205c3748651b075fbc6610e58cddeeddf8f19405aa8
      0xab0902e8d880a89758212eb65cdaf473a1a06da521fa91f29b5cb52db03ed81
      0x32748591429433625956ba5768e527780872cda0216ba0d8fbd58b67a5d5e351 28
      0xf5b8159fe421fcda034a08f38674d4d12f1e1540df108640069f388452a2c55f
      0x567cbab79e80a9acb58ce2e81dd12d7117169b537cb469a4c22fa3b1459e1c99,
    signer 0x499fdf9e895e719cfd64e67f07d38e3226aa7b63678949e6e49b241a60e823e4
      0xcac2f6c4b54e855190f044e4a7b3d464464279c27a3f95bcc65f40d403a13f5b
      0x4b5e567cc60af16fb9cfe25d5a83529ff76ac5723a87008c4d9b436ad4ca7d28 27
      0x2de82c1f907ced3c3e793e7eb65290cb57566d118aac651a6d0a3aa8d72d01d0
      0x4468a18b0ae68f0c591b4d1ac84cc874a3325ab99c5a211872468fc7b36234d2,
    signer 0xd7924d4f7d43ea965a465ae3095ff41131e5946f3c85f79e44adbcf8e27e080e
      0x581e2872a86c72a683842ec228cc6defea40af2bd896d3a5c504dc9ff6a26b58
      0xe88412d6bef737b94bda2a0a8735015837bd10e05d9cf5ea43a2486bf4be156f 27
      0xf48e66faa430ef7a9c2b5cb728580c3bf9e2091f742c4bc87e98fed89834b409
      0x15c726302028a62277e76c558eba41827f55a923aceeaa835d17990111da915a,
    signer 0xe60fce93b59e9ec53011aabc21c23e97b2a31369b87a5ae9c44ee89e2a6dec0a
      0xf7e3507399e595929db99f34f57937101296891e44d23f0be1f32cce69616821
      0xc68d8dfb568761c0bb5c63a8fae394561e33e242c551d15d4625309ea4c0b97f 27
      0xeda1e46c34dae68ef4274d0565d93435a1be13e42570a9a69259004fed9c61c5
      0x5d1a7f839b8fd64adce1e54dd6a9f51229e457794444a207a76fb7d4893e80ec,
    signer 0xdefdea4cdb677750a420fee807eacf21eb9898ae79b9768766e4faa04a2d4a34
      0x4211ab0694635168e997b0ead2a93daeced1f4a04a95c0f6cfb199f69e56eb77
      0x64a8c3a1101e6faad73be782252dae0a4b9d9b80f504f6418acd2d364c0c59cd 28
      0x21a94410a547f79156767775de791bd3210faaff8f0b11cff17c1c43812b48fa
      0x80b5a2eb7fe71435b22244797c4b5a50ef950a4cd64a0feff2c8437fee4cf21]

/-- The validator that knows these signatures. -/
def crowded : Env :=
  { localnet with
    keccak256 := fun b =>
      match signers.find? fun s => s.key.val = b with
      | some s => s.digest
      | none => Localnet.keccak256 b
    secp256k1Recover := fun hash v signature =>
      if hash = Localnet.opHash then
        (signers.find? fun s => s.signature.v % 27 = v ∧ s.signature.r ++ s.signature.s =
          signature).map Signer.key
      else none }

end Photon.Deployment
