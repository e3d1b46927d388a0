import Photon.Env

/-!
# Operations and the bytes that are signed

`OperationData` is what the transmitters sign : they sign the Keccak digest of
`opDataEvm`, the fields one after the other, under the Ethereum message header
(`opHashWithMessage`). Five of the fields have no fixed length, and of these only the
selector carries a length, one byte of it. So the bytes do not fix the operation. They
fix it once they are cut at the same places (`eq_iff_sameCuts`) : the same lengths of the
source transaction id, of the selector's code or name, and of the params.
-/

namespace Photon

/-! ## Function selectors -/

/-- The function to call : a binary code, a name, or the uninitialised default. -/
inductive FunctionSelector
  | byCode (code : Bytes)
  | byName (name : String)
  | dummy
  deriving DecidableEq

/-- Why an off-chain conversion fails : the bytes it returns, or a panic. -/
inductive ConvertError
  | bytes (b : Bytes)
  | panic
  deriving DecidableEq

namespace FunctionSelector

/-- The bytes of the code or of the name. -/
def body : FunctionSelector → Bytes
  | .byCode code => code
  | .byName name => asBytes name
  | .dummy => []

/-- The selector as `propose` writes it into its event. -/
def toBytes : FunctionSelector → Except Error Bytes
  | .byCode code => do
    require (code.length ≤ 32) (Error.custom .selectorTooBig)
    pure ([0, UInt8.ofNat code.length] ++ code)
  | .byName name => do
    require ((asBytes name).length ≤ 32) (Error.custom .selectorTooBig)
    pure ([1, UInt8.ofNat (asBytes name).length] ++ asBytes name)
  | .dummy => pure [2, 0]

/-- Read a selector off its bytes. The length byte is skipped, not compared. -/
def tryFrom : Bytes → Except ConvertError FunctionSelector
  | [] => .error (.bytes [])
  | t :: rest =>
    if t = 0 then
      match rest with
      | [] => .error (.bytes [])
      | _len :: code => .ok (.byCode code)
    else if t = 1 then
      match rest with
      | [] => .error (.bytes [])
      | _len :: name =>
        match fromUtf8 name with
        | some s => .ok (.byName s)
        | none => .error (.bytes [])
    else .error .panic

/-- The selector as it is hashed. The length byte is the length modulo 256. -/
def evmBytes : FunctionSelector → Except Error Bytes
  | .byCode code => .ok ([0, UInt8.ofNat code.length] ++ code)
  | .byName name => .ok ([1, UInt8.ofNat (asBytes name).length] ++ asBytes name)
  | .dummy => .error .panic

theorem exists_evmBytes {s : FunctionSelector} (h : s ≠ .dummy) : ∃ b, s.evmBytes = .ok b := by
  cases s with
  | byCode code => exact ⟨_, rfl⟩
  | byName name => exact ⟨_, rfl⟩
  | dummy => exact absurd rfl h

/-- Two hashed selectors with bodies of one length are told apart by their bytes, whatever
follows them. -/
theorem evmBytes_append_inj {s t : FunctionSelector} {bs bt x y : Bytes}
    (hs : s.evmBytes = .ok bs) (ht : t.evmBytes = .ok bt)
    (hlen : s.body.length = t.body.length) (h : bs ++ x = bt ++ y) : s = t ∧ x = y := by
  cases s with
  | byCode c =>
    cases t with
    | byCode d =>
      simp only [evmBytes, Except.ok.injEq] at hs ht
      subst hs ht
      simp only [List.cons_append, List.nil_append, List.cons.injEq, true_and] at h
      obtain ⟨rfl, rfl⟩ := List.append_inj h.2 hlen
      exact ⟨rfl, rfl⟩
    | byName n =>
      simp only [evmBytes, Except.ok.injEq] at hs ht
      subst hs ht
      simp at h
    | dummy => simp [evmBytes] at ht
  | byName m =>
    cases t with
    | byCode d =>
      simp only [evmBytes, Except.ok.injEq] at hs ht
      subst hs ht
      simp at h
    | byName n =>
      simp only [evmBytes, Except.ok.injEq] at hs ht
      subst hs ht
      simp only [List.cons_append, List.nil_append, List.cons.injEq, true_and] at h
      obtain ⟨hname, rfl⟩ := List.append_inj h.2 hlen
      exact ⟨congrArg _ (asBytes_injective hname), rfl⟩
    | dummy => simp [evmBytes] at ht
  | dummy => simp [evmBytes] at hs

end FunctionSelector

/-! ## Operations -/

/-- The data of an operation. -/
@[ext]
structure OperationData where
  protocolId : Bytes
  opMeta : Bytes32
  srcChainId : BitVec 128
  srcBlockNumber : UInt64
  srcOpTxId : Bytes
  nonce : UInt64
  destChainId : BitVec 128
  protocolAddr : Pubkey
  functionSelector : FunctionSelector
  params : Bytes
  reserved : Bytes
  deriving DecidableEq

/-- The id of the governance protocol. -/
def govProtocolId : Bytes :=
  asBytes "photon-gov" ++ List.replicate 22 0

/-- A `u64` as a big-endian 32-byte word. -/
def u64ToBytes32 (x : UInt64) : Bytes :=
  List.replicate 24 0 ++ beBytes 8 x.toNat

/-- A `u128` as a big-endian 32-byte word. -/
def u128ToBytes32 (x : BitVec 128) : Bytes :=
  List.replicate 16 0 ++ beBytes 16 x.toNat

@[simp] theorem length_u64ToBytes32 (x : UInt64) : (u64ToBytes32 x).length = 32 := by
  simp [u64ToBytes32]

@[simp] theorem length_u128ToBytes32 (x : BitVec 128) : (u128ToBytes32 x).length = 32 := by
  simp [u128ToBytes32]

theorem u64ToBytes32_inj {x y : UInt64} (h : u64ToBytes32 x = u64ToBytes32 y) : x = y := by
  have hx : x.toNat < 256 ^ 8 := x.toNat_lt
  have hy : y.toNat < 256 ^ 8 := y.toNat_lt
  exact UInt64.toNat_inj.1 (beBytes_inj hx hy (List.append_cancel_left h))

theorem u128ToBytes32_inj {x y : BitVec 128} (h : u128ToBytes32 x = u128ToBytes32 y) :
    x = y := by
  have hx : x.toNat < 256 ^ 16 := x.isLt
  have hy : y.toNat < 256 ^ 16 := y.isLt
  exact BitVec.toNat_inj.1 (beBytes_inj hx hy (List.append_cancel_left h))

/-- The Ethereum message header for a 32-byte digest. -/
def MSG : Bytes :=
  asBytes "\x19Ethereum Signed Message:\n32"

variable (env : Env)

/-- The digest of a digest under the message header. -/
def hashWithMessage (data : Bytes32) : Bytes :=
  (env.keccak256 (MSG ++ data.val)).val

namespace OperationData

/-- The bytes that are hashed : the fields one after the other. -/
def opDataEvm (o : OperationData) : Except Error Bytes := do
  let selector ← o.functionSelector.evmBytes
  pure (o.protocolId ++ o.opMeta.val ++ u128ToBytes32 o.srcChainId ++
    u64ToBytes32 o.srcBlockNumber ++ o.srcOpTxId ++ u64ToBytes32 o.nonce ++
    u128ToBytes32 o.destChainId ++ o.protocolAddr.val ++ selector ++ o.params ++ o.reserved)

def opHash (o : OperationData) : Except Error Bytes32 := do
  let evm ← o.opDataEvm
  pure (env.keccak256 evm)

/-- The hash an operation is stored and signed under. -/
def opHashWithMessage (o : OperationData) : Except Error Bytes := do
  let hash ← o.opHash env
  pure (hashWithMessage env hash)

/-- What `load_operation` asks of the data alone. -/
structure Loadable (feature : Feature) (o : OperationData) : Prop where
  dest : o.destChainId = feature.solanaChainId
  length_id : o.protocolId.length = 32
  id_ne_zero : o.protocolId ≠ List.replicate 32 0
  selector : o.functionSelector ≠ .dummy

theorem selector_of_hash {env : Env} {o : OperationData} {h : Bytes}
    (hash : o.opHashWithMessage env = .ok h) : o.functionSelector ≠ .dummy := by
  intro hd
  simp [opHashWithMessage, opHash, opDataEvm, hd,
    FunctionSelector.evmBytes, bind, Except.bind] at hash

/-- Operations that are hashed as the same bytes are of one protocol. -/
theorem protocolId_eq {o o' : OperationData} (hsel : o.functionSelector ≠ .dummy)
    (hsel' : o'.functionSelector ≠ .dummy) (hlen : o.protocolId.length = 32)
    (hlen' : o'.protocolId.length = 32) (hevm : o.opDataEvm = o'.opDataEvm) :
    o.protocolId = o'.protocolId := by
  obtain ⟨b, hb⟩ := FunctionSelector.exists_evmBytes hsel
  obtain ⟨b', hb'⟩ := FunctionSelector.exists_evmBytes hsel'
  simp only [opDataEvm, hb, hb', bind, Except.bind, pure, Except.pure,
    Except.ok.injEq, List.append_assoc] at hevm
  exact (List.append_inj hevm (hlen.trans hlen'.symm)).1

/-- The fields without a fixed length end at the same places. -/
def SameCuts (o p : OperationData) : Prop :=
  o.srcOpTxId.length = p.srcOpTxId.length ∧
    o.functionSelector.body.length = p.functionSelector.body.length ∧
      o.params.length = p.params.length

/-- Operations that pass the checks of `load_operation` and are signed as the same bytes
are equal exactly when they cut these bytes at the same places. -/
theorem eq_iff_sameCuts {feature : Feature} {o p : OperationData} (ho : o.Loadable feature)
    (hp : p.Loadable feature) (h : o.opDataEvm = p.opDataEvm) : o = p ↔ SameCuts o p := by
  constructor
  · rintro rfl
    exact ⟨rfl, rfl, rfl⟩
  · rintro ⟨htx, hsel, hparams⟩
    obtain ⟨so, hso⟩ := FunctionSelector.exists_evmBytes ho.selector
    obtain ⟨sp, hsp⟩ := FunctionSelector.exists_evmBytes hp.selector
    have hevm : o.protocolId ++ o.opMeta.val ++ u128ToBytes32 o.srcChainId ++
        u64ToBytes32 o.srcBlockNumber ++ o.srcOpTxId ++ u64ToBytes32 o.nonce ++
        u128ToBytes32 o.destChainId ++ o.protocolAddr.val ++ so ++ o.params ++ o.reserved =
      p.protocolId ++ p.opMeta.val ++ u128ToBytes32 p.srcChainId ++
        u64ToBytes32 p.srcBlockNumber ++ p.srcOpTxId ++ u64ToBytes32 p.nonce ++
        u128ToBytes32 p.destChainId ++ p.protocolAddr.val ++ sp ++ p.params ++ p.reserved := by
      simpa [opDataEvm, hso, hsp, pure, Except.pure, bind, Except.bind] using h
    simp only [List.append_assoc] at hevm
    -- every field before the selector has a length both operations share
    obtain ⟨hid, hevm⟩ := List.append_inj hevm (ho.length_id.trans hp.length_id.symm)
    obtain ⟨hmeta, hevm⟩ := List.append_inj hevm (o.opMeta.property.trans p.opMeta.property.symm)
    obtain ⟨hchain, hevm⟩ := List.append_inj hevm (by simp)
    obtain ⟨hblock, hevm⟩ := List.append_inj hevm (by simp)
    obtain ⟨htxid, hevm⟩ := List.append_inj hevm htx
    obtain ⟨hnonce, hevm⟩ := List.append_inj hevm (by simp)
    obtain ⟨hdest, hevm⟩ := List.append_inj hevm (by simp)
    obtain ⟨haddr, hevm⟩ :=
      List.append_inj hevm (o.protocolAddr.property.trans p.protocolAddr.property.symm)
    obtain ⟨hselector, hevm⟩ := FunctionSelector.evmBytes_append_inj hso hsp hsel hevm
    obtain ⟨hparam, hreserved⟩ := List.append_inj hevm hparams
    exact OperationData.ext hid (Subtype.ext hmeta) (u128ToBytes32_inj hchain)
      (u64ToBytes32_inj hblock) htxid (u64ToBytes32_inj hnonce) (u128ToBytes32_inj hdest)
      (Subtype.ext haddr) hselector hparam hreserved

/-- An operation with a selector of 256 bytes, for which the length byte is zero. -/
def longSelector : OperationData where
  protocolId := govProtocolId
  opMeta := Fixed.replicate 32 0
  srcChainId := 33133
  srcBlockNumber := 1
  srcOpTxId := [1, 2]
  nonce := 1
  destChainId := 100000000000000000000
  protocolAddr := photonId
  functionSelector := .byCode (List.replicate 256 7)
  params := []
  reserved := []

/-- The same bytes read with an empty selector : what was the code is the params. -/
def emptySelector : OperationData :=
  { longSelector with functionSelector := .byCode [], params := List.replicate 256 7 }

theorem loadable_longSelector : longSelector.Loadable .localnet :=
  ⟨by decide +kernel, by decide +kernel, by decide +kernel, by decide +kernel⟩

theorem loadable_emptySelector : emptySelector.Loadable .localnet :=
  ⟨by decide +kernel, by decide +kernel, by decide +kernel, by decide +kernel⟩

theorem opDataEvm_emptySelector : longSelector.opDataEvm = emptySelector.opDataEvm := by
  decide +kernel

theorem not_sameCuts_emptySelector : ¬SameCuts longSelector emptySelector := by
  intro hcuts
  have heq := (eq_iff_sameCuts loadable_longSelector loadable_emptySelector
    opDataEvm_emptySelector).2 hcuts
  exact absurd (congrArg OperationData.params heq) (by decide +kernel)

/-- Two operations that can be loaded, are signed as the same bytes, and call different
functions with different params. -/
theorem same_bytes_other_operation :
    longSelector.Loadable .localnet ∧ emptySelector.Loadable .localnet ∧
      longSelector.opDataEvm = emptySelector.opDataEvm ∧
      longSelector.functionSelector ≠ emptySelector.functionSelector ∧
      longSelector.params ≠ emptySelector.params :=
  ⟨loadable_longSelector, loadable_emptySelector, opDataEvm_emptySelector, by decide +kernel,
    by decide +kernel⟩

end OperationData

/-! ## Signatures -/

/-- A transmitter's signature. -/
structure TransmitterSignature where
  v : UInt8
  r : Bytes
  s : Bytes
  deriving DecidableEq

/-- The address of a public key : the last 20 bytes of the digest of all but its first
byte. -/
def deriveEthAddress (publicKey : Bytes) : EthAddress :=
  ⟨(env.keccak256 (publicKey.drop 1)).val.drop 12, by
    rw [List.length_drop, (env.keccak256 _).property]⟩

/-- The address whose key made `sig` over `opHash`. -/
def ecrecover (opHash : Bytes) (sig : TransmitterSignature) : Except Error EthAddress := do
  let signature := sig.r ++ sig.s
  let v := sig.v % 27
  require (signature.length = 64) (Error.anchor .requireEqViolated)
  let pk ← orFail (env.secp256k1Recover opHash v signature) (Error.custom .invalidSignature)
  pure (deriveEthAddress env ([4] ++ pk.val))

/-- The stages of an operation. -/
inductive OpStatus
  | none
  | init
  | signed
  | executed
  deriving DecidableEq

end Photon
