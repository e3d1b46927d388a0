import Photon.IxCompiler
import Photon.Localnet

/-!
# Operations off chain

The transmitters and the executor hold an operation in a form of their own (`MessageData`),
where the selector and the protocol address are bytes. They hash these bytes as they are.
The executor converts the operation for the endpoint (`MessageData.tryFrom`), which hashes
the selector it has read, with a length byte of its own.

The reader of selectors skips the length byte that was sent. So the two hashes are of the
same bytes exactly when that byte was right (`agrees_iff`), and then the instruction that
the executor builds passes the endpoint's comparison of the hashes.
-/

namespace Photon

variable (env : Env)

/-- An operation as the transmitters hold it, the `OperationData` of `transmitter_common`. -/
structure MessageData where
  protocolId : Bytes32
  opMeta : Bytes32
  srcChainId : BitVec 128
  srcBlockNumber : UInt64
  srcOpTxId : Bytes
  nonce : UInt64
  destChainId : BitVec 128
  protocolAddr : Bytes
  functionSelector : Bytes
  params : Bytes
  reserved : Bytes

namespace MessageData

/-- The bytes that are hashed off chain. -/
def opDataEvm (d : MessageData) : Bytes :=
  d.protocolId.val ++ d.opMeta.val ++ u128ToBytes32 d.srcChainId ++
    u64ToBytes32 d.srcBlockNumber ++ d.srcOpTxId ++ u64ToBytes32 d.nonce ++
    u128ToBytes32 d.destChainId ++ d.protocolAddr ++ d.functionSelector ++ d.params ++ d.reserved

def opHash (d : MessageData) : Bytes32 :=
  env.keccak256 d.opDataEvm

def opHashWithMessage (d : MessageData) : Bytes :=
  hashWithMessage env (d.opHash env)

/-- The operation as the endpoint takes it. -/
def tryFrom (d : MessageData) : Except ConvertError OperationData := do
  let protocolAddr ← orFail (Fixed.ofList? 32 d.protocolAddr) (.bytes d.protocolAddr)
  let functionSelector ← FunctionSelector.tryFrom d.functionSelector
  pure
    { protocolId := d.protocolId.val
      opMeta := d.opMeta
      srcChainId := d.srcChainId
      srcBlockNumber := d.srcBlockNumber
      srcOpTxId := d.srcOpTxId
      nonce := d.nonce
      destChainId := d.destChainId
      protocolAddr := protocolAddr
      functionSelector := functionSelector
      params := d.params
      reserved := d.reserved }

end MessageData

/-- The errors of a protocol's extension. Its panic is one of the executor's. -/
inductive ExtensionError
  | extension
  | sign
  | panic
  deriving DecidableEq

/-- Why the executor gives an operation up. -/
inductive ExecutorError
  | extensionMng
  | extension (e : ExtensionError)
  | malformedData
  | solanaTransactorError (e : TransactorError)
  | panic
  deriving DecidableEq

/-- A failed conversion is malformed data; its panic is one of the executor's. -/
def ExecutorError.ofConvert : ConvertError → ExecutorError
  | .bytes _ => .malformedData
  | .panic => .panic

def ExecutorError.ofExtension : ExtensionError → ExecutorError
  | .panic => .panic
  | e => .extension e

/-- The executor's `load_operation` instruction. -/
def buildLoadIx (executor : Pubkey) (opHash : Bytes) (opData : MessageData) :
    Except ExecutorError Instruction := do
  let accounts : List AccountInfo :=
    [⟨executor, true, true⟩, ⟨env.pda (.protocol opData.protocolId.val), false, false⟩,
      ⟨env.pda (.op opHash), false, true⟩, ⟨env.pda .config, false, true⟩,
      ⟨Pubkey.default, false, false⟩]
  let _ ← orFail (fromUtf8 opData.protocolId.val) ExecutorError.malformedData
  let photonOpData ← opData.tryFrom.mapError ExecutorError.ofConvert
  let args ← orFail ((Borsh.Codec.pair OperationData.codec .bytes).encode (photonOpData, opHash))
    ExecutorError.panic
  pure ⟨photonId, accounts, env.sighash "global" "load_operation" ++ args⟩

variable {env} {d : MessageData} {p : OperationData}

/-! ## Selectors -/

/-- A selector that is read off bytes is hashed as these bytes, with the length byte replaced
by the right one. -/
theorem FunctionSelector.evmBytes_of_tryFrom {b : Bytes} {s : FunctionSelector}
    (h : FunctionSelector.tryFrom b = .ok s) :
    ∃ t len body, b = t :: len :: body ∧
      s.evmBytes = .ok (t :: UInt8.ofNat body.length :: body) := by
  unfold FunctionSelector.tryFrom at h
  split at h
  · simp at h
  · rename_i t rest
    split_ifs at h with h0 h1
    · subst h0
      cases rest with
      | nil => simp at h
      | cons len code =>
        obtain rfl := Except.ok.inj h
        exact ⟨0, len, code, rfl, rfl⟩
    · subst h1
      cases rest with
      | nil => simp at h
      | cons len name =>
        simp only at h
        split at h
        · rename_i n hn
          obtain rfl := Except.ok.inj h
          obtain rfl := fromUtf8_eq_some.1 hn
          exact ⟨1, len, asBytes n, rfl, rfl⟩
        · simp at h

/-- The converted operation is hashed as the bytes of the message exactly when the message's
length byte is right. -/
theorem opDataEvm_eq_iff (h : d.tryFrom = .ok p) : p.opDataEvm = .ok d.opDataEvm ↔
    d.functionSelector[1]? = some (UInt8.ofNat (d.functionSelector.length - 2)) := by
  simp only [MessageData.tryFrom, Except.bind_eq_ok, Except.orFail_eq_ok,
    Except.pure_eq_ok] at h
  obtain ⟨addr, haddr, sel, hsel, rfl⟩ := h
  obtain ⟨t, len, body, hb, hevm⟩ := FunctionSelector.evmBytes_of_tryFrom hsel
  have haddr' : addr.val = d.protocolAddr := (Fixed.ofList?_eq_some.1 haddr).symm
  simp only [OperationData.opDataEvm, hevm, Except.bind_eq_ok, Except.ok.injEq,
    exists_eq_left', Except.pure_eq_ok, MessageData.opDataEvm, haddr', hb, List.append_assoc,
    List.append_cancel_left_eq, List.cons_append, List.cons.injEq, true_and, and_true]
  simp [eq_comm]

/-! ## The instruction -/

/-- Reading the accounts never fails for the hash. -/
theorem LoadOperation.tryAccounts_ne_mismatch {l : Ledger} {accounts : List AccountInfo}
    {h : Bytes} : LoadOperation.tryAccounts env l p h accounts ≠
      .error (.custom .cachedOpHashMismatch) := by
  unfold LoadOperation.tryAccounts
  split
  · simp [Except.bind_eq_error, Except.require_eq_error, Except.orFail_eq_error, pure,
      Except.pure, Env.checkSigner, Env.checkMut, Env.checkSystemProgram, Env.loadProtocol,
      Env.loadConfig, Env.checkSeeds, Env.derive]
  · simp

theorem loadOperation_ne_mismatch {l : Ledger} {accounts : List AccountInfo} {h : Bytes}
    (hash : p.opHashWithMessage env = .ok h) :
    loadOperation env l accounts p h ≠ .error (.custom .cachedOpHashMismatch) := by
  simp [loadOperation, Except.bind_eq_error, Except.require_eq_error, hash,
    LoadOperation.tryAccounts_ne_mismatch, pure, Except.pure]

/-- The instruction that the executor builds carries the converted operation and the hash. -/
theorem args_of_buildLoadIx {executor : Pubkey} {h c : Bytes} {ix : Instruction}
    {o : OperationData} (hbuild : buildLoadIx env executor h d = .ok ix)
    (hdec : Ix.decode env ix.data = .ok (.loadOperation o c)) : d.tryFrom = .ok o ∧ c = h := by
  simp only [buildLoadIx, Except.bind_eq_ok, Except.orFail_eq_ok, Except.mapError_eq_ok,
    Except.pure_eq_ok] at hbuild
  obtain ⟨_, -, p, hp, args, hargs, rfl⟩ := hbuild
  obtain ⟨rest, hread⟩ := args_of_loadOperation hdec
  rw [drop_sighash] at hread
  have henc := (Borsh.Codec.pair OperationData.codec .bytes).decode_encode [] hargs
  rw [List.append_nil, hread] at henc
  simp only [Option.some.injEq, Prod.mk.injEq] at henc
  obtain ⟨⟨rfl, rfl⟩, -⟩ := henc
  exact ⟨hp, rfl⟩

/-! ## Agreement -/

/-- The message `d` and the operation `p` it is converted to are hashed as the same bytes, to
the same hash, and the `load_operation` that the executor builds never fails for the hash. -/
structure Agrees (env : Env) (d : MessageData) (p : OperationData) : Prop where
  evm : p.opDataEvm = .ok d.opDataEvm
  hash : p.opHashWithMessage env = .ok (d.opHashWithMessage env)
  load : ∀ executor ix o c, buildLoadIx env executor (d.opHashWithMessage env) d = .ok ix →
    Ix.decode env ix.data = .ok (.loadOperation o c) →
    ∀ l, loadOperation env l ix.accounts o c ≠ .error (.custom .cachedOpHashMismatch)

/-- They agree exactly when the second byte of the selector is its length after the first two
bytes, modulo 256. -/
theorem agrees_iff (env : Env) (d : MessageData) (p : OperationData) (h : d.tryFrom = .ok p) :
    Agrees env d p ↔
      d.functionSelector[1]? = some (UInt8.ofNat (d.functionSelector.length - 2)) := by
  constructor
  · intro hagrees
    exact (opDataEvm_eq_iff h).1 hagrees.evm
  · intro hlen
    have hevm := (opDataEvm_eq_iff h).2 hlen
    have hash : p.opHashWithMessage env = .ok (d.opHashWithMessage env) := by
      simp [OperationData.opHashWithMessage, OperationData.opHash, hevm,
        MessageData.opHashWithMessage, MessageData.opHash]
    refine ⟨hevm, hash, ?_⟩
    intro executor ix o c hbuild hdec l
    obtain ⟨ho, rfl⟩ := args_of_buildLoadIx hbuild hdec
    obtain rfl := Except.ok.inj (h.symm.trans ho)
    exact loadOperation_ne_mismatch hash

section Localnet

open Localnet

/-- The message that the tests of the publisher convert and hash, with the selector given. -/
def testMessage (functionSelector : Bytes) : MessageData where
  protocolId := ⟨onefuncId, by decide +kernel⟩
  opMeta := Fixed.replicate 32 1
  srcChainId := 100000000000000000000
  srcBlockNumber := 1
  srcOpTxId := List.replicate 64 0
  nonce := 1
  destChainId := 100000000000000000000
  protocolAddr := onefuncAddress.val
  functionSelector := functionSelector
  params := []
  reserved := []

theorem agrees_testMessage :
    ∃ p, (testMessage [0, 4, 1, 2, 3, 4]).tryFrom = .ok p ∧
      Agrees localnet (testMessage [0, 4, 1, 2, 3, 4]) p := by
  obtain ⟨p, hp⟩ : ∃ p, (testMessage [0, 4, 1, 2, 3, 4]).tryFrom = .ok p := ⟨_, rfl⟩
  exact ⟨p, hp, (agrees_iff localnet _ p hp).2 (by decide)⟩

/-- The same message with the length byte 5 is converted to the same operation, and hashed
off chain as other bytes. -/
theorem disagrees_testMessage :
    ∃ p, (testMessage [0, 5, 1, 2, 3, 4]).tryFrom = .ok p ∧
      p.opDataEvm ≠ .ok (testMessage [0, 5, 1, 2, 3, 4]).opDataEvm :=
  ⟨_, rfl, by decide +kernel⟩

end Localnet

end Photon
