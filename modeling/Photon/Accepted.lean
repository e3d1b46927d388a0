import Photon.Plan
import Photon.Selector

/-!
# Operations that the endpoint accepts

An operation is accepted if some call of `load_operation` stores it (`OperationData.Accepted`). Two
other pieces of code are stricter than this call. `propose` refuses a selector with a body of more
than 32 bytes, and the executor does not build the instructions of an operation whose protocol id
is no text or whose selector has an empty body.

`hashed_canonically_iff` : the signed bytes of accepted operations hold their selectors as
`propose` writes them exactly if the bodies have at most 32 bytes. `builds_iff` : the executor
builds the three instructions of an accepted operation exactly if it passes the checks of the
executor.
-/

namespace Photon

open Machine

variable {env : Env} {h : Bytes} {o : OperationData}

/-- Instruction data is read as `load_operation` with the operation and the hash, and the call
succeeds in some ledger. -/
def OperationData.Accepted (env : Env) (h : Bytes) (o : OperationData) : Prop :=
  ∃ data l accounts r, Ix.decode env data = .ok (.loadOperation o h) ∧
    loadOperation env l accounts o h = .ok r

namespace OperationData.Accepted

theorem loadable (ho : o.Accepted env h) : o.Loadable env.feature := by
  obtain ⟨-, l, accounts, ⟨l', out⟩, -, hok⟩ := ho
  obtain ⟨-, -, loadable, -⟩ := loadOperation_ok hok
  exact loadable

/-- What was read can be written. -/
theorem exists_encode (ho : o.Accepted env h) :
    ∃ args, (Borsh.Codec.pair OperationData.codec .bytes).encode (o, h) = some args := by
  obtain ⟨data, -, -, -, hix, -⟩ := ho
  obtain ⟨rest, hread⟩ := args_of_loadOperation hix
  exact OperationData.total_codec.pair Borsh.Codec.total_bytes _ _ _ hread

/-- A load that is committed in a run, with data that a client writes. -/
theorem of_mem_run (hm : env.DistinctMethods) {txs : List (List (Invocation env))}
    (hmem : ∃ r ∈ ((endpoint env).run .genesis txs).1, r.input.ix = .loadOperation o h ∧
      (r.input.ix.written env).isSome = true) : o.Accepted env h := by
  obtain ⟨r, hr, hix, hw⟩ := hmem
  obtain ⟨data, hdata⟩ := wire_of_written hm hw
  obtain ⟨-, -, -, -, hok⟩ := (run_sound (endpoint env) .genesis txs).of_mem hr
  rw [step_loadOperation hix] at hok
  exact ⟨data, r.before, r.input.accounts, _, hix ▸ hdata, hok⟩

end OperationData.Accepted

/-! ## Selectors -/

/-- Of any two accepted operations : the signed bytes of both selectors are those of the writer,
with the true length in them, and fix the selectors and what follows, exactly if both have bodies
of at most 32 bytes. -/
theorem hashed_canonically_iff (env : Env) (o o' : OperationData) (h h' : Bytes)
    (ho : o.Accepted env h) (ho' : o'.Accepted env h') :
    (o.functionSelector.HashedCanonically ∧ o'.functionSelector.HashedCanonically ∧
        ∀ b b' rest rest', o.functionSelector.evmBytes = .ok b →
          o'.functionSelector.evmBytes = .ok b' → b ++ rest = b' ++ rest' →
          o.functionSelector = o'.functionSelector ∧ rest = rest') ↔
      o.functionSelector.body.length ≤ 32 ∧ o'.functionSelector.body.length ≤ 32 := by
  rw [FunctionSelector.hashedCanonically_iff ho.loadable.selector,
    FunctionSelector.hashedCanonically_iff ho'.loadable.selector]
  constructor
  · rintro ⟨hlen, hlen', -⟩
    exact ⟨hlen, hlen'⟩
  · rintro ⟨hlen, hlen'⟩
    exact ⟨hlen, hlen', fun b b' rest rest' hb hb' heq =>
      FunctionSelector.evmBytes_append_inj_of_short hb hb' (by omega) (by omega) heq⟩

section Localnet

open Localnet

theorem accepted_localnet : op.Accepted localnet opHash := by
  have hmem : ∃ r ∈ ((endpoint localnet).run .genesis [[setUp 10000 [transmitter1]], [load]]).1,
      r.input.ix = .loadOperation op opHash ∧ (r.input.ix.written localnet).isSome = true := by
    decide +kernel
  exact .of_mem_run distinctMethods_localnet hmem

theorem hashed_canonically_localnet : op.functionSelector.HashedCanonically := by
  have hlen : op.functionSelector.body.length ≤ 32 := by
    decide +kernel
  exact ((hashed_canonically_iff localnet op op opHash opHash accepted_localnet
    accepted_localnet).2 ⟨hlen, hlen⟩).1

end Localnet

section Deployment

open Deployment
open Localnet (transmitter1)

/-- An operation with a code of 33 bytes is loaded. Its signed bytes hold all of the code, and
`propose` refuses it. -/
theorem long_code_accepted :
    longCode.op.Accepted (deployed [longCode]) longCode.hash.val ∧
      longCode.op.functionSelector.evmBytes = .ok ([0, 33] ++ List.replicate 33 7) ∧
      longCode.op.functionSelector.toBytes = .error (.custom .selectorTooBig) := by
  have hmem : ∃ r ∈ ((endpoint (deployed [longCode])).run .genesis
      [[setUp _ 10000 [transmitter1]], [load _ longCode]]).1,
      r.input.ix = .loadOperation longCode.op longCode.hash.val ∧
        (r.input.ix.written (deployed [longCode])).isSome = true := by
    decide +kernel
  exact ⟨.of_mem_run (distinctMethods_deployed _) hmem, by decide +kernel, by decide +kernel⟩

end Deployment

/-! ## The executor's instructions -/

/-- The signatures fit the lengths that instruction data has for them. -/
def SignedOperation.Writable (signed : SignedOperation) : Prop :=
  signed.signatures.length < 256 ^ 4 ∧
    ∀ sig ∈ signed.signatures, sig.r.length < 256 ^ 4 ∧ sig.s.length < 256 ^ 4

theorem exists_encode_signature {sig : TransmitterSignature} :
    (∃ e, TransmitterSignature.codec.encode sig = some e) ↔
      sig.r.length < 256 ^ 4 ∧ sig.s.length < 256 ^ 4 := by
  rw [← Borsh.Codec.exists_encode_bytes, ← Borsh.Codec.exists_encode_bytes]
  simp only [TransmitterSignature.codec, Borsh.Codec.map, Borsh.Codec.encode_pair]
  constructor
  · rintro ⟨_, _, -, _, ⟨r, hr, s, hs, -⟩, -⟩
    exact ⟨⟨r, hr⟩, s, hs⟩
  · rintro ⟨⟨r, hr⟩, s, hs⟩
    exact ⟨_, leBytes 1 sig.v.toNat, rfl, _, ⟨r, hr, s, hs, rfl⟩, rfl⟩

section Builders

variable {executor : Pubkey} {hash : OpHash} {signed : SignedOperation} {mng : ExtensionManager}
  {extension : ProtocolExtension} {accounts : List AccountInfo}

theorem exists_encode_hash (hash : OpHash) : ∃ e, Borsh.Codec.bytes.encode hash.val = some e := by
  rw [Borsh.Codec.exists_encode_bytes, hash.property]
  decide

/-- The load is built if the protocol id is a text. -/
theorem exists_buildLoadIx (hconv : signed.operationData.tryFrom = .ok o)
    (ho : o.Accepted env hash.val) :
    (∃ load, buildLoadIx env executor hash.val signed.operationData = .ok load) ↔
      ∃ text, fromUtf8 signed.operationData.protocolId.val = some text := by
  obtain ⟨args, hargs⟩ := ho.exists_encode
  simp only [buildLoadIx, hconv, Except.bind_eq_ok, Except.orFail_eq_ok,
    Except.mapError_eq_ok, Except.ok.injEq, Except.pure_eq_ok]
  constructor
  · rintro ⟨_, text, htext, -⟩
    exact ⟨text, htext⟩
  · rintro ⟨text, htext⟩
    exact ⟨_, text, htext, o, rfl, args, hargs, rfl⟩

theorem exists_buildSignTx :
    (∃ sign, buildSignTx env executor hash.val signed = .ok sign) ↔ signed.Writable := by
  obtain ⟨e, he⟩ := exists_encode_hash hash
  rw [SignedOperation.Writable, ← forall₂_congr fun _ _ => exists_encode_signature,
    ← Borsh.Codec.exists_encode_vec]
  simp only [buildSignTx, Except.bind_eq_ok, Except.orFail_eq_ok, Except.pure_eq_ok,
    Borsh.Codec.encode_pair]
  constructor
  · rintro ⟨_, _, ⟨-, -, sigs, hsigs, -⟩, -⟩
    exact ⟨sigs, hsigs⟩
  · rintro ⟨sigs, hsigs⟩
    exact ⟨_, _, ⟨e, he, sigs, hsigs, rfl⟩, rfl⟩

/-- The execution is built if the selector has more than its two header bytes. -/
theorem exists_buildExecuteTx
    (hext : mng.getExtension signed.operationData.protocolId = some extension)
    (haccounts : extension.getAccounts (signed.operationData.functionSelector.drop 2)
      signed.operationData.params = .ok accounts) :
    (∃ execute, buildExecuteTx env executor hash.val mng signed.operationData = .ok execute) ↔
      3 ≤ signed.operationData.functionSelector.length := by
  obtain ⟨e, he⟩ := exists_encode_hash hash
  simp only [buildExecuteTx, hext, he, Except.bind_eq_ok, Except.orFail_eq_ok,
    Except.mapError_eq_ok, Except.require_eq_ok, Except.pure_eq_ok, Option.some.injEq]
  constructor
  · rintro ⟨_, -, -, -, hlen, -⟩
    exact hlen
  · intro hlen
    exact ⟨_, extension, rfl, (), hlen, accounts, haccounts, e, rfl, rfl⟩

end Builders

/-- For an accepted operation that has an extension with accounts for it : the executor builds the
load, the signing and the execution exactly if the protocol id is a text, the selector has a
body, and the signatures can be written. -/
theorem builds_iff (env : Env) (executor : Pubkey) (hash : OpHash) (signed : SignedOperation)
    (o : OperationData) (mng : ExtensionManager) (extension : ProtocolExtension)
    (accounts : List AccountInfo) (hconv : signed.operationData.tryFrom = .ok o)
    (ho : o.Accepted env hash.val)
    (hext : mng.getExtension signed.operationData.protocolId = some extension)
    (haccounts : extension.getAccounts (signed.operationData.functionSelector.drop 2)
      signed.operationData.params = .ok accounts) :
    (∃ load sign execute, buildIxs env executor hash.val mng signed .new =
          .ok [⟨load, 200000⟩, sign, execute] ∧
        buildLoadIx env executor hash.val signed.operationData = .ok load ∧
        buildSignTx env executor hash.val signed = .ok sign ∧
        buildExecuteTx env executor hash.val mng signed.operationData = .ok execute) ↔
      (∃ text, fromUtf8 signed.operationData.protocolId.val = some text) ∧
        3 ≤ signed.operationData.functionSelector.length ∧ signed.Writable := by
  have hloads : (∃ load, buildLoadIx env executor hash.val signed.operationData = .ok load) ↔ _ :=
    exists_buildLoadIx hconv ho
  have hsigns : (∃ sign, buildSignTx env executor hash.val signed = .ok sign) ↔ _ :=
    exists_buildSignTx
  have hexecutes :
      (∃ execute, buildExecuteTx env executor hash.val mng signed.operationData = .ok execute) ↔
        _ := exists_buildExecuteTx hext haccounts
  rw [← hloads, ← hexecutes, ← hsigns]
  constructor
  · rintro ⟨load, sign, execute, -, hload, hsign, hexecute⟩
    exact ⟨⟨load, hload⟩, ⟨execute, hexecute⟩, sign, hsign⟩
  · rintro ⟨⟨load, hload⟩, ⟨execute, hexecute⟩, sign, hsign⟩
    refine ⟨load, sign, execute, ?_, hload, hsign, hexecute⟩
    simp [buildIxs, hload, hsign, hexecute]

section Localnet

open Localnet

theorem builds_localnet :
    ∃ load sign execute, buildIxs localnet wallet.key hash.val extensions signedOperation .new =
      .ok [⟨load, 200000⟩, sign, execute] := by
  have hconv : signedOperation.operationData.tryFrom = .ok op := rfl
  obtain ⟨accounts, haccounts⟩ : ∃ accounts,
      (GovExtension.extension localnet).getAccounts code params = .ok accounts := by
    obtain ⟨accounts, hsome, -⟩ : ∃ accounts ∈
        ((GovExtension.extension localnet).getAccounts code params).toOption,
        accounts.length = 5 := by
      decide +kernel
    exact ⟨accounts, Except.toOption_eq_some.1 hsome⟩
  have htext : (fromUtf8 signedOperation.operationData.protocolId.val).isSome = true := by
    decide +kernel
  have hwritable : signedOperation.Writable := by
    unfold SignedOperation.Writable
    decide +kernel
  obtain ⟨load, sign, execute, hbuilt, -⟩ := (builds_iff localnet wallet.key hash signedOperation op
    extensions (GovExtension.extension localnet) accounts hconv accepted_localnet rfl haccounts).2
    ⟨Option.isSome_iff_exists.1 htext, by decide +kernel, hwritable⟩
  exact ⟨load, sign, execute, hbuilt⟩

end Localnet

section Deployment

open Deployment
open Localnet (onefuncAddress onefuncId transmitter1)

theorem Deployment.length_onefuncId : onefuncId.length = 32 := by
  decide +kernel

/-- The operation of `onefunc` with an empty code, as the executor gets it. -/
def Deployment.emptyMessage : MessageData where
  protocolId := ⟨onefuncId, length_onefuncId⟩
  opMeta := emptyCode.op.opMeta
  srcChainId := emptyCode.op.srcChainId
  srcBlockNumber := emptyCode.op.srcBlockNumber
  srcOpTxId := emptyCode.op.srcOpTxId
  nonce := emptyCode.op.nonce
  destChainId := emptyCode.op.destChainId
  protocolAddr := onefuncAddress.val
  functionSelector := [0, 0]
  params := []
  reserved := []

def Deployment.onefuncKnown : List SignedOp :=
  [giveAddress, addOnefuncExecutor, emptyCode]

/-- Governance gives `onefunc` its program and an executor, and an operation of `onefunc` with an
empty code is loaded. -/
def Deployment.emptyCodeLoaded : List (List (Invocation (deployed onefuncKnown))) :=
  [[setUp _ 10000 [transmitter1]], [load _ giveAddress], [sign _ giveAddress],
    [execute _ giveAddress onefuncId], [load _ addOnefuncExecutor], [sign _ addOnefuncExecutor],
    [execute _ addOnefuncExecutor onefuncId],
    [call _ (.loadOperation emptyCode.op emptyCode.hash.val)
      [.wallet, .derived (.protocol onefuncId), .derived (.op emptyCode.hash.val),
        .derived .config, .program Pubkey.default]]]

/-- The extension of `onefunc` has no accounts for an unknown code. -/
def Deployment.noAccounts : ExtensionManager :=
  ⟨fun _ => some ⟨fun _ _ => .ok [], fun _ _ => none⟩⟩

/-- The operation with the empty code is accepted, and the executor does not build it. -/
theorem empty_code_not_built :
    emptyMessage.tryFrom = .ok emptyCode.op ∧
      emptyCode.op.Accepted (deployed onefuncKnown) emptyCode.hash.val ∧
      buildIxs (deployed onefuncKnown) Localnet.wallet.key emptyCode.hash.val noAccounts
        ⟨emptyMessage, [emptyCode.signature], 0⟩ .new = .error .malformedData := by
  have hmem : ∃ r ∈ ((endpoint (deployed onefuncKnown)).run .genesis emptyCodeLoaded).1,
      r.input.ix = .loadOperation emptyCode.op emptyCode.hash.val ∧
        (r.input.ix.written (deployed onefuncKnown)).isSome = true := by
    decide +kernel
  exact ⟨rfl, .of_mem_run (distinctMethods_deployed _) hmem, by decide +kernel⟩

end Deployment

end Photon
