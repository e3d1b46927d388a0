import Photon.Borsh
import Photon.Accounts

/-!
# Instructions and their bytes

Anchor reads the first eight bytes of the instruction data as a method (`Env.sighash`) and
the rest as the Borsh encoding of its arguments (`Ix.decode`). Bytes after the arguments
are ignored. The endpoint writes such data itself when it calls a protocol
(`callData`) : a selector by code becomes a call of `receive_photon_msg` with the hash, the
code and the params, a selector by name a call of that method with the params.
-/

namespace Photon

open Borsh

/-! ## Codecs of the argument types -/

namespace FunctionSelector

/-- The variant index, then the code or the name. -/
def codec : Codec FunctionSelector where
  encode
    | .byCode code => (Codec.bytes.encode code).map (0 :: ·)
    | .byName name => (Codec.string.encode name).map (1 :: ·)
    | .dummy => some [2]
  decode
    | [] => none
    | t :: bs =>
      if t = 0 then (Codec.bytes.decode bs).map fun p => (.byCode p.1, p.2)
      else if t = 1 then (Codec.string.decode bs).map fun p => (.byName p.1, p.2)
      else if t = 2 then some (.dummy, bs)
      else none
  decode_encode := by
    intro s b rest h
    cases s with
    | byCode code =>
      obtain ⟨c, hc, rfl⟩ := Option.map_eq_some_iff.1 h
      simp [Codec.bytes.decode_encode rest hc]
    | byName name =>
      obtain ⟨n, hn, rfl⟩ := Option.map_eq_some_iff.1 h
      simp [Codec.string.decode_encode rest hn]
    | dummy =>
      obtain rfl := Option.some_inj.1 h
      rfl

end FunctionSelector

/-- The fields of an operation in order. -/
def OperationData.codec : Codec OperationData :=
  Codec.map
    (.pair .bytes <| .pair (.array 32) <| .pair .u128 <| .pair .u64 <| .pair .bytes <|
      .pair .u64 <| .pair .u128 <| .pair (.array 32) <| .pair FunctionSelector.codec <|
        .pair .bytes .bytes)
    (fun (protocolId, opMeta, srcChainId, srcBlockNumber, srcOpTxId, nonce, destChainId,
        protocolAddr, functionSelector, params, reserved) =>
      ⟨protocolId, opMeta, srcChainId, srcBlockNumber, srcOpTxId, nonce, destChainId,
        protocolAddr, functionSelector, params, reserved⟩)
    (fun o => (o.protocolId, o.opMeta, o.srcChainId, o.srcBlockNumber, o.srcOpTxId, o.nonce,
      o.destChainId, o.protocolAddr, o.functionSelector, o.params, o.reserved))
    fun _ => rfl

def TransmitterSignature.codec : Codec TransmitterSignature :=
  Codec.map (.pair .u8 <| .pair .bytes .bytes) (fun (v, r, s) => ⟨v, r, s⟩)
    (fun sig => (sig.v, sig.r, sig.s)) fun _ => rfl

/-- The payload of a call by name. -/
abbrev photonMsg : Codec Bytes :=
  .bytes

/-- The payload of a call by code : the hash, the code and the params. -/
abbrev photonMsgWithSelector : Codec (Bytes × Bytes × Bytes) :=
  .pair .bytes <| .pair .bytes .bytes

/-! ## Instructions -/

/-- The program's instructions with their arguments. -/
inductive Ix
  | initializeProgram (eobChainId : UInt64) (eobMasterSmartContract : Bytes)
      (consensusTargetRate : UInt64) (govTransmitters : List EthAddress)
      (govExecutors : List Pubkey)
  | loadOperation (opData : OperationData) (opHashCached : Bytes)
  | signOperation (opHash : Bytes) (signatures : List TransmitterSignature)
  | executeOperation (opHash : Bytes)
  | propose (protocolId : Bytes) (dstChainId : BitVec 128) (protocolAddress : Bytes)
      (functionSelector : FunctionSelector) (params : Bytes)
  | receivePhotonMsg (opHash code params : Bytes)
  | setAdmin (admin : Pubkey)
  deriving DecidableEq

variable (env : Env)

/-- Read arguments with a codec. -/
def decodeArgs {α : Type} (c : Codec α) (payload : Bytes) (f : α → Ix) : Except Error Ix := do
  let (args, _) ← orFail (c.decode payload) (Error.anchor .instructionDidNotDeserialize)
  pure (f args)

/-- Anchor's dispatch on instruction data. -/
def Ix.decode (data : Bytes) : Except Error Ix :=
  let method := data.take 8
  let payload := data.drop 8
  if method = env.sighash "global" "initialize" then
    decodeArgs (.pair .u64 <| .pair .bytes <| .pair .u64 <| .pair (.vec (.array 20))
      (.vec (.array 32))) payload
      fun (chain, master, rate, transmitters, executors) =>
        .initializeProgram chain master rate transmitters executors
  else if method = env.sighash "global" "load_operation" then
    decodeArgs (.pair OperationData.codec .bytes) payload
      fun (opData, opHashCached) => .loadOperation opData opHashCached
  else if method = env.sighash "global" "sign_operation" then
    decodeArgs (.pair .bytes (.vec TransmitterSignature.codec)) payload
      fun (opHash, signatures) => .signOperation opHash signatures
  else if method = env.sighash "global" "execute_operation" then
    decodeArgs .bytes payload .executeOperation
  else if method = env.sighash "global" "propose" then
    decodeArgs (.pair .bytes <| .pair .u128 <| .pair .bytes <| .pair FunctionSelector.codec
      .bytes) payload
      fun (id, dst, addr, selector, params) => .propose id dst addr selector params
  else if method = env.sighash "global" "receive_photon_msg" then
    decodeArgs photonMsgWithSelector payload
      fun (opHash, code, params) => .receivePhotonMsg opHash code params
  else if method = env.sighash "global" "set_admin" then
    decodeArgs (.array 32) payload .setAdmin
  else .error (.anchor .instructionFallbackNotFound)

/-- The data of the call that executes an operation. -/
def callData (opHash : Bytes) (selector : FunctionSelector) (params : Bytes) :
    Except Error Bytes :=
  match selector with
  | .byCode code => do
    let payload ← orFail (photonMsgWithSelector.encode (opHash, code, params)) Error.panic
    pure (env.sighash "global" "receive_photon_msg" ++ payload)
  | .byName name => do
    let payload ← orFail (photonMsg.encode params) Error.panic
    pure (env.sighash "global" name ++ payload)
  | .dummy => .error .panic

/-! ## Reading call data back -/

variable {env}

theorem length_sighash (ns name : String) : (env.sighash ns name).length = 8 := by
  simp [Env.sighash, (env.sha256 _).property]

theorem drop_sighash (name : String) (payload : Bytes) :
    (env.sighash "global" name ++ payload).drop 8 = payload := by
  have hlen : (env.sighash "global" name).length = 8 := length_sighash "global" name
  rw [← hlen, List.drop_left]

theorem decodeArgs_eq_ok {α : Type} {c : Codec α} {payload : Bytes} {f : α → Ix} {ix : Ix} :
    decodeArgs c payload f = .ok ix ↔ ∃ a rest, c.decode payload = some (a, rest) ∧ f a = ix := by
  simp [decodeArgs]

/-- Data that is read as `load_operation` holds the operation and the hash. -/
theorem args_of_loadOperation {data opHashCached : Bytes} {o : OperationData}
    (hix : Ix.decode env data = .ok (.loadOperation o opHashCached)) :
    ∃ rest, (Codec.pair OperationData.codec .bytes).decode (data.drop 8) =
      some ((o, opHashCached), rest) := by
  simp only [Ix.decode] at hix
  split_ifs at hix <;>
    simp only [decodeArgs_eq_ok, Prod.exists, reduceCtorEq, and_false, exists_false,
      Ix.loadOperation.injEq] at hix
  obtain ⟨_, _, rest, hd, rfl, rfl⟩ := hix
  exact ⟨rest, hd⟩

/-- Call data that is read as `receive_photon_msg` was written for a selector by code, and
carries this hash, code and params : a call by name writes one argument only. -/
theorem receivePhotonMsg_of_callData {opHash params data h code p : Bytes}
    {selector : FunctionSelector} (hdata : callData env opHash selector params = .ok data)
    (hix : Ix.decode env data = .ok (.receivePhotonMsg h code p)) :
    selector = .byCode code ∧ h = opHash ∧ p = params := by
  have hread : ∃ rest, photonMsgWithSelector.decode (data.drop 8) = some ((h, code, p), rest) := by
    simp only [Ix.decode] at hix
    split_ifs at hix <;>
      simp only [decodeArgs_eq_ok, Prod.exists, reduceCtorEq, and_false, exists_false,
        Ix.receivePhotonMsg.injEq] at hix
    obtain ⟨_, _, _, rest, hd, rfl, rfl, rfl⟩ := hix
    exact ⟨rest, hd⟩
  obtain ⟨rest, hread⟩ := hread
  cases selector with
  | byCode sel =>
    simp only [callData, Except.bind_eq_ok, Except.orFail_eq_ok, Except.pure_eq_ok] at hdata
    obtain ⟨payload, henc, rfl⟩ := hdata
    have hdec := photonMsgWithSelector.decode_encode [] henc
    rw [drop_sighash] at hread
    rw [List.append_nil, hread] at hdec
    simp only [Option.some.injEq, Prod.mk.injEq] at hdec
    obtain ⟨⟨rfl, rfl, rfl⟩, -⟩ := hdec
    exact ⟨rfl, rfl, rfl⟩
  | byName name =>
    -- the params fill the payload, so there is no second argument
    simp only [callData, Except.bind_eq_ok, Except.orFail_eq_ok, Except.pure_eq_ok] at hdata
    obtain ⟨payload, henc, rfl⟩ := hdata
    have hdec := photonMsg.decode_encode [] henc
    rw [List.append_nil] at hdec
    rw [drop_sighash, Codec.decode_pair] at hread
    obtain ⟨r, hfirst, hrest⟩ := hread
    rw [hdec] at hfirst
    simp only [Option.some.injEq, Prod.mk.injEq] at hfirst
    obtain ⟨-, rfl⟩ := hfirst
    obtain ⟨r, hsecond, -⟩ := Codec.decode_pair.1 hrest
    simp at hsecond
  | dummy => simp [callData] at hdata

/-! ## Instructions that are written -/

theorem FunctionSelector.total_codec : FunctionSelector.codec.Total := by
  intro bs s rest h
  cases bs with
  | nil => simp [FunctionSelector.codec] at h
  | cons t bs =>
    simp only [FunctionSelector.codec] at h
    split_ifs at h
    · obtain ⟨⟨code, r⟩, hcode, heq⟩ := Option.map_eq_some_iff.1 h
      obtain ⟨rfl, -⟩ := Prod.mk.inj heq
      obtain ⟨b, hb⟩ := Codec.total_bytes _ _ _ hcode
      exact ⟨0 :: b, by simp [FunctionSelector.codec, hb]⟩
    · obtain ⟨⟨name, r⟩, hname, heq⟩ := Option.map_eq_some_iff.1 h
      obtain ⟨rfl, -⟩ := Prod.mk.inj heq
      obtain ⟨b, hb⟩ := Codec.total_string _ _ _ hname
      exact ⟨1 :: b, by simp [FunctionSelector.codec, hb]⟩
    · obtain ⟨rfl, -⟩ := Prod.mk.inj (Option.some_inj.1 h)
      exact ⟨[2], rfl⟩

theorem OperationData.total_codec : OperationData.codec.Total := by
  refine Codec.Total.map ?_ fun _ => rfl
  exact Codec.total_bytes.pair <| (Codec.total_array 32).pair <| Codec.total_uint.pair <|
    Codec.total_uint.pair <| Codec.total_bytes.pair <| Codec.total_uint.pair <|
    Codec.total_uint.pair <| (Codec.total_array 32).pair <| FunctionSelector.total_codec.pair <|
    Codec.total_bytes.pair Codec.total_bytes

/-- The call data of an operation that was read can be written. -/
theorem exists_callData (env : Env) {opHash b : Bytes} {o : OperationData}
    (hlen : opHash.length < 256 ^ 4)
    (henc : OperationData.codec.encode o = some b) (hsel : o.functionSelector ≠ .dummy) :
    ∃ data, callData env opHash o.functionSelector o.params = .ok data := by
  obtain ⟨h, hh⟩ := Codec.exists_encode_bytes.2 hlen
  simp only [OperationData.codec, Codec.map, Codec.encode_pair] at henc
  obtain ⟨_, -, _, ⟨_, -, _, ⟨_, -, _, ⟨_, -, _, ⟨_, -, _, ⟨_, -, _, ⟨_, -, _, ⟨_, -, _, ⟨selector,
    hselector, _, ⟨params, hparams, -⟩, -⟩, -⟩, -⟩, -⟩, -⟩, -⟩, -⟩, -⟩, -⟩ := henc
  cases hcase : o.functionSelector with
  | byCode code =>
    rw [hcase] at hselector
    obtain ⟨c, hc, -⟩ := Option.map_eq_some_iff.1 hselector
    have hpayload : photonMsgWithSelector.encode (opHash, code, o.params) =
        some (h ++ (c ++ params)) :=
      Codec.encode_pair.2 ⟨h, hh, _, Codec.encode_pair.2 ⟨c, hc, params, hparams, rfl⟩, rfl⟩
    exact ⟨_, by simp only [callData, hpayload]; rfl⟩
  | byName name => exact ⟨_, by simp only [callData, photonMsg, hparams]; rfl⟩
  | dummy => exact absurd hcase hsel

/-- Anchor's methods are told apart by their eight bytes. -/
def Env.DistinctMethods (env : Env) : Prop :=
  (["initialize", "load_operation", "sign_operation", "execute_operation", "propose",
    "receive_photon_msg", "set_admin"].map (env.sighash "global")).Nodup

section Decode

variable {args opHash : Bytes}

theorem take_sighash (name : String) (payload : Bytes) :
    (env.sighash "global" name ++ payload).take 8 = env.sighash "global" name := by
  have hlen : (env.sighash "global" name).length = 8 := length_sighash "global" name
  rw [← hlen, List.take_left]

theorem decode_loadOperation (hm : env.DistinctMethods) {o : OperationData}
    (hargs : (Codec.pair OperationData.codec .bytes).encode (o, opHash) = some args) :
    Ix.decode env (env.sighash "global" "load_operation" ++ args) =
      .ok (.loadOperation o opHash) := by
  have hdec := (Codec.pair OperationData.codec .bytes).decode_encode [] hargs
  rw [List.append_nil] at hdec
  simp only [Env.DistinctMethods, List.map_cons, List.nodup_cons, List.mem_cons, not_or] at hm
  simp only [Ix.decode, take_sighash, drop_sighash, Ne.symm hm.1.1, if_false, if_true]
  exact decodeArgs_eq_ok.2 ⟨_, _, hdec, rfl⟩

theorem decode_signOperation (hm : env.DistinctMethods) {sigs : List TransmitterSignature}
    (hargs : (Codec.pair .bytes (.vec TransmitterSignature.codec)).encode (opHash, sigs) =
      some args) :
    Ix.decode env (env.sighash "global" "sign_operation" ++ args) =
      .ok (.signOperation opHash sigs) := by
  have hdec := (Codec.pair .bytes (.vec TransmitterSignature.codec)).decode_encode [] hargs
  rw [List.append_nil] at hdec
  simp only [Env.DistinctMethods, List.map_cons, List.nodup_cons, List.mem_cons, not_or] at hm
  simp only [Ix.decode, take_sighash, drop_sighash, Ne.symm hm.1.2.1, Ne.symm hm.2.1.1, if_false,
    if_true]
  exact decodeArgs_eq_ok.2 ⟨_, _, hdec, rfl⟩

theorem decode_executeOperation (hm : env.DistinctMethods)
    (hargs : Codec.bytes.encode opHash = some args) :
    Ix.decode env (env.sighash "global" "execute_operation" ++ args) =
      .ok (.executeOperation opHash) := by
  have hdec := Codec.bytes.decode_encode [] hargs
  rw [List.append_nil] at hdec
  simp only [Env.DistinctMethods, List.map_cons, List.nodup_cons, List.mem_cons, not_or] at hm
  simp only [Ix.decode, take_sighash, drop_sighash, Ne.symm hm.1.2.2.1, Ne.symm hm.2.1.2.1,
    Ne.symm hm.2.2.1.1, if_false, if_true]
  exact decodeArgs_eq_ok.2 ⟨_, _, hdec, rfl⟩

end Decode

end Photon
