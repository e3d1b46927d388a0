import Photon.Lifecycle

/-!
# What a step writes

`Step` tells what a call has checked. This module tells what it leaves in the configuration
and in the registered protocols. `Handled` has one case per governance handler, and
`handled_of_ok` says that a handler that succeeds is one of them. A step then writes the
protocols in one of two ways, by `initialize` or through a handler (`ProtocolStep`), and it
either keeps the nonce and announces nothing or takes one nonce for one proposal
(`NonceStep`). The invariants of the registry are read off these.

`governs` is the handler that a step would run, with the operation it is given and the
protocol it acts on, as far as the ledger before the step decides it.
-/

namespace Photon

open Machine

variable {env : Env} {l l' : Ledger} {i : Invocation env} {out : List Effect}

/-! ## Lists of addresses in a message -/

section Messages

variable (env)

/-- The nonzero addresses in a field of a message. -/
def addedTransmitters (g : GovOperation) (field : ℕ) (calldata : Bytes) :
    Except Error (List EthAddress) := do
  let params ← decodeAbiParams env calldata (abiDecodeScheme g)
  let token ← param params field
  getTransmittersToAdd token

/-- The addresses in a field of a message. -/
def removedTransmitters (g : GovOperation) (field : ℕ) (calldata : Bytes) :
    Except Error (List EthAddress) := do
  let params ← decodeAbiParams env calldata (abiDecodeScheme g)
  let token ← param params field
  getTransmittersToRemove token

/-- The transmitters that `AddAllowedProtocol` registers. -/
def registeredTransmitters (calldata : Bytes) : Except Error (List EthAddress) := do
  let params ← decodeAbiParams env calldata (abiDecodeScheme .addAllowedProtocol)
  let token ← param params 2
  let items ← orFail token.intoArray (Error.custom .invalidGovMsg)
  items.mapM fun x => orFail x.intoAddress Error.panic

/-- The program address that an operation gives to its protocol. -/
def newAddress (g : GovOperation) (calldata : Bytes) : Option Pubkey :=
  match g with
  | .addAllowedProtocolAddress => (decodeKey env calldata).toOption
  | .removeAllowedProtocolAddress => some Pubkey.default
  | _ => none

end Messages

theorem addedTransmitters_eq_ok {g : GovOperation} {field : ℕ} {calldata : Bytes}
    {toAdd : List EthAddress} : addedTransmitters env g field calldata = .ok toAdd ↔
      ∃ params, decodeAbiParams env calldata (abiDecodeScheme g) = .ok params ∧
        ∃ token, param params field = .ok token ∧ getTransmittersToAdd token = .ok toAdd := by
  simp only [addedTransmitters, Except.bind_eq_ok]

theorem removedTransmitters_eq_ok {g : GovOperation} {field : ℕ} {calldata : Bytes}
    {toRemove : List EthAddress} : removedTransmitters env g field calldata = .ok toRemove ↔
      ∃ params, decodeAbiParams env calldata (abiDecodeScheme g) = .ok params ∧
        ∃ token, param params field = .ok token ∧
          getTransmittersToRemove token = .ok toRemove := by
  simp only [removedTransmitters, Except.bind_eq_ok]

theorem not_mem_addedTransmitters {g : GovOperation} {field : ℕ} {calldata : Bytes}
    {toAdd : List EthAddress} (h : addedTransmitters env g field calldata = .ok toAdd) :
    EthAddress.default ∉ toAdd := by
  obtain ⟨_, -, _, -, h⟩ := addedTransmitters_eq_ok.1 h
  simp only [getTransmittersToAdd, Except.bind_eq_ok, Except.pure_eq_ok] at h
  obtain ⟨_, -, rfl⟩ := h
  simp

/-! ## Handlers -/

theorem checkConsensusTargetRate_eq_ok {rate : UInt64} {u : Unit} :
    checkConsensusTargetRate rate = .ok u ↔ 1 ≤ rate.toNat ∧ rate.toNat ≤ RATE_DECIMALS := by
  have hzero : rate ≠ 0 ↔ 1 ≤ rate.toNat := by
    rw [Nat.one_le_iff_ne_zero, ne_eq, ne_eq, ← UInt64.toNat_inj]
    rfl
  simp [checkConsensusTargetRate, hzero]

theorem nextNonce_eq_ok {c c' : Config} : nextNonce c = .ok c' ↔
    c.nonce.toNat + 1 < 2 ^ 64 ∧ c' = { c with nonce := c.nonce + 1 } := by
  simp only [nextNonce, Except.bind_eq_ok, Except.require_eq_ok, Except.pure_eq_ok]
  constructor
  · rintro ⟨-, hlt, rfl⟩
    exact ⟨hlt, rfl⟩
  · rintro ⟨hlt, rfl⟩
    exact ⟨(), hlt, rfl⟩

theorem addTransmittersImpl_ok {p q : ProtocolInfo} {toAdd : List EthAddress}
    (hok : addTransmittersImpl toAdd p = .ok q) :
    ∃ array, Slots.fill EthAddress.default ((p.transmitters ++ toAdd).destutter (· ≠ ·)) =
      some array ∧ q = { p with transmittersArray := array } := by
  simp only [addTransmittersImpl, Except.bind_eq_ok, Except.orFail_eq_ok, Except.pure_eq_ok] at hok
  obtain ⟨-, -, array, hfill, rfl⟩ := hok
  exact ⟨array, hfill, rfl⟩

theorem removeTransmittersImpl_ok {p q : ProtocolInfo} {toRemove : List EthAddress}
    (hok : removeTransmittersImpl toRemove p = .ok q) :
    ∃ array, Slots.fill EthAddress.default (p.transmitters.filter (· ∉ toRemove)) =
      some array ∧ q = { p with transmittersArray := array } := by
  simp only [removeTransmittersImpl, Except.bind_eq_ok, Except.orFail_eq_ok,
    Except.pure_eq_ok] at hok
  obtain ⟨array, hfill, rfl⟩ := hok
  exact ⟨array, hfill, rfl⟩

/-- What a governance handler gives for the operation `op`, from the configuration `c` and
the protocol `p` : a configuration, a protocol, and what is put out. -/
inductive Handled (env : Env) (c : Config) (p : ProtocolInfo) (op : OperationData) :
    GovOperation → Config → ProtocolInfo → List Effect → Prop
  | addAllowedProtocol {rate transmitters array ev}
      (hrate : 1 ≤ rate.toNat ∧ rate.toNat ≤ RATE_DECIMALS)
      (hlist : registeredTransmitters env op.params = .ok transmitters)
      (harray : Slots.overwrite p.transmittersArray transmitters = some array)
      (hnonce : c.nonce.toNat + 1 < 2 ^ 64) (hev : ev.nonce = c.nonce) :
      Handled env c p op .addAllowedProtocol { c with nonce := c.nonce + 1 }
        { p with isInit := true, consensusTargetRate := rate, transmittersArray := array }
        [.emit (.propose ev)]
  | setAddress {g key} (hkey : newAddress env g op.params = some key) :
      Handled env c p op g c { p with protocolAddress := key } []
  | addProposer {key array} (hkey : decodeKey env op.params = .ok key)
      (hadd : addKey .invalidProposerAddress .proposerIsAlreadyAllowed .maxProposersExceeded
        MAX_PROPOSERS p.proposers key = .ok array) :
      Handled env c p op .addAllowedProposerAddress c { p with proposersArray := array } []
  | removeProposer {key array} (hkey : decodeKey env op.params = .ok key)
      (hfill : Slots.fill Pubkey.default (removeKey p.proposers key) = some array) :
      Handled env c p op .removeAllowedProposerAddress c { p with proposersArray := array } []
  | addExecutor {key array} (hkey : decodeKey env op.params = .ok key)
      (hadd : addKey .invalidExecutorAddress .executorIsAlreadyAllowed .maxExecutorsExceeded
        MAX_EXECUTORS p.executors key = .ok array) :
      Handled env c p op .addExecutor c { p with executorsArray := array } []
  | removeExecutor {key array} (hkey : decodeKey env op.params = .ok key)
      (hlast : ¬(removeKey p.executors key = [] ∧ op.protocolId = govProtocolId))
      (hfill : Slots.fill Pubkey.default (removeKey p.executors key) = some array) :
      Handled env c p op .removeExecutor c { p with executorsArray := array } []
  | addTransmitters {toAdd array}
      (hadd : addedTransmitters env .addTransmitters 1 op.params = .ok toAdd)
      (hfill : Slots.fill EthAddress.default ((p.transmitters ++ toAdd).destutter (· ≠ ·)) =
        some array) :
      Handled env c p op .addTransmitters c { p with transmittersArray := array } []
  | removeTransmitters {toRemove array}
      (hrem : removedTransmitters env .removeTransmitters 1 op.params = .ok toRemove)
      (hfill : Slots.fill EthAddress.default (p.transmitters.filter (· ∉ toRemove)) =
        some array) :
      Handled env c p op .removeTransmitters c { p with transmittersArray := array } []
  /-- An empty list leaves the array alone. -/
  | updateTransmitters {toAdd toRemove left array}
      (hrem : removedTransmitters env .updateTransmitters 2 op.params = .ok toRemove)
      (hleft : (toRemove = [] ∧ left = p.transmittersArray) ∨ (toRemove ≠ [] ∧
        Slots.fill EthAddress.default (p.transmitters.filter (· ∉ toRemove)) = some left))
      (hadd : addedTransmitters env .updateTransmitters 1 op.params = .ok toAdd)
      (harray : (toAdd = [] ∧ array = left) ∨ (toAdd ≠ [] ∧ Slots.fill EthAddress.default
        ((Slots.live EthAddress.default left ++ toAdd).destutter (· ≠ ·)) = some array)) :
      Handled env c p op .updateTransmitters c { p with transmittersArray := array } []
  | setRate {rate} (hrate : 1 ≤ rate.toNat ∧ rate.toNat ≤ RATE_DECIMALS) :
      Handled env c p op .setConsensusTargetRate c { p with consensusTargetRate := rate } []

/-- The removal comes first, and the added transmitters go behind what it leaves. -/
theorem updateTransmitters_ok {p q : ProtocolInfo} {calldata : Bytes}
    (hok : updateTransmitters env calldata p = .ok q) :
    ∃ toRemove left toAdd array,
      removedTransmitters env .updateTransmitters 2 calldata = .ok toRemove ∧
      ((toRemove = [] ∧ left = p.transmittersArray) ∨ (toRemove ≠ [] ∧
        Slots.fill EthAddress.default (p.transmitters.filter (· ∉ toRemove)) = some left)) ∧
      addedTransmitters env .updateTransmitters 1 calldata = .ok toAdd ∧
      ((toAdd = [] ∧ array = left) ∨ (toAdd ≠ [] ∧ Slots.fill EthAddress.default
        ((Slots.live EthAddress.default left ++ toAdd).destutter (· ≠ ·)) = some array)) ∧
      q = { p with transmittersArray := array } := by
  simp only [updateTransmitters, Except.bind_eq_ok] at hok
  obtain ⟨params, hparams, token, htoken, toRemove, hrem, hok⟩ := hok
  obtain ⟨left, hleft, addToken, haddToken, toAdd, hadd, hq⟩ : ∃ left,
      ((toRemove = [] ∧ left = p.transmittersArray) ∨ (toRemove ≠ [] ∧
        Slots.fill EthAddress.default (p.transmitters.filter (· ∉ toRemove)) = some left)) ∧
      ∃ addToken, param params 1 = .ok addToken ∧
        ∃ toAdd, getTransmittersToAdd addToken = .ok toAdd ∧
          (if toAdd = [] then pure { p with transmittersArray := left }
            else addTransmittersImpl toAdd { p with transmittersArray := left }) = .ok q := by
    split_ifs at hok with hnone
    · simp only [Except.bind_eq_ok, Except.pure_eq_ok] at hok
      obtain ⟨_, rfl, hok⟩ := hok
      exact ⟨_, .inl ⟨hnone, rfl⟩, hok⟩
    · simp only [Except.bind_eq_ok] at hok
      obtain ⟨p₁, hp₁, hok⟩ := hok
      obtain ⟨left, hfill, rfl⟩ := removeTransmittersImpl_ok hp₁
      exact ⟨left, .inr ⟨hnone, hfill⟩, hok⟩
  have hremoved := removedTransmitters_eq_ok.2 ⟨params, hparams, token, htoken, hrem⟩
  have hadded := addedTransmitters_eq_ok.2 ⟨params, hparams, addToken, haddToken, hadd⟩
  split_ifs at hq with hnone
  · exact ⟨toRemove, left, toAdd, left, hremoved, hleft, hadded, .inl ⟨hnone, rfl⟩,
      (Except.pure_eq_ok.1 hq).symm⟩
  · obtain ⟨array, hfill, rfl⟩ := addTransmittersImpl_ok hq
    exact ⟨toRemove, left, toAdd, array, hremoved, hleft, hadded, .inr ⟨hnone, hfill⟩, rfl⟩

theorem handled_of_ok {c c' : Config} {p q : ProtocolInfo} {code : Bytes} {op : OperationData}
    {effects : List Effect} (hok : handleGovOperation env c p code op = .ok (c', q, effects)) :
    ∃ g, GovOperation.tryFrom (selectorU32 code) = some g ∧
      Handled env c p op g c' q effects := by
  simp only [handleGovOperation, Except.bind_eq_ok, Except.orFail_eq_ok] at hok
  obtain ⟨-, -, g, hg, hok⟩ := hok
  refine ⟨g, hg, ?_⟩
  cases g with
  | addAllowedProtocol =>
    simp only [addAllowedProtocol, proposeHandleAddAllowedProtocol, Except.bind_eq_ok,
      Except.orFail_eq_ok, Except.pure_eq_ok, Prod.mk.injEq, Prod.exists,
      checkConsensusTargetRate_eq_ok, nextNonce_eq_ok] at hok
    obtain ⟨params, hparams, _, -, _, -, rate, -, -, hrate, token, htoken, items, hitems,
      transmitters, hlist, array, harray, _, _, ⟨_, ⟨hnonce, rfl⟩, _, -, _, -, rfl, rfl⟩, rfl, rfl,
      rfl⟩ := hok
    have hregistered : registeredTransmitters env op.params = .ok transmitters := by
      simp only [registeredTransmitters, Except.bind_eq_ok, Except.orFail_eq_ok]
      exact ⟨params, hparams, token, htoken, items, hitems, hlist⟩
    exact .addAllowedProtocol hrate hregistered harray hnonce rfl
  | addAllowedProtocolAddress =>
    simp only [addAllowedProtocolAddress, Except.bind_eq_ok, Except.pure_eq_ok,
      Prod.mk.injEq] at hok
    obtain ⟨_, ⟨key, hkey, rfl⟩, rfl, rfl, rfl⟩ := hok
    exact .setAddress (by simp [newAddress, hkey, Except.toOption])
  | removeAllowedProtocolAddress =>
    simp only [removeAllowedProtocolAddress, Except.bind_eq_ok, Except.pure_eq_ok,
      Prod.mk.injEq] at hok
    obtain ⟨_, rfl, rfl, rfl, rfl⟩ := hok
    exact .setAddress rfl
  | addAllowedProposerAddress =>
    simp only [addAllowedProposerAddress, Except.bind_eq_ok, Except.pure_eq_ok,
      Prod.mk.injEq] at hok
    obtain ⟨_, ⟨key, hkey, array, hadd, rfl⟩, rfl, rfl, rfl⟩ := hok
    exact .addProposer hkey hadd
  | removeAllowedProposerAddress =>
    simp only [removeAllowedProposerAddress, Except.bind_eq_ok, Except.orFail_eq_ok,
      Except.pure_eq_ok, Prod.mk.injEq] at hok
    obtain ⟨_, ⟨key, hkey, array, hfill, rfl⟩, rfl, rfl, rfl⟩ := hok
    exact .removeProposer hkey hfill
  | addExecutor =>
    simp only [addExecutor, Except.bind_eq_ok, Except.pure_eq_ok, Prod.mk.injEq] at hok
    obtain ⟨_, ⟨key, hkey, array, hadd, rfl⟩, rfl, rfl, rfl⟩ := hok
    exact .addExecutor hkey hadd
  | removeExecutor =>
    simp only [removeExecutor, Except.bind_eq_ok, Except.require_eq_ok, Except.orFail_eq_ok,
      Except.pure_eq_ok, Prod.mk.injEq] at hok
    obtain ⟨_, ⟨key, hkey, -, hlast, array, hfill, rfl⟩, rfl, rfl, rfl⟩ := hok
    exact .removeExecutor hkey hlast hfill
  | addTransmitters =>
    simp only [addTransmitters, Except.bind_eq_ok, Except.require_eq_ok, Except.pure_eq_ok,
      Prod.mk.injEq] at hok
    obtain ⟨q, ⟨params, hparams, token, htoken, toAdd, hadd, -, -, hq⟩, rfl, rfl, rfl⟩ := hok
    obtain ⟨array, hfill, rfl⟩ := addTransmittersImpl_ok hq
    exact .addTransmitters
      (addedTransmitters_eq_ok.2 ⟨params, hparams, token, htoken, hadd⟩) hfill
  | removeTransmitters =>
    simp only [removeTransmitters, Except.bind_eq_ok, Except.pure_eq_ok, Prod.mk.injEq] at hok
    obtain ⟨q, ⟨params, hparams, token, htoken, toRemove, hrem, hq⟩, rfl, rfl, rfl⟩ := hok
    obtain ⟨array, hfill, rfl⟩ := removeTransmittersImpl_ok hq
    exact .removeTransmitters
      (removedTransmitters_eq_ok.2 ⟨params, hparams, token, htoken, hrem⟩) hfill
  | updateTransmitters =>
    simp only [Except.bind_eq_ok, Except.pure_eq_ok, Prod.mk.injEq] at hok
    obtain ⟨q, hq, rfl, rfl, rfl⟩ := hok
    obtain ⟨_, _, _, _, hrem, hleft, hadd, harray, rfl⟩ := updateTransmitters_ok hq
    exact .updateTransmitters hrem hleft hadd harray
  | setConsensusTargetRate =>
    simp only [setConsensusTargetRate, Except.bind_eq_ok, Except.orFail_eq_ok, Except.pure_eq_ok,
      Prod.mk.injEq, checkConsensusTargetRate_eq_ok] at hok
    obtain ⟨_, ⟨_, -, _, -, _, -, rate, -, -, hrate, rfl⟩, rfl, rfl, rfl⟩ := hok
    exact .setRate hrate

/-! ## Protocols -/

/-- The handler that a call would run : the stored operation it is given, the handler, and the
protocol it acts on. An operation on the endpoint itself brings its own code, a call of
`receive_photon_msg` from outside the code of the caller. -/
def governs (env : Env) (l : Ledger) (ix : Ix) : Option (OperationData × GovOperation × Bytes) :=
  match ix with
  | .receivePhotonMsg h code _ => do
    let op ← l.ops h
    select op.opData code
  | .executeOperation h => do
    let op ← l.ops h
    if op.opData.protocolAddr = photonId then
      match op.opData.functionSelector with
      | .byCode code => select op.opData code
      | _ => none
    else none
  | _ => none
where
  select (op : OperationData) (code : Bytes) : Option (OperationData × GovOperation × Bytes) := do
    let g ← GovOperation.tryFrom (selectorU32 code)
    let id ← (targetProtocol env op.functionSelector op.params).toOption
    some (op, g, id)

/-- The transmitters and executors that a call sets up the governance protocol with, and the
rate. -/
def Ix.setsUp : Ix → Option (UInt64 × List EthAddress × List Pubkey)
  | .initializeProgram _ _ rate transmitters executors => some (rate, transmitters, executors)
  | _ => none

/-- The protocol with this id, or a fresh one. -/
def Ledger.protocol (l : Ledger) (id : Bytes) : ProtocolInfo :=
  (l.protocols id).getD ProtocolInfo.default

/-- How a successful call writes the protocols. -/
inductive ProtocolStep (l : Ledger) (i : Invocation env) (l' : Ledger) : Prop
  | same (hsame : l'.protocols = l.protocols) (hset : i.ix.setsUp = none)
      (hgov : governs env l i.ix = none)
  | setUp {rate transmitters executors transmittersArray executorsArray}
      (hset : i.ix.setsUp = some (rate, transmitters, executors))
      (hgov : governs env l i.ix = none)
      (htransmitters : Slots.fill EthAddress.default transmitters = some transmittersArray)
      (hexecutors : Slots.fill Pubkey.default executors = some executorsArray)
      (hwrite : l'.protocols = (l.setProtocol govProtocolId
        { l.protocol govProtocolId with
          isInit := true, protocolAddress := photonId, consensusTargetRate := rate
          transmittersArray := transmittersArray, executorsArray := executorsArray }).protocols)
  | govern {op g id c c' q effects} (hset : i.ix.setsUp = none)
      (hgov : governs env l i.ix = some (op, g, id)) (hop : op.protocolId = govProtocolId)
      (handled : Handled env c (l.protocol id) op g c' q effects)
      (hwrite : l'.protocols = (l.setProtocol id q).protocols)

theorem governs_of_governed {op : OpInfo} {code id : Bytes} {c : Config} {q : ProtocolInfo}
    {effects : List Effect} (gov : Governed env l op code id c q effects) :
    ∃ g, governs.select env op.opData code = some (op.opData, g, id) ∧
      Handled env (l.config.getD Config.default) (l.protocol id) op.opData g c q effects := by
  obtain ⟨g, hg, handled⟩ := handled_of_ok gov.handled
  exact ⟨g, by simp [governs.select, hg, gov.target, Except.toOption], handled⟩

theorem initializeProgram_ok {accounts : List AccountInfo} {chain rate : UInt64} {master : Bytes}
    {transmitters : List EthAddress} {executors : List Pubkey}
    (hok : initializeProgram env l accounts chain master rate transmitters executors =
      .ok (l', out)) :
    ∃ c transmittersArray executorsArray,
      Slots.fill EthAddress.default transmitters = some transmittersArray ∧
      Slots.fill Pubkey.default executors = some executorsArray ∧
      c.nonce = (l.config.getD Config.default).nonce ∧ out = [] ∧
      l' = (l.setConfig c).setProtocol govProtocolId
        { l.protocol govProtocolId with
          isInit := true, protocolAddress := photonId, consensusTargetRate := rate
          transmittersArray := transmittersArray, executorsArray := executorsArray } := by
  simp only [initializeProgram, Except.bind_eq_ok, Except.orFail_eq_ok, Except.pure_eq_ok,
    Prod.mk.injEq] at hok
  obtain ⟨ctx, hctx, contract, -, _, htransmitters, _, hexecutors, rfl, rfl⟩ := hok
  obtain ⟨hp, hc, -⟩ := Initialize.of_tryAccounts hctx
  rw [hp]
  exact ⟨⟨ctx.admin.key, chain, contract, ctx.config.nonce⟩, _, _, htransmitters, hexecutors,
    by rw [← hc], rfl, rfl⟩

theorem step_protocols (hok : (endpoint env).step l i = .ok (l', out)) :
    ProtocolStep l i l' := by
  cases step_cases hok with
  | setUp _ _ hix =>
    obtain ⟨invoke, hdis⟩ := dispatch_of_process hok
    rw [hix, dispatch] at hdis
    obtain ⟨c, _, _, htransmitters, hexecutors, -, -, hl'⟩ := initializeProgram_ok hdis
    exact .setUp (by rw [hix]; rfl) (by rw [hix]; rfl) htransmitters hexecutors (by rw [hl']; rfl)
  | load _ hix | answer hix | sign _ hix | propose _ _ hix | setAdmin _ hix =>
    exact .same rfl (by rw [hix]; rfl) (by rw [hix]; rfl)
  | execute hix hop call hother =>
    refine .same rfl (by rw [hix]; rfl) ?_
    simp [governs, hix, hop, hother]
  | executeGov hix hop call hsel gov =>
    obtain ⟨g, hgov, handled⟩ := governs_of_governed gov
    refine .govern (by rw [hix]; rfl) ?_ gov.protocolId handled rfl
    simp [governs, hix, hop, gov.protocolAddr, hsel, hgov]
  | receive hix hop gov =>
    obtain ⟨g, hgov, handled⟩ := governs_of_governed gov
    refine .govern (by rw [hix]; rfl) ?_ gov.protocolId handled rfl
    simp [governs, hix, hop, hgov]

/-! ## Nonces -/

/-- The nonce of the next proposal. -/
def Ledger.nonce (l : Ledger) : UInt64 :=
  (l.config.getD Config.default).nonce

/-- The proposals among what is put out. -/
def proposals (out : List Effect) : List ProposeEvent :=
  out.filterMap fun
    | .emit (.propose e) => some e
    | _ => none

@[simp] theorem proposals_append (out out' : List Effect) :
    proposals (out ++ out') = proposals out ++ proposals out' :=
  List.filterMap_append

/-- Either nothing is announced and the nonce stays, or one proposal takes it. -/
def NonceStep (l l' : Ledger) (out : List Effect) : Prop :=
  (proposals out = [] ∧ l'.nonce = l.nonce) ∨
    ∃ ev, proposals out = [ev] ∧ ev.nonce = l.nonce ∧ l.nonce.toNat + 1 < 2 ^ 64 ∧
      l'.nonce = l.nonce + 1

theorem Handled.nonceStep {c c' : Config} {p q : ProtocolInfo} {op : OperationData}
    {g : GovOperation} {effects : List Effect} (h : Handled env c p op g c' q effects) :
    (proposals effects = [] ∧ c'.nonce = c.nonce) ∨
      ∃ ev, proposals effects = [ev] ∧ ev.nonce = c.nonce ∧ c.nonce.toNat + 1 < 2 ^ 64 ∧
        c'.nonce = c.nonce + 1 := by
  cases h with
  | addAllowedProtocol _ _ _ hnonce hev => exact .inr ⟨_, rfl, hev, hnonce, rfl⟩
  | _ => exact .inl ⟨rfl, rfl⟩

theorem propose_ok {accounts : List AccountInfo} {id addr params : Bytes} {dst : BitVec 128}
    {selector : FunctionSelector}
    (hok : propose env l accounts id dst addr selector params = .ok (l', out)) :
    NonceStep l l' out := by
  simp only [propose, Except.bind_eq_ok, Except.pure_eq_ok, Prod.mk.injEq, nextNonce_eq_ok] at hok
  obtain ⟨ctx, hctx, _, ⟨hlt, rfl⟩, _, -, rfl, rfl⟩ := hok
  have hnonce : ctx.config.nonce = l.nonce := by
    simp [Ledger.nonce, (Propose.of_tryAccounts hctx).1]
  exact .inr ⟨_, rfl, hnonce, hnonce ▸ hlt, by rw [← hnonce]; rfl⟩

theorem setAdmin_ok {accounts : List AccountInfo} {admin : Pubkey}
    (hok : setAdmin env l accounts admin = .ok (l', out)) : NonceStep l l' out := by
  simp only [setAdmin, Except.bind_eq_ok, Except.pure_eq_ok, Prod.mk.injEq] at hok
  obtain ⟨ctx, hctx, rfl, rfl⟩ := hok
  refine .inl ⟨rfl, ?_⟩
  simp [Ledger.nonce, (SetAdmin.of_tryAccounts hctx).1]

theorem step_nonce (hok : (endpoint env).step l i = .ok (l', out)) : NonceStep l l' out := by
  obtain ⟨invoke, hdis⟩ := dispatch_of_process hok
  cases step_cases hok with
  | setUp _ _ hix =>
    rw [hix, dispatch] at hdis
    obtain ⟨c, _, _, -, -, hnonce, -, hl'⟩ := initializeProgram_ok hdis
    exact .inl ⟨rfl, by rw [hl']; exact hnonce⟩
  | propose _ _ hix =>
    rw [hix, dispatch] at hdis
    exact propose_ok hdis
  | setAdmin _ hix =>
    rw [hix, dispatch] at hdis
    exact setAdmin_ok hdis
  | load | answer | execute => exact .inl ⟨rfl, rfl⟩
  | @sign _ _ _ _ _ reached => cases reached <;> exact .inl ⟨rfl, rfl⟩
  | @executeGov h op p executor ix code id c q effects hix hop call hsel gov =>
    obtain ⟨g, -, handled⟩ := governs_of_governed gov
    have hout : proposals (.invoke ix (.callAuthority op.opData.protocolId) ::
        (effects ++ [.governed h code]) ++ [.emit (.proposalExecuted h executor.key)]) =
          proposals effects := by
      simp [proposals]
    rw [NonceStep, hout]
    exact handled.nonceStep
  | @receive h op code params id c q effects hix hop gov =>
    obtain ⟨g, -, handled⟩ := governs_of_governed gov
    have hout : proposals (effects ++ [.governed h code]) = proposals effects := by
      simp [proposals]
    rw [NonceStep, hout]
    exact handled.nonceStep

/-- Along every run the proposals so far have taken the nonces below the stored one. -/
theorem nonces_of_run {history : List (Record Ledger (Invocation env) Effect)}
    (hr : (endpoint env).Run Ledger.genesis history l) :
    (proposals (outputs history)).map (·.nonce.toNat) = List.range l.nonce.toNat := by
  induction hr with
  | nil => rfl
  | @snoc history l i l' out _ hok ih =>
    have hout : proposals (outputs (history ++ [⟨l, i, out, l'⟩])) =
        proposals (outputs history) ++ proposals out := by
      simp [outputs]
    rw [hout, List.map_append, ih]
    rcases step_nonce hok with ⟨hnone, hsame⟩ | ⟨ev, hone, hev, hlt, hnext⟩
    · simp [hnone, hsame]
    · have hsucc : l'.nonce.toNat = l.nonce.toNat + 1 := by
        rw [hnext, UInt64.toNat_add]
        exact Nat.mod_eq_of_lt hlt
      simp [hone, hev, hsucc, List.range_succ]

/-- In every history of transactions the proposals carry the nonces `0, 1, 2, …` in order, and
the next one is stored. -/
theorem nonces_gap_free (env : Env) (txs : List (List (Invocation env))) :
    (proposals (outputs ((endpoint env).run Ledger.genesis txs).1)).map (·.nonce.toNat) =
        List.range (proposals (outputs ((endpoint env).run Ledger.genesis txs).1)).length ∧
      ((endpoint env).run Ledger.genesis txs).2.nonce.toNat =
        (proposals (outputs ((endpoint env).run Ledger.genesis txs).1)).length := by
  have hall := nonces_of_run (run_sound (endpoint env) Ledger.genesis txs)
  have hlen := congrArg List.length hall
  rw [List.length_map, List.length_range] at hlen
  rw [hlen]
  exact ⟨hall, rfl⟩

end Photon
