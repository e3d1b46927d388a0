import Photon.Deployment
import Photon.Writes

/-!
# What the governance handlers make of the lists

Three handlers compared with the sets they are meant to leave.

* `AddTransmitters` and `UpdateTransmitters` append, drop repetitions of neighbours, and refuse a
  list that then has `MAX_TRANSMITTERS` entries, one fewer than the array holds. The set decides
  exactly when the list is shorter than that, or when the set itself is too large
  (`capacity_iff`).
* `AddAllowedProtocol` writes over the front of the array, and readers stop at the first zero
  (`registered_iff`).
* `RemoveExecutor` guards the last executor by the protocol of the operation that carries the
  message, which is always the governance protocol, and not by the target (`last_executor_iff`).
-/

namespace Photon

/-! ## Capacity -/

/-- The set that a change should leave : the transmitters that stay, and the new ones. -/
def ProtocolInfo.changed (p : ProtocolInfo) (toRemove toAdd : List EthAddress) :
    Finset EthAddress :=
  (p.transmitters.toFinset \ toRemove.toFinset) ∪ toAdd.toFinset

/-- The addresses that a message removes, and the nonzero ones it adds. -/
inductive TransmitterChange (env : Env) (calldata : Bytes) :
    GovOperation → List EthAddress → List EthAddress → Prop
  | add {toAdd} (hadd : addedTransmitters env .addTransmitters 1 calldata = .ok toAdd) :
      TransmitterChange env calldata .addTransmitters [] toAdd
  | update {toRemove toAdd}
      (hrem : removedTransmitters env .updateTransmitters 2 calldata = .ok toRemove)
      (hadd : addedTransmitters env .updateTransmitters 1 calldata = .ok toAdd) :
      TransmitterChange env calldata .updateTransmitters toRemove toAdd

variable {env : Env} {c : Config} {p : ProtocolInfo} {calldata code : Bytes} {op : OperationData}
  {toAdd toRemove : List EthAddress}

theorem addTransmittersImpl_full (h : MAX_TRANSMITTERS ≤ Slots.blocks (p.transmitters ++ toAdd)) :
    addTransmittersImpl toAdd p = .error (.custom .maxTransmittersExceeded) := by
  have hlen : ¬((p.transmitters ++ toAdd).destutter (· ≠ ·)).length < MAX_TRANSMITTERS := by
    rw [Slots.length_destutter]
    omega
  simp only [addTransmittersImpl, require, if_neg hlen]
  rfl

theorem addTransmittersImpl_room (hz : EthAddress.default ∉ toAdd)
    (h : Slots.blocks (p.transmitters ++ toAdd) < MAX_TRANSMITTERS) :
    ∃ q, addTransmittersImpl toAdd p = .ok q ∧
      q.transmitters.toFinset = (p.transmitters ++ toAdd).toFinset := by
  have hlen : ((p.transmitters ++ toAdd).destutter (· ≠ ·)).length < MAX_TRANSMITTERS := by
    rwa [Slots.length_destutter]
  have hnonzero : EthAddress.default ∉ (p.transmitters ++ toAdd).destutter (· ≠ ·) := by
    rw [Slots.mem_destutter, List.mem_append, not_or]
    exact ⟨Slots.not_mem_live _ _, hz⟩
  obtain ⟨array, hfill⟩ : ∃ array : Fixed EthAddress 20, Slots.fill EthAddress.default _ =
      some array := Slots.exists_fill hlen.le
  refine ⟨{ p with transmittersArray := array }, ?_, ?_⟩
  · simp only [addTransmittersImpl, Except.bind_eq_ok, Except.require_eq_ok, Except.orFail_eq_ok,
      Except.pure_eq_ok]
    exact ⟨(), hlen, array, hfill, rfl⟩
  · rw [ProtocolInfo.transmitters, Slots.live_of_fill hnonzero hfill, Slots.toFinset_destutter]

/-- Removing transmitters does not fail. -/
theorem exists_removeTransmittersImpl (p : ProtocolInfo) (toRemove : List EthAddress) :
    ∃ q, removeTransmittersImpl toRemove p = .ok q ∧
      q.transmitters = p.transmitters.filter (· ∉ toRemove) := by
  have hlen : (p.transmitters.filter (· ∉ toRemove)).length ≤ 20 :=
    (List.length_filter_le _ _).trans (Slots.length_live_le _ _)
  have hz : EthAddress.default ∉ p.transmitters.filter (· ∉ toRemove) := fun h =>
    Slots.not_mem_live _ _ (List.mem_of_mem_filter h)
  obtain ⟨array, hfill⟩ : ∃ array : Fixed EthAddress 20, Slots.fill EthAddress.default _ =
      some array := Slots.exists_fill hlen
  refine ⟨{ p with transmittersArray := array }, ?_, Slots.live_of_fill hz hfill⟩
  simp only [removeTransmittersImpl, Except.bind_eq_ok, Except.orFail_eq_ok, Except.pure_eq_ok]
  exact ⟨array, hfill, rfl⟩

theorem addTransmitters_eq (hadd : addedTransmitters env .addTransmitters 1 calldata = .ok toAdd)
    (hne : toAdd ≠ []) : addTransmitters env calldata p = addTransmittersImpl toAdd p := by
  obtain ⟨params, hparams, token, htoken, hlist⟩ := addedTransmitters_eq_ok.1 hadd
  simp [addTransmitters, hparams, htoken, hlist, require, hne, bind, Except.bind]

theorem updateTransmitters_eq
    (hrem : removedTransmitters env .updateTransmitters 2 calldata = .ok toRemove)
    (hadd : addedTransmitters env .updateTransmitters 1 calldata = .ok toAdd) (hne : toAdd ≠ []) :
    ∃ p₁, p₁.transmitters = p.transmitters.filter (· ∉ toRemove) ∧
      updateTransmitters env calldata p = addTransmittersImpl toAdd p₁ := by
  obtain ⟨params, hparams, remToken, hremToken, hremoved⟩ := removedTransmitters_eq_ok.1 hrem
  obtain ⟨_, hparams', addToken, haddToken, hadded⟩ := addedTransmitters_eq_ok.1 hadd
  obtain rfl := Except.ok.inj (hparams.symm.trans hparams')
  by_cases hnone : toRemove = []
  · refine ⟨p, by simp [hnone], ?_⟩
    simp [updateTransmitters, hparams, hremToken, hremoved, haddToken, hadded, hnone, hne, bind,
      Except.bind, pure, Except.pure]
  · obtain ⟨p₁, hp₁, hlist⟩ := exists_removeTransmittersImpl p toRemove
    refine ⟨p₁, hlist, ?_⟩
    simp [updateTransmitters, hparams, hremToken, hremoved, hp₁, haddToken, hadded, hnone, hne,
      bind, Except.bind]

/-- Both handlers remove first, and then add. -/
theorem handle_transmitterChange {g : GovOperation} (hlen : U32_SIZE ≤ code.length)
    (hg : GovOperation.tryFrom (selectorU32 code) = some g)
    (hchange : TransmitterChange env op.params g toRemove toAdd) (hne : toAdd ≠ []) :
    ∃ p₁, p₁.transmitters = p.transmitters.filter (· ∉ toRemove) ∧
      handleGovOperation env c p code op = (do
        let q ← addTransmittersImpl toAdd p₁
        pure (c, q, [])) := by
  cases hchange with
  | add hadd =>
    refine ⟨p, by simp, ?_⟩
    simp [handleGovOperation, require, orFail, hlen, hg, addTransmitters_eq hadd hne, bind,
      Except.bind]
  | update hrem hadd =>
    obtain ⟨p₁, hp₁, heq⟩ := updateTransmitters_eq (p := p) hrem hadd hne
    refine ⟨p₁, hp₁, ?_⟩
    simp [handleGovOperation, require, orFail, hlen, hg, heq, bind, Except.bind]

/-- For every protocol and every message of the two operations that adds an address : the
operation is refused exactly if the set of the transmitters that stay and the new ones is too
large, and leaves exactly that set otherwise, when the addresses that stay and the new ones, one
after the other and with each block of equal neighbours taken once, are fewer than
`MAX_TRANSMITTERS`, or the set is too large, and only then. -/
theorem capacity_iff (env : Env) (c : Config) (p : ProtocolInfo) (op : OperationData)
    (code : Bytes) (g : GovOperation) (toRemove toAdd : List EthAddress)
    (hlen : U32_SIZE ≤ code.length) (hg : GovOperation.tryFrom (selectorU32 code) = some g)
    (hchange : TransmitterChange env op.params g toRemove toAdd) (hne : toAdd ≠ []) :
    ((handleGovOperation env c p code op = .error (.custom .maxTransmittersExceeded) ↔
        MAX_TRANSMITTERS < (p.changed toRemove toAdd).card) ∧
      ((p.changed toRemove toAdd).card ≤ MAX_TRANSMITTERS →
        ∃ c' q effects, handleGovOperation env c p code op = .ok (c', q, effects) ∧
          q.transmitters.toFinset = p.changed toRemove toAdd)) ↔
      Slots.blocks (p.transmitters.filter (· ∉ toRemove) ++ toAdd) < MAX_TRANSMITTERS ∨
        MAX_TRANSMITTERS < (p.changed toRemove toAdd).card := by
  obtain ⟨p₁, hp₁, hhandle⟩ := handle_transmitterChange (c := c) (p := p) hlen hg hchange hne
  have hset : (p₁.transmitters ++ toAdd).toFinset = p.changed toRemove toAdd := by
    ext a
    simp [hp₁, ProtocolInfo.changed]
  have hcard : (p₁.transmitters ++ toAdd).toFinset.card ≤
      Slots.blocks (p₁.transmitters ++ toAdd) := Slots.card_toFinset_le_blocks
  rw [← hset, ← hp₁, hhandle]
  rcases Nat.lt_or_ge (Slots.blocks (p₁.transmitters ++ toAdd)) MAX_TRANSMITTERS with hroom | hfull
  · obtain ⟨q, hq, hqset⟩ := addTransmittersImpl_room
      (by cases hchange with | add hadd | update _ hadd => exact not_mem_addedTransmitters hadd)
      hroom
    rw [hq]
    refine iff_of_true ⟨?_, fun _ => ⟨c, q, [], rfl, hqset⟩⟩ (.inl hroom)
    exact iff_of_false (fun h => nomatch h) (by omega)
  · rw [addTransmittersImpl_full hfull]
    constructor
    · rintro ⟨hiff, -⟩
      exact .inr (hiff.1 rfl)
    · rintro (hroom | hlarge)
      · omega
      · exact ⟨iff_of_true rfl hlarge, fun hsmall => absurd hlarge (by omega)⟩

section Deployment

open Deployment
open Localnet (transmitter1)

/-- Twenty transmitters : the signers, two more, and the one that leaves. -/
def Deployment.fullRoster : List EthAddress :=
  signers.map Signer.address ++
    [Localnet.address 0x79196b90d1e952c5a43d4847caa08d50b967c34a,
      Localnet.address 0x4bd1280852cadb002734647305afc1db7ddd6acb, leaving]

def Deployment.rotateCode : Bytes :=
  [0x65, 0x4b, 0x46, 0xe1]

/-- The ledger after these transmitters are set up and the first of them approved the exchange. -/
def Deployment.rotationApproved (transmitters : List EthAddress) : Ledger :=
  ((endpoint (deployed [rotate])).run Ledger.genesis
    [[setUp _ 500 transmitters], [load _ rotate], [sign _ rotate]]).2

theorem rotate_change : TransmitterChange (deployed [rotate]) rotate.op.params .updateTransmitters
    [leaving] [joining] :=
  .update (Except.toOption_eq_some.1 (by decide +kernel))
    (Except.toOption_eq_some.1 (by decide +kernel))

/-- One of two transmitters is exchanged. -/
theorem capacity_two_transmitters :
    ∃ c' q effects, handleGovOperation (deployed [rotate]) Config.default
        ((rotationApproved [transmitter1, leaving]).protocol govProtocolId) rotateCode rotate.op =
          .ok (c', q, effects) ∧
      q.transmitters.toFinset = {transmitter1, joining} := by
  obtain ⟨hset, hroom⟩ :
      ((rotationApproved [transmitter1, leaving]).protocol govProtocolId).changed
          [leaving] [joining] = {transmitter1, joining} ∧
        Slots.blocks (((rotationApproved [transmitter1, leaving]).protocol
          govProtocolId).transmitters.filter (· ∉ [leaving]) ++ [joining]) < MAX_TRANSMITTERS := by
    decide +kernel
  have hiff := capacity_iff (deployed [rotate]) Config.default
    ((rotationApproved [transmitter1, leaving]).protocol govProtocolId) rotate.op rotateCode
    .updateTransmitters [leaving] [joining] (by decide) (by decide +kernel) rotate_change (by simp)
  rw [← hset]
  exact (hiff.2 (.inl hroom)).2 (by rw [hset]; decide +kernel)

/-- One of twenty transmitters is to be exchanged, which leaves twenty, and the execution is
refused. -/
theorem full_roster_not_rotated :
    ((rotationApproved fullRoster).protocol govProtocolId).transmitters = fullRoster ∧
      fullRoster.Nodup ∧
      TransmitterChange (deployed [rotate]) rotate.op.params .updateTransmitters [leaving]
        [joining] ∧
      (((rotationApproved fullRoster).protocol govProtocolId).changed [leaving] [joining]).card =
        MAX_TRANSMITTERS ∧
      (endpoint (deployed [rotate])).step (rotationApproved fullRoster)
        (execute _ rotate govProtocolId) = .error (.custom .maxTransmittersExceeded) := by
  obtain ⟨hfull, hcard, hfail⟩ :
      ((rotationApproved fullRoster).protocol govProtocolId).transmitters = fullRoster ∧
        (((rotationApproved fullRoster).protocol govProtocolId).changed [leaving] [joining]).card =
          MAX_TRANSMITTERS ∧
        ((endpoint (deployed [rotate])).step (rotationApproved fullRoster)
          (execute _ rotate govProtocolId)).failure = some (.custom .maxTransmittersExceeded) := by
    decide +kernel
  exact ⟨hfull, by decide +kernel, rotate_change, hcard, Except.failure_eq_some.1 hfail⟩

end Deployment

/-! ## Registration -/

/-- For every prior protocol and every message that `AddAllowedProtocol` accepts : the transmitters
read afterwards are exactly the nonzero addresses of the message if those behind its first zero
stand before it too, and, where it has no zero, the old addresses that are read behind the new
ones are addresses of the message, and only then. -/
theorem registered_iff (env : Env) (c c' : Config) (p q : ProtocolInfo) (op : OperationData)
    (code : Bytes) (effects : List Effect)
    (hg : GovOperation.tryFrom (selectorU32 code) = some .addAllowedProtocol)
    (hok : handleGovOperation env c p code op = .ok (c', q, effects)) :
    ∃ list, registeredTransmitters env op.params = .ok list ∧
      (q.transmitters.toFinset = (list.filter (· ≠ EthAddress.default)).toFinset ↔
        (∀ a ∈ list.dropWhile (· ≠ EthAddress.default), a ≠ EthAddress.default →
          a ∈ list.takeWhile (· ≠ EthAddress.default)) ∧
        (EthAddress.default ∉ list →
          ∀ a ∈ (p.transmittersArray.val.drop list.length).takeWhile (· ≠ EthAddress.default),
            a ∈ list)) := by
  obtain ⟨g, hg', handled⟩ := handled_of_ok hok
  obtain rfl := Option.some_inj.1 (hg.symm.trans hg')
  cases handled with
  | @addAllowedProtocol rate list array ev hrate hlist harray hnonce hev =>
    exact ⟨list, hlist, Slots.toFinset_live_overwrite_iff harray⟩
  | setAddress hkey => simp [newAddress] at hkey

section Deployment

open Deployment
open Localnet (transmitter1 transmitter2)

def Deployment.registerCode : Bytes :=
  [0x45, 0xa0, 0x04, 0xb9]

/-- The protocol that governance is set up as, with these transmitters. -/
def Deployment.setUpProtocol (transmitters : List EthAddress) : ProtocolInfo :=
  ((endpoint (deployed [registerGov])).run Ledger.genesis [[setUp _ 5000 transmitters]]).2.protocol
    govProtocolId

theorem registered_one_transmitter :
    ∃ c' q effects, handleGovOperation (deployed [registerGov]) Config.default
        (setUpProtocol [transmitter2]) registerCode registerGov.op = .ok (c', q, effects) ∧
      q.transmitters.toFinset = {transmitter1} := by
  obtain ⟨hsome, hread, hbehind⟩ :
      (handleGovOperation (deployed [registerGov]) Config.default
          (setUpProtocol [transmitter2]) registerCode registerGov.op).toOption.isSome = true ∧
        (registeredTransmitters (deployed [registerGov]) registerGov.op.params).toOption =
          some [transmitter1] ∧
        ∀ a ∈ ((setUpProtocol [transmitter2]).transmittersArray.val.drop 1).takeWhile
          (· ≠ EthAddress.default), a ∈ [transmitter1] := by
    decide +kernel
  obtain ⟨⟨c', q, effects⟩, hok⟩ := Option.isSome_iff_exists.1 hsome
  rw [Except.toOption_eq_some] at hok
  obtain ⟨list, hlist, hiff⟩ := registered_iff (deployed [registerGov]) Config.default c'
    (setUpProtocol [transmitter2]) q registerGov.op registerCode effects (by decide +kernel) hok
  obtain rfl : [transmitter1] = list :=
    Option.some_inj.1 (hread.symm.trans (Except.toOption_eq_some.2 hlist))
  have hset := hiff.2 ⟨by decide +kernel, fun _ => hbehind⟩
  exact ⟨c', q, effects, hok, hset.trans (by decide +kernel)⟩

/-- Governance is set up with two transmitters and registered again with the first of them only :
the second is still one. -/
theorem old_transmitter_remains :
    registeredTransmitters (deployed [registerGov]) registerGov.op.params = .ok [transmitter1] ∧
      ∃ r ∈ ((endpoint (deployed [registerGov])).run Ledger.genesis
          [[setUp _ 5000 [transmitter1, transmitter2]], [load _ registerGov], [sign _ registerGov],
            [execute _ registerGov govProtocolId]]).1,
        .governed registerGov.hash.val registerCode ∈ r.out ∧
          (r.after.protocol govProtocolId).transmitters = [transmitter1, transmitter2] :=
  ⟨Except.toOption_eq_some.1 (by decide +kernel), by decide +kernel⟩

end Deployment

/-! ## The last executor -/

section LastExecutor

variable {l : Ledger} {accounts : List AccountInfo} {h params : Bytes} {ctx : ReceivePhotonMsg}
  {executor : Pubkey}

/-- A governance message that removes an executor, as `receive_photon_msg` is handed it. -/
structure RemovesExecutor (env : Env) (l : Ledger) (accounts : List AccountInfo) (h code : Bytes)
    (ctx : ReceivePhotonMsg) (executor : Pubkey) : Prop where
  accounts : ReceivePhotonMsg.tryAccounts env l h accounts = .ok ctx
  protocolId : ctx.opInfo.opData.protocolId = govProtocolId
  protocolAddr : ctx.opInfo.opData.protocolAddr = photonId
  length : U32_SIZE ≤ code.length
  selects : GovOperation.tryFrom (selectorU32 code) = some .removeExecutor
  key : decodeKey env ctx.opInfo.opData.params = .ok executor

namespace RemovesExecutor

theorem handle_eq (hr : RemovesExecutor env l accounts h code ctx executor) :
    receivePhotonMsg env l accounts h code params = (do
      let q ← removeExecutor env ctx.opInfo.opData.params govProtocolId ctx.targetProtocolInfo
      pure ((l.setConfig ctx.config).setProtocol ctx.targetId q, [.governed h code])) := by
  simp only [receivePhotonMsg, hr.accounts, handleGovOperation, hr.protocolId, hr.protocolAddr,
    hr.length, hr.selects, require, orFail, bind, Except.bind, and_self, if_true]
  cases removeExecutor env ctx.opInfo.opData.params govProtocolId ctx.targetProtocolInfo <;> rfl

/-- No executor would stay : the message is refused, whatever the target. -/
theorem refused (hr : RemovesExecutor env l accounts h code ctx executor)
    (hnone : ctx.targetProtocolInfo.executors.filter (· ≠ executor) = []) :
    receivePhotonMsg env l accounts h code params =
      .error (.custom .tryingToRemoveLastGovExecutor) := by
  rw [hr.handle_eq, Except.bind_eq_error]
  left
  simp only [removeExecutor, Except.bind_eq_error]
  exact .inr ⟨executor, hr.key, .inl (Except.require_eq_error.2 ⟨not_not.2 ⟨hnone, trivial⟩, rfl⟩)⟩

/-- Some executor stays : the executor is removed. -/
theorem removed (hr : RemovesExecutor env l accounts h code ctx executor)
    (hsome : ctx.targetProtocolInfo.executors.filter (· ≠ executor) ≠ []) :
    ∃ l' out, receivePhotonMsg env l accounts h code params = .ok (l', out) ∧
      (l'.protocol ctx.targetId).executors =
        ctx.targetProtocolInfo.executors.filter (· ≠ executor) := by
  have hlen : (ctx.targetProtocolInfo.executors.filter (· ≠ executor)).length ≤ 20 :=
    (List.length_filter_le _ _).trans (Slots.length_live_le _ _)
  have hz : Pubkey.default ∉ ctx.targetProtocolInfo.executors.filter (· ≠ executor) := fun h =>
    Slots.not_mem_live _ _ (List.mem_of_mem_filter h)
  obtain ⟨array, hfill⟩ : ∃ array : Fixed Pubkey 20, Slots.fill Pubkey.default _ = some array :=
    Slots.exists_fill hlen
  refine ⟨(l.setConfig ctx.config).setProtocol ctx.targetId
    { ctx.targetProtocolInfo with executorsArray := array }, [.governed h code], ?_, ?_⟩
  · rw [hr.handle_eq]
    simp only [removeExecutor, hr.key, Except.bind_eq_ok, Except.ok.injEq, Except.require_eq_ok,
      Except.orFail_eq_ok, Except.pure_eq_ok]
    exact ⟨_, ⟨executor, rfl, (), fun h => hsome h.1, array, hfill, rfl⟩, rfl⟩
  · simp only [Ledger.protocol, Ledger.protocols_setProtocol, if_true, Option.getD_some]
    exact Slots.live_of_fill hz hfill

end RemovesExecutor

/-- For every ledger and every governance message that removes an executor : it is refused for the
governance protocol exactly if no executor would stay, and accepted for every other protocol, when
the target is the governance protocol or some executor stays, and only then. -/
theorem last_executor_iff (env : Env) (l : Ledger) (accounts : List AccountInfo)
    (h code params : Bytes) (ctx : ReceivePhotonMsg) (executor : Pubkey)
    (hr : RemovesExecutor env l accounts h code ctx executor) :
    ((ctx.targetId = govProtocolId →
        (receivePhotonMsg env l accounts h code params =
            .error (.custom .tryingToRemoveLastGovExecutor) ↔
          ctx.targetProtocolInfo.executors.filter (· ≠ executor) = [])) ∧
      (ctx.targetId ≠ govProtocolId →
        ∃ l' out, receivePhotonMsg env l accounts h code params = .ok (l', out) ∧
          (l'.protocol ctx.targetId).executors =
            ctx.targetProtocolInfo.executors.filter (· ≠ executor))) ↔
      ctx.targetId = govProtocolId ∨
        ctx.targetProtocolInfo.executors.filter (· ≠ executor) ≠ [] := by
  by_cases hnone : ctx.targetProtocolInfo.executors.filter (· ≠ executor) = []
  · rw [hr.refused hnone]
    constructor
    · rintro ⟨-, hother⟩
      by_contra htarget
      obtain ⟨l', out, hok, -⟩ := hother fun h => htarget (.inl h)
      cases hok
    · rintro (htarget | hsome)
      · exact ⟨fun _ => iff_of_true rfl hnone, fun h => absurd htarget h⟩
      · exact absurd hnone hsome
  · obtain ⟨l', out, hok, hlist⟩ : ∃ l' out, receivePhotonMsg env l accounts h code params =
        .ok (l', out) ∧ (l'.protocol ctx.targetId).executors =
          ctx.targetProtocolInfo.executors.filter (· ≠ executor) := hr.removed hnone
    rw [hok]
    refine iff_of_true ⟨fun _ => ?_, fun _ => ⟨l', out, rfl, hlist⟩⟩ (.inr hnone)
    exact iff_of_false (fun h => nomatch h) hnone

end LastExecutor

section Deployment

open Deployment
open Localnet (transmitter1)

def Deployment.removeExecutorCode : Bytes :=
  [0x04, 0xfa, 0x38, 0x4a]

/-- The operations that make the wallet an executor of `onefunc` and take it out again. -/
def Deployment.executorOps : List SignedOp :=
  [addOnefuncExecutor, removeOnefuncExecutor]

/-- The first of them is executed, and the second approved. -/
def Deployment.removalApproved : Ledger :=
  ((endpoint (deployed executorOps)).run Ledger.genesis
    [[setUp _ 10000 [transmitter1]], [load _ addOnefuncExecutor], [sign _ addOnefuncExecutor],
      [execute _ addOnefuncExecutor Localnet.onefuncId], [load _ removeOnefuncExecutor],
      [sign _ removeOnefuncExecutor]]).2

/-- The same with a second executor. -/
def Deployment.removalOfTwo : Ledger :=
  removalApproved.setProtocol Localnet.onefuncId
    { removalApproved.protocol Localnet.onefuncId with
      executorsArray := ⟨[Localnet.wallet.key, photonId] ++ List.replicate 18 Pubkey.default,
        by simp⟩ }

/-- The accounts that the endpoint hands to itself. -/
def Deployment.removalAccounts : List AccountInfo :=
  [Localnet.wallet, ⟨(deployed executorOps).pda (.callAuthority govProtocolId), true, true⟩] ++
    [.derived (.op removeOnefuncExecutor.hash.val), .derived .config,
      .derived (.protocol govProtocolId), .derived (.protocol Localnet.onefuncId),
      .program Pubkey.default].map (Handed.info executorOps)

theorem last_executor_of_two :
    ∃ l' out, receivePhotonMsg (deployed executorOps) removalOfTwo removalAccounts
        removeOnefuncExecutor.hash.val removeExecutorCode [] = .ok (l', out) ∧
      (l'.protocol Localnet.onefuncId).executors = [photonId] := by
  obtain ⟨ctx, hctx, hid, haddr, htarget, hexecutors, hkey⟩ :
      ∃ ctx ∈ (ReceivePhotonMsg.tryAccounts (deployed executorOps) removalOfTwo
          removeOnefuncExecutor.hash.val removalAccounts).toOption,
        ctx.opInfo.opData.protocolId = govProtocolId ∧
        ctx.opInfo.opData.protocolAddr = photonId ∧ ctx.targetId = Localnet.onefuncId ∧
        ctx.targetProtocolInfo.executors = [Localnet.wallet.key, photonId] ∧
        (decodeKey (deployed executorOps) ctx.opInfo.opData.params).toOption =
          some Localnet.wallet.key := by
    decide +kernel
  have hleft : ctx.targetProtocolInfo.executors.filter (· ≠ Localnet.wallet.key) = [photonId] := by
    rw [hexecutors]
    decide +kernel
  have hiff := last_executor_iff (deployed executorOps) removalOfTwo removalAccounts
    removeOnefuncExecutor.hash.val removeExecutorCode [] ctx Localnet.wallet.key
    ⟨Except.toOption_eq_some.1 hctx, hid, haddr, by decide, by decide +kernel,
      Except.toOption_eq_some.1 hkey⟩
  obtain ⟨l', out, hok, hlist⟩ := (hiff.2 (.inr (by rw [hleft]; simp))).2
    (by rw [htarget]; decide +kernel)
  rw [htarget, hleft] at hlist
  exact ⟨l', out, hok, hlist⟩

/-- The only executor of `onefunc` is to be removed, and the execution is refused as if it were
the last one of governance. -/
theorem last_onefunc_executor_kept :
    targetProtocol (deployed executorOps) removeOnefuncExecutor.op.functionSelector
        removeOnefuncExecutor.op.params = .ok Localnet.onefuncId ∧
      Localnet.onefuncId ≠ govProtocolId ∧
      (removalApproved.protocol Localnet.onefuncId).executors = [Localnet.wallet.key] ∧
      (endpoint (deployed executorOps)).step removalApproved
        (execute _ removeOnefuncExecutor Localnet.onefuncId) =
          .error (.custom .tryingToRemoveLastGovExecutor) := by
  obtain ⟨htarget, hne, hexecutors, hfail⟩ :
      (targetProtocol (deployed executorOps) removeOnefuncExecutor.op.functionSelector
          removeOnefuncExecutor.op.params).toOption = some Localnet.onefuncId ∧
        Localnet.onefuncId ≠ govProtocolId ∧
        (removalApproved.protocol Localnet.onefuncId).executors = [Localnet.wallet.key] ∧
        ((endpoint (deployed executorOps)).step removalApproved
          (execute _ removeOnefuncExecutor Localnet.onefuncId)).failure =
            some (.custom .tryingToRemoveLastGovExecutor) := by
    decide +kernel
  exact ⟨Except.toOption_eq_some.1 htarget, hne, hexecutors, Except.failure_eq_some.1 hfail⟩

end Deployment

end Photon
