import Photon.Localnet
import Photon.Writes

/-!
# What governance leaves alone

A governance call is handed the operation it is to carry out, and a code that selects the
handler. The protocol it acts on is read off the operation, with the scheme of the code that is
stored there (`Targets`), and each handler reads the params again, with a scheme of its own. The
frame of a call says what this adds up to (`GovFrame`) : one protocol is written, in the fields of
the handler only (`GovOperation.fields`), the nonce is taken by the handler that announces a
proposal, and nothing else changes.

`receive_photon_msg` creates the configuration where there is none. That does not happen, since
there is no protocol without a configuration (`config_of_protocol`).
-/

namespace Photon

open Machine

/-! ## Fields -/

/-- The fields of a registered protocol. -/
inductive ProtocolField
  | isInit
  | consensusTargetRate
  | protocolAddress
  | transmittersArray
  | executorsArray
  | proposersArray
  deriving DecidableEq

/-- Two protocols agree in a field. -/
def ProtocolField.Same (p q : ProtocolInfo) : ProtocolField → Prop
  | .isInit => p.isInit = q.isInit
  | .consensusTargetRate => p.consensusTargetRate = q.consensusTargetRate
  | .protocolAddress => p.protocolAddress = q.protocolAddress
  | .transmittersArray => p.transmittersArray = q.transmittersArray
  | .executorsArray => p.executorsArray = q.executorsArray
  | .proposersArray => p.proposersArray = q.proposersArray

/-- The fields that belong to an operation. -/
def GovOperation.fields : GovOperation → List ProtocolField
  | .addAllowedProtocol => [.consensusTargetRate, .transmittersArray, .isInit]
  | .addAllowedProtocolAddress | .removeAllowedProtocolAddress => [.protocolAddress]
  | .addAllowedProposerAddress | .removeAllowedProposerAddress => [.proposersArray]
  | .addExecutor | .removeExecutor => [.executorsArray]
  | .addTransmitters | .removeTransmitters | .updateTransmitters => [.transmittersArray]
  | .setConsensusTargetRate => [.consensusTargetRate]

section Frames

variable {env : Env} {l l' : Ledger} {i : Invocation env} {out : List Effect} {h code id : Bytes}
  {c c' : Config} {p q : ProtocolInfo} {op : OperationData} {g : GovOperation}
  {effects : List Effect}

theorem GovOperation.fields_of_newAddress {calldata : Bytes} {key : Pubkey}
    (hkey : newAddress env g calldata = some key) : g.fields = [.protocolAddress] := by
  cases g <;> first | rfl | simp [newAddress] at hkey

/-- A handler keeps the fields that are not its own. -/
theorem Handled.same (handled : Handled env c p op g c' q effects) {f : ProtocolField}
    (hf : f ∉ g.fields) : f.Same p q := by
  cases handled with
  | setAddress hkey =>
    rw [GovOperation.fields_of_newAddress hkey, List.mem_singleton] at hf
    cases f <;> first | rfl | exact absurd rfl hf
  | _ => cases f <;> first | rfl | simp [GovOperation.fields] at hf

/-- A handler keeps the configuration and announces nothing, except the one that registers a
protocol : it takes one nonce for one proposal. -/
theorem Handled.config_cases (handled : Handled env c p op g c' q effects) :
    (g = .addAllowedProtocol ∧ c.nonce.toNat + 1 < 2 ^ 64 ∧
        c' = { c with nonce := c.nonce + 1 } ∧
        ∃ ev, ev.nonce = c.nonce ∧ effects = [.emit (.propose ev)]) ∨
      (g ≠ .addAllowedProtocol ∧ c' = c ∧ effects = []) := by
  cases handled with
  | addAllowedProtocol _ _ _ hnonce hev => exact .inl ⟨rfl, hnonce, rfl, _, hev, rfl⟩
  | setAddress hkey =>
    refine .inr ⟨?_, rfl, rfl⟩
    rintro rfl
    simp [newAddress] at hkey
  | _ => exact .inr ⟨by simp, rfl, rfl⟩

/-! ## Frames -/

/-- The protocol `id` is the first field of the params, decoded under the scheme of the stored
selector. -/
def Targets (env : Env) (op : OperationData) (id : Bytes) : Prop :=
  ∃ stored g rest, op.functionSelector = .byCode stored ∧ U32_SIZE ≤ stored.length ∧
    GovOperation.tryFrom (selectorU32 stored) = some g ∧
    decodeAbiParams env op.params (abiDecodeScheme g) = .ok (.fixedBytes id :: rest)

theorem targets_of_targetProtocol
    (ht : targetProtocol env op.functionSelector op.params = .ok id) : Targets env op id := by
  unfold targetProtocol at ht
  split at ht
  · rename_i stored hstored
    cases hby : targetProtocolByCode env stored op.params with
    | error e => simp [hby] at ht
    | ok id' =>
      simp only [hby, Except.ok.injEq] at ht
      subst ht
      simp only [targetProtocolByCode, Except.bind_eq_ok, Except.require_eq_ok,
        Except.orFail_eq_ok] at hby
      obtain ⟨-, hlen, g, hg, hby⟩ := hby
      split at hby
      · simp at hby
      · rename_i tokens htokens
        simp only [Except.bind_eq_ok, Except.orFail_eq_ok, List.head?_eq_some_iff] at hby
        obtain ⟨first, ⟨rest, rfl⟩, hfirst⟩ := hby
        cases first with
        | fixedBytes b =>
          obtain rfl := Option.some_inj.1 hfirst
          exact ⟨stored, g, rest, hstored, hlen, hg, htokens⟩
        | _ => simp [Token.intoFixedBytes] at hfirst
  · simp at ht

/-- What a governance call for the operation `g` on the protocol `id` leaves of the ledger. -/
structure GovFrame (l l' : Ledger) (g : GovOperation) (id : Bytes) (out : List Effect) :
    Prop where
  ops : l'.ops = l.ops
  others : ∀ id' ≠ id, l'.protocols id' = l.protocols id'
  /-- A protocol that is not there counts as the fresh one. -/
  target : ∃ q, l'.protocols id = some q ∧ ∀ f ∉ g.fields, f.Same (l.protocol id) q
  config : ∃ c, l.config = some c ∧
    ((g = .addAllowedProtocol ∧ c.nonce.toNat + 1 < 2 ^ 64 ∧
        l'.config = some { c with nonce := c.nonce + 1 } ∧
        ∃ ev, ev.nonce = c.nonce ∧ proposals out = [ev]) ∨
      (g ≠ .addAllowedProtocol ∧ l'.config = some c ∧ proposals out = []))

theorem Step.config_of_protocol (hs : Step l i l' out)
    (hl : ∀ id p, l.protocols id = some p → ∃ c, l.config = some c) :
    ∀ id p, l'.protocols id = some p → ∃ c, l'.config = some c := by
  cases hs with
  | load | answer | sign | execute => exact hl
  | _ => exact fun _ _ _ => ⟨_, rfl⟩

/-- There is no protocol without a configuration. -/
theorem config_of_protocol {history} (hr : (endpoint env).Run Ledger.genesis history l) :
    ∀ id p, l.protocols id = some p → ∃ c, l.config = some c := by
  refine hr.inv (I := fun l => ∀ id p, l.protocols id = some p → ∃ c, l.config = some c)
    (by simp [Ledger.genesis]) ?_
  intro l i l' out hl hok
  exact (step_cases hok).config_of_protocol hl

/-- The governance protocol is there when its messages are received. -/
theorem exists_gov_of_receivePhotonMsg {accounts : List AccountInfo} {params : Bytes}
    (hok : receivePhotonMsg env l accounts h code params = .ok (l', out)) :
    ∃ gov, l.protocols govProtocolId = some gov := by
  simp only [receivePhotonMsg, Except.bind_eq_ok] at hok
  obtain ⟨ctx, hctx, -⟩ := hok
  unfold ReceivePhotonMsg.tryAccounts at hctx
  split at hctx
  · simp only [Except.bind_eq_ok, Env.loadProtocol_eq_ok] at hctx
    obtain ⟨-, -, -, -, _, -, gov, ⟨-, hgov⟩, -⟩ := hctx
    exact ⟨gov, hgov⟩
  · simp at hctx

/-- In every reachable ledger, a governance call that succeeds leaves all but one protocol and all
operations alone, writes the fields of its operation in this protocol, and takes a nonce for one
proposal exactly if it registers a protocol. -/
theorem governance_frame (env : Env) (txs : List (List (Invocation env)))
    (accounts : List AccountInfo) (h code params : Bytes) (l' : Ledger) (out : List Effect)
    (hok : receivePhotonMsg env ((endpoint env).run .genesis txs).2 accounts h code params =
      .ok (l', out)) :
    ∃ op g id, ((endpoint env).run .genesis txs).2.ops h = some op ∧
      GovOperation.tryFrom (selectorU32 code) = some g ∧ Targets env op.opData id ∧
      GovFrame ((endpoint env).run .genesis txs).2 l' g id out := by
  have hr := run_sound (endpoint env) .genesis txs
  obtain ⟨gov, hgov⟩ := exists_gov_of_receivePhotonMsg hok
  obtain ⟨conf, hconf⟩ := config_of_protocol hr _ _ hgov
  obtain ⟨op, id, c, q, effects, hop, governed, rfl, rfl, -⟩ := receivePhotonMsg_cases hok
  obtain ⟨g, hg, handled⟩ := handled_of_ok governed.handled
  refine ⟨op, g, id, hop, hg, targets_of_targetProtocol governed.target, rfl, ?_, ?_, conf,
    hconf, ?_⟩
  · intro id' hne
    simp [Ledger.protocols_setProtocol, hne]
  · exact ⟨q, by simp [Ledger.protocols_setProtocol], fun f hf => handled.same hf⟩
  · rw [hconf, Option.getD_some] at handled
    rcases handled.config_cases with ⟨hadd, hnonce, rfl, ev, hev, rfl⟩ | ⟨hne, rfl, rfl⟩
    · exact .inl ⟨hadd, hnonce, rfl, ev, hev, rfl⟩
    · exact .inr ⟨hne, rfl, rfl⟩

end Frames

section Localnet

open Localnet

theorem governance_frame_approved :
    ∃ l' out, receivePhotonMsg localnet ((endpoint localnet).run .genesis approval).2
        (receive code).accounts opHash code params = .ok (l', out) ∧
      ∃ op g id, ((endpoint localnet).run .genesis approval).2.ops opHash = some op ∧
        GovOperation.tryFrom (selectorU32 code) = some g ∧ Targets localnet op.opData id ∧
        GovFrame ((endpoint localnet).run .genesis approval).2 l' g id out := by
  have hsome : (receivePhotonMsg localnet ((endpoint localnet).run .genesis approval).2
      (receive code).accounts opHash code params).toOption.isSome = true := by
    decide +kernel
  obtain ⟨⟨l', out⟩, hok⟩ := Option.isSome_iff_exists.1 hsome
  rw [Except.toOption_eq_some] at hok
  exact ⟨l', out, hok, governance_frame localnet approval _ opHash code params l' out hok⟩

end Localnet

end Photon
