import Photon.KeyLists

/-!
# Registered protocols

What a protocol is registered with, apart from its lists : that it is registered at all, its
rate, and its program address. `AddAllowedProtocol` and `SetConsensusTargetRate` check the
rate and `initialize` does not, so the rates are in range exactly in the histories whose
`initialize` calls bring one that is (`rate_in_range_iff`).

Every governance operation creates the account of its protocol if there is none, and no
instruction asks whether the protocol is registered. A protocol that never was can act as
soon as it has an executor or a proposer, and not before (`registered_of_actors`).

`load_operation` compares the program address of an operation with that of its protocol.
`execute_operation` does not compare them again. It calls the address registered then, if no
address was changed under an operation that waits (`calls_registered_address`).
-/

namespace Photon

open Machine

variable {env : Env} {l l' : Ledger} {i : Invocation env} {out : List Effect} {c c' : Config}
  {p q : ProtocolInfo} {op : OperationData} {g : GovOperation} {effects : List Effect}

/-! ## Rates -/

/-- The rate is at least one and at most the whole. -/
def RateInRange (rate : UInt64) : Prop :=
  1 ≤ rate.toNat ∧ rate.toNat ≤ RATE_DECIMALS

instance (rate : UInt64) : Decidable (RateInRange rate) :=
  inferInstanceAs (Decidable (_ ∧ _))

/-- A rate in range is not met by no signer, and is met by all. -/
theorem RateInRange.attainable {rate : UInt64} (h : RateInRange rate) {n : ℕ} (hn : 0 < n) :
    consensusRate 0 n < rate.toNat ∧ rate.toNat ≤ consensusRate n n := by
  have hall : consensusRate n n = RATE_DECIMALS := Nat.mul_div_cancel_left _ hn
  have hnone : consensusRate 0 n = 0 := by simp [consensusRate]
  rw [hall, hnone]
  exact ⟨h.1, h.2⟩

theorem Handled.rate (h : Handled env c p op g c' q effects)
    (hp : p.isInit = true → RateInRange p.consensusTargetRate) :
    q.isInit = true → RateInRange q.consensusTargetRate := by
  cases h with
  | addAllowedProtocol hrate | setRate hrate => exact fun _ => hrate
  | _ => exact hp

theorem step_rate (hl : ∀ id p, l.protocols id = some p → p.isInit = true →
      RateInRange p.consensusTargetRate)
    (hok : (endpoint env).step l i = .ok (l', out)) :
    (∀ id p, l'.protocols id = some p → p.isInit = true → RateInRange p.consensusTargetRate) ↔
      ∀ x ∈ i.ix.setsUp, RateInRange x.1 := by
  cases step_protocols hok with
  | same hsame hset hgov =>
    rw [hsame]
    exact iff_of_true hl (by simp [hset])
  | setUp hset hgov htransmitters hexecutors hwrite =>
    rw [hwrite, Ledger.forall_setProtocol hl]
    simp [hset]
  | govern hset hgov hop handled hwrite =>
    rw [hwrite, Ledger.forall_setProtocol hl]
    have hdefault : ProtocolInfo.default.isInit = true →
        RateInRange ProtocolInfo.default.consensusTargetRate := by simp [ProtocolInfo.default]
    exact iff_of_true
      (handled.rate (Ledger.forall_protocol
        (P := fun p => p.isInit = true → RateInRange p.consensusTargetRate) hdefault hl _))
      (by simp [hset])

/-- In every history : the rate of every registered protocol is in range, so that approval
takes at least one signer and can be reached, exactly if every `initialize` brings a rate in
range. -/
theorem rate_in_range_iff (env : Env) (txs : List (List (Invocation env))) :
    (∀ r ∈ ((endpoint env).run Ledger.genesis txs).1, ∀ id p, r.after.protocols id = some p →
        p.isInit = true → RateInRange p.consensusTargetRate ∧ ∀ n, 0 < n →
          consensusRate 0 n < p.consensusTargetRate.toNat ∧
            p.consensusTargetRate.toNat ≤ consensusRate n n) ↔
      ∀ r ∈ ((endpoint env).run Ledger.genesis txs).1, ∀ x ∈ r.input.ix.setsUp,
        RateInRange x.1 := by
  have hiff := (run_sound (endpoint env) Ledger.genesis txs).inv_iff
    (I := fun l => ∀ id p, l.protocols id = some p → p.isInit = true →
      RateInRange p.consensusTargetRate)
    (C := fun _ i => ∀ x ∈ i.ix.setsUp, RateInRange x.1) (H := fun _ => True)
    (by simp [Ledger.genesis]) (fun _ _ _ _ _ hl hok => step_rate hl hok) (by simp)
  rw [← hiff]
  constructor
  · intro h r hr id p hp hinit
    exact (h r hr id p hp hinit).1
  · intro h r hr id p hp hinit
    exact ⟨h r hr id p hp hinit, fun n hn => (h r hr id p hp hinit).attainable hn⟩

open Localnet in
/-- The governance protocol is set up with a rate that no signer has to meet, and with one that
all transmitters together cannot meet. -/
theorem rate_out_of_range :
    (∃ r ∈ ((endpoint localnet).run Ledger.genesis [[setUp 0 [transmitter1]]]).1,
        ∃ p ∈ r.after.protocols govProtocolId, p.isInit = true ∧
          p.consensusTargetRate.toNat ≤ consensusRate 0 p.transmitters.length) ∧
      ∃ r ∈ ((endpoint localnet).run Ledger.genesis [[setUp 10001 [transmitter1]]]).1,
        ∃ p ∈ r.after.protocols govProtocolId, p.isInit = true ∧
          consensusRate p.transmitters.length p.transmitters.length <
            p.consensusTargetRate.toNat := by
  decide +kernel

/-! ## Registration -/

/-- The protocol that a call acts for. -/
def actsFor (l : Ledger) : Ix → Option Bytes
  | .loadOperation o _ => some o.protocolId
  | .signOperation h _ => (l.ops h).map (·.opData.protocolId)
  | .executeOperation h => (l.ops h).map (·.opData.protocolId)
  | .propose id _ _ _ _ => some id
  | _ => none

/-- A call that acts for a protocol is signed by a key in one of its arrays. -/
theorem actor_of_step {id : Bytes} (hid : id ∈ actsFor l i.ix)
    (hok : (endpoint env).step l i = .ok (l', out)) :
    ∃ p k a, l.protocols id = some p ∧ a ∈ i.accounts ∧ a.isSigner = true ∧
      a.key ∈ (KeyList.array k p).val := by
  obtain ⟨invoke, hdis⟩ := dispatch_of_process hok
  cases hix : i.ix with
  | initializeProgram | receivePhotonMsg | setAdmin => simp [hix, actsFor] at hid
  | loadOperation o h =>
    simp only [hix, dispatch, loadOperation, Except.bind_eq_ok] at hdis
    obtain ⟨ctx, hctx, -⟩ := hdis
    obtain ⟨-, -, hp, hkey, ⟨hmem, hsig⟩, -⟩ := LoadOperation.of_tryAccounts hctx
    obtain rfl : o.protocolId = id := by simpa [hix, actsFor] using hid
    exact ⟨_, .executors, _, hp, hmem, hsig, hkey⟩
  | signOperation h sigs =>
    simp only [hix, dispatch, signOperation, Except.bind_eq_ok] at hdis
    obtain ⟨ctx, hctx, -⟩ := hdis
    obtain ⟨hop, -, hp, hkey, ⟨hmem, hsig⟩, -⟩ := SignOperation.of_tryAccounts hctx
    obtain rfl : ctx.opInfo.opData.protocolId = id := by simpa [hix, actsFor, hop] using hid
    exact ⟨_, .executors, _, hp, hmem, hsig, hkey⟩
  | executeOperation h =>
    simp only [hix, dispatch, executeOperation, Except.bind_eq_ok] at hdis
    obtain ⟨ctx, hctx, -⟩ := hdis
    obtain ⟨⟨hop, -⟩, hp, ⟨hkey, hsig, -⟩, -, ⟨hmem, -, -⟩, -⟩ :=
      ExecuteOperation.of_tryAccounts hctx
    obtain rfl : ctx.opInfo.opData.protocolId = id := by simpa [hix, actsFor, hop] using hid
    exact ⟨_, .executors, _, hp, hmem, hsig, hkey⟩
  | propose id' dst addr selector params =>
    simp only [hix, dispatch, propose, Except.bind_eq_ok] at hdis
    obtain ⟨ctx, hctx, -⟩ := hdis
    obtain ⟨-, hp, hkey, ⟨hmem, hsig⟩, -⟩ := Propose.of_tryAccounts hctx
    obtain rfl : id' = id := by simpa [hix, actsFor] using hid
    exact ⟨_, .proposers, _, hp, hmem, hsig, hkey⟩

/-- A protocol that is not registered has no executor and no proposer. -/
def ProtocolInfo.Inert (p : ProtocolInfo) : Prop :=
  p.isInit = false → ∀ k : KeyList, ∀ key ∈ (k.array p).val, key = Pubkey.default

theorem ProtocolInfo.inert_default : ProtocolInfo.default.Inert := by
  intro _ k key hkey
  cases k <;> exact List.eq_of_mem_replicate hkey

/-- Executors and proposers are added to registered protocols only. -/
def AddsToRegistered (env : Env) (l : Ledger) (ix : Ix) : Prop :=
  ∀ x ∈ governs env l ix, x.2.1 = .addExecutor ∨ x.2.1 = .addAllowedProposerAddress →
    (l.protocol x.2.2).isInit = true

instance (env : Env) (l : Ledger) (ix : Ix) : Decidable (AddsToRegistered env l ix) :=
  inferInstanceAs (Decidable (∀ x ∈ _, _ → _))

/-- Nobody signs for the system program, whose address is the zero key. -/
def NoZeroSigner (i : Invocation env) : Prop :=
  ∀ a ∈ i.accounts, a.isSigner = true → a.key ≠ Pubkey.default

instance (i : Invocation env) : Decidable (NoZeroSigner i) :=
  inferInstanceAs (Decidable (∀ a ∈ _, _ → _))

theorem ProtocolInfo.Inert.of_remove {k : KeyList} {a : Fixed Pubkey 20} {key : Pubkey}
    (hp : p.Inert) (hinit : p.isInit = false)
    (hfill : Slots.fill Pubkey.default (removeKey (k.keys p) key) = some a) :
    ∀ key ∈ a.val, key = Pubkey.default := by
  have hnone : k.keys p = [] := by
    rw [k.keys_eq, List.eq_nil_iff_forall_not_mem]
    intro x hx
    have hzero := hp hinit k x ((List.takeWhile_sublist _).mem hx)
    exact Slots.not_mem_live _ _ (hzero ▸ hx)
  rw [hnone] at hfill
  intro x hx
  rw [(Slots.fill_eq_some.1 hfill).2] at hx
  exact List.eq_of_mem_replicate hx

theorem Handled.inert (h : Handled env c p op g c' q effects) (hp : p.Inert)
    (hadd : g = .addExecutor ∨ g = .addAllowedProposerAddress → p.isInit = true) : q.Inert := by
  intro hinit k
  cases h with
  | addAllowedProtocol => simp at hinit
  | addExecutor => simp [hadd (.inl rfl)] at hinit
  | addProposer => simp [hadd (.inr rfl)] at hinit
  | removeExecutor hkey hlast hfill =>
    cases k with
    | executors => exact hp.of_remove (k := .executors) hinit hfill
    | proposers => exact hp hinit .proposers
  | removeProposer hkey hfill =>
    cases k with
    | executors => exact hp hinit .executors
    | proposers => exact hp.of_remove (k := .proposers) hinit hfill
  | setAddress | addTransmitters | removeTransmitters | updateTransmitters | setRate =>
    cases k with
    | executors => exact hp hinit .executors
    | proposers => exact hp hinit .proposers

theorem step_inert (hC : AddsToRegistered env l i.ix)
    (hl : ∀ id p, l.protocols id = some p → p.Inert)
    (hok : (endpoint env).step l i = .ok (l', out)) :
    ∀ id p, l'.protocols id = some p → p.Inert := by
  cases step_protocols hok with
  | same hsame => rwa [hsame]
  | setUp hset hgov htransmitters hexecutors hwrite =>
    rw [hwrite, Ledger.forall_setProtocol hl]
    intro hinit
    simp at hinit
  | govern hset hgov hop handled hwrite =>
    rw [hwrite, Ledger.forall_setProtocol hl]
    exact handled.inert (Ledger.forall_protocol ProtocolInfo.inert_default hl _) (hC _ hgov)

/-- In every history in which executors and proposers are added to registered protocols only :
whoever loads, signs or executes an operation or proposes does so for a protocol that is
registered at that step. -/
theorem registered_of_actors (env : Env) (txs : List (List (Invocation env)))
    (hsigner : ∀ r ∈ ((endpoint env).run Ledger.genesis txs).1, NoZeroSigner r.input)
    (hC : ∀ r ∈ ((endpoint env).run Ledger.genesis txs).1,
      AddsToRegistered env r.before r.input.ix) :
    ∀ r ∈ ((endpoint env).run Ledger.genesis txs).1, ∀ id ∈ actsFor r.before r.input.ix,
      ∃ p, r.before.protocols id = some p ∧ p.isInit = true := by
  intro r hr id hid
  obtain ⟨hinert, -⟩ := (run_sound (endpoint env) Ledger.genesis txs).inv_of_forall
    (I := fun l => ∀ id p, l.protocols id = some p → p.Inert)
    (C := fun l i => AddsToRegistered env l i.ix) (by simp [Ledger.genesis])
    (fun _ _ _ _ hC hl hok => step_inert hC hl hok) hC
  obtain ⟨-, -, -, -, hok⟩ := (run_sound (endpoint env) Ledger.genesis txs).of_mem hr
  obtain ⟨p, k, a, hp, hmem, hsig, hkey⟩ := actor_of_step hid hok
  refine ⟨p, hp, ?_⟩
  by_contra hinit
  exact hsigner r hr a hmem hsig
    ((hinert r hr).1 id p hp (Bool.eq_false_iff.2 hinit) k a.key hkey)

section Deployment

open Deployment
open Localnet (transmitter1 transmitter2 onefuncId)

theorem registered_of_actors_deployed :
    ∃ r ∈ ((endpoint (deployed [addFirstAgain])).run Ledger.genesis
        (addAgain [transmitter2, transmitter1])).1,
      r.input.ix = .executeOperation addFirstAgain.hash.val ∧
        ∃ p, r.before.protocols govProtocolId = some p ∧ p.isInit = true := by
  have hsigner : ∀ r ∈ ((endpoint (deployed [addFirstAgain])).run Ledger.genesis
      (addAgain [transmitter2, transmitter1])).1, NoZeroSigner r.input :=
    forall_input_of_run _ _ _ (by decide +kernel)
  obtain ⟨hC, r, hr, hix, hid⟩ :
      (∀ r ∈ ((endpoint (deployed [addFirstAgain])).run Ledger.genesis
          (addAgain [transmitter2, transmitter1])).1,
        AddsToRegistered (deployed [addFirstAgain]) r.before r.input.ix) ∧
      ∃ r ∈ ((endpoint (deployed [addFirstAgain])).run Ledger.genesis
          (addAgain [transmitter2, transmitter1])).1,
        r.input.ix = .executeOperation addFirstAgain.hash.val ∧
          govProtocolId ∈ actsFor r.before r.input.ix := by
    decide +kernel
  exact ⟨r, hr, hix, registered_of_actors _ _ hsigner hC r hr _ hid⟩

/-- A proposal for `onefunc` in the name of the wallet. -/
def proposeOnefunc : Invocation (deployed [addProposer]) :=
  call _ (.propose onefuncId 33133 [] (.byCode []) [])
    [.wallet, .derived .config, .derived (.protocol onefuncId)]

/-- `onefunc` was never registered. It gets a proposer, and the proposer proposes. -/
theorem proposed_unregistered :
    (∀ r ∈ ((endpoint (deployed [addProposer])).run Ledger.genesis
        [[setUp _ 5000 [transmitter1, transmitter2]], [load _ addProposer], [sign _ addProposer],
          [execute _ addProposer onefuncId], [proposeOnefunc]]).1, NoZeroSigner r.input) ∧
      ∃ r ∈ ((endpoint (deployed [addProposer])).run Ledger.genesis
          [[setUp _ 5000 [transmitter1, transmitter2]], [load _ addProposer],
            [sign _ addProposer], [execute _ addProposer onefuncId], [proposeOnefunc]]).1,
        onefuncId ∈ actsFor r.before r.input.ix ∧
          ∃ p ∈ r.before.protocols onefuncId, p.isInit = false := by
  refine ⟨forall_input_of_run _ _ _ (by decide +kernel), ?_⟩
  decide +kernel

end Deployment

/-! ## Program addresses -/

/-- The protocol whose program address a call sets, and the address. -/
def setsAddress (env : Env) (l : Ledger) (ix : Ix) : Option (Bytes × Pubkey) :=
  match ix.setsUp, governs env l ix with
  | some _, _ => some (govProtocolId, photonId)
  | none, some (op, g, id) => (newAddress env g op.params).map fun key => (id, key)
  | none, none => none

theorem newAddress_of_handled (h : Handled env c p op g c' q effects) :
    q.protocolAddress = (newAddress env g op.params).getD p.protocolAddress := by
  cases h with
  | setAddress hkey => simp [hkey]
  | _ => rfl

/-- A step leaves the addresses of the protocols, except for the one it sets. -/
theorem step_address (hok : (endpoint env).step l i = .ok (l', out)) {id : Bytes}
    (hp : l.protocols id = some p) : ∃ p', l'.protocols id = some p' ∧
      (p'.protocolAddress = p.protocolAddress ∨
        setsAddress env l i.ix = some (id, p'.protocolAddress)) := by
  cases step_protocols hok with
  | same hsame => exact ⟨p, by rw [hsame, hp], .inl rfl⟩
  | setUp hset hgov htransmitters hexecutors hwrite =>
    rw [hwrite, Ledger.protocols_setProtocol]
    split_ifs with hid
    · exact ⟨_, rfl, .inr (by simp [setsAddress, hset, hid])⟩
    · exact ⟨p, hp, .inl rfl⟩
  | @govern op g id' _ _ q _ hset hgov hop handled hwrite =>
    rw [hwrite, Ledger.protocols_setProtocol]
    split_ifs with hid
    · subst hid
      have hq := newAddress_of_handled handled
      have hp' : l.protocol id = p := by simp [Ledger.protocol, hp]
      cases hnew : newAddress env g op.params with
      | none => exact ⟨q, rfl, .inl (by rw [hq, hnew, hp']; rfl)⟩
      | some key => exact ⟨q, rfl, .inr (by simp [setsAddress, hset, hgov, hq, hnew])⟩
    · exact ⟨p, hp, .inl rfl⟩

theorem loadOperation_address {accounts : List AccountInfo} {o : OperationData} {h : Bytes}
    (hok : loadOperation env l accounts o h = .ok (l', out)) :
    ∃ p, l.protocols o.protocolId = some p ∧ p.protocolAddress = o.protocolAddr := by
  simp only [loadOperation, Except.bind_eq_ok, Except.require_eq_ok] at hok
  obtain ⟨ctx, hctx, -, -, -, -, -, -, -, haddr, -⟩ := hok
  obtain ⟨-, -, hp, -⟩ := LoadOperation.of_tryAccounts hctx
  exact ⟨_, hp, haddr⟩

/-- An operation that waits names the program address that its protocol has. -/
def PendingRegistered (l : Ledger) : Prop :=
  ∀ h op, l.ops h = some op → op.status ≠ .executed →
    ∃ p, l.protocols op.opData.protocolId = some p ∧ p.protocolAddress = op.opData.protocolAddr

/-- A call that sets an address leaves no operation of the protocol waiting for another one. -/
def LeavesPending (env : Env) (l : Ledger) (ix : Ix) : Prop :=
  ∀ x ∈ setsAddress env l ix, ∀ h op, l.ops h = some op → op.status ≠ .executed →
    ix ≠ .executeOperation h → op.opData.protocolId = x.1 → op.opData.protocolAddr = x.2

/-- An operation that is not executed is another one than that which has just been. -/
theorem Ledger.ops_of_setOp_executed {c h : Bytes} {op op' : OpInfo} (hdone : op.status = .executed)
    (hop' : (l.setOp c op).ops h = some op') (hst' : op'.status ≠ .executed) :
    c ≠ h ∧ l.ops h = some op' := by
  rw [Ledger.ops_setOp] at hop'
  split_ifs at hop' with hc
  · obtain rfl := Option.some_inj.1 hop'
    exact absurd hdone hst'
  · exact ⟨Ne.symm hc, hop'⟩

/-- What a step leaves waiting was waiting before, and is not executed by it, or is loaded. -/
theorem pending_of_step (hok : (endpoint env).step l i = .ok (l', out)) {h : Bytes} {op' : OpInfo}
    (hop' : l'.ops h = some op') (hst' : op'.status ≠ .executed) :
    (∃ op, l.ops h = some op ∧ op.status ≠ .executed ∧ op.opData = op'.opData ∧
        i.ix ≠ .executeOperation h) ∨
      i.ix = .loadOperation op'.opData h := by
  cases step_cases hok with
  | setUp _ _ hix | answer hix | propose _ _ hix | receive hix | setAdmin _ hix =>
    exact .inl ⟨op', hop', hst', rfl, by simp [hix]⟩
  | @load o c executor hix =>
    rw [Ledger.ops_setOp] at hop'
    split_ifs at hop' with hc
    · obtain rfl := Option.some_inj.1 hop'
      exact .inr (by rw [hix, hc])
    · exact .inl ⟨op', hop', hst', rfl, by simp [hix]⟩
  | @sign c sigs op p signers reached array executor hix signs =>
    rw [Ledger.ops_setOp] at hop'
    split_ifs at hop' with hc
    · obtain rfl := Option.some_inj.1 hop'
      refine .inl ⟨op, hc ▸ signs.stored, ?_, rfl, by simp [hix]⟩
      rcases signs.status with hst | hst <;> simp [hst]
    · exact .inl ⟨op', hop', hst', rfl, by simp [hix]⟩
  | @execute c op p executor ix hix hop call hother =>
    obtain ⟨hne, hop⟩ := Ledger.ops_of_setOp_executed rfl hop' hst'
    exact .inl ⟨op', hop, hst', rfl, by simp [hix, hne]⟩
  | @executeGov c op p executor ix code id conf q effects hix hop call =>
    obtain ⟨hne, hop⟩ := Ledger.ops_of_setOp_executed rfl hop' hst'
    exact .inl ⟨op', hop, hst', rfl, by simp [hix, hne]⟩

theorem step_pending (hC : LeavesPending env l i.ix) (hl : PendingRegistered l)
    (hok : (endpoint env).step l i = .ok (l', out)) : PendingRegistered l' := by
  intro h op' hop' hst'
  rcases pending_of_step hok hop' hst' with ⟨op, hop, hst, hdata, hne⟩ | hix
  · obtain ⟨p, hp, haddr⟩ := hl h op hop hst
    obtain ⟨p', hp', hsame | hset⟩ := step_address hok hp
    · exact ⟨p', hdata ▸ hp', by rw [hsame, haddr, hdata]⟩
    · have := hC _ hset h op hop hst hne rfl
      exact ⟨p', hdata ▸ hp', by rw [← hdata, this]⟩
  · obtain ⟨invoke, hdis⟩ := dispatch_of_process hok
    rw [hix, dispatch] at hdis
    obtain ⟨p, hp, haddr⟩ := loadOperation_address hdis
    obtain ⟨p', hp', hsame | hset⟩ := step_address hok hp
    · exact ⟨p', hp', hsame.trans haddr⟩
    · simp [setsAddress, hix, Ix.setsUp, governs] at hset

/-- In every history in which no address is changed under an operation that waits for the old
one : the program that an execution calls is the one registered for its protocol at that
step. -/
theorem calls_registered_address (env : Env) (txs : List (List (Invocation env)))
    (hC : ∀ r ∈ ((endpoint env).run Ledger.genesis txs).1,
      LeavesPending env r.before r.input.ix) :
    ∀ r ∈ ((endpoint env).run Ledger.genesis txs).1, ∀ h, r.input.ix = .executeOperation h →
      ∃ op p ix, r.before.ops h = some op ∧
        r.before.protocols op.opData.protocolId = some p ∧
        .invoke ix (.callAuthority op.opData.protocolId) ∈ r.out ∧
        ix.programId = op.opData.protocolAddr ∧ ix.programId = p.protocolAddress := by
  intro r hr h hix
  obtain ⟨hpending, -⟩ := (run_sound (endpoint env) Ledger.genesis txs).inv_of_forall
    (I := PendingRegistered) (C := fun l i => LeavesPending env l i.ix)
    (by simp [PendingRegistered, Ledger.genesis])
    (fun _ _ _ _ hC hl hok => step_pending hC hl hok) hC
  obtain ⟨-, -, -, -, hok⟩ := (run_sound (endpoint env) Ledger.genesis txs).of_mem hr
  obtain ⟨op, p, executor, ix, l₁, nested, hop, call, -, -, hout⟩ :=
    executeOperation_cases hix hok
  obtain ⟨p', hp', haddr⟩ := (hpending r hr).1 h op hop (by simp [call.signed])
  exact ⟨op, p', ix, hop, hp', by simp [hout], call.program, call.program.trans haddr.symm⟩

/-- The operation that a call loads. -/
def Ix.loads : Ix → Option OperationData
  | .loadOperation o _ => some o
  | _ => none

/-- What is stored was loaded. -/
theorem loaded_of_run {history : List (Record Ledger (Invocation env) Effect)}
    (hr : (endpoint env).Run Ledger.genesis history l) {h : Bytes} {op : OpInfo}
    (hop : l.ops h = some op) : ∃ r ∈ history, op.opData ∈ r.input.ix.loads := by
  induction hr generalizing op with
  | nil => simp [Ledger.genesis] at hop
  | @snoc history l i l' out _ hok ih =>
    cases hbefore : l.ops h with
    | some op₀ =>
      obtain ⟨op₁, hop₁, hdata⟩ := (step_cases hok).opData_fixed hbefore
      obtain rfl := Option.some_inj.1 (hop.symm.trans hop₁)
      obtain ⟨r, hr, hloads⟩ := ih hbefore
      exact ⟨r, List.mem_append_left _ hr, hdata ▸ hloads⟩
    | none =>
      refine ⟨⟨l, i, out, l'⟩, by simp, ?_⟩
      rcases (step_cases hok).ops_cases h with hsame | ⟨o, -, -, -, hop'⟩ |
        ⟨_, _, _, _, _, _, -, signs, -⟩ | ⟨_, hop', -⟩
      · simp [hsame, hbefore] at hop
      · obtain rfl := Option.some_inj.1 (hop.symm.trans hop')
        rcases pending_of_step hok hop (by simp) with ⟨_, hop₀, -⟩ | hix
        · simp [hbefore] at hop₀
        · simp [hix, Ix.loads]
      · have hstored := signs.stored
        simp [hbefore] at hstored
      · simp [hbefore] at hop'

section Localnet

open Localnet

theorem calls_registered_localnet :
    ∃ r ∈ ((endpoint localnet).run Ledger.genesis (approval ++ [[execute]])).1,
      ∃ op p ix, r.before.ops opHash = some op ∧
        r.before.protocols op.opData.protocolId = some p ∧
        .invoke ix (.callAuthority op.opData.protocolId) ∈ r.out ∧
        ix.programId = op.opData.protocolAddr ∧ ix.programId = p.protocolAddress := by
  obtain ⟨hphoton, r, hr, hix⟩ :
      (∀ r ∈ ((endpoint localnet).run Ledger.genesis (approval ++ [[execute]])).1,
        (∀ o ∈ r.input.ix.loads, o.protocolId = govProtocolId ∧ o.protocolAddr = photonId) ∧
          ∀ x ∈ setsAddress localnet r.before r.input.ix,
            x.1 = govProtocolId → x.2 = photonId) ∧
      ∃ r ∈ ((endpoint localnet).run Ledger.genesis (approval ++ [[execute]])).1,
        r.input.ix = .executeOperation opHash := by
    decide +kernel
  have hC : ∀ r ∈ ((endpoint localnet).run Ledger.genesis (approval ++ [[execute]])).1,
      LeavesPending localnet r.before r.input.ix := by
    intro r hr x hx h op hop _ _ hid
    obtain ⟨pre, post, heq, hpre, -⟩ := (run_sound _ _ _).of_mem hr
    obtain ⟨r', hr', hload⟩ := loaded_of_run hpre hop
    obtain ⟨hgov, haddr⟩ := (hphoton r' (heq ▸ List.mem_append_left _ hr')).1 _ hload
    rw [haddr, (hphoton r hr).2 x hx (hid.symm.trans hgov)]
  exact ⟨r, hr, calls_registered_address localnet _ hC r hr opHash hix⟩

end Localnet

section Deployment

open Deployment
open Localnet (transmitter1 transmitter2 onefuncId)

/-- The program that is called. -/
def Effect.called : Effect → Option Pubkey
  | .invoke ix _ => some ix.programId
  | _ => none

/-- An operation of the governance protocol waits to be executed. The protocol's address is
removed, and the operation is executed all the same. -/
theorem called_removed_address :
    ∃ r ∈ ((endpoint (deployed [removeAddress, giveAddress])).run Ledger.genesis
        [[setUp _ 5000 [transmitter1, transmitter2]], [load _ giveAddress], [sign _ giveAddress],
          [load _ removeAddress], [sign _ removeAddress],
          [execute _ removeAddress govProtocolId], [execute _ giveAddress onefuncId]]).1,
      (∃ op ∈ r.before.ops giveAddress.hash.val, op.opData.protocolId = govProtocolId) ∧
        r.input.ix = .executeOperation giveAddress.hash.val ∧
        r.out.filterMap Effect.called = [photonId] ∧
        ∃ p ∈ r.before.protocols govProtocolId, p.protocolAddress = Pubkey.default := by
  decide +kernel

end Deployment

end Photon
