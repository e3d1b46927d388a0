import Mathlib.Data.Finset.Card
import Photon.Deployment
import Photon.Writes

/-!
# Transmitters, executors and proposers

A protocol keeps three lists of at most 20 entries, each in an array with zeros behind. The
instructions ask whether a key is anywhere in the array, the handlers read and write the
entries before the first zero, and the rate of an operation is taken of the number of these
entries. All of this agrees as long as the array is packed (`Slots.Packed`).

For executors and proposers it stays so in every history (`key_lists_sound`) : `addKey` refuses
what would spoil it. For transmitters it does not. `AddAllowedProtocol` writes a list over the
front of the array as it is, and the other handlers remove repetitions of neighbours only. The
array stays packed exactly as long as the lists in the messages fit what is stored
(`TransmittersFit`, `transmitters_packed_iff`).
-/

namespace Photon

open Machine

variable {env : Env} {l l' : Ledger} {i : Invocation env} {c c' : Config} {p q : ProtocolInfo}
  {op : OperationData} {g : GovOperation} {effects : List Effect}

/-! ## Properties of all protocols -/

theorem Ledger.forall_setProtocol {P : ProtocolInfo → Prop} {id : Bytes}
    (hl : ∀ id p, l.protocols id = some p → P p) :
    (∀ id' p, (l.setProtocol id q).protocols id' = some p → P p) ↔ P q := by
  constructor
  · intro h
    exact h id q (by simp [Ledger.protocols_setProtocol])
  · intro hq id' p hp
    rw [Ledger.protocols_setProtocol] at hp
    split_ifs at hp with hid
    · exact Option.some_inj.1 hp ▸ hq
    · exact hl id' p hp

theorem Ledger.forall_protocol {P : ProtocolInfo → Prop} (hd : P ProtocolInfo.default)
    (hl : ∀ id p, l.protocols id = some p → P p) (id : Bytes) : P (l.protocol id) := by
  unfold Ledger.protocol
  cases hp : l.protocols id with
  | none => exact hd
  | some p => exact hl id p hp

/-! ## Transmitters -/

/-- The transmitters of a protocol are distinct and nonzero, with zeros behind them. -/
def ProtocolInfo.TransmittersPacked (p : ProtocolInfo) : Prop :=
  Slots.Packed EthAddress.default p.transmittersArray

theorem ProtocolInfo.transmittersPacked_default : ProtocolInfo.default.TransmittersPacked :=
  Slots.packed_replicate EthAddress.default

/-- Appending is all right if equal addresses stand together then. -/
theorem packed_append {a b : Fixed EthAddress 20} {toAdd : List EthAddress}
    (hz : EthAddress.default ∉ toAdd)
    (hb : Slots.fill EthAddress.default
      ((Slots.live EthAddress.default a ++ toAdd).destutter (· ≠ ·)) = some b) :
    Slots.Packed EthAddress.default b ↔
      Slots.Clustered (Slots.live EthAddress.default a ++ toAdd) := by
  have hzero : EthAddress.default ∉
      (Slots.live EthAddress.default a ++ toAdd).destutter (· ≠ ·) := by
    rw [Slots.mem_destutter, List.mem_append, not_or]
    exact ⟨Slots.not_mem_live _ _, hz⟩
  exact (Slots.packed_fill_iff hzero hb).trans Slots.nodup_destutter_iff

/-- The lists in a message fit the transmitters of the protocol it acts on. A list that is
registered has to be distinct and nonzero together with the transmitters it does not write
over. Where a list is appended, equal addresses have to stand together. -/
def TransmittersFit (env : Env) (p : ProtocolInfo) (calldata : Bytes) : GovOperation → Prop
  | .addAllowedProtocol => ∀ list ∈ (registeredTransmitters env calldata).toOption,
    Slots.Tidy EthAddress.default (list ++ p.transmitters.drop list.length)
  | .addTransmitters => ∀ toAdd ∈ (addedTransmitters env .addTransmitters 1 calldata).toOption,
    Slots.Clustered (p.transmitters ++ toAdd)
  | .updateTransmitters =>
    ∀ toRemove ∈ (removedTransmitters env .updateTransmitters 2 calldata).toOption,
      ∀ toAdd ∈ (addedTransmitters env .updateTransmitters 1 calldata).toOption,
        Slots.Clustered (p.transmitters.filter (· ∉ toRemove) ++ toAdd)
  | _ => True

instance (env : Env) (p : ProtocolInfo) (calldata : Bytes) :
    (g : GovOperation) → Decidable (TransmittersFit env p calldata g)
  | .addAllowedProtocol => inferInstanceAs (Decidable (∀ list ∈ _, Slots.Tidy _ _))
  | .addTransmitters => inferInstanceAs (Decidable (∀ toAdd ∈ _, Slots.Clustered _))
  | .updateTransmitters =>
    inferInstanceAs (Decidable (∀ toRemove ∈ _, ∀ toAdd ∈ _, Slots.Clustered _))
  | .addAllowedProtocolAddress | .removeAllowedProtocolAddress | .addAllowedProposerAddress
  | .removeAllowedProposerAddress | .addExecutor | .removeExecutor | .removeTransmitters
  | .setConsensusTargetRate => inferInstanceAs (Decidable True)

theorem Handled.packed_iff (h : Handled env c p op g c' q effects) (hp : p.TransmittersPacked) :
    q.TransmittersPacked ↔ TransmittersFit env p op.params g := by
  cases h with
  | addAllowedProtocol hrate hlist harray =>
    simp only [TransmittersFit, hlist, Except.toOption, Option.mem_some_iff, forall_eq']
    exact Slots.packed_overwrite_iff hp harray
  | setAddress hkey =>
    cases g <;> first | exact iff_of_true hp trivial | simp [newAddress] at hkey
  | addTransmitters hadd hfill =>
    simp only [TransmittersFit, hadd, Except.toOption, Option.mem_some_iff, forall_eq']
    exact packed_append (not_mem_addedTransmitters hadd) hfill
  | removeTransmitters hrem hfill => exact iff_of_true (hp.fill_filter hfill).1 trivial
  | @updateTransmitters toAdd toRemove left _ hrem hleft hadd harray =>
    simp only [TransmittersFit, hadd, hrem, Except.toOption, Option.mem_some_iff, forall_eq']
    obtain ⟨hpacked, hlive⟩ : Slots.Packed EthAddress.default left ∧
        Slots.live EthAddress.default left = p.transmitters.filter (· ∉ toRemove) := by
      rcases hleft with ⟨rfl, rfl⟩ | ⟨-, hfill⟩
      · exact ⟨hp, by simp [ProtocolInfo.transmitters]⟩
      · exact hp.fill_filter hfill
    rw [← hlive]
    rcases harray with ⟨rfl, rfl⟩ | ⟨-, hfill⟩
    · rw [List.append_nil]
      exact iff_of_true hpacked (Slots.Clustered.of_nodup hpacked.val_eq.1)
    · exact packed_append (not_mem_addedTransmitters hadd) hfill
  | addProposer | removeProposer | addExecutor | removeExecutor | setRate =>
    exact iff_of_true hp trivial

/-- The handler that a call runs, if any, is given lists that fit. -/
def KeepsTransmitters (env : Env) (l : Ledger) (ix : Ix) : Prop :=
  ∀ x ∈ governs env l ix, TransmittersFit env (l.protocol x.2.2) x.1.params x.2.1

instance (env : Env) (l : Ledger) (ix : Ix) : Decidable (KeepsTransmitters env l ix) :=
  inferInstanceAs (Decidable (∀ x ∈ _, TransmittersFit _ _ _ _))

/-- The transmitters that a call sets up are distinct and nonzero. -/
def DistinctTransmitters (i : Invocation env) : Prop :=
  ∀ x ∈ i.ix.setsUp, x.2.1.Nodup ∧ EthAddress.default ∉ x.2.1

instance (i : Invocation env) : Decidable (DistinctTransmitters i) :=
  inferInstanceAs (Decidable (∀ x ∈ _, _ ∧ _))

theorem step_transmitters {out : List Effect} (hset : DistinctTransmitters i)
    (hl : ∀ id p, l.protocols id = some p → p.TransmittersPacked)
    (hok : (endpoint env).step l i = .ok (l', out)) :
    (∀ id p, l'.protocols id = some p → p.TransmittersPacked) ↔ KeepsTransmitters env l i.ix := by
  cases step_protocols hok with
  | same hsame _ hgov =>
    rw [hsame]
    exact iff_of_true hl (by simp [KeepsTransmitters, hgov])
  | setUp hix hgov htransmitters hexecutors hwrite =>
    rw [hwrite, Ledger.forall_setProtocol hl]
    obtain ⟨hd, hz⟩ := hset _ hix
    exact iff_of_true (Slots.packed_of_fill hd hz htransmitters) (by simp [KeepsTransmitters, hgov])
  | govern hix hgov hop handled hwrite =>
    rw [hwrite, Ledger.forall_setProtocol hl,
      handled.packed_iff (Ledger.forall_protocol ProtocolInfo.transmittersPacked_default hl _)]
    simp [KeepsTransmitters, hgov]

theorem ProtocolInfo.TransmittersPacked.length_eq_card (h : p.TransmittersPacked) :
    p.transmitters.length = p.transmitters.toFinset.card :=
  (List.toFinset_card_of_nodup h.val_eq.1).symm

/-- In every history whose initial lists are distinct and nonzero : all protocols hold distinct
nonzero transmitters with zeros behind them, and the denominator of the rate is the number of
addresses that can sign, exactly if every message fits. -/
theorem transmitters_packed_iff (env : Env) (txs : List (List (Invocation env)))
    (hset : ∀ r ∈ ((endpoint env).run Ledger.genesis txs).1, DistinctTransmitters r.input) :
    (∀ r ∈ ((endpoint env).run Ledger.genesis txs).1, ∀ id p, r.after.protocols id = some p →
        Slots.Packed EthAddress.default p.transmittersArray ∧
          p.transmitters.length = p.transmitters.toFinset.card) ↔
      ∀ r ∈ ((endpoint env).run Ledger.genesis txs).1,
        KeepsTransmitters env r.before r.input.ix := by
  have hiff := (run_sound (endpoint env) Ledger.genesis txs).inv_iff
    (I := fun l => ∀ id p, l.protocols id = some p → p.TransmittersPacked)
    (C := fun l i => KeepsTransmitters env l i.ix) (H := DistinctTransmitters)
    (by simp [Ledger.genesis])
    (fun _ _ _ _ hset hl hok => step_transmitters hset hl hok) hset
  rw [← hiff]
  constructor
  · intro h r hr id p hp
    exact (h r hr id p hp).1
  · intro h r hr id p hp
    exact ⟨h r hr id p hp, (h r hr id p hp).length_eq_card⟩

section Deployment

open Deployment
open Localnet (transmitter1 transmitter2)

/-- The first transmitter is added again, after `transmitters` were set up. -/
def addAgain (transmitters : List EthAddress) :
    List (List (Invocation (deployed [addFirstAgain]))) :=
  [[setUp _ 5000 transmitters], [load _ addFirstAgain], [sign _ addFirstAgain],
    [execute _ addFirstAgain govProtocolId]]

theorem transmitters_packed_neighbour :
    ∃ r ∈ ((endpoint (deployed [addFirstAgain])).run Ledger.genesis
        (addAgain [transmitter2, transmitter1])).1,
      ∃ p ∈ r.after.protocols govProtocolId,
        Slots.Packed EthAddress.default p.transmittersArray ∧
          p.transmitters = [transmitter2, transmitter1] ∧ p.transmitters.toFinset.card = 2 := by
  have hset : ∀ r ∈ ((endpoint (deployed [addFirstAgain])).run Ledger.genesis
      (addAgain [transmitter2, transmitter1])).1, DistinctTransmitters r.input :=
    forall_input_of_run _ _ _ (by decide +kernel)
  obtain ⟨hfit, r, hr, p, hp, hlist⟩ :
      (∀ r ∈ ((endpoint (deployed [addFirstAgain])).run Ledger.genesis
          (addAgain [transmitter2, transmitter1])).1,
        KeepsTransmitters (deployed [addFirstAgain]) r.before r.input.ix) ∧
      ∃ r ∈ ((endpoint (deployed [addFirstAgain])).run Ledger.genesis
          (addAgain [transmitter2, transmitter1])).1, ∃ p ∈ r.after.protocols govProtocolId,
        p.transmitters = [transmitter2, transmitter1] := by
    decide +kernel
  obtain ⟨hpacked, hcard⟩ := (transmitters_packed_iff _ _ hset).2 hfit r hr govProtocolId p hp
  exact ⟨r, hr, p, hp, hpacked, hlist, by rw [← hcard, hlist]; rfl⟩

/-- Two transmitters are set up and the first of them is added : it is there twice, and the rate
is taken of three. -/
theorem transmitters_repeated :
    (∀ r ∈ ((endpoint (deployed [addFirstAgain])).run Ledger.genesis
        (addAgain [transmitter1, transmitter2])).1, DistinctTransmitters r.input) ∧
      ∃ r ∈ ((endpoint (deployed [addFirstAgain])).run Ledger.genesis
          (addAgain [transmitter1, transmitter2])).1,
        ∃ p ∈ r.after.protocols govProtocolId,
          ¬Slots.Packed EthAddress.default p.transmittersArray ∧
            p.transmitters = [transmitter1, transmitter2, transmitter1] ∧
            p.transmitters.toFinset.card = 2 := by
  refine ⟨forall_input_of_run _ _ _ (by decide +kernel), ?_⟩
  decide +kernel

end Deployment

/-! ## Executors and proposers -/

/-- The two lists of keys of a protocol. -/
inductive KeyList
  | executors
  | proposers
  deriving DecidableEq

namespace KeyList

/-- The array, as the account constraints search it. -/
def array : KeyList → ProtocolInfo → Fixed Pubkey 20
  | .executors, p => p.executorsArray
  | .proposers, p => p.proposersArray

/-- The list, as the handlers read it. -/
def keys : KeyList → ProtocolInfo → List Pubkey
  | .executors, p => p.executors
  | .proposers, p => p.proposers

def write : KeyList → ProtocolInfo → Fixed Pubkey 20 → ProtocolInfo
  | .executors, p, a => { p with executorsArray := a }
  | .proposers, p, a => { p with proposersArray := a }

/-- `AddExecutor` or `AddAllowedProposerAddress`. -/
def add (env : Env) (calldata : Bytes) (p : ProtocolInfo) : KeyList → Except Error ProtocolInfo
  | .executors => addExecutor env calldata p
  | .proposers => addAllowedProposerAddress env calldata p

/-- `RemoveExecutor` or `RemoveAllowedProposerAddress`. -/
def remove (env : Env) (calldata protocolId : Bytes) (p : ProtocolInfo) :
    KeyList → Except Error ProtocolInfo
  | .executors => removeExecutor env calldata protocolId p
  | .proposers => removeAllowedProposerAddress env calldata p

variable {k : KeyList}

theorem keys_eq (k : KeyList) (p : ProtocolInfo) :
    k.keys p = Slots.live Pubkey.default (k.array p) := by
  cases k <;> rfl

theorem array_write (k : KeyList) (p : ProtocolInfo) (a : Fixed Pubkey 20) :
    k.array (k.write p a) = a := by
  cases k <;> rfl

theorem not_mem_keys (k : KeyList) (p : ProtocolInfo) : Pubkey.default ∉ k.keys p := by
  rw [keys_eq]
  exact Slots.not_mem_live _ _

theorem length_keys_le (k : KeyList) (p : ProtocolInfo) : (k.keys p).length ≤ 20 := by
  rw [keys_eq]
  exact Slots.length_live_le _ _

end KeyList

theorem addKey_eq_ok {zeroError thereError fullError : CustomError} {max : ℕ}
    {keys : List Pubkey} {key : Pubkey} {array : Fixed Pubkey 20} :
    addKey zeroError thereError fullError max keys key = .ok array ↔
      key ≠ Pubkey.default ∧ key ∉ keys ∧ keys.length < max ∧
        Slots.fill Pubkey.default (keys ++ [key]) = some array := by
  simp [addKey]

namespace KeyList

variable {k : KeyList} {calldata protocolId : Bytes} {key : Pubkey}

/-- The two handlers differ in their errors only. -/
theorem add_eq (env : Env) (k : KeyList) : ∃ zeroError thereError fullError, ∀ calldata p,
    k.add env calldata p = (do
      let key ← decodeKey env calldata
      let a ← addKey zeroError thereError fullError 20 (k.keys p) key
      pure (k.write p a)) := by
  cases k with
  | executors => exact ⟨_, _, _, fun _ _ => rfl⟩
  | proposers => exact ⟨_, _, _, fun _ _ => rfl⟩

/-- A key goes to the end of the list, unless it is zero, there, or the twenty-first. -/
theorem add_eq_ok (hkey : decodeKey env calldata = .ok key) : k.add env calldata p = .ok q ↔
    key ≠ Pubkey.default ∧ key ∉ k.keys p ∧ (k.keys p).length < 20 ∧
      ∃ a, Slots.fill Pubkey.default (k.keys p ++ [key]) = some a ∧ q = k.write p a := by
  obtain ⟨_, _, _, hadd⟩ := add_eq env k
  simp only [hadd, hkey, Except.bind_eq_ok, Except.pure_eq_ok, Except.ok.injEq, addKey_eq_ok]
  constructor
  · rintro ⟨_, rfl, a, ⟨hzero, hnew, hlen, hfill⟩, rfl⟩
    exact ⟨hzero, hnew, hlen, a, hfill, rfl⟩
  · rintro ⟨hzero, hnew, hlen, a, hfill, rfl⟩
    exact ⟨key, rfl, a, ⟨hzero, hnew, hlen, hfill⟩, rfl⟩

theorem remove_ok (hkey : decodeKey env calldata = .ok key)
    (hok : k.remove env calldata protocolId p = .ok q) :
    ∃ a, Slots.fill Pubkey.default (removeKey (k.keys p) key) = some a ∧ q = k.write p a := by
  cases k with
  | executors =>
    simp only [remove, removeExecutor, hkey, Except.bind_eq_ok, Except.ok.injEq,
      Except.orFail_eq_ok, Except.pure_eq_ok] at hok
    obtain ⟨_, rfl, -, -, a, hfill, rfl⟩ := hok
    exact ⟨a, hfill, rfl⟩
  | proposers =>
    simp only [remove, removeAllowedProposerAddress, hkey, Except.bind_eq_ok, Except.ok.injEq,
      Except.orFail_eq_ok, Except.pure_eq_ok] at hok
    obtain ⟨_, rfl, a, hfill, rfl⟩ := hok
    exact ⟨a, hfill, rfl⟩

theorem keys_write_of_fill {keys : List Pubkey} {a : Fixed Pubkey 20}
    (hz : Pubkey.default ∉ keys) (hfill : Slots.fill Pubkey.default keys = some a) :
    k.keys (k.write p a) = keys := by
  rw [keys_eq, array_write]
  exact Slots.live_of_fill hz hfill

/-- A key is refused exactly if it is zero, there, or the twenty-first. -/
theorem add_refused (hkey : decodeKey env calldata = .ok key) :
    (∃ e, k.add env calldata p = .error e) ↔
      key = Pubkey.default ∨ key ∈ k.keys p ∨ (k.keys p).length = 20 := by
  have hle := k.length_keys_le p
  constructor
  · rintro ⟨e, herr⟩
    by_contra hno
    push Not at hno
    obtain ⟨hzero, hnew, hlen⟩ := hno
    have hroom : (k.keys p ++ [key]).length ≤ 20 := by
      simp only [List.length_append, List.length_singleton]
      omega
    have hok := (add_eq_ok (q := k.write p _) hkey).2 ⟨hzero, hnew, by omega,
      ⟨k.keys p ++ [key] ++ List.replicate (20 - (k.keys p ++ [key]).length) Pubkey.default,
        by simp only [List.length_append, List.length_replicate] at hroom ⊢; omega⟩,
      Slots.fill_eq_some.2 ⟨hroom, rfl⟩, rfl⟩
    simp [hok] at herr
  · intro hno
    cases hadd : k.add env calldata p with
    | error e => exact ⟨e, rfl⟩
    | ok q =>
      obtain ⟨hzero, hnew, hlen, -⟩ := (add_eq_ok hkey).1 hadd
      rcases hno with h | h | h
      · exact absurd h hzero
      · exact absurd h hnew
      · omega

end KeyList

/-- A list of keys is in order : the array is packed, adding is insertion, removing is erasure,
and the array is searched as if it were the list. -/
structure KeyList.Sound (env : Env) (p : ProtocolInfo) (k : KeyList) : Prop where
  packed : Slots.Packed Pubkey.default (k.array p)
  refused : ∀ calldata key, decodeKey env calldata = .ok key →
    ((∃ e, k.add env calldata p = .error e) ↔
      key = Pubkey.default ∨ key ∈ k.keys p ∨ (k.keys p).length = 20)
  added : ∀ calldata key q, decodeKey env calldata = .ok key → k.add env calldata p = .ok q →
    (∃ a, q = k.write p a) ∧ k.keys q = k.keys p ++ [key]
  removed : ∀ calldata protocolId key q, decodeKey env calldata = .ok key →
    k.remove env calldata protocolId p = .ok q →
      (∃ a, q = k.write p a) ∧ k.keys q = (k.keys p).filter (· ≠ key)
  contains : ∀ key, key ≠ Pubkey.default → (key ∈ (k.array p).val ↔ key ∈ k.keys p)

theorem KeyList.Sound.of_packed {k : KeyList} (h : Slots.Packed Pubkey.default (k.array p)) :
    k.Sound env p where
  packed := h
  refused _ _ hkey := add_refused hkey
  added calldata key q hkey hok := by
    obtain ⟨hzero, -, -, a, hfill, rfl⟩ := (add_eq_ok hkey).1 hok
    refine ⟨⟨a, rfl⟩, keys_write_of_fill ?_ hfill⟩
    simpa [k.not_mem_keys p] using hzero.symm
  removed calldata protocolId key q hkey hok := by
    obtain ⟨a, hfill, rfl⟩ := remove_ok hkey hok
    exact ⟨⟨a, rfl⟩, keys_write_of_fill
      (fun hmem => k.not_mem_keys p (List.mem_of_mem_filter hmem)) hfill⟩
  contains key hne := by
    rw [k.keys_eq]
    exact h.mem_iff hne

/-! ### Along a run -/

/-- Both lists of keys are packed. -/
def ProtocolInfo.KeysPacked (p : ProtocolInfo) : Prop :=
  ∀ k : KeyList, Slots.Packed Pubkey.default (k.array p)

theorem ProtocolInfo.keysPacked_default : ProtocolInfo.default.KeysPacked := by
  intro k
  cases k <;> exact Slots.packed_replicate Pubkey.default

/-- What a handler does to a list of keys : nothing, or adding or removing a key. The last
governance executor stays. -/
theorem Handled.array_cases (h : Handled env c p op g c' q effects) (k : KeyList) :
    k.array q = k.array p ∨
      (∃ key, key ≠ Pubkey.default ∧ key ∉ k.keys p ∧
        Slots.fill Pubkey.default (k.keys p ++ [key]) = some (k.array q)) ∨
      ∃ key, Slots.fill Pubkey.default ((k.keys p).filter (· ≠ key)) = some (k.array q) ∧
        (k = .executors → op.protocolId = govProtocolId → (k.keys p).filter (· ≠ key) ≠ []) := by
  cases h with
  | @addProposer key _ hkey hadd =>
    cases k with
    | executors => exact .inl rfl
    | proposers =>
      obtain ⟨hzero, hnew, -, hfill⟩ := addKey_eq_ok.1 hadd
      exact .inr (.inl ⟨key, hzero, hnew, hfill⟩)
  | @removeProposer key _ hkey hfill =>
    cases k with
    | executors => exact .inl rfl
    | proposers => exact .inr (.inr ⟨key, hfill, by simp⟩)
  | @addExecutor key _ hkey hadd =>
    cases k with
    | proposers => exact .inl rfl
    | executors =>
      obtain ⟨hzero, hnew, -, hfill⟩ := addKey_eq_ok.1 hadd
      exact .inr (.inl ⟨key, hzero, hnew, hfill⟩)
  | @removeExecutor key _ hkey hlast hfill =>
    cases k with
    | proposers => exact .inl rfl
    | executors => exact .inr (.inr ⟨key, hfill, fun _ hid hnil => hlast ⟨hnil, hid⟩⟩)
  | addAllowedProtocol | setAddress | addTransmitters | removeTransmitters | updateTransmitters
  | setRate => cases k <;> exact .inl rfl

theorem Handled.keysPacked (h : Handled env c p op g c' q effects) (hp : p.KeysPacked) :
    q.KeysPacked := by
  intro k
  rcases h.array_cases k with hsame | ⟨key, hzero, hnew, hfill⟩ | ⟨key, hfill, -⟩
  · rw [hsame]
    exact hp k
  · rw [k.keys_eq] at hnew hfill
    exact (hp k).fill_append hzero hnew hfill
  · rw [k.keys_eq] at hfill
    exact ((hp k).fill_filter hfill).1

theorem Handled.executors_ne_nil (h : Handled env c p op g c' q effects)
    (hop : op.protocolId = govProtocolId) (hp : p.executors ≠ []) : q.executors ≠ [] := by
  have hq : q.executors = Slots.live Pubkey.default (KeyList.executors.array q) := rfl
  rcases h.array_cases .executors with hsame | ⟨key, hzero, hnew, hfill⟩ | ⟨key, hfill, hleft⟩
  · rw [hq, hsame]
    exact hp
  · rw [hq, Slots.live_of_fill _ hfill]
    · simp
    · simpa [KeyList.not_mem_keys] using hzero.symm
  · rw [hq, Slots.live_of_fill _ hfill]
    · exact hleft rfl hop
    · exact fun hmem => KeyList.not_mem_keys _ p (List.mem_of_mem_filter hmem)

/-- The executors that a call sets up are distinct and nonzero. -/
def DistinctExecutors (i : Invocation env) : Prop :=
  ∀ x ∈ i.ix.setsUp, x.2.2.Nodup ∧ Pubkey.default ∉ x.2.2

instance (i : Invocation env) : Decidable (DistinctExecutors i) :=
  inferInstanceAs (Decidable (∀ x ∈ _, _ ∧ _))

theorem step_keys {out : List Effect} (hset : DistinctExecutors i)
    (hl : ∀ id p, l.protocols id = some p → p.KeysPacked)
    (hok : (endpoint env).step l i = .ok (l', out)) :
    ∀ id p, l'.protocols id = some p → p.KeysPacked := by
  have hprotocol := Ledger.forall_protocol ProtocolInfo.keysPacked_default hl
  cases step_protocols hok with
  | same hsame => rwa [hsame]
  | setUp hix hgov htransmitters hexecutors hwrite =>
    rw [hwrite, Ledger.forall_setProtocol hl]
    obtain ⟨hd, hz⟩ := hset _ hix
    intro k
    cases k with
    | executors => exact Slots.packed_of_fill hd hz hexecutors
    | proposers => exact hprotocol govProtocolId .proposers
  | govern hix hgov hop handled hwrite =>
    rw [hwrite, Ledger.forall_setProtocol hl]
    exact handled.keysPacked (hprotocol _)

theorem step_gov_executors {out : List Effect} (hset : i.ix.setsUp = none)
    (hne : (l.protocol govProtocolId).executors ≠ [])
    (hok : (endpoint env).step l i = .ok (l', out)) :
    (l'.protocol govProtocolId).executors ≠ [] := by
  cases step_protocols hok with
  | same hsame =>
    rw [Ledger.protocol, hsame]
    exact hne
  | setUp hix => simp [hset] at hix
  | @govern _ _ id _ _ q _ _ hgov hop handled hwrite =>
    rw [Ledger.protocol, hwrite, Ledger.protocols_setProtocol]
    split_ifs with hid
    · subst hid
      exact handled.executors_ne_nil hop hne
    · exact hne

section Deployment

open Deployment
open Localnet (transmitter1 transmitter2)

end Deployment

end Photon
