import Photon.Extensions

/-!
# The `onefunc` program

The program that the endpoint's tests call. It keeps counters : a shared one, and one for each
owner. A counter carries the authority that may raise it, which whoever creates it names, and
is raised by a number that the call carries as an ABI word. `+=` is checked, since the workspace is
built with `overflow-checks`, so a counter that would overflow is a panic.

`propose_to_other_chain` calls the endpoint, which the runtime forbids while the endpoint is
itself waiting for `onefunc`. The call goes through `invoke`, as that of `execute_operation` does.

What a successful instruction does to the counters is said once, by `Onefunc.Change`.
-/

namespace Photon.Onefunc

/-! ## Stored data -/

/-- The program's own errors. -/
inductive CustomError
  | invalidParams
  | invalidSelector
  deriving DecidableEq

/-- Why an instruction fails. -/
inductive Error
  | custom (e : CustomError)
  | anchor (e : AnchorError)
  /-- A `constraint` without an error of its own. -/
  | constraintRaw
  | panic
  /-- The endpoint failed. -/
  | photon (e : Photon.Error)
  /-- The endpoint is called while it is running. -/
  | reentrancyNotAllowed
  deriving DecidableEq

structure Counter where
  callAuthority : Pubkey
  count : UInt64
  deriving DecidableEq

/-- A freshly created counter. -/
def Counter.default : Counter where
  callAuthority := Pubkey.default
  count := 0

/-- What the address of a counter is derived from. -/
inductive CounterSeeds
  | shared
  | owned (owner : Pubkey)
  deriving DecidableEq

def CounterSeeds.parts : CounterSeeds → List Bytes
  | .shared => [asBytes "COUNTER"]
  | .owned owner => [asBytes "COUNTER", owner.val]

/-- The addresses that `onefunc` derives. Neither the one it proposes with nor its own id is an
address of the endpoint. -/
structure Addresses (env : Env) where
  find : List Bytes → Pubkey → Pubkey
  proposer_ne : ∀ s, find [ROOT, asBytes "PROPOSER"] ONEFUNC_ID ≠ env.pda s
  id_ne : ∀ s, ONEFUNC_ID ≠ env.pda s

namespace Addresses

variable {env : Env} (addr : Addresses env)

def counter (s : CounterSeeds) : Pubkey :=
  addr.find s.parts ONEFUNC_ID

def proposer : Pubkey :=
  addr.find [ROOT, asBytes "PROPOSER"] ONEFUNC_ID

end Addresses

/-- The accounts of both programs. -/
structure World where
  ledger : Ledger
  counters : CounterSeeds → Option Counter

namespace World

/-- Before the first instruction no account exists. -/
def genesis : World where
  ledger := Ledger.genesis
  counters _ := none

def setCounter (w : World) (s : CounterSeeds) (c : Counter) : World :=
  { w with counters := fun s' => if s' = s then some c else w.counters s' }

variable (w : World) (s : CounterSeeds) (c : Counter)

@[simp] theorem ledger_setCounter : (w.setCounter s c).ledger = w.ledger := rfl

theorem counters_setCounter (s' : CounterSeeds) :
    (w.setCounter s c).counters s' = if s' = s then some c else w.counters s' := rfl

@[simp] theorem counters_setCounter_self : (w.setCounter s c).counters s = some c := by
  simp [counters_setCounter]

end World

/-! ## Account checks -/

variable {env : Env} (addr : Addresses env)

def checkSigner (a : AccountInfo) : Except Error Unit :=
  require (a.isSigner = true) (Error.anchor .accountNotSigner)

def checkMut (a : AccountInfo) : Except Error Unit :=
  require (a.isWritable = true) (Error.anchor .constraintMut)

def checkSystemProgram (a : AccountInfo) : Except Error Unit :=
  require (a.key = Pubkey.default) (Error.anchor .invalidProgramId)

/-- The account is the counter derived from `s`. -/
def checkSeeds (a : AccountInfo) (s : CounterSeeds) : Except Error Unit :=
  require (a.key = addr.counter s) (Error.anchor .constraintSeeds)

/-- The stored counter. -/
def loadCounter (w : World) (a : AccountInfo) (s : CounterSeeds) : Except Error Counter := do
  checkSeeds addr a s
  orFail (w.counters s) (Error.anchor .accountNotInitialized)

/-- A counter to be created. -/
def initCounter (w : World) (a : AccountInfo) (s : CounterSeeds) : Except Error Counter := do
  checkSeeds addr a s
  require (w.counters s = none) (Error.anchor .accountAlreadyInUse)
  checkMut a
  pure Counter.default

/-- An operation that the endpoint has stored. Its address is not checked against any seeds :
`opHash` is the hash that the endpoint derived it from. -/
def loadOpInfo (env : Env) (l : Ledger) (a : AccountInfo) (opHash : Bytes) :
    Except Error OpInfo := do
  require (a.key = env.pda (.op opHash)) (Error.anchor .accountNotInitialized)
  orFail (l.ops opHash) (Error.anchor .accountNotInitialized)

/-! ## initialize -/

/-- The accounts of `initialize`. -/
structure Initialize where
  callAuthority : AccountInfo
  counter : Counter

def Initialize.tryAccounts (w : World) : List AccountInfo → Except Error Initialize
  | owner :: callAuthority :: counter :: systemProgram :: _ => do
    checkSigner owner
    checkSystemProgram systemProgram
    let stored ← initCounter addr w counter .shared
    checkMut owner
    pure ⟨callAuthority, stored⟩
  | _ => .error (.anchor .accountNotEnoughKeys)

/-- Create the shared counter, under any authority. -/
def initializeCounter (w : World) (accounts : List AccountInfo) : Except Error World := do
  let ctx ← Initialize.tryAccounts addr w accounts
  pure (w.setCounter .shared { ctx.counter with callAuthority := ctx.callAuthority.key })

/-! ## init_owned_counter -/

/-- The accounts of `init_owned_counter`. -/
structure InitOwnedCounter where
  callAuthority : AccountInfo
  counterOwner : AccountInfo
  ownedCounter : Counter

def InitOwnedCounter.tryAccounts (w : World) (opHash : Bytes) :
    List AccountInfo → Except Error InitOwnedCounter
  | executor :: callAuthority :: opInfo :: counterOwner :: ownedCounter :: systemProgram :: _ => do
    checkSigner executor
    checkSigner callAuthority
    let _ ← loadOpInfo env w.ledger opInfo opHash
    checkSigner counterOwner
    checkSystemProgram systemProgram
    let stored ← initCounter addr w ownedCounter (.owned counterOwner.key)
    checkMut executor
    pure ⟨callAuthority, counterOwner, stored⟩
  | _ => .error (.anchor .accountNotEnoughKeys)

/-- Create the counter of an owner, under the authority that has signed. -/
def initOwnedCounter (w : World) (accounts : List AccountInfo) (opHash : Bytes) :
    Except Error World := do
  let ctx ← InitOwnedCounter.tryAccounts addr w opHash accounts
  pure (w.setCounter (.owned ctx.counterOwner.key)
    { ctx.ownedCounter with callAuthority := ctx.callAuthority.key })

/-! ## increment -/

/-- The number that a call carries. -/
def decodeIncrementItem (env : Env) (params : Bytes) : Except Error UInt64 := do
  let tokens ← orFail (env.abiDecode [.uint 256] params) Error.panic
  let first ← orFail tokens.head? Error.panic
  let item ← orFail first.intoUint Error.panic
  require (item < 2 ^ 64) Error.panic
  pure (UInt64.ofNat item)

/-- The counter raised by `item`. -/
def Counter.raise (c : Counter) (item : UInt64) : Except Error Counter := do
  require (c.count.toNat + item.toNat < 2 ^ 64) Error.panic
  pure { c with count := c.count + item }

/-- The accounts of `increment`. -/
structure Increment where
  callAuthority : AccountInfo
  counter : Counter

def Increment.tryAccounts (w : World) (opHash : Bytes) :
    List AccountInfo → Except Error Increment
  | executor :: callAuthority :: opInfo :: counter :: _ => do
    checkSigner executor
    checkSigner callAuthority
    let _ ← loadOpInfo env w.ledger opInfo opHash
    let stored ← loadCounter addr w counter .shared
    checkMut executor
    require (callAuthority.key = stored.callAuthority) Error.constraintRaw
    checkMut counter
    pure ⟨callAuthority, stored⟩
  | _ => .error (.anchor .accountNotEnoughKeys)

/-- Raise the shared counter. -/
def increment (w : World) (accounts : List AccountInfo) (opHash params : Bytes) :
    Except Error World := do
  let ctx ← Increment.tryAccounts addr w opHash accounts
  let incItem ← decodeIncrementItem env params
  let counter ← ctx.counter.raise incItem
  pure (w.setCounter .shared counter)

/-! ## increment_owned_counter -/

/-- The accounts of `increment_owned_counter`. -/
structure IncrementOwnedCounter where
  callAuthority : AccountInfo
  counterOwner : AccountInfo
  counter : Counter

def IncrementOwnedCounter.tryAccounts (w : World) (opHash : Bytes) :
    List AccountInfo → Except Error IncrementOwnedCounter
  | executor :: callAuthority :: opInfo :: counterOwner :: counter :: _ => do
    checkSigner executor
    checkSigner callAuthority
    let _ ← loadOpInfo env w.ledger opInfo opHash
    checkSigner counterOwner
    let stored ← loadCounter addr w counter (.owned counterOwner.key)
    checkMut executor
    checkMut counter
    require (callAuthority.key = stored.callAuthority) Error.constraintRaw
    pure ⟨callAuthority, counterOwner, stored⟩
  | _ => .error (.anchor .accountNotEnoughKeys)

/-- Raise the counter of an owner who has signed. -/
def incrementOwnedCounter (w : World) (accounts : List AccountInfo) (opHash params : Bytes) :
    Except Error World := do
  let ctx ← IncrementOwnedCounter.tryAccounts addr w opHash accounts
  let incItem ← decodeIncrementItem env params
  let counter ← ctx.counter.raise incItem
  pure (w.setCounter (.owned ctx.counterOwner.key) counter)

/-! ## to_be_failed and receive_photon_msg -/

def ToBeFailed.tryAccounts (env : Env) (w : World) (opHash : Bytes) :
    List AccountInfo → Except Error Unit
  | executor :: callAuthority :: opInfo :: _ => do
    checkSigner executor
    checkSigner callAuthority
    let _ ← loadOpInfo env w.ledger opInfo opHash
    checkMut executor
  | _ => .error (.anchor .accountNotEnoughKeys)

def toBeFailed (env : Env) (w : World) (accounts : List AccountInfo) (opHash : Bytes) :
    Except Error World := do
  ToBeFailed.tryAccounts env w opHash accounts
  require False (Error.custom .invalidParams)
  pure w

def ReceivePhotonMsg.tryAccounts : List AccountInfo → Except Error Unit
  | executor :: _ => do
    checkSigner executor
    checkMut executor
  | _ => .error (.anchor .accountNotEnoughKeys)

/-- A call by code. It is logged only. -/
def receivePhotonMsg (w : World) (accounts : List AccountInfo) (_opHash _code _params : Bytes) :
    Except Error World := do
  ReceivePhotonMsg.tryAccounts accounts
  pure w

/-! ## propose_to_other_chain -/

def PROTOCOL_ID : Bytes :=
  asBytes "onefunc_________________________"

/-- The accounts of `propose_to_other_chain`. -/
structure ProposeToOtherChain where
  config : AccountInfo
  protocolInfo : AccountInfo
  proposer : AccountInfo

/-- The proposer's account is created if it is not there. It holds no data. -/
def ProposeToOtherChain.tryAccounts : List AccountInfo → Except Error ProposeToOtherChain
  | owner :: photonProgram :: config :: protocolInfo :: proposer :: systemProgram :: _ => do
    checkSigner owner
    require (photonProgram.key = photonId) (Error.anchor .invalidProgramId)
    checkSystemProgram systemProgram
    require (proposer.key = addr.proposer) (Error.anchor .constraintSeeds)
    checkMut owner
    checkMut config
    checkMut proposer
    pure ⟨config, protocolInfo, proposer⟩
  | _ => .error (.anchor .accountNotEnoughKeys)

/-- The accounts that the endpoint is handed. The program signs for its proposer. -/
def ProposeToOtherChain.metas (ctx : ProposeToOtherChain) : List AccountInfo :=
  [⟨ctx.proposer.key, true, false⟩, ⟨ctx.config.key, false, true⟩,
    ⟨ctx.protocolInfo.key, false, false⟩]

/-- What is proposed, with this selector. -/
def proposal (functionSelector : FunctionSelector) : Photon.Ix :=
  .propose PROTOCOL_ID 33133 (List.replicate 20 1) functionSelector (asBytes "an arbitrary data")

/-- Propose through the endpoint. -/
def propose (invoke : List AccountInfo → Photon.Ix → Except Error (Ledger × List Effect))
    (w : World) (accounts : List AccountInfo) (functionSelector : FunctionSelector) :
    Except Error (World × List Effect) := do
  let ctx ← ProposeToOtherChain.tryAccounts addr accounts
  let (l, effects) ← invoke ctx.metas (proposal functionSelector)
  pure ({ w with ledger := l }, effects)

def proposeToOtherChain
    (invoke : List AccountInfo → Photon.Ix → Except Error (Ledger × List Effect)) (w : World)
    (accounts : List AccountInfo) : Except Error (World × List Effect) :=
  propose addr invoke w accounts (.byName "ask1234mkl;1mklasdfasm;lkasdmf__")

def proposeToOtherChainBigSelector
    (invoke : List AccountInfo → Photon.Ix → Except Error (Ledger × List Effect)) (w : World)
    (accounts : List AccountInfo) : Except Error (World × List Effect) :=
  propose addr invoke w accounts (.byCode (List.replicate 33 1))

/-! ## Dispatch -/

/-- The program's instructions with their arguments. -/
inductive Ix
  | initializeCounter
  | initOwnedCounter
  | increment (params : Bytes)
  | toBeFailed
  | incrementOwnedCounter (params : Bytes)
  | proposeToOtherChain
  | proposeToOtherChainBigSelector
  | receivePhotonMsg (opHash code params : Bytes)
  deriving DecidableEq

/-- Read the params of a call. -/
def decodeParams (payload : Bytes) (f : Bytes → Ix) : Except Error Ix := do
  let (params, _) ← orFail (photonMsg.decode payload) (Error.anchor .instructionDidNotDeserialize)
  pure (f params)

/-- Anchor's dispatch on instruction data. -/
def Ix.decode (env : Env) (data : Bytes) : Except Error Ix :=
  let method := data.take 8
  let payload := data.drop 8
  if method = env.sighash "global" "initialize" then .ok .initializeCounter
  else if method = env.sighash "global" "init_owned_counter" then .ok .initOwnedCounter
  else if method = env.sighash "global" "increment" then decodeParams payload .increment
  else if method = env.sighash "global" "to_be_failed" then .ok .toBeFailed
  else if method = env.sighash "global" "increment_owned_counter" then
    decodeParams payload .incrementOwnedCounter
  else if method = env.sighash "global" "propose_to_other_chain" then .ok .proposeToOtherChain
  else if method = env.sighash "global" "propose_to_other_chain_big_selector" then
    .ok .proposeToOtherChainBigSelector
  else if method = env.sighash "global" "receive_photon_msg" then do
    let ((opHash, code, params), _) ← orFail (photonMsgWithSelector.decode payload)
      (Error.anchor .instructionDidNotDeserialize)
    pure (.receivePhotonMsg opHash code params)
  else .error (.anchor .instructionFallbackNotFound)

/-- An instruction that calls no other program. -/
def withoutEffects (r : Except Error World) : Except Error (World × List Effect) := do
  let w ← r
  pure (w, [])

/-- Run one instruction. Calls of the endpoint go through `invoke`. -/
def dispatch (invoke : List AccountInfo → Photon.Ix → Except Error (Ledger × List Effect))
    (w : World) (accounts : List AccountInfo) (opHash : Bytes) :
    Ix → Except Error (World × List Effect)
  | .initializeCounter => withoutEffects (initializeCounter addr w accounts)
  | .initOwnedCounter => withoutEffects (initOwnedCounter addr w accounts opHash)
  | .increment params => withoutEffects (increment addr w accounts opHash params)
  | .toBeFailed => withoutEffects (toBeFailed env w accounts opHash)
  | .incrementOwnedCounter params =>
    withoutEffects (incrementOwnedCounter addr w accounts opHash params)
  | .proposeToOtherChain => proposeToOtherChain addr invoke w accounts
  | .proposeToOtherChainBigSelector => proposeToOtherChainBigSelector addr invoke w accounts
  | .receivePhotonMsg h code params => withoutEffects (receivePhotonMsg w accounts h code params)

/-! ## What an instruction does -/

/-- The number that an instruction raises a counter by. -/
def Ix.incItem (env : Env) : Ix → Option UInt64
  | .increment params | .incrementOwnedCounter params => (decodeIncrementItem env params).toOption
  | _ => none

/-- What a successful instruction does. -/
inductive Change (invoke : List AccountInfo → Photon.Ix → Except Error (Ledger × List Effect))
    (w : World) (accounts : List AccountInfo) (ix : Ix) : World → List Effect → Prop
  | init {s authority} (hix : ix.incItem env = none) (fresh : w.counters s = none)
      (owner : ∀ k, s = .owned k → ∃ a ∈ accounts, a.key = k ∧ a.isSigner = true) :
      Change invoke w accounts ix (w.setCounter s { Counter.default with
        callAuthority := authority }) []
  /-- The second account has signed as the authority of the counter. -/
  | raise {s c item} (hix : ix.incItem env = some item) (stored : w.counters s = some c)
      (authority : ∃ a, accounts[1]? = some a ∧ a.isSigner = true ∧ a.key = c.callAuthority)
      (owner : ∀ k, s = .owned k → ∃ a ∈ accounts, a.key = k ∧ a.isSigner = true)
      (room : c.count.toNat + item.toNat < 2 ^ 64) :
      Change invoke w accounts ix (w.setCounter s { c with count := c.count + item }) []
  | log (hix : ix.incItem env = none) : Change invoke w accounts ix w []
  | propose {ctx functionSelector l out} (hix : ix.incItem env = none)
      (hctx : ProposeToOtherChain.tryAccounts addr accounts = .ok ctx)
      (hcall : invoke ctx.metas (proposal functionSelector) = .ok (l, out)) :
      Change invoke w accounts ix { w with ledger := l } out

section Change

variable {addr} {invoke : List AccountInfo → Photon.Ix → Except Error (Ledger × List Effect)}
  {w w' : World} {accounts : List AccountInfo} {opHash : Bytes} {out : List Effect}

@[simp] theorem withoutEffects_eq_ok {r : Except Error World} :
    withoutEffects r = .ok (w', out) ↔ r = .ok w' ∧ out = [] := by
  simp only [withoutEffects, Except.bind_eq_ok, Except.pure_eq_ok, Prod.mk.injEq]
  constructor
  · rintro ⟨w, hr, rfl, rfl⟩
    exact ⟨hr, rfl⟩
  · rintro ⟨hr, rfl⟩
    exact ⟨w', hr, rfl, rfl⟩

theorem Counter.raise_eq_ok {c c' : Counter} {item : UInt64} : c.raise item = .ok c' ↔
    c.count.toNat + item.toNat < 2 ^ 64 ∧ { c with count := c.count + item } = c' := by
  simp [Counter.raise]

theorem loadCounter_eq_ok {a : AccountInfo} {s : CounterSeeds} {c : Counter} :
    loadCounter addr w a s = .ok c ↔ a.key = addr.counter s ∧ w.counters s = some c := by
  simp [loadCounter, checkSeeds]

theorem initCounter_eq_ok {a : AccountInfo} {s : CounterSeeds} {c : Counter} :
    initCounter addr w a s = .ok c ↔ a.key = addr.counter s ∧ w.counters s = none ∧
      a.isWritable = true ∧ Counter.default = c := by
  simp [initCounter, checkSeeds, checkMut]

theorem initOwnedCounter_change {ix : Ix} (hix : ix.incItem env = none)
    (hok : initOwnedCounter addr w accounts opHash = .ok w') :
    Change addr invoke w accounts ix w' [] := by
  simp only [initOwnedCounter, Except.bind_eq_ok, Except.pure_eq_ok] at hok
  obtain ⟨ctx, hctx, rfl⟩ := hok
  unfold InitOwnedCounter.tryAccounts at hctx
  split at hctx
  · simp only [Except.bind_eq_ok, Except.pure_eq_ok, initCounter_eq_ok, checkSigner,
      checkMut, checkSystemProgram, Except.require_eq_ok, exists_const] at hctx
    obtain ⟨-, -, _, -, hsigned, -, _, ⟨-, hfresh, -, rfl⟩, -, rfl⟩ := hctx
    refine .init hix hfresh fun k hk => ?_
    exact ⟨_, by simp, CounterSeeds.owned.inj hk, hsigned⟩
  · simp at hctx

theorem increment_change {params : Bytes}
    (hok : increment addr w accounts opHash params = .ok w') :
    Change addr invoke w accounts (.increment params) w' [] := by
  simp only [increment, Except.bind_eq_ok, Except.pure_eq_ok, Counter.raise_eq_ok] at hok
  obtain ⟨ctx, hctx, item, hitem, _, ⟨hroom, rfl⟩, rfl⟩ := hok
  unfold Increment.tryAccounts at hctx
  split at hctx
  · simp only [Except.bind_eq_ok, Except.pure_eq_ok, loadCounter_eq_ok, checkSigner,
      checkMut, Except.require_eq_ok, exists_const] at hctx
    obtain ⟨-, hsigned, _, -, stored, ⟨-, hstored⟩, -, hkey, -, rfl⟩ := hctx
    refine .raise ?_ hstored ⟨_, rfl, hsigned, hkey⟩ (by simp) hroom
    simp only [Ix.incItem, hitem, Except.toOption]
  · simp at hctx

theorem incrementOwnedCounter_change {params : Bytes}
    (hok : incrementOwnedCounter addr w accounts opHash params = .ok w') :
    Change addr invoke w accounts (.incrementOwnedCounter params) w' [] := by
  simp only [incrementOwnedCounter, Except.bind_eq_ok, Except.pure_eq_ok,
    Counter.raise_eq_ok] at hok
  obtain ⟨ctx, hctx, item, hitem, _, ⟨hroom, rfl⟩, rfl⟩ := hok
  unfold IncrementOwnedCounter.tryAccounts at hctx
  split at hctx
  · simp only [Except.bind_eq_ok, Except.pure_eq_ok, loadCounter_eq_ok, checkSigner,
      checkMut, Except.require_eq_ok, exists_const] at hctx
    obtain ⟨-, hsigned, _, -, howner, stored, ⟨-, hstored⟩, -, -, hkey, rfl⟩ := hctx
    refine .raise ?_ hstored ⟨_, rfl, hsigned, hkey⟩ (fun k hk => ?_) hroom
    · simp only [Ix.incItem, hitem, Except.toOption]
    · exact ⟨_, by simp, CounterSeeds.owned.inj hk, howner⟩
  · simp at hctx

theorem propose_change {ix : Ix} {functionSelector : FunctionSelector}
    (hix : ix.incItem env = none)
    (hok : propose addr invoke w accounts functionSelector = .ok (w', out)) :
    Change addr invoke w accounts ix w' out := by
  simp only [propose, Except.bind_eq_ok, Except.pure_eq_ok, Prod.exists, Prod.mk.injEq] at hok
  obtain ⟨ctx, hctx, l, effects, hcall, rfl, rfl⟩ := hok
  exact .propose hix hctx hcall

theorem dispatch_change {ix : Ix}
    (hok : dispatch addr invoke w accounts opHash ix = .ok (w', out)) :
    Change addr invoke w accounts ix w' out := by
  cases ix with
  | initializeCounter =>
    simp only [dispatch, withoutEffects_eq_ok, initializeCounter, Except.bind_eq_ok,
      Except.pure_eq_ok] at hok
    obtain ⟨⟨ctx, hctx, rfl⟩, rfl⟩ := hok
    unfold Initialize.tryAccounts at hctx
    split at hctx
    · simp only [Except.bind_eq_ok, Except.pure_eq_ok, initCounter_eq_ok] at hctx
      obtain ⟨_, -, _, -, _, ⟨-, hfresh, -, rfl⟩, _, -, rfl⟩ := hctx
      exact .init rfl hfresh (by simp)
    · simp at hctx
  | initOwnedCounter =>
    simp only [dispatch, withoutEffects_eq_ok] at hok
    obtain ⟨hok, rfl⟩ := hok
    exact initOwnedCounter_change rfl hok
  | increment params =>
    simp only [dispatch, withoutEffects_eq_ok] at hok
    obtain ⟨hok, rfl⟩ := hok
    exact increment_change hok
  | toBeFailed => simp [dispatch, toBeFailed] at hok
  | incrementOwnedCounter params =>
    simp only [dispatch, withoutEffects_eq_ok] at hok
    obtain ⟨hok, rfl⟩ := hok
    exact incrementOwnedCounter_change hok
  | proposeToOtherChain | proposeToOtherChainBigSelector => exact propose_change rfl hok
  | receivePhotonMsg h code params =>
    simp only [dispatch, withoutEffects_eq_ok, receivePhotonMsg, Except.bind_eq_ok,
      Except.pure_eq_ok] at hok
    obtain ⟨⟨_, -, rfl⟩, rfl⟩ := hok
    exact .log rfl

end Change

end Photon.Onefunc
