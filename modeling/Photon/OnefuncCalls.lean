import Photon.Counters
import Photon.GovExtension
import Photon.Deployment

/-!
# The executor's calls of `onefunc`

The extension of `onefunc` lists the accounts of the calls it knows (`OnefuncExtension`), and the
endpoint puts its own in front. For each of these calls the list that comes out is the one that
the context of the instruction asks for, so an `execute_operation` that the endpoint accepts is
committed exactly if the counter is as the instruction needs it (`onefunc_calls_answered`) : an
owned counter is created once, a counter is raised under the protocol's own authority by a number
it has room for, and `to_be_failed` fails.
-/

namespace Photon

/-- The extension of `onefunc`. It leaves the compute budget to the executor. -/
def OnefuncExtension.extension (find : List Bytes → Pubkey → Pubkey) (e : OnefuncExtension) :
    ProtocolExtension where
  getAccounts functionSelector _ := e.getAccounts find functionSelector
  getComputeBudget _ _ := none

namespace Onefunc

variable {env : Env} (addr : Addresses env) (e : OnefuncExtension)

/-! ## Known calls -/

/-- The calls that the extension knows. -/
inductive KnownCall : FunctionSelector → Prop
  | initOwnedCounter : KnownCall (.byName "init_owned_counter")
  | increment : KnownCall (.byName "increment")
  | toBeFailed : KnownCall (.byName "to_be_failed")
  | incrementOwnedCounter : KnownCall (.byName "increment_owned_counter")
  | receivePhotonMsg : KnownCall (.byCode [1, 2, 3, 4])

/-- Anchor's methods of `onefunc` are told apart by their eight bytes. -/
def DistinctMethods (env : Env) : Prop :=
  (["initialize", "init_owned_counter", "increment", "to_be_failed", "increment_owned_counter",
    "propose_to_other_chain", "propose_to_other_chain_big_selector",
    "receive_photon_msg"].map (env.sighash "global")).Nodup

/-- The counter is there, under the authority of the operation's protocol, and has room for the
number. -/
def CanRaise (env : Env) (w : World) (s : CounterSeeds) (p : OperationData) : Prop :=
  ∃ c item, w.counters s = some c ∧
    c.callAuthority = env.pda (.callAuthority p.protocolId) ∧
    decodeIncrementItem env p.params = .ok item ∧ c.count.toNat + item.toNat < 2 ^ 64

/-- `onefunc` does what an operation says. -/
def Answers (env : Env) (w : World) (p : OperationData) : Prop :=
  match p.functionSelector with
  | .byName name =>
    if name = "init_owned_counter" then w.counters (.owned e.counterOwner) = none
    else if name = "increment" then CanRaise env w .shared p
    else if name = "increment_owned_counter" then CanRaise env w (.owned e.counterOwner) p
    else False
  | .byCode _ => True
  | .dummy => False

/-- What the extension lists after the program itself. -/
def listed : FunctionSelector → List AccountInfo
  | .byName name =>
    if name = "init_owned_counter" then
      [⟨e.counterOwner, true, false⟩, ⟨addr.counter (.owned e.counterOwner), false, true⟩,
        ⟨Pubkey.default, false, true⟩]
    else if name = "increment" then [⟨addr.counter .shared, false, true⟩]
    else if name = "increment_owned_counter" then
      [⟨e.counterOwner, true, false⟩, ⟨addr.counter (.owned e.counterOwner), false, true⟩]
    else []
  | _ => []

section Calls

variable {addr e} {executor : Pubkey} {h : OpHash} {p : OperationData} {w : World}

theorem getAccounts_known (hknown : KnownCall p.functionSelector) :
    e.getAccounts addr.find p.functionSelector.body =
      .ok (⟨ONEFUNC_ID, false, false⟩ :: listed addr e p.functionSelector) := by
  have hcounter : (asBytes "COUNTER").length ≤ 32 := by decide +kernel
  have hshared : derivePda addr.find [asBytes "COUNTER"] ONEFUNC_ID =
      .ok (addr.counter .shared) := by
    simp [derivePda, require, hcounter, bind, Except.bind, pure, Except.pure, Addresses.counter,
      CounterSeeds.parts]
  have howned : derivePda addr.find [asBytes "COUNTER", e.counterOwner.val] ONEFUNC_ID =
      .ok (addr.counter (.owned e.counterOwner)) := by
    simp [derivePda, require, hcounter, e.counterOwner.property, bind, Except.bind, pure,
      Except.pure, Addresses.counter, CounterSeeds.parts]
  have hname (s t : String) (hne : s ≠ t) : asBytes s ≠ asBytes t :=
    fun heq => hne (asBytes_injective heq)
  generalize p.functionSelector = selector at hknown ⊢
  cases hknown with
  | initOwnedCounter =>
    simp [FunctionSelector.body, OnefuncExtension.getAccounts, listed,
      OnefuncExtension.getAccountsInitCounter, howned, bind, Except.bind, pure, Except.pure]
  | increment =>
    simp [FunctionSelector.body, OnefuncExtension.getAccounts, listed, hname,
      OnefuncExtension.getAccountsIncrement, hshared, bind, Except.bind, pure, Except.pure]
  | toBeFailed =>
    simp [FunctionSelector.body, OnefuncExtension.getAccounts, listed, hname]
  | incrementOwnedCounter =>
    simp [FunctionSelector.body, OnefuncExtension.getAccounts, listed, hname,
      OnefuncExtension.getAccountsIncrementOwned, howned, bind, Except.bind, pure, Except.pure]
  | receivePhotonMsg =>
    have hcode (s : String) (hlen : (asBytes s).length ≠ 4) : [1, 2, 3, 4] ≠ asBytes s :=
      fun heq => hlen (by simp [← heq])
    have h1 := hcode "init_owned_counter" (by decide +kernel)
    have h2 := hcode "increment" (by decide +kernel)
    have h3 := hcode "to_be_failed" (by decide +kernel)
    have h4 := hcode "increment_owned_counter" (by decide +kernel)
    simp [FunctionSelector.body, OnefuncExtension.getAccounts, listed, h1, h2, h3, h4]

/-- The owner is the only account that is not written. -/
theorem writable_of_mem_listed {selector : FunctionSelector} (hknown : KnownCall selector) :
    ∀ a ∈ listed addr e selector, a.isWritable = true ∨ a.key = e.counterOwner := by
  cases hknown <;> simp [listed]

/-! ## What the program is handed -/

/-- What the endpoint passes on. -/
def handed (env : Env) (executor : Pubkey) (h : OpHash) (p : OperationData)
    (rest : List AccountInfo) : List AccountInfo :=
  ⟨executor, true, true⟩ :: ⟨env.pda (.callAuthority p.protocolId), true, false⟩ ::
    ⟨env.pda (.op h.val), false, true⟩ :: rest

theorem loadOpInfo_handed {op : OpInfo} (hstored : w.ledger.ops h.val = some op) :
    loadOpInfo env w.ledger ⟨env.pda (.op h.val), false, true⟩ h.val = .ok op := by
  simp [loadOpInfo, hstored]

/-- The call can be written. -/
theorem callData_known (env : Env) (h : OpHash) (hknown : KnownCall p.functionSelector)
    (hparams : p.params.length < 256 ^ 4) :
    ∃ data, callData env h.val p.functionSelector p.params = .ok data := by
  obtain ⟨params, henc⟩ := Borsh.Codec.exists_encode_bytes.2 hparams
  cases hsel : p.functionSelector with
  | byName name => exact ⟨_, by simp only [callData, photonMsg, henc]; rfl⟩
  | byCode code =>
    rw [hsel] at hknown
    cases hknown
    obtain ⟨hash, hhash⟩ := Borsh.Codec.exists_encode_bytes.2 (show h.val.length < 256 ^ 4 by
      rw [h.property]
      decide)
    have hpayload : photonMsgWithSelector.encode (h.val, [1, 2, 3, 4], p.params) =
        some (hash ++ ([4, 0, 0, 0, 1, 2, 3, 4] ++ params)) :=
      Borsh.Codec.encode_pair.2 ⟨hash, hhash, _,
        Borsh.Codec.encode_pair.2 ⟨_, rfl, params, henc, rfl⟩, rfl⟩
    exact ⟨_, by simp only [callData, hpayload]; rfl⟩
  | dummy =>
    rw [hsel] at hknown
    cases hknown

/-- A known call is read as the instruction it names. -/
theorem decode_known (hm : DistinctMethods env) (hknown : KnownCall p.functionSelector)
    {data : Bytes} (hdata : callData env h.val p.functionSelector p.params = .ok data) :
    Ix.decode env data = .ok (match p.functionSelector with
      | .byName name =>
        if name = "init_owned_counter" then .initOwnedCounter
        else if name = "increment" then .increment p.params
        else if name = "increment_owned_counter" then .incrementOwnedCounter p.params
        else .toBeFailed
      | _ => .receivePhotonMsg h.val [1, 2, 3, 4] p.params) := by
  simp only [DistinctMethods, List.map_cons, List.map_nil, List.nodup_cons, List.mem_cons,
    List.not_mem_nil, or_false, not_or] at hm
  obtain ⟨⟨h01, h02, h03, h04, h05, h06, h07⟩, ⟨h12, h13, h14, h15, h16, h17⟩,
    ⟨h23, h24, h25, h26, h27⟩, ⟨h34, h35, h36, h37⟩, ⟨h45, h46, h47⟩, ⟨h56, h57⟩, h67, -⟩ := hm
  generalize p.functionSelector = selector at hknown hdata ⊢
  cases hknown with
  | receivePhotonMsg =>
    simp only [callData, Except.bind_eq_ok, Except.orFail_eq_ok, Except.pure_eq_ok] at hdata
    obtain ⟨payload, henc, rfl⟩ := hdata
    have hdec := photonMsgWithSelector.decode_encode [] henc
    rw [List.append_nil] at hdec
    simp [Ix.decode, take_sighash, drop_sighash, Ne.symm h07, Ne.symm h17, Ne.symm h27,
      Ne.symm h37, Ne.symm h47, Ne.symm h57, Ne.symm h67, hdec, orFail, bind, Except.bind, pure,
      Except.pure]
  | _ =>
    simp only [callData, Except.bind_eq_ok, Except.orFail_eq_ok, Except.pure_eq_ok] at hdata
    obtain ⟨payload, henc, rfl⟩ := hdata
    have hdec := photonMsg.decode_encode [] henc
    rw [List.append_nil] at hdec
    simp [Ix.decode, take_sighash, drop_sighash, Ne.symm h01, Ne.symm h02, Ne.symm h03,
      Ne.symm h04, Ne.symm h12, Ne.symm h13, Ne.symm h14, Ne.symm h23, Ne.symm h24, Ne.symm h34,
      hdec, decodeParams, orFail, bind, Except.bind, pure, Except.pure]

theorem increment_handed_iff {op : OpInfo} (hstored : w.ledger.ops h.val = some op) :
    (∃ w', increment addr w (handed env executor h p [⟨addr.counter .shared, false, true⟩]) h.val
      p.params = .ok w') ↔ CanRaise env w .shared p := by
  simp only [increment, Increment.tryAccounts, handed, Except.bind_eq_ok, Except.require_eq_ok,
    Except.pure_eq_ok, Counter.raise_eq_ok, loadCounter_eq_ok, loadOpInfo_handed hstored,
    checkSigner, checkMut, CanRaise, Except.ok.injEq, exists_eq_left', exists_const, true_and]
  constructor
  · rintro ⟨_, _, ⟨c, hc, hauth, rfl⟩, item, hitem, _, ⟨hroom, -⟩, -⟩
    exact ⟨c, item, hc, hauth.symm, hitem, hroom⟩
  · rintro ⟨c, item, hc, hauth, hitem, hroom⟩
    exact ⟨_, _, ⟨c, hc, hauth.symm, rfl⟩, item, hitem, _, ⟨hroom, rfl⟩, rfl⟩

theorem incrementOwnedCounter_handed_iff {op : OpInfo}
    (hstored : w.ledger.ops h.val = some op) :
    (∃ w', incrementOwnedCounter addr w (handed env executor h p
      [⟨e.counterOwner, true, false⟩, ⟨addr.counter (.owned e.counterOwner), false, true⟩]) h.val
      p.params = .ok w') ↔ CanRaise env w (.owned e.counterOwner) p := by
  simp only [incrementOwnedCounter, IncrementOwnedCounter.tryAccounts, handed, Except.bind_eq_ok,
    Except.require_eq_ok, Except.pure_eq_ok, Counter.raise_eq_ok, loadCounter_eq_ok,
    loadOpInfo_handed hstored, checkSigner, checkMut, CanRaise, Except.ok.injEq, exists_eq_left',
    exists_const, true_and]
  constructor
  · rintro ⟨_, _, ⟨c, hc, hauth, rfl⟩, item, hitem, _, ⟨hroom, -⟩, -⟩
    exact ⟨c, item, hc, hauth.symm, hitem, hroom⟩
  · rintro ⟨c, item, hc, hauth, hitem, hroom⟩
    exact ⟨_, _, ⟨c, hc, hauth.symm, rfl⟩, item, hitem, _, ⟨hroom, rfl⟩, rfl⟩

theorem initOwnedCounter_handed_iff {op : OpInfo} (hstored : w.ledger.ops h.val = some op) :
    (∃ w', initOwnedCounter addr w (handed env executor h p
      [⟨e.counterOwner, true, false⟩, ⟨addr.counter (.owned e.counterOwner), false, true⟩,
        ⟨Pubkey.default, false, true⟩]) h.val = .ok w') ↔
      w.counters (.owned e.counterOwner) = none := by
  simp only [initOwnedCounter, InitOwnedCounter.tryAccounts, handed, Except.bind_eq_ok,
    Except.require_eq_ok, Except.pure_eq_ok, initCounter_eq_ok, loadOpInfo_handed hstored,
    checkSigner, checkMut, checkSystemProgram, Except.ok.injEq, exists_eq_left', exists_const,
    true_and]
  constructor
  · rintro ⟨_, _, ⟨_, ⟨hnone, -⟩, -⟩, -⟩
    exact hnone
  · intro hnone
    exact ⟨_, _, ⟨_, ⟨hnone, rfl⟩, rfl⟩, rfl⟩

/-- The program does what the operation says exactly if it can. -/
theorem receive_handed_iff (hm : DistinctMethods env) (hknown : KnownCall p.functionSelector)
    {op : OpInfo} (hstored : w.ledger.ops h.val = some op) {data : Bytes}
    (hdata : callData env h.val p.functionSelector p.params = .ok data) :
    (∃ w', receive addr w h.val ⟨ONEFUNC_ID, handed env executor h p
      (listed addr e p.functionSelector), data⟩ = .ok w') ↔ Answers e env w p := by
  have hdec := decode_known hm hknown hdata
  have hrun {ix : Ix} {accounts : List AccountInfo} {r : Except Error World}
      (hix : Ix.decode env data = .ok ix)
      (hdis : dispatch addr reentrant w accounts h.val ix = withoutEffects r) :
      (∃ w', receive addr w h.val ⟨ONEFUNC_ID, accounts, data⟩ = .ok w') ↔ ∃ w', r = .ok w' := by
    simp [receive, hix, hdis]
  unfold Answers
  generalize p.functionSelector = selector at hknown hdec ⊢
  cases hknown with
  | initOwnedCounter => exact (hrun hdec rfl).trans (initOwnedCounter_handed_iff hstored)
  | increment => exact (hrun hdec rfl).trans (increment_handed_iff hstored)
  | incrementOwnedCounter =>
    exact (hrun hdec rfl).trans (incrementOwnedCounter_handed_iff hstored)
  | toBeFailed =>
    refine (hrun hdec rfl).trans (iff_of_false ?_ id)
    simp [toBeFailed]
  | receivePhotonMsg =>
    refine (hrun hdec rfl).trans (iff_of_true ⟨w, ?_⟩ trivial)
    simp [receivePhotonMsg, ReceivePhotonMsg.tryAccounts, handed, checkSigner, checkMut]

/-! ## Through the endpoint -/

/-- The accounts of `execute_operation` as the executor lists them, after the endpoint has put its
own in front and taken the program out. -/
theorem metas_eq_handed {accounts rest : List AccountInfo} {ctx : ExecuteOperation} {l : Ledger}
    (haccounts : accounts =
      [⟨executor, true, true⟩, ⟨env.pda (.op h.val), false, true⟩,
        ⟨env.pda (.protocol p.protocolId), false, false⟩,
        ⟨env.pda (.callAuthority p.protocolId), false, false⟩] ++
          ⟨ONEFUNC_ID, false, false⟩ :: rest)
    (hctx : ExecuteOperation.tryAccounts env l h.val accounts = .ok ctx)
    (hdata : ctx.opInfo.opData = p) (hown : p.protocolAddr = ONEFUNC_ID)
    (hexec : executor ≠ ONEFUNC_ID) (hid : ∀ s, ONEFUNC_ID ≠ env.pda s)
    (hrest : ∀ a ∈ rest, a.key ≠ ONEFUNC_ID) :
    ∃ first, ctx.remaining.head? = some first ∧ first.key = ONEFUNC_ID ∧
      ctx.metas first = handed env executor h p rest := by
  rw [haccounts] at hctx
  simp only [List.cons_append, List.nil_append, ExecuteOperation.tryAccounts, Except.bind_eq_ok,
    Except.pure_eq_ok] at hctx
  obtain ⟨-, -, op, -, protocol, -, -, -, -, -, -, -, -, -, -, -, rfl⟩ := hctx
  simp only at hdata
  subst hdata
  refine ⟨_, rfl, rfl, ?_⟩
  have hpda (s : Seeds) : env.pda s ≠ ONEFUNC_ID := (hid s).symm
  simp only [ExecuteOperation.metas, hown, handed]
  simpa [hexec, hpda] using hrest

/-- An `execute_operation` that the endpoint accepts, for `onefunc`, is committed exactly if
`onefunc` accepts the call. -/
theorem step_execute_iff {i : Photon.Invocation env} {nested : List (NestedCall env)}
    {hw : ∀ a ∈ i.accounts, a.isWritable = true → a.key ≠ ONEFUNC_ID} {ctx : ExecuteOperation}
    {first : AccountInfo} {data : Bytes} (hix : i.ix = .executeOperation h.val)
    (hdepth : i.depth ≠ 0)
    (hctx : ExecuteOperation.tryAccounts env w.ledger h.val i.accounts = .ok ctx)
    (hhead : ctx.remaining.head? = some first) (hfirst : first.key = ONEFUNC_ID)
    (hown : ctx.opInfo.opData.protocolAddr = ONEFUNC_ID)
    (hdata : callData env h.val ctx.opInfo.opData.functionSelector ctx.opInfo.opData.params =
      .ok data) :
    (∃ r, step addr w (.photon i nested hw) = .ok r) ↔
      ∃ w', receive addr w h.val ⟨ONEFUNC_ID, ctx.metas first, data⟩ = .ok w' := by
  obtain ⟨depth, hdepth⟩ := Nat.exists_eq_succ_of_ne_zero hdepth
  have hhash : executedHash i = h.val := by simp [executedHash, hix]
  have hfirst' : (ctx.remaining.head?.filter fun a =>
      decide (a.key = ONEFUNC_ID)) = some first := by
    simp [hhead, hfirst]
  have hne : ONEFUNC_ID ≠ photonId := photonId_ne.symm
  cases hrec : receive addr w h.val ⟨ONEFUNC_ID, ctx.metas first, data⟩ with
  | ok w' =>
    refine iff_of_true ?_ ⟨w', rfl⟩
    simp [step, endpoint, answeredBy, hdepth, process, hix, Photon.dispatch, executeOperation,
      hctx, hfirst', hdata, hown, cpi, hne, hhash, hrec, orFail, require, bind, Except.bind, pure,
      Except.pure, Except.mapError, Except.isOk, Except.toBool, List.foldlM_cons, serve]
  | error err =>
    refine iff_of_false ?_ (by simp)
    simp [step, endpoint, answeredBy, hdepth, process, hix, Photon.dispatch, executeOperation,
      hctx, hfirst', hdata, hown, cpi, hne, hhash, hrec, orFail, require, bind, Except.bind,
      Except.mapError, Except.isOk, Except.toBool]

theorem drop_of_tryFrom {b : Bytes} {selector : FunctionSelector}
    (hok : FunctionSelector.tryFrom b = .ok selector) : b.drop 2 = selector.body := by
  unfold FunctionSelector.tryFrom at hok
  split at hok
  · simp at hok
  · rename_i t rest
    split_ifs at hok with h0 h1
    · cases rest with
      | nil => simp at hok
      | cons len code =>
        obtain rfl := Except.ok.inj hok
        rfl
    · cases rest with
      | nil => simp at hok
      | cons len name =>
        simp only at hok
        split at hok
        · rename_i s hs
          obtain rfl := Except.ok.inj hok
          exact (fromUtf8_eq_some.1 hs).symm
        · simp at hok

end Calls

/-- For every call that the extension of `onefunc` knows, the executor builds an
`execute_operation`. Where the endpoint reads its accounts and has the operation stored, it is
committed exactly if `onefunc` can do what the operation says. -/
theorem onefunc_calls_answered (addr : Addresses env) (e : OnefuncExtension) (executor : Pubkey)
    (h : OpHash) (mng : ExtensionManager) (d : MessageData) (p : OperationData)
    (hm : DistinctMethods env) (hconv : d.tryFrom = .ok p) (hown : p.protocolAddr = ONEFUNC_ID)
    (hknown : KnownCall p.functionSelector) (hparams : p.params.length < 256 ^ 4)
    (hext : mng.getExtension d.protocolId = some (e.extension addr.find))
    (howner : e.counterOwner ≠ ONEFUNC_ID) :
    ∃ bundle, buildExecuteTx env executor h.val mng d = .ok bundle ∧
      ∀ (i : Photon.Invocation env) (nested : List (NestedCall env))
        (hw : ∀ a ∈ i.accounts, a.isWritable = true → a.key ≠ ONEFUNC_ID) (w : World)
        (ctx : ExecuteOperation),
        i.ix = .executeOperation h.val → i.depth ≠ 0 →
        i.accounts = bundle.instruction.accounts →
        ExecuteOperation.tryAccounts env w.ledger h.val i.accounts = .ok ctx →
        ctx.opInfo.opData = p →
        ((∃ r, step addr w (.photon i nested hw) = .ok r) ↔ Answers e env w p) := by
  simp only [MessageData.tryFrom, Except.bind_eq_ok, Except.orFail_eq_ok,
    Except.pure_eq_ok] at hconv
  obtain ⟨_, -, selector, hselector, hp⟩ := hconv
  have hid : d.protocolId.val = p.protocolId := by rw [← hp]
  obtain rfl : selector = p.functionSelector := by rw [← hp]
  have hdrop : d.functionSelector.drop 2 = p.functionSelector.body := drop_of_tryFrom hselector
  have hlen : 3 ≤ d.functionSelector.length := by
    have hbody : 0 < p.functionSelector.body.length := by
      generalize p.functionSelector = selector at hknown ⊢
      cases hknown <;> decide +kernel
    rw [← hdrop, List.length_drop] at hbody
    omega
  obtain ⟨bundle, hbuild, hlist⟩ := buildExecuteTx_ok env executor h hext hlen
    (by rw [hdrop]; exact getAccounts_known hknown)
  refine ⟨bundle, hbuild, fun i nested hw w ctx hix hdepth hi hctx hdata => ?_⟩
  rw [hlist, hid] at hi
  have hkeys (a : AccountInfo) (ha : a ∈ listed addr e p.functionSelector) :
      a.key ≠ ONEFUNC_ID := by
    rcases writable_of_mem_listed hknown a ha with hmut | hkey
    · exact hw a (by rw [hi]; simp [ha]) hmut
    · rw [hkey]
      exact howner
  have hexec : executor ≠ ONEFUNC_ID := hw ⟨executor, true, true⟩ (by simp [hi]) rfl
  rw [hi] at hctx
  obtain ⟨first, hhead, hfirst, hmetas⟩ :=
    metas_eq_handed rfl hctx hdata hown hexec addr.id_ne hkeys
  obtain ⟨data, hcall⟩ := callData_known env h hknown hparams
  rw [← hi] at hctx
  have hstored := (ExecuteOperation.of_tryAccounts hctx).1.1
  rw [step_execute_iff hix hdepth hctx hhead hfirst (by rw [hdata]; exact hown)
    (by rw [hdata]; exact hcall), hmetas]
  exact receive_handed_iff hm hknown hstored hcall

/-! ## A deployment -/

section Deployed

open Localnet Deployment

theorem tagOf_raiseShared :
    tagOf (pubkey58 "7NNvraR92VzSAcK8tA4Zkp6GAVdmcm12vd42SCzFAbyC") = some (asBytes "OP") := by
  decide +kernel

/-- An operation that raises the shared counter by five. -/
def raiseShared : SignedOp where
  op := { Localnet.op with
    protocolId := onefuncId
    nonce := 396
    protocolAddr := ONEFUNC_ID
    functionSelector := .byName "increment"
    params := beBytes 32 5 }
  digest := word 0x4708ea56b0222934974cbb046c8e3113d74fb24a8a8e055740437cf5269e8362
  hash := word 0x24b6e5a49e1e81b228b9af2ebe97a0690eac542baa0dfdf496f41a4d93437f92
  signature :=
    { v := 27
      r := beBytes 32 0x83fc6cc2492fa8838ba8ec2396a28682ccba5d13a8aefc3098c57f88cbf59075
      s := beBytes 32 0x48710762d3c0c94be4073ec2e8e128eee346e36c36bd646865b6be3e2fff6469 }
  decoded
    | [.uint 256] => some [.uint 5]
    | _ => none
  address := pubkey58 "7NNvraR92VzSAcK8tA4Zkp6GAVdmcm12vd42SCzFAbyC"
  tagOf_address := tagOf_raiseShared

def onefuncSha256 (b : Bytes) : Bytes32 :=
  if b = asBytes "global:init_owned_counter" then
    word 0xd542f979277755ab034e4aafcc127933c00104b857257a092d9af1a3e639c3e7
  else if b = asBytes "global:increment" then
    word 0x0b12680968ae3b21db510aa6f144cae249fe390ab2755c0d331e0950898f488a
  else if b = asBytes "global:to_be_failed" then
    word 0x0dc84ebcbb11fd3e0f947cbcfc2bf97ff8b30e19854e749278fe3e1e5dde2634
  else if b = asBytes "global:increment_owned_counter" then
    word 0x8a7147a5dee2291b1dd4606f8d8a7d49c938171797aa6804225465ad80992e94
  else if b = asBytes "global:propose_to_other_chain" then
    word 0x2d938f8545d41090e83ed8194058e8113d402eae007885cda4379ca8f03b722e
  else if b = asBytes "global:propose_to_other_chain_big_selector" then
    word 0x62e7608588218f8943a7b26c86905bfc183153d5f3c9be0bac18369b58e3fe0c
  else Localnet.sha256 b

/-- The call authority of `onefunc`. -/
def onefuncAuthority : Pubkey :=
  pubkey58 "6zcBzToC5a87eN9dB9BSyjnLMf8ig7wNdvrEKqMq7WLp"

def onefuncFind (seeds : List Bytes) : Pubkey :=
  if seeds = (Seeds.callAuthority onefuncId).parts then onefuncAuthority
  else Deployment.findProgramAddress [raiseShared] seeds

def onefuncTagOf (k : Pubkey) : Option Bytes :=
  if k = onefuncAuthority then some (asBytes "CALL_AUTHORITY") else tagOf k

def onefuncProposer : Pubkey :=
  pubkey58 "H2t6aTWfwwANqYNea3WCnNynzbRknpxCHZTDB6L1YweB"

/-- None of these is an address of the endpoint, though the proposer's begins like that of the
configuration. -/
theorem onefuncTags : tagOf onefuncAuthority = none ∧ onefuncTagOf photonId = none ∧
    onefuncTagOf ONEFUNC_ID = none ∧ onefuncTagOf wallet.key = none ∧
      onefuncTagOf onefuncProposer = some (asBytes "CONFIG") := by
  decide +kernel

theorem onefuncTagOf_derived (s : Seeds) : onefuncTagOf (onefuncFind s.parts) = some s.tag := by
  unfold onefuncFind
  split_ifs with hparts
  · cases s with
    | callAuthority id => simp [onefuncTagOf, Seeds.tag]
    | config => simp [Seeds.parts] at hparts
    | protocol id | op id =>
      simp only [Seeds.parts, List.cons.injEq, true_and] at hparts
      rw [onefuncTagOf, if_pos rfl]
      exact congrArg some hparts.1.symm
  · have htag := tagOf_derived [raiseShared] s
    have hne : Deployment.findProgramAddress [raiseShared] s.parts ≠ onefuncAuthority := by
      intro heq
      rw [heq, onefuncTags.1] at htag
      simp at htag
    rw [onefuncTagOf, if_neg hne, htag]

/-- The environment. -/
def onefuncDeployed : Env :=
  { deployed [raiseShared] with
    sha256 := onefuncSha256
    findProgramAddress := onefuncFind
    tag_of_address s t h := by
      have hst := congrArg onefuncTagOf h
      rw [onefuncTagOf_derived, onefuncTagOf_derived] at hst
      exact Option.some_inj.1 hst
    address_ne_id s h := by
      have hid := onefuncTags.2.1
      rw [← h, onefuncTagOf_derived] at hid
      simp at hid }

theorem distinctMethods_onefuncDeployed : DistinctMethods onefuncDeployed := by
  unfold DistinctMethods
  decide +kernel

theorem onefuncProposer_ne (s : Seeds) : onefuncProposer ≠ onefuncDeployed.pda s := by
  intro h
  have htag : onefuncTagOf (onefuncFind s.parts) = some s.tag := onefuncTagOf_derived s
  rw [show onefuncFind s.parts = onefuncProposer from h.symm, onefuncTags.2.2.2.2,
    Option.some_inj] at htag
  cases s with
  | config =>
    have hne : onefuncProposer ≠ onefuncDeployed.pda .config := by decide +kernel
    exact hne h
  | protocol id | op id | callAuthority id => simp [Seeds.tag, asBytes_injective.eq_iff] at htag

theorem onefuncId_ne (s : Seeds) : ONEFUNC_ID ≠ onefuncDeployed.pda s := by
  intro h
  have htag : onefuncTagOf (onefuncFind s.parts) = some s.tag := onefuncTagOf_derived s
  rw [show onefuncFind s.parts = ONEFUNC_ID from h.symm, onefuncTags.2.2.1] at htag
  simp at htag

/-- The addresses of the proposer and of the shared counter. -/
def onefuncAddresses : Addresses onefuncDeployed where
  find seeds _ :=
    if seeds = [ROOT, asBytes "PROPOSER"] then onefuncProposer
    else pubkey58 "DUZykc2VkkSXSSxae1PpCMTRWrhrSpJY5gyu5ZQZuRHp"
  proposer_ne := by simpa using onefuncProposer_ne
  id_ne := onefuncId_ne

/-- The operation is signed, and the counter holds three. -/
def raising : World where
  ledger :=
    { Ledger.genesis with
      protocols := fun _ => some { ProtocolInfo.default with
        executorsArray := Fixed.replicate 20 wallet.key }
      ops := fun _ => some { OpInfo.default with status := .signed, opData := raiseShared.op } }
  counters
    | .shared => some ⟨onefuncAuthority, 3⟩
    | .owned _ => none

theorem length_onefuncProtocol : onefuncId.length = 32 := by
  rfl

/-- The operation, as the transmitters hold it. -/
def raiseMessage : MessageData where
  protocolId := ⟨onefuncId, length_onefuncProtocol⟩
  opMeta := raiseShared.op.opMeta
  srcChainId := raiseShared.op.srcChainId
  srcBlockNumber := raiseShared.op.srcBlockNumber
  srcOpTxId := raiseShared.op.srcOpTxId
  nonce := 396
  destChainId := raiseShared.op.destChainId
  protocolAddr := ONEFUNC_ID.val
  functionSelector := [1, 9] ++ asBytes "increment"
  params := beBytes 32 5
  reserved := raiseShared.op.reserved

/-- The extension with a wallet as the owner of a counter. -/
def walletExtension : OnefuncExtension :=
  ⟨wallet.key⟩

def raiseExtensions : ExtensionManager :=
  ⟨fun _ => some (walletExtension.extension onefuncAddresses.find)⟩

/-- The accounts that the executor lists. -/
def raiseAccounts : List AccountInfo :=
  [wallet, ⟨onefuncDeployed.pda (.op raiseShared.hash.val), false, true⟩,
    ⟨onefuncDeployed.pda (.protocol onefuncId), false, false⟩,
    ⟨onefuncDeployed.pda (.callAuthority onefuncId), false, false⟩, ⟨ONEFUNC_ID, false, false⟩,
    ⟨onefuncAddresses.counter .shared, false, true⟩]

theorem raiseAccounts_handed : ∀ a ∈ raiseAccounts, (a.isSigner = true → a = wallet) ∧
    (a.isWritable = true → a.key ≠ photonId ∧ a.key ≠ ONEFUNC_ID) := by
  decide +kernel

theorem raiseAccounts_signers (a : AccountInfo) (ha : a ∈ raiseAccounts)
    (hsig : a.isSigner = true) (s : Seeds) : a.key ≠ onefuncDeployed.pda s := by
  rw [(raiseAccounts_handed a ha).1 hsig]
  intro h
  have htag : onefuncTagOf (onefuncFind s.parts) = some s.tag := onefuncTagOf_derived s
  rw [show onefuncFind s.parts = wallet.key from h.symm, onefuncTags.2.2.2.1] at htag
  simp at htag

/-- The executor's call. -/
def raiseCall : Photon.Invocation onefuncDeployed where
  ix := .executeOperation raiseShared.hash.val
  accounts := raiseAccounts
  depth := 4
  answer _ := true
  derived_not_signer := raiseAccounts_signers
  program_not_writable a ha hw := ((raiseAccounts_handed a ha).2 hw).1

/-- The executor's call is committed. -/
theorem onefunc_calls_answered_raise :
    ∃ r, step onefuncAddresses raising (.photon raiseCall [] fun a ha hw =>
      ((raiseAccounts_handed a ha).2 hw).2) = .ok r := by
  have hconv : raiseMessage.tryFrom = .ok raiseShared.op := by rfl
  have hown : raiseShared.op.protocolAddr = ONEFUNC_ID := rfl
  have hknown : KnownCall raiseShared.op.functionSelector := .increment
  have hparams : raiseShared.op.params.length < 256 ^ 4 := by decide +kernel
  have hext : raiseExtensions.getExtension raiseMessage.protocolId =
      some (walletExtension.extension onefuncAddresses.find) := rfl
  have howner : walletExtension.counterOwner ≠ ONEFUNC_ID := by decide +kernel
  obtain ⟨bundle, hbuild, hagree⟩ := onefunc_calls_answered onefuncAddresses walletExtension
    wallet.key raiseShared.hash raiseExtensions raiseMessage raiseShared.op
    distinctMethods_onefuncDeployed hconv hown hknown hparams hext howner
  have hlist : (buildExecuteTx onefuncDeployed wallet.key raiseShared.hash.val raiseExtensions
      raiseMessage).toOption.map (·.instruction.accounts) = some raiseAccounts := by
    decide +kernel
  have hread : (ExecuteOperation.tryAccounts onefuncDeployed raising.ledger raiseShared.hash.val
      raiseAccounts).toOption.map (·.opInfo.opData) = some raiseShared.op := by
    decide +kernel
  rw [hbuild] at hlist
  obtain ⟨ctx, hctx, hstored⟩ := Option.map_eq_some_iff.1 hread
  rw [Except.toOption_eq_some] at hctx
  refine (hagree raiseCall [] _ raising ctx rfl (by decide) (Option.some_inj.1 hlist).symm hctx
    hstored).2 ?_
  exact ⟨_, 5, rfl, by decide +kernel, by decide +kernel, by decide +kernel⟩

end Deployed

end Onefunc

end Photon
