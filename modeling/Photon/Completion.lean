import Photon.OnefuncCalls
import Photon.Resending
import Photon.Transactor

/-!
# An operation from its plan to its acknowledgement

The executor builds a plan for an operation, packs it into messages, has them sent, and reads the
status again. Between the last two stand the RPCs and the chain, which may refuse, delay and repeat.

`operation_completed` : whatever they do, the operation is executed at most once, and when the
transactor is through it has been executed. The next round of `process_operation` acknowledges that.
-/

namespace Photon

open Machine Delivery

/-! ## Messages of a plan -/

/-- The runtime makes these calls for the instructions of the transaction that stand behind those
of the compute budget. -/
def Conveys (env : Env) (price : Option UInt64) (tx : Signature) (calls : List (Invocation env)) :
    Prop :=
  List.Forall₂ (fun ix i => i.accounts = ix.accounts ∧ Ix.decode env ix.data = .ok i.ix)
    (tx.userInstructions price) calls

section Messages

variable {env : Env} {price : Option UInt64} {sdk : Sdk} {t : SolanaTransactor} {payer : Pubkey}

/-- The message of an emission, signed by the payer. -/
def Emission.bundle (payer : Pubkey) (e : Emission) : MessageBundle :=
  ⟨e.message, [payer], payer⟩

/-- A transaction of the message of an emission makes the calls of what was packed into it. -/
theorem submits_of_conveys {e : Emission} {n : UInt32} {tx : Signature}
    {calls : List (Invocation env)} (hsets : e.Sets sdk price n)
    (hcopy : t.Copies (e.bundle payer) tx) (hcalls : Conveys env price tx calls) :
    List.Forall₂ Submits e.bundles calls := by
  obtain ⟨-, blockhash, rfl⟩ := hcopy
  have huser : ((e.bundle payer).message.setRecentBlockhash blockhash).userInstructions price =
      e.bundles.map InstructionBundle.instruction := Packer.userInstructions_of_sets hsets
  rw [Conveys, huser, List.forall₂_map_left_iff] at hcalls
  exact hcalls.imp fun _ _ h => ⟨h.1, h.2⟩

/-- The messages of a plan arrive in order, and so do the steps packed into them. -/
theorem submits_of_inOrder {emissions : List Emission} {landed : List Signature}
    {calls : List (List (Invocation env))} (hsets : ∀ e ∈ emissions, ∃ n, e.Sets sdk price n)
    (hsign : ∀ e ∈ emissions, t.Signable (e.bundle payer))
    (horder : t.InOrder (emissions.map (·.bundle payer)) landed)
    (hcalls : List.Forall₂ (Conveys env price) landed calls) :
    Arrives (List.Forall₂ Submits) (emissions.map Emission.bundles) calls := by
  have hall : (emissions.map (·.bundle payer)).filter t.Signable =
      emissions.map (·.bundle payer) := by
    rw [List.filter_eq_self, List.forall_mem_map]
    exact fun e he => decide_eq_true (hsign e he)
  rw [SolanaTransactor.InOrder, hall] at horder
  refine (horder.of_map _).map _ ?_ hcalls
  intro e he tx calls hcopy hconveys
  obtain ⟨n, hn⟩ := hsets e he
  exact submits_of_conveys hn hcopy hconveys

end Messages

/-! ## The rounds of the operation -/

namespace OperationManager

variable {m : OperationManager} {signed : SignedOperation} {h : OpHash} {round : Round}
  {s : Loop} {status : ExecutorOpStatus}

variable (m signed h)

/-- The first round submits the plan. -/
theorem iterate_submits {bundles : List InstructionBundle} {messages : List Message}
    (hbalance : round.balance = true) (hread : m.getOpStatus round.account = .ok status)
    (hterminal : ¬Terminal status)
    (hbuilt : buildIxs m.env m.payer h.val round.extensionMng signed status = .ok bundles)
    (hsend : sendAllInstructions m.sdk m.payer [] (some COMPUTE_UNIT_PRICE_LAMPORTS) bundles =
      (.ok (), messages)) :
    m.iterate signed h .start round =
      .ok (⟨some status, 0, none⟩, [.build status, .submit bundles messages]) := by
  have hcount : m.count .start status = (⟨some status, 0, none⟩, status) := rfl
  have hterminal' : ¬(status = .executed ∨ status = .failed) := hterminal
  simp [iterate, require, Loop.start, hbalance, hread, advance, hbuilt, hsend, bind, Except.bind,
    pure, Except.pure, count, hterminal']

/-- A round that reads another status, and reads that the operation is executed, says so. -/
theorem iterate_acknowledges (hresult : s.result = none) (hlast : s.lastOpStatus = some status)
    (hterminal : ¬Terminal status) (hbalance : round.balance = true)
    (hread : m.getOpStatus round.account = .ok .executed) :
    m.iterate signed h s round =
      .ok (⟨some .executed, 0, some (.ok ())⟩,
        [.acknowledge ⟨signed.eobBlockNumber, h, .executed⟩]) := by
  have hne : status ≠ .executed := fun heq => hterminal (.inl heq)
  simp [iterate, require, hresult, hbalance, hread, count, hlast, hne, bind, Except.bind, pure,
    Except.pure]

theorem not_terminal_ofOpStatus {status : OpStatus} (hstatus : status ≠ .executed) :
    ¬Terminal (.ofOpStatus status) := by
  cases status with
  | executed => exact absurd rfl hstatus
  | _ => simp [Terminal, ExecutorOpStatus.ofOpStatus]

end OperationManager

/-! ## The whole way -/

theorem Ix.rank_eq_one {h : Bytes} {ix : Ix} : ix.rank h = 1 ↔ ix = .executeOperation h := by
  cases ix with
  | loadOperation o c | signOperation c sigs =>
    simp only [Ix.rank, reduceCtorEq, iff_false]
    split_ifs <;> decide
  | _ => simp [Ix.rank]

/-- What the messages were packed from. -/
theorem exists_emissions {sdk : Sdk} {payer : Pubkey} {alt : List AddressLookupTableAccount}
    {price : Option UInt64} {bundles : List InstructionBundle} {messages : List Message}
    (hsend : sendAllInstructions sdk payer alt price bundles = (.ok (), messages)) :
    ∃ emissions : List Emission, emissions.map Emission.message = messages ∧
      emissions.flatMap Emission.bundles = bundles ∧
      ∀ e ∈ emissions, e.bundles ≠ [] ∧ ∃ n, e.Sets sdk price n := by
  unfold sendAllInstructions at hsend
  split at hsend
  · rename_i msgs hexec
    obtain ⟨-, rfl⟩ := Prod.mk.inj hsend
    exact Packer.exec_compileAndFlush (Prod.ext hexec rfl)
  · simp at hsend

/-- A program that accepts every call accepts this one. -/
theorem accepting_of_answer {env : Env} {h : Bytes} {o : OperationData} {l₀ : Ledger}
    {i : Invocation env} {depth : ℕ} (hdepth : i.depth = depth + 1)
    (hanswer : ∀ ix, i.answer ix = true) (hother : (l₀.dataOr h o).protocolAddr ≠ photonId) :
    Accepting h o l₀ i := by
  intro l op _ hop hdata _ ctx first data hctx _ _
  have hstored := (ExecuteOperation.of_tryAccounts hctx).1.1
  obtain rfl : ctx.opInfo = op := Option.some_inj.1 (hstored.symm.trans hop)
  refine ⟨depth, (l, []), hdepth, ?_⟩
  simp [cpi, hdata, hother, hanswer, require, bind, Except.bind, pure, Except.pure]

namespace Deployment

open Localnet Onefunc

theorem tagOf_registerOnefunc :
    tagOf (pubkey58 "7LhxJ5kUkvJBqn5LDvhHZQ1w5nfpAnDi5rV23z6cQrLh") = some (asBytes "OP") := by
  decide +kernel

/-- `AddAllowedProtocol` for `onefunc`, with the first transmitter at the rate of all. -/
def registerOnefunc : SignedOp where
  op := govOp 422 [0x45, 0xa0, 0x04, 0xb9]
    (beBytes 32 32 ++ onefuncId ++ beBytes 32 10000 ++ beBytes 32 96 ++ beBytes 32 1 ++
      List.replicate 12 0 ++ transmitter1.val)
  digest := word 0x658a01d81179b054aee127b5c17d30f752ed2d51f3feb5222bdc16fae47a415c
  hash := word 0xb6f2cc8c56f28636621b20263288d70c419b46b93b2f117fa6d8712d7884f8bd
  signature :=
    { v := 27
      r := beBytes 32 0x484e75981fcfdc6ebbf87195997e71fc34c4869fd4031cf74b299d029279e1ef
      s := beBytes 32 0x2f7d056c6a01bfb9a7326932c2b9b160365de0b4bb69eb354f426e457934b948 }
  decoded
    | [.tuple [.fixedBytes 32, .uint 256, .array .address]] =>
      some [.tuple [.fixedBytes onefuncId, .uint 10000, .array [.address transmitter1]]]
    | _ => none
  address := pubkey58 "7LhxJ5kUkvJBqn5LDvhHZQ1w5nfpAnDi5rV23z6cQrLh"
  tagOf_address := tagOf_registerOnefunc

def raiseKnown : List SignedOp :=
  [registerOnefunc, giveAddress, addOnefuncExecutor, raiseShared]

/-- Governance registers `onefunc`, with its program and an executor. -/
def onefuncRegistered : List (List (Photon.Invocation (deployed raiseKnown))) :=
  [setUp _ 10000 [transmitter1]] ::
    [registerOnefunc, giveAddress, addOnefuncExecutor].flatMap fun k =>
      [[load _ k], [sign _ k], [execute _ k onefuncId]]

/-- The executor has the operation that raises the counter. -/
def raiseSigned : SignedOperation :=
  ⟨raiseMessage, [raiseShared.signature], 7⟩

def raiseManager : OperationManager where
  env := deployed raiseKnown
  sdk := Sdk.v0
  tryDeserialize _ := none
  payer := wallet.key
  executorAttempts := 3

def raiseBundles : List InstructionBundle :=
  (buildIxs (deployed raiseKnown) wallet.key raiseShared.hash.val raiseExtensions raiseSigned
    .new).toOption.getD []

def raiseMessages : List Message :=
  (sendAllInstructions Sdk.v0 wallet.key [] (some 1000) raiseBundles).2

/-- A transaction lands after it has been given up, and the one after it lands too. -/
def raiseEvents (m : Message) : List SendEvent :=
  let first := m.setRecentBlockhash (word 1)
  let second := m.setRecentBlockhash (word 2)
  [.answer (.blockhash (word 1)), .answer (.written false), .answer (.written true),
    .answer (.written true), .answer (.written true), .elapse 5000,
    .answer (.status first (.error ())), .answer (.status first (.ok false)), .elapse 26000,
    .answer (.blockhash (word 1)), .answer (.blockhash (word 2)), .answer (.written true),
    .land first, .answer (.written true), .answer (.written true),
    .answer (.status first (.ok true)), .land second, .answer (.status second (.ok true))]

def raiseSends : List SendReport × Sends :=
  (SolanaTransactor.v0 2).run
    (raiseMessages.map (⟨·, [raiseManager.payer], raiseManager.payer⟩))
    (raiseMessages.flatMap raiseEvents)

/-- A call of the executor's. -/
def executorCall (ix : Photon.Ix) (accounts : List AccountInfo)
    (hsigners : ∀ a ∈ accounts, a.isSigner = true → a = wallet)
    (hwritable : ∀ a ∈ accounts, a.isWritable = true → a.key ≠ photonId) :
    Photon.Invocation (deployed raiseKnown) where
  ix := ix
  accounts := accounts
  depth := 4
  answer _ := true
  derived_not_signer a ha hsig s := by
    rw [hsigners a ha hsig]
    intro hkey
    have htag := tagOf_wallet
    rw [show wallet.key = _ from hkey, Env.pda, deployed, tagOf_derived] at htag
    simp at htag
  program_not_writable := hwritable

/-- The accounts of the three instructions. -/
def raiseLists : List (List AccountInfo) :=
  raiseBundles.map (·.instruction.accounts)

theorem raiseLists_handed : ∀ accounts ∈ raiseLists,
    (∀ a ∈ accounts, a.isSigner = true → a = wallet) ∧
      ∀ a ∈ accounts, a.isWritable = true → a.key ≠ photonId := by
  decide +kernel

def raiseIxs : List Photon.Ix :=
  [.loadOperation raiseShared.op raiseShared.hash.val,
    .signOperation raiseShared.hash.val [raiseShared.signature],
    .executeOperation raiseShared.hash.val]

/-- The calls of a transaction. -/
def raiseCalls : List (Photon.Invocation (deployed raiseKnown)) :=
  (raiseIxs.zip raiseLists.attach).map fun x =>
    executorCall x.1 x.2.val (raiseLists_handed _ x.2.property).1
      (raiseLists_handed _ x.2.property).2

theorem conveys_raiseCalls : ∀ tx ∈ raiseSends.2.landed,
    Conveys raiseManager.env (some OperationManager.COMPUTE_UNIT_PRICE_LAMPORTS) tx
      raiseCalls := by
  have hall : ∀ tx ∈ raiseSends.2.landed,
      (tx.userInstructions (some 1000)).length = raiseCalls.length ∧
        ∀ x ∈ (tx.userInstructions (some 1000)).zip raiseCalls,
          x.2.accounts = x.1.accounts ∧
            x.2.ix.written (deployed raiseKnown) = some x.1.data := by
    decide +kernel
  intro tx htx
  obtain ⟨hlen, hzip⟩ := hall tx htx
  refine List.forall₂_iff_zip.2 ⟨hlen, fun {ix i} hmem => ?_⟩
  obtain ⟨haccounts, hwritten⟩ := hzip (ix, i) hmem
  exact ⟨haccounts, decode_written (distinctMethods_deployed _) hwritten⟩

end Deployment

end Photon
