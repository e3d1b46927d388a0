import Photon.Delivery
import Photon.Plan

/-!
# Plans that arrive more than once

A message of the executor may reach the chain again after it was taken, under another blockhash.
None of the instructions of a plan does anything the second time : the operation is loaded once,
an approved operation takes no more signatures, and it is executed once (`spent`). So a plan that is
packed into messages in any way, and whose messages first arrive in order, goes on as if each had
arrived once (`Plan.resent`).
-/

namespace Photon

open Machine Delivery

variable {env : Env} {l l' : Ledger} {i : Invocation env} {out : List Effect} {h : OpHash}
  {executor : Pubkey}

/-! ## The steps of a plan -/

/-- How many steps of a plan are left before this one, with it. -/
def Ix.rank (h : Bytes) : Ix → ℕ
  | .loadOperation _ h' => if h' = h then 3 else 0
  | .signOperation h' _ => if h' = h then 2 else 0
  | .executeOperation h' => if h' = h then 1 else 0
  | _ => 0

/-- The bundle is the step of the plan that is made when `n` are left. -/
inductive Role (env : Env) (executor : Pubkey) (h : OpHash) (mng : ExtensionManager)
    (signed : SignedOperation) : InstructionBundle → ℕ → Prop
  | load {b units} : buildLoadIx env executor h.val signed.operationData = .ok b →
      Role env executor h mng signed ⟨b, units⟩ 3
  | sign {b} : buildSignTx env executor h.val signed = .ok b → Role env executor h mng signed b 2
  | execute {b} : buildExecuteTx env executor h.val mng signed.operationData = .ok b →
      Role env executor h mng signed b 1

variable {mng : ExtensionManager} {signed : SignedOperation} {b : InstructionBundle}
  {bundles : List InstructionBundle} {n : ℕ}

theorem Role.rank (hm : env.DistinctMethods) (role : Role env executor h mng signed b n)
    (submits : Submits b i) : i.ix.rank h.val = n := by
  have hix := submits.ix
  cases role with
  | load hbuild =>
    simp only [buildLoadIx, Except.bind_eq_ok, Except.orFail_eq_ok, Except.pure_eq_ok] at hbuild
    obtain ⟨_, -, _, -, args, hargs, rfl⟩ := hbuild
    rw [decode_loadOperation hm hargs, Except.ok.injEq] at hix
    simp [← hix, Ix.rank]
  | sign hbuild =>
    simp only [buildSignTx, Except.bind_eq_ok, Except.orFail_eq_ok, Except.pure_eq_ok] at hbuild
    obtain ⟨args, hargs, rfl⟩ := hbuild
    rw [decode_signOperation hm hargs, Except.ok.injEq] at hix
    simp [← hix, Ix.rank]
  | execute hbuild =>
    simp only [buildExecuteTx, Except.bind_eq_ok, Except.orFail_eq_ok, Except.pure_eq_ok] at hbuild
    obtain ⟨_, -, -, -, _, -, args, hargs, rfl⟩ := hbuild
    rw [decode_executeOperation hm hargs, Except.ok.injEq] at hix
    simp [← hix, Ix.rank]

/-- The steps of a plan, the last one last. -/
def Roles (env : Env) (executor : Pubkey) (h : OpHash) (mng : ExtensionManager)
    (signed : SignedOperation) : List InstructionBundle → Prop
  | [] => True
  | b :: bundles => Role env executor h mng signed b (bundles.length + 1) ∧
      Roles env executor h mng signed bundles

/-- What is built are the steps that are left. -/
theorem roles_of_built {status : ExecutorOpStatus}
    (hbuilt : buildIxs env executor h.val mng signed status = .ok bundles) :
    Roles env executor h mng signed bundles ∧ (status = .new ∧ bundles.length = 3 ∨
      status = .loaded ∧ bundles.length = 2 ∨ status = .signed ∧ bundles.length = 1) := by
  cases status with
  | new =>
    simp only [buildIxs, Except.bind_eq_ok, Except.pure_eq_ok] at hbuilt
    obtain ⟨load, hload, sign, hsign, execute, hexecute, rfl⟩ := hbuilt
    exact ⟨⟨.load hload, .sign hsign, .execute hexecute, trivial⟩, .inl ⟨rfl, rfl⟩⟩
  | loaded =>
    simp only [buildIxs, Except.bind_eq_ok, Except.pure_eq_ok] at hbuilt
    obtain ⟨sign, hsign, execute, hexecute, rfl⟩ := hbuilt
    exact ⟨⟨.sign hsign, .execute hexecute, trivial⟩, .inr (.inl ⟨rfl, rfl⟩)⟩
  | signed =>
    simp only [buildIxs, Except.bind_eq_ok, Except.pure_eq_ok] at hbuilt
    obtain ⟨execute, hexecute, rfl⟩ := hbuilt
    exact ⟨⟨.execute hexecute, trivial⟩, .inr (.inr ⟨rfl, rfl⟩)⟩
  | executed | failed => simp [buildIxs] at hbuilt

/-! ## Stages -/

/-- The ledgers differ in the account of the operation only. -/
structure SameBut (h : Bytes) (l l' : Ledger) : Prop where
  config : l'.config = l.config
  protocols : l'.protocols = l.protocols
  ops : ∀ h', h' ≠ h → l'.ops h' = l.ops h'

theorem SameBut.setOp {h : Bytes} {l₀ l : Ledger} (hsame : SameBut h l₀ l) (op : OpInfo) :
    SameBut h l₀ (l.setOp h op) :=
  ⟨hsame.config, hsame.protocols, fun h' hne => by simp [Ledger.ops_setOp, hne, hsame.ops h' hne]⟩

/-- The signers of a stored operation reach the rate of its protocol. -/
def OpInfo.Reached (p : ProtocolInfo) (op : OpInfo) : Prop :=
  p.consensusTargetRate.toNat ≤ consensusRate op.signers.length p.transmitters.length

/-- What is stored under `h`, or `o` if it is still to be loaded. -/
def Ledger.dataOr (l : Ledger) (h : Bytes) (o : OperationData) : OperationData :=
  ((l.ops h).map OpInfo.opData).getD o

/-- The operation `op` is all that has changed since `l₀`, and it is ready for the rest of its
plan. -/
structure Under (h : OpHash) (o : OperationData) (p : ProtocolInfo) (l₀ l : Ledger) (op : OpInfo) :
    Prop where
  same : SameBut h.val l₀ l
  ready : Ready h l o p op
  data : op.opData = l₀.dataOr h.val o

/-- The ledger with `n` steps left of a plan of `k` steps that was made in `l₀`. -/
def Stage (h : OpHash) (o : OperationData) (p : ProtocolInfo) (l₀ : Ledger) (k : ℕ) :
    ℕ → Ledger → Prop
  | 0, l => l.status h.val = .executed
  | 1, l => ∃ op, Under h o p l₀ l op ∧ op.status = .signed ∧ (2 ≤ k → op.Reached p)
  | 2, l => ∃ op, Under h o p l₀ l op ∧ op.status = .init
  | 3, l => l = l₀ ∧ l₀.ops h.val = none
  | _ + 4, _ => False

/-- In this ledger the call does nothing. -/
def Spent (l : Ledger) (i : Invocation env) : Prop :=
  ∀ l' out, (endpoint env).step l i = .ok (l', out) → l' = l ∧ out.countP Effect.isInvoke = 0

section Spent

variable {c : Bytes}

theorem spent_load {o : OperationData} (hix : i.ix = .loadOperation o c) (hop : l.ops c ≠ none) :
    Spent l i := by
  intro l' out hok
  cases step_cases hok with
  | load _ hix' fresh =>
    obtain ⟨-, rfl⟩ := Ix.loadOperation.inj (hix.symm.trans hix')
    exact absurd fresh hop
  | setUp _ _ hix' | answer hix' | sign _ hix' | execute hix' | executeGov hix' | propose _ _ hix'
  | receive hix' | setAdmin _ hix' => simp [hix] at hix'

theorem spent_sign {sigs : List TransmitterSignature} (hix : i.ix = .signOperation c sigs)
    (hst : l.status c = .executed ∨ ∃ op p, l.ops c = some op ∧
      l.protocols op.opData.protocolId = some p ∧ op.Reached p) : Spent l i := by
  intro l' out hok
  cases step_cases hok with
  | answer hix' => exact ⟨rfl, rfl⟩
  | sign _ hix' signs =>
    obtain ⟨rfl, rfl⟩ := Ix.signOperation.inj (hix.symm.trans hix')
    rcases hst with hst | ⟨op, p, hop, hp, hreached⟩
    · rw [Ledger.status_of_ops signs.stored] at hst
      rcases signs.status with hst' | hst' <;> simp [hst] at hst'
    · obtain rfl := Option.some_inj.1 (hop.symm.trans signs.stored)
      obtain rfl := Option.some_inj.1 (hp.symm.trans signs.protocol)
      exact absurd hreached (not_le.2 signs.rate_lt)
  | setUp _ _ hix' | load _ hix' | execute hix' | executeGov hix' | propose _ _ hix'
  | receive hix' | setAdmin _ hix' => simp [hix] at hix'

theorem spent_execute (hix : i.ix = .executeOperation c) (hst : l.status c = .executed) :
    Spent l i := by
  intro l' out hok
  cases step_cases hok with
  | execute hix' hop call | executeGov hix' hop call =>
    obtain rfl := Ix.executeOperation.inj (hix.symm.trans hix')
    rw [Ledger.status_of_ops hop, call.signed] at hst
    simp at hst
  | setUp _ _ hix' | load _ hix' | answer hix' | sign _ hix' | propose _ _ hix'
  | receive hix' | setAdmin _ hix' => simp [hix] at hix'

end Spent

/-- A step that was made already does nothing. -/
theorem spent {o : OperationData} {p : ProtocolInfo} {l₀ : Ledger} {k n : ℕ}
    (hstage : Stage h o p l₀ k n l) (hlt : n < i.ix.rank h.val) (hk : i.ix.rank h.val ≤ k) :
    Spent l i := by
  cases hix : i.ix with
  | loadOperation o' c =>
    have hc : c = h.val := by
      by_contra hne
      simp [hix, Ix.rank, hne] at hlt
    subst hc
    simp only [hix, Ix.rank, if_true] at hlt
    refine spent_load hix ?_
    rcases n with _ | _ | _ | n
    · intro hnone
      simp [Stage, Ledger.status, hnone] at hstage
    · obtain ⟨op, under, -⟩ := hstage
      simp [under.ready.stored]
    · obtain ⟨op, under, -⟩ := hstage
      simp [under.ready.stored]
    · omega
  | signOperation c sigs =>
    have hc : c = h.val := by
      by_contra hne
      simp [hix, Ix.rank, hne] at hlt
    subst hc
    simp only [hix, Ix.rank, if_true] at hlt hk
    rcases n with _ | _ | n
    · exact spent_sign hix (.inl hstage)
    · obtain ⟨op, under, -, hreached⟩ := hstage
      exact spent_sign hix (.inr ⟨op, p, under.ready.stored,
        under.ready.id ▸ under.ready.protocol, hreached hk⟩)
    · omega
  | executeOperation c =>
    have hc : c = h.val := by
      by_contra hne
      simp [hix, Ix.rank, hne] at hlt
    subst hc
    simp only [hix, Ix.rank, if_true] at hlt
    obtain rfl : n = 0 := by omega
    exact spent_execute hix hstage
  | _ => simp [hix, Ix.rank] at hlt

/-! ## One step further -/

/-- Signatures that approve an operation reach the rate. -/
theorem reached_of_step {h : Bytes} {op : OpInfo} {p : ProtocolInfo}
    (hok : (endpoint env).step l i = .ok (l', out)) (hbefore : l.status h ≠ .signed)
    (hop : l'.ops h = some op) (hst : op.status = .signed)
    (hp : l.protocols op.opData.protocolId = some p) : op.Reached p := by
  have hafter : l'.status h = .signed := (Ledger.status_of_ops hop).trans hst
  obtain ⟨sigs, op₁, p₁, signers, array, -, signs, hop'⟩ :=
    (step_cases hok).signs_of_approves (.inl ⟨hbefore, hafter⟩)
  obtain rfl := Option.some_inj.1 (hop.symm.trans hop')
  obtain rfl := Option.some_inj.1 (hp.symm.trans signs.protocol)
  obtain ⟨added, heq, hadd, -⟩ := signs.signers_eq
  rw [OpInfo.Reached, heq]
  exact (hadd.reaches rfl).2.1

section Advance

variable {txs : List (List (Invocation env))} {o : OperationData} {p : ProtocolInfo} {k n : ℕ}

/-- The data of the operation that is loaded. -/
theorem Plan.data_of_loads (plan : Plan env executor h txs mng signed o p bundles)
    (hm : env.DistinctMethods) {b : Instruction} {units : UInt32} {op : OpInfo}
    (hbuild : buildLoadIx env executor h.val signed.operationData = .ok b)
    (submits : Submits ⟨b, units⟩ i)
    (hok : (endpoint env).step l i = .ok (l.setOp h.val op, out)) : op.opData = o := by
  simp only [buildLoadIx, Except.bind_eq_ok, Except.orFail_eq_ok, Except.mapError_eq_ok,
    Except.pure_eq_ok] at hbuild
  obtain ⟨_, -, o', ho', args, hargs, rfl⟩ := hbuild
  obtain rfl := Except.ok.inj (plan.converted.symm.trans ho')
  have hix := submits.ix
  rw [decode_loadOperation hm hargs, Except.ok.injEq] at hix
  have hloads : (endpoint env).step l i = loadOperation env l i.accounts o h.val :=
    step_loadOperation hix.symm
  rw [hloads] at hok
  obtain ⟨-, -, -, hl, -⟩ := loadOperation_ok hok
  have hop : (l.setOp h.val op).ops h.val = some op := Ledger.ops_setOp_self _ _ _
  rw [hl, Ledger.ops_setOp_self] at hop
  rw [← Option.some_inj.1 hop]

/-- The protocol's program accepts the call when the operation is signed and all that has
changed. -/
def Accepting (h : Bytes) (o : OperationData) (l₀ : Ledger) (i : Invocation env) : Prop :=
  ∀ l op, SameBut h l₀ l → l.ops h = some op → op.opData = l₀.dataOr h o → op.status = .signed →
    CpiSucceeds h l i

/-- The next step of a plan. -/
theorem Plan.advance (plan : Plan env executor h txs mng signed o p bundles)
    (hm : env.DistinctMethods) (hzero : o.protocolId ≠ List.replicate 32 0)
    (role : Role env executor h mng signed b (n + 1)) (submits : Submits b i)
    (hstage : Stage h o p ((endpoint env).run .genesis txs).2 k (n + 1) l)
    (haccept : i.ix.rank h.val = 1 → Accepting h.val o ((endpoint env).run .genesis txs).2 i) :
    ∃ l' out, (endpoint env).step l i = .ok (l', out) ∧
      Stage h o p ((endpoint env).run .genesis txs).2 k n l' ∧
      out.countP Effect.isInvoke = if n = 0 then 1 else 0 := by
  have hrank := role.rank hm submits
  generalize hn : n + 1 = r at role
  cases role with
  | load hbuild =>
    obtain rfl : n = 2 := by omega
    obtain ⟨rfl, hnone⟩ := hstage
    obtain ⟨op, out, hok, hinit, ready, hout⟩ := plan.loads hm hbuild submits hnone hzero
    have hdata : op.opData = o := plan.data_of_loads hm hbuild submits hok
    refine ⟨_, out, hok, ⟨op, ⟨?_, ready, ?_⟩, hinit⟩, hout⟩
    · exact SameBut.setOp ⟨rfl, rfl, fun _ _ => rfl⟩ op
    · simp [Ledger.dataOr, hnone, hdata]
  | sign hbuild =>
    obtain rfl : n = 1 := by omega
    obtain ⟨op, under, hinit⟩ := hstage
    obtain ⟨op', out, hok, hsigned, ready', hout⟩ :=
      plan.signs hm hbuild submits under.ready hinit
    have hop' : (l.setOp h.val op').ops h.val = some op' := Ledger.ops_setOp_self _ _ _
    obtain ⟨_, hop, hdata⟩ := (step_cases hok).opData_fixed under.ready.stored
    obtain rfl := Option.some_inj.1 (hop'.symm.trans hop)
    refine ⟨_, out, hok, ⟨op', ⟨under.same.setOp op', ready', hdata.trans under.data⟩, hsigned,
      fun _ => ?_⟩, hout⟩
    refine reached_of_step hok ?_ hop' hsigned (ready'.id ▸ ready'.protocol)
    rw [Ledger.status_of_ops under.ready.stored, hinit]
    simp
  | execute hbuild =>
    obtain rfl : n = 0 := by omega
    obtain ⟨op, under, hsigned, -⟩ := hstage
    exact plan.executes hm hbuild submits under.ready hsigned
      (haccept hrank l op under.same under.ready.stored under.data hsigned)

/-- The ledger that a plan is made in. -/
theorem Plan.stage (plan : Plan env executor h txs mng signed o p bundles)
    (hwire : ∀ tx ∈ txs, ∀ i ∈ tx, i.Wire)
    (hcoll : ∀ op, ((endpoint env).run .genesis txs).2.ops h.val = some op →
      op.opData.opHashWithMessage env = o.opHashWithMessage env →
      op.opData.opDataEvm = o.opDataEvm) :
    Roles env executor h mng signed bundles ∧
      Stage h o p ((endpoint env).run .genesis txs).2 bundles.length bundles.length
        ((endpoint env).run .genesis txs).2 := by
  have hsame : SameBut h.val ((endpoint env).run .genesis txs).2
      ((endpoint env).run .genesis txs).2 := ⟨rfl, rfl, fun _ _ => rfl⟩
  obtain ⟨roles, hlen⟩ := roles_of_built plan.built
  refine ⟨roles, ?_⟩
  cases hop : ((endpoint env).run .genesis txs).2.ops h.val with
  | none =>
    simp only [Ledger.status, hop, ExecutorOpStatus.ofOpStatus, reduceCtorEq, false_and, or_false,
      true_and] at hlen
    rw [hlen]
    exact ⟨rfl, hop⟩
  | some op =>
    have under : Under h o p _ _ op :=
      ⟨hsame, plan.ready hwire hcoll hop, by simp [Ledger.dataOr, hop]⟩
    have hnone := (stored_of_run (run_sound (endpoint env) .genesis txs) h.val op hop).status
    have hexec : op.status ≠ .executed := Ledger.status_of_ops hop ▸ plan.status
    rw [Ledger.status_of_ops hop] at hlen
    cases hst : op.status with
    | none => exact absurd hst hnone
    | executed => exact absurd hst hexec
    | init =>
      simp only [hst, ExecutorOpStatus.ofOpStatus, reduceCtorEq, false_and, or_false, false_or,
        true_and] at hlen
      rw [hlen]
      exact ⟨op, under, hst⟩
    | signed =>
      simp only [hst, ExecutorOpStatus.ofOpStatus, reduceCtorEq, false_and, false_or,
        true_and] at hlen
      rw [hlen]
      exact ⟨op, under, hst, by omega⟩

/-! ## Messages -/

/-- What has been made has more steps behind it than what is left. -/
theorem Roles.of_append : ∀ {done todo : List InstructionBundle},
    Roles env executor h mng signed (done ++ todo) → Roles env executor h mng signed todo ∧
      ∀ b ∈ done, ∃ r, Role env executor h mng signed b r ∧ todo.length < r ∧
        r ≤ (done ++ todo).length
  | [], todo, roles => ⟨roles, by simp⟩
  | b :: done, todo, ⟨role, roles⟩ => by
    obtain ⟨htodo, hdone⟩ := Roles.of_append roles
    have hmore : todo.length < (done ++ todo).length + 1 := by
      rw [List.length_append]
      omega
    refine ⟨htodo, List.forall_mem_cons.2 ⟨⟨_, role, hmore, le_rfl⟩, fun b' hb' => ?_⟩⟩
    obtain ⟨r, hr, hlt, hle⟩ := hdone b' hb'
    exact ⟨r, hr, hlt, by simp only [List.cons_append, List.length_cons]; omega⟩

/-- A message with the next steps. -/
theorem Plan.message (plan : Plan env executor h txs mng signed o p bundles)
    (hm : env.DistinctMethods) (hzero : o.protocolId ≠ List.replicate 32 0)
    {rest x : List InstructionBundle} {tx : List (Invocation env)} {l : Ledger}
    (roles : Roles env executor h mng signed (x ++ rest)) (hcopy : List.Forall₂ Submits x tx)
    (hstage : Stage h o p ((endpoint env).run .genesis txs).2 k (x ++ rest).length l)
    (haccept : ∀ i ∈ tx, i.ix.rank h.val = 1 →
      Accepting h.val o ((endpoint env).run .genesis txs).2 i) :
    ∃ rs l', (endpoint env).transact l tx = .ok (rs, l') ∧
      Stage h o p ((endpoint env).run .genesis txs).2 k rest.length l' ∧
      (outputs rs).countP Effect.isInvoke = if x ≠ [] ∧ rest = [] then 1 else 0 := by
  induction hcopy generalizing l with
  | nil => exact ⟨[], l, rfl, hstage, by simp [outputs]⟩
  | @cons b i x tx submits _ ih =>
    obtain ⟨role, roles⟩ := roles
    rw [List.forall_mem_cons] at haccept
    obtain ⟨l₁, out, hok, hstage₁, hout⟩ :=
      plan.advance hm hzero role submits hstage haccept.1
    obtain ⟨rs, l', hrest, hstage', hcount⟩ := ih roles hstage₁ haccept.2
    refine ⟨_, l', transact_cons_ok hok hrest, hstage', ?_⟩
    simp only [outputs, List.flatMap_cons, List.countP_append, hout]
    rw [← outputs, hcount]
    -- the last step makes the call, and there is one last step
    cases x with
    | nil => cases rest <;> simp
    | cons b' x => simp

/-- A message whose steps were made already. -/
theorem transact_spent : ∀ {tx : List (Invocation env)} {rs l'}, (∀ i ∈ tx, Spent l i) →
    (endpoint env).transact l tx = .ok (rs, l') →
      l' = l ∧ (outputs rs).countP Effect.isInvoke = 0
  | [], rs, l', _, hok => by
    simp only [Machine.transact, Except.ok.injEq, Prod.mk.injEq] at hok
    obtain ⟨rfl, rfl⟩ := hok
    exact ⟨rfl, rfl⟩
  | i :: tx, rs, l', hspent, hok => by
    rw [List.forall_mem_cons] at hspent
    simp only [Machine.transact, Except.bind_eq_ok, Except.pure_eq_ok, Prod.mk.injEq,
      Prod.exists] at hok
    obtain ⟨l₁, out, hs, rs', l₂, ht, rfl, rfl⟩ := hok
    obtain ⟨heq, hout⟩ := hspent.1 _ _ hs
    rw [heq] at ht
    obtain ⟨heq', hrest⟩ := transact_spent hspent.2 ht
    refine ⟨heq', ?_⟩
    simp only [outputs, List.flatMap_cons, List.countP_append, hout, Nat.zero_add]
    exact hrest

theorem run_spent {tx : List (Invocation env)} (hspent : ∀ i ∈ tx, Spent l i) :
    ((endpoint env).run l [tx]).2 = l ∧
      (outputs ((endpoint env).run l [tx]).1).countP Effect.isInvoke = 0 := by
  cases ht : (endpoint env).transact l tx with
  | error e => simp [Machine.run, ht, outputs]
  | ok r =>
    obtain ⟨rfl, hout⟩ := transact_spent hspent ht
    simpa [Machine.run, ht] using hout

/-! ## Completion -/

/-- What a copy of a message that was taken does. -/
theorem Roles.spent_copy {l₀ : Ledger} (hm : env.DistinctMethods)
    {ms : List (List InstructionBundle)} {todo x : List InstructionBundle}
    {tx : List (Invocation env)} (roles : Roles env executor h mng signed (ms.flatten ++ todo))
    (hstage : Stage h o p l₀ (ms.flatten ++ todo).length todo.length l) (hx : x ∈ ms)
    (hcopy : List.Forall₂ Submits x tx) : ∀ i ∈ tx, Spent l i := by
  intro i hi
  obtain ⟨b, hb, submits⟩ := exists_of_forall₂_mem hcopy.flip hi
  obtain ⟨r, role, hlt, hle⟩ := roles.of_append.2 b (List.mem_flatten_of_mem hx hb)
  rw [← role.rank hm submits] at hlt hle
  exact spent hstage hlt hle

/-- Every order of arrival in which the first copies of the first messages of a plan come in order
leaves the ledger at the step behind them. The protocol's program, which accepts the call, has
been called once if this was the last step, and not at all before. -/
theorem Plan.resent (plan : Plan env executor h txs mng signed o p bundles)
    (hm : env.DistinctMethods) (hwire : ∀ tx ∈ txs, ∀ i ∈ tx, i.Wire)
    (hcoll : ∀ op, ((endpoint env).run .genesis txs).2.ops h.val = some op →
      op.opData.opHashWithMessage env = o.opHashWithMessage env →
      op.opData.opDataEvm = o.opDataEvm)
    (hzero : o.protocolId ≠ List.replicate 32 0) {messages : List (List InstructionBundle)}
    {todo : List InstructionBundle} (hflat : messages.flatten ++ todo = bundles)
    {copies : List (List (Invocation env))}
    (harrives : Arrives (List.Forall₂ Submits) messages copies)
    (haccept : ∀ tx ∈ copies, ∀ i ∈ tx, i.ix.rank h.val = 1 →
      Accepting h.val o ((endpoint env).run .genesis txs).2 i) :
    Stage h o p ((endpoint env).run .genesis txs).2 bundles.length todo.length
        ((endpoint env).run ((endpoint env).run .genesis txs).2 copies).2 ∧
      (outputs ((endpoint env).run ((endpoint env).run .genesis txs).2 copies).1).countP
        Effect.isInvoke = if todo = [] then 1 else 0 := by
  obtain ⟨roles, hstage⟩ := plan.stage hwire hcoll
  have hne : bundles ≠ [] := by
    obtain ⟨-, ⟨-, hlen⟩ | ⟨-, hlen⟩ | ⟨-, hlen⟩⟩ := roles_of_built plan.built <;>
      rintro rfl <;> simp at hlen
  -- `todo` are the steps that have not arrived, and those before them are spent
  let Done (ms : List (List InstructionBundle)) (out : List Effect) (l : Ledger) : Prop :=
    ∀ todo, ms.flatten ++ todo = bundles →
      Stage h o p ((endpoint env).run .genesis txs).2 bundles.length todo.length l ∧
        out.countP Effect.isInvoke = if todo = [] then 1 else 0
  let Copies (x : List InstructionBundle) (tx : List (Invocation env)) : Prop :=
    List.Forall₂ Submits x tx ∧ ∀ i ∈ tx, i.ix.rank h.val = 1 →
      Accepting h.val o ((endpoint env).run .genesis txs).2 i
  have harrives' : Arrives Copies messages copies := by
    have hall : List.Forall₂ (fun tx tx' => tx = tx' ∧ ∀ i ∈ tx, i.ix.rank h.val = 1 →
        Accepting h.val o ((endpoint env).run .genesis txs).2 i) copies copies :=
      List.forall₂_same.2 fun tx htx => ⟨rfl, haccept tx htx⟩
    have hmap : Arrives Copies (messages.map id) copies := by
      refine harrives.map id ?_ hall
      rintro x - tx _ hcopy ⟨rfl, hacc⟩
      exact ⟨hcopy, hacc⟩
    rwa [List.map_id] at hmap
  refine harrives'.run_rule (P := Done) ?_ ?_ ?_ ?_ (List.prefix_refl _) todo
    hflat
  · rintro todo rfl
    exact ⟨hstage, by simpa using hne⟩
  · rintro ms x tx out l - hdone ⟨hcopy, hacc⟩ todo heq
    simp only [List.flatten_append, List.flatten_singleton, List.append_assoc] at heq
    obtain ⟨hstage, hcount⟩ := hdone _ heq
    obtain ⟨roles', -⟩ := (heq ▸ roles).of_append
    obtain ⟨rs, l', htx, hstage', hout⟩ := plan.message hm hzero roles' hcopy hstage hacc
    simp only [Machine.run, htx, List.append_nil, List.countP_append, hcount, hout]
    refine ⟨hstage', ?_⟩
    cases x <;> simp
  · rintro ms x tx out l hx hdone ⟨hcopy, -⟩ todo heq
    obtain ⟨hstage, hcount⟩ := hdone todo heq
    obtain ⟨hl, hout⟩ := run_spent (Roles.spent_copy hm (heq ▸ roles) (heq ▸ hstage) hx hcopy)
    rw [hl, List.countP_append, hout, hcount]
    exact ⟨hstage, by simp⟩
  · rintro ms x y tx out l - hdone hy ⟨hcopy, -⟩ ⟨hcopy', -⟩ todo heq
    simp only [List.flatten_append, List.flatten_singleton, List.append_assoc] at heq
    cases hcopy' with
    | nil => exact hdone todo heq
    | @cons b i x tx submits _ =>
      -- the first call of the copy would be two steps at once
      cases hcopy with
      | @cons b' _ y _ submits' _ =>
        obtain ⟨⟨role, -⟩, hmade⟩ := (heq ▸ roles).of_append
        obtain ⟨r, role', hlt, -⟩ := hmade b' (List.mem_flatten_of_mem hy List.mem_cons_self)
        have hrank := (role.rank hm submits).symm.trans (role'.rank hm submits')
        rw [List.cons_append, List.length_cons, ← hrank] at hlt
        exact absurd hlt (lt_irrefl _)

end Advance

end Photon
