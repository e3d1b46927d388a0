import Photon.Onefunc
import Photon.Approval

/-!
# The endpoint and `onefunc`

Both programs on one ledger (`world`). A call of the endpoint that executes an operation of
`onefunc` runs it, and fails if `onefunc` does. A program other than these two, while the endpoint
waits for it, may call `onefunc` as often as it likes, and pass on the signature it was called
with. Anybody may call either program from outside, with the signatures of everything but the
addresses that a program derives.

The endpoint's part of a run is a run of the endpoint alone (`ledger_run`), so what holds of its
histories holds here. Each operation reaches `onefunc` at most once, and what the counters hold is
what the executed operations carry (`counters_accounted`).
-/

namespace Photon.Onefunc

open Machine

variable {env : Env} (addr : Addresses env)

/-! ## Calls -/

/-- The endpoint is called while it is running. -/
def reentrant : List AccountInfo → Photon.Ix → Except Error (Ledger × List Effect) :=
  fun _ _ => .error .reentrancyNotAllowed

/-- `onefunc` is called by the endpoint for the operation `opHash`. -/
def receive (w : World) (opHash : Bytes) (call : Instruction) : Except Error World := do
  let ix ← Ix.decode env call.data
  let (w', _) ← dispatch addr reentrant w call.accounts opHash ix
  pure w'

/-- A call of `onefunc` by a program that the endpoint has called under `authority`. It has no
other signature of an address that the endpoint derives. -/
structure NestedCall (env : Env) where
  ix : Ix
  accounts : List AccountInfo
  opHash : Bytes
  authority : Seeds
  signers : ∀ a ∈ accounts, a.isSigner = true → ∀ s, a.key = env.pda s →
    a.key = env.pda authority

def NestedCall.run (w : World) (authority : Seeds) (call : NestedCall env) :
    Except Error World := do
  require (call.authority = authority) (Error.anchor .accountNotSigner)
  let (w', _) ← dispatch addr reentrant w call.accounts call.opHash call.ix
  pure w'

/-- What an effect of the endpoint does to the counters. -/
def serve (opHash : Bytes) (nested : List (NestedCall env)) (w : World) :
    Effect → Except Error World
  | .invoke call authority =>
    if call.programId = ONEFUNC_ID then receive addr w opHash call
    else if call.programId = photonId then .ok w
    else nested.foldlM (fun w c => c.run addr w authority) w
  | _ => .ok w

/-- A call of `onefunc` from outside. -/
structure Invocation (env : Env) where
  ix : Ix
  accounts : List AccountInfo
  opHash : Bytes
  derived_not_signer : ∀ a ∈ accounts, a.isSigner = true → ∀ s, a.key ≠ env.pda s
  photon_not_writable : ∀ a ∈ accounts, a.isWritable = true → a.key ≠ photonId

/-- A call from outside. -/
inductive Input (env : Env)
  /-- `nested` is what a third program does with the call it is executed by. -/
  | photon (i : Photon.Invocation env) (nested : List (NestedCall env))
      (onefunc_not_writable : ∀ a ∈ i.accounts, a.isWritable = true → a.key ≠ ONEFUNC_ID)
  | onefunc (i : Invocation env)

/-- The operation that a call executes. -/
def executedHash (i : Photon.Invocation env) : Bytes :=
  match i.ix with
  | .executeOperation h => h
  | _ => []

/-- The call with `onefunc` answering for itself. -/
def answeredBy (w : World) (i : Photon.Invocation env) : Photon.Invocation env :=
  { i with
    answer := fun call =>
      if call.programId = ONEFUNC_ID then (receive addr w (executedHash i) call).isOk
      else i.answer call }

def step (w : World) : Input env → Except Error (World × List Effect)
  | .photon i nested _ => do
    let (l, out) ← ((endpoint env).step w.ledger (answeredBy addr w i)).mapError Error.photon
    let w' ← out.foldlM (serve addr (executedHash i) nested) w
    pure ({ w' with ledger := l }, out)
  | .onefunc i =>
    dispatch addr (fun accounts ix =>
      (process env (fun _ => false) 0 w.ledger accounts ix).mapError Error.photon)
      w i.accounts i.opHash i.ix

/-- Both programs as a machine. -/
def world : Machine World (Input env) Effect Error where
  step := step addr

/-! ## Steps -/

variable {addr} {w w' : World} {out : List Effect}

/-- The endpoint's program is no account of `onefunc`. -/
theorem photonId_ne : photonId ≠ ONEFUNC_ID := by
  decide +kernel

/-- A call from outside leaves the operations alone, and its proposals are the endpoint's. -/
theorem ledger_of_onefunc {i : Invocation env} (hok : step addr w (.onefunc i) = .ok (w', out)) :
    (w'.ledger = w.ledger ∧ out = []) ∨ ∃ (i' : Photon.Invocation env) (sel : FunctionSelector),
      i'.ix = proposal sel ∧ (endpoint env).step w.ledger i' = .ok (w'.ledger, out) := by
  cases dispatch_change hok with
  | init | raise | log => exact .inl ⟨rfl, rfl⟩
  | @propose ctx sel l _ _ hctx hcall =>
    right
    unfold ProposeToOtherChain.tryAccounts at hctx
    split at hctx
    · rename_i owner photonProgram config protocolInfo proposer systemProgram rest heq
      simp only [Except.bind_eq_ok, Except.pure_eq_ok, checkMut, Except.require_eq_ok,
        exists_const] at hctx
      obtain ⟨_, -, -, _, -, hproposer, -, hconfig, -, rfl⟩ := hctx
      have hne : config.key ≠ photonId :=
        i.photon_not_writable config (by simp [heq]) hconfig
      refine ⟨⟨proposal sel, _, 0, fun _ => false, ?_, ?_⟩, sel, rfl,
        Except.mapError_eq_ok.1 hcall⟩
      · simp [hproposer, Addresses.proposer, addr.proposer_ne]
      · simp [hne]
    · simp at hctx

/-- An executed operation was executed before, or is by this call. -/
theorem executed_cases {l l' : Ledger} {i : Photon.Invocation env} (hs : Step l i l' out)
    {h : Bytes} {op : OpInfo} (hop : l'.ops h = some op) (hex : op.status = .executed) :
    l.ops h = some op ∨ i.ix = .executeOperation h := by
  cases hs with
  | setUp | answer | propose | receive | setAdmin => exact .inl hop
  | @load o c =>
    rw [Ledger.ops_setOp] at hop
    split_ifs at hop
    · obtain rfl := Option.some_inj.1 hop
      simp at hex
    · exact .inl hop
  | @sign c sigs op₀ p signers reached array executor hix signs =>
    rw [Ledger.ops_setOp] at hop
    split_ifs at hop
    · obtain rfl := Option.some_inj.1 hop
      cases reached with
      | true => simp [OpInfo.signedBy] at hex
      | false => rcases signs.status with hst | hst <;> simp [OpInfo.signedBy, hst] at hex
    · exact .inl hop
  | @execute c op₀ p executor ix hix | @executeGov c op₀ p executor ix code id conf q effects hix =>
    by_cases hc : h = c
    · subst hc
      exact .inr hix
    · simp only [Ledger.ops_setOp, if_neg hc] at hop
      exact .inl hop

/-- Effects without a call leave the counters alone. -/
theorem foldlM_serve {opHash : Bytes} {nested : List (NestedCall env)} {out : List Effect}
    (h : ∀ e ∈ out, ∀ call s, e ≠ .invoke call s) :
    out.foldlM (serve addr opHash nested) w = .ok w := by
  induction out with
  | nil => rfl
  | cons e out ih =>
    rw [List.forall_mem_cons] at h
    have he : serve addr opHash nested w e = .ok w := by
      cases e with
      | invoke call s => exact absurd rfl (h.1 call s)
      | _ => rfl
    simp [List.foldlM_cons, he, ih h.2, bind, Except.bind]

/-- The called program finds the call authority in the second place. -/
theorem second_of_execute {l l' : Ledger} {i : Photon.Invocation env} {h : Bytes} {op : OpInfo}
    (hix : i.ix = .executeOperation h) (hok : (endpoint env).step l i = .ok (l', out))
    (hop : l.ops h = some op)
    (hw : ∀ a ∈ i.accounts, a.isWritable = true → a.key ≠ op.opData.protocolAddr)
    (hne : ∀ s, op.opData.protocolAddr ≠ env.pda s) {call : Instruction} {s : Seeds}
    (hcall : out.head? = some (.invoke call s)) :
    call.accounts[1]?.map AccountInfo.key =
      some (env.pda (.callAuthority op.opData.protocolId)) := by
  obtain ⟨invoke, hdis⟩ := dispatch_of_process hok
  simp only [hix, Photon.dispatch, executeOperation, Except.bind_eq_ok, Except.orFail_eq_ok,
    Option.filter_eq_some_iff, decide_eq_true_eq, Prod.exists, Except.pure_eq_ok,
    Prod.mk.injEq] at hdis
  obtain ⟨ctx, hctx, first, ⟨-, hfirst⟩, data, -, _, _, -, -, rfl⟩ := hdis
  obtain ⟨⟨hop', -⟩, -, ⟨-, -, hmut⟩, hauth, ⟨hmem, -⟩, -⟩ :=
    ExecuteOperation.of_tryAccounts hctx
  obtain rfl := Option.some_inj.1 (hop.symm.trans hop')
  obtain ⟨rfl, -⟩ := Effect.invoke.inj (Option.some_inj.1 hcall)
  have hexec : ctx.executor.key ≠ ctx.opInfo.opData.protocolAddr := hw _ hmem hmut
  have hneq : env.pda (.callAuthority ctx.opInfo.opData.protocolId) ≠
      ctx.opInfo.opData.protocolAddr := (hne _).symm
  simp [ExecuteOperation.metas, hfirst, hexec, hauth, hneq]

/-- What a call of the endpoint does to the counters. -/
inductive Served (addr : Addresses env) (w : World) (i : Photon.Invocation env)
    (nested : List (NestedCall env)) (w' : World) : Prop
  | quiet (counters : w'.counters = w.counters)
      (old : ∀ h op, w'.ledger.ops h = some op → op.status = .executed →
        op.opData.protocolAddr = ONEFUNC_ID → w.ledger.ops h = some op)
  /-- An operation of `onefunc` is executed. -/
  | called {h op p executor call w₁} (hop : w.ledger.ops h = some op)
      (hcall : Call (answeredBy addr w i) w.ledger h op p executor call)
      (hown : op.opData.protocolAddr = ONEFUNC_ID)
      (second : call.accounts[1]?.map AccountInfo.key =
        some (env.pda (.callAuthority op.opData.protocolId)))
      (hrec : receive addr w h call = .ok w₁) (counters : w'.counters = w₁.counters)
      (ledger : w'.ledger = w.ledger.setOp h { op with status := .executed })
  /-- An operation of a third program is. -/
  | nested {h op w₁} (hop : w.ledger.ops h = some op)
      (hother : op.opData.protocolAddr ≠ ONEFUNC_ID)
      (hfold : nested.foldlM (fun w c => c.run addr w (.callAuthority op.opData.protocolId)) w =
        .ok w₁) (counters : w'.counters = w₁.counters)
      (ledger : w'.ledger = w.ledger.setOp h { op with status := .executed })

theorem served {i : Photon.Invocation env} {nested : List (NestedCall env)}
    {hw : ∀ a ∈ i.accounts, a.isWritable = true → a.key ≠ ONEFUNC_ID}
    (hok : step addr w (.photon i nested hw) = .ok (w', out)) :
    Step w.ledger (answeredBy addr w i) w'.ledger out ∧ Served addr w i nested w' := by
  simp only [step, Except.bind_eq_ok, Except.mapError_eq_ok, Except.pure_eq_ok, Prod.exists,
    Prod.mk.injEq] at hok
  obtain ⟨l, effects, hphoton, w₁, hfold, rfl, rfl⟩ := hok
  have hs := step_cases hphoton
  refine ⟨hs, ?_⟩
  have hquiet (hno : ∀ e ∈ effects, ∀ call s, e ≠ .invoke call s)
      (hix : ∀ h, (answeredBy addr w i).ix ≠ .executeOperation h) :
      Served addr w i nested { w₁ with ledger := l } := by
    rw [foldlM_serve hno, Except.ok.injEq] at hfold
    refine .quiet (by rw [hfold]) fun h op hop hex _ => ?_
    exact (executed_cases hs hop hex).resolve_right (hix h)
  cases hs with
  | setUp _ _ hix | setAdmin _ hix => exact hquiet (by simp) (by simp [hix])
  | load _ hix | answer hix | propose _ _ hix => exact hquiet (by simp) (by simp [hix])
  | sign _ hix =>
    refine hquiet ?_ (by simp [hix])
    unfold signEffects
    split_ifs <;> simp
  | receive hix hop gov =>
    refine hquiet ?_ (by simp [hix])
    intro e he
    rcases List.mem_append.1 he with he | he
    · obtain ⟨ev, rfl⟩ := propose_of_mem_handleGovOperation gov.handled e he
      simp
    · simp [List.mem_singleton.1 he]
  | @execute h op p executor call hix hop hcall hother =>
    have hhash : executedHash i = h := by
      change executedHash (answeredBy addr w i) = h
      simp [executedHash, hix]
    simp only [List.foldlM_cons, List.foldlM_nil, serve, hhash, hcall.program, hother, if_false,
      Except.bind_eq_ok, Except.pure_eq_ok, Except.ok.injEq, exists_eq_left'] at hfold
    obtain ⟨w₂, hserve, rfl⟩ := hfold
    by_cases hown : op.opData.protocolAddr = ONEFUNC_ID
    · rw [if_pos hown] at hserve
      refine .called hop hcall hown ?_ hserve rfl rfl
      refine second_of_execute hix hphoton hop ?_ ?_ rfl
      · rw [hown]
        exact hw
      · rw [hown]
        exact addr.id_ne
    · rw [if_neg hown] at hserve
      exact .nested hop hown hserve rfl rfl
  | @executeGov h op p executor call code id c q effects hix hop hcall hsel gov =>
    -- the endpoint calls itself, which no counter sees
    have hself : call.programId = photonId := hcall.program.trans gov.protocolAddr
    have hserve : (effects ++ [Effect.governed h code] ++
        [Effect.emit (.proposalExecuted h executor.key)]).foldlM
          (serve addr (executedHash i) nested) w = .ok w := by
      refine foldlM_serve fun e he => ?_
      simp only [List.append_assoc, List.mem_append, List.mem_singleton] at he
      rcases he with he | rfl | rfl
      · obtain ⟨ev, rfl⟩ := propose_of_mem_handleGovOperation gov.handled e he
        simp
      · simp
      · simp
    simp only [List.cons_append, List.foldlM_cons, serve, hself, photonId_ne, if_true, if_false,
      bind, Except.bind] at hfold
    rw [hserve, Except.ok.injEq] at hfold
    refine .quiet (by rw [hfold]) fun h' op' hop' hex hown => ?_
    rw [Ledger.ops_setOp] at hop'
    split_ifs at hop'
    · obtain rfl := Option.some_inj.1 hop'
      exact absurd (gov.protocolAddr.symm.trans hown) photonId_ne
    · exact hop'

/-! ## What others leave alone -/

/-- Counters under an authority in `K` stay as they are, or are new. All keep their authority. -/
structure Kept (K : Pubkey → Prop) (w w' : World) : Prop where
  same : ∀ s c', w'.counters s = some c' → K c'.callAuthority →
    w.counters s = some c' ∨ (w.counters s = none ∧ c'.count = 0)
  authority : ∀ s c, w.counters s = some c →
    ∃ c', w'.counters s = some c' ∧ c'.callAuthority = c.callAuthority

variable {K : Pubkey → Prop}

theorem Kept.of_eq (h : w'.counters = w.counters) : Kept K w w' :=
  ⟨fun s c' hc' _ => .inl (by rw [← h, hc']), fun s c hc => ⟨c, by rw [h, hc], rfl⟩⟩

theorem Kept.trans {w₁ : World} (h : Kept K w w₁) (h' : Kept K w₁ w') : Kept K w w' := by
  refine ⟨fun s c' hc' hK => ?_, fun s c hc => ?_⟩
  · rcases h'.same s c' hc' hK with hsame | ⟨hnew, hzero⟩
    · exact h.same s c' hsame hK
    · refine .inr ⟨?_, hzero⟩
      cases hold : w.counters s with
      | none => rfl
      | some c =>
        obtain ⟨c₁, hc₁, -⟩ := h.authority s c hold
        simp [hnew] at hc₁
  · obtain ⟨c₁, hc₁, heq₁⟩ := h.authority s c hc
    obtain ⟨c', hc', heq⟩ := h'.authority s c₁ hc₁
    exact ⟨c', hc', heq.trans heq₁⟩

/-- A call that carries no number, or not the signature of any authority in `K`. -/
theorem Change.kept {invoke : List AccountInfo → Photon.Ix → Except Error (Ledger × List Effect)}
    {accounts : List AccountInfo} {ix : Ix} (hc : Change addr invoke w accounts ix w' out)
    (hK : ix.incItem env ≠ none → ∀ a ∈ accounts, a.isSigner = true → ¬K a.key) :
    Kept K w w' := by
  cases hc with
  | @init s authority hix fresh =>
    refine ⟨fun s' c' hc' _ => ?_, fun s' c hc' => ?_⟩
    · rw [World.counters_setCounter] at hc'
      split_ifs at hc' with hs
      · subst hs
        obtain rfl := Option.some_inj.1 hc'
        exact .inr ⟨fresh, rfl⟩
      · exact .inl hc'
    · have hne : s' ≠ s := by
        rintro rfl
        simp [fresh] at hc'
      exact ⟨c, by simp [World.counters_setCounter, hne, hc'], rfl⟩
  | @raise s c item hix stored authority =>
    obtain ⟨a, hmem, hsigned, hkey⟩ := authority
    have hnot : ¬K c.callAuthority :=
      hkey ▸ hK (by simp [hix]) a (List.mem_of_getElem? hmem) hsigned
    refine ⟨fun s' c' hc' hKc => ?_, fun s' c₁ hc' => ?_⟩
    · rw [World.counters_setCounter] at hc'
      split_ifs at hc' with hs
      · obtain rfl := Option.some_inj.1 hc'
        exact absurd hKc hnot
      · exact .inl hc'
    · by_cases hs : s' = s
      · subst hs
        obtain rfl := Option.some_inj.1 (stored.symm.trans hc')
        exact ⟨_, World.counters_setCounter_self _ _ _, rfl⟩
      · exact ⟨c₁, by simp [World.counters_setCounter, hs, hc'], rfl⟩
  | log => exact .of_eq rfl
  | propose => exact .of_eq rfl

/-- The endpoint's addresses, other than the authority a program is called under. -/
theorem kept_of_foldlM {authority : Seeds} : ∀ {nested : List (NestedCall env)} {w w' : World},
    nested.foldlM (fun w c => c.run addr w authority) w = .ok w' →
      Kept (fun k => (∃ s, k = env.pda s) ∧ k ≠ env.pda authority) w w'
  | [], w, w', hfold => by
    simp only [List.foldlM_nil, Except.pure_eq_ok] at hfold
    exact .of_eq (by rw [hfold])
  | call :: nested, w, w', hfold => by
    simp only [List.foldlM_cons, Except.bind_eq_ok, NestedCall.run, Except.require_eq_ok,
      Except.pure_eq_ok, Prod.exists, exists_const] at hfold
    obtain ⟨w₁, ⟨rfl, _, _, hdis, rfl⟩, hrest⟩ := hfold
    refine Kept.trans ((dispatch_change hdis).kept ?_) (kept_of_foldlM hrest)
    rintro - a ha hsigned ⟨⟨s, hs⟩, hne⟩
    exact hne (call.signers a ha hsigned s hs)

/-! ## Accounting -/

/-- The number that the call for an operation raises a counter by. -/
def raisedBy (env : Env) (h : Bytes) (o : OperationData) : Option UInt64 :=
  match callData env h o.functionSelector o.params with
  | .ok data =>
    match Ix.decode env data with
    | .ok ix => ix.incItem env
    | .error _ => none
  | .error _ => none

/-- An operation that has raised a counter. -/
structure Entry where
  opHash : Bytes
  counter : CounterSeeds
  item : UInt64

/-- What the entries of a counter add up to. -/
def total (entries : List Entry) (s : CounterSeeds) : ℕ :=
  ((entries.filter fun e => e.counter = s).map fun e => e.item.toNat).sum

/-- Every operation executed under this authority was one of `onefunc`. -/
def Exclusive (env : Env) (l : Ledger) (k : Pubkey) : Prop :=
  ∀ h op, l.ops h = some op → op.status = .executed →
    env.pda (.callAuthority op.opData.protocolId) = k → op.opData.protocolAddr = ONEFUNC_ID

/-- The entries account for the counters : they are the operations of `onefunc` that were executed
and carry a number, each once, and a counter under an authority of the endpoint's, which no other
program was called under, holds what its entries add up to. -/
structure Accounted (env : Env) (w : World) (entries : List Entry) : Prop where
  once : (entries.map Entry.opHash).Nodup
  executed : ∀ e ∈ entries, ∃ op c, w.ledger.ops e.opHash = some op ∧ op.status = .executed ∧
    op.opData.protocolAddr = ONEFUNC_ID ∧ raisedBy env e.opHash op.opData = some e.item ∧
    w.counters e.counter = some c ∧
    c.callAuthority = env.pda (.callAuthority op.opData.protocolId)
  all : ∀ h op, w.ledger.ops h = some op → op.status = .executed →
    op.opData.protocolAddr = ONEFUNC_ID → (raisedBy env h op.opData).isSome →
    h ∈ entries.map Entry.opHash
  balance : ∀ s c id, w.counters s = some c → c.callAuthority = env.pda (.callAuthority id) →
    Exclusive env w.ledger c.callAuthority → c.count.toNat = total entries s

theorem total_append (entries : List Entry) (e : Entry) (s : CounterSeeds) :
    total (entries ++ [e]) s = total entries s + if e.counter = s then e.item.toNat else 0 := by
  by_cases hs : e.counter = s <;> simp [total, List.filter_append, hs]

/-- An executed operation is not touched again. -/
theorem executed_fixed {l l' : Ledger} {i : Photon.Invocation env} (hs : Step l i l' out)
    {h : Bytes} {op : OpInfo} (hop : l.ops h = some op) (hex : op.status = .executed) :
    l'.ops h = some op := by
  rcases hs.ops_cases h with hsame | ⟨o, hnone, -⟩ |
    ⟨sigs, op₁, p, signers, reached, array, -, signs, -⟩ | ⟨op₁, hop₁, hst, -⟩
  · exact hsame.trans hop
  · simp [hnone] at hop
  · obtain rfl := Option.some_inj.1 (hop.symm.trans signs.stored)
    rcases signs.status with hst | hst <;> simp [hst] at hex
  · obtain rfl := Option.some_inj.1 (hop.symm.trans hop₁)
    simp [hst] at hex

variable {entries : List Entry}

/-- Steps that raise no counter that is accounted for. -/
theorem Accounted.kept (ha : Accounted env w entries) (hk : Kept K w w')
    (hK : ∀ id, Exclusive env w'.ledger (env.pda (.callAuthority id)) →
      K (env.pda (.callAuthority id)))
    (hfixed : ∀ h op, w.ledger.ops h = some op → op.status = .executed →
      w'.ledger.ops h = some op)
    (hold : ∀ h op, w'.ledger.ops h = some op → op.status = .executed →
      op.opData.protocolAddr = ONEFUNC_ID → (raisedBy env h op.opData).isSome →
      w.ledger.ops h = some op) : Accounted env w' entries := by
  refine ⟨ha.once, fun e he => ?_, fun h op hop hex hown hsome => ?_,
    fun s c' id hc' hauth hexcl => ?_⟩
  · obtain ⟨op, c, hop, hex, hown, hraise, hc, hauth⟩ := ha.executed e he
    obtain ⟨c', hc', heq⟩ := hk.authority _ c hc
    exact ⟨op, c', hfixed _ op hop hex, hex, hown, hraise, hc', heq.trans hauth⟩
  · exact ha.all h op (hold h op hop hex hown hsome) hex hown hsome
  · have hexcl₀ : Exclusive env w.ledger c'.callAuthority := fun h op hop hex hkey =>
      hexcl h op (hfixed h op hop hex) hex hkey
    have hKc : K c'.callAuthority := by
      rw [hauth]
      exact hK id (hauth ▸ hexcl)
    rcases hk.same s c' hc' hKc with hsame | ⟨hnone, hzero⟩
    · exact ha.balance s c' id hsame hauth hexcl₀
    · -- a new counter is that of no entry
      have hempty : entries.filter (fun e => e.counter = s) = [] := by
        rw [List.filter_eq_nil_iff]
        intro e he hs
        obtain ⟨op, c, -, -, -, -, hc, -⟩ := ha.executed e he
        rw [of_decide_eq_true hs, hnone] at hc
        simp at hc
      simp [total, hempty, hzero]

/-- The step that executes an operation of `onefunc` with a number. -/
theorem Accounted.snoc (ha : Accounted env w entries) {h : Bytes} {op : OpInfo} {c : Counter}
    {s : CounterSeeds} {item : UInt64} (hop : w.ledger.ops h = some op)
    (hst : op.status = .signed) (hown : op.opData.protocolAddr = ONEFUNC_ID)
    (hraise : raisedBy env h op.opData = some item) (stored : w.counters s = some c)
    (hauth : c.callAuthority = env.pda (.callAuthority op.opData.protocolId))
    (room : c.count.toNat + item.toNat < 2 ^ 64)
    (hcounters : w'.counters = (w.setCounter s { c with count := c.count + item }).counters)
    (hledger : w'.ledger = w.ledger.setOp h { op with status := .executed }) :
    Accounted env w' (entries ++ [⟨h, s, item⟩]) := by
  have hnew : h ∉ entries.map Entry.opHash := by
    intro hmem
    obtain ⟨e, he, rfl⟩ := List.mem_map.1 hmem
    obtain ⟨op', -, hop', hex, -⟩ := ha.executed e he
    obtain rfl := Option.some_inj.1 (hop.symm.trans hop')
    simp [hst] at hex
  have hfixed (h' : Bytes) (op' : OpInfo) (hop' : w.ledger.ops h' = some op')
      (hex : op'.status = .executed) : w'.ledger.ops h' = some op' := by
    have hne : h' ≠ h := by
      rintro rfl
      obtain rfl := Option.some_inj.1 (hop.symm.trans hop')
      simp [hst] at hex
    simp [hledger, Ledger.ops_setOp, hne, hop']
  refine ⟨?_, fun e he => ?_, fun h' op' hop' hex hown' hsome => ?_,
    fun s' c' id hc' hkey hexcl => ?_⟩
  · rw [List.map_append, List.nodup_append]
    refine ⟨ha.once, List.nodup_singleton _, fun a hmem b hb heq => hnew ?_⟩
    rwa [heq, List.mem_singleton.1 hb] at hmem
  · rcases List.mem_append.1 he with he | he
    · obtain ⟨op', c₁, hop', hex, hown', hraise', hc₁, hkey⟩ := ha.executed e he
      by_cases hs : e.counter = s
      · rw [hs] at hc₁
        obtain rfl := Option.some_inj.1 (stored.symm.trans hc₁)
        exact ⟨op', { c with count := c.count + item }, hfixed _ _ hop' hex, hex, hown', hraise',
          by rw [hcounters, hs, World.counters_setCounter_self], hkey⟩
      · exact ⟨op', c₁, hfixed _ _ hop' hex, hex, hown', hraise',
          by rw [hcounters, World.counters_setCounter, if_neg hs, hc₁], hkey⟩
    · obtain rfl := List.mem_singleton.1 he
      exact ⟨{ op with status := .executed }, { c with count := c.count + item },
        by rw [hledger, Ledger.ops_setOp_self], rfl, hown, hraise,
        by rw [hcounters, World.counters_setCounter_self], hauth⟩
  · rw [List.map_append, List.mem_append]
    rw [hledger, Ledger.ops_setOp] at hop'
    split_ifs at hop' with hh
    · simp [hh]
    · exact .inl (ha.all h' op' hop' hex hown' hsome)
  · have hexcl₀ : Exclusive env w.ledger c'.callAuthority := fun h' op' hop' hex hk =>
      hexcl h' op' (hfixed h' op' hop' hex) hex hk
    rw [total_append]
    rw [hcounters, World.counters_setCounter] at hc'
    split_ifs at hc' with hs
    · subst hs
      obtain rfl := Option.some_inj.1 hc'
      have hold := ha.balance _ c id stored hkey hexcl₀
      rw [if_pos rfl, ← hold, UInt64.toNat_add, Nat.mod_eq_of_lt room]
    · rw [if_neg (Ne.symm hs), Nat.add_zero]
      exact ha.balance s' c' id hc' hkey hexcl₀

/-- The endpoint executes an operation of `onefunc`. -/
theorem Accounted.called (ha : Accounted env w entries) {i : Photon.Invocation env} {h : Bytes}
    {op : OpInfo} {p : ProtocolInfo} {executor : AccountInfo} {call : Instruction} {w₁ : World}
    (hop : w.ledger.ops h = some op)
    (hcall : Call (answeredBy addr w i) w.ledger h op p executor call)
    (hown : op.opData.protocolAddr = ONEFUNC_ID)
    (second : call.accounts[1]?.map AccountInfo.key =
      some (env.pda (.callAuthority op.opData.protocolId)))
    (hrec : receive addr w h call = .ok w₁) (counters : w'.counters = w₁.counters)
    (ledger : w'.ledger = w.ledger.setOp h { op with status := .executed }) :
    ∃ entries', Accounted env w' entries' := by
  simp only [receive, Except.bind_eq_ok, Except.pure_eq_ok, Prod.exists] at hrec
  obtain ⟨ix, hdec, _, _, hdis, rfl⟩ := hrec
  have hraise : raisedBy env h op.opData = ix.incItem env := by
    simp only [raisedBy, hcall.data, hdec]
  have hchange := dispatch_change hdis
  cases hitem : ix.incItem env with
  | none =>
    refine ⟨entries, ha.kept ((hchange.kept (K := fun _ => True) (absurd hitem)).trans
      (.of_eq counters)) (by simp) (fun h' op' hop' hex => ?_)
      (fun h' op' hop' _ _ hsome => ?_)⟩
    · have hne : h' ≠ h := by
        rintro rfl
        obtain rfl := Option.some_inj.1 (hop.symm.trans hop')
        simp [hcall.signed] at hex
      simp [ledger, Ledger.ops_setOp, hne, hop']
    · rw [ledger, Ledger.ops_setOp] at hop'
      split_ifs at hop' with hh
      · obtain rfl := Option.some_inj.1 hop'
        simp [hh, hraise, hitem] at hsome
      · exact hop'
  | some item =>
    cases hchange with
    | init hix | log hix | propose hix => simp [hix] at hitem
    | @raise s c item' hix stored authority owner room =>
      obtain rfl := Option.some_inj.1 (hitem.symm.trans hix)
      obtain ⟨a, hmem, -, hkey⟩ := authority
      rw [hmem, Option.map_some, Option.some_inj] at second
      exact ⟨_, ha.snoc hop hcall.signed hown (hraise.trans hitem) stored (hkey ▸ second) room
        counters ledger⟩

theorem accounted_step {input : Input env} (ha : Accounted env w entries)
    (hok : step addr w input = .ok (w', out)) : ∃ entries', Accounted env w' entries' := by
  cases input with
  | onefunc i =>
    have hkept : Kept (fun k => ∃ s, k = env.pda s) w w' :=
      (dispatch_change hok).kept fun _ a hmem hsigned ⟨s, hs⟩ =>
        i.derived_not_signer a hmem hsigned s hs
    refine ⟨entries, ha.kept hkept (fun id _ => ⟨_, rfl⟩) ?_ ?_⟩
    · intro h op hop hex
      rcases ledger_of_onefunc hok with ⟨hsame, -⟩ | ⟨i', sel, -, hstep⟩
      · rw [hsame, hop]
      · exact executed_fixed (step_cases hstep) hop hex
    · intro h op hop hex _ _
      rcases ledger_of_onefunc hok with ⟨hsame, -⟩ | ⟨i', sel, hix, hstep⟩
      · rw [← hsame, hop]
      · refine (executed_cases (step_cases hstep) hop hex).resolve_right ?_
        simp [hix, proposal]
  | photon i nested hw =>
    obtain ⟨hs, hserved⟩ := served hok
    cases hserved with
    | quiet counters old =>
      exact ⟨entries, ha.kept (.of_eq (K := fun _ => True) counters) (by simp)
        (fun h op => executed_fixed hs) fun h op hop hex hown _ => old h op hop hex hown⟩
    | called hop hcall hown second hrec counters ledger =>
      exact ha.called hop hcall hown second hrec counters ledger
    | @nested h op w₁ hop hother hfold counters ledger =>
      refine ⟨entries, ha.kept ((kept_of_foldlM hfold).trans (.of_eq counters)) ?_
        (fun h op => executed_fixed hs) ?_⟩
      · intro id hexcl
        refine ⟨⟨_, rfl⟩, fun heq => hother ?_⟩
        refine hexcl h { op with status := .executed } ?_ rfl heq.symm
        rw [ledger, Ledger.ops_setOp_self]
      · intro h' op' hop' _ hown _
        rw [ledger, Ledger.ops_setOp] at hop'
        split_ifs at hop'
        · obtain rfl := Option.some_inj.1 hop'
          exact absurd hown hother
        · exact hop'

theorem ledger_run {history : List (Record World (Input env) Effect)}
    (hr : (world addr).Run World.genesis history w) :
    ∃ history', (endpoint env).Run Ledger.genesis history' w.ledger ∧
      outputs history' = outputs history := by
  induction hr with
  | nil => exact ⟨[], .nil, rfl⟩
  | @snoc history w input w' out hr hok ih =>
    obtain ⟨history', hrun, hout⟩ := ih
    have hsnoc {i : Photon.Invocation env}
        (hstep : (endpoint env).step w.ledger i = .ok (w'.ledger, out)) :
        ∃ history', (endpoint env).Run Ledger.genesis history' w'.ledger ∧
          outputs history' = outputs (history ++ [⟨w, input, out, w'⟩]) :=
      ⟨_, hrun.snoc hstep, by simpa [outputs] using hout⟩
    cases input with
    | photon i nested hw =>
      simp only [world, step, Except.bind_eq_ok, Except.mapError_eq_ok, Except.pure_eq_ok,
        Prod.exists, Prod.mk.injEq] at hok
      obtain ⟨l, _, hphoton, w₁, -, rfl, rfl⟩ := hok
      exact hsnoc hphoton
    | onefunc i =>
      rcases ledger_of_onefunc hok with ⟨hsame, rfl⟩ | ⟨i', sel, -, hstep⟩
      · exact ⟨history', hsame ▸ hrun, by simpa [outputs] using hout⟩
      · exact hsnoc hstep

/-- What is signed or executed was approved. -/
theorem approved_of_run {history : List (Record Ledger (Photon.Invocation env) Effect)}
    {l : Ledger} (hr : (endpoint env).Run Ledger.genesis history l) {h : Bytes}
    (hst : l.status h = .signed ∨ l.status h = .executed) : ∃ r ∈ history, Approves r h := by
  induction hr with
  | nil => simp [Ledger.genesis, Ledger.status] at hst
  | @snoc history l i l' out hr hok ih =>
    by_cases hold : l.status h = .signed ∨ l.status h = .executed
    · obtain ⟨r, hmem, hr⟩ := ih hold
      exact ⟨r, List.mem_append_left _ hmem, hr⟩
    · rw [not_or] at hold
      refine ⟨_, List.mem_append_right _ (List.mem_singleton_self _), .inl ⟨hold.1, ?_⟩⟩
      rcases (step_cases hok).status_next h with hsame | hnext
      · rw [hsame] at hst
        exact absurd hst (not_or.2 hold)
      · rcases hst with hst | hst
        · exact hst
        · rw [hst] at hnext
          generalize hbefore : l.status h = st at hnext
          cases hnext
          exact absurd hbefore hold.1

/-- What is stored for a hash later on is the same operation. -/
theorem opData_of_run {history : List (Record Ledger (Photon.Invocation env) Effect)}
    {l : Ledger} (hr : (endpoint env).Run Ledger.genesis history l) :
    ∀ r ∈ history, ∀ h op, r.after.ops h = some op →
      ∃ op', l.ops h = some op' ∧ op'.opData = op.opData := by
  induction hr with
  | nil => simp
  | @snoc history l i l' out _ hok ih =>
    simp only [List.forall_mem_append, List.forall_mem_singleton]
    refine ⟨fun r hmem h op hop => ?_, fun h op hop => ⟨op, hop, rfl⟩⟩
    obtain ⟨op₁, hop₁, hdata₁⟩ := ih r hmem h op hop
    obtain ⟨op', hop', hdata⟩ := (step_cases hok).opData_fixed hop₁
    exact ⟨op', hop', hdata.trans hdata₁⟩

/-- For every run of both programs : the ledger is one that the endpoint alone can reach, with the
same effects. Whatever operation has raised a counter was approved there, by a call after which
the recorded signers reach the rate of its protocol. -/
theorem raised_by_consensus (addr : Addresses env) (txs : List (List (Input env))) :
    ∃ history, (endpoint env).Run Ledger.genesis history
        ((world addr).run World.genesis txs).2.ledger ∧
      outputs history = outputs ((world addr).run World.genesis txs).1 ∧
      ∀ entries, Accounted env ((world addr).run World.genesis txs).2 entries →
        ∀ e ∈ entries, ∃ r ∈ history, Approves r e.opHash ∧ ∃ op p,
          r.after.ops e.opHash = some op ∧ r.before.protocols op.opData.protocolId = some p ∧
          raisedBy env e.opHash op.opData = some e.item ∧ 1 ≤ op.signers.length ∧
          p.consensusTargetRate.toNat * p.transmitters.length ≤ op.signers.length * 10000 := by
  obtain ⟨history, hrun, hout⟩ := ledger_run (run_sound (world addr) World.genesis txs)
  refine ⟨history, hrun, hout, fun entries ha e he => ?_⟩
  obtain ⟨op, -, hop, hex, -, hraise, -⟩ := ha.executed e he
  obtain ⟨r, hmem, happroves⟩ := approved_of_run (h := e.opHash) hrun
    (.inr ((Ledger.status_of_ops hop).trans hex))
  obtain ⟨pre, post, rfl, hpre, hok⟩ := hrun.of_mem hmem
  obtain ⟨_, op', p, -, hop', hp, hone, -, hrate⟩ := (step_cases hok).approved happroves
  obtain ⟨op₁, hop₁, hdata⟩ := opData_of_run hrun r hmem _ op' hop'
  obtain rfl := Option.some_inj.1 (hop.symm.trans hop₁)
  exact ⟨r, hmem, happroves, op', p, hop', hp, by rw [← hdata, hraise], hone, hrate⟩

end Photon.Onefunc
