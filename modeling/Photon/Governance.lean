import Photon.Lifecycle
import Photon.Localnet

/-!
# Governance operations

A governance operation is meant to take effect inside `execute_operation`, which calls
`receive_photon_msg` with the stored code and then marks the operation. The handler itself
asks for a signature of its call authority, and does not compare that account with the
address derived for the governance protocol. An executor can therefore call it alone.

Where every such call from outside names the derived address (`NamesAuthority`), it fails,
since nobody outside can sign for that address. Then a handler runs with the code that was
signed (`governed_as_signed`), and it runs once and leaves the operation executed. For the
latter the condition is also needed (`governed_once_iff`).

An operation on the endpoint itself cannot reach any other instruction of it, whatever method
it names and whatever accounts come with it (`self_call_confined`).
-/

namespace Photon

open Machine

variable {env : Env} {l l' : Ledger} {i : Invocation env} {out : List Effect} {h : Bytes}
  {history : List (Record Ledger (Invocation env) Effect)}

/-! ## Calls from outside -/

/-- The instruction is `receive_photon_msg`. -/
def Ix.isReceive : Ix → Bool
  | .receivePhotonMsg _ _ _ => true
  | _ => false

/-- A call of `receive_photon_msg` from outside has the derived call authority of the
governance protocol in the place of its call authority. -/
def NamesAuthority (i : Invocation env) : Prop :=
  i.ix.isReceive = true →
    i.accounts[1]?.map AccountInfo.key = some (env.pda (.callAuthority govProtocolId))

instance (i : Invocation env) : Decidable (NamesAuthority i) :=
  inferInstanceAs (Decidable (_ → _))

/-- Such a call fails, whatever else it says. -/
theorem Step.not_receive (hs : Step l i l' out) (hi : NamesAuthority i) :
    i.ix.isReceive = false := by
  cases hs with
  | setUp _ _ hix | load _ hix | answer hix | sign _ hix | execute hix | executeGov hix
  | propose _ _ hix | setAdmin _ hix => simp [hix, Ix.isReceive]
  | receive hix hop gov authority =>
    obtain ⟨a, ha, hsig⟩ := authority
    have hkey := hi (by simp [hix, Ix.isReceive])
    rw [ha, Option.map_some, Option.some_inj] at hkey
    exact absurd hkey (i.derived_not_signer a (List.mem_of_getElem? ha) hsig _)

/-! ## The code that is handled -/

theorem governed_of_mem {op : OpInfo} {code id : Bytes} {c : Config} {q : ProtocolInfo}
    {effects : List Effect} (gov : Governed env l op code id c q effects) (h' code' : Bytes) :
    .governed h' code' ∉ effects := by
  intro hmem
  obtain ⟨ev, hev⟩ := propose_of_mem_handleGovOperation gov.handled _ hmem
  simp at hev

/-- A handler ran in a step that is not a call of it from outside : with the stored code, on
the stored operation, and the step wrote what it gave. -/
theorem Step.governed_stored (hs : Step l i l' out) (hi : i.ix.isReceive = false) {code : Bytes}
    (hmem : .governed h code ∈ out) :
    ∃ op id c q effects, l.ops h = some op ∧ op.opData.functionSelector = .byCode code ∧
      Governed env l op code id c q effects ∧
      l'.config = some c ∧ l'.protocols = (l.setProtocol id q).protocols := by
  cases hs with
  | setUp | load | answer | execute | propose | setAdmin => simp at hmem
  | sign =>
    unfold signEffects at hmem
    split_ifs at hmem <;> simp at hmem
  | receive hix => simp [hix, Ix.isReceive] at hi
  | @executeGov c op p executor ix code' id conf q effects hix hop call hsel gov =>
    obtain ⟨rfl, rfl⟩ : h = c ∧ code = code' := by
      simpa [governed_of_mem gov h code] using hmem
    exact ⟨op, id, conf, q, effects, hop, hsel, gov, rfl, rfl⟩

/-- In every history in which each call of `receive_photon_msg` from outside names the derived
call authority : a handler that runs is the one of the stored selector, and what it changes
is what the stored selector and params give. -/
theorem governed_as_signed (env : Env) (txs : List (List (Invocation env)))
    (hC : ∀ r ∈ ((endpoint env).run Ledger.genesis txs).1, NamesAuthority r.input) :
    ∀ r ∈ ((endpoint env).run Ledger.genesis txs).1, ∀ h code, .governed h code ∈ r.out →
      ∃ op id c q effects, r.before.ops h = some op ∧
        op.opData.functionSelector = .byCode code ∧
        Governed env r.before op code id c q effects ∧
        r.after.config = some c ∧
        r.after.protocols = (r.before.setProtocol id q).protocols := by
  intro r hr h code hmem
  have hs := step_of_mem_run r hr
  exact hs.governed_stored (hs.not_receive (hC r hr)) hmem

section Localnet

open Localnet

/-- Nobody calls the handler from outside. -/
theorem namesAuthority_execute :
    ∀ r ∈ ((endpoint localnet).run Ledger.genesis (approval ++ [[execute]])).1,
      NamesAuthority r.input :=
  forall_input_of_run _ _ _ (by decide +kernel)

theorem governed_as_signed_localnet :
    ∃ r ∈ ((endpoint localnet).run Ledger.genesis (approval ++ [[execute]])).1,
      .governed opHash code ∈ r.out ∧
      ∃ op, r.before.ops opHash = some op ∧ op.opData.functionSelector = .byCode code := by
  obtain ⟨r, hr, hmem⟩ :
      ∃ r ∈ ((endpoint localnet).run Ledger.genesis (approval ++ [[execute]])).1,
        .governed opHash code ∈ r.out := by
    decide +kernel
  obtain ⟨op, _, _, _, _, hop, hsel, -⟩ :=
    governed_as_signed localnet _ namesAuthority_execute r hr opHash code hmem
  exact ⟨r, hr, hmem, op, hop, hsel⟩

/-- The code of `AddExecutor`. -/
def addExecutorCode : Bytes :=
  [0xe0, 0xaa, 0xfb, 0x68]

/-- The transmitters sign that `onefunc` gets a program address. The executor calls the handler
with another code, and the address becomes an executor of `onefunc` instead. -/
theorem governed_other_code :
    ∃ r ∈ ((endpoint localnet).run Ledger.genesis
        (approval ++ [[receive addExecutorCode]])).1,
      .governed opHash addExecutorCode ∈ r.out ∧
      selectorU32 addExecutorCode ≠ selectorU32 code ∧
      (∃ op ∈ r.before.ops opHash, op.opData.functionSelector = .byCode code) ∧
      ∃ q ∈ r.after.protocols onefuncId,
        q.executors = [onefuncAddress] ∧ q.protocolAddress = Pubkey.default := by
  decide +kernel

end Localnet

/-! ## How often -/

/-- The mark of a handler that ran for `h`. -/
def Effect.isGoverned (h : Bytes) : Effect → Bool
  | .governed h' _ => h' = h
  | _ => false

theorem Governed.countP_isGoverned {op : OpInfo} {code id : Bytes} {c : Config}
    {q : ProtocolInfo} {effects : List Effect} (gov : Governed env l op code id c q effects)
    (h : Bytes) : effects.countP (·.isGoverned h) = 0 := by
  rw [List.countP_eq_zero]
  intro e he
  obtain ⟨ev, rfl⟩ := propose_of_mem_handleGovOperation gov.handled e he
  simp [Effect.isGoverned]

/-- A handler runs for `h` in a call from outside, which leaves the operation as it is, or
when `h` is executed. -/
theorem Step.countP_isGoverned (hs : Step l i l' out) (h : Bytes) :
    out.countP (·.isGoverned h) = 0 ∨
      (out.countP (·.isGoverned h) = 1 ∧
        ∃ op, l.ops h = some op ∧ op.status = .signed ∧ op.opData.protocolAddr = photonId ∧
          ((i.ix.isReceive = true ∧ l'.ops h = some op) ∨
            (i.ix.isReceive = false ∧ l'.ops h = some { op with status := .executed }))) := by
  cases hs with
  | setUp | setAdmin => exact .inl rfl
  | load | answer | propose | execute => exact .inl (by simp [Effect.isGoverned])
  | sign executor =>
    left
    unfold signEffects
    split_ifs <;> simp [Effect.isGoverned]
  | @receive c op code params id conf q effects hix hop gov =>
    rw [List.countP_append, gov.countP_isGoverned h]
    by_cases hc : c = h
    · subst hc
      exact .inr ⟨by simp [Effect.isGoverned], op, hop, gov.signed, gov.protocolAddr,
        .inl ⟨by simp [hix, Ix.isReceive], hop⟩⟩
    · exact .inl (by simp [Effect.isGoverned, hc])
  | @executeGov c op p executor ix code id conf q effects hix hop call hsel gov =>
    simp only [List.cons_append, List.countP_cons, List.countP_append, gov.countP_isGoverned h]
    by_cases hc : c = h
    · subst hc
      exact .inr ⟨by simp [Effect.isGoverned], op, hop, gov.signed, gov.protocolAddr,
        .inr ⟨by simp [hix, Ix.isReceive], by simp⟩⟩
    · exact .inl (by simp [Effect.isGoverned, hc])

/-- Where every call from outside names the authority, a handler runs once for `h`, and `h` is
executed then. -/
theorem governed_once_of_names (hr : (endpoint env).Run Ledger.genesis history l)
    (hC : ∀ r ∈ history, NamesAuthority r.input) (h : Bytes) :
    (outputs history).countP (·.isGoverned h) ≤ 1 ∧
      (0 < (outputs history).countP (·.isGoverned h) → l.status h = .executed) := by
  obtain ⟨hle, hdone⟩ := hr.at_most_once (C := NamesAuthority)
    (D := fun l => l.status h = .executed) (p := (·.isGoverned h)) (by
      intro _ s i s' out _ hi hok
      have hs := step_cases hok
      refine ⟨hs.executed_stays, ?_⟩
      rcases hs.countP_isGoverned h with h0 | ⟨h1, op, hop, hst, -, ⟨hrec, -⟩ | ⟨-, hop'⟩⟩
      · exact .inl h0
      · simp [hs.not_receive hi] at hrec
      · exact .inr ⟨h1, by simp [Ledger.status_of_ops hop, hst],
          by simp [Ledger.status_of_ops hop']⟩) hC
  exact ⟨hle, fun hpos => hdone (by omega)⟩

/-- A governance operation becomes executed only in a step that runs its handler. -/
theorem Step.governed_of_executed (hs : Step l i l' out) {op : OpInfo} (hop : l.ops h = some op)
    (hself : op.opData.protocolAddr = photonId) (hbefore : l.status h ≠ .executed)
    (hafter : l'.status h = .executed) : 0 < out.countP (·.isGoverned h) := by
  have hother : ∀ {c : Bytes} {o : OpInfo} {l₁ : Ledger}, l₁.ops = l.ops → h ≠ c →
      (l₁.setOp c o).status h = l.status h := by
    intro c o l₁ hl₁ hc
    exact Ledger.status_congr (by simp [Ledger.ops_setOp, hc, hl₁])
  cases hs with
  | setUp | answer | propose | receive | setAdmin => exact absurd hafter hbefore
  | @load o c executor hix fresh =>
    by_cases hc : h = c
    · subst hc
      simp [fresh] at hop
    · exact absurd ((hother rfl hc).symm.trans hafter) hbefore
  | @sign c sigs op₁ p signers reached array executor hix signs =>
    by_cases hc : h = c
    · subst hc
      rw [Ledger.status_of_ops (Ledger.ops_setOp_self ..)] at hafter
      cases reached with
      | true => simp [OpInfo.signedBy] at hafter
      | false => exact absurd ((Ledger.status_of_ops signs.stored).trans hafter) hbefore
    · exact absurd ((hother rfl hc).symm.trans hafter) hbefore
  | @execute c op₁ p executor ix hix hop₁ call hne =>
    by_cases hc : h = c
    · subst hc
      obtain rfl := Option.some_inj.1 (hop.symm.trans hop₁)
      exact absurd hself hne
    · exact absurd ((hother rfl hc).symm.trans hafter) hbefore
  | @executeGov c op₁ p executor ix code id conf q effects hix hop₁ call hsel gov =>
    by_cases hc : h = c
    · subst hc
      exact List.countP_pos_iff.2 ⟨.governed h code, by simp, by simp [Effect.isGoverned]⟩
    · exact absurd ((hother rfl hc).symm.trans hafter) hbefore

/-- After a handler was called from outside, the operation can still be executed, and then the
handler runs again. -/
theorem governed_again (hr : (endpoint env).Run Ledger.genesis history l)
    {r : Record Ledger (Invocation env) Effect} (hmem : r ∈ history)
    (hrec : r.input.ix.isReceive = true) (hgov : 0 < r.out.countP (·.isGoverned h)) :
    (∃ op, l.ops h = some op ∧ op.opData.protocolAddr = photonId) ∧
      0 < (outputs history).countP (·.isGoverned h) ∧
      (l.status h = .executed → 1 < (outputs history).countP (·.isGoverned h)) := by
  induction hr with
  | nil => simp at hmem
  | @snoc history l i l' out hr hok ih =>
    have hs := step_cases hok
    have hcount : (outputs (history ++ [⟨l, i, out, l'⟩])).countP (·.isGoverned h) =
        (outputs history).countP (·.isGoverned h) + out.countP (·.isGoverned h) := by
      simp [outputs, List.countP_append]
    rcases List.mem_append.1 hmem with hmem | hmem
    · obtain ⟨⟨op, hop, hself⟩, hpos, htwice⟩ := ih hmem
      obtain ⟨op', hop', hdata⟩ := hs.opData_fixed hop
      refine ⟨⟨op', hop', by rw [hdata, hself]⟩, by omega, fun hex => ?_⟩
      by_cases hbefore : l.status h = .executed
      · have := htwice hbefore
        omega
      · have := hs.governed_of_executed hop hself hbefore hex
        omega
    · obtain rfl := List.mem_singleton.1 hmem
      rcases hs.countP_isGoverned h with h0 | ⟨h1, op, hop, hst, hself, ⟨-, hop'⟩ | ⟨hno, -⟩⟩
      · simp only at hgov
        omega
      · refine ⟨⟨op, hop', hself⟩, by omega, fun hex => ?_⟩
        simp [Ledger.status_of_ops hop', hst] at hex
      · simp [hno] at hrec

/-- For every hash a handler runs at most once, and the operation is executed at the end of
every list of transactions in which one ran. -/
def GovernedOnce (env : Env) (txs : List (List (Invocation env))) : Prop :=
  ∀ h, (outputs ((endpoint env).run Ledger.genesis txs).1).countP (·.isGoverned h) ≤ 1 ∧
    ∀ pre post, txs = pre ++ post →
      0 < (outputs ((endpoint env).run Ledger.genesis pre).1).countP (·.isGoverned h) →
      ((endpoint env).run Ledger.genesis pre).2.status h = .executed

/-- Governance operations take effect at most once exactly in the histories in which each call
of `receive_photon_msg` from outside names the derived call authority. -/
theorem governed_once_iff (env : Env) (txs : List (List (Invocation env))) :
    GovernedOnce env txs ↔
      ∀ r ∈ ((endpoint env).run Ledger.genesis txs).1, NamesAuthority r.input := by
  constructor
  · intro honce r hmem
    by_contra hnot
    obtain ⟨hrec, -⟩ : r.input.ix.isReceive = true ∧ _ := by
      simpa only [NamesAuthority, Classical.not_imp] using hnot
    obtain ⟨h, hgov⟩ : ∃ h, 0 < r.out.countP (·.isGoverned h) := by
      have hs := step_of_mem_run r hmem
      generalize r.before = l at hs
      generalize r.after = l' at hs
      generalize r.out = out at hs ⊢
      cases hs with
      | setUp _ _ hix | load _ hix | answer hix | sign _ hix | execute hix | executeGov hix
      | propose _ _ hix | setAdmin _ hix => simp [hix, Ix.isReceive] at hrec
      | @receive h op code params id conf q effects hix hop gov =>
        exact ⟨h, List.countP_pos_iff.2
          ⟨.governed h code, by simp, by simp [Effect.isGoverned]⟩⟩
    obtain ⟨-, hpos, htwice⟩ :=
      governed_again (run_sound (endpoint env) Ledger.genesis txs) hmem hrec hgov
    obtain ⟨hle, hend⟩ := honce h
    have := htwice (hend txs [] (by simp) hpos)
    omega
  · intro hC h
    refine ⟨(governed_once_of_names (run_sound _ _ txs) hC h).1, ?_⟩
    rintro pre post rfl hpos
    refine (governed_once_of_names (run_sound _ _ pre) ?_ h).2 hpos
    intro r hr
    exact hC r (by rw [run_append]; exact List.mem_append_left _ hr)

section Localnet

open Localnet

theorem governed_once_localnet :
    (outputs ((endpoint localnet).run Ledger.genesis (approval ++ [[execute]])).1).countP
        (·.isGoverned opHash) = 1 ∧
      ((endpoint localnet).run Ledger.genesis (approval ++ [[execute]])).2.status opHash =
        .executed := by
  have honce : GovernedOnce localnet (approval ++ [[execute]]) :=
    (governed_once_iff localnet _).2 namesAuthority_execute
  have hcount : (outputs ((endpoint localnet).run Ledger.genesis
      (approval ++ [[execute]])).1).countP (·.isGoverned opHash) = 1 := by
    decide +kernel
  exact ⟨hcount, (honce opHash).2 _ [] (by simp) (by rw [hcount]; decide)⟩

/-- The executor calls the handler twice, with the code that was signed, and the operation
can still be executed. -/
theorem governed_twice :
    ¬GovernedOnce localnet (approval ++ [[receive code], [receive code]]) ∧
      (outputs ((endpoint localnet).run Ledger.genesis
        (approval ++ [[receive code], [receive code]])).1).countP (·.isGoverned opHash) = 2 ∧
      ((endpoint localnet).run Ledger.genesis
        (approval ++ [[receive code], [receive code]])).2.status opHash = .signed := by
  have hrun : (outputs ((endpoint localnet).run Ledger.genesis
      (approval ++ [[receive code], [receive code]])).1).countP (·.isGoverned opHash) = 2 ∧
      ((endpoint localnet).run Ledger.genesis
        (approval ++ [[receive code], [receive code]])).2.status opHash = .signed := by
    decide +kernel
  refine ⟨fun honce => ?_, hrun⟩
  have hle := (honce opHash).1
  omega

end Localnet

/-! ## Calls of the endpoint by itself -/

/-- In every ledger : an execution of an operation on the endpoint itself succeeds only by a
`receive_photon_msg` with its own hash, code and params, for an operation of the governance
protocol that has its selector by code. -/
theorem self_call_confined (env : Env) (l l' : Ledger) (i : Invocation env) (out : List Effect)
    (h : Bytes) (op : OpInfo) (hix : i.ix = .executeOperation h) (hop : l.ops h = some op)
    (hself : op.opData.protocolAddr = photonId)
    (hok : (endpoint env).step l i = .ok (l', out)) :
    ∃ code ix l₁ nested executor,
      op.opData.functionSelector = .byCode code ∧ op.opData.protocolId = govProtocolId ∧
      ix.programId = photonId ∧
      Ix.decode env ix.data = .ok (.receivePhotonMsg h code op.opData.params) ∧
      receivePhotonMsg env l ix.accounts h code op.opData.params = .ok (l₁, nested) ∧
      l' = l₁.setOp h { op with status := .executed } ∧
      out = .invoke ix (.callAuthority govProtocolId) :: nested ++
        [.emit (.proposalExecuted h executor)] := by
  obtain ⟨op', p, executor, ix, l₁, nested, hop', call, hcall, hl', hout⟩ :=
    executeOperation_cases hix hok
  obtain rfl := Option.some_inj.1 (hop.symm.trans hop')
  rcases hcall with ⟨hother, -⟩ | ⟨-, code, hsel, hdec, hrec⟩
  · exact absurd hself hother
  · obtain ⟨op', id, c, q, effects, hop', gov, -⟩ := receivePhotonMsg_cases hrec
    obtain rfl := Option.some_inj.1 (hop.symm.trans hop')
    rw [gov.protocolId] at hout
    exact ⟨code, ix, l₁, nested, executor.key, hsel, gov.protocolId, call.program.trans hself,
      hdec, hrec, hl', hout⟩

section Localnet

open Localnet

theorem self_call_confined_localnet :
    ∃ l' out code ix,
      (endpoint localnet).step ((endpoint localnet).run Ledger.genesis approval).2 execute =
        .ok (l', out) ∧
      .invoke ix (.callAuthority govProtocolId) ∈ out ∧
      Ix.decode localnet ix.data = .ok (.receivePhotonMsg opHash code params) := by
  obtain ⟨op', hop', hdata, hsome⟩ :
      ∃ op' ∈ ((endpoint localnet).run Ledger.genesis approval).2.ops opHash,
        op'.opData = Localnet.op ∧ ((endpoint localnet).step
          ((endpoint localnet).run Ledger.genesis approval).2 execute).toOption.isSome = true := by
    decide +kernel
  obtain ⟨⟨l', out⟩, hstep⟩ := Option.isSome_iff_exists.1 hsome
  rw [Except.toOption_eq_some] at hstep
  obtain ⟨code, ix, l₁, nested, executor, -, -, -, hdec, -, -, hout⟩ :=
    self_call_confined localnet _ l' execute out opHash op' rfl hop' (by rw [hdata]; rfl) hstep
  rw [hdata] at hdec
  exact ⟨l', out, code, ix, hstep, by simp [hout], hdec⟩

end Localnet

end Photon
