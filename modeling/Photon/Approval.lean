import Mathlib.Data.List.Perm.Subperm
import Photon.Lifecycle
import Photon.Localnet

/-!
# Approval by the transmitters

`sign_operation` collects signers over several calls, in an array that every call reads,
extends and writes anew, while governance may change the transmitters and the rate between
two calls. `Recorded` is what one call adds to the array : new, distinct, current
transmitters, up to the one that reaches the rate.

Every stored signer therefore goes back to a signature and to a moment at which its
transmitter was registered (`signers_recorded`). It need not be registered any more when the
operation is approved. The approval is by the current transmitters exactly when every signer
stored before is still one (`approved_by_current_iff`).

A call on an operation whose stored signers meet the rate already, because the rate or the
list has shrunk since, answers true and leaves the status (`answer_matches_iff`).
-/

namespace Photon

open Machine

variable {env : Env} {l l' : Ledger} {i : Invocation env} {out : List Effect} {h : Bytes}
  {allowed signers : List EthAddress} {rate : UInt64} {sigs : List TransmitterSignature}
  {reached : Bool}

/-! ## The loop -/

theorem consensusRate_le {m n k : ℕ} (hmn : m ≤ n) : consensusRate m k ≤ consensusRate n k :=
  Nat.div_le_div_right (Nat.mul_le_mul_right _ hmn)

/-- The signers `added` to `signers` by one call with the signatures `sigs`. -/
structure Recorded (env : Env) (h : Bytes) (allowed : List EthAddress) (rate : UInt64)
    (sigs : List TransmitterSignature) (signers added : List EthAddress) (reached : Bool) :
    Prop where
  nodup : added.Nodup
  fresh : ∀ a ∈ added, a ∉ signers
  mem_allowed : ∀ a ∈ added, a ∈ allowed
  recovered : ∀ a ∈ added, ∃ sig ∈ sigs, ecrecover env h sig = .ok a
  /-- The last signer added is the one that reaches the rate. -/
  reaches : reached = true → added ≠ [] ∧
    rate.toNat ≤ consensusRate (signers ++ added).length allowed.length ∧
    (consensusRate signers.length allowed.length < rate.toNat →
      consensusRate ((signers ++ added).length - 1) allowed.length < rate.toNat)

namespace Recorded

variable {added : List EthAddress} {sig : TransmitterSignature} {t : EthAddress}

/-- A signature that adds nothing. -/
theorem skip (hadd : Recorded env h allowed rate sigs signers added reached) :
    Recorded env h allowed rate (sig :: sigs) signers added reached := by
  refine ⟨hadd.nodup, hadd.fresh, hadd.mem_allowed, ?_, hadd.reaches⟩
  intro a ha
  obtain ⟨s, hs, hrec⟩ := hadd.recovered a ha
  exact ⟨s, List.mem_cons_of_mem _ hs, hrec⟩

/-- A new signer that reaches the rate. -/
theorem last (ht : ecrecover env h sig = .ok t) (hnew : t ∈ allowed ∧ t ∉ signers)
    (hrate : rate.toNat ≤ consensusRate (signers ++ [t]).length allowed.length) :
    Recorded env h allowed rate (sig :: sigs) signers [t] true := by
  refine ⟨by simp, by simpa using hnew.2, by simpa using hnew.1, ?_, ?_⟩
  · intro a ha
    rw [List.mem_singleton.1 ha]
    exact ⟨sig, by simp, ht⟩
  · intro _
    exact ⟨by simp, hrate, by simp⟩

/-- A new signer that does not reach the rate, and what the later signatures add. -/
theorem cons (ht : ecrecover env h sig = .ok t) (hnew : t ∈ allowed ∧ t ∉ signers)
    (hrate : consensusRate (signers ++ [t]).length allowed.length < rate.toNat)
    (hadd : Recorded env h allowed rate sigs (signers ++ [t]) added reached) :
    Recorded env h allowed rate (sig :: sigs) signers (t :: added) reached := by
  have hfresh : t ∉ added := fun hmem => hadd.fresh t hmem (by simp)
  refine ⟨List.nodup_cons.2 ⟨hfresh, hadd.nodup⟩, ?_, ?_, ?_, ?_⟩
  · intro a ha
    rcases List.mem_cons.1 ha with rfl | ha
    · exact hnew.2
    · exact fun hmem => hadd.fresh a ha (by simp [hmem])
  · intro a ha
    rcases List.mem_cons.1 ha with rfl | ha
    · exact hnew.1
    · exact hadd.mem_allowed a ha
  · intro a ha
    rcases List.mem_cons.1 ha with rfl | ha
    · exact ⟨sig, by simp, ht⟩
    · exact hadd.skip.recovered a ha
  · intro hr
    obtain ⟨-, hle, hlt⟩ := hadd.reaches hr
    rw [List.append_cons]
    exact ⟨by simp, hle, fun _ => hlt hrate⟩

end Recorded

theorem signLoop_ok {signers' : List EthAddress}
    (hok : signLoop env h allowed rate signers sigs = .ok (signers', reached)) :
    ∃ added, signers' = signers ++ added ∧
      Recorded env h allowed rate sigs signers added reached := by
  induction sigs generalizing signers with
  | nil =>
    simp only [signLoop, Except.pure_eq_ok, Prod.mk.injEq] at hok
    obtain ⟨rfl, rfl⟩ := hok
    exact ⟨[], by simp, ⟨by simp, by simp, by simp, by simp, by simp⟩⟩
  | cons sig sigs ih =>
    simp only [signLoop, Except.bind_eq_ok] at hok
    obtain ⟨t, ht, hok⟩ := hok
    split_ifs at hok with hnew hrate
    · simp only [Except.pure_eq_ok, Prod.mk.injEq] at hok
      obtain ⟨rfl, rfl⟩ := hok
      exact ⟨[t], rfl, .last ht hnew hrate⟩
    · obtain ⟨added, rfl, hadd⟩ := ih hok
      exact ⟨t :: added, by simp, hadd.cons ht hnew (not_le.1 hrate)⟩
    · obtain ⟨added, rfl, hadd⟩ := ih hok
      exact ⟨added, rfl, hadd.skip⟩

/-- A transmitter is not the zero address. -/
theorem default_not_mem_transmitters (p : ProtocolInfo) :
    EthAddress.default ∉ p.transmitters :=
  Slots.not_mem_live _ _

theorem default_not_mem_signers (op : OpInfo) : EthAddress.default ∉ op.signers :=
  Slots.not_mem_occupied _ _

section Signs

variable {op : OpInfo} {p : ProtocolInfo} {signers' : List EthAddress} {array : Fixed EthAddress 16}

theorem Signs.default_not_mem (signs : Signs env l h sigs op p signers' reached array) :
    EthAddress.default ∉ signers' := by
  obtain ⟨added, rfl, hadd⟩ := signLoop_ok signs.loop
  rw [List.mem_append, not_or]
  exact ⟨default_not_mem_signers op,
    fun hmem => default_not_mem_transmitters p (hadd.mem_allowed _ hmem)⟩

/-- What `sign_operation` reads back after it wrote. -/
theorem Signs.signers_signedBy (signs : Signs env l h sigs op p signers' reached array) :
    (op.signedBy reached array).signers = signers' :=
  Slots.occupied_of_fill signs.default_not_mem signs.written

theorem Signs.signers_eq (signs : Signs env l h sigs op p signers' reached array) :
    ∃ added, (op.signedBy reached array).signers = op.signers ++ added ∧
      Recorded env h p.transmitters p.consensusTargetRate sigs op.signers added reached ∧
      (op.signers.Nodup → Slots.Packed EthAddress.default array) := by
  obtain ⟨added, heq, hadd⟩ := signLoop_ok signs.loop
  refine ⟨added, signs.signers_signedBy.trans heq, hadd, fun hnodup => ?_⟩
  refine Slots.packed_of_fill ?_ signs.default_not_mem signs.written
  rw [heq, List.nodup_append']
  exact ⟨hnodup, hadd.nodup, fun a ha ha' => hadd.fresh a ha' ha⟩

end Signs

/-! ## Stored signers -/

/-- A step keeps the stored signers and adds at the end. -/
theorem Step.signers_kept (hs : Step l i l' out) {op : OpInfo} (hop : l.ops h = some op) :
    ∃ op', l'.ops h = some op' ∧ op.signers <+: op'.signers := by
  rcases hs.ops_cases h with hsame | ⟨o, hnone, -⟩ |
    ⟨sigs, op₁, p, signers, reached, array, -, signs, hop'⟩ | ⟨op₁, hop₁, -, hop'⟩
  · exact ⟨op, hsame.trans hop, List.prefix_rfl⟩
  · simp [hnone] at hop
  · obtain rfl := Option.some_inj.1 (hop.symm.trans signs.stored)
    obtain ⟨added, heq, -⟩ := signs.signers_eq
    exact ⟨_, hop', by simp [heq]⟩
  · obtain rfl := Option.some_inj.1 (hop.symm.trans hop₁)
    exact ⟨_, hop', List.prefix_rfl⟩

theorem Step.packed (hs : Step l i l' out)
    (hl : ∀ h op, l.ops h = some op → Slots.Packed EthAddress.default op.uniqueSigners) :
    ∀ h op, l'.ops h = some op → Slots.Packed EthAddress.default op.uniqueSigners := by
  intro h op hop
  rcases hs.ops_cases h with hsame | ⟨o, -, -, -, hop'⟩ |
    ⟨sigs, op₁, p, signers, reached, array, -, signs, hop'⟩ | ⟨op₁, hop₁, -, hop'⟩
  · exact hl h op (hsame.symm.trans hop)
  · obtain rfl := Option.some_inj.1 (hop.symm.trans hop')
    exact Slots.packed_replicate _
  · obtain rfl := Option.some_inj.1 (hop.symm.trans hop')
    obtain ⟨added, -, -, hpacked⟩ := signs.signers_eq
    exact hpacked (hl h op₁ signs.stored).nodup_occupied
  · obtain rfl := Option.some_inj.1 (hop.symm.trans hop')
    exact hl h op₁ hop₁

/-- In the step `r` the address `a` was recovered from a signature over `h`, while it was a
transmitter of the protocol `id`. -/
def RecordedBy (r : Record Ledger (Invocation env) Effect) (h id : Bytes) (a : EthAddress) :
    Prop :=
  ∃ sigs sig p, r.input.ix = .signOperation h sigs ∧ sig ∈ sigs ∧
    ecrecover env h sig = .ok a ∧ r.before.protocols id = some p ∧ a ∈ p.transmitters

/-- Every stored signer was recorded by an earlier step. -/
theorem signers_recorded {history : List (Record Ledger (Invocation env) Effect)}
    (hr : (endpoint env).Run Ledger.genesis history l) :
    ∀ h op, l.ops h = some op → ∀ a ∈ op.signers,
      ∃ r ∈ history, RecordedBy r h op.opData.protocolId a := by
  induction hr with
  | nil => simp [Ledger.genesis]
  | @snoc history l i l' out hr hok ih =>
    intro h op hop a ha
    have hold : ∀ op₁, l.ops h = some op₁ → a ∈ op₁.signers →
        ∃ r ∈ history ++ [⟨l, i, out, l'⟩], RecordedBy r h op₁.opData.protocolId a := by
      intro op₁ hop₁ ha₁
      obtain ⟨r, hmem, hrec⟩ := ih h op₁ hop₁ a ha₁
      exact ⟨r, by simp [hmem], hrec⟩
    rcases (step_cases hok).ops_cases h with hsame | ⟨o, -, -, -, hop'⟩ |
      ⟨sigs, op₁, p, signers, reached, array, hix, signs, hop'⟩ | ⟨op₁, hop₁, -, hop'⟩
    · exact hold op (hsame.symm.trans hop) ha
    · obtain rfl := Option.some_inj.1 (hop.symm.trans hop')
      simp [OpInfo.signers, OpInfo.default] at ha
    · obtain rfl := Option.some_inj.1 (hop.symm.trans hop')
      obtain ⟨added, heq, hadd, -⟩ := signs.signers_eq
      rw [heq, List.mem_append] at ha
      rcases ha with ha | ha
      · exact hold op₁ signs.stored ha
      · obtain ⟨sig, hsig, hrec⟩ := hadd.recovered a ha
        exact ⟨⟨l, i, out, l'⟩, by simp, sigs, sig, p, hix, hsig, hrec, signs.protocol,
          hadd.mem_allowed a ha⟩
    · obtain rfl := Option.some_inj.1 (hop.symm.trans hop')
      exact hold op₁ hop₁ ha

/-! ## The step that approves -/

/-- The step `r` sets the status of `h` to signed, or sets it again. -/
def Approves (r : Record Ledger (Invocation env) Effect) (h : Bytes) : Prop :=
  (r.before.status h ≠ .signed ∧ r.after.status h = .signed) ∨
    ∃ executor, .emit (.proposalApproved h executor) ∈ r.out

/-- Only a recording call that reaches the rate approves. -/
theorem Step.signs_of_approves (hs : Step l i l' out) (ha : Approves ⟨l, i, out, l'⟩ h) :
    ∃ sigs op p signers array, i.ix = .signOperation h sigs ∧
      Signs env l h sigs op p signers true array ∧ l'.ops h = some (op.signedBy true array) := by
  rcases ha with ⟨hbefore, hafter⟩ | ⟨executor, hmem⟩
  · simp only at hbefore hafter
    rcases hs.ops_cases h with hsame | ⟨o, -, -, -, hop'⟩ |
      ⟨sigs, op, p, signers, reached, array, hix, signs, hop'⟩ | ⟨op, hop, -, hop'⟩
    · exact absurd ((Ledger.status_congr hsame).symm.trans hafter) hbefore
    · simp [Ledger.status_of_ops hop'] at hafter
    · cases reached with
      | false =>
        rw [Ledger.status_of_ops hop'] at hafter
        exact absurd ((Ledger.status_of_ops signs.stored).trans hafter) hbefore
      | true => exact ⟨sigs, op, p, signers, array, hix, signs, hop'⟩
    · simp [Ledger.status_of_ops hop'] at hafter
  · simp only at hmem
    cases hs with
    | setUp | setAdmin | load | answer | propose | execute => simp at hmem
    | @sign c sigs op p signers reached array executor' hix signs =>
      cases reached with
      | false => simp [signEffects] at hmem
      | true =>
        obtain ⟨rfl, -⟩ : h = c ∧ executor = executor' := by simpa [signEffects] using hmem
        exact ⟨sigs, op, p, signers, array, hix, signs, by simp⟩
    | receive hix hop gov =>
      have := propose_of_mem_handleGovOperation gov.handled (.emit (.proposalApproved h executor))
      simp at this
      simp [this] at hmem
    | executeGov hix hop call hsel gov =>
      have := propose_of_mem_handleGovOperation gov.handled (.emit (.proposalApproved h executor))
      simp at this
      simp [this] at hmem

/-! ## Provenance -/

/-- The addresses recovered from a list of signatures. -/
def recoveredSigners (env : Env) (h : Bytes) (sigs : List TransmitterSignature) :
    List EthAddress :=
  sigs.filterMap fun sig => (ecrecover env h sig).toOption

/-- One call adds at most one signer for each new address among its recovered ones. -/
theorem Recorded.length_le {added : List EthAddress}
    (hadd : Recorded env h allowed rate sigs signers added reached) :
    added.length ≤ ((recoveredSigners env h sigs).dedup.filter (· ∉ signers)).length := by
  refine (hadd.nodup.subperm ?_).length_le
  intro a ha
  obtain ⟨sig, hsig, hrec⟩ := hadd.recovered a ha
  have hmem : a ∈ recoveredSigners env h sigs :=
    List.mem_filterMap.2 ⟨sig, hsig, by simp [hrec, Except.toOption]⟩
  simpa [hmem] using hadd.fresh a ha

/-- What is known of the signers stored in `s`, reached by `history`. -/
structure Provenance (history : List (Record Ledger (Invocation env) Effect)) (s : Ledger) :
    Prop where
  packed : ∀ h op, s.ops h = some op → Slots.Packed EthAddress.default op.uniqueSigners
  recorded : ∀ h op, s.ops h = some op → ∀ a ∈ op.signers,
    ∃ r ∈ history, RecordedBy r h op.opData.protocolId a
  kept : ∀ r ∈ history, ∀ h op, r.before.ops h = some op →
    ∃ op', r.after.ops h = some op' ∧ op.signers <+: op'.signers
  approved : ∀ r ∈ history, ∀ h, Approves r h → ∃ op op' p,
    r.before.ops h = some op ∧ r.after.ops h = some op' ∧
    r.before.protocols op'.opData.protocolId = some p ∧
    1 ≤ op'.signers.length ∧ op.signers.length < op'.signers.length ∧
    p.consensusTargetRate.toNat * p.transmitters.length ≤ op'.signers.length * 10000
  no_duplicate : ∀ r ∈ history, ∀ h sigs op op', r.input.ix = .signOperation h sigs →
    r.before.ops h = some op → r.after.ops h = some op' →
    op'.signers.length ≤ op.signers.length +
      ((recoveredSigners env h sigs).dedup.filter (· ∉ op.signers)).length

theorem Step.approved (hs : Step l i l' out) (ha : Approves ⟨l, i, out, l'⟩ h) :
    ∃ op op' p, l.ops h = some op ∧ l'.ops h = some op' ∧
      l.protocols op'.opData.protocolId = some p ∧
      1 ≤ op'.signers.length ∧ op.signers.length < op'.signers.length ∧
      p.consensusTargetRate.toNat * p.transmitters.length ≤ op'.signers.length * 10000 := by
  obtain ⟨sigs, op, p, signers, array, -, signs, hop'⟩ := hs.signs_of_approves ha
  obtain ⟨added, heq, hadd, -⟩ := signs.signers_eq
  obtain ⟨hne, hle, -⟩ := hadd.reaches rfl
  have hpos : 0 < added.length := List.length_pos_iff.2 hne
  have hlen : (op.signedBy true array).signers.length = op.signers.length + added.length := by
    rw [heq, List.length_append]
  refine ⟨op, _, p, signs.stored, hop', signs.protocol, by omega, by omega, ?_⟩
  rw [heq]
  exact (Nat.le_div_iff_mul_le signs.length_pos).1 hle

theorem Step.no_duplicate (hs : Step l i l' out) {op op' : OpInfo}
    (hix : i.ix = .signOperation h sigs) (hop : l.ops h = some op) (hop' : l'.ops h = some op') :
    op'.signers.length ≤ op.signers.length +
      ((recoveredSigners env h sigs).dedup.filter (· ∉ op.signers)).length := by
  rcases hs.ops_cases h with hsame | ⟨o, hnone, -⟩ |
    ⟨sigs', op₁, p, signers, reached, array, hix', signs, hop₁'⟩ | ⟨op₁, hop₁, -, hop₁'⟩
  · obtain rfl := Option.some_inj.1 (hop.symm.trans (hsame.symm.trans hop'))
    omega
  · simp [hnone] at hop
  · obtain ⟨-, rfl⟩ : h = h ∧ sigs = sigs' := by simpa [hix] using hix'
    obtain rfl := Option.some_inj.1 (hop.symm.trans signs.stored)
    obtain rfl := Option.some_inj.1 (hop'.symm.trans hop₁')
    obtain ⟨added, heq, hadd, -⟩ := signs.signers_eq
    rw [heq, List.length_append]
    exact Nat.add_le_add_left hadd.length_le _
  · obtain rfl := Option.some_inj.1 (hop.symm.trans hop₁)
    obtain rfl := Option.some_inj.1 (hop'.symm.trans hop₁')
    exact Nat.le_add_right _ _

/-- The stored signers of every reachable ledger. -/
theorem provenance (env : Env) (txs : List (List (Invocation env))) :
    Provenance ((endpoint env).run Ledger.genesis txs).1
      ((endpoint env).run Ledger.genesis txs).2 := by
  have hr := run_sound (endpoint env) Ledger.genesis txs
  refine ⟨?_, signers_recorded hr, ?_, ?_, ?_⟩
  · refine hr.inv (I := fun l => ∀ h op, l.ops h = some op →
      Slots.Packed EthAddress.default op.uniqueSigners) ?_ ?_
    · simp [Ledger.genesis]
    · intro s i s' out hI hok
      exact (step_cases hok).packed hI
  · intro r hmem h op hop
    exact (step_of_mem_run r hmem).signers_kept hop
  · intro r hmem h ha
    exact (step_of_mem_run r hmem).approved ha
  · intro r hmem h sigs op op' hix hop hop'
    exact (step_of_mem_run r hmem).no_duplicate hix hop hop'

/-! ## Approval by the current transmitters -/

/-- The recorded signers that are transmitters now reach the rate. -/
def ApprovedBy (p : ProtocolInfo) (op : OpInfo) : Prop :=
  p.consensusTargetRate.toNat ≤
    consensusRate (op.signers.countP (· ∈ p.transmitters)) p.transmitters.length

instance (p : ProtocolInfo) (op : OpInfo) : Decidable (ApprovedBy p op) :=
  inferInstanceAs (Decidable (_ ≤ _))

/-- The signer that reaches the rate is the last one, so a single stored signer that is no
longer a transmitter leaves the current ones below it. -/
theorem Signs.approvedBy_iff {op : OpInfo} {p : ProtocolInfo} {signers' : List EthAddress}
    {array : Fixed EthAddress 16} (signs : Signs env l h sigs op p signers' true array) :
    ApprovedBy p (op.signedBy true array) ↔ ∀ a ∈ op.signers, a ∈ p.transmitters := by
  obtain ⟨added, heq, hadd, -⟩ := signs.signers_eq
  obtain ⟨-, hle, hlt⟩ := hadd.reaches rfl
  have hadded : added.countP (· ∈ p.transmitters) = added.length :=
    List.countP_eq_length.2 fun a ha => by simpa using hadd.mem_allowed a ha
  have hcount : (op.signedBy true array).signers.countP (· ∈ p.transmitters) =
      op.signers.countP (· ∈ p.transmitters) + added.length := by
    rw [heq, List.countP_append, hadded]
  constructor
  · intro happ
    by_contra hnot
    have hne : op.signers.countP (· ∈ p.transmitters) ≠ op.signers.length := by
      intro hall
      refine hnot fun a ha => ?_
      simpa using List.countP_eq_length.1 hall a ha
    have hless : op.signers.countP (· ∈ p.transmitters) < op.signers.length :=
      lt_of_le_of_ne List.countP_le_length hne
    have hfew : (op.signedBy true array).signers.countP (· ∈ p.transmitters) ≤
        (op.signers ++ added).length - 1 := by
      rw [hcount, List.length_append]
      omega
    exact absurd happ (not_le.2 ((consensusRate_le hfew).trans_lt (hlt signs.rate_lt)))
  · intro hall
    have hfull : op.signers.countP (· ∈ p.transmitters) = op.signers.length :=
      List.countP_eq_length.2 fun a ha => by simpa using hall a ha
    unfold ApprovedBy
    rw [hcount, hfull, ← List.length_append]
    exact hle

/-- In every history : where an operation becomes signed, its approval is by the transmitters
of that moment exactly when every signer stored before is one of them. -/
theorem approved_by_current_iff (env : Env) (txs : List (List (Invocation env))) :
    ∀ r ∈ ((endpoint env).run Ledger.genesis txs).1, ∀ h op op' p,
      r.before.ops h = some op → r.after.ops h = some op' →
      r.before.protocols op.opData.protocolId = some p →
      r.before.status h ≠ .signed → r.after.status h = .signed →
      (ApprovedBy p op' ↔ ∀ a ∈ op.signers, a ∈ p.transmitters) := by
  intro r hmem h op op' p hop hop' hp hbefore hafter
  obtain ⟨sigs, op₁, p₁, signers, array, -, signs, hop₁'⟩ :=
    (step_of_mem_run r hmem).signs_of_approves (.inl ⟨hbefore, hafter⟩)
  obtain rfl := Option.some_inj.1 (hop.symm.trans signs.stored)
  obtain rfl := Option.some_inj.1 (hop'.symm.trans hop₁')
  obtain rfl := Option.some_inj.1 (hp.symm.trans signs.protocol)
  exact signs.approvedBy_iff

section Localnet

open Localnet

theorem approved_by_current_localnet :
    ∃ r ∈ ((endpoint localnet).run Ledger.genesis approval).1, ∃ op op' p,
      r.before.ops opHash = some op ∧ op.signers = [transmitter1] ∧
      r.after.ops opHash = some op' ∧ r.after.status opHash = .signed ∧ ApprovedBy p op' := by
  obtain ⟨r, hr, hbefore, hafter, op, hop, hone, op', hop', p, hp, ht⟩ :
      ∃ r ∈ ((endpoint localnet).run Ledger.genesis approval).1,
        r.before.status opHash ≠ .signed ∧ r.after.status opHash = .signed ∧
        ∃ op ∈ r.before.ops opHash, op.signers = [transmitter1] ∧
        ∃ op' ∈ r.after.ops opHash, ∃ p ∈ r.before.protocols op.opData.protocolId,
        transmitter1 ∈ p.transmitters := by
    decide +kernel
  refine ⟨r, hr, op, op', p, hop, hone, hop', hafter, ?_⟩
  rw [approved_by_current_iff localnet _ r hr opHash op op' p hop hop' hp hbefore hafter, hone]
  simpa using ht

/-- The first transmitter signs and is replaced, and the second signs : the operation becomes
signed with one signer out of two transmitters, at the rate of all of them. -/
theorem approved_by_former_transmitter :
    ∃ r ∈ ((endpoint localnet).run Ledger.genesis
        [[setUp 10000 [transmitter1, transmitter2]], [load], [sign [signature1]],
          [setUp 10000 [transmitter2, transmitter3]], [sign [signature2]]]).1,
      r.before.status opHash = .init ∧ r.after.status opHash = .signed ∧
      ∃ op ∈ r.before.ops opHash, ∃ op' ∈ r.after.ops opHash,
      ∃ p ∈ r.before.protocols op.opData.protocolId, ¬ApprovedBy p op' := by
  decide +kernel

end Localnet

/-! ## The answer -/

/-- In every history : where `sign_operation` answers true, the operation is signed after it,
exactly unless the operation was in its first stage and its stored signers met the rate
already. -/
theorem answer_matches_iff (env : Env) (txs : List (List (Invocation env))) :
    ∀ r ∈ ((endpoint env).run Ledger.genesis txs).1, ∀ h sigs op p,
      r.input.ix = .signOperation h sigs → r.before.ops h = some op →
      r.before.protocols op.opData.protocolId = some p →
      ((.returned true ∈ r.out → r.after.status h = .signed) ↔
        ¬(op.status = .init ∧ p.consensusTargetRate.toNat ≤
          consensusRate op.signers.length p.transmitters.length)) := by
  rintro ⟨l, i, out, l'⟩ hmem h sigs op p hix hop hp
  simp only at hix hop hp ⊢
  have hs := step_of_mem_run _ hmem
  simp only at hs
  cases hs with
  | setUp _ _ hix' | load _ hix' | execute hix' | executeGov hix' | propose _ _ hix' | receive hix'
  | setAdmin _ hix' => simp [hix] at hix'
  | @answer c sigs' op₁ p₁ hix' hop₁ hst hp₁ hlen hrate =>
    obtain ⟨rfl, -⟩ : h = c ∧ sigs = sigs' := by simpa [hix] using hix'
    obtain rfl := Option.some_inj.1 (hop.symm.trans hop₁)
    obtain rfl := Option.some_inj.1 (hp.symm.trans hp₁)
    rw [Ledger.status_of_ops hop]
    rcases hst with hst | hst <;> simp [hst, hrate]
  | @sign c sigs' op₁ p₁ signers reached array executor hix' signs =>
    obtain ⟨rfl, -⟩ : h = c ∧ sigs = sigs' := by simpa [hix] using hix'
    obtain rfl := Option.some_inj.1 (hop.symm.trans signs.stored)
    obtain rfl := Option.some_inj.1 (hp.symm.trans signs.protocol)
    have hrate := not_le.2 signs.rate_lt
    cases reached with
    | false => simp [signEffects, hrate]
    | true => simp [Ledger.status, OpInfo.signedBy, hrate]

section Localnet

open Localnet

theorem answer_matches_localnet :
    ∃ r ∈ ((endpoint localnet).run Ledger.genesis approval).1,
      r.input.ix = .signOperation opHash [signature2] ∧ .returned true ∈ r.out ∧
      r.after.status opHash = .signed := by
  obtain ⟨r, hr, hix, htrue, op, hop, p, hp, hnot⟩ :
      ∃ r ∈ ((endpoint localnet).run Ledger.genesis approval).1,
        r.input.ix = .signOperation opHash [signature2] ∧ .returned true ∈ r.out ∧
        ∃ op ∈ r.before.ops opHash, ∃ p ∈ r.before.protocols op.opData.protocolId,
        ¬(op.status = .init ∧ p.consensusTargetRate.toNat ≤
          consensusRate op.signers.length p.transmitters.length) := by
    decide +kernel
  have hsigned := (answer_matches_iff localnet _ r hr opHash _ op p hix hop hp).2 hnot htrue
  exact ⟨r, hr, hix, htrue, hsigned⟩

/-- One of two transmitters signs, and the rate is halved. The next call answers true and
leaves the operation in its first stage. -/
theorem answer_true_status_init :
    ∃ r ∈ ((endpoint localnet).run Ledger.genesis
        [[setUp 10000 [transmitter1, transmitter2]], [load], [sign [signature1]],
          [setUp 5000 [transmitter1, transmitter2]], [sign [signature2]]]).1,
      r.input.ix = .signOperation opHash [signature2] ∧ .returned true ∈ r.out ∧
      r.after.status opHash = .init := by
  decide +kernel

end Localnet

end Photon
