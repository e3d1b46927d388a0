import Mathlib.Data.Finset.Card
import Photon.Approval
import Photon.Deployment

/-!
# Signatures in any order and number

`sign_operation` may be called many times with parts of the signatures. A call that goes on
where another ended reads the recorded signers back from the operation's array. If all
signatures can be recovered, calls with two lists one after the other end as one call with both
(`signOperation_append`), and the outcome of a call depends only on the number of new
transmitters among the signers (`summary_signOperation`). So neither the order of the signatures
nor repetitions nor other signatures by the same key matter (`signatures_unordered`).

The array has 16 slots for signers and the protocol 20 for transmitters. Any number of calls stay
within the array exactly when 16 signers meet the rate, or there are no more than 16 to record
(`signers_fit_iff`).
-/

namespace Photon

open Machine

variable {env : Env} {l : Ledger} {accounts : List AccountInfo} {h : Bytes}
  {allowed signers signers' : List EthAddress} {rate : UInt64} {sig : TransmitterSignature}
  {sigs sigs' : List TransmitterSignature} {ctx : SignOperation} {t : EthAddress}

/-! ## The loop -/

variable (env h) in
/-- Every signature can be recovered. -/
def Recoverable (sigs : List TransmitterSignature) : Prop :=
  ∀ sig ∈ sigs, ∃ t, ecrecover env h sig = .ok t

instance (sigs : List TransmitterSignature) : Decidable (Recoverable env h sigs) :=
  decidable_of_iff (∀ sig ∈ sigs, (ecrecover env h sig).toOption.isSome = true) <| by
    simp only [Recoverable, Option.isSome_iff_exists, Except.toOption_eq_some]

variable (env h) in
/-- The transmitters among the signers that are not recorded yet. -/
def freshSigners (allowed signers : List EthAddress) (sigs : List TransmitterSignature) :
    Finset EthAddress :=
  (recoveredSigners env h sigs).toFinset.filter fun a => a ∈ allowed ∧ a ∉ signers

/-- How many signers are recorded among `n` transmitters, and whether the rate is reached, when
`m` new ones come one by one to `s` others. -/
def tally (rate : UInt64) (n : ℕ) : ℕ → ℕ → ℕ × Bool
  | s, 0 => (s, false)
  | s, m + 1 =>
    if rate.toNat ≤ consensusRate (s + 1) n then (s + 1, true) else tally rate n (s + 1) m

theorem recoveredSigners_cons (ht : ecrecover env h sig = .ok t) :
    recoveredSigners env h (sig :: sigs) = t :: recoveredSigners env h sigs := by
  simp [recoveredSigners, ht, Except.toOption]

theorem card_freshSigners_new (ht : ecrecover env h sig = .ok t)
    (hnew : t ∈ allowed ∧ t ∉ signers) :
    (freshSigners env h allowed signers (sig :: sigs)).card =
      (freshSigners env h allowed (signers ++ [t]) sigs).card + 1 := by
  have hinsert : freshSigners env h allowed signers (sig :: sigs) =
      insert t (freshSigners env h allowed (signers ++ [t]) sigs) := by
    ext a
    simp only [freshSigners, recoveredSigners_cons ht, List.toFinset_cons, Finset.mem_filter,
      Finset.mem_insert, List.mem_append, List.mem_singleton]
    by_cases hat : a = t
    · simp [hat, hnew]
    · simp [hat]
  rw [hinsert, Finset.card_insert_of_notMem]
  simp [freshSigners]

theorem freshSigners_old (ht : ecrecover env h sig = .ok t)
    (hold : ¬(t ∈ allowed ∧ t ∉ signers)) :
    freshSigners env h allowed signers (sig :: sigs) = freshSigners env h allowed signers sigs := by
  rw [freshSigners, recoveredSigners_cons ht, List.toFinset_cons, Finset.filter_insert,
    if_neg hold, freshSigners]

/-- The loop records as many signers as the tally says. -/
theorem signLoop_tally (hrec : Recoverable env h sigs) (allowed : List EthAddress) (rate : UInt64)
    (signers : List EthAddress) :
    ∃ signers' reached, signLoop env h allowed rate signers sigs = .ok (signers', reached) ∧
      (signers'.length, reached) = tally rate allowed.length signers.length
        (freshSigners env h allowed signers sigs).card := by
  induction sigs generalizing signers with
  | nil => exact ⟨signers, false, rfl, by simp [freshSigners, recoveredSigners, tally]⟩
  | cons sig sigs ih =>
    obtain ⟨t, ht⟩ := hrec sig List.mem_cons_self
    have hrest := ih fun s hs => hrec s (List.mem_cons_of_mem _ hs)
    simp only [signLoop, Except.bind_eq_ok]
    by_cases hnew : t ∈ allowed ∧ t ∉ signers
    · rw [card_freshSigners_new ht hnew, tally]
      by_cases hrate : rate.toNat ≤ consensusRate (signers ++ [t]).length allowed.length
      · refine ⟨signers ++ [t], true, ⟨t, ht, ?_⟩, ?_⟩
        · rw [if_pos hnew, if_pos hrate]
          rfl
        · rw [List.length_append, List.length_singleton] at hrate ⊢
          rw [if_pos hrate]
      · obtain ⟨s, r, hsr, htally⟩ := hrest (signers ++ [t])
        refine ⟨s, r, ⟨t, ht, ?_⟩, ?_⟩
        · rw [if_pos hnew, if_neg hrate, hsr]
        · rw [List.length_append, List.length_singleton] at hrate htally
          rw [if_neg hrate, htally]
    · obtain ⟨s, r, hsr, htally⟩ := hrest signers
      rw [freshSigners_old ht hnew]
      refine ⟨s, r, ⟨t, ht, ?_⟩, htally⟩
      rw [if_neg hnew, hsr]

/-- A loop that does not reach the rate has recorded every transmitter that signed, and these are
too few. -/
theorem signLoop_not_reached
    (hlt : consensusRate signers.length allowed.length < rate.toNat)
    (hok : signLoop env h allowed rate signers sigs = .ok (signers', false)) :
    (∀ a ∈ recoveredSigners env h sigs, a ∈ allowed → a ∈ signers') ∧ signers ⊆ signers' ∧
      consensusRate signers'.length allowed.length < rate.toNat := by
  induction sigs generalizing signers with
  | nil =>
    simp only [signLoop, Except.pure_eq_ok, Prod.mk.injEq, and_true] at hok
    subst hok
    exact ⟨by simp [recoveredSigners], List.Subset.refl _, hlt⟩
  | cons sig sigs ih =>
    simp only [signLoop, Except.bind_eq_ok] at hok
    obtain ⟨t, ht, hok⟩ := hok
    rw [recoveredSigners_cons ht]
    split_ifs at hok with hnew hrate
    · simp at hok
    · obtain ⟨hmem, hsub, hless⟩ := ih (not_le.1 hrate) hok
      refine ⟨?_, fun a ha => hsub (by simp [ha]), hless⟩
      intro a ha hallowed
      rcases List.mem_cons.1 ha with rfl | ha
      · exact hsub (by simp)
      · exact hmem a ha hallowed
    · obtain ⟨hmem, hsub, hless⟩ := ih hlt hok
      refine ⟨?_, hsub, hless⟩
      intro a ha hallowed
      rcases List.mem_cons.1 ha with rfl | ha
      · by_contra hnot
        exact hnew ⟨hallowed, fun hold => hnot (hsub hold)⟩
      · exact hmem a ha hallowed

/-- The loop goes on where it ended, unless the rate is reached. -/
theorem signLoop_append : signLoop env h allowed rate signers (sigs ++ sigs') = (do
    let (signers', reached) ← signLoop env h allowed rate signers sigs
    if reached then pure (signers', true) else signLoop env h allowed rate signers' sigs') := by
  induction sigs generalizing signers with
  | nil => rfl
  | cons sig sigs ih =>
    simp only [List.cons_append, signLoop]
    cases ecrecover env h sig with
    | error e => rfl
    | ok t =>
      simp only [bind, Except.bind]
      split_ifs with hnew hrate
      · rfl
      · exact ih
      · exact ih

theorem le_tally (rate : UInt64) (n s m : ℕ) : s ≤ (tally rate n s m).1 := by
  induction m generalizing s with
  | zero => exact le_rfl
  | succ m ih =>
    rw [tally]
    split_ifs
    · exact Nat.le_succ s
    · exact (Nat.le_succ s).trans (ih (s + 1))

/-- At most `k` signers are recorded if these meet the rate, or if there are no more of them. -/
theorem tally_le_iff {n s m k : ℕ} (hs : s ≤ k) (hlt : consensusRate s n < rate.toNat) :
    (tally rate n s m).1 ≤ k ↔ rate.toNat ≤ consensusRate k n ∨ s + m ≤ k := by
  induction m generalizing s with
  | zero => exact iff_of_true hs (.inr hs)
  | succ m ih =>
    have hfull (h : rate.toNat ≤ consensusRate k n) : s < k := by
      refine lt_of_le_of_ne hs ?_
      rintro rfl
      omega
    rw [tally]
    split_ifs with hrate
    · constructor
      · exact fun hle => .inl (hrate.trans (consensusRate_le hle))
      · rintro (h | h)
        · exact hfull h
        · simp only
          omega
    · rcases hs.lt_or_eq with hlt' | rfl
      · rw [ih hlt' (not_le.1 hrate)]
        omega
      · have := le_tally rate n (s + 1) m
        constructor
        · omega
        · rintro (h | h)
          · exact absurd (hfull h) (lt_irrefl _)
          · omega

/-! ## One call -/

theorem signOperation_failed {e : Error}
    (hctx : SignOperation.tryAccounts env l h accounts = .error e) :
    signOperation env l accounts h sigs = .error e := by
  simp only [signOperation, hctx, bind, Except.bind]

theorem signOperation_no_transmitters
    (hctx : SignOperation.tryAccounts env l h accounts = .ok ctx)
    (hnone : ctx.protocolInfo.transmitters.length = 0) :
    signOperation env l accounts h sigs = .error (.custom .noTransmittersAllowed) := by
  simp [signOperation, hctx, hnone, require, bind, Except.bind]

/-- The stored signers reach the rate already. -/
theorem signOperation_answers
    (hctx : SignOperation.tryAccounts env l h accounts = .ok ctx)
    (hpos : 0 < ctx.protocolInfo.transmitters.length)
    (hrate : ctx.protocolInfo.consensusTargetRate.toNat ≤
      consensusRate ctx.opInfo.signers.length ctx.protocolInfo.transmitters.length) :
    signOperation env l accounts h sigs = .ok (l, [.returned true]) := by
  simp [signOperation, hctx, hpos, hrate, require, bind, Except.bind, pure, Except.pure]

theorem signOperation_records
    (hctx : SignOperation.tryAccounts env l h accounts = .ok ctx)
    (hpos : 0 < ctx.protocolInfo.transmitters.length)
    (hlt : consensusRate ctx.opInfo.signers.length ctx.protocolInfo.transmitters.length <
      ctx.protocolInfo.consensusTargetRate.toNat) :
    signOperation env l accounts h sigs = (do
      let (signers, reached) ← signLoop env h ctx.protocolInfo.transmitters
        ctx.protocolInfo.consensusTargetRate ctx.opInfo.signers sigs
      let array ← orFail (Slots.fill EthAddress.default signers) Error.panic
      pure (l.setOp h (ctx.opInfo.signedBy reached array),
        signEffects h ctx.executor.key reached)) := by
  simp only [signOperation, hctx, hpos, not_le.2 hlt, require, bind, Except.bind, if_true,
    if_false]
  rfl

/-- What a call leaves of the operation : its status, the number of its signers, and what was put
out. -/
def summary (h : Bytes) (x : Ledger × List Effect) : OpStatus × Option ℕ × List Effect :=
  (x.1.status h, (x.1.ops h).map fun op => op.signers.length, x.2)

/-- The summary of a call that has collected `k` signers. -/
def SignOperation.recorded (ctx : SignOperation) (h : Bytes) (k : ℕ) (reached : Bool) :
    Except Error (OpStatus × Option ℕ × List Effect) :=
  if k ≤ 16 then
    .ok (if reached then .signed else ctx.opInfo.status, some k,
      signEffects h ctx.executor.key reached)
  else .error .panic

/-- The summary of a call on these accounts that brings `m` new signers. -/
def SignOperation.outcome (ctx : SignOperation) (h : Bytes) (m : ℕ) :
    Except Error (OpStatus × Option ℕ × List Effect) :=
  if ctx.protocolInfo.transmitters.length = 0 then .error (.custom .noTransmittersAllowed)
  else if ctx.protocolInfo.consensusTargetRate.toNat ≤
      consensusRate ctx.opInfo.signers.length ctx.protocolInfo.transmitters.length then
    .ok (ctx.opInfo.status, some ctx.opInfo.signers.length, [.returned true])
  else
    let (k, reached) := tally ctx.protocolInfo.consensusTargetRate
      ctx.protocolInfo.transmitters.length ctx.opInfo.signers.length m
    ctx.recorded h k reached

theorem fill_eq_none {xs : List EthAddress} :
    (Slots.fill EthAddress.default xs : Option (Fixed EthAddress 16)) = none ↔ 16 < xs.length := by
  constructor
  · intro hnone
    by_contra hle
    obtain ⟨array, hfill⟩ : ∃ array : Fixed EthAddress 16,
        Slots.fill EthAddress.default xs = some array := Slots.exists_fill (not_lt.1 hle)
    simp [hnone] at hfill
  · intro hlt
    rw [Option.eq_none_iff_forall_ne_some]
    intro array hfill
    exact absurd (Slots.fill_eq_some.1 hfill).1 (not_le.2 hlt)

/-- Signers that do not fit do not fit with more of them. -/
theorem fill_append_eq_none {xs ys : List EthAddress}
    (hfull : (Slots.fill EthAddress.default xs : Option (Fixed EthAddress 16)) = none) :
    (Slots.fill EthAddress.default (xs ++ ys) : Option (Fixed EthAddress 16)) = none := by
  have hlong := fill_eq_none.1 hfull
  rw [fill_eq_none, List.length_append]
  omega

/-- The outcome of a call depends on its signatures only through the number of new signers. -/
theorem summary_signOperation (hctx : SignOperation.tryAccounts env l h accounts = .ok ctx)
    (hrec : Recoverable env h sigs) :
    (signOperation env l accounts h sigs).map (summary h) = ctx.outcome h
      (freshSigners env h ctx.protocolInfo.transmitters ctx.opInfo.signers sigs).card := by
  obtain ⟨hop, hst, hp, -⟩ := SignOperation.of_tryAccounts hctx
  unfold SignOperation.outcome
  rcases Nat.eq_zero_or_pos ctx.protocolInfo.transmitters.length with hnone | hpos
  · rw [signOperation_no_transmitters hctx hnone, if_pos hnone]
    rfl
  rw [if_neg hpos.ne']
  rcases Nat.lt_or_ge (consensusRate ctx.opInfo.signers.length
    ctx.protocolInfo.transmitters.length) ctx.protocolInfo.consensusTargetRate.toNat
    with hlt | hrate
  · obtain ⟨signers', reached, hloop, htally⟩ := signLoop_tally hrec
      ctx.protocolInfo.transmitters ctx.protocolInfo.consensusTargetRate ctx.opInfo.signers
    rw [signOperation_records hctx hpos hlt, hloop, if_neg (not_le.2 hlt), ← htally]
    cases hfill : (Slots.fill EthAddress.default signers' : Option (Fixed EthAddress 16)) with
    | none =>
      have hlong := fill_eq_none.1 hfill
      simp [SignOperation.recorded, not_le.2 hlong, hfill, orFail, Except.map, bind, Except.bind]
    | some array =>
      have signs : Signs env l h sigs ctx.opInfo ctx.protocolInfo signers' reached array :=
        ⟨hop, hst, hp, hpos, hlt, hloop, hfill⟩
      have hlen := (Slots.fill_eq_some.1 hfill).1
      simp [SignOperation.recorded, hlen, hfill, orFail, Except.map, bind, Except.bind, pure,
        Except.pure, summary, Ledger.status, OpInfo.signedBy]
      exact congrArg List.length signs.signers_signedBy
  · rw [signOperation_answers hctx hpos hrate, if_pos hrate]
    simp [summary, Except.map, hop, Ledger.status_of_ops hop]

/-! ## Several calls -/

/-- The ledger after a call, and the answer that the call puts out last. -/
def result (x : Ledger × List Effect) : Ledger × Option Effect :=
  (x.1, x.2.getLast?)

/-- The accounts of a call on the operation as another call left it. -/
theorem SignOperation.tryAccounts_setOp {op : OpInfo}
    (hctx : SignOperation.tryAccounts env l h accounts = .ok ctx)
    (hdata : op.opData = ctx.opInfo.opData) (hst : op.status = .init ∨ op.status = .signed) :
    SignOperation.tryAccounts env (l.setOp h op) h accounts = .ok { ctx with opInfo := op } := by
  unfold SignOperation.tryAccounts at hctx ⊢
  split at hctx
  · simp only [Except.bind_eq_ok, Except.require_eq_ok, Except.pure_eq_ok, Env.checkSigner,
      Env.checkMut, Env.loadOp_eq_ok, Env.loadProtocol_eq_ok, Ledger.ops_setOp_self,
      Ledger.protocols_setOp] at hctx ⊢
    obtain ⟨-, hsig, o, ⟨hseeds, ho⟩, p, ⟨hpseeds, hp⟩, -, hmut, -, hexec, -, hopmut, -, -, rfl⟩ :=
      hctx
    simp only at hdata
    rw [← hdata] at hpseeds hp
    exact ⟨(), hsig, op, ⟨hseeds, rfl⟩, p, ⟨hpseeds, hp⟩, (), hmut, (), hexec, (), hopmut, (), hst,
      rfl⟩
  · simp at hctx

theorem Ledger.setOp_setOp (l : Ledger) (h : Bytes) (o o' : OpInfo) :
    (l.setOp h o).setOp h o' = l.setOp h o' := by
  simp only [Ledger.setOp, Ledger.mk.injEq, true_and]
  funext h'
  split_ifs <;> rfl

theorem SignOperation.tryAccounts_signedBy {reached : Bool} {array : Fixed EthAddress 16}
    (hctx : SignOperation.tryAccounts env l h accounts = .ok ctx) :
    SignOperation.tryAccounts env (l.setOp h (ctx.opInfo.signedBy reached array)) h accounts =
      .ok { ctx with opInfo := ctx.opInfo.signedBy reached array } := by
  refine SignOperation.tryAccounts_setOp hctx rfl ?_
  cases reached with
  | true => exact .inr rfl
  | false => exact (SignOperation.of_tryAccounts hctx).2.1

/-- A call after one that has reached the rate. -/
theorem signOperation_after_reached {array : Fixed EthAddress 16}
    (hctx : SignOperation.tryAccounts env l h accounts = .ok ctx)
    (signs : Signs env l h sigs ctx.opInfo ctx.protocolInfo signers true array) :
    signOperation env (l.setOp h (ctx.opInfo.signedBy true array)) accounts h sigs' =
      .ok (l.setOp h (ctx.opInfo.signedBy true array), [.returned true]) := by
  refine signOperation_answers (SignOperation.tryAccounts_signedBy hctx) signs.length_pos ?_
  obtain ⟨added, rfl, hadd⟩ := signLoop_ok signs.loop
  rw [signs.signers_signedBy]
  exact (hadd.reaches rfl).2.1

/-- A call after one that has not : it goes on with the recorded signers. -/
theorem signOperation_after_below {array : Fixed EthAddress 16}
    (hctx : SignOperation.tryAccounts env l h accounts = .ok ctx)
    (signs : Signs env l h sigs ctx.opInfo ctx.protocolInfo signers false array) :
    signOperation env (l.setOp h (ctx.opInfo.signedBy false array)) accounts h sigs' = (do
      let (signers', reached) ← signLoop env h ctx.protocolInfo.transmitters
        ctx.protocolInfo.consensusTargetRate signers sigs'
      let array' ← orFail (Slots.fill EthAddress.default signers') Error.panic
      pure (l.setOp h (ctx.opInfo.signedBy reached array'),
        signEffects h ctx.executor.key reached)) := by
  have hlist := signs.signers_signedBy
  obtain ⟨-, -, hless⟩ := signLoop_not_reached signs.rate_lt signs.loop
  rw [signOperation_records (SignOperation.tryAccounts_signedBy hctx) signs.length_pos
    (by rwa [hlist]), hlist]
  simp only [Ledger.setOp_setOp]
  rfl

/-- Calls with two lists of signatures, one after the other, end as one call with both. -/
theorem signOperation_append (hrec : Recoverable env h sigs) (hrec' : Recoverable env h sigs') :
    (signOperation env l accounts h (sigs ++ sigs')).map result = (do
      let (l', _) ← signOperation env l accounts h sigs
      signOperation env l' accounts h sigs').map result := by
  cases hctx : SignOperation.tryAccounts env l h accounts with
  | error e =>
    rw [signOperation_failed hctx, signOperation_failed hctx]
    rfl
  | ok ctx =>
    rcases Nat.eq_zero_or_pos ctx.protocolInfo.transmitters.length with hnone | hpos
    · rw [signOperation_no_transmitters hctx hnone, signOperation_no_transmitters hctx hnone]
      rfl
    rcases Nat.lt_or_ge (consensusRate ctx.opInfo.signers.length
      ctx.protocolInfo.transmitters.length) ctx.protocolInfo.consensusTargetRate.toNat
      with hlt | hrate
    · obtain ⟨hop, hst, hp, -⟩ := SignOperation.of_tryAccounts hctx
      obtain ⟨signers₁, reached₁, hloop₁, -⟩ := signLoop_tally hrec
        ctx.protocolInfo.transmitters ctx.protocolInfo.consensusTargetRate ctx.opInfo.signers
      rw [signOperation_records hctx hpos hlt, signOperation_records hctx hpos hlt,
        signLoop_append, hloop₁]
      cases hfill₁ : (Slots.fill EthAddress.default signers₁ : Option (Fixed EthAddress 16)) with
      | none =>
        cases reached₁ with
        | true => simp [hfill₁, orFail, bind, Except.bind, pure, Except.pure]
        | false =>
          -- the second list only makes the signers more
          obtain ⟨signers₂, reached₂, hloop₂, -⟩ := signLoop_tally hrec'
            ctx.protocolInfo.transmitters ctx.protocolInfo.consensusTargetRate signers₁
          obtain ⟨added, rfl, -⟩ := signLoop_ok hloop₂
          simp [hfill₁, hloop₂, fill_append_eq_none hfill₁, orFail, bind, Except.bind]
      | some array₁ =>
        have signs₁ : Signs env l h sigs ctx.opInfo ctx.protocolInfo signers₁ reached₁ array₁ :=
          ⟨hop, hst, hp, hpos, hlt, hloop₁, hfill₁⟩
        cases reached₁ with
        | true =>
          simp [hfill₁, signOperation_after_reached hctx signs₁, orFail, bind, Except.bind, pure,
            Except.pure, Except.map, result, signEffects]
        | false =>
          simp only [hfill₁, signOperation_after_below hctx signs₁, orFail, bind, Except.bind, pure,
            Except.pure]
          rfl
    · rw [signOperation_answers hctx hpos hrate, signOperation_answers hctx hpos hrate]
      simp only [bind, Except.bind]
      rw [signOperation_answers hctx hpos hrate]

/-! ## Order and repetition -/

/-- The second list is the first one permuted, with a signature repeated, or with a signature
replaced by another one of the same signer. -/
inductive Rearranged (env : Env) (h : Bytes) :
    List TransmitterSignature → List TransmitterSignature → Prop
  | permuted {s s'} (hperm : s.Perm s') : Rearranged env h s s'
  | repeated {x s} (hmem : x ∈ s) : Rearranged env h s (x :: s)
  | replaced {x y s} (hsame : ecrecover env h y = ecrecover env h x) :
      Rearranged env h (x :: s) (y :: s)
  | trans {s₁ s₂ s₃} : Rearranged env h s₁ s₂ → Rearranged env h s₂ s₃ → Rearranged env h s₁ s₃

/-- The signers are the same, and all signatures can still be recovered. -/
theorem Rearranged.same_signers (hr : Rearranged env h sigs sigs') (hrec : Recoverable env h sigs) :
    Recoverable env h sigs' ∧
      (recoveredSigners env h sigs').toFinset = (recoveredSigners env h sigs).toFinset := by
  induction hr with
  | permuted hperm =>
    refine ⟨fun sig hsig => hrec sig (hperm.mem_iff.2 hsig), ?_⟩
    exact List.toFinset_eq_of_perm _ _ (hperm.symm.filterMap _)
  | @repeated sig sigs hmem =>
    obtain ⟨t, ht⟩ := hrec sig hmem
    refine ⟨fun s hs => ?_, ?_⟩
    · rcases List.mem_cons.1 hs with rfl | hs
      · exact ⟨t, ht⟩
      · exact hrec s hs
    · have hin : t ∈ recoveredSigners env h sigs :=
        List.mem_filterMap.2 ⟨sig, hmem, by simp [ht, Except.toOption]⟩
      rw [recoveredSigners_cons ht, List.toFinset_cons,
        Finset.insert_eq_of_mem (List.mem_toFinset.2 hin)]
  | @replaced sig sig' sigs hsame =>
    obtain ⟨t, ht⟩ := hrec sig List.mem_cons_self
    have ht' := hsame.trans ht
    refine ⟨fun s hs => ?_, ?_⟩
    · rcases List.mem_cons.1 hs with rfl | hs
      · exact ⟨t, ht'⟩
      · exact hrec s (List.mem_cons_of_mem _ hs)
    · rw [recoveredSigners_cons ht, recoveredSigners_cons ht']
  | trans _ _ ih₁ ih₂ =>
    obtain ⟨hrec₂, heq₂⟩ := ih₁ hrec
    obtain ⟨hrec₃, heq₃⟩ := ih₂ hrec₂
    exact ⟨hrec₃, heq₃.trans heq₂⟩

/-- For every ledger and all lists of signatures that can be recovered : one call with two lists
leaves the same ledger and gives the same answer as two calls, or both fail alike, and a list
rearranged in any way leaves the same status and as many signers, and puts out the same. -/
theorem signatures_unordered (env : Env) (l : Ledger) (accounts : List AccountInfo) (h : Bytes)
    (sigs sigs' : List TransmitterSignature) (hrec : Recoverable env h sigs)
    (hrec' : Recoverable env h sigs') :
    (signOperation env l accounts h (sigs ++ sigs')).map result = (do
        let (l', _) ← signOperation env l accounts h sigs
        signOperation env l' accounts h sigs').map result ∧
      ∀ sigs₂, Rearranged env h sigs sigs₂ →
        (signOperation env l accounts h sigs₂).map (summary h) =
          (signOperation env l accounts h sigs).map (summary h) := by
  refine ⟨signOperation_append hrec hrec', fun sigs₂ hr => ?_⟩
  obtain ⟨hrec₂, heq⟩ := hr.same_signers hrec
  cases hctx : SignOperation.tryAccounts env l h accounts with
  | error e => rw [signOperation_failed hctx, signOperation_failed hctx]
  | ok ctx =>
    rw [summary_signOperation hctx hrec₂, summary_signOperation hctx hrec, freshSigners, heq,
      freshSigners]

section Localnet

open Localnet

/-- The operation is loaded, and both transmitters have to sign. -/
def Localnet.loaded : Ledger :=
  ((endpoint localnet).run Ledger.genesis [[setUp 10000 [transmitter1, transmitter2]], [load]]).2

theorem signatures_unordered_localnet :
    (signOperation localnet loaded (sign []).accounts opHash [signature1, signature2]).map result =
        (do
          let (l', _) ← signOperation localnet loaded (sign []).accounts opHash [signature1]
          signOperation localnet l' (sign []).accounts opHash [signature2]).map result ∧
      (signOperation localnet loaded (sign []).accounts opHash
          [signature2, signature2, signature1]).map (summary opHash) =
        .ok (.signed, some 2, signEffects opHash wallet.key true) := by
  obtain ⟨hfirst, hsecond, hboth, hsummary⟩ : Recoverable localnet opHash [signature1] ∧
      Recoverable localnet opHash [signature2] ∧
      Recoverable localnet opHash [signature1, signature2] ∧
      (signOperation localnet loaded (sign []).accounts opHash [signature1, signature2]).map
        (summary opHash) = .ok (.signed, some 2, signEffects opHash wallet.key true) := by
    decide +kernel
  obtain ⟨happend, -⟩ := signatures_unordered localnet loaded (sign []).accounts opHash
    [signature1] [signature2] hfirst hsecond
  obtain ⟨-, hrearranged⟩ := signatures_unordered localnet loaded (sign []).accounts opHash
    [signature1, signature2] [] hboth (by decide +kernel)
  refine ⟨happend, (hrearranged _ ?_).trans hsummary⟩
  exact .trans (.permuted (.swap _ _ _)) (.repeated List.mem_cons_self)

end Localnet

/-! ## Room for the signers -/

variable (env accounts h) in
/-- Calls with one list of signatures after the other. -/
def signCalls : Ledger → List (List TransmitterSignature) → Except Error Ledger
  | l, [] => pure l
  | l, sigs :: batches => do
    let (l', _) ← signOperation env l accounts h sigs
    signCalls l' batches

variable {batches : List (List TransmitterSignature)}

/-- Many calls end as one call with all signatures. -/
theorem signCalls_eq (hne : batches ≠ []) (hrec : ∀ sigs ∈ batches, Recoverable env h sigs) :
    signCalls env accounts h l batches =
      (signOperation env l accounts h batches.flatten).map Prod.fst := by
  induction batches generalizing l with
  | nil => exact absurd rfl hne
  | cons sigs batches ih =>
    have hfirst := hrec sigs List.mem_cons_self
    have hrest (s) (hs : s ∈ batches) := hrec s (List.mem_cons_of_mem _ hs)
    cases batches with
    | nil =>
      simp only [signCalls, List.flatten_cons, List.flatten_nil, List.append_nil]
      cases signOperation env l accounts h sigs <;> rfl
    | cons next batches =>
      have hflat : Recoverable env h (next :: batches).flatten := fun sig hsig => by
        obtain ⟨s, hs, hmem⟩ := List.mem_flatten.1 hsig
        exact hrest s hs sig hmem
      have hfst (x : Except Error (Ledger × List Effect)) :
          (x.map result).map Prod.fst = x.map Prod.fst := by
        cases x <;> rfl
      have happend : ((signOperation env l accounts h (sigs ++ (next :: batches).flatten)).map
          result).map Prod.fst = _ :=
        congrArg (Except.map Prod.fst) (signOperation_append hfirst hflat)
      rw [hfst, hfst] at happend
      rw [List.flatten_cons, happend, signCalls]
      cases signOperation env l accounts h sigs with
      | error e => rfl
      | ok x => exact ih (by simp) hrest

theorem OpInfo.length_signers_le (op : OpInfo) : op.signers.length ≤ 16 := by
  have hle := List.length_filter_le (· ≠ EthAddress.default) op.uniqueSigners.val
  rwa [op.uniqueSigners.property] at hle

theorem SignOperation.outcome_eq_panic {m : ℕ}
    (hm : ctx.protocolInfo.transmitters.length = 0 → m = 0) :
    ctx.outcome h m = .error .panic ↔ ¬(ctx.protocolInfo.consensusTargetRate.toNat ≤
        consensusRate 16 ctx.protocolInfo.transmitters.length ∨
      ctx.opInfo.signers.length + m ≤ 16) := by
  have hle := ctx.opInfo.length_signers_le
  unfold SignOperation.outcome
  split_ifs with hnone hrate
  · simp only [hm hnone]
    exact iff_of_false (by simp) (not_not.2 (.inr hle))
  · exact iff_of_false (by simp) (not_not.2 (.inl (hrate.trans (consensusRate_le hle))))
  · rw [← tally_le_iff hle (not_le.1 hrate)]
    simp only [SignOperation.recorded]
    split_ifs with hk <;> simp [hk]

/-- For every ledger and any number of calls with signatures that can be recovered : none of the
calls runs over the array of signers if 16 signers meet the rate, or if the recorded signers and
the new ones among all signatures are at most 16, and only then. -/
theorem signers_fit_iff (env : Env) (l : Ledger) (accounts : List AccountInfo) (h : Bytes)
    (ctx : SignOperation) (batches : List (List TransmitterSignature))
    (hctx : SignOperation.tryAccounts env l h accounts = .ok ctx)
    (hrec : ∀ sigs ∈ batches, Recoverable env h sigs) :
    signCalls env accounts h l batches ≠ .error .panic ↔
      ctx.protocolInfo.consensusTargetRate.toNat ≤
          consensusRate 16 ctx.protocolInfo.transmitters.length ∨
        ctx.opInfo.signers.length + (freshSigners env h ctx.protocolInfo.transmitters
          ctx.opInfo.signers batches.flatten).card ≤ 16 := by
  by_cases hne : batches = []
  · subst hne
    have hle := ctx.opInfo.length_signers_le
    exact iff_of_true (fun h => nomatch h)
      (.inr (by simpa [freshSigners, recoveredSigners] using hle))
  · have hflat : Recoverable env h batches.flatten := fun sig hsig => by
      obtain ⟨s, hs, hmem⟩ := List.mem_flatten.1 hsig
      exact hrec s hs sig hmem
    rw [signCalls_eq hne hrec, Ne, Except.map_eq_error, ← Except.map_eq_error (f := summary h),
      summary_signOperation hctx hflat, SignOperation.outcome_eq_panic, not_not]
    intro hnone
    simp [freshSigners, List.length_eq_zero_iff.1 hnone]

section Localnet

open Localnet

theorem signers_fit_localnet :
    signCalls localnet (sign []).accounts opHash loaded [[signature1], [signature2]] ≠
      .error .panic := by
  obtain ⟨ctx, hctx, hrate⟩ :
      ∃ ctx ∈ (SignOperation.tryAccounts localnet loaded opHash (sign []).accounts).toOption,
        ctx.protocolInfo.consensusTargetRate.toNat ≤
          consensusRate 16 ctx.protocolInfo.transmitters.length := by
    decide +kernel
  exact (signers_fit_iff localnet loaded (sign []).accounts opHash ctx [[signature1], [signature2]]
    (Except.toOption_eq_some.1 hctx) (by decide +kernel)).2 (.inl hrate)

end Localnet

section Deployment

open Deployment

/-- A call in which only the wallet signs. -/
def Deployment.crowdedCall (ix : Ix) (accounts : List AccountInfo)
    (ha : ∀ a ∈ accounts,
      a = Localnet.wallet ∨ a.isSigner = false ∧ (a.isWritable = true → a.key ≠ photonId)) :
    Invocation crowded where
  ix := ix
  accounts := accounts
  depth := 4
  answer _ := true
  derived_not_signer := (Localnet.call ix accounts ha).derived_not_signer
  program_not_writable := (Localnet.call ix accounts ha).program_not_writable

/-- Seventeen transmitters are set up at the rate of all, and the operation is loaded. -/
def Deployment.crowdedLoaded : Ledger :=
  ((endpoint crowded).run Ledger.genesis
    [[crowdedCall (.initializeProgram 33133 (List.replicate 32 0) 10000
        (Deployment.signers.map Signer.address) [Localnet.wallet.key])
        (Localnet.setUp 10000 []).accounts (by decide +kernel)],
      [crowdedCall (.loadOperation Localnet.op Localnet.opHash) Localnet.load.accounts
        (by decide +kernel)]]).2

/-- The call with the signatures of all of them. -/
def Deployment.crowdedSign : Invocation crowded :=
  crowdedCall (.signOperation Localnet.opHash (Deployment.signers.map Signer.signature))
    (Localnet.sign []).accounts (by decide +kernel)

/-- All transmitters sign, and the seventeenth is one too many. -/
theorem seventeenth_signer_aborts :
    (∃ p ∈ crowdedLoaded.protocols govProtocolId,
        p.transmitters = Deployment.signers.map Signer.address ∧
          p.transmitters.length ≤ MAX_TRANSMITTERS ∧
          p.consensusTargetRate.toNat ≤ RATE_DECIMALS) ∧
      Recoverable crowded Localnet.opHash (Deployment.signers.map Signer.signature) ∧
      (endpoint crowded).step crowdedLoaded crowdedSign = .error .panic := by
  obtain ⟨hset, hrec, hfail⟩ :
      (∃ p ∈ crowdedLoaded.protocols govProtocolId,
          p.transmitters = Deployment.signers.map Signer.address ∧
            p.transmitters.length ≤ MAX_TRANSMITTERS ∧
            p.consensusTargetRate.toNat ≤ RATE_DECIMALS) ∧
        Recoverable crowded Localnet.opHash (Deployment.signers.map Signer.signature) ∧
        ((endpoint crowded).step crowdedLoaded crowdedSign).failure = some .panic := by
    decide +kernel
  exact ⟨hset, hrec, Except.failure_eq_some.1 hfail⟩

end Deployment

end Photon
