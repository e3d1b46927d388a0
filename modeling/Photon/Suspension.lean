import Mathlib.Logic.Function.Basic
import Photon.Machine

/-!
# Operations that wait for balance

All operations of the executor run in one task, and `check_balance_and_suspend` stands before every
round of each. It reads the executor's balance now and then. When the last balance that was read is
too low, the first operation to see it reads it again every minute, and the others wait until that
one has read enough and wakes them (`OperationGate`).

Between two places where an operation awaits something nothing else runs, so a step of the machine
goes from one such place to the next. The lock of `processing_notify` is such a place, and nobody
awaits anything while holding it.

`nobody_left_behind` : whenever an operation waits there is exactly one that reads the balance for
it, the `Notify` it waits for is the one that will be notified, and that one notifies it as soon as
it has read a sufficient balance. The lock is never found empty by the one that wakes the others.
-/

namespace Photon

open Machine

/-! ## The gate -/

structure SuspendingConfig where
  checkBalancePeriod : UInt64
  suspendBalanceLamports : ℕ

/-- Where an operation is. -/
inductive GatePhase
  /-- Not in `check_balance_and_suspend`. -/
  | away
  /-- It awaits the balance. -/
  | asking
  /-- It has seen too low a balance, and awaits the lock. -/
  | locking
  /-- It awaits a `Notify`. -/
  | waiting (notify : ℕ)
  /-- It has been notified. -/
  | woken
  /-- It reads the balance every minute. -/
  | leading
  /-- It has read a sufficient balance, and awaits the lock. -/
  | releasing
  deriving DecidableEq

/-- It reads the balance for the others. -/
def GatePhase.Leads (p : GatePhase) : Prop :=
  p = .leading ∨ p = .releasing

/-- The state of `SuspendingCtx`, with the phases of the operations. -/
structure OperationGate where
  balance : ℕ
  opProcCounter : UInt64
  processingNotify : Option ℕ
  /-- How many a `Notify` have been made. -/
  made : ℕ
  phase : ℕ → GatePhase

/-- What happens next. A balance that cannot be read is `none`. -/
inductive GateEvent
  | enter (op : ℕ)
  | balance (op : ℕ) (answer : Option ℕ)
  | lock (op : ℕ)
  | resume (op : ℕ)

/-- What `check_balance_and_suspend` returns, and where it panics. -/
inductive GateNotice
  | passes (op : ℕ)
  | retries (op : ℕ)
  /-- The period is zero. -/
  | remainderByZero (op : ℕ)
  /-- There is no `Notify` to notify. -/
  | notifyMissing (op : ℕ)
  deriving DecidableEq

namespace OperationGate

def start : OperationGate :=
  ⟨0, 0, none, 0, fun _ => .away⟩

def goTo (g : OperationGate) (op : ℕ) (p : GatePhase) : OperationGate :=
  { g with phase := Function.update g.phase op p }

/-- The operation goes on, and counts the round. -/
def pass (g : OperationGate) (op : ℕ) : OperationGate × List GateNotice :=
  ({ g.goTo op .away with opProcCounter := g.opProcCounter + 1 }, [.passes op])

variable (config : SuspendingConfig)

/-- The last balance decides. -/
def decideOn (g : OperationGate) (op : ℕ) : OperationGate × List GateNotice :=
  if config.suspendBalanceLamports ≤ g.balance then g.pass op else (g.goTo op .locking, [])

/-- Everybody who waits for this `Notify` is notified. -/
def notifyWaiters (g : OperationGate) (notify : ℕ) : OperationGate :=
  { g with phase := fun op => if g.phase op = .waiting notify then .woken else g.phase op }

def step (g : OperationGate) : GateEvent → Except Unit (OperationGate × List GateNotice)
  | .enter op => do
    require (g.phase op = .away) ()
    if config.checkBalancePeriod = 0 then pure (g, [.remainderByZero op])
    else if g.opProcCounter % config.checkBalancePeriod = 0 then pure (g.goTo op .asking, [])
    else pure (g.decideOn config op)
  | .balance op answer =>
    match g.phase op with
    | .asking =>
      match answer with
      | none => pure (g.goTo op .away, [.retries op])
      | some balance => pure ({ g with balance := balance }.decideOn config op)
    | .leading =>
      match answer with
      | none => pure (g, [])
      | some balance =>
        if config.suspendBalanceLamports ≤ balance then
          pure ({ g with balance := balance }.goTo op .releasing, [])
        else pure (g, [])
    | _ => .error ()
  | .lock op =>
    match g.phase op with
    | .locking =>
      match g.processingNotify with
      | some notify => pure (g.goTo op (.waiting notify), [])
      | none =>
        pure ({ g with processingNotify := some g.made, made := g.made + 1 }.goTo op .leading, [])
    | .releasing =>
      match g.processingNotify with
      | some notify =>
        pure (({ g with processingNotify := none }.notifyWaiters notify).pass op)
      | none => pure (g, [.notifyMissing op])
    | _ => .error ()
  | .resume op => do
    require (g.phase op = .woken) ()
    pure (g.pass op)

def machine : Machine OperationGate GateEvent GateNotice Unit where
  step := step config

/-! ## Who waits, and for whom -/

/-- Someone leads exactly if there is a `Notify`, and nobody waits for another one. -/
structure Inv (g : OperationGate) : Prop where
  leader : g.processingNotify ≠ none → ∃ op, (g.phase op).Leads ∧
    ∀ op', (g.phase op').Leads → op' = op
  nobody : g.processingNotify = none → ∀ op, ¬(g.phase op).Leads
  waits : ∀ op notify, g.phase op = .waiting notify → g.processingNotify = some notify

variable {config} {g g' : OperationGate} {op : ℕ} {p : GatePhase} {out : List GateNotice}

theorem phase_goTo_self (g : OperationGate) (op : ℕ) (p : GatePhase) :
    (g.goTo op p).phase op = p :=
  Function.update_self ..

theorem phase_goTo_ne {op' : ℕ} (hne : op' ≠ op) : (g.goTo op p).phase op' = g.phase op' :=
  Function.update_of_ne hne ..

/-- An operation that neither led nor leads goes elsewhere. -/
theorem Inv.goTo (hg : g.Inv) (hbefore : ¬(g.phase op).Leads) (hafter : ¬p.Leads)
    (hwaits : ∀ notify, p = .waiting notify → g.processingNotify = some notify) :
    (g.goTo op p).Inv := by
  have hleads (op' : ℕ) : ((g.goTo op p).phase op').Leads ↔ (g.phase op').Leads := by
    by_cases hop : op' = op
    · rw [hop, phase_goTo_self]
      exact iff_of_false hafter hbefore
    · rw [phase_goTo_ne hop]
  refine ⟨fun hsome => ?_, fun hnone op' => ?_, fun op' notify hop' => ?_⟩
  · simp only [hleads]
    exact hg.leader hsome
  · rw [hleads]
    exact hg.nobody hnone op'
  · by_cases hop : op' = op
    · rw [hop, phase_goTo_self] at hop'
      exact hwaits notify hop'
    · rw [phase_goTo_ne hop] at hop'
      exact hg.waits op' notify hop'

theorem Inv.pass (hg : g.Inv) (hbefore : ¬(g.phase op).Leads) : (g.pass op).1.Inv := by
  have hgo : (g.goTo op .away).Inv := hg.goTo hbefore (by simp [GatePhase.Leads]) (by simp)
  exact ⟨hgo.leader, hgo.nobody, hgo.waits⟩

theorem Inv.decideOn (hg : g.Inv) (hbefore : ¬(g.phase op).Leads) :
    (g.decideOn config op).1.Inv := by
  unfold OperationGate.decideOn
  split_ifs
  · exact hg.pass hbefore
  · exact hg.goTo hbefore (by simp [GatePhase.Leads]) (by simp)

/-- The first to find no `Notify` leads. -/
theorem Inv.lead (hg : g.Inv) (hnone : g.processingNotify = none) (op notify made : ℕ) :
    ({ g with processingNotify := some notify, made := made }.goTo op .leading).Inv := by
  refine ⟨fun _ => ⟨op, ?_, fun op' hop' => ?_⟩, by simp [OperationGate.goTo],
    fun op' k hop' => ?_⟩
  · rw [phase_goTo_self]
    exact .inl rfl
  · by_contra hne
    rw [phase_goTo_ne hne] at hop'
    exact hg.nobody hnone op' hop'
  · by_cases hop : op' = op
    · rw [hop, phase_goTo_self] at hop'
      simp at hop'
    · rw [phase_goTo_ne hop] at hop'
      have hk := hg.waits op' k hop'
      simp [hnone] at hk

/-- A leader goes on leading. -/
theorem Inv.leads (hg : g.Inv) (hbefore : (g.phase op).Leads) (hafter : p.Leads) :
    (g.goTo op p).Inv := by
  have hleads (op' : ℕ) : ((g.goTo op p).phase op').Leads ↔ (g.phase op').Leads := by
    by_cases hop : op' = op
    · rw [hop, phase_goTo_self]
      exact iff_of_true hafter hbefore
    · rw [phase_goTo_ne hop]
  refine ⟨fun hsome => ?_, fun hnone op' => ?_, fun op' notify hop' => ?_⟩
  · simp only [hleads]
    exact hg.leader hsome
  · rw [hleads]
    exact hg.nobody hnone op'
  · by_cases hop : op' = op
    · rw [hop, phase_goTo_self] at hop'
      subst hop'
      simp [GatePhase.Leads] at hafter
    · rw [phase_goTo_ne hop] at hop'
      exact hg.waits op' notify hop'

/-- Afterwards nobody leads or waits, and who has waited is notified. -/
structure Released (g g' : OperationGate) : Prop where
  inv : g'.Inv
  notify : g'.processingNotify = none
  waits : ∀ op notify, g'.phase op ≠ .waiting notify
  woken : ∀ op notify, g.phase op = .waiting notify → g'.phase op = .woken

/-- The leader wakes the others and goes on. -/
theorem Inv.release (hg : g.Inv) {notify : ℕ} (hsome : g.processingNotify = some notify)
    (hop : (g.phase op).Leads) :
    Released g (({ g with processingNotify := none }.notifyWaiters notify).pass op).1 := by
  generalize hafter : (({ g with processingNotify := none }.notifyWaiters notify).pass op).1 = g'
  obtain ⟨leader, -, honly⟩ := hg.leader (by simp [hsome])
  have hnone : g'.processingNotify = none := by
    rw [← hafter]
    rfl
  have hself : g'.phase op = .away := by
    rw [← hafter]
    exact phase_goTo_self _ _ _
  have hphase (op' : ℕ) (hne : op' ≠ op) : g'.phase op' =
      if g.phase op' = .waiting notify then .woken else g.phase op' := by
    rw [← hafter]
    exact phase_goTo_ne hne
  have hwoken : ∀ op' k, g.phase op' = .waiting k → g'.phase op' = .woken := by
    intro op' k hop'
    have hne : op' ≠ op := by
      rintro rfl
      simp [hop', GatePhase.Leads] at hop
    obtain rfl := Option.some_inj.1 (hsome.symm.trans (hg.waits op' k hop'))
    rw [hphase op' hne, if_pos hop']
  have hwaits : ∀ op' k, g'.phase op' ≠ .waiting k := by
    intro op' k hop'
    by_cases hne : op' = op
    · simp [hne, hself] at hop'
    · have hbefore := hop'
      rw [hphase op' hne] at hbefore
      split_ifs at hbefore
      rw [hwoken op' k hbefore] at hop'
      simp at hop'
  refine ⟨⟨fun hsome' => absurd hnone hsome', fun _ op' hleads => ?_, fun op' k hop' =>
    absurd hop' (hwaits op' k)⟩, hnone, hwaits, hwoken⟩
  by_cases hne : op' = op
  · simp [hne, hself, GatePhase.Leads] at hleads
  · rw [hphase op' hne] at hleads
    split_ifs at hleads
    · simp [GatePhase.Leads] at hleads
    · exact hne ((honly op' hleads).trans (honly op hop).symm)

theorem notifyMissing_not_mem_decideOn (op' : ℕ) :
    .notifyMissing op' ∉ (g.decideOn config op).2 := by
  unfold OperationGate.decideOn
  split_ifs <;> simp [OperationGate.pass]

/-- A step keeps this, and nobody who is to wake the others finds no `Notify`. -/
theorem Inv.step (hg : g.Inv) {e : GateEvent} (hok : g.step config e = .ok (g', out)) :
    g'.Inv ∧ ∀ op, .notifyMissing op ∉ out := by
  cases e with
  | enter op =>
    simp only [OperationGate.step, Except.bind_eq_ok, Except.require_eq_ok, exists_const] at hok
    obtain ⟨haway, hok⟩ := hok
    have hno : ¬(g.phase op).Leads := by simp [haway, GatePhase.Leads]
    split_ifs at hok <;> obtain ⟨rfl, rfl⟩ := Prod.mk.inj (Except.ok.inj hok)
    · exact ⟨hg, by simp⟩
    · exact ⟨hg.goTo hno (by simp [GatePhase.Leads]) (by simp), by simp⟩
    · exact ⟨hg.decideOn hno, notifyMissing_not_mem_decideOn⟩
  | balance op answer =>
    simp only [OperationGate.step] at hok
    split at hok
    · rename_i hasking
      have hno : ¬(g.phase op).Leads := by simp [hasking, GatePhase.Leads]
      cases answer with
      | none =>
        obtain ⟨rfl, rfl⟩ := Prod.mk.inj (Except.ok.inj hok)
        exact ⟨hg.goTo hno (by simp [GatePhase.Leads]) (by simp), by simp⟩
      | some balance =>
        obtain ⟨rfl, rfl⟩ := Prod.mk.inj (Except.ok.inj hok)
        have hstored : Inv { g with balance := balance } := ⟨hg.leader, hg.nobody, hg.waits⟩
        exact ⟨hstored.decideOn hno, notifyMissing_not_mem_decideOn⟩
    · rename_i hleading
      cases answer with
      | none =>
        obtain ⟨rfl, rfl⟩ := Prod.mk.inj (Except.ok.inj hok)
        exact ⟨hg, by simp⟩
      | some balance =>
        simp only at hok
        split_ifs at hok <;> obtain ⟨rfl, rfl⟩ := Prod.mk.inj (Except.ok.inj hok)
        · have hstored : Inv { g with balance := balance } := ⟨hg.leader, hg.nobody, hg.waits⟩
          exact ⟨hstored.leads (.inl hleading) (.inr rfl), by simp⟩
        · exact ⟨hg, by simp⟩
    · simp at hok
  | lock op =>
    simp only [OperationGate.step] at hok
    split at hok
    · rename_i hlocking
      have hno : ¬(g.phase op).Leads := by simp [hlocking, GatePhase.Leads]
      split at hok <;> rename_i hnotify <;> obtain ⟨rfl, rfl⟩ := Prod.mk.inj (Except.ok.inj hok)
      · refine ⟨hg.goTo hno (by simp [GatePhase.Leads]) fun k hk => ?_, by simp⟩
        rw [hnotify, GatePhase.waiting.inj hk]
      · exact ⟨hg.lead hnotify op g.made (g.made + 1), by simp⟩
    · rename_i hreleasing
      have hleads : (g.phase op).Leads := .inr hreleasing
      split at hok <;> rename_i hnotify
      · obtain ⟨rfl, rfl⟩ := Prod.mk.inj (Except.ok.inj hok)
        exact ⟨(hg.release hnotify hleads).inv, by simp⟩
      · exact absurd hleads (hg.nobody hnotify op)
    · simp at hok
  | resume op =>
    simp only [OperationGate.step, Except.bind_eq_ok, Except.require_eq_ok, exists_const] at hok
    obtain ⟨hwoken, hok⟩ := hok
    obtain ⟨rfl, rfl⟩ := Prod.mk.inj (Except.ok.inj hok)
    exact ⟨hg.pass (by simp [hwoken, GatePhase.Leads]), by simp⟩

theorem inv_start : start.Inv :=
  ⟨by simp [start], by simp [start, GatePhase.Leads], by simp [start]⟩

theorem inv_of_run {history : List (Record OperationGate GateEvent GateNotice)}
    (hr : (machine config).Run start history g) :
    g.Inv ∧ ∀ op, .notifyMissing op ∉ outputs history := by
  induction hr with
  | nil => exact ⟨inv_start, by simp [outputs]⟩
  | snoc _ hok ih =>
    obtain ⟨hg, hout⟩ := ih.1.step hok
    refine ⟨hg, fun op => ?_⟩
    rw [outputs, List.flatMap_append, List.flatMap_singleton, List.mem_append]
    exact not_or.2 ⟨ih.2 op, hout op⟩

/-- What the leader has still to do once it reads a sufficient balance. -/
def wakeUp (g : OperationGate) (leader balance : ℕ) : List GateEvent :=
  (if g.phase leader = .leading then [.balance leader (some balance)] else []) ++ [.lock leader]

theorem Inv.step_lock (config : SuspendingConfig) (hg : g.Inv) (hphase : g.phase op = .releasing) :
    ∃ g' out, g.step config (.lock op) = .ok (g', out) ∧ Released g g' := by
  have hleads : (g.phase op).Leads := .inr hphase
  cases hnotify : g.processingNotify with
  | none => exact absurd hleads (hg.nobody hnotify op)
  | some notify =>
    refine ⟨_, [.passes op], ?_, hg.release hnotify hleads⟩
    simp only [OperationGate.step, hphase, hnotify]
    rfl

/-- The leader wakes everybody. -/
theorem Inv.wakes (hg : g.Inv) {leader balance : ℕ} (hleads : (g.phase leader).Leads)
    (henough : config.suspendBalanceLamports ≤ balance) :
    ∃ history g', (machine config).transact g (g.wakeUp leader balance) = .ok (history, g') ∧
      Released g g' := by
  rcases hleads with hleading | hreleasing
  · have hbalance : (machine config).step g (.balance leader (some balance)) =
        .ok ({ g with balance := balance }.goTo leader .releasing, []) := by
      simp only [machine, OperationGate.step, hleading, if_pos henough]
      rfl
    have hread : ({ g with balance := balance }.goTo leader .releasing).Inv := by
      have hstored : Inv { g with balance := balance } := ⟨hg.leader, hg.nobody, hg.waits⟩
      exact hstored.leads (.inl hleading) (.inr rfl)
    obtain ⟨g', out, hlock, hreleased⟩ := hread.step_lock config (phase_goTo_self _ _ _)
    obtain ⟨history, htransact⟩ : ∃ history,
        (machine config).transact g (g.wakeUp leader balance) = .ok (history, g') := by
      rw [wakeUp, if_pos hleading]
      exact ⟨_, transact_cons_ok hbalance (transact_cons_ok hlock rfl)⟩
    refine ⟨history, g', htransact, hreleased.inv, hreleased.notify, hreleased.waits,
      fun op notify hop => hreleased.woken op notify ?_⟩
    rw [phase_goTo_ne]
    · exact hop
    · rintro rfl
      simp [hleading] at hop
  · obtain ⟨g', out, hlock, hreleased⟩ := hg.step_lock config hreleasing
    obtain ⟨history, htransact⟩ : ∃ history,
        (machine config).transact g (g.wakeUp leader balance) = .ok (history, g') := by
      rw [wakeUp, if_neg (by simp [hreleasing])]
      exact ⟨_, transact_cons_ok hlock rfl⟩
    exact ⟨history, g', htransact, hreleased⟩

end OperationGate

open OperationGate in
/-- In every run, nobody who is to wake the others finds no `Notify`. Whenever an operation waits,
exactly one leads, and as soon as that one has read a sufficient balance and gets the lock, every
operation that waits is notified. -/
theorem nobody_left_behind (config : SuspendingConfig) (events : List GateEvent) :
    (∀ op, .notifyMissing op ∉
        outputs ((machine config).run start (events.map ([·]))).1) ∧
      ∀ op notify, ((machine config).run start (events.map ([·]))).2.phase op = .waiting notify →
        ∃ leader, (((machine config).run start (events.map ([·]))).2.phase leader).Leads ∧
          (∀ op', (((machine config).run start (events.map ([·]))).2.phase op').Leads →
            op' = leader) ∧
          ∀ balance, config.suspendBalanceLamports ≤ balance →
            ∃ history g', (machine config).transact
                ((machine config).run start (events.map ([·]))).2
                (wakeUp ((machine config).run start (events.map ([·]))).2 leader balance) =
                  .ok (history, g') ∧
              Released ((machine config).run start (events.map ([·]))).2 g' := by
  obtain ⟨hg, hmissing⟩ :=
    inv_of_run (run_sound (machine config) start (events.map ([·])))
  refine ⟨hmissing, fun op notify hop => ?_⟩
  obtain ⟨leader, hleads, honly⟩ := hg.leader (by simp [hg.waits op notify hop])
  exact ⟨leader, hleads, honly, fun balance henough => hg.wakes hleads henough⟩

end Photon
