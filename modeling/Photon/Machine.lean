import Mathlib.Data.List.Basic
import Mathlib.Tactic.Common

/-!
# Machines that commit whole transactions

A `Machine` answers an input with an error, or with a new state and what it put out on
the way. A transaction is a list of inputs taken all or not at all (`transact`), and
`run` takes one transaction after another from a start state : a transaction that fails
leaves the state as it was. The history of a run is the list of its committed steps, each
with the state before and after it.

Inputs that are not in the list are not taken (`forall_input_of_run`).

`Run` is the same thing step by step. Every history that `run` gives is a `Run`
(`run_sound`), so an invariant is proved for one step and holds along every run
(`Run.inv`), and a step that can only be taken while a flag is down, and that raises it,
is taken at most once (`Run.at_most_once`). Where steps keep an invariant under a condition on
the state and the input, a run keeps it if all its steps meet the condition
(`Run.inv_of_forall`), and only then if the condition is exact for one step (`Run.inv_iff`).
-/

/-! ## Fallible computations -/

/-- Go on if `p` holds, else fail with `e`. -/
def require {ε : Type} (p : Prop) [Decidable p] (e : ε) : Except ε Unit :=
  if p then .ok () else .error e

/-- The value, or the failure `e` if there is none. -/
def orFail {ε α : Type} (o : Option α) (e : ε) : Except ε α :=
  match o with
  | some a => .ok a
  | none => .error e

namespace Except

variable {ε α β : Type}

@[simp] theorem bind_eq_ok {x : Except ε α} {f : α → Except ε β} {b : β} :
    (x >>= f) = .ok b ↔ ∃ a, x = .ok a ∧ f a = .ok b := by
  cases x with
  | error e => simp [bind, Except.bind]
  | ok a => simp [bind, Except.bind]

theorem bind_eq_error {x : Except ε α} {f : α → Except ε β} {e : ε} :
    (x >>= f) = .error e ↔ x = .error e ∨ ∃ a, x = .ok a ∧ f a = .error e := by
  cases x with
  | error e => simp [bind, Except.bind]
  | ok a => simp [bind, Except.bind]

@[simp] theorem pure_eq_ok {a b : α} : (pure a : Except ε α) = .ok b ↔ a = b := by
  simp [pure, Except.pure]

@[simp] theorem map_eq_ok {x : Except ε α} {f : α → β} {b : β} :
    (f <$> x) = .ok b ↔ ∃ a, x = .ok a ∧ f a = b := by
  cases x with
  | error e => simp [Functor.map, Except.map]
  | ok a => simp [Functor.map, Except.map]

theorem map_eq_error {x : Except ε α} {f : α → β} {e : ε} : x.map f = .error e ↔ x = .error e := by
  cases x with
  | error e => simp [Except.map]
  | ok a => simp [Except.map]

@[simp] theorem require_eq_ok {p : Prop} [Decidable p] {e : ε} {u : Unit} :
    require p e = .ok u ↔ p := by
  unfold require
  split_ifs with h <;> simp [h]

@[simp] theorem orFail_eq_ok {o : Option α} {e : ε} {a : α} :
    orFail o e = .ok a ↔ o = some a := by
  cases o <;> simp [orFail]

@[simp] theorem mapError_eq_ok {ε' : Type} {x : Except ε α} {f : ε → ε'} {a : α} :
    x.mapError f = .ok a ↔ x = .ok a := by
  cases x with
  | error e => simp [Except.mapError]
  | ok a => simp [Except.mapError]

theorem toOption_eq_some {x : Except ε α} {a : α} : x.toOption = some a ↔ x = .ok a := by
  cases x with
  | error e => simp [Except.toOption]
  | ok b => simp [Except.toOption]

/-- The failure of a computation that fails. -/
def failure : Except ε α → Option ε
  | .error e => some e
  | .ok _ => none

theorem failure_eq_some {x : Except ε α} {e : ε} : x.failure = some e ↔ x = .error e := by
  cases x with
  | error e' => simp [failure]
  | ok a => simp [failure]

theorem require_eq_error {p : Prop} [Decidable p] {e e' : ε} :
    require p e = .error e' ↔ ¬p ∧ e = e' := by
  unfold require
  split_ifs with h <;> simp [h]

theorem orFail_eq_error {o : Option α} {e e' : ε} :
    orFail o e = .error e' ↔ o = none ∧ e = e' := by
  cases o <;> simp [orFail]

/-- A list of computations fails as the first of them that does. -/
theorem exists_of_mapM_eq_error {f : α → Except ε β} {xs : List α} {e : ε}
    (h : xs.mapM f = .error e) : ∃ pre x post, xs = pre ++ x :: post ∧
      (∀ y ∈ pre, ∃ b, f y = .ok b) ∧ f x = .error e := by
  induction xs with
  | nil => simp [pure, Except.pure] at h
  | cons x xs ih =>
    rw [List.mapM_cons, bind_eq_error] at h
    rcases h with hx | ⟨b, hx, h⟩
    · exact ⟨[], x, xs, rfl, by simp, hx⟩
    · rw [bind_eq_error] at h
      rcases h with h | ⟨bs, -, h⟩
      · obtain ⟨pre, y, post, rfl, hpre, hy⟩ := ih h
        refine ⟨x :: pre, y, post, rfl, ?_, hy⟩
        rw [List.forall_mem_cons]
        exact ⟨⟨b, hx⟩, hpre⟩
      · simp [pure, Except.pure] at h

end Except

/-- A computation on a state that may fail. A failure leaves the state it has got to. -/
abbrev Stateful (σ ε α : Type) := ExceptT ε (StateM σ) α

namespace Stateful

variable {σ ε α β : Type}

/-- The answer, and the state after it. -/
def exec (x : Stateful σ ε α) (s : σ) : Except ε α × σ :=
  x.run.run s

@[simp] theorem exec_pure (a : α) (s : σ) : exec (pure a : Stateful σ ε α) s = (.ok a, s) := rfl

@[simp] theorem exec_throw (e : ε) (s : σ) :
    exec (throw e : Stateful σ ε α) s = (.error e, s) := rfl

@[simp] theorem exec_get (s : σ) : exec (get : Stateful σ ε σ) s = (.ok s, s) := rfl

@[simp] theorem exec_modify (f : σ → σ) (s : σ) :
    exec (modify f : Stateful σ ε PUnit) s = (.ok ⟨⟩, f s) := rfl

@[simp] theorem exec_liftExcept (x : Except ε α) (s : σ) :
    exec (liftExcept x : Stateful σ ε α) s = (x, s) := by
  cases x <;> rfl

@[simp] theorem exec_bind (x : Stateful σ ε α) (f : α → Stateful σ ε β) (s : σ) :
    exec (x >>= f) s =
      match exec x s with
      | (.ok a, s') => exec (f a) s'
      | (.error e, s') => (.error e, s') := by
  simp only [exec, ExceptT.run_bind, StateT.run_bind]
  rcases StateT.run (ExceptT.run x) s with ⟨_ | _, _⟩ <;> rfl

theorem exec_bind_eq_ok {x : Stateful σ ε α} {f : α → Stateful σ ε β} {b : β} {s s' : σ} :
    exec (x >>= f) s = (.ok b, s') ↔
      ∃ a s₁, exec x s = (.ok a, s₁) ∧ exec (f a) s₁ = (.ok b, s') := by
  rw [exec_bind]
  rcases exec x s with ⟨_ | _, _⟩ <;> simp

@[simp] theorem exec_map (x : Stateful σ ε α) (f : α → β) (s : σ) :
    exec (f <$> x) s = ((exec x s).1.map f, (exec x s).2) := by
  rw [← bind_pure_comp, exec_bind]
  rcases exec x s with ⟨_ | _, _⟩ <;> rfl

end Stateful

/-! ## Machines and their runs -/

/-- A state machine whose steps may fail. -/
structure Machine (σ ι ο ε : Type) where
  step : σ → ι → Except ε (σ × List ο)

/-- A committed step. -/
structure Record (σ ι ο : Type) where
  before : σ
  input : ι
  out : List ο
  after : σ

namespace Machine

variable {σ ι ο ε : Type} (m : Machine σ ι ο ε)

/-- Take the inputs in order, or fail as a whole. -/
def transact (s : σ) : List ι → Except ε (List (Record σ ι ο) × σ)
  | [] => .ok ([], s)
  | i :: is => do
    let (s', out) ← m.step s i
    let (rs, s'') ← transact s' is
    pure (⟨s, i, out, s'⟩ :: rs, s'')

theorem transact_cons_ok {m : Machine σ ι ο ε} {s s' s'' : σ} {i : ι} {is : List ι} {out : List ο}
    {rs : List (Record σ ι ο)} (hs : m.step s i = .ok (s', out))
    (ht : m.transact s' is = .ok (rs, s'')) :
    m.transact s (i :: is) = .ok (⟨s, i, out, s'⟩ :: rs, s'') := by
  simp [transact, hs, ht, bind, Except.bind, pure, Except.pure]

/-- The history of a list of transactions and the state it ends in. -/
def run (s : σ) : List (List ι) → List (Record σ ι ο) × σ
  | [] => ([], s)
  | tx :: txs =>
    match m.transact s tx with
    | .ok (rs, s') => (rs ++ (run s' txs).1, (run s' txs).2)
    | .error _ => run s txs

/-- What the committed steps put out, in order. -/
def outputs (h : List (Record σ ι ο)) : List ο :=
  h.flatMap Record.out

/-- The histories of committed steps from `s₀`, with the state after them. -/
inductive Run (s₀ : σ) : List (Record σ ι ο) → σ → Prop
  | nil : Run s₀ [] s₀
  | snoc {h s i s' out} : Run s₀ h s → m.step s i = .ok (s', out) →
      Run s₀ (h ++ [⟨s, i, out, s'⟩]) s'

variable {m} {s₀ s : σ} {h : List (Record σ ι ο)}

theorem Run.transact : ∀ {is : List ι} {h s rs s'}, m.Run s₀ h s →
    m.transact s is = .ok (rs, s') → m.Run s₀ (h ++ rs) s'
  | [], h, s, rs, s', hr, ht => by
    simp only [Machine.transact, Except.ok.injEq, Prod.mk.injEq] at ht
    obtain ⟨rfl, rfl⟩ := ht
    simpa using hr
  | i :: is, h, s, rs, s', hr, ht => by
    simp only [Machine.transact, Except.bind_eq_ok, Except.pure_eq_ok, Prod.mk.injEq,
      Prod.exists] at ht
    obtain ⟨s₁, out, hs, rs', s₂, ht', rfl, rfl⟩ := ht
    simpa using Run.transact (hr.snoc hs) ht'

theorem Run.run : ∀ (txs : List (List ι)) {h s}, m.Run s₀ h s →
    m.Run s₀ (h ++ (m.run s txs).1) (m.run s txs).2
  | [], h, s, hr => by simpa [Machine.run] using hr
  | tx :: txs, h, s, hr => by
    cases ht : m.transact s tx with
    | ok r =>
      obtain ⟨rs, s'⟩ := r
      simpa [Machine.run, ht] using Run.run txs (hr.transact ht)
    | error e => simpa [Machine.run, ht] using Run.run txs hr

/-- Every list of transactions gives a run. -/
theorem run_sound (m : Machine σ ι ο ε) (s₀ : σ) (txs : List (List ι)) :
    m.Run s₀ (m.run s₀ txs).1 (m.run s₀ txs).2 := by
  have h : m.Run s₀ [] s₀ := .nil
  simpa using h.run txs

/-- The history of the first transactions comes first. -/
theorem run_append (m : Machine σ ι ο ε) : ∀ (s : σ) (txs txs' : List (List ι)),
    (m.run s (txs ++ txs')).1 = (m.run s txs).1 ++ (m.run (m.run s txs).2 txs').1
  | s, [], txs' => by simp [Machine.run]
  | s, tx :: txs, txs' => by
    cases ht : m.transact s tx with
    | ok r => simp [Machine.run, ht, run_append m r.2 txs txs']
    | error e => simp [Machine.run, ht, run_append m s txs txs']

/-- A step that succeeds is committed. -/
theorem run_cons_ok {i : ι} {s' : σ} {out : List ο} (txs : List (List ι))
    (h : m.step s i = .ok (s', out)) : m.run s ([i] :: txs) =
      (⟨s, i, out, s'⟩ :: (m.run s' txs).1, (m.run s' txs).2) := by
  simp [Machine.run, Machine.transact, h, bind, Except.bind, pure, Except.pure]

/-- A step that fails is not. -/
theorem run_cons_error {i : ι} {e : ε} (txs : List (List ι)) (h : m.step s i = .error e) :
    m.run s ([i] :: txs) = m.run s txs := by
  simp [Machine.run, Machine.transact, h, bind, Except.bind]

theorem input_mem_of_transact : ∀ {is : List ι} {s rs s'}, m.transact s is = .ok (rs, s') →
    ∀ r ∈ rs, r.input ∈ is
  | [], s, rs, s', ht, r, hr => by
    simp only [Machine.transact, Except.ok.injEq, Prod.mk.injEq] at ht
    simp [← ht.1] at hr
  | i :: is, s, rs, s', ht, r, hr => by
    simp only [Machine.transact, Except.bind_eq_ok, Except.pure_eq_ok, Prod.mk.injEq,
      Prod.exists] at ht
    obtain ⟨s₁, out, -, rs', s₂, ht', rfl, rfl⟩ := ht
    rcases List.mem_cons.1 hr with rfl | hr
    · exact List.mem_cons_self
    · exact List.mem_cons_of_mem _ (input_mem_of_transact ht' r hr)

/-- Only inputs of the transactions are taken, so what holds of all these holds of a run. -/
theorem forall_input_of_run (m : Machine σ ι ο ε) {C : ι → Prop} : ∀ (s : σ) (txs : List (List ι)),
    (∀ tx ∈ txs, ∀ i ∈ tx, C i) → ∀ r ∈ (m.run s txs).1, C r.input
  | s, [], _, r, hr => by simp [Machine.run] at hr
  | s, tx :: txs, h, r, hr => by
    have htxs := fun tx' htx' => h tx' (List.mem_cons_of_mem tx htx')
    cases ht : m.transact s tx with
    | ok x =>
      simp only [Machine.run, ht] at hr
      rcases List.mem_append.1 hr with hr | hr
      · exact h tx List.mem_cons_self _ (input_mem_of_transact ht r hr)
      · exact forall_input_of_run m x.2 txs htxs r hr
    | error e =>
      simp only [Machine.run, ht] at hr
      exact forall_input_of_run m s txs htxs r hr

/-! ## Rules for runs -/

/-- An invariant of single steps holds after every run. -/
theorem Run.inv {I : σ → Prop} (h₀ : I s₀)
    (hstep : ∀ s i s' out, I s → m.step s i = .ok (s', out) → I s') (hr : m.Run s₀ h s) :
    I s := by
  induction hr with
  | nil => exact h₀
  | snoc _ hs ih => exact hstep _ _ _ _ ih hs

/-- An invariant of the steps that meet the condition `C` holds before and after each step of a
run in which all do. -/
theorem Run.inv_of_forall {I : σ → Prop} {C : σ → ι → Prop} (h₀ : I s₀)
    (hstep : ∀ s i s' out, C s i → I s → m.step s i = .ok (s', out) → I s')
    (hr : m.Run s₀ h s) (hC : ∀ r ∈ h, C r.before r.input) :
    (∀ r ∈ h, I r.before ∧ I r.after) ∧ I s := by
  induction hr with
  | nil => exact ⟨by simp, h₀⟩
  | @snoc h s i s' out _ hs ih =>
    obtain ⟨hall, hI⟩ := ih fun r hr => hC r (by simp [hr])
    have hI' : I s' := hstep s i s' out (hC ⟨s, i, out, s'⟩ (by simp)) hI hs
    simp only [List.forall_mem_append, List.forall_mem_singleton]
    exact ⟨⟨hall, hI, hI'⟩, hI'⟩

/-- An invariant that a step keeps exactly under the condition `C` holds throughout a run
exactly if every step meets `C`. `H` is a condition that every input of the run meets. -/
theorem Run.inv_iff {I : σ → Prop} {C : σ → ι → Prop} {H : ι → Prop} (h₀ : I s₀)
    (hstep : ∀ s i s' out, H i → I s → m.step s i = .ok (s', out) → (I s' ↔ C s i))
    (hr : m.Run s₀ h s) (hH : ∀ r ∈ h, H r.input) :
    (∀ r ∈ h, I r.after) ↔ ∀ r ∈ h, C r.before r.input := by
  suffices hboth : ((∀ r ∈ h, I r.after) ↔ ∀ r ∈ h, C r.before r.input) ∧
      ((∀ r ∈ h, I r.after) → I s) from hboth.1
  induction hr with
  | nil => simp [h₀]
  | @snoc h s i s' out _ hs ih =>
    obtain ⟨hiff, hlast⟩ := ih fun r hr => hH r (by simp [hr])
    have hnow : I s → (I s' ↔ C s i) := fun hI =>
      hstep s i s' out (hH ⟨s, i, out, s'⟩ (by simp)) hI hs
    simp only [List.forall_mem_append, List.forall_mem_singleton]
    refine ⟨⟨?_, ?_⟩, And.right⟩
    · rintro ⟨hall, hI'⟩
      exact ⟨hiff.1 hall, (hnow (hlast hall)).1 hI'⟩
    · rintro ⟨hall, hC⟩
      exact ⟨hiff.2 hall, (hnow (hlast (hiff.2 hall))).2 hC⟩

/-- What is taken in is put out in the same order, with the rest pending, if every step keeps to
this. `I` is an invariant that the steps may need. -/
theorem Run.conserved {α : Type} {I : σ → Prop} {taken put : ο → List α} {pending : σ → List α}
    (h₀ : I s₀) (hstep : ∀ s i s' out, I s → m.step s i = .ok (s', out) →
      I s' ∧ out.flatMap put ++ pending s' = pending s ++ out.flatMap taken)
    (hr : m.Run s₀ h s) :
    I s ∧ (outputs h).flatMap put ++ pending s = pending s₀ ++ (outputs h).flatMap taken := by
  induction hr with
  | nil => simpa [outputs] using h₀
  | @snoc h s i s' out _ hs ih =>
    obtain ⟨hI, heq⟩ := ih
    obtain ⟨hI', hnow⟩ := hstep s i s' out hI hs
    refine ⟨hI', ?_⟩
    have hlast : outputs (h ++ [⟨s, i, out, s'⟩]) = outputs h ++ out := by simp [outputs]
    rw [hlast, List.flatMap_append, List.flatMap_append, List.append_assoc, hnow,
      ← List.append_assoc, heq, List.append_assoc]

/-- A committed step was taken from the end of the run before it. -/
theorem Run.of_mem (hr : m.Run s₀ h s) {r : Record σ ι ο} (hmem : r ∈ h) :
    ∃ pre post, h = pre ++ r :: post ∧ m.Run s₀ pre r.before ∧
      m.step r.before r.input = .ok (r.after, r.out) := by
  induction hr with
  | nil => simp at hmem
  | @snoc h s i s' out hr hs ih =>
    rcases List.mem_append.1 hmem with hmem | hmem
    · obtain ⟨pre, post, rfl, hpre, hstep⟩ := ih hmem
      exact ⟨pre, post ++ [⟨s, i, out, s'⟩], by simp, hpre, hstep⟩
    · obtain rfl := List.mem_singleton.1 hmem
      exact ⟨h, [], by simp, hr, hs⟩

/-- Outputs that need the flag `D` down and raise it are put out at most once, if the
flag never goes down again. `C` is a condition that every input of the run meets. -/
theorem Run.at_most_once {C : ι → Prop} {D : σ → Prop} {p : ο → Bool}
    (hstep : ∀ h s i s' out, m.Run s₀ h s → C i → m.step s i = .ok (s', out) →
      (D s → D s') ∧ (out.countP p = 0 ∨ out.countP p = 1 ∧ ¬D s ∧ D s'))
    (hr : m.Run s₀ h s) (hC : ∀ r ∈ h, C r.input) :
    (outputs h).countP p ≤ 1 ∧ ((outputs h).countP p = 1 → D s) := by
  induction hr with
  | nil => simp [outputs]
  | @snoc h s i s' out hr hs ih =>
    obtain ⟨hle, hdone⟩ := ih fun r hmem => hC r (by simp [hmem])
    obtain ⟨hkeep, hout⟩ := hstep h s i s' out hr (hC ⟨s, i, out, s'⟩ (by simp)) hs
    have hcount : (outputs (h ++ [⟨s, i, out, s'⟩])).countP p =
        (outputs h).countP p + out.countP p := by
      simp [outputs, List.countP_append]
    rw [hcount]
    rcases hout with h0 | ⟨h1, hnot, hset⟩
    · rw [h0]
      exact ⟨hle, fun h => hkeep (hdone h)⟩
    · have hzero : (outputs h).countP p = 0 := by
        by_contra hne
        exact hnot (hdone (by omega))
      rw [h1, hzero]
      exact ⟨by omega, fun _ => hset⟩

end Machine
