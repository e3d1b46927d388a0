import Photon.Machine

/-!
# Delivery in order, with repetitions

A sender that repeats a message until it learns of its arrival, and only then goes on to the next
one, sees to it that the messages arrive for the first time in order (`Arrives`). A repetition may
arrive at any time later.

A machine that takes these arrivals as transactions goes through the messages as if each had come
once, if a repetition of what it has taken changes nothing (`Arrives.run_rule`).
-/

namespace Delivery

open Machine

variable {μ τ : Type} (copies : μ → τ → Prop)

/-- `arrivals` are copies of `messages`, and first copies come in order. A message may have arrived
already as a copy of an earlier one. -/
inductive Arrives : List μ → List τ → Prop
  | nil : Arrives [] []
  | next {messages arrivals m t} : Arrives messages arrivals → copies m t →
      Arrives (messages ++ [m]) (arrivals ++ [t])
  | again {messages arrivals m t} : Arrives messages arrivals → m ∈ messages → copies m t →
      Arrives messages (arrivals ++ [t])
  | same {messages arrivals m t} : Arrives messages arrivals → t ∈ arrivals → copies m t →
      Arrives (messages ++ [m]) arrivals

section Lists

variable {υ : Type} {R : τ → υ → Prop}

theorem exists_of_forall₂_concat : ∀ {ts : List τ} {t : τ} {us : List υ},
    List.Forall₂ R (ts ++ [t]) us →
      ∃ us' u, List.Forall₂ R ts us' ∧ R t u ∧ us = us' ++ [u]
  | [], t, _, .cons h .nil => ⟨[], _, .nil, h, rfl⟩
  | t' :: ts, t, _, .cons h hall => by
    obtain ⟨us', u, hus, hu, rfl⟩ := exists_of_forall₂_concat hall
    exact ⟨_ :: us', u, .cons h hus, hu, rfl⟩

theorem exists_of_forall₂_mem : ∀ {ts : List τ} {us : List υ} {t : τ}, List.Forall₂ R ts us →
    t ∈ ts → ∃ u ∈ us, R t u
  | _ :: ts, _ :: _, _, .cons h hall, hmem => by
    rcases List.mem_cons.1 hmem with rfl | hmem
    · exact ⟨_, List.mem_cons_self, h⟩
    · obtain ⟨u, hu, hR⟩ := exists_of_forall₂_mem hall hmem
      exact ⟨u, List.mem_cons_of_mem _ hu, hR⟩

end Lists

namespace Arrives

variable {copies} {messages : List μ} {arrivals : List τ}

/-- Nothing else arrives. -/
theorem exists_message (h : Arrives copies messages arrivals) :
    ∀ t ∈ arrivals, ∃ m ∈ messages, copies m t := by
  induction h with
  | nil => simp
  | @next messages arrivals m t _ hcopy ih =>
    simp only [List.forall_mem_append, List.forall_mem_singleton]
    refine ⟨fun t' ht' => ?_, m, by simp, hcopy⟩
    obtain ⟨m', hm', hcopy'⟩ := ih t' ht'
    exact ⟨m', List.mem_append_left _ hm', hcopy'⟩
  | @again messages arrivals m t _ hm hcopy ih =>
    simp only [List.forall_mem_append, List.forall_mem_singleton]
    exact ⟨ih, m, hm, hcopy⟩
  | @same messages arrivals m t _ _ _ ih =>
    intro t' ht'
    obtain ⟨m', hm', hcopy'⟩ := ih t' ht'
    exact ⟨m', List.mem_append_left _ hm', hcopy'⟩

/-- Every one of the messages arrives. -/
theorem exists_arrival (h : Arrives copies messages arrivals) :
    ∀ m ∈ messages, ∃ t ∈ arrivals, copies m t := by
  induction h with
  | nil => simp
  | @next messages arrivals m t _ hcopy ih =>
    simp only [List.forall_mem_append, List.forall_mem_singleton]
    refine ⟨fun m' hm' => ?_, t, by simp, hcopy⟩
    obtain ⟨t', ht', hcopy'⟩ := ih m' hm'
    exact ⟨t', List.mem_append_left _ ht', hcopy'⟩
  | @again messages arrivals m t _ _ _ ih =>
    intro m' hm'
    obtain ⟨t', ht', hcopy'⟩ := ih m' hm'
    exact ⟨t', List.mem_append_left _ ht', hcopy'⟩
  | @same messages arrivals m t _ ht hcopy ih =>
    simp only [List.forall_mem_append, List.forall_mem_singleton]
    exact ⟨ih, t, ht, hcopy⟩

/-- Messages and arrivals seen in another way, in which the copies are still copies. -/
theorem map {ν υ : Type} {copies' : ν → υ → Prop} {sees : τ → υ → Prop} (g : μ → ν)
    {seen : List υ} (h : Arrives copies messages arrivals)
    (hsees : ∀ m ∈ messages, ∀ t u, copies m t → sees t u → copies' (g m) u)
    (hall : List.Forall₂ sees arrivals seen) : Arrives copies' (messages.map g) seen := by
  induction h generalizing seen with
  | nil =>
    cases hall
    exact .nil
  | @next messages arrivals m t _ hcopy ih =>
    obtain ⟨us, u, hus, hu, rfl⟩ := exists_of_forall₂_concat hall
    rw [List.forall_mem_append, List.forall_mem_singleton] at hsees
    rw [List.map_append, List.map_singleton]
    exact .next (ih hsees.1 hus) (hsees.2 t u hcopy hu)
  | @again messages arrivals m t _ hm hcopy ih =>
    obtain ⟨us, u, hus, hu, rfl⟩ := exists_of_forall₂_concat hall
    exact .again (ih hsees hus) (List.mem_map_of_mem hm) (hsees m hm t u hcopy hu)
  | @same messages arrivals m t _ ht hcopy ih =>
    obtain ⟨u, hu, hsee⟩ := exists_of_forall₂_mem hall ht
    rw [List.forall_mem_append, List.forall_mem_singleton] at hsees
    rw [List.map_append, List.map_singleton]
    exact .same (ih hsees.1 hall) hu (hsees.2 t u hcopy hsee)

/-- The messages by what they are made from. -/
theorem of_map {ν : Type} (f : ν → μ) {xs : List ν} (h : Arrives copies (xs.map f) arrivals) :
    Arrives (fun x t => copies (f x) t) xs arrivals := by
  generalize hms : xs.map f = messages at h
  induction h generalizing xs with
  | nil =>
    rw [List.map_eq_nil_iff] at hms
    rw [hms]
    exact .nil
  | next _ hcopy ih =>
    obtain ⟨ys, zs, rfl, hys, hzs⟩ := List.map_eq_append_iff.1 hms
    obtain ⟨x, rfl, rfl⟩ := List.map_eq_singleton_iff.1 hzs
    exact .next (ih hys) hcopy
  | again _ hm hcopy ih =>
    subst hms
    obtain ⟨x, hx, rfl⟩ := List.mem_map.1 hm
    exact .again (ih rfl) hx hcopy
  | same _ ht hcopy ih =>
    obtain ⟨ys, zs, rfl, hys, hzs⟩ := List.map_eq_append_iff.1 hms
    obtain ⟨x, rfl, rfl⟩ := List.map_eq_singleton_iff.1 hzs
    exact .same (ih hys) ht hcopy

end Arrives

/-! ## Runs on arrivals -/

section Run

variable {σ ι ο ε : Type} {m : Machine σ ι ο ε} {s₀ : σ}

/-- The state after the first transactions and then the others. -/
theorem run_append_state (m : Machine σ ι ο ε) : ∀ (s : σ) (txs txs' : List (List ι)),
    (m.run s (txs ++ txs')).2 = (m.run (m.run s txs).2 txs').2
  | s, [], txs' => by simp [Machine.run]
  | s, tx :: txs, txs' => by
    cases ht : m.transact s tx with
    | ok r => simp [Machine.run, ht, run_append_state m r.2 txs txs']
    | error e => simp [Machine.run, ht, run_append_state m s txs txs']

/-- `P` holds of the messages that have been taken, the outputs and the state. A first copy takes
the next message, and a repetition leaves `P` as it is. -/
theorem Arrives.run_rule {copies : μ → List ι → Prop} {all messages : List μ}
    {P : List μ → List ο → σ → Prop} (h₀ : P [] [] s₀)
    (hnext : ∀ ms x tx out s, ms ++ [x] <+: all → P ms out s → copies x tx →
      P (ms ++ [x]) (out ++ outputs (m.run s [tx]).1) (m.run s [tx]).2)
    (hagain : ∀ ms x tx out s, x ∈ ms → P ms out s → copies x tx →
      P ms (out ++ outputs (m.run s [tx]).1) (m.run s [tx]).2)
    (hsame : ∀ ms x y tx out s, ms ++ [x] <+: all → P ms out s → y ∈ ms → copies y tx →
      copies x tx → P (ms ++ [x]) out s) {txs : List (List ι)}
    (h : Arrives copies messages txs) (hpre : messages <+: all) :
    P messages (outputs (m.run s₀ txs).1) (m.run s₀ txs).2 := by
  have hlast (txs : List (List ι)) (tx : List ι) :
      outputs (m.run s₀ (txs ++ [tx])).1 =
        outputs (m.run s₀ txs).1 ++ outputs (m.run (m.run s₀ txs).2 [tx]).1 := by
    rw [run_append, outputs, List.flatMap_append]
    rfl
  induction h with
  | nil => exact h₀
  | @next ms txs x tx _ hcopy ih =>
    rw [hlast, run_append_state]
    exact hnext ms x tx _ _ hpre (ih ((List.prefix_append ms [x]).trans hpre)) hcopy
  | @again ms txs x tx _ hx hcopy ih =>
    rw [hlast, run_append_state]
    exact hagain ms x tx _ _ hx (ih hpre) hcopy
  | @same ms txs x tx hprev ht hcopy ih =>
    obtain ⟨y, hy, hcopy'⟩ := hprev.exists_message tx ht
    exact hsame ms x y tx _ _ hpre (ih ((List.prefix_append ms [x]).trans hpre)) hy hcopy' hcopy

end Run

end Delivery
