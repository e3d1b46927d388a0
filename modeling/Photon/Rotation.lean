import Mathlib.Data.List.Rotate
import Mathlib.Logic.Function.Basic
import Mathlib.Tactic.Common

/-!
# Taking what was taken longest ago

Entries `0, …, n - 1` have stamps. The one with the oldest stamp is taken, and of several the
first (`Older`). It is stamped anew when it is put back. If the new stamp is later than all
others, the entry goes to the end of the order (`InOrder.touch`), so the entries are taken in
turn, round after round, without a counter that says whose turn it is (`InOrder.rotate`).
-/

open scoped List

namespace Rotation

/-- `i` is taken before `j`. -/
def Older (stamp : ℕ → ℕ) (i j : ℕ) : Prop :=
  stamp i < stamp j ∨ stamp i = stamp j ∧ i < j

/-- The entries below `n`, the one that is taken first in front. -/
structure InOrder (stamp : ℕ → ℕ) (n : ℕ) (order : List ℕ) : Prop where
  perm : order ~ List.range n
  older : order.Pairwise (Older stamp)

namespace InOrder

variable {stamp : ℕ → ℕ} {n i t : ℕ} {order rest : List ℕ}

/-- Entries that are stamped one after the other are in order. -/
theorem of_mono (hmono : ∀ i j, i < j → j < n → stamp i ≤ stamp j) :
    InOrder stamp n (List.range n) := by
  refine ⟨List.Perm.refl _, ?_⟩
  refine List.Pairwise.imp_of_mem ?_ List.pairwise_lt_range
  intro i j _ hj hlt
  have hle := hmono i j hlt (List.mem_range.1 hj)
  unfold Older
  omega

theorem nodup (h : InOrder stamp n order) : order.Nodup :=
  h.perm.nodup_iff.2 List.nodup_range

theorem mem_iff (h : InOrder stamp n order) : i ∈ order ↔ i < n := by
  rw [h.perm.mem_iff, List.mem_range]

/-- The entry in front is older than any other. -/
theorem head (h : InOrder stamp n (i :: rest)) {j : ℕ} (hj : j < n) (hne : j ≠ i) :
    Older stamp i j := by
  have hmem : j ∈ i :: rest := h.mem_iff.2 hj
  exact List.rel_of_pairwise_cons h.older ((List.mem_cons.1 hmem).resolve_left hne)

/-- The entry in front is put back with the latest stamp. -/
theorem touch (h : InOrder stamp n (i :: rest)) (hlate : ∀ j < n, stamp j < t) :
    InOrder (Function.update stamp i t) n (rest ++ [i]) := by
  have hni : ∀ j ∈ rest, j ≠ i := by
    rintro j hj rfl
    exact (List.nodup_cons.1 h.nodup).1 hj
  refine ⟨(List.perm_append_singleton i rest).trans h.perm, ?_⟩
  rw [List.pairwise_append]
  refine ⟨?_, List.pairwise_singleton _ _, ?_⟩
  · refine List.Pairwise.imp_of_mem ?_ (List.pairwise_cons.1 h.older).2
    intro a b ha hb hab
    unfold Older at hab ⊢
    rwa [Function.update_of_ne (hni a ha), Function.update_of_ne (hni b hb)]
  · intro a ha b hb
    rw [List.mem_singleton] at hb
    subst hb
    refine .inl ?_
    rw [Function.update_of_ne (hni a ha), Function.update_self]
    exact hlate a (h.mem_iff.1 (List.mem_cons_of_mem _ ha))

/-- In front of the order after `k` rounds of one entry each. -/
theorem exists_front (hn : 0 < n) (k : ℕ) :
    ∃ rest, (List.range n).rotate k = k % n :: rest ∧
      (List.range n).rotate (k + 1) = rest ++ [k % n] := by
  have hlt : k % (List.range n).length < (List.range n).length := by
    rw [List.length_range]
    exact Nat.mod_lt _ hn
  have hhead : ((List.range n).rotate k).head? = some (k % n) := by
    rw [← List.rotate_mod, List.head?_rotate hlt, List.length_range]
    exact List.getElem?_range (Nat.mod_lt _ hn)
  obtain ⟨rest, hrest⟩ := List.head?_eq_some_iff.1 hhead
  refine ⟨rest, hrest, ?_⟩
  rw [← List.rotate_rotate, hrest, List.rotate_cons_succ, List.rotate_zero]

/-- After `k` rounds the entry `k % n` is taken, and comes last after it. -/
theorem rotate (hn : 0 < n) {k : ℕ} (h : InOrder stamp n ((List.range n).rotate k)) :
    (∀ j < n, j ≠ k % n → Older stamp (k % n) j) ∧
      ∀ t, (∀ j < n, stamp j < t) →
        InOrder (Function.update stamp (k % n) t) n ((List.range n).rotate (k + 1)) := by
  obtain ⟨rest, hfront, hnext⟩ := exists_front hn k
  rw [hfront] at h
  rw [hnext]
  exact ⟨fun j hj hne => h.head hj hne, fun t hlate => h.touch hlate⟩

end InOrder

end Rotation
