import Mathlib.Data.List.Perm.Subperm
import Photon.Window

/-!
# Resuming a replay from the last item taken

A worker goes through the entries of a log and delivers the items of each, until it comes to an
entry that stops it for good (`delivered`). An item says which entry it is of (`key`). Progress is
kept as the entry of the last item that was taken. When the worker is started again, it resumes
strictly after this entry. So the other items of the entry are not delivered again.

`resume_iff` : all items of the log are delivered, counting those that were handed over before the
restart, exactly if no item comes after an entry that stops the worker, and none that is still to
be handed over is of the entry that the worker resumes after.
-/

open scoped List

namespace Replay

variable {α β : Type*} (f : α → Option (List β))

/-- All items of some entries. An entry that stops the worker has none. -/
def items (xs : List α) : List β :=
  xs.flatMap fun x => (f x).getD []

/-- The items that the worker delivers. -/
def delivered : List α → List β
  | [] => []
  | x :: xs =>
    match f x with
    | some l => l ++ delivered xs
    | none => []

/-- No item comes after an entry that stops the worker. -/
def Unblocked (xs : List α) : Prop :=
  xs.Pairwise fun x y => f x = none → (f y).getD [] = []

variable {f} {x : α} {y : β} {l : List β} {xs ys us : List α}

theorem items_append : items f (xs ++ ys) = items f xs ++ items f ys :=
  List.flatMap_append

theorem delivered_cons_some (h : f x = some l) :
    delivered f (x :: xs) = l ++ delivered f xs := by
  simp [delivered, h]

theorem delivered_cons_none (h : f x = none) : delivered f (x :: xs) = [] := by
  simp [delivered, h]

/-- Entries that do not stop the worker are delivered in full. -/
theorem delivered_append (hxs : ∀ x ∈ xs, f x ≠ none) :
    delivered f (xs ++ ys) = items f xs ++ delivered f ys := by
  induction xs with
  | nil => rfl
  | cons x xs ih =>
    obtain ⟨l, hl⟩ := Option.ne_none_iff_exists'.1 (hxs x List.mem_cons_self)
    rw [List.cons_append, delivered_cons_some hl, ih fun x hx => hxs x (List.mem_cons_of_mem _ hx)]
    simp [items, hl]

/-- The worker delivers more of a longer log. -/
theorem delivered_mono (h : us <+: xs) : delivered f us <+: delivered f xs := by
  induction us generalizing xs with
  | nil => exact List.nil_prefix
  | cons x us ih =>
    obtain ⟨ys, rfl⟩ := h
    cases hx : f x with
    | none => rw [delivered_cons_none hx]; exact List.nil_prefix
    | some l =>
      rw [List.cons_append, delivered_cons_some hx, delivered_cons_some hx,
        List.prefix_append_right_inj]
      exact ih (List.prefix_append us ys)

/-- A worker that nothing stops delivers all. -/
theorem delivered_map {γ : Type*} {entry : γ → α} {g : γ → List β} {zs : List γ}
    (h : ∀ z ∈ zs, f (entry z) = some (g z)) : delivered f (zs.map entry) = zs.flatMap g := by
  induction zs with
  | nil => rfl
  | cons z zs ih =>
    rw [List.forall_mem_cons] at h
    rw [List.map_cons, delivered_cons_some h.1, ih h.2, List.flatMap_cons]

theorem delivered_eq_items (h : Unblocked f xs) : delivered f xs = items f xs := by
  induction xs with
  | nil => rfl
  | cons x xs ih =>
    obtain ⟨hhead, htail⟩ := List.pairwise_cons.1 h
    cases hx : f x with
    | some l =>
      rw [delivered_cons_some hx, ih htail]
      simp [items, hx]
    | none =>
      rw [delivered_cons_none hx, items, List.flatMap_cons, hx, Option.getD_none, List.nil_append,
        eq_comm, List.flatMap_eq_nil_iff]
      exact fun y hy => hhead y hy hx

/-! ## Items and their entries -/

section Key

variable {key : β → α} (hkey : ∀ x l, f x = some l → ∀ y ∈ l, key y = x)

include hkey

theorem key_mem_of_mem_items (hy : y ∈ items f xs) : key y ∈ xs := by
  obtain ⟨x, hx, hy⟩ := List.mem_flatMap.1 hy
  cases hl : f x with
  | none => simp [hl] at hy
  | some l =>
    rw [hl, Option.getD_some] at hy
    rw [hkey x l hl y hy]
    exact hx

/-- An item is delivered after the entries before its own, none of which stops the worker. -/
theorem exists_cut (hy : y ∈ delivered f xs) :
    ∃ pre post, xs = pre ++ key y :: post ∧ ∀ x ∈ pre ++ [key y], f x ≠ none := by
  induction xs with
  | nil => simp [delivered] at hy
  | cons x xs ih =>
    cases hx : f x with
    | none => simp [delivered_cons_none hx] at hy
    | some l =>
      rw [delivered_cons_some hx] at hy
      rcases List.mem_append.1 hy with hy | hy
      · obtain rfl := hkey x l hx y hy
        exact ⟨[], xs, rfl, by simp [hx]⟩
      · obtain ⟨pre, post, rfl, hpre⟩ := ih hy
        refine ⟨x :: pre, post, rfl, fun z hz => ?_⟩
        rcases List.mem_cons.1 hz with rfl | hz
        · simp [hx]
        · exact hpre z hz

theorem key_mem_of_mem_delivered (hy : y ∈ delivered f xs) : key y ∈ xs := by
  obtain ⟨pre, post, rfl, -⟩ := exists_cut hkey hy
  simp

/-- What is delivered in full comes before every entry that stops the worker. -/
theorem unblocked_of_subset (hd : xs.Nodup) (h : items f xs ⊆ delivered f xs) :
    Unblocked f xs := by
  induction xs with
  | nil => exact .nil
  | cons x xs ih =>
    obtain ⟨hx, hd⟩ := List.nodup_cons.1 hd
    refine List.pairwise_cons.2 ⟨fun y hy hnone => ?_, ih hd fun y hy => ?_⟩
    · rw [delivered_cons_none hnone, List.subset_nil, items, List.flatMap_eq_nil_iff] at h
      exact h y (List.mem_cons_of_mem _ hy)
    · have hmem := h (by rw [items, List.flatMap_cons]; exact List.mem_append_right _ hy)
      cases hl : f x with
      | none => simp [delivered_cons_none hl] at hmem
      | some l =>
        rw [delivered_cons_some hl] at hmem
        refine (List.mem_append.1 hmem).resolve_left fun hmem => hx ?_
        rw [← hkey x l hl y hmem]
        exact key_mem_of_mem_items hkey hy

/-! ## The restart -/

/-- A worker that resumes after the entries `xs` makes up for what was not handed over exactly if
the first `m` items contain all of these entries. -/
theorem items_subperm_iff (xs : List α) (m : ℕ) (hd : (xs ++ ys).Nodup)
    (hxs : ∀ x ∈ xs, f x ≠ none) (hus : us <+: ys) :
    items f (xs ++ ys) <+~ (delivered f (xs ++ us)).take m ++ delivered f ys ↔
      Unblocked f (xs ++ ys) ∧ (items f xs).length ≤ m := by
  rw [delivered_append hxs]
  constructor
  · intro h
    have hblock : Unblocked f (xs ++ ys) := by
      refine unblocked_of_subset hkey hd fun y hy => ?_
      rw [delivered_append hxs]
      rcases List.mem_append.1 (h.subset hy) with hy | hy
      · rcases List.mem_append.1 (List.mem_of_mem_take hy) with hy | hy
        · exact List.mem_append_left _ hy
        · exact List.mem_append_right _ ((delivered_mono hus).subset hy)
      · exact List.mem_append_right _ hy
    refine ⟨hblock, ?_⟩
    rw [← delivered_eq_items hblock, delivered_append hxs, List.subperm_append_right] at h
    exact h.length_le.trans (List.length_take_le _ _)
  · rintro ⟨hblock, hm⟩
    rw [← delivered_eq_items hblock, delivered_append hxs, List.subperm_append_right,
      List.take_append, List.take_of_length_le hm]
    exact (List.sublist_append_left _ _).subperm

/-- If the last of the first `k` items is of the entry `v`, then all items up to this entry are
among the first `m` exactly if none of the others is of it. -/
theorem forall_drop_iff {v : α} {k m : ℕ} (hd : (xs ++ v :: us).Nodup)
    (hxs : ∀ x ∈ xs ++ [v], f x ≠ none)
    (hy : ((delivered f (xs ++ v :: us)).take k).getLast? = some y) (hyv : key y = v)
    (hkm : k ≤ m) :
    (∀ z ∈ (delivered f (xs ++ v :: us)).drop m, key z ≠ v) ↔
      (items f (xs ++ [v])).length ≤ m := by
  obtain ⟨-, hdv, hdisj⟩ := List.nodup_append.1 hd
  obtain ⟨l, hl⟩ := Option.ne_none_iff_exists'.1 (hxs v (by simp))
  have hsplit : delivered f (xs ++ v :: us) = items f xs ++ (l ++ delivered f us) := by
    rw [delivered_append fun x hx => hxs x (List.mem_append_left _ hx), delivered_cons_some hl]
  have hitems : items f (xs ++ [v]) = items f xs ++ l := by
    rw [items_append]
    simp [items, hl]
  rw [hsplit] at hy ⊢
  have hlt : (items f xs).length < k := by
    by_contra hle
    rw [List.take_append_of_le_length (by omega)] at hy
    have hmem := key_mem_of_mem_items hkey (List.mem_of_mem_take (List.mem_of_getLast? hy))
    exact hdisj v (hyv ▸ hmem) v List.mem_cons_self rfl
  rw [hitems, List.length_append, List.drop_append, List.drop_of_length_le (by omega),
    List.nil_append, List.drop_append]
  constructor
  · intro h
    by_contra hshort
    obtain ⟨z, hz⟩ := List.exists_mem_of_ne_nil (l.drop (m - (items f xs).length))
      (by rw [Ne, List.drop_eq_nil_iff]; omega)
    exact h z (List.mem_append_left _ hz) (hkey v l hl z (List.mem_of_mem_drop hz))
  · rintro hm z hz rfl
    rw [List.drop_of_length_le (by omega), List.nil_append] at hz
    exact (List.nodup_cons.1 hdv).1 (key_mem_of_mem_delivered hkey (List.mem_of_mem_drop hz))

/-- The worker starts after `start`, comes as far as the entries `us`, hands over `m` items of
which `k` are taken, and resumes after the entry of the last of these. -/
theorem resume_iff [DecidableEq α] {start stored : α} (k m : ℕ) (hd : (start :: xs).Nodup)
    (hus : us <+: xs) (hkm : k ≤ m)
    (hstored : stored = (((delivered f us).take k).getLast?.map key).getD start) :
    items f xs <+~ (delivered f us).take m ++ delivered f (Window.after stored (start :: xs)) ↔
      Unblocked f xs ∧ ∀ y ∈ (delivered f us).drop m, key y ≠ stored := by
  obtain ⟨hstart, hdxs⟩ := List.nodup_cons.1 hd
  cases hy : ((delivered f us).take k).getLast? with
  | none =>
    obtain rfl : stored = start := by rw [hstored, hy]; rfl
    have hafter : Window.after stored ([] ++ stored :: xs) = xs :=
      Window.after_append_cons List.not_mem_nil
    rw [List.nil_append] at hafter
    have hnone : ∀ y ∈ (delivered f us).drop m, key y ≠ stored := by
      rintro y hmem rfl
      exact hstart (hus.subset (key_mem_of_mem_delivered hkey (List.mem_of_mem_drop hmem)))
    have hiff := items_subperm_iff hkey [] m (by simpa using hdxs) (by simp) hus
    rw [hafter, and_iff_left hnone]
    simpa [items] using hiff
  | some y =>
    obtain rfl : stored = key y := by rw [hstored, hy]; rfl
    have hmem := List.mem_of_mem_take (List.mem_of_getLast? hy)
    obtain ⟨pre, post, rfl, hpre⟩ := exists_cut hkey hmem
    obtain ⟨new, rfl⟩ := hus
    have hd' : (pre ++ key y :: post).Nodup := hdxs.sublist (List.sublist_append_left _ _)
    have hafter : Window.after (key y) ((start :: pre) ++ key y :: (post ++ new)) = post ++ new :=
      Window.after_of_nodup (by simpa using hd)
    have hiff := items_subperm_iff hkey (pre ++ [key y]) m (by simpa using hdxs) hpre
      (List.prefix_append post new)
    rw [forall_drop_iff hkey hd' hpre hy rfl hkm]
    simp only [List.append_assoc, List.cons_append, List.nil_append] at hafter hiff ⊢
    rw [hafter]
    exact hiff

end Key

end Replay
