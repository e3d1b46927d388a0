import Mathlib.Data.List.TakeWhile
import Mathlib.Tactic.Common

/-!
# Windows of an append-only log

A log that only grows, oldest entry first, is read backwards in pages : the newest entries
strictly after one entry and strictly before another (`between`). What lies after an entry
grows with the log (`after_append`). What lies between two entries stays the same
(`between_append_cons`), so paging backwards is not disturbed by what is appended meanwhile.
-/

namespace Window

variable {α : Type*} [DecidableEq α]

/-- The entries after `u`, or all of them if `u` is not there. -/
def after (u : α) (h : List α) : List α :=
  if u ∈ h then (h.dropWhile (· ≠ u)).tail else h

/-- The entries before `b`, or all of them if `b` is not there. -/
def upTo (b : α) (h : List α) : List α :=
  h.takeWhile (· ≠ b)

/-- The entries strictly between the two, as far as they are given. -/
def between (u b : Option α) (h : List α) : List α :=
  let h := match b with
    | some b => upTo b h
    | none => h
  match u with
  | some u => after u h
  | none => h

variable {u b : α} {h pre post new : List α}

theorem after_append_cons (hu : u ∉ pre) : after u (pre ++ u :: post) = post := by
  have hmem : u ∈ pre ++ u :: post := by simp
  rw [after, if_pos hmem, List.dropWhile_append_of_pos]
  · simp
  · intro x hx
    simpa using fun heq : x = u => hu (heq ▸ hx)

/-- Where no entry comes twice, an entry is followed by what stands behind it. -/
theorem after_of_nodup (hd : (pre ++ u :: post).Nodup) : after u (pre ++ u :: post) = post :=
  after_append_cons fun hmem => (List.nodup_append.1 hd).2.2 u hmem u List.mem_cons_self rfl

/-- An entry cuts the log into what comes before it and after it. -/
theorem exists_eq_append_after (hu : u ∈ h) : ∃ pre, u ∉ pre ∧ h = pre ++ u :: after u h := by
  obtain ⟨pre, post, rfl, hpre⟩ := List.eq_append_cons_of_mem hu
  exact ⟨pre, hpre, by rw [after_append_cons hpre]⟩

/-- What comes before `u` does not matter. -/
theorem after_append_right (hu : u ∈ h) (hpre : u ∉ pre) : after u (pre ++ h) = after u h := by
  obtain ⟨front, hfront, heq⟩ := exists_eq_append_after hu
  nth_rewrite 1 [heq]
  rw [← List.append_assoc, after_append_cons (by simp [hpre, hfront])]

theorem upTo_append_cons (hb : b ∉ pre) : upTo b (pre ++ b :: post) = pre := by
  rw [upTo, List.takeWhile_append_of_pos]
  · simp
  · intro x hx
    simpa using fun heq : x = b => hb (heq ▸ hx)

/-- What is appended comes after `u`. -/
theorem after_append (hu : u ∈ h) : after u (h ++ new) = after u h ++ new := by
  obtain ⟨pre, hpre, heq⟩ := exists_eq_append_after hu
  nth_rewrite 1 [heq]
  rw [List.append_assoc, List.cons_append, after_append_cons hpre]

theorem mem_of_mem_after {x : α} (hx : x ∈ after u h) : x ∈ h := by
  unfold after at hx
  split_ifs at hx with hu
  · exact (List.dropWhile_sublist _).mem (List.mem_of_mem_tail hx)
  · exact hx

theorem nodup_after (hd : h.Nodup) : (after u h).Nodup := by
  unfold after
  split_ifs with hu
  · exact hd.sublist ((List.tail_sublist _).trans (List.dropWhile_sublist _))
  · exact hd

/-- What lies between two entries is not changed by what is appended. -/
theorem between_append_cons (hd : (pre ++ u :: post ++ b :: new).Nodup) :
    between (some u) (some b) (pre ++ u :: post ++ b :: new) = post := by
  have hb : b ∉ pre ++ u :: post := fun hmem =>
    (List.nodup_append.1 hd).2.2 b hmem b List.mem_cons_self rfl
  simp only [between]
  rw [upTo_append_cons hb, after_of_nodup (List.nodup_append.1 hd).1]

end Window
