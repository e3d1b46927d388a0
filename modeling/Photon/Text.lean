import Mathlib.Data.List.Infix

/-!
# Lines of text

The two ways a pattern with literal ends splits a line. `Text.after` takes a literal off
the start. `Text.before` is the greedy group before a literal : what stands before its last
occurrence. A literal that begins with a character `c` cannot begin inside a piece without
`c`, which is how the group is computed on a line made of such pieces (`before_append`).
-/

namespace Text

variable {pat s t x : List Char} {c : Char} {p : List Char}

/-- The text after `pat`, if the line starts with it. -/
def after (pat s : List Char) : Option (List Char) :=
  if pat <+: s then some (s.drop pat.length) else none

theorem after_eq_some : after pat s = some t ↔ s = pat ++ t := by
  unfold after
  split_ifs with h
  · obtain ⟨u, rfl⟩ := h
    simp [eq_comm]
  · simp only [false_iff]
    rintro rfl
    exact h (List.prefix_append pat t)

@[simp] theorem after_append (pat t : List Char) : after pat (pat ++ t) = some t :=
  after_eq_some.2 rfl

/-- A line that starts with another word does not start with `pat`. -/
theorem after_eq_none (pat word : List Char) (h : ¬pat <+: word) (hle : pat.length ≤ word.length)
    (t : List Char) : after pat (word ++ t) = none := by
  refine if_neg fun hp => h ?_
  exact List.prefix_of_prefix_length_le hp (List.prefix_append word t) hle

/-- The text before the last occurrence of `pat`. -/
def before (pat : List Char) : List Char → Option (List Char)
  | [] => if pat = [] then some [] else none
  | a :: s =>
    match before pat s with
    | some x => some (a :: x)
    | none => if pat <+: a :: s then some [] else none

theorem prefix_of_before (h : before pat s = some x) : x ++ pat <+: s := by
  induction s generalizing x with
  | nil =>
    simp only [before] at h
    split_ifs at h with hp
    obtain rfl := Option.some_inj.1 h
    simp [hp]
  | cons a s ih =>
    simp only [before] at h
    split at h
    · rename_i y hy
      obtain rfl := Option.some_inj.1 h
      simpa using ih hy
    · split_ifs at h with hp
      obtain rfl := Option.some_inj.1 h
      simpa using hp

/-- No occurrence begins at `a`. -/
theorem before_cons (h : ¬pat <+: c :: s) : before pat (c :: s) = (before pat s).map (c :: ·) := by
  simp only [before, if_neg h]
  cases before pat s <;> rfl

/-- No occurrence of a literal begins in a piece without its first character. -/
theorem before_append (hc : c ∉ s) (t : List Char) :
    before (c :: p) (s ++ t) = (before (c :: p) t).map (s ++ ·) := by
  induction s with
  | nil => simp
  | cons a s ih =>
    simp only [List.mem_cons, not_or] at hc
    have hno : ¬c :: p <+: a :: (s ++ t) := by
      simp [hc.1]
    rw [List.cons_append, before_cons hno, ih hc.2, Option.map_map]
    rfl

theorem before_eq_none (hc : c ∉ s) : before (c :: p) s = none := by
  have h := before_append (p := p) hc []
  simpa [before] using h

end Text
