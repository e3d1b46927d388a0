import Mathlib.Data.Finset.Card
import Mathlib.Data.List.Destutter
import Mathlib.Data.List.TakeWhile
import Photon.Bytes

/-!
# Fixed arrays used as short lists

A program that stores a short list in a fixed array fills the unused slots with a zero
entry. It writes the list slot by slot from the front (`overwrite`, or `fill` when it
clears the array first) and reads it back up to the first zero (`live`), or by dropping
the zeros (`occupied`). Writing past the last slot aborts. On a packed array, distinct
nonzero entries and then zeros (`Packed`), the two readings agree and a list written by
`fill` is read back unchanged.

Whether an array stays packed is a question about the lists it is written from. A list
written by `fill` has to be distinct, one written over the front has to be `Tidy` together
with the entries it leaves behind. Removing repetitions of neighbours from a list leaves it
distinct exactly when its equal entries stand together (`Clustered`), and as long as the number
of its `blocks`.
-/

set_option linter.unusedSectionVars false

namespace Slots

variable {α : Type*} [DecidableEq α] {n : ℕ}

/-- Write `xs` over the first slots of `a`. No result if `xs` is longer than `a`. -/
def overwrite (a : Fixed α n) (xs : List α) : Option (Fixed α n) :=
  if h : xs.length ≤ n then
    some ⟨xs ++ a.val.drop xs.length, by simp [a.property]; omega⟩
  else none

/-- Clear the array and write `xs` from its first slot. -/
def fill (zero : α) (xs : List α) : Option (Fixed α n) :=
  overwrite (Fixed.replicate n zero) xs

/-- The entries before the first zero. -/
def live (zero : α) (a : Fixed α n) : List α :=
  a.val.takeWhile (· ≠ zero)

/-- The nonzero entries. -/
def occupied (zero : α) (a : Fixed α n) : List α :=
  a.val.filter (· ≠ zero)

/-- Distinct nonzero entries followed only by zeros. -/
def Packed (zero : α) (a : Fixed α n) : Prop :=
  ∃ xs : List α, xs.Nodup ∧ zero ∉ xs ∧ a.val = xs ++ List.replicate (n - xs.length) zero

theorem fill_eq_some {zero : α} {xs : List α} {a : Fixed α n} : fill zero xs = some a ↔
    xs.length ≤ n ∧ a.val = xs ++ List.replicate (n - xs.length) zero := by
  unfold fill overwrite
  split_ifs with h
  · simp [Fixed.replicate, h, Subtype.ext_iff, eq_comm]
  · simp [h]

theorem exists_fill {zero : α} {xs : List α} (h : xs.length ≤ n) :
    ∃ a : Fixed α n, fill zero xs = some a := by
  unfold fill overwrite
  rw [dif_pos h]
  exact ⟨_, rfl⟩

theorem not_mem_live (zero : α) (a : Fixed α n) : zero ∉ live zero a := by
  intro h
  simpa using List.mem_takeWhile_imp h

theorem not_mem_occupied (zero : α) (a : Fixed α n) : zero ∉ occupied zero a := by
  simp [occupied]

/-- An array of `zero` holds nothing. -/
@[simp] theorem occupied_replicate (zero : α) :
    occupied zero (Fixed.replicate n zero) = [] := by
  simp [occupied, Fixed.replicate]

/-- A list without zeros is read back from the array it was written to. -/
theorem occupied_of_fill {zero : α} {xs : List α} {a : Fixed α n} (hz : zero ∉ xs)
    (h : fill zero xs = some a) : occupied zero a = xs := by
  have hall : xs.filter (· ≠ zero) = xs := by
    rw [List.filter_eq_self]
    intro x hx
    simp only [ne_eq, decide_not, Bool.not_eq_eq_eq_not, Bool.not_true, decide_eq_false_iff_not]
    rintro rfl
    exact hz hx
  rw [occupied, (fill_eq_some.1 h).2, List.filter_append, hall]
  simp

theorem packed_replicate (zero : α) : Packed zero (Fixed.replicate n zero) :=
  ⟨[], by simp [Fixed.replicate]⟩

theorem packed_of_fill {zero : α} {xs : List α} {a : Fixed α n} (hd : xs.Nodup)
    (hz : zero ∉ xs) (h : fill zero xs = some a) : Packed zero a :=
  ⟨xs, hd, hz, (fill_eq_some.1 h).2⟩

/-- The nonzero entries of a packed array are distinct. -/
theorem Packed.nodup_occupied {zero : α} {a : Fixed α n} (h : Packed zero a) :
    (occupied zero a).Nodup := by
  obtain ⟨xs, hd, hz, ha⟩ := h
  have hlen := a.property
  have hfill : fill zero xs = some a := by
    refine fill_eq_some.2 ⟨?_, ha⟩
    have := congrArg List.length ha
    simp only [List.length_append, List.length_replicate] at this
    omega
  rw [occupied_of_fill hz hfill]
  exact hd

/-! ## Reading a packed array -/

variable {zero : α} {a b : Fixed α n} {xs : List α}

theorem takeWhile_append_replicate (hz : zero ∉ xs) (k : ℕ) :
    (xs ++ List.replicate k zero).takeWhile (· ≠ zero) = xs := by
  rw [List.takeWhile_append_of_pos]
  · simp
  · intro x hx
    simpa using fun h : x = zero => hz (h ▸ hx)

/-- A list without zeros is read back from the array it was written to. -/
theorem live_of_fill (hz : zero ∉ xs) (h : fill zero xs = some a) : live zero a = xs := by
  rw [live, (fill_eq_some.1 h).2, takeWhile_append_replicate hz]

theorem length_live_le (zero : α) (a : Fixed α n) : (live zero a).length ≤ n := by
  have h : (live zero a).length ≤ a.val.length := (List.takeWhile_sublist _).length_le
  rwa [a.property] at h

/-- A packed array holds what is read from it, and zeros. -/
theorem Packed.val_eq (h : Packed zero a) : (live zero a).Nodup ∧
    a.val = live zero a ++ List.replicate (n - (live zero a).length) zero := by
  obtain ⟨xs, hd, hz, ha⟩ := h
  have hlive : live zero a = xs := by rw [live, ha, takeWhile_append_replicate hz]
  rw [hlive]
  exact ⟨hd, ha⟩

theorem Packed.mem_iff (h : Packed zero a) {x : α} (hx : x ≠ zero) :
    x ∈ a.val ↔ x ∈ live zero a := by
  constructor
  · intro hmem
    rw [h.val_eq.2] at hmem
    rcases List.mem_append.1 hmem with hlive | hzero
    · exact hlive
    · exact absurd (List.eq_of_mem_replicate hzero) hx
  · intro hmem
    exact (List.takeWhile_sublist _).mem hmem

/-! ## Writing a packed array -/

/-- Distinct entries up to the first zero, and only zeros from there on. -/
def Tidy (zero : α) (xs : List α) : Prop :=
  (xs.takeWhile (· ≠ zero)).Nodup ∧ ∀ x ∈ xs.dropWhile (· ≠ zero), x = zero

instance (zero : α) (xs : List α) : Decidable (Tidy zero xs) :=
  inferInstanceAs (Decidable (_ ∧ _))

theorem tidy_iff : Tidy zero xs ↔
    ∃ ys k, ys.Nodup ∧ zero ∉ ys ∧ xs = ys ++ List.replicate k zero := by
  constructor
  · rintro ⟨hd, hzero⟩
    refine ⟨_, (xs.dropWhile (· ≠ zero)).length, hd, ?_, ?_⟩
    · intro h
      simpa using List.mem_takeWhile_imp h
    · nth_rewrite 1 [← List.takeWhile_append_dropWhile (p := (· ≠ zero)) (l := xs)]
      rw [List.append_cancel_left_eq]
      exact List.eq_replicate_of_mem hzero
  · rintro ⟨ys, k, hd, hz, rfl⟩
    refine ⟨by rwa [takeWhile_append_replicate hz], ?_⟩
    rw [List.dropWhile_append_of_pos]
    · intro x hx
      exact List.eq_of_mem_replicate ((List.dropWhile_sublist _).mem hx)
    · intro x hx
      simpa using fun h : x = zero => hz (h ▸ hx)

theorem tidy_append_replicate (k : ℕ) :
    Tidy zero (xs ++ List.replicate k zero) ↔ Tidy zero xs := by
  have htake : (xs ++ List.replicate k zero).takeWhile (· ≠ zero) = xs.takeWhile (· ≠ zero) := by
    induction xs with
    | nil => simp
    | cons x xs ih => by_cases hx : x = zero <;> simp_all
  have hdrop : (xs ++ List.replicate k zero).dropWhile (· ≠ zero) =
      xs.dropWhile (· ≠ zero) ++ List.replicate k zero := by
    induction xs with
    | nil => cases k <;> simp [List.replicate_succ]
    | cons x xs ih => by_cases hx : x = zero <;> simp_all
  rw [Tidy, Tidy, htake, hdrop]
  refine and_congr_right fun _ => ⟨fun h x hx => h x (List.mem_append_left _ hx), fun h x hx => ?_⟩
  rcases List.mem_append.1 hx with hx | hx
  · exact h x hx
  · exact List.eq_of_mem_replicate hx

theorem packed_iff_tidy : Packed zero a ↔ Tidy zero a.val := by
  rw [tidy_iff]
  constructor
  · rintro ⟨xs, hd, hz, ha⟩
    exact ⟨xs, _, hd, hz, ha⟩
  · rintro ⟨xs, k, hd, hz, ha⟩
    have hlen := a.property
    rw [ha, List.length_append, List.length_replicate] at hlen
    obtain rfl : k = n - xs.length := by omega
    exact ⟨xs, hd, hz, ha⟩

instance (zero : α) (a : Fixed α n) : Decidable (Packed zero a) :=
  decidable_of_iff _ packed_iff_tidy.symm

/-- A list without zeros makes a packed array if it is distinct, and only then. -/
theorem packed_fill_iff (hz : zero ∉ xs) (h : fill zero xs = some a) :
    Packed zero a ↔ xs.Nodup := by
  refine ⟨fun hp => ?_, fun hd => packed_of_fill hd hz h⟩
  rw [← live_of_fill hz h]
  exact hp.val_eq.1

/-- Adding a new entry behind the ones that are read. -/
theorem Packed.fill_append (h : Packed zero a) {x : α} (hx : x ≠ zero) (hnew : x ∉ live zero a)
    (hb : fill zero (live zero a ++ [x]) = some b) : Packed zero b := by
  refine packed_of_fill ?_ ?_ hb
  · rw [List.nodup_append]
    refine ⟨h.val_eq.1, List.nodup_singleton x, ?_⟩
    rintro y hy z hz rfl
    exact hnew (List.mem_singleton.1 hz ▸ hy)
  · simpa [not_mem_live zero a] using hx.symm

/-- Keeping some of the entries that are read. -/
theorem Packed.fill_filter (h : Packed zero a) {f : α → Bool}
    (hb : fill zero ((live zero a).filter f) = some b) :
    Packed zero b ∧ live zero b = (live zero a).filter f := by
  have hz : zero ∉ (live zero a).filter f := fun hmem =>
    not_mem_live zero a (List.mem_of_mem_filter hmem)
  exact ⟨packed_of_fill (h.val_eq.1.filter _) hz hb, live_of_fill hz hb⟩

/-- Writing over the front of a packed array : what was read before stays behind the list. -/
theorem packed_overwrite_iff (h : Packed zero a) (hb : overwrite a xs = some b) :
    Packed zero b ↔ Tidy zero (xs ++ (live zero a).drop xs.length) := by
  unfold overwrite at hb
  split_ifs at hb with hlen
  have hval : b.val = xs ++ a.val.drop xs.length := by
    rw [← Option.some_inj.1 hb]
  obtain ⟨k, hk⟩ : ∃ k, b.val = xs ++ (live zero a).drop xs.length ++ List.replicate k zero := by
    refine ⟨n - (live zero a).length - (xs.length - (live zero a).length), ?_⟩
    rw [hval]
    nth_rewrite 1 [h.val_eq.2]
    rw [List.drop_append, List.drop_replicate, List.append_assoc]
  rw [packed_iff_tidy, hk, tidy_append_replicate]

/-- What is read after writing over the front : the list up to its first zero, or the whole list
and the entries it leaves behind up to theirs. -/
theorem live_overwrite (hb : overwrite a xs = some b) : live zero b =
    if zero ∈ xs then xs.takeWhile (· ≠ zero)
    else xs ++ (a.val.drop xs.length).takeWhile (· ≠ zero) := by
  unfold overwrite at hb
  split_ifs at hb with hlen
  have hval : b.val = xs ++ a.val.drop xs.length := by
    rw [← Option.some_inj.1 hb]
  have hall : (xs.takeWhile (· ≠ zero)).length = xs.length ↔ zero ∉ xs := by
    constructor
    · intro h hz
      rw [← (List.takeWhile_prefix _).eq_of_length h] at hz
      simpa using List.mem_takeWhile_imp hz
    · intro hz
      rw [List.takeWhile_eq_self_iff.2]
      simpa using fun x hx (h : x = zero) => hz (h ▸ hx)
  rw [live, hval, List.takeWhile_append]
  by_cases hz : zero ∈ xs
  · rw [if_neg (fun h => hall.1 h hz), if_pos hz]
  · rw [if_pos (hall.2 hz), if_neg hz]

/-- Writing over the front leaves exactly the nonzero entries of the list if those behind its
first zero stand before it too, and, where there is no zero, the old entries that are read behind
the list are entries of it. -/
theorem toFinset_live_overwrite_iff (hb : overwrite a xs = some b) :
    (live zero b).toFinset = (xs.filter (· ≠ zero)).toFinset ↔
      (∀ x ∈ xs.dropWhile (· ≠ zero), x ≠ zero → x ∈ xs.takeWhile (· ≠ zero)) ∧
        (zero ∉ xs → ∀ x ∈ (a.val.drop xs.length).takeWhile (· ≠ zero), x ∈ xs) := by
  have hsplit (x : α) : x ∈ xs ↔ x ∈ xs.takeWhile (· ≠ zero) ∨ x ∈ xs.dropWhile (· ≠ zero) := by
    rw [← List.mem_append, List.takeWhile_append_dropWhile]
  have hfront (x : α) (hx : x ∈ xs.takeWhile (· ≠ zero)) : x ≠ zero := by
    simpa using List.mem_takeWhile_imp hx
  rw [live_overwrite hb, Finset.ext_iff]
  by_cases hz : zero ∈ xs
  · simp only [hz, if_true, not_true_eq_false, false_imp_iff, and_true, List.mem_toFinset,
      List.mem_filter, decide_eq_true_eq, hsplit]
    constructor
    · intro h x hx hne
      exact (h x).2 ⟨.inr hx, hne⟩
    · rintro h x
      exact ⟨fun hx => ⟨.inl hx, hfront x hx⟩, fun ⟨hx, hne⟩ => hx.elim id fun hx => h x hx hne⟩
  · have hne (x : α) (hx : x ∈ xs) : x ≠ zero := fun h => hz (h ▸ hx)
    have hdrop : xs.dropWhile (· ≠ zero) = [] := by
      rw [List.dropWhile_eq_nil_iff]
      simpa using hne
    simp only [hz, if_false, not_false_eq_true, true_imp_iff, hdrop, List.not_mem_nil,
      false_imp_iff, implies_true, true_and, List.mem_toFinset, List.mem_append, List.mem_filter,
      decide_eq_true_eq]
    constructor
    · intro h x hx
      exact ((h x).1 (.inr hx)).1
    · intro h x
      exact ⟨fun hx => ⟨hx.elim id (h x), hne x (hx.elim id (h x))⟩, fun hx => .inl hx.1⟩

/-! ## Repetitions of neighbours -/

/-- Equal entries stand together : each entry is followed by itself or does not come again. -/
def Clustered : List α → Prop
  | x :: y :: l => (x = y ∨ x ∉ y :: l) ∧ Clustered (y :: l)
  | _ => True

instance : (xs : List α) → Decidable (Clustered xs)
  | [] => .isTrue trivial
  | [_] => .isTrue trivial
  | _ :: y :: l =>
    have : Decidable (Clustered (y :: l)) := instDecidableClustered (y :: l)
    inferInstanceAs (Decidable (_ ∧ _))

theorem Clustered.of_nodup (h : xs.Nodup) : Clustered xs := by
  induction xs with
  | nil => trivial
  | cons x xs ih =>
    obtain ⟨hx, hxs⟩ := List.nodup_cons.1 h
    cases xs with
    | nil => trivial
    | cons y l => exact ⟨.inr hx, ih hxs⟩

theorem mem_destutter' {x y : α} : x ∈ xs.destutter' (· ≠ ·) y ↔ x ∈ y :: xs := by
  induction xs generalizing y with
  | nil => simp
  | cons z xs ih =>
    by_cases hyz : y = z
    · subst hyz
      simp [ih]
    · simp [hyz, ih]

theorem mem_destutter {x : α} : x ∈ xs.destutter (· ≠ ·) ↔ x ∈ xs := by
  cases xs with
  | nil => simp
  | cons y xs => exact mem_destutter'

theorem nodup_destutter'_iff {y : α} :
    (xs.destutter' (· ≠ ·) y).Nodup ↔ Clustered (y :: xs) := by
  induction xs generalizing y with
  | nil => simp [Clustered]
  | cons z xs ih =>
    by_cases hyz : y = z
    · subst hyz
      simp [Clustered, ih]
    · simp [Clustered, hyz, ih, mem_destutter']

/-- Without repetitions of neighbours, a list is distinct if its equal entries stood together,
and only then. -/
theorem nodup_destutter_iff : (xs.destutter (· ≠ ·)).Nodup ↔ Clustered xs := by
  cases xs with
  | nil => simp [Clustered]
  | cons y xs => exact nodup_destutter'_iff

/-- The number of blocks of equal neighbours. -/
def blocks : List α → ℕ
  | x :: y :: l => (if x = y then 0 else 1) + blocks (y :: l)
  | [_] => 1
  | [] => 0

theorem length_destutter' {x : α} : (xs.destutter' (· ≠ ·) x).length = blocks (x :: xs) := by
  induction xs generalizing x with
  | nil => simp [blocks]
  | cons y xs ih =>
    by_cases hxy : x = y
    · subst hxy
      simp [blocks, ih]
    · simp [blocks, hxy, ih, Nat.add_comm]

/-- Without repetitions of neighbours, a list has one entry for each block. -/
theorem length_destutter : (xs.destutter (· ≠ ·)).length = blocks xs := by
  cases xs with
  | nil => rfl
  | cons x xs => exact length_destutter'

theorem toFinset_destutter : (xs.destutter (· ≠ ·)).toFinset = xs.toFinset := by
  ext x
  rw [List.mem_toFinset, List.mem_toFinset, mem_destutter]

theorem card_toFinset_le_blocks : xs.toFinset.card ≤ blocks xs := by
  rw [← toFinset_destutter, ← length_destutter]
  exact List.toFinset_card_le _

end Slots
