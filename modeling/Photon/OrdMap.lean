import Mathlib.Order.Lattice
import Mathlib.Order.Bounds.Defs
import Mathlib.Data.List.Pairwise
import Mathlib.Tactic.Common

/-!
# Ordered maps

A map as the list of its entries, with the keys strictly increasing (`OrdMap`). An entry is
inserted or updated in place (`upsert`), and entries are taken off the lower end as long as they
meet a condition (`popWhile`).

A key counts as ready if it has an entry and all entries up to it meet the condition (`Ready`).
`popWhile` gives the largest ready key, if there is one (`popWhile_isGreatest`), and leaves the
entries above it (`get?_popWhile`).
-/

/-- A finite map with ordered keys. -/
structure OrdMap (κ ν : Type*) [LinearOrder κ] where
  entries : List (κ × ν)
  sorted : entries.Pairwise fun a b => a.1 < b.1

namespace OrdMap

variable {κ ν : Type*} [LinearOrder κ]

def empty : OrdMap κ ν :=
  ⟨[], .nil⟩

def get? (m : OrdMap κ ν) (k : κ) : Option ν :=
  m.entries.lookup k

theorem eq_of_entries {m m' : OrdMap κ ν} (h : m.entries = m'.entries) : m = m' := by
  cases m
  cases m'
  congr

/-! ## Updating an entry -/

/-- The entries with the value at `k` replaced, or a new one in its place. -/
def upsertEntries (k : κ) (f : Option ν → ν) : List (κ × ν) → List (κ × ν)
  | [] => [(k, f none)]
  | (k', v) :: rest =>
    if k < k' then (k, f none) :: (k', v) :: rest
    else if k = k' then (k, f (some v)) :: rest
    else (k', v) :: upsertEntries k f rest

variable {k k' : κ} {v : ν} {f : Option ν → ν} {l : List (κ × ν)}

theorem key_of_mem_upsertEntries {e : κ × ν} (h : e ∈ upsertEntries k f l) :
    e.1 = k ∨ e ∈ l := by
  induction l with
  | nil => simp_all [upsertEntries]
  | cons a l ih =>
    unfold upsertEntries at h
    split_ifs at h with hlt heq
    · rcases List.mem_cons.1 h with rfl | h
      · exact .inl rfl
      · exact .inr h
    · rcases List.mem_cons.1 h with rfl | h
      · exact .inl rfl
      · exact .inr (List.mem_cons_of_mem _ h)
    · rcases List.mem_cons.1 h with rfl | h
      · exact .inr List.mem_cons_self
      · exact (ih h).imp id (List.mem_cons_of_mem _)

theorem sorted_upsertEntries (h : l.Pairwise fun a b => a.1 < b.1) :
    (upsertEntries k f l).Pairwise fun a b => a.1 < b.1 := by
  induction l with
  | nil => simp [upsertEntries]
  | cons a l ih =>
    obtain ⟨hhead, htail⟩ := List.pairwise_cons.1 h
    unfold upsertEntries
    split_ifs with hlt heq
    · refine List.pairwise_cons.2 ⟨fun e he => ?_, h⟩
      rcases List.mem_cons.1 he with rfl | he
      · exact hlt
      · exact hlt.trans (hhead e he)
    · exact List.pairwise_cons.2 ⟨fun e he => heq ▸ hhead e he, htail⟩
    · refine List.pairwise_cons.2 ⟨fun e he => ?_, ih htail⟩
      rcases key_of_mem_upsertEntries he with hk | he
      · exact hk ▸ lt_of_le_of_ne (not_lt.1 hlt) (Ne.symm heq)
      · exact hhead e he

/-- Set the value at `k` to what `f` makes of the old one, if there was one. -/
def upsert (m : OrdMap κ ν) (k : κ) (f : Option ν → ν) : OrdMap κ ν :=
  ⟨upsertEntries k f m.entries, sorted_upsertEntries m.sorted⟩

theorem lookup_cons_of_ne (h : k ≠ k') : ((k', v) :: l).lookup k = l.lookup k := by
  rw [List.lookup_cons, beq_false_of_ne h]

theorem lookup_eq_none_of_lt (h : ∀ e ∈ l, k < e.1) : l.lookup k = none := by
  induction l with
  | nil => rfl
  | cons a l ih =>
    rw [lookup_cons_of_ne (h a List.mem_cons_self).ne]
    exact ih fun e he => h e (List.mem_cons_of_mem _ he)

theorem get?_upsert (m : OrdMap κ ν) (k k' : κ) (f : Option ν → ν) :
    (m.upsert k f).get? k' = if k' = k then some (f (m.get? k)) else m.get? k' := by
  obtain ⟨l, hl⟩ := m
  simp only [get?, upsert]
  induction l with
  | nil =>
    unfold upsertEntries
    split_ifs with h
    · rw [h, List.lookup_cons_self]
      rfl
    · rw [lookup_cons_of_ne h]
  | cons a l ih =>
    obtain ⟨k₀, v₀⟩ := a
    obtain ⟨hhead, htail⟩ := List.pairwise_cons.1 hl
    specialize ih htail
    unfold upsertEntries
    by_cases hlt : k < k₀
    · have hnone : ((k₀, v₀) :: l).lookup k = none := by
        refine lookup_eq_none_of_lt fun e he => ?_
        rcases List.mem_cons.1 he with rfl | he
        · exact hlt
        · exact hlt.trans (hhead e he)
      rw [if_pos hlt, hnone]
      by_cases hk : k' = k
      · rw [if_pos hk, hk, List.lookup_cons_self]
      · rw [if_neg hk, lookup_cons_of_ne hk]
    rw [if_neg hlt]
    by_cases heq : k = k₀
    · subst heq
      rw [if_pos rfl, List.lookup_cons_self]
      by_cases hk : k' = k
      · rw [if_pos hk, hk, List.lookup_cons_self]
      · rw [if_neg hk, lookup_cons_of_ne hk, lookup_cons_of_ne hk]
    · rw [if_neg heq, lookup_cons_of_ne heq]
      by_cases hk : k' = k₀
      · rw [hk, List.lookup_cons_self, if_neg (Ne.symm heq), List.lookup_cons_self]
      · rw [lookup_cons_of_ne hk, ih, lookup_cons_of_ne hk]

theorem get?_eq_some_iff {m : OrdMap κ ν} : m.get? k = some v ↔ (k, v) ∈ m.entries := by
  obtain ⟨l, hl⟩ := m
  simp only [get?]
  induction l with
  | nil => simp
  | cons a l ih =>
    obtain ⟨k₀, v₀⟩ := a
    obtain ⟨hhead, htail⟩ := List.pairwise_cons.1 hl
    by_cases hk : k = k₀
    · subst hk
      rw [List.lookup_cons_self, List.mem_cons]
      constructor
      · intro h
        exact .inl (by rw [Option.some_inj.1 h])
      · rintro (h | h)
        · rw [(Prod.mk.inj h).2]
        · exact absurd (hhead _ h) (lt_irrefl _)
    · rw [lookup_cons_of_ne hk, ih htail, List.mem_cons, Prod.mk.injEq]
      simp [hk]

/-! ## Taking entries off the lower end -/

variable (p : κ → ν → Prop) [∀ k v, Decidable (p k v)]

/-- Take entries off as long as they meet `p`. The first component is the last key taken off, or
`last` if there is none. -/
def popEntries : Option κ → List (κ × ν) → Option κ × List (κ × ν)
  | last, [] => (last, [])
  | last, (k, v) :: rest =>
    if p k v then popEntries (some k) rest else (last, (k, v) :: rest)

variable {p}

omit [LinearOrder κ] in
/-- What is left is the upper end, and the last key taken off is the one just below it. -/
theorem popEntries_spec (last : Option κ) (l : List (κ × ν)) :
    ∃ popped, l = popped ++ (popEntries p last l).2 ∧ (∀ e ∈ popped, p e.1 e.2) ∧
      (∀ e ∈ (popEntries p last l).2.head?, ¬p e.1 e.2) ∧
      (popEntries p last l).1 = (popped.getLast?.map Prod.fst).or last := by
  induction l generalizing last with
  | nil => exact ⟨[], rfl, by simp, by simp [popEntries], rfl⟩
  | cons a l ih =>
    obtain ⟨k, v⟩ := a
    unfold popEntries
    split_ifs with hp
    · obtain ⟨popped, hl, hpopped, hhead, hlast⟩ := ih (some k)
      refine ⟨(k, v) :: popped, by rw [List.cons_append, ← hl], ?_, hhead, ?_⟩
      · simpa [hp] using hpopped
      · rw [hlast]
        rw [List.getLast?_cons]
        cases popped.getLast? <;> rfl
    · exact ⟨[], rfl, by simp, by simpa using hp, rfl⟩

theorem sorted_popEntries (p : κ → ν → Prop) [∀ k v, Decidable (p k v)] (m : OrdMap κ ν) :
    (popEntries p none m.entries).2.Pairwise fun a b => a.1 < b.1 := by
  obtain ⟨popped, hl, -⟩ := popEntries_spec (p := p) none m.entries
  exact (hl ▸ m.sorted).sublist (List.sublist_append_right _ _)

/-- Take entries off the lower end as long as they meet `p`, and give the last key taken off. -/
def popWhile (p : κ → ν → Prop) [∀ k v, Decidable (p k v)] (m : OrdMap κ ν) :
    Option κ × OrdMap κ ν :=
  ((popEntries p none m.entries).1, ⟨(popEntries p none m.entries).2, sorted_popEntries p m⟩)

/-- The key has an entry, and all entries up to it meet `p`. -/
def Ready (p : κ → ν → Prop) (m : OrdMap κ ν) (k : κ) : Prop :=
  (∃ v, m.get? k = some v) ∧ ∀ k' v, k' ≤ k → m.get? k' = some v → p k' v

/-- `popWhile` cuts the entries into those with ready keys and the others. -/
theorem popWhile_cut (p : κ → ν → Prop) [∀ k v, Decidable (p k v)] (m : OrdMap κ ν) :
    ∃ popped, m.entries = popped ++ (m.popWhile p).2.entries ∧
      (m.popWhile p).1 = popped.getLast?.map Prod.fst ∧ (∀ e ∈ popped, Ready p m e.1) ∧
      ∀ e ∈ (m.popWhile p).2.entries, ¬Ready p m e.1 := by
  obtain ⟨popped, hl, hpopped, hhead, hlast⟩ := popEntries_spec (p := p) none m.entries
  have hsorted := m.sorted
  rw [hl] at hsorted
  obtain ⟨-, hrest, hbelow⟩ := List.pairwise_append.1 hsorted
  refine ⟨popped, hl, by rw [popWhile, hlast, Option.or_none], fun e he => ⟨⟨e.2, ?_⟩, ?_⟩,
    fun e he hready => ?_⟩
  · rw [get?_eq_some_iff, hl]
    exact List.mem_append_left _ he
  · intro k' v hle hk'
    rw [get?_eq_some_iff, hl] at hk'
    rcases List.mem_append.1 hk' with hk' | hk'
    · exact hpopped _ hk'
    · exact absurd (hbelow e he _ hk') (not_lt.2 hle)
  · -- the first entry that is left is in the way
    change e ∈ (popEntries p none m.entries).2 at he
    cases hr : (popEntries p none m.entries).2 with
    | nil => simp [hr] at he
    | cons a rest =>
      rw [hr] at he hhead hrest
      have hmem : (a.1, a.2) ∈ m.entries := by
        rw [hl, hr]
        simp
      refine hhead a rfl (hready.2 a.1 a.2 ?_ (get?_eq_some_iff.2 hmem))
      rcases List.mem_cons.1 he with rfl | he
      · exact le_rfl
      · exact ((List.pairwise_cons.1 hrest).1 e he).le

/-- What is left are the entries with keys that are not ready. -/
theorem get?_popWhile {m : OrdMap κ ν} :
    (m.popWhile p).2.get? k = some v ↔ m.get? k = some v ∧ ¬Ready p m k := by
  obtain ⟨popped, hl, -, hready, hnot⟩ := popWhile_cut p m
  rw [get?_eq_some_iff, get?_eq_some_iff]
  constructor
  · intro h
    exact ⟨hl ▸ List.mem_append_right _ h, hnot _ h⟩
  · rintro ⟨h, hk⟩
    rw [hl] at h
    exact (List.mem_append.1 h).resolve_left fun h => hk (hready _ h)

/-- The key that is given is the largest one that is ready. -/
theorem popWhile_isGreatest {m : OrdMap κ ν} :
    (m.popWhile p).1 = some k ↔ IsGreatest {k | Ready p m k} k := by
  obtain ⟨popped, hl, hlast, hready, hnot⟩ := popWhile_cut p m
  have hmem : ∀ k, Ready p m k → ∃ v, (k, v) ∈ popped := by
    rintro k hk
    obtain ⟨v, hv⟩ := hk.1
    rw [get?_eq_some_iff, hl] at hv
    exact ⟨v, (List.mem_append.1 hv).resolve_right fun h => hnot _ h hk⟩
  have hsorted := m.sorted
  rw [hl] at hsorted
  have hbound : ∀ e, popped.getLast? = some e → e.1 ∈ upperBounds {k | Ready p m k} := by
    intro e he k hk
    obtain ⟨v, hv⟩ := hmem k hk
    obtain ⟨front, rfl⟩ := List.getLast?_eq_some_iff.1 he
    rcases List.mem_append.1 hv with hv | hv
    · exact ((List.pairwise_append.1 (List.pairwise_append.1 hsorted).1).2.2 _ hv _
        (List.mem_singleton_self e)).le
    · rw [← List.mem_singleton.1 hv]
  rw [hlast, Option.map_eq_some_iff]
  constructor
  · rintro ⟨e, he, rfl⟩
    exact ⟨hready e (List.mem_of_getLast? he), hbound e he⟩
  · rintro ⟨hk, hgreatest⟩
    obtain ⟨v, hv⟩ := hmem k hk
    have he := List.getLast?_eq_some_getLast (List.ne_nil_of_mem hv)
    exact ⟨_, he, le_antisymm (hgreatest (hready _ (List.mem_of_getLast? he))) (hbound _ he hk)⟩

/-- If no key is given, nothing is taken off. -/
theorem popWhile_of_none {m : OrdMap κ ν} (h : (m.popWhile p).1 = none) : (m.popWhile p).2 = m := by
  obtain ⟨popped, hl, hlast, -, -⟩ := popWhile_cut p m
  rw [h, eq_comm, Option.map_eq_none_iff, List.getLast?_eq_none_iff] at hlast
  rw [hlast, List.nil_append] at hl
  exact eq_of_entries hl.symm

/-- If a key is ready, one is given. -/
theorem Ready.exists_popWhile {m : OrdMap κ ν} (hk : Ready p m k) :
    ∃ b, (m.popWhile p).1 = some b := by
  obtain ⟨popped, hl, hlast, -, hnot⟩ := popWhile_cut p m
  cases hpopped : popped.getLast? with
  | some e => exact ⟨e.1, by rw [hlast, hpopped, Option.map_some]⟩
  | none =>
    rw [List.getLast?_eq_none_iff.1 hpopped, List.nil_append] at hl
    obtain ⟨v, hv⟩ := hk.1
    exact absurd hk (hnot _ (hl ▸ get?_eq_some_iff.1 hv))

end OrdMap
