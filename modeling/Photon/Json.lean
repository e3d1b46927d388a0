import Photon.Bytes

/-!
# JSON values and how data is written as them

A `Json` is a value after parsing. The entries of an object keep their order, and a name may
stand in it twice. Numbers are told apart by whether they are natural, which is all that a reader
of unsigned integers looks at.

A `Format` writes every value of a type and reads exactly what it writes
(`Format.read_eq_some`). A record is written as an object with one entry for each field. Its
reader wants every field once and ignores other names, or takes an array of just the fields
(`Json.fields`), so it accepts more than is written.
-/

/-- A JSON value. -/
inductive Json
  | null
  | bool (b : Bool)
  | number (n : ℕ)
  /-- A number that is negative or not an integer. -/
  | otherNumber (text : String)
  | str (s : String)
  | arr (items : List Json)
  | obj (entries : List (String × Json))

namespace Json

/-! ## Formats -/

/-- A way to write the values of a type, and to read exactly what is written. -/
structure Format (α : Type) where
  write : α → Json
  read : Json → Option α
  read_eq_some : ∀ {j : Json} {a : α}, read j = some a ↔ write a = j

namespace Format

variable {α β : Type}

@[simp] theorem read_write (f : Format α) (a : α) : f.read (f.write a) = some a :=
  f.read_eq_some.2 rfl

/-- Unsigned integers below `bound`, as a type with its conversions. -/
def uint (bound : ℕ) (toNat : α → ℕ) (ofNat : ℕ → α) (hlt : ∀ a, toNat a < bound)
    (hof : ∀ a, ofNat (toNat a) = a) (hto : ∀ n, n < bound → toNat (ofNat n) = n) : Format α where
  write a := .number (toNat a)
  read
    | .number n => if n < bound then some (ofNat n) else none
    | _ => none
  read_eq_some := by
    intro j a
    cases j with
    | number n =>
      simp only [Option.ite_none_right_eq_some, Option.some.injEq, Json.number.injEq]
      constructor
      · rintro ⟨hn, rfl⟩
        exact hto n hn
      · rintro rfl
        exact ⟨hlt a, hof a⟩
    | _ => simp

def u8 : Format UInt8 :=
  uint 256 UInt8.toNat UInt8.ofNat (fun a => a.toNat_lt) (fun _ => UInt8.ofNat_toNat)
    fun _ h => UInt8.toNat_ofNat_of_lt h

def u64 : Format UInt64 :=
  uint (2 ^ 64) UInt64.toNat UInt64.ofNat (fun a => a.toNat_lt) (fun _ => UInt64.ofNat_toNat)
    fun _ h => UInt64.toNat_ofNat_of_lt h

def string : Format String where
  write := .str
  read
    | .str s => some s
    | _ => none
  read_eq_some := by
    intro j a
    cases j with
    | str s => simp [eq_comm]
    | _ => simp

theorem mapM_read_eq_some (f : Format α) {items : List Json} {as : List α} :
    items.mapM f.read = some as ↔ as.map f.write = items := by
  induction items generalizing as with
  | nil => simp [eq_comm]
  | cons j items ih =>
    simp only [List.mapM_cons, Option.pure_def, Option.bind_eq_bind, Option.bind_eq_some_iff,
      Option.some.injEq, ih, f.read_eq_some]
    constructor
    · rintro ⟨a, rfl, as, rfl, rfl⟩
      rfl
    · intro h
      obtain ⟨a, as', rfl, ha, has⟩ := List.map_eq_cons_iff.1 h
      exact ⟨a, ha, as', has, rfl⟩

/-- A list, as an array. -/
def list (f : Format α) : Format (List α) where
  write as := .arr (as.map f.write)
  read
    | .arr items => items.mapM f.read
    | _ => none
  read_eq_some := by
    intro j as
    cases j with
    | arr items => simp [f.mapM_read_eq_some]
    | _ => simp

/-- A list of fixed length, as an array. -/
def array (f : Format α) (n : ℕ) : Format (Fixed α n) where
  write a := f.list.write a.val
  read j := (f.list.read j).bind (Fixed.ofList? n)
  read_eq_some := by
    intro j a
    simp only [Option.bind_eq_some_iff, f.list.read_eq_some, Fixed.ofList?_eq_some]
    constructor
    · rintro ⟨_, h, rfl⟩
      exact h
    · intro h
      exact ⟨a.val, h, rfl⟩

/-- Values of `β` that stand for the values of `α`. -/
def map (f : Format α) (g : α → β) (g' : β → α) (hg : ∀ b, g (g' b) = b)
    (hg' : ∀ a, g' (g a) = a) : Format β where
  write b := f.write (g' b)
  read j := (f.read j).map g
  read_eq_some := by
    intro j b
    simp only [Option.map_eq_some_iff, f.read_eq_some]
    constructor
    · rintro ⟨a, h, rfl⟩
      rwa [hg']
    · intro h
      exact ⟨g' b, h, hg b⟩

/-- A byte string, as an array of numbers. -/
abbrev bytes : Format Bytes :=
  u8.list

/-- A big-endian number of 16 bytes, as an array of these. -/
def u128 : Format (BitVec 128) :=
  (u8.array 16).map (fun a => BitVec.ofNat 128 (beNat a.val))
    (fun x => ⟨beBytes 16 x.toNat, length_beBytes 16 _⟩)
    (fun x => by rw [beNat_beBytes x.isLt, BitVec.ofNat_toNat, BitVec.setWidth_eq])
    (fun a => by
      have hlt : beNat a.val < 2 ^ 128 :=
        (beNat_lt a.val).trans_eq (by rw [a.property]; norm_num)
      have heq := beBytes_beNat a.val
      rw [a.property] at heq
      apply Subtype.ext
      rw [BitVec.toNat_ofNat, Nat.mod_eq_of_lt hlt]
      exact heq)

end Format

/-! ## Records -/

variable {name : String} {names : List String} {entries : List (String × Json)} {v : Json}
  {values : List Json}

/-- The value under a name that stands in an object once. -/
def entry (name : String) (entries : List (String × Json)) : Option Json :=
  match entries.filter (·.1 = name) with
  | [e] => some e.2
  | _ => none

/-- The value under a name that may be left out. -/
def optionalEntry (name : String) (entries : List (String × Json)) : Option (Option Json) :=
  match entries.filter (·.1 = name) with
  | [] => some none
  | [e] => some (some e.2)
  | _ => none

/-- The values under these names. -/
def entries? (names : List String) (entries : List (String × Json)) : Option (List Json) :=
  names.mapM fun name => entry name entries

/-- The items of an array. -/
def items : Json → Option (List Json)
  | .arr items => some items
  | _ => none

/-- The fields of a record, from an object or from an array of just these. -/
def fields (names : List String) : Json → Option (List Json)
  | .obj entries => entries? names entries
  | .arr items => if items.length = names.length then some items else none
  | _ => none

/-- Where no name stands twice, every entry is found. -/
theorem entry_of_mem (hnodup : (entries.map Prod.fst).Nodup) (hmem : (name, v) ∈ entries) :
    entry name entries = some v := by
  have hfilter : entries.filter (·.1 = name) = [(name, v)] := by
    induction entries with
    | nil => simp at hmem
    | cons e entries ih =>
      obtain ⟨hnot, hrest⟩ := List.nodup_cons.1 hnodup
      rcases List.mem_cons.1 hmem with rfl | hmem
      · have hnone : entries.filter (·.1 = name) = [] := by
          rw [List.filter_eq_nil_iff]
          intro e he hkey
          exact hnot (List.mem_map.2 ⟨e, he, of_decide_eq_true hkey⟩)
        rw [List.filter_cons_of_pos (by simp), hnone]
      · have hne : e.1 ≠ name := by
          rintro rfl
          exact hnot (List.mem_map.2 ⟨_, hmem, rfl⟩)
        rw [List.filter_cons_of_neg (by simpa using hne), ih hrest hmem]
  simp [entry, hfilter]

theorem entries?_of_subset (hnodup : (entries.map Prod.fst).Nodup)
    (hlen : names.length = values.length) (hsub : names.zip values ⊆ entries) :
    entries? names entries = some values := by
  unfold entries?
  induction names generalizing values with
  | nil =>
    obtain rfl := List.length_eq_zero_iff.1 hlen.symm
    rfl
  | cons name names ih =>
    cases values with
    | nil => simp at hlen
    | cons v values =>
      rw [List.zip_cons_cons, List.cons_subset] at hsub
      simp [entry_of_mem hnodup hsub.1, ih (by simpa using hlen) hsub.2]

/-- What is written as a record is read as its fields. -/
theorem fields_zip (hnodup : names.Nodup) (hlen : names.length = values.length) :
    (Json.obj (names.zip values)).fields names = some values := by
  refine entries?_of_subset ?_ hlen (List.Subset.refl _)
  rwa [List.map_fst_zip hlen.le]

end Json
