import Photon.Bytes

/-!
# Borsh codecs

A `Codec` writes a value and reads one back off the front of a byte string, leaving the
rest. Writing may fail : a list of `2 ^ 32` entries or more has no encoding, since its
length is four bytes. What was written is read back, whatever follows it
(`Codec.decode_encode`), and that is the only law a codec carries : a reader may also
accept bytes that no value is written as. Integers are little-endian, lists and texts
carry their length in front, and a structure is its fields in order (`Codec.pair`).
-/

namespace Borsh

/-- A codec for values of type `α`. -/
structure Codec (α : Type) where
  encode : α → Option Bytes
  decode : Bytes → Option (α × Bytes)
  decode_encode : ∀ {a : α} {b : Bytes} (rest : Bytes), encode a = some b →
    decode (b ++ rest) = some (a, rest)

/-- The first `n` bytes and the rest. -/
def splitAt? (n : ℕ) (bs : Bytes) : Option (Bytes × Bytes) :=
  if n ≤ bs.length then some (bs.take n, bs.drop n) else none

theorem splitAt?_append {n : ℕ} {b rest : Bytes} (h : b.length = n) :
    splitAt? n (b ++ rest) = some (b, rest) := by
  subst h
  simp [splitAt?]

namespace Codec

variable {α β : Type}

/-- Unsigned integers of `k` bytes, as a type with its conversions. -/
def uint (k : ℕ) (toNat : α → ℕ) (ofNat : ℕ → α) (hlt : ∀ a, toNat a < 256 ^ k)
    (hof : ∀ a, ofNat (toNat a) = a) : Codec α where
  encode a := some (leBytes k (toNat a))
  decode bs := (splitAt? k bs).map fun p => (ofNat (leNat p.1), p.2)
  decode_encode := by
    rintro a b rest h
    obtain rfl := Option.some_inj.1 h
    rw [splitAt?_append (length_leBytes k _), Option.map_some, leNat_leBytes (hlt a), hof a]

def u8 : Codec UInt8 :=
  uint 1 UInt8.toNat UInt8.ofNat (fun a => a.toNat_lt) fun _ => UInt8.ofNat_toNat

def u64 : Codec UInt64 :=
  uint 8 UInt64.toNat UInt64.ofNat (fun a => a.toNat_lt) fun _ => UInt64.ofNat_toNat

def u128 : Codec (BitVec 128) :=
  uint 16 BitVec.toNat (BitVec.ofNat 128) (fun a => a.isLt) fun a => by simp

/-- A byte array of fixed size, without a length. -/
def array (n : ℕ) : Codec (Fixed UInt8 n) where
  encode a := some a.val
  decode bs := (splitAt? n bs).bind fun p => (Fixed.ofList? n p.1).map fun a => (a, p.2)
  decode_encode := by
    rintro a b rest h
    obtain rfl := Option.some_inj.1 h
    have ha : Fixed.ofList? n a.val = some a := Fixed.ofList?_eq_some.2 rfl
    rw [splitAt?_append a.property, Option.bind_some, ha, Option.map_some]

/-- One value after another. -/
def pair (c : Codec α) (d : Codec β) : Codec (α × β) where
  encode p := do
    let a ← c.encode p.1
    let b ← d.encode p.2
    pure (a ++ b)
  decode bs := do
    let (a, rest) ← c.decode bs
    let (b, rest) ← d.decode rest
    pure ((a, b), rest)
  decode_encode := by
    rintro ⟨a, b⟩ bs rest h
    simp only [Option.pure_def, Option.bind_eq_bind, Option.bind_eq_some_iff,
      Option.some.injEq] at h
    obtain ⟨ba, ha, bb, hb, rfl⟩ := h
    simp [c.decode_encode (bb ++ rest) ha, d.decode_encode rest hb]

theorem decode_pair {c : Codec α} {d : Codec β} {bs : Bytes} {a : α} {b : β} {rest : Bytes} :
    (c.pair d).decode bs = some ((a, b), rest) ↔
      ∃ r, c.decode bs = some (a, r) ∧ d.decode r = some (b, rest) := by
  simp only [pair, Option.pure_def, Option.bind_eq_bind, Option.bind_eq_some_iff,
    Option.some.injEq, Prod.mk.injEq, Prod.exists]
  constructor
  · rintro ⟨a', r, ha, b', r', hb, ⟨rfl, rfl⟩, rfl⟩
    exact ⟨r, ha, hb⟩
  · rintro ⟨r, ha, hb⟩
    exact ⟨a, r, ha, b, rest, hb, ⟨rfl, rfl⟩, rfl⟩

/-- Values of `β` that are a view of values of `α`. -/
def map (c : Codec α) (f : α → β) (g : β → α) (h : ∀ b, f (g b) = b) : Codec β where
  encode b := c.encode (g b)
  decode bs := (c.decode bs).map fun p => (f p.1, p.2)
  decode_encode := by
    intro b bs rest hb
    rw [c.decode_encode rest hb, Option.map_some, h]

/-- Read `n` values in a row. -/
def decodeMany (c : Codec α) : ℕ → Bytes → Option (List α × Bytes)
  | 0, bs => some ([], bs)
  | n + 1, bs => do
    let (a, rest) ← c.decode bs
    let (as, rest) ← decodeMany c n rest
    pure (a :: as, rest)

/-- The encodings of the values in a row. -/
def encodeMany (c : Codec α) : List α → Option Bytes
  | [] => some []
  | a :: as => do
    let b ← c.encode a
    let bs ← encodeMany c as
    pure (b ++ bs)

theorem decodeMany_encodeMany (c : Codec α) (rest : Bytes) :
    ∀ {as : List α} {b : Bytes}, c.encodeMany as = some b →
      c.decodeMany as.length (b ++ rest) = some (as, rest)
  | [], b, h => by
    obtain rfl := Option.some_inj.1 h
    rfl
  | a :: as, b, h => by
    simp only [encodeMany, Option.pure_def, Option.bind_eq_bind, Option.bind_eq_some_iff,
      Option.some.injEq] at h
    obtain ⟨ba, ha, bs, hs, rfl⟩ := h
    have ih := decodeMany_encodeMany c rest hs
    simp [decodeMany, c.decode_encode (bs ++ rest) ha, ih]

/-- A list, with its length in four bytes in front. -/
def vec (c : Codec α) : Codec (List α) where
  encode as :=
    if as.length < 256 ^ 4 then (c.encodeMany as).map (leBytes 4 as.length ++ ·) else none
  decode bs := do
    let (len, rest) ← splitAt? 4 bs
    c.decodeMany (leNat len) rest
  decode_encode := by
    intro as b rest h
    split_ifs at h with hlt
    obtain ⟨bs, hbs, rfl⟩ := Option.map_eq_some_iff.1 h
    rw [List.append_assoc, splitAt?_append (length_leBytes 4 _)]
    simp [leNat_leBytes hlt, decodeMany_encodeMany c rest hbs]

/-- There is no list without its length. -/
@[simp] theorem decode_vec_nil (c : Codec α) : c.vec.decode [] = none := rfl

/-- A byte string, with its length in front. -/
abbrev bytes : Codec Bytes :=
  u8.vec

/-- A list can be written in a row exactly when each of its values can be written. -/
theorem exists_encodeMany {c : Codec α} : ∀ {as : List α},
    (∃ e, c.encodeMany as = some e) ↔ ∀ a ∈ as, ∃ e, c.encode a = some e
  | [] => by simp [encodeMany]
  | a :: as => by
    have ih : (∃ e, c.encodeMany as = some e) ↔ _ := exists_encodeMany
    simp only [encodeMany, Option.pure_def, Option.bind_eq_bind, Option.bind_eq_some_iff,
      Option.some.injEq, List.forall_mem_cons, ← ih]
    constructor
    · rintro ⟨_, b, hb, bs, hbs, -⟩
      exact ⟨⟨b, hb⟩, bs, hbs⟩
    · rintro ⟨⟨b, hb⟩, bs, hbs⟩
      exact ⟨_, b, hb, bs, hbs, rfl⟩

/-- A list can be written with its length exactly when this fits in four bytes and each of its
values can be written. -/
theorem exists_encode_vec {c : Codec α} {as : List α} : (∃ e, (vec c).encode as = some e) ↔
    as.length < 256 ^ 4 ∧ ∀ a ∈ as, ∃ e, c.encode a = some e := by
  rw [← exists_encodeMany]
  unfold vec
  dsimp only
  split_ifs with h
  · simp only [Option.map_eq_some_iff]
    constructor
    · rintro ⟨_, bs, hbs, -⟩
      exact ⟨h, bs, hbs⟩
    · rintro ⟨-, bs, hbs⟩
      exact ⟨_, bs, hbs, rfl⟩
  · constructor
    · rintro ⟨_, hnone⟩
      simp at hnone
    · rintro ⟨hlt, -⟩
      exact absurd hlt h

/-- A byte string can be written exactly when its length fits in four bytes. -/
theorem exists_encode_bytes {bs : Bytes} :
    (∃ e, bytes.encode bs = some e) ↔ bs.length < 256 ^ 4 := by
  rw [bytes, exists_encode_vec, and_iff_left]
  intro b _
  exact ⟨leBytes 1 b.toNat, rfl⟩

/-- A text as its UTF-8 bytes, with their length in front. -/
def string : Codec String where
  encode s := bytes.encode (asBytes s)
  decode bs := do
    let (b, rest) ← bytes.decode bs
    let s ← fromUtf8 b
    pure (s, rest)
  decode_encode := by
    intro s b rest h
    have hs : fromUtf8 (asBytes s) = some s := fromUtf8_eq_some.2 rfl
    simp [bytes.decode_encode rest h, hs]

/-! ## Reading and writing -/

theorem encode_pair {c : Codec α} {d : Codec β} {a : α} {b : β} {bs : Bytes} :
    (c.pair d).encode (a, b) = some bs ↔
      ∃ x, c.encode a = some x ∧ ∃ y, d.encode b = some y ∧ x ++ y = bs := by
  simp [pair, Option.bind_eq_some_iff]

/-- Every value that the codec reads can be written. -/
def Total (c : Codec α) : Prop :=
  ∀ bs a rest, c.decode bs = some (a, rest) → ∃ b, c.encode a = some b

theorem total_array (n : ℕ) : (array n).Total :=
  fun _ _ _ _ => ⟨_, rfl⟩

theorem total_uint {k : ℕ} {toNat : α → ℕ} {ofNat : ℕ → α} {hlt : ∀ a, toNat a < 256 ^ k}
    {hof : ∀ a, ofNat (toNat a) = a} : (uint k toNat ofNat hlt hof).Total :=
  fun _ _ _ _ => ⟨_, rfl⟩

theorem Total.pair {c : Codec α} {d : Codec β} (hc : c.Total) (hd : d.Total) :
    (c.pair d).Total := by
  rintro bs ⟨a, b⟩ rest h
  obtain ⟨r, ha, hb⟩ := decode_pair.1 h
  obtain ⟨x, hx⟩ := hc _ _ _ ha
  obtain ⟨y, hy⟩ := hd _ _ _ hb
  exact ⟨x ++ y, encode_pair.2 ⟨x, hx, y, hy, rfl⟩⟩

theorem Total.map {c : Codec α} {f : α → β} {g : β → α} {h : ∀ b, f (g b) = b}
    (hc : c.Total) (hg : ∀ a, g (f a) = a) : (c.map f g h).Total := by
  intro bs b rest hdec
  obtain ⟨⟨a, r⟩, ha, hb⟩ := Option.map_eq_some_iff.1 hdec
  obtain ⟨rfl, rfl⟩ := Prod.mk.inj hb
  obtain ⟨x, hx⟩ := hc _ _ _ ha
  refine ⟨x, ?_⟩
  change c.encode (g (f a)) = some x
  rw [hg, hx]

theorem length_decodeMany {c : Codec α} : ∀ {n : ℕ} {bs : Bytes} {as : List α} {rest : Bytes},
    c.decodeMany n bs = some (as, rest) → as.length = n
  | 0, bs, as, rest, h => by
    simp only [decodeMany, Option.some.injEq, Prod.mk.injEq] at h
    simp [← h.1]
  | n + 1, bs, as, rest, h => by
    simp only [decodeMany, Option.pure_def, Option.bind_eq_bind, Option.bind_eq_some_iff,
      Option.some.injEq, Prod.mk.injEq, Prod.exists] at h
    obtain ⟨a, r, -, as', r', hmany, rfl, -⟩ := h
    simp [length_decodeMany hmany]

/-- Four bytes of length are enough for a list of bytes that was read with them. -/
theorem total_bytes : bytes.Total := by
  intro bs as rest h
  rw [exists_encode_bytes]
  simp only [bytes, vec, Option.bind_eq_bind, Option.bind_eq_some_iff, Prod.exists] at h
  obtain ⟨len, r, hsplit, hmany⟩ := h
  unfold splitAt? at hsplit
  split_ifs at hsplit with hle
  obtain ⟨rfl, -⟩ := Prod.mk.inj (Option.some_inj.1 hsplit)
  have hlen : (bs.take 4).length = 4 := by
    rw [List.length_take]
    omega
  calc as.length = leNat (bs.take 4) := length_decodeMany hmany
    _ < 256 ^ (bs.take 4).length := leNat_lt _
    _ = 256 ^ 4 := by rw [hlen]

theorem total_string : string.Total := by
  intro bs s rest h
  simp only [string, Option.bind_eq_bind, Option.bind_eq_some_iff, Option.pure_def, Prod.exists,
    Option.some.injEq, Prod.mk.injEq] at h
  obtain ⟨b, r, hb, s', hs, rfl, -⟩ := h
  obtain rfl := fromUtf8_eq_some.1 hs
  exact total_bytes _ _ _ hb

end Codec

end Borsh
