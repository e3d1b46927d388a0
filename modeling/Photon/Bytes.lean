import Mathlib.Data.List.Basic
import Mathlib.Tactic.Ring

/-!
# Byte strings, fixed arrays and integers as bytes

Byte strings are lists of `UInt8`, a fixed-size array `[T; N]` is a list with its length
(`Fixed`). Integers are written little-endian (`leBytes`) or big-endian (`beBytes`) over
`k` bytes; both lose nothing below `256 ^ k` (`leNat_leBytes`, `beBytes_inj`). Text is
Lean's `String`, whose value is its UTF-8 encoding, so `fromUtf8` and `asBytes` are
inverse to each other (`fromUtf8_eq_some`).
-/

/-- A byte string. -/
abbrev Bytes := List UInt8

/-- An array of exactly `n` entries. -/
abbrev Fixed (α : Type*) (n : ℕ) := { xs : List α // xs.length = n }

namespace Fixed

variable {α : Type*} {n : ℕ}

/-- The array with every entry `a`. -/
def replicate (n : ℕ) (a : α) : Fixed α n :=
  ⟨List.replicate n a, List.length_replicate⟩

instance decidableMem [DecidableEq α] (a : Fixed α n) (l : List (Fixed α n)) :
    Decidable (a ∈ l) :=
  List.instDecidableMemOfLawfulBEq a l

/-- Read a list as an array if it has the right length. -/
def ofList? (n : ℕ) (xs : List α) : Option (Fixed α n) :=
  if h : xs.length = n then some ⟨xs, h⟩ else none

theorem ofList?_eq_some {xs : List α} {a : Fixed α n} :
    ofList? n xs = some a ↔ xs = a.val := by
  obtain ⟨ys, hys⟩ := a
  unfold ofList?
  split_ifs with h
  · simp
  · constructor
    · intro h'
      simp at h'
    · intro h'
      exact absurd (h' ▸ hys) h

end Fixed

/-! ## Integers as bytes -/

/-- The `k` low bytes of `n`, lowest first. -/
def leBytes : ℕ → ℕ → Bytes
  | 0, _ => []
  | k + 1, n => UInt8.ofNat n :: leBytes k (n / 256)

/-- The number a little-endian byte string denotes. -/
def leNat : Bytes → ℕ
  | [] => 0
  | b :: bs => b.toNat + 256 * leNat bs

/-- The `k` low bytes of `n`, highest first. -/
def beBytes (k n : ℕ) : Bytes :=
  (leBytes k n).reverse

/-- The number a big-endian byte string denotes. -/
def beNat (bs : Bytes) : ℕ :=
  leNat bs.reverse

@[simp] theorem length_leBytes : ∀ k n, (leBytes k n).length = k
  | 0, _ => rfl
  | k + 1, n => by simp [leBytes, length_leBytes k]

@[simp] theorem length_beBytes (k n : ℕ) : (beBytes k n).length = k := by
  simp [beBytes]

/-- Below `256 ^ k` the `k` low bytes are the whole number. -/
theorem leNat_leBytes : ∀ {k n : ℕ}, n < 256 ^ k → leNat (leBytes k n) = n
  | 0, n, h => by
    obtain rfl : n = 0 := by simpa using h
    rfl
  | k + 1, n, h => by
    have hdiv : n / 256 < 256 ^ k := by
      rw [Nat.div_lt_iff_lt_mul (by norm_num), ← pow_succ]
      exact h
    rw [leBytes, leNat, leNat_leBytes hdiv, UInt8.toNat_ofNat']
    omega

theorem leNat_lt : ∀ bs : Bytes, leNat bs < 256 ^ bs.length
  | [] => by simp [leNat]
  | b :: bs => by
    have hb := b.toNat_lt
    have ih := leNat_lt bs
    simp only [leNat, List.length_cons, pow_succ]
    omega

theorem leBytes_leNat : ∀ bs : Bytes, leBytes bs.length (leNat bs) = bs
  | [] => rfl
  | b :: bs => by
    have hb := b.toNat_lt
    have hlow : UInt8.ofNat (b.toNat + 256 * leNat bs) = b := by
      apply UInt8.toNat_inj.1
      rw [UInt8.toNat_ofNat']
      omega
    have hhigh : (b.toNat + 256 * leNat bs) / 256 = leNat bs := by omega
    rw [List.length_cons, leNat, leBytes, hlow, hhigh, leBytes_leNat bs]

theorem beNat_lt (bs : Bytes) : beNat bs < 256 ^ bs.length := by
  simpa [beNat] using leNat_lt bs.reverse

theorem beNat_beBytes {k n : ℕ} (h : n < 256 ^ k) : beNat (beBytes k n) = n := by
  rw [beNat, beBytes, List.reverse_reverse, leNat_leBytes h]

theorem beBytes_beNat (bs : Bytes) : beBytes bs.length (beNat bs) = bs := by
  have h := leBytes_leNat bs.reverse
  rw [List.length_reverse] at h
  rw [beBytes, beNat, h, List.reverse_reverse]

/-- Numbers below `256 ^ k` with the same `k` bytes are equal. -/
theorem beBytes_inj {k m n : ℕ} (hm : m < 256 ^ k) (hn : n < 256 ^ k)
    (h : beBytes k m = beBytes k n) : m = n := by
  have h' := congrArg leNat (List.reverse_injective h)
  rwa [leNat_leBytes hm, leNat_leBytes hn] at h'

/-! ## Text -/

/-- The UTF-8 bytes of a text. -/
def asBytes (s : String) : Bytes :=
  s.toByteArray.data.toList

/-- The text a byte string encodes, if it is valid UTF-8. -/
def fromUtf8 (bs : Bytes) : Option String :=
  String.fromUTF8? ⟨bs.toArray⟩

theorem asBytes_injective : Function.Injective asBytes := by
  intro s t h
  apply String.toByteArray_inj.1
  apply ByteArray.ext
  exact Array.toList_inj.1 h

/-- Decoding is the inverse of encoding. -/
theorem fromUtf8_eq_some {bs : Bytes} {s : String} : fromUtf8 bs = some s ↔ asBytes s = bs := by
  unfold fromUtf8 String.fromUTF8?
  split_ifs with h
  · have hb : asBytes (String.fromUTF8 ⟨bs.toArray⟩ h) = bs := by
      simp [asBytes, String.fromUTF8]
    rw [Option.some_inj]
    constructor
    · rintro rfl
      exact hb
    · intro hs
      exact asBytes_injective (hb.trans hs.symm)
  · constructor
    · intro h'
      simp at h'
    · rintro rfl
      refine absurd ?_ h
      simpa [asBytes] using s.isValidUTF8
