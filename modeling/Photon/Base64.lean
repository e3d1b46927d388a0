import Mathlib.Data.List.Basic
import Mathlib.Tactic.Common

/-!
# Base 64

Three bytes are written as four characters, each for six bits. One or two bytes that are left over
are written with padding (`encode`). The reader wants padding at the end and only there, and no
bits that it would drop (`decode`). What is written is read back (`decode_encode`), and a text with
any other character in it is not read (`decode_eq_none`).
-/

namespace Base64

def alphabet : List Char :=
  "ABCDEFGHIJKLMNOPQRSTUVWXYZabcdefghijklmnopqrstuvwxyz0123456789+/".toList

/-- The character for six bits. -/
def char (n : ℕ) : Char :=
  alphabet.getD n '='

/-- The six bits of a character. -/
def sextet (c : Char) : Option ℕ :=
  if c ∈ alphabet then some (alphabet.idxOf c) else none

def encode : List UInt8 → List Char
  | [] => []
  | [a] => [char (a.toNat / 4), char (a.toNat % 4 * 16), '=', '=']
  | [a, b] =>
    [char (a.toNat / 4), char (a.toNat % 4 * 16 + b.toNat / 16), char (b.toNat % 16 * 4), '=']
  | a :: b :: c :: rest =>
    char (a.toNat / 4) :: char (a.toNat % 4 * 16 + b.toNat / 16) ::
      char (b.toNat % 16 * 4 + c.toNat / 64) :: char (c.toNat % 64) :: encode rest

/-- The bytes of four characters. -/
def quad (x y z w : Char) : Option (List UInt8) := do
  let x ← sextet x
  let y ← sextet y
  let a := UInt8.ofNat (x * 4 + y / 16)
  if z = '=' ∧ w = '=' then
    if y % 16 = 0 then some [a] else none
  else
    let z ← sextet z
    let b := UInt8.ofNat (y % 16 * 16 + z / 4)
    if w = '=' then
      if z % 4 = 0 then some [a, b] else none
    else
      let w ← sextet w
      some [a, b, UInt8.ofNat (z % 4 * 64 + w)]

def decode : List Char → Option (List UInt8)
  | [] => some []
  | x :: y :: z :: w :: rest => do
    let front ← quad x y z w
    if w = '=' ∧ rest ≠ [] then none
    else
      let back ← decode rest
      some (front ++ back)
  | _ => none

theorem sextet_char {n : ℕ} (hn : n < 64) : sextet (char n) = some n := by
  revert n
  decide +kernel

theorem char_mem {n : ℕ} (hn : n < 64) : char n ∈ alphabet := by
  revert n
  decide +kernel

theorem pad_not_mem : '=' ∉ alphabet := by
  decide +kernel

theorem char_ne {n : ℕ} (hn : n < 64) : char n ≠ '=' := by
  intro h
  exact pad_not_mem (h ▸ char_mem hn)

theorem ofNat_toNat {a : UInt8} {n : ℕ} (h : n = a.toNat) : UInt8.ofNat n = a := by
  rw [h, UInt8.ofNat_toNat]

theorem quad_one (a : UInt8) :
    quad (char (a.toNat / 4)) (char (a.toNat % 4 * 16)) '=' '=' = some [a] := by
  have ha := a.toNat_lt
  rw [quad, sextet_char (by omega), sextet_char (by omega)]
  simp only [Option.bind_eq_bind, Option.bind_some, and_self, if_true]
  rw [if_pos (by omega), ofNat_toNat (a := a) (by omega)]

theorem quad_two (a b : UInt8) :
    quad (char (a.toNat / 4)) (char (a.toNat % 4 * 16 + b.toNat / 16))
      (char (b.toNat % 16 * 4)) '=' = some [a, b] := by
  have ha := a.toNat_lt
  have hb := b.toNat_lt
  have hpad : char (b.toNat % 16 * 4) ≠ '=' := char_ne (by omega)
  rw [quad, sextet_char (by omega), sextet_char (by omega), sextet_char (by omega)]
  simp only [Option.bind_eq_bind, Option.bind_some, hpad, false_and, if_false, if_true]
  rw [if_pos (by omega), ofNat_toNat (a := a) (by omega), ofNat_toNat (a := b) (by omega)]

theorem quad_three (a b c : UInt8) :
    quad (char (a.toNat / 4)) (char (a.toNat % 4 * 16 + b.toNat / 16))
      (char (b.toNat % 16 * 4 + c.toNat / 64)) (char (c.toNat % 64)) = some [a, b, c] := by
  have ha := a.toNat_lt
  have hb := b.toNat_lt
  have hc := c.toNat_lt
  have hpad : char (c.toNat % 64) ≠ '=' := char_ne (by omega)
  rw [quad, sextet_char (by omega), sextet_char (by omega), sextet_char (by omega),
    sextet_char (by omega)]
  simp only [Option.bind_eq_bind, Option.bind_some, hpad, and_false, if_false]
  rw [ofNat_toNat (a := a) (by omega), ofNat_toNat (a := b) (by omega),
    ofNat_toNat (a := c) (by omega)]

/-- What is written is read back. -/
theorem decode_encode : ∀ bytes : List UInt8, decode (encode bytes) = some bytes
  | [] => rfl
  | [a] => by simp [encode, decode, quad_one]
  | [a, b] => by simp [encode, decode, quad_two]
  | a :: b :: c :: rest => by
    have hpad : char (c.toNat % 64) ≠ '=' := char_ne (Nat.mod_lt _ (by omega))
    simp [encode, decode, quad_three, hpad, decode_encode rest]

/-- The characters of a text. -/
theorem mem_encode : ∀ {bytes : List UInt8}, ∀ c ∈ encode bytes, c ∈ alphabet ∨ c = '='
  | [], c, hc => by simp [encode] at hc
  | [a], c, hc => by
    have ha := a.toNat_lt
    simp only [encode, List.mem_cons, List.not_mem_nil, or_false] at hc
    rcases hc with rfl | rfl | rfl | rfl
    · exact .inl (char_mem (by omega))
    · exact .inl (char_mem (by omega))
    · exact .inr rfl
    · exact .inr rfl
  | [a, b], c, hc => by
    have ha := a.toNat_lt
    have hb := b.toNat_lt
    simp only [encode, List.mem_cons, List.not_mem_nil, or_false] at hc
    rcases hc with rfl | rfl | rfl | rfl
    · exact .inl (char_mem (by omega))
    · exact .inl (char_mem (by omega))
    · exact .inl (char_mem (by omega))
    · exact .inr rfl
  | a :: b :: c :: rest, x, hx => by
    have ha := a.toNat_lt
    have hb := b.toNat_lt
    have hc := c.toNat_lt
    simp only [encode, List.mem_cons] at hx
    rcases hx with rfl | rfl | rfl | rfl | hx
    · exact .inl (char_mem (by omega))
    · exact .inl (char_mem (by omega))
    · exact .inl (char_mem (by omega))
    · exact .inl (char_mem (by omega))
    · exact mem_encode x hx

theorem sextet_eq_none {c : Char} (hc : c ∉ alphabet) : sextet c = none :=
  if_neg hc

theorem quad_eq_none {x y z w c : Char} (hc : c ∉ alphabet) (hpad : c ≠ '=')
    (hmem : c = x ∨ c = y ∨ c = z ∨ c = w) : quad x y z w = none := by
  have hnone := sextet_eq_none hc
  rcases hmem with rfl | rfl | rfl | rfl
  · simp [quad, hnone]
  · simp [quad, hnone]
  · simp [quad, hnone, hpad]
  · simp [quad, hnone, hpad]

/-- A text with another character is not read. -/
theorem decode_eq_none {c : Char} (hc : c ∉ alphabet) (hpad : c ≠ '=') :
    ∀ {text : List Char}, c ∈ text → decode text = none
  | [], hmem => by simp at hmem
  | [_], _ | [_, _], _ | [_, _, _], _ => rfl
  | x :: y :: z :: w :: rest, hmem => by
    by_cases hrest : c ∈ rest
    · simp [decode, decode_eq_none hc hpad hrest]
    · have hfront : c = x ∨ c = y ∨ c = z ∨ c = w := by
        simpa [hrest] using hmem
      simp [decode, quad_eq_none hc hpad hfront]

example : String.ofList (encode [0x4d, 0x61, 0x6e, 0x79]) = "TWFueQ==" := by
  decide +kernel

end Base64
