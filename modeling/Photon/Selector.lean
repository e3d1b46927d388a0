import Photon.ProtocolData

/-!
# The bytes of a selector

Three pieces of code write or read a selector as bytes : a type byte, a length byte, and the code
or the name. `toBytes` writes it into the event of a proposal and refuses a body of more than 32
bytes. `tryFrom` reads it off the queue. It skips the length byte and takes all that follows as
the body, and it panics on a type byte it does not know. `evmBytes` writes it into the bytes that
are signed, with the length cut to one byte.

So the reader undoes the writer for all selectors but the uninitialised one, and the writer undoes
the reader where the length byte is right (`codec_iff`). The bytes that are signed are those of the
writer exactly as long as the body has at most 32 bytes (`hashedCanonically_iff`).
-/

namespace Photon

namespace FunctionSelector

variable {s : FunctionSelector} {b b' : Bytes}

/-- The type byte. -/
def tag : FunctionSelector → UInt8
  | .byCode _ => 0
  | .byName _ => 1
  | .dummy => 2

theorem evmBytes_eq_ok (hs : s ≠ .dummy) :
    s.evmBytes = .ok b ↔ b = s.tag :: UInt8.ofNat s.body.length :: s.body := by
  cases s with
  | byCode code | byName name => simp [evmBytes, tag, body, eq_comm]
  | dummy => exact absurd rfl hs

theorem toBytes_eq_ok (hs : s ≠ .dummy) :
    s.toBytes = .ok b ↔ s.body.length ≤ 32 ∧ s.evmBytes = .ok b := by
  cases s with
  | byCode code | byName name => simp [toBytes, evmBytes, body]
  | dummy => exact absurd rfl hs

/-! ## Writing and reading -/

/-- The reader takes any length byte. -/
theorem tryFrom_eq_ok : tryFrom b = .ok s ↔ s ≠ .dummy ∧ ∃ len, b = s.tag :: len :: s.body := by
  constructor
  · intro h
    match b, h with
    | [], h => simp [tryFrom] at h
    | t :: rest, h =>
      simp only [tryFrom] at h
      split_ifs at h with h0 h1
      · cases rest with
        | nil => simp at h
        | cons len code =>
          obtain rfl := Except.ok.inj h
          exact ⟨by simp, len, by simp [tag, body, h0]⟩
      · cases rest with
        | nil => simp at h
        | cons len name =>
          cases hname : fromUtf8 name with
          | none => simp [hname] at h
          | some n =>
            simp only [hname, Except.ok.injEq] at h
            subst h
            exact ⟨by simp, len, by simp [tag, body, h1, fromUtf8_eq_some.1 hname]⟩
  · rintro ⟨hs, len, rfl⟩
    cases s with
    | byCode code => rfl
    | byName name =>
      have hname : fromUtf8 (asBytes name) = some name := fromUtf8_eq_some.2 rfl
      simp [tryFrom, tag, body, hname]
    | dummy => exact absurd rfl hs

theorem tryFrom_eq_panic {t : UInt8} {rest : Bytes} :
    tryFrom (t :: rest) = .error .panic ↔ ¬(t = 0 ∨ t = 1) := by
  simp only [tryFrom]
  split_ifs with h0 h1
  · cases rest <;> simp [h0]
  · cases rest with
    | nil => simp [h1]
    | cons len name => cases hname : fromUtf8 name <;> simp [h1, hname]
  · simp [h0, h1]

/-- The type byte is one of the two that are known, and the length byte is right, or else what
follows is too long to be written or is no name. -/
def WellTagged : Bytes → Prop
  | [] => True
  | t :: rest => (t = 0 ∨ t = 1) ∧ ∀ len body, rest = len :: body →
      len = UInt8.ofNat body.length ∨ 32 < body.length ∨ t = 1 ∧ fromUtf8 body = none

/-- A selector with a given type byte and body. -/
theorem exists_of_tag {t : UInt8} {body : Bytes} (ht : t = 0 ∨ t = 1)
    (hname : ¬(t = 1 ∧ fromUtf8 body = none)) :
    ∃ s : FunctionSelector, s ≠ .dummy ∧ s.tag = t ∧ s.body = body := by
  rcases ht with rfl | rfl
  · exact ⟨.byCode body, by simp, rfl, rfl⟩
  · cases hutf : fromUtf8 body with
    | none => exact absurd ⟨rfl, hutf⟩ hname
    | some name => exact ⟨.byName name, by simp, rfl, fromUtf8_eq_some.1 hutf⟩

/-- Reading is safe, and writing what was read gives the same bytes, exactly if the bytes are well
tagged. -/
theorem wellTagged_iff (b : Bytes) : (tryFrom b ≠ .error .panic ∧
    ∀ s b', tryFrom b = .ok s → s.toBytes = .ok b' → b' = b) ↔ WellTagged b := by
  cases b with
  | nil => simp [tryFrom, WellTagged]
  | cons t rest =>
    rw [WellTagged, ne_eq, tryFrom_eq_panic, not_not]
    refine and_congr_right fun ht => ⟨fun h len body hrest => ?_, fun h s b' hread hwrite => ?_⟩
    · subst hrest
      by_contra hno
      push Not at hno
      obtain ⟨hlen, hshort, hname⟩ := hno
      obtain ⟨s, hs, rfl, rfl⟩ := exists_of_tag ht fun hbad => hname hbad.1 hbad.2
      have hwrite := (toBytes_eq_ok hs).2 ⟨hshort, (evmBytes_eq_ok hs).2 rfl⟩
      have heq := h s _ (tryFrom_eq_ok.2 ⟨hs, len, rfl⟩) hwrite
      simp only [List.cons.injEq, true_and, and_true] at heq
      exact hlen heq.symm
    · obtain ⟨hs, len, hb⟩ := tryFrom_eq_ok.1 hread
      obtain ⟨rfl, rfl⟩ := List.cons.inj hb
      obtain ⟨hshort, hevm⟩ := (toBytes_eq_ok hs).1 hwrite
      rw [(evmBytes_eq_ok hs).1 hevm]
      rcases h len s.body rfl with rfl | hlong | ⟨ht1, hutf⟩
      · rfl
      · exact absurd hshort (not_le.2 hlong)
      · cases s with
        | byName name => simp [body, fromUtf8_eq_some.2 rfl] at hutf
        | byCode code | dummy => simp [tag] at ht1

/-- Reading undoes writing for every selector but the uninitialised one. Writing undoes reading,
and reading does not panic, exactly on well tagged bytes. -/
theorem codec_iff (s : FunctionSelector) (b : Bytes) :
    ((∀ b', s.toBytes = .ok b' → tryFrom b' = .ok s) ↔ s ≠ .dummy) ∧
      ((tryFrom b ≠ .error .panic ∧
        ∀ s' b', tryFrom b = .ok s' → s'.toBytes = .ok b' → b' = b) ↔ WellTagged b) := by
  refine ⟨⟨?_, fun hs b' hwrite => ?_⟩, wellTagged_iff b⟩
  · rintro h rfl
    simpa [tryFrom] using h [2, 0] rfl
  · obtain ⟨-, hevm⟩ := (toBytes_eq_ok hs).1 hwrite
    exact tryFrom_eq_ok.2 ⟨hs, _, (evmBytes_eq_ok hs).1 hevm⟩

/-- What is written for the uninitialised selector makes the reader panic, and a code of four
bytes behind the length five is written with the length four. -/
theorem codec_fails :
    dummy.toBytes = .ok [2, 0] ∧ tryFrom [2, 0] = .error .panic ∧
      tryFrom [0, 5, 1, 2, 3, 4] = .ok (.byCode [1, 2, 3, 4]) ∧
      (byCode [1, 2, 3, 4]).toBytes = .ok [0, 4, 1, 2, 3, 4] := by
  decide

/-! ## What is signed -/

/-- The bytes that are signed are those of the writer, and the length byte is the length. -/
def HashedCanonically (s : FunctionSelector) : Prop :=
  ∃ b, s.evmBytes = .ok b ∧ s.toBytes = .ok b ∧ b[1]?.map UInt8.toNat = some s.body.length

theorem hashedCanonically_iff {s : FunctionSelector} (hs : s ≠ .dummy) :
    s.HashedCanonically ↔ s.body.length ≤ 32 := by
  constructor
  · rintro ⟨b, -, hwrite, -⟩
    exact ((toBytes_eq_ok hs).1 hwrite).1
  · intro hshort
    have hevm := (evmBytes_eq_ok hs).2 rfl
    refine ⟨_, hevm, (toBytes_eq_ok hs).2 ⟨hshort, hevm⟩, ?_⟩
    simp only [List.getElem?_cons_succ, List.getElem?_cons_zero, Option.map_some, Option.some.injEq,
      UInt8.toNat_ofNat']
    omega

/-- Selectors with bodies that fit their length byte are told apart by the signed bytes, whatever
follows them. -/
theorem evmBytes_append_inj_of_short {s s' : FunctionSelector} {b b' rest rest' : Bytes}
    (hb : s.evmBytes = .ok b) (hb' : s'.evmBytes = .ok b') (hlen : s.body.length < 256)
    (hlen' : s'.body.length < 256) (h : b ++ rest = b' ++ rest') : s = s' ∧ rest = rest' := by
  have hs : s ≠ .dummy := by
    rintro rfl
    simp [evmBytes] at hb
  have hs' : s' ≠ .dummy := by
    rintro rfl
    simp [evmBytes] at hb'
  refine evmBytes_append_inj hb hb' ?_ h
  rw [(evmBytes_eq_ok hs).1 hb, (evmBytes_eq_ok hs').1 hb'] at h
  simp only [List.cons_append, List.cons.injEq] at h
  have hbyte := congrArg UInt8.toNat h.2.1
  simp only [UInt8.toNat_ofNat'] at hbyte
  omega

end FunctionSelector

end Photon
