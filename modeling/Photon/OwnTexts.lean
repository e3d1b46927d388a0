import Photon.LogEvents

/-!
# The texts that are decoded

The parser reads the eight bytes of a discriminator off whatever a log or data line decodes to, and
does not ask how many bytes there are. It does so at the lines at which the listened program is on
top of its stack (`ownTexts`). The stack comes from the lines alone, so another program can end a
call of its own in the parser's eyes, and have the rest of what it prints read as the caller's.

So a log makes the parser panic exactly if one of these texts decodes to less than a discriminator
and none before it carries an event that cannot be read (`parse_total_iff`).
-/

namespace Photon

/-! ## Texts of the listened program -/

/-- The text of a line at which `self` is on top. -/
def ownText (self top log : Line) : Option Line :=
  if self = top then textOf log else none

/-- The stack after a line with a call on top. -/
def afterLine (self top : Line) (stack : List Line) (log : Line) : List Line :=
  if (ownText self top log).isNone ∧ (handleIrrelevantLog self log).2 = true then stack
  else top :: stack

/-- The texts of the lines at which `self` is on top, up to the first line with nothing on the
stack. -/
def ownTexts (self : Line) : List Line → List Line → List Line
  | _, [] => []
  | stack, log :: logs =>
    match Execution.push stack log with
    | [] => []
    | top :: stack =>
      (ownText self top log).toList ++ ownTexts self (afterLine self top stack log) logs

namespace EventReader

variable {T : Type} (R : EventReader T) {text : Line}

/-- The text decodes to less than a discriminator. -/
def Short (text : Line) : Prop :=
  ∃ bytes ∈ R.base64Decode text, bytes.length < 8

/-- The text has the discriminator, and no event behind it. -/
def Unreadable (text : Line) : Prop :=
  ∃ bytes ∈ R.base64Decode text,
    8 ≤ bytes.length ∧ bytes.take 8 = R.discriminator ∧ R.deserialize (bytes.drop 8) = none

variable {R}

theorem eventOf_eq_panic : R.eventOf text = .error .panic ↔ R.Short text := by
  unfold eventOf Short
  cases R.base64Decode text with
  | none => simp
  | some bytes =>
    simp only [Option.mem_def, Option.some.injEq, exists_eq_left']
    split_ifs with hlen hdisc
    · simp [hlen]
    · cases R.deserialize (bytes.drop 8) <;> simp [hlen]
    · simp [hlen]

theorem eventOf_eq_parse_error : R.eventOf text = .error .solanaParseLogs ↔ R.Unreadable text := by
  unfold eventOf Unreadable
  cases R.base64Decode text with
  | none => simp
  | some bytes =>
    simp only [Option.mem_def, Option.some.injEq, exists_eq_left']
    split_ifs with hlen hdisc
    · simp [hlen]
    · cases R.deserialize (bytes.drop 8) <;> simp [not_lt.1 hlen, hdisc]
    · simp [hdisc]

end EventReader

/-! ## The parser on any lines -/

section Lines

variable {T : Type} {R : EventReader T} {self top log : Line} {stack : List Line}
  {σ : ParseState T}

theorem handleLog_eq : handleLog R self top log =
    match ownText self top log with
    | some text => (R.eventOf text).map fun e => (e, false)
    | none => .ok (none, (handleIrrelevantLog self log).2) := by
  unfold handleLog ownText
  split_ifs with hself
  · unfold handleProgramLog
    cases textOf log with
    | none => rfl
    | some text =>
      cases he : R.eventOf text <;> simp [he, bind, Except.bind, pure, Except.pure, Except.map]
  · rfl

variable (R self) in
/-- One line with a call on top : the parser fails as the decoder does on its text, or goes on. -/
theorem parseStep_own (hσ : σ.Valid) (h : Execution.push σ.rest log = top :: stack) :
    (∃ err, (ownText self top log).toList.mapM R.eventOf = .error err ∧
        parseStep R self σ log = .error err) ∨
      ∃ es σ', (ownText self top log).toList.mapM R.eventOf = .ok es ∧
        parseStep R self σ log = .ok σ' ∧ σ'.Valid ∧ σ'.rest = afterLine self top stack log := by
  rw [parseStep_cons hσ h, handleLog_eq]
  unfold afterLine
  cases ownText self top log with
  | none =>
    right
    refine ⟨[], _, rfl, rfl, fun _ => List.cons_ne_nil top stack, ?_⟩
    simp [ParseState.rest]
  | some text =>
    cases he : R.eventOf text with
    | error err =>
      left
      exact ⟨err, by simp [he, bind, Except.bind], by simp only [he, Except.map]⟩
    | ok e =>
      right
      refine ⟨[e], ⟨top :: stack, false, σ.events ++ e.toList⟩, ?_, ?_, ?_, ?_⟩
      · simp [he, bind, Except.bind, pure, Except.pure]
      · simp only [he, Except.map]
      · intro hpop
        simp at hpop
      · simp [ParseState.rest]

/-- The parser panics where the decoder does on the texts, one after the other. -/
theorem foldlM_eq_panic {logs : List Line} (hσ : σ.Valid) :
    logs.foldlM (parseStep R self) σ = .error .panic ↔
      (ownTexts self σ.rest logs).mapM R.eventOf = .error .panic := by
  induction logs generalizing σ with
  | nil => simp [ownTexts, pure, Except.pure]
  | cons log logs ih =>
    rw [List.foldlM_cons, ownTexts]
    cases hpush : Execution.push σ.rest log with
    | nil => simp [parseStep_nil hσ hpush, bind, Except.bind, pure, Except.pure]
    | cons top stack =>
      rw [List.mapM_append]
      rcases parseStep_own R self hσ hpush with
        ⟨err, htext, hstep⟩ | ⟨es, σ', htext, hstep, hvalid, hrest⟩
      · simp [htext, hstep, bind, Except.bind]
      · simp only [htext, hstep, bind, Except.bind, ih hvalid, hrest]
        cases (ownTexts self (afterLine self top stack log) logs).mapM R.eventOf <;>
          simp [pure, Except.pure]

end Lines

/-- For all lines and every program : the parser returns exactly if every text that decodes to less
than a discriminator comes after one that carries no event behind the discriminator. -/
theorem parse_total_iff {T : Type} (R : EventReader T) (logs : List Line) (self : Line) :
    parseLogs R logs self ≠ .error .panic ↔
      ∀ pre text post, ownTexts self [] logs = pre ++ text :: post → R.Short text →
        ∃ t ∈ pre, R.Unreadable t := by
  have hvalid : (⟨[], false, []⟩ : ParseState T).Valid := fun h => by simp at h
  have hpanic : parseLogs R logs self = .error .panic ↔
      (ownTexts self [] logs).mapM R.eventOf = .error .panic := by
    rw [parseLogs, Except.bind_eq_error, foldlM_eq_panic hvalid]
    simp [ParseState.rest, pure, Except.pure]
  rw [Ne, hpanic]
  constructor
  · intro h pre text post htexts hshort
    rw [← EventReader.eventOf_eq_panic] at hshort
    have hsplit : ownTexts self [] logs = (pre ++ [text]) ++ post := by simp [htexts]
    -- the first of the texts up to this one that is not decoded ends the parser
    obtain ⟨err, herr⟩ : ∃ err, (pre ++ [text]).mapM R.eventOf = .error err := by
      rw [List.mapM_append]
      cases pre.mapM R.eventOf with
      | error err => exact ⟨err, rfl⟩
      | ok es => exact ⟨.panic, by simp [hshort, bind, Except.bind]⟩
    have hend : (ownTexts self [] logs).mapM R.eventOf = .error err := by
      rw [hsplit, List.mapM_append, herr]
      rfl
    cases err with
    | panic => exact absurd hend h
    | solanaParseLogs =>
      obtain ⟨before, x, after, heq, -, hx⟩ := Except.exists_of_mapM_eq_error herr
      have hmem : x ∈ pre ++ [text] := by simp [heq]
      rcases List.mem_append.1 hmem with hmem | hmem
      · exact ⟨x, hmem, EventReader.eventOf_eq_parse_error.1 hx⟩
      · rw [List.mem_singleton.1 hmem, hshort] at hx
        simp at hx
  · intro h hend
    obtain ⟨pre, text, post, htexts, hpre, hshort⟩ := Except.exists_of_mapM_eq_error hend
    obtain ⟨t, ht, hbad⟩ := h pre text post htexts (EventReader.eventOf_eq_panic.1 hshort)
    obtain ⟨e, he⟩ := hpre t ht
    rw [EventReader.eventOf_eq_parse_error.2 hbad] at he
    cases he

open Listener in
/-- A listener whose decoder also knows a text of four characters. -/
def Listener.shortReader : EventReader ProposeEvent :=
  { reader with
    base64Decode := fun text =>
      if text = "done".toList then some [0x76, 0x89, 0xde] else reader.base64Decode text }

/-- A log in which `photon` calls `onefunc`. -/
def Listener.chatter : List Entry :=
  [.invoke photon, .invoke onefunc, .print (.log "Counter success".toList),
    .print (.log "done".toList), .success, .success]

open Listener in
/-- The first line that `onefunc` prints looks like the end of its call, and the second is decoded
as a text of `photon`. -/
theorem short_text_aborts : WellFormed [] chatter ∧
    parseLogs shortReader (lines [] chatter) photon.val = .error .panic := by
  have hw : WellFormed [] chatter := by simp [chatter, WellFormed, Entry.next]
  refine ⟨hw, ?_⟩
  rw [parseLogs_lines hw]
  decide +kernel

end Photon
