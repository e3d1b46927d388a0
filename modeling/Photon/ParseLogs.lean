import Photon.Machine
import Photon.Bytes
import Photon.Text

/-!
# Reading events off transaction logs

`parseLogs` goes through the lines of a log and keeps a stack of the programs it takes to be
running. A line that matches `^Program (.*) invoke.*$` pushes what the group captures, a line
that matches `^Program (.*) success$` pops, one line later. A line at which the listened
program is on top may carry an event. The patterns are applied to every line, whoever wrote
it. What one line does is said of the stack that is left once the pop before it is done
(`ParseState.rest`, `parseStep_cons`).

Decoding base 64 and reading an event belong to other crates and to the event's type
(`EventReader`).
-/

namespace Photon

/-- A line of a log. -/
abbrev Line := List Char

/-- What the listener uses of other crates and of its event type. -/
structure EventReader (T : Type) where
  base64Decode : Line → Option Bytes
  discriminator : Bytes
  deserialize : Bytes → Option T

/-- Why a log is not parsed. -/
inductive ParseError
  | solanaParseLogs
  | panic
  deriving DecidableEq

/-! ## Patterns -/

def PROGRAM : Line := "Program ".toList

def INVOKE : Line := " invoke".toList

def SUCCESS : Line := " success".toList

def PROGRAM_LOG : Line := "Program log: ".toList

def PROGRAM_DATA : Line := "Program data: ".toList

/-- The group of `^Program (.*) invoke.*$`. The wildcard does not match a line break. -/
def invokeCapture (log : Line) : Option Line :=
  if '\n' ∈ log then none else (Text.after PROGRAM log).bind (Text.before INVOKE)

/-- The group of `^Program (.*) word$`. -/
def endCapture (word log : Line) : Option Line :=
  if '\n' ∈ log then none
  else (Text.after PROGRAM log).bind fun rest =>
    if word <:+ rest then some (rest.take (rest.length - word.length)) else none

/-! ## The call stack -/

namespace Execution

/-- The program on top. -/
def program (stack : List Line) : Except ParseError Line :=
  orFail stack.head? .solanaParseLogs

def pop (stack : List Line) : Except ParseError (List Line) := do
  let _ ← program stack
  pure stack.tail

/-- Do the pop that the line before left over. -/
def popIf (doPop : Bool) (stack : List Line) : Except ParseError (List Line) :=
  if doPop then pop stack else pure stack

/-- Push what an invoke line captures. -/
def push (stack : List Line) (log : Line) : List Line :=
  match invokeCapture log with
  | some program => program :: stack
  | none => stack

def update (stack : List Line) (log : Line) : Except ParseError (List Line) := do
  let stack := push stack log
  let _ ← program stack
  pure stack

end Execution

/-! ## Lines -/

/-- The event in the text of a log or data line. A text that decodes to less than a
discriminator is an index out of range. -/
def EventReader.eventOf {T : Type} (R : EventReader T) (log : Line) :
    Except ParseError (Option T) :=
  match R.base64Decode log with
  | none => .ok none
  | some bytes =>
    if bytes.length < 8 then .error .panic
    else if bytes.take 8 = R.discriminator then
      match R.deserialize (bytes.drop 8) with
      | some e => .ok (some e)
      | none => .error .solanaParseLogs
    else .ok none

/-- The program a line names and whether the line ends a call. -/
def handleIrrelevantLog (self log : Line) : Option Line × Bool :=
  if PROGRAM ++ self ++ " log:".toList <+: log then (some self, false)
  else
    match endCapture INVOKE log with
    | some program => (some program, false)
    | none => (none, (endCapture SUCCESS log).isSome)

/-- The text of a log or data line. -/
def textOf (log : Line) : Option Line :=
  (Text.after PROGRAM_LOG log).or (Text.after PROGRAM_DATA log)

variable {T : Type} (R : EventReader T)

/-- A line with the listened program on top. -/
def handleProgramLog (self log : Line) : Except ParseError (Option T × Bool) :=
  match textOf log with
  | some text => do
    let event ← R.eventOf text
    pure (event, false)
  | none => pure (none, (handleIrrelevantLog self log).2)

/-- A line with `program` on top. -/
def handleLog (self program log : Line) : Except ParseError (Option T × Bool) :=
  if self = program then handleProgramLog R self log
  else pure (none, (handleIrrelevantLog self log).2)

/-- The parser between two lines. -/
structure ParseState (T : Type) where
  stack : List Line
  doPop : Bool
  events : List T

def parseStep (self : Line) (σ : ParseState T) (log : Line) :
    Except ParseError (ParseState T) := do
  let stack ← Execution.popIf σ.doPop σ.stack
  let stack ← Execution.update stack log
  let program ← Execution.program stack
  let (event, pop) ← handleLog R self program log
  pure ⟨stack, pop, σ.events ++ event.toList⟩

/-- The events of the program `self` in a log. -/
def parseLogs (logs : List Line) (self : Line) : Except ParseError (List T) := do
  let σ ← logs.foldlM (parseStep R self) ⟨[], false, []⟩
  pure σ.events

/-! ## One line -/

namespace ParseState

/-- The stack once the pending pop is done. -/
def rest (σ : ParseState T) : List Line :=
  if σ.doPop then σ.stack.tail else σ.stack

/-- There is something to pop. -/
def Valid (σ : ParseState T) : Prop :=
  σ.doPop = true → σ.stack ≠ []

end ParseState

variable {R} {self log top : Line} {stack : List Line} {σ : ParseState T}

theorem Execution.push_of_some (h : invokeCapture log = some top) :
    Execution.push stack log = top :: stack := by
  simp [Execution.push, h]

theorem Execution.push_of_none (h : invokeCapture log = none) :
    Execution.push stack log = stack := by
  simp [Execution.push, h]

theorem Execution.popIf_eq (hσ : σ.Valid) : Execution.popIf σ.doPop σ.stack = .ok σ.rest := by
  unfold Execution.popIf ParseState.rest
  cases hp : σ.doPop with
  | false => rfl
  | true =>
    obtain ⟨top, stack, hs⟩ := List.exists_cons_of_ne_nil (hσ hp)
    rw [hs]
    rfl

/-- A line with nothing on the stack fails. -/
theorem parseStep_nil (hσ : σ.Valid) (h : Execution.push σ.rest log = []) :
    parseStep R self σ log = .error .solanaParseLogs := by
  simp only [parseStep, Execution.popIf_eq hσ, Execution.update, bind, Except.bind, h]
  rfl

/-- A line with `top` on top. -/
theorem parseStep_cons (hσ : σ.Valid) (h : Execution.push σ.rest log = top :: stack) :
    parseStep R self σ log = (handleLog R self top log).map fun r =>
      ⟨top :: stack, r.2, σ.events ++ r.1.toList⟩ := by
  have hupdate : Execution.update σ.rest log = .ok (top :: stack) := by
    simp only [Execution.update, h]
    rfl
  have hprogram : Execution.program (top :: stack) = .ok top := rfl
  simp only [parseStep, Execution.popIf_eq hσ, hupdate, hprogram, bind, Except.bind]
  cases handleLog R self top log <;> rfl

/-- A line that pushes something else than the listened program. -/
theorem parseStep_push (hσ : σ.Valid) (h : invokeCapture log = some top) (hne : self ≠ top) :
    parseStep R self σ log =
      .ok ⟨top :: σ.rest, (handleIrrelevantLog self log).2, σ.events⟩ := by
  rw [parseStep_cons hσ (Execution.push_of_some h), handleLog, if_neg hne]
  simp [pure, Except.pure, Except.map]

/-- A line that pushes nothing, with another program on top. -/
theorem parseStep_other (hσ : σ.Valid) (h : invokeCapture log = none)
    (hrest : σ.rest = top :: stack) (hne : self ≠ top) :
    parseStep R self σ log = .ok ⟨σ.rest, (handleIrrelevantLog self log).2, σ.events⟩ := by
  rw [parseStep_cons hσ ((Execution.push_of_none h).trans hrest), handleLog, if_neg hne, hrest]
  simp [pure, Except.pure, Except.map]

/-- A line that pushes nothing and has no text. -/
theorem parseStep_plain (hσ : σ.Valid) (h : invokeCapture log = none)
    (hrest : σ.rest = top :: stack) (htext : textOf log = none) :
    parseStep R self σ log = .ok ⟨σ.rest, (handleIrrelevantLog self log).2, σ.events⟩ := by
  by_cases hself : self = top
  · rw [parseStep_cons hσ ((Execution.push_of_none h).trans hrest), handleLog, if_pos hself,
      handleProgramLog, htext, hrest]
    simp [pure, Except.pure, Except.map]
  · exact parseStep_other hσ h hrest hself

/-- A text line that pushes nothing, with the listened program on top. -/
theorem parseStep_text {text : Line} (hσ : σ.Valid) (h : invokeCapture log = none)
    (hrest : σ.rest = self :: stack) (htext : textOf log = some text) :
    parseStep R self σ log =
      (R.eventOf text).map fun e => ⟨σ.rest, false, σ.events ++ e.toList⟩ := by
  rw [parseStep_cons hσ ((Execution.push_of_none h).trans hrest), handleLog, if_pos rfl,
    handleProgramLog, htext, hrest]
  cases he : R.eventOf text <;> simp [he, bind, Except.bind, pure, Except.pure, Except.map]

end Photon
