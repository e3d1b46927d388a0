import Photon.Logs

/-!
# The parser on the log of a transaction

The parser of `Photon.ParseLogs` sees the lines of a log only and rebuilds the call stack from
them. `readAll` says what it does with the entries of a log, and `parseLogs_lines` that it does
so. The pop that the parser leaves over to the next line is done at once here.

A printed line can look like the start of a call (`LooksLikeStart`), like its end
(`LooksLikeEnd`), or like both, in which case what it pushes is popped again.
-/

namespace Photon

/-! ## What the parser makes of an entry -/

/-- The line matches `^Program (.*) invoke.*$`. -/
def LooksLikeStart (q : ProgramId) (x : Print) : Prop :=
  (invokeCapture (x.line q)).isSome

/-- The line is taken for the end of a call. -/
def LooksLikeEnd (P q : ProgramId) (x : Print) : Prop :=
  (handleIrrelevantLog P.val (x.line q)).2 = true

instance (q : ProgramId) (x : Print) : Decidable (LooksLikeStart q x) :=
  inferInstanceAs (Decidable (_ = _))

instance (P q : ProgramId) (x : Print) : Decidable (LooksLikeEnd P q x) :=
  inferInstanceAs (Decidable (_ = _))

variable {T : Type} (R : EventReader T) (P : ProgramId)

/-- A line that `q` prints with `top` on top, if it pushes nothing. -/
def readPrint (q : ProgramId) (x : Print) (top : Line) (stack : List Line) :
    Except ParseError (List Line × List T) :=
  match x.text with
  | some text =>
    if P.val = top then (R.eventOf text).map fun e => (top :: stack, e.toList)
    else .ok (if LooksLikeEnd P q x then stack else top :: stack, [])
  | none => .ok (if LooksLikeEnd P q x then stack else top :: stack, [])

/-- What an entry does to the parser's stack, and the event it finds there, with the calls `s`
under way. -/
def read (stack : List Line) : List ProgramId → Entry → Except ParseError (List Line × List T)
  | _, .invoke id => .ok (id.val :: stack, [])
  | q :: _, .print x =>
    match invokeCapture (x.line q), stack with
    | some top, stack => .ok (if LooksLikeEnd P q x then stack else top :: stack, [])
    | none, [] => .error .solanaParseLogs
    | none, top :: stack => readPrint R P q x top stack
  | _ :: _, .consumed _ _ => if stack = [] then .error .solanaParseLogs else .ok (stack, [])
  | _ :: _, .success => if stack = [] then .error .solanaParseLogs else .ok (stack.tail, [])
  | [], _ => .error .solanaParseLogs

/-- The events found in the entries of a log. -/
def readAll : List Line → List ProgramId → List Entry → Except ParseError (List T)
  | _, _, [] => .ok []
  | stack, s, e :: es => do
    let (stack, found) ← read R P stack s e
    let later ← readAll stack (e.next s) es
    pure (found ++ later)

variable {R P} {σ : ParseState T} {s : List ProgramId} {e : Entry} {es : List Entry}
  {stack : List Line}

@[simp] theorem read_invoke (id : ProgramId) :
    read R P stack s (.invoke id) = .ok (id.val :: stack, []) := by
  cases s <;> rfl

@[simp] theorem read_success {top : Line} {q : ProgramId} :
    read R P (top :: stack) (q :: s) .success = .ok (stack, []) := rfl

/-- A parser state that an entry leads to. -/
def Leads (σ : ParseState T) (r : Except ParseError (ParseState T))
    (out : Except ParseError (List Line × List T)) : Prop :=
  match out with
  | .error err => r = .error err
  | .ok (stack, found) =>
    ∃ σ', r = .ok σ' ∧ σ'.Valid ∧ σ'.rest = stack ∧ σ'.events = σ.events ++ found

theorem leads_of_ok {top : Line} (pop : Bool) :
    Leads σ (.ok ⟨top :: stack, pop, σ.events⟩) (.ok (if pop then stack else top :: stack, [])) :=
  ⟨_, rfl, fun _ => List.cons_ne_nil top stack, rfl, by simp⟩

/-- A line that pushes nothing and has no text. -/
theorem leads_of_plain {log : Line} {pop : Bool} (hσ : σ.Valid) (hpush : invokeCapture log = none)
    (htext : textOf log = none) (hpop : (handleIrrelevantLog P.val log).2 = pop) :
    Leads σ (parseStep R P.val σ log) (if σ.rest = [] then .error .solanaParseLogs
      else .ok (if pop then σ.rest.tail else σ.rest, [])) := by
  cases hrest : σ.rest with
  | nil =>
    rw [parseStep_nil hσ (by rw [Execution.push_of_none hpush, hrest]), if_pos rfl]
    rfl
  | cons top stack =>
    rw [parseStep_plain hσ hpush hrest htext, hpop, hrest, if_neg (List.cons_ne_nil top stack)]
    exact leads_of_ok pop

/-- A printed line. -/
theorem leads_of_print (hσ : σ.Valid) (q : ProgramId) (x : Print) :
    Leads σ (parseStep R P.val σ (x.line q)) (read R P σ.rest (q :: s) (.print x)) := by
  have hpop : ∀ {top : Line} {stack : List Line},
      Leads σ (.ok ⟨top :: stack, (handleIrrelevantLog P.val (x.line q)).2, σ.events⟩)
        (.ok (if LooksLikeEnd P q x then stack else top :: stack, [])) := fun {_ _} => leads_of_ok _
  cases hpush : invokeCapture (x.line q) with
  | some top =>
    rw [parseStep_push hσ hpush (capture_ne hpush P)]
    simp only [read, hpush]
    exact hpop
  | none =>
    cases hrest : σ.rest with
    | nil =>
      rw [parseStep_nil hσ (by rw [Execution.push_of_none hpush, hrest])]
      simp only [read, hpush]
      rfl
    | cons top stack =>
      simp only [read, hpush, readPrint]
      cases htext : x.text with
      | none =>
        rw [parseStep_plain hσ hpush hrest (by rw [textOf_line, htext]), hrest]
        exact hpop
      | some text =>
        by_cases hP : P.val = top
        · subst hP
          rw [parseStep_text hσ hpush hrest (by rw [textOf_line, htext]), hrest]
          simp only [if_true]
          cases R.eventOf text with
          | error err => rfl
          | ok e => exact ⟨_, rfl, fun h => by simp at h, rfl, rfl⟩
        · rw [parseStep_other hσ hpush hrest hP, hrest]
          simp only [if_neg hP]
          exact hpop

/-- The line of an invocation. -/
theorem parseStep_invokeLine (hσ : σ.Valid) (id : ProgramId) (n : ℕ) :
    parseStep R P.val σ (invokeLine id n) = .ok ⟨id.val :: σ.rest, false, σ.events⟩ := by
  have hpush : Execution.push σ.rest (invokeLine id n) = id.val :: σ.rest :=
    Execution.push_of_some (invokeCapture_invokeLine id n)
  rw [parseStep_cons hσ hpush, handleLog, handleProgramLog, textOf_of_plain (plain_invokeLine id n),
    handleIrrelevantLog_invokeLine]
  split_ifs <;> simp [pure, Except.pure, Except.map]

/-- What one line of a log does. -/
theorem parseStep_line (hσ : σ.Valid) (he : (∃ id, e = .invoke id) ∨ s ≠ []) :
    Leads σ (parseStep R P.val σ (e.line s)) (read R P σ.rest s e) := by
  cases e with
  | invoke id =>
    have hline : Entry.line s (.invoke id) = invokeLine id (s.length + 1) := by
      cases s <;> rfl
    rw [hline, parseStep_invokeLine hσ, read_invoke]
    exact leads_of_ok false
  | print x =>
    obtain ⟨q, s', rfl⟩ := List.exists_cons_of_ne_nil (he.resolve_left (by simp))
    exact leads_of_print hσ q x
  | consumed used limit =>
    obtain ⟨q, s', rfl⟩ := List.exists_cons_of_ne_nil (he.resolve_left (by simp))
    exact leads_of_plain hσ (invokeCapture_consumedLine q used limit)
      (textOf_of_plain (plain_consumedLine q used limit))
      (handleIrrelevantLog_consumedLine P.val q used limit)
  | success =>
    obtain ⟨q, s', rfl⟩ := List.exists_cons_of_ne_nil (he.resolve_left (by simp))
    exact leads_of_plain hσ (invokeCapture_successLine q) (textOf_of_plain (plain_successLine q))
      (handleIrrelevantLog_successLine P.val q)

/-- What the lines of a log do. -/
theorem foldlM_lines (hσ : σ.Valid) (hw : WellFormed s es) :
    ((lines s es).foldlM (parseStep R P.val) σ).map ParseState.events =
      (readAll R P σ.rest s es).map (σ.events ++ ·) := by
  induction es generalizing s σ with
  | nil => simp [lines, readAll, pure, Except.pure, Except.map]
  | cons e es ih =>
    obtain ⟨he, hw⟩ := hw
    have hstep := parseStep_line (R := R) (P := P) hσ he
    simp only [lines, List.foldlM_cons, readAll]
    cases hread : read R P σ.rest s e with
    | error err =>
      rw [hread] at hstep
      rw [show parseStep R P.val σ (e.line s) = .error err from hstep]
      rfl
    | ok out =>
      rw [hread] at hstep
      obtain ⟨σ', hσ', hvalid, hrest, hevents⟩ := hstep
      simp only [hσ', bind, Except.bind]
      rw [ih hvalid hw, hrest, hevents]
      cases readAll R P out.1 (e.next s) es with
      | error err => rfl
      | ok later => simp [pure, Except.pure, Except.map]

/-- The parser, on the log of a successful transaction. -/
theorem parseLogs_lines (hw : WellFormed [] es) :
    parseLogs R (lines [] es) P.val = readAll R P [] [] es := by
  have hvalid : (⟨[], false, []⟩ : ParseState T).Valid := fun h => by simp at h
  have h := foldlM_lines (R := R) (P := P) hvalid hw
  have hid : (readAll R P [] [] es).map (([] : List T) ++ ·) = readAll R P [] [] es := by
    cases readAll R P [] [] es <;> rfl
  rw [← hid]
  exact h ▸ rfl

end Photon
