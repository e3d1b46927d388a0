import Photon.ParseLogs

/-!
# Transaction logs

The log of a successful transaction : calls that nest, with the lines that the programs print
and the lines of the runtime between them (`Entry`, `WellFormed`, `lines`). What a program
prints stands after `Program log: `, `Program data: ` or `Program return: `, the rest of it is
its own choice.

The lines of the runtime are read as they are meant : the line of an invocation pushes the
program that is called, the line of a success ends a call, and the line in between does
neither. None of them has a text. A printed line never pushes a program, since what it pushes
has a colon in it (`capture_ne`).
-/

namespace Photon

/-! ## Logs -/

/-- A program id, in base 58. -/
abbrev ProgramId := { s : Line // ∀ c ∈ s, c.isAlphanum = true }

/-- A line that a program makes the runtime print. -/
inductive Print
  | log (text : Line)
  | data (payload : Line)
  | ret (payload : Line)
  deriving DecidableEq

/-- An entry of a log. -/
inductive Entry
  | invoke (id : ProgramId)
  | print (x : Print)
  | consumed (used limit : ℕ)
  | success
  deriving DecidableEq

def PROGRAM_RETURN : Line := "Program return: ".toList

namespace Print

/-- The line, printed by the program `id`. -/
def line (id : ProgramId) : Print → Line
  | .log text => PROGRAM_LOG ++ text
  | .data payload => PROGRAM_DATA ++ payload
  | .ret payload => PROGRAM_RETURN ++ (id.val ++ ' ' :: payload)

/-- The text of a log or data line. -/
def text : Print → Option Line
  | .log text => some text
  | .data payload => some payload
  | .ret _ => none

/-- The payload of a data line. -/
def payload : Print → Option Line
  | .data payload => some payload
  | _ => none

end Print

def invokeLine (id : ProgramId) (depth : ℕ) : Line :=
  PROGRAM ++ (id.val ++ (INVOKE ++ (' ' :: '[' :: (Nat.toDigits 10 depth ++ [']']))))

def consumedLine (id : ProgramId) (used limit : ℕ) : Line :=
  PROGRAM ++ (id.val ++ ' ' :: ("consumed".toList ++ ' ' :: (Nat.toDigits 10 used ++
    ' ' :: ("of".toList ++ ' ' :: (Nat.toDigits 10 limit ++ " compute units".toList)))))

def successLine (id : ProgramId) : Line :=
  PROGRAM ++ (id.val ++ SUCCESS)

namespace Entry

/-- The calls under way after the entry, the innermost first. -/
def next (s : List ProgramId) : Entry → List ProgramId
  | .invoke id => id :: s
  | .success => s.tail
  | _ => s

/-- The line of the entry, for the calls under way before it. -/
def line : List ProgramId → Entry → Line
  | s, .invoke id => invokeLine id (s.length + 1)
  | id :: _, .print x => x.line id
  | id :: _, .consumed used limit => consumedLine id used limit
  | id :: _, .success => successLine id
  | [], _ => []

end Entry

/-- Every entry but an invocation is one of a running program, and every call ends. -/
def WellFormed : List ProgramId → List Entry → Prop
  | s, [] => s = []
  | s, e :: es => ((∃ id, e = .invoke id) ∨ s ≠ []) ∧ WellFormed (e.next s) es

/-- The lines of a log. -/
def lines : List ProgramId → List Entry → List Line
  | _, [] => []
  | s, e :: es => e.line s :: lines (e.next s) es

/-- What an entry prints, and by which program. -/
def Entry.prints : List ProgramId → Entry → List (ProgramId × Print)
  | id :: _, .print x => [(id, x)]
  | _, _ => []

/-- What is printed, and by which program. -/
def prints : List ProgramId → List Entry → List (ProgramId × Print)
  | _, [] => []
  | s, e :: es => e.prints s ++ prints (e.next s) es

/-! ## Lines of the runtime -/

/-- A character of a program id, of a number or of the words of the runtime. -/
def isPlain (c : Char) : Bool :=
  c.isAlphanum || c == ' ' || c == '[' || c == ']'

theorem not_mem_of_plain {l : Line} {c : Char} (hl : l.all isPlain = true)
    (hc : isPlain c = false) : c ∉ l := by
  intro h
  rw [List.all_eq_true.1 hl c h] at hc
  simp at hc

theorem plain_id (id : ProgramId) : id.val.all isPlain = true := by
  refine List.all_eq_true.2 fun c hc => ?_
  simp [isPlain, id.property c hc]

theorem isDigit_of_mem {c : Char} {n : ℕ} (h : c ∈ Nat.toDigits 10 n) : c.isDigit = true :=
  Nat.isDigit_of_mem_toDigits (b := 10) (by decide) (by decide) h

theorem plain_digits (n : ℕ) : (Nat.toDigits 10 n).all isPlain = true := by
  refine List.all_eq_true.2 fun c hc => ?_
  simp [isPlain, Char.isAlphanum, isDigit_of_mem hc]

theorem plain_invokeLine (id : ProgramId) (n : ℕ) : (invokeLine id n).all isPlain = true := by
  have hfix : PROGRAM.all isPlain = true ∧ INVOKE.all isPlain = true := by decide
  simp only [invokeLine, List.all_append, List.all_cons, List.all_nil, hfix, plain_id,
    plain_digits, Bool.true_and]
  decide

theorem plain_consumedLine (id : ProgramId) (used limit : ℕ) :
    (consumedLine id used limit).all isPlain = true := by
  have hfix : PROGRAM.all isPlain = true ∧ "consumed".toList.all isPlain = true ∧
      "of".toList.all isPlain = true ∧ " compute units".toList.all isPlain = true := by
    decide
  simp only [consumedLine, List.all_append, List.all_cons, hfix, plain_id, plain_digits,
    Bool.true_and]
  decide

theorem plain_successLine (id : ProgramId) : (successLine id).all isPlain = true := by
  have hfix : PROGRAM.all isPlain = true ∧ SUCCESS.all isPlain = true := by decide
  simp only [successLine, List.all_append, hfix, plain_id, Bool.true_and]

theorem space_not_mem_id (id : ProgramId) : ' ' ∉ id.val := by
  intro h
  exact absurd (id.property ' ' h) (by decide)

theorem space_not_mem_digits (n : ℕ) : ' ' ∉ Nat.toDigits 10 n := by
  intro h
  exact absurd (isDigit_of_mem h) (by decide)

theorem before_invoke_append {s : Line} (hs : ' ' ∉ s) (t : Line) :
    Text.before INVOKE (s ++ t) = (Text.before INVOKE t).map (s ++ ·) :=
  Text.before_append (p := "invoke".toList) hs t

theorem before_invoke_none {s : Line} (hs : ' ' ∉ s) : Text.before INVOKE s = none :=
  Text.before_eq_none (p := "invoke".toList) hs

/-- A space that is not followed by `invoke`. -/
theorem before_invoke_space {t : Line} (ht : t.head? ≠ some 'i') :
    Text.before INVOKE (' ' :: t) = (Text.before INVOKE t).map (' ' :: ·) := by
  refine Text.before_cons ?_
  rintro ⟨u, hu⟩
  refine ht ?_
  rw [← List.tail_eq_of_cons_eq hu]
  rfl

theorem head_digits_ne (n : ℕ) (t : Line) : (Nat.toDigits 10 n ++ t).head? = some 'i' →
    t.head? = some 'i' := by
  cases hd : Nat.toDigits 10 n with
  | nil => simp
  | cons c d =>
    intro h
    have hi : 'i' ∈ Nat.toDigits 10 n := by
      rw [hd, ← Option.some_inj.1 h]
      simp
    exact absurd (isDigit_of_mem hi) (by decide)

theorem invokeCapture_append {rest : Line} (h : (PROGRAM ++ rest).all isPlain = true) :
    invokeCapture (PROGRAM ++ rest) = Text.before INVOKE rest := by
  rw [invokeCapture, if_neg (not_mem_of_plain h (by decide)), Text.after_append]
  rfl

theorem invokeCapture_invokeLine (id : ProgramId) (n : ℕ) :
    invokeCapture (invokeLine id n) = some id.val := by
  have hend : ' ' ∉ '[' :: (Nat.toDigits 10 n ++ [']']) := by
    simp [space_not_mem_digits n]
  have hnone : Text.before INVOKE
      ("invoke".toList ++ (' ' :: '[' :: (Nat.toDigits 10 n ++ [']']))) = none := by
    rw [before_invoke_append (by decide), before_invoke_space (by simp),
      before_invoke_none hend]
    rfl
  have hself : Text.before INVOKE (INVOKE ++ (' ' :: '[' :: (Nat.toDigits 10 n ++ [']']))) =
      some [] := by
    change Text.before INVOKE (' ' :: ("invoke".toList ++ _)) = _
    rw [Text.before, hnone]
    exact if_pos (List.prefix_append INVOKE _)
  have hplain := plain_invokeLine id n
  rw [invokeLine] at hplain ⊢
  rw [invokeCapture_append hplain, before_invoke_append (space_not_mem_id id), hself]
  simp

theorem invokeCapture_consumedLine (id : ProgramId) (used limit : ℕ) :
    invokeCapture (consumedLine id used limit) = none := by
  have hunits : Text.before INVOKE " compute units".toList = none := by decide
  have hplain := plain_consumedLine id used limit
  rw [consumedLine] at hplain ⊢
  rw [invokeCapture_append hplain, before_invoke_append (space_not_mem_id id),
    before_invoke_space (by simp), before_invoke_append (by decide),
    before_invoke_space fun h => absurd (head_digits_ne used _ h) (by simp),
    before_invoke_append (space_not_mem_digits used), before_invoke_space (by simp),
    before_invoke_append (by decide),
    before_invoke_space fun h => absurd (head_digits_ne limit _ h) (by simp),
    before_invoke_append (space_not_mem_digits limit), hunits]
  rfl

theorem invokeCapture_successLine (id : ProgramId) : invokeCapture (successLine id) = none := by
  have hplain := plain_successLine id
  rw [successLine] at hplain ⊢
  rw [invokeCapture_append hplain, before_invoke_append (space_not_mem_id id)]
  rfl

theorem not_pops_of_not_suffix {self log : Line} (h : ¬SUCCESS <:+ log) :
    (handleIrrelevantLog self log).2 = false := by
  have hnone : endCapture SUCCESS log = none := by
    unfold endCapture
    split_ifs with hnl
    · rfl
    · cases ha : Text.after PROGRAM log with
      | none => rfl
      | some rest =>
        rw [Text.after_eq_some] at ha
        refine if_neg fun hs => h ?_
        rw [ha]
        exact hs.trans (List.suffix_append PROGRAM rest)
  unfold handleIrrelevantLog
  split_ifs
  · rfl
  · cases endCapture INVOKE log with
    | some program => rfl
    | none => rw [hnone]; rfl

theorem handleIrrelevantLog_invokeLine (self : Line) (id : ProgramId) (n : ℕ) :
    (handleIrrelevantLog self (invokeLine id n)).2 = false := by
  refine not_pops_of_not_suffix fun h => ?_
  have hend : [']'] <:+ invokeLine id n := by
    simp only [invokeLine, ← List.append_assoc, ← List.cons_append]
    exact List.suffix_append _ _
  have hno : ¬[']'] <:+ SUCCESS := by decide
  exact hno (List.suffix_of_suffix_length_le hend h (by decide))

theorem handleIrrelevantLog_consumedLine (self : Line) (id : ProgramId) (used limit : ℕ) :
    (handleIrrelevantLog self (consumedLine id used limit)).2 = false := by
  refine not_pops_of_not_suffix fun h => ?_
  have hend : " compute units".toList <:+ consumedLine id used limit := by
    simp only [consumedLine, ← List.append_assoc, ← List.cons_append]
    exact List.suffix_append _ _
  have hno : ¬SUCCESS <:+ " compute units".toList := by decide
  exact hno (List.suffix_of_suffix_length_le h hend (by decide))

theorem handleIrrelevantLog_successLine (self : Line) (id : ProgramId) :
    (handleIrrelevantLog self (successLine id)).2 = true := by
  have hlog : ¬PROGRAM ++ self ++ " log:".toList <+: successLine id := by
    intro h
    have hmem : ':' ∈ PROGRAM ++ self ++ " log:".toList :=
      List.mem_append_right _ (by decide)
    exact not_mem_of_plain (plain_successLine id) (by decide) (h.subset hmem)
  have hnl : '\n' ∉ successLine id := not_mem_of_plain (plain_successLine id) (by decide)
  have hinvoke : ¬INVOKE <:+ id.val ++ SUCCESS := by
    intro h
    have hno : ¬INVOKE <:+ SUCCESS := by decide
    exact hno (List.suffix_of_suffix_length_le h (List.suffix_append _ _) (by decide))
  have hafter : Text.after PROGRAM (successLine id) = some (id.val ++ SUCCESS) :=
    Text.after_append PROGRAM _
  simp only [handleIrrelevantLog, if_neg hlog, endCapture, if_neg hnl, hafter, Option.bind_some,
    if_neg hinvoke, if_pos (List.suffix_append id.val SUCCESS), Option.isSome_some]

/-- A line of the runtime has no text, since it has no colon. -/
theorem textOf_of_plain {log : Line} (h : log.all isPlain = true) : textOf log = none := by
  have hno : ∀ pat : Line, ':' ∈ pat → Text.after pat log = none := by
    intro pat hpat
    rw [Option.eq_none_iff_forall_ne_some]
    intro t ht
    rw [Text.after_eq_some] at ht
    refine not_mem_of_plain (c := ':') h (by decide) ?_
    rw [ht]
    exact List.mem_append_left t hpat
  rw [textOf, hno PROGRAM_LOG (by decide), hno PROGRAM_DATA (by decide)]
  rfl

/-! ## Lines of the programs -/

theorem textOf_line (id : ProgramId) (x : Print) : textOf (x.line id) = x.text := by
  cases x with
  | log text =>
    simp only [textOf, Print.line, Print.text, Text.after_append, Option.some_or]
  | data payload =>
    have hno := Text.after_eq_none PROGRAM_LOG PROGRAM_DATA (by decide) (by decide)
    simp only [textOf, Print.line, Print.text, Text.after_append, hno, Option.none_or]
  | ret payload =>
    have hlog := Text.after_eq_none PROGRAM_LOG PROGRAM_RETURN (by decide) (by decide)
    have hdata := Text.after_eq_none PROGRAM_DATA PROGRAM_RETURN (by decide) (by decide)
    simp only [textOf, Print.line, Print.text, hlog, hdata, Option.none_or]

/-- What a printed line begins with, after `Program `. -/
theorem line_eq (id : ProgramId) (x : Print) :
    ∃ word rest, x.line id = PROGRAM ++ (word ++ rest) ∧ ':' ∈ word ∧ ' ' ∉ word := by
  cases x with
  | log text => exact ⟨"log:".toList, ' ' :: text, rfl, by decide, by decide⟩
  | data payload => exact ⟨"data:".toList, ' ' :: payload, rfl, by decide, by decide⟩
  | ret payload =>
    exact ⟨"return:".toList, ' ' :: (id.val ++ ' ' :: payload), rfl, by decide, by decide⟩

/-- A printed line does not push a program. -/
theorem capture_ne {id : ProgramId} {x : Print} {top : Line}
    (h : invokeCapture (x.line id) = some top) (P : ProgramId) : P.val ≠ top := by
  rintro rfl
  obtain ⟨word, rest, hline, hcolon, hspace⟩ := line_eq id x
  have hbefore : Text.before INVOKE (word ++ rest) = some P.val := by
    unfold invokeCapture at h
    split_ifs at h
    rwa [hline, Text.after_append] at h
  have hp : P.val ++ INVOKE <+: word ++ rest := Text.prefix_of_before hbefore
  have hw : word <+: word ++ rest := List.prefix_append word rest
  -- the group and the word are prefixes of one text, so one is a prefix of the other
  rcases le_total word.length (P.val ++ INVOKE).length with hle | hle
  · have hmem : ':' ∈ P.val ++ INVOKE := (List.prefix_of_prefix_length_le hw hp hle).subset hcolon
    rcases List.mem_append.1 hmem with hid | hinv
    · exact not_mem_of_plain (plain_id P) (by decide) hid
    · exact absurd hinv (by decide)
  · have hmem : ' ' ∈ P.val ++ INVOKE := List.mem_append_right _ (by decide)
    exact hspace ((List.prefix_of_prefix_length_le hp hw hle).subset hmem)

end Photon
