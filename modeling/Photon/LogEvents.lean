import Photon.Accounts
import Photon.Borsh
import Photon.LogReader

/-!
# Events and the programs that emit them

A printed line that looks like the start of a call only leaves a program on the parser's stack
after it has returned, and the lines of its caller are then taken for its own. One that looks
like an end only takes a program off too early. The stack is then too short, stays so, and the
log is given up before its end (`readAll_short`). One that looks like both does no harm.

So no event is forged exactly when the programs print no line of the first kind, or no other
program prints an event (`no_forgery_iff`), and none is lost exactly when the other programs
print no line of the first two kinds (`no_loss_iff`).
-/

open scoped List

namespace Photon

/-! ## The listener of proposals -/

namespace Listener

open Borsh Borsh.Codec in
def codec : Codec ProposeEvent :=
  (bytes.pair (u64.pair (u128.pair (bytes.pair (bytes.pair bytes))))).map
    (fun (id, nonce, chain, address, selector, params) =>
      ⟨id, nonce, chain, address, selector, params⟩)
    (fun e => (e.protocolId, e.nonce, e.dstChainId, e.protocolAddress, e.functionSelector,
      e.params))
    fun _ => rfl

/-- The payload of an event of the program `onefunc`. -/
def payload : Line :=
  ("8vb9LnW1kqUgAAAAb25lZnVuY19fX19fX19fX19fX19fX19fX19fX19fX18IAAAAAAAAAG2BAAAAAAAAAAAAAAAA" ++
    "AAADAAAAAQIDAwAAAAECAwMAAAABAgM=").toList

def event : ProposeEvent where
  protocolId := asBytes "onefunc_________________________"
  nonce := 8
  dstChainId := 33133
  protocolAddress := [1, 2, 3]
  functionSelector := [1, 2, 3]
  params := [1, 2, 3]

def discriminator : Bytes := [0xf2, 0xf6, 0xfd, 0x2e, 0x75, 0xb5, 0x92, 0xa5]

/-- A listener that decodes the one payload. The other texts of the logs below have a blank or
a colon in them, and are no base 64. -/
def reader : EventReader ProposeEvent where
  base64Decode text :=
    if text = payload then (codec.encode event).map (discriminator ++ ·) else none
  discriminator := discriminator
  deserialize bytes := (codec.decode bytes).map Prod.fst

def photon : ProgramId :=
  ⟨"pccm961CjaR7T7Hcht9omrXQb9w54ntJo95FFT7N9AJ".toList, List.all_eq_true.1 (by decide)⟩

def onefunc : ProgramId :=
  ⟨"EjpcUpcuJV2Mq9vjELMZHhgpvJ4ggoWtUYCTFqw6D9CZ".toList, List.all_eq_true.1 (by decide)⟩

def executor : ProgramId :=
  ⟨"3cAFEXstVzff2dXH8PFMgm81h8sQgpdskFGZqqoDgQkJ".toList, List.all_eq_true.1 (by decide)⟩

/-- A log in which `executor` calls `photon`, which calls `onefunc`. When they have returned,
`executor` prints the event. -/
def forgery : List Entry :=
  [.invoke executor, .invoke photon, .invoke onefunc,
    .print (.log "Share message invoked".toList), .success, .success,
    .print (.data payload), .success]

/-- A log in which `onefunc` calls `photon`, which emits the event. -/
def proposal : List Entry :=
  [.invoke onefunc, .print (.log "Share message success".toList), .invoke photon,
    .print (.log "Instruction: Propose".toList), .print (.data payload), .success, .success]

theorem eventOf_payload : reader.eventOf payload = .ok (some event) := by
  decide +kernel

end Listener

/-! ## Events and their program -/

variable {T : Type} (R : EventReader T) (P : ProgramId)

/-- The event in a text, if it has one. -/
def EventReader.found (text : Option Line) : List T :=
  match text.map R.eventOf with
  | some (.ok (some e)) => [e]
  | _ => []

/-- The events in the lines that `P` is seen to print, of the kinds that `f` selects. -/
def eventsIn (f : Print → Option Line) (printed : List (ProgramId × Print)) : List T :=
  printed.flatMap fun (q, x) => if q = P then R.found (f x) else []

/-- The events that `P` prints in a log. -/
def eventsOf (f : Print → Option Line) (s : List ProgramId) (es : List Entry) : List T :=
  eventsIn R P f (prints s es)

variable {R P} {s : List ProgramId} {e : Entry} {es : List Entry} {f : Print → Option Line}
  {found l : List T} {stack stack' : List Line}

theorem eventsOf_cons : eventsOf R P f s (e :: es) =
    eventsIn R P f (e.prints s) ++ eventsOf R P f (e.next s) es := by
  simp [eventsOf, eventsIn, prints]

theorem eventsIn_singleton {q : ProgramId} {x : Print} :
    eventsIn R P f [(q, x)] = if q = P then R.found (f x) else [] := by
  simp [eventsIn]

theorem readAll_cons_eq_ok : readAll R P stack s (e :: es) = .ok l ↔
    ∃ stack' found later, read R P stack s e = .ok (stack', found) ∧
      readAll R P stack' (e.next s) es = .ok later ∧ found ++ later = l := by
  simp [readAll]

/-! ## No forged events -/

/-- A line that carries an event and pushes nothing. -/
def Carries (R : EventReader T) (q : ProgramId) (x : Print) : Prop :=
  invokeCapture (x.line q) = none ∧ R.found x.text ≠ []

theorem found_of_eventOf {text : Line} {o : Option T} (h : R.eventOf text = .ok o) :
    R.found (some text) = o.toList := by
  cases o <;> simp [EventReader.found, h]

/-- What a printed line does : it pushes, or it is read with `P` on top, or it is passed over. -/
theorem read_print_cases {q : ProgramId} {x : Print}
    (h : read R P stack (q :: s) (.print x) = .ok (stack', found)) :
    (∃ top, invokeCapture (x.line q) = some top ∧ found = [] ∧
      stack' = if LooksLikeEnd P q x then stack else top :: stack) ∨
    (invokeCapture (x.line q) = none ∧ found = R.found x.text ∧ stack' = stack ∧
      ∃ rest, stack = P.val :: rest) ∨
    (invokeCapture (x.line q) = none ∧ found = [] ∧
      ∃ top rest, stack = top :: rest ∧ stack' = if LooksLikeEnd P q x then rest else stack) := by
  simp only [read] at h
  cases hpush : invokeCapture (x.line q) with
  | some top =>
    simp only [hpush, Except.ok.injEq, Prod.mk.injEq] at h
    exact .inl ⟨top, rfl, h.2.symm, h.1.symm⟩
  | none =>
    refine .inr ?_
    cases stack with
    | nil => simp [hpush] at h
    | cons top rest =>
      simp only [hpush, readPrint] at h
      split at h
      · rename_i text htext
        by_cases hP : P.val = top
        · rw [if_pos hP] at h
          cases he : R.eventOf text with
          | error err => simp [he, Except.map] at h
          | ok o =>
            simp only [he, Except.map, Except.ok.injEq, Prod.mk.injEq] at h
            refine .inl ⟨rfl, ?_, h.1.symm, rest, by rw [hP]⟩
            rw [htext, found_of_eventOf he, h.2]
        · simp only [if_neg hP, Except.ok.injEq, Prod.mk.injEq] at h
          exact .inr ⟨rfl, h.2.symm, top, rest, rfl, h.1.symm⟩
      · simp only [Except.ok.injEq, Prod.mk.injEq] at h
        exact .inr ⟨rfl, h.2.symm, top, rest, rfl, h.1.symm⟩

/-- What an entry does that prints nothing. -/
theorem read_other_cases (hno : e.prints s = [])
    (h : read R P stack s e = .ok (stack', found)) : found = [] ∧
      ((∃ id, e = .invoke id ∧ stack' = id.val :: stack) ∨ (e.next s = s ∧ stack' = stack) ∨
        (e = .success ∧ stack ≠ [] ∧ stack' = stack.tail)) := by
  cases e with
  | invoke id =>
    simp only [read, Except.ok.injEq, Prod.mk.injEq] at h
    exact ⟨h.2.symm, .inl ⟨id, rfl, h.1.symm⟩⟩
  | print x =>
    cases s with
    | nil => simp [read] at h
    | cons q s => simp [Entry.prints] at hno
  | consumed used limit =>
    cases s with
    | nil => simp [read] at h
    | cons q s =>
      simp only [read] at h
      split_ifs at h with hstack
      simp only [Except.ok.injEq, Prod.mk.injEq] at h
      exact ⟨h.2.symm, .inr (.inl ⟨rfl, h.1.symm⟩)⟩
  | success =>
    cases s with
    | nil => simp [read] at h
    | cons q s =>
      simp only [read] at h
      split_ifs at h with hstack
      simp only [Except.ok.injEq, Prod.mk.injEq] at h
      exact ⟨h.2.symm, .inr (.inr ⟨rfl, hstack, h.1.symm⟩)⟩

theorem prints_cases (s : List ProgramId) (e : Entry) :
    e.prints s = [] ∨ ∃ q s' x, s = q :: s' ∧ e = .print x := by
  cases s with
  | nil => exact .inl (by cases e <;> rfl)
  | cons q s' =>
    cases e with
    | print x => exact .inr ⟨q, s', x, rfl, rfl⟩
    | _ => exact .inl rfl

/-- An event is found only in a line that carries it, with `P` on top. -/
theorem read_found (h : read R P stack s e = .ok (stack', found)) :
    found = [] ∨ ∃ q x rest, e.prints s = [(q, x)] ∧ stack = P.val :: rest ∧ Carries R q x ∧
      found = R.found x.text := by
  rcases prints_cases s e with hno | ⟨q, s', x, rfl, rfl⟩
  · exact .inl (read_other_cases hno h).1
  rcases read_print_cases h with ⟨-, -, hf, -⟩ | ⟨hpush, hf, -, rest, hstack⟩ | ⟨-, hf, -⟩
  · exact .inl hf
  · by_cases hnil : R.found x.text = []
    · exact .inl (hf.trans hnil)
    · exact .inr ⟨q, x, rest, rfl, hstack, ⟨hpush, hnil⟩, hf⟩
  · exact .inl hf

/-- Every line that looks like the start of a call looks like its end too. -/
def Closed (P : ProgramId) (printed : List (ProgramId × Print)) : Prop :=
  ∀ q x, (q, x) ∈ printed → LooksLikeStart q x → LooksLikeEnd P q x

theorem Closed.head (h : Closed P (prints s (e :: es))) : Closed P (e.prints s) :=
  fun q x hx => h q x (List.mem_append_left _ hx)

theorem Closed.tail (h : Closed P (prints s (e :: es))) : Closed P (prints (e.next s) es) :=
  fun q x hx => h q x (List.mem_append_right _ hx)

/-- A stack that is too short stays so. -/
theorem read_short (hno : Closed P (e.prints s)) (h : read R P stack s e = .ok (stack', found))
    (hlt : stack.length < s.length) : stack'.length < (e.next s).length := by
  rcases prints_cases s e with hnone | ⟨q, s', x, rfl, rfl⟩
  · rcases (read_other_cases hnone h).2 with ⟨id, rfl, rfl⟩ | ⟨hnext, rfl⟩ | ⟨rfl, hne, rfl⟩
    · simpa [Entry.next] using hlt
    · rwa [hnext]
    · have hpos : 0 < stack.length := List.length_pos_iff.2 hne
      simp only [Entry.next, List.length_tail]
      omega
  · change stack'.length < (q :: s').length
    rcases read_print_cases h with ⟨top, hpush, -, rfl⟩ | ⟨-, -, rfl, -⟩ |
      ⟨-, -, top, rest, rfl, rfl⟩
    · rwa [if_pos (hno q x (by simp [Entry.prints]) (by simp [LooksLikeStart, hpush]))]
    · exact hlt
    · split_ifs
      · exact (Nat.lt_succ_self _).trans hlt
      · exact hlt

theorem readAll_short (hno : Closed P (prints s es)) (hw : WellFormed s es)
    (hlt : stack.length < s.length) : readAll R P stack s es ≠ .ok l := by
  induction es generalizing s stack l with
  | nil =>
    rw [show s = [] from hw] at hlt
    simp at hlt
  | cons e es ih =>
    intro h
    obtain ⟨stack', found, later, hread, hlater, -⟩ := readAll_cons_eq_ok.1 h
    exact ih hno.tail hw.2 (read_short hno.head hread hlt) hlater

/-- A stack that is right stays so, or becomes too short. -/
theorem read_sync (hno : Closed P (e.prints s))
    (h : read R P (s.map (·.val)) s e = .ok (stack', found)) :
    stack' = (e.next s).map (·.val) ∨ stack'.length < (e.next s).length := by
  rcases prints_cases s e with hnone | ⟨q, s', x, rfl, rfl⟩
  · refine .inl ?_
    rcases (read_other_cases hnone h).2 with ⟨id, rfl, rfl⟩ | ⟨hnext, rfl⟩ | ⟨rfl, -, rfl⟩
    · rfl
    · rw [hnext]
    · simp [Entry.next]
  · change stack' = (q :: s').map (·.val) ∨ stack'.length < (q :: s').length
    rcases read_print_cases h with ⟨top, hpush, -, rfl⟩ | ⟨-, -, rfl, -⟩ |
      ⟨-, -, top, rest, hstack, rfl⟩
    · refine .inl (if_pos (hno q x ?_ ?_))
      · simp [Entry.prints]
      · simp [LooksLikeStart, hpush]
    · exact .inl rfl
    · split_ifs
      · refine .inr ?_
        rw [← (List.cons.inj hstack).2, List.length_map]
        exact Nat.lt_succ_self _
      · exact .inl rfl

/-- What is found stands in a line of `P`, if only `P` carries events here or if the stack is
right. -/
theorem read_sublist (h : read R P stack s e = .ok (stack', found))
    (howner : ∀ q x, (q, x) ∈ e.prints s → Carries R q x → P.val :: stack.tail = stack → q = P) :
    found <+ eventsIn R P Print.text (e.prints s) := by
  rcases read_found h with rfl | ⟨q, x, rest, hprints, rfl, hcarries, rfl⟩
  · exact List.nil_sublist _
  · have hq : q = P := howner q x (by simp [hprints]) hcarries rfl
    rw [hprints, eventsIn_singleton, if_pos hq]

theorem readAll_sublist_of_closed (hno : Closed P (prints s es)) (hw : WellFormed s es)
    (h : readAll R P (s.map (·.val)) s es = .ok l) : l <+ eventsOf R P Print.text s es := by
  induction es generalizing s l with
  | nil =>
    simp only [readAll, Except.ok.injEq] at h
    rw [← h]
    exact List.nil_sublist _
  | cons e es ih =>
    obtain ⟨stack', found, later, hread, hlater, rfl⟩ := readAll_cons_eq_ok.1 h
    have hfound : found <+ eventsIn R P Print.text (e.prints s) := by
      refine read_sublist hread ?_
      intro q x hx _ hstack
      cases s with
      | nil => simp at hstack
      | cons q' s =>
        cases e with
        | print y =>
          obtain ⟨rfl, rfl⟩ : q = q' ∧ x = y := by simpa [Entry.prints] using hx
          exact Subtype.ext (List.cons.inj hstack).1.symm
        | _ => simp [Entry.prints] at hx
    rw [eventsOf_cons]
    rcases read_sync hno.head hread with rfl | hlt
    · exact hfound.append (ih hno.tail hw.2 hlater)
    · exact absurd hlater (readAll_short hno.tail hw.2 hlt)

theorem readAll_sublist_of_owner (howner : ∀ q x, (q, x) ∈ prints s es → Carries R q x → q = P)
    (h : readAll R P stack s es = .ok l) : l <+ eventsOf R P Print.text s es := by
  induction es generalizing s stack l with
  | nil =>
    simp only [readAll, Except.ok.injEq] at h
    rw [← h]
    exact List.nil_sublist _
  | cons e es ih =>
    obtain ⟨stack', found, later, hread, hlater, rfl⟩ := readAll_cons_eq_ok.1 h
    rw [eventsOf_cons]
    refine List.Sublist.append (read_sublist hread ?_) (ih ?_ hlater)
    · exact fun q x hx hc _ => howner q x (List.mem_append_left _ hx) hc
    · exact fun q x hx => howner q x (List.mem_append_right _ hx)

/-- Whatever the programs print of the lines `V`, the events that the parser returns for `P` are
in lines printed while `P` was the innermost program, in the order of these lines. -/
def NoForgery (R : EventReader T) (P : ProgramId) (V : ProgramId → Print → Prop) : Prop :=
  ∀ es, WellFormed [] es → (∀ q x, (q, x) ∈ prints [] es → V q x) →
    ∀ events, parseLogs R (lines [] es) P.val = .ok events →
      events <+ eventsOf R P Print.text [] es

/-- The log of a program `A` that calls `P`, which calls `q`, and then prints `x` twice. -/
def forgedLog (A P q : ProgramId) (y x : Print) : List Entry :=
  [.invoke A, .invoke P, .invoke q, .print y, .success, .success, .print x, .print x, .success]

theorem read_carried {A : ProgramId} {x : Print} (hx : Carries R A x) (stack : List Line)
    (s : List ProgramId) :
    read R P (P.val :: stack) (A :: s) (.print x) = .ok (P.val :: stack, R.found x.text) := by
  obtain ⟨hpush, hfound⟩ := hx
  simp only [read, hpush, readPrint]
  cases htext : x.text with
  | none => simp [htext, EventReader.found] at hfound
  | some text =>
    cases he : R.eventOf text with
    | error err => simp [htext, EventReader.found, he] at hfound
    | ok o => simp [he, Except.map, found_of_eventOf he]

theorem read_startOnly {q : ProgramId} {y : Print} (hstart : LooksLikeStart q y)
    (hend : ¬LooksLikeEnd P q y) (stack : List Line) (s : List ProgramId) :
    ∃ top, read R P stack (q :: s) (.print y) = .ok (top :: stack, []) := by
  obtain ⟨top, htop⟩ := Option.isSome_iff_exists.1 hstart
  exact ⟨top, by simp [read, htop, hend]⟩

/-- The line `y` of `q` leaves `P` on the parser's stack when `P` has returned. -/
theorem readAll_forgedLog {A q : ProgramId} {x y : Print} (hstart : LooksLikeStart q y)
    (hend : ¬LooksLikeEnd P q y) (hx : Carries R A x) :
    readAll R P [] [] (forgedLog A P q y x) = .ok (R.found x.text ++ R.found x.text) := by
  obtain ⟨top, htop⟩ := read_startOnly (R := R) hstart hend [q.val, P.val, A.val] [P, A]
  have hcarried := read_carried (P := P) hx [A.val] []
  simp only [forgedLog, readAll, read_invoke, read_success, Entry.next, List.tail_cons, htop,
    hcarried, bind, Except.bind, pure, Except.pure, List.nil_append, List.append_nil]

theorem prints_forgedLog {A q : ProgramId} {x y : Print} :
    prints [] (forgedLog A P q y x) = [(q, y), (A, x), (A, x)] := rfl

theorem wellFormed_forgedLog {A q : ProgramId} {x y : Print} :
    WellFormed [] (forgedLog A P q y x) := by
  simp [forgedLog, WellFormed, Entry.next]

theorem found_length_le (text : Option Line) : (R.found text).length ≤ 1 := by
  unfold EventReader.found
  split <;> simp

/-- No event is forged exactly when no program prints a line that looks like the start of a call
and not like its end, or when no other program prints an event. -/
theorem no_forgery_iff (R : EventReader T) (P : ProgramId) (V : ProgramId → Print → Prop) :
    NoForgery R P V ↔ (∀ q x, V q x → LooksLikeStart q x → LooksLikeEnd P q x) ∨
      ∀ q x, V q x → Carries R q x → q = P := by
  constructor
  · intro h
    by_contra hnot
    push Not at hnot
    obtain ⟨⟨q, y, hVy, hstart, hend⟩, A, x, hVx, hcarries, hne⟩ := hnot
    have hV : ∀ q' x', (q', x') ∈ prints [] (forgedLog A P q y x) → V q' x' := by
      rw [prints_forgedLog]
      rintro q' x' hx'
      simp only [List.mem_cons, List.not_mem_nil, or_false, Prod.mk.injEq] at hx'
      rcases hx' with ⟨rfl, rfl⟩ | ⟨rfl, rfl⟩ | ⟨rfl, rfl⟩ <;> assumption
    have hsub := h _ wellFormed_forgedLog hV _
      ((parseLogs_lines wellFormed_forgedLog).trans (readAll_forgedLog hstart hend hcarries))
    -- the parser returns the event of `x` twice, and `P` prints one event at most, in `y`
    have htwice : 2 ≤ (R.found x.text ++ R.found x.text).length := by
      have hpos : 0 < (R.found x.text).length := List.length_pos_iff.2 hcarries.2
      rw [List.length_append]
      omega
    have honce : (eventsOf R P Print.text [] (forgedLog A P q y x)).length ≤ 1 := by
      have hy := found_length_le (R := R) y.text
      rw [eventsOf, prints_forgedLog]
      simp only [eventsIn, List.flatMap_cons, List.flatMap_nil, if_neg hne, List.append_nil]
      split_ifs
      · exact hy
      · simp
    exact absurd (htwice.trans hsub.length_le) (by omega)
  · intro h es hw hV events hparse
    rw [parseLogs_lines hw] at hparse
    rcases h with hclosed | howner
    · exact readAll_sublist_of_closed (fun q x hx => hclosed q x (hV q x hx)) hw hparse
    · exact readAll_sublist_of_owner (fun q x hx => howner q x (hV q x hx)) hparse

open Listener in
theorem forged_by_executor : WellFormed [] forgery ∧
    parseLogs reader (lines [] forgery) photon.val = .ok [event] ∧
    event ∉ eventsOf reader photon Print.text [] forgery := by
  have hw : WellFormed [] forgery := by simp [forgery, WellFormed, Entry.next]
  refine ⟨hw, ?_⟩
  rw [parseLogs_lines hw]
  decide +kernel

/-! ## No lost events -/

/-- A line of `P` itself that the parser takes for what it is : a message without an event, a
payload that can be read, or a value that does not look like an end. -/
def Sane (R : EventReader T) (P : ProgramId) (x : Print) : Prop :=
  ¬LooksLikeStart P x ∧
    match x with
    | .log text => R.eventOf text = .ok none
    | .data payload => ∃ o, R.eventOf payload = .ok o
    | .ret _ => ¬LooksLikeEnd P P x

theorem Listener.sane_payload : Sane Listener.reader Listener.photon (.data Listener.payload) :=
  ⟨by decide +kernel, some Listener.event, Listener.eventOf_payload⟩

/-- A line of `P` keeps the stack and gives its event. -/
theorem read_sane {x : Print} (hx : Sane R P x) :
    read R P (P.val :: stack) (P :: s) (.print x) =
      .ok (P.val :: stack, eventsIn R P Print.payload [(P, x)]) := by
  obtain ⟨hstart, hx⟩ := hx
  have hpush : invokeCapture (x.line P) = none := by
    simpa [LooksLikeStart] using hstart
  simp only [read, hpush, readPrint, eventsIn_singleton, if_true]
  cases x with
  | log text =>
    have hno : R.eventOf text = .ok none := hx
    simp [Print.text, Print.payload, hno, Except.map, EventReader.found]
  | data payload =>
    obtain ⟨o, ho⟩ : ∃ o, R.eventOf payload = .ok o := hx
    simp [Print.text, Print.payload, ho, Except.map, found_of_eventOf ho]
  | ret payload =>
    have hend : ¬LooksLikeEnd P P (.ret payload) := hx
    simp [Print.text, Print.payload, EventReader.found, hend]

/-- A line that does not push, with another program on top. -/
theorem read_passed {q : ProgramId} {x : Print} {top : Line} (hstart : ¬LooksLikeStart q x)
    (htop : P.val ≠ top) (stack : List Line) (s : List ProgramId) :
    read R P (top :: stack) (q :: s) (.print x) =
      .ok (if LooksLikeEnd P q x then stack else top :: stack, []) := by
  have hpush : invokeCapture (x.line q) = none := by
    simpa [LooksLikeStart] using hstart
  simp only [read, hpush, readPrint, if_neg htop]
  cases x.text <;> rfl

/-- A line of another program keeps the stack, if it looks like a start and an end alike. -/
theorem read_balanced {q : ProgramId} {x : Print} (hq : q ≠ P)
    (hx : LooksLikeStart q x ↔ LooksLikeEnd P q x) :
    read R P (q.val :: stack) (q :: s) (.print x) =
      .ok (q.val :: stack, eventsIn R P Print.payload [(q, x)]) := by
  have hne : P.val ≠ q.val := fun h => hq (Subtype.ext h.symm)
  rw [eventsIn_singleton, if_neg hq]
  by_cases hstart : LooksLikeStart q x
  · obtain ⟨top, hpush⟩ := Option.isSome_iff_exists.1 hstart
    simp only [read, hpush, if_pos (hx.1 hstart)]
  · rw [read_passed hstart hne stack s, if_neg fun hend => hstart (hx.2 hend)]

/-- One entry, read with the right stack. -/
theorem read_complete (he : (∃ id, e = .invoke id) ∨ s ≠ [])
    (hP : ∀ x, (P, x) ∈ e.prints s → Sane R P x)
    (hV : ∀ q x, (q, x) ∈ e.prints s → q ≠ P → (LooksLikeStart q x ↔ LooksLikeEnd P q x)) :
    read R P (s.map (·.val)) s e =
      .ok ((e.next s).map (·.val), eventsIn R P Print.payload (e.prints s)) := by
  cases s with
  | nil =>
    obtain ⟨id, rfl⟩ := he.resolve_right (by simp)
    rfl
  | cons q s =>
    cases e with
    | print x =>
      have hmem : (q, x) ∈ (Entry.print x).prints (q :: s) := by simp [Entry.prints]
      by_cases hq : q = P
      · subst hq
        exact read_sane (hP x hmem)
      · exact read_balanced hq (hV q x hmem hq)
    | _ => rfl

theorem readAll_complete (hw : WellFormed s es) (hP : ∀ x, (P, x) ∈ prints s es → Sane R P x)
    (hV : ∀ q x, (q, x) ∈ prints s es → q ≠ P → (LooksLikeStart q x ↔ LooksLikeEnd P q x)) :
    readAll R P (s.map (·.val)) s es = .ok (eventsOf R P Print.payload s es) := by
  induction es generalizing s with
  | nil => rfl
  | cons e es ih =>
    refine readAll_cons_eq_ok.2 ⟨_, _, _, read_complete hw.1 ?_ ?_, ih hw.2 ?_ ?_,
      eventsOf_cons.symm⟩
    · exact fun x hx => hP x (List.mem_append_left _ hx)
    · exact fun q x hx => hV q x (List.mem_append_left _ hx)
    · exact fun x hx => hP x (List.mem_append_right _ hx)
    · exact fun q x hx => hV q x (List.mem_append_right _ hx)

/-- Whatever the other programs print of the lines `V`, the parser returns the events that `P`
emits, in order and once each. -/
def NoLoss (R : EventReader T) (P : ProgramId) (V : ProgramId → Print → Prop) : Prop :=
  ∀ es, WellFormed [] es → (∀ x, (P, x) ∈ prints [] es → Sane R P x) →
    (∀ q x, (q, x) ∈ prints [] es → q ≠ P → V q x) →
      parseLogs R (lines [] es) P.val = .ok (eventsOf R P Print.payload [] es)

/-- The log of `P` that calls `q` and then prints `x`. -/
def lostLog (P q : ProgramId) (y x : Print) : List Entry :=
  [.invoke P, .invoke q, .print y, .success, .print x, .success]

/-- The log of `q` that prints `y`. -/
def droppedLog (q : ProgramId) (y : Print) : List Entry :=
  [.invoke q, .print y, .success]

/-- The line `y` of `q` leaves `q` on the parser's stack when `q` has returned. -/
theorem readAll_lostLog {q : ProgramId} {x y : Print} (hq : q ≠ P) (hstart : LooksLikeStart q y)
    (hend : ¬LooksLikeEnd P q y) (hx : ¬LooksLikeStart P x) :
    readAll R P [] [] (lostLog P q y x) = .ok [] := by
  have hne : P.val ≠ q.val := fun h => hq (Subtype.ext h.symm)
  obtain ⟨top, htop⟩ := read_startOnly (R := R) hstart hend [q.val, P.val] [P]
  have hpass := read_passed (R := R) hx hne [P.val] []
  simp only [lostLog, readAll, read_invoke, read_success, Entry.next, List.tail_cons, htop, hpass,
    bind, Except.bind, pure, Except.pure, List.append_nil]
  split_ifs <;> rfl

/-- The line `y` of `q` takes `q` off the parser's stack, and there is nothing left to end. -/
theorem readAll_droppedLog {q : ProgramId} {y : Print} (hq : q ≠ P) (hstart : ¬LooksLikeStart q y)
    (hend : LooksLikeEnd P q y) :
    readAll R P [] [] (droppedLog q y) = .error .solanaParseLogs := by
  have hne : P.val ≠ q.val := fun h => hq (Subtype.ext h.symm)
  have hpass := read_passed (R := R) hstart hne [] []
  simp only [droppedLog, readAll, read_invoke, Entry.next, hpass, if_pos hend, bind, Except.bind]
  rfl

/-- No event is lost exactly when a line of another program looks like the start of a call if
and only if it looks like the end of one. -/
theorem no_loss_iff (R : EventReader T) (P : ProgramId) (V : ProgramId → Print → Prop)
    (hemit : ∃ payload, Sane R P (.data payload) ∧ R.found (some payload) ≠ []) :
    NoLoss R P V ↔
      ∀ q x, q ≠ P → V q x → (LooksLikeStart q x ↔ LooksLikeEnd P q x) := by
  constructor
  · intro h q y hq hVy
    constructor
    · intro hstart
      by_contra hend
      obtain ⟨payload, hsane, hfound⟩ := hemit
      have hw : WellFormed [] (lostLog P q y (.data payload)) := by
        simp [lostLog, WellFormed, Entry.next]
      have hprints : prints [] (lostLog P q y (.data payload)) =
          [(q, y), (P, .data payload)] := rfl
      have hV : ∀ q' x', (q', x') ∈ prints [] (lostLog P q y (.data payload)) → q' ≠ P →
          V q' x' := by
        rw [hprints]
        intro q' x' hx' hq'
        simp only [List.mem_cons, List.not_mem_nil, or_false, Prod.mk.injEq] at hx'
        rcases hx' with ⟨rfl, rfl⟩ | ⟨rfl, -⟩
        · exact hVy
        · exact absurd rfl hq'
      have hparse := h _ hw (by simp [hprints, hq.symm, hsane]) hV
      rw [parseLogs_lines hw, readAll_lostLog hq hstart hend hsane.1, eventsOf, hprints] at hparse
      simp only [eventsIn, List.flatMap_cons, List.flatMap_nil, if_neg hq, if_true,
        List.nil_append, List.append_nil, Except.ok.injEq] at hparse
      exact hfound hparse.symm
    · intro hend
      by_contra hstart
      have hw : WellFormed [] (droppedLog q y) := by
        simp [droppedLog, WellFormed, Entry.next]
      have hprints : prints [] (droppedLog q y) = [(q, y)] := rfl
      have hparse := h _ hw (by simp [hprints, hq.symm]) (by simp [hprints, hVy])
      rw [parseLogs_lines hw, readAll_droppedLog hq hstart hend] at hparse
      simp at hparse
  · intro h es hw hP hV
    rw [parseLogs_lines hw]
    exact readAll_complete hw hP fun q x hx hq => h q x hq (hV q x hx hq)

open Listener in
theorem lost_by_onefunc : WellFormed [] proposal ∧
    (∀ x, (photon, x) ∈ prints [] proposal → Sane reader photon x) ∧
    event ∈ eventsOf reader photon Print.payload [] proposal ∧
    parseLogs reader (lines [] proposal) photon.val = .error .solanaParseLogs := by
  have hw : WellFormed [] proposal := by simp [proposal, WellFormed, Entry.next]
  refine ⟨hw, ?_, ?_⟩
  · have hprints : prints [] proposal = [(onefunc, .log "Share message success".toList),
        (photon, .log "Instruction: Propose".toList), (photon, .data payload)] := rfl
    have hne : photon ≠ onefunc := by decide
    rw [hprints]
    intro x hx
    simp only [List.mem_cons, List.not_mem_nil, or_false, Prod.mk.injEq, hne, false_and,
      false_or, true_and] at hx
    rcases hx with rfl | rfl
    · exact ⟨by decide +kernel, by decide +kernel⟩
    · exact sane_payload
  · rw [parseLogs_lines hw]
    decide +kernel

open Listener in
theorem no_loss_instruction :
    NoLoss reader photon fun _ x => x = .log "Instruction: ShareMessage".toList := by
  have hstart : ¬(invokeCapture (PROGRAM_LOG ++ "Instruction: ShareMessage".toList)).isSome := by
    decide +kernel
  have hend : ¬(handleIrrelevantLog photon.val
      (PROGRAM_LOG ++ "Instruction: ShareMessage".toList)).2 = true := by
    decide +kernel
  refine (no_loss_iff reader photon _ ⟨payload, sane_payload, ?_⟩).2 ?_
  · simp [EventReader.found, eventOf_payload]
  · rintro q x - rfl
    exact iff_of_false hstart hend

end Photon
