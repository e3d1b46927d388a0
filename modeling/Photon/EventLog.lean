import Photon.Base64
import Photon.LogEvents

/-!
# The log of the endpoint

An event that the endpoint emits is a data line of the log : base 64 of the eight bytes of its
type and of its fields (`Event.text`). Besides, the endpoint prints the names of its instructions,
the hash of an operation that it executes, and what an instruction returns (`Printed`). The parser
takes all these for what they are (`Printed.sane`).

So `parseLogs_logged` : from the log of a transaction in which the other programs print no line
that looks like only the start or only the end of a call, a listener reads the events of its type
that the endpoint has emitted, in order.
-/

namespace Photon

open Borsh

/-! ## Events as texts -/

/-- What an event of the program begins with. -/
def Event.discriminator : Event → Bytes
  | .proposalLoaded _ _ => [0x5b, 0xc6, 0xa2, 0x02, 0x44, 0x95, 0x3f, 0xee]
  | .proposalApproved _ _ => [0x46, 0x31, 0x9b, 0xe4, 0x9d, 0x2b, 0x58, 0x31]
  | .proposalExecuted _ _ => [0x5c, 0xd5, 0xbd, 0xc9, 0x65, 0x53, 0x6f, 0x53]
  | .propose _ => Listener.discriminator

/-- An event about an operation : its hash and the executor. -/
structure OpEvent where
  opHash : Bytes
  executor : Pubkey

def OpEvent.codec : Codec OpEvent :=
  (Codec.bytes.pair (.array 32)).map (fun (opHash, executor) => ⟨opHash, executor⟩)
    (fun e => (e.opHash, e.executor)) fun _ => rfl

/-- The fields of the event. -/
def Event.body : Event → Option Bytes
  | .proposalLoaded opHash executor => OpEvent.codec.encode ⟨opHash, executor⟩
  | .proposalApproved opHash executor => OpEvent.codec.encode ⟨opHash, executor⟩
  | .proposalExecuted opHash executor => OpEvent.codec.encode ⟨opHash, executor⟩
  | .propose e => Listener.codec.encode e

/-- The payload of the data line. -/
def Event.text (e : Event) : Option Line :=
  e.body.map fun body => Base64.encode (e.discriminator ++ body)

theorem Event.length_discriminator (e : Event) : e.discriminator.length = 8 := by
  cases e <;> rfl

/-! ## Types of events -/

/-- A type of events of the program, as a listener reads it. -/
structure EventType (T : Type) where
  discriminator : Bytes
  codec : Codec T
  /-- The event, if it is of this type. -/
  pick : Event → Option T
  pick_some : ∀ e x, pick e = some x →
    e.discriminator = discriminator ∧ e.body = codec.encode x
  pick_none : ∀ e, pick e = none → e.discriminator ≠ discriminator

namespace EventType

/-- The proposals, for the listener. -/
def propose : EventType ProposeEvent where
  discriminator := Listener.discriminator
  codec := Listener.codec
  pick
    | .propose e => some e
    | _ => none
  pick_some e x h := by
    cases e with
    | propose e =>
      obtain rfl := Option.some_inj.1 h
      exact ⟨rfl, rfl⟩
    | _ => simp at h
  pick_none e h := by
    cases e with
    | propose e => simp at h
    | _ => simp [Event.discriminator, Listener.discriminator]

/-- The operations that are executed, for the watcher. -/
def proposalExecuted : EventType OpEvent where
  discriminator := [0x5c, 0xd5, 0xbd, 0xc9, 0x65, 0x53, 0x6f, 0x53]
  codec := OpEvent.codec
  pick
    | .proposalExecuted opHash executor => some ⟨opHash, executor⟩
    | _ => none
  pick_some e x h := by
    cases e with
    | proposalExecuted opHash executor =>
      obtain rfl := Option.some_inj.1 h
      exact ⟨rfl, rfl⟩
    | _ => simp at h
  pick_none e h := by
    cases e with
    | proposalExecuted opHash executor => simp at h
    | _ => simp [Event.discriminator, Listener.discriminator]

end EventType

/-- What the listeners know of the crate that decodes base 64 : it reads what is encoded, and no
text with a blank in it. -/
structure Base64Decoder where
  decode : Line → Option Bytes
  decode_encode : ∀ bytes, decode (Base64.encode bytes) = some bytes
  decode_blank : ∀ text, ' ' ∈ text → decode text = none

/-- A decoder that wants the padding as it is written. -/
def Base64Decoder.strict : Base64Decoder where
  decode := Base64.decode
  decode_encode := Base64.decode_encode
  decode_blank _ h := Base64.decode_eq_none (by decide +kernel) (by decide) h

section Reader

variable {T : Type} (K : EventType T) (B : Base64Decoder)

/-- A listener for the events of a type. -/
def EventType.reader : EventReader T where
  base64Decode := B.decode
  discriminator := K.discriminator
  deserialize bytes := (K.codec.decode bytes).map Prod.fst

variable {K B}

/-- A text of an event is read, as an event of the type or as none. -/
theorem EventType.eventOf_text {e : Event} {text : Line} (h : e.text = some text) :
    (K.reader B).eventOf text = .ok (K.pick e) := by
  obtain ⟨body, hbody, rfl⟩ := Option.map_eq_some_iff.1 h
  have hlen := e.length_discriminator
  have htake : (e.discriminator ++ body).take 8 = e.discriminator := by
    rw [← hlen, List.take_left]
  have hdrop : (e.discriminator ++ body).drop 8 = body := by
    rw [← hlen, List.drop_left]
  have hlong : ¬(e.discriminator ++ body).length < 8 := by
    rw [List.length_append]
    omega
  simp only [EventReader.eventOf, EventType.reader, B.decode_encode, if_neg hlong, htake, hdrop]
  cases hpick : K.pick e with
  | none => rw [if_neg (K.pick_none e hpick)]
  | some x =>
    obtain ⟨hdisc, hx⟩ := K.pick_some e x hpick
    have hdec := K.codec.decode_encode [] (hx.symm.trans hbody)
    rw [List.append_nil] at hdec
    rw [if_pos hdisc, hdec]
    rfl

/-- A text with a blank has no event. -/
theorem EventType.eventOf_blank {text : Line} (h : ' ' ∈ text) :
    (K.reader B).eventOf text = .ok none := by
  simp only [EventReader.eventOf, EventType.reader, B.decode_blank text h]

end Reader

/-! ## What the endpoint prints -/

def hexDigit (n : ℕ) : Char :=
  "0123456789abcdef".toList.getD n '0'

/-- Two digits for each byte. -/
def hex (bytes : Bytes) : Line :=
  bytes.flatMap fun b => [hexDigit (b.toNat / 16), hexDigit (b.toNat % 16)]

/-- A line that the endpoint prints in a transaction that succeeds. -/
inductive Printed : Print → Prop
  /-- The name of an instruction, in upper camel case. -/
  | instruction {name : Line} (hname : ∀ c ∈ name, c.isAlphanum = true)
      (hcase : name.head? ≠ some 'i') : Printed (.log ("Instruction: ".toList ++ name))
  | opHash (opHash : Bytes) : Printed (.log ("op_hash: ".toList ++ hex opHash))
  | event {e : Event} {text : Line} (htext : e.text = some text) : Printed (.data text)
  | returned (b : Bool) : Printed (.ret (Base64.encode [if b then 1 else 0]))

/-- Words with single blanks between them, none of which but the first begins with an `i`. -/
theorem before_invoke_words {word : Line} (words : List Line) (hword : ' ' ∉ word)
    (hwords : ∀ w ∈ words, ' ' ∉ w ∧ w.head? ≠ some 'i') :
    Text.before INVOKE (word ++ words.flatMap (' ' :: ·)) = none := by
  induction words generalizing word with
  | nil => simpa using before_invoke_none hword
  | cons w words ih =>
    obtain ⟨⟨hblank, hhead⟩, hrest⟩ := List.forall_mem_cons.1 hwords
    have hne : (w ++ words.flatMap (' ' :: ·)).head? ≠ some 'i' := by
      cases w with
      | nil => cases words <;> simp
      | cons c w => simpa using hhead
    rw [before_invoke_append hword, List.flatMap_cons, List.cons_append,
      before_invoke_space hne, ih hblank hrest]
    rfl

/-- A line of such words does not look like the start of a call. -/
theorem not_looksLikeStart {q : ProgramId} {x : Print} (word : Line) (words : List Line)
    (hline : x.line q = PROGRAM ++ (word ++ words.flatMap (' ' :: ·))) (hword : ' ' ∉ word)
    (hwords : ∀ w ∈ words, ' ' ∉ w ∧ w.head? ≠ some 'i') : ¬LooksLikeStart q x := by
  have hnone : invokeCapture (x.line q) = none := by
    unfold invokeCapture
    split_ifs
    · rfl
    · rw [hline, Text.after_append]
      exact before_invoke_words words hword hwords
  simp [LooksLikeStart, hnone]

theorem not_mem_of_alphanum {name : Line} (hname : ∀ c ∈ name, c.isAlphanum = true) :
    ' ' ∉ name := fun h => absurd (hname ' ' h) (by decide)

theorem hexDigit_ne (n : ℕ) : hexDigit n ≠ ' ' ∧ hexDigit n ≠ 'i' := by
  have hall : ('0' :: "0123456789abcdef".toList).all (fun c => c ≠ ' ' ∧ c ≠ 'i') = true := by
    decide
  refine of_decide_eq_true (List.all_eq_true.1 hall _ ?_)
  rw [hexDigit, List.getD_eq_getElem?_getD]
  cases h : "0123456789abcdef".toList[n]? with
  | none => exact List.mem_cons_self
  | some c => exact List.mem_cons_of_mem _ (List.mem_of_getElem? h)

theorem mem_hex {bytes : Bytes} {c : Char} (h : c ∈ hex bytes) : ∃ n, c = hexDigit n := by
  obtain ⟨b, -, hc⟩ := List.mem_flatMap.1 h
  rcases List.mem_cons.1 hc with rfl | hc
  · exact ⟨_, rfl⟩
  · exact ⟨_, List.mem_singleton.1 hc⟩

theorem blank_not_mem_base64 (bytes : Bytes) : ' ' ∉ Base64.encode bytes := by
  intro h
  have hno : ' ' ∉ Base64.alphabet := by decide +kernel
  exact (Base64.mem_encode ' ' h).elim hno (by decide)

/-- The text of an event does not begin with an `i`. -/
theorem Event.head_text {e : Event} {text : Line} (h : e.text = some text) :
    text.head? ≠ some 'i' := by
  obtain ⟨body, -, rfl⟩ := Option.map_eq_some_iff.1 h
  cases e <;> simp [discriminator, Listener.discriminator, Base64.encode, Base64.char] <;> decide

/-- What an instruction returns looks neither like the start of a call nor like the end of one. -/
theorem returned_plain (b : Bool) :
    ¬LooksLikeStart Listener.photon (.ret (Base64.encode [if b then 1 else 0])) ∧
      ¬LooksLikeEnd Listener.photon Listener.photon
        (.ret (Base64.encode [if b then 1 else 0])) := by
  revert b
  decide +kernel

section Sane

variable {T : Type} {K : EventType T} {B : Base64Decoder}

/-- The parser takes what the endpoint prints for what it is. -/
theorem Printed.sane {x : Print} (hx : Printed x) : Sane (K.reader B) Listener.photon x := by
  cases hx with
  | @instruction name hname hcase =>
    refine ⟨not_looksLikeStart "log:".toList ["Instruction:".toList, name] ?_ (by decide) ?_,
      EventType.eventOf_blank (List.mem_append_left _ (by decide))⟩
    · simp only [List.flatMap_cons, List.flatMap_nil, List.append_nil]
      rfl
    · rw [List.forall_mem_cons, List.forall_mem_singleton]
      exact ⟨by decide, not_mem_of_alphanum hname, hcase⟩
  | opHash opHash =>
    refine ⟨not_looksLikeStart "log:".toList ["op_hash:".toList, hex opHash] ?_ (by decide) ?_,
      EventType.eventOf_blank (List.mem_append_left _ (by decide))⟩
    · simp only [List.flatMap_cons, List.flatMap_nil, List.append_nil]
      rfl
    · rw [List.forall_mem_cons, List.forall_mem_singleton]
      refine ⟨by decide, fun h => ?_, fun h => ?_⟩
      · obtain ⟨n, hn⟩ := mem_hex h
        exact (hexDigit_ne n).1 hn.symm
      · obtain ⟨n, hn⟩ := mem_hex (List.mem_of_head? h)
        exact (hexDigit_ne n).2 hn.symm
  | @event e text htext =>
    refine ⟨not_looksLikeStart "data:".toList [text] ?_ (by decide) ?_, _,
      EventType.eventOf_text htext⟩
    · simp only [List.flatMap_cons, List.flatMap_nil, List.append_nil]
      rfl
    · have hhead := Event.head_text htext
      obtain ⟨body, -, rfl⟩ := Option.map_eq_some_iff.1 htext
      rw [List.forall_mem_singleton]
      exact ⟨blank_not_mem_base64 _, hhead⟩
  | returned b => exact returned_plain b

end Sane

/-! ## The log of a transaction -/

/-- The events among what is put out. -/
def emitted (out : List Effect) : List Event :=
  out.filterMap fun
    | .emit e => some e
    | _ => none

/-- The data that the endpoint prints, of the lines of some programs. -/
def payloads (printed : List (ProgramId × Print)) : List Line :=
  printed.filterMap fun (q, x) => if q = Listener.photon then x.payload else none

/-- The log of a transaction that succeeds, in which the endpoint puts out `out`. -/
structure Logged (log : List Entry) (out : List Effect) : Prop where
  wellFormed : WellFormed [] log
  own : ∀ x, (Listener.photon, x) ∈ prints [] log → Printed x
  /-- The data lines of the endpoint are the events that it emits. -/
  data : (payloads (prints [] log)).map some = (emitted out).map Event.text
  /-- No line of another program looks like only the start or only the end of a call. -/
  others : ∀ q x, (q, x) ∈ prints [] log → q ≠ Listener.photon →
    (LooksLikeStart q x ↔ LooksLikeEnd Listener.photon q x)

section Parse

variable {T : Type} {K : EventType T} {B : Base64Decoder} {R : EventReader T}

theorem eventsIn_eq (printed : List (ProgramId × Print)) :
    eventsIn R Listener.photon Print.payload printed =
      (payloads printed).flatMap fun text => R.found (some text) := by
  induction printed with
  | nil => rfl
  | cons line printed ih =>
    obtain ⟨q, x⟩ := line
    simp only [eventsIn, payloads, List.flatMap_cons, List.filterMap_cons] at ih ⊢
    have hnone : R.found none = [] := rfl
    by_cases hq : q = Listener.photon
    · cases x.payload with
      | none => simp [hq, ih, hnone]
      | some text => simp [hq, ih]
    · simp [hq, ih]

/-- The texts of events are read as the events of the type, in order. -/
theorem found_of_texts {texts : List Line} {events : List Event}
    (h : texts.map some = events.map Event.text) :
    (texts.flatMap fun text => (K.reader B).found (some text)) = events.filterMap K.pick := by
  induction events generalizing texts with
  | nil =>
    obtain rfl : texts = [] := by simpa using h
    rfl
  | cons e events ih =>
    cases texts with
    | nil => simp at h
    | cons text texts =>
      obtain ⟨htext, hrest⟩ := List.cons.inj h
      have hfound := found_of_eventOf (EventType.eventOf_text (K := K) (B := B) htext.symm)
      rw [List.flatMap_cons, hfound, ih hrest, List.filterMap_cons]
      cases K.pick e <;> rfl

/-- A listener reads the events of its type that the endpoint has emitted, in order. -/
theorem parseLogs_logged (K : EventType T) (B : Base64Decoder) {log : List Entry}
    {out : List Effect} (h : Logged log out) :
    parseLogs (K.reader B) (lines [] log) Listener.photon.val =
      .ok ((emitted out).filterMap K.pick) := by
  have hread := readAll_complete (R := K.reader B) h.wellFormed
    (fun x hx => (h.own x hx).sane) h.others
  rw [parseLogs_lines h.wellFormed]
  refine hread.trans (congrArg Except.ok ?_)
  rw [eventsOf, eventsIn_eq, found_of_texts h.data]

end Parse

end Photon
