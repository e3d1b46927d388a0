import Photon.Executor

/-!
# Runs of the registry

What the registry answers over a whole run, with acknowledgements in any order and the clock going
on between them.

An operation that was registered as new and has not been reported since is under way in the
registry (`Watched.Inv`). So when the registry gives a block, every operation registered up to it
has been reported after it was last registered, and the block is the highest for which all entries
up to it are done (`getBlockToAck_safe`).

The blocks that are handed over to be stored do not always increase : an acknowledgement makes an
entry for its block also if a higher one has been handed over. They do as long as no acknowledgement
is for a block below one that was handed over (`watermark_monotone`).
-/

namespace Photon

/-- A block that is given is one that the registry knew, and is below what it knows then. -/
theorem OpRegistry.lt_of_getBlockToAck {r : OpRegistry} {now b : ℕ}
    (hb : (r.getBlockToAck now).1 = some b) :
    (∃ blockInfo, r.knownOps.get? b = some blockInfo) ∧
      ∀ block blockInfo, (r.getBlockToAck now).2.knownOps.get? block = some blockInfo →
        b < block := by
  have hready := (OpRegistry.getBlockToAck_isGreatest.1 hb).1
  refine ⟨hready.1, fun block blockInfo hget => ?_⟩
  obtain ⟨hget, hnot⟩ := OrdMap.get?_popWhile.1 hget
  by_contra hle
  -- all entries up to `b` are done, so also those up to `block`
  exact hnot ⟨⟨blockInfo, hget⟩, fun k v hk => hready.2 k v (hk.trans (not_lt.1 hle))⟩

/-! ## Any acknowledgements -/

/-- A registry on its own, with a clock and the acknowledgements it has taken. -/
structure Watched where
  clock : ℕ
  registry : OpRegistry
  acks : List OpAcknowledge

/-- A call on the registry, or the passing of time. -/
inductive RegistryCall
  | onAcknowledge (a : OpAcknowledge)
  | getBlockToAck
  | pass (time : ℕ)

namespace Watched

def step (s : Watched) : RegistryCall → Watched × List ℕ
  | .onAcknowledge a =>
    ({ s with registry := s.registry.onAcknowledge s.clock a, acks := s.acks ++ [a] }, [])
  | .getBlockToAck =>
    let (block, registry) := s.registry.getBlockToAck s.clock
    ({ s with registry := registry }, block.toList)
  | .pass time => ({ s with clock := s.clock + time }, [])

def machine : Machine Watched RegistryCall ℕ Empty where
  step s i := .ok (s.step i)

/-- The registry after some calls, with the clock at `clock` to begin with. -/
def after (clock ackTimeout : ℕ) (calls : List RegistryCall) : Watched :=
  (machine.run ⟨clock, .new ackTimeout, []⟩ (calls.map ([·]))).2

end Watched

/-- The operation was reported after it was last registered as new. -/
def Reported (acks : List OpAcknowledge) (op : Operation) : Prop :=
  ∃ before a later, acks = before ++ a :: later ∧ a.op = op ∧
    (a.status = .executed ∨ a.status = .failed) ∧ ∀ a' ∈ later, a'.op = op → a'.status ≠ .new

theorem Reported.append {acks : List OpAcknowledge} {op : Operation} {a : OpAcknowledge}
    (h : Reported acks op) (ha : a.op = op → a.status ≠ .new) : Reported (acks ++ [a]) op := by
  obtain ⟨before, b, later, rfl, hop, hstatus, hlater⟩ := h
  refine ⟨before, b, later ++ [a], by simp, hop, hstatus, fun a' ha' => ?_⟩
  rcases List.mem_append.1 ha' with ha' | ha'
  · exact hlater a' ha'
  · obtain rfl := List.mem_singleton.1 ha'
    exact ha

theorem reported_append_self {acks : List OpAcknowledge} {a : OpAcknowledge}
    (ha : a.status = .executed ∨ a.status = .failed) : Reported (acks ++ [a]) a.op :=
  ⟨acks, a, [], rfl, rfl, ha, by simp⟩

namespace Watched

variable {s s' : Watched} {i : RegistryCall} {out : List ℕ}

/-- An operation that was registered as new has been reported since, or is under way. -/
def Inv (s : Watched) : Prop :=
  ∀ a ∈ s.acks, a.status = .new → Reported s.acks a.op ∨ s.registry.Holds a.op

theorem Inv.onAcknowledge (hs : s.Inv) (a : OpAcknowledge) :
    (s.step (.onAcknowledge a)).1.Inv := by
  intro b hb hnew
  simp only [step, List.mem_append, List.mem_singleton] at hb ⊢
  by_cases hreport : a.op = b.op ∧ (a.status = .executed ∨ a.status = .failed)
  · rw [← hreport.1]
    exact .inl (reported_append_self hreport.2)
  have hopen : a.op = b.op → a.status ≠ .executed ∧ a.status ≠ .failed := by
    intro hop
    simpa [hop] using hreport
  by_cases hagain : a.op = b.op ∧ a.status = .new
  · rw [← hagain.1]
    exact .inr (OpRegistry.holds_onAcknowledge_of_new hagain.2)
  rw [not_and] at hagain
  rcases hb with hb | rfl
  · rcases hs b hb hnew with h | h
    · exact .inl (h.append hagain)
    · exact .inr (h.onAcknowledge hopen)
  · exact absurd hnew (hagain rfl)

theorem Inv.step (hs : s.Inv) (i : RegistryCall) : (s.step i).1.Inv := by
  cases i with
  | onAcknowledge a => exact hs.onAcknowledge a
  | getBlockToAck =>
    intro a ha hnew
    exact (hs a ha hnew).imp id OpRegistry.Holds.getBlockToAck
  | pass time => exact hs

theorem inv_after (clock ackTimeout : ℕ) (calls : List RegistryCall) :
    (after clock ackTimeout calls).Inv := by
  refine (machine.run_sound _ _).inv (I := Inv) (fun a ha => by simp at ha) ?_
  intro s i s' out hs hstep
  have h : s.step i = (s', out) := Except.ok.inj hstep
  simpa [h] using hs.step i

/-- Whatever acknowledgements the registry has taken and whenever it was asked before : if it now
gives a block, every operation that was registered as new up to this block has been reported
since it was last registered, every entry that is left is above the block, and the block is the
highest one for which all entries up to it have no operation under way and are older than the
timeout. If it gives none, nothing is removed. -/
theorem getBlockToAck_safe (clock ackTimeout : ℕ) (calls : List RegistryCall) :
    let s := after clock ackTimeout calls
    let answer := s.registry.getBlockToAck s.clock
    (∀ b, answer.1 = some b →
      (∀ a ∈ s.acks, a.status = .new → a.blockNumber ≤ b → Reported s.acks a.op) ∧
      (∀ b' blockInfo, answer.2.knownOps.get? b' = some blockInfo → b < b') ∧
      IsGreatest {b | s.registry.Releasable s.clock b} b) ∧
    (answer.1 = none → answer.2 = s.registry) := by
  intro s answer
  refine ⟨fun b hb => ?_, fun hnone => ?_⟩
  · have hgreatest := OpRegistry.getBlockToAck_isGreatest.1 hb
    refine ⟨fun a ha hnew hle => ?_, fun b' blockInfo hget => ?_, hgreatest⟩
    · have hinv : s.Inv := inv_after clock ackTimeout calls
      refine (hinv a ha hnew).resolve_right fun hholds => ?_
      exact absurd hle (not_le.2 (hgreatest.1.lt_of_holds hholds))
    · exact (OpRegistry.lt_of_getBlockToAck hb).2 b' blockInfo hget
  · have hsame : answer.2.knownOps = s.registry.knownOps := OrdMap.popWhile_of_none hnone
    cases hr : s.registry
    simp_all [answer, OpRegistry.getBlockToAck]

end Watched

/-! ## The executor's acknowledgements -/

namespace OpRegistry

variable {r : OpRegistry} {now b : ℕ} {a : OpAcknowledge}

/-- Every block that the registry knows is at or above `b`. -/
def AtLeast (r : OpRegistry) (b : ℕ) : Prop :=
  ∀ block blockInfo, r.knownOps.get? block = some blockInfo → b ≤ block

theorem AtLeast.onAcknowledge (h : r.AtLeast b) (ha : b ≤ a.blockNumber) :
    (r.onAcknowledge now a).AtLeast b := by
  intro block blockInfo hget
  rw [get?_onAcknowledge] at hget
  split_ifs at hget with heq
  · exact heq ▸ ha
  · exact h block blockInfo hget

theorem AtLeast.getBlockToAck (h : r.AtLeast b) : (r.getBlockToAck now).2.AtLeast b :=
  fun block blockInfo hget => h block blockInfo (OrdMap.get?_popWhile.1 hget).1

end OpRegistry

namespace Executor

variable {s s' : Executor} {i : Action} {out handed : List ℕ}
  {h : List (Record Executor Action ℕ)}

/-- If the step takes an acknowledgement, it is not for a block below one of `handed`. -/
def Timely (handed : List ℕ) (r : Record Executor Action ℕ) : Prop :=
  match r.input with
  | .receive => ∀ a ∈ r.before.acks.head?, ∀ b ∈ handed, b ≤ a.blockNumber
  | _ => True

instance decidableTimely (handed : List ℕ) : ∀ r, Decidable (Timely handed r)
  | ⟨s, .receive, _, _⟩ =>
    inferInstanceAs (Decidable (∀ a ∈ s.acks.head?, ∀ b ∈ handed, b ≤ a.blockNumber))
  | ⟨_, .consume _ _, _, _⟩ | ⟨_, .enqueue, _, _⟩ | ⟨_, .start, _, _⟩ | ⟨_, .finish _ _, _, _⟩
  | ⟨_, .abort _, _, _⟩ | ⟨_, .tick, _, _⟩ | ⟨_, .write _, _, _⟩ | ⟨_, .pass _, _, _⟩ =>
    inferInstanceAs (Decidable True)

/-- No acknowledgement that the updater takes is for a block below one handed over before. -/
def InOrder (h : List (Record Executor Action ℕ)) : Prop :=
  ∀ n < h.length, ∀ r ∈ h[n]?, Timely (Machine.outputs (h.take n)) r

instance decidableInOrder (h : List (Record Executor Action ℕ)) : Decidable (InOrder h) :=
  inferInstanceAs (Decidable (∀ n < h.length, ∀ r ∈ h[n]?, Timely (Machine.outputs (h.take n)) r))

theorem inOrder_snoc {r : Record Executor Action ℕ} (hin : InOrder (h ++ [r])) :
    InOrder h ∧ Timely (Machine.outputs h) r := by
  constructor
  · intro n hn r' hr'
    have := hin n (by simp; omega) r' (by rwa [List.getElem?_append_left hn])
    rwa [List.take_append_of_le_length hn.le] at this
  · have := hin h.length (by simp) r (by simp)
    rwa [List.take_left] at this

/-- What a step hands over is not below what was handed over before, and what the registry knows
stays at or above all of it. -/
theorem atLeast_of_takes (hs : ∀ b ∈ handed, s.registry.AtLeast b) (htakes : s.Takes i s' out)
    (hin : Timely handed ⟨s, i, out, s'⟩) :
    (∀ b ∈ handed, ∀ b' ∈ out, b ≤ b') ∧ ∀ b ∈ handed ++ out, s'.registry.AtLeast b := by
  cases htakes with
  | received hacks =>
    refine ⟨by simp, fun b hb => ?_⟩
    rw [List.append_nil] at hb
    have hle := hin _ (by rw [hacks]; rfl) b hb
    exact (hs b hb).onAcknowledge hle
  | ticked =>
    cases hb' : (s.registry.getBlockToAck s.clock).1 with
    | none =>
      refine ⟨by simp, fun b hb => ?_⟩
      exact (hs b (by simpa using hb)).getBlockToAck
    | some b' =>
      obtain ⟨⟨blockInfo, hget⟩, hleft⟩ := OpRegistry.lt_of_getBlockToAck hb'
      refine ⟨fun b hb => ?_, fun b hb => ?_⟩
      · simpa using hs b hb b' blockInfo hget
      · rcases List.mem_append.1 hb with hb | hb
        · exact (hs b hb).getBlockToAck
        · obtain rfl : b = b' := by simpa using hb
          exact fun block info hinfo => (hleft block info hinfo).le
  | _ => exact ⟨by simp, by simpa using hs⟩

/-- In every run in which no acknowledgement that the updater takes is for a block below one handed
over before, the blocks handed over to be stored as the last processed block never decrease. -/
theorem watermark_monotone (hr : machine.Run init h s) (hin : InOrder h) :
    (Machine.outputs h).Pairwise (· ≤ ·) := by
  suffices hboth : (Machine.outputs h).Pairwise (· ≤ ·) ∧
      ∀ b ∈ Machine.outputs h, s.registry.AtLeast b from hboth.1
  induction hr with
  | nil => simp [Machine.outputs]
  | @snoc h s i s' out hr hstep ih =>
    obtain ⟨hin, htimely⟩ := inOrder_snoc hin
    obtain ⟨hsorted, hatLeast⟩ := ih hin
    have htakes := takes_of_step hstep
    obtain ⟨hle, hatLeast'⟩ := atLeast_of_takes hatLeast htakes htimely
    have hout : Machine.outputs (h ++ [⟨s, i, out, s'⟩]) = Machine.outputs h ++ out := by
      simp [Machine.outputs]
    rw [hout]
    refine ⟨List.pairwise_append.2 ⟨hsorted, ?_, hle⟩, hatLeast'⟩
    cases htakes with
    | ticked => cases (s.registry.getBlockToAck s.clock).1 <;> simp
    | _ => exact .nil

/-- An operation is delivered, executed and reported, and six seconds later the registry is
asked. -/
def settled (op : Operation) : List Action :=
  [.consume true (some op), .enqueue, .start, .receive, .finish 0 .executed, .receive,
    .pass (6 * 10 ^ 9), .tick]

/-- The blocks 5 and 9, one after the other. -/
theorem watermark_monotone_ascending :
    InOrder (history (settled ⟨5, .replicate 32 1⟩ ++ settled ⟨9, .replicate 32 2⟩)) ∧
      Machine.outputs (history (settled ⟨5, .replicate 32 1⟩ ++ settled ⟨9, .replicate 32 2⟩)) =
        [5, 9] ∧
      (Machine.outputs (history (settled ⟨5, .replicate 32 1⟩ ++
        settled ⟨9, .replicate 32 2⟩))).Pairwise (· ≤ ·) := by
  have hin : InOrder (history (settled ⟨5, .replicate 32 1⟩ ++ settled ⟨9, .replicate 32 2⟩)) := by
    decide +kernel
  exact ⟨hin, by decide +kernel, watermark_monotone (machine.run_sound init _) hin⟩

/-- If the operation of the block 9 comes first, the watermark goes back to 5. -/
theorem watermark_goes_back : ∃ h s, machine.Run init h s ∧ Machine.outputs h = [9, 5] :=
  ⟨history (settled ⟨9, .replicate 32 2⟩ ++ settled ⟨5, .replicate 32 1⟩), _,
    machine.run_sound init _, by decide +kernel⟩

end Executor

end Photon
