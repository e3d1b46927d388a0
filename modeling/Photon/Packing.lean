import Mathlib.Data.List.Dedup
import Mathlib.Data.List.Sort
import Photon.IxCompiler

/-!
# Runs of the packing

`sendAllInstructions` compiles a list of bundles one after another, flushes, and sends the
messages if nothing failed.

To compare a message with what was taken in for it, the bundles that have been taken in and not
sent yet are kept beside the compiler (`Packer`). They are the instructions of the buffer
(`Inv.queue`), so a message is made of the bundles that came first (`packs_of_step`), and none is
lost, repeated or out of order (`sendAllInstructions_packs`). A message goes out only when it, or
the same with another limit on the compute units, has been measured (`message_fits`).

The compiler adds the old total twice when a bundle waits. So its total is the sum of what the
waiting bundles declare, and the limits of the messages are right, exactly as long as no bundle
waits behind one that declares compute units (`budget_iff`).
-/

namespace Photon

/-! ## Sending a list of bundles -/

/-- The user's instructions in a message, behind the limit and the price. -/
def Message.userInstructions (price : Option UInt64) (m : Message) : List Instruction :=
  m.instructions.drop (1 + price.toList.length)

variable (sdk : Sdk)

open IxCompiler

/-- Compile the bundles in order, up to the first failure. -/
def compileAll (alt : List AddressLookupTableAccount) : List InstructionBundle →
    Stateful IxCompiler TransactorError (List Message)
  | [] => pure []
  | b :: bundles => do
    let msg ← compile sdk b.instruction alt b.computeUnits
    let msgs ← compileAll alt bundles
    pure (msg.toList ++ msgs)

def compileAndFlush (alt : List AddressLookupTableAccount) (instructions : List InstructionBundle) :
    Stateful IxCompiler TransactorError (List Message) := do
  let messages ← compileAll sdk alt instructions
  let msg ← flush sdk
  pure (messages ++ msg.toList)

/-- The answer of `send_all_instructions`, and the messages that it sends. That one cannot be sent
is only logged. -/
def sendAllInstructions (payer : Pubkey) (alt : List AddressLookupTableAccount)
    (computeUnitPrice : Option UInt64) (instructions : List InstructionBundle) :
    Except TransactorError Unit × List Message :=
  match ((compileAndFlush sdk alt instructions).exec (.new payer computeUnitPrice)).1 with
  | .ok messages => (.ok (), messages)
  | .error e => (.error e, [])

/-! ## The compiler and what it has taken in -/

/-- A compiler with the bundles that it has taken in and not sent yet. -/
structure Packer where
  compiler : IxCompiler
  pending : List InstructionBundle

/-- A message with the bundles that were taken in for it. -/
structure Emission where
  message : Message
  bundles : List InstructionBundle

/-- The message is that of its bundles, behind the limit `n` and the price. -/
def Emission.Sets (price : Option UInt64) (n : UInt32) (e : Emission) : Prop :=
  e.message.instructions = [sdk.setComputeUnitLimit n] ++
    (price.map sdk.setComputeUnitPrice).toList ++ e.bundles.map InstructionBundle.instruction

inductive Request
  | compile (b : InstructionBundle) (tables : List AddressLookupTableAccount)
  | flush

namespace Packer

/-- The compiler's answer, and the compiler after it. -/
def answer (p : Packer) : Request → Except TransactorError (Option Message) × IxCompiler
  | .compile b tables => (compile sdk b.instruction tables b.computeUnits).exec p.compiler
  | .flush => (flush sdk).exec p.compiler

/-- The bundles waiting before the call, with that of the call. -/
def taken (p : Packer) : Request → List InstructionBundle
  | .compile b _ => p.pending ++ [b]
  | .flush => p.pending

/-- The compiler after a call. A message takes as many bundles off as it holds instructions of the
user. -/
def settle (p : Packer) (i : Request) :
    Except TransactorError (Option Message) × IxCompiler → Packer × List Emission
  | (.error _, c) => (⟨c, p.pending⟩, [])
  | (.ok none, c) => (⟨c, p.taken i⟩, [])
  | (.ok (some m), c) =>
    let n := (m.userInstructions p.compiler.computeUnitsPrice).length
    (⟨c, (p.taken i).drop n⟩, [⟨m, (p.taken i).take n⟩])

def step (p : Packer) (i : Request) : Packer × List Emission :=
  p.settle i (p.answer sdk i)

def machine : Machine Packer Request Emission Empty where
  step p i := .ok (p.step sdk i)

def start (payer : Pubkey) (price : Option UInt64) : Packer :=
  ⟨.new payer price, []⟩

/-- The compute units that the bundles declare. -/
def units (bundles : List InstructionBundle) : ℕ :=
  (bundles.map fun b => b.computeUnits.toNat).sum

@[simp] theorem units_nil : units [] = 0 := rfl

@[simp] theorem units_append_singleton (bundles : List InstructionBundle) (b : InstructionBundle) :
    units (bundles ++ [b]) = units bundles + b.computeUnits.toNat := by
  simp [units]

@[simp] theorem units_singleton (b : InstructionBundle) : units [b] = b.computeUnits.toNat := by
  simp [units]

variable {sdk} {p p' : Packer} {i : Request} {out : List Emission}

/-- What holds in every state. The total never comes near an overflow. -/
structure Inv (p : Packer) : Prop where
  queue : p.pending.map InstructionBundle.instruction = p.compiler.ixBuffer
  empty : p.compiler.ixBuffer = [] →
    p.compiler.addressLookupTableAccounts = [] ∧ p.compiler.totalComputeUnits = 0
  declared : units p.pending ≤ MAX_CU.toNat
  total : units p.pending ≤ p.compiler.totalComputeUnits.toNat
  bounded : p.compiler.totalComputeUnits.toNat < 2400000

/-- What one call does from a state with the invariant. -/
inductive Packs (sdk : Sdk) (p : Packer) : Request → Packer → List Emission → Prop
  | idle (i : Request) : (∀ b tables, i = .compile b tables → ¬p.compiler.Waits sdk b tables) →
      Packs sdk p i p []
  | restarts (b tables) : p.pending ≠ [] →
      ¬Exceeds sdk (p.compiler.single sdk b tables) b.computeUnits →
      Exceeds sdk (p.compiler.joint sdk b tables)
        (p.compiler.totalComputeUnits + b.computeUnits) →
      Packs sdk p (.compile b tables)
        ⟨{ p.compiler with
            ixBuffer := [b.instruction]
            addressLookupTableAccounts := tables
            totalComputeUnits := b.computeUnits }, [b]⟩
        [⟨p.compiler.buffered sdk, p.pending⟩]
  | completes (b tables) : ¬Exceeds sdk (p.compiler.single sdk b tables) b.computeUnits →
      ¬Exceeds sdk (p.compiler.joint sdk b tables)
        (p.compiler.totalComputeUnits + b.computeUnits) →
      Approaches sdk (p.compiler.joint sdk b tables)
        (p.compiler.totalComputeUnits + b.computeUnits) →
      Packs sdk p (.compile b tables) ⟨p.compiler.emptied, []⟩
        [⟨p.compiler.joint sdk b tables, p.pending ++ [b]⟩]
  | waits (b tables) : p.compiler.Waits sdk b tables →
      Packs sdk p (.compile b tables)
        ⟨{ p.compiler with
            ixBuffer := p.compiler.ixBuffer ++ [b.instruction]
            addressLookupTableAccounts := p.compiler.addressLookupTableAccounts ++ tables
            totalComputeUnits :=
              p.compiler.totalComputeUnits + (p.compiler.totalComputeUnits + b.computeUnits) },
          p.pending ++ [b]⟩ []
  | flushes : p.pending ≠ [] →
      Packs sdk p .flush ⟨p.compiler.emptied, []⟩ [⟨p.compiler.buffered sdk, p.pending⟩]

/-! ## One call -/

theorem userInstructions_message (c : IxCompiler) (u : UInt32) (ixs : List Instruction)
    (tables : List AddressLookupTableAccount) :
    (c.message sdk u ixs tables).userInstructions c.computeUnitsPrice = ixs := by
  cases h : c.computeUnitsPrice <;>
    simp [Message.userInstructions, IxCompiler.message, getIxPriceIfAny, h]

/-- With an empty buffer, a bundle on its own is the same message as with the buffer. -/
theorem Inv.joint_eq_single (sdk : Sdk) (hp : p.Inv) (hempty : p.compiler.ixBuffer = [])
    (b : InstructionBundle) (tables : List AddressLookupTableAccount) :
    p.compiler.joint sdk b tables = p.compiler.single sdk b tables ∧
      p.compiler.totalComputeUnits + b.computeUnits = b.computeUnits := by
  obtain ⟨htables, htotal⟩ := hp.empty hempty
  simp [joint, single, hempty, htables, htotal]

theorem Inv.pending_eq_nil_iff (hp : p.Inv) : p.pending = [] ↔ p.compiler.ixBuffer = [] := by
  rw [← hp.queue, List.map_eq_nil_iff]

theorem packs_of_step (sdk : Sdk) (hp : p.Inv) (i : Request) :
    Packs sdk p i (p.step sdk i).1 (p.step sdk i).2 := by
  have hlen : p.compiler.ixBuffer.length = p.pending.length := by
    rw [← hp.queue, List.length_map]
  cases i with
  | compile b tables =>
    have hcompiled := p.compiler.compiled sdk b tables
    rw [step, answer]
    generalize (compile sdk b.instruction tables b.computeUnits).exec p.compiler = x
      at hcompiled ⊢
    obtain ⟨r, c⟩ := x
    dsimp only at hcompiled
    cases hcompiled with
    | failed e hnot =>
      refine .idle (.compile b tables) fun b' tables' h => ?_
      obtain ⟨rfl, rfl⟩ := Request.compile.inj h
      exact hnot
    | restarts hone hover =>
      have hne : p.pending ≠ [] := by
        -- the bundle fits on its own, so what is too long has more in it
        rw [Ne, hp.pending_eq_nil_iff]
        intro hempty
        obtain ⟨hmsg, htotal⟩ := hp.joint_eq_single sdk hempty b tables
        rw [hmsg, htotal] at hover
        exact hone hover
      simpa [settle, buffered, userInstructions_message, taken, hlen]
        using Packs.restarts b tables hne hone hover
    | completes hone hover hnear =>
      have htake : (p.pending ++ [b]).take (p.pending.length + 1) = p.pending ++ [b] :=
        List.take_of_length_le (by simp)
      simpa [settle, joint, userInstructions_message, taken, hlen, htake]
        using Packs.completes b tables hone hover hnear
    | waits hwaits => exact .waits b tables hwaits
  | flush =>
    have hflushed := p.compiler.flushed sdk
    rw [step, answer]
    generalize (flush sdk).exec p.compiler = x at hflushed ⊢
    obtain ⟨r, c⟩ := x
    dsimp only at hflushed
    cases hflushed with
    | nothing _ => exact .idle .flush fun _ _ h => by cases h
    | failed e => exact .idle .flush fun _ _ h => by cases h
    | sends hne =>
      have hpending : p.pending ≠ [] := fun h => hne (hp.pending_eq_nil_iff.1 h)
      simpa [settle, buffered, userInstructions_message, taken, hlen]
        using Packs.flushes hpending

theorem lt_of_not_exceeds {m : Message} {u : UInt32} (h : ¬Exceeds sdk m u) :
    (sdk.serialize m).length ≤ MAX_MSG_LEN ∧ u.toNat ≤ MAX_CU.toNat := by
  simpa [Exceeds, exceedsLimits, UInt32.lt_iff_toNat_lt] using h

theorem lt_of_not_approaches {m : Message} {u : UInt32} (h : ¬Approaches sdk m u) :
    u.toNat < 1200000 := by
  simp only [Approaches, approachesLimits, not_or, ge_iff_le, UInt32.not_le] at h
  exact UInt32.lt_iff_toNat_lt.1 h.2

/-- Sums of what passes the checks do not overflow. -/
theorem toNat_add_of_lt {u v : UInt32} (hu : u.toNat < 2400000) (hv : v.toNat ≤ 1400000) :
    (u + v).toNat = u.toNat + v.toNat := by
  rw [UInt32.toNat_add]
  omega

theorem inv_start (payer : Pubkey) (price : Option UInt64) : (start payer price).Inv where
  queue := rfl
  empty _ := ⟨rfl, rfl⟩
  declared := by simp [start]
  total := by simp [start]
  bounded := by simp [start, IxCompiler.new]

theorem inv_emptied (c : IxCompiler) : Inv ⟨c.emptied, []⟩ where
  queue := rfl
  empty _ := ⟨rfl, rfl⟩
  declared := by simp
  total := by simp
  bounded := by simp [emptied]

/-- What a waiting bundle adds to the total : the old total comes in twice. -/
theorem Inv.total_of_waits (hp : p.Inv) {b : InstructionBundle}
    {tables : List AddressLookupTableAccount} (h : p.compiler.Waits sdk b tables) :
    p.compiler.totalComputeUnits.toNat + b.computeUnits.toNat < 1200000 ∧
      (p.compiler.totalComputeUnits + (p.compiler.totalComputeUnits + b.computeUnits)).toNat =
        2 * p.compiler.totalComputeUnits.toNat + b.computeUnits.toNat := by
  obtain ⟨-, hone, -, -, hnear⟩ := h
  have hsum := toNat_add_of_lt hp.bounded (lt_of_not_exceeds hone).2
  have hlt := lt_of_not_approaches hnear
  rw [hsum] at hlt
  have hsum' := toNat_add_of_lt hp.bounded
    (v := p.compiler.totalComputeUnits + b.computeUnits) (by omega)
  exact ⟨hlt, by omega⟩

theorem Inv.packs (hp : p.Inv) (h : Packs sdk p i p' out) : p'.Inv := by
  have hcu : MAX_CU.toNat = 1400000 := rfl
  cases h with
  | idle => exact hp
  | restarts b tables _ hone _ =>
    have hle := (lt_of_not_exceeds hone).2
    refine ⟨rfl, by simp, ?_, ?_, ?_⟩ <;> simp <;> omega
  | completes => exact inv_emptied p.compiler
  | waits b tables hwaits =>
    obtain ⟨hlt, htotal⟩ := hp.total_of_waits hwaits
    have := hp.total
    refine ⟨by simp [hp.queue], by simp, ?_, ?_, ?_⟩
    · rw [units_append_singleton]
      omega
    · rw [units_append_singleton, htotal]
      omega
    · rw [htotal]
      omega
  | flushes => exact inv_emptied p.compiler

/-! ## Runs -/

theorem packs_of_machine (hp : p.Inv) (h : (machine sdk).step p i = .ok (p', out)) :
    Packs sdk p i p' out := by
  have hstep : p.step sdk i = (p', out) := Except.ok.inj h
  simpa [hstep] using packs_of_step sdk hp i

variable {payer : Pubkey} {price : Option UInt64} {h : List (Record Packer Request Emission)}

theorem inv_of_run (hr : (machine sdk).Run (start payer price) h p) : p.Inv :=
  hr.inv (inv_start payer price) fun _ _ _ _ hp hstep => hp.packs (packs_of_machine hp hstep)

/-! ## Nothing is lost -/

/-- An answer that is no error takes the bundle of the call in, and what a message takes off and
what is left is all there was. -/
theorem step_of_ok {m : Option Message} {c : IxCompiler} (h : p.answer sdk i = (.ok m, c)) :
    (p.step sdk i).1.compiler = c ∧ (p.step sdk i).2.map Emission.message = m.toList ∧
      (p.step sdk i).2.flatMap Emission.bundles ++ (p.step sdk i).1.pending = p.taken i := by
  rw [step, h]
  cases m with
  | none => simp [settle]
  | some m => simp [settle, List.take_append_drop]

theorem price_of_packs (h : Packs sdk p i p' out) :
    p'.compiler.computeUnitsPrice = p.compiler.computeUnitsPrice := by
  cases h <;> rfl

/-- The total is what the waiting bundles declare. -/
def Balanced (p : Packer) : Prop :=
  p.compiler.totalComputeUnits.toNat = units p.pending

/-- A message goes out for some bundles, with a limit that is right if the total is. -/
theorem sets_of_packs (hp : p.Inv) (h : Packs sdk p i p' out) :
    ∀ e ∈ out, e.bundles ≠ [] ∧ ∃ n, e.Sets sdk p.compiler.computeUnitsPrice n ∧
      (p.Balanced → n.toNat = units e.bundles ∧ n.toNat ≤ MAX_CU.toNat) := by
  have hbuffered : (⟨p.compiler.buffered sdk, p.pending⟩ : Emission).Sets sdk
      p.compiler.computeUnitsPrice p.compiler.totalComputeUnits := by
    rw [Emission.Sets, hp.queue]
    rfl
  have hlimit : p.Balanced → p.compiler.totalComputeUnits.toNat = units p.pending ∧
      p.compiler.totalComputeUnits.toNat ≤ MAX_CU.toNat := fun hbal =>
    ⟨hbal, hbal.trans_le hp.declared⟩
  cases h with
  | idle => simp
  | restarts b tables hne _ _ =>
    rw [List.forall_mem_singleton]
    exact ⟨hne, _, hbuffered, hlimit⟩
  | completes b tables hone hover _ =>
    rw [List.forall_mem_singleton]
    refine ⟨by simp, p.compiler.totalComputeUnits + b.computeUnits, ?_, fun hbal => ?_⟩
    · rw [Emission.Sets, List.map_append, hp.queue]
      rfl
    · have hsum := toNat_add_of_lt hp.bounded (lt_of_not_exceeds hone).2
      rw [units_append_singleton, ← hbal, ← hsum]
      exact ⟨rfl, (lt_of_not_exceeds hover).2⟩
  | waits => simp
  | flushes hne =>
    rw [List.forall_mem_singleton]
    exact ⟨hne, _, hbuffered, hlimit⟩

variable {alt : List AddressLookupTableAccount}

theorem exec_compileAll_cons {b : InstructionBundle} {bundles : List InstructionBundle}
    {c c' : IxCompiler} {msgs : List Message}
    (h : (compileAll sdk alt (b :: bundles)).exec c = (.ok msgs, c')) :
    ∃ m c₁ rest, (compile sdk b.instruction alt b.computeUnits).exec c = (.ok m, c₁) ∧
      (compileAll sdk alt bundles).exec c₁ = (.ok rest, c') ∧ msgs = m.toList ++ rest := by
  simp only [compileAll, Stateful.exec_bind_eq_ok, Stateful.exec_pure, Prod.mk.injEq,
    Except.ok.injEq] at h
  obtain ⟨m, c₁, hcompile, rest, c₂, hrest, rfl, rfl⟩ := h
  exact ⟨m, c₁, rest, hcompile, hrest, rfl⟩

theorem exec_compileAll : ∀ {bundles : List InstructionBundle} {p : Packer} {msgs : List Message}
    {c : IxCompiler}, p.Inv → (compileAll sdk alt bundles).exec p.compiler = (.ok msgs, c) →
    ∃ (pending : List InstructionBundle) (emissions : List Emission),
      Inv ⟨c, pending⟩ ∧ c.computeUnitsPrice = p.compiler.computeUnitsPrice ∧
      emissions.map Emission.message = msgs ∧
      emissions.flatMap Emission.bundles ++ pending = p.pending ++ bundles ∧
      ∀ e ∈ emissions, e.bundles ≠ [] ∧ ∃ n, e.Sets sdk p.compiler.computeUnitsPrice n
  | [], p, msgs, c, hp, h => by
    simp only [compileAll, Stateful.exec_pure, Prod.mk.injEq, Except.ok.injEq] at h
    obtain ⟨rfl, rfl⟩ := h
    exact ⟨p.pending, [], hp, rfl, rfl, by simp, by simp⟩
  | b :: bundles, p, msgs, c, hp, h => by
    obtain ⟨m, c₁, rest, hcompile, hrest, rfl⟩ := exec_compileAll_cons h
    obtain ⟨rfl, hmsg, htaken⟩ := step_of_ok (i := .compile b alt) hcompile
    have hpacks := packs_of_step sdk hp (.compile b alt)
    obtain ⟨pending, emissions, hinv, hprice, hmsgs, hall, hsets⟩ :=
      exec_compileAll (hp.packs hpacks) hrest
    rw [price_of_packs hpacks] at hprice hsets
    refine ⟨pending, (p.step sdk (.compile b alt)).2 ++ emissions, hinv, hprice, ?_, ?_, ?_⟩
    · rw [List.map_append, hmsg, hmsgs]
    · rw [List.flatMap_append, List.append_assoc, hall, ← List.append_assoc, htaken, taken]
      simp
    · rw [List.forall_mem_append]
      refine ⟨fun e he => ?_, hsets⟩
      obtain ⟨hne, n, hn, -⟩ := sets_of_packs hp hpacks e he
      exact ⟨hne, n, hn⟩

/-- After a flush nothing is left. -/
theorem pending_of_flush (hp : p.Inv) {m : Option Message} {c : IxCompiler}
    (h : (flush sdk).exec p.compiler = (.ok m, c)) : (p.step sdk .flush).1.pending = [] := by
  have hlen : p.compiler.ixBuffer.length = p.pending.length := by
    rw [← hp.queue, List.length_map]
  have hflushed := p.compiler.flushed sdk
  rw [h] at hflushed
  rw [step, answer, h]
  cases hflushed with
  | nothing hempty => exact hp.pending_eq_nil_iff.2 hempty
  | sends _ => simp [settle, buffered, userInstructions_message, taken, hlen]

theorem userInstructions_of_sets {e : Emission} {n : UInt32} (h : e.Sets sdk price n) :
    e.message.userInstructions price = e.bundles.map InstructionBundle.instruction := by
  rw [Emission.Sets] at h
  cases price <;> simp [Message.userInstructions, h]

theorem exec_compileAndFlush {bundles : List InstructionBundle} {msgs : List Message}
    {c : IxCompiler}
    (h : (compileAndFlush sdk alt bundles).exec (.new payer price) = (.ok msgs, c)) :
    ∃ emissions : List Emission, emissions.map Emission.message = msgs ∧
      emissions.flatMap Emission.bundles = bundles ∧
      ∀ e ∈ emissions, e.bundles ≠ [] ∧ ∃ n, e.Sets sdk price n := by
  simp only [compileAndFlush, Stateful.exec_bind_eq_ok, Stateful.exec_pure, Prod.mk.injEq,
    Except.ok.injEq] at h
  obtain ⟨msgs, c₁, hall, m, c₂, hflush, rfl, rfl⟩ := h
  obtain ⟨pending, emissions, hinv, hprice, hmsgs, hbundles, hsets⟩ :=
    exec_compileAll (inv_start payer price) hall
  obtain ⟨-, hmsg, htaken⟩ := step_of_ok (p := ⟨c₁, pending⟩) (i := .flush) hflush
  rw [pending_of_flush hinv hflush, List.append_nil] at htaken
  refine ⟨emissions ++ (step sdk ⟨c₁, pending⟩ .flush).2, ?_, ?_, ?_⟩
  · rw [List.map_append, hmsgs, hmsg]
  · rw [List.flatMap_append, htaken]
    exact hbundles
  · rw [List.forall_mem_append]
    refine ⟨hsets, fun e he => ?_⟩
    obtain ⟨hne, n, hn, -⟩ := sets_of_packs hinv (packs_of_step sdk hinv .flush) e he
    rw [show (⟨c₁, pending⟩ : Packer).compiler.computeUnitsPrice = price from hprice] at hn
    exact ⟨hne, n, hn⟩

end Packer

/-- The length of a message does not depend on the number that is set as the limit. -/
def Sdk.LimitFree (sdk : Sdk) : Prop :=
  ∀ (payer : Pubkey) (n n' : UInt32) (ixs : List Instruction)
    (tables : List AddressLookupTableAccount) (blockhash : Bytes32),
    (sdk.serialize ⟨payer, sdk.setComputeUnitLimit n :: ixs, tables, blockhash⟩).length =
      (sdk.serialize ⟨payer, sdk.setComputeUnitLimit n' :: ixs, tables, blockhash⟩).length

/-- A length of the wire format, seven bits to a byte. -/
def shortLen (n : ℕ) : Bytes :=
  if n < 128 then [UInt8.ofNat n]
  else if n < 16384 then [UInt8.ofNat (n % 128 + 128), UInt8.ofNat (n / 128)]
  else [UInt8.ofNat (n % 128 + 128), UInt8.ofNat (n / 128 % 128 + 128), UInt8.ofNat (n / 16384)]

namespace Message

/-- Some instruction names the account with the flag, or it is the payer. -/
def flagged (m : Message) (flag : AccountInfo → Bool) (k : Pubkey) : Bool :=
  k = m.payer || m.instructions.any fun ix => ix.accounts.any fun a => a.key = k && flag a

/-- The keys of a message but the payer's, in their order. -/
def keys (m : Message) : List Pubkey :=
  ((m.instructions.flatMap fun ix => ix.programId :: ix.accounts.map AccountInfo.key).dedup.filter
    (· ≠ m.payer)).insertionSort fun k k' => beNat k.val ≤ beNat k'.val

/-- The keys with these flags. -/
def group (m : Message) (signer writable : Bool) : List Pubkey :=
  m.keys.filter fun k => m.flagged AccountInfo.isSigner k = signer &&
    m.flagged AccountInfo.isWritable k = writable

/-- All keys of a message, in the order of the wire format. -/
def accountKeys (m : Message) : List Pubkey :=
  m.payer :: m.group true true ++ m.group true false ++ m.group false true ++ m.group false false

/-- An instruction in the wire format, with its accounts as places among the keys. -/
def compiledInstruction (keys : List Pubkey) (ix : Instruction) : Bytes :=
  UInt8.ofNat (keys.idxOf ix.programId) :: shortLen ix.accounts.length ++
    ix.accounts.map (fun a => UInt8.ofNat (keys.idxOf a.key)) ++ shortLen ix.data.length ++ ix.data

/-- The wire format of a message none of whose accounts is in a lookup table. -/
def toWire (m : Message) : Bytes :=
  [128, UInt8.ofNat (1 + (m.group true true).length + (m.group true false).length),
      UInt8.ofNat (m.group true false).length, UInt8.ofNat (m.group false false).length] ++
    shortLen m.accountKeys.length ++ m.accountKeys.flatMap Subtype.val ++ m.recentBlockhash.val ++
    shortLen m.instructions.length ++ m.instructions.flatMap (compiledInstruction m.accountKeys) ++
    shortLen 0

end Message

def computeBudgetId : Pubkey :=
  pubkey58 "ComputeBudget111111111111111111111111111111"

/-- Solana's crates, on messages none of whose accounts is in a lookup table. -/
def Sdk.v0 : Sdk where
  compiles m := require (m.accountKeys.length ≤ 256) .accountIndexOverflow
  serialize := Message.toWire
  setComputeUnitLimit n := ⟨computeBudgetId, [], 2 :: leBytes 4 n.toNat⟩
  setComputeUnitPrice n := ⟨computeBudgetId, [], 3 :: leBytes 8 n.toNat⟩

theorem limitFree_v0 : Sdk.v0.LimitFree := by
  intro payer n n' ixs tables blockhash
  have hgroup : ∀ s w, (Message.mk payer (Sdk.v0.setComputeUnitLimit n :: ixs) tables
      blockhash).group s w = (Message.mk payer (Sdk.v0.setComputeUnitLimit n' :: ixs) tables
      blockhash).group s w := fun _ _ => rfl
  simp only [Sdk.v0, Message.toWire] at hgroup ⊢
  simp [Message.accountKeys, hgroup, Message.compiledInstruction]

namespace Packer

variable {sdk : Sdk} {p p' : Packer} {i : Request} {out : List Emission} {payer : Pubkey}
  {price : Option UInt64} {h : List (Record Packer Request Emission)}

/-- The history of the calls on a new compiler. -/
def history (sdk : Sdk) (payer : Pubkey) (price : Option UInt64) (requests : List Request) :
    List (Record Packer Request Emission) :=
  ((machine sdk).run (start payer price) (requests.map ([·]))).1

/-- The signer of the tests. -/
def signer : Pubkey :=
  Fixed.replicate 32 1

/-- The instruction of the tests : nine times the same account, the signer, and 128 bytes. -/
def testInstruction : Instruction where
  programId := Fixed.replicate 32 2
  accounts := List.replicate 9 ⟨Fixed.replicate 32 3, false, true⟩ ++ [⟨signer, true, true⟩]
  data := List.replicate 128 1

/-! ## Lengths -/

/-- What is in the buffer fits into a message. -/
def Fits (sdk : Sdk) (p : Packer) : Prop :=
  p.pending ≠ [] → (sdk.serialize (p.compiler.buffered sdk)).length ≤ MAX_MSG_LEN

theorem length_message (hsdk : sdk.LimitFree) (c : IxCompiler) (n n' : UInt32)
    (ixs : List Instruction) (tables : List AddressLookupTableAccount) :
    (sdk.serialize (c.message sdk n ixs tables)).length =
      (sdk.serialize (c.message sdk n' ixs tables)).length :=
  hsdk c.payer n n' (c.getIxPriceIfAny sdk ++ ixs) tables Hash.default

theorem Fits.packs (hsdk : sdk.LimitFree) (hp : p.Fits sdk) (h : Packs sdk p i p' out) :
    p'.Fits sdk ∧ ∀ e ∈ out, (sdk.serialize e.message).length ≤ MAX_MSG_LEN := by
  cases h with
  | idle => exact ⟨hp, by simp⟩
  | restarts b tables hne hone _ =>
    exact ⟨fun _ => (lt_of_not_exceeds hone).1, by simpa using hp hne⟩
  | completes b tables _ hover _ =>
    exact ⟨fun hne => absurd rfl hne, by simpa using (lt_of_not_exceeds hover).1⟩
  | waits b tables hwaits =>
    refine ⟨fun _ => ?_, by simp⟩
    -- measured with the sum as its limit, kept with another total
    have hjoint := (lt_of_not_exceeds hwaits.2.2.2.1).1
    rw [joint, length_message hsdk] at hjoint
    exact hjoint
  | flushes hne => exact ⟨fun hne => absurd rfl hne, by simpa using hp hne⟩

/-- For every sequence of `compile` and `flush` calls on a compiler with a fixed price, every
message that goes out fits into a transaction. -/
theorem message_fits (sdk : Sdk) (hsdk : sdk.LimitFree) (payer : Pubkey) (price : Option UInt64)
    (requests : List Request) : ∀ r ∈ history sdk payer price requests, ∀ e ∈ r.out,
      (sdk.serialize e.message).length ≤ MAX_MSG_LEN := by
  intro r hmem
  have hr := (machine sdk).run_sound (start payer price) (requests.map ([·]))
  obtain ⟨pre, -, -, hpre, hstep⟩ := hr.of_mem hmem
  have hfits : r.before.Inv ∧ r.before.Fits sdk := by
    refine hpre.inv (I := fun p => p.Inv ∧ p.Fits sdk)
      ⟨inv_start payer price, fun hne => absurd rfl hne⟩ fun p i p' out hp hstep => ?_
    have hpacks := packs_of_machine hp.1 hstep
    exact ⟨hp.1.packs hpacks, (hp.2.packs hsdk hpacks).1⟩
  exact (hfits.2.packs hsdk (packs_of_machine hfits.1 hstep)).2

/-- Seven instructions of the tests do not fit into one message. -/
theorem message_fits_seven : Sdk.v0.LimitFree ∧
    (Machine.outputs (history Sdk.v0 signer (some 1000)
      (List.replicate 7 (.compile ⟨testInstruction, 20000⟩ []) ++ [.flush]))).map
        (fun e => e.bundles.length) = [6, 1] ∧
    ∀ r ∈ history Sdk.v0 signer (some 1000)
      (List.replicate 7 (.compile ⟨testInstruction, 20000⟩ []) ++ [.flush]), ∀ e ∈ r.out,
      (Sdk.v0.serialize e.message).length ≤ MAX_MSG_LEN :=
  ⟨limitFree_v0, by decide +kernel, message_fits Sdk.v0 limitFree_v0 signer (some 1000) _⟩

/-! ## Compute units -/

theorem price_of_run (hr : (machine sdk).Run (start payer price) h p) :
    p.compiler.computeUnitsPrice = price := by
  refine (hr.inv (I := fun p => p.Inv ∧ p.compiler.computeUnitsPrice = price)
    ⟨inv_start payer price, rfl⟩ fun p i p' out hp hstep => ?_).2
  have hpacks := packs_of_machine hp.1 hstep
  exact ⟨hp.1.packs hpacks, (price_of_packs hpacks).trans hp.2⟩

/-- A bundle does not wait behind one that declares compute units. -/
def Unladen (sdk : Sdk) (p : Packer) : Request → Prop
  | .compile b tables => p.compiler.Waits sdk b tables → ∀ b' ∈ p.pending, b'.computeUnits = 0
  | .flush => True

theorem units_eq_zero {bundles : List InstructionBundle} :
    units bundles = 0 ↔ ∀ b ∈ bundles, b.computeUnits = 0 := by
  simp [units, List.sum_eq_zero_iff_forall_eq_nat, ← UInt32.toNat_inj]

theorem Balanced.packs_iff (hp : p.Inv) (hbal : p.Balanced) (h : Packs sdk p i p' out) :
    p'.Balanced ↔ p.Unladen sdk i := by
  cases h with
  | idle _ hnot =>
    refine iff_of_true hbal ?_
    cases i with
    | compile b tables => exact fun hwaits => absurd hwaits (hnot b tables rfl)
    | flush => trivial
  | restarts b tables _ _ hover =>
    refine iff_of_true ?_ fun hwaits => absurd hover hwaits.2.2.2.1
    simp [Balanced]
  | completes b tables _ _ hnear =>
    exact iff_of_true rfl fun hwaits => absurd hnear hwaits.2.2.2.2
  | waits b tables hwaits =>
    have htotal := (hp.total_of_waits hwaits).2
    rw [Balanced, units_append_singleton, htotal, hbal]
    constructor
    · intro heq _
      exact units_eq_zero.1 (by omega)
    · intro hunladen
      have := units_eq_zero.2 (hunladen hwaits)
      omega
  | flushes => exact iff_of_true rfl trivial

/-- For every sequence of `compile` and `flush` calls : after every call the total is what the
buffered instructions declare, and every message sets the sum of what its instructions declare as
the limit, which is at most the limit of a transaction, exactly if no call lets its instruction
wait behind one that declares compute units. -/
theorem budget_iff (sdk : Sdk) (payer : Pubkey) (price : Option UInt64) (requests : List Request) :
    (∀ r ∈ history sdk payer price requests, r.after.Balanced ∧ ∀ e ∈ r.out,
        ∃ n, e.Sets sdk price n ∧ n.toNat = units e.bundles ∧ n.toNat ≤ MAX_CU.toNat) ↔
      ∀ r ∈ history sdk payer price requests, r.before.Unladen sdk r.input := by
  have hr := (machine sdk).run_sound (start payer price) (requests.map ([·]))
  have hstep : ∀ p i p' out, p.Inv ∧ p.Balanced → (machine sdk).step p i = .ok (p', out) →
      (p'.Inv ∧ p'.Balanced ↔ p.Unladen sdk i) := by
    rintro p i p' out ⟨hp, hbal⟩ hstep
    have hpacks := packs_of_machine hp hstep
    rw [and_iff_right (hp.packs hpacks)]
    exact hbal.packs_iff hp hpacks
  have hstart : (start payer price).Inv ∧ (start payer price).Balanced :=
    ⟨inv_start payer price, rfl⟩
  constructor
  · intro hall
    refine (hr.inv_iff (I := fun p => p.Inv ∧ p.Balanced) (H := fun _ => True) hstart
      (fun p i p' out _ => hstep p i p' out) fun _ _ => trivial).1 fun r hmem => ?_
    obtain ⟨pre, -, -, hpre, hs⟩ := hr.of_mem hmem
    have hp := inv_of_run hpre
    exact ⟨hp.packs (packs_of_machine hp hs), (hall r hmem).1⟩
  · intro hall r hmem
    obtain ⟨hbefore, hafter⟩ := (hr.inv_of_forall (I := fun p => p.Inv ∧ p.Balanced) hstart
      (fun p i p' out hC hI hs => (hstep p i p' out hI hs).2 hC) hall).1 r hmem
    obtain ⟨pre, -, -, hpre, hs⟩ := hr.of_mem hmem
    refine ⟨hafter.2, fun e he => ?_⟩
    obtain ⟨-, n, hn, hlimit⟩ := sets_of_packs hbefore.1 (packs_of_machine hbefore.1 hs) e he
    rw [price_of_run hpre] at hn
    exact ⟨n, hn, hlimit hbefore.2⟩

/-- Three bundles with the units of an operation's instructions go out in one message. It sets a
limit of 1800000, where 800000 are declared and no more than 1400000 are allowed. -/
theorem budget_exceeded : ∃ r ∈ history Sdk.v0 signer (some 1000)
      [.compile ⟨testInstruction, 200000⟩ [], .compile ⟨testInstruction, 400000⟩ [],
        .compile ⟨testInstruction, 200000⟩ [], .flush],
    ∃ e ∈ r.out, e.message.instructions.head? = some (Sdk.v0.setComputeUnitLimit 1800000) ∧
      units e.bundles = 800000 ∧ MAX_CU < 1800000 := by
  decide +kernel

end Packer

end Photon
