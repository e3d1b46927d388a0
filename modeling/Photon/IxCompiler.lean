import Photon.Accounts

/-!
# Packing instructions into messages

The transactor packs a list of instructions into as few messages as it can. An `IxCompiler` keeps
the instructions that have not gone out yet in a buffer. `compile` takes the next instruction, and
compiles the buffer with it behind to see how long the message gets. A message over the limits
goes out without the new instruction, which starts the next buffer. One close to the limits goes
out with it. Otherwise the instruction waits in the buffer. `flush` sends what is left.

Messages are compiled and written by Solana's crates (`Sdk`). A message is identified here with
what it is compiled from; how long it gets on the wire is the crates' business.

What one call does is said once, by `Compiled` and `Flushed`. A call that fails leaves the compiler
as it was.
-/

namespace Photon

/-! ## Messages -/

structure AddressLookupTableAccount where
  key : Pubkey
  addresses : List Pubkey
  deriving DecidableEq

/-- A message, as what it is compiled from. -/
structure Message where
  payer : Pubkey
  instructions : List Instruction
  addressLookupTableAccounts : List AddressLookupTableAccount
  recentBlockhash : Bytes32
  deriving DecidableEq

/-- Why Solana's crates do not compile a message. -/
inductive CompileError
  | accountIndexOverflow
  | addressTableLookupIndexOverflow
  | unknownInstructionKey (key : Pubkey)
  deriving DecidableEq

/-- What the packing uses of Solana's crates. -/
structure Sdk where
  /-- Whether a message can be compiled. -/
  compiles : Message → Except CompileError Unit
  serialize : Message → Bytes
  setComputeUnitLimit : UInt32 → Instruction
  setComputeUnitPrice : UInt64 → Instruction

/-- The errors of the transactor that packing can meet. -/
inductive TransactorError
  | failedToCompile (e : CompileError)
  | instructionTooBig
  deriving DecidableEq

/-- The hash of no block. -/
def Hash.default : Bytes32 :=
  Fixed.replicate 32 0

/-- Compile the instructions, or say why not. -/
def Message.tryCompile (sdk : Sdk) (payer : Pubkey) (instructions : List Instruction)
    (tables : List AddressLookupTableAccount) (blockhash : Bytes32) :
    Except TransactorError Message := do
  let msg : Message := ⟨payer, instructions, tables, blockhash⟩
  (sdk.compiles msg).mapError .failedToCompile
  pure msg

/-! ## The compiler -/

def MAX_CU : UInt32 := 1400000

/-- The room in a transaction with one signature. -/
def MAX_MSG_LEN : ℕ := 1232 - 65

structure InstructionBundle where
  instruction : Instruction
  computeUnits : UInt32
  deriving DecidableEq

structure IxCompiler where
  ixBuffer : List Instruction
  totalComputeUnits : UInt32
  payer : Pubkey
  addressLookupTableAccounts : List AddressLookupTableAccount
  computeUnitsPrice : Option UInt64
  deriving DecidableEq

def exceedsLimits (msgLen : ℕ) (computeUnits : UInt32) : Prop :=
  msgLen > MAX_MSG_LEN ∨ computeUnits > MAX_CU

def approachesLimits (msgLen : ℕ) (computeUnits : UInt32) : Prop :=
  msgLen ≥ MAX_MSG_LEN - 32 ∨ computeUnits ≥ MAX_CU - 200000

instance decidableExceedsLimits (n : ℕ) (u : UInt32) : Decidable (exceedsLimits n u) :=
  inferInstanceAs (Decidable (_ ∨ _))

instance decidableApproachesLimits (n : ℕ) (u : UInt32) : Decidable (approachesLimits n u) :=
  inferInstanceAs (Decidable (_ ∨ _))

namespace IxCompiler

def new (payer : Pubkey) (computeUnitsPrice : Option UInt64) : IxCompiler :=
  ⟨[], 0, payer, [], computeUnitsPrice⟩

variable (sdk : Sdk)

def getIxPriceIfAny (c : IxCompiler) : List Instruction :=
  (c.computeUnitsPrice.map sdk.setComputeUnitPrice).toList

/-- Compile instructions behind the two of the compute budget. -/
def tryCompile (c : IxCompiler) (computeUnits : UInt32) (ixs : List Instruction)
    (tables : List AddressLookupTableAccount) : Except TransactorError Message :=
  Message.tryCompile sdk c.payer
    ([sdk.setComputeUnitLimit computeUnits] ++ c.getIxPriceIfAny sdk ++ ixs) tables Hash.default

/-- Take the next instruction, and give the next message to send if there is one. -/
def compile (ix : Instruction) (tables : List AddressLookupTableAccount) (computeUnits : UInt32) :
    Stateful IxCompiler TransactorError (Option Message) := do
  let self ← get
  let msg ← liftExcept (self.tryCompile sdk computeUnits [ix] tables)
  if exceedsLimits (sdk.serialize msg).length computeUnits then
    throw .instructionTooBig
  let total := self.totalComputeUnits + computeUnits
  let msg ← liftExcept (self.tryCompile sdk total (self.ixBuffer ++ [ix])
    (self.addressLookupTableAccounts ++ tables))
  let msgLen := (sdk.serialize msg).length
  if exceedsLimits msgLen total then
    let msg ← liftExcept (self.tryCompile sdk self.totalComputeUnits self.ixBuffer
      self.addressLookupTableAccounts)
    modify fun c => { c with ixBuffer := [] }
    modify fun c => { c with ixBuffer := c.ixBuffer ++ [ix] }
    modify fun c => { c with addressLookupTableAccounts := [] }
    modify fun c => { c with addressLookupTableAccounts := c.addressLookupTableAccounts ++ tables }
    modify fun c => { c with totalComputeUnits := computeUnits }
    return some msg
  else if approachesLimits msgLen total then
    modify fun c => { c with ixBuffer := [] }
    modify fun c => { c with addressLookupTableAccounts := [] }
    modify fun c => { c with totalComputeUnits := 0 }
    return some msg
  modify fun c => { c with ixBuffer := c.ixBuffer ++ [ix] }
  modify fun c => { c with addressLookupTableAccounts := c.addressLookupTableAccounts ++ tables }
  modify fun c => { c with totalComputeUnits := c.totalComputeUnits + total }
  return none

/-- Give the message of what is in the buffer. -/
def flush : Stateful IxCompiler TransactorError (Option Message) := do
  let self ← get
  if self.ixBuffer = [] then
    return none
  let msg ← liftExcept (self.tryCompile sdk self.totalComputeUnits self.ixBuffer
    self.addressLookupTableAccounts)
  modify fun c => { c with ixBuffer := [] }
  modify fun c => { c with addressLookupTableAccounts := [] }
  modify fun c => { c with totalComputeUnits := 0 }
  return some msg

/-! ## What a call does -/

/-- The message of `ixs` with the compiler's payer and price. -/
def message (c : IxCompiler) (computeUnits : UInt32) (ixs : List Instruction)
    (tables : List AddressLookupTableAccount) : Message :=
  ⟨c.payer, [sdk.setComputeUnitLimit computeUnits] ++ c.getIxPriceIfAny sdk ++ ixs, tables,
    Hash.default⟩

/-- The message of what is in the buffer. -/
def buffered (c : IxCompiler) : Message :=
  c.message sdk c.totalComputeUnits c.ixBuffer c.addressLookupTableAccounts

/-- The message of what is in the buffer, with a bundle behind it. -/
def joint (c : IxCompiler) (b : InstructionBundle) (tables : List AddressLookupTableAccount) :
    Message :=
  c.message sdk (c.totalComputeUnits + b.computeUnits) (c.ixBuffer ++ [b.instruction])
    (c.addressLookupTableAccounts ++ tables)

/-- The message of a bundle alone. -/
def single (c : IxCompiler) (b : InstructionBundle) (tables : List AddressLookupTableAccount) :
    Message :=
  c.message sdk b.computeUnits [b.instruction] tables

/-- The message goes over the limits with these units. -/
def Exceeds (m : Message) (computeUnits : UInt32) : Prop :=
  exceedsLimits (sdk.serialize m).length computeUnits

/-- The message comes close to the limits with these units. -/
def Approaches (m : Message) (computeUnits : UInt32) : Prop :=
  approachesLimits (sdk.serialize m).length computeUnits

/-- The compiler with nothing in its buffer. -/
def emptied (c : IxCompiler) : IxCompiler :=
  { c with ixBuffer := [], addressLookupTableAccounts := [], totalComputeUnits := 0 }

/-- The bundle can wait : it fits on its own, and with the buffer it stays away from the limits. -/
def Waits (c : IxCompiler) (b : InstructionBundle) (tables : List AddressLookupTableAccount) :
    Prop :=
  sdk.compiles (c.single sdk b tables) = .ok () ∧
    ¬Exceeds sdk (c.single sdk b tables) b.computeUnits ∧
    sdk.compiles (c.joint sdk b tables) = .ok () ∧
    ¬Exceeds sdk (c.joint sdk b tables) (c.totalComputeUnits + b.computeUnits) ∧
    ¬Approaches sdk (c.joint sdk b tables) (c.totalComputeUnits + b.computeUnits)

/-- What `compile` does with a bundle : what it answers, and the compiler after it. -/
inductive Compiled (c : IxCompiler) (b : InstructionBundle)
    (tables : List AddressLookupTableAccount) :
    Except TransactorError (Option Message) → IxCompiler → Prop
  | failed (e) : ¬c.Waits sdk b tables → Compiled c b tables (.error e) c
  /-- The buffer goes out, and the bundle starts the next one. -/
  | restarts : ¬Exceeds sdk (c.single sdk b tables) b.computeUnits →
      Exceeds sdk (c.joint sdk b tables) (c.totalComputeUnits + b.computeUnits) →
      Compiled c b tables (.ok (some (c.buffered sdk)))
        { c with
          ixBuffer := [b.instruction]
          addressLookupTableAccounts := tables
          totalComputeUnits := b.computeUnits }
  /-- The buffer goes out with the bundle. -/
  | completes : ¬Exceeds sdk (c.single sdk b tables) b.computeUnits →
      ¬Exceeds sdk (c.joint sdk b tables) (c.totalComputeUnits + b.computeUnits) →
      Approaches sdk (c.joint sdk b tables) (c.totalComputeUnits + b.computeUnits) →
      Compiled c b tables (.ok (some (c.joint sdk b tables))) c.emptied
  | waits : c.Waits sdk b tables →
      Compiled c b tables (.ok none)
        { c with
          ixBuffer := c.ixBuffer ++ [b.instruction]
          addressLookupTableAccounts := c.addressLookupTableAccounts ++ tables
          totalComputeUnits := c.totalComputeUnits + (c.totalComputeUnits + b.computeUnits) }

/-- What `flush` does. -/
inductive Flushed (c : IxCompiler) : Except TransactorError (Option Message) → IxCompiler → Prop
  | nothing : c.ixBuffer = [] → Flushed c (.ok none) c
  | failed (e) : Flushed c (.error e) c
  | sends : c.ixBuffer ≠ [] → Flushed c (.ok (some (c.buffered sdk))) c.emptied

variable {sdk} {c : IxCompiler} {b : InstructionBundle} {tables : List AddressLookupTableAccount}

theorem tryCompile_cases (sdk : Sdk) (c : IxCompiler) (u : UInt32) (ixs : List Instruction)
    (tables : List AddressLookupTableAccount) :
    sdk.compiles (c.message sdk u ixs tables) = .ok () ∧
        c.tryCompile sdk u ixs tables = .ok (c.message sdk u ixs tables) ∨
      sdk.compiles (c.message sdk u ixs tables) ≠ .ok () ∧
        ∃ e, c.tryCompile sdk u ixs tables = .error e := by
  cases h : sdk.compiles (c.message sdk u ixs tables) with
  | error e =>
    refine .inr ⟨by simp, .failedToCompile e, ?_⟩
    rw [message] at h
    rw [tryCompile, Message.tryCompile, h]
    rfl
  | ok _ =>
    refine .inl ⟨rfl, ?_⟩
    rw [message] at h
    rw [tryCompile, Message.tryCompile, h]
    rfl

theorem compiled (sdk : Sdk) (c : IxCompiler) (b : InstructionBundle)
    (tables : List AddressLookupTableAccount) :
    Compiled sdk c b tables
      ((compile sdk b.instruction tables b.computeUnits).exec c).1
      ((compile sdk b.instruction tables b.computeUnits).exec c).2 := by
  rcases c.tryCompile_cases sdk b.computeUnits [b.instruction] tables with
    ⟨hok, hone⟩ | ⟨hbad, e, hone⟩
  swap
  · have hnot : ¬c.Waits sdk b tables := fun h => hbad h.1
    simpa [compile, hone] using Compiled.failed e hnot
  by_cases hbig : Exceeds sdk (c.single sdk b tables) b.computeUnits
  · have hnot : ¬c.Waits sdk b tables := fun h => h.2.1 hbig
    simp only [Exceeds, single] at hbig
    simpa [compile, hone, hbig] using Compiled.failed .instructionTooBig hnot
  have hbig' := hbig
  simp only [Exceeds, single] at hbig'
  rcases c.tryCompile_cases sdk (c.totalComputeUnits + b.computeUnits)
    (c.ixBuffer ++ [b.instruction]) (c.addressLookupTableAccounts ++ tables) with
    ⟨hok', hall⟩ | ⟨hbad, e, hall⟩
  swap
  · have hnot : ¬c.Waits sdk b tables := fun h => hbad h.2.2.1
    simpa [compile, hone, hbig', hall] using Compiled.failed e hnot
  by_cases hover : Exceeds sdk (c.joint sdk b tables) (c.totalComputeUnits + b.computeUnits)
  · have hover' := hover
    simp only [Exceeds, joint] at hover'
    rcases c.tryCompile_cases sdk c.totalComputeUnits c.ixBuffer c.addressLookupTableAccounts with
      ⟨-, hold⟩ | ⟨-, e, hold⟩
    · simpa [compile, hone, hbig', hall, hover', hold, Except.map, buffered]
        using Compiled.restarts hbig hover
    · have hnot : ¬c.Waits sdk b tables := fun h => h.2.2.2.1 hover
      simpa [compile, hone, hbig', hall, hover', hold] using Compiled.failed e hnot
  have hover' := hover
  simp only [Exceeds, joint] at hover'
  by_cases hnear : Approaches sdk (c.joint sdk b tables) (c.totalComputeUnits + b.computeUnits)
  · have hnear' := hnear
    simp only [Approaches, joint] at hnear'
    simpa [compile, hone, hbig', hall, hover', hnear', Except.map, joint, emptied]
      using Compiled.completes hbig hover hnear
  · have hnear' := hnear
    simp only [Approaches, joint] at hnear'
    simpa [compile, hone, hbig', hall, hover', hnear', Except.map]
      using Compiled.waits ⟨hok, hbig, hok', hover, hnear⟩

theorem flushed (sdk : Sdk) (c : IxCompiler) :
    Flushed sdk c ((flush sdk).exec c).1 ((flush sdk).exec c).2 := by
  by_cases hempty : c.ixBuffer = []
  · simpa [flush, hempty] using Flushed.nothing hempty
  rcases c.tryCompile_cases sdk c.totalComputeUnits c.ixBuffer c.addressLookupTableAccounts with
    ⟨-, hold⟩ | ⟨-, e, hold⟩
  · simpa [flush, hempty, hold, Except.map, buffered, emptied] using Flushed.sends hempty
  · simpa [flush, hempty, hold] using Flushed.failed e

end IxCompiler

end Photon
