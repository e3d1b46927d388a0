import Photon.GovExtension

/-!
# The extensions

Four extensions come with the executor : that of governance (`GovExtension`), those of two bridges,
which differ in the settings they are read from only, and that of `onefunc`. The executor asks for
three bytes of selector, two of them the type and the length, and hands the rest to the extension.

Governance and the bridges take four bytes of code off it, so they panic if there are fewer. The
bridges derive addresses from a root in their settings, and panic on a root of more than 32 bytes.
There is no other panic (`get_accounts_total_iff`), since a decoder that keeps to its types
(`Env.DecodesTyped`) leaves nothing for the other checks to fail on.
-/

namespace Photon

/-! ## Typed values -/

/-- A value of an ABI type. -/
inductive Token.HasType : Token → ParamType → Prop
  | address (a : EthAddress) : HasType (.address a) .address
  | bytes (b : Bytes) : HasType (.bytes b) .bytes
  | uint {n bits : ℕ} (h : n < 2 ^ bits) : HasType (.uint n) (.uint bits)
  | fixedBytes (b : Bytes) : HasType (.fixedBytes b) (.fixedBytes b.length)
  | array {items : List Token} {item : ParamType} (h : ∀ t ∈ items, HasType t item) :
      HasType (.array items) (.array item)
  | tuple {items : List Token} {types : List ParamType} (h : List.Forall₂ HasType items types) :
      HasType (.tuple items) (.tuple types)

/-- The ABI decoder gives a value of each type it is given. -/
def Env.DecodesTyped (env : Env) : Prop :=
  ∀ types b tokens, env.abiDecode types b = some tokens → List.Forall₂ Token.HasType tokens types

variable {env : Env}

theorem Env.DecodesTyped.decodesTuples (habi : env.DecodesTyped) : env.DecodesTuples := by
  intro n types b tokens hdec
  cases habi _ _ _ hdec with
  | cons htuple hnil =>
    cases hnil
    cases htuple with
    | tuple hitems =>
      cases hitems with
      | cons hfirst hrest =>
        cases hfirst with
        | fixedBytes id => exact ⟨id, _, rfl, rfl⟩

/-! ## Addresses of other programs -/

/-- The address that `program` derives from the seeds, or a panic if a seed is longer than 32
bytes. -/
def derivePda (find : List Bytes → Pubkey → Pubkey) (seeds : List Bytes) (program : Pubkey) :
    Except ExtensionError Pubkey := do
  require (∀ s ∈ seeds, s.length ≤ 32) ExtensionError.panic
  pure (find seeds program)

def SPL_TOKEN_ID : Pubkey :=
  pubkey58 "TokenkegQfeZyiNwAJbNbGKPFXCWuBvf9Ss623VQ5DA"

def SPL_TOKEN_2022_ID : Pubkey :=
  pubkey58 "TokenzQdBNbLqP5VEhdkAS6EPFLC1PHnBqCXEpPxuEb"

def ASSOCIATED_TOKEN_ID : Pubkey :=
  pubkey58 "ATokenGPvbdGVxr1b2hvZbsiqW5xWH25efTNsLJA8knL"

variable (env) (find : List Bytes → Pubkey → Pubkey)

/-! ## The bridges -/

/-- The extension of a bridge. -/
structure BridgeExtension where
  protocolId : Bytes32
  bridgeProgram : Pubkey
  bridgeRoot : Bytes
  coreRoot : Bytes
  mint : Pubkey
  coreProgram : Pubkey
  feeCollectorVault : Pubkey
  useToken2022 : Bool

/-- The settings that both bridges have. -/
structure BridgeSettings where
  protocolId : Bytes
  bridgeProgram : Pubkey
  coreProgram : Pubkey
  mint : Pubkey
  feeCollectorVault : Pubkey
  useToken2022 : Bool

/-- The settings of the bridge of `NGL`. -/
structure BridgeConfig extends BridgeSettings where
  seedRoot : String

/-- The settings of the bridge of `BORPA`. -/
structure BorpaBridgeConfig extends BridgeSettings where
  bridgeRoot : String
  coreRoot : String

/-- The extension with these settings and roots. A protocol id of another length is refused. -/
def BridgeSettings.load (settings : BridgeSettings) (bridgeRoot coreRoot : String) :
    Option BridgeExtension := do
  let protocolId ← Fixed.ofList? 32 settings.protocolId
  pure
    { protocolId := protocolId
      bridgeProgram := settings.bridgeProgram
      bridgeRoot := asBytes bridgeRoot
      coreRoot := asBytes coreRoot
      mint := settings.mint
      coreProgram := settings.coreProgram
      feeCollectorVault := settings.feeCollectorVault
      useToken2022 := settings.useToken2022 }

def BridgeConfig.fromConfig (settings : BridgeConfig) : Option BridgeExtension :=
  settings.load settings.seedRoot settings.seedRoot

def BorpaBridgeConfig.fromConfig (settings : BorpaBridgeConfig) : Option BridgeExtension :=
  settings.load settings.bridgeRoot settings.coreRoot

namespace BridgeExtension

/-- The types of `redeem` : `to`, `amount`, `fee`, `txHash`, `chainIdFrom` and `nonce`. -/
def redeemTypes : List ParamType :=
  [.bytes, .uint 256, .uint 256, .fixedBytes 32, .uint 256, .fixedBytes 32]

variable (e : BridgeExtension)

def tokenProgram : Pubkey :=
  if e.useToken2022 then SPL_TOKEN_2022_ID else SPL_TOKEN_ID

def getAccountsRedeem (params : Bytes) : Except ExtensionError (List AccountInfo) := do
  let authority ← derivePda find [e.bridgeRoot, asBytes "AUTHORITY"] e.bridgeProgram
  let config ← derivePda find [e.bridgeRoot, asBytes "CONFIG"] e.bridgeProgram
  let coreAuthority ← derivePda find [e.coreRoot, asBytes "AUTHORITY"] e.coreProgram
  let coreConfig ← derivePda find [e.coreRoot, asBytes "CONFIG"] e.coreProgram
  let params ← orFail (env.abiDecode redeemTypes params) ExtensionError.extension
  let first ← orFail params.head? ExtensionError.panic
  let user ← orFail first.intoBytes ExtensionError.panic
  let user ← orFail (Fixed.ofList? 32 user) ExtensionError.extension
  let userVault ←
    derivePda find [user.val, e.tokenProgram.val, e.mint.val] ASSOCIATED_TOKEN_ID
  pure [⟨e.bridgeProgram, false, false⟩, ⟨authority, false, false⟩, ⟨e.mint, false, true⟩,
    ⟨user, false, false⟩, ⟨userVault, false, true⟩, ⟨e.feeCollectorVault, false, true⟩,
    ⟨config, false, false⟩, ⟨coreConfig, false, false⟩, ⟨coreAuthority, false, false⟩,
    ⟨e.coreProgram, false, false⟩, ⟨e.tokenProgram, false, false⟩,
    ⟨ASSOCIATED_TOKEN_ID, false, false⟩, ⟨Pubkey.default, false, false⟩]

/-- The code of `redeem`. -/
def redeemCode : Bytes :=
  [0x99, 0x45, 0xe3, 0xd3]

/-- The accounts of a call through a bridge. A selector of less than four bytes is a panic. -/
def getAccounts (functionSelector params : Bytes) : Except ExtensionError (List AccountInfo) := do
  require (4 ≤ functionSelector.length) ExtensionError.panic
  if functionSelector.take 4 = redeemCode then e.getAccountsRedeem env find params else pure []

end BridgeExtension

/-! ## The extension of `onefunc` -/

def ONEFUNC_ID : Pubkey :=
  pubkey58 "EjpcUpcuJV2Mq9vjELMZHhgpvJ4ggoWtUYCTFqw6D9CZ"

structure OnefuncExtension where
  counterOwner : Pubkey

namespace OnefuncExtension

variable (e : OnefuncExtension)

def getAccountsInitCounter : Except ExtensionError (List AccountInfo) := do
  let counter ← derivePda find [asBytes "COUNTER", e.counterOwner.val] ONEFUNC_ID
  pure [⟨ONEFUNC_ID, false, false⟩, ⟨e.counterOwner, true, false⟩, ⟨counter, false, true⟩,
    ⟨Pubkey.default, false, true⟩]

def getAccountsIncrementOwned : Except ExtensionError (List AccountInfo) := do
  let counter ← derivePda find [asBytes "COUNTER", e.counterOwner.val] ONEFUNC_ID
  pure [⟨ONEFUNC_ID, false, false⟩, ⟨e.counterOwner, true, false⟩, ⟨counter, false, true⟩]

def getAccountsIncrement : Except ExtensionError (List AccountInfo) := do
  let counter ← derivePda find [asBytes "COUNTER"] ONEFUNC_ID
  pure [⟨ONEFUNC_ID, false, false⟩, ⟨counter, false, true⟩]

/-- The accounts of a call of `onefunc`, and none for a selector it does not know. -/
def getAccounts (functionSelector : Bytes) : Except ExtensionError (List AccountInfo) :=
  if functionSelector = asBytes "init_owned_counter" then e.getAccountsInitCounter find
  else if functionSelector = asBytes "increment" then getAccountsIncrement find
  else if functionSelector = asBytes "to_be_failed" then .ok [⟨ONEFUNC_ID, false, false⟩]
  else if functionSelector = asBytes "increment_owned_counter" then
    e.getAccountsIncrementOwned find
  else if functionSelector = [1, 2, 3, 4] then .ok [⟨ONEFUNC_ID, false, false⟩]
  else .ok []

end OnefuncExtension

/-! ## All of them -/

/-- An extension that comes with the executor. -/
inductive ShippedExtension
  | gov
  | bridge (e : BridgeExtension)
  | borpaBridge (e : BridgeExtension)
  | onefunc (e : OnefuncExtension)

namespace ShippedExtension

def getAccounts (functionSelector params : Bytes) :
    ShippedExtension → Except ExtensionError (List AccountInfo)
  | .gov => GovExtension.getAccounts env functionSelector params
  | .bridge e | .borpaBridge e => e.getAccounts env find functionSelector params
  | .onefunc e => e.getAccounts find functionSelector

/-- The code is there, and the root of a bridge that is asked for `redeem` is a seed. -/
def Takes (functionSelector : Bytes) : ShippedExtension → Prop
  | .gov => 4 ≤ functionSelector.length
  | .bridge e | .borpaBridge e => 4 ≤ functionSelector.length ∧
      (functionSelector.take 4 = BridgeExtension.redeemCode →
        e.bridgeRoot.length ≤ 32 ∧ e.coreRoot.length ≤ 32)
  | .onefunc _ => True

instance (functionSelector : Bytes) : DecidablePred (Takes functionSelector) := fun x => by
  cases x <;> unfold Takes <;> infer_instance

end ShippedExtension

section Total

variable {env find} {code params : Bytes}

theorem derivePda_root {root tag : Bytes} (program : Pubkey) (htag : tag.length ≤ 32) :
    derivePda find [root, tag] program =
      if root.length ≤ 32 then .ok (find [root, tag] program) else .error .panic := by
  simp only [derivePda, require, List.forall_mem_cons, htag, true_and]
  split_ifs with h h' h'
  · rfl
  · exact absurd h.1 h'
  · exact absurd ⟨h', by simp⟩ h
  · rfl

theorem derivePda_keys (a b c program : Pubkey) :
    derivePda find [a.val, b.val, c.val] program = .ok (find [a.val, b.val, c.val] program) := by
  simp only [derivePda, Except.bind_eq_ok, Except.require_eq_ok, Except.pure_eq_ok, exists_const,
    and_true, List.forall_mem_cons, a.property, b.property, c.property]
  simp

theorem BridgeExtension.getAccountsRedeem_total_iff (habi : env.DecodesTyped)
    (e : BridgeExtension) : e.getAccountsRedeem env find params ≠ .error .panic ↔
      e.bridgeRoot.length ≤ 32 ∧ e.coreRoot.length ≤ 32 := by
  have hauthority : (asBytes "AUTHORITY").length ≤ 32 := by decide +kernel
  have hconfig : (asBytes "CONFIG").length ≤ 32 := by decide +kernel
  simp only [getAccountsRedeem, derivePda_root _ hauthority, derivePda_root _ hconfig]
  by_cases hbridge : e.bridgeRoot.length ≤ 32
  · by_cases hcore : e.coreRoot.length ≤ 32
    · simp only [hbridge, hcore, if_true, bind, Except.bind]
      cases hdec : env.abiDecode redeemTypes params with
      | none => simp [orFail]
      | some tokens =>
        cases habi _ _ _ hdec with
        | cons hto hrest =>
          cases hto with
          | bytes b =>
            simp only [orFail, List.head?_cons, Token.intoBytes]
            cases Fixed.ofList? 32 b with
            | none => simp
            | some user => simp [derivePda_keys, pure, Except.pure]
    · simp [hbridge, hcore, bind, Except.bind]
  · simp [hbridge, bind, Except.bind]

theorem BridgeExtension.getAccounts_total_iff (habi : env.DecodesTyped) (e : BridgeExtension) :
    e.getAccounts env find code params ≠ .error .panic ↔ 4 ≤ code.length ∧
      (code.take 4 = redeemCode → e.bridgeRoot.length ≤ 32 ∧ e.coreRoot.length ≤ 32) := by
  by_cases hlen : 4 ≤ code.length
  · have hget : e.getAccounts env find code params =
        if code.take 4 = redeemCode then e.getAccountsRedeem env find params else .ok [] := by
      simp only [getAccounts, require, hlen, if_true]
      rfl
    rw [hget]
    by_cases hredeem : code.take 4 = redeemCode
    · simp only [hredeem, if_true, e.getAccountsRedeem_total_iff habi, hlen, true_and,
        forall_const]
    · simp [hredeem, hlen]
  · simp [getAccounts, require, hlen, bind, Except.bind]

theorem GovExtension.getAccounts_total_iff (habi : env.DecodesTyped) (hne : code ≠ []) :
    getAccounts env code params ≠ .error .panic ↔ 4 ≤ code.length := by
  by_cases hlen : 4 ≤ code.length
  · refine iff_of_true ?_ hlen
    cases hcode : GovOperation.tryFrom (beNat (code.take 4)) with
    | none => simp [getAccounts, require, orFail, hne, hlen, hcode, bind, Except.bind]
    | some g =>
      cases hdec : env.abiDecode [abiDecodeScheme g] params with
      | none =>
        simp [getAccounts, require, orFail, hne, hlen, hcode, decodeAbiParams, hdec,
          Except.mapError, bind, Except.bind]
      | some tokens =>
        obtain ⟨target, -, -, haccounts⟩ := target_of_decode habi.decodesTuples hlen hcode hdec
        simp [haccounts]
  · refine iff_of_false (not_not.2 ?_) hlen
    have hshort : (code.take 4).length ≠ 4 := by
      rw [List.length_take]
      omega
    simp [getAccounts, require, hne, hlen, bind, Except.bind]

theorem OnefuncExtension.getAccounts_total (e : OnefuncExtension) :
    e.getAccounts find code ≠ .error .panic := by
  have hcounter : (asBytes "COUNTER").length ≤ 32 := by decide +kernel
  have howned : derivePda find [asBytes "COUNTER", e.counterOwner.val] ONEFUNC_ID =
      .ok (find [asBytes "COUNTER", e.counterOwner.val] ONEFUNC_ID) := by
    simp [derivePda, require, hcounter, e.counterOwner.property, bind, Except.bind, pure,
      Except.pure]
  have hshared : derivePda find [asBytes "COUNTER"] ONEFUNC_ID =
      .ok (find [asBytes "COUNTER"] ONEFUNC_ID) := by
    simp [derivePda, require, hcounter, bind, Except.bind, pure, Except.pure]
  simp only [getAccounts, getAccountsInitCounter, getAccountsIncrementOwned, getAccountsIncrement,
    howned, hshared, bind, Except.bind, pure, Except.pure]
  split_ifs <;> simp

end Total

/-- For every extension and every selector and params that the executor hands on : `get_accounts`
returns exactly if four bytes of code follow the header, and the roots of a bridge that is asked
for `redeem` have at most 32 bytes. -/
theorem get_accounts_total_iff (env : Env) (find : List Bytes → Pubkey → Pubkey)
    (x : ShippedExtension) (functionSelector params : Bytes) (habi : env.DecodesTyped)
    (hlen : 3 ≤ functionSelector.length) :
    x.getAccounts env find (functionSelector.drop 2) params ≠ .error .panic ↔
      x.Takes (functionSelector.drop 2) := by
  cases x with
  | gov =>
    refine GovExtension.getAccounts_total_iff habi ?_
    rw [Ne, List.drop_eq_nil_iff]
    omega
  | bridge e | borpaBridge e => exact e.getAccounts_total_iff habi
  | onefunc e => exact iff_of_true e.getAccounts_total trivial

section Localnet

open Localnet

theorem decodesTyped_localnet : localnet.DecodesTyped := by
  intro types b tokens hdec
  simp only [localnet, abiDecode] at hdec
  split at hdec
  · split_ifs at hdec
    obtain rfl := Option.some_inj.1 hdec
    have hid : onefuncId.length = 32 := by decide +kernel
    exact .cons (.tuple (.cons (hid ▸ .fixedBytes onefuncId) (.cons (.bytes _) .nil))) .nil
  · simp at hdec

theorem get_accounts_total_localnet :
    ShippedExtension.gov.getAccounts localnet (fun _ _ => Pubkey.default)
      ((0 :: 4 :: Localnet.code).drop 2) Localnet.params ≠ .error .panic :=
  (get_accounts_total_iff localnet _ .gov (0 :: 4 :: Localnet.code) Localnet.params
    decodesTyped_localnet (by decide)).2 (by decide)

/-- The settings that the bridge of `NGL` is shipped with. -/
def nglConfig : BridgeConfig where
  protocolId := asBytes "Entangle" ++ List.replicate 24 0
  bridgeProgram := pubkey58 "br1JCj83uwQa4MtZ5g9C98PfGduMhJED3m4viYLAGUB"
  coreProgram := pubkey58 "c9c8teGDY7kYGRYELVSRfuZdsBa9Zc22zLWCYe9LFfc"
  seedRoot := "r0"
  mint := pubkey58 "ng1ecKYngpPBs89hWow7dtG46yC2r7AQWYmYHtq33BX"
  feeCollectorVault := pubkey58 "25EEnnUkSYZJyF3r8jW89UKsDJh8mUHYhmAnEre2PSAV"
  useToken2022 := false

/-- The settings that the bridge of `BORPA` is shipped with. -/
def borpaConfig : BorpaBridgeConfig where
  protocolId := asBytes "Borpa" ++ List.replicate 27 0
  bridgeProgram := pubkey58 "bBr6NPrnTLYQQzYP7fCyJq5tmgx23ZwutHE38BFG1JY"
  coreProgram := pubkey58 "bCreHQTy6vLbZ3j6DK7hKyGqh1zt7TRu23dkQitdJKN"
  bridgeRoot := "mainnet0"
  coreRoot := "mainnet0"
  mint := pubkey58 "BorpaZo2RdiYcriLJu2GRefZdgQPmv63nA8jsVVsMV7W"
  feeCollectorVault := pubkey58 "BY3xp2hVuHKM6tQTmym1M2fq4Jr8mAQcLznQDdiQFA2p"
  useToken2022 := true

/-- A code of one byte passes the check of the executor, and all but the extension of `onefunc`
panic on it, the bridges with the settings they are shipped with. -/
theorem short_code_panics :
    ∃ ngl ∈ nglConfig.fromConfig, ∃ borpa ∈ borpaConfig.fromConfig,
      ∀ x ∈ [ShippedExtension.gov, .bridge ngl, .borpaBridge borpa],
        x.getAccounts localnet (fun _ _ => Pubkey.default) (([0, 1, 0x99] : Bytes).drop 2) [] =
          .error .panic := by
  have hload : ∀ (settings : BridgeSettings) (bridgeRoot coreRoot : String),
      settings.protocolId.length = 32 → ∃ e, settings.load bridgeRoot coreRoot = some e := by
    intro settings bridgeRoot coreRoot hid
    simp [BridgeSettings.load, Fixed.ofList?, hid]
  obtain ⟨ngl, hngl⟩ := hload nglConfig.toBridgeSettings "r0" "r0" (by decide +kernel)
  obtain ⟨borpa, hborpa⟩ :=
    hload borpaConfig.toBridgeSettings "mainnet0" "mainnet0" (by decide +kernel)
  refine ⟨ngl, hngl, borpa, hborpa, ?_⟩
  simp only [List.forall_mem_cons, List.not_mem_nil, false_implies, implies_true, and_true]
  exact ⟨rfl, rfl, rfl⟩

end Localnet

end Photon
