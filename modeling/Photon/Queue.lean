import Photon.GovExtension
import Photon.Json

/-!
# Messages in the queues

The transmitters exchange operations as JSON : new proposals and signed operations, wrapped in a
message with a version, a type and the data. Every field of an operation is written in a format
that is read back, except for the transaction id. It is cut into chunks of 32 bytes, of which
exactly two are written, the second as short as it is, and any number of whole ones is read.

So a message comes back if its transaction id has 64 bytes, and is not written if it has at most
32. In between the reader refuses it, and beyond 64 bytes the rest of the id is lost. The other
way round, an operation that was read can be written again as the same fields only if it came with
two chunks (`queue_round_trip_iff`).
-/

namespace Photon

open Json (Format)

/-! ## The transaction id -/

/-- The next of the chunks of 32 bytes, and what is left. -/
def nextChunk (bs : Bytes) : Option (Bytes × Bytes) :=
  if bs = [] then none else some (bs.take 32, bs.drop 32)

def serializeTxId (txId : Bytes) : Option Json := do
  let (first, rest) ← nextChunk txId
  let (second, _) ← nextChunk rest
  pure (.arr [Format.bytes.write first, Format.bytes.write second])

/-- Whole chunks, in any number. -/
def chunkFormat : Format (List Bytes32) :=
  (Format.u8.array 32).list

def deserializeTxId (j : Json) : Option Bytes :=
  (chunkFormat.read j).map fun chunks => (chunks.map Subtype.val).flatten

variable {txId : Bytes} {j : Json} {values : List Json}

theorem serializeTxId_eq_some : serializeTxId txId = some j ↔ 32 < txId.length ∧
    j = .arr [Format.bytes.write (txId.take 32), Format.bytes.write ((txId.drop 32).take 32)] := by
  simp only [serializeTxId, nextChunk, Option.bind_eq_bind, Option.bind_eq_some_iff,
    Option.ite_none_left_eq_some, Option.some.injEq, Option.pure_def, Prod.exists, Prod.mk.injEq]
  constructor
  · rintro ⟨_, _, ⟨-, rfl, rfl⟩, _, _, ⟨hrest, rfl, rfl⟩, rfl⟩
    rw [List.drop_eq_nil_iff] at hrest
    exact ⟨by omega, rfl⟩
  · rintro ⟨hlen, rfl⟩
    have hne : txId ≠ [] := by
      rintro rfl
      simp at hlen
    have hrest : txId.drop 32 ≠ [] := by
      rw [Ne, List.drop_eq_nil_iff]
      omega
    exact ⟨_, _, ⟨hne, rfl, rfl⟩, _, _, ⟨hrest, rfl, rfl⟩, rfl⟩

theorem deserializeTxId_eq_some : deserializeTxId j = some txId ↔
    ∃ chunks, chunkFormat.write chunks = j ∧ (chunks.map Subtype.val).flatten = txId := by
  simp only [deserializeTxId, Option.map_eq_some_iff, Format.read_eq_some]

theorem length_chunks (chunks : List Bytes32) :
    (chunks.map Subtype.val).flatten.length = 32 * chunks.length := by
  induction chunks with
  | nil => rfl
  | cons c chunks ih =>
    rw [List.map_cons, List.flatten_cons, List.length_append, c.property, ih, List.length_cons]
    omega

theorem length_of_chunkFormat {chunks : List Bytes32} {items : List Json}
    (h : chunkFormat.write chunks = .arr items) : items.length = chunks.length := by
  rw [← Json.arr.inj h, List.length_map]

theorem exists_chunks (hlen : txId.length = 64) :
    ∃ a b : Bytes32, (([a, b] : List Bytes32).map Subtype.val).flatten = txId := by
  refine ⟨⟨txId.take 32, by simp [hlen]⟩, ⟨txId.drop 32, by simp [hlen]⟩, ?_⟩
  simp

theorem serializeTxId_chunks (a b : Bytes32) :
    serializeTxId (([a, b] : List Bytes32).map Subtype.val).flatten =
      some (chunkFormat.write [a, b]) := by
  have ha := a.property
  have hb := b.property
  rw [serializeTxId_eq_some, length_chunks]
  simp [chunkFormat, Format.list, Format.array, ha, hb]

/-- What is written is read back if it is two whole chunks. -/
theorem deserializeTxId_iff (h : serializeTxId txId = some j) :
    deserializeTxId j = some txId ↔ txId.length = 64 := by
  constructor
  · intro hr
    obtain ⟨-, rfl⟩ := serializeTxId_eq_some.1 h
    obtain ⟨chunks, hchunks, rfl⟩ := deserializeTxId_eq_some.1 hr
    rw [length_chunks, ← length_of_chunkFormat hchunks]
    rfl
  · intro hlen
    obtain ⟨a, b, rfl⟩ := exists_chunks hlen
    obtain rfl := Option.some_inj.1 ((serializeTxId_chunks a b).symm.trans h)
    exact deserializeTxId_eq_some.2 ⟨_, rfl, rfl⟩

/-- What is read is written back if it came in two chunks. -/
theorem serializeTxId_iff (h : deserializeTxId j = some txId) :
    serializeTxId txId = some j ↔ txId.length = 64 := by
  constructor
  · intro hw
    exact (deserializeTxId_iff hw).1 h
  · intro hlen
    obtain ⟨chunks, rfl, rfl⟩ := deserializeTxId_eq_some.1 h
    rw [length_chunks] at hlen
    obtain ⟨a, b, rfl⟩ := List.length_eq_two.1 (by omega : chunks.length = 2)
    exact serializeTxId_chunks a b

/-! ## Operations -/

namespace MessageData

def fieldNames : List String :=
  ["protocolId", "meta", "srcChainId", "srcBlockNumber", "srcOpTxId", "nonce", "destChainId",
    "protocolAddr", "functionSelector", "params", "reserved"]

/-- The values of the fields, with `txId` for the transaction id. -/
def fieldsWith (d : MessageData) (txId : Json) : List Json :=
  [(Format.u8.array 32).write d.protocolId, (Format.u8.array 32).write d.opMeta,
    Format.u128.write d.srcChainId, Format.u64.write d.srcBlockNumber, txId,
    Format.u64.write d.nonce, Format.u128.write d.destChainId, Format.bytes.write d.protocolAddr,
    Format.bytes.write d.functionSelector, Format.bytes.write d.params,
    Format.bytes.write d.reserved]

def serializeFields (d : MessageData) : Option (List Json) :=
  (serializeTxId d.srcOpTxId).map d.fieldsWith

def deserializeFields : List Json → Option MessageData
  | [protocolId, opMeta, srcChainId, srcBlockNumber, srcOpTxId, nonce, destChainId, protocolAddr,
      functionSelector, params, reserved] => do
    let protocolId ← (Format.u8.array 32).read protocolId
    let opMeta ← (Format.u8.array 32).read opMeta
    let srcChainId ← Format.u128.read srcChainId
    let srcBlockNumber ← Format.u64.read srcBlockNumber
    let srcOpTxId ← deserializeTxId srcOpTxId
    let nonce ← Format.u64.read nonce
    let destChainId ← Format.u128.read destChainId
    let protocolAddr ← Format.bytes.read protocolAddr
    let functionSelector ← Format.bytes.read functionSelector
    let params ← Format.bytes.read params
    let reserved ← Format.bytes.read reserved
    pure
      { protocolId := protocolId
        opMeta := opMeta
        srcChainId := srcChainId
        srcBlockNumber := srcBlockNumber
        srcOpTxId := srcOpTxId
        nonce := nonce
        destChainId := destChainId
        protocolAddr := protocolAddr
        functionSelector := functionSelector
        params := params
        reserved := reserved }
  | _ => none

variable {d : MessageData}

theorem serializeFields_eq_some : d.serializeFields = some values ↔
    ∃ txId, serializeTxId d.srcOpTxId = some txId ∧ d.fieldsWith txId = values := by
  simp only [serializeFields, Option.map_eq_some_iff]

/-- All fields but the transaction id are read back. -/
theorem deserializeFields_eq_some : deserializeFields values = some d ↔
    ∃ txId, deserializeTxId txId = some d.srcOpTxId ∧ d.fieldsWith txId = values := by
  constructor
  · intro h
    unfold deserializeFields at h
    split at h
    · simp only [Option.bind_eq_bind, Option.bind_eq_some_iff, Format.read_eq_some,
        Option.pure_def, Option.some.injEq] at h
      obtain ⟨_, rfl, _, rfl, _, rfl, _, rfl, txId, htx, _, rfl, _, rfl, _, rfl, _, rfl, _, rfl,
        _, rfl, rfl⟩ := h
      exact ⟨_, htx, rfl⟩
    · simp at h
  · rintro ⟨txId, htx, rfl⟩
    simp [deserializeFields, fieldsWith, htx]

theorem fieldsWith_inj {x y : Json} (h : d.fieldsWith x = d.fieldsWith y) : x = y := by
  simpa [fieldsWith] using h

theorem deserializeFields_iff (h : d.serializeFields = some values) :
    deserializeFields values = some d ↔ d.srcOpTxId.length = 64 := by
  obtain ⟨x, hx, rfl⟩ := serializeFields_eq_some.1 h
  rw [← deserializeTxId_iff hx, deserializeFields_eq_some]
  constructor
  · rintro ⟨y, hy, heq⟩
    rwa [← fieldsWith_inj heq]
  · exact fun hx' => ⟨x, hx', rfl⟩

theorem serializeFields_iff (h : deserializeFields values = some d) :
    d.serializeFields = some values ↔ d.srcOpTxId.length = 64 := by
  obtain ⟨x, hx, rfl⟩ := deserializeFields_eq_some.1 h
  rw [← serializeTxId_iff hx, serializeFields_eq_some]
  constructor
  · rintro ⟨y, hy, heq⟩
    rwa [← fieldsWith_inj heq]
  · exact fun hx' => ⟨x, hx', rfl⟩

theorem exists_serializeFields_iff :
    (∃ values, d.serializeFields = some values) ↔ 32 < d.srcOpTxId.length := by
  constructor
  · rintro ⟨values, h⟩
    obtain ⟨x, hx, -⟩ := serializeFields_eq_some.1 h
    exact (serializeTxId_eq_some.1 hx).1
  · intro hlen
    exact ⟨_, serializeFields_eq_some.2 ⟨_, serializeTxId_eq_some.2 ⟨hlen, rfl⟩, rfl⟩⟩

def serialize (d : MessageData) : Option Json :=
  d.serializeFields.map fun values => .obj (fieldNames.zip values)

def deserialize (j : Json) : Option MessageData :=
  (j.fields fieldNames).bind deserializeFields

theorem length_of_serializeFields (h : d.serializeFields = some values) :
    fieldNames.length = values.length := by
  obtain ⟨txId, -, rfl⟩ := serializeFields_eq_some.1 h
  rfl

/-- The fields are found among other entries. -/
theorem deserialize_obj {entries : List (String × Json)} (h : d.serializeFields = some values)
    (hnodup : (entries.map Prod.fst).Nodup) (hsub : fieldNames.zip values ⊆ entries) :
    deserialize (.obj entries) = deserializeFields values := by
  rw [deserialize, Json.fields,
    Json.entries?_of_subset hnodup (length_of_serializeFields h) hsub]
  rfl

theorem deserialize_zip (h : d.serializeFields = some values) :
    deserialize (.obj (fieldNames.zip values)) = deserializeFields values := by
  refine deserialize_obj h ?_ (List.Subset.refl _)
  rw [List.map_fst_zip (length_of_serializeFields h).le]
  decide

/-- An operation that was read is written as the same fields if its transaction id came in two
chunks. -/
theorem serialize_iff (hj : deserialize j = some d) :
    (∃ j', d.serialize = some j' ∧ j'.fields fieldNames = j.fields fieldNames) ↔
      d.srcOpTxId.length = 64 := by
  obtain ⟨values, hfields, hread⟩ := Option.bind_eq_some_iff.1 hj
  rw [← serializeFields_iff hread, hfields]
  constructor
  · rintro ⟨j', hj', heq⟩
    obtain ⟨values', h, rfl⟩ := Option.map_eq_some_iff.1 hj'
    rw [Json.fields_zip (by decide) (length_of_serializeFields h)] at heq
    rwa [← Option.some_inj.1 heq]
  · intro h
    exact ⟨_, Option.map_eq_some_iff.2 ⟨values, h, rfl⟩,
      Json.fields_zip (by decide) (length_of_serializeFields h)⟩

end MessageData

/-! ## Messages -/

namespace TransmitterSignature

def fieldNames : List String :=
  ["v", "r", "s"]

def serialize (sig : TransmitterSignature) : Json :=
  .obj (fieldNames.zip
    [Format.u8.write sig.v, Format.bytes.write sig.r, Format.bytes.write sig.s])

def deserialize (j : Json) : Option TransmitterSignature := do
  match ← j.fields fieldNames with
  | [v, r, s] =>
    let v ← Format.u8.read v
    let r ← Format.bytes.read r
    let s ← Format.bytes.read s
    pure ⟨v, r, s⟩
  | _ => none

theorem deserialize_serialize (sig : TransmitterSignature) :
    deserialize sig.serialize = some sig := by
  have hfields : sig.serialize.fields fieldNames =
      some [Format.u8.write sig.v, Format.bytes.write sig.r, Format.bytes.write sig.s] :=
    Json.fields_zip (by decide) rfl
  rw [deserialize, hfields]
  simp

theorem mapM_deserialize (sigs : List TransmitterSignature) :
    (sigs.map serialize).mapM deserialize = some sigs := by
  induction sigs with
  | nil => rfl
  | cons sig sigs ih => simp [deserialize_serialize, ih]

end TransmitterSignature

namespace Queue

/-- A signed operation, with a block number of 64 bits. -/
abbrev SignedOperation :=
  { s : Photon.SignedOperation // s.eobBlockNumber < 2 ^ 64 }

namespace SignedOperation

def fieldNames : List String :=
  ["operation", "signatures", "eobBlockNumber"]

def serialize (s : SignedOperation) : Option Json := do
  let operation ← s.val.operationData.serialize
  pure (.obj (fieldNames.zip
    [operation, .arr (s.val.signatures.map TransmitterSignature.serialize),
      Format.u64.write (UInt64.ofNat s.val.eobBlockNumber)]))

def deserialize (j : Json) : Option SignedOperation := do
  match ← j.fields fieldNames with
  | [operation, signatures, eobBlockNumber] =>
    let operation ← MessageData.deserialize operation
    let items ← signatures.items
    let signatures ← items.mapM TransmitterSignature.deserialize
    let eobBlockNumber ← Format.u64.read eobBlockNumber
    pure ⟨⟨operation, signatures, eobBlockNumber.toNat⟩, eobBlockNumber.toNat_lt⟩
  | _ => none

end SignedOperation

/-- A proposal. `needCheck` is not sent. -/
structure Propose where
  needCheck : Bool
  latestBlockId : String
  operationData : MessageData

namespace Propose

/-- The fields of the operation stand beside the block id. -/
def serialize (p : Propose) : Option Json := do
  let values ← p.operationData.serializeFields
  pure (.obj (("latestBlockId", .str p.latestBlockId) :: MessageData.fieldNames.zip values))

def deserialize : Json → Option Propose
  | .obj entries => do
    let latestBlockId ← Json.entry "latestBlockId" entries
    let latestBlockId ← Format.string.read latestBlockId
    let operationData ← MessageData.deserialize (.obj entries)
    pure ⟨false, latestBlockId, operationData⟩
  | _ => none

end Propose

/-- The news that an operation was executed. `needCheck` is not sent. -/
structure ProposalExecuted where
  needCheck : Bool
  lastWatchedBlock : String
  opHash : Bytes32
  executor : Pubkey

namespace ProposalExecuted

def fieldNames : List String :=
  ["lastWatchedBlock", "opHash", "executor"]

def serialize (e : ProposalExecuted) : Json :=
  .obj (fieldNames.zip [.str e.lastWatchedBlock, (Format.u8.array 32).write e.opHash,
    (Format.u8.array 32).write e.executor])

def deserialize (j : Json) : Option ProposalExecuted := do
  match ← j.fields fieldNames with
  | [lastWatchedBlock, opHash, executor] =>
    let lastWatchedBlock ← Format.string.read lastWatchedBlock
    let opHash ← (Format.u8.array 32).read opHash
    let executor ← (Format.u8.array 32).read executor
    pure ⟨false, lastWatchedBlock, opHash, executor⟩
  | _ => none

end ProposalExecuted

inductive TransmitterMsgImpl
  | propose (p : Propose)
  | proposalExecuted (e : ProposalExecuted)
  | signedOperationData (s : SignedOperation)

namespace TransmitterMsgImpl

/-- The operation of a message. -/
def operationData : TransmitterMsgImpl → Option MessageData
  | .propose p => some p.operationData
  | .proposalExecuted _ => none
  | .signedOperationData s => some s.val.operationData

/-- The type and the data. -/
def serialize : TransmitterMsgImpl → Option (String × Json)
  | .propose p => p.serialize.map fun j => ("propose", j)
  | .proposalExecuted e => some ("proposalExecuted", e.serialize)
  | .signedOperationData s => s.serialize.map fun j => ("signedOperation", j)

def deserialize (type : String) (data : Json) : Option TransmitterMsgImpl :=
  if type = "propose" then (Propose.deserialize data).map .propose
  else if type = "proposalExecuted" then
    (ProposalExecuted.deserialize data).map .proposalExecuted
  else if type = "signedOperation" then
    (SignedOperation.deserialize data).map .signedOperationData
  else none

end TransmitterMsgImpl

/-- A message with its version. -/
inductive TransmitterMsgVersioned
  | v1 (msg : TransmitterMsgImpl)

namespace TransmitterMsgVersioned

def fieldNames : List String :=
  ["version", "type", "data"]

def operationData : TransmitterMsgVersioned → Option MessageData
  | .v1 msg => msg.operationData

def serializeEntries : TransmitterMsgVersioned → Option (List (String × Json))
  | .v1 msg => do
    let (type, data) ← msg.serialize
    pure (fieldNames.zip [.str "1.0", .str type, data])

def serialize (msg : TransmitterMsgVersioned) : Option Json :=
  msg.serializeEntries.map .obj

def deserialize (j : Json) : Option TransmitterMsgVersioned := do
  match ← j.fields fieldNames with
  | [version, type, data] =>
    let version ← Format.string.read version
    let type ← Format.string.read type
    if version = "1.0" then
      let msg ← TransmitterMsgImpl.deserialize type data
      pure (.v1 msg)
    else none
  | _ => none

end TransmitterMsgVersioned

/-- A message and whether it has to be checked. -/
structure TransmitterMsg where
  needCheck : Option Bool
  msg : TransmitterMsgVersioned

namespace TransmitterMsg

def serialize (m : TransmitterMsg) : Option Json := do
  let entries ← m.msg.serializeEntries
  pure (.obj ((m.needCheck.map fun b => ("needCheck", Json.bool b)).toList ++ entries))

def deserialize : Json → Option TransmitterMsg
  | .obj entries => do
    let needCheck ← match ← Json.optionalEntry "needCheck" entries with
      | none | some .null => some none
      | some (.bool b) => some (some b)
      | some _ => none
    let msg ← TransmitterMsgVersioned.deserialize (.obj entries)
    pure ⟨needCheck, msg⟩
  | _ => none

end TransmitterMsg

/-! ## Round trips -/

variable {d : MessageData} {data : Json} {type : String}

/-- A proposal is read with the operation that its fields are read as. -/
theorem Propose.operationData_deserialize {p : Propose}
    (h : p.operationData.serializeFields = some values) (hj : p.serialize = some j) :
    (Propose.deserialize j).map Propose.operationData = MessageData.deserializeFields values := by
  simp only [Propose.serialize, h, Option.bind_eq_bind, Option.bind_some, Option.pure_def,
    Option.some.injEq] at hj
  subst hj
  have hnodup : ((("latestBlockId", Json.str p.latestBlockId) ::
      MessageData.fieldNames.zip values).map Prod.fst).Nodup := by
    rw [List.map_cons, List.map_fst_zip (MessageData.length_of_serializeFields h).le]
    exact (by decide : ("latestBlockId" :: MessageData.fieldNames).Nodup)
  have hid := Json.entry_of_mem hnodup List.mem_cons_self
  have hop := MessageData.deserialize_obj h hnodup (List.subset_cons_self _ _)
  simp only [Propose.deserialize, hid, hop]
  cases MessageData.deserializeFields values <;> rfl

theorem SignedOperation.operationData_deserialize {s : SignedOperation}
    (h : s.val.operationData.serializeFields = some values) (hj : s.serialize = some j) :
    (SignedOperation.deserialize j).map (fun s => s.val.operationData) =
      MessageData.deserializeFields values := by
  simp only [SignedOperation.serialize, MessageData.serialize, h, Option.map_some,
    Option.bind_eq_bind, Option.bind_some, Option.pure_def, Option.some.injEq] at hj
  subst hj
  rw [SignedOperation.deserialize, Json.fields_zip (by decide) rfl]
  simp only [Option.bind_eq_bind, Option.bind_some, Json.items,
    TransmitterSignature.mapM_deserialize, Format.read_write, MessageData.deserialize_zip h]
  cases MessageData.deserializeFields values <;> rfl

/-- A message is read with the operation that its fields are read as. -/
theorem TransmitterMsgImpl.operationData_deserialize {m : TransmitterMsgImpl}
    (hd : m.operationData = some d) (h : d.serializeFields = some values)
    (hm : m.serialize = some (type, data)) :
    (TransmitterMsgImpl.deserialize type data).bind TransmitterMsgImpl.operationData =
      MessageData.deserializeFields values := by
  cases m with
  | propose p =>
    obtain rfl := Option.some_inj.1 hd
    obtain ⟨j, hj, hpair⟩ := Option.map_eq_some_iff.1 hm
    obtain ⟨rfl, rfl⟩ := Prod.mk.inj hpair
    rw [← Propose.operationData_deserialize h hj, TransmitterMsgImpl.deserialize, if_pos rfl]
    cases Propose.deserialize j <;> rfl
  | proposalExecuted e => cases hd
  | signedOperationData s =>
    obtain rfl := Option.some_inj.1 hd
    obtain ⟨j, hj, hpair⟩ := Option.map_eq_some_iff.1 hm
    obtain ⟨rfl, rfl⟩ := Prod.mk.inj hpair
    rw [← SignedOperation.operationData_deserialize h hj, TransmitterMsgImpl.deserialize,
      if_neg (by decide), if_neg (by decide), if_pos rfl]
    cases SignedOperation.deserialize j <;> rfl

theorem TransmitterMsgImpl.exists_serializeFields {m : TransmitterMsgImpl}
    (hd : m.operationData = some d) (hm : m.serialize = some (type, data)) :
    ∃ values, d.serializeFields = some values := by
  cases m with
  | propose p =>
    obtain rfl := Option.some_inj.1 hd
    obtain ⟨j, hj, -⟩ := Option.map_eq_some_iff.1 hm
    obtain ⟨values, h, -⟩ := Option.bind_eq_some_iff.1 hj
    exact ⟨values, h⟩
  | proposalExecuted e => cases hd
  | signedOperationData s =>
    obtain rfl := Option.some_inj.1 hd
    obtain ⟨j, hj, -⟩ := Option.map_eq_some_iff.1 hm
    obtain ⟨operation, hop, -⟩ := Option.bind_eq_some_iff.1 hj
    obtain ⟨values, h, -⟩ := Option.map_eq_some_iff.1 hop
    exact ⟨values, h⟩

theorem TransmitterMsgImpl.exists_serialize {m : TransmitterMsgImpl}
    (hd : m.operationData = some d) (h : d.serializeFields = some values) :
    ∃ type data, m.serialize = some (type, data) := by
  cases m with
  | propose p =>
    obtain rfl := Option.some_inj.1 hd
    exact ⟨_, _, by rw [TransmitterMsgImpl.serialize, Propose.serialize, h]; rfl⟩
  | proposalExecuted e => cases hd
  | signedOperationData s =>
    obtain rfl := Option.some_inj.1 hd
    exact ⟨_, _, by
      rw [TransmitterMsgImpl.serialize, SignedOperation.serialize, MessageData.serialize, h]
      rfl⟩

namespace TransmitterMsgVersioned

variable {m : TransmitterMsgVersioned} {entries extra : List (String × Json)}

theorem exists_serializeEntries (hd : m.operationData = some d)
    (h : d.serializeFields = some values) : ∃ entries, m.serializeEntries = some entries := by
  obtain ⟨msg⟩ := m
  obtain ⟨type, data, hmsg⟩ := TransmitterMsgImpl.exists_serialize hd h
  exact ⟨fieldNames.zip [.str "1.0", .str type, data], by simp [serializeEntries, hmsg]⟩

theorem exists_serializeFields (hd : m.operationData = some d)
    (hm : m.serializeEntries = some entries) : ∃ values, d.serializeFields = some values := by
  obtain ⟨msg⟩ := m
  obtain ⟨⟨type, data⟩, hmsg, -⟩ := Option.bind_eq_some_iff.1 hm
  exact TransmitterMsgImpl.exists_serializeFields hd hmsg

theorem map_fst_entries (hm : m.serializeEntries = some entries) :
    entries.map Prod.fst = fieldNames := by
  obtain ⟨msg⟩ := m
  obtain ⟨⟨type, data⟩, -, hentries⟩ := Option.bind_eq_some_iff.1 hm
  obtain rfl := Option.some_inj.1 hentries
  rfl

/-- Other entries in front do not matter. -/
theorem operationData_deserialize_append (hd : m.operationData = some d)
    (h : d.serializeFields = some values) (hm : m.serializeEntries = some entries)
    (hextra : (extra.map Prod.fst ++ fieldNames).Nodup) :
    (deserialize (.obj (extra ++ entries))).bind operationData =
      MessageData.deserializeFields values := by
  have hnodup : ((extra ++ entries).map Prod.fst).Nodup := by
    rwa [List.map_append, map_fst_entries hm]
  obtain ⟨msg⟩ := m
  obtain ⟨⟨type, data⟩, hmsg, hentries⟩ := Option.bind_eq_some_iff.1 hm
  obtain rfl := Option.some_inj.1 hentries
  have hfields : (Json.obj (extra ++ fieldNames.zip [.str "1.0", .str type, data])).fields
      fieldNames = some [.str "1.0", .str type, data] :=
    Json.entries?_of_subset hnodup rfl (List.subset_append_right _ _)
  rw [← TransmitterMsgImpl.operationData_deserialize hd h hmsg, deserialize, hfields]
  simp only [Option.bind_eq_bind, Option.bind_some, Format.string, if_true]
  cases TransmitterMsgImpl.deserialize type data <;> rfl

theorem operationData_deserialize (hd : m.operationData = some d)
    (h : d.serializeFields = some values) (hm : m.serializeEntries = some entries) :
    (deserialize (.obj entries)).bind operationData = MessageData.deserializeFields values := by
  have hnodup : (([] : List (String × Json)).map Prod.fst ++ fieldNames).Nodup := by decide
  exact operationData_deserialize_append hd h hm hnodup

end TransmitterMsgVersioned

theorem TransmitterMsg.operationData_deserialize {m : TransmitterMsg}
    (hd : m.msg.operationData = some d) (h : d.serializeFields = some values)
    (hj : m.serialize = some j) :
    (TransmitterMsg.deserialize j).bind (fun m => m.msg.operationData) =
      MessageData.deserializeFields values := by
  obtain ⟨needCheck, msg⟩ := m
  obtain ⟨entries, hentries, hj⟩ := Option.bind_eq_some_iff.1 hj
  obtain rfl := Option.some_inj.1 hj
  have hkeys : ∀ e ∈ entries, e.1 ≠ "needCheck" := by
    intro e he
    have hmem := List.mem_map_of_mem (f := Prod.fst) he
    rw [TransmitterMsgVersioned.map_fst_entries hentries] at hmem
    rintro hkey
    rw [hkey] at hmem
    exact absurd hmem (by decide)
  have hnone : entries.filter (·.1 = "needCheck") = [] := by simpa using hkeys
  cases needCheck with
  | none =>
    rw [← TransmitterMsgVersioned.operationData_deserialize hd h hentries]
    simp only [TransmitterMsg.deserialize, Json.optionalEntry, hnone, Option.map_none,
      Option.toList_none, List.nil_append, Option.bind_eq_bind, Option.bind_some]
    cases TransmitterMsgVersioned.deserialize (.obj entries) <;> rfl
  | some b =>
    have hextra : (List.map Prod.fst [("needCheck", Json.bool b)] ++
        TransmitterMsgVersioned.fieldNames).Nodup := by
      simp only [List.map_cons, List.map_nil]
      decide
    rw [← TransmitterMsgVersioned.operationData_deserialize_append hd h hentries hextra]
    simp only [TransmitterMsg.deserialize, Json.optionalEntry, hnone, Option.map_some,
      Option.toList_some, List.cons_append, List.nil_append, List.filter_cons, decide_true, if_true,
      Option.bind_eq_bind, Option.bind_some]
    cases TransmitterMsgVersioned.deserialize (.obj (("needCheck", .bool b) :: entries)) <;> rfl

/-- For every message with an operation and both ways to write it : what is written is read back
with the same operation if the transaction id has at most 32 bytes, and then nothing is written,
or exactly 64, and only then. And wherever this operation is read from, it is written again as the
same fields if the id has 64 bytes, and only then. -/
theorem queue_round_trip_iff (m : TransmitterMsg) (d : MessageData)
    (hd : m.msg.operationData = some d) :
    ((∀ j, m.serialize = some j →
        ∃ m', TransmitterMsg.deserialize j = some m' ∧ m'.msg.operationData = some d) ∧
      (∀ j, m.msg.serialize = some j →
        ∃ m', TransmitterMsgVersioned.deserialize j = some m' ∧ m'.operationData = some d) ↔
      d.srcOpTxId.length ≤ 32 ∨ d.srcOpTxId.length = 64) ∧
    ∀ j, MessageData.deserialize j = some d →
      ((∃ j', d.serialize = some j' ∧
          j'.fields MessageData.fieldNames = j.fields MessageData.fieldNames) ↔
        d.srcOpTxId.length = 64) := by
  refine ⟨?_, fun j hj => MessageData.serialize_iff hj⟩
  by_cases hlen : 32 < d.srcOpTxId.length
  · obtain ⟨values, h⟩ := MessageData.exists_serializeFields_iff.2 hlen
    obtain ⟨entries, hentries⟩ := TransmitterMsgVersioned.exists_serializeEntries hd h
    have hread := MessageData.deserializeFields_iff h
    constructor
    · rintro ⟨-, hversioned⟩
      obtain ⟨m', hm', hd'⟩ := hversioned (.obj entries) (by
        rw [TransmitterMsgVersioned.serialize, hentries]
        rfl)
      rw [← hread, ← TransmitterMsgVersioned.operationData_deserialize hd h hentries]
      exact .inr (Option.bind_eq_some_iff.2 ⟨m', hm', hd'⟩)
    · intro hcond
      have hback := hread.2 (by omega)
      refine ⟨fun j hj => ?_, fun j hj => ?_⟩
      · rw [← Option.bind_eq_some_iff, TransmitterMsg.operationData_deserialize hd h hj, hback]
      · obtain ⟨_, hentries', rfl⟩ := Option.map_eq_some_iff.1 hj
        rw [← Option.bind_eq_some_iff, ← hback]
        exact TransmitterMsgVersioned.operationData_deserialize hd h hentries'
  · have hnone : ∀ entries, m.msg.serializeEntries ≠ some entries := fun entries hentries =>
      hlen (MessageData.exists_serializeFields_iff.1
        (TransmitterMsgVersioned.exists_serializeFields hd hentries))
    refine iff_of_true ⟨fun j hj => ?_, fun j hj => ?_⟩ (.inl (by omega))
    · obtain ⟨entries, hentries, -⟩ := Option.bind_eq_some_iff.1 hj
      exact absurd hentries (hnone entries)
    · obtain ⟨entries, hentries, -⟩ := Option.map_eq_some_iff.1 hj
      exact absurd hentries (hnone entries)

end Queue

section Localnet

open Localnet Queue

/-- The operation with this transaction id. -/
def Localnet.messageOf (txId : Bytes) : MessageData :=
  { message with srcOpTxId := txId }

/-- It is sent with one signature. -/
def Localnet.queued (txId : Bytes) : TransmitterMsg :=
  ⟨some true, .v1 (.signedOperationData ⟨⟨messageOf txId, [signature1], 1⟩, by norm_num⟩)⟩

theorem queue_round_trip_localnet :
    ∃ j m', (queued (List.replicate 64 7)).serialize = some j ∧
      TransmitterMsg.deserialize j = some m' ∧
      m'.msg.operationData = some (messageOf (List.replicate 64 7)) := by
  have hsome : (queued (List.replicate 64 7)).serialize.isSome = true := by
    decide +kernel
  obtain ⟨j, hj⟩ := Option.isSome_iff_exists.1 hsome
  obtain ⟨hiff, -⟩ := queue_round_trip_iff (queued (List.replicate 64 7))
    (messageOf (List.replicate 64 7)) rfl
  obtain ⟨m', hm', hd⟩ := (hiff.2 (.inr (by decide))).1 j hj
  exact ⟨j, m', hj, hm', hd⟩

/-- A transaction id of 33 bytes is written and cannot be read, and one of 32 bytes is read and
cannot be written. -/
theorem short_tx_id_lost :
    (∃ j, (queued (List.replicate 33 7)).serialize = some j ∧
        (TransmitterMsg.deserialize j).isNone = true) ∧
      ∃ j, MessageData.deserialize j = some (messageOf (List.replicate 32 7)) ∧
        (messageOf (List.replicate 32 7)).serialize.isNone = true := by
  have hwritten : ((queued (List.replicate 33 7)).serialize.map fun j =>
      (TransmitterMsg.deserialize j).isNone) = some true := by
    decide +kernel
  refine ⟨Option.map_eq_some_iff.1 hwritten, ?_⟩
  let chunk : Bytes32 := Fixed.replicate 32 7
  refine ⟨.obj (MessageData.fieldNames.zip ((messageOf (List.replicate 32 7)).fieldsWith
    (chunkFormat.write [chunk]))), ?_, by decide +kernel⟩
  have hchunk : deserializeTxId (chunkFormat.write [chunk]) =
      some (messageOf (List.replicate 32 7)).srcOpTxId :=
    deserializeTxId_eq_some.2 ⟨[chunk], rfl, by simp [chunk, Fixed.replicate, messageOf]⟩
  rw [MessageData.deserialize, Json.fields_zip (by decide) rfl, Option.bind_some]
  exact MessageData.deserializeFields_eq_some.2 ⟨_, hchunk, rfl⟩

end Localnet

end Photon
