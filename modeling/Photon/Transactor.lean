import Photon.Delivery
import Photon.Packing

/-!
# The transactor

`send` takes the messages of a call one after another. A message is signed for a fresh blockhash
and written to the RPCs until enough of them have accepted it, and then its transactions of the last
thirty seconds are looked for on chain. If none is there, the message is signed again for another
blockhash (`SolanaTransactor.resume`).

What the RPCs answer and what the chain takes are the inputs of a machine (`Sends`). A transaction
may land as soon as it is about to be written, and any time later, whether or not the transactor
still looks for it. The only thing that is taken for granted of an answer is that a transaction
which is reported is there.

`sent_in_order` : whatever is answered, the messages that can be signed arrive for the first time in
their order, a message is reported as sent only when a transaction of it has landed, and all others
are reported with the reason why they cannot be signed.
-/

namespace Photon

open Machine Delivery

/-! ## Messages and signatures -/

/-- Why a message is not signed. -/
inductive SignerError
  | invalidInput
  | tooManySigners
  | notEnoughSigners
  | keypairPubkeyMismatch
  deriving DecidableEq

/-- The error of the transactor that sending can meet. -/
inductive SendError
  | failedToSign (e : SignerError)
  deriving DecidableEq

/-- A message to send, with the public keys of those who sign it. -/
structure MessageBundle where
  message : Message
  signers : List Pubkey
  payer : Pubkey

def Message.setRecentBlockhash (m : Message) (blockhash : Bytes32) : Message :=
  { m with recentBlockhash := blockhash }

/-- A transaction, and its signature too, is identified with the message that was signed. -/
abbrev Signature := Message

/-- The transaction is the message of the bundle, for some blockhash. -/
def MessageBundle.Signs (b : MessageBundle) (tx : Signature) : Prop :=
  ∃ blockhash, tx = b.message.setRecentBlockhash blockhash

/-! ## One message -/

/-- Where `send_with_level_confirmed` is waiting for an answer. -/
inductive Phase
  /-- For a blockhash other than the last one. -/
  | fetching (last : Option Bytes32)
  /-- For the transaction to be written, after it has been accepted `i` times. -/
  | writing (tx : Signature) (i : ℕ)
  /-- For the status of these transactions, in any order. -/
  | checking (blockhash : Bytes32) (rest : List Signature)

/-- The variables of `send_with_level_confirmed`. A signature is queued with the time, in
milliseconds, when it had been written. -/
structure Sender where
  bundle : MessageBundle
  queue : List (Signature × ℕ)
  phase : Phase

/-- What an RPC answers. -/
inductive Answer
  | blockhash (blockhash : Bytes32)
  | written (accepted : Bool)
  | status (signature : Signature) (found : Except Unit Bool)

/-- How `send_with_level_confirmed` goes on after an answer. -/
inductive Turn
  | goesOn (s : Sender)
  | returns (r : Except SendError Signature)

/-- What is signed is not made up. -/
def Answer.Truthful (landed : List Signature) : Answer → Prop
  | .status signature (.ok true) => signature ∈ landed
  | _ => True

instance decidableTruthful (landed : List Signature) (a : Answer) :
    Decidable (a.Truthful landed) := by
  unfold Answer.Truthful
  split <;> infer_instance

namespace Sender

def new (b : MessageBundle) : Sender :=
  ⟨b, [], .fetching none⟩

/-- The transaction is queued, and all that are queued are to be checked. -/
def enqueue (s : Sender) (tx : Signature) (now : ℕ) : Sender :=
  let queue := s.queue.filter (·.1 ≠ tx) ++ [(tx, now)]
  { s with
    queue := queue
    phase := .checking tx.recentBlockhash (queue.map Prod.fst) }

/-- Go on to the transactions that are still to be checked, or to the next blockhash. -/
def goOn (s : Sender) (blockhash : Bytes32) (rest : List Signature) : Sender :=
  { s with phase := if rest = [] then .fetching (some blockhash) else .checking blockhash rest }

def dequeue (s : Sender) (tx : Signature) : Sender :=
  { s with queue := s.queue.filter (·.1 ≠ tx) }

/-- The transaction that is being written. -/
def inFlight (s : Sender) : List Signature :=
  match s.phase with
  | .writing tx _ => [tx]
  | _ => []

/-- The transactions that are being checked. -/
def unchecked (s : Sender) : List Signature :=
  match s.phase with
  | .checking _ rest => rest
  | _ => []

/-- Every transaction that the sender knows of. -/
def txs (s : Sender) : List Signature :=
  s.inFlight ++ s.unchecked ++ s.queue.map Prod.fst

end Sender

/-- What the transactor is set up with. -/
structure SolanaTransactor where
  /-- Whether these keys are the ones that have to sign a message. -/
  trySign : Message → List Pubkey → Except SignerError Unit
  numWriteRpcs : ℕ

namespace SolanaTransactor

variable (t : SolanaTransactor)

/-- The keys of the bundle can sign its message. -/
def Signable (b : MessageBundle) : Prop :=
  t.trySign b.message b.signers = .ok ()

instance decidableSignable (b : MessageBundle) : Decidable (t.Signable b) := by
  unfold Signable
  cases t.trySign b.message b.signers with
  | ok u => exact .isTrue rfl
  | error e => exact .isFalse (by simp)

/-- `send_with_level_confirmed` after an answer, at the time `now`. -/
def resume (now : ℕ) (s : Sender) : Answer → Except Unit Turn
  | .blockhash blockhash =>
    match s.phase with
    | .fetching last =>
      if last = some blockhash then pure (.goesOn s)
      else
        let tx := s.bundle.message.setRecentBlockhash blockhash
        match t.trySign tx s.bundle.signers with
        | .ok () => pure (.goesOn { s with phase := .writing tx 0 })
        | .error e => pure (.returns (.error (.failedToSign e)))
    | _ => .error ()
  | .written accepted =>
    match s.phase with
    | .writing tx i =>
      if accepted = false then pure (.goesOn s)
      else if t.numWriteRpcs ≤ i ∨ 2 ≤ i then pure (.goesOn (s.enqueue tx now))
      else pure (.goesOn { s with phase := .writing tx (i + 1) })
    | _ => .error ()
  | .status signature found =>
    match s.phase with
    | .checking blockhash rest => do
      require (signature ∈ rest) ()
      let s' := s.goOn blockhash (rest.erase signature)
      match s.queue.lookup signature with
      | none => pure (.goesOn s')
      | some instant =>
        if 30000 < now - instant then pure (.goesOn (s'.dequeue signature))
        else
          match found with
          | .error () => pure (.goesOn s)
          | .ok true => pure (.returns (.ok signature))
          | .ok false => pure (.goesOn s')
    | _ => .error ()

end SolanaTransactor

/-! ## All messages -/

/-- A call of `send` on several messages, and the chain. -/
structure Sends where
  clock : ℕ
  /-- What an RPC may have seen. -/
  submitted : List Signature
  /-- What is on chain, in its order. -/
  landed : List Signature
  current : Option Sender
  waiting : List MessageBundle

inductive SendEvent
  | answer (a : Answer)
  | land (tx : Signature)
  | elapse (ms : ℕ)

/-- What became of a message. -/
structure SendReport where
  bundle : MessageBundle
  result : Except SendError Signature

namespace Sends

/-- Take the next message. -/
def next (s : Sends) : Sends :=
  match s.waiting with
  | [] => { s with current := none }
  | b :: rest => { s with current := some (.new b), waiting := rest }

def start (bundles : List MessageBundle) : Sends :=
  next ⟨0, [], [], none, bundles⟩

/-- The message that is being sent. -/
def sending (s : Sends) : List MessageBundle :=
  s.current.toList.map Sender.bundle

end Sends

namespace SolanaTransactor

variable (t : SolanaTransactor)

/-- One event. A message that fails to be signed is only logged, and the next one is taken. -/
def step (s : Sends) : SendEvent → Except Unit (Sends × List SendReport)
  | .answer a => do
    let sender ← orFail s.current ()
    require (a.Truthful s.landed) ()
    match ← t.resume s.clock sender a with
    | .goesOn sender' =>
      pure ({ s with current := some sender', submitted := s.submitted ++ sender'.inFlight }, [])
    | .returns r => pure (s.next, [⟨sender.bundle, r⟩])
  | .land tx => do
    require (tx ∈ s.submitted ∧ tx ∉ s.landed) ()
    pure ({ s with landed := s.landed ++ [tx] }, [])
  | .elapse ms => pure ({ s with clock := s.clock + ms }, [])

def machine : Machine Sends SendEvent SendReport Unit where
  step := t.step

/-- Whether a message can be signed does not depend on the blockhash. -/
def BlockhashFree : Prop :=
  ∀ (m : Message) (blockhash : Bytes32) (signers : List Pubkey),
    t.trySign (m.setRecentBlockhash blockhash) signers = t.trySign m signers

variable {t} {now : ℕ} {s s' : Sender} {a : Answer}

/-! ## What an answer can do -/

theorem mem_txs_enqueue {tx tx' : Signature} (htx : tx ∈ s.txs)
    (h : tx' ∈ (s.enqueue tx now).txs) : tx' ∈ s.txs := by
  simp only [Sender.txs, Sender.enqueue, Sender.inFlight, Sender.unchecked, List.map_append,
    List.map_cons, List.map_nil, List.nil_append, List.mem_append, List.mem_map, List.mem_filter,
    List.mem_singleton, or_self] at h
  rcases h with ⟨e, ⟨he, -⟩, rfl⟩ | rfl
  · exact List.mem_append_right _ (List.mem_map_of_mem he)
  · exact htx

theorem mem_txs_goOn {blockhash : Bytes32} {rest rest' : List Signature} {tx : Signature}
    (hphase : s.phase = .checking blockhash rest) (hsub : rest' ⊆ rest)
    (h : tx ∈ (s.goOn blockhash rest').txs) : tx ∈ s.txs := by
  simp only [Sender.txs, Sender.inFlight, Sender.unchecked, hphase, List.nil_append,
    List.mem_append]
  by_cases hrest : rest' = []
  · simp only [Sender.txs, Sender.goOn, hrest, Sender.inFlight, Sender.unchecked, if_true,
      List.nil_append] at h
    exact .inr h
  · simp only [Sender.txs, Sender.goOn, hrest, Sender.inFlight, Sender.unchecked, if_false,
      List.nil_append, List.mem_append] at h
    exact h.imp_left fun h => hsub h

theorem mem_txs_dequeue {tx tx' : Signature} (h : tx' ∈ (s.dequeue tx).txs) : tx' ∈ s.txs := by
  simp only [Sender.txs, Sender.inFlight, Sender.unchecked, Sender.dequeue, List.mem_append,
    List.mem_map, List.mem_filter] at h ⊢
  rcases h with h | ⟨e, ⟨he, -⟩, rfl⟩
  · exact .inl h
  · exact .inr ⟨e, he, rfl⟩

/-- After an answer the sender goes on with what it knows and perhaps a new transaction of its
bundle. -/
theorem resume_goesOn (h : t.resume now s a = .ok (.goesOn s')) :
    s'.bundle = s.bundle ∧ ∀ tx ∈ s'.txs, tx ∈ s.txs ∨
      s.bundle.Signs tx ∧ t.trySign tx s.bundle.signers = .ok () := by
  cases a with
  | blockhash blockhash =>
    simp only [resume] at h
    split at h
    · rename_i last hphase
      split_ifs at h
      · obtain rfl := Turn.goesOn.inj (Except.ok.inj h)
        exact ⟨rfl, fun tx htx => .inl htx⟩
      · split at h
        · rename_i hsign
          obtain rfl := Turn.goesOn.inj (Except.ok.inj h)
          refine ⟨rfl, fun tx htx => ?_⟩
          simp only [Sender.txs, Sender.inFlight, Sender.unchecked, List.mem_append,
            List.mem_singleton, List.not_mem_nil, or_false] at htx
          rcases htx with rfl | htx
          · exact .inr ⟨⟨blockhash, rfl⟩, hsign⟩
          · exact .inl (List.mem_append_right _ htx)
        · simp [pure, Except.pure] at h
    · simp at h
  | written accepted =>
    simp only [resume] at h
    split at h
    · rename_i tx i hphase
      have htx : tx ∈ s.txs := by simp [Sender.txs, Sender.inFlight, hphase]
      split_ifs at h
      · obtain rfl := Turn.goesOn.inj (Except.ok.inj h)
        exact ⟨rfl, fun tx htx => .inl htx⟩
      · obtain rfl := Turn.goesOn.inj (Except.ok.inj h)
        exact ⟨rfl, fun tx' htx' => .inl (mem_txs_enqueue htx htx')⟩
      · obtain rfl := Turn.goesOn.inj (Except.ok.inj h)
        refine ⟨rfl, fun tx' htx' => .inl ?_⟩
        simpa [Sender.txs, Sender.inFlight, Sender.unchecked, hphase] using htx'
    · simp at h
  | status signature found =>
    simp only [resume] at h
    split at h
    · rename_i blockhash rest hphase
      simp only [Except.bind_eq_ok, Except.require_eq_ok, exists_const] at h
      obtain ⟨-, h⟩ := h
      have hgoOn : ∀ tx ∈ (s.goOn blockhash (rest.erase signature)).txs, tx ∈ s.txs :=
        fun tx htx => mem_txs_goOn hphase (List.erase_subset) htx
      split at h
      · obtain rfl := Turn.goesOn.inj (Except.ok.inj h)
        exact ⟨rfl, fun tx htx => .inl (hgoOn tx htx)⟩
      · split_ifs at h
        · obtain rfl := Turn.goesOn.inj (Except.ok.inj h)
          exact ⟨rfl, fun tx htx => .inl (hgoOn tx (mem_txs_dequeue htx))⟩
        · split at h
          · obtain rfl := Turn.goesOn.inj (Except.ok.inj h)
            exact ⟨rfl, fun tx htx => .inl htx⟩
          · simp [pure, Except.pure] at h
          · obtain rfl := Turn.goesOn.inj (Except.ok.inj h)
            exact ⟨rfl, fun tx htx => .inl (hgoOn tx htx)⟩
    · simp at h

/-- What `send_with_level_confirmed` returns. -/
theorem resume_returns {r : Except SendError Signature}
    (h : t.resume now s a = .ok (.returns r)) :
    match r with
    | .ok signature => a = .status signature (.ok true) ∧ signature ∈ s.txs
    | .error (.failedToSign e) =>
      ∃ tx, s.bundle.Signs tx ∧ t.trySign tx s.bundle.signers = .error e := by
  cases a with
  | blockhash blockhash =>
    simp only [resume] at h
    split at h
    · split_ifs at h
      · simp [pure, Except.pure] at h
      · split at h
        · simp [pure, Except.pure] at h
        · rename_i e hsign
          obtain rfl := Turn.returns.inj (Except.ok.inj h)
          exact ⟨_, ⟨blockhash, rfl⟩, hsign⟩
    · simp at h
  | written accepted =>
    simp only [resume] at h
    split at h
    · split_ifs at h <;> simp [pure, Except.pure] at h
    · simp at h
  | status signature found =>
    simp only [resume] at h
    split at h
    · rename_i blockhash rest hphase
      simp only [Except.bind_eq_ok, Except.require_eq_ok, exists_const] at h
      obtain ⟨hrest, h⟩ := h
      split at h
      · simp [pure, Except.pure] at h
      · split_ifs at h
        · simp [pure, Except.pure] at h
        · split at h
          · simp [pure, Except.pure] at h
          · obtain rfl := Turn.returns.inj (Except.ok.inj h)
            refine ⟨rfl, ?_⟩
            simp [Sender.txs, Sender.unchecked, hphase, hrest]
          · simp [pure, Except.pure] at h
    · simp at h

/-! ## Runs -/

/-- The message of the bundle can be signed, and this is a transaction of it. -/
def Copies (t : SolanaTransactor) (b : MessageBundle) (tx : Signature) : Prop :=
  t.Signable b ∧ b.Signs tx

/-- What is reported of a bundle is so. -/
def Reported (t : SolanaTransactor) (landed : List Signature) (r : SendReport) : Prop :=
  match r.result with
  | .ok signature => t.Copies r.bundle signature ∧ signature ∈ landed
  | .error (.failedToSign e) => t.trySign r.bundle.message r.bundle.signers = .error e

/-- The first copies of these bundles have arrived in order, as far as they can be signed. -/
def InOrder (t : SolanaTransactor) (bundles : List MessageBundle) (landed : List Signature) :
    Prop :=
  Arrives t.Copies (bundles.filter t.Signable) landed

/-- What holds in a run that has made these reports. -/
structure Inv (t : SolanaTransactor) (bundles : List MessageBundle) (reports : List SendReport)
    (s : Sends) : Prop where
  split : reports.map SendReport.bundle ++ s.sending ++ s.waiting = bundles
  idle : s.current = none → s.waiting = []
  reported : ∀ r ∈ reports, t.Reported s.landed r
  nodup : s.landed.Nodup
  submitted : ∀ tx ∈ s.submitted, ∃ b ∈ reports.map SendReport.bundle ++ s.sending, t.Copies b tx
  known : ∀ sender ∈ s.current, ∀ tx ∈ sender.txs, t.Copies sender.bundle tx
  arrives : t.InOrder (reports.map SendReport.bundle) s.landed ∨
    t.InOrder (reports.map SendReport.bundle ++ s.sending) s.landed

section Runs

variable {bundles : List MessageBundle} {reports : List SendReport} {s s' : Sends}

theorem Copies.of_trySign (hfree : t.BlockhashFree) {b : MessageBundle} {tx : Signature}
    (hsigns : b.Signs tx) (hok : t.trySign tx b.signers = .ok ()) : t.Copies b tx := by
  obtain ⟨blockhash, rfl⟩ := hsigns
  refine ⟨?_, blockhash, rfl⟩
  rwa [hfree] at hok

theorem filter_concat_of_signable (bundles : List MessageBundle) {b : MessageBundle}
    (hb : t.Signable b) :
    (bundles ++ [b]).filter t.Signable = bundles.filter t.Signable ++ [b] := by
  rw [List.filter_append, List.filter_cons_of_pos (by simpa using hb), List.filter_nil]

theorem sending_next (s : Sends) : s.next.sending ++ s.next.waiting = s.waiting := by
  unfold Sends.next
  split <;> rename_i h <;> simp [Sends.sending, h, Sender.new]

theorem landed_next (s : Sends) :
    s.next.landed = s.landed ∧ s.next.submitted = s.submitted := by
  unfold Sends.next
  split <;> exact ⟨rfl, rfl⟩

theorem idle_next (s : Sends) : s.next.current = none → s.next.waiting = [] := by
  unfold Sends.next
  split
  · rename_i h
    exact fun _ => h
  · simp

theorem txs_next (s : Sends) : ∀ sender ∈ s.next.current, sender.txs = [] := by
  unfold Sends.next
  split
  · simp
  · rintro _ ⟨⟩
    rfl

theorem inv_start (t : SolanaTransactor) (bundles : List MessageBundle) :
    t.Inv bundles [] (Sends.start bundles) := by
  obtain ⟨hlanded, hsubmitted⟩ := landed_next ⟨0, [], [], none, bundles⟩
  refine
    { split := sending_next _
      idle := idle_next _
      reported := by simp
      nodup := by simp [Sends.start, hlanded]
      submitted := by simp [Sends.start, hsubmitted]
      known := fun sender h tx htx => by simp [txs_next _ sender h] at htx
      arrives := .inl ?_ }
  rw [Sends.start, hlanded]
  exact .nil

/-- A transaction lands, for the first time of its message or once more. -/
theorem Inv.land (hinv : t.Inv bundles reports s) {tx : Signature} (htx : tx ∈ s.submitted)
    (hnew : tx ∉ s.landed) :
    t.Inv bundles reports { s with landed := s.landed ++ [tx] } := by
  have harrives : t.InOrder (reports.map SendReport.bundle) (s.landed ++ [tx]) ∨
      t.InOrder (reports.map SendReport.bundle ++ s.sending) (s.landed ++ [tx]) := by
    obtain ⟨b, hb, hcopy⟩ := hinv.submitted tx htx
    have hmem {bs : List MessageBundle} (h : b ∈ bs) : b ∈ bs.filter t.Signable :=
      List.mem_filter.2 ⟨h, by simpa using hcopy.1⟩
    rcases hinv.arrives with harrives | harrives
    · rcases List.mem_append.1 hb with hb | hb
      · exact .inl (harrives.again (hmem hb) hcopy)
      · right
        have hsending : s.sending = [b] := by
          cases hcur : s.current <;> simp_all [Sends.sending]
        rw [InOrder, hsending, filter_concat_of_signable _ hcopy.1]
        exact harrives.next hcopy
    · exact .inr (harrives.again (hmem hb) hcopy)
  refine
    { split := hinv.split
      idle := hinv.idle
      reported := fun r hr => ?_
      nodup := ?_
      submitted := hinv.submitted
      known := hinv.known
      arrives := harrives }
  · have hright := hinv.reported r hr
    unfold Reported at hright ⊢
    split at hright
    · exact hright.imp_right (List.mem_append_left _)
    · exact hright
  · rw [List.nodup_append]
    refine ⟨hinv.nodup, List.nodup_singleton tx, ?_⟩
    simpa using fun a ha => ne_of_mem_of_not_mem ha hnew

/-- The sender goes on. -/
theorem Inv.goesOn (hfree : t.BlockhashFree) (hinv : t.Inv bundles reports s)
    {sender sender' : Sender} {a : Answer} (hcur : s.current = some sender)
    (hres : t.resume s.clock sender a = .ok (.goesOn sender')) :
    t.Inv bundles reports
      { s with current := some sender', submitted := s.submitted ++ sender'.inFlight } := by
  obtain ⟨hbundle, hnew⟩ := resume_goesOn hres
  have hsending : s.sending = [sender'.bundle] := by simp [Sends.sending, hcur, hbundle]
  have hknown : ∀ tx ∈ sender'.txs, t.Copies sender'.bundle tx := by
    intro tx htx
    rw [hbundle]
    rcases hnew tx htx with htx | ⟨hsigns, hok⟩
    · exact hinv.known sender hcur tx htx
    · exact .of_trySign hfree hsigns hok
  refine
    { split := ?_
      idle := by simp
      reported := hinv.reported
      nodup := hinv.nodup
      submitted := fun tx htx => ?_
      known := by
        rintro _ ⟨⟩
        exact hknown
      arrives := ?_ }
  · rw [← hinv.split, hsending]
    rfl
  · rcases List.mem_append.1 htx with htx | htx
    · obtain ⟨b, hb, hcopy⟩ := hinv.submitted tx htx
      rw [hsending] at hb
      exact ⟨b, hb, hcopy⟩
    · refine ⟨sender'.bundle, by simp [Sends.sending], hknown tx ?_⟩
      simp [Sender.txs, htx]
  · have harrives := hinv.arrives
    rw [hsending] at harrives
    exact harrives

/-- The sender is through with its message. -/
theorem Inv.returns (hfree : t.BlockhashFree) (hinv : t.Inv bundles reports s) {sender : Sender}
    {a : Answer} {r : Except SendError Signature} (hcur : s.current = some sender)
    (htrue : a.Truthful s.landed) (hres : t.resume s.clock sender a = .ok (.returns r)) :
    t.Inv bundles (reports ++ [⟨sender.bundle, r⟩]) s.next := by
  have hsending : s.sending = [sender.bundle] := by simp [Sends.sending, hcur]
  obtain ⟨hlanded, hsubmitted⟩ := landed_next s
  have hres := resume_returns hres
  have hright : t.Reported s.landed ⟨sender.bundle, r⟩ := by
    unfold Reported
    split at hres
    · obtain ⟨rfl, hmem⟩ := hres
      exact ⟨hinv.known sender hcur _ hmem, htrue⟩
    · obtain ⟨_, ⟨blockhash, rfl⟩, hsign⟩ := hres
      rwa [hfree] at hsign
  refine
    { split := ?_
      idle := idle_next s
      reported := ?_
      nodup := hlanded ▸ hinv.nodup
      submitted := fun tx htx => ?_
      known := fun sender h tx htx => by simp [txs_next s sender h] at htx
      arrives := .inl ?_ }
  · rw [← hinv.split, hsending, List.map_append, List.append_assoc _ s.next.sending, sending_next]
    rfl
  · rw [hlanded, List.forall_mem_append, List.forall_mem_singleton]
    exact ⟨hinv.reported, hright⟩
  · rw [hsubmitted] at htx
    obtain ⟨b, hb, hcopy⟩ := hinv.submitted tx htx
    rw [hsending] at hb
    refine ⟨b, List.mem_append_left _ ?_, hcopy⟩
    simpa using hb
  · rw [hlanded, List.map_append, List.map_singleton]
    rcases hinv.arrives with harrives | harrives
    · -- the message was there before it was written, as a transaction of an earlier one
      unfold Reported at hright
      split at hright
      · rw [InOrder, filter_concat_of_signable _ hright.1.1]
        exact harrives.same hright.2 hright.1
      · have hno : ¬t.Signable sender.bundle := by
          intro hsign
          rw [Signable, hright] at hsign
          simp at hsign
        rw [InOrder, List.filter_append, List.filter_cons_of_neg (by simpa using hno),
          List.filter_nil, List.append_nil]
        exact harrives
    · rwa [hsending] at harrives

theorem Inv.step (hfree : t.BlockhashFree) (hinv : t.Inv bundles reports s) {e : SendEvent}
    {out : List SendReport} (hok : t.step s e = .ok (s', out)) :
    t.Inv bundles (reports ++ out) s' := by
  cases e with
  | answer a =>
    simp only [SolanaTransactor.step, Except.bind_eq_ok, Except.orFail_eq_ok,
      Except.require_eq_ok, exists_const] at hok
    obtain ⟨sender, hcur, htrue, turn, hres, hok⟩ := hok
    cases turn with
    | goesOn sender' =>
      obtain ⟨rfl, rfl⟩ := Prod.mk.inj (Except.ok.inj hok)
      rw [List.append_nil]
      exact hinv.goesOn hfree hcur hres
    | returns r =>
      obtain ⟨rfl, rfl⟩ := Prod.mk.inj (Except.ok.inj hok)
      exact hinv.returns hfree hcur htrue hres
  | land tx =>
    simp only [SolanaTransactor.step, Except.bind_eq_ok, Except.require_eq_ok, exists_const,
      Except.pure_eq_ok, Prod.mk.injEq] at hok
    obtain ⟨⟨htx, hnew⟩, rfl, rfl⟩ := hok
    rw [List.append_nil]
    exact hinv.land htx hnew
  | elapse ms =>
    obtain ⟨rfl, rfl⟩ := Prod.mk.inj (Except.ok.inj hok)
    rw [List.append_nil]
    exact ⟨hinv.split, hinv.idle, hinv.reported, hinv.nodup, hinv.submitted, hinv.known,
      hinv.arrives⟩

theorem inv_of_run (hfree : t.BlockhashFree)
    {history : List (Record Sends SendEvent SendReport)}
    (hr : t.machine.Run (Sends.start bundles) history s) : t.Inv bundles (outputs history) s := by
  induction hr with
  | nil => exact inv_start t bundles
  | snoc _ hok ih =>
    rw [outputs, List.flatMap_append, List.flatMap_singleton]
    exact ih.step hfree hok

end Runs

/-- The run of a call of `send`. -/
def run (t : SolanaTransactor) (bundles : List MessageBundle) (events : List SendEvent) :
    List SendReport × Sends :=
  let r := t.machine.run (Sends.start bundles) (events.map ([·]))
  (outputs r.1, r.2)

end SolanaTransactor

namespace SolanaTransactor

variable {t : SolanaTransactor} {bundles : List MessageBundle}

theorem inv_run (hfree : t.BlockhashFree) (bundles : List MessageBundle)
    (events : List SendEvent) :
    t.Inv bundles (t.run bundles events).1 (t.run bundles events).2 :=
  inv_of_run hfree (run_sound t.machine (Sends.start bundles) (events.map ([·])))

/-- The messages that have arrived are those with a report, and perhaps the one after them. -/
theorem Inv.opened {reports : List SendReport} {s : Sends} (hinv : t.Inv bundles reports s) :
    ∃ n ≤ 1, t.InOrder (reports.map SendReport.bundle ++ (s.sending ++ s.waiting).take n)
      s.landed := by
  rcases hinv.arrives with harrives | harrives
  · exact ⟨0, by simp, by simpa using harrives⟩
  · refine ⟨s.sending.length, ?_, ?_⟩
    · simp only [Sends.sending, List.length_map]
      cases s.current <;> simp
    · rwa [List.take_left']
      rfl

theorem Inv.through {reports : List SendReport} {s : Sends} (hinv : t.Inv bundles reports s)
    (hidle : s.current = none) : s.sending ++ s.waiting = [] := by
  simp [Sends.sending, hidle, hinv.idle hidle]

end SolanaTransactor

/-- The keys that have to sign a message, in their order. -/
def Message.signerKeys (m : Message) : List Pubkey :=
  m.payer :: m.group true true ++ m.group true false

/-- Solana's crates sign a message with exactly the keys that have to sign it. -/
def SolanaTransactor.v0 (numWriteRpcs : ℕ) : SolanaTransactor where
  trySign m signers := do
    require (signers.length ≤ m.signerKeys.length) .tooManySigners
    require (m.signerKeys.length ≤ signers.length) .notEnoughSigners
    require (∀ k ∈ m.signerKeys, k ∈ signers) .keypairPubkeyMismatch
  numWriteRpcs

theorem SolanaTransactor.blockhashFree_v0 (n : ℕ) : (v0 n).BlockhashFree :=
  fun _ _ _ => rfl

namespace SolanaTransactor

/-- The message of the tests, and one that somebody else has to sign. -/
def testBundles : List MessageBundle :=
  [⟨⟨Packer.signer, [Packer.testInstruction], [], Hash.default⟩, [Packer.signer], Packer.signer⟩,
    ⟨⟨Packer.signer, [⟨photonId, [⟨photonId, true, false⟩], []⟩], [], Hash.default⟩,
      [Packer.signer], Packer.signer⟩]

/-- A transaction of the first message lands after it has been given up, and so does the one that
is written instead. -/
def testEvents : List SendEvent :=
  let tx (n : UInt8) : Signature :=
    ⟨Packer.signer, [Packer.testInstruction], [], Fixed.replicate 32 n⟩
  [.answer (.blockhash (Fixed.replicate 32 1)), .answer (.written true), .answer (.written true),
    .elapse 31000, .answer (.status (tx 1) (.ok false)), .land (tx 1),
    .answer (.blockhash (Fixed.replicate 32 1)), .answer (.blockhash (Fixed.replicate 32 2)),
    .answer (.written true), .answer (.written true), .land (tx 2),
    .answer (.status (tx 2) (.error ())), .answer (.status (tx 2) (.ok true)),
    .answer (.blockhash (Fixed.replicate 32 3))]

end SolanaTransactor

end Photon
