import Photon.ParseLogs
import Photon.Window

/-!
# Reading the program's transactions backwards

`read_events_backward` scans the signatures of the program's transactions from the newest back
to the one it has read last, page by page, fetches each transaction, and sends the logs of
those that succeeded, oldest first. Then it starts over. The next scan goes back to the newest
transaction it has sent, or to the same one as before if it has sent none, so transactions
that failed or logged nothing are looked at again.

The node is outside (`Node`). Its history of signatures may grow between any two calls. A call
for signatures answers with a page of those strictly between two signatures, newest first, of
any size but not empty if there are some. A transaction does not change once it is there.

`reads_exactly` : after any number of rounds, with any growth and any page sizes, what was sent
is exactly the sequence of the successful transactions with logs, from the start up to the
newest one that the last scan could see, each marked for checking if the first scan found it.
-/

namespace Photon

/-! ## The node -/

/-- The signature of a transaction, 64 bytes. -/
abbrev TxSignature := Fixed UInt8 64

/-- What became of a transaction. -/
structure StatusMeta where
  failed : Bool
  logMessages : Option (List Line)

/-- A transaction as the node reports it. -/
structure Transaction where
  slot : UInt64
  statusMeta : Option StatusMeta

/-- The logs of a transaction on their way to the parser. -/
structure LogsBunch where
  needCheck : Bool
  txSignature : TxSignature
  slot : UInt64
  logs : List Line
  deriving DecidableEq

/-- The RPC node : the signatures of the program's transactions at each call, oldest first, and
its answers. -/
structure Node where
  history : ℕ → List TxSignature
  getSignatures : ℕ → Option TxSignature → Option TxSignature → List TxSignature
  getTransaction : TxSignature → Transaction
  grows : ∀ t, history t <+: history (t + 1)
  nodup : ∀ t, (history t).Nodup
  /-- A page is a slice from the newest end, -/
  page : ∀ t untilTx before,
    getSignatures t untilTx before <+: (Window.between untilTx before (history t)).reverse
  /-- and not empty if there is something to show. -/
  page_ne_nil : ∀ t untilTx before, Window.between untilTx before (history t) ≠ [] →
    getSignatures t untilTx before ≠ []

namespace Node

variable (node : Node)

/-- What is sent for a transaction : its logs, if it succeeded and has some. -/
def bunch (needCheck : Bool) (signature : TxSignature) : Option LogsBunch := do
  let transaction := node.getTransaction signature
  let statusMeta ← transaction.statusMeta.filter fun m => !m.failed
  let logs ← statusMeta.logMessages
  if logs = [] then none else some ⟨needCheck, signature, transaction.slot, logs⟩

theorem history_mono {t t' : ℕ} (h : t ≤ t') : node.history t <+: node.history t' := by
  induction h with
  | refl => exact List.prefix_refl _
  | step _ ih => exact ih.trans (node.grows _)

/-! ## Scanning -/

def processSignature (needCheck : Bool) (acc : Option TxSignature × List LogsBunch)
    (signature : TxSignature) : Option TxSignature × List LogsBunch :=
  (some signature, (node.bunch needCheck signature).toList ++ acc.2)

def processSignatures (needCheck : Bool) (before : Option TxSignature)
    (logBunches : List LogsBunch) (signatures : List TxSignature) :
    Option TxSignature × List LogsBunch :=
  signatures.foldl (node.processSignature needCheck) (before, logBunches)

/-- The inner loop, from the call number `clock` on : the number of the next call, the newest
signature seen, and the bunches. -/
def scan (untilTx : Option TxSignature) (needCheck : Bool) :
    ℕ → ℕ → Option TxSignature → Option TxSignature → List LogsBunch →
      Option (ℕ × Option TxSignature × List LogsBunch)
  | 0, _, _, _, _ => none
  | fuel + 1, clock, before, nextUntil, logBunches =>
    let signaturesBackward := node.getSignatures clock untilTx before
    if signaturesBackward = [] then some (clock + 1, nextUntil, logBunches)
    else
      let nextUntil := nextUntil.or signaturesBackward.head?
      let (before, logBunches) :=
        node.processSignatures needCheck before logBunches signaturesBackward
      scan untilTx needCheck fuel (clock + 1) before nextUntil logBunches

end Node

/-- The reader between two rounds of the outer loop. -/
structure Reader where
  txReadFrom : Option TxSignature
  untilTx : Option TxSignature
  nextUntil : Option TxSignature
  clock : ℕ
  sent : List LogsBunch
  deriving DecidableEq

namespace Reader

/-- The reader before its first round, at the call number `clock`. -/
def start (txReadFrom : TxSignature) (clock : ℕ) : Reader :=
  ⟨some txReadFrom, none, none, clock, []⟩

/-- Where a scan goes back to, and whether what it finds is to be checked. -/
def target (s : Reader) : Option TxSignature × Bool :=
  if s.txReadFrom.isSome then (s.txReadFrom, true)
  else if s.nextUntil.isSome then (s.nextUntil, false)
  else (s.untilTx, false)

/-- One round of the outer loop. The newest signature seen is overwritten with the newest one
sent. -/
def round (node : Node) (fuel : ℕ) (s : Reader) : Option Reader := do
  let (untilTx, needCheck) := s.target
  let (clock, _, logBunches) ← node.scan untilTx needCheck fuel s.clock none none []
  some
    { txReadFrom := none
      untilTx := untilTx
      nextUntil := logBunches.getLast?.map LogsBunch.txSignature
      clock := clock
      sent := s.sent ++ logBunches }

/-- `n` rounds of `read_events_backward`. -/
def readEventsBackward (node : Node) (fuel : ℕ) (s : Reader) : ℕ → Option Reader
  | 0 => some s
  | n + 1 => do
    let s' ← readEventsBackward node fuel s n
    s'.round node fuel

end Reader

/-! ## One scan -/

namespace Node

variable {node : Node} {needCheck : Bool} {u b : TxSignature} {t : ℕ}
  {pre left post : List TxSignature} {logBunches : List LogsBunch}

theorem bunch_eq_some {signature : TxSignature} {x : LogsBunch}
    (h : node.bunch needCheck signature = some x) :
    x.txSignature = signature ∧ x.needCheck = needCheck := by
  simp only [bunch, Option.bind_eq_bind, Option.bind_eq_some_iff] at h
  obtain ⟨_, -, logs, -, h⟩ := h
  split_ifs at h
  obtain rfl := Option.some_inj.1 h
  exact ⟨rfl, rfl⟩

/-- Whether a transaction is sent does not depend on the mark. -/
theorem bunch_eq_none_iff {needCheck' : Bool} {signature : TxSignature} :
    node.bunch needCheck signature = none ↔ node.bunch needCheck' signature = none := by
  simp only [bunch, Option.bind_eq_bind, Option.bind_eq_none_iff]
  refine forall₂_congr fun m _ => forall₂_congr fun logs _ => ?_
  split_ifs <;> simp

theorem filterMap_bunch_eq_nil_iff {needCheck' : Bool} {signatures : List TxSignature} :
    signatures.filterMap (node.bunch needCheck) = [] ↔
      signatures.filterMap (node.bunch needCheck') = [] := by
  simp only [List.filterMap_eq_nil_iff]
  exact forall₂_congr fun _ _ => bunch_eq_none_iff

theorem map_txSignature (marked : TxSignature → Bool) (signatures : List TxSignature) :
    (signatures.filterMap fun x => node.bunch (marked x) x).map LogsBunch.txSignature =
      signatures.filter fun x => (node.bunch (marked x) x).isSome := by
  induction signatures with
  | nil => rfl
  | cons x signatures ih =>
    cases hx : node.bunch (marked x) x with
    | none => simp [hx, ih]
    | some y => simp [hx, ih, (bunch_eq_some hx).1]

/-- Going through a page backwards puts its bunches in front, oldest first. -/
theorem processSignatures_reverse (page : List TxSignature) (before : Option TxSignature) :
    node.processSignatures needCheck before logBunches page.reverse =
      (page.head?.or before, page.filterMap (node.bunch needCheck) ++ logBunches) := by
  induction page with
  | nil => rfl
  | cons x page ih =>
    rw [processSignatures, List.reverse_cons, List.foldl_append]
    rw [processSignatures] at ih
    rw [ih]
    cases hx : node.bunch needCheck x <;> simp [processSignature, hx]

/-- A page cuts the newest entries off what lies between. -/
theorem exists_page (node : Node) (t : ℕ) (untilTx before : Option TxSignature) :
    ∃ left page, Window.between untilTx before (node.history t) = left ++ page ∧
      node.getSignatures t untilTx before = page.reverse ∧ (page = [] → left = []) := by
  obtain ⟨rest, hrest⟩ := node.page t untilTx before
  have hcut : Window.between untilTx before (node.history t) =
      rest.reverse ++ (node.getSignatures t untilTx before).reverse := by
    rw [← List.reverse_append, hrest, List.reverse_reverse]
  refine ⟨_, _, hcut, by rw [List.reverse_reverse], fun hpage => ?_⟩
  rw [hpage, List.append_nil] at hcut
  by_contra hleft
  exact node.page_ne_nil t untilTx before (hcut ▸ hleft) (List.reverse_eq_nil_iff.1 hpage)

/-- Between two signatures that a call could see lies what lay there then. -/
theorem between_eq (node : Node) (hvisible : pre ++ u :: left ++ b :: post <+: node.history t) :
    Window.between (some u) (some b) (node.history t) = left := by
  obtain ⟨new, hnew⟩ := hvisible
  have hd := node.nodup t
  rw [← hnew, List.append_assoc, List.cons_append] at hd ⊢
  exact Window.between_append_cons hd

/-- The later pages of a scan : what is left between `u` and the oldest signature seen, `b`. The
induction is on a bound of what is left, since a page takes some of it. -/
theorem scan_left (node : Node) (needCheck : Bool) (u x : TxSignature) (pre : List TxSignature) :
    ∀ (n t : ℕ) (b : TxSignature) (left post : List TxSignature) (logBunches : List LogsBunch),
      left.length ≤ n → pre ++ u :: left ++ b :: post <+: node.history t →
      ∃ t', t < t' ∧ ∀ fuel, left.length < fuel →
        node.scan (some u) needCheck fuel t (some b) (some x) logBunches =
          some (t', some x, left.filterMap (node.bunch needCheck) ++ logBunches) := by
  intro n
  induction n with
  | zero =>
    intro t b left post logBunches hlen hvisible
    obtain rfl : left = [] := List.eq_nil_of_length_eq_zero (by omega)
    obtain ⟨left', page, hcut, hpage, -⟩ := node.exists_page t (some u) (some b)
    rw [node.between_eq hvisible] at hcut
    obtain ⟨rfl, rfl⟩ := List.append_eq_nil_iff.1 hcut.symm
    refine ⟨t + 1, by omega, fun fuel hfuel => ?_⟩
    obtain ⟨fuel, rfl⟩ : ∃ k, fuel = k + 1 := ⟨fuel - 1, by omega⟩
    simp [scan, hpage]
  | succ n ih =>
    intro t b left post logBunches hlen hvisible
    obtain ⟨left', page, hcut, hpage, hempty⟩ := node.exists_page t (some u) (some b)
    rw [node.between_eq hvisible] at hcut
    cases page with
    | nil =>
      obtain rfl : left = [] := by rw [hcut, hempty rfl]; rfl
      refine ⟨t + 1, by omega, fun fuel hfuel => ?_⟩
      obtain ⟨fuel, rfl⟩ : ∃ k, fuel = k + 1 := ⟨fuel - 1, by omega⟩
      simp [scan, hpage]
    | cons b' page =>
      have hvisible' : pre ++ u :: left' ++ b' :: (page ++ b :: post) <+: node.history (t + 1) := by
        rw [hcut] at hvisible
        refine List.IsPrefix.trans ?_ (node.grows t)
        simpa using hvisible
      have hshort : left'.length < left.length := by
        rw [hcut, List.length_append, List.length_cons]
        omega
      obtain ⟨t', ht', hscan⟩ := ih (t + 1) b' left' (page ++ b :: post)
        ((b' :: page).filterMap (node.bunch needCheck) ++ logBunches) (by omega) hvisible'
      refine ⟨t', by omega, fun fuel hfuel => ?_⟩
      obtain ⟨fuel, rfl⟩ : ∃ k, fuel = k + 1 := ⟨fuel - 1, by omega⟩
      rw [scan, hpage, if_neg (by simp), processSignatures_reverse]
      simp only [List.head?_cons, Option.some_or]
      rw [hscan fuel (by omega), hcut, List.filterMap_append, List.append_assoc]

/-- A scan back to `u` collects the bunches of all transactions after `u` that its first call
could see. -/
theorem scan_eq (node : Node) (needCheck : Bool) (hu : u ∈ node.history t) :
    ∃ t' x, t < t' ∧ ∀ fuel, (Window.after u (node.history t)).length < fuel →
      node.scan (some u) needCheck fuel t none none [] =
        some (t', x, (Window.after u (node.history t)).filterMap (node.bunch needCheck)) := by
  obtain ⟨left, page, hcut, hpage, hempty⟩ := node.exists_page t (some u) none
  have hafter : Window.after u (node.history t) = left ++ page := hcut
  obtain ⟨pre, -, hhistory⟩ := Window.exists_eq_append_after hu
  rw [hafter] at hhistory ⊢
  cases page with
  | nil =>
    refine ⟨t + 1, none, by omega, fun fuel hfuel => ?_⟩
    obtain ⟨fuel, rfl⟩ : ∃ k, fuel = k + 1 := ⟨fuel - 1, by omega⟩
    simp [scan, hpage, hempty rfl]
  | cons b page =>
    have hvisible : pre ++ u :: left ++ b :: page <+: node.history (t + 1) := by
      refine List.IsPrefix.trans ⟨[], ?_⟩ (node.grows t)
      rw [hhistory]
      simp
    obtain ⟨x, hx⟩ : ∃ x, (b :: page).reverse.head? = some x :=
      ⟨_, List.head?_eq_some_head (by simp)⟩
    obtain ⟨t', ht', hscan⟩ := node.scan_left needCheck u x pre left.length (t + 1) b left page
      ((b :: page).filterMap (node.bunch needCheck) ++ []) le_rfl hvisible
    refine ⟨t', some x, by omega, fun fuel hfuel => ?_⟩
    obtain ⟨fuel, rfl⟩ : ∃ k, fuel = k + 1 := ⟨fuel - 1, by omega⟩
    rw [List.length_append, List.length_cons] at hfuel
    rw [scan, hpage, if_neg (by simp), processSignatures_reverse]
    simp only [List.head?_cons, Option.some_or, Option.none_or]
    rw [hx, hscan fuel (by omega), List.append_nil, List.filterMap_append]

end Node

/-! ## Rounds -/

/-- The last entry that a partial function is defined on, with what it gives. -/
theorem exists_last_of_filterMap {α β : Type*} (f : α → Option β) (xs : List α) :
    xs.filterMap f = [] ∨ ∃ xs₁ x xs₂ y, xs = xs₁ ++ x :: xs₂ ∧ f x = some y ∧
      (xs.filterMap f).getLast? = some y ∧ xs₂.filterMap f = [] := by
  induction xs using List.reverseRecOn with
  | nil => exact .inl rfl
  | append_singleton xs x ih =>
    cases hx : f x with
    | some y => exact .inr ⟨xs, x, [], y, rfl, hx, by simp [List.filterMap_append, hx], rfl⟩
    | none =>
      have hsame : (xs ++ [x]).filterMap f = xs.filterMap f := by
        simp [List.filterMap_append, hx]
      rw [hsame]
      refine ih.imp id ?_
      rintro ⟨xs₁, x', xs₂, y, rfl, hx', hlast, hnone⟩
      refine ⟨xs₁, x', xs₂ ++ [x], y, by simp, hx', hlast, ?_⟩
      simp [List.filterMap_append, hnone, hx]

namespace Reader

variable {node : Node} {s : Reader}

/-- After a scan whose first call was number `t` : the next scan goes back to a transaction
after which there was nothing to send then. -/
def CaughtUp (node : Node) (t : ℕ) (s : Reader) : Prop :=
  ∃ v, s.target = (some v, false) ∧ v ∈ node.history t ∧
    (Window.after v (node.history t)).filterMap (node.bunch false) = []

/-- One round sends the bunches after its target and catches up. -/
theorem round_eq {u : TxSignature} {needCheck : Bool} (htarget : s.target = (some u, needCheck))
    (hu : u ∈ node.history s.clock) :
    ∃ s', (∀ fuel, (Window.after u (node.history s.clock)).length < fuel →
        s.round node fuel = some s') ∧
      s.clock < s'.clock ∧ s'.CaughtUp node s.clock ∧
      s'.sent = s.sent ++
        (Window.after u (node.history s.clock)).filterMap (node.bunch needCheck) := by
  obtain ⟨t', x, ht', hscan⟩ := node.scan_eq needCheck hu
  refine ⟨⟨none, some u, ((Window.after u (node.history s.clock)).filterMap
    (node.bunch needCheck)).getLast?.map LogsBunch.txSignature, t', _⟩, fun fuel hfuel => ?_,
    ht', ?_, rfl⟩
  · simp only [round, htarget, hscan fuel hfuel]
    rfl
  rcases exists_last_of_filterMap (node.bunch needCheck)
    (Window.after u (node.history s.clock)) with hnone | ⟨xs₁, v, xs₂, y, hxs, hy, hlast, hnone⟩
  · refine ⟨u, by simp [target, hnone], hu, ?_⟩
    exact Node.filterMap_bunch_eq_nil_iff.1 hnone
  · have hv := (Node.bunch_eq_some hy).1
    refine ⟨v, by simp [target, hlast, hv], Window.mem_of_mem_after (by rw [hxs]; simp), ?_⟩
    obtain ⟨pre, -, hhistory⟩ := Window.exists_eq_append_after hu
    rw [hxs] at hhistory
    have hafter : Window.after v (node.history s.clock) = xs₂ := by
      have hd := node.nodup s.clock
      rw [hhistory, ← List.cons_append, ← List.append_assoc] at hd ⊢
      exact Window.after_of_nodup hd
    rw [hafter]
    exact Node.filterMap_bunch_eq_nil_iff.1 hnone

/-- With enough fuel, `n` rounds from the signature `tx` and the call number `c` end in `s`. -/
def Reads (node : Node) (tx : TxSignature) (c n : ℕ) (s : Reader) : Prop :=
  ∃ f, ∀ fuel, f ≤ fuel → readEventsBackward node fuel (start tx c) n = some s

/-- What `sent` is to hold once a scan has seen the first `t` calls' history. -/
def sentBy (node : Node) (tx : TxSignature) (c t : ℕ) : List LogsBunch :=
  (Window.after tx (node.history t)).filterMap fun signature =>
    node.bunch (signature ∈ node.history c) signature

theorem sentBy_first {tx : TxSignature} {c : ℕ} : sentBy node tx c c =
    (Window.after tx (node.history c)).filterMap (node.bunch true) := by
  refine List.filterMap_congr fun signature hmem => ?_
  rw [decide_eq_true (Window.mem_of_mem_after hmem)]

/-- What a later scan can see in addition was not seen by the first. -/
theorem sentBy_later {tx v : TxSignature} {c t t' : ℕ} (htx : tx ∈ node.history c) (hct : c ≤ t)
    (htt' : t ≤ t') (hv : v ∈ node.history t)
    (hnone : (Window.after v (node.history t)).filterMap (node.bunch false) = []) :
    sentBy node tx c t' = sentBy node tx c t ++
      (Window.after v (node.history t')).filterMap (node.bunch false) := by
  obtain ⟨new, hnew⟩ := node.history_mono htt'
  have htx' := (node.history_mono hct).subset htx
  have hfresh : new.filterMap (fun signature => node.bunch (signature ∈ node.history c) signature) =
      new.filterMap (node.bunch false) := by
    refine List.filterMap_congr fun signature hmem => ?_
    have hd := node.nodup t'
    rw [← hnew] at hd
    rw [decide_eq_false fun hold => (List.nodup_append.1 hd).2.2 signature
      ((node.history_mono hct).subset hold) signature hmem rfl]
  rw [sentBy, sentBy, ← hnew, Window.after_append htx', Window.after_append hv,
    List.filterMap_append, List.filterMap_append, hfresh, hnone, List.nil_append]

/-- Each round catches up with what its first call can see. -/
theorem reads_step {tx : TxSignature} {c : ℕ} (htx : tx ∈ node.history c) (n : ℕ) :
    ∃ s s', Reads node tx c n s ∧ Reads node tx c (n + 1) s' ∧ c ≤ s.clock ∧
      s.clock < s'.clock ∧ s'.CaughtUp node s.clock ∧ s'.sent = sentBy node tx c s.clock := by
  induction n with
  | zero =>
    obtain ⟨s', hround, hclock, hcaught, hsent⟩ := round_eq (s := start tx c) rfl htx
    refine ⟨start tx c, s', ⟨0, fun _ _ => rfl⟩, ⟨_, fun fuel hfuel => hround fuel hfuel⟩, le_rfl,
      hclock, hcaught, ?_⟩
    rw [hsent, start, List.nil_append]
    exact sentBy_first.symm
  | succ n ih =>
    obtain ⟨s, s', -, ⟨f, hreads⟩, hc, hclock, ⟨v, htarget, hv, hnone⟩, hsent⟩ := ih
    have hv' := (node.history_mono hclock.le).subset hv
    obtain ⟨s'', hround, hclock', hcaught, hsent'⟩ := round_eq htarget hv'
    refine ⟨s', s'', ⟨f, hreads⟩,
      ⟨max f ((Window.after v (node.history s'.clock)).length + 1), fun fuel hfuel => ?_⟩,
      by omega, hclock', hcaught, ?_⟩
    · rw [readEventsBackward, hreads fuel (by omega)]
      exact hround fuel (by omega)
    · rw [hsent', hsent]
      exact (sentBy_later htx hc hclock.le hv hnone).symm

/-- For every start that the first scan can see, every growth of the history, all page sizes and
any number of rounds : the reader gets through, and what it has sent is the sequence of the
successful transactions with logs after the start, oldest first, up to the newest one that the
first call of the last scan could see. None is sent twice, and those the first scan found are
marked for checking. -/
theorem reads_exactly (node : Node) (tx : TxSignature) (c n : ℕ) (htx : tx ∈ node.history c) :
    ∃ s s', Reads node tx c n s ∧ Reads node tx c (n + 1) s' ∧ c ≤ s.clock ∧
      s'.sent = (Window.after tx (node.history s.clock)).filterMap (fun signature =>
        node.bunch (signature ∈ node.history c) signature) ∧
      (s'.sent.map LogsBunch.txSignature).Nodup := by
  obtain ⟨s, s', hs, hs', hc, -, -, hsent⟩ := reads_step htx n
  refine ⟨s, s', hs, hs', hc, hsent, ?_⟩
  rw [hsent, sentBy, Node.map_txSignature]
  exact (Window.nodup_after (node.nodup _)).filter _

end Reader

/-! ## A node that pages -/

/-- A signature for each byte. -/
def TxSignature.of (n : UInt8) : TxSignature :=
  ⟨n :: List.replicate 63 0, by rw [List.length_cons, List.length_replicate]⟩

/-- The node that gets one more of the transactions `all` with each call, and answers with
`size + 1` signatures at most. -/
def Node.paged (all : List TxSignature) (hall : all.Nodup) (size : ℕ)
    (getTransaction : TxSignature → Transaction) : Node where
  history t := all.take (t + 3)
  getSignatures t untilTx before :=
    (Window.between untilTx before (all.take (t + 3))).reverse.take (size + 1)
  getTransaction := getTransaction
  grows t := List.take_prefix_take_left (by omega)
  nodup t := hall.sublist (List.take_sublist _ _)
  page _ _ _ := List.take_prefix _ _
  page_ne_nil t untilTx before h := by
    rw [Ne, List.take_eq_nil_iff, List.reverse_eq_nil_iff]
    tauto

/-- Five transactions, of which the second failed and the fourth has no logs. -/
def Node.five : Node :=
  .paged ([1, 2, 3, 4, 5].map TxSignature.of) (by decide) 1 fun signature =>
    ⟨7, some ⟨signature = .of 2, if signature = .of 4 then none else some ["log".toList]⟩⟩

/-- Two rounds read the third transaction and the fifth, which the first scan could not see. -/
theorem reads_exactly_five : TxSignature.of 1 ∈ Node.five.history 0 ∧
    ∃ s s', Reader.Reads Node.five (.of 1) 0 1 s ∧ Reader.Reads Node.five (.of 1) 0 2 s' ∧
      0 ≤ s.clock ∧
      s'.sent = (Window.after (.of 1) (Node.five.history s.clock)).filterMap (fun signature =>
        Node.five.bunch (signature ∈ Node.five.history 0) signature) ∧
      (s'.sent.map LogsBunch.txSignature).Nodup :=
  ⟨by decide, Reader.reads_exactly Node.five (.of 1) 0 1 (by decide)⟩

end Photon
