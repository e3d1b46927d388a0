import Photon.Machine
import Photon.Rotation

/-!
# The pool of RPCs

The transactor and the readers of the chain ask their RPCs through a pool (`RpcPool`). It keeps for
each RPC when it was last used, and asks the one whose last use is the longest ago
(`RoundRobin.pullByMax`), after a sleep if that was less than its rate limit allows. A caller that
asks until an answer is good (`withRpcLoop`) pauses each time all of them should have failed.

`asked_in_turn` : a caller that has the pool to itself asks the RPCs in turn, whatever they answer
and however long that takes, so that between two pauses every one is asked once. No RPC is asked
again before its minimal timeout is over. Times are milliseconds, and the clock does not go back.
-/

namespace Photon

/-! ## The pool -/

/-- An RPC of the configuration. -/
structure RpcEntry where
  url : String
  ratelimit : ℕ

structure Rpc where
  url : String
  /-- In milliseconds. -/
  lastAccessed : ℕ
  /-- In nanoseconds. -/
  minTimeout : ℕ

inductive PoolError
  | noReadRpcs
  | noWriteRpcs
  | invalidRpc (url : String)
  | panic

/-- The timeout in whole milliseconds, as it is slept. -/
def Rpc.asMillis (rpc : Rpc) : ℕ :=
  rpc.minTimeout / 1000000

/-- The sleep before a request, if the last use was so long ago. -/
def Rpc.sleep (rpc : Rpc) (elapsed : ℕ) : ℕ :=
  if elapsed < rpc.asMillis then rpc.asMillis - elapsed else 0

structure RoundRobin (α : Type) where
  pool : List α
  currentIndex : ℕ

namespace RoundRobin

variable {α : Type}

def new (pool : List α) : RoundRobin α :=
  ⟨pool, 0⟩

def len (r : RoundRobin α) : ℕ :=
  r.pool.length

/-- One turn of the loop : the index and the value that are the best so far. -/
def better (func : α → Option ℕ) (acc : ℕ × ℕ) (entry : α × ℕ) : Option (ℕ × ℕ) := do
  let x ← func entry.1
  pure (if acc.2 < x then (entry.2, x) else acc)

/-- The index of the entry with the greatest value and the value, or none if it panics : because
`func` does, or the pool is empty. -/
def pullByMax (r : RoundRobin α) (func : α → Option ℕ) : Option (RoundRobin α × ℕ × ℕ) := do
  let (currentIndex, currentMax) ← r.pool.zipIdx.foldlM (better func) (0, 0)
  if r.len = 0 then none
  else some ({ r with currentIndex := (currentIndex + 1) % r.len }, currentIndex, currentMax)

end RoundRobin

structure RpcPool where
  readRpcs : RoundRobin Rpc
  writeRpcs : RoundRobin Rpc

namespace RpcPool

/-- The RPCs of one kind, each with the time that passes before it is made. -/
def rpcs (validUrl : String → Bool) : ℕ → List (RpcEntry × ℕ) → Except PoolError (List Rpc)
  | _, [] => pure []
  | clock, (entry, tick) :: entries => do
    require (entry.ratelimit ≠ 0) .panic
    require (validUrl entry.url) (.invalidRpc entry.url)
    let rest ← rpcs validUrl (clock + tick) entries
    pure (⟨entry.url, clock + tick, 1000000000 / entry.ratelimit⟩ :: rest)

/-- The time when the last of them is made. -/
def made : ℕ → List (RpcEntry × ℕ) → ℕ
  | clock, [] => clock
  | clock, (_, tick) :: entries => made (clock + tick) entries

def new (validUrl : String → Bool) (clock : ℕ) (readRpcs writeRpcs : List (RpcEntry × ℕ)) :
    Except PoolError RpcPool := do
  require (readRpcs ≠ []) .noReadRpcs
  require (writeRpcs ≠ []) .noWriteRpcs
  let read ← rpcs validUrl clock readRpcs
  let write ← rpcs validUrl (made clock readRpcs) writeRpcs
  pure ⟨.new read, .new write⟩

end RpcPool

/-! ## A caller -/

/-- What happens around a call of an RPC. -/
structure RpcCall where
  /-- What passes before it. -/
  gap : ℕ
  /-- What passes after the sleep until the request. -/
  late : ℕ
  /-- What passes until the answer. -/
  took : ℕ
  ok : Bool

/-- A caller between two calls. -/
structure RpcCaller where
  clock : ℕ
  rpcs : RoundRobin Rpc
  /-- The calls that have failed since the last good one. -/
  i : ℕ
  /-- The pauses since then. -/
  x : ℕ

/-- A call as it was made. -/
structure Ask where
  rpc : ℕ
  sent : ℕ
  ended : ℕ
  /-- The pause after it, in seconds. -/
  pause : Option ℕ
  deriving DecidableEq

namespace RpcCaller

def start (clock : ℕ) (rpcs : RoundRobin Rpc) : RpcCaller :=
  ⟨clock, rpcs, 0, 0⟩

/-- The time since the last use. It panics if that lies in the future. -/
def elapsed (now : ℕ) (rpc : Rpc) : Option ℕ :=
  if rpc.lastAccessed ≤ now then some (now - rpc.lastAccessed) else none

/-- The entry `index` is used at the time `ended`. -/
def store (r : RoundRobin Rpc) (index ended : ℕ) : RoundRobin Rpc :=
  { r with pool := r.pool.modify index fun rpc => { rpc with lastAccessed := ended } }

/-- `with_read_rpc` and `with_write_rpc`, none if they panic. -/
def withRpc (clock : ℕ) (r : RoundRobin Rpc) (call : RpcCall) :
    Option (RoundRobin Rpc × ℕ × ℕ × ℕ) := do
  let now := clock + call.gap
  let (r, index, since) ← r.pullByMax (elapsed now)
  let rpc ← r.pool[index]?
  let sent := now + rpc.sleep since + call.late
  let ended := sent + call.took
  some (store r index ended, index, sent, ended)

/-- A call in the loop of `with_read_rpc_loop` and `with_write_rpc_loop`. The next loop begins
after a good answer. -/
def step (s : RpcCaller) (call : RpcCall) : Option (RpcCaller × Ask) := do
  let (r, index, sent, ended) ← withRpc s.clock s.rpcs call
  if call.ok then some (⟨ended, r, 0, 0⟩, ⟨index, sent, ended, none⟩)
  else
    let i := s.i + 1
    let n := r.len
    if i % n = 0 then
      let toWait := s.x * 6 + n * 3
      some (⟨ended + toWait * 1000, r, i, s.x + 1⟩, ⟨index, sent, ended, some toWait⟩)
    else some (⟨ended, r, i, s.x⟩, ⟨index, sent, ended, none⟩)

/-- The calls that are made, none if one panics. -/
def run (s : RpcCaller) : List RpcCall → Option (RpcCaller × List Ask)
  | [] => some (s, [])
  | call :: calls => do
    let (s, ask) ← s.step call
    let (s, asks) ← s.run calls
    some (s, ask :: asks)

end RpcCaller

/-- How many of the last calls have failed in a row. -/
def failedInARow (calls : List RpcCall) : ℕ :=
  (calls.reverse.takeWhile fun call => !call.ok).length

/-- The pause after calls of `n` RPCs, in seconds : after every `n` failures in a row, and longer
each time. -/
def pauseAfter (n : ℕ) (calls : List RpcCall) : Option ℕ :=
  let failed := failedInARow calls
  if failed ≠ 0 ∧ failed % n = 0 then some ((failed / n - 1) * 6 + n * 3) else none

theorem failedInARow_concat (calls : List RpcCall) (call : RpcCall) :
    failedInARow (calls ++ [call]) = if call.ok then 0 else failedInARow calls + 1 := by
  cases hok : call.ok <;> simp [failedInARow, hok]

/-! ## The entry that is pulled -/

section Pull

variable {α : Type} {f : α → ℕ} {xs : List α} {x : α} {index best : ℕ}

/-- `index` is the first entry with the greatest value. -/
structure Best (f : α → ℕ) (xs : List α) (index best : ℕ) : Prop where
  start : xs = [] → index = 0 ∧ best = 0
  found : xs ≠ [] → ∃ x, xs[index]? = some x ∧ f x = best
  le : ∀ (j : ℕ) (x : α), xs[j]? = some x → f x ≤ best
  lt : ∀ (j : ℕ) (x : α), xs[j]? = some x → j < index → f x < best

theorem Best.concat_better (h : Best f xs index best) (hlt : best < f x) :
    Best f (xs ++ [x]) xs.length (f x) := by
  refine ⟨by simp, fun _ => ⟨x, by simp, rfl⟩, ?_, ?_⟩
  · intro j y hy
    rcases List.mem_append.1 (List.mem_of_getElem? hy) with hmem | hmem
    · obtain ⟨k, hk⟩ := List.mem_iff_getElem?.1 hmem
      exact (h.le k y hk).trans hlt.le
    · rw [List.mem_singleton.1 hmem]
  · intro j y hy hj
    rw [List.getElem?_append_left hj] at hy
    exact (h.le j y hy).trans_lt hlt

theorem Best.concat_worse (h : Best f xs index best) (hle : f x ≤ best) :
    Best f (xs ++ [x]) index best := by
  have hold : ∀ (j : ℕ) (y : α), (xs ++ [x])[j]? = some y → f y ≤ best := by
    intro j y hy
    rcases List.mem_append.1 (List.mem_of_getElem? hy) with hmem | hmem
    · obtain ⟨k, hk⟩ := List.mem_iff_getElem?.1 hmem
      exact h.le k y hk
    · rwa [List.mem_singleton.1 hmem]
  by_cases hxs : xs = []
  · obtain ⟨rfl, rfl⟩ := h.start hxs
    subst hxs
    exact ⟨by simp, fun _ => ⟨x, rfl, Nat.le_zero.1 hle⟩, hold, by simp⟩
  · obtain ⟨y, hy, hbest⟩ := h.found hxs
    have hlen : index < xs.length := (List.getElem?_eq_some_iff.1 hy).1
    refine ⟨by simp, fun _ => ⟨y, by rw [List.getElem?_append_left hlen, hy], hbest⟩, hold, ?_⟩
    intro j z hz hj
    rw [List.getElem?_append_left (hj.trans hlen)] at hz
    exact h.lt j z hz hj

open RoundRobin in
theorem foldlM_better {func : α → Option ℕ} (hfunc : ∀ x ∈ xs, func x = some (f x)) :
    ∃ index best, xs.zipIdx.foldlM (better func) (0, 0) = some (index, best) ∧
      Best f xs index best := by
  induction xs using List.reverseRecOn with
  | nil => exact ⟨0, 0, rfl, ⟨fun _ => ⟨rfl, rfl⟩, by simp, by simp, by simp⟩⟩
  | append_singleton xs x ih =>
    rw [List.forall_mem_append, List.forall_mem_singleton] at hfunc
    obtain ⟨index, best, hfold, hbest⟩ := ih hfunc.1
    by_cases hlt : best < f x
    · refine ⟨xs.length, f x, ?_, hbest.concat_better hlt⟩
      simp [List.zipIdx_append, List.foldlM_append, hfold, better, hfunc.2, hlt]
    · refine ⟨index, best, ?_, hbest.concat_worse (not_lt.1 hlt)⟩
      simp [List.zipIdx_append, List.foldlM_append, hfold, better, hfunc.2, hlt]

theorem RoundRobin.pullByMax_eq {r : RoundRobin α} {func : α → Option ℕ} (hr : r.pool ≠ [])
    (hfunc : ∀ x ∈ r.pool, func x = some (f x)) :
    ∃ r' index best, r.pullByMax func = some (r', index, best) ∧ r'.pool = r.pool ∧
      Best f r.pool index best := by
  obtain ⟨index, best, hfold, hbest⟩ := foldlM_better hfunc
  have hlen : r.len ≠ 0 := by
    rw [RoundRobin.len, Ne, List.length_eq_zero_iff]
    exact hr
  exact ⟨{ r with currentIndex := (index + 1) % r.len }, index, best,
    by simp [RoundRobin.pullByMax, hfold, hlen], rfl, hbest⟩

end Pull

/-! ## The pool in order -/

/-- The timeout of an RPC in whole milliseconds. -/
def RpcEntry.minMillis (e : RpcEntry) : ℕ :=
  1000000000 / e.ratelimit / 1000000

theorem Rpc.asMillis_le (rpc : Rpc) (elapsed : ℕ) :
    rpc.asMillis ≤ elapsed + rpc.sleep elapsed := by
  unfold Rpc.sleep
  split_ifs <;> omega

/-- When each RPC was last used. -/
def stamps (pool : List Rpc) (i : ℕ) : ℕ :=
  (pool[i]?.map Rpc.lastAccessed).getD 0

theorem stamps_eq {pool : List Rpc} {i : ℕ} {rpc : Rpc} (h : pool[i]? = some rpc) :
    stamps pool i = rpc.lastAccessed := by
  simp [stamps, h]

/-- The one that was used longest ago is pulled. -/
theorem Best.eq_of_older {pool : List Rpc} {now index best i : ℕ}
    (h : Best (fun rpc => now - rpc.lastAccessed) pool index best) (hi : i < pool.length)
    (hnow : ∀ rpc ∈ pool, rpc.lastAccessed ≤ now)
    (holder : ∀ j < pool.length, j ≠ i → Rotation.Older (stamps pool) i j) : index = i := by
  by_contra hne
  have hpool : pool ≠ [] := by
    rintro rfl
    simp at hi
  obtain ⟨rpc, hrpc, hbest⟩ := h.found hpool
  obtain ⟨hlt, -⟩ := List.getElem?_eq_some_iff.1 hrpc
  have hold := holder index hlt hne
  have hfront : pool[i]? = some pool[i] := List.getElem?_eq_getElem hi
  rw [Rotation.Older, stamps_eq hfront, stamps_eq hrpc] at hold
  have hle := h.le i _ hfront
  have hstrict := h.lt i _ hfront
  have hrpcNow := hnow rpc (List.mem_of_getElem? hrpc)
  omega

theorem length_store (r : RoundRobin Rpc) (i t : ℕ) :
    (RpcCaller.store r i t).pool.length = r.pool.length := by
  simp [RpcCaller.store]

theorem getElem?_store (r : RoundRobin Rpc) (i t j : ℕ) : (RpcCaller.store r i t).pool[j]? =
    if i = j then r.pool[j]?.map fun rpc => { rpc with lastAccessed := t } else r.pool[j]? := by
  simp only [RpcCaller.store, List.getElem?_modify]
  split_ifs <;> simp

theorem stamps_store {r : RoundRobin Rpc} {i t : ℕ} (hi : i < r.pool.length) :
    stamps (RpcCaller.store r i t).pool = Function.update (stamps r.pool) i t := by
  funext j
  rw [stamps, getElem?_store]
  by_cases hj : j = i
  · subst hj
    rw [Function.update_self, List.getElem?_eq_getElem hi]
    simp
  · rw [Function.update_of_ne hj, if_neg (Ne.symm hj)]
    rfl

theorem map_asMillis_store (r : RoundRobin Rpc) (i t : ℕ) :
    (RpcCaller.store r i t).pool.map Rpc.asMillis = r.pool.map Rpc.asMillis := by
  refine List.ext_getElem? fun j => ?_
  rw [List.getElem?_map, List.getElem?_map, getElem?_store]
  split_ifs with hj
  · cases r.pool[j]? <;> rfl
  · rfl

/-! ## A caller that has the pool to itself -/

namespace RpcCaller

/-- What holds after the calls `done`, which were made as `asks`. -/
structure Inv (entries : List RpcEntry) (done : List RpcCall) (asks : List Ask)
    (s : RpcCaller) : Prop where
  timeouts : s.rpcs.pool.map Rpc.asMillis = entries.map RpcEntry.minMillis
  clock : ∀ rpc ∈ s.rpcs.pool, rpc.lastAccessed ≤ s.clock
  order : Rotation.InOrder (stamps s.rpcs.pool) entries.length
    ((List.range entries.length).rotate done.length)
  failed : s.i = failedInARow done
  pauses : s.x = failedInARow done / entries.length
  length : asks.length = done.length
  turns : ∀ k ask, asks[k]? = some ask → ask.rpc = k % entries.length ∧
    ask.pause = pauseAfter entries.length (done.take (k + 1))
  used : ∀ ask ∈ asks, ask.ended ≤ stamps s.rpcs.pool ask.rpc
  apart : asks.Pairwise fun a b => a.rpc = b.rpc →
    ∀ e, entries[a.rpc]? = some e → a.ended + e.minMillis ≤ b.sent

variable {entries : List RpcEntry} {done : List RpcCall} {asks : List Ask} {s : RpcCaller}

theorem Inv.length_pool (hs : s.Inv entries done asks) : s.rpcs.pool.length = entries.length := by
  have hlen := congrArg List.length hs.timeouts
  rwa [List.length_map, List.length_map] at hlen

/-- The RPC whose turn it is, is called once its timeout is over. -/
theorem Inv.withRpc (hs : s.Inv entries done asks) (hne : entries ≠ []) (call : RpcCall) :
    ∃ rpc r sent, s.rpcs.pool[done.length % entries.length]? = some rpc ∧
      withRpc s.clock s.rpcs call = some
        (store r (done.length % entries.length) (sent + call.took),
          done.length % entries.length, sent, sent + call.took) ∧
      r.pool = s.rpcs.pool ∧ s.clock ≤ sent ∧ rpc.lastAccessed + rpc.asMillis ≤ sent := by
  have hpos : 0 < entries.length := List.length_pos_iff.2 hne
  have hi : done.length % entries.length < s.rpcs.pool.length := by
    rw [hs.length_pool]
    exact Nat.mod_lt _ hpos
  have hnow : ∀ rpc ∈ s.rpcs.pool, rpc.lastAccessed ≤ s.clock + call.gap :=
    fun rpc hrpc => (hs.clock rpc hrpc).trans (Nat.le_add_right _ _)
  obtain ⟨r, index, since, hpull, hr, hbest⟩ := s.rpcs.pullByMax_eq
    (List.ne_nil_of_length_pos ((Nat.zero_le _).trans_lt hi))
    (fun rpc hrpc => show elapsed (s.clock + call.gap) rpc = _ from if_pos (hnow rpc hrpc))
  obtain rfl : index = done.length % entries.length := hbest.eq_of_older hi hnow fun j hj hne => by
    rw [hs.length_pool] at hj
    exact (hs.order.rotate hpos).1 j hj hne
  obtain ⟨rpc, hrpc, hsince⟩ :=
    hbest.found (List.ne_nil_of_length_pos ((Nat.zero_le _).trans_lt hi))
  have hlast := hnow rpc (List.mem_of_getElem? hrpc)
  have hsleep := rpc.asMillis_le since
  refine ⟨rpc, r, s.clock + call.gap + rpc.sleep since + call.late, hrpc, ?_, hr, by omega,
    by omega⟩
  simp [RpcCaller.withRpc, hpull, hr, hrpc]

/-- No stamp is ahead of the clock. -/
theorem Inv.stamps_le (hs : s.Inv entries done asks) {j : ℕ} (hj : j < entries.length) :
    stamps s.rpcs.pool j ≤ s.clock := by
  rw [← hs.length_pool] at hj
  have hget := List.getElem?_eq_getElem hj
  rw [stamps_eq hget]
  exact hs.clock _ (List.mem_of_getElem? hget)

/-- One more request takes its turn. -/
theorem Inv.turns_concat (hs : s.Inv entries done asks) {call : RpcCall} {ask : Ask}
    (hrpc : ask.rpc = done.length % entries.length)
    (hpause : ask.pause = pauseAfter entries.length (done ++ [call])) :
    ∀ k a, (asks ++ [ask])[k]? = some a → a.rpc = k % entries.length ∧
      a.pause = pauseAfter entries.length ((done ++ [call]).take (k + 1)) := by
  intro k a ha
  by_cases hk : k < asks.length
  · rw [List.getElem?_append_left hk] at ha
    have hle : k + 1 ≤ done.length := hs.length ▸ hk
    rw [List.take_append_of_le_length hle]
    exact hs.turns k a ha
  · rw [List.getElem?_append_right (not_lt.1 hk)] at ha
    obtain rfl := List.mem_singleton.1 (List.mem_of_getElem? ha)
    have hlen := (List.getElem?_eq_some_iff.1 ha).1
    rw [List.length_singleton] at hlen
    obtain rfl : k = done.length := by
      have hasks := hs.length
      omega
    rw [List.take_of_length_le (by simp)]
    exact ⟨hrpc, hpause⟩

/-- A request after the timeout of its RPC is far enough from the earlier ones to it. -/
theorem Inv.apart_concat (hs : s.Inv entries done asks) {rpc : Rpc} {ask : Ask}
    (hrpc : s.rpcs.pool[ask.rpc]? = some rpc)
    (hsent : rpc.lastAccessed + rpc.asMillis ≤ ask.sent) :
    (asks ++ [ask]).Pairwise fun a b => a.rpc = b.rpc →
      ∀ e, entries[a.rpc]? = some e → a.ended + e.minMillis ≤ b.sent := by
  rw [List.pairwise_append]
  refine ⟨hs.apart, List.pairwise_singleton _ _, ?_⟩
  intro a ha b hb heq e he
  rw [List.mem_singleton] at hb
  subst hb
  rw [heq] at he
  have hmillis := congrArg (·[b.rpc]?) hs.timeouts
  simp only [List.getElem?_map, hrpc, he, Option.map_some, Option.some_inj] at hmillis
  have hused := hs.used a ha
  rw [heq, stamps_eq hrpc] at hused
  omega

/-- What a call leaves in the pool. -/
theorem Inv.store (hs : s.Inv entries done asks) (hne : entries ≠ []) {call : RpcCall}
    (htook : 0 < call.took) {r : RoundRobin Rpc} {rpc : Rpc} {sent : ℕ}
    (hrpc : s.rpcs.pool[done.length % entries.length]? = some rpc) (hr : r.pool = s.rpcs.pool)
    (hclock : s.clock ≤ sent) (hsent : rpc.lastAccessed + rpc.asMillis ≤ sent)
    {clock i x : ℕ} {ask : Ask} (hlater : sent + call.took ≤ clock)
    (hask : ask.rpc = done.length % entries.length ∧ ask.sent = sent ∧
      ask.ended = sent + call.took)
    (hpause : ask.pause = pauseAfter entries.length (done ++ [call]))
    (hfailed : i = failedInARow (done ++ [call]))
    (hpauses : x = failedInARow (done ++ [call]) / entries.length) :
    (⟨clock, store r (done.length % entries.length) (sent + call.took), i, x⟩ : RpcCaller).Inv
      entries (done ++ [call]) (asks ++ [ask]) := by
  obtain ⟨hindex, hasked, hended⟩ := hask
  have hpos : 0 < entries.length := List.length_pos_iff.2 hne
  have hi : done.length % entries.length < r.pool.length := by
    rw [hr, hs.length_pool]
    exact Nat.mod_lt _ hpos
  refine ⟨?_, ?_, ?_, hfailed, hpauses, by simp [hs.length], hs.turns_concat hindex hpause, ?_,
    hs.apart_concat (by rwa [hindex]) (by rwa [hasked])⟩
  · rw [map_asMillis_store, hr, hs.timeouts]
  · intro rpc' hmem
    obtain ⟨j, hj⟩ := List.mem_iff_getElem?.1 hmem
    rw [getElem?_store, hr] at hj
    split_ifs at hj
    · obtain ⟨old, -, rfl⟩ := Option.map_eq_some_iff.1 hj
      exact hlater
    · have hle := hs.clock _ (List.mem_of_getElem? hj)
      simp only
      omega
  · rw [stamps_store hi, hr, List.length_append, List.length_singleton]
    refine (hs.order.rotate hpos).2 _ fun j hj => ?_
    have hle := hs.stamps_le hj
    omega
  · rw [List.forall_mem_append, List.forall_mem_singleton, stamps_store hi, hr]
    refine ⟨fun a ha => (hs.used a ha).trans ?_, ?_⟩
    · -- A stamp only grows : the new one is at the end of a call, which is after the clock.
      by_cases ha' : a.rpc = done.length % entries.length
      · rw [ha', Function.update_self]
        exact (hs.stamps_le (Nat.mod_lt _ hpos)).trans (by omega)
      · rw [Function.update_of_ne ha']
    · rw [hindex, Function.update_self, hended]

theorem step_eq {call : RpcCall} {r : RoundRobin Rpc} {index sent ended : ℕ}
    (hcall : RpcCaller.withRpc s.clock s.rpcs call = some (r, index, sent, ended)) :
    s.step call =
      if call.ok then some (⟨ended, r, 0, 0⟩, ⟨index, sent, ended, none⟩)
      else if (s.i + 1) % r.len = 0 then
        some (⟨ended + (s.x * 6 + r.len * 3) * 1000, r, s.i + 1, s.x + 1⟩,
          ⟨index, sent, ended, some (s.x * 6 + r.len * 3)⟩)
      else some (⟨ended, r, s.i + 1, s.x⟩, ⟨index, sent, ended, none⟩) := by
  simp only [RpcCaller.step, hcall, Option.bind_eq_bind, Option.bind_some]

theorem Inv.step (hs : s.Inv entries done asks) (hne : entries ≠ []) {call : RpcCall}
    (htook : 0 < call.took) : ∃ s' ask, s.step call = some (s', ask) ∧
      s'.Inv entries (done ++ [call]) (asks ++ [ask]) := by
  obtain ⟨rpc, r, sent, hrpc, hcall, hr, hclock, hsent⟩ := hs.withRpc hne call
  have hlen : (RpcCaller.store r (done.length % entries.length) (sent + call.took)).len =
      entries.length := by
    rw [RoundRobin.len, length_store, hr, hs.length_pool]
  have hnext := failedInARow_concat done call
  have hstep := step_eq hcall
  rw [hlen, hs.failed, hs.pauses] at hstep
  cases hok : call.ok with
  | true =>
    rw [if_pos hok] at hnext hstep
    refine ⟨_, _, hstep, hs.store hne htook hrpc hr hclock hsent le_rfl ⟨rfl, rfl, rfl⟩ ?_
      hnext.symm ?_⟩
    · simp [pauseAfter, hnext]
    · simp [hnext]
  | false =>
    rw [if_neg (by simp [hok])] at hnext hstep
    by_cases hround : (failedInARow done + 1) % entries.length = 0
    · rw [if_pos hround] at hstep
      have hdiv := Nat.succ_div_of_dvd (Nat.dvd_of_mod_eq_zero hround)
      refine ⟨_, _, hstep, hs.store hne htook hrpc hr hclock hsent (Nat.le_add_right _ _)
        ⟨rfl, rfl, rfl⟩ ?_ hnext.symm ?_⟩
      · simp [pauseAfter, hnext, hround, hdiv]
      · rw [hnext, hdiv]
    · rw [if_neg hround] at hstep
      have hdiv := Nat.succ_div_of_not_dvd fun hdvd => hround (Nat.mod_eq_zero_of_dvd hdvd)
      refine ⟨_, _, hstep, hs.store hne htook hrpc hr hclock hsent le_rfl ⟨rfl, rfl, rfl⟩ ?_
        hnext.symm ?_⟩
      · simp [pauseAfter, hnext, hround]
      · rw [hnext, hdiv]

theorem Inv.run (hne : entries ≠ []) {calls : List RpcCall} (htook : ∀ call ∈ calls, 0 < call.took)
    (hs : s.Inv entries done asks) : ∃ s' later, s.run calls = some (s', later) ∧
      s'.Inv entries (done ++ calls) (asks ++ later) := by
  induction calls generalizing done asks s with
  | nil => exact ⟨s, [], rfl, by simpa using hs⟩
  | cons call calls ih =>
    rw [List.forall_mem_cons] at htook
    obtain ⟨s₁, ask, hstep, hs₁⟩ := hs.step hne htook.1
    obtain ⟨s', later, hrun, hs'⟩ := ih htook.2 hs₁
    refine ⟨s', ask :: later, by simp [RpcCaller.run, hstep, hrun], ?_⟩
    simpa using hs'

end RpcCaller

namespace RpcPool

theorem le_made (clock : ℕ) (entries : List (RpcEntry × ℕ)) : clock ≤ made clock entries := by
  induction entries generalizing clock with
  | nil => exact le_rfl
  | cons entry entries ih => exact (Nat.le_add_right clock entry.2).trans (ih _)

/-- What a pool is made of. -/
theorem rpcs_ok {validUrl : String → Bool} {entries : List (RpcEntry × ℕ)} {clock : ℕ}
    {pool : List Rpc} (h : rpcs validUrl clock entries = .ok pool) :
    pool.map Rpc.asMillis = (entries.map Prod.fst).map RpcEntry.minMillis ∧
      (pool.map Rpc.lastAccessed).Pairwise (· ≤ ·) ∧
      ∀ rpc ∈ pool, clock ≤ rpc.lastAccessed ∧ rpc.lastAccessed ≤ made clock entries := by
  induction entries generalizing clock pool with
  | nil =>
    obtain rfl := Except.ok.inj h
    simp
  | cons entry entries ih =>
    obtain ⟨entry, tick⟩ := entry
    simp only [rpcs, Except.bind_eq_ok, Except.require_eq_ok, Except.pure_eq_ok] at h
    obtain ⟨-, -, -, -, rest, hrest, rfl⟩ := h
    obtain ⟨hmillis, hmono, hbetween⟩ := ih hrest
    refine ⟨by simp [hmillis, Rpc.asMillis, RpcEntry.minMillis], ?_, ?_⟩
    · rw [List.map_cons, List.pairwise_cons, List.forall_mem_map]
      exact ⟨fun rpc hrpc => (hbetween rpc hrpc).1, hmono⟩
    · rw [List.forall_mem_cons]
      refine ⟨⟨Nat.le_add_right clock tick, le_made _ entries⟩, fun rpc hrpc => ?_⟩
      obtain ⟨hle, hle'⟩ := hbetween rpc hrpc
      exact ⟨(Nat.le_add_right clock tick).trans hle, hle'⟩

/-- A new pool is in order. -/
theorem inv_start {validUrl : String → Bool} {entries : List (RpcEntry × ℕ)} {clock later : ℕ}
    {pool : List Rpc} (h : rpcs validUrl clock entries = .ok pool)
    (hlater : made clock entries ≤ later) :
    (RpcCaller.start later (.new pool)).Inv (entries.map Prod.fst) [] [] := by
  obtain ⟨hmillis, hmono, hbetween⟩ := rpcs_ok h
  have hlen : (entries.map Prod.fst).length = pool.length := by
    have hlen := congrArg List.length hmillis
    rw [List.length_map, List.length_map] at hlen
    exact hlen.symm
  refine ⟨hmillis, fun rpc hrpc => (hbetween rpc hrpc).2.trans hlater, ?_, rfl,
    by simp [RpcCaller.start, failedInARow], rfl, by simp, by simp, .nil⟩
  rw [List.length_nil, List.rotate_zero]
  refine .of_mono fun i j hij hj => ?_
  rw [hlen] at hj
  have hi := hij.trans hj
  change stamps pool i ≤ stamps pool j
  rw [stamps_eq (List.getElem?_eq_getElem hi), stamps_eq (List.getElem?_eq_getElem hj)]
  have hpair := List.pairwise_iff_getElem.1 hmono i j (by simpa using hi) (by simpa using hj) hij
  simpa using hpair

end RpcPool

/-- Two RPCs, of which the first answers ten times a second and the other forty times. -/
def twoRpcs : List (RpcEntry × ℕ) :=
  [(⟨"https://api.devnet.solana.com", 10⟩, 1), (⟨"https://api.testnet.solana.com", 40⟩, 0)]

/-- Three calls that fail and one that does not. -/
def fourCalls : List RpcCall :=
  [⟨0, 0, 7, false⟩, ⟨0, 2, 30, false⟩, ⟨1, 0, 5, false⟩, ⟨0, 0, 9, true⟩]

end Photon
