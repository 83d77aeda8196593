import CacheServer.Bench.Load
import CacheServer.Lib.Duplex
import CacheServer.Lib.Runs
import CacheServer.Service.Pipeline

/-!
# The client of the pipeline stream

`pipelineGet` of the load generator sends a `Get` for each of its keys on a stream that stays open
from one call to the next, and then receives as many responses. It takes a response for the one to
its key if the sequence id is the one that it has sent. A call that fails half-way leaves responses
on the stream, and the next call receives these first.

Here the client runs against the server's `Pipeline`, which answers the requests one by one. The
two streams deliver in order, the steps of the two sides are interleaved in any order, and in
between other calls may leave the manager in any state. `pipelineGet_reads` says that a call that
returns without an error has read its own keys, each at some time during the call.
`pipelineGet_completes` says that a call does not fail for any other reason than a broken stream or
an empty key, and `pipelineGet_stays_lost` that a stream on which responses were left behind is of
no use any more.
-/

namespace CacheServer.Bench.PipelineClient

open Duplex (Channel)
open Service (PipelineRequest PipelineResponse GetResponse pipelineTurn)

/-! ## The client and the server -/

/-- A response, and the number of steps before the server's turn that gave it. -/
structure Reply where
  /-- The response. -/
  response : PipelineResponse
  /-- When the server gave it. -/
  time : ℕ
deriving DecidableEq, Repr

/-- A call of `pipelineGet`: the number of steps before it, its keys, the sequence ids that it has
sent, and `values` and `found` as far as they are filled. -/
structure Call where
  /-- When it began. -/
  since : ℕ
  /-- Its keys. -/
  keys : List Bytes
  /-- The sequence ids that it has sent. -/
  seq : List UInt64 := []
  /-- `values` and `found`. -/
  results : List (Bytes × Bool) := []
deriving DecidableEq, Repr

/-- A call that has returned without an error, and the number of steps before it did. -/
structure Returned extends Call where
  /-- When it returned. -/
  till : ℕ
deriving DecidableEq, Repr

/-- The two sides and the streams between them. -/
structure System where
  /-- The number of steps so far. -/
  time : ℕ := 0
  /-- The server's manager. -/
  manager : CacheManager
  /-- The client's `streamSeq`. -/
  streamSeq : UInt64 := 0
  /-- What is on the stream. -/
  stream : Channel PipelineRequest Reply := {}
  /-- The call under way. -/
  call : Option Call := none
  /-- The calls that have returned without an error. -/
  returned : List Returned := []
  /-- The number of calls that have returned an error. -/
  failures : ℕ := 0

/-- The steps of the two sides, and of others. -/
inductive Action
  /-- `pipelineGet` is called. -/
  | begin (keys : List Bytes)
  /-- The client sends the next request. -/
  | send
  /-- The server answers a request. -/
  | serve (env : Env)
  /-- The client receives a response. -/
  | receive
  /-- The call returns `values` and `found`. -/
  | finish
  /-- `Send` or `Recv` gives an error, which the call returns. -/
  | fail
  /-- Other calls change the manager. -/
  | other (manager : CacheManager)

/-- The request that `pipelineGet` sends for a key. -/
def request (id : UInt64) (key : Bytes) : PipelineRequest :=
  { sequenceId := id, operation := some (.get { key }) }

/-- The response that is taken for the one to the request with the id, or `none` for an error of
correlation. -/
def accept (id : UInt64) (r : PipelineResponse) : Option GetResponse :=
  if r.sequenceId ≠ id ∨ r.error ≠ "" then none
  else
    match r.result with
    | some (.get response) => some response
    | _ => none

/-- The call has sent all its requests. -/
abbrev Call.Sent (c : Call) : Prop := c.seq.length = c.keys.length

/-- The call, with a response that was accepted. -/
def Call.fill (c : Call) (r : GetResponse) : Call :=
  { c with results := c.results ++ [(r.value, r.found)] }

/-- What a step does, or `none` where it cannot be taken. -/
def move (s : System) : Action → Option System
  | .begin keys =>
    match s.call with
    | none => some { s with call := some { since := s.time, keys } }
    | some _ => none
  | .send =>
    match s.call with
    | none => none
    | some c =>
      match c.keys[c.seq.length]? with
      | none => none
      | some key =>
        let id := s.streamSeq + 1
        some { s with
          streamSeq := id
          stream := s.stream.send (request id key)
          call := some { c with seq := c.seq ++ [id] } }
  | .serve env =>
    match s.stream.toServer with
    | [] => none
    | request :: rest =>
      let (response, manager) := pipelineTurn env s.manager request
      some { s with manager, stream := s.stream.serve request rest ⟨response, s.time⟩ }
  | .receive =>
    match s.call, s.stream.toClient with
    | some c, reply :: rest =>
      match c.seq[c.results.length]? with
      | none => none
      | some id =>
        if c.Sent then
          let s := { s with stream := s.stream.receive reply rest }
          match accept id reply.response with
          | some r => some { s with call := some (c.fill r) }
          | none => some { s with call := none, failures := s.failures + 1 }
        else none
    | _, _ => none
  | .finish =>
    match s.call with
    | none => none
    | some c =>
      if c.Sent ∧ c.results.length = c.keys.length then
        some { s with call := none, returned := s.returned ++ [⟨c, s.time⟩] }
      else none
  | .fail =>
    match s.call with
    | none => none
    | some c =>
      if c.results.length < c.keys.length then
        some { s with
          -- the id is taken before `Send` is called
          streamSeq := if c.Sent then s.streamSeq else s.streamSeq + 1
          call := none
          failures := s.failures + 1 }
      else none
  | .other manager => some { s with manager }

/-- A step. -/
def step (s : System) (a : Action) : Option System :=
  (move s a).map fun t => { t with time := s.time + 1 }

/-- Steps one after another. -/
def run (s : System) (actions : List Action) : Option System := actions.foldlM step s

/-- A stream that was just opened. -/
def start (m : CacheManager) : System := { manager := m }

/-- `values` and `found` for a key that the manager is asked for. -/
def answer (env : Env) (m : CacheManager) (key : Bytes) : Bytes × Bool :=
  let r := (m.get env key).1
  (if r.found then r.value else [], r.found)

/-- What a call without an error has to have done. The server has answered its requests at some
times during the call, one after another, and each of the results is what `get` gave for the key in
the state of the manager at its time. -/
def Returned.Reads (m : CacheManager) (actions : List Action) (r : Returned) : Prop :=
  r.results.length = r.keys.length ∧
    ∃ times : List ℕ, times.length = r.keys.length ∧ times.Pairwise (· < ·) ∧
      (∀ t ∈ times, r.since ≤ t ∧ t < r.till) ∧
      ∀ (i t : ℕ) (key : Bytes), times[i]? = some t → r.keys[i]? = some key →
        ∃ env s, actions[t]? = some (.serve env) ∧ run (start m) (actions.take t) = some s ∧
          r.results[i]? = some (answer env s.manager key)

/-! ## Steps and runs -/

/-- The steps that can be taken, with what they do. -/
inductive Step (s : System) : Action → System → Prop
  | begin (keys : List Bytes) (hcall : s.call = none) :
    Step s (.begin keys)
      { s with time := s.time + 1, call := some { since := s.time, keys } }
  | send (c : Call) (key : Bytes) (hcall : s.call = some c)
    (hkey : c.keys[c.seq.length]? = some key) :
    Step s .send
      { s with
        time := s.time + 1
        streamSeq := s.streamSeq + 1
        stream := s.stream.send (request (s.streamSeq + 1) key)
        call := some { c with seq := c.seq ++ [s.streamSeq + 1] } }
  | serve (env : Env) (r : PipelineRequest) (rest : List PipelineRequest)
    (hrest : s.stream.toServer = r :: rest) :
    Step s (.serve env)
      { s with
        time := s.time + 1
        manager := (pipelineTurn env s.manager r).2
        stream := s.stream.serve r rest ⟨(pipelineTurn env s.manager r).1, s.time⟩ }
  | receive (c : Call) (reply : Reply) (rest : List Reply) (id : UInt64) (r : GetResponse)
    (hcall : s.call = some c) (hrest : s.stream.toClient = reply :: rest)
    (hid : c.seq[c.results.length]? = some id) (hsent : c.Sent)
    (haccept : accept id reply.response = some r) :
    Step s .receive
      { s with
        time := s.time + 1
        stream := s.stream.receive reply rest
        call := some (c.fill r) }
  | mismatch (c : Call) (reply : Reply) (rest : List Reply) (id : UInt64)
    (hcall : s.call = some c) (hrest : s.stream.toClient = reply :: rest)
    (hid : c.seq[c.results.length]? = some id) (hsent : c.Sent)
    (haccept : accept id reply.response = none) :
    Step s .receive
      { s with
        time := s.time + 1
        stream := s.stream.receive reply rest
        call := none
        failures := s.failures + 1 }
  | finish (c : Call) (hcall : s.call = some c) (hsent : c.Sent)
    (hresults : c.results.length = c.keys.length) :
    Step s .finish
      { s with
        time := s.time + 1
        call := none
        returned := s.returned ++ [⟨c, s.time⟩] }
  | fail (c : Call) (hcall : s.call = some c) (hresults : c.results.length < c.keys.length) :
    Step s .fail
      { s with
        time := s.time + 1
        streamSeq := if c.Sent then s.streamSeq else s.streamSeq + 1
        call := none
        failures := s.failures + 1 }
  | other (manager : CacheManager) :
    Step s (.other manager) { s with time := s.time + 1, manager }

/-- What `step` does is one of these. -/
theorem Step.of_step {s t : System} {a : Action} (h : step s a = some t) : Step s a t := by
  obtain ⟨u, hmove, rfl⟩ := Option.map_eq_some_iff.mp h
  cases a with
  | begin keys =>
    simp only [move] at hmove
    split at hmove <;> cases hmove
    exact .begin keys ‹_›
  | send =>
    simp only [move] at hmove
    split at hmove <;> try cases hmove
    split at hmove <;> cases hmove
    exact .send _ _ ‹_› ‹_›
  | serve env =>
    simp only [move] at hmove
    split at hmove <;> cases hmove
    exact .serve env _ _ ‹_›
  | receive =>
    simp only [move] at hmove
    split at hmove <;> try cases hmove
    split at hmove <;> try cases hmove
    split_ifs at hmove with hsent
    split at hmove <;> cases hmove
    · exact .receive _ _ _ _ _ ‹_› ‹_› ‹_› hsent ‹_›
    · exact .mismatch _ _ _ _ ‹_› ‹_› ‹_› hsent ‹_›
  | finish =>
    simp only [move] at hmove
    split at hmove <;> try cases hmove
    obtain ⟨hdone, hu⟩ := Option.ite_none_right_eq_some.mp hmove
    cases hu
    exact .finish _ ‹_› hdone.1 hdone.2
  | fail =>
    simp only [move] at hmove
    split at hmove <;> try cases hmove
    obtain ⟨hlt, hu⟩ := Option.ite_none_right_eq_some.mp hmove
    cases hu
    exact .fail _ ‹_› hlt
  | other manager =>
    cases hmove
    exact .other manager

/-- Each of these is what `step` does. -/
theorem Step.eq {s t : System} {a : Action} (h : Step s a t) : step s a = some t := by
  cases h <;> simp_all [step, move]

/-- A run is its last step, and a run up to there. -/
theorem run_concat {s t : System} {actions : List Action} {a : Action} :
    run s (actions ++ [a]) = some t ↔ ∃ u, run s actions = some u ∧ step u a = some t :=
  Runs.foldlM_concat_eq_some

/-- What holds at the start, and is kept by every step of a run, holds at the end. -/
theorem run_induction {motive : List Action → System → Prop} {s₀ : System} (init : motive [] s₀)
    (next : ∀ actions a s t, run s₀ (actions ++ [a]) = some t → run s₀ actions = some s →
      Step s a t → motive actions s → motive (actions ++ [a]) t)
    {actions : List Action} {s : System} (hrun : run s₀ actions = some s) : motive actions s := by
  refine Runs.foldlM_induction init (fun actions a s t hrun hstep h => ?_) hrun
  exact next actions a s t (run_concat.mpr ⟨s, hrun, hstep⟩) hrun (.of_step hstep) h

/-! ## What the stream holds -/

/-- The reply is the server's to the request, in the state of the manager at its time. -/
def Reply.Given (m : CacheManager) (actions : List Action) (reply : Reply)
    (r : PipelineRequest) : Prop :=
  ∃ env s, actions[reply.time]? = some (.serve env) ∧
    run (start m) (actions.take reply.time) = some s ∧
    reply.response = (pipelineTurn env s.manager r).1

/-- A response that was given stays given. -/
theorem Reply.Given.concat {m : CacheManager} {actions : List Action} {reply : Reply}
    {r : PipelineRequest} (h : reply.Given m actions r) (a : Action) :
    reply.Given m (actions ++ [a]) r := by
  obtain ⟨env, s, hserve, hrun, hresponse⟩ := h
  have hlt : reply.time < actions.length := (List.getElem?_eq_some_iff.mp hserve).1
  refine ⟨env, s, ?_, ?_, hresponse⟩
  · rw [List.getElem?_append_left hlt, hserve]
  · rw [List.take_append_of_le_length hlt.le, hrun]

/-- What the call has sent comes last on the stream, after `old`, and what the server has answered
of it was answered since the call began. -/
structure Call.Asked (stream : Channel PipelineRequest Reply) (c : Call)
    (old : List PipelineRequest) : Prop where
  /-- There is a key for every id that it has sent. -/
  bound : c.seq.length ≤ c.keys.length
  /-- Its requests come last on the stream. -/
  sent : stream.sent = old ++ List.zipWith request c.seq c.keys
  /-- What the server has answered of them, it has answered since the call began. -/
  during : ∀ x ∈ stream.served.drop old.length, c.since ≤ x.2.time

/-- What every step keeps. -/
structure Inv (m : CacheManager) (actions : List Action) (s : System) : Prop where
  /-- The clock counts the steps. -/
  time : s.time = actions.length
  /-- The stream delivers in order. -/
  ordered : s.stream.Ordered
  /-- Every response is the server's. -/
  given : ∀ x ∈ s.stream.served, x.2.Given m actions x.1
  /-- The responses are given one after another. -/
  given_lt : (s.stream.served.map fun x => x.2.time).Pairwise (· < ·)
  /-- None is given in the future. -/
  given_time : ∀ x ∈ s.stream.served, x.2.time < s.time
  /-- The requests of the call under way come last on the stream. -/
  call : ∀ c, s.call = some c → c.since ≤ s.time ∧ ∃ old, c.Asked s.stream old

/-- At the start nothing is on the stream. -/
theorem inv_start (m : CacheManager) : Inv m [] (start m) where
  time := rfl
  ordered := .init
  given := by simp [start]
  given_lt := by simp [start]
  given_time := by simp [start]
  call := by simp [start]

section

variable {m : CacheManager} {actions : List Action} {s t : System} {a : Action}

/-- A step that leaves the stream's history and the call alone, or gives the call up. -/
theorem Inv.idle (h : Inv m actions s) (htime : t.time = s.time + 1) (hordered : t.stream.Ordered)
    (hsent : t.stream.sent = s.stream.sent) (hserved : t.stream.served = s.stream.served)
    (hcall : ∀ c, t.call = some c → ∃ c', s.call = some c' ∧ c.since = c'.since ∧
      c.keys = c'.keys ∧ c.seq = c'.seq) :
    Inv m (actions ++ [a]) t where
  time := by simp [htime, h.time]
  ordered := hordered
  given := by
    rw [hserved]
    exact fun x hx => (h.given x hx).concat a
  given_lt := hserved ▸ h.given_lt
  given_time := by
    rw [hserved, htime]
    exact fun x hx => Nat.lt_succ_of_lt (h.given_time x hx)
  call := by
    intro c hc
    obtain ⟨c', hc', hsince, hkeys, hseq⟩ := hcall c hc
    obtain ⟨hle, old, hasked⟩ := h.call c' hc'
    refine ⟨by omega, old, ?_, ?_, ?_⟩
    · rw [hseq, hkeys]
      exact hasked.bound
    · rw [hsent, hseq, hkeys]
      exact hasked.sent
    · rw [hserved, hsince]
      exact hasked.during

/-- One more element on the shorter of two lists is one more pair. -/
theorem zipWith_concat {α β γ : Type} (f : α → β → γ) {as : List α} {bs : List β} {a : α} {b : β}
    (h : bs[as.length]? = some b) :
    List.zipWith f (as ++ [a]) bs = List.zipWith f as bs ++ [f a b] := by
  induction as generalizing bs with
  | nil =>
    cases bs with
    | nil => simp at h
    | cons b' bs =>
      cases h
      simp
  | cons a' as ih =>
    cases bs with
    | nil => simp at h
    | cons b' bs =>
      rw [List.length_cons, List.getElem?_cons_succ] at h
      simp [ih h]

/-- A call sends a request. -/
theorem Call.Asked.send {stream : Channel PipelineRequest Reply} {c : Call}
    {old : List PipelineRequest} (h : c.Asked stream old) (id : UInt64) {key : Bytes}
    (hkey : c.keys[c.seq.length]? = some key) :
    Call.Asked (stream.send (request id key)) { c with seq := c.seq ++ [id] } old where
  bound := by
    have hlt : c.seq.length < c.keys.length := (List.getElem?_eq_some_iff.mp hkey).1
    simpa using hlt
  sent := by
    simp only [Channel.send, h.sent, zipWith_concat request hkey, List.append_assoc]
  during := h.during

/-- Every step keeps the stream in order. -/
theorem Inv.step (h : Inv m actions s) (hrun : run (start m) actions = some s)
    (hstep : Step s a t) : Inv m (actions ++ [a]) t := by
  cases hstep with
  | begin keys hcall =>
    refine ⟨by simp [h.time], h.ordered, fun x hx => (h.given x hx).concat _, h.given_lt,
      fun x hx => Nat.lt_succ_of_lt (h.given_time x hx), ?_⟩
    rintro c ⟨⟩
    -- nothing is answered yet beyond what was sent before
    refine ⟨Nat.le_succ _, s.stream.sent, Nat.zero_le _, by simp, ?_⟩
    intro x hx
    rw [List.drop_eq_nil_of_le h.ordered.served_le] at hx
    cases hx
  | send c key hcall hkey =>
    refine ⟨by simp [h.time], h.ordered.send _, fun x hx => (h.given x hx).concat _, h.given_lt,
      fun x hx => Nat.lt_succ_of_lt (h.given_time x hx), ?_⟩
    rintro c' ⟨⟩
    -- the request comes last, after those that the call has sent before
    obtain ⟨hle, old, hasked⟩ := h.call c hcall
    exact ⟨Nat.le_succ_of_le hle, old, hasked.send _ hkey⟩
  | serve env r rest hrest =>
    refine ⟨by simp [h.time], h.ordered.serve hrest _, ?_, ?_, ?_, ?_⟩
    · -- the new response is the one to `r` in the present state
      intro x hx
      rcases List.mem_append.mp hx with hx | hx
      · exact (h.given x hx).concat _
      · rw [List.mem_singleton.mp hx]
        refine ⟨env, s, ?_, ?_, rfl⟩
        · rw [h.time, List.getElem?_append_right (le_refl _)]
          simp
        · rw [h.time, List.take_left, hrun]
    · -- and it is later than all others
      simp only [Channel.serve, List.map_append, List.map_cons, List.map_nil]
      refine List.pairwise_append.mpr ⟨h.given_lt, List.pairwise_singleton _ _, ?_⟩
      intro k hk k' hk'
      obtain ⟨x, hx, rfl⟩ := List.mem_map.mp hk
      rw [List.mem_singleton.mp hk']
      exact h.given_time x hx
    · intro x hx
      rcases List.mem_append.mp hx with hx | hx
      · exact Nat.lt_succ_of_lt (h.given_time x hx)
      · rw [List.mem_singleton.mp hx]
        exact Nat.lt_succ_self _
    · -- the call under way began before it
      intro c hc
      obtain ⟨hle, old, hasked⟩ := h.call c hc
      refine ⟨Nat.le_succ_of_le hle, old, hasked.bound, hasked.sent, ?_⟩
      intro x hx
      rw [Channel.serve, List.drop_append] at hx
      rcases List.mem_append.mp hx with hx | hx
      · exact hasked.during x hx
      · rw [List.mem_singleton.mp (List.mem_of_mem_drop hx)]
        exact hle
  | receive c reply rest id r hcall hrest hid hsent haccept =>
    exact h.idle rfl (h.ordered.receive hrest) rfl rfl
      fun c' hc' => ⟨c, hcall, by cases hc'; exact ⟨rfl, rfl, rfl⟩⟩
  | mismatch c reply rest id hcall hrest hid hsent haccept =>
    exact h.idle rfl (h.ordered.receive hrest) rfl rfl (by simp)
  | finish c hcall hsent hresults => exact h.idle rfl h.ordered rfl rfl (by simp)
  | fail c hcall hresults => exact h.idle rfl h.ordered rfl rfl (by simp)
  | other manager =>
    exact h.idle rfl h.ordered rfl rfl fun c hc => ⟨c, hc, rfl, rfl, rfl⟩

/-- Every run keeps the stream in order. -/
theorem inv_of_run (hrun : run (start m) actions = some s) : Inv m actions s :=
  run_induction (inv_start m) (fun _ _ _ _ _ hrun hstep h => h.step hrun hstep) hrun

/-! ## Sequence ids -/

/-- The sequence ids of the stream go up, and none is above the last one that was taken. -/
structure Ids (s : System) : Prop where
  /-- No more ids have been taken than there were steps. -/
  le_time : s.streamSeq.toNat ≤ s.time
  /-- No id on the stream is above the last one that was taken. -/
  le : ∀ x ∈ s.stream.sent, x.sequenceId.toNat ≤ s.streamSeq.toNat
  /-- The ids on the stream go up. -/
  lt : (s.stream.sent.map fun x => x.sequenceId.toNat).Pairwise (· < ·)

/-- The next id is one more. -/
theorem Ids.toNat_succ (h : Ids s) (hlt : s.time + 1 < 2 ^ 64) :
    (s.streamSeq + 1).toNat = s.streamSeq.toNat + 1 := by
  have hle := h.le_time
  rw [UInt64.toNat_add, UInt64.toNat_one]
  exact Nat.mod_eq_of_lt (by omega)

/-- Every step keeps the sequence ids going up, as long as they do not wrap. -/
theorem Ids.step (h : Ids s) (hstep : Step s a t) (hlt : t.time < 2 ^ 64) : Ids t := by
  have hle := h.le_time
  cases hstep with
  | send c key hcall hkey =>
    -- the new id is one above the last one, and so above all
    have hsucc := h.toNat_succ hlt
    refine ⟨by dsimp only; omega, ?_, ?_⟩
    · intro x hx
      rw [hsucc]
      rcases List.mem_append.mp hx with hx | hx
      · exact Nat.le_succ_of_le (h.le x hx)
      · rw [List.mem_singleton.mp hx]
        exact hsucc.le
    · simp only [Channel.send, List.map_append, List.map_cons, List.map_nil]
      refine List.pairwise_append.mpr ⟨h.lt, List.pairwise_singleton _ _, ?_⟩
      intro k hk k' hk'
      obtain ⟨x, hx, rfl⟩ := List.mem_map.mp hk
      rw [List.mem_singleton.mp hk', request, hsucc]
      exact Nat.lt_succ_of_le (h.le x hx)
  | fail c hcall hresults =>
    -- an id may be lost, but none is used again
    have hnext : s.streamSeq.toNat ≤ (if c.Sent then s.streamSeq else s.streamSeq + 1).toNat ∧
        (if c.Sent then s.streamSeq else s.streamSeq + 1).toNat ≤ s.time + 1 := by
      split_ifs
      · omega
      · rw [h.toNat_succ hlt]
        omega
    exact ⟨hnext.2, fun x hx => (h.le x hx).trans hnext.1, h.lt⟩
  | begin | serve | receive | mismatch | finish | other =>
    exact ⟨Nat.le_succ_of_le hle, h.le, h.lt⟩

/-- Time passes. -/
theorem Step.time_eq (h : Step s a t) : t.time = s.time + 1 := by
  cases h <;> rfl

/-- So does every run that is short enough. -/
theorem ids_of_run (hrun : run (start m) actions = some s)
    (hlt : actions.length < 2 ^ 64) : Ids s := by
  have hids : s.time < 2 ^ 64 → Ids s := by
    refine run_induction (motive := fun _ s => s.time < 2 ^ 64 → Ids s) ?_ ?_ hrun
    · exact fun _ => ⟨le_refl _, by simp [start], List.Pairwise.nil⟩
    · intro actions a s t _ _ hstep ih hlt
      have htime := hstep.time_eq
      exact (ih (by omega)).step hstep hlt
  exact hids ((inv_of_run hrun).time ▸ hlt)

/-- Two requests with one id are one request. -/
theorem Ids.eq_of_sequenceId (h : Ids s) {i j : ℕ} {x y : PipelineRequest}
    (hx : s.stream.sent[i]? = some x) (hy : s.stream.sent[j]? = some y)
    (hid : x.sequenceId = y.sequenceId) : i = j := by
  have hnodup : (s.stream.sent.map fun x => x.sequenceId.toNat).Nodup := h.lt.imp Nat.ne_of_lt
  have hlt : i < (s.stream.sent.map fun x => x.sequenceId.toNat).length := by
    rw [List.length_map]
    exact (List.getElem?_eq_some_iff.mp hx).1
  refine (List.getElem?_inj hlt hnodup).mp ?_
  rw [List.getElem?_map, List.getElem?_map, hx, hy, Option.map_some, Option.map_some, hid]

/-! ## Responses -/

/-- A response that is accepted has the id that it was asked for. -/
theorem accept_sequenceId {id : UInt64} {r : PipelineResponse} {g : GetResponse}
    (h : accept id r = some g) : r.sequenceId = id := by
  by_contra hne
  simp [accept, hne] at h

/-- The server echoes the sequence id. -/
theorem pipelineTurn_sequenceId (env : Env) (m : CacheManager) (r : PipelineRequest) :
    (pipelineTurn env m r).1.sequenceId = r.sequenceId := by
  unfold pipelineTurn
  dsimp only
  split <;> try split_ifs
  all_goals rfl

/-- The server's response to a `Get`. -/
theorem pipelineTurn_request (env : Env) (m : CacheManager) (id : UInt64) {key : Bytes}
    (hkey : key ≠ []) :
    ∃ g : GetResponse, (g.value, g.found) = answer env m key ∧
      (pipelineTurn env m (request id key)).1 = { sequenceId := id, result := some (.get g) } := by
  have hempty : key.isEmpty = false := by simpa using hkey
  simp only [pipelineTurn, request, hempty, answer, Bool.false_eq_true, if_false]
  split_ifs with hfound
  · exact ⟨_, rfl, rfl⟩
  · exact ⟨_, rfl, rfl⟩

/-- A response that is accepted holds what the manager has. -/
theorem answer_of_accept {env : Env} {m : CacheManager} {id id' : UInt64} {key : Bytes}
    {g : GetResponse} (h : accept id (pipelineTurn env m (request id' key)).1 = some g) :
    (g.value, g.found) = answer env m key := by
  by_cases hkey : key = []
  · -- the server rejects the empty key
    simp [hkey, pipelineTurn, request, accept] at h
  · obtain ⟨g', hanswer, hturn⟩ := pipelineTurn_request env m id' hkey
    rw [hturn, accept] at h
    split_ifs at h
    cases h
    exact hanswer

/-- The response to a request with its key set is accepted under the request's id. -/
theorem accept_pipelineTurn (env : Env) (m : CacheManager) (id : UInt64) {key : Bytes}
    (hkey : key ≠ []) :
    ∃ g, accept id (pipelineTurn env m (request id key)).1 = some g := by
  obtain ⟨g, -, hturn⟩ := pipelineTurn_request env m id hkey
  exact ⟨g, by simp [accept, hturn]⟩

/-! ## What a call has read -/

/-- The request of a call with the id is on the stream. -/
theorem Call.Asked.getElem? {stream : Channel PipelineRequest Reply} {c : Call}
    {old : List PipelineRequest} (h : c.Asked stream old) {i : ℕ} {id : UInt64}
    (hid : c.seq[i]? = some id) :
    ∃ key, c.keys[i]? = some key ∧ stream.sent[old.length + i]? = some (request id key) := by
  have hlt : i < c.keys.length := (List.getElem?_eq_some_iff.mp hid).1.trans_le h.bound
  refine ⟨c.keys[i], List.getElem?_eq_getElem hlt, ?_⟩
  rw [h.sent, List.getElem?_append_right (Nat.le_add_right _ _), Nat.add_sub_cancel_left,
    List.getElem?_zipWith, hid, List.getElem?_eq_getElem hlt]

/-- There is only one place where a call began. -/
theorem Call.Asked.unique {stream : Channel PipelineRequest Reply} {c : Call}
    {old old' : List PipelineRequest} (h : c.Asked stream old) (h' : c.Asked stream old') :
    old = old' :=
  List.append_cancel_right (h.sent.symm.trans h'.sent)

/-- Each result of the call is that of the response to its own request. -/
def Call.Filled (stream : Channel PipelineRequest Reply) (c : Call)
    (old : List PipelineRequest) : Prop :=
  ∀ (i : ℕ) (r : Bytes × Bool), c.results[i]? = some r →
    ∃ x id g, stream.served[old.length + i]? = some x ∧ c.seq[i]? = some id ∧
      accept id x.2.response = some g ∧ r = (g.value, g.found)

/-- The response that a call receives and accepts is the one to its own request, even if others were
left on the stream. -/
theorem Inv.place_of_accept (h : Inv m actions s) (hids : Ids s) {c : Call}
    {old : List PipelineRequest} (hasked : c.Asked s.stream old) {reply : Reply} {rest : List Reply}
    (hrest : s.stream.toClient = reply :: rest) {i : ℕ} {id : UInt64} (hid : c.seq[i]? = some id)
    {g : GetResponse} (haccept : accept id reply.response = some g) :
    ∃ r, s.stream.served[old.length + i]? = some (r, reply) ∧
      s.stream.received.length = old.length + i := by
  obtain ⟨r, hserved⟩ := h.ordered.next hrest
  obtain ⟨key, -, hsent⟩ := hasked.getElem? hid
  obtain ⟨env, u, -, -, hresponse⟩ := h.given _ (List.mem_of_getElem? hserved)
  have hsame : r.sequenceId = id := by
    rw [← accept_sequenceId haccept, hresponse, pipelineTurn_sequenceId]
  have hplace : s.stream.received.length = old.length + i :=
    hids.eq_of_sequenceId (h.ordered.served_getElem? hserved) hsent hsame
  exact ⟨r, hplace ▸ hserved, hplace⟩

/-- A call that has filled all its results has read what it should. -/
theorem Call.Filled.reads (h : Inv m actions s) {c : Call} {old : List PipelineRequest}
    (hasked : c.Asked s.stream old) (hfilled : c.Filled s.stream old)
    (hresults : c.results.length = c.keys.length) : Returned.Reads m actions ⟨c, s.time⟩ := by
  have hplaces : c.keys.length ≤ (s.stream.served.drop old.length).length := by
    cases hn : c.keys.length with
    | zero => exact Nat.zero_le _
    | succ n =>
      have hlast : n < c.results.length := by omega
      obtain ⟨x, -, -, hx, -⟩ := hfilled n _ (List.getElem?_eq_getElem hlast)
      have hlt := (List.getElem?_eq_some_iff.mp hx).1
      rw [List.length_drop]
      omega
  refine ⟨hresults, ((s.stream.served.drop old.length).take c.keys.length).map fun x => x.2.time,
    ?_, ?_, ?_, ?_⟩
  · rw [List.length_map, List.length_take, Nat.min_eq_left hplaces]
  · exact h.given_lt.sublist (((List.take_sublist _ _).trans (List.drop_sublist _ _)).map _)
  · intro k hk
    obtain ⟨x, hx, rfl⟩ := List.mem_map.mp hk
    have hx' := List.mem_of_mem_take hx
    exact ⟨hasked.during x hx', h.given_time x (List.mem_of_mem_drop hx')⟩
  · intro i k key hk hkey
    obtain ⟨x, hx, rfl⟩ := Option.map_eq_some_iff.mp ((List.getElem?_map ..).symm.trans hk)
    have hlt : i < c.keys.length := (List.getElem?_eq_some_iff.mp hkey).1
    rw [List.getElem?_take_of_lt hlt, List.getElem?_drop] at hx
    -- the result, the request and the server's turn at this place belong together
    have hres : i < c.results.length := hresults ▸ hlt
    obtain ⟨x', id, g, hx', hid, haccept, hr⟩ := hfilled i _ (List.getElem?_eq_getElem hres)
    cases hx.symm.trans hx'
    obtain ⟨key', hkey', hsent⟩ := hasked.getElem? hid
    cases hkey.symm.trans hkey'
    obtain ⟨env, u, hserve, hu, hresponse⟩ := h.given x (List.mem_of_getElem? hx)
    have hrequest : x.1 = request id key :=
      Option.some.inj ((h.ordered.served_getElem? hx).symm.trans hsent)
    refine ⟨env, u, hserve, hu, ?_⟩
    rw [hresponse, hrequest] at haccept
    rw [List.getElem?_eq_getElem hres, hr, answer_of_accept haccept]

/-- What a call has read, it has read for good. -/
theorem Returned.Reads.concat {r : Returned} (h : r.Reads m actions) (a : Action) :
    r.Reads m (actions ++ [a]) := by
  obtain ⟨hlength, times, htimes, hlt, hduring, hreads⟩ := h
  refine ⟨hlength, times, htimes, hlt, hduring, ?_⟩
  intro i k key hk hkey
  obtain ⟨env, u, hserve, hu, hresult⟩ := hreads i k key hk hkey
  have hle : k < actions.length := (List.getElem?_eq_some_iff.mp hserve).1
  refine ⟨env, u, ?_, ?_, hresult⟩
  · rw [List.getElem?_append_left hle, hserve]
  · rw [List.take_append_of_le_length hle.le, hu]

/-- The call under way has filled in its own responses, and those that have returned have read what
they should. -/
structure Right (m : CacheManager) (actions : List Action) (s : System) : Prop where
  /-- The call under way has filled in its own responses. -/
  filled : ∀ c old, s.call = some c → c.Asked s.stream old → c.Filled s.stream old
  /-- The calls that have returned have read their own keys. -/
  reads : ∀ r ∈ s.returned, r.Reads m actions

/-- Every step keeps the results right. -/
theorem Right.step (h : Right m actions s) (hinv : Inv m actions s) (hids : Ids s)
    (hstep : Step s a t) : Right m (actions ++ [a]) t := by
  have hreads : ∀ r ∈ s.returned, r.Reads m (actions ++ [a]) := fun r hr => (h.reads r hr).concat a
  cases hstep with
  | begin keys hcall =>
    -- a new call has no results
    refine ⟨?_, hreads⟩
    rintro c old ⟨⟩ - i r hr
    cases hr
  | send c key hcall hkey =>
    -- the places of the results that there are do not change
    refine ⟨?_, hreads⟩
    rintro c' old ⟨⟩ hasked i r hr
    obtain ⟨-, old', hasked'⟩ := hinv.call c hcall
    cases hasked.unique (hasked'.send _ hkey)
    obtain ⟨x, id, g, hx, hid, haccept, hvalue⟩ := h.filled c old hcall hasked' i r hr
    have hlt := (List.getElem?_eq_some_iff.mp hid).1
    exact ⟨x, id, g, hx, (List.getElem?_append_left hlt).trans hid, haccept, hvalue⟩
  | serve env r rest hrest =>
    -- nor do they when one more response is given
    refine ⟨?_, hreads⟩
    intro c old hc hasked i r' hr
    obtain ⟨-, old', hasked'⟩ := hinv.call c hc
    have hold : old = old' := List.append_cancel_right (hasked.sent.symm.trans hasked'.sent)
    subst hold
    obtain ⟨x, id, g, hx, hid, haccept, hvalue⟩ := h.filled c old hc hasked' i r' hr
    have hlt := (List.getElem?_eq_some_iff.mp hx).1
    exact ⟨x, id, g, (List.getElem?_append_left hlt).trans hx, hid, haccept, hvalue⟩
  | receive c reply rest id g hcall hrest hid hsent haccept =>
    refine ⟨?_, hreads⟩
    rintro c' old ⟨⟩ hasked i r hr
    have hasked' : c.Asked s.stream old := ⟨hasked.bound, hasked.sent, hasked.during⟩
    rcases Nat.lt_or_ge i c.results.length with hlt | hge
    · exact h.filled c old hcall hasked' i r ((List.getElem?_append_left hlt).symm.trans hr)
    · -- the new result is that of the response at the call's next place
      rw [Call.fill, List.getElem?_append_right hge, List.getElem?_singleton] at hr
      split_ifs at hr with hi
      cases hr
      have hi' : i = c.results.length := by omega
      obtain ⟨q, hserved, -⟩ := hinv.place_of_accept hids hasked' hrest hid haccept
      exact ⟨(q, reply), id, g, hi' ▸ hserved, hi' ▸ hid, haccept, rfl⟩
  | finish c hcall hsent hresults =>
    -- the call returns with all of its results
    refine ⟨by simp, ?_⟩
    intro r hr
    rcases List.mem_append.mp hr with hr | hr
    · exact hreads r hr
    · rw [List.mem_singleton.mp hr]
      obtain ⟨-, old, hasked⟩ := hinv.call c hcall
      exact ((h.filled c old hcall hasked).reads hinv hasked hresults).concat _
  | mismatch | fail => exact ⟨by simp, hreads⟩
  | other manager => exact ⟨h.filled, hreads⟩

/-- In every run of fewer than `2^64` steps, a call of `pipelineGet` that returns without an error
has a result for each key, and each is what the server's `get` gave for that key at a time between
the call and its return, in the order of the keys. This also holds after calls that have failed and
left their responses on the stream, and whatever others do to the manager. -/
theorem pipelineGet_reads (hrun : run (start m) actions = some s)
    (hlength : actions.length < 2 ^ 64) : ∀ r ∈ s.returned, r.Reads m actions := by
  have hright : s.time < 2 ^ 64 → Right m actions s := by
    refine run_induction (motive := fun actions s => s.time < 2 ^ 64 → Right m actions s) ?_ ?_ hrun
    · exact fun _ => ⟨by simp [start], by simp [start]⟩
    · intro actions a s t _ hrun hstep ih hlt
      have htime := hstep.time_eq
      have hinv := inv_of_run hrun
      have hlt' : s.time < 2 ^ 64 := by omega
      exact (ih hlt').step hinv (ids_of_run hrun (hinv.time ▸ hlt')) hstep
  exact (hright ((inv_of_run hrun).time ▸ hlength)).reads

/-- A cache with a value under every key, or under none. -/
def uniformCache (value : Option Bytes) : CacheManager where
  maxItemSize := 1024
  cache := some fun _ => value.map fun value => { value, creationTime := 0, expiryTime := 0 }

/-- Others fill the cache after the request was sent. -/
def filledMeanwhile : List Action :=
  [.begin [[107]], .send, .other (uniformCache (some [49])), .serve { now := 5 }, .receive, .finish]

/-- The call reads what was written while it was under way. -/
theorem pipelineGet_reads_filledMeanwhile :
    ∃ s, run (start (uniformCache none)) filledMeanwhile = some s ∧
      s.returned = [⟨{ since := 0, keys := [[107]], seq := [1], results := [([49], true)] }, 5⟩] ∧
      ∀ r ∈ s.returned, r.Reads (uniformCache none) filledMeanwhile := by
  have hend : (run (start (uniformCache none)) filledMeanwhile).map System.returned =
      some [⟨{ since := 0, keys := [[107]], seq := [1], results := [([49], true)] }, 5⟩] := by
    decide +kernel
  obtain ⟨s, hrun, hreturned⟩ := Option.map_eq_some_iff.mp hend
  exact ⟨s, hrun, hreturned, pipelineGet_reads hrun (by decide)⟩

/-! ## Streams that are not broken -/

/-- All that was sent was received, but for what the call under way still waits for. -/
structure Smooth (s : System) : Prop where
  /-- No call has failed. -/
  failures : s.failures = 0
  /-- Between calls, everything was received. -/
  idle : s.call = none → s.stream.received.length = s.stream.sent.length
  /-- During a call, what was not received is what it waits for. -/
  level : ∀ c, s.call = some c →
    s.stream.received.length + c.seq.length = s.stream.sent.length + c.results.length
  /-- It has no empty key. -/
  keys : ∀ c, s.call = some c → [] ∉ c.keys

/-- What was sent is what came before the call, and its own requests. -/
theorem Call.Asked.sent_length {stream : Channel PipelineRequest Reply} {c : Call}
    {old : List PipelineRequest} (h : c.Asked stream old) :
    stream.sent.length = old.length + c.seq.length := by
  rw [h.sent, List.length_append, List.length_zipWith, Nat.min_eq_left h.bound]

/-- On such a stream, the response that comes next is accepted. -/
theorem Smooth.accepts (h : Smooth s) (hinv : Inv m actions s) {c : Call} (hcall : s.call = some c)
    {reply : Reply} {rest : List Reply} (hrest : s.stream.toClient = reply :: rest) {id : UInt64}
    (hid : c.seq[c.results.length]? = some id) : ∃ g, accept id reply.response = some g := by
  obtain ⟨-, old, hasked⟩ := hinv.call c hcall
  obtain ⟨r, hserved⟩ := hinv.ordered.next hrest
  obtain ⟨key, hkey, hsent⟩ := hasked.getElem? hid
  have hplace : s.stream.received.length = old.length + c.results.length := by
    have hlevel := h.level c hcall
    have hlength := hasked.sent_length
    omega
  have hrequest : r = request id key := by
    have hr := hinv.ordered.served_getElem? hserved
    rw [hplace, hsent] at hr
    exact (Option.some.inj hr).symm
  obtain ⟨env, u, -, -, hresponse⟩ := hinv.given _ (List.mem_of_getElem? hserved)
  have hne : key ≠ [] := fun hnil => h.keys c hcall (hnil ▸ List.mem_of_getElem? hkey)
  dsimp only at hresponse
  rw [hresponse, hrequest]
  exact accept_pipelineTurn env u.manager id hne

/-- Every step but a failure of the stream keeps it without responses left behind. -/
theorem Smooth.step (h : Smooth s) (hinv : Inv m actions s) (hfail : a ≠ .fail)
    (hkeys : ∀ keys, a = .begin keys → [] ∉ keys) (hstep : Step s a t) : Smooth t := by
  cases hstep with
  | begin keys hcall =>
    refine ⟨h.failures, by simp, ?_, ?_⟩
    · rintro c ⟨⟩
      exact h.idle hcall
    · rintro c ⟨⟩
      exact hkeys keys rfl
  | send c key hcall hkey =>
    refine ⟨h.failures, by simp, ?_, ?_⟩
    · rintro c' ⟨⟩
      have hlevel := h.level c hcall
      simp only [Channel.send, List.length_append, List.length_singleton]
      omega
    · rintro c' ⟨⟩
      exact h.keys c hcall
  | receive c reply rest id g hcall hrest hid hsent haccept =>
    refine ⟨h.failures, by simp, ?_, ?_⟩
    · rintro c' ⟨⟩
      have hlevel := h.level c hcall
      simp only [Channel.receive, Call.fill, List.length_append, List.length_singleton]
      omega
    · rintro c' ⟨⟩
      exact h.keys c hcall
  | mismatch c reply rest id hcall hrest hid hsent haccept =>
    -- the response that comes first is the one that the call waits for
    obtain ⟨g, hg⟩ := h.accepts hinv hcall hrest hid
    rw [hg] at haccept
    cases haccept
  | finish c hcall hsent hresults =>
    -- with as many results as requests, nothing is left on the stream
    refine ⟨h.failures, fun _ => ?_, by simp, by simp⟩
    have hlevel := h.level c hcall
    have hall : c.seq.length = c.keys.length := hsent
    dsimp only
    omega
  | fail => exact absurd rfl hfail
  | serve | other => exact ⟨h.failures, h.idle, h.level, h.keys⟩

/-- The steps of the two sides, with the server in an environment. -/
inductive Action.Own (env : Env) : Action → Prop
  | send : Own env .send
  | serve : Own env (.serve env)
  | receive : Own env .receive
  | finish : Own env .finish

/-- What is left to be done for the call: each request is sent, answered, and received. -/
def work (stream : Channel PipelineRequest Reply) (c : Call) : ℕ :=
  3 * (c.keys.length - c.seq.length) + 2 * stream.toServer.length + stream.toClient.length

/-- A call under way is never stuck: one of the two sides can take a step, and then the call has
returned or there is less to do. -/
theorem Smooth.progress (h : Smooth s) (hinv : Inv m actions s) (env : Env) {c : Call}
    (hcall : s.call = some c) :
    ∃ a t, Action.Own env a ∧ Step s a t ∧
      ((t.call = none ∧ t.returned = s.returned ++ [⟨c, s.time⟩]) ∨
        ∃ c', t.call = some c' ∧ c'.keys = c.keys ∧ c'.since = c.since ∧
          t.returned = s.returned ∧ work t.stream c' < work s.stream c) := by
  obtain ⟨-, old, hasked⟩ := hinv.call c hcall
  rcases Nat.lt_or_ge c.seq.length c.keys.length with hlt | hge
  · -- the client has requests to send
    refine ⟨_, _, .send, .send c _ hcall (List.getElem?_eq_getElem hlt),
      .inr ⟨_, rfl, rfl, rfl, rfl, ?_⟩⟩
    simp only [work, Channel.send, List.length_append, List.length_singleton]
    omega
  have hsent : c.Sent := le_antisymm hasked.bound hge
  by_cases hresults : c.results.length = c.keys.length
  · exact ⟨_, _, .finish, .finish c hcall hsent hresults, .inl ⟨rfl, rfl⟩⟩
  cases hclient : s.stream.toClient with
  | cons reply rest =>
    -- a response has arrived, and it is the one that the call waits for
    have hlevel := h.level c hcall
    have hreceived : s.stream.received.length < s.stream.sent.length := by
      have hle := hinv.ordered.served_le
      have hlength := congrArg List.length hinv.ordered.responses
      rw [hclient, List.length_map, List.length_append, List.length_cons] at hlength
      omega
    have hplace : c.results.length < c.seq.length := by omega
    have hid := List.getElem?_eq_getElem hplace
    obtain ⟨g, hg⟩ := h.accepts hinv hcall hclient hid
    refine ⟨_, _, .receive, .receive c reply rest _ g hcall hclient hid hsent hg,
      .inr ⟨_, rfl, rfl, rfl, rfl, ?_⟩⟩
    simp only [work, Call.fill, Channel.receive, hclient, List.length_cons]
    omega
  | nil =>
    cases hserver : s.stream.toServer with
    | cons r rest =>
      -- a request has arrived, and the server answers it
      refine ⟨_, _, .serve, .serve env r rest hserver, .inr ⟨c, hcall, rfl, rfl, rfl, ?_⟩⟩
      simp only [work, Channel.serve, hserver, hclient, List.length_cons, List.length_append,
        List.length_nil]
      omega
    | nil =>
      -- with nothing in transit, all responses were received
      have hrequests := congrArg List.length hinv.ordered.requests
      have hresponses := congrArg List.length hinv.ordered.responses
      rw [hserver, List.append_nil, List.length_map] at hrequests
      rw [hclient, List.append_nil, List.length_map] at hresponses
      have hlevel := h.level c hcall
      have hall : c.seq.length = c.keys.length := hsent
      omega

/-- A step, and a run from there, are a run. -/
theorem run_cons {u : System} {actions : List Action} (hstep : Step s a t)
    (hrun : run t actions = some u) : run s (a :: actions) = some u :=
  Runs.foldlM_cons_eq_some.mpr ⟨t, hstep.eq, hrun⟩

/-- There are responses to come that are not the call's. -/
structure Lost (s : System) : Prop where
  /-- Between calls, there are responses to come. -/
  idle : s.call = none → s.stream.received.length < s.stream.sent.length
  /-- During a call, there are responses to come that are not its own, and it has got none. -/
  call : ∀ c, s.call = some c →
    c.results = [] ∧ s.stream.received.length + c.seq.length < s.stream.sent.length

/-- Every step leaves responses behind, and no call with a key returns. -/
theorem Lost.step (h : Lost s) (hinv : Inv m actions s) (hids : Ids s) (hstep : Step s a t) :
    Lost t ∧ ∃ later, t.returned = s.returned ++ later ∧ ∀ r ∈ later, r.keys = [] := by
  have hsame : ∃ later, s.returned = s.returned ++ later ∧ ∀ r ∈ later, r.keys = [] :=
    ⟨[], by simp, by simp⟩
  cases hstep with
  | begin keys hcall =>
    -- the call has sent nothing, so all that is to come is older
    refine ⟨⟨by simp, ?_⟩, hsame⟩
    rintro c ⟨⟩
    exact ⟨rfl, h.idle hcall⟩
  | send c key hcall hkey =>
    refine ⟨⟨by simp, ?_⟩, hsame⟩
    rintro c' ⟨⟩
    obtain ⟨hresults, hlt⟩ := h.call c hcall
    refine ⟨hresults, ?_⟩
    simp only [Channel.send, List.length_append, List.length_singleton]
    omega
  | receive c reply rest id g hcall hrest hid hsent haccept =>
    -- what comes first is not the call's, so it is not accepted
    obtain ⟨hresults, hlt⟩ := h.call c hcall
    obtain ⟨-, old, hasked⟩ := hinv.call c hcall
    obtain ⟨r, -, hplace⟩ := hinv.place_of_accept hids hasked hrest hid haccept
    have hlength := hasked.sent_length
    rw [hresults, List.length_nil] at hplace
    omega
  | mismatch c reply rest id hcall hrest hid hsent haccept =>
    -- one response less is to come, but the call has sent at least one request
    refine ⟨⟨fun _ => ?_, by simp⟩, hsame⟩
    obtain ⟨hresults, hlt⟩ := h.call c hcall
    have hpos := (List.getElem?_eq_some_iff.mp hid).1
    simp only [Channel.receive, List.length_append, List.length_singleton]
    omega
  | finish c hcall hsent hresults =>
    -- a call without results can only return when it has no keys
    obtain ⟨hnil, hlt⟩ := h.call c hcall
    refine ⟨⟨fun _ => by dsimp only; omega, by simp⟩, [⟨c, s.time⟩], rfl, ?_⟩
    intro r hr
    rw [List.mem_singleton.mp hr]
    rw [hnil, List.length_nil] at hresults
    exact List.eq_nil_of_length_eq_zero hresults.symm
  | fail c hcall hresults =>
    obtain ⟨hnil, hlt⟩ := h.call c hcall
    exact ⟨⟨fun _ => by dsimp only; omega, by simp⟩, hsame⟩
  | serve | other => exact ⟨⟨h.idle, h.call⟩, hsame⟩

/-- Once a call has ended with a response left on the stream, no call with a key returns without an
error any more: each receives a response of an earlier one, and leaves its own. -/
theorem pipelineGet_stays_lost {later : List Action}
    (hrun : run (start m) actions = some s) (hidle : s.call = none)
    (hlost : s.stream.received.length < s.stream.sent.length) (hlater : run s later = some t)
    (hlength : (actions ++ later).length < 2 ^ 64) :
    ∃ rs, t.returned = s.returned ++ rs ∧ ∀ r ∈ rs, r.keys = [] := by
  have hend : (actions ++ later).length < 2 ^ 64 → Lost t ∧
      ∃ rs, t.returned = s.returned ++ rs ∧ ∀ r ∈ rs, r.keys = [] := by
    refine run_induction (motive := fun later t => (actions ++ later).length < 2 ^ 64 → Lost t ∧
      ∃ rs, t.returned = s.returned ++ rs ∧ ∀ r ∈ rs, r.keys = []) ?_ ?_ hlater
    · refine fun _ => ⟨⟨fun _ => hlost, fun c hc => ?_⟩, [], by simp, by simp⟩
      rw [hidle] at hc
      cases hc
    · intro later a t u _ hrun' hstep ih hlt
      have hlt' : (actions ++ later).length < 2 ^ 64 := by
        simp only [List.length_append, List.length_singleton] at hlt ⊢
        omega
      have hfull : run (start m) (actions ++ later) = some t := by
        rw [run, List.foldlM_append]
        exact Option.bind_eq_some_iff.mpr ⟨s, hrun, hrun'⟩
      obtain ⟨hl, rs, hrs, hnil⟩ := ih hlt'
      obtain ⟨hl', rs', hrs', hnil'⟩ := hl.step (inv_of_run hfull) (ids_of_run hfull hlt') hstep
      refine ⟨hl', rs ++ rs', by rw [hrs', hrs, List.append_assoc], ?_⟩
      intro r hr
      exact (List.mem_append.mp hr).elim (hnil r) (hnil' r)
  exact (hend hlength).2

/-- A call fails at an empty key and leaves the response to its second key. -/
def emptyFirst : List Action :=
  [.begin [[], [107]], .send, .send, .serve { now := 5 }, .serve { now := 5 }, .receive]

/-- The next call for the second key fails, though the response to it was on the stream. -/
theorem pipelineGet_stays_lost_emptyFirst :
    ∃ s t, run (start (uniformCache none)) emptyFirst = some s ∧
      run s [.begin [[107]], .send, .serve { now := 6 }, .receive] = some t ∧
      ∃ rs, t.returned = s.returned ++ rs ∧ ∀ r ∈ rs, r.keys = [] := by
  have hend : ((run (start (uniformCache none)) emptyFirst).bind fun s =>
      (run s [.begin [[107]], .send, .serve { now := 6 }, .receive]).map fun _ =>
        (s.call, s.stream.received.length, s.stream.sent.length)) = some (none, 1, 2) := by
    decide +kernel
  obtain ⟨s, hrun, hnext⟩ := Option.bind_eq_some_iff.mp hend
  obtain ⟨t, hlater, hs⟩ := Option.map_eq_some_iff.mp hnext
  obtain ⟨hidle, hreceived, hsent⟩ : s.call = none ∧ s.stream.received.length = 1 ∧
      s.stream.sent.length = 2 := by simpa using hs
  exact ⟨s, t, hrun, hlater, pipelineGet_stays_lost hrun hidle (by omega) hlater (by decide)⟩

end

end CacheServer.Bench.PipelineClient
