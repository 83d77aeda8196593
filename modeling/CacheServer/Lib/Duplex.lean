import Mathlib.Data.List.Basic

/-!
# A stream of requests and a stream of responses

A client sends requests on one stream and receives responses on another. A server takes the requests
one at a time and answers each before it takes the next. Both streams deliver in order, and neither
loses anything, so the responses that are received are those to the first requests that were sent,
in their order.

`Channel` is the history of the two streams with what is in transit, and `Channel.Ordered` relates
them.
-/

namespace CacheServer.Duplex

variable {α β : Type}

/-- The two streams: what was sent, what of it is in transit, what was served with its response,
what of the responses is in transit, and what was received. -/
structure Channel (α β : Type) where
  /-- What was sent. -/
  sent : List α := []
  /-- What of it is in transit. -/
  toServer : List α := []
  /-- What was served, with its response. -/
  served : List (α × β) := []
  /-- What of the responses is in transit. -/
  toClient : List β := []
  /-- What was received. -/
  received : List β := []

/-- The client sends a request. -/
def Channel.send (c : Channel α β) (a : α) : Channel α β :=
  { c with sent := c.sent ++ [a], toServer := c.toServer ++ [a] }

/-- The server answers the first request, and leaves the others. -/
def Channel.serve (c : Channel α β) (a : α) (rest : List α) (b : β) : Channel α β :=
  { c with toServer := rest, served := c.served ++ [(a, b)], toClient := c.toClient ++ [b] }

/-- The client receives the first response, and leaves the others. -/
def Channel.receive (c : Channel α β) (b : β) (rest : List β) : Channel α β :=
  { c with toClient := rest, received := c.received ++ [b] }

/-- Requests are served in the order in which they were sent, and responses are received in the
order in which they were given. -/
structure Channel.Ordered (c : Channel α β) : Prop where
  /-- Requests are served in the order in which they were sent. -/
  requests : c.sent = c.served.map Prod.fst ++ c.toServer
  /-- Responses are received in the order in which they were given. -/
  responses : c.served.map Prod.snd = c.received ++ c.toClient

/-- Nothing is in order at the beginning. -/
theorem Channel.Ordered.init : ({} : Channel α β).Ordered := ⟨rfl, rfl⟩

/-- A request is sent behind the others. -/
theorem Channel.Ordered.send {c : Channel α β} (h : c.Ordered) (a : α) : (c.send a).Ordered where
  requests := by simp [Channel.send, h.requests]
  responses := h.responses

/-- The request in front is served, and its response comes behind the others. -/
theorem Channel.Ordered.serve {c : Channel α β} (h : c.Ordered) {a : α} {rest : List α}
    (hrest : c.toServer = a :: rest) (b : β) : (c.serve a rest b).Ordered where
  requests := by simp [Channel.serve, h.requests, hrest]
  responses := by simp [Channel.serve, h.responses]

/-- The response in front is received. -/
theorem Channel.Ordered.receive {c : Channel α β} (h : c.Ordered) {b : β} {rest : List β}
    (hrest : c.toClient = b :: rest) : (c.receive b rest).Ordered where
  requests := h.requests
  responses := by simp [Channel.receive, h.responses, hrest]

/-- No more is served than was sent. -/
theorem Channel.Ordered.served_le {c : Channel α β} (h : c.Ordered) :
    c.served.length ≤ c.sent.length := by
  rw [h.requests]
  simp

/-- What was served at a place is what was sent there. -/
theorem Channel.Ordered.served_getElem? {c : Channel α β} (h : c.Ordered) {k : ℕ} {x : α × β}
    (hx : c.served[k]? = some x) : c.sent[k]? = some x.1 := by
  have hlt : k < c.served.length := (List.getElem?_eq_some_iff.mp hx).1
  rw [h.requests, List.getElem?_append_left (by simpa using hlt), List.getElem?_map, hx]
  rfl

/-- The response that is received next is the one to the next request. -/
theorem Channel.Ordered.next {c : Channel α β} (h : c.Ordered) {b : β} {rest : List β}
    (hrest : c.toClient = b :: rest) :
    ∃ a, c.served[c.received.length]? = some (a, b) := by
  have hnext : (c.served.map Prod.snd)[c.received.length]? = some b := by
    rw [h.responses, hrest, List.getElem?_append_right (Nat.le_refl _)]
    simp
  rw [List.getElem?_map] at hnext
  obtain ⟨x, hx, rfl⟩ := Option.map_eq_some_iff.mp hnext
  exact ⟨x.1, hx⟩

end CacheServer.Duplex
