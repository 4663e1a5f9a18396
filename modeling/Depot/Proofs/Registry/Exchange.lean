import Depot.Registry.Session

/-! Exchanges on the wire. An exchange is a request with what came of it; `Wire.Exchanged` relates the wire
    before and after some exchanges. On a wire without redirects each request that is sent is one exchange, and
    `Says` states what a computation exchanges there, whatever else the replies are. Two computations in sequence
    exchange what the first does and then what the second does (`Says.bind`), so each part of a session gets a
    statement of its own. -/

namespace Depot

/-- What the sender of a request gets: the response, if there is one. -/
def Reply.result : Reply → Except Error Response
  | .answer response => .ok response
  | _ => .error .http

theorem Reply.eq_answer {reply : Reply} {response : Response} (h : .ok response = reply.result) : reply = .answer response := by
  cases reply <;> cases h
  rfl

/-- The reply names another place for what was asked for. -/
def Reply.isRedirect : Reply → Bool
  | .answer response => response.isRedirect
  | _ => false

/-- A request and what came of it. -/
structure Exchange where
  request : Request
  reply : Reply

namespace Exchange

/-- The request was answered with a status that `P` holds of. -/
def Answered (e : Exchange) (P : Nat → Prop) : Prop := ∃ response, e.reply = .answer response ∧ P response.status

theorem answered_iff {request : Request} {response : Response} {P : Nat → Prop} :
    Answered ⟨request, .answer response⟩ P ↔ P response.status := by
  simp [Answered]

theorem not_answered {e : Exchange} {error : Error} (h : .error error = e.reply.result) (P : Nat → Prop) : ¬e.Answered P := by
  rintro ⟨response, hreply, -⟩
  rw [hreply] at h
  cases h

/-- The request came as far as the other side. -/
def arrived (e : Exchange) : Bool :=
  match e.reply with
  | .unreachable => false
  | _ => true

end Exchange

namespace Wire

/-- After some exchanges on the wire `w`, one after the other, the wire is `w'`. -/
inductive Exchanged : Wire → List Exchange → Wire → Prop
  | nil (w : Wire) : Exchanged w [] w
  | cons {w w' : Wire} {es : List Exchange} (request : Request) (rest : Exchanged (w.exchange request).2 es w') :
      Exchanged w (⟨request, (w.exchange request).1⟩ :: es) w'

variable {w w₁ w₂ : Wire} {es fs : List Exchange}

theorem Exchanged.append (h₁ : Exchanged w es w₁) (h₂ : Exchanged w₁ fs w₂) : Exchanged w (es ++ fs) w₂ := by
  induction h₁ with
  | nil => exact h₂
  | cons request _ ih => exact .cons request (ih h₂)

theorem exchange_fst (w : Wire) (request : Request) : (w.exchange request).1 = w.take.1 := by
  unfold exchange
  split <;> next h => rw [h]

theorem sent_exchange (w : Wire) (request : Request) :
    (w.exchange request).2.sent =
      w.sent ++ (if (Exchange.mk request (w.exchange request).1).arrived then [request] else []) := by
  have hsent : w.take.2.sent = w.sent := by
    unfold take
    split <;> rfl
  rw [exchange_fst]
  unfold exchange
  split <;> next htake => rw [htake] at hsent ⊢; simp [Exchange.arrived, ← hsent]

/-- What was sent in some exchanges are the requests that arrived. -/
theorem Exchanged.sent (h : Exchanged w es w₁) :
    w₁.sent = w.sent ++ (es.filter Exchange.arrived).map Exchange.request := by
  induction h with
  | nil => simp
  | @cons w w' es request rest ih =>
    rw [ih, sent_exchange, List.filter_cons]
    split <;> simp

/-! ### Without redirects -/

/-- No reply that is to come is a redirect. -/
def Direct (w : Wire) : Prop := ∀ reply ∈ w.thereafter :: w.replies, reply.isRedirect = false

theorem Direct.take (h : w.Direct) : w.take.1.isRedirect = false ∧ w.take.2.Direct := by
  unfold Wire.take
  split
  · exact ⟨h _ List.mem_cons_self, h⟩
  · next hreplies =>
    rw [Direct, hreplies, List.forall_mem_cons, List.forall_mem_cons] at h
    exact ⟨h.2.1, List.forall_mem_cons.mpr ⟨h.1, h.2.2⟩⟩

theorem Direct.exchange (h : w.Direct) (request : Request) : (w.exchange request).2.Direct := by
  have htake := h.take.2
  unfold Wire.exchange
  split <;> next hw => rw [hw] at htake; exact htake

theorem Direct.exchanged (h : w.Direct) (hes : Exchanged w es w₁) : w₁.Direct := by
  induction hes with
  | nil => exact h
  | cons request _ ih => exact ih (h.exchange request)

/-- Nothing is followed where there are no redirects: the response is the reply to the request itself. -/
theorem Direct.send (h : w.Direct) (request : Request) :
    Wire.send request w = ((w.exchange request).1.result, (w.exchange request).2) := by
  have hreply : (w.exchange request).1.isRedirect = false := exchange_fst w request ▸ h.take.1
  unfold Wire.send sendWithin
  rcases hw : w.exchange request with ⟨response | _ | _, w'⟩
  · rw [hw] at hreply
    dsimp only
    rw [w'.follower.next_eq_none request response hreply]
    rfl
  · rfl
  · rfl

end Wire

/-! ### What a computation exchanges -/

/-- Whatever the replies, as long as they are no redirects, `x` exchanges something that `P` holds of together with
    its result. -/
def Says {α : Type} (x : Act Host α) (P : List Exchange → Except Error α → Prop) : Prop :=
  ∀ h, h.wire.Direct → ∃ es, h.wire.Exchanged es (x h).2.wire ∧ P es (x h).1

namespace Says
variable {α β : Type} {x : Act Host α} {f : α → Act Host β}
variable {P : List Exchange → Except Error α → Prop} {Q : List Exchange → Except Error β → Prop}

theorem mono {P' : List Exchange → Except Error α → Prop} (h : Says x P) (hP : ∀ es r, P es r → P' es r) : Says x P' :=
  fun host hdirect => by
    obtain ⟨es, hes, hp⟩ := h host hdirect
    exact ⟨es, hes, hP _ _ hp⟩

/-- A computation that leaves the wire alone. -/
theorem of_wire (h : ∀ host, (x host).2.wire = host.wire ∧ P [] (x host).1) : Says x P :=
  fun host _ => ⟨[], (h host).1 ▸ .nil _, (h host).2⟩

theorem pure (a : α) (h : P [] (.ok a)) : Says (pure a) P := of_wire fun _ => ⟨rfl, h⟩

theorem fail (e : Error) (h : P [] (.error e)) : Says (Act.fail e) P := of_wire fun _ => ⟨rfl, h⟩

theorem bind (hx : Says x P) (herror : ∀ es e, P es (.error e) → Q es (.error e))
    (hok : ∀ es a, P es (.ok a) → Says (f a) fun fs r => Q (es ++ fs) r) : Says (x >>= f) Q := fun host hdirect => by
  obtain ⟨es, hes, hp⟩ := hx host hdirect
  replace hdirect := hdirect.exchanged hes
  rw [Act.bind_apply]
  rcases hxs : x host with ⟨r, host'⟩
  rw [hxs] at hes hp hdirect
  cases r with
  | error e => exact ⟨es, hes, herror es e hp⟩
  | ok a =>
    obtain ⟨fs, hfs, hq⟩ := hok es a hp host' hdirect
    exact ⟨es ++ fs, hes.append hfs, hq⟩

theorem send (request : Request) {P : List Exchange → Except Error Response → Prop}
    (h : ∀ reply, P [⟨request, reply⟩] reply.result) : Says (Host.send request) P := fun host hdirect => by
  have hsend : Host.send request host =
      ((host.wire.exchange request).1.result, { host with wire := (host.wire.exchange request).2 }) := by
    unfold Host.send Act.within
    rw [hdirect.send]
  rw [hsend]
  exact ⟨[⟨request, (host.wire.exchange request).1⟩], .cons request (.nil _), h _⟩

end Says
end Depot
