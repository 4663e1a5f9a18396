import Depot.Act
import Depot.Bytes
import Depot.Registry.Status

/-!
The wire to registries: requests go out one at a time, and each is answered before the next. What
the other side says is given as a list of replies, so a run of the client is a function of the wire
it runs on. `sent` keeps the requests that reached the other side, in order.

A redirect is followed before anything is said about the response. How that is done is up to the
wire: where the next request goes and what it carries is not said here.
-/
namespace Depot

inductive Method where
  | get
  | head
  | post
  | put
  deriving DecidableEq

/-- A request. Header names are in lower case. -/
structure Request where
  method : Method
  url : String
  headers : List (String × String)
  body : Bytes
  deriving DecidableEq

/-- A response. Header names are in lower case. -/
structure Response where
  status : Nat
  headers : List (String × String)
  body : Bytes

/-- The response names another place for what was asked for. -/
def Response.isRedirect (response : Response) : Bool :=
  Status.redirects.contains response.status && (response.headers.lookup "location").isSome

/-- How a request ends: with a response, with a connection that is closed without one, or without a
connection. -/
inductive Reply where
  | answer (response : Response)
  | dropped
  | unreachable

/-- What is made of redirects. -/
structure Follower where
  /-- How many redirects in a row are followed. -/
  limit : Nat
  /-- The request in place of the one that was redirected, if there is to be one. -/
  next : Request → Response → Option Request
  /-- Nothing but a redirect is followed. -/
  next_eq_none : ∀ request response, response.isRedirect = false → next request response = none

/-- Takes every response as it is. -/
def Follower.idle : Follower := ⟨0, fun _ _ => none, fun _ _ _ => rfl⟩

/-- The wire: the replies to come, the reply to every request after those, what was sent, and what
is made of redirects. -/
structure Wire where
  replies : List Reply
  thereafter : Reply
  sent : List Request
  follower : Follower

namespace Wire

/-- A wire that leads nowhere. -/
def cut : Wire := ⟨[], .unreachable, [], .idle⟩

def take (w : Wire) : Reply × Wire :=
  match w.replies with
  | [] => (w.thereafter, w)
  | reply :: replies => (reply, { w with replies })

/-- One request, and what comes of it. -/
def exchange (request : Request) (w : Wire) : Reply × Wire :=
  match w.take with
  | (.unreachable, w) => (.unreachable, w)
  | (reply, w) => (reply, { w with sent := w.sent ++ [request] })

/-- Sends a request and waits for the response, with some redirects still to be followed. -/
def sendWithin (hops : Nat) (request : Request) : Act Wire Response := fun w =>
  match w.exchange request with
  | (.answer response, w) =>
    match w.follower.next request response, hops with
    | none, _ => (.ok response, w)
    | some _, 0 => (.error .http, w)
    | some request, hops + 1 => sendWithin hops request w
  | (_, w) => (.error .http, w)

/-- Sends a request and waits for the response. -/
def send (request : Request) : Act Wire Response := fun w =>
  sendWithin w.follower.limit request w

end Wire
end Depot
