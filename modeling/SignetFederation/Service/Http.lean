import SignetFederation.Service.Node
import SignetFederation.Signing.Status

/-!
# Requests to a relay service

The service answers requests on a few paths: its health, a message to relay, the status of a
session, and the end of all sessions. A request is told apart by its path first and its method
second; a path that there is not is answered by 404 and a wrong method by 405. `HEAD` is answered as
`GET` without a body, and `OPTIONS` everywhere by 200. A body has to be JSON, and its length is
limited. The members of an answer are in the order of their names.

`crates/psbt-relay-svc/src/main.rs`:

| here | there |
| --- | --- |
| `Route.ofPath?` | `router` (`main.rs:172-182`) |
| `health` | `health` (`main.rs:298-304`) |
| `messageReader` | `PostPsbtRequest` (`main.rs:82-84`) |
| `postMessage` | `post_psbt` (`main.rs:307-354`) |
| `forwarded` | the count in its answer (`main.rs:340-343`) |
| `getSession` | `get_session` (`main.rs:357-381`) |
| `postRequest` | `RelayClient::submit` (`psbt-relay-client/src/lib.rs:63-90`) |
| `socketAddress` | `RelayClient::ws_url` (`psbt-relay-client/src/lib.rs:45-47`) |
-/

namespace SignetFederation.Service

/-- A request; a body comes as JSON. -/
structure Request where
  method : String
  target : String
  body : Option String
  deriving DecidableEq

/-- Why a request is answered by an error text. -/
inductive HttpFault where
  | badBase64
  | badMessage (why : RelayFault)
  | noSessions
  | session (why : Error)
  deriving DecidableEq

/-- The wording of a request's fault. -/
def HttpFault.message : HttpFault → String
  | badBase64 => "Invalid base64: not a padded text of the standard alphabet"
  | badMessage why => why.message
  | noSessions => "node tracks no sessions"
  | session why => why.message

/-- A body of an answer. -/
inductive Body where
  | value (v : Json.Value)
  | fault (why : HttpFault)

/-- The JSON value of an error text. -/
def faultValue (text : String) : Json.Value := .obj [("error", .str text)]

/-- The JSON value of a body. -/
def Body.json : Body → Json.Value
  | value v => v.sorted
  | fault why => faultValue why.message

/-- An answer; there is no body where only the status counts. -/
structure Response where
  status : Nat
  body : Option Body

/-- An answer without a body. -/
def Response.bare (status : Nat) : Response := ⟨status, none⟩

/-- An answer with an error text. -/
def Response.fault (status : Nat) (why : HttpFault) : Response := ⟨status, some (.fault why)⟩

/-- The longest body, in bytes. -/
def bodyLimit : Nat := 2097152

/-- The paths of the service. -/
inductive Route where
  | health
  | socket
  | message
  | session (nonce : List Char)
  | sessions
  deriving DecidableEq

namespace Route

/-- The path of a target, which ends before a query. -/
def path (target : String) : List Char := target.toList.takeWhile fun c => c ≠ '?' && c ≠ '#'

/-- The route of a path. -/
def ofPath? (path : List Char) : Option Route :=
  if path = "/health".toList then some health
  else if path = "/v1/ws".toList then some socket
  else if path = "/v1/psbt".toList then some message
  else if path = "/v1/sessions".toList then some sessions
  else
    match Text.afterStart? "/v1/session/".toList path with
    | some nonce => if nonce = [] ∨ '/' ∈ nonce then none else some (session nonce)
    | none => none

end Route

/-- The characters of a part of a path, with `%` and two hexadecimal digits for a byte. -/
def unescape : List Char → List Char
  | '%' :: a :: b :: rest =>
    match Hex.value? a, Hex.value? b with
    | some x, some y => Char.ofNat (16 * x + y) :: unescape rest
    | _, _ => '%' :: unescape (a :: b :: rest)
  | c :: rest => c :: unescape rest
  | [] => []

/-- What the service says about its health. -/
def health : Json.Value :=
  .obj [("service", .str "psbt-relay-svc"), ("status", .str "ok"), ("version", .str "0.1.0")]

/-- Reads a request's message in Base64. -/
def messageReader : Json.Reader String :=
  Json.record [Json.member "message" id fun v _ => some v] none id false

/-- The message of a request's body, or the answer to a body that has none. -/
def readMessage (body : Option String) : Except Response SignetPsbtMessage := do
  let some body := body | throw (.bare 415)
  if body.utf8ByteSize > bodyLimit then throw (.bare 413)
  match messageReader body.toList with
  | .error .grammar => throw (.bare 400)
  | .error .shape => throw (.bare 422)
  | .ok (text, _) =>
    let some bytes := Base64.decode? text | throw (.fault 400 .badBase64)
    match SignetPsbtMessage.decode bytes with
    | .ok m => return m
    | .error why => throw (.fault 400 (.badMessage why))

/-- The number of peers that a decision forwards to. -/
def forwarded : Decision → Nat
  | .accept peers _ => peers.length
  | .drop _ => 0

/-- Takes the message of a request as if this node had sent it. -/
def postMessage (s : Service) (body : Option String) (now : Instant) :
    Except ClockOverflow (Service × Response) :=
  match readMessage body with
  | .error r => .ok (s, r)
  | .ok m => do
    let (s, decision) ← s.receive none (s.node.engine.encodeFrame m) now
    return (s, ⟨200, some (.value (.obj [("nonce", JsonForm.toJson m.nonce),
      ("accepted", .bool decision.isAccepted), ("forwarded", .nat (forwarded decision))]))⟩)

/-- The status of the session of a nonce. -/
def getSession (s : Service) (nonce : List Char) : Response :=
  match Decimal.read? Decimal.bound64 (unescape nonce) with
  | none => .bare 400
  | some n =>
    match s.sessions with
    | none => .fault 404 .noSessions
    | some sessions =>
      let nonce := UInt64.ofNat n
      match sessions.get? nonce with
      | some r => ⟨200, some (.value (JsonForm.toJson (SessionStatus.ofRound nonce r)))⟩
      | none => .fault 404 (.session (.sessionNotFound nonce))

/-- Answers a request on a route. -/
def respondOn (s : Service) (route : Route) (method : String) (body : Option String)
    (now : Instant) : Except ClockOverflow (Service × Response) :=
  match route, method with
  | .health, "GET" => .ok (s, ⟨200, some (.value health)⟩)
  | .health, "HEAD" => .ok (s, .bare 200)
  | .socket, "GET" => .ok (s, .bare 400)
  | .message, "POST" => s.postMessage body now
  | .session nonce, "GET" => .ok (s, s.getSession nonce)
  | .session nonce, "HEAD" => .ok (s, .bare (s.getSession nonce).status)
  | .sessions, "DELETE" => .ok (s.surrender, .bare 204)
  | _, _ => .ok (s, .bare 405)

/-- Answers a request. -/
def respond (s : Service) (r : Request) (now : Instant) :
    Except ClockOverflow (Service × Response) :=
  if r.method = "OPTIONS" then .ok (s, .bare 200)
  else
    match Route.ofPath? (Route.path r.target) with
    | some route => s.respondOn route r.method r.body now
    | none => .ok (s, .bare 404)

/-- The request that posts a message. -/
def postRequest (m : SignetPsbtMessage) : Request :=
  ⟨"POST", "/v1/psbt",
    some (Json.Value.obj [("message", .str (Base64.encode m.encode))]).compact⟩

/-- The address of a service's socket by the address of the service: slashes at its end do not
count, and the first `http` becomes `ws`. -/
def socketAddress (url : String) : String :=
  let trimmed := (url.toList.reverse.dropWhile (· = '/')).reverse
  let rec replace : List Char → List Char
    | 'h' :: 't' :: 't' :: 'p' :: rest => 'w' :: 's' :: rest
    | c :: rest => c :: replace rest
    | [] => []
  String.ofList (replace trimmed) ++ "/v1/ws"

end SignetFederation.Service
