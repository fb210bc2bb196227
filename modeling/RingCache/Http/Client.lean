import RingCache.Error
import RingCache.Http.NodeService
import RingCache.Http.Status

/-!
The client of a node over HTTP. A request that gets no response is sent again after a pause, up to
a number of attempts; a response of any status ends the attempts. The transport is a function of
the request and of the state of the other side.
-/

namespace RingCache.Http

inductive Delivery where
  /-- A response, and whether its whole body arrived. -/
  | answered (response : Response) (complete : Bool)
  | timedOut
  | lost
  deriving DecidableEq, Repr

abbrev Transport (σ : Type) := Request → σ → Delivery × σ

def Transport.unreachable {σ : Type} : Transport σ := fun _ state => (.lost, state)

def Transport.toNode (id : NodeId) : Transport (Table Bytes) := fun request table =>
  let (response, table) := NodeService.handle id request table
  (.answered response true, table)

structure Client where
  base : Net.Url
  endpoint : String
  timeout : Time.Span
  attempts : Nat
  deriving DecidableEq, Repr

/-- How one call ended: its result, the pauses in milliseconds between attempts, the number of
requests sent, and the state of the other side. -/
structure Exchange (σ α : Type) where
  result : α
  pauses : List Nat
  requests : Nat
  state : σ

namespace Client

def withScheme (endpoint : String) : String :=
  if Net.Url.hasScheme endpoint.toList then endpoint else "http://" ++ endpoint

def new (endpoint : String) (timeout : Time.Span) (attempts : Nat) : Except CacheError Client :=
  match Net.Url.read (withScheme endpoint) with
  | .error fault => .error (.config (.endpoint endpoint fault))
  | .ok base =>
      if base.canBeBase then .ok ⟨base, endpoint, timeout, max attempts 1⟩
      else .error (.config (.endpointNotBase endpoint))

def url (client : Client) (path : String) (key : Option String) : Net.Url :=
  let segments := (Net.Url.splitOnChar '/' path.toList).map String.ofList
  client.base.extend (segments.filter (· ≠ "") ++ key.toList)

def entryUrl (client : Client) (key : Option String) : Net.Url :=
  client.url NodeService.entryPath key

def target (url : Net.Url) : String :=
  Net.Url.pathText url.path ++ (match url.query with
    | none => ""
    | some query => "?" ++ query)

def isSendable (url : Net.Url) : Bool := url.scheme = "http" || url.scheme = "https"

def failure (url : Net.Url) : String :=
  if isSendable url then s!"error sending request for url ({url.text})"
  else s!"builder error for url ({url.text})"

def connection (client : Client) (message : String) : CacheError :=
  .connection client.endpoint message

def transportError (client : Client) (url : Net.Url) (timedOut : Bool) : CacheError :=
  if timedOut then .timeout client.timeout else client.connection (failure url)

def deliver {σ : Type} (transport : Transport σ) (url : Net.Url) (request : Request) (state : σ) :
    Delivery × σ :=
  if isSendable url then transport request state else (.lost, state)

def firstPause : Nat := 150

def longestPause : Nat := 1200

def jitterRange : Nat := 50

/-- Attempts that remain, each after a pause that doubles up to a limit. `jitter` gives the random
part of each pause. -/
def attemptsFrom {σ : Type} (client : Client) (transport : Transport σ) (jitter : Nat → Nat)
    (url : Net.Url) (request : Request) : (left : Nat) → (pause : Nat) → (sent : Nat) → σ →
    Exchange σ (Except CacheError (Response × Bool))
  | 0, _, sent, state =>
      ⟨.error (client.connection "retry attempts exhausted"), [], sent, state⟩
  | left + 1, pause, sent, state =>
      match deliver transport url request state with
      | (.answered response complete, state) => ⟨.ok (response, complete), [], sent + 1, state⟩
      | (failed, state) =>
          if left = 0 then
            ⟨.error (client.transportError url (failed = .timedOut)), [], sent + 1, state⟩
          else
            let rest := attemptsFrom client transport jitter url request left
              (min (pause * 2) longestPause) (sent + 1) state
            { rest with pauses := (pause + jitter sent % jitterRange) :: rest.pauses }

def send {σ : Type} (client : Client) (transport : Transport σ) (jitter : Nat → Nat)
    (url : Net.Url) (request : Request) (state : σ) :
    Exchange σ (Except CacheError (Response × Bool)) :=
  attemptsFrom client transport jitter url request client.attempts firstPause 0 state

def statusError (client : Client) (status : Nat) : CacheError :=
  .backend s!"{client.endpoint} responded {statusText status}"

def incompleteBody : String := "error decoding response body"

def readGet (client : Client) (response : Response) (complete : Bool) :
    Except CacheError (Option Bytes) :=
  if response.status = 404 then .ok none
  else if !response.isSuccess then .error (client.statusError response.status)
  else if complete then .ok (some response.body)
  else .error (client.connection incompleteBody)

def readSet (client : Client) (response : Response) : Except CacheError Unit :=
  if response.isSuccess then .ok () else .error (client.statusError response.status)

def readDelete (client : Client) (response : Response) : Except CacheError Unit :=
  if response.isSuccess || response.status = 404 then .ok ()
  else .error (client.statusError response.status)

def call {σ α : Type} (client : Client) (transport : Transport σ) (jitter : Nat → Nat)
    (method : String) (url : Net.Url) (contentType : Option Bytes) (body : Bytes)
    (read : Response → Bool → Except CacheError α) (state : σ) :
    Exchange σ (Except CacheError α) :=
  let exchange := client.send transport jitter url ⟨method, target url, contentType, body⟩ state
  let result := match exchange.result with
    | .error error => .error error
    | .ok (response, complete) => read response complete
  ⟨result, exchange.pauses, exchange.requests, exchange.state⟩

variable {σ : Type} (client : Client) (transport : Transport σ) (jitter : Nat → Nat)

def get (key : String) (state : σ) : Exchange σ (Except CacheError (Option Bytes)) :=
  client.call transport jitter "GET" (client.entryUrl (some key)) none [] client.readGet state

def octetStream : Bytes := Bytes.ofString "application/octet-stream"

def set (key : String) (value : Bytes) (state : σ) : Exchange σ (Except CacheError Unit) :=
  client.call transport jitter "PUT" (client.entryUrl (some key)) (some octetStream) value
    (fun response _ => client.readSet response) state

/-- Deletes an entry; an empty key stands for all entries. -/
def delete (key : String) (state : σ) : Exchange σ (Except CacheError Unit) :=
  let url := client.entryUrl (if key.isEmpty then none else some key)
  client.call transport jitter "DELETE" url none [] (fun response _ => client.readDelete response)
    state

def health (state : σ) : Bool × σ :=
  let url := client.url NodeService.healthPath none
  match deliver transport url ⟨"GET", target url, none, []⟩ state with
  | (.answered response _, state) => (response.isSuccess, state)
  | (_, state) => (false, state)

end Client

end RingCache.Http
