import RingCache.Proofs.EntryTargets
import RingCache.Proofs.ServingClusters

/-!
A node behind its service. A client whose requests all arrive does to the entries of the service
what its key's path says: for plain keys what a store in process does, and for some others what no
caller asked for.
-/

namespace RingCache

namespace Http

open Net.Url (sent escapeSegment isDropped)

namespace Arrival

variable (client : Client) (table : Table Bytes)

def get : Arrival → Except CacheError (Option Bytes)
  | .everything => .error (client.statusError 405)
  | .nothing => .ok none
  | .entry key => .ok (table.get? key)

def set (value : Bytes) : Arrival → Except CacheError Unit × Table Bytes
  | .everything => (.error (client.statusError 405), table)
  | .nothing => (.error (client.statusError 404), table)
  | .entry key =>
      if value.length > bodyLimit then (.error (client.statusError 413), table)
      else (.ok (), table.insert key value)

def delete : Arrival → Table Bytes
  | .everything => .empty
  | .nothing => table
  | .entry key => table.erase key

end Arrival

theorem arrival_cases (key : String) :
    arrival key = .everything ∧ (key = "." ∨ key = "..") ∨
      arrival key = .nothing ∧ ¬(key = "." ∨ key = "..") ∧ sent key ∈ ["", ".", ".."] ∨
      arrival key = .entry (sent key) ∧ ¬(key = "." ∨ key = "..") ∧ sent key ∉ ["", ".", ".."] := by
  simp only [arrival, List.mem_cons, List.not_mem_nil, or_false]
  by_cases dots : key = "." ∨ key = ".."
  · exact .inl ⟨if_pos dots, dots⟩
  · rw [if_neg dots]
    by_cases gone : sent key = "" ∨ sent key = "." ∨ sent key = ".."
    · exact .inr (.inl ⟨if_pos gone, dots, gone⟩)
    · exact .inr (.inr ⟨if_neg gone, dots, gone⟩)

/-- A value is stored under another key exactly if the path is another entry's. -/
theorem Arrival.set_confined (client : Client) (key : String) :
    (∀ value table other, other ≠ key →
      ((arrival key).set client table value).2.get? other = table.get? other) ↔
      sent key ∈ [key, "", ".", ".."] := by
  rcases arrival_cases key with ⟨arrives, dots⟩ | ⟨arrives, _, gone⟩ | ⟨arrives, _, kept⟩
  · rw [arrives]
    refine iff_of_true (fun _ _ _ _ => rfl) ?_
    rcases dots with rfl | rfl <;> decide
  · rw [arrives]
    exact iff_of_true (fun _ _ _ _ => rfl) (List.mem_cons_of_mem _ gone)
  · rw [arrives, List.mem_cons, or_iff_left kept]
    constructor
    · intro keeps
      by_contra other
      have strayed := keeps [] .empty (sent key) other
      rw [set, if_neg (by decide), Table.get?_insert, if_pos rfl] at strayed
      cases strayed
    · intro same value table other apart
      rw [set, same]
      split
      · rfl
      · rw [Table.get?_insert, if_neg apart]

/-- Another key is deleted exactly if the path is another entry's or that of all entries. -/
theorem Arrival.delete_confined (key : String) (keyed : key ≠ "") :
    (∀ table other, other ≠ key →
      ((arrival key).delete table).get? other = table.get? other) ↔
      key ≠ "." ∧ key ≠ ".." ∧ sent key ∈ [key, "", ".", ".."] := by
  rcases arrival_cases key with ⟨arrives, dots⟩ | ⟨arrives, keyed, gone⟩ | ⟨arrives, keyed, kept⟩
  · rw [arrives]
    refine iff_of_false (fun keeps => ?_) fun keeps => dots.elim keeps.1 keeps.2.1
    have emptied := keeps (Table.empty.insert "" []) "" (Ne.symm keyed)
    rw [delete, Table.get?_empty, Table.get?_insert, if_pos rfl] at emptied
    cases emptied
  · obtain ⟨dot, dots⟩ := not_or.mp keyed
    rw [arrives]
    exact iff_of_true (fun _ _ _ => rfl) ⟨dot, dots, List.mem_cons_of_mem _ gone⟩
  · obtain ⟨dot, dots⟩ := not_or.mp keyed
    rw [arrives, List.mem_cons, or_iff_left kept]
    constructor
    · intro keeps
      refine ⟨dot, dots, ?_⟩
      by_contra other
      have strayed := keeps (Table.empty.insert (sent key) []) (sent key) other
      rw [delete, Table.get?_erase, if_pos rfl, Table.get?_insert, if_pos rfl] at strayed
      cases strayed
    · rintro ⟨-, -, same⟩ table other apart
      rw [delete, Table.get?_erase, same, if_neg apart]

theorem arrival_entry {key stored : String} (arrives : arrival key = .entry stored) :
    stored = sent key ∧ stored ≠ "" := by
  unfold arrival at arrives
  split at arrives
  · cases arrives
  · split at arrives
    · cases arrives
    · next named =>
        cases arrives
        exact ⟨rfl, fun empty => named (.inl empty)⟩

namespace NodeService

variable {raw stored : String} (read : readParameter parameterName raw = .ok stored)
  (target : String) (contentType : Option Bytes) (body : Bytes) (table : Table Bytes)

include read

theorem entry_get : entry raw ⟨"GET", target, contentType, body⟩ table =
    (getEntry stored table, table) := by
  simp only [entry, read]
  rfl

theorem entry_put : entry raw ⟨"PUT", target, contentType, body⟩ table =
    if body.length > bodyLimit then (bodyTooLong, table)
    else (.plain 204, table.insert stored body) := by
  simp only [entry, read]
  rfl

theorem entry_delete : entry raw ⟨"DELETE", target, contentType, body⟩ table =
    (.plain 204, if stored.isEmpty then .empty else table.erase stored) := by
  simp only [entry, read]
  rfl

end NodeService

namespace Client

section Direct

variable {client : Client} (direct : client.Direct) (id : NodeId) (jitter : Nat → Nat)
  (key : String) (table : Table Bytes)

include direct

/-- A request that arrives is the only one of its call. -/
theorem Direct.call_toNode {α : Type} (method : String) (key : Option String)
    (contentType : Option Bytes) (body : Bytes) (read : Response → Bool → Except CacheError α) :
    client.call (.toNode id) jitter method (client.entryUrl key) contentType body read table =
      let answer := NodeService.handle id
        ⟨method, target (client.entryUrl key), contentType, body⟩ table
      ⟨read answer.1 true, [], 1, answer.2⟩ := by
  obtain ⟨left, attempts⟩ : ∃ left, client.attempts = left + 1 :=
    ⟨client.attempts - 1, (Nat.sub_add_cancel direct.attempts).symm⟩
  rw [call, send, attempts, attemptsFrom, deliver, if_pos (direct.entryUrl_sendable key)]
  rfl

theorem Direct.get_toNode :
    client.get (.toNode id) jitter key table =
      ⟨(arrival key).get client table, [], 1, table⟩ := by
  rw [get, direct.call_toNode, direct.handle_entryUrl]
  cases arrives : arrival key with
  | everything => rfl
  | nothing => rfl
  | entry stored =>
      have read := readParameter_escapeSegment true key
      rw [← (arrival_entry arrives).1] at read
      simp only [NodeService.entry_get read, NodeService.getEntry, Arrival.get]
      cases table.get? stored <;> rfl

theorem Direct.set_toNode (value : Bytes) :
    client.set (.toNode id) jitter key value table =
      ⟨((arrival key).set client table value).1, [], 1,
        ((arrival key).set client table value).2⟩ := by
  rw [set, direct.call_toNode, direct.handle_entryUrl]
  cases arrives : arrival key with
  | everything => rfl
  | nothing => rfl
  | entry stored =>
      have read := readParameter_escapeSegment true key
      rw [← (arrival_entry arrives).1] at read
      simp only [NodeService.entry_put read, Arrival.set]
      split <;> rfl

theorem Direct.delete_toNode (named : key ≠ "") :
    client.delete (.toNode id) jitter key table =
      ⟨.ok (), [], 1, (arrival key).delete table⟩ := by
  have keyed : key.isEmpty = false := by simpa using named
  simp only [delete, keyed, Bool.false_eq_true, if_false]
  rw [direct.call_toNode, direct.handle_entryUrl]
  cases arrives : arrival key with
  | everything => rfl
  | nothing => rfl
  | entry stored =>
      obtain ⟨same, full⟩ := arrival_entry arrives
      have read := readParameter_escapeSegment true key
      rw [← same] at read
      have kept : stored.isEmpty = false := by simpa using full
      simp only [NodeService.entry_delete read, kept]
      rfl

/-- The empty key stands for all entries. -/
theorem Direct.flush_toNode :
    client.delete (.toNode id) jitter "" table = ⟨.ok (), [], 1, .empty⟩ := by
  have keyed : "".isEmpty = true := rfl
  have path : pathOf (target (client.entryUrl none)) = NodeService.entryPath.toList :=
    direct.pathOf_entryUrl none
  have answer := NodeService.handle_everything id table
    (show pathOf (Request.mk "DELETE" (target (client.entryUrl none)) none []).target = _ from path)
  simp only [delete, keyed, if_true]
  rw [direct.call_toNode, answer]
  rfl

/-- Only the requests about two keys are the requests about all entries. -/
theorem Direct.target_everything (key : String) :
    target (client.entryUrl (some key)) = target (client.entryUrl none) ↔
      key = "." ∨ key = ".." := by
  constructor
  · intro same
    by_contra keyed
    have path := congrArg pathOf same
    rw [direct.pathOf_entryUrl, direct.pathOf_entryUrl, entrySegments, entrySegments,
      Net.Url.pushSegment_some _ _ _ (by decide), if_neg keyed] at path
    revert path
    split
    · decide
    · split
      · decide
      · intro path
        have sizes := congrArg List.length path
        simp at sizes
  · intro dots
    have whole : client.entryUrl (some key) = client.entryUrl none := by
      obtain ⟨path, root, _⟩ := direct.root
      rw [entryUrl, entryUrl, url, url, Net.Url.extend, Net.Url.extend, root]
      simp only [Option.toList_some, Option.toList_none, List.append_nil, List.foldl_append,
        List.foldl_cons, List.foldl_nil]
      rw [Net.Url.pushSegment, if_pos dots]
    rw [whole]

/-- What the calls about a key do at a service, and which of them keep to their key: a call strays
where the path of its key is another entry's, and a deletion also where it is the path of all
entries. -/
theorem keyed_calls_stray (valid : validateKey key = .ok ()) :
    (∀ value table, (client.set (.toNode id) jitter key value table).state =
        ((arrival key).set client table value).2) ∧
      (∀ table, (client.delete (.toNode id) jitter key table).state =
        (arrival key).delete table) ∧
      ((∀ value table other, other ≠ key →
          (client.set (.toNode id) jitter key value table).state.get? other = table.get? other) ↔
        sent key ∈ [key, "", ".", ".."]) ∧
      ((∀ table other, other ≠ key →
          (client.delete (.toNode id) jitter key table).state.get? other = table.get? other) ↔
        key ≠ "." ∧ key ≠ ".." ∧ sent key ∈ [key, "", ".", ".."]) ∧
      (target (client.entryUrl (some key)) = target (client.entryUrl none) ↔
        key = "." ∨ key = "..") := by
  have named : key ≠ "" := by
    rintro rfl
    cases valid
  have sets (value : Bytes) (table : Table Bytes) :
      (client.set (.toNode id) jitter key value table).state =
        ((arrival key).set client table value).2 := by
    rw [direct.set_toNode]
  have deletes (table : Table Bytes) :
      (client.delete (.toNode id) jitter key table).state = (arrival key).delete table := by
    rw [direct.delete_toNode id jitter key table named]
  refine ⟨sets, deletes, ?_, ?_, direct.target_everything key⟩
  · simp only [sets]
    exact Arrival.set_confined client key
  · simp only [deletes]
    exact Arrival.delete_confined key named

end Direct

theorem keyed_calls_stray_tab :
    validateKey "x\ty" = .ok () ∧
      (rootClient.delete (.toNode ⟨"n"⟩) (fun _ => 0) "x\ty" (Table.empty.insert "xy" [1])).state =
        .empty ∧
      target (rootClient.entryUrl (some "x\ty")) ≠ target (rootClient.entryUrl none) := by
  have valid : validateKey "x\ty" = .ok () := rfl
  obtain ⟨-, deletes, -, -, requests⟩ :=
    keyed_calls_stray rootClient_direct ⟨"n"⟩ (fun _ => 0) "x\ty" valid
  refine ⟨valid, ?_, fun same => ?_⟩
  · rw [deletes]
    rfl
  · exact absurd (requests.mp same) (by decide)

/-- Deleting a key whose path is that of all entries deletes the others too. -/
theorem dot_deletes_others :
    let table : Table Bytes := Table.empty.insert "a" [1]
    let exchange := rootClient.delete (.toNode ⟨"n"⟩) (fun _ => 0) "." table
    validateKey "." = .ok () ∧ table.get? "a" = some [1] ∧ exchange.result = .ok () ∧
      exchange.state.get? "a" = none ∧
      target (rootClient.entryUrl (some ".")) = target (rootClient.entryUrl none) := by
  intro table exchange
  have gone : exchange = ⟨.ok (), [], 1, .empty⟩ :=
    rootClient_direct.delete_toNode ⟨"n"⟩ (fun _ => 0) "." table (by decide)
  rw [gone]
  exact ⟨rfl, rfl, rfl, rfl, (rootClient_direct.target_everything ".").mpr (.inl rfl)⟩

end Client

end Http

namespace Cluster

inductive NodeCall where
  | get (key : String)
  | set (key : String) (value : Bytes)
  | delete (key : String)

inductive NodeReply where
  | found (outcome : Outcome (Option Bytes))
  | changed (outcome : Outcome Unit)

namespace NodeCall

def served (client : Http.Client) (id : NodeId) (jitter : Nat → Nat) (limit : Option Time.Span)
    (call : NodeCall) (table : Table Bytes) : NodeReply × Table Bytes :=
  match call with
  | .get key =>
      let exchange := client.get (.toNode id) jitter key table
      (.found (Fleet.ofExchange limit exchange), exchange.state)
  | .set key value =>
      let exchange := client.set (.toNode id) jitter key value table
      (.changed (Fleet.ofExchange limit exchange), exchange.state)
  | .delete key =>
      let exchange := client.delete (.toNode id) jitter key table
      (.changed (Fleet.ofExchange limit exchange), exchange.state)

def kept (limit : Option Time.Span) (name : String) (call : NodeCall) (fleet : Fleet) :
    NodeReply × Fleet :=
  match call with
  | .get key => (fleet.get limit name key).map .found id
  | .set key value => (fleet.set limit name key value).map .changed id
  | .delete key => (fleet.delete limit name key).map .changed id

def run {σ : Type} (step : NodeCall → σ → NodeReply × σ) : List NodeCall → σ → List NodeReply × σ
  | [], state => ([], state)
  | call :: rest, state =>
      let first := step call state
      let others := run step rest first.2
      (first.1 :: others.1, others.2)

def effect (call : NodeCall) (table : Table Bytes) : NodeReply × Table Bytes :=
  match call with
  | .get key => (.found (.done (table.get? key)), table)
  | .set key value => (.changed (.done ()), table.insert key value)
  | .delete key => (.changed (.done ()), Fleet.deleteEffect key table)

theorem kept_effect (limit : Option Time.Span) (name : String) (call : NodeCall) (fleet : Fleet)
    (serving : (fleet.peer name).Serving) :
    let after := call.kept limit name fleet
    (after.1, after.2.tableOf name) = call.effect (fleet.tableOf name) ∧
      (after.2.peer name).Serving := by
  have changes (mutation : Mutation) :
      (mutation.send limit fleet name).1 = .done () ∧
        (mutation.send limit fleet name).2.tableOf name =
          mutation.apply (fleet.tableOf name) ∧
        ((mutation.send limit fleet name).2.peer name).Serving := by
    rw [fleet.send_eq limit name mutation serving.inProcess, serving.hindrance]
    simp only [Fleet.tableOf, Fleet.peer_put, if_true, serving.after_table, Option.getD_none,
      true_and]
    exact serving.after mutation limit
  cases call with
  | get key =>
      obtain ⟨found, others⟩ := fleet.get_serving limit name key serving
      have stores := fleet.get_keepsStores limit name key
      refine ⟨?_, others name serving⟩
      simp only [kept, effect, Prod.map, found, Fleet.tableOf, stores.table, id]
  | set key value =>
      obtain ⟨reply, table, still⟩ := changes (.set key value)
      exact ⟨Prod.ext (congrArg NodeReply.changed reply) table, still⟩
  | delete key =>
      obtain ⟨reply, table, still⟩ := changes (.delete key)
      exact ⟨Prod.ext (congrArg NodeReply.changed reply) table, still⟩

/-- A key that is sent as it is, in a segment of its own. -/
structure Plain (key : String) : Prop where
  valid : validateKey key = .ok ()
  dot : key ≠ "."
  dots : key ≠ ".."
  spared : ∀ c ∈ key.toList, Net.Url.isDropped c = false

theorem Plain.keyed {key : String} (plain : Plain key) : key ≠ "" := by
  rintro rfl
  cases plain.valid

theorem Plain.arrival {key : String} (plain : Plain key) : Http.arrival key = .entry key :=
  Http.arrival_plain key plain.keyed plain.dot plain.dots plain.spared

/-- Calls that a service is asked as they were made: about plain keys, with values that a body may
hold. -/
def Carried : NodeCall → Prop
  | .get key => Plain key
  | .set key value => Plain key ∧ value.length ≤ Http.bodyLimit
  | .delete key => key = "" ∨ Plain key

theorem ofExchange_direct {σ α : Type} (limit : Option Time.Span) (value : α) (requests : Nat)
    (state : σ) : Fleet.ofExchange limit ⟨.ok value, [], requests, state⟩ = .done value := by
  have early : inTime limit (nanosOfMillis 0) = true := by
    cases limit with
    | none => rfl
    | some span => simp [inTime, nanosOfMillis]
  rw [Fleet.ofExchange, Fleet.exchangeNanos, List.foldl_nil, if_pos early]

section Service

variable {client : Http.Client} (direct : client.Direct) (id : NodeId) (jitter : Nat → Nat)
  (limit : Option Time.Span)

include direct

theorem served_effect (call : NodeCall) (carried : call.Carried) (table : Table Bytes) :
    call.served client id jitter limit table = call.effect table := by
  cases call with
  | get key =>
      simp only [served, effect, direct.get_toNode, (show Plain key from carried).arrival,
        Http.Arrival.get, ofExchange_direct]
  | set key value =>
      obtain ⟨plain, small⟩ := carried
      simp only [served, effect, direct.set_toNode, plain.arrival, Http.Arrival.set,
        if_neg (Nat.not_lt.mpr small), ofExchange_direct]
  | delete key =>
      rcases carried with rfl | plain
      · simp only [served, effect, direct.flush_toNode, ofExchange_direct]
        rfl
      · have keyed : key.isEmpty = false := by simpa using plain.keyed
        simp only [served, effect, direct.delete_toNode id jitter key table plain.keyed,
          plain.arrival, Http.Arrival.delete, ofExchange_direct, Fleet.deleteEffect, keyed,
          Bool.false_eq_true, if_false]

/-- A service answers every list of calls as a store in process does, and then holds the same. -/
theorem served_refines_kept (name : String) (calls : List NodeCall)
    (carried : ∀ call ∈ calls, call.Carried) (fleet : Fleet)
    (serving : (fleet.peer name).Serving) :
    let service := run (served client id jitter limit) calls (fleet.tableOf name)
    let store := run (kept limit name) calls fleet
    service.1 = store.1 ∧ service.2 = store.2.tableOf name := by
  induction calls generalizing fleet with
  | nil => exact ⟨rfl, rfl⟩
  | cons call rest ih =>
      obtain ⟨here, still⟩ := kept_effect limit name call fleet serving
      have there := served_effect direct id jitter limit call (carried call (.head _))
        (fleet.tableOf name)
      obtain ⟨replies, tables⟩ := ih (fun call member => carried call (.tail _ member)) _ still
      rw [← there] at here
      simp only [run, ← here]
      exact ⟨congrArg _ replies, tables⟩

end Service

theorem served_refines_kept_escaped :
    let calls : List NodeCall :=
      [.set "a/b%\x00" [1], .get "a/b%\x00", .set "é ?" [], .delete "", .get "a/b%\x00"]
    let service := run (served Http.rootClient ⟨"n"⟩ Fleet.noJitter none) calls .empty
    service.1 = [.changed (.done ()), .found (.done (some [1])), .changed (.done ()),
        .changed (.done ()), .found (.done none)] ∧
      service.2 = .empty := by
  intro calls service
  have slash : Plain "a/b%\x00" := ⟨rfl, by decide, by decide, by simp [Net.Url.isDropped]⟩
  have space : Plain "é ?" := ⟨rfl, by decide, by decide, by simp [Net.Url.isDropped]⟩
  have carried : ∀ call ∈ calls, call.Carried := by
    simp only [calls, List.forall_mem_cons, Carried]
    exact ⟨⟨slash, by decide⟩, slash, ⟨space, by decide⟩, .inl trivial, slash,
      List.forall_mem_nil _⟩
  obtain ⟨replies, table⟩ := served_refines_kept Http.rootClient_direct ⟨"n"⟩ Fleet.noJitter none
    "n" calls carried .empty (Peer.fresh_serving "n")
  exact ⟨replies.trans rfl, table.trans rfl⟩

end NodeCall

end Cluster

end RingCache
