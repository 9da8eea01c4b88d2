import Daedalus.Foundation.Run
import Daedalus.Foundation.SyncMap
import Daedalus.Registry.Static

/-!
# The dynamic agent registry

`DynamicRegistry` of `internal/registry/dynamic.go`: a local map of agents that is filled from a
JetStream KV bucket, first by reading all its keys, then by a watcher that is restarted when it
fails. Anybody may write the bucket, and its entries expire. A stored value stands for what
`json.Unmarshal` makes of it.

What is taken from NATS: a watcher delivers the last entry of each key, delete markers included,
then a nil entry, then every later put, delete and purge in order. The expiry of an entry removes it
and delivers nothing. Backoff and logging are left out.
-/
namespace Daedalus

open Foundation

/-- The operation of an entry; `none` is a value that does not decode. -/
inductive KVOp where
  | put (value : Option AgentEntry)
  | delete
  | purge
  deriving DecidableEq, Repr

def KVOp.isPut : KVOp → Bool
  | .put _ => true
  | _ => false

/-- The last entry of each key, newest first. -/
abbrev Bucket := Table String KVOp

/-- What `kv.Keys` lists. -/
def Bucket.keys (b : Bucket) : List String := (b.filter (·.2.isPut)).map (·.1)

structure DynamicRegistry where
  agents : Table String AgentEntry
  fallback : Option Registry

namespace DynamicRegistry

/-! ## Lookups -/

def findByName (dr : DynamicRegistry) (name : String) : Option AgentEntry :=
  match dr.agents.load name with
  | some e => some e
  | none => dr.fallback.bind (·.findByName name)

/-- What `All` collects before it sorts. -/
def merged (dr : DynamicRegistry) : List AgentEntry :=
  dr.agents.map (·.2) ++ (dr.fallback.elim [] Registry.all).filter
    fun e => e.card.name ∉ dr.agents.map (·.1)

/-- `All` returns this list. The map is iterated in any order, and the sort is not stable. -/
def AllReturns (dr : DynamicRegistry) (all : List AgentEntry) : Prop :=
  all.Perm dr.merged ∧ all.Pairwise fun e e' => e.card.name ≤ e'.card.name

instance (dr : DynamicRegistry) (all : List AgentEntry) : Decidable (dr.AllReturns all) :=
  inferInstanceAs (Decidable (_ ∧ _))

/-- `FindBySkill`, given what `All` returned. -/
def findBySkill (all : List AgentEntry) (skillID : String) : List AgentEntry :=
  all.filter (·.hasSkill skillID)

/-- `Route`, given what `All` returned. -/
def route (all : List AgentEntry) (skillID : String) : Except GoError String :=
  Registry.routeTo "dynamic registry" skillID (findBySkill all skillID)

/-- `FindByTag`, given what `All` returned. -/
def findByTag (all : List AgentEntry) (tag : String) : List AgentEntry :=
  all.filter (·.hasTag tag)

/-- `RouteByScore`, given what `All` returned. -/
def routeByScore (all : List AgentEntry) (request : RoutingRequest) : Except GoError AgentEntry :=
  Registry.routeBest "dynamic registry" request all

/-! ## Filling the map -/

/-- One key of the initial sync: `kv.Get` fails on a key that has no put. -/
def sync (dr : DynamicRegistry) (key : String) : Option KVOp → DynamicRegistry
  | some (.put (some ae)) => { dr with agents := dr.agents.store key ae }
  | _ => dr

/-- One update of the watcher. -/
def notice (dr : DynamicRegistry) : String × KVOp → DynamicRegistry
  | (key, .put (some ae)) => { dr with agents := dr.agents.store key ae }
  | (_, .put none) => dr
  | (key, .delete) | (key, .purge) => { dr with agents := dr.agents.delete key }

end DynamicRegistry

/-! ## The registry and its bucket -/

namespace Discovery

inductive Stage where
  /-- `NewDynamicRegistry` is about to list the keys. -/
  | starting
  | syncing (rest : List String)
  /-- No watcher is running. -/
  | down
  /-- The updates that the watcher has been sent and has not processed. -/
  | up (updates : List (Option (String × KVOp)))
  | closed
  deriving DecidableEq

structure State where
  bucket : Bucket
  registry : DynamicRegistry
  stage : Stage

def State.new (fallback : Option Registry) : State where
  bucket := []
  registry := { agents := [], fallback }
  stage := .starting

inductive Act where
  | put (key : String) (value : Option AgentEntry)
  | delete (key : String)
  | purge (key : String)
  | expire (key : String)
  /-- `kv.Keys` returns, in some order. -/
  | keys (order : List String)
  /-- `kv.Get` of the next key returns, possibly with an error. -/
  | get (ok : Bool)
  /-- `NewDynamicRegistry` returns. -/
  | ready
  /-- `runWatcher` starts a watcher, or fails to. -/
  | watch (ok : Bool)
  | deliver
  /-- The channel of updates is closed. -/
  | fail
  | close

/-- A write is stored and sent to the watcher. -/
def State.write (s : State) (key : String) (op : KVOp) : State :=
  { s with
    bucket := s.bucket.store key op
    stage := match s.stage with
      | .up updates => .up (updates ++ [some (key, op)])
      | stage => stage }

def step (s : State) : Act → Option State
  | .put key value => some (s.write key (.put value))
  | .delete key => some (s.write key .delete)
  | .purge key => some (s.write key .purge)
  | .expire key =>
    if (s.bucket.load key).isSome then some { s with bucket := s.bucket.delete key } else none
  | .keys order =>
    if s.stage = .starting ∧ order.Perm s.bucket.keys then some { s with stage := .syncing order }
    else none
  | .get ok =>
    match s.stage with
    | .syncing (key :: rest) =>
      some { s with
        registry := if ok then s.registry.sync key (s.bucket.load key) else s.registry
        stage := .syncing rest }
    | _ => none
  | .ready => if s.stage = .syncing [] then some { s with stage := .down } else none
  | .watch ok =>
    if s.stage = .down then
      some (if ok then { s with stage := .up (s.bucket.reverse.map some ++ [none]) } else s)
    else none
  | .deliver =>
    match s.stage with
    | .up (update :: rest) =>
      some { s with
        registry := update.elim s.registry s.registry.notice
        stage := .up rest }
    | _ => none
  | .fail =>
    match s.stage with
    | .up _ => some { s with stage := .down }
    | _ => none
  | .close =>
    match s.stage with
    | .up _ | .down => some { s with stage := .closed }
    | _ => none

end Discovery

end Daedalus
