import Daedalus.Foundation.Run
import Daedalus.Queue.Consumer

/-!
# Proxies on shared streams

`NewConsumer` of `internal/queue/nats.go` and the part of JetStream it relies on. A durable
consumer is identified by its stream and its name, creating it again replaces its filter, and
`Fetch` returns messages that match the current filter. The name is the same for every proxy, so
the proxies of one stream share one durable, and the last one started sets the filter for all.
-/
namespace Daedalus.Queue

open Foundation

/-! ## Subjects -/

/-- The tokens of a subject, separated by dots. -/
def tokens : List Char → List (List Char)
  | [] => [[]]
  | c :: cs =>
    if c = '.' then [] :: tokens cs
    else match tokens cs with
      | [] => [[c]]
      | token :: rest => (c :: token) :: rest

/-- A star stands for one token, a final `>` for one or more. -/
def matchTokens : List (List Char) → List (List Char) → Bool
  | [], [] => true
  | [['>']], _ :: _ => true
  | p :: ps, t :: ts => (p = ['*'] || p = t) && matchTokens ps ts
  | _, _ => false

def subjectMatches (pattern subject : String) : Bool :=
  matchTokens (tokens pattern.toList) (tokens subject.toList)

example : subjectMatches "agent.tasks.>" "agent.tasks.coder" = true ∧
    subjectMatches "agent.tasks.coder" "agent.tasks.reviewer" = false := by decide

/-- Whatever matches `other` matches `pattern`. -/
def Covers (pattern other : String) : Prop :=
  ∀ subject, subjectMatches other subject = true → subjectMatches pattern subject = true

/-! ## NewConsumer -/

structure Config where
  url : String := ""
  stream : String
  subject : String
  deriving DecidableEq, Repr

/-- The streams with their subjects and messages, and the durable consumers with their filters. -/
structure Server where
  streams : String → Option (List String)
  stored : List (String × String)
  consumers : String → String → Option String

def consumerName : String := "proxy-consumer"

/-- What the NATS calls of `NewConsumer` answer; `none` is success. -/
structure ConnectEnv where
  connect : Option GoError := none
  jetstream : Option GoError := none
  stream : Option GoError := none
  createStream : Option GoError := none
  createConsumer : Option GoError := none

/-- `js.CreateOrUpdateConsumer`, when it succeeds. -/
def Server.setFilter (srv : Server) (stream name filter : String) : Server :=
  { srv with
    consumers := Function.update srv.consumers stream
      (Function.update (srv.consumers stream) name (some filter)) }

/-- Ensure that the stream exists. -/
def ensureStream (srv : Server) (cfg : Config) (env : ConnectEnv) : Server × Option GoError :=
  match env.stream with
  | none => (srv, none)
  | some _ =>
    match env.createStream with
    | some err => (srv, some (.wrap ("nats: create stream " ++ cfg.stream) err))
    | none =>
      ({ srv with streams := Function.update srv.streams cfg.stream (some [cfg.subject]) }, none)

def newConsumer (srv : Server) (cfg : Config) (env : ConnectEnv) :
    Server × Except GoError Config :=
  match env.connect, env.jetstream with
  | some err, _ => (srv, .error (.wrap ("nats: connect " ++ cfg.url) err))
  | none, some err => (srv, .error (.wrap "nats: jetstream" err))
  | none, none =>
    match ensureStream srv cfg env with
    | (srv, some err) => (srv, .error err)
    | (srv, none) =>
      match env.createConsumer with
      | some err => (srv, .error (.wrap "nats: create consumer" err))
      | none => (srv.setFilter cfg.stream consumerName cfg.subject, .ok cfg)

/-! ## Any number of proxies -/

/-- The running proxies, and the messages handed to handlers with the configuration of the
proxy. -/
structure Cluster where
  server : Server
  proxies : ℕ → Option Config
  handed : List (Config × String)

def Cluster.new : Cluster where
  server := ⟨fun _ => none, [], fun _ _ => none⟩
  proxies _ := none
  handed := []

inductive ClusterAct where
  | start (p : ℕ) (cfg : Config) (env : ConnectEnv)
  | stop (p : ℕ)
  /-- A message is stored in a stream that takes its subject. -/
  | publish (stream subject : String)
  /-- `Fetch` returns a message, and `Run` hands it to the handler. -/
  | fetch (p : ℕ) (subject : String)

def clusterStep (s : Cluster) : ClusterAct → Option Cluster
  | .start p cfg env =>
    if (s.proxies p).isSome then none
    else match newConsumer s.server cfg env with
      | (server, .ok cfg) =>
        some { s with server, proxies := Function.update s.proxies p (some cfg) }
      | (server, .error _) => some { s with server }
  | .stop p => some { s with proxies := Function.update s.proxies p none }
  | .publish stream subject =>
    (s.server.streams stream).bind fun subjects =>
      if subjects.any (subjectMatches · subject) then
        some { s with server := { s.server with stored := s.server.stored ++ [(stream, subject)] } }
      else none
  | .fetch p subject =>
    (s.proxies p).bind fun cfg => (s.server.consumers cfg.stream consumerName).bind fun filter =>
      if (cfg.stream, subject) ∈ s.server.stored ∧ subjectMatches filter subject then
        some { s with handed := s.handed ++ [(cfg, subject)] }
      else none

/-- Every message handed to a handler matches the subject its proxy is configured with. -/
def Isolated (s : Cluster) : Prop :=
  ∀ entry ∈ s.handed, subjectMatches entry.1.subject entry.2 = true

/-- A proxy is started only where the proxies that already run on its stream have subjects that
cover its own. -/
def Compatible (s : Cluster) : ClusterAct → Prop
  | .start _ cfg _ => ∀ q running, s.proxies q = some running → running.stream = cfg.stream →
    Covers running.subject cfg.subject
  | _ => True

/-- The filter of each proxy's durable is covered by the proxy's own subject. -/
structure ClusterInv (s : Cluster) : Prop where
  filtered : ∀ p cfg filter, s.proxies p = some cfg →
    s.server.consumers cfg.stream consumerName = some filter → Covers cfg.subject filter
  isolated : Isolated s

section Steps

variable {s t : Cluster}

theorem ensureStream_consumers (srv : Server) (cfg : Config) (env : ConnectEnv) :
    (ensureStream srv cfg env).1.consumers = srv.consumers := by
  unfold ensureStream
  split
  · rfl
  · split <;> rfl

theorem setFilter_consumers (srv : Server) (stream name filter stream' : String) :
    (srv.setFilter stream name filter).consumers stream' name =
      if stream' = stream then some filter else srv.consumers stream' name := by
  unfold Server.setFilter
  by_cases e : stream' = stream
  · subst e
    simp
  · simp [e]

/-- Starting a consumer fails and leaves the filters alone, or replaces the one of its stream. -/
theorem newConsumer_cases (srv : Server) (cfg : Config) (env : ConnectEnv) :
    (∃ err, (newConsumer srv cfg env).2 = .error err) ∧
        (newConsumer srv cfg env).1.consumers = srv.consumers ∨
      (newConsumer srv cfg env).2 = .ok cfg ∧
        ∀ stream, (newConsumer srv cfg env).1.consumers stream consumerName =
          if stream = cfg.stream then some cfg.subject else srv.consumers stream consumerName := by
  have kept := ensureStream_consumers srv cfg env
  unfold newConsumer
  generalize ensureStream srv cfg env = ensured at kept ⊢
  obtain ⟨srv', streamErr⟩ := ensured
  cases env.connect with
  | some err => exact .inl ⟨⟨_, rfl⟩, rfl⟩
  | none =>
    cases env.jetstream with
    | some err => exact .inl ⟨⟨_, rfl⟩, rfl⟩
    | none =>
      cases streamErr with
      | some err => exact .inl ⟨⟨_, rfl⟩, kept⟩
      | none =>
        cases env.createConsumer with
        | some err => exact .inl ⟨⟨_, rfl⟩, kept⟩
        | none =>
          refine .inr ⟨rfl, fun stream => ?_⟩
          rw [← kept]
          exact setFilter_consumers srv' cfg.stream consumerName cfg.subject stream

theorem ClusterInv.new : ClusterInv .new :=
  ⟨fun _ _ _ h => (nomatch h), fun _ h => (nomatch h)⟩

theorem ClusterInv.step {a : ClusterAct} (h : ClusterInv s) (ok : Compatible s a)
    (hs : clusterStep s a = some t) : ClusterInv t := by
  cases a with
  | start p cfg env =>
    simp only [clusterStep] at hs
    split_ifs at hs
    have cases := newConsumer_cases s.server cfg env
    generalize newConsumer s.server cfg env = started at cases hs
    obtain ⟨server, result⟩ := started
    obtain ⟨⟨err, rfl⟩, kept⟩ | ⟨rfl, replaced⟩ := cases
    · cases hs
      refine ⟨?_, h.isolated⟩
      intro q running filter hq hfilter
      exact h.filtered q running filter hq (kept ▸ hfilter)
    · cases hs
      refine ⟨?_, h.isolated⟩
      intro q running filter hq hfilter
      have hfilter := (replaced running.stream).symm.trans hfilter
      simp only [Function.update_apply] at hq
      by_cases e : q = p
      · rw [if_pos e] at hq
        cases hq
        rw [if_pos rfl] at hfilter
        cases hfilter
        exact fun _ hm => hm
      · rw [if_neg e] at hq
        split_ifs at hfilter with hstream
        · cases hfilter
          exact ok q running hq hstream
        · exact h.filtered q running filter hq hfilter
  | stop p =>
    cases hs
    refine ⟨?_, h.isolated⟩
    intro q cfg filter hq
    simp only [Function.update_apply] at hq
    split_ifs at hq
    exact h.filtered q cfg filter hq
  | publish stream subject =>
    simp only [clusterStep, Option.bind_eq_some_iff] at hs
    obtain ⟨subjects, _, hs⟩ := hs
    split_ifs at hs
    cases hs
    exact ⟨h.filtered, h.isolated⟩
  | fetch p subject =>
    simp only [clusterStep, Option.bind_eq_some_iff] at hs
    obtain ⟨cfg, hp, filter, hfilter, hs⟩ := hs
    split_ifs at hs with found
    cases hs
    refine ⟨h.filtered, ?_⟩
    intro entry hentry
    rcases List.mem_append.mp hentry with hold | hnew
    · exact h.isolated entry hold
    · obtain rfl := List.mem_singleton.mp hnew
      exact h.filtered p cfg filter hp hfilter subject found.2

end Steps

/-- In every run in which a proxy is started on a stream only when the proxies already running
there have subjects that cover its own, every message is handed to a proxy it is meant for. -/
theorem isolated_of_compatible {acts : List ClusterAct} {s : Cluster}
    (h : run clusterStep .new acts = some s)
    (ok : Meets clusterStep Compatible .new acts) : Isolated s :=
  (ok.invariant ClusterInv (fun _ _ _ inv hok hs => inv.step hok hs) h .new).isolated

/-- The first proxy creates the stream, with a subject for all agents. -/
def pool : Config := { stream := "AGENT_TASKS", subject := "agent.tasks.>" }

def coder : Config := { stream := "AGENT_TASKS", subject := "agent.tasks.coder" }

def reviewer : Config := { stream := "AGENT_TASKS", subject := "agent.tasks.reviewer" }

def missing : ConnectEnv := { stream := some (.new "nats: stream not found") }

def sharedPool : List ClusterAct := [
  .start 0 pool missing, .start 1 pool {}, .publish "AGENT_TASKS" "agent.tasks.coder",
  .fetch 0 "agent.tasks.coder"]

theorem isolated_of_compatible_sharedPool :
    ∃ s, run clusterStep .new sharedPool = some s ∧
      s.handed = [(pool, "agent.tasks.coder")] ∧ Isolated s := by
  have observed : (run clusterStep .new sharedPool).map (·.handed) =
      some [(pool, "agent.tasks.coder")] := by decide
  obtain ⟨s, hs, handed⟩ := Option.map_eq_some_iff.mp observed
  have ok : Meets clusterStep Compatible .new sharedPool := by
    refine ⟨fun q running hq => (nomatch hq), ?_⟩
    rintro t ⟨⟩
    refine ⟨?_, fun _ _ => ⟨trivial, fun _ _ => ⟨trivial, fun _ _ => trivial⟩⟩⟩
    intro q running hq _
    simp only [Function.update_apply] at hq
    split_ifs at hq
    · cases hq
      exact fun _ hm => hm
    · cases hq
  exact ⟨s, hs, handed, isolated_of_compatible hs ok⟩

/-- The reviewer's start replaces the filter, and the coder is handed a review. -/
theorem foreign_message :
    ∃ s, run clusterStep .new [.start 0 pool missing, .start 1 coder {}, .start 2 reviewer {},
        .publish "AGENT_TASKS" "agent.tasks.reviewer", .fetch 1 "agent.tasks.reviewer"] = some s ∧
      ¬ Isolated s := by
  have observed : (run clusterStep .new [.start 0 pool missing, .start 1 coder {},
      .start 2 reviewer {}, .publish "AGENT_TASKS" "agent.tasks.reviewer",
      .fetch 1 "agent.tasks.reviewer"]).map (·.handed) =
      some [(coder, "agent.tasks.reviewer")] := by decide
  obtain ⟨s, hs, handed⟩ := Option.map_eq_some_iff.mp observed
  refine ⟨s, hs, fun isolated => ?_⟩
  have own := isolated (coder, "agent.tasks.reviewer") (by simp [handed])
  exact absurd own (by decide)

end Daedalus.Queue
