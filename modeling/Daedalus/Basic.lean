import Mathlib

/-!
# Data shared by the components

Errors and contexts as the Go code uses them, and the A2A types of `internal/a2a`. JSON payloads
are modelled by the values they decode to. Fields that no modelled function reads or writes
(`Part.Data`, `Task.History`, `SendMessageRequest.Configuration`, ...) are left out.
-/
namespace Daedalus

/-- What `ctx.Err()` returns once a context is done. -/
inductive CtxErr where
  | canceled
  | deadlineExceeded
  deriving DecidableEq, Repr

def CtxErr.text : CtxErr → String
  | .canceled => "context canceled"
  | .deadlineExceeded => "context deadline exceeded"

/-- An error value: its text, and the context error it wraps, if any. Comparing with
`errors.Is` against the two context errors is reading `cause`. -/
structure GoError where
  text : String
  cause : Option CtxErr := none
  deriving DecidableEq, Repr

/-- `errors.New(text)`. -/
def GoError.new (text : String) : GoError := { text }

/-- `fmt.Errorf(text + ": %w", err)`. -/
def GoError.wrap (text : String) (err : GoError) : GoError :=
  { text := text ++ ": " ++ err.text, cause := err.cause }

def CtxErr.toError (e : CtxErr) : GoError := { text := e.text, cause := some e }

/-- `errors.Is(err, context.Canceled) || errors.Is(err, context.DeadlineExceeded)`. -/
def GoError.isCanceled (err : GoError) : Bool := err.cause.isSome

namespace A2A

/-- The strings that name a task state. -/
def stateNames : List String :=
  ["submitted", "working", "completed", "failed", "canceled", "input-required", "rejected"]

/-- Lifecycle of a task. The Go type is a string with named constants, and a worker may send
any other string too; those are `unknown`. -/
inductive TaskState where
  | submitted
  | working
  | completed
  | failed
  | canceled
  | inputRequired
  | rejected
  | unknown (name : String) (other : name ∉ stateNames)
  deriving DecidableEq, Repr

def TaskState.name : TaskState → String
  | .submitted => "submitted"
  | .working => "working"
  | .completed => "completed"
  | .failed => "failed"
  | .canceled => "canceled"
  | .inputRequired => "input-required"
  | .rejected => "rejected"
  | .unknown name _ => name

/-- A metadata value: a string, the usage record the proxy adds, or any other JSON text. -/
inductive Value where
  | str (text : String)
  | contextUsage (currentTokens turnCount compactionCount : ℤ) (usagePercent : Option ℤ)
  | json (text : String)
  deriving DecidableEq, Repr

abbrev Metadata := List (String × Value)

structure Part where
  text : String := ""
  deriving DecidableEq, Repr

structure Message where
  messageID : String
  contextID : String := ""
  taskID : String := ""
  role : String
  parts : List Part
  metadata : Metadata := []
  deriving DecidableEq, Repr

structure TaskStatus where
  state : TaskState
  message : Option Message := none
  timestamp : String := ""
  deriving DecidableEq, Repr

structure Artifact where
  artifactID : String
  name : String := ""
  parts : List Part
  deriving DecidableEq, Repr

structure Task where
  id : String
  contextID : String := ""
  status : TaskStatus
  artifacts : List Artifact := []
  metadata : Metadata := []
  deriving DecidableEq, Repr

structure SendMessageRequest where
  message : Message
  deriving DecidableEq, Repr

/-- Concatenate the texts of all parts. -/
def Message.extractPromptText (m : Message) : String :=
  m.parts.foldl (fun result part => if part.text ≠ "" then result ++ part.text else result) ""

end A2A

end Daedalus
