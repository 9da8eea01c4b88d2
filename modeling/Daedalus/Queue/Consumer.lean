import Daedalus.Basic

/-!
# The queue consumer

What `internal/queue/nats.go` decides about a message: `processMessage` removes it (`Ack`,
`Term`) or gives it back (`Nak`), from the number of deliveries and the handler's error alone.
-/
namespace Daedalus.Queue

def defaultMaxDeliver : ℕ := 3

inductive Disposition where
  | ack
  | nak
  | term
  deriving DecidableEq, Repr

/-- A message that is acknowledged or terminated never comes back. -/
def Disposition.removes : Disposition → Bool
  | .nak => false
  | _ => true

/-- What `processMessage` does with a message after its handler returned. -/
def processMessage (numDelivered : ℕ) : Except GoError Unit → Disposition
  | .error _ => if numDelivered ≥ defaultMaxDeliver then .term else .nak
  | .ok () => .ack

theorem processMessage_eq_term {numDelivered : ℕ} {result : Except GoError Unit} :
    processMessage numDelivered result = .term ↔
      defaultMaxDeliver ≤ numDelivered ∧ ∃ err, result = .error err := by
  cases result with
  | error err =>
    unfold processMessage
    split_ifs with h <;> simp_all
  | ok u => simp [processMessage]

end Daedalus.Queue
