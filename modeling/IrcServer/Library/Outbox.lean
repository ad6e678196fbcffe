import Mathlib.Data.List.Basic

/-!
# Outboxes

A queue with a record of everything that was put into it and everything that
was taken from it.  Whatever sequence of appends and takes has led to an
`Outbox`, what was taken and what is still waiting make up what was appended.

Nothing here mentions what the elements are.
-/

namespace IrcServer.Library

universe u

/-- What was taken, what is waiting, and what was ever appended. -/
structure Outbox (α : Type u) where
  taken : List α
  waiting : List α
  appended : List α
  /-- Nothing is lost, repeated or out of order. -/
  balanced : taken ++ waiting = appended

namespace Outbox

variable {α : Type u} (q : Outbox α)

/-- The outbox nothing was appended to. -/
def empty : Outbox α := ⟨[], [], [], rfl⟩

def append (xs : List α) : Outbox α where
  taken := q.taken
  waiting := q.waiting ++ xs
  appended := q.appended ++ xs
  balanced := by rw [← List.append_assoc, q.balanced]

/-- Take the first `n` elements, or all there are. -/
def take (n : Nat) : Outbox α where
  taken := q.taken ++ q.waiting.take n
  waiting := q.waiting.drop n
  appended := q.appended
  balanced := by rw [List.append_assoc, List.take_append_drop, q.balanced]

end Outbox

end IrcServer.Library
