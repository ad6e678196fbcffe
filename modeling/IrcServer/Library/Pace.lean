import IrcServer.Library.Transition
import Mathlib.Data.List.Count

/-!
# Paces

An invariant with a counter: some events advance the counter, the others leave it alone, and
all of them may rely on what is assumed of the steps of the run.  Where it holds with one
value of the counter, it holds after a run with as many more as there were such events
(`Pace.run`).

Nothing here mentions a particular system.
-/

namespace IrcServer.Library

universe u v

variable {σ : Type u} {ε : Type v}

/-- A counter that the ticks of a system advance. -/
structure Pace (M : System σ ε) (assumes : σ → ε → Prop) (ticks : ε → Bool) where
  /-- What holds of a state for a value of the counter. -/
  holds : Nat → σ → Prop
  keeps : ∀ k s e, M.enabled s e → assumes s e → ticks e = false → holds k s →
    holds k (M.step s e)
  advances : ∀ k s e, M.enabled s e → assumes s e → ticks e = true → holds k s →
    holds (k + 1) (M.step s e)

namespace Pace

variable {M : System σ ε} {assumes : σ → ε → Prop} {ticks : ε → Bool}

theorem run (P : Pace M assumes ticks) {k : Nat} {s : σ} {es : List ε} (hv : M.Valid s es)
    (ha : M.Along assumes s es) (hs : P.holds k s) :
    P.holds (k + es.countP ticks) (M.run s es) := by
  induction es generalizing k s with
  | nil => exact hs
  | cons e es ih =>
      cases he : ticks e with
      | false =>
          rw [List.countP_cons_of_neg (by simp [he])]
          exact ih hv.2 ha.2 (P.keeps k s e hv.1 ha.1 he hs)
      | true =>
          rw [List.countP_cons_of_pos he, ← Nat.add_assoc, Nat.add_right_comm]
          exact ih hv.2 ha.2 (P.advances k s e hv.1 ha.1 he hs)

end Pace

end IrcServer.Library
