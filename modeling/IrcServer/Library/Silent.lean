import IrcServer.Library.Transition

/-!
# Events that leave no trace

Some events change a part of the state that nothing else depends on.  A relation that holds
between a state and what it would have been without them (`Silent`) shows that they can be
left out of every run: what is left is a run, and it ends in a related state.
-/

namespace IrcServer.Library

universe u v

/-- The relation outlives the silent events on its left, and every other event on both
sides. -/
structure Silent {σ : Type u} {ε : Type v} (M : System σ ε) (silent : ε → Bool)
    (R : σ → σ → Prop) : Prop where
  drop : ∀ s t e, R s t → M.enabled s e → silent e = true → R (M.step s e) t
  enabled : ∀ s t e, R s t → M.enabled s e → silent e = false → M.enabled t e
  step : ∀ s t e, R s t → M.enabled s e → silent e = false → R (M.step s e) (M.step t e)

namespace Silent

variable {σ : Type u} {ε : Type v} {M : System σ ε} {silent : ε → Bool} {R : σ → σ → Prop}

/-- A run without its silent events is a run, and ends in a related state. -/
theorem run (h : Silent M silent R) {s t : σ} {es : List ε} (hst : R s t) (hv : M.Valid s es) :
    M.Valid t (es.filter (!silent ·)) ∧
      R (M.run s es) (M.run t (es.filter (!silent ·))) := by
  induction es generalizing s t with
  | nil => exact ⟨trivial, hst⟩
  | cons e es ih =>
      cases he : silent e with
      | true =>
          rw [List.filter_cons_of_neg (by simp [he])]
          exact ih (h.drop s t e hst hv.1 he) hv.2
      | false =>
          rw [List.filter_cons_of_pos (by simp [he])]
          obtain ⟨hrest, hrun⟩ := ih (h.step s t e hst hv.1 he) hv.2
          exact ⟨⟨h.enabled s t e hst hv.1 he, hrest⟩, hrun⟩

end Silent

end IrcServer.Library
