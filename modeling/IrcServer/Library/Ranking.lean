import IrcServer.Library.Transition
import Mathlib.Data.List.Count

/-!
# Rankings

A number that the events that count decrease, and that no event increases, bounds how
often such events can still happen (`Ranking.countP_le`).  Where in addition one of them
can happen in every state that is not final, a final state can be reached
(`Ranking.exists_run`).

Nothing here mentions a particular system.
-/

namespace IrcServer.Library

universe u v

variable {σ : Type u} {ε : Type v}

/-- A rank of the states that satisfy an invariant. -/
structure Ranking (M : System σ ε) where
  /-- The states that are ranked. -/
  ranked : σ → Prop
  /-- The events that count. -/
  counts : ε → Bool
  rank : σ → Nat
  invariant : ∀ s e, M.enabled s e → ranked s → ranked (M.step s e)
  decreases : ∀ s e, M.enabled s e → ranked s → counts e = true → rank (M.step s e) < rank s
  keeps : ∀ s e, M.enabled s e → ranked s → counts e = false → rank (M.step s e) ≤ rank s

namespace Ranking

variable {M : System σ ε} (R : Ranking M) {s : σ} {es : List ε}

/-- One event, counted. -/
theorem count_step {e : ε} (he : M.enabled s e) (hs : R.ranked s) :
    [e].countP R.counts + R.rank (M.step s e) ≤ R.rank s := by
  cases hc : R.counts e with
  | true =>
      have hlt := R.decreases s e he hs hc
      rw [List.countP_cons_of_pos hc, List.countP_nil]
      omega
  | false =>
      have hle := R.keeps s e he hs hc
      rw [List.countP_cons_of_neg (by simp [hc]), List.countP_nil]
      omega

/-- No run has more events that count than the rank it starts with. -/
theorem countP_le (hv : M.Valid s es) (hs : R.ranked s) :
    es.countP R.counts + R.rank (M.run s es) ≤ R.rank s := by
  induction es generalizing s with
  | nil => simp
  | cons e es ih =>
      have hfirst := R.count_step hv.1 hs
      have hrest := ih hv.2 (R.invariant s e hv.1 hs)
      rw [← List.singleton_append, List.countP_append, List.singleton_append, System.run_cons]
      omega

/-- Where something that counts can happen until a state is final, a final state can be
reached. -/
theorem exists_run {final : σ → Prop}
    (hprogress : ∀ s, R.ranked s → ¬ final s → ∃ e, M.enabled s e ∧ R.counts e = true)
    (hs : R.ranked s) : ∃ es, M.Valid s es ∧ final (M.run s es) := by
  induction hn : R.rank s using Nat.strong_induction_on generalizing s with
  | h n ih =>
      by_cases hfinal : final s
      · exact ⟨[], trivial, hfinal⟩
      · obtain ⟨e, he, hc⟩ := hprogress s hs hfinal
        have hlt : R.rank (M.step s e) < n := hn ▸ R.decreases s e he hs hc
        obtain ⟨es, hv, hrun⟩ := ih _ hlt (R.invariant s e he hs) rfl
        exact ⟨e :: es, ⟨he, hv⟩, hrun⟩

end Ranking

end IrcServer.Library
