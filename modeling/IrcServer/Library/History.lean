import IrcServer.Library.Transition
import Mathlib.Data.List.Basic

/-!
# Histories

What can be observed of a run, written down step by step.  `System.record` collects the
observations of a run, oldest first, without a field for them in the state;
`Valid.record_invariant` is the induction rule for what ties a state to the record that
has led to it.

An observation may be filed under a key.  `under k` is what a record has under the key
`k`, in order, and `latest k` the last of it.

Nothing here mentions a particular system.
-/

namespace IrcServer.Library

universe u v w x

namespace System

variable {σ : Type u} {ε : Type v} {α : Type w} (M : System σ ε) (observe : σ → ε → List α)

/-- The observations along a run. -/
def record : σ → List ε → List α
  | _, [] => []
  | s, e :: es => observe s e ++ record (M.step s e) es

@[simp] theorem record_nil (s : σ) : M.record observe s [] = [] := rfl

@[simp] theorem record_cons (s : σ) (e : ε) (es : List ε) :
    M.record observe s (e :: es) = observe s e ++ M.record observe (M.step s e) es := rfl

@[simp] theorem record_append (s : σ) (es fs : List ε) : M.record observe s (es ++ fs) =
    M.record observe s es ++ M.record observe (M.run s es) fs := by
  induction es generalizing s with
  | nil => rfl
  | cons e es ih => rw [List.cons_append, record_cons, ih, record_cons, List.append_assoc, run_cons]

variable {M observe}

/-- The induction rule for invariants of a state and the record that has led to it, from
any record. -/
theorem Valid.record_invariant_from {J : σ → List α → Prop}
    (hstep : ∀ s e l, M.enabled s e → J s l → J (M.step s e) (l ++ observe s e))
    {s : σ} {es : List ε} (hv : M.Valid s es) {l : List α} (hs : J s l) :
    J (M.run s es) (l ++ M.record observe s es) := by
  induction es generalizing s l with
  | nil => simpa using hs
  | cons e es ih =>
      have hrest := ih hv.2 (hstep s e l hv.1 hs)
      rwa [List.append_assoc] at hrest

theorem Valid.record_invariant {J : σ → List α → Prop}
    (hstep : ∀ s e l, M.enabled s e → J s l → J (M.step s e) (l ++ observe s e))
    {s : σ} {es : List ε} (hv : M.Valid s es) (hs : J s []) :
    J (M.run s es) (M.record observe s es) :=
  hv.record_invariant_from hstep hs

end System

/-! ## Records with keys -/

section Under

variable {κ : Type u} {α : Type w} [DecidableEq κ]

/-- What a record has under a key. -/
def under (k : κ) (l : List (κ × α)) : List α :=
  l.filterMap fun e ↦ if e.1 = k then some e.2 else none

@[simp] theorem under_nil (k : κ) : under k ([] : List (κ × α)) = [] := rfl

@[simp] theorem under_append (k : κ) (l m : List (κ × α)) :
    under k (l ++ m) = under k l ++ under k m := List.filterMap_append

@[simp] theorem under_singleton_self (k : κ) (a : α) : under k [(k, a)] = [a] := by
  simp [under]

theorem under_of_forall_ne {k : κ} {l : List (κ × α)} (h : ∀ e ∈ l, e.1 ≠ k) : under k l = [] :=
  List.filterMap_eq_nil_iff.mpr fun e he ↦ if_neg (h e he)

/-- What was filed under a key last, or what was there before. -/
def latest (k : κ) (l : List (κ × α)) (a : α) : α := (under k l).getLastD a

@[simp] theorem latest_nil (k : κ) (a : α) : latest k [] a = a := rfl

theorem latest_concat (k j : κ) (l : List (κ × α)) (a b : α) :
    latest k (l ++ [(j, b)]) a = if j = k then b else latest k l a := by
  rw [latest, under_append]
  by_cases h : j = k
  · rw [h, under_singleton_self, if_pos rfl, List.getLastD_concat]
  · rw [under_of_forall_ne (List.forall_mem_singleton.mpr h), if_neg h, List.append_nil, latest]

end Under

end IrcServer.Library
