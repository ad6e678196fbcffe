import Mathlib.Data.List.Infix
import Mathlib.Tactic.TypeStar

/-!
# Guarded transition systems

A `System` is a total step function together with a guard saying which events
may happen in which state.  A *run* is a list of events; the guard is not baked
into the step function, so that runs can be evaluated without proofs and the
same run can be asked several questions.

* `Along P s es` says that `P` holds of every step of the run `es` from `s`;
  a run is `Valid` when its guard holds along it.
* `Valid.invariant` is the induction rule for invariants, `Valid.invariant_along`
  the one for runs whose steps satisfy a condition; where the condition is also
  necessary, `Valid.forall_isPrefix_iff` says so of whole runs.
* `Simulation` relates two systems by a function on states that commutes with
  the steps, a step of the upper system being allowed to have no counterpart
  below; `Simulation.invariant` carries invariants back.

Nothing here mentions a particular system.
-/

namespace IrcServer.Library

universe u v w x

/-- A step function and the guard that says when an event may happen. -/
structure System (σ : Type u) (ε : Type v) where
  /-- Whether the event may happen in the state. -/
  enabled : σ → ε → Prop
  /-- The state after the event. -/
  step : σ → ε → σ

namespace System

variable {σ : Type u} {ε : Type v} (M : System σ ε)

/-- The state at the end of a run. -/
def run (s : σ) (es : List ε) : σ := es.foldl M.step s

@[simp] theorem run_nil (s : σ) : M.run s [] = s := rfl

@[simp] theorem run_cons (s : σ) (e : ε) (es : List ε) :
    M.run s (e :: es) = M.run (M.step s e) es := rfl

@[simp] theorem run_append (s : σ) (es fs : List ε) :
    M.run s (es ++ fs) = M.run (M.run s es) fs := List.foldl_append

/-- `P` holds of every step of the run: of the state before the step and the
event. -/
def Along (P : σ → ε → Prop) : σ → List ε → Prop
  | _, [] => True
  | s, e :: es => P s e ∧ Along P (M.step s e) es

variable {M}

@[simp] theorem along_nil {P : σ → ε → Prop} {s : σ} : M.Along P s [] := trivial

@[simp] theorem along_cons {P : σ → ε → Prop} {s : σ} {e : ε} {es : List ε} :
    M.Along P s (e :: es) ↔ P s e ∧ M.Along P (M.step s e) es := Iff.rfl

@[simp] theorem along_append {P : σ → ε → Prop} {s : σ} {es fs : List ε} :
    M.Along P s (es ++ fs) ↔ M.Along P s es ∧ M.Along P (M.run s es) fs := by
  induction es generalizing s with
  | nil => simp
  | cons e es ih => simp [ih, and_assoc]

instance Along.decidable {P : σ → ε → Prop} [∀ s e, Decidable (P s e)] :
    ∀ (s : σ) (es : List ε), Decidable (M.Along P s es)
  | _, [] => isTrue trivial
  | s, e :: es => @instDecidableAnd _ _ _ (Along.decidable (M.step s e) es)

/-- `Along` in terms of the prefixes of the run. -/
theorem along_iff {P : σ → ε → Prop} {s : σ} {es : List ε} :
    M.Along P s es ↔ ∀ pre e, pre ++ [e] <+: es → P (M.run s pre) e := by
  constructor
  · rintro h pre e ⟨post, rfl⟩
    simp only [along_append, along_cons] at h
    exact h.1.2.1
  · intro h
    induction es generalizing s with
    | nil => trivial
    | cons e es ih =>
        refine ⟨h [] e ⟨es, rfl⟩, ih fun pre f hpre ↦ ?_⟩
        exact h (e :: pre) f (by simpa using hpre)

theorem along_of_forall_mem {P : σ → ε → Prop} {s : σ} {es : List ε}
    (h : ∀ e ∈ es, ∀ t, P t e) : M.Along P s es := by
  induction es generalizing s with
  | nil => trivial
  | cons e es ih =>
      exact ⟨h e List.mem_cons_self s, ih fun f hf ↦ h f (List.mem_cons_of_mem e hf)⟩

theorem Along.of_isPrefix {P : σ → ε → Prop} {s : σ} {pre es : List ε} (h : M.Along P s es)
    (hpre : pre <+: es) : M.Along P s pre := by
  obtain ⟨post, rfl⟩ := hpre
  exact (along_append.mp h).1

/-- The middle of a run is a run from where it starts. -/
theorem Along.of_middle {P : σ → ε → Prop} {s : σ} {pre mid es : List ε} (h : M.Along P s es)
    (hmid : pre ++ mid <+: es) : M.Along P (M.run s pre) mid :=
  (along_append.mp (h.of_isPrefix hmid)).2

/-- A run is valid when every event of it may happen where it does. -/
abbrev Valid (M : System σ ε) (s : σ) (es : List ε) : Prop := M.Along M.enabled s es

/-- The induction rule for invariants. -/
theorem Valid.invariant {I : σ → Prop} (hstep : ∀ s e, M.enabled s e → I s → I (M.step s e))
    {s : σ} {es : List ε} (hv : M.Valid s es) (hs : I s) : I (M.run s es) := by
  induction es generalizing s with
  | nil => exact hs
  | cons e es ih => exact ih hv.2 (hstep s e hv.1 hs)

/-- An invariant that only the steps satisfying `P` preserve holds at the end of
every run all of whose steps satisfy `P`. -/
theorem Valid.invariant_along {I : σ → Prop} {P : σ → ε → Prop}
    (hstep : ∀ s e, M.enabled s e → P s e → I s → I (M.step s e))
    {s : σ} {es : List ε} (hv : M.Valid s es) (hP : M.Along P s es) (hs : I s) :
    I (M.run s es) := by
  induction es generalizing s with
  | nil => exact hs
  | cons e es ih => exact ih hv.2 hP.2 (hstep s e hv.1 hP.1 hs)

/-- Where a step keeps the invariant exactly when it satisfies `P`, the invariant holds
in every state of a run exactly when every step of the run satisfies `P`. -/
theorem Valid.forall_isPrefix_iff {I : σ → Prop} {P : σ → ε → Prop}
    (hstep : ∀ s e, M.enabled s e → I s → (I (M.step s e) ↔ P s e))
    {s : σ} {es : List ε} (hv : M.Valid s es) (hs : I s) :
    (∀ pre, pre <+: es → I (M.run s pre)) ↔ M.Along P s es := by
  constructor
  · intro h
    induction es generalizing s with
    | nil => trivial
    | cons e es ih =>
        have hfirst : I (M.step s e) := h [e] ⟨es, rfl⟩
        refine ⟨(hstep s e hv.1 hs).mp hfirst, ih hv.2 hfirst fun pre hpre ↦ ?_⟩
        exact h (e :: pre) (by simpa using hpre)
  · intro hP pre hpre
    have hvpre : M.Valid s pre := hv.of_isPrefix hpre
    exact hvpre.invariant_along (fun s e he hp hI ↦ (hstep s e he hI).mpr hp)
      (hP.of_isPrefix hpre) hs

end System

/-- A function on states under which every step of the upper system is either a
step of the lower one or no step at all. -/
structure Simulation {σ : Type u} {ε : Type v} {τ : Type w} {δ : Type x}
    (M : System σ ε) (N : System τ δ) where
  /-- The lower state an upper state stands for. -/
  abs : σ → τ
  /-- The lower event an upper step amounts to. -/
  label : σ → ε → Option δ
  enabled : ∀ s e, M.enabled s e → ∀ d ∈ label s e, N.enabled (abs s) d
  commutes : ∀ s e, M.enabled s e → abs (M.step s e) = (label s e).elim (abs s) (N.step (abs s))

namespace Simulation

variable {σ : Type u} {ε : Type v} {τ : Type w} {δ : Type x}
variable {M : System σ ε} {N : System τ δ}

/-- Every run of the upper system is, seen through the abstraction, a run of the
lower one. -/
theorem exists_run (S : Simulation M N) {s : σ} {es : List ε} (hv : M.Valid s es) :
    ∃ ds, N.Valid (S.abs s) ds ∧ N.run (S.abs s) ds = S.abs (M.run s es) := by
  induction es generalizing s with
  | nil => exact ⟨[], trivial, rfl⟩
  | cons e es ih =>
      obtain ⟨ds, hds, hrun⟩ := ih hv.2
      have hc := S.commutes s e hv.1
      cases hl : S.label s e with
      | none =>
          rw [hl] at hc
          exact ⟨ds, by rwa [← show S.abs (M.step s e) = S.abs s from hc],
            by rw [← show S.abs (M.step s e) = S.abs s from hc, hrun, System.run_cons]⟩
      | some d =>
          rw [hl] at hc
          have hd : S.abs (M.step s e) = N.step (S.abs s) d := hc
          refine ⟨d :: ds, ⟨S.enabled s e hv.1 d hl, by rwa [← hd]⟩, ?_⟩
          rw [System.run_cons, ← hd, hrun, System.run_cons]

/-- Invariants of the lower system hold of the upper one. -/
theorem invariant (S : Simulation M N) {J : τ → Prop}
    (hstep : ∀ t d, N.enabled t d → J t → J (N.step t d))
    {s : σ} {es : List ε} (hv : M.Valid s es) (hs : J (S.abs s)) : J (S.abs (M.run s es)) := by
  obtain ⟨ds, hds, hrun⟩ := S.exists_run hv
  exact hrun ▸ hds.invariant hstep hs

end Simulation

end IrcServer.Library
