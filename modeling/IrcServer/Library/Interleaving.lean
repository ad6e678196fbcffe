import Mathlib.Data.List.Basic

/-!
# Interleavings

Actions on a shared state, each of which involves some parties, and which commute when they
have no party in common.  Two sequences in which every party sees the same actions in the
same order come to the same state (`Independent.foldl_eq`), however the actions that nobody
sees both of are arranged.

Nothing here mentions a particular system.
-/

namespace IrcServer.Library

universe u v w

variable {σ : Type u} {α : Type v} {κ : Type w} [DecidableEq κ]

/-- What a party sees of a sequence of actions. -/
def seenBy (involved : α → List κ) (k : κ) (l : List α) : List α := l.filter (k ∈ involved ·)

section SeenBy

variable {involved : α → List κ} {k : κ} {x : α} {l m p q : List α}

@[simp] theorem seenBy_nil (involved : α → List κ) (k : κ) : seenBy involved k [] = [] := rfl

@[simp] theorem seenBy_append (involved : α → List κ) (k : κ) (l m : List α) :
    seenBy involved k (l ++ m) = seenBy involved k l ++ seenBy involved k m :=
  List.filter_append l m

theorem seenBy_cons_of_mem (h : k ∈ involved x) (l : List α) :
    seenBy involved k (x :: l) = x :: seenBy involved k l :=
  List.filter_cons_of_pos (by simpa using h)

theorem seenBy_cons_of_notMem (h : k ∉ involved x) (l : List α) :
    seenBy involved k (x :: l) = seenBy involved k l :=
  List.filter_cons_of_neg (by simpa using h)

theorem mem_seenBy : x ∈ seenBy involved k l ↔ x ∈ l ∧ k ∈ involved x := by
  simp [seenBy, List.mem_filter]

theorem seenBy_eq_nil_iff : seenBy involved k l = [] ↔ ∀ x ∈ l, k ∉ involved x := by
  simp [seenBy, List.filter_eq_nil_iff]

/-- The first action of one sequence occurs in the other, and what precedes it there has no
party in common with it. -/
theorem exists_append_of_seenBy {k₀ : κ} (hk₀ : k₀ ∈ involved x)
    (h : ∀ k, seenBy involved k (x :: l) = seenBy involved k m) :
    ∃ p q, m = p ++ x :: q ∧ ∀ y ∈ p, (involved x).Disjoint (involved y) := by
  have hfirst := (h k₀).symm.trans (seenBy_cons_of_mem hk₀ l)
  obtain ⟨p, q, rfl, hp, -, -⟩ := List.filter_eq_cons_iff.mp hfirst
  refine ⟨p, q, rfl, fun y hy k hkx hky ↦ ?_⟩
  -- the first action of `p` that `k` sees would have to be `x`, which `k₀` sees
  have hsees := (h k).symm.trans (seenBy_cons_of_mem hkx l)
  rw [seenBy_append] at hsees
  obtain ⟨z, rest, hz⟩ := List.exists_cons_of_ne_nil
    (List.ne_nil_of_mem (mem_seenBy.mpr ⟨hy, hky⟩))
  have hzp : z ∈ p := (mem_seenBy.mp (hz ▸ List.mem_cons_self)).1
  rw [hz, List.cons_append] at hsees
  obtain rfl : z = x := (List.cons.inj hsees).1
  exact hp z hzp (by simpa using hk₀)

/-- Without that action, the sequences look alike still. -/
theorem seenBy_of_append (hp : ∀ y ∈ p, (involved x).Disjoint (involved y))
    (h : seenBy involved k (x :: l) = seenBy involved k (p ++ x :: q)) :
    seenBy involved k l = seenBy involved k (p ++ q) := by
  rw [seenBy_append] at h ⊢
  by_cases hk : k ∈ involved x
  · have hnone : seenBy involved k p = [] := seenBy_eq_nil_iff.mpr fun y hy hky ↦ hp y hy hk hky
    rw [hnone, seenBy_cons_of_mem hk, seenBy_cons_of_mem hk, List.nil_append] at h
    rw [hnone, List.nil_append]
    exact (List.cons.inj h).2
  · rwa [seenBy_cons_of_notMem hk, seenBy_cons_of_notMem hk] at h

end SeenBy

/-- Actions of a kind `A` on states that satisfy `I`: each involves somebody, and two of them
commute unless they involve a party in common. -/
structure Independent (act : σ → α → σ) (involved : α → List κ) (A : α → Prop) (I : σ → Prop) :
    Prop where
  keeps : ∀ s x, A x → I s → I (act s x)
  someone : ∀ x, ∃ k, k ∈ involved x
  comm : ∀ s x y, A x → A y → I s → (involved x).Disjoint (involved y) →
    act (act s x) y = act (act s y) x

namespace Independent

variable {act : σ → α → σ} {involved : α → List κ} {A : α → Prop} {I : σ → Prop}
variable {l m p : List α} {x : α} {s : σ}

omit [DecidableEq κ] in
/-- An action is moved to the front, over actions it has no party in common with. -/
theorem foldl_middle (h : Independent act involved A I) (hs : I s) (hx : A x)
    (hp : ∀ y ∈ p, A y) (hdisj : ∀ y ∈ p, (involved x).Disjoint (involved y)) (q : List α) :
    (p ++ x :: q).foldl act s = (x :: (p ++ q)).foldl act s := by
  induction p generalizing s with
  | nil => rfl
  | cons y p ih =>
      obtain ⟨hy, hp⟩ := List.forall_mem_cons.mp hp
      obtain ⟨hxy, hdisj⟩ := List.forall_mem_cons.mp hdisj
      have hrest := ih (h.keeps s y hy hs) hp hdisj
      simp only [List.cons_append, List.foldl_cons] at hrest ⊢
      rw [hrest, h.comm s x y hx hy hs hxy]

/-- What somebody sees in one sequence is in the other. -/
theorem forall_of_seenBy (h : Independent act involved A I) (hl : ∀ x ∈ l, A x)
    (hsees : ∀ k, seenBy involved k l = seenBy involved k m) : ∀ x ∈ m, A x := by
  intro x hx
  obtain ⟨k, hk⟩ := h.someone x
  have hmem : x ∈ seenBy involved k l := hsees k ▸ mem_seenBy.mpr ⟨hx, hk⟩
  exact hl x (mem_seenBy.mp hmem).1

/-- If every party sees the same actions in the same order, the outcome is the same. -/
theorem foldl_eq (h : Independent act involved A I) (hs : I s) (hl : ∀ x ∈ l, A x)
    (hsees : ∀ k, seenBy involved k l = seenBy involved k m) : l.foldl act s = m.foldl act s := by
  induction l generalizing m s with
  | nil =>
      have hnil : m = [] := by
        refine List.eq_nil_iff_forall_not_mem.mpr fun x hx ↦ ?_
        obtain ⟨k, hk⟩ := h.someone x
        exact seenBy_eq_nil_iff.mp (hsees k).symm x hx hk
      rw [hnil]
  | cons x l ih =>
      have hall := hl
      obtain ⟨hx, hl⟩ := List.forall_mem_cons.mp hl
      obtain ⟨k₀, hk₀⟩ := h.someone x
      obtain ⟨p, q, rfl, hdisj⟩ := exists_append_of_seenBy hk₀ hsees
      have hp := (List.forall_mem_append.mp (h.forall_of_seenBy hall hsees)).1
      rw [h.foldl_middle hs hx hp hdisj q]
      exact ih (h.keeps s x hx hs) hl fun k ↦ seenBy_of_append hdisj (hsees k)

end Independent

end IrcServer.Library
