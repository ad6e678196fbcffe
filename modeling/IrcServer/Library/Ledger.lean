import IrcServer.Library.Transition
import Mathlib.Data.Finset.Basic
import Mathlib.Data.List.Count

/-!
# Ledgers

What a program opens and closes, written down call by call.  A ledger is a guarded
system whose state is the set of what is open: only what is not open can be opened,
and only what is open can be closed.  So a list of calls is sound when it is a valid
run, and a sound list closes everything exactly as often as it opens it, but for what
is still open (`Valid.count_opened`).

Nothing here mentions what the handles are.
-/

namespace IrcServer.Library

universe u

/-- A handle is handed out, or given back. -/
inductive Call (α : Type u) where
  | opened (a : α)
  | closed (a : α)
deriving DecidableEq

variable {α : Type u} [DecidableEq α]

namespace Call

def enabled (s : Finset α) : Call α → Prop
  | opened a => a ∉ s
  | closed a => a ∈ s

instance (s : Finset α) : (c : Call α) → Decidable (c.enabled s)
  | opened a => inferInstanceAs (Decidable (a ∉ s))
  | closed a => inferInstanceAs (Decidable (a ∈ s))

def step (s : Finset α) : Call α → Finset α
  | opened a => insert a s
  | closed a => s.erase a

end Call

/-- The set of what is open. -/
def ledger : System (Finset α) (Call α) where
  enabled := Call.enabled
  step := Call.step

namespace Ledger

/-- What is open after the calls. -/
def live (cs : List (Call α)) : Finset α := ledger.run ∅ cs

/-- Nothing is opened twice, and nothing is closed that is not open. -/
def Sound (cs : List (Call α)) : Prop := ledger.Valid ∅ cs

variable {s : Finset α} {cs ds : List (Call α)} {a : α}

@[simp] theorem live_nil : live ([] : List (Call α)) = ∅ := rfl

theorem live_append : live (cs ++ ds) = ledger.run (live cs) ds := System.run_append ..

@[simp] theorem sound_nil : Sound ([] : List (Call α)) := trivial

theorem sound_append : Sound (cs ++ ds) ↔ Sound cs ∧ ledger.Valid (live cs) ds :=
  System.along_append

/-! ## Opening and closing -/

@[simp] theorem live_opened : live (cs ++ [.opened a]) = insert a (live cs) := live_append

@[simp] theorem live_closed : live (cs ++ [.closed a]) = (live cs).erase a := live_append

theorem sound_opened : Sound (cs ++ [.opened a]) ↔ Sound cs ∧ a ∉ live cs :=
  sound_append.trans (and_congr_right' (and_iff_left trivial))

/-- What is opened and closed at once leaves no trace. -/
theorem opened_closed (h : a ∉ s) :
    ledger.Valid s [.opened a, .closed a] ∧ ledger.run s [.opened a, .closed a] = s :=
  ⟨⟨h, Finset.mem_insert_self a s, trivial⟩, Finset.erase_insert h⟩

/-- To close distinct handles that are open. -/
theorem closed_all {as : List α} (hnodup : as.Nodup) (hopen : ∀ a ∈ as, a ∈ s) :
    ledger.Valid s (as.map .closed) ∧
      ∀ b, b ∈ ledger.run s (as.map .closed) ↔ b ∈ s ∧ b ∉ as := by
  induction as generalizing s with
  | nil => exact ⟨trivial, fun b ↦ by simp⟩
  | cons a as ih =>
      obtain ⟨hne, hnodup⟩ := List.nodup_cons.mp hnodup
      have hrest : ∀ b ∈ as, b ∈ s.erase a := fun b hb ↦
        Finset.mem_erase.mpr ⟨fun he ↦ hne (he ▸ hb), hopen b (List.mem_cons_of_mem a hb)⟩
      obtain ⟨hv, hlive⟩ := ih hnodup hrest
      refine ⟨⟨hopen a List.mem_cons_self, hv⟩, fun b ↦ ?_⟩
      have hb := hlive b
      rw [Finset.mem_erase] at hb
      rw [List.map_cons, System.run_cons, List.mem_cons, not_or, ← and_assoc,
        and_comm (a := b ∈ s)]
      exact hb

/-! ## Conservation -/

/-- How often a handle is open. -/
def openings (s : Finset α) (a : α) : Nat := if a ∈ s then 1 else 0

theorem openings_of_mem (h : a ∈ s) : openings s a = 1 := if_pos h

theorem openings_of_notMem (h : a ∉ s) : openings s a = 0 := if_neg h

/-- One call and one handle. -/
theorem openings_step {c : Call α} (h : ledger.enabled s c) (a : α) :
    [c].count (.opened a) + openings s a =
      [c].count (.closed a) + openings (ledger.step s c) a := by
  cases c with
  | opened b =>
      by_cases hab : a = b
      · subst hab
        rw [openings_of_notMem h, openings_of_mem (s := ledger.step s (.opened a))
          (Finset.mem_insert_self a s)]
        simp
      · have hsame : openings (ledger.step s (.opened b)) a = openings s a :=
          if_congr (Finset.mem_insert.trans (or_iff_right hab)) rfl rfl
        simp [hsame, Ne.symm hab]
  | closed b =>
      by_cases hab : a = b
      · subst hab
        rw [openings_of_mem h, openings_of_notMem (s := ledger.step s (.closed a))
          (Finset.notMem_erase a s)]
        simp
      · have hsame : openings (ledger.step s (.closed b)) a = openings s a :=
          if_congr (Finset.mem_erase.trans (and_iff_right hab)) rfl rfl
        simp [hsame, Ne.symm hab]

/-- A handle was opened as often as it was closed, and once more if it is open. -/
theorem count_opened (hv : ledger.Valid s cs) (a : α) :
    cs.count (.opened a) + openings s a =
      cs.count (.closed a) + openings (ledger.run s cs) a := by
  induction cs generalizing s with
  | nil => rfl
  | cons c cs ih =>
      have hfirst := openings_step hv.1 a
      have hrest := ih hv.2
      rw [← List.singleton_append, List.count_append, List.count_append, List.singleton_append,
        System.run_cons]
      omega

/-- What is not open any more was closed as often as it was opened. -/
theorem count_closed_of_notMem (h : Sound cs) (ha : a ∉ live cs) :
    cs.count (.opened a) = cs.count (.closed a) := by
  have hcount := count_opened h a
  rw [openings_of_notMem (Finset.notMem_empty a)] at hcount
  exact hcount.trans (congrArg (cs.count (.closed a) + ·) (openings_of_notMem ha))

end Ledger

end IrcServer.Library
