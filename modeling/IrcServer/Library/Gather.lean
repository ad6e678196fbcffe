import IrcServer.Library.UnorderedMap
import Mathlib.Algebra.BigOperators.Group.Finset.Basic
import Mathlib.Algebra.BigOperators.Group.Finset.Piecewise
import Mathlib.Algebra.Order.BigOperators.Group.Finset

/-!
# What the entries of a map list

`gather f` is what a function lists of the stored values, in iteration order.  How much that
is can be compared entry by entry (`length_gather_le`): a map lists no more than another one
if under each key it lists no more, but for what one key is allowed to add.
-/

namespace IrcServer.Library

universe u v w

namespace UnorderedMap

variable {κ : Type u} {α : Type v} {β : Type w} [DecidableEq κ]

/-- What a function lists of the stored values. -/
def gather (m : UnorderedMap κ α) (f : α → List β) : List β := m.entries.flatMap fun e ↦ f e.2

/-- How much a function lists of what is stored under a key. -/
def amount (m : UnorderedMap κ α) (f : α → List β) (k : κ) : Nat := ((m.lookup k).elim [] f).length

variable {m n : UnorderedMap κ α} {f : α → List β}

theorem amount_of_lookup {k : κ} {a : α} (h : m.lookup k = some a) :
    m.amount f k = (f a).length := by rw [amount, h, Option.elim_some]

theorem amount_of_notMem {k : κ} (h : k ∉ m) : m.amount f k = 0 := by
  rw [amount, AList.lookup_eq_none.mpr h, Option.elim_none, List.length_nil]

theorem length_gather (m : UnorderedMap κ α) (f : α → List β) :
    (m.gather f).length = ∑ k ∈ m.keys.toFinset, m.amount f k := by
  rw [List.sum_toFinset _ m.keys_nodup, AList.keys, List.keys, List.map_map, gather,
    List.length_flatMap]
  refine congrArg List.sum (List.map_congr_left fun e he ↦ ?_)
  exact (amount_of_lookup (AList.mem_lookup_iff.mpr he)).symm

/-- Under each key the second map lists no more than the first, but for one key, which may
add something. -/
theorem length_gather_le (k₀ : κ) (j : Nat) (h : ∀ k b, n.lookup k = some b → f b = [] ∨
      ∃ a, m.lookup k = some a ∧ (f b).length ≤ (f a).length + if k = k₀ then j else 0) :
    (n.gather f).length ≤ (m.gather f).length + j := by
  have hkey (k : κ) : n.amount f k ≤ m.amount f k + if k = k₀ then j else 0 := by
    cases hn : n.lookup k with
    | none =>
        rw [amount_of_notMem (AList.lookup_eq_none.mp hn)]
        exact Nat.zero_le _
    | some b =>
        rw [amount_of_lookup hn]
        rcases h k b hn with hnil | ⟨a, ha, hle⟩
        · rw [hnil]
          exact Nat.zero_le _
        · rwa [amount_of_lookup ha]
  have hfirst : ∑ k ∈ n.keys.toFinset, m.amount f k ≤ ∑ k ∈ m.keys.toFinset, m.amount f k := by
    refine Finset.sum_le_sum_of_ne_zero fun k _ hk ↦ List.mem_toFinset.mpr ?_
    by_contra hmem
    exact hk (amount_of_notMem fun hm ↦ hmem (AList.mem_keys.mp hm))
  have hadded : (∑ k ∈ n.keys.toFinset, if k = k₀ then j else 0) ≤ j := by
    rw [Finset.sum_ite_eq']
    split
    · exact Nat.le_refl j
    · exact Nat.zero_le j
  calc (n.gather f).length
      = ∑ k ∈ n.keys.toFinset, n.amount f k := length_gather n f
    _ ≤ ∑ k ∈ n.keys.toFinset, (m.amount f k + if k = k₀ then j else 0) :=
        Finset.sum_le_sum fun k _ ↦ hkey k
    _ ≤ (m.gather f).length + j := by
        rw [Finset.sum_add_distrib, length_gather m f]
        exact Nat.add_le_add hfirst hadded

end UnorderedMap

end IrcServer.Library
