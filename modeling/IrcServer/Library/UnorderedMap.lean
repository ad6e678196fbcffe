import Mathlib.Data.List.AList

/-!
# Unordered containers with an iteration order

A hash map is an association list with distinct keys whose order is the order in
which an iterator visits the entries.  The order is part of the value, because a
program that takes the first match of a scan depends on it; a result that does
not is one that is stable under `List.Perm` of the entries.

`AList` supplies lookup, insertion and erasure.  This file adds what a C++
`unordered_map` does besides: `emplace` keeps an entry that is already there,
`modify` writes through a reference to a stored value, `any` and `findFirst` scan
in iteration order.  `UnorderedSet` is the corresponding set.
-/

namespace IrcServer.Library

universe u v

/-- A map with distinct keys, its entries listed in iteration order. -/
abbrev UnorderedMap (κ : Type u) (α : Type v) : Type (max u v) := AList fun _ : κ ↦ α

namespace UnorderedMap

variable {κ : Type u} {α : Type v} [DecidableEq κ]

/-- Insertion that leaves an entry already stored under the key alone. -/
def emplace (m : UnorderedMap κ α) (k : κ) (a : α) : UnorderedMap κ α :=
  if k ∈ m then m else AList.insert k a m

/-- Assignment through a reference to the value stored under `k`. -/
def modify (m : UnorderedMap κ α) (k : κ) (f : α → α) : UnorderedMap κ α where
  entries := m.entries.map (Sigma.map id fun i a ↦ if i = k then f a else a)
  nodupKeys := m.nodupKeys.map₂ fun i a ↦ if i = k then f a else a

/-- Whether some stored value satisfies `p`. -/
def any (m : UnorderedMap κ α) (p : α → Bool) : Bool := m.entries.any fun e ↦ p e.2

/-- The key of the first entry, in iteration order, whose value satisfies `p`. -/
def findFirst (m : UnorderedMap κ α) (p : α → Bool) : Option κ :=
  (m.entries.find? fun e ↦ p e.2).map Sigma.fst

variable {m : UnorderedMap κ α}

theorem mem_iff_lookup {k : κ} : k ∈ m ↔ ∃ a, m.lookup k = some a := by
  rw [← AList.lookup_isSome, Option.isSome_iff_exists]

theorem lookup_emplace_self {k : κ} {a : α} (h : k ∉ m) : (m.emplace k a).lookup k = some a := by
  rw [emplace, if_neg h, AList.lookup_insert]

theorem lookup_emplace_of_ne {k j : κ} {a : α} (h : j ≠ k) :
    (m.emplace k a).lookup j = m.lookup j := by
  unfold emplace
  split
  · rfl
  · exact AList.lookup_insert_ne h

@[simp] theorem mem_emplace {k j : κ} {a : α} : j ∈ m.emplace k a ↔ j = k ∨ j ∈ m := by
  unfold emplace
  split
  · rename_i h
    exact ⟨Or.inr, fun hj ↦ hj.elim (fun e ↦ e ▸ h) id⟩
  · exact AList.mem_insert m

theorem lookup_modify (k j : κ) (f : α → α) :
    (m.modify k f).lookup j = if j = k then (m.lookup j).map f else m.lookup j := by
  have h : (m.modify k f).lookup j = (m.lookup j).map fun a ↦ if j = k then f a else a :=
    List.dlookup_map₂ j
  rw [h]
  split <;> simp

@[simp] theorem lookup_modify_self (k : κ) (f : α → α) :
    (m.modify k f).lookup k = (m.lookup k).map f := by rw [lookup_modify, if_pos rfl]

theorem lookup_modify_of_ne {k j : κ} (h : j ≠ k) (f : α → α) :
    (m.modify k f).lookup j = m.lookup j := by rw [lookup_modify, if_neg h]

@[simp] theorem keys_modify (k : κ) (f : α → α) : (m.modify k f).keys = m.keys :=
  List.map₂_keys _ _

@[simp] theorem mem_modify {k j : κ} (f : α → α) : j ∈ m.modify k f ↔ j ∈ m := by
  rw [AList.mem_keys, AList.mem_keys, keys_modify]

theorem modify_modify (k : κ) (f g : α → α) :
    (m.modify k f).modify k g = m.modify k fun a ↦ g (f a) := by
  apply AList.ext
  simp only [modify, List.map_map]
  apply List.map_congr_left
  intro e _
  obtain ⟨j, a⟩ := e
  by_cases h : j = k <;> simp [Sigma.map, h]

/-- Writes under different keys do not interfere. -/
theorem modify_comm {j k : κ} (h : j ≠ k) (f g : α → α) :
    (m.modify j f).modify k g = (m.modify k g).modify j f := by
  apply AList.ext
  simp only [modify, List.map_map]
  apply List.map_congr_left
  intro e _
  obtain ⟨i, a⟩ := e
  by_cases hj : i = j
  · subst hj
    simp [Sigma.map, h]
  · simp [Sigma.map, hj]

theorem modify_id (k : κ) : m.modify k id = m := by
  apply AList.ext
  have h : (Sigma.map id fun (i : κ) (a : α) ↦ if i = k then id a else a) = id := by
    funext e
    simp [Sigma.map]
  simp only [modify, h, List.map_id]

/-- Only the value stored under the key is asked of the function written. -/
theorem modify_congr {k : κ} {f g : α → α} (h : ∀ a, m.lookup k = some a → f a = g a) :
    m.modify k f = m.modify k g := by
  apply AList.ext
  apply List.map_congr_left
  intro e he
  obtain ⟨j, a⟩ := e
  by_cases hj : j = k
  · subst hj
    simp [Sigma.map, h a (AList.mem_lookup_iff.mpr he)]
  · simp [Sigma.map, hj]

theorem any_eq_true_iff {p : α → Bool} :
    m.any p = true ↔ ∃ k a, m.lookup k = some a ∧ p a = true := by
  simp only [any, List.any_eq_true]
  constructor
  · rintro ⟨⟨k, a⟩, he, hp⟩
    exact ⟨k, a, AList.mem_lookup_iff.mpr he, hp⟩
  · rintro ⟨k, a, hk, hp⟩
    exact ⟨⟨k, a⟩, AList.mem_lookup_iff.mp hk, hp⟩

theorem any_eq_false_iff {p : α → Bool} :
    m.any p = false ↔ ∀ k a, m.lookup k = some a → p a = false := by
  rw [← Bool.not_eq_true, any_eq_true_iff]
  simp only [not_exists, not_and, Bool.not_eq_true]

/-- A scan for something a write does not change does not see the write. -/
theorem any_modify {p : α → Bool} {f : α → α} (hf : ∀ a, p (f a) = p a) (k : κ) :
    (m.modify k f).any p = m.any p := by
  simp only [any, modify, List.any_map]
  apply congrArg (m.entries.any ·)
  funext e
  simp only [Function.comp_apply, Sigma.map]
  split
  · exact hf e.2
  · rfl

theorem findFirst_modify {p : α → Bool} {f : α → α} (hf : ∀ a, p (f a) = p a) (k : κ) :
    (m.modify k f).findFirst p = m.findFirst p := by
  simp only [findFirst, modify, List.find?_map, Option.map_map]
  have hp : (fun e : Sigma fun _ : κ ↦ α ↦ p e.2) ∘
      Sigma.map id (fun i a ↦ if i = k then f a else a) = fun e ↦ p e.2 := by
    funext e
    simp only [Function.comp_apply, Sigma.map]
    split
    · exact hf e.2
    · rfl
  rw [hp]
  rfl

theorem findFirst_eq_some {p : α → Bool} {k : κ} (h : m.findFirst p = some k) :
    ∃ a, m.lookup k = some a ∧ p a = true := by
  simp only [findFirst, Option.map_eq_some_iff] at h
  obtain ⟨⟨j, a⟩, he, rfl⟩ := h
  have hp := List.find?_some he
  exact ⟨a, AList.mem_lookup_iff.mpr (List.mem_of_find?_eq_some he), hp⟩

theorem findFirst_eq_none_iff {p : α → Bool} :
    m.findFirst p = none ↔ ∀ k a, m.lookup k = some a → p a = false := by
  simp only [findFirst, Option.map_eq_none_iff, List.find?_eq_none, Bool.not_eq_true]
  constructor
  · exact fun h k a hk ↦ h ⟨k, a⟩ (AList.mem_lookup_iff.mp hk)
  · exact fun h ⟨k, a⟩ he ↦ h k a (AList.mem_lookup_iff.mpr he)

/-- When at most one stored value satisfies `p`, the scan finds it in any order. -/
theorem findFirst_eq_some_iff_of_unique {p : α → Bool}
    (huniq : ∀ j k a b, m.lookup j = some a → m.lookup k = some b →
      p a = true → p b = true → j = k) {k : κ} :
    m.findFirst p = some k ↔ ∃ a, m.lookup k = some a ∧ p a = true := by
  refine ⟨findFirst_eq_some, fun ⟨a, hk, hp⟩ ↦ ?_⟩
  cases hf : m.findFirst p with
  | none => exact absurd (findFirst_eq_none_iff.mp hf k a hk) (by simp [hp])
  | some j =>
      obtain ⟨b, hj, hq⟩ := findFirst_eq_some hf
      exact congrArg some (huniq j k b a hj hk hq hp)

theorem findFirst_eq_of_perm {p : α → Bool} {n : UnorderedMap κ α}
    (hperm : n.entries.Perm m.entries)
    (huniq : ∀ j k a b, m.lookup j = some a → m.lookup k = some b →
      p a = true → p b = true → j = k) : n.findFirst p = m.findFirst p := by
  have hl : ∀ k, n.lookup k = m.lookup k := fun k ↦ AList.perm_lookup hperm
  have huniq' : ∀ j k a b, n.lookup j = some a → n.lookup k = some b →
      p a = true → p b = true → j = k := fun j k a b hj hk ↦
    huniq j k a b (hl j ▸ hj) (hl k ▸ hk)
  apply Option.ext
  intro k
  rw [findFirst_eq_some_iff_of_unique huniq', findFirst_eq_some_iff_of_unique huniq, hl k]

/-! ### Writing to every entry -/

/-- Every stored value is replaced by what the function makes of it and of its key. -/
def assign (m : UnorderedMap κ α) (f : κ → α → α) : UnorderedMap κ α where
  entries := m.entries.map (Sigma.map id f)
  nodupKeys := m.nodupKeys.map₂ f

theorem modify_eq_assign (k : κ) (f : α → α) :
    m.modify k f = m.assign fun i a ↦ if i = k then f a else a := rfl

theorem lookup_assign (f : κ → α → α) (k : κ) : (m.assign f).lookup k = (m.lookup k).map (f k) :=
  List.dlookup_map₂ k

omit [DecidableEq κ] in
theorem assign_assign (f g : κ → α → α) :
    (m.assign f).assign g = m.assign fun k a ↦ g k (f k a) := by
  apply AList.ext
  simp only [assign, List.map_map]
  rfl

theorem assign_congr {f g : κ → α → α} (h : ∀ k a, m.lookup k = some a → f k a = g k a) :
    m.assign f = m.assign g := by
  apply AList.ext
  apply List.map_congr_left
  intro e he
  exact congrArg (Sigma.mk e.1) (h e.1 e.2 (AList.mem_lookup_iff.mpr he))

theorem assign_eq_self {f : κ → α → α} (h : ∀ k a, m.lookup k = some a → f k a = a) :
    m.assign f = m := by
  rw [assign_congr (g := fun _ a ↦ a) h]
  apply AList.ext
  exact List.map_id m.entries

omit [DecidableEq κ] in
theorem any_assign {p : α → Bool} {f : κ → α → α} (hf : ∀ k a, p (f k a) = p a) :
    (m.assign f).any p = m.any p := by
  simp only [any, assign, List.any_map]
  exact congrArg (m.entries.any ·) (funext fun e ↦ hf e.1 e.2)

omit [DecidableEq κ] in
theorem findFirst_assign {p : α → Bool} {f : κ → α → α} (hf : ∀ k a, p (f k a) = p a) :
    (m.assign f).findFirst p = m.findFirst p := by
  have hp : (fun e : Sigma fun _ : κ ↦ α ↦ p e.2) ∘ Sigma.map id f = fun e ↦ p e.2 :=
    funext fun e ↦ hf e.1 e.2
  simp only [findFirst, assign, List.find?_map, Option.map_map, hp]
  rfl

end UnorderedMap

/-- A set whose elements are listed in iteration order. -/
@[ext] structure UnorderedSet (α : Type u) where
  /-- The elements, in iteration order. -/
  elems : List α
  nodup : elems.Nodup

namespace UnorderedSet

variable {α : Type u}

instance : EmptyCollection (UnorderedSet α) := ⟨⟨[], List.nodup_nil⟩⟩

instance : Membership α (UnorderedSet α) := ⟨fun s a ↦ a ∈ s.elems⟩

@[simp] theorem notMem_empty (a : α) : a ∉ (∅ : UnorderedSet α) := List.not_mem_nil

variable [DecidableEq α]

instance (a : α) (s : UnorderedSet α) : Decidable (a ∈ s) :=
  inferInstanceAs (Decidable (a ∈ s.elems))

/-- Insertion of an element, a no-op on one that is already there. -/
def insert (s : UnorderedSet α) (a : α) : UnorderedSet α := ⟨s.elems.insert a, s.nodup.insert⟩

/-- Erasure of an element. -/
def erase (s : UnorderedSet α) (a : α) : UnorderedSet α := ⟨s.elems.erase a, s.nodup.erase a⟩

@[simp] theorem mem_insert {a b : α} {s : UnorderedSet α} : b ∈ s.insert a ↔ b = a ∨ b ∈ s :=
  List.mem_insert_iff

@[simp] theorem mem_erase {a b : α} {s : UnorderedSet α} : b ∈ s.erase a ↔ b ≠ a ∧ b ∈ s :=
  s.nodup.mem_erase_iff

theorem mem_insert_self (a : α) (s : UnorderedSet α) : a ∈ s.insert a :=
  mem_insert.mpr (Or.inl rfl)

theorem notMem_erase_self (a : α) (s : UnorderedSet α) : a ∉ s.erase a :=
  fun h ↦ (mem_erase.mp h).1 rfl

theorem insert_ne_self {a : α} {s : UnorderedSet α} (h : a ∉ s) : s.insert a ≠ s :=
  fun hs ↦ h (hs ▸ mem_insert_self a s)

theorem erase_ne_self {a : α} {s : UnorderedSet α} (h : a ∈ s) : s.erase a ≠ s :=
  fun hs ↦ notMem_erase_self a s (hs.symm ▸ h)

theorem insert_of_mem {a : α} {s : UnorderedSet α} (h : a ∈ s) : s.insert a = s :=
  UnorderedSet.ext (List.insert_of_mem h)

theorem length_insert_of_notMem {a : α} {s : UnorderedSet α} (h : a ∉ s) :
    (s.insert a).elems.length = s.elems.length + 1 := List.length_insert_of_not_mem h

theorem length_insert_le (a : α) (s : UnorderedSet α) :
    (s.insert a).elems.length ≤ s.elems.length + 1 := by
  by_cases h : a ∈ s
  · rw [insert_of_mem h]
    exact Nat.le_succ _
  · exact Nat.le_of_eq (length_insert_of_notMem h)

theorem length_erase_of_mem {a : α} {s : UnorderedSet α} (h : a ∈ s) :
    (s.erase a).elems.length + 1 = s.elems.length := List.length_erase_add_one h

end UnorderedSet

end IrcServer.Library
