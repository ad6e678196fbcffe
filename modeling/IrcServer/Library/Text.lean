import Mathlib.Data.List.Infix
import Mathlib.Data.List.Chain
import Mathlib.Data.List.Lemmas

/-!
# Searching and splitting text

Text is a list over an alphabet with decidable equality.  Operations of a
string library are treated here, each with the laws that let a format be proved
unambiguous without unfolding it again:

* `find`, the position of the first occurrence of a pattern;
* `words`, the non-empty pieces between separators;
* `lines`, the pieces ended by a terminator, less one optional byte before it,
  and `unfinished`, what follows the last terminator;
* `Framed`, the texts made of lines with a terminator of two letters.

The law a format needs of `find` is `find_append`: the first occurrence of the
pattern is where it was put, unless the text before it already contains one.  For
a pattern of two letters, "contains none" is a statement about neighbours, and
`List.IsChain` has the lemmas for it (`pair_infix_iff`).
-/

namespace IrcServer.Library

universe u

variable {α : Type u} [DecidableEq α]

/-! ## The first occurrence of a pattern -/

/-- The position of the first occurrence of `pat`. -/
def find (pat : List α) : List α → Option Nat
  | [] => if pat = [] then some 0 else none
  | c :: s => if pat <+: c :: s then some 0 else (find pat s).map (· + 1)

omit [DecidableEq α] in
private theorem append_dropLast_isPrefix (u pat v : List α) :
    u ++ pat.dropLast <+: u ++ (pat ++ v) := by
  rw [List.prefix_append_right_inj]
  exact (List.dropLast_prefix pat).trans (List.prefix_append pat v)

/-- The first occurrence is the one shown, provided the text before it, together
with all but the last letter of the pattern, has none. -/
theorem find_append {pat u : List α} (v : List α) (hpat : pat ≠ [])
    (h : ¬ pat <:+: u ++ pat.dropLast) : find pat (u ++ (pat ++ v)) = some u.length := by
  induction u with
  | nil =>
      obtain ⟨a, p, rfl⟩ := List.exists_cons_of_ne_nil hpat
      simp [find]
  | cons c u ih =>
      -- An occurrence at the front would end within `u ++ pat.dropLast`.
      have hfront : ¬ pat <+: c :: (u ++ (pat ++ v)) := by
        intro hp
        have hq : c :: (u ++ pat.dropLast) <+: c :: (u ++ (pat ++ v)) :=
          append_dropLast_isPrefix (c :: u) pat v
        have hlen : pat.length ≤ (c :: (u ++ pat.dropLast)).length := by
          simp only [List.length_cons, List.length_append, List.length_dropLast]
          omega
        exact h (List.prefix_of_prefix_length_le hp hq hlen).isInfix
      have htail : ¬ pat <:+: u ++ pat.dropLast := fun hi ↦ h (List.infix_cons hi)
      simp [find, hfront, ih htail]

theorem find_eq_none_iff {pat s : List α} : find pat s = none ↔ ¬ pat <:+: s := by
  induction s with
  | nil => simp [find]
  | cons c s ih =>
      simp only [find, List.infix_cons_iff, not_or]
      split
      · simp_all
      · simp_all

/-- A successful search shows an occurrence with none before it. -/
theorem find_eq_some {pat s : List α} {n : Nat} (hpat : pat ≠ []) (h : find pat s = some n) :
    ∃ u v, s = u ++ (pat ++ v) ∧ u.length = n ∧ ¬ pat <:+: u ++ pat.dropLast := by
  induction s generalizing n with
  | nil => simp [find, hpat] at h
  | cons c s ih =>
      simp only [find] at h
      split at h
      · rename_i hp
        obtain ⟨v, hv⟩ := hp
        refine ⟨[], v, hv.symm, Option.some.inj h, ?_⟩
        intro hi
        have hlen := hi.length_le
        have hpos := List.length_pos_of_ne_nil hpat
        simp only [List.nil_append, List.length_dropLast] at hlen
        omega
      · rename_i hp
        obtain ⟨m, hm, rfl⟩ := Option.map_eq_some_iff.mp h
        obtain ⟨u, v, rfl, rfl, hu⟩ := ih hm
        refine ⟨c :: u, v, rfl, rfl, ?_⟩
        intro hi
        rcases List.infix_cons_iff.mp hi with hfront | htail
        · exact hp (hfront.trans (append_dropLast_isPrefix (c :: u) pat v))
        · exact hu htail

omit [DecidableEq α] in
/-- A text has no occurrence of a pair exactly when no two neighbours form it. -/
theorem pair_infix_iff {a b : α} {s : List α} :
    ¬ [a, b] <:+: s ↔ s.IsChain fun x y ↦ ¬ (x = a ∧ y = b) := by
  rw [List.isChain_iff_forall_rel_of_append_cons_cons]
  constructor
  · rintro h x y u v rfl ⟨rfl, rfl⟩
    exact h ⟨u, v, by simp⟩
  · rintro h ⟨u, v, rfl⟩
    have hcut : u ++ [a, b] ++ v = u ++ a :: b :: v := by simp
    exact h hcut ⟨rfl, rfl⟩

/-- The first occurrence of a separator. -/
theorem find_singleton_append {a : α} {u : List α} (v : List α) (h : a ∉ u) :
    find [a] (u ++ a :: v) = some u.length := by
  refine find_append v (List.cons_ne_nil a []) fun hi ↦ h ?_
  simpa [List.singleton_infix_iff] using hi

theorem find_singleton_eq_none_iff {a : α} {s : List α} : find [a] s = none ↔ a ∉ s := by
  rw [find_eq_none_iff, List.singleton_infix_iff]

/-! ## Words -/

/-- The non-empty pieces between separators. -/
def words (a : α) (s : List α) : List (List α) := (s.splitOn a).filter (· ≠ [])

@[simp] theorem words_nil (a : α) : words a [] = [] := rfl

@[simp] theorem words_cons_self (a : α) (s : List α) : words a (a :: s) = words a s := by
  simp [words, List.splitOn_cons_eq_if_modifyHead]

theorem words_replicate_append (a : α) (n : Nat) (s : List α) :
    words a (List.replicate n a ++ s) = words a s := by
  induction n with
  | zero => rfl
  | succ n ih => rw [List.replicate_succ, List.cons_append, words_cons_self, ih]

theorem words_of_notMem {a : α} {w : List α} (hne : w ≠ []) (h : a ∉ w) : words a w = [w] := by
  simp [words, List.splitOn_eq_singleton h, hne]

theorem words_append_cons {a : α} {w : List α} (s : List α) (hne : w ≠ []) (h : a ∉ w) :
    words a (w ++ a :: s) = w :: words a s := by
  simp [words, List.splitOn_append_cons_self_of_not_mem h, hne]

/-- Words written with a separator between them are read back. -/
theorem words_intercalate {a : α} {ws : List (List α)} (h : ∀ w ∈ ws, w ≠ [] ∧ a ∉ w) :
    words a ([a].intercalate ws) = ws := by
  by_cases hws : ws = []
  · rw [hws]
    rfl
  · rw [words, List.splitOn_intercalate a (fun w hw ↦ (h w hw).2) hws, List.filter_eq_self]
    intro w hw
    simpa using (h w hw).1

/-- Either a text has no separator or it starts with a piece up to the first one:
the case split along which splitting recurses. -/
theorem notMem_or_eq_append_cons (a : α) (s : List α) :
    a ∉ s ∨ ∃ w t, s = w ++ a :: t ∧ a ∉ w ∧ t.length < s.length := by
  by_cases h : a ∈ s
  · obtain ⟨w, t, rfl, hw⟩ := List.eq_append_cons_of_mem h
    exact Or.inr ⟨w, t, rfl, hw, by simp; omega⟩
  · exact Or.inl h

/-- Words are non-empty and have no separator in them. -/
theorem of_mem_words {a : α} {s w : List α} (hw : w ∈ words a s) : w ≠ [] ∧ a ∉ w := by
  induction hn : s.length using Nat.strong_induction_on generalizing s with
  | _ n ih =>
      rcases notMem_or_eq_append_cons a s with h | ⟨v, t, rfl, hv, hlt⟩
      · by_cases hs : s = []
        · simp [hs] at hw
        · rw [words_of_notMem hs h, List.mem_singleton] at hw
          exact hw ▸ ⟨hs, h⟩
      · by_cases hs : v = []
        · subst hs
          exact ih _ (hn ▸ hlt) (by simpa using hw) rfl
        · rw [words_append_cons t hs hv, List.mem_cons] at hw
          rcases hw with rfl | hw
          · exact ⟨hs, hv⟩
          · exact ih _ (hn ▸ hlt) hw rfl

/-- Every letter of a word is a letter of the text. -/
theorem mem_of_mem_words {a b : α} {s w : List α} (hw : w ∈ words a s) (hb : b ∈ w) : b ∈ s := by
  induction hn : s.length using Nat.strong_induction_on generalizing s with
  | _ n ih =>
      rcases notMem_or_eq_append_cons a s with h | ⟨v, t, rfl, hv, hlt⟩
      · by_cases hs : s = []
        · simp [hs] at hw
        · rw [words_of_notMem hs h, List.mem_singleton] at hw
          exact hw ▸ hb
      · have hrest (hw : w ∈ words a t) : b ∈ v ++ a :: t :=
          List.mem_append_right v (List.mem_cons_of_mem a (ih _ (hn ▸ hlt) hw rfl))
        by_cases hs : v = []
        · subst hs
          exact hrest (by simpa using hw)
        · rw [words_append_cons t hs hv, List.mem_cons] at hw
          rcases hw with rfl | hw
          · exact List.mem_append_left _ hb
          · exact hrest hw

/-- Where the separator is never followed by `b`, no word that a separator
precedes starts with `b`. -/
theorem head?_ne_of_mem_words {a b : α} {s w : List α}
    (hs : (a :: s).IsChain fun x y ↦ ¬ (x = a ∧ y = b)) (hw : w ∈ words a s) :
    w.head? ≠ some b := by
  induction hn : s.length using Nat.strong_induction_on generalizing s with
  | _ n ih =>
      have hhead : ∀ v, v <+: s → v.head? ≠ some b := by
        rintro v ⟨t, rfl⟩ hv
        cases v with
        | nil => simp at hv
        | cons c v =>
            rw [List.cons_append, List.isChain_cons_cons] at hs
            exact hs.1 ⟨rfl, by simpa using hv⟩
      rcases notMem_or_eq_append_cons a s with h | ⟨v, t, rfl, hv, hlt⟩
      · by_cases he : s = []
        · simp [he] at hw
        · rw [words_of_notMem he h, List.mem_singleton] at hw
          exact hw ▸ hhead s (List.prefix_refl s)
      · have ht : (a :: t).IsChain fun x y ↦ ¬ (x = a ∧ y = b) :=
          hs.suffix ⟨a :: v, rfl⟩
        by_cases he : v = []
        · subst he
          exact ih _ (hn ▸ hlt) ht (by simpa using hw) rfl
        · rw [words_append_cons t he hv, List.mem_cons] at hw
          rcases hw with rfl | hw
          · exact hhead _ (List.prefix_append _ _)
          · exact ih _ (hn ▸ hlt) ht hw rfl

/-- The same for every word but the first, whatever the text starts with. -/
theorem head?_ne_of_mem_words_tail {a b : α} {s w : List α}
    (hs : s.IsChain fun x y ↦ ¬ (x = a ∧ y = b)) (hw : w ∈ (words a s).tail) :
    w.head? ≠ some b := by
  rcases notMem_or_eq_append_cons a s with h | ⟨v, t, rfl, hv, -⟩
  · by_cases he : s = []
    · simp [he] at hw
    · simp [words_of_notMem he h] at hw
  · have ht : (a :: t).IsChain fun x y ↦ ¬ (x = a ∧ y = b) := hs.suffix ⟨v, rfl⟩
    by_cases he : v = []
    · subst he
      rw [List.nil_append, words_cons_self] at hw
      exact head?_ne_of_mem_words ht (List.mem_of_mem_tail hw)
    · rw [words_append_cons t he hv, List.tail_cons] at hw
      exact head?_ne_of_mem_words ht hw

/-! ## Lines -/

/-- A line without the one byte `cr` that may stand at its end. -/
def chomp (cr : α) (l : List α) : List α := if l.getLast? = some cr then l.dropLast else l

theorem mem_of_mem_chomp {cr a : α} {l : List α} (h : a ∈ chomp cr l) : a ∈ l := by
  unfold chomp at h
  split at h
  · exact List.mem_of_mem_dropLast h
  · exact h

/-- The pieces of a text ended by `lf`, each without one `cr` at its end. -/
def lines (lf cr : α) (s : List α) : List (List α) := (s.splitOn lf).dropLast.map (chomp cr)

/-- What follows the last `lf`. -/
def unfinished (lf : α) (s : List α) : List α := (s.splitOn lf).getLast (List.splitOn_ne_nil lf s)

theorem lines_of_notMem {lf : α} (cr : α) {s : List α} (h : lf ∉ s) : lines lf cr s = [] := by
  simp [lines, List.splitOn_eq_singleton h]

theorem unfinished_of_notMem {lf : α} {s : List α} (h : lf ∉ s) : unfinished lf s = s := by
  simp [unfinished, List.splitOn_eq_singleton h]

theorem lines_append_cons {lf : α} (cr : α) {w : List α} (s : List α) (h : lf ∉ w) :
    lines lf cr (w ++ lf :: s) = chomp cr w :: lines lf cr s := by
  simp [lines, List.splitOn_append_cons_self_of_not_mem h,
    List.dropLast_cons_of_ne_nil (List.splitOn_ne_nil lf s)]

theorem unfinished_append_cons {lf : α} {w : List α} (s : List α) (h : lf ∉ w) :
    unfinished lf (w ++ lf :: s) = unfinished lf s := by
  simp [unfinished, List.splitOn_append_cons_self_of_not_mem h,
    List.getLast_cons (List.splitOn_ne_nil lf s)]

theorem notMem_unfinished (lf : α) (s : List α) : lf ∉ unfinished lf s := by
  induction hn : s.length using Nat.strong_induction_on generalizing s with
  | _ n ih =>
      rcases notMem_or_eq_append_cons lf s with h | ⟨w, t, rfl, hw, hlt⟩
      · rwa [unfinished_of_notMem h]
      · rw [unfinished_append_cons t hw]
        exact ih _ (hn ▸ hlt) t rfl

/-- A line has no terminator, and its letters are letters of the text. -/
theorem of_mem_lines {lf cr : α} {s l : List α} (hl : l ∈ lines lf cr s) :
    lf ∉ l ∧ ∀ a ∈ l, a ∈ s := by
  induction hn : s.length using Nat.strong_induction_on generalizing s with
  | _ n ih =>
      rcases notMem_or_eq_append_cons lf s with h | ⟨w, t, rfl, hw, hlt⟩
      · rw [lines_of_notMem cr h] at hl
        cases hl
      · rw [lines_append_cons cr t hw, List.mem_cons] at hl
        rcases hl with rfl | hl
        · exact ⟨fun h ↦ hw (mem_of_mem_chomp h),
            fun a ha ↦ List.mem_append_left _ (mem_of_mem_chomp ha)⟩
        · obtain ⟨hlf, hmem⟩ := ih _ (hn ▸ hlt) hl rfl
          exact ⟨hlf, fun a ha ↦ List.mem_append_right w (List.mem_cons_of_mem lf (hmem a ha))⟩

/-- Reading a text in two parts: the lines of the first, then those of what it
left unfinished followed by the second. -/
theorem lines_append (lf cr : α) (s t : List α) :
    lines lf cr (s ++ t) = lines lf cr s ++ lines lf cr (unfinished lf s ++ t) := by
  induction hn : s.length using Nat.strong_induction_on generalizing s with
  | _ n ih =>
      rcases notMem_or_eq_append_cons lf s with h | ⟨w, u, rfl, hw, hlt⟩
      · rw [lines_of_notMem cr h, unfinished_of_notMem h, List.nil_append]
      · rw [List.append_assoc, List.cons_append, lines_append_cons cr _ hw,
          lines_append_cons cr _ hw, unfinished_append_cons _ hw, ih _ (hn ▸ hlt) u rfl,
          List.cons_append]

theorem unfinished_append (lf : α) (s t : List α) :
    unfinished lf (s ++ t) = unfinished lf (unfinished lf s ++ t) := by
  induction hn : s.length using Nat.strong_induction_on generalizing s with
  | _ n ih =>
      rcases notMem_or_eq_append_cons lf s with h | ⟨w, u, rfl, hw, hlt⟩
      · rw [unfinished_of_notMem h]
      · rw [List.append_assoc, List.cons_append, unfinished_append_cons _ hw,
          unfinished_append_cons _ hw, ih _ (hn ▸ hlt) u rfl]

/-- There is one line for every terminator. -/
theorem length_lines (lf cr : α) (s : List α) : (lines lf cr s).length = s.count lf := by
  induction hn : s.length using Nat.strong_induction_on generalizing s with
  | _ n ih =>
      rcases notMem_or_eq_append_cons lf s with h | ⟨w, t, rfl, hw, hlt⟩
      · rw [lines_of_notMem cr h, List.count_eq_zero_of_not_mem h, List.length_nil]
      · rw [lines_append_cons cr t hw, List.length_cons, ih _ (hn ▸ hlt) t rfl,
          List.count_append, List.count_eq_zero_of_not_mem hw, List.count_cons_self]
        omega

theorem length_chomp_le (cr : α) (l : List α) : (chomp cr l).length ≤ l.length := by
  unfold chomp
  split
  · rw [List.length_dropLast]
    exact Nat.sub_le _ _
  · exact le_refl _

theorem chomp_concat (cr a : α) (u : List α) :
    chomp cr (u ++ [a]) = if a = cr then u else u ++ [a] := by
  simp [chomp]

/-- A letter more in a line is seen, unless it is a `cr` at its end. -/
theorem chomp_insert_ne {cr b : α} {p s : List α} (h : b = cr → s ≠ []) :
    chomp cr (p ++ b :: s) ≠ chomp cr (p ++ s) := by
  intro heq
  have hlen := congrArg List.length heq
  rcases List.eq_nil_or_concat' s with rfl | ⟨z, a, rfl⟩
  · have hle := length_chomp_le cr p
    rw [chomp_concat, if_neg fun e ↦ h e rfl, List.append_nil, List.length_append,
      List.length_singleton] at hlen
    omega
  · rw [← List.cons_append, ← List.append_assoc, ← List.append_assoc, chomp_concat,
      chomp_concat] at hlen
    split at hlen <;> simp at hlen

/-- A letter more in a text is seen in its lines, unless it is a `cr` before a `lf`. -/
theorem lines_insert_ne {lf cr b : α} (hb : b ≠ lf) {p s : List α}
    (h : b = cr → s.head? ≠ some lf) :
    ¬ (lines lf cr (p ++ b :: s) = lines lf cr (p ++ s) ∧
      unfinished lf (p ++ b :: s) = unfinished lf (p ++ s)) := by
  rintro ⟨hl, hu⟩
  rw [lines_append, lines_append lf cr p s] at hl
  rw [unfinished_append, unfinished_append lf p s] at hu
  have hp := notMem_unfinished lf p
  have hl := List.append_cancel_left hl
  rcases notMem_or_eq_append_cons lf s with hs | ⟨w, t, rfl, hw, -⟩
  · have hleft : lf ∉ unfinished lf p ++ b :: s := by simp [hp, hs, Ne.symm hb]
    have hright : lf ∉ unfinished lf p ++ s := by simp [hp, hs]
    rw [unfinished_of_notMem hleft, unfinished_of_notMem hright] at hu
    simpa using congrArg List.length hu
  · have hleft : lf ∉ unfinished lf p ++ b :: w := by simp [hp, hw, Ne.symm hb]
    have hright : lf ∉ unfinished lf p ++ w := by simp [hp, hw]
    rw [← List.cons_append, ← List.append_assoc, ← List.append_assoc,
      lines_append_cons cr t hleft, lines_append_cons cr t hright] at hl
    refine chomp_insert_ne (fun e hnil ↦ h e ?_) (List.cons.inj hl).1
    simp [hnil]

/-! ## Framing -/

omit [DecidableEq α] in
/-- A concatenation of texts without `cr` and `lf`, each followed by the two. -/
def Framed (cr lf : α) (s : List α) : Prop :=
  ∃ ls : List (List α), (∀ l ∈ ls, cr ∉ l ∧ lf ∉ l) ∧ s = ls.flatMap (· ++ [cr, lf])

/-- A text is cut in one way at the first separator. -/
theorem append_cons_inj {a : α} {u v s t : List α} (hu : a ∉ u) (hv : a ∉ v)
    (h : u ++ a :: s = v ++ a :: t) : u = v ∧ s = t := by
  have hlen : u.length = v.length := by
    have hfind := find_singleton_append s hu
    rw [h, find_singleton_append t hv] at hfind
    exact (Option.some.inj hfind).symm
  obtain ⟨huv, hst⟩ := List.append_inj h hlen
  exact ⟨huv, (List.cons.inj hst).2⟩

omit [DecidableEq α] in
theorem framed_nil (cr lf : α) : Framed cr lf [] := ⟨[], by simp, rfl⟩

omit [DecidableEq α] in
theorem Framed.append {cr lf : α} {s t : List α} (hs : Framed cr lf s) (ht : Framed cr lf t) :
    Framed cr lf (s ++ t) := by
  obtain ⟨ls, hls, rfl⟩ := hs
  obtain ⟨ms, hms, rfl⟩ := ht
  refine ⟨ls ++ ms, fun l hl ↦ (List.mem_append.mp hl).elim (hls l) (hms l), ?_⟩
  rw [List.flatMap_append]

/-- What follows complete lines in complete lines are complete lines. -/
theorem Framed.of_append {cr lf : α} {s t : List α} (hst : Framed cr lf (s ++ t))
    (hs : Framed cr lf s) : Framed cr lf t := by
  obtain ⟨ls, hls, rfl⟩ := hs
  induction ls with
  | nil => exact hst
  | cons l ls ih =>
      obtain ⟨ms, hms, heq⟩ := hst
      cases ms with
      | nil => simp at heq
      | cons m ms =>
          have hcut : l ++ cr :: (lf :: (ls.flatMap (· ++ [cr, lf]) ++ t)) =
              m ++ cr :: (lf :: ms.flatMap (· ++ [cr, lf])) := by simpa using heq
          obtain ⟨-, hrest⟩ := append_cons_inj (hls l List.mem_cons_self).1
            (hms m List.mem_cons_self).1 hcut
          refine ih (fun l' hl' ↦ hls l' (List.mem_cons_of_mem l hl')) ⟨ms, ?_, ?_⟩
          · exact fun m' hm' ↦ hms m' (List.mem_cons_of_mem m hm')
          · exact (List.cons.inj hrest).2

/-- One line is complete when there is no other `cr` in it. -/
theorem framed_line_iff {cr lf : α} (hne : cr ≠ lf) {body : List α} (hlf : lf ∉ body) :
    Framed cr lf (body ++ [cr, lf]) ↔ cr ∉ body := by
  have hbody : lf ∉ body ++ [cr] := by simp [hlf, Ne.symm hne]
  constructor
  · rintro ⟨ls, hls, heq⟩
    cases ls with
    | nil => simp at heq
    | cons l ls =>
        have hl : lf ∉ l ++ [cr] := by simp [(hls l List.mem_cons_self).2, Ne.symm hne]
        have hcut : (body ++ [cr]) ++ lf :: [] =
            (l ++ [cr]) ++ lf :: ls.flatMap (· ++ [cr, lf]) := by simpa using heq
        have hline := List.append_cancel_right (append_cons_inj hbody hl hcut).1
        exact hline ▸ (hls l List.mem_cons_self).1
  · exact fun hcr ↦ ⟨[body], by simp [hcr, hlf], by simp⟩

end IrcServer.Library
