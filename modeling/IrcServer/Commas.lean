import IrcServer.ChannelCommands

/-!
# Lists of names with commas

`splitByCommas` hands the literal `","` to `std::views::split` as an array, and the
terminator of the literal is an element of the array.  So the pattern is a comma and a NUL:
the pieces are what stands between occurrences of that pair
(`intercalate_splitByCommas`), and a text in which a comma stands is never split at its
commas (`splitByCommas_iff`).
-/

namespace IrcServer

open Library

abbrev COMMA : UInt8 := 44

namespace AChannelCommand

/-! ## The pieces between occurrences of a pattern -/

section

variable {pat : Bytes} {n : Nat} {s : Bytes}

theorem splitFrom_ne_nil (pat : Bytes) (n : Nat) (s : Bytes) : splitFrom pat n s ≠ [] := by
  induction s generalizing n with
  | nil => simp [splitFrom]
  | cons c s ih =>
      cases n with
      | succ skip => exact ih skip
      | zero =>
          rw [splitFrom]
          split
          · exact List.cons_ne_nil _ _
          · simpa [List.modifyHead_eq_nil_iff] using ih 0

/-- The pieces with the pattern between them are the text, less what is passed over. -/
theorem intercalate_splitFrom (hpat : pat ≠ []) (n : Nat) (s : Bytes) :
    pat.intercalate (splitFrom pat n s) = s.drop n := by
  induction s generalizing n with
  | nil => simp [splitFrom]
  | cons c s ih =>
      cases n with
      | succ skip => exact ih skip
      | zero =>
          rw [splitFrom, List.drop_zero]
          split
          · rename_i hp
            obtain ⟨piece, rest, hpieces⟩ :=
              List.exists_cons_of_ne_nil (splitFrom_ne_nil pat (pat.length - 1) s)
            have hrest := ih (pat.length - 1)
            obtain ⟨a, p, rfl⟩ := List.exists_cons_of_ne_nil hpat
            obtain ⟨t, ht⟩ := hp
            obtain ⟨rfl, rfl⟩ := List.cons.inj ht
            rw [hpieces, List.intercalate_cons_cons, ← hpieces, hrest]
            simp
          · obtain ⟨piece, rest, hpieces⟩ := List.exists_cons_of_ne_nil (splitFrom_ne_nil pat 0 s)
            have hrest := ih 0
            rw [hpieces, List.drop_zero] at hrest
            rw [hpieces, List.modifyHead_cons, ← hrest]
            cases rest with
            | nil => simp [List.intercalate_singleton]
            | cons next rest => simp [List.intercalate_cons_cons]

/-- A text without the pattern is one piece. -/
theorem splitFrom_of_not_infix (h : ¬ pat <:+: s) : splitFrom pat 0 s = [s] := by
  induction s with
  | nil => rfl
  | cons c s ih =>
      rw [List.infix_cons_iff, not_or] at h
      rw [splitFrom, if_neg h.1, ih h.2, List.modifyHead_cons]

end

/-! ## Commas -/

/-- The length of a joined text. -/
theorem length_intercalate (sep piece : Bytes) (pieces : List Bytes) :
    (sep.intercalate (piece :: pieces)).length =
      (piece :: pieces).flatten.length + pieces.length * sep.length := by
  induction pieces generalizing piece with
  | nil => simp [List.intercalate_singleton]
  | cons next pieces ih =>
      rw [List.intercalate_cons_cons, List.length_append, List.length_append, ih,
        List.flatten_cons (l := piece), List.length_append, List.length_cons, Nat.succ_mul]
      omega

/-- What is joined by a comma and by the pattern to the same text is one piece at most. -/
theorem length_le_one_of_intercalate_eq {pieces : List Bytes}
    (h : [COMMA].intercalate pieces = [COMMA, NUL].intercalate pieces) : pieces.length ≤ 1 := by
  cases pieces with
  | nil => exact Nat.zero_le 1
  | cons piece pieces =>
      have hlen := congrArg List.length h
      rw [length_intercalate, length_intercalate] at hlen
      simp only [List.length_cons, List.length_nil] at hlen ⊢
      omega

/-- What `splitByCommas` does: its pieces, with a comma and a NUL between them, are the
text. -/
theorem intercalate_splitByCommas (s : Bytes) : [COMMA, NUL].intercalate (splitByCommas s) = s := by
  unfold splitByCommas
  split
  · rename_i hs
    rw [hs]
    rfl
  · exact (intercalate_splitFrom (List.cons_ne_nil _ _) 0 s).trans List.drop_zero

theorem splitByCommas_of_notMem {s : Bytes} (hs : s ≠ []) (h : COMMA ∉ s) :
    splitByCommas s = [s] := by
  rw [splitByCommas, if_neg hs]
  exact splitFrom_of_not_infix fun hp ↦ h (hp.subset List.mem_cons_self)

/-- The pieces have no comma in them, and joined by commas they are the text. -/
def SplitsExactly (s : Bytes) : Prop :=
  (∀ piece ∈ splitByCommas s, COMMA ∉ piece) ∧ [COMMA].intercalate (splitByCommas s) = s

theorem splitsExactly_iff (s : Bytes) : SplitsExactly s ↔ COMMA ∉ s := by
  constructor
  · rintro ⟨hpieces, hjoin⟩
    have hlen := length_le_one_of_intercalate_eq (hjoin.trans (intercalate_splitByCommas s).symm)
    cases hsplit : splitByCommas s with
    | nil =>
        rw [hsplit] at hjoin
        exact hjoin ▸ List.not_mem_nil
    | cons piece rest =>
        obtain rfl : rest = [] := by
          rw [hsplit, List.length_cons] at hlen
          exact List.eq_nil_of_length_eq_zero (by omega)
        rw [hsplit, List.intercalate_singleton] at hjoin
        exact hjoin ▸ hpieces piece (hsplit ▸ List.mem_cons_self)
  · intro h
    by_cases hs : s = []
    · rw [hs]
      exact ⟨List.forall_mem_nil _, rfl⟩
    · rw [SplitsExactly, splitByCommas_of_notMem hs h]
      exact ⟨List.forall_mem_singleton.mpr h, List.intercalate_singleton⟩

end AChannelCommand

open AChannelCommand

/-- A text is split at its commas if and only if it has none, and a list of names is read
back from what it is joined to if and only if it has one name. -/
theorem splitByCommas_iff (s : Bytes) (names : List Bytes) :
    (SplitsExactly s ↔ COMMA ∉ s) ∧
    (names ≠ [] → names ≠ [[]] → (∀ name ∈ names, COMMA ∉ name) →
      (splitByCommas ([COMMA].intercalate names) = names ↔ names.length = 1)) := by
  refine ⟨splitsExactly_iff s, ?_⟩
  intro hne hempty hnames
  constructor
  · intro hsplit
    have hjoined : COMMA ∉ [COMMA].intercalate names :=
      (splitsExactly_iff _).mp ⟨hsplit.symm ▸ hnames, by rw [hsplit]⟩
    have hs : [COMMA].intercalate names ≠ [] := by
      intro hs
      rw [hs] at hsplit
      exact hne hsplit.symm
    rw [← hsplit, splitByCommas_of_notMem hs hjoined, List.length_singleton]
  · intro hlen
    obtain ⟨name, rfl⟩ := List.length_eq_one_iff.mp hlen
    rw [List.intercalate_singleton]
    refine splitByCommas_of_notMem ?_ (hnames name List.mem_cons_self)
    rintro rfl
    exact hempty rfl

/-- Two names are not read back. -/
theorem splitByCommas_iff_two :
    (SplitsExactly (lit "#a,#b") ↔ COMMA ∉ lit "#a,#b") ∧
    (splitByCommas ([COMMA].intercalate [lit "#a", lit "#b"]) = [lit "#a", lit "#b"] ↔
      [lit "#a", lit "#b"].length = 1) :=
  ⟨(splitByCommas_iff (lit "#a,#b") []).1,
    (splitByCommas_iff [] [lit "#a", lit "#b"]).2 (by decide) (by decide) (by decide)⟩

/-- They are one piece, with the comma in it. -/
theorem not_splitsExactly_two :
    splitByCommas ([COMMA].intercalate [lit "#a", lit "#b"]) = [lit "#a,#b"] ∧
      ¬ SplitsExactly (lit "#a,#b") := by
  refine ⟨by decide, ?_⟩
  rintro ⟨hpieces, -⟩
  exact hpieces (lit "#a,#b") (by decide) (by decide)

end IrcServer
