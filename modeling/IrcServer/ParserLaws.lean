import IrcServer.Parser

/-!
# Laws of the parser

The constructor of `Parser` cuts a line at the first `" :"` and splits what is before
it at the spaces.  It is described here by what its steps make of any line (`parse_eq`), in
particular of a line written as a text of words and a trailing part (`cutTrailing_line`),
and by what can come out of it (`exists_parse_eq`).  The laws follow: parsing undoes
formatting, however many spaces are between the parts; every result has the shape the
handlers rely on; and formatting and parsing a result again gives it back.
-/

namespace IrcServer

open Library

/-! ## The pieces of a line -/

/-- No space is followed by a colon. -/
abbrev Uncut (s : Bytes) : Prop := s.IsChain fun x y ↦ ¬ (x = SPACE ∧ y = COLON)

/-- What can be a command word or a middle parameter. -/
structure IsToken (w : Bytes) : Prop where
  ne_nil : w ≠ []
  notMem : SPACE ∉ w
  head?_ne : w.head? ≠ some COLON

/-- A text with the number of spaces before it, less one. -/
structure Part where
  gap : Nat
  text : Bytes

namespace Part

def str (p : Part) : Bytes := List.replicate (p.gap + 1) SPACE ++ p.text

/-- The trailing part, with its colon. -/
def trailing (p : Part) : Bytes := List.replicate (p.gap + 1) SPACE ++ COLON :: p.text

end Part

theorem uncut_replicate (n : Nat) : Uncut (List.replicate n SPACE) :=
  List.isChain_replicate_of_rel n (by decide)

theorem uncut_of_notMem {s : Bytes} (h : SPACE ∉ s) : Uncut s :=
  pair_infix_iff.mp fun hi ↦ h (hi.subset List.mem_cons_self)

/-- No `" :"` arises between words, whatever their number and the gaps. -/
theorem uncut_parts {ps : List Part} (hps : ∀ p ∈ ps, IsToken p.text) (n : Nat) :
    Uncut (ps.flatMap Part.str ++ List.replicate n SPACE) := by
  induction ps with
  | nil => exact uncut_replicate n
  | cons p ps ih =>
      have htoken := hps p List.mem_cons_self
      have hrest := ih fun q hq ↦ hps q (List.mem_cons_of_mem p hq)
      rw [List.flatMap_cons, Part.str, List.append_assoc, List.append_assoc]
      refine (uncut_replicate (p.gap + 1)).append ?_ ?_
      · refine (uncut_of_notMem htoken.notMem).append hrest ?_
        rintro x hx y - ⟨rfl, -⟩
        exact htoken.notMem (List.mem_of_getLast? hx)
      · rintro x - y hy ⟨-, rfl⟩
        rw [List.head?_append_of_ne_nil _ htoken.ne_nil] at hy
        exact htoken.head?_ne hy

/-- The words of a text written word by word. -/
theorem words_parts {ps : List Part} (hps : ∀ p ∈ ps, IsToken p.text) (n : Nat) :
    words SPACE (ps.flatMap Part.str ++ List.replicate n SPACE) = ps.map Part.text := by
  induction ps with
  | nil =>
      have h := words_replicate_append SPACE n []
      rwa [List.append_nil] at h
  | cons p ps ih =>
      have htoken := hps p List.mem_cons_self
      have hrest := ih fun q hq ↦ hps q (List.mem_cons_of_mem p hq)
      rw [List.flatMap_cons, Part.str, List.append_assoc, List.append_assoc,
        words_replicate_append, List.map_cons, ← hrest]
      -- What follows the word is nothing, or starts with a space.
      have hnext : ps.flatMap Part.str ++ List.replicate n SPACE = [] ∨
          ∃ t, ps.flatMap Part.str ++ List.replicate n SPACE = SPACE :: t := by
        cases ps with
        | nil =>
            cases n with
            | zero => exact Or.inl rfl
            | succ n => exact Or.inr ⟨_, rfl⟩
        | cons q qs => exact Or.inr ⟨_, rfl⟩
      rcases hnext with h | ⟨t, h⟩
      · rw [h, List.append_nil, words_of_notMem htoken.ne_nil htoken.notMem, words_nil]
      · rw [h, words_append_cons t htoken.ne_nil htoken.notMem, words_cons_self]

/-! ## The steps of the constructor -/

namespace Parser

theorem stripLineEnding_crlf (s : Bytes) : stripLineEnding (s ++ [CR, LF]) = s := by
  simp [stripLineEnding]

/-- The line endings the constructor knows. -/
def lineEndings : List Bytes := [[CR, LF], [LF], []]

theorem stripLineEnding_append {s ending : Bytes} (hcr : CR ∉ s) (hlf : LF ∉ s)
    (he : ending ∈ lineEndings) : stripLineEnding (s ++ ending) = s := by
  have hsuffix : ∀ {t : Bytes}, LF ∈ t → ¬ t <:+ s := fun ht hs ↦ hlf (hs.subset ht)
  simp only [lineEndings, List.mem_cons, List.not_mem_nil, or_false] at he
  rcases he with rfl | rfl | rfl
  · exact stripLineEnding_crlf s
  · have hone : ¬ [CR, LF] <:+ s ++ [LF] := by
      rintro ⟨u, hu⟩
      have hs : u ++ [CR] = s := by simpa using List.append_inj_left' (by simpa using hu) rfl
      exact hcr (hs ▸ by simp)
    simp [stripLineEnding, hone]
  · rw [List.append_nil, stripLineEnding, if_neg (hsuffix (by simp)), if_neg (hsuffix (by simp))]

theorem extractPrefix_of_head?_ne {s : Bytes} (h : s.head? ≠ some COLON) :
    extractPrefix s = ([], s) := if_neg h

theorem extractPrefix_cons {pfx : Bytes} (s : Bytes) (h : SPACE ∉ pfx) :
    extractPrefix (COLON :: pfx ++ SPACE :: s) = (pfx, s) := by
  have hcolon : SPACE ∉ COLON :: pfx := List.not_mem_cons_of_ne_of_not_mem (by decide) h
  have hdrop : (COLON :: pfx ++ SPACE :: s).drop ((COLON :: pfx).length + 1) = s := by
    rw [← List.drop_drop, List.drop_left, List.drop_one, List.tail_cons]
  have hhead : (COLON :: pfx ++ SPACE :: s).head? = some COLON := rfl
  rw [extractPrefix, find_singleton_append s hcolon, if_pos hhead]
  simp only [hdrop]
  simp

/-- What is taken off as a prefix has no space. -/
theorem notMem_extractPrefix (s : Bytes) : SPACE ∉ (extractPrefix s).1 := by
  unfold extractPrefix
  split
  · cases hf : find [SPACE] s with
    | none => exact fun h ↦ find_singleton_eq_none_iff.mp hf (List.mem_of_mem_drop h)
    | some n =>
        obtain ⟨u, v, rfl, rfl, hu⟩ := find_eq_some (List.cons_ne_nil _ _) hf
        rw [List.dropLast_singleton, List.append_nil, List.singleton_infix_iff] at hu
        intro h
        refine hu ?_
        cases u with
        | nil => simp at h
        | cons c u =>
            simp only [List.cons_append, List.drop_one, List.tail_cons, List.length_cons,
              Nat.add_sub_cancel, List.take_left] at h
            exact List.mem_cons_of_mem c h
  · exact List.not_mem_nil

theorem cutTrailing_append {u : Bytes} (t : Bytes) (hu : Uncut (u ++ [SPACE])) :
    cutTrailing (u ++ SPACE :: COLON :: t) = (u, some t) := by
  have hf : find [SPACE, COLON] (u ++ SPACE :: COLON :: t) = some u.length :=
    find_append t (List.cons_ne_nil _ _) (pair_infix_iff.mpr hu)
  have hdrop : (u ++ SPACE :: COLON :: t).drop (u.length + 2) = t := by
    rw [← List.drop_drop, List.drop_left]
    rfl
  simp [cutTrailing, hf, hdrop]

theorem cutTrailing_of_uncut {u : Bytes} (hu : Uncut u) : cutTrailing u = (u, none) := by
  rw [cutTrailing, find_eq_none_iff.mpr (pair_infix_iff.mpr hu)]

/-- What is left of the cut has no `" :"`. -/
theorem uncut_cutTrailing (s : Bytes) : Uncut (cutTrailing s).1 := by
  unfold cutTrailing
  cases hf : find [SPACE, COLON] s with
  | none => exact pair_infix_iff.mp (find_eq_none_iff.mp hf)
  | some n =>
      obtain ⟨u, v, rfl, rfl, hu⟩ := find_eq_some (List.cons_ne_nil _ _) hf
      simp only [List.take_left]
      exact (pair_infix_iff.mp hu).left_of_append

/-! ## What is stored -/

/-- The value of the fields when the words and the trailing parameter are these. -/
def ofWords (pfx : Bytes) (ws : List Bytes) (trailing : Option Bytes) : Parser where
  pfx := pfx
  command := ((ws.head?.map commandOf).getD [])
  params := ws.tail ++ trailing.toList

theorem whitelist_ne_nil {w : Bytes} (h : w ∈ whitelist) : w ≠ [] := by
  rintro rfl
  exact absurd h (by decide)

theorem commandOf_ne_nil (w : Bytes) : commandOf w ≠ [] := by
  unfold commandOf
  split
  · rename_i h
    exact whitelist_ne_nil h
  · decide

/-- Empty pieces are skipped by the loop. -/
theorem foldl_addToken (p : Parser) (pieces : List Bytes) :
    pieces.foldl addToken p = (pieces.filter (· ≠ [])).foldl addToken p := by
  induction pieces generalizing p with
  | nil => rfl
  | cons w ws ih =>
      by_cases hw : w = []
      · simpa [hw, addToken] using ih p
      · simpa [hw] using ih (p.addToken w)

/-- Once there is a command, words are parameters. -/
theorem foldl_addToken_params {p : Parser} (hp : p.command ≠ []) {ws : List Bytes}
    (hws : ∀ w ∈ ws, w ≠ []) :
    ws.foldl addToken p = { p with params := p.params ++ ws } := by
  induction ws generalizing p with
  | nil => simp
  | cons w ws ih =>
      have hw : p.addToken w = { p with params := p.params ++ [w] } := by
        rw [addToken, if_neg (hws w List.mem_cons_self), if_neg hp]
      have hrest := ih (p := { p with params := p.params ++ [w] }) hp fun v hv ↦
        hws v (List.mem_cons_of_mem w hv)
      rw [List.foldl_cons, hw, hrest]
      simp

/-- The constructor: the line ending, the prefix, the cut, the words. -/
theorem parse_eq (s : Bytes) :
    let line := extractPrefix (stripLineEnding s)
    parse s = ofWords line.1 (words SPACE (cutTrailing line.2).1) (cutTrailing line.2).2 := by
  intro line
  change ((((cutTrailing line.2).1.splitOn SPACE).foldl addToken { pfx := line.1 }).addTrailing
    (cutTrailing line.2).2) = _
  rw [foldl_addToken]
  change ((words SPACE (cutTrailing line.2).1).foldl addToken _).addTrailing _ = _
  cases hw : words SPACE (cutTrailing line.2).1 with
  | nil => cases (cutTrailing line.2).2 <;> rfl
  | cons w ws =>
      have hmem : ∀ v ∈ w :: ws, v ≠ [] := fun v hv ↦ (of_mem_words (hw ▸ hv)).1
      have hfirst : addToken { pfx := line.1 } w = { pfx := line.1, command := commandOf w } := by
        rw [addToken, if_neg (hmem w List.mem_cons_self)]
        rfl
      rw [List.foldl_cons, hfirst, foldl_addToken_params (commandOf_ne_nil w) fun v hv ↦
        hmem v (List.mem_cons_of_mem w hv)]
      cases (cutTrailing line.2).2 <;> simp [addTrailing, ofWords]

/-- A parse, from what the steps yield. -/
theorem parse_of_steps {s pfx line : Bytes} {ws : List Bytes} {trailing : Option Bytes}
    (hp : extractPrefix (stripLineEnding s) = (pfx, line))
    (hw : words SPACE (cutTrailing line).1 = ws ∧ (cutTrailing line).2 = trailing) :
    parse s = ofWords pfx ws trailing := by
  rw [parse_eq s]
  simp only [hp, hw.1, hw.2]

/-- A line written as a text of words and a trailing part, after the prefix. -/
theorem cutTrailing_line {u : Bytes} {ws : List Bytes}
    (hu : ∀ n, Uncut (u ++ List.replicate n SPACE))
    (hws : ∀ n, words SPACE (u ++ List.replicate n SPACE) = ws) (trailing : Option Part) :
    let cut := cutTrailing (u ++ (trailing.map Part.trailing).getD [])
    words SPACE cut.1 = ws ∧ cut.2 = trailing.map Part.text := by
  cases trailing with
  | none =>
      have h := hws 0
      rw [List.replicate_zero, List.append_nil] at h
      rw [Option.map_none, Option.getD_none, List.append_nil, cutTrailing_of_uncut
        (by simpa using hu 0)]
      exact ⟨h, rfl⟩
  | some p =>
      have hline : u ++ p.trailing =
          (u ++ List.replicate p.gap SPACE) ++ SPACE :: COLON :: p.text := by
        rw [Part.trailing, List.replicate_succ']
        simp
      have huncut : Uncut ((u ++ List.replicate p.gap SPACE) ++ [SPACE]) := by
        have h := hu (p.gap + 1)
        rwa [List.replicate_succ', ← List.append_assoc] at h
      rw [Option.map_some, Option.getD_some, hline, cutTrailing_append p.text huncut]
      exact ⟨hws p.gap, rfl⟩

end Parser

/-! ## Parsing undoes formatting -/

/-- A structured message with its layout.  The gap of the command counts only after a
prefix, which is the one part that comes before it. -/
structure Message where
  pfx : Option Bytes
  command : Part
  middle : List Part
  trailing : Option Part

namespace Message

/-- The line of a message, without its ending. -/
def format (m : Message) : Bytes :=
  (match m.pfx with
    | some pfx => COLON :: pfx ++ m.command.str
    | none => m.command.text) ++
  m.middle.flatMap Part.str ++ (m.trailing.map Part.trailing).getD []

/-- The texts of a message. -/
def texts (m : Message) : List Bytes :=
  m.pfx.toList ++ m.command.text :: m.middle.map Part.text ++ (m.trailing.map Part.text).toList

structure WellFormed (m : Message) : Prop where
  pfx : ∀ pfx ∈ m.pfx, SPACE ∉ pfx
  command : IsToken m.command.text
  middle : ∀ p ∈ m.middle, IsToken p.text

/-- The line of a message after its prefix. -/
theorem cutTrailing_format {m : Message} (h : m.WellFormed) {u : Bytes}
    (hu : ∃ k, List.replicate k SPACE ++ u = (m.command :: m.middle).flatMap Part.str) :
    let cut := Parser.cutTrailing (u ++ (m.trailing.map Part.trailing).getD [])
    words SPACE cut.1 = m.command.text :: m.middle.map Part.text ∧
      cut.2 = m.trailing.map Part.text := by
  obtain ⟨k, hk⟩ := hu
  have htokens : ∀ p ∈ m.command :: m.middle, IsToken p.text := by
    intro p hp
    rcases List.mem_cons.mp hp with rfl | hp
    · exact h.command
    · exact h.middle p hp
  refine Parser.cutTrailing_line ?_ ?_ m.trailing
  · intro n
    have hall := uncut_parts htokens n
    rw [← hk, List.append_assoc] at hall
    exact hall.right_of_append
  · intro n
    have hall := words_parts htokens n
    rwa [← hk, List.append_assoc, words_replicate_append] at hall

/-- What the constructor makes of the line of a message, its ending stripped. -/
theorem parse_format_of_strip {m : Message} (h : m.WellFormed) {s : Bytes}
    (hs : Parser.stripLineEnding s = m.format) : Parser.parse s =
      ⟨m.pfx.getD [], Parser.commandOf m.command.text,
        m.middle.map Part.text ++ (m.trailing.map Part.text).toList⟩ := by
  cases hp : m.pfx with
  | none =>
      have hline : m.format = m.command.text ++ m.middle.flatMap Part.str ++
          (m.trailing.map Part.trailing).getD [] := by rw [format, hp]
      have hhead : m.format.head? ≠ some COLON := by
        rw [hline, List.append_assoc, List.head?_append_of_ne_nil _ h.command.ne_nil]
        exact h.command.head?_ne
      have hpfx : Parser.extractPrefix (Parser.stripLineEnding s) = ([], m.format) := by
        rw [hs, Parser.extractPrefix_of_head?_ne hhead]
      refine Parser.parse_of_steps (hline ▸ hpfx) (cutTrailing_format h ?_)
      exact ⟨m.command.gap + 1, by rw [List.flatMap_cons, Part.str, List.append_assoc]⟩
  | some pfx =>
      have hline : m.format = COLON :: pfx ++ SPACE :: (List.replicate m.command.gap SPACE ++
          m.command.text ++ m.middle.flatMap Part.str ++
          (m.trailing.map Part.trailing).getD []) := by
        rw [format, hp, Part.str, List.replicate_succ]
        simp
      have hpfx := Parser.extractPrefix_cons (List.replicate m.command.gap SPACE ++
        m.command.text ++ m.middle.flatMap Part.str ++ (m.trailing.map Part.trailing).getD [])
        (h.pfx pfx hp)
      rw [← hline, ← hs] at hpfx
      refine Parser.parse_of_steps hpfx (cutTrailing_format h ⟨1, ?_⟩)
      rw [List.replicate_one, List.flatMap_cons, Part.str, List.replicate_succ]
      simp

theorem notMem_format {m : Message} {a : UInt8} (hspace : a ≠ SPACE) (hcolon : a ≠ COLON)
    (h : ∀ t ∈ m.texts, a ∉ t) : a ∉ m.format := by
  have hstr : ∀ p : Part, a ∉ p.text → a ∉ p.str := by
    intro p hp
    simp [Part.str, List.mem_replicate, hspace, hp]
  have htrailing : a ∉ (m.trailing.map Part.trailing).getD [] := by
    cases ht : m.trailing with
    | none => exact List.not_mem_nil
    | some t =>
        have hmem : t.text ∈ m.texts := by simp [texts, ht]
        simp [Part.trailing, List.mem_replicate, hspace, hcolon, h _ hmem]
  have hmiddle : a ∉ m.middle.flatMap Part.str := by
    intro ha
    obtain ⟨p, hp, hap⟩ := List.mem_flatMap.mp ha
    have hmem : p.text ∈ m.texts := by
      simp only [texts, List.mem_append, List.mem_cons, List.mem_map]
      exact Or.inl (Or.inr (Or.inr ⟨p, hp, rfl⟩))
    exact hstr p (h _ hmem) hap
  have hcommand : a ∉ m.command.text := h _ (by simp [texts])
  rw [format, List.mem_append, List.mem_append, not_or, not_or]
  refine ⟨⟨?_, hmiddle⟩, htrailing⟩
  cases hp : m.pfx with
  | none => exact hcommand
  | some pfx =>
      have hpfx : a ∉ pfx := h _ (by simp [texts, hp])
      simp [hcolon, hpfx, hstr m.command hcommand]

end Message

/-- Parsing the formatted line of a message gives its parts back, whatever the gaps
between them and the line ending. -/
theorem parse_format {m : Message} (h : m.WellFormed)
    (hbreak : ∀ t ∈ m.texts, CR ∉ t ∧ LF ∉ t) {ending : Bytes}
    (he : ending ∈ [lit "\r\n", lit "\n", []]) : Parser.parse (m.format ++ ending) =
      ⟨m.pfx.getD [], if m.command.text.map Parser.toupper ∈ Parser.whitelist then
          m.command.text.map Parser.toupper else lit "UNKNOWN",
        m.middle.map Part.text ++ (m.trailing.map Part.text).toList⟩ := by
  refine Message.parse_format_of_strip h (Parser.stripLineEnding_append ?_ ?_ he)
  · exact Message.notMem_format (by decide) (by decide) fun t ht ↦ (hbreak t ht).1
  · exact Message.notMem_format (by decide) (by decide) fun t ht ↦ (hbreak t ht).2

/-- `:me  privmsg bob   : hi :there` with gaps. -/
theorem parse_format_privmsg :
    Parser.parse (lit ":me  privmsg bob   : hi :there\n") =
      ⟨lit "me", lit "PRIVMSG", [lit "bob", lit " hi :there"]⟩ :=
  @parse_format ⟨some (lit "me"), ⟨1, lit "privmsg"⟩, [⟨0, lit "bob"⟩], some ⟨2, lit " hi :there"⟩⟩
    ⟨by decide, ⟨by decide, by decide, by decide⟩, fun p hp ↦ by
      obtain rfl := List.mem_singleton.mp hp
      exact ⟨by decide, by decide, by decide⟩⟩ (by decide) (lit "\n") (by decide)

/-! ## The shape of every parse -/

namespace Parser

/-- The words before the trailing parameter, the command apart, are tokens. -/
theorem isToken_of_mem_words_tail {s w : Bytes}
    (hw : w ∈ (words SPACE (cutTrailing s).1).tail) : IsToken w where
  ne_nil := (of_mem_words (List.mem_of_mem_tail hw)).1
  notMem := (of_mem_words (List.mem_of_mem_tail hw)).2
  head?_ne := head?_ne_of_mem_words_tail (uncut_cutTrailing s) hw

/-- Every parse is a prefix without space, words of which all but the first are tokens, and
possibly a trailing parameter. -/
theorem exists_parse_eq (s : Bytes) : ∃ pfx ws trailing, parse s = ofWords pfx ws trailing ∧
    SPACE ∉ pfx ∧ ∀ w ∈ ws.tail, IsToken w :=
  ⟨_, _, _, parse_eq s, notMem_extractPrefix _, fun _ hw ↦ isToken_of_mem_words_tail hw⟩

/-- Every parameter but possibly the last is a token. -/
theorem isToken_of_mem_dropLast {s w : Bytes} (hw : w ∈ (parse s).params.dropLast) :
    IsToken w := by
  obtain ⟨pfx, ws, trailing, hparse, -, htokens⟩ := exists_parse_eq s
  rw [hparse] at hw
  refine htokens w ?_
  cases trailing with
  | none =>
      rw [ofWords, Option.toList_none, List.append_nil] at hw
      exact List.mem_of_mem_dropLast hw
  | some t => simpa [ofWords] using hw

/-- The first of several parameters is a middle one. -/
theorem isToken_of_params {s t x : Bytes} {rest : List Bytes}
    (h : (parse s).params = t :: x :: rest) : IsToken t := by
  have hdrop : t ∈ (parse s).params.dropLast := by simp [h]
  exact isToken_of_mem_dropLast hdrop

theorem command_mem (s : Bytes) :
    (parse s).command = [] ∨ (parse s).command ∈ whitelist ∨ (parse s).command = lit "UNKNOWN" := by
  obtain ⟨pfx, ws, trailing, hparse, -, -⟩ := exists_parse_eq s
  rw [hparse]
  cases ws with
  | nil => exact Or.inl rfl
  | cons w ws =>
      right
      change commandOf w ∈ whitelist ∨ commandOf w = _
      unfold commandOf
      split
      · rename_i h
        exact Or.inl h
      · exact Or.inr rfl

theorem length_params_le {s : Bytes} (h : (parse s).command = []) :
    (parse s).params.length ≤ 1 := by
  obtain ⟨pfx, ws, trailing, hparse, -, -⟩ := exists_parse_eq s
  rw [hparse] at h ⊢
  cases ws with
  | nil => cases trailing <;> simp [ofWords]
  | cons w ws => exact absurd h (commandOf_ne_nil w)

/-- Every letter of a parameter is a letter of the line. -/
theorem mem_of_mem_params {s w : Bytes} {a : UInt8} (hw : w ∈ (parse s).params) (ha : a ∈ w) :
    a ∈ s := by
  have hstrip : ∀ b ∈ stripLineEnding s, b ∈ s := by
    intro b hb
    unfold stripLineEnding at hb
    split at hb
    · exact List.mem_of_mem_take hb
    · split at hb
      · exact List.mem_of_mem_take hb
      · exact hb
  have hline : ∀ t : Bytes, ∀ b ∈ (extractPrefix t).2, b ∈ t := by
    intro t b hb
    unfold extractPrefix at hb
    split at hb
    · cases hf : find [SPACE] t with
      | none => simp [hf] at hb
      | some n =>
          simp only [hf] at hb
          exact List.mem_of_mem_drop hb
    · exact hb
  have hcut : ∀ t : Bytes, (∀ b ∈ (cutTrailing t).1, b ∈ t) ∧
      ∀ v ∈ (cutTrailing t).2, ∀ b ∈ v, b ∈ t := by
    intro t
    unfold cutTrailing
    cases find [SPACE, COLON] t with
    | none => simp
    | some n =>
        refine ⟨fun b hb ↦ List.mem_of_mem_take hb, ?_⟩
        intro v hv b hb
        obtain rfl := Option.some.inj hv
        exact List.mem_of_mem_drop hb
  rw [parse_eq s] at hw
  rcases List.mem_append.mp hw with hw | hw
  · exact hstrip a (hline _ a ((hcut _).1 a (mem_of_mem_words (List.mem_of_mem_tail hw) ha)))
  · exact hstrip a (hline _ a ((hcut _).2 w (Option.mem_toList.mp hw) a ha))

theorem notMem_pfx (s : Bytes) : SPACE ∉ (parse s).pfx := by
  obtain ⟨pfx, ws, trailing, hparse, hpfx, -⟩ := exists_parse_eq s
  rw [hparse]
  exact hpfx

/-! ## Formatting a parse -/

/-- A parse written as a line again. -/
def format (p : Parser) : Bytes :=
  (if p.pfx = [] then [] else COLON :: p.pfx ++ [SPACE]) ++ p.command ++
    p.params.dropLast.flatMap (SPACE :: ·) ++
    (match p.params.getLast? with
      | some t => SPACE :: COLON :: t
      | none => []) ++ lit "\r\n"

theorem commandOf_command (s : Bytes) (h : (parse s).command ≠ []) :
    commandOf (parse s).command = (parse s).command := by
  have hupper : ∀ w ∈ whitelist, w.map toupper = w := by decide
  rcases command_mem s with hc | hc | hc
  · exact absurd hc h
  · rw [commandOf, hupper _ hc, if_pos hc]
  · rw [hc]
    decide

theorem isToken_command {s : Bytes} (h : (parse s).command ≠ []) : IsToken (parse s).command := by
  have hall : ∀ w ∈ lit "UNKNOWN" :: whitelist, SPACE ∉ w ∧ w.head? ≠ some COLON := by decide
  have hmem : (parse s).command ∈ lit "UNKNOWN" :: whitelist := by
    rcases command_mem s with hc | hc | hc
    · exact absurd hc h
    · exact List.mem_cons_of_mem _ hc
    · exact hc ▸ List.mem_cons_self
  exact ⟨h, (hall _ hmem).1, (hall _ hmem).2⟩

/-- The words of a parse: the command and all parameters but the last. -/
def wordsOf (p : Parser) : List Bytes :=
  if p.command = [] then [] else p.command :: p.params.dropLast

/-- What `format` writes between the prefix and the last parameter. -/
def text (p : Parser) : Bytes := p.command ++ p.params.dropLast.flatMap (SPACE :: ·)

theorem dropLast_eq_nil {s : Bytes} (h : (parse s).command = []) :
    (parse s).params.dropLast = [] := by
  have hlen := length_params_le h
  exact List.eq_nil_of_length_eq_zero (by rw [List.length_dropLast]; omega)

theorem text_eq_nil {s : Bytes} (h : (parse s).command = []) : (parse s).text = [] := by
  rw [text, h, dropLast_eq_nil h]
  rfl

/-- A parse's words, each after one space. -/
theorem cons_text_eq {s : Bytes} (h : (parse s).command ≠ []) : ∃ ps : List Part,
    SPACE :: (parse s).text = ps.flatMap Part.str ∧ ps.map Part.text = (parse s).wordsOf ∧
      ∀ p ∈ ps, IsToken p.text := by
  refine ⟨(parse s).wordsOf.map (Part.mk 0), ?_, by simp [Function.comp_def], ?_⟩
  · rw [wordsOf, if_neg h, List.flatMap_map, List.flatMap_cons]
    rfl
  · intro p hp
    obtain ⟨w, hw, rfl⟩ := List.mem_map.mp hp
    rw [wordsOf, if_neg h] at hw
    rcases List.mem_cons.mp hw with rfl | hw
    · exact isToken_command h
    · exact isToken_of_mem_dropLast hw

theorem uncut_text (s : Bytes) (n : Nat) : Uncut ((parse s).text ++ List.replicate n SPACE) := by
  by_cases h : (parse s).command = []
  · rw [text_eq_nil h]
    exact uncut_replicate n
  · obtain ⟨ps, hps, -, htokens⟩ := cons_text_eq h
    have hall := uncut_parts htokens n
    rw [← hps, List.cons_append] at hall
    exact hall.tail

theorem words_text (s : Bytes) (n : Nat) :
    words SPACE ((parse s).text ++ List.replicate n SPACE) = (parse s).wordsOf := by
  by_cases h : (parse s).command = []
  · rw [text_eq_nil h, wordsOf, if_pos h]
    have hnone : ∀ p ∈ ([] : List Part), IsToken p.text := by simp
    exact words_parts hnone n
  · obtain ⟨ps, hps, hwords, htokens⟩ := cons_text_eq h
    have hall := words_parts htokens n
    rwa [← hps, List.cons_append, words_cons_self, hwords] at hall

/-- The last parameter is written as the trailing one. -/
def lastPart (p : Parser) : Option Part := p.params.getLast?.map (Part.mk 0)

theorem format_eq (p : Parser) : p.format =
    (if p.pfx = [] then [] else COLON :: p.pfx ++ [SPACE]) ++
      (p.text ++ (p.lastPart.map Part.trailing).getD []) ++ [CR, LF] := by
  have hcrlf : lit "\r\n" = [CR, LF] := by decide
  rw [format, text, lastPart, hcrlf]
  cases p.params.getLast? <;> simp [Part.trailing]

theorem extractPrefix_format (s : Bytes) :
    extractPrefix (stripLineEnding (parse s).format) =
      ((parse s).pfx, (parse s).text ++ ((parse s).lastPart.map Part.trailing).getD []) := by
  rw [format_eq, stripLineEnding_crlf]
  by_cases hp : (parse s).pfx = []
  · have hhead : ((parse s).text ++ ((parse s).lastPart.map Part.trailing).getD []).head? ≠
        some COLON := by
      by_cases h : (parse s).command = []
      · rw [text_eq_nil h]
        cases (parse s).lastPart with
        | none => simp
        | some t =>
            have hne : SPACE ≠ COLON := by decide
            simp [Part.trailing, List.replicate_succ, hne]
      · rw [text, List.append_assoc, List.head?_append_of_ne_nil _ h]
        exact (isToken_command h).head?_ne
    rw [hp, if_pos rfl, List.nil_append, extractPrefix_of_head?_ne hhead]
  · rw [if_neg hp, List.append_assoc]
    exact extractPrefix_cons _ (notMem_pfx s)

theorem ofWords_wordsOf (s : Bytes) :
    ofWords (parse s).pfx (parse s).wordsOf ((parse s).lastPart.map Part.text) = parse s := by
  have hlast : (parse s).lastPart.map Part.text = (parse s).params.getLast? := by
    simp [lastPart, Function.comp_def]
  have hparams : (parse s).params.dropLast ++ (parse s).params.getLast?.toList =
      (parse s).params := by
    rcases List.eq_nil_or_concat' (parse s).params with h | ⟨l, a, h⟩ <;> simp [h]
  rw [hlast, wordsOf]
  by_cases h : (parse s).command = []
  · rw [if_pos h]
    refine Parser.ext rfl h.symm ?_
    rwa [dropLast_eq_nil h] at hparams
  · rw [if_neg h]
    exact Parser.ext rfl (commandOf_command s h) hparams

/-- Formatting a parse and parsing the line gives it back. -/
theorem parse_format_parse (s : Bytes) : parse (parse s).format = parse s := by
  have hcut := cutTrailing_line (uncut_text s) (words_text s) (parse s).lastPart
  rw [parse_of_steps (extractPrefix_format s) hcut, ofWords_wordsOf]

end Parser

/-- Shape and stability of every parse: all parameters but possibly the last are tokens, the
command is one the parser knows, without a command there is at most one parameter, and
formatting and parsing the result again gives it back. -/
theorem parse_shape (s : Bytes) :
    (∀ w ∈ (Parser.parse s).params.dropLast, w ≠ [] ∧ SPACE ∉ w ∧ w.head? ≠ some COLON) ∧
    ((Parser.parse s).command = [] ∨ (Parser.parse s).command ∈ Parser.whitelist ∨
      (Parser.parse s).command = lit "UNKNOWN") ∧
    ((Parser.parse s).command = [] → (Parser.parse s).params.length ≤ 1) ∧
    Parser.parse (Parser.parse s).format = Parser.parse s := by
  refine ⟨?_, Parser.command_mem s, Parser.length_params_le, Parser.parse_format_parse s⟩
  intro w hw
  have htoken := Parser.isToken_of_mem_dropLast hw
  exact ⟨htoken.ne_nil, htoken.notMem, htoken.head?_ne⟩

end IrcServer
