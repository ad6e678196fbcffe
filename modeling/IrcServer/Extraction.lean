import IrcServer.Stream

/-!
# The lines of a read buffer

The loop `while hasCompleteCommand, extractCommandFromBuffer` by itself, and what it takes
from a read buffer to which text is appended piece by piece: the lines of the whole text,
wherever it is cut (`readAll_eq_lines`).  A loop that would not end has no result here, and
there is none: it takes a turn for every LF (`extractAll_eq`).  `receiveData` runs the loop
with the processing of the commands in its turns, and takes the same commands
(`lookup_receiveData`).
-/

namespace IrcServer

open Library

namespace Client

/-- The loop, for at most so many turns: the commands extracted, and the client if it has
ended. -/
def extractAll : Nat → Client → Option (List Bytes × Client)
  | 0, c => if c.hasCompleteCommand then none else some ([], c)
  | n + 1, c =>
      if c.hasCompleteCommand then
        (extractAll n c.extractCommandFromBuffer.2).map fun (commands, c') ↦
          (c.extractCommandFromBuffer.1 :: commands, c')
      else some ([], c)

/-- `appendToReadBuffer` for one piece after the other, with the loop after each: the
commands each loop extracted, and the client. -/
def readAll (turns : Nat) : Client → List Bytes → Option (List (List Bytes) × Client)
  | c, [] => some ([], c)
  | c, data :: rest =>
      match extractAll turns (c.appendToReadBuffer data) with
      | none => none
      | some (commands, c') =>
          match readAll turns c' rest with
          | none => none
          | some (more, c'') => some (commands :: more, c'')

/-- The client that has read so much of its buffer that only this is left. -/
abbrev leaving (c : Client) (rest : Bytes) : Client := { c with readBuffer := rest }

/-- The loop takes the lines of the buffer, in as many turns as it has LFs. -/
theorem extractAll_eq (n : Nat) (c : Client) : c.extractAll n =
    if c.readBuffer.count LF ≤ n
    then some (lines LF CR c.readBuffer, c.leaving (unfinished LF c.readBuffer)) else none := by
  induction n generalizing c with
  | zero =>
      rw [extractAll]
      by_cases hmem : LF ∈ c.readBuffer
      · have hcount : ¬ c.readBuffer.count LF ≤ 0 := Nat.not_le.mpr (List.count_pos_iff.mpr hmem)
        rw [if_pos (hasCompleteCommand_iff.mpr hmem), if_neg hcount]
      · rw [if_neg fun h ↦ hmem (hasCompleteCommand_iff.mp h), lines_of_notMem CR hmem,
          unfinished_of_notMem hmem, List.count_eq_zero_of_not_mem hmem, if_pos le_rfl]
  | succ n ih =>
      rw [extractAll]
      by_cases hmem : LF ∈ c.readBuffer
      · obtain ⟨w, rest, hb, hw⟩ := List.eq_append_cons_of_mem hmem
        have hcount : c.readBuffer.count LF = rest.count LF + 1 := by
          rw [hb, List.count_append, List.count_cons_self, List.count_eq_zero_of_not_mem hw,
            Nat.zero_add]
        rw [if_pos (hasCompleteCommand_iff.mpr hmem), extractCommandFromBuffer_eq hb hw, ih,
          hcount, hb, lines_append_cons CR rest hw, unfinished_append_cons rest hw]
        simp only [Nat.add_le_add_iff_right]
        split <;> rfl
      · rw [if_neg fun h ↦ hmem (hasCompleteCommand_iff.mp h), lines_of_notMem CR hmem,
          unfinished_of_notMem hmem, List.count_eq_zero_of_not_mem hmem, if_pos (Nat.zero_le _)]

/-- The loop after an append, when the buffer was read as far as it goes. -/
theorem extractAll_append {turns : Nat} {c : Client} (hc : LF ∉ c.readBuffer) {data : Bytes}
    (hturns : data.count LF ≤ turns) :
    extractAll turns (c.appendToReadBuffer data) = some (lines LF CR (c.readBuffer ++ data),
      c.leaving (unfinished LF (c.readBuffer ++ data))) := by
  have hcount : (c.readBuffer ++ data).count LF = data.count LF := by
    rw [List.count_append, List.count_eq_zero_of_not_mem hc, Nat.zero_add]
  rw [extractAll_eq]
  exact if_pos (hcount.trans_le hturns)

theorem readAll_eq {turns : Nat} {c : Client} (hc : LF ∉ c.readBuffer) {pieces : List Bytes}
    (hturns : ∀ data ∈ pieces, data.count LF ≤ turns) :
    ∃ commands, c.readAll turns pieces =
        some (commands, c.leaving (unfinished LF (c.readBuffer ++ pieces.flatten))) ∧
      commands.flatten = lines LF CR (c.readBuffer ++ pieces.flatten) ∧
      commands.map List.length = pieces.map (List.count LF) := by
  induction pieces generalizing c with
  | nil =>
      refine ⟨[], ?_, ?_, rfl⟩
      · rw [readAll, List.flatten_nil, List.append_nil, unfinished_of_notMem hc]
      · rw [List.flatten_nil, List.flatten_nil, List.append_nil, lines_of_notMem CR hc]
  | cons data rest ih =>
      obtain ⟨hdata, hrest⟩ := List.forall_mem_cons.mp hturns
      obtain ⟨more, hmore, hflatten, hlengths⟩ := ih
        (c := c.leaving (unfinished LF (c.readBuffer ++ data))) (notMem_unfinished LF _) hrest
      refine ⟨lines LF CR (c.readBuffer ++ data) :: more, ?_, ?_, ?_⟩
      · rw [readAll, extractAll_append hc hdata]
        dsimp only
        rw [hmore, List.flatten_cons, ← List.append_assoc,
          unfinished_append LF (c.readBuffer ++ data)]
      · rw [List.flatten_cons, hflatten, List.flatten_cons, ← List.append_assoc,
          lines_append LF CR (c.readBuffer ++ data)]
      · rw [List.map_cons, List.map_cons, hlengths, length_lines, List.count_append,
          List.count_eq_zero_of_not_mem hc, Nat.zero_add]

end Client

/-- `receiveData` takes the commands that the loop takes by itself, whatever they do. -/
theorem lookup_receiveData {s : Server} {fd : Int} {c c' : Client}
    (hc : s.clients.lookup fd = some c) {chunk : Bytes} (hne : chunk ≠ []) {turns : Nat}
    {commands : List Bytes}
    (h : (c.appendToReadBuffer (cString chunk)).extractAll turns = some (commands, c')) :
    ∃ c'', (s.receiveData fd (.ok chunk)).clients.lookup fd = some c'' ∧
      c''.readBuffer = c'.readBuffer ∧ c''.executed = c.executed ++ commands := by
  obtain ⟨c'', hc'', hbuf, hexec⟩ := Server.lookup_absorb hc (cString chunk)
  rw [Client.extractAll_eq] at h
  obtain ⟨-, h⟩ := Option.ite_none_right_eq_some.mp h
  obtain ⟨rfl, rfl⟩ := Prod.mk.inj (Option.some.inj h)
  exact ⟨c'', by rw [Server.receiveData_eq hc hne, hc''], hbuf, hexec⟩

/-- Text appended in any pieces is read as its lines, and what follows the last LF stays;
every loop ends, with a command for every LF. -/
theorem readAll_eq_lines (c : Client) (pieces : List Bytes) (hc : LF ∉ c.readBuffer)
    {turns : Nat} (hturns : ∀ data ∈ pieces, data.count LF ≤ turns) :
    (∃ commands, c.readAll turns pieces =
        some (commands, { c with readBuffer := unfinished LF (c.readBuffer ++ pieces.flatten) }) ∧
      commands.flatten = lines LF CR (c.readBuffer ++ pieces.flatten) ∧
      commands.map List.length = pieces.map (List.count LF)) ∧
    ∀ (n : Nat) (c : Client), c.extractAll n = if c.readBuffer.count LF ≤ n
      then some (lines LF CR c.readBuffer, { c with readBuffer := unfinished LF c.readBuffer })
      else none :=
  ⟨Client.readAll_eq hc hturns, Client.extractAll_eq⟩

/-- A CR and its LF in two pieces, an empty line, and a CR in a line. -/
theorem readAll_eq_lines_pieces :
    (∃ commands, ({} : Client).readAll 2 [lit "NICK ann\r", lit "\n\nPI\rNG", lit " x\r\r\nUS"] =
        some (commands, { ({} : Client) with
          readBuffer := unfinished LF (lit "NICK ann\r\n\nPI\rNG x\r\r\nUS") }) ∧
      commands.flatten = lines LF CR (lit "NICK ann\r\n\nPI\rNG x\r\r\nUS") ∧
      commands.map List.length = [0, 2, 1]) ∧
    ∀ (n : Nat) (c : Client), c.extractAll n = if c.readBuffer.count LF ≤ n
      then some (lines LF CR c.readBuffer, { c with readBuffer := unfinished LF c.readBuffer })
      else none :=
  readAll_eq_lines {} [lit "NICK ann\r", lit "\n\nPI\rNG", lit " x\r\r\nUS"] List.not_mem_nil
    (by decide)

end IrcServer
