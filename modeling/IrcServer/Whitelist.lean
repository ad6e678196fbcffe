import IrcServer.Refusals
import IrcServer.Runs
import IrcServer.ParserLaws

/-!
# The parser's whitelist and the dispatcher

Which handler a line reaches is decided in two places.  `setCommand` lets the words of its
whitelist through and stores `UNKNOWN` for the others; `processCommand` knows the commands
of `handlers`.  `NAMES` is missing from the whitelist, so that its handler is never reached;
and since the word is gone by the time 421 is sent, 421 names the command `UNKNOWN`
(`agrees_iff`).
-/

namespace IrcServer

open Library Commands

namespace Parser

/-- The command word of a line, as it was sent. -/
def commandWord (message : Bytes) : Option Bytes :=
  (words SPACE (cutTrailing (extractPrefix (stripLineEnding message)).2).1).head?

theorem command_eq {message w : Bytes} (h : commandWord message = some w) :
    (parse message).command = commandOf w := by
  rw [parse_eq]
  simp only [commandWord] at h
  simp only [ofWords, h, Option.map_some, Option.getD_some]

end Parser

/-- The commands of the dispatcher, with what is run for them. -/
def handlers : List (Bytes × (Server → Int → Parser → Server)) :=
  [(lit "PASS", handlePass), (lit "NICK", handleNick), (lit "USER", handleUser),
    (lit "CAP", fun s _ _ ↦ s), (lit "PING", handlePing), (lit "PONG", handlePong),
    (lit "QUIT", handleQuit), (lit "PRIVMSG", handlePrivMsg)] ++
  [ChannelCommand.invite, .join, .kick, .mode, .names, .part, .topic].map fun c ↦
    (c.word, fun s client cmd ↦ (c.execute s client cmd.params).1)

/-- What is run for a command, when the dispatcher has it. -/
def handlerOf (command : Bytes) : Option (Server → Int → Parser → Server) :=
  handlers.lookup command

/-- A line with the command word `w` is taken to the handler of the command and not answered
with 421, or, when there is no handler, answered with one 421 that names `w`. -/
def Agrees (s : Server) (fd : Int) (w : Bytes) (cmd : Parser) : Prop :=
  match handlerOf (w.map Parser.toupper) with
  | some handler => processCommand s fd cmd = handler s fd cmd ∧
      Says (·.numeric ≠ some 421) s (processCommand s fd cmd)
  | none => processCommand s fd cmd =
      s.reply fd (.errUnknownCommand (s.client fd).nickname w)

/-- `NAMES` is the one command that the whitelist lacks. -/
theorem isSome_handlerOf_iff (command : Bytes) :
    (handlerOf command).isSome = true ↔ command = lit "NAMES" ∨ command ∈ Parser.whitelist := by
  have hperm : (handlers.map Prod.fst).Perm (lit "NAMES" :: Parser.whitelist) := by decide
  rw [handlerOf, List.lookup_isSome_iff, ← List.mem_cons, ← hperm.mem_iff, List.mem_map]
  simp only [beq_iff_eq, @eq_comm _ command]

section

variable {s : Server} {fd : Int} {cmd : Parser}

theorem processCommand_of_handlerOf {handler : Server → Int → Parser → Server}
    (h : handlerOf cmd.command = some handler) (hreg : (s.client fd).isRegistered = true) :
    processCommand s fd cmd = handler s fd cmd := by
  have hmem : (cmd.command, handler) ∈ handlers := by
    obtain ⟨l, l', heq, -⟩ := List.lookup_eq_some_iff.mp h
    rw [heq]
    exact List.mem_append_right _ List.mem_cons_self
  rcases List.mem_append.mp hmem with hmem | hmem
  · simp only [List.mem_cons, Prod.mk.injEq, List.not_mem_nil, or_false] at hmem
    rcases hmem with ⟨hw, rfl⟩ | ⟨hw, rfl⟩ | ⟨hw, rfl⟩ | ⟨hw, rfl⟩ | ⟨hw, rfl⟩ | ⟨hw, rfl⟩ |
      ⟨hw, rfl⟩ | ⟨hw, rfl⟩
    · simp [processCommand, hw]
    · simp [processCommand, hw]
    · simp [processCommand, hw]
    · simp [processCommand, hw]
    · rw [processCommand_of_mem_closed (hw ▸ by decide) hreg]
      simp [dispatchClosed, hw]
    · rw [processCommand_of_mem_closed (hw ▸ by decide) hreg]
      simp [dispatchClosed, hw]
    · rw [processCommand_of_mem_closed (hw ▸ by decide) hreg]
      simp [dispatchClosed, hw]
    · rw [processCommand_of_mem_closed (hw ▸ by decide) hreg]
      simp [dispatchClosed, hw]
  · obtain ⟨c, -, hc⟩ := List.mem_map.mp hmem
    obtain ⟨hword, rfl⟩ := Prod.mk.inj hc
    exact processCommand_of_word hword.symm hreg

theorem processCommand_of_unknown (h : cmd.command = lit "UNKNOWN")
    (hreg : (s.client fd).isRegistered = true) : processCommand s fd cmd =
      s.reply fd (.errUnknownCommand (s.client fd).nickname (lit "UNKNOWN")) := by
  rw [processCommand_of_mem_closed (h ▸ by decide) hreg]
  simp [dispatchClosed, h]

/-- No handler sends 421. -/
theorem Handled.says {s' : Server} (h : Handled s fd s') : Says (·.numeric ≠ some 421) s s' := by
  cases h with
  | refused m hm => exact .reply fd (Reply.numeric_ne hm (by decide))
  | dismissed nick =>
      exact .trans (.reply fd (by simp [Reply.numeric])) (.silent fd fun _ ↦ rfl)
  | served _ hsays =>
      apply hsays.mono
      intro m hm hnumeric
      have herr := hm.1
      rw [Reply.isError, Reply.isAmong, hnumeric] at herr
      exact absurd herr (by decide)

/-- Where the whitelist lets a word through, no 421 is sent. -/
theorem says_of_ne_unknown (h : cmd.command ≠ lit "UNKNOWN") :
    Says (·.numeric ≠ some 421) s (processCommand s fd cmd) := by
  rcases (processCommand_dispatched s fd cmd).handled with hhandled | ⟨hunknown, -⟩
  · exact hhandled.says
  · exact absurd hunknown h

/-- A client can tell what it was answered. -/
theorem Server.eq_of_reply_eq {c : Client} (hc : s.clients.lookup fd = some c) {m n : Reply}
    (h : s.reply fd m = s.reply fd n) : m = n := by
  have hl := congrArg (fun s : Server ↦ (s.clients.lookup fd).map Client.written) h
  simp only [reply, lookup_modify_self, hc, Option.map_some, Client.appendToWriteBuffer] at hl
  exact (List.append_cancel_left (Option.some.inj hl) |> List.cons.inj).1

/-- A line agrees exactly when its word is a command other than `NAMES`, or when it is the
word that 421 names. -/
theorem agrees_iff {line w : Bytes} (hreg : (s.client fd).isRegistered = true)
    (hw : Parser.commandWord line = some w) :
    Agrees s fd w (Parser.parse line) ↔
      (handlerOf (w.map Parser.toupper)).isSome = true ∧ w.map Parser.toupper ≠ lit "NAMES" ∨
        w = lit "UNKNOWN" := by
  have hcommand := Parser.command_eq hw
  have hc := Server.lookup_of_isRegistered hreg
  by_cases hwhite : w.map Parser.toupper ∈ Parser.whitelist
  · rw [Parser.commandOf, if_pos hwhite] at hcommand
    have hne : w.map Parser.toupper ≠ lit "NAMES" := fun h ↦ absurd (h ▸ hwhite) (by decide)
    have hsome := (isSome_handlerOf_iff _).mpr (Or.inr hwhite)
    refine iff_of_true ?_ (Or.inl ⟨hsome, hne⟩)
    obtain ⟨handler, hhandler⟩ := Option.isSome_iff_exists.mp hsome
    rw [Agrees, hhandler]
    refine ⟨processCommand_of_handlerOf (hcommand ▸ hhandler) hreg, says_of_ne_unknown ?_⟩
    exact fun h ↦ absurd ((hcommand ▸ h) ▸ hwhite) (by decide)
  · rw [Parser.commandOf, if_neg hwhite] at hcommand
    have hunknown := processCommand_of_unknown hcommand hreg
    rw [Agrees, hunknown]
    cases hhandler : handlerOf (w.map Parser.toupper) with
    | some handler =>
        have hnames : w.map Parser.toupper = lit "NAMES" :=
          ((isSome_handlerOf_iff _).mp (by rw [hhandler]; rfl)).resolve_right hwhite
        refine iff_of_false ?_ ?_
        · rintro ⟨-, hsays⟩
          obtain ⟨ms, hms, hl⟩ := hsays fd
          rw [Server.reply, Server.lookup_modify_self, hc] at hl
          have hmem := List.append_cancel_left (Option.some.inj hl)
          exact hms _ (hmem ▸ List.mem_singleton_self _) rfl
        · rintro (⟨-, hne⟩ | rfl)
          · exact hne hnames
          · exact absurd hnames (by decide)
    | none =>
        constructor
        · intro h
          exact Or.inr (Reply.errUnknownCommand.inj (Server.eq_of_reply_eq hc h)).2.symm
        · rintro (⟨hsome, -⟩ | rfl)
          · exact absurd hsome Bool.false_ne_true
          · rfl

end

/-- A registered client pings. -/
theorem agrees_iff_ping :
    let s := network.run (Server.initial 3 (lit "pw")) [.accept 4 ⟨127, 0, 0, 1⟩,
      .receive 4 (lit "PASS pw\nNICK ann\nUSER ann 0 * :Ann\n"), .line 4, .line 4, .line 4]
    Agrees s 4 (lit "ping") (Parser.parse (lit "ping :token")) ↔
      (handlerOf ((lit "ping").map Parser.toupper)).isSome = true ∧
        (lit "ping").map Parser.toupper ≠ lit "NAMES" ∨ lit "ping" = lit "UNKNOWN" :=
  agrees_iff (by decide +kernel) (by decide)

/-- A registered client asks for the names in a channel and is told that there is no such
command; whatever else it sends that is unknown, it is told so of `UNKNOWN`. -/
theorem not_agrees_names :
    let s := network.run (Server.initial 3 (lit "pw")) [.accept 4 ⟨127, 0, 0, 1⟩,
      .receive 4 (lit "PASS pw\nNICK ann\nUSER ann 0 * :Ann\n"), .line 4, .line 4, .line 4]
    (s.client 4).isRegistered = true ∧
      ¬ Agrees s 4 (lit "NAMES") (Parser.parse (lit "NAMES #c")) ∧
      ¬ Agrees s 4 (lit "WHOIS") (Parser.parse (lit "WHOIS ann")) := by
  intro s
  refine ⟨by decide +kernel, ?_, ?_⟩
  · intro h
    have hbuffer := congrArg (fun s ↦ (Server.client s 4).writeBuffer) h.1
    exact absurd hbuffer (by decide +kernel)
  · intro h
    have hbuffer := congrArg (fun s ↦ (Server.client s 4).writeBuffer) h
    exact absurd hbuffer (by decide +kernel)

end IrcServer
