import IrcServer.Commands

/-!
# Dispatch

`processCommand` compares the command with one name after the other; the channel
commands are looked up in a list of their own in between, and an exception is how that
list says that a command is not in it.  `Dispatched` has one case for every way through,
with what is known there of the command and its sender, so that a law about lines is a
law about each handler.
-/

namespace IrcServer

open Commands

namespace ChannelCommand

/-- The name of a channel command. -/
def word : ChannelCommand → Bytes
  | invite => lit "INVITE"
  | join => lit "JOIN"
  | kick => lit "KICK"
  | mode => lit "MODE"
  | names => lit "NAMES"
  | part => lit "PART"
  | topic => lit "TOPIC"

theorem makeCommand_word (c : ChannelCommand) : makeCommand c.word = .ok c := by
  cases c <;> decide

/-- `makeCommand` knows the seven names and no other. -/
theorem word_of_makeCommand {command : Bytes} {c : ChannelCommand}
    (h : makeCommand command = .ok c) : command = c.word := by
  have hnth : commandStrings[makeCommandNumber command]? = some c.word := by
    unfold makeCommand at h
    split at h <;> cases h <;> rename_i hn <;> rw [hn] <;> rfl
  obtain ⟨hlt, hget⟩ := List.getElem?_eq_some_iff.mp hnth
  exact (List.getElem_idxOf hlt).symm.trans hget

/-- Only `JOIN` ends in an exception, and it does so before it does anything. -/
theorem execute_exception {s s' : Server} {fd : Int} {params : List Bytes} {c : ChannelCommand}
    {e : ChannelException} (h : c.execute s fd params = (s', some e)) : c = join ∧ s' = s := by
  cases c with
  | join =>
      rw [execute, Join.execute_eq] at h
      exact ⟨rfl, (Prod.mk.inj h).1.symm⟩
  | invite | kick | mode | names | part | topic => exact absurd (congrArg Prod.snd h) nofun

end ChannelCommand

/-- The commands that `processCommand` lets through from anybody. -/
def openCommands : List Bytes := [lit "PASS", lit "NICK", lit "USER", lit "CAP"]

/-- The commands that are compared after the channel commands. -/
def closedCommands : List Bytes :=
  [lit "PING", lit "PONG", lit "QUIT", lit "PRIVMSG", lit "UNKNOWN"]

/-- What `processCommand` makes of a line: the result of one handler. -/
inductive Dispatched (s : Server) (fd : Int) (cmd : Parser) : Server → Prop where
  | pass (h : cmd.command = lit "PASS") : Dispatched s fd cmd (handlePass s fd cmd)
  | nick (h : cmd.command = lit "NICK") : Dispatched s fd cmd (handleNick s fd cmd)
  | user (h : cmd.command = lit "USER") : Dispatched s fd cmd (handleUser s fd cmd)
  | cap (h : cmd.command = lit "CAP") : Dispatched s fd cmd s
  | unregistered (h : cmd.command ∉ openCommands) (hreg : (s.client fd).isRegistered = false) :
      Dispatched s fd cmd (s.reply fd (.errNotRegistered (s.client fd).nickname))
  | executed (c : ChannelCommand) (h : cmd.command = c.word)
      (hreg : (s.client fd).isRegistered = true) (s' : Server)
      (hexec : c.execute s fd cmd.params = (s', none)) : Dispatched s fd cmd s'
  | thrown (c : ChannelCommand) (h : cmd.command = c.word)
      (hreg : (s.client fd).isRegistered = true) (e : ChannelException)
      (hexec : c.execute s fd cmd.params = (s, some e)) : Dispatched s fd cmd s
  | ping (h : cmd.command = lit "PING") (hreg : (s.client fd).isRegistered = true) :
      Dispatched s fd cmd (handlePing s fd cmd)
  | pong (h : cmd.command = lit "PONG") (hreg : (s.client fd).isRegistered = true) :
      Dispatched s fd cmd (handlePong s fd cmd)
  | quit (h : cmd.command = lit "QUIT") (hreg : (s.client fd).isRegistered = true) :
      Dispatched s fd cmd (handleQuit s fd cmd)
  | privMsg (h : cmd.command = lit "PRIVMSG") (hreg : (s.client fd).isRegistered = true) :
      Dispatched s fd cmd (handlePrivMsg s fd cmd)
  | unknown (h : cmd.command = lit "UNKNOWN") (hreg : (s.client fd).isRegistered = true) :
      Dispatched s fd cmd (s.reply fd (.errUnknownCommand (s.client fd).nickname cmd.command))
  | ignored (h : cmd.command ∉ openCommands ++ closedCommands)
      (hreg : (s.client fd).isRegistered = true)
      (hword : ∀ c : ChannelCommand, cmd.command ≠ c.word) : Dispatched s fd cmd s

section

variable {s : Server} {fd : Int} {cmd : Parser}

/-- The comparisons that follow when a command was not handled as a channel command. -/
def dispatchClosed (s : Server) (client : Int) (cmd : Parser) : Server :=
  if cmd.command = lit "PING" then handlePing s client cmd
  else if cmd.command = lit "PONG" then handlePong s client cmd
  else if cmd.command = lit "QUIT" then handleQuit s client cmd
  else if cmd.command = lit "PRIVMSG" then handlePrivMsg s client cmd
  else if cmd.command = lit "UNKNOWN" then
    s.reply client (.errUnknownCommand (s.client client).nickname cmd.command)
  else s

theorem processCommand_of_notMem_open (h : cmd.command ∉ openCommands) :
    processCommand s fd cmd =
      if !(s.client fd).isRegistered then s.reply fd (.errNotRegistered (s.client fd).nickname)
      else match isChannelCommand s fd cmd.command cmd.params with
        | (true, s) => s
        | (false, s) => dispatchClosed s fd cmd := by
  obtain ⟨hpass, hnick, huser, hcap⟩ : cmd.command ≠ lit "PASS" ∧ cmd.command ≠ lit "NICK" ∧
      cmd.command ≠ lit "USER" ∧ cmd.command ≠ lit "CAP" := by simpa [openCommands] using h
  rw [processCommand, if_neg hpass, if_neg hnick, if_neg huser, if_neg hcap]
  rfl

theorem dispatchClosed_of_notMem (h : cmd.command ∉ closedCommands) :
    dispatchClosed s fd cmd = s := by
  obtain ⟨hping, hpong, hquit, hmsg, hunknown⟩ : cmd.command ≠ lit "PING" ∧
      cmd.command ≠ lit "PONG" ∧ cmd.command ≠ lit "QUIT" ∧ cmd.command ≠ lit "PRIVMSG" ∧
      cmd.command ≠ lit "UNKNOWN" := by simpa [closedCommands] using h
  rw [dispatchClosed, if_neg hping, if_neg hpong, if_neg hquit, if_neg hmsg, if_neg hunknown]

theorem dispatched_closed (h : cmd.command ∉ openCommands)
    (hreg : (s.client fd).isRegistered = true)
    (hword : ∀ c : ChannelCommand, cmd.command ≠ c.word) :
    Dispatched s fd cmd (dispatchClosed s fd cmd) := by
  by_cases hclosed : cmd.command ∈ closedCommands
  · simp only [closedCommands, List.mem_cons, List.not_mem_nil, or_false] at hclosed
    rcases hclosed with h | h | h | h | h
    · have heq : dispatchClosed s fd cmd = handlePing s fd cmd := by simp [dispatchClosed, h]
      exact heq ▸ .ping h hreg
    · have heq : dispatchClosed s fd cmd = handlePong s fd cmd := by simp [dispatchClosed, h]
      exact heq ▸ .pong h hreg
    · have heq : dispatchClosed s fd cmd = handleQuit s fd cmd := by simp [dispatchClosed, h]
      exact heq ▸ .quit h hreg
    · have heq : dispatchClosed s fd cmd = handlePrivMsg s fd cmd := by simp [dispatchClosed, h]
      exact heq ▸ .privMsg h hreg
    · have heq : dispatchClosed s fd cmd =
          s.reply fd (.errUnknownCommand (s.client fd).nickname cmd.command) := by
        simp [dispatchClosed, h]
      exact heq ▸ .unknown h hreg
  · rw [dispatchClosed_of_notMem hclosed]
    exact .ignored (fun hmem ↦ (List.mem_append.mp hmem).elim h hclosed) hreg hword

/-- The names of channel commands are none of the others. -/
theorem ChannelCommand.word_notMem (c : ChannelCommand) :
    c.word ∉ openCommands ++ closedCommands := by cases c <;> decide

/-- A channel command comes to what its `execute` leaves, whether or not it throws. -/
theorem processCommand_of_word {c : ChannelCommand} (h : cmd.command = c.word)
    (hreg : (s.client fd).isRegistered = true) :
    processCommand s fd cmd = (c.execute s fd cmd.params).1 := by
  have hopen : cmd.command ∉ openCommands := fun hmem ↦
    c.word_notMem (h ▸ List.mem_append_left _ hmem)
  have hclosed : cmd.command ∉ closedCommands := fun hmem ↦
    c.word_notMem (h ▸ List.mem_append_right _ hmem)
  have hmake : ChannelCommand.makeCommand cmd.command = .ok c := h ▸ c.makeCommand_word
  rw [processCommand_of_notMem_open hopen, hreg]
  simp only [Bool.not_true, Bool.false_eq_true, if_false, isChannelCommand, hmake]
  cases hexec : c.execute s fd cmd.params with
  | mk s' thrown =>
      cases thrown with
      | none => rfl
      | some e =>
          obtain ⟨-, rfl⟩ := ChannelCommand.execute_exception hexec
          exact dispatchClosed_of_notMem hclosed

/-- The commands that come after the channel commands are none of them. -/
theorem processCommand_of_mem_closed (h : cmd.command ∈ closedCommands)
    (hreg : (s.client fd).isRegistered = true) :
    processCommand s fd cmd = dispatchClosed s fd cmd := by
  have hapart : ∀ w ∈ closedCommands, w ∉ openCommands := by decide
  rw [processCommand_of_notMem_open (hapart _ h), hreg]
  cases hmake : ChannelCommand.makeCommand cmd.command with
  | error e => simp only [Bool.not_true, Bool.false_eq_true, if_false, isChannelCommand, hmake]
  | ok c =>
      have hword := ChannelCommand.word_of_makeCommand hmake
      exact absurd (List.mem_append_right _ (hword ▸ h)) c.word_notMem

/-- Every way through `processCommand` is one of the cases. -/
theorem processCommand_dispatched (s : Server) (fd : Int) (cmd : Parser) :
    Dispatched s fd cmd (processCommand s fd cmd) := by
  by_cases hopen : cmd.command ∈ openCommands
  · simp only [openCommands, List.mem_cons, List.not_mem_nil, or_false] at hopen
    rcases hopen with h | h | h | h
    · have heq : processCommand s fd cmd = handlePass s fd cmd := by simp [processCommand, h]
      exact heq ▸ .pass h
    · have heq : processCommand s fd cmd = handleNick s fd cmd := by simp [processCommand, h]
      exact heq ▸ .nick h
    · have heq : processCommand s fd cmd = handleUser s fd cmd := by simp [processCommand, h]
      exact heq ▸ .user h
    · have heq : processCommand s fd cmd = s := by simp [processCommand, h]
      exact heq.symm ▸ .cap h
  · cases hreg : (s.client fd).isRegistered with
    | false =>
        rw [processCommand_of_notMem_open hopen, hreg]
        exact .unregistered hopen hreg
    | true =>
        cases hmake : ChannelCommand.makeCommand cmd.command with
        | error e =>
            rw [processCommand_of_notMem_open hopen, hreg]
            simp only [Bool.not_true, Bool.false_eq_true, if_false, isChannelCommand, hmake]
            apply dispatched_closed hopen hreg
            intro c hword
            rw [hword, c.makeCommand_word] at hmake
            cases hmake
        | ok c =>
            have hword := ChannelCommand.word_of_makeCommand hmake
            rw [processCommand_of_word hword hreg]
            cases hexec : c.execute s fd cmd.params with
            | mk s' thrown =>
                cases thrown with
                | none => exact .executed c hword hreg s' hexec
                | some e =>
                    obtain ⟨-, rfl⟩ := ChannelCommand.execute_exception hexec
                    exact .thrown c hword hreg e hexec

end

end IrcServer
