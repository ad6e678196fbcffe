import IrcServer.Names

/-!
# The framing of what is sent

Every text the handlers append is one line: fixed words, some texts of clients, and one
CR LF at the end.  The texts of clients never contain an LF, since lines are cut at the
first one; but the framer and the parser take off at most one CR, at the end of a line,
so that a CR elsewhere in a line gets into the texts.  `echoed` lists the texts that the
answer to a line quotes, and all that is ever sent is framed exactly in the runs in which
none of them contains a CR (`framed_iff`).
-/

namespace IrcServer

open Library Commands

variable {serverSocket : Int} {password : Bytes} {es : List Event}

/-- A letter that breaks lines. -/
abbrev Break (a : UInt8) : Prop := a = CR ∨ a = LF

/-! ## One text -/

/-- A text without such letters. -/
def unbroken (s : Bytes) : Bool := s.all fun b ↦ b ≠ CR && b ≠ LF

theorem notMem_of_unbroken {a : UInt8} (ha : Break a) {s : Bytes} (hs : unbroken s = true) :
    a ∉ s := by
  intro h
  have hboth := List.all_eq_true.mp hs a h
  rw [Bool.and_eq_true, decide_eq_true_iff, decide_eq_true_iff] at hboth
  exact ha.elim hboth.1 hboth.2

theorem notMem_lit {a : UInt8} (ha : Break a) {s : String} (hs : unbroken (lit s) = true) :
    a ∉ lit s := notMem_of_unbroken ha hs

namespace Reply

/-- The texts of clients that a reply quotes. -/
def fields : Reply → List Bytes
  | welcome nick user host => [nick, user, host]
  | errNoOrigin nick | errNotRegistered nick | errAlreadyRegistered nick
  | errPasswordMismatch nick | noTextToSend nick => [nick]
  | errUnknownCommand nick command | errNeedMoreParams nick command
  | notEnoughParameters nick command => [nick, command]
  | errNickInUse nick badNick => [nick, badNick]
  | nickChanged oldNickname user host nick => [oldNickname, user, host, nick]
  | pong token => [token]
  | closingLink reason => [reason]
  | noSuchChannel nick target | noSuchNick nick target => [nick, target]
  | privMsg nick user host target message => [nick, user, host, target, message]
  | notOnChannel nick channel | noTopic nick channel | chanOpRequired nick channel
  | endOfNames nick channel => [nick, channel]
  | topic nick channel text | topicChanged nick channel text
  | namReply nick channel text => [nick, channel, text]
  | what text => [text]

theorem mem_header {a : UInt8} (ha : Break a) {code : String}
    (hcode : unbroken (lit code) = true) (nick : Bytes) : a ∈ header code nick ↔ a ∈ nick := by
  have hcolon := notMem_lit ha (s := ":") (by decide)
  have hname := notMem_lit ha (s := "ircserv") (by decide)
  have hstar := notMem_lit ha (s := "*") (by decide)
  have htarget : a ∈ target nick ↔ a ∈ nick := by
    unfold target
    split
    · rename_i h
      simp [hstar, h]
    · rfl
  simp [header, SERVER_NAME, hcolon, hname, notMem_lit ha hcode, htarget]

/-- A text ending in a literal that is the end of a line. -/
theorem exists_body {x ending : Bytes} {texts : List Bytes}
    (hend : ending = ending.dropLast.dropLast ++ [CR, LF])
    (hclean : unbroken ending.dropLast.dropLast = true)
    (hx : ∀ a, Break a → (a ∈ x ↔ ∃ t ∈ texts, a ∈ t)) :
    ∃ body, x ++ ending = body ++ [CR, LF] ∧
      ∀ a, Break a → (a ∈ body ↔ ∃ t ∈ texts, a ∈ t) := by
  refine ⟨x ++ ending.dropLast.dropLast, ?_, ?_⟩
  · rw [List.append_assoc, ← hend]
  · intro a ha
    rw [List.mem_append, or_iff_left (notMem_of_unbroken ha hclean)]
    exact hx a ha

/-- A reply is one line, whose body breaks lines only where a text it quotes does. -/
theorem exists_line {r : Reply} (hr : r.IsLine) : ∃ body, r.str = body ++ [CR, LF] ∧
    ∀ a, Break a → (a ∈ body ↔ ∃ t ∈ r.fields, a ∈ t) := by
  cases r with
  | what text => exact hr.elim
  | _ =>
      apply exists_body (by decide) (by decide)
      intro a ha
      simp (disch := decide +kernel) [fields, notMem_lit ha, mem_header ha]

/-- A reply is framed when no text it quotes has a CR, provided none has an LF. -/
theorem framed_str_iff {r : Reply} (hr : r.IsLine) (hlf : ∀ t ∈ r.fields, LF ∉ t) :
    Framed CR LF r.str ↔ ∀ t ∈ r.fields, CR ∉ t := by
  obtain ⟨body, hstr, hbody⟩ := exists_line hr
  have hbodylf : LF ∉ body := fun h ↦ by
    obtain ⟨t, ht, hmem⟩ := (hbody LF (Or.inr rfl)).mp h
    exact hlf t ht hmem
  rw [hstr, framed_line_iff (by decide) hbodylf, hbody CR (Or.inl rfl)]
  simp only [not_exists, not_and]

end Reply

/-! ## One line -/

section Echoed

variable (s : Server) (fd : Int) (cmd : Parser)

def echoedPass : List Bytes :=
  match cmd.params with
  | [] => [(s.client fd).nickname, cmd.command]
  | password :: _ =>
      if (s.client fd).isAuthenticated = false ∧ password = s.password then []
      else [(s.client fd).nickname]

def echoedNick : List Bytes :=
  match cmd.params with
  | [] => [[], cmd.command]
  | nickname :: _ =>
      if s.isNicknameTaken nickname then [(s.client fd).nickname, nickname]
      else if (s.client fd).isAuthenticated = false then [[]]
      else if (s.client fd).isRegistered then
        [(s.client fd).nickname, (s.client fd).username, (s.client fd).hostname, nickname]
      else if ((s.client fd).setNickname nickname).isRegistered then
        [nickname, (s.client fd).username, (s.client fd).hostname]
      else []

def echoedUser : List Bytes :=
  if (s.client fd).isAuthenticated = false ∨ (s.client fd).username ≠ [] then
    [(s.client fd).nickname]
  else
    match cmd.params with
    | username :: _ :: _ :: _ :: _ =>
        if ((s.client fd).setUsername username).isRegistered then
          [(s.client fd).nickname, username, (s.client fd).hostname]
        else []
    | _ => [(s.client fd).nickname, cmd.command]

def echoedPrivMsg : List Bytes :=
  match cmd.params with
  | [] => [(s.client fd).nickname, cmd.command]
  | [_] => [(s.client fd).nickname]
  | target :: message :: _ =>
      if message = [] then [(s.client fd).nickname]
      else if target.head? = some 35 ∨ s.getClientByNick target = none then
        [(s.client fd).nickname, target]
      else [(s.client fd).nickname, (s.client fd).username, (s.client fd).hostname, target, message]

/-- The texts quoted by the answer to a line, on a server without channels; there are none
when there is no answer. -/
def echoed : List Bytes :=
  if cmd.command = lit "PASS" then echoedPass s fd cmd
  else if cmd.command = lit "NICK" then echoedNick s fd cmd
  else if cmd.command = lit "USER" then echoedUser s fd cmd
  else if cmd.command = lit "CAP" then []
  else if (s.client fd).isRegistered = false then [(s.client fd).nickname]
  else if cmd.command = lit "TOPIC" ∨ cmd.command = lit "NAMES" then
    [(s.client fd).nickname, cmd.params.headD cmd.command]
  else if cmd.command = lit "PING" then [cmd.params.headD (s.client fd).nickname]
  else if cmd.command = lit "QUIT" then [cmd.params.headD (lit "Client quit")]
  else if cmd.command = lit "PRIVMSG" then echoedPrivMsg s fd cmd
  else if cmd.command = lit "UNKNOWN" then [(s.client fd).nickname, cmd.command]
  else []

end Echoed

/-- The second server is the first after at most one text, a line that quotes `texts`, was
appended. -/
inductive Tells (s : Server) : List Bytes → Server → Prop where
  | nobody (s' : Server) (h : ∀ d, (s'.clients.lookup d).map Client.written =
      (s.clients.lookup d).map Client.written) : Tells s [] s'
  | somebody (s' : Server) (d : Int) (c : Client) (r : Reply) (hr : r.IsLine)
      (hc : s.clients.lookup d = some c)
      (hd : (s'.clients.lookup d).map Client.written = some (c.written ++ [r]))
      (h : ∀ e, e ≠ d → (s'.clients.lookup e).map Client.written =
        (s.clients.lookup e).map Client.written) : Tells s r.fields s'

namespace Tells

variable {s : Server} {fd : Int}

theorem refl (s : Server) : Tells s [] s := .nobody s fun _ ↦ rfl

/-- A write that appends one text. -/
theorem modify {d : Int} {c : Client} {f : Client → Client} {r : Reply} (hr : r.IsLine)
    (hc : s.clients.lookup d = some c) (hf : (f c).written = c.written ++ [r]) :
    Tells s r.fields (s.modify d f) := by
  refine .somebody _ d c r hr hc ?_ ?_
  · rw [Server.lookup_modify_self, hc, Option.map_some, Option.map_some, hf]
  · intro e he
    rw [Server.lookup_modify_of_ne s d f he]

theorem reply {d : Int} {c : Client} {r : Reply} (hr : r.IsLine)
    (hc : s.clients.lookup d = some c) : Tells s r.fields (s.reply d r) :=
  modify hr hc rfl

/-- A write that appends nothing. -/
theorem modify_silent {d : Int} {c : Client} {f : Client → Client}
    (hc : s.clients.lookup d = some c) (hf : (f c).written = c.written) :
    Tells s [] (s.modify d f) := by
  apply Tells.nobody
  intro e
  by_cases he : e = d
  · subst he
    rw [Server.lookup_modify_self, hc, Option.map_some, Option.map_some, Option.map_some, hf]
  · rw [Server.lookup_modify_of_ne s d f he]

theorem renamed {d : Int} {c : Client} (hc : s.clients.lookup d = some c) (n : Bytes) : Tells s
    (if c.isRegistered then [c.nickname, c.username, c.hostname, n]
      else if (c.setNickname n).isRegistered then [n, c.username, c.hostname] else [])
    (s.modify d (·.renamed n)) := by
  have hwritten : (c.renamed n).written = c.written ++ c.renameTexts n := by
    simp [Client.renamed_eq]
  rw [Client.renameTexts] at hwritten
  split
  · rename_i hreg
    rw [if_pos hreg] at hwritten
    exact .modify (r := .nickChanged _ _ _ n) trivial hc hwritten
  · rename_i hreg
    rw [if_neg hreg] at hwritten
    split
    · rename_i hnew
      rw [if_pos hnew] at hwritten
      exact .modify (r := .welcome n _ _) trivial hc hwritten
    · rename_i hnew
      rw [if_neg hnew, List.append_nil] at hwritten
      exact .modify_silent hc hwritten

theorem introduced {d : Int} {c : Client} (hc : s.clients.lookup d = some c) (u r : Bytes) :
    Tells s (if (c.setUsername u).isRegistered then [c.nickname, u, c.hostname] else [])
      (s.modify d (·.introduced u r)) := by
  have hwritten : (c.introduced u r).written = c.written ++ c.introduceTexts u := by
    simp [Client.introduced_eq]
  rw [Client.introduceTexts] at hwritten
  split
  · rename_i hnew
    rw [if_pos hnew] at hwritten
    exact .modify (r := .welcome _ u _) trivial hc hwritten
  · rename_i hnew
    rw [if_neg hnew, List.append_nil] at hwritten
    exact .modify_silent hc hwritten

end Tells

section Handlers

variable {s s' : Server} {fd : Int} {c : Client} {cmd : Parser} {params : List Bytes}

theorem PassExit.tells (h : PassExit s fd cmd s') (hc : s.clients.lookup fd = some c) :
    Tells s (echoedPass s fd cmd) s' := by
  unfold echoedPass
  cases h with
  | needMoreParams hp =>
      rw [hp]
      exact .reply (r := .errNeedMoreParams _ _) trivial hc
  | alreadyRegistered password rest hp hauth =>
      simp only [hp, hauth, Bool.true_eq_false, false_and, if_false]
      exact .reply (r := .errAlreadyRegistered _) trivial hc
  | authenticated rest hp hauth =>
      simp only [hp, hauth, and_self, if_true]
      exact .modify_silent hc rfl
  | passwordMismatch password rest hp hauth hpass =>
      simp only [hp, hpass, and_false, if_false]
      rw [Server.reply, Server.modify_modify]
      exact .modify (r := .errPasswordMismatch _) trivial hc rfl

theorem NickExit.tells (h : NickExit s fd cmd s') (hc : s.clients.lookup fd = some c) :
    Tells s (echoedNick s fd cmd) s' := by
  unfold echoedNick
  cases h with
  | needMoreParams hp =>
      rw [hp]
      exact .reply (r := .errNeedMoreParams [] _) trivial hc
  | nickInUse n rest hp htaken =>
      simp only [hp, htaken, if_true]
      exact .reply (r := .errNickInUse _ n) trivial hc
  | notRegistered n rest hp htaken hauth =>
      simp only [hp, htaken, hauth, Bool.false_eq_true, if_false, if_true]
      exact .reply (r := .errNotRegistered []) trivial hc
  | renamed n rest hp htaken hauth =>
      simp only [hp, htaken, hauth, Bool.false_eq_true, Bool.true_eq_false, if_false]
      rw [Server.client_eq hc]
      exact .renamed hc n

theorem UserExit.tells (h : UserExit s fd cmd s') (hc : s.clients.lookup fd = some c) :
    Tells s (echoedUser s fd cmd) s' := by
  unfold echoedUser
  cases h with
  | notRegistered hauth =>
      rw [if_pos (Or.inl hauth)]
      exact .reply (r := .errNotRegistered _) trivial hc
  | alreadyRegistered hauth huser =>
      rw [if_pos (Or.inr huser)]
      exact .reply (r := .errAlreadyRegistered _) trivial hc
  | introduced u a b r rest hp hauth huser =>
      rw [if_neg (by simp [hauth, huser])]
      simp only [hp]
      rw [Server.client_eq hc]
      exact .introduced hc u r
  | needMoreParams hp hauth huser =>
      rw [if_neg (by simp [hauth, huser])]
      split
      · rename_i hp'
        exact absurd hp' (params_ne_of_length_lt hp)
      · exact .reply (r := .errNeedMoreParams _ _) trivial hc

theorem PrivMsgExit.tells (h : PrivMsgExit s fd cmd s') (hc : s.clients.lookup fd = some c) :
    Tells s (echoedPrivMsg s fd cmd) s' := by
  unfold echoedPrivMsg
  cases h with
  | needMoreParams hp =>
      rw [hp]
      exact .reply (r := .errNeedMoreParams _ _) trivial hc
  | noText t hp =>
      rw [hp]
      exact .reply (r := .noTextToSend _) trivial hc
  | emptyText t rest hp =>
      simp only [hp, if_true]
      exact .reply (r := .noTextToSend _) trivial hc
  | noSuchChannel t m rest hp hm ht =>
      simp only [hp, hm, ht, true_or, if_true, if_false]
      exact .reply (r := .noSuchChannel _ t) trivial hc
  | noSuchNick t m rest hp hm ht hnone =>
      simp only [hp, hm, hnone, or_true, if_true, if_false]
      exact .reply (r := .noSuchNick _ t) trivial hc
  | forwarded d t m rest hp hm ht hsome =>
      simp only [hp, hm, ht, hsome, reduceCtorEq, or_self, if_false]
      obtain ⟨c', hc', -⟩ := Server.getClientByNick_eq_some hsome
      exact .reply (r := .privMsg _ _ _ t m) trivial hc'

/-- Without channels, `TOPIC` and `NAMES` answer their sender. -/
theorem Topic.Exit.tells (h : Topic.Exit s fd params s') (hch : s.channels = ∅)
    (hc : s.clients.lookup fd = some c) :
    Tells s [(s.client fd).nickname, params.headD (lit "TOPIC")] s' := by
  cases h with
  | notEnoughParameters hp =>
      rw [hp]
      exact .reply (r := .notEnoughParameters _ _) trivial hc
  | noSuchChannel name rest hp =>
      rw [hp]
      exact .reply (r := .noSuchChannel _ name) trivial hc
  | notOnChannel _ _ _ hfinds
  | noTopic _ _ hfinds
  | topic _ _ hfinds
  | chanOpRequired _ _ _ _ hfinds
  | topicChanged _ _ _ _ hfinds =>
      exact absurd hch hfinds.ne_empty

theorem Names.Exit.tells (h : Names.Exit s fd params s') (hch : s.channels = ∅)
    (hc : s.clients.lookup fd = some c) :
    Tells s [(s.client fd).nickname, params.headD (lit "NAMES")] s' := by
  cases h with
  | notEnoughParameters hp =>
      rw [hp]
      exact .reply (r := .notEnoughParameters _ _) trivial hc
  | noSuchChannel name rest hp =>
      rw [hp]
      exact .reply (r := .endOfNames _ name) trivial hc
  | listed _ _ _ hfinds => exact absurd hch hfinds.ne_empty

theorem PingExit.tells (h : PingExit s fd cmd s') (hc : s.clients.lookup fd = some c) :
    Tells s [cmd.params.headD (s.client fd).nickname] s' := by
  cases h with
  | noOrigin hp =>
      rw [hp]
      exact .reply (r := .errNoOrigin _) trivial hc
  | pong token rest hp =>
      rw [hp]
      exact .reply (r := .pong token) trivial hc

theorem handleQuit_tells (hc : s.clients.lookup fd = some c) (cmd : Parser) :
    Tells s [cmd.params.headD (lit "Client quit")] (handleQuit s fd cmd) := by
  rw [handleQuit, Server.reply, Server.modify_modify]
  exact .modify (r := .closingLink _) trivial hc rfl

/-- On a server without channels, a way through the dispatcher appends at most one text,
which is a line and quotes what `echoed` lists. -/
theorem Dispatched.tells (h : Dispatched s fd cmd s')
    (hch : s.channels = ∅) (hfd : fd ∈ s.clients) : Tells s (echoed s fd cmd) s' := by
  obtain ⟨c, hc⟩ := UnorderedMap.mem_iff_lookup.mp hfd
  cases h with
  | pass h =>
      rw [echoed, if_pos h]
      exact (handlePass_exit s fd cmd).tells hc
  | nick h =>
      have hechoed : echoed s fd cmd = echoedNick s fd cmd := by simp [echoed, h]
      exact hechoed ▸ (handleNick_exit s fd cmd).tells hc
  | user h =>
      have hechoed : echoed s fd cmd = echoedUser s fd cmd := by simp [echoed, h]
      exact hechoed ▸ (handleUser_exit s fd cmd).tells hc
  | cap h =>
      have hechoed : echoed s fd cmd = [] := by simp [echoed, h]
      exact hechoed ▸ .refl s
  | unregistered h hreg =>
      have hechoed : echoed s fd cmd = [(s.client fd).nickname] := by
        simp only [openCommands, List.mem_cons, List.not_mem_nil, or_false, not_or] at h
        simp [echoed, h, hreg]
      exact hechoed ▸ .reply (r := .errNotRegistered _) trivial hc
  | executed k h hreg _ hexec =>
      cases k with
      | topic =>
          obtain rfl : Topic.execute s fd cmd.params = s' := congrArg Prod.fst hexec
          have hechoed : echoed s fd cmd =
              [(s.client fd).nickname, cmd.params.headD (lit "TOPIC")] := by
            simp [echoed, h, ChannelCommand.word, hreg]
          exact hechoed ▸ (Topic.execute_exit s fd cmd.params).tells hch hc
      | names =>
          obtain rfl : Names.execute s fd cmd.params = s' := congrArg Prod.fst hexec
          have hechoed : echoed s fd cmd =
              [(s.client fd).nickname, cmd.params.headD (lit "NAMES")] := by
            simp [echoed, h, ChannelCommand.word, hreg]
          exact hechoed ▸ (Names.execute_exit s fd cmd.params).tells hch hc
      | join => exact absurd (congrArg Prod.snd hexec) (Join.throws s fd cmd.params)
      | invite | kick | mode | part =>
          obtain rfl : s = s' := congrArg Prod.fst hexec
          have hechoed : echoed s fd cmd = [] := by
            simp [echoed, h, ChannelCommand.word, hreg]
          exact hechoed ▸ .refl s
  | thrown k h hreg e hexec =>
      obtain ⟨rfl, -⟩ := ChannelCommand.execute_exception hexec
      have hechoed : echoed s fd cmd = [] := by simp [echoed, h, ChannelCommand.word, hreg]
      exact hechoed ▸ .refl s
  | ping h hreg =>
      have hechoed : echoed s fd cmd = [cmd.params.headD (s.client fd).nickname] := by
        simp [echoed, h, hreg]
      exact hechoed ▸ (handlePing_exit s fd cmd).tells hc
  | pong h hreg =>
      have hechoed : echoed s fd cmd = [] := by simp [echoed, h, hreg]
      exact hechoed ▸ .refl s
  | quit h hreg =>
      have hechoed : echoed s fd cmd = [cmd.params.headD (lit "Client quit")] := by
        simp [echoed, h, hreg]
      exact hechoed ▸ handleQuit_tells hc cmd
  | privMsg h hreg =>
      have hechoed : echoed s fd cmd = echoedPrivMsg s fd cmd := by simp [echoed, h, hreg]
      exact hechoed ▸ (handlePrivMsg_exit s fd cmd).tells hc
  | unknown h hreg =>
      have hechoed : echoed s fd cmd = [(s.client fd).nickname, cmd.command] := by
        simp [echoed, h, hreg]
      exact hechoed ▸ .reply (r := .errUnknownCommand _ _) trivial hc
  | ignored h hreg hword =>
      have htopic : cmd.command ≠ lit "TOPIC" := hword .topic
      have hnames : cmd.command ≠ lit "NAMES" := hword .names
      have hechoed : echoed s fd cmd = [] := by
        simp only [openCommands, closedCommands, List.cons_append, List.nil_append, List.mem_cons,
          List.not_mem_nil, or_false, not_or] at h
        simp [echoed, h, hreg, htopic, hnames]
      exact hechoed ▸ .refl s

/-- What the answer to a line quotes: names of the sender, or parameters of the line. -/
inductive Quoted (c : Client) (cmd : Parser) : Bytes → Prop where
  | empty : Quoted c cmd []
  | quit : Quoted c cmd (lit "Client quit")
  | command : Quoted c cmd cmd.command
  | nickname : Quoted c cmd c.nickname
  | username : Quoted c cmd c.username
  | hostname : Quoted c cmd c.hostname
  | param {x : Bytes} (hx : x ∈ cmd.params) : Quoted c cmd x

theorem quoted_headD {c : Client} {cmd : Parser} {x : Bytes} (hx : Quoted c cmd x) :
    Quoted c cmd (cmd.params.headD x) := by
  cases hp : cmd.params with
  | nil => exact hx
  | cons y ys => exact .param (by rw [hp]; exact List.mem_cons_self)

theorem forall_mem_ite {α : Type*} {P : α → Prop} {p : Prop} [Decidable p] {l l' : List α}
    (h : ∀ x ∈ l, P x) (h' : ∀ x ∈ l', P x) : ∀ x ∈ if p then l else l', P x := by
  split
  · exact h
  · exact h'

theorem quoted_of_mem_echoedPass {cmd : Parser} :
    ∀ x ∈ echoedPass s fd cmd, Quoted (s.client fd) cmd x := by
  unfold echoedPass
  cases cmd.params with
  | nil => simp [Quoted.nickname, Quoted.command]
  | cons password rest => exact forall_mem_ite (by simp) (by simp [Quoted.nickname])

theorem quoted_of_mem_echoedNick {cmd : Parser} :
    ∀ x ∈ echoedNick s fd cmd, Quoted (s.client fd) cmd x := by
  unfold echoedNick
  cases hp : cmd.params with
  | nil => simp [Quoted.empty, Quoted.command]
  | cons n rest =>
      have hn : Quoted (s.client fd) cmd n := .param (hp ▸ List.mem_cons_self)
      refine forall_mem_ite ?_ (forall_mem_ite ?_ (forall_mem_ite ?_ (forall_mem_ite ?_ ?_)))
      · simp [Quoted.nickname, hn]
      · simp [Quoted.empty]
      · simp [Quoted.nickname, Quoted.username, Quoted.hostname, hn]
      · simp [Quoted.username, Quoted.hostname, hn]
      · simp

theorem quoted_of_mem_echoedUser {cmd : Parser} :
    ∀ x ∈ echoedUser s fd cmd, Quoted (s.client fd) cmd x := by
  unfold echoedUser
  apply forall_mem_ite
  · simp [Quoted.nickname]
  · split
    · rename_i u a b r rest hp
      have hu : Quoted (s.client fd) cmd u := .param (hp ▸ List.mem_cons_self)
      exact forall_mem_ite (by simp [Quoted.nickname, Quoted.hostname, hu]) (by simp)
    · simp [Quoted.nickname, Quoted.command]

theorem quoted_of_mem_echoedPrivMsg {cmd : Parser} :
    ∀ x ∈ echoedPrivMsg s fd cmd, Quoted (s.client fd) cmd x := by
  unfold echoedPrivMsg
  split
  · simp [Quoted.nickname, Quoted.command]
  · simp [Quoted.nickname]
  · rename_i t m rest hp
    have ht : Quoted (s.client fd) cmd t := .param (hp ▸ List.mem_cons_self)
    have hm : Quoted (s.client fd) cmd m :=
      .param (hp ▸ List.mem_cons_of_mem t List.mem_cons_self)
    refine forall_mem_ite ?_ (forall_mem_ite ?_ ?_)
    · simp [Quoted.nickname]
    · simp [Quoted.nickname, ht]
    · simp [Quoted.nickname, Quoted.username, Quoted.hostname, ht, hm]

/-- The answer to a line quotes nothing else. -/
theorem quoted_of_mem_echoed {cmd : Parser} :
    ∀ x ∈ echoed s fd cmd, Quoted (s.client fd) cmd x := by
  have hnickname : ∀ x ∈ [(s.client fd).nickname], Quoted (s.client fd) cmd x :=
    List.forall_mem_singleton.mpr .nickname
  have hboth {w : Bytes} (hw : Quoted (s.client fd) cmd w) :
      ∀ x ∈ [(s.client fd).nickname, w], Quoted (s.client fd) cmd x :=
    List.forall_mem_cons.mpr ⟨.nickname, List.forall_mem_singleton.mpr hw⟩
  have hnone : ∀ x ∈ ([] : List Bytes), Quoted (s.client fd) cmd x := List.forall_mem_nil _
  unfold echoed
  refine forall_mem_ite quoted_of_mem_echoedPass ?_
  refine forall_mem_ite quoted_of_mem_echoedNick ?_
  refine forall_mem_ite quoted_of_mem_echoedUser ?_
  refine forall_mem_ite hnone ?_
  refine forall_mem_ite hnickname ?_
  refine forall_mem_ite (hboth (quoted_headD .command)) ?_
  refine forall_mem_ite (List.forall_mem_singleton.mpr (quoted_headD .nickname)) ?_
  refine forall_mem_ite (List.forall_mem_singleton.mpr (quoted_headD .quit)) ?_
  refine forall_mem_ite quoted_of_mem_echoedPrivMsg ?_
  exact forall_mem_ite (hboth .command) hnone

end Handlers

/-- No text that is quoted has an LF. -/
theorem notMem_echoed {s : Server} {fd : Int}
    (hnamed : ∀ c, s.clients.lookup fd = some c → c.Named) (hfd : fd ∈ s.clients) {x : Bytes}
    (hx : x ∈ echoed s fd (s.nextParsed fd)) : LF ∉ x := by
  obtain ⟨c, hc⟩ := UnorderedMap.mem_iff_lookup.mp hfd
  have hn := hnamed c hc
  rw [← Server.client_eq hc] at hn
  have hknown : ∀ w ∈ [] :: lit "UNKNOWN" :: Parser.whitelist, LF ∉ w := by decide
  cases quoted_of_mem_echoed x hx with
  | empty => exact List.not_mem_nil
  | quit => decide
  | command =>
      refine hknown _ ?_
      rcases Parser.command_mem (s.nextCommand fd) with h | h | h
      · exact List.mem_cons.mpr (Or.inl h)
      · exact List.mem_cons_of_mem _ (List.mem_cons_of_mem _ h)
      · exact List.mem_cons_of_mem _ (List.mem_cons.mpr (Or.inl h))
  | nickname => exact hn.nickname_lf
  | username => exact hn.username_lf
  | hostname => exact fun h ↦ absurd (hn.hostname_chars _ h) (by decide)
  | param hp => exact notMem_params hp

/-! ## Runs -/

/-- All that was ever appended to the write buffers of the clients is framed. -/
def Server.WireFramed (s : Server) : Prop :=
  ∀ d w, (s.clients.lookup d).map Client.written = some w → Framed CR LF (w.flatMap Reply.str)

/-- A text keeps the framing exactly when what it quotes has no CR. -/
theorem wireFramed_iff_of_tells {s s' : Server} {texts : List Bytes} (h : Tells s texts s')
    (hlf : ∀ x ∈ texts, LF ∉ x) (hs : s.WireFramed) : s'.WireFramed ↔ ∀ x ∈ texts, CR ∉ x := by
  cases h with
  | nobody _ h => exact iff_of_true (fun d w hw ↦ hs d w ((h d).symm.trans hw)) (by simp)
  | somebody _ d c r hr hc hd h =>
      have hbefore : Framed CR LF (c.written.flatMap Reply.str) := hs d _ (by rw [hc]; rfl)
      have hafter : (c.written ++ [r]).flatMap Reply.str = c.written.flatMap Reply.str ++ r.str := by
        rw [List.flatMap_append, List.flatMap_singleton]
      rw [← Reply.framed_str_iff hr hlf]
      constructor
      · intro hs'
        exact (hafter ▸ hs' d _ hd).of_append hbefore
      · intro hframed e w hw
        by_cases he : e = d
        · subst he
          obtain rfl : c.written ++ [r] = w := Option.some.inj (hd.symm.trans hw)
          rw [hafter]
          exact hbefore.append hframed
        · exact hs e w ((h e he).symm.trans hw)

/-- Taking the line out of the buffer appends nothing. -/
theorem wireFramed_serveLine {s : Server} {fd : Int} : (s.serveLine fd).WireFramed ↔
    (processCommand s fd (s.nextParsed fd)).WireFramed := by
  have hwritten : ∀ c : Client, c.takeCommand.written = c.written := fun c ↦ by
    rw [Client.takeCommand_eq]
    rfl
  rw [Server.serveLine_eq]
  apply forall₂_congr
  intro d w
  exact imp_congr_left (iff_of_eq (congrArg (· = some w) (Server.lookup_modify_map hwritten _ fd d)))

/-- The condition under which a step appends framed lines only. -/
def QuotesClean (s : Server) (e : Event) : Prop :=
  ∀ fd, e = .line fd → ∀ x ∈ echoed s fd (s.nextParsed fd), CR ∉ x

/-- A step that processes no line appends nothing. -/
theorem wireFramed_step_of_ne {s : Server} {e : Event} (he : e.enabled s)
    (hne : ∀ fd, e ≠ .line fd) (hs : s.WireFramed) : (e.step s).WireFramed := by
  intro d w hw
  obtain ⟨c', hc', rfl⟩ := Option.map_eq_some_iff.mp hw
  rcases step_client he hc' with ⟨address, -, -, rfl⟩ | ⟨c, hc, hm⟩
  · exact framed_nil CR LF
  · cases hm with
    | io r w _ => exact hs d c.written (by rw [hc]; rfl)
    | line fd hfd _ _ => exact absurd hfd (hne fd)

/-- A line keeps the framing exactly when its answer quotes no CR. -/
theorem wireFramed_line_iff {s : Server} (ho : Ordinary s)
    (hnamed : ∀ d c, s.clients.lookup d = some c → c.Named) {fd : Int}
    (he : (Event.line fd).enabled s) (hs : s.WireFramed) :
    ((Event.line fd).step s).WireFramed ↔ ∀ x ∈ echoed s fd (s.nextParsed fd), CR ∉ x := by
  have hfd : fd ∈ s.clients := by
    by_contra hnot
    have hnone : s.clients.lookup fd = none := AList.lookup_eq_none.mpr hnot
    have hbuf := Client.hasCompleteCommand_iff.mp he
    rw [Server.client, hnone] at hbuf
    exact absurd hbuf List.not_mem_nil
  exact wireFramed_serveLine.trans (wireFramed_iff_of_tells
    ((processCommand_dispatched _ fd _).tells ho.channels hfd)
    (fun x hx ↦ notMem_echoed (hnamed fd) hfd hx) hs)

/-- A step that quotes no CR keeps the framing. -/
theorem wireFramed_step {s : Server} {e : Event} (ho : Ordinary s) (he : e.enabled s)
    (hnamed : ∀ d c, s.clients.lookup d = some c → c.Named) (hquote : QuotesClean s e)
    (hs : s.WireFramed) : (e.step s).WireFramed := by
  by_cases hline : ∃ fd, e = .line fd
  · obtain ⟨fd, rfl⟩ := hline
    exact (wireFramed_line_iff ho hnamed he hs).mpr (hquote fd rfl)
  · exact wireFramed_step_of_ne he (fun fd hfd ↦ hline ⟨fd, hfd⟩) hs

/-- In a run, all that is ever appended to any client's write buffer is a concatenation of
lines without CR and LF, each ended by CR LF, if and only if no answer to a line quotes a
text with a CR. -/
theorem framed_iff (hv : network.Valid (Server.initial serverSocket password) es) :
    (∀ pre, pre <+: es → ∀ d c,
      (network.run (Server.initial serverSocket password) pre).clients.lookup d = some c →
      Framed CR LF (c.written.flatMap Reply.str)) ↔
    ∀ pre fd, pre ++ [.line fd] <+: es →
      ∀ x ∈ echoed (network.run (Server.initial serverSocket password) pre) fd
        ((network.run (Server.initial serverSocket password) pre).nextParsed fd), CR ∉ x := by
  have ho := ordinary_initial serverSocket password
  constructor
  · intro hall pre fd hpre
    have hpre' : pre <+: es := (List.prefix_append pre _).trans hpre
    have hframed (run : List Event) (hrun : run <+: es) :
        (network.run (Server.initial serverSocket password) run).WireFramed := by
      intro d w hw
      obtain ⟨c, hc, rfl⟩ := Option.map_eq_some_iff.mp hw
      exact hall run hrun d c hc
    refine (wireFramed_line_iff (ho.run (hv.of_isPrefix hpre'))
      (fun d c ↦ named_of_run (hv.of_isPrefix hpre')) (System.along_iff.mp hv pre _ hpre)
      (hframed pre hpre')).mp ?_
    have hnext := hframed _ hpre
    rw [network.run_append] at hnext
    exact hnext
  · intro hquotes pre hpre d c hc
    have hsteps : network.Along (fun s e ↦ QuotesClean s e ∧
        ∀ d c, s.clients.lookup d = some c → c.Named) (Server.initial serverSocket password) pre := by
      apply System.along_iff.mpr
      intro run e hrun
      constructor
      · rintro fd rfl
        exact hquotes run fd (hrun.trans hpre)
      · intro d c
        exact named_of_run (hv.of_isPrefix (((List.prefix_append run _).trans hrun).trans hpre))
    have hvpre : network.Valid (Server.initial serverSocket password) pre := hv.of_isPrefix hpre
    have hinv := hvpre.invariant_along (I := fun s ↦ Ordinary s ∧ s.WireFramed) ?_ hsteps
      ⟨ho, fun d w hw ↦ nomatch hw⟩
    · exact hinv.2 d c.written (by rw [hc]; rfl)
    · rintro s e he ⟨hquote, hnamed⟩ ⟨hord, hs⟩
      exact ⟨hord.step he, wireFramed_step hord he hnamed hquote hs⟩

/-- A client that is not authenticated is refused its nickname. -/
theorem framed_iff_run :
    let s := Server.initial 3 (lit "pw")
    let es : List Event := [.accept 4 ⟨127, 0, 0, 1⟩, .receive 4 (lit "NICK bob\r\n"), .line 4]
    (∀ pre, pre <+: es → ∀ d c, (network.run s pre).clients.lookup d = some c →
      Framed CR LF (c.written.flatMap Reply.str)) ↔
    ∀ pre fd, pre ++ [.line fd] <+: es → ∀ x ∈ echoed (network.run s pre) fd
      ((network.run s pre).nextParsed fd), CR ∉ x :=
  framed_iff (by decide +kernel)

/-- A nickname with a CR is quoted in the welcome, in the middle of a line. -/
theorem not_framed :
    let s := Server.initial 3 (lit "pw")
    let es : List Event := [.accept 4 ⟨127, 0, 0, 1⟩,
      .receive 4 (lit "PASS pw\r\nUSER bob 0 * :Bob\r\nNICK bob\rQUIT\r\n"),
      .line 4, .line 4, .line 4]
    network.Valid s es ∧ ¬ ∀ pre, pre <+: es → ∀ d c,
      (network.run s pre).clients.lookup d = some c →
      Framed CR LF (c.written.flatMap Reply.str) := by
  refine ⟨by decide +kernel, ?_⟩
  intro h
  have hframed := h _ (List.prefix_refl _) 4 _
    (Server.lookup_of_isAuthenticated (by decide +kernel))
  have hwelcome : ((network.run (Server.initial 3 (lit "pw")) [.accept 4 ⟨127, 0, 0, 1⟩,
      .receive 4 (lit "PASS pw\r\nUSER bob 0 * :Bob\r\nNICK bob\rQUIT\r\n"),
      .line 4, .line 4, .line 4]).client 4).written =
        [.welcome (lit "bob\rQUIT") (lit "bob") (lit "127.0.0.1")] := by decide +kernel
  rw [hwelcome, List.flatMap_singleton] at hframed
  have hline : (Reply.welcome (lit "bob\rQUIT") (lit "bob") (lit "127.0.0.1")).IsLine := trivial
  have hcr := (Reply.framed_str_iff hline (by decide)).mp hframed (lit "bob\rQUIT") (by decide)
  exact absurd hcr (by decide)

end IrcServer
