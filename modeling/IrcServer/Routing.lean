import IrcServer.Framing
import IrcServer.Identity
import IrcServer.Refusals

/-!
# Where a message goes

`handlePrivMsg` sends one text: the forwarded message to the first client of the map that
has the target as nickname, or an error to the sender.  The target of a message with a text
is a token and not empty, and a nickname that is not empty is one client's, so that the
first match is the only one, whatever the order of the map (`processCommand_routed`).
-/

namespace IrcServer

open Library Commands

/-- A text of exactly one line. -/
def Reply.OneLine (m : Reply) : Prop := ∃ body, m.str = body ++ [CR, LF] ∧ LF ∉ body

theorem Reply.oneLine_of_fields {m : Reply} (hm : m.IsLine) (hlf : ∀ t ∈ m.fields, LF ∉ t) :
    m.OneLine := by
  obtain ⟨body, hstr, hbody⟩ := exists_line hm
  refine ⟨body, hstr, ?_⟩
  intro h
  obtain ⟨t, ht, hmem⟩ := (hbody LF (Or.inr rfl)).mp h
  exact hlf t ht hmem

/-- The line has a target that is no channel and a text, and some client has the target as
nickname. -/
structure Addressed (s : Server) (cmd : Parser) (target text : Bytes) : Prop where
  params : ∃ rest, cmd.params = target :: text :: rest
  text_ne : text ≠ []
  noChannel : target.head? ≠ some 35
  known : ∃ d c, s.clients.lookup d = some c ∧ c.nickname = target

/-- The message forwarded for a client. -/
abbrev Client.privMsg (c : Client) (target text : Bytes) : Reply :=
  .privMsg c.nickname c.username c.hostname target text

/-- The error a `PRIVMSG` ends in, when it does. -/
def privMsgError (c : Client) (cmd : Parser) : Reply :=
  match cmd.params with
  | [] => .errNeedMoreParams c.nickname cmd.command
  | [_] => .noTextToSend c.nickname
  | target :: message :: _ =>
      if message = [] then .noTextToSend c.nickname
      else if target.head? = some 35 then .noSuchChannel c.nickname target
      else .noSuchNick c.nickname target

/-- No two clients have the same nickname, unless it is empty. -/
def Server.UniqueNicknames (s : Server) : Prop :=
  ∀ d e c c', s.clients.lookup d = some c → s.clients.lookup e = some c' → c.nickname ≠ [] →
    c.nickname = c'.nickname → d = e

section

variable {s : Server} {fd : Int} {cmd : Parser}

theorem isError_privMsgError (c : Client) (cmd : Parser) : (privMsgError c cmd).isError = true := by
  unfold privMsgError
  split
  · rfl
  · rfl
  · split
    · rfl
    · split <;> rfl

/-- It has no server prefix, unless the line has no parameter at all. -/
theorem isBare_privMsgError {c : Client} {cmd : Parser} (h : cmd.params ≠ []) :
    (privMsgError c cmd).isBare = true := by
  unfold privMsgError
  split
  · exact absurd ‹_› h
  · rfl
  · split
    · rfl
    · split <;> rfl

/-- The error quotes the nickname of the sender, the command, or a parameter. -/
theorem mem_fields_privMsgError {c : Client} {cmd : Parser} {t : Bytes}
    (ht : t ∈ (privMsgError c cmd).fields) :
    t = c.nickname ∨ t = cmd.command ∨ t ∈ cmd.params := by
  unfold privMsgError at ht
  split at ht
  · simp only [Reply.fields, List.mem_cons, List.not_mem_nil, or_false] at ht
    exact ht.imp_right Or.inl
  · exact Or.inl (List.mem_singleton.mp ht)
  · rename_i hp
    split at ht
    · exact Or.inl (List.mem_singleton.mp ht)
    · split at ht
      all_goals
        simp only [Reply.fields, List.mem_cons, List.not_mem_nil, or_false] at ht
        rcases ht with rfl | rfl
        · exact Or.inl rfl
        · exact Or.inr (Or.inr (hp ▸ List.mem_cons_self))

/-- The error for a line without `LF` is one line. -/
theorem oneLine_privMsgError {c : Client} (hc : c.Named) {cmd : Parser} (hcmd : LF ∉ cmd.command)
    (hparams : ∀ w ∈ cmd.params, LF ∉ w) : (privMsgError c cmd).OneLine := by
  refine Reply.oneLine_of_fields (Reply.isLine_of_isAmong (isError_privMsgError _ _)) ?_
  intro t ht
  rcases mem_fields_privMsgError ht with rfl | rfl | hmem
  · exact hc.nickname_lf
  · exact hcmd
  · exact hparams t hmem

theorem notMem_fields_privMsg {c : Client} (hc : c.Named) {t x : Bytes} (ht : LF ∉ t)
    (hx : LF ∉ x) : ∀ w ∈ (c.privMsg t x).fields, LF ∉ w := by
  intro w hw
  simp only [Reply.fields, List.mem_cons, List.not_mem_nil, or_false] at hw
  rcases hw with rfl | rfl | rfl | rfl | rfl
  · exact hc.nickname_lf
  · exact hc.username_lf
  · exact fun hmem ↦ absurd (hc.hostname_chars _ hmem) (by decide)
  · exact ht
  · exact hx

/-- A line has one target and one text. -/
theorem Addressed.unique {t x t' x' : Bytes} (h : Addressed s cmd t x)
    (h' : Addressed s cmd t' x') : t' = t ∧ x' = x := by
  obtain ⟨rest, hp⟩ := h.params
  obtain ⟨rest', hp'⟩ := h'.params
  have hsame : t' :: x' :: rest' = t :: x :: rest := hp'.symm.trans hp
  exact ⟨List.head_eq_of_cons_eq hsame,
    List.head_eq_of_cons_eq (List.tail_eq_of_cons_eq hsame)⟩

/-- An addressed line is forwarded, to the first client that has the nickname. -/
theorem Addressed.exists_forwards {t x : Bytes} (h : Addressed s cmd t x)
    (hcmd : cmd.command = lit "PRIVMSG") (hreg : (s.client fd).isRegistered = true) :
    ∃ d, Forwards s fd cmd d t x := by
  obtain ⟨d, c, hc, hn⟩ := h.known
  cases hd : s.getClientByNick t with
  | none =>
      have hnot := UnorderedMap.findFirst_eq_none_iff.mp hd d c hc
      simp [hn] at hnot
  | some e => exact ⟨e, hcmd, h.params, h.text_ne, h.noChannel, hreg, hd⟩

/-- Where nicknames are unique, a nickname that is not empty says who the client is. -/
theorem Server.UniqueNicknames.nickname_eq_iff (h : s.UniqueNicknames) {d e : Int}
    {c c' : Client} (hc : s.clients.lookup d = some c) (hc' : s.clients.lookup e = some c')
    (hn : c.nickname ≠ []) : c'.nickname = c.nickname ↔ e = d := by
  constructor
  · intro hsame
    exact (h d e c c' hc hc' hn hsame.symm).symm
  · rintro rfl
    rw [Option.some.inj (hc'.symm.trans hc)]

/-- Where nicknames are unique, the search finds the client that has one. -/
theorem Server.UniqueNicknames.getClientByNick (h : s.UniqueNicknames) {d : Int} {c : Client}
    (hc : s.clients.lookup d = some c) (hn : c.nickname ≠ []) :
    s.getClientByNick c.nickname = some d := by
  refine (UnorderedMap.findFirst_eq_some_iff_of_unique ?_).mpr ⟨c, hc, beq_self_eq_true _⟩
  intro i j a b hi hj ha hb
  have han : a.nickname = c.nickname := beq_iff_eq.mp ha
  have hbn : b.nickname = c.nickname := beq_iff_eq.mp hb
  exact h i j a b hi hj (han ▸ hn) (han.trans hbn.symm)

/-- A line that is not addressed to anybody is answered with the error. -/
theorem handlePrivMsg_of_not_addressed (h : ∀ t x, ¬ Addressed s cmd t x) :
    handlePrivMsg s fd cmd = s.reply fd (privMsgError (s.client fd) cmd) := by
  have hexit := handlePrivMsg_exit s fd cmd
  generalize handlePrivMsg s fd cmd = s' at hexit
  cases hexit with
  | needMoreParams hp => rw [privMsgError, hp]
  | noText target hp => rw [privMsgError, hp]
  | emptyText target rest hp => simp [privMsgError, hp]
  | noSuchChannel target text rest hp hx ht => simp [privMsgError, hp, hx, ht]
  | noSuchNick target text rest hp hx ht => simp [privMsgError, hp, hx, ht]
  | forwarded d target text rest hp hx ht hd =>
      obtain ⟨c, hc, hn⟩ := Server.getClientByNick_eq_some hd
      exact absurd ⟨⟨rest, hp⟩, hx, ht, d, c, hc, hn⟩ (h target text)

end

/-! ## Any order of the map -/

section

variable {s : Server} {clients : UnorderedMap Int Client}

/-- The server with its clients in another order. -/
abbrev Server.reordered (s : Server) (clients : UnorderedMap Int Client) : Server :=
  { s with clients := clients }

variable (hperm : clients.entries.Perm s.clients.entries)

include hperm

theorem lookup_reordered (d : Int) : (s.reordered clients).clients.lookup d = s.clients.lookup d :=
  AList.perm_lookup hperm

theorem client_reordered (d : Int) : (s.reordered clients).client d = s.client d := by
  rw [Server.client, lookup_reordered hperm, Server.client]

theorem Server.UniqueNicknames.reordered (h : s.UniqueNicknames) :
    (s.reordered clients).UniqueNicknames := by
  intro d e c c' hc hc'
  rw [lookup_reordered hperm] at hc hc'
  exact h d e c c' hc hc'

theorem addressed_reordered_iff {cmd : Parser} {t x : Bytes} :
    Addressed (s.reordered clients) cmd t x ↔ Addressed s cmd t x := by
  constructor
  · rintro ⟨hp, hx, ht, d, c, hc, hn⟩
    exact ⟨hp, hx, ht, d, c, (lookup_reordered hperm d).symm.trans hc, hn⟩
  · rintro ⟨hp, hx, ht, d, c, hc, hn⟩
    exact ⟨hp, hx, ht, d, c, (lookup_reordered hperm d).trans hc, hn⟩

end

/-! ## Lines -/

section

variable {s : Server} {fd : Int} {cmd : Parser}

/-- An addressed line is forwarded to the one client that has its target as nickname. -/
theorem processCommand_of_addressed (hu : s.UniqueNicknames) (h : cmd.command = lit "PRIVMSG")
    (hreg : (s.client fd).isRegistered = true) {t x : Bytes} (ha : Addressed s cmd t x)
    (ht : t ≠ []) {d : Int} {c : Client} (hc : s.clients.lookup d = some c) (hn : c.nickname = t) :
    processCommand s fd cmd = s.reply d ((s.client fd).privMsg t x) := by
  have hd : s.getClientByNick t = some d := hn ▸ hu.getClientByNick hc (hn ▸ ht)
  exact processCommand_of_forwards ⟨h, ha.params, ha.text_ne, ha.noChannel, hreg, hd⟩

theorem processCommand_of_not_addressed (h : cmd.command = lit "PRIVMSG")
    (hreg : (s.client fd).isRegistered = true) (hno : ∀ t x, ¬ Addressed s cmd t x) :
    processCommand s fd cmd = s.reply fd (privMsgError (s.client fd) cmd) :=
  (processCommand_privMsg h hreg).trans (handlePrivMsg_of_not_addressed hno)

end

/-- In every run, a `PRIVMSG` of a registered client appends one line to the write buffer of
one client, whatever the order of the map: the message, for the only client that has the
target as nickname, or else an error, for the sender. -/
theorem processCommand_routed {serverSocket : Int} {password : Bytes} {es : List Event}
    (hv : network.Valid (Server.initial serverSocket password) es) {fd : Int}
    (hreg : ((network.run (Server.initial serverSocket password) es).client fd).isRegistered = true)
    {line : Bytes} (hlf : LF ∉ line) (h : (Parser.parse line).command = lit "PRIVMSG") :
    let s := network.run (Server.initial serverSocket password) es
    ∃ d m, d ∈ s.clients ∧ m.OneLine ∧
      (∀ clients : UnorderedMap Int Client, clients.entries.Perm s.clients.entries →
        processCommand (s.reordered clients) fd (Parser.parse line) =
          (s.reordered clients).reply d m) ∧
      (∀ t x, Addressed s (Parser.parse line) t x →
        m = (s.client fd).privMsg t x ∧
          ∀ e c, s.clients.lookup e = some c → (c.nickname = t ↔ e = d)) ∧
      ((∀ t x, ¬ Addressed s (Parser.parse line) t x) → d = fd ∧ m.isError = true) := by
  intro s
  have hu : s.UniqueNicknames := fun d e c c' hc hc' ↦ fd_eq_of_nickname_eq hv hc hc'
  have hc := Server.lookup_of_isRegistered hreg
  have hnamed : (s.client fd).Named := named_of_run hv hc
  have hparams : ∀ w ∈ (Parser.parse line).params, LF ∉ w := fun w hw hmem ↦
    hlf (Parser.mem_of_mem_params hw hmem)
  by_cases ha : ∃ t x, Addressed s (Parser.parse line) t x
  · obtain ⟨t, x, ha⟩ := ha
    obtain ⟨rest, hp⟩ := ha.params
    obtain ⟨d, c, hd, hn⟩ := ha.known
    have ht : t ≠ [] := (Parser.isToken_of_params hp).ne_nil
    have hlft : LF ∉ t := hparams t (hp ▸ List.mem_cons_self)
    have hlfx : LF ∉ x := hparams x (hp ▸ List.mem_cons_of_mem t List.mem_cons_self)
    have hline : ((s.client fd).privMsg t x).OneLine :=
      Reply.oneLine_of_fields trivial (notMem_fields_privMsg hnamed hlft hlfx)
    refine ⟨d, (s.client fd).privMsg t x, UnorderedMap.mem_iff_lookup.mpr ⟨c, hd⟩, hline,
      ?_, ?_, ?_⟩
    · intro clients hperm
      have hclient := client_reordered hperm fd
      rw [← hclient]
      exact processCommand_of_addressed (hu.reordered hperm) h (hclient ▸ hreg)
        ((addressed_reordered_iff hperm).mpr ha) ht ((lookup_reordered hperm d).trans hd) hn
    · intro t' x' ha'
      obtain ⟨rfl, rfl⟩ := ha.unique ha'
      refine ⟨rfl, fun e c' hc' ↦ ?_⟩
      rw [← hn]
      exact hu.nickname_eq_iff hd hc' (hn ▸ ht)
    · exact fun hno ↦ absurd ha (hno t x)
  · have hno : ∀ t x, ¬ Addressed s (Parser.parse line) t x := fun t x h ↦ ha ⟨t, x, h⟩
    refine ⟨fd, privMsgError (s.client fd) (Parser.parse line), ?_, ?_, ?_, ?_, ?_⟩
    · exact UnorderedMap.mem_iff_lookup.mpr ⟨_, hc⟩
    · exact oneLine_privMsgError hnamed (by rw [h]; decide) hparams
    · intro clients hperm
      have hclient := client_reordered hperm fd
      rw [← hclient]
      refine processCommand_of_not_addressed h (hclient ▸ hreg) ?_
      exact fun t x h ↦ hno t x ((addressed_reordered_iff hperm).mp h)
    · exact fun t x h ↦ absurd h (hno t x)
    · exact fun _ ↦ ⟨rfl, isError_privMsgError _ _⟩

/-- Two clients, and a message from one to the other. -/
theorem processCommand_routed_run :
    let s := network.run (Server.initial 3 (lit "pw")) [.accept 4 ⟨127, 0, 0, 1⟩,
      .receive 4 (lit "PASS pw\nNICK ann\nUSER ann 0 * :Ann\n"), .line 4, .line 4, .line 4,
      .accept 5 ⟨127, 0, 0, 1⟩, .receive 5 (lit "PASS pw\nNICK bob\n"), .line 5, .line 5]
    let cmd := Parser.parse (lit "PRIVMSG bob :hi there")
    ∃ d m, d ∈ s.clients ∧ m.OneLine ∧
      (∀ clients : UnorderedMap Int Client, clients.entries.Perm s.clients.entries →
        processCommand (s.reordered clients) 4 cmd = (s.reordered clients).reply d m) ∧
      (∀ t x, Addressed s cmd t x →
        m = (s.client 4).privMsg t x ∧
          ∀ e c, s.clients.lookup e = some c → (c.nickname = t ↔ e = d)) ∧
      ((∀ t x, ¬ Addressed s cmd t x) → d = 4 ∧ m.isError = true) :=
  processCommand_routed (by decide +kernel) (by decide +kernel) (by decide) (by decide)

end IrcServer
