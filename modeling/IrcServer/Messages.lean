import IrcServer.Inbox
import IrcServer.Routing

/-!
# Messages

Every `PRIVMSG` that is forwarded is written down with the connections of its sender and of
its addressee (`Post`).  Of the texts a client was sent, those that are messages are the
posts to its connection, each once and in order; the lines a client's posts come from are
among the lines processed for it, in order (`posts_delivered`).  With what is known of the
bytes on both ends (`executed_eq_lines`, `taken_append_writeBuffer`), no message is lost,
repeated, reordered or made up on its way through the server.
-/

namespace IrcServer

open Library Commands

/-- Whether a text is a forwarded message. -/
def Reply.isPrivMsg : Reply → Bool
  | privMsg .. => true
  | _ => false

/-- A message on its way: the connections of its sender and of its addressee, the line it
comes from and the text it becomes. -/
structure Post where
  sender : Nat
  recipient : Nat
  line : Bytes
  text : Reply

namespace Server

/-- The post a line of a client becomes, if it is one. -/
def post (s : Server) (fd : Int) (line : Bytes) : List Post :=
  let cmd := Parser.parse line
  match cmd.params with
  | target :: message :: _ =>
      if cmd.command = lit "PRIVMSG" ∧ (s.client fd).isRegistered = true ∧ message ≠ [] ∧
          target.head? ≠ some 35 then
        (s.getClientByNick target).toList.map fun d ↦
          { sender := (s.client fd).serial
            recipient := (s.client d).serial
            line := line
            text := (s.client fd).privMsg target message }
      else []
  | _ => []

end Server

/-- The posts of a step. -/
def PollLoop.posts (σ : PollLoop) (e : PollEvent) : List Post := σ.perLine Server.post e

/-! ## One line -/

section Post

variable {s : Server} {fd : Int} {line : Bytes}

theorem post_of_forwards {d : Int} {t m : Bytes} (h : Forwards s fd (Parser.parse line) d t m) :
    s.post fd line =
      [⟨(s.client fd).serial, (s.client d).serial, line, (s.client fd).privMsg t m⟩] := by
  obtain ⟨hcmd, ⟨rest, hp⟩, hm, ht, hreg, hd⟩ := h
  simp only [Server.post, hp]
  rw [if_pos ⟨hcmd, hreg, hm, ht⟩, hd]
  rfl

theorem post_of_not_forwards (h : ∀ d t m, ¬ Forwards s fd (Parser.parse line) d t m) :
    s.post fd line = [] := by
  unfold Server.post
  dsimp only
  split
  · rename_i target message rest hp
    split
    · rename_i hboth
      obtain ⟨hcmd, hreg, hm, ht⟩ := hboth
      cases hd : s.getClientByNick target with
      | none => rfl
      | some d => exact absurd ⟨hcmd, ⟨rest, hp⟩, hm, ht, hreg, hd⟩ (h d target message)
    · rfl
  · rfl

end Post

section Texts

variable {s s' : Server} {fd : Int} {cmd : Parser} {params : List Bytes}

/-- The handlers of the registration append no message. -/
theorem PassExit.other (h : PassExit s fd cmd s') : Says (·.isPrivMsg = false) s s' := by
  cases h with
  | needMoreParams | alreadyRegistered => exact .reply fd rfl
  | authenticated => exact .silent fd fun _ ↦ rfl
  | passwordMismatch => exact .reply_silent fd rfl fun _ ↦ rfl

theorem NickExit.other (h : NickExit s fd cmd s') : Says (·.isPrivMsg = false) s s' := by
  cases h with
  | needMoreParams | nickInUse | notRegistered => exact .reply fd rfl
  | renamed => exact .renamed fd (fun _ ↦ rfl) fun _ ↦ rfl

theorem UserExit.other (h : UserExit s fd cmd s') : Says (·.isPrivMsg = false) s s' := by
  cases h with
  | notRegistered | alreadyRegistered | needMoreParams => exact .reply fd rfl
  | introduced => exact .introduced fd fun _ _ ↦ rfl

theorem PingExit.other (h : PingExit s fd cmd s') : Says (·.isPrivMsg = false) s s' := by
  cases h with
  | noOrigin | pong => exact .reply fd rfl

theorem PrivMsgExit.other (h : PrivMsgExit s fd cmd s') (hcmd : cmd.command = lit "PRIVMSG")
    (hreg : (s.client fd).isRegistered = true) (hno : ∀ d t m, ¬ Forwards s fd cmd d t m) :
    Says (·.isPrivMsg = false) s s' := by
  cases h with
  | needMoreParams | noText | emptyText | noSuchChannel | noSuchNick => exact .reply fd rfl
  | forwarded d t m rest hp hm ht hd =>
      exact absurd ⟨hcmd, ⟨rest, hp⟩, hm, ht, hreg, hd⟩ (hno d t m)

theorem Topic.Exit.other (h : Topic.Exit s fd params s') : Says (·.isPrivMsg = false) s s' := by
  cases h with
  | notEnoughParameters | noSuchChannel | notOnChannel | noTopic | topic | chanOpRequired =>
      exact .reply fd rfl
  | topicChanged => exact .trans (.of_clients rfl) (.publicMessage _ (m := .topicChanged _ _ _) rfl)

theorem Names.Exit.other (h : Names.Exit s fd params s') : Says (·.isPrivMsg = false) s s' := by
  cases h with
  | notEnoughParameters | noSuchChannel => exact .reply fd rfl
  | listed k chan =>
      have hvisit : Says (·.isPrivMsg = false) s (Names.visit s chan) := .of_clients rfl
      exact (hvisit.trans (.reply fd (m := .namReply _ _ _) rfl)).trans (.reply fd rfl)

/-- A channel command appends no message. -/
theorem ChannelCommand.execute_other {c : ChannelCommand}
    (h : c.execute s fd params = (s', none)) : Says (·.isPrivMsg = false) s s' := by
  obtain rfl : (c.execute s fd params).1 = s' := congrArg Prod.fst h
  cases c with
  | topic => exact (Topic.execute_exit s fd params).other
  | names => exact (Names.execute_exit s fd params).other
  | join => exact absurd (congrArg Prod.snd h) (Join.throws s fd params)
  | invite | kick | mode | part => exact .of_clients rfl

/-- A line that is not forwarded appends no message. -/
theorem says_other (hno : ∀ d t m, ¬ Forwards s fd cmd d t m) :
    Says (·.isPrivMsg = false) s (processCommand s fd cmd) := by
  have h := processCommand_dispatched s fd cmd
  generalize processCommand s fd cmd = s' at h
  cases h with
  | pass => exact (handlePass_exit s fd cmd).other
  | nick => exact (handleNick_exit s fd cmd).other
  | user => exact (handleUser_exit s fd cmd).other
  | unregistered => exact .reply fd rfl
  | executed c _ _ _ hexec => exact ChannelCommand.execute_other hexec
  | ping => exact (handlePing_exit s fd cmd).other
  | quit => exact .reply_silent fd rfl fun _ ↦ rfl
  | privMsg h hreg => exact (handlePrivMsg_exit s fd cmd).other h hreg hno
  | unknown => exact .reply fd rfl
  | cap | thrown | pong | ignored => exact .of_clients rfl

end Texts

/-! ## Mail -/

/-- The text is the message that the line asks for. -/
def Post.Sound (x : Post) : Prop :=
  (Parser.parse x.line).command = lit "PRIVMSG" ∧
    ∃ target message rest, (Parser.parse x.line).params = target :: message :: rest ∧
      ∃ nick user host, x.text = .privMsg nick user host target message

/-- The posts to a connection. -/
def postsTo (serial : Nat) (record : List Post) : List Post :=
  record.filter (·.recipient == serial)

/-- The posts from a connection. -/
def postsFrom (serial : Nat) (record : List Post) : List Post :=
  record.filter (·.sender == serial)

/-- The clients have been sent the posts of the record, and the posts come from their lines;
the numbers of the connections so far are below `n`. -/
structure Mail (n : Nat) (s : Server) (record : List Post) : Prop where
  inj : ∀ d d' c c', s.clients.lookup d = some c → s.clients.lookup d' = some c' →
    c.serial = c'.serial → d = d'
  lt : ∀ d c, s.clients.lookup d = some c → c.serial < n
  old : ∀ x ∈ record, x.sender < n ∧ x.recipient < n
  sound : ∀ x ∈ record, x.Sound
  received : ∀ d c, s.clients.lookup d = some c →
    c.written.filter Reply.isPrivMsg = (postsTo c.serial record).map Post.text
  sent : ∀ d c, s.clients.lookup d = some c →
    ((postsFrom c.serial record).map Post.line).Sublist c.executed

section Line

variable {s : Server} {fd d : Int} {line : Bytes} {c c' : Client} {n : Nat}

/-- A post is from the client that sent the line, to a client that is there. -/
theorem mem_post (hc : s.clients.lookup fd = some c) {x : Post} (hx : x ∈ s.post fd line) :
    x.sender = c.serial ∧ x.line = line ∧ x.Sound ∧
      ∃ d c', s.clients.lookup d = some c' ∧ x.recipient = c'.serial := by
  by_cases hf : ∃ d t m, Forwards s fd (Parser.parse line) d t m
  · obtain ⟨d, t, m, hf⟩ := hf
    rw [post_of_forwards hf, List.mem_singleton] at hx
    obtain ⟨c', hc', -⟩ := Server.getClientByNick_eq_some hf.2.2.2.2.2
    obtain ⟨rest, hp⟩ := hf.2.1
    subst hx
    refine ⟨?_, rfl, ⟨hf.1, t, m, rest, hp, _, _, _, rfl⟩, d, c', hc', ?_⟩
    · rw [Server.client_eq hc]
    · rw [Server.client_eq hc']
  · rw [post_of_not_forwards fun d t m h ↦ hf ⟨d, t, m, h⟩] at hx
    exact absurd hx List.not_mem_nil

/-- A line is posted at most once. -/
theorem map_line_post (s : Server) (fd : Int) (line : Bytes) :
    ((s.post fd line).map Post.line).Sublist [line] := by
  by_cases hf : ∃ d t m, Forwards s fd (Parser.parse line) d t m
  · obtain ⟨d, t, m, hf⟩ := hf
    rw [post_of_forwards hf]
    exact List.Sublist.refl [line]
  · rw [post_of_not_forwards fun d t m h ↦ hf ⟨d, t, m, h⟩]
    exact List.nil_sublist [line]

/-- The messages among the texts that a line appends for a client are its posts. -/
theorem written_processCommand (hinj : ∀ d d' c c', s.clients.lookup d = some c →
      s.clients.lookup d' = some c' → c.serial = c'.serial → d = d')
    (hc : s.clients.lookup d = some c)
    (hc' : (processCommand s fd (Parser.parse line)).clients.lookup d = some c') :
    c'.written.filter Reply.isPrivMsg = c.written.filter Reply.isPrivMsg ++
      (postsTo c.serial (s.post fd line)).map Post.text := by
  by_cases hf : ∃ e t m, Forwards s fd (Parser.parse line) e t m
  · obtain ⟨e, t, m, hf⟩ := hf
    obtain ⟨c₀, hc₀, -⟩ := Server.getClientByNick_eq_some hf.2.2.2.2.2
    rw [processCommand_of_forwards hf] at hc'
    rw [post_of_forwards hf, Server.client_eq hc₀]
    obtain ⟨c₁, hc₁, ⟨rfl, rfl⟩ | ⟨hd, rfl⟩⟩ := Server.exists_of_lookup_modify hc'
    · obtain rfl := Option.some.inj (hc.symm.trans hc₁)
      obtain rfl := Option.some.inj (hc.symm.trans hc₀)
      have hto : postsTo c.serial [⟨(s.client fd).serial, c.serial, line,
          (s.client fd).privMsg t m⟩] = [⟨(s.client fd).serial, c.serial, line,
          (s.client fd).privMsg t m⟩] := List.filter_eq_self.mpr (by simp)
      rw [hto, Client.appendToWriteBuffer, List.filter_append]
      rfl
    · obtain rfl := Option.some.inj (hc.symm.trans hc₁)
      have hne : c₀.serial ≠ c.serial := fun heq ↦ hd (hinj d e c c₀ hc hc₀ heq.symm)
      have hto : postsTo c.serial [⟨(s.client fd).serial, c₀.serial, line,
          (s.client fd).privMsg t m⟩] = [] := List.filter_eq_nil_iff.mpr (by simp [hne])
      rw [hto, List.map_nil, List.append_nil]
  · have hno : ∀ e t m, ¬ Forwards s fd (Parser.parse line) e t m := fun e t m h ↦
      hf ⟨e, t, m, h⟩
    obtain ⟨ms, hms, hw⟩ := says_other hno d
    rw [hc, hc'] at hw
    have hwritten : c'.written = c.written ++ ms := Option.some.inj hw
    have hnone : ms.filter Reply.isPrivMsg = [] :=
      List.filter_eq_nil_iff.mpr fun m hm ↦ by rw [hms m hm]; exact Bool.false_ne_true
    rw [post_of_not_forwards hno, hwritten, List.filter_append, hnone]
    rfl

/-- A line is processed. -/
theorem Mail.process {record : List Post} (h : Mail n s record)
    (hc₀ : s.clients.lookup fd = some c) (line : Bytes) :
    Mail n (Server.process fd s line) (record ++ s.post fd line) := by
  -- what becomes of each client
  have hclient (d : Int) (c' : Client)
      (hc' : (Server.process fd s line).clients.lookup d = some c') :
      ∃ c, s.clients.lookup d = some c ∧ c'.serial = c.serial ∧
        c'.executed = c.executed ++ (if d = fd then [line] else []) ∧
        c'.written.filter Reply.isPrivMsg = c.written.filter Reply.isPrivMsg ++
          (postsTo c.serial (s.post fd line)).map Post.text := by
    obtain ⟨f, hf, hl⟩ := (processCommand_effect s fd (Parser.parse line)).lookup d
    obtain ⟨c₁, hc₁, hcase⟩ := Server.exists_of_lookup_modify hc'
    obtain ⟨c, hc, rfl⟩ := Option.map_eq_some_iff.mp (hl.symm.trans hc₁)
    obtain ⟨hserial, -, hexec, -⟩ := hf.frame c
    have hwritten := written_processCommand h.inj hc hc₁
    rcases hcase with ⟨hd, rfl⟩ | ⟨hd, rfl⟩
    · refine ⟨c, hc, hserial, ?_, hwritten⟩
      rw [if_pos hd]
      exact congrArg (· ++ [line]) hexec
    · refine ⟨c, hc, hserial, ?_, hwritten⟩
      rw [if_neg hd, List.append_nil]
      exact hexec
  refine ⟨?_, ?_, ?_, ?_, ?_, ?_⟩
  · intro d d' c' c'' hc' hc'' heq
    obtain ⟨a, ha, hserial, -⟩ := hclient d c' hc'
    obtain ⟨b, hb, hserial', -⟩ := hclient d' c'' hc''
    exact h.inj d d' a b ha hb (hserial.symm.trans (heq.trans hserial'))
  · intro d c' hc'
    obtain ⟨a, ha, hserial, -⟩ := hclient d c' hc'
    exact hserial ▸ h.lt d a ha
  · refine List.forall_mem_append.mpr ⟨h.old, fun x hx ↦ ?_⟩
    obtain ⟨hsender, -, -, d, c', hc', hrecipient⟩ := mem_post hc₀ hx
    exact ⟨hsender ▸ h.lt fd c hc₀, hrecipient ▸ h.lt d c' hc'⟩
  · exact List.forall_mem_append.mpr ⟨h.sound, fun x hx ↦ (mem_post hc₀ hx).2.2.1⟩
  · intro d c' hc'
    obtain ⟨a, ha, hserial, -, hwritten⟩ := hclient d c' hc'
    rw [hwritten, h.received d a ha, hserial, postsTo, postsTo, postsTo, List.filter_append,
      List.map_append]
  · intro d c' hc'
    obtain ⟨a, ha, hserial, hexec, -⟩ := hclient d c' hc'
    rw [postsFrom, List.filter_append, List.map_append, hexec, hserial]
    refine (h.sent d a ha).append ?_
    by_cases hd : d = fd
    · rw [if_pos hd]
      exact (List.filter_sublist.map Post.line).trans (map_line_post s fd line)
    · rw [if_neg hd]
      have hnone : (s.post fd line).filter (·.sender == a.serial) = [] := by
        refine List.filter_eq_nil_iff.mpr fun x hx ↦ ?_
        have hsender := (mem_post hc₀ hx).1
        have hne : c.serial ≠ a.serial := fun heq ↦ hd (h.inj d fd a c ha hc₀ heq.symm)
        rw [hsender, beq_iff_eq]
        exact hne
      rw [hnone]
      exact List.Sublist.refl []

/-- The lines of a chunk are processed. -/
theorem Mail.foldl_process {record : List Post} (h : Mail n s record) (hfd : fd ∈ s.clients)
    (ls : List Bytes) : Mail n (ls.foldl (Server.process fd) s)
      (record ++ (turns fd).record (Server.post · fd ·) s ls) := by
  refine (valid_turns hfd ls).record_invariant_from (J := Mail n) (fun s line l hfd h ↦ ?_) h
  obtain ⟨c, hc⟩ := UnorderedMap.mem_iff_lookup.mp hfd
  exact h.process hc line

theorem Mail.mono {record : List Post} (h : Mail n s record) {m : Nat} (hle : n ≤ m) :
    Mail m s record where
  inj := h.inj
  lt d c hc := (h.lt d c hc).trans_le hle
  old x hx := ⟨(h.old x hx).1.trans_le hle, (h.old x hx).2.trans_le hle⟩
  sound := h.sound
  received := h.received
  sent := h.sent

/-- Nobody is read. -/
theorem Mail.of_same {record : List Post} (h : Mail n s record) {s' : Server}
    (hsame : ∀ d c', s'.clients.lookup d = some c' → ∃ c, s.clients.lookup d = some c ∧
      c'.serial = c.serial ∧ c'.executed = c.executed ∧ c'.written = c.written) :
    Mail n s' record where
  inj d d' c' c'' hc' hc'' heq := by
    obtain ⟨a, ha, hserial, -⟩ := hsame d c' hc'
    obtain ⟨b, hb, hserial', -⟩ := hsame d' c'' hc''
    exact h.inj d d' a b ha hb (hserial.symm.trans (heq.trans hserial'))
  lt d c' hc' := by
    obtain ⟨a, ha, hserial, -⟩ := hsame d c' hc'
    exact hserial ▸ h.lt d a ha
  old := h.old
  sound := h.sound
  received d c' hc' := by
    obtain ⟨a, ha, hserial, -, hwritten⟩ := hsame d c' hc'
    rw [hwritten, hserial]
    exact h.received d a ha
  sent d c' hc' := by
    obtain ⟨a, ha, hserial, hexec, -⟩ := hsame d c' hc'
    rw [hexec, hserial]
    exact h.sent d a ha

end Line

/-! ## Runs -/

/-- Connections so far have their mail, and there is none for those to come. -/
structure Mailbox (σ : PollLoop) (record : List Post) : Prop where
  inStep : σ.server.InStep
  numbered : σ.Numbered
  mail : Mail σ.server.nextSerial σ.server record

/-- Nobody is read, and somebody may connect. -/
theorem Mail.quiet {σ : PollLoop} {s' : Server} {record : List Post} (h : Mail σ.server.nextSerial
    σ.server record) (hquiet : Quiet σ s') {n : Nat} (hn : σ.server.nextSerial ≤ n)
    (hinj : ∀ d d' c c', s'.clients.lookup d = some c → s'.clients.lookup d' = some c' →
      c.serial = c'.serial → d = d')
    (hlt : ∀ d c, s'.clients.lookup d = some c → c.serial < n) : Mail n s' record where
  inj := hinj
  lt := hlt
  old x hx := ⟨(h.old x hx).1.trans_le hn, (h.old x hx).2.trans_le hn⟩
  sound := h.sound
  received d c' hc' := by
    rcases hquiet.clients d c' hc' with ⟨c, hc, hsame⟩ | ⟨address, rfl⟩
    · obtain ⟨hserial, -, -, hwritten⟩ := Client.eq_of_unsent hsame
      rw [hwritten, hserial]
      exact h.received d c hc
    · have hnone : postsTo σ.server.nextSerial record = [] :=
        List.filter_eq_nil_iff.mpr fun x hx ↦ by simpa using (h.old x hx).2.ne
      rw [Client.accepted, hnone]
      rfl
  sent d c' hc' := by
    rcases hquiet.clients d c' hc' with ⟨c, hc, hsame⟩ | ⟨address, rfl⟩
    · obtain ⟨hserial, hexec, -, -⟩ := Client.eq_of_unsent hsame
      rw [hexec, hserial]
      exact h.sent d c hc
    · have hnone : postsFrom σ.server.nextSerial record = [] :=
        List.filter_eq_nil_iff.mpr fun x hx ↦ by simpa using (h.old x hx).1.ne
      rw [Client.accepted, hnone]
      exact List.Sublist.refl []

theorem Mailbox.step {σ : PollLoop} {record : List Post} (h : Mailbox σ record)
    {e : PollEvent} (he : σ.enabled e) : Mailbox (σ.step e) (record ++ σ.posts e) := by
  have hnumbered := h.numbered.step (step_effect h.inStep he)
  have hle := nextSerial_le_step h.inStep he
  refine ⟨(step_effect h.inStep he).inStep h.inStep, hnumbered, ?_⟩
  cases step_fetches h.inStep he with
  | quiet hfeed hquiet =>
      rw [PollLoop.posts, PollLoop.perLine, hfeed, List.append_nil]
      exact h.mail.quiet hquiet hle hnumbered.inj hnumbered.lt
  | read fd chunk hfeed hne hfd heq =>
      obtain ⟨c₀, hc₀⟩ := UnorderedMap.mem_iff_lookup.mp hfd
      rw [PollLoop.posts, PollLoop.perLine, hfeed]
      refine Mail.mono ?_ hle
      rw [heq, Server.receiveData_eq hc₀ hne, Server.absorb]
      have hmail := h.mail.foldl_process hfd
        (lines LF CR ((σ.server.client fd).readBuffer ++ cString chunk))
      refine hmail.of_same fun d c' hc' ↦ ?_
      obtain ⟨c, hc, ⟨-, rfl⟩ | ⟨-, rfl⟩⟩ := Server.exists_of_lookup_modify hc'
      · exact ⟨c, hc, rfl, rfl, rfl⟩
      · exact ⟨c', hc, rfl, rfl, rfl⟩

section Run

variable {serverSocket : Int} {password : Bytes} {channels : UnorderedMap Nat Channel}
variable {es : List PollEvent}

theorem mailbox_run (hv : pollLoop.Valid (.start serverSocket password channels) es) :
    Mailbox (pollLoop.run (.start serverSocket password channels) es)
      (pollLoop.record PollLoop.posts (.start serverSocket password channels) es) := by
  have hnumbered := numbered_start serverSocket password channels
  refine hv.record_invariant (J := Mailbox) (fun _ _ _ he h ↦ h.step he)
    ⟨inStep_start serverSocket password channels, hnumbered, ?_⟩
  exact ⟨hnumbered.inj, hnumbered.lt, List.forall_mem_nil _, List.forall_mem_nil _,
    fun _ _ h ↦ (nomatch h), fun _ _ h ↦ (nomatch h)⟩

/-- In every state that the loop reaches, the messages among the texts that were appended for
a client are the posts to its connection, once each and in order; the posts from a connection
come from different lines of its client, in the order of the lines; and a post carries the
target and the text of its line.  So the messages from one client to another arrive in the
order in which it sent them. -/
theorem posts_delivered (hv : pollLoop.Valid (.start serverSocket password channels) es) :
    let σ := pollLoop.run (.start serverSocket password channels) es
    let record := pollLoop.record PollLoop.posts (.start serverSocket password channels) es
    (∀ x ∈ record, x.Sound) ∧
    (∀ d c, σ.server.clients.lookup d = some c →
      c.written.filter Reply.isPrivMsg = (postsTo c.serial record).map Post.text ∧
      ((postsFrom c.serial record).map Post.line).Sublist c.executed) ∧
    ∀ d c d' c', σ.server.clients.lookup d = some c → σ.server.clients.lookup d' = some c' →
      ((postsTo c'.serial (postsFrom c.serial record)).map Post.line).Sublist c.executed ∧
      ((postsTo c'.serial (postsFrom c.serial record)).map Post.text).Sublist c'.written := by
  intro σ record
  obtain ⟨-, -, hmail⟩ : Mailbox σ record := mailbox_run hv
  refine ⟨hmail.sound, fun d c hc ↦ ⟨hmail.received d c hc, hmail.sent d c hc⟩, ?_⟩
  intro d c d' c' hc hc'
  constructor
  · exact (List.filter_sublist.map Post.line).trans (hmail.sent d c hc)
  · have hwritten : ((postsTo c'.serial record).map Post.text).Sublist c'.written :=
      hmail.received d' c' hc' ▸ List.filter_sublist
    refine List.Sublist.trans (List.Sublist.map Post.text ?_) hwritten
    exact List.filter_sublist.filter _

/-- Ann and Bob register in turns, and Ann sends Bob two messages in one chunk. -/
def greetingRun : List PollEvent :=
  [.prepare, .poll fun i ↦ (i == 0, false),
    .read (.connected 4 ⟨127, 0, 0, 1⟩) (.ok []), .write 0, .read .acceptFailed (.ok []), .write 0,
    .round, .prepare, .prepare, .poll fun i ↦ (i == 0, false),
    .read (.connected 5 ⟨127, 0, 0, 2⟩) (.ok []), .write 0,
    .read .acceptFailed (.ok []), .write 0, .read .acceptFailed (.ok []), .write 0,
    .round, .prepare, .prepare, .prepare, .poll fun i ↦ (i != 0, false),
    .read .acceptFailed (.ok []), .write 0,
    .read .acceptFailed (.ok (lit "PASS pw\nNICK ann\nUSER ann 0 * :Ann\n")), .write 0,
    .read .acceptFailed (.ok (lit "PASS pw\nNICK bob\nUSER bob 0 * :Bob\n")), .write 0,
    .round, .prepare, .prepare, .prepare, .poll fun i ↦ (i == 1, i == 2),
    .read .acceptFailed (.ok []), .write 0,
    .read .acceptFailed (.ok (lit "PRIVMSG bob :hi\nPING x\nPRIVMSG bob :there\n")), .write 0,
    .read .acceptFailed (.ok []), .write 7]

theorem posts_delivered_greeting :
    let σ := pollLoop.run (.start 3 (lit "pw") ∅) greetingRun
    let record := pollLoop.record PollLoop.posts (.start 3 (lit "pw") ∅) greetingRun
    (∀ x ∈ record, x.Sound) ∧
    (∀ d c, σ.server.clients.lookup d = some c →
      c.written.filter Reply.isPrivMsg = (postsTo c.serial record).map Post.text ∧
      ((postsFrom c.serial record).map Post.line).Sublist c.executed) ∧
    ∀ d c d' c', σ.server.clients.lookup d = some c → σ.server.clients.lookup d' = some c' →
      ((postsTo c'.serial (postsFrom c.serial record)).map Post.line).Sublist c.executed ∧
      ((postsTo c'.serial (postsFrom c.serial record)).map Post.text).Sublist c'.written :=
  posts_delivered (by decide +kernel)

/-- Two posts, from the first connection to the second. -/
example : (pollLoop.record PollLoop.posts (.start 3 (lit "pw") ∅) greetingRun).map
    (fun x ↦ (x.sender, x.recipient, x.line)) =
      [(0, 1, lit "PRIVMSG bob :hi"), (0, 1, lit "PRIVMSG bob :there")] := by decide +kernel

end Run

end IrcServer
