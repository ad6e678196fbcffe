import IrcServer.Dispatch
import IrcServer.Roles

/-!
# Refusals

Every error numeric stands at an exit of a handler, and nothing is assigned on the way to
that exit: a line is either refused with one error text and no other effect, or it is served
and no error text is sent to anybody (`Handled`).  The one refusal that does something else
besides is 464, which marks the sender.
-/

namespace IrcServer

open Library Commands

/-! ## Numerics -/

namespace Reply

/-- The numeric of a text, for the texts that have one. -/
def numeric : Reply → Option Nat
  | welcome .. => some 1
  | errNoOrigin .. => some 409
  | errUnknownCommand .. => some 421
  | errNickInUse .. => some 433
  | errNotRegistered .. => some 451
  | errNeedMoreParams .. => some 461
  | errAlreadyRegistered .. => some 462
  | errPasswordMismatch .. => some 464
  | noTextToSend .. => some 412
  | noSuchChannel .. => some 403
  | noSuchNick .. => some 401
  | notEnoughParameters .. => some 461
  | notOnChannel .. => some 442
  | noTopic .. => some 331
  | topic .. => some 332
  | chanOpRequired .. => some 482
  | endOfNames .. => some 366
  | namReply .. => some 353
  | nickChanged .. | pong .. | closingLink .. | privMsg .. | topicChanged .. | what .. => none

/-- Whether the numeric of a text is one of these. -/
def isAmong (numerics : List Nat) (m : Reply) : Bool := m.numeric.any (numerics.contains ·)

theorem numeric_ne {numerics : List Nat} {m : Reply} {n : Nat} (hm : m.isAmong numerics = true)
    (hn : n ∉ numerics) : m.numeric ≠ some n := by
  rintro h
  rw [isAmong, h] at hm
  exact hn (List.contains_iff_mem.mp hm)

/-- The error numerics of the handlers that change nothing. -/
def refusals : List Nat := [401, 403, 409, 412, 433, 442, 451, 461, 462, 482]

/-- The error numerics. -/
def isError (m : Reply) : Bool := m.isAmong (421 :: 464 :: refusals)

/-- The lines that report no error. -/
def IsService (m : Reply) : Prop := m.isError = false ∧ m.IsLine

theorem isLine_of_isAmong {numerics : List Nat} {m : Reply} (h : m.isAmong numerics = true) :
    m.IsLine := by
  cases m with
  | what text => exact absurd h Bool.false_ne_true
  | _ => trivial

end Reply

/-! ## What a step says -/

/-- Texts satisfying `P` are appended to write buffers, and no others. -/
def Says (P : Reply → Prop) (s s' : Server) : Prop := ∀ d, ∃ ms : List Reply, (∀ m ∈ ms, P m) ∧
  (s'.clients.lookup d).map Client.written = (s.clients.lookup d).map fun c ↦ c.written ++ ms

namespace Says

variable {P : Reply → Prop} {s s' s'' : Server}

theorem of_clients (h : s'.clients = s.clients) : Says P s s' := fun d ↦
  ⟨[], by simp, by simp [h]⟩

theorem mono {Q : Reply → Prop} (h : Says P s s') (hPQ : ∀ m, P m → Q m) : Says Q s s' := by
  intro d
  obtain ⟨ms, hms, hl⟩ := h d
  exact ⟨ms, fun m hm ↦ hPQ m (hms m hm), hl⟩

theorem trans (h : Says P s s') (h' : Says P s' s'') : Says P s s'' := by
  intro d
  obtain ⟨ms, hms, hl⟩ := h d
  obtain ⟨ns, hns, hl'⟩ := h' d
  refine ⟨ms ++ ns, fun m hm ↦ (List.mem_append.mp hm).elim (hms m) (hns m), ?_⟩
  have hmap := congrArg (Option.map (· ++ ns)) hl
  simp only [Option.map_map] at hmap
  rw [hl']
  refine hmap.trans (congrArg (Option.map · _) ?_)
  funext c
  exact List.append_assoc c.written ms ns

/-- A change of one client, with the texts it makes of the client appended. -/
theorem of_lookup (texts : Int → Client → List Reply)
    (hP : ∀ d c, s.clients.lookup d = some c → ∀ m ∈ texts d c, P m)
    (h : ∀ d, (s'.clients.lookup d).map Client.written =
      (s.clients.lookup d).map fun c ↦ c.written ++ texts d c) : Says P s s' := by
  intro d
  cases hc : s.clients.lookup d with
  | none => exact ⟨[], by simp, by rw [h d, hc]; rfl⟩
  | some c => exact ⟨texts d c, hP d c hc, by rw [h d, hc]; rfl⟩

theorem modify (fd : Int) {f : Client → Client} (texts : Client → List Reply)
    (hf : ∀ c, (f c).written = c.written ++ texts c)
    (hP : ∀ c, s.clients.lookup fd = some c → ∀ m ∈ texts c, P m) :
    Says P s (s.modify fd f) := by
  apply of_lookup fun d c ↦ if d = fd then texts c else []
  · intro d c hc
    split
    · rename_i hd
      exact hP c (hd ▸ hc)
    · exact List.forall_mem_nil P
  · intro d
    rw [Server.lookup_modify]
    split
    · rw [Option.map_map]
      exact congrArg (Option.map · _) (funext hf)
    · simp only [List.append_nil]

theorem reply (fd : Int) {m : Reply} (hm : P m) : Says P s (s.reply fd m) :=
  modify fd (fun _ ↦ [m]) (fun _ ↦ rfl) fun _ _ ↦ List.forall_mem_singleton.mpr hm

theorem silent (fd : Int) {f : Client → Client} (hf : ∀ c, (f c).written = c.written) :
    Says P s (s.modify fd f) :=
  modify fd (fun _ ↦ []) (fun c ↦ (hf c).trans (List.append_nil _).symm)
    fun _ _ ↦ List.forall_mem_nil P

/-- A text, and a write that appends none. -/
theorem reply_silent (fd : Int) {m : Reply} {f : Client → Client} (hm : P m)
    (hf : ∀ c, (f c).written = c.written) : Says P s ((s.reply fd m).modify fd f) :=
  (reply fd hm).trans (silent fd hf)

theorem publicMessage (chan : Channel) {m : Reply} (hm : P m) :
    Says P s (s.publicMessage chan m) := by
  unfold Server.publicMessage
  split
  · exact of_clients rfl
  · rw [← List.foldl_append]
    apply of_lookup (fun d c ↦ .replicate (chan.occupants.count ⟨d, c.serial⟩) m)
      fun d c _ n hn ↦ (List.eq_of_mem_replicate hn) ▸ hm
    intro d
    rw [Server.lookup_deliver_all, Option.map_map]
    refine congrArg (Option.map · _) ?_
    funext c
    simp [Client.appendAll_eq, Channel.occupants]

/-- A client that takes a nickname is told of it, or welcomed under it. -/
theorem renamed (fd : Int) {n : Bytes} (hchanged : ∀ c : Client, P (.nickChanged c.nickname
    c.username c.hostname n)) (hwelcome : ∀ c : Client, P (.welcome n c.username c.hostname)) :
    Says P s (s.modify fd (·.renamed n)) := by
  refine modify fd (·.renameTexts n) ?_ ?_
  · intro c
    simp [Client.renamed_eq]
  · intro c _ m hm
    unfold Client.renameTexts at hm
    split at hm
    · rw [List.mem_singleton.mp hm]
      exact hchanged c
    · split at hm
      · rw [List.mem_singleton.mp hm]
        exact hwelcome c
      · exact absurd hm List.not_mem_nil

/-- A client that gives its user name is welcomed, if at all. -/
theorem introduced (fd : Int) {u r : Bytes} (hwelcome : ∀ c,
    s.clients.lookup fd = some c → P (.welcome c.nickname u c.hostname)) :
    Says P s (s.modify fd (·.introduced u r)) := by
  refine modify fd (·.introduceTexts u) ?_ ?_
  · intro c
    simp [Client.introduced_eq]
  · intro c hc m hm
    unfold Client.introduceTexts at hm
    split at hm
    · rw [List.mem_singleton.mp hm]
      exact hwelcome c hc
    · exact absurd hm List.not_mem_nil

end Says

/-! ## Handlers -/

/-- How a line ends: it is refused without another effect, refused for a wrong password, or
served without an error text. -/
inductive Handled (s : Server) (fd : Int) : Server → Prop where
  | refused (m : Reply) (hm : m.isAmong Reply.refusals = true) : Handled s fd (s.reply fd m)
  | dismissed (nick : Bytes) : Handled s fd
      ((s.reply fd (.errPasswordMismatch nick)).modify fd (·.setShouldDisconnect true))
  | served (s' : Server) (h : Says Reply.IsService s s') : Handled s fd s'

section Handlers

variable {s s' : Server} {fd : Int} {cmd : Parser} {params : List Bytes}

theorem PassExit.handled (h : PassExit s fd cmd s') : Handled s fd s' := by
  cases h with
  | needMoreParams | alreadyRegistered => exact .refused _ rfl
  | authenticated => exact .served _ (.silent fd fun _ ↦ rfl)
  | passwordMismatch => exact .dismissed _

theorem NickExit.handled (h : NickExit s fd cmd s') : Handled s fd s' := by
  cases h with
  | needMoreParams | nickInUse | notRegistered => exact .refused _ rfl
  | renamed => exact .served _ (.renamed fd (fun _ ↦ ⟨rfl, trivial⟩) fun _ ↦ ⟨rfl, trivial⟩)

theorem UserExit.handled (h : UserExit s fd cmd s') : Handled s fd s' := by
  cases h with
  | notRegistered | alreadyRegistered | needMoreParams => exact .refused _ rfl
  | introduced => exact .served _ (.introduced fd fun _ _ ↦ ⟨rfl, trivial⟩)

theorem PingExit.handled (h : PingExit s fd cmd s') : Handled s fd s' := by
  cases h with
  | noOrigin => exact .refused _ rfl
  | pong => exact .served _ (.reply fd ⟨rfl, trivial⟩)

theorem PrivMsgExit.handled (h : PrivMsgExit s fd cmd s') : Handled s fd s' := by
  cases h with
  | needMoreParams | noText | emptyText | noSuchChannel | noSuchNick => exact .refused _ rfl
  | forwarded => exact .served _ (.reply _ ⟨rfl, trivial⟩)

theorem Topic.Exit.handled (h : Topic.Exit s fd params s') : Handled s fd s' := by
  cases h with
  | notEnoughParameters | noSuchChannel | notOnChannel | chanOpRequired => exact .refused _ rfl
  | noTopic | topic => exact .served _ (.reply fd ⟨rfl, trivial⟩)
  | topicChanged =>
      exact .served _ (.trans (.of_clients rfl)
        (.publicMessage _ (m := .topicChanged _ _ _) ⟨rfl, trivial⟩))

theorem Names.Exit.handled (h : Names.Exit s fd params s') : Handled s fd s' := by
  cases h with
  | notEnoughParameters => exact .refused _ rfl
  | noSuchChannel => exact .served _ (.reply fd ⟨rfl, trivial⟩)
  | listed k chan =>
      have hvisit : Says Reply.IsService s (Names.visit s chan) := .of_clients rfl
      exact .served _ ((hvisit.trans (.reply fd (m := .namReply _ _ _) ⟨rfl, trivial⟩)).trans
        (.reply fd ⟨rfl, trivial⟩))

theorem ChannelCommand.execute_handled {c : ChannelCommand}
    (h : c.execute s fd params = (s', none)) : Handled s fd s' := by
  obtain rfl : (c.execute s fd params).1 = s' := congrArg Prod.fst h
  cases c with
  | topic => exact (Topic.execute_exit s fd params).handled
  | names => exact (Names.execute_exit s fd params).handled
  | join => exact absurd (congrArg Prod.snd h) (Join.throws s fd params)
  | invite | kick | mode | part => exact .served _ (.of_clients rfl)

/-- The dispatcher adds 421 to what the handlers answer. -/
theorem Dispatched.handled (h : Dispatched s fd cmd s') :
    Handled s fd s' ∨ cmd.command = lit "UNKNOWN" ∧
      s' = s.reply fd (.errUnknownCommand (s.client fd).nickname cmd.command) := by
  cases h with
  | pass => exact Or.inl (handlePass_exit s fd cmd).handled
  | nick => exact Or.inl (handleNick_exit s fd cmd).handled
  | user => exact Or.inl (handleUser_exit s fd cmd).handled
  | unregistered => exact Or.inl (.refused _ rfl)
  | executed c _ _ _ hexec => exact Or.inl (c.execute_handled hexec)
  | ping => exact Or.inl (handlePing_exit s fd cmd).handled
  | quit => exact Or.inl (.served _ (.reply_silent fd ⟨rfl, trivial⟩ fun _ ↦ rfl))
  | privMsg => exact Or.inl (handlePrivMsg_exit s fd cmd).handled
  | unknown h => exact Or.inr ⟨h, rfl⟩
  | cap | thrown | pong | ignored => exact Or.inl (.served _ (.of_clients rfl))

/-- Whatever a line is answered, the texts are lines. -/
theorem says_isLine (s : Server) (fd : Int) (cmd : Parser) :
    Says Reply.IsLine s (processCommand s fd cmd) := by
  rcases (processCommand_dispatched s fd cmd).handled with h | ⟨-, h⟩
  · generalize processCommand s fd cmd = s' at h
    cases h with
    | refused m hm => exact .reply fd (Reply.isLine_of_isAmong hm)
    | dismissed nick => exact .reply_silent fd trivial fun _ ↦ rfl
    | served _ h => exact h.mono fun m hm ↦ hm.2
  · rw [h]
    exact .reply fd (m := .errUnknownCommand _ _) trivial

end Handlers

/-! ## Refused lines -/

/-- What a refusal makes of the server. -/
def Server.refuse (s : Server) (fd : Int) (m : Reply) : Server :=
  if m.numeric = some 464 then (s.reply fd m).modify fd (·.setShouldDisconnect true)
  else s.reply fd m

theorem Server.refuse_of_refusal {s : Server} {fd : Int} {m : Reply}
    (hm : m.isAmong Reply.refusals = true) : s.refuse fd m = s.reply fd m := by
  rw [refuse, if_neg (Reply.numeric_ne hm (by decide))]

/-- An error text among those appended for the sender is the only one, and all that the
line does. -/
theorem Handled.eq_refuse {s s' : Server} {fd : Int} (h : Handled s fd s') {c c' : Client}
    (hc : s.clients.lookup fd = some c) (hc' : s'.clients.lookup fd = some c') {m : Reply}
    (hm : m ∈ c'.written.drop c.written.length) (herr : m.isError = true) :
    s' = s.refuse fd m := by
  have hmem {ms : List Reply} (hw : c'.written = c.written ++ ms) : m ∈ ms := by
    rwa [hw, List.drop_left] at hm
  cases h with
  | refused n hn =>
      rw [Server.reply, Server.lookup_modify_self, hc] at hc'
      obtain rfl : c.appendToWriteBuffer n = c' := Option.some.inj hc'
      obtain rfl := List.mem_singleton.mp (hmem rfl)
      exact (Server.refuse_of_refusal hn).symm
  | dismissed nick =>
      rw [Server.reply, Server.modify_modify, Server.lookup_modify_self, hc] at hc'
      obtain rfl := Option.some.inj hc'
      obtain rfl := List.mem_singleton.mp (hmem rfl)
      rfl
  | served _ h =>
      obtain ⟨ms, hms, hl⟩ := h fd
      rw [hc, hc'] at hl
      exact absurd (hms m (hmem (Option.some.inj hl))).1 (by simp [herr])

/-- A line that is answered with an error text does nothing else, 464 apart, which marks
the sender; a channel command that ends in an exception does nothing at all. -/
theorem processCommand_refused (s : Server) (fd : Int) (cmd : Parser) :
    (∀ c c' m, s.clients.lookup fd = some c →
      (processCommand s fd cmd).clients.lookup fd = some c' →
      m ∈ c'.written.drop c.written.length → m.isError = true →
        processCommand s fd cmd = if m.numeric = some 464
          then (s.reply fd m).modify fd (·.setShouldDisconnect true) else s.reply fd m) ∧
    (∀ k e, ChannelCommand.makeCommand cmd.command = .ok k →
      (s.client fd).isRegistered = true → (k.execute s fd cmd.params).2 = some e →
        processCommand s fd cmd = s) := by
  constructor
  · intro c c' m hc hc' hm herr
    rcases (processCommand_dispatched s fd cmd).handled with h | ⟨-, h⟩
    · exact h.eq_refuse hc hc' hm herr
    · rw [h, Server.reply, Server.lookup_modify_self, hc] at hc'
      obtain rfl := Option.some.inj hc'
      have hm' : m ∈ [Reply.errUnknownCommand (s.client fd).nickname cmd.command] := by
        simpa [Client.appendToWriteBuffer] using hm
      obtain rfl := List.mem_singleton.mp hm'
      exact h
  · intro k e hk hreg hexec
    rw [processCommand_of_word (ChannelCommand.word_of_makeCommand hk) hreg]
    exact (ChannelCommand.execute_exception (Prod.ext rfl hexec)).2

/-- A server with one client, which is registered. -/
def lone : Server where
  password := lit "pw"
  serverSocket := 3
  clients := (∅ : UnorderedMap Int Client).emplace 4
    { nickname := lit "ann", username := lit "a", isAuthenticated := true }
  nextSerial := 1

/-- A message to nobody is answered with 401, and `JOIN` throws. -/
theorem processCommand_refused_lone :
    processCommand lone 4 (Parser.parse (lit "PRIVMSG bob :hi")) =
      lone.reply 4 (.noSuchNick (lit "ann") (lit "bob")) ∧
    processCommand lone 4 (Parser.parse (lit "JOIN #c")) = lone := by
  constructor
  · let m := Reply.noSuchNick (lit "ann") (lit "bob")
    have hlookup : (processCommand lone 4 (Parser.parse (lit "PRIVMSG bob :hi"))).clients.lookup 4 =
        some ((lone.client 4).appendToWriteBuffer m) := by decide +kernel
    exact (processCommand_refused lone 4 _).1 (lone.client 4) _ m (by decide) hlookup (by decide)
      (by decide)
  · exact (processCommand_refused lone 4 _).2 .join (.exception ERR_WRONG_NUM_PARAM) (by decide)
      (by decide) (by decide)

end IrcServer
