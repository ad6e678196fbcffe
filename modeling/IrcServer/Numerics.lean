import IrcServer.Routing
import IrcServer.TopicRules

/-!
# The form of the numerics

The header of `IRC::Reply` says how a numeric is written: the server prefix, the code, the
target, the rest.  The handlers of the registration use its builders.  `handlePrivMsg`,
`Topic::execute` and `Names::execute` concatenate their numerics themselves and leave out
the prefix (`documents_iff`).
-/

namespace IrcServer

open Library Commands

/-! ## Builders that no handler calls -/

namespace IRC

def noTopic (nick channel : Bytes) : Bytes :=
  Reply.header " 331 " nick ++ lit " " ++ channel ++ lit " :No topic is set\r\n"

def topic (nick channel topicText : Bytes) : Bytes :=
  Reply.header " 332 " nick ++ lit " " ++ channel ++ lit " :" ++ topicText ++ lit "\r\n"

def namReply (nick channel namesList : Bytes) : Bytes :=
  Reply.header " 353 " nick ++ lit " = " ++ channel ++ lit " :" ++ namesList ++ lit "\r\n"

def endOfNames (nick channel : Bytes) : Bytes :=
  Reply.header " 366 " nick ++ lit " " ++ channel ++ lit " :End of /NAMES list\r\n"

def errNoSuchNick (nick targetNick : Bytes) : Bytes :=
  Reply.header " 401 " nick ++ lit " " ++ targetNick ++ lit " :No such nick/channel\r\n"

def errNoSuchChannel (nick channel : Bytes) : Bytes :=
  Reply.header " 403 " nick ++ lit " " ++ channel ++ lit " :No such channel\r\n"

def errNoTextToSend (nick : Bytes) : Bytes :=
  Reply.header " 412 " nick ++ lit " :No text to send\r\n"

def errNotOnChannel (nick channel : Bytes) : Bytes :=
  Reply.header " 442 " nick ++ lit " " ++ channel ++ lit " :You're not on that channel\r\n"

def errChannelOpRequired (nick channel : Bytes) : Bytes :=
  Reply.header " 482 " nick ++ lit " " ++ channel ++ lit " :You're not channel operator\r\n"

end IRC

/-! ## Texts in the documented form -/

/-- Three digits. -/
def digits (n : Nat) : Bytes :=
  [48 + UInt8.ofNat (n / 100), 48 + UInt8.ofNat (n / 10 % 10), 48 + UInt8.ofNat (n % 10)]

namespace Reply

/-- What the builder of `IRC::Reply` for the code of a numeric makes of its values. -/
def built : Reply → Option Bytes
  | noTextToSend nick => some (IRC.errNoTextToSend nick)
  | noSuchChannel nick target => some (IRC.errNoSuchChannel nick target)
  | noSuchNick nick target => some (IRC.errNoSuchNick nick target)
  | notEnoughParameters nick command => some (errNeedMoreParams nick command).str
  | notOnChannel nick channel => some (IRC.errNotOnChannel nick channel)
  | noTopic nick channel => some (IRC.noTopic nick channel)
  | topic nick channel topicText => some (IRC.topic nick channel topicText)
  | chanOpRequired nick channel => some (IRC.errChannelOpRequired nick channel)
  | endOfNames nick channel => some (IRC.endOfNames nick channel)
  | namReply nick channel nameList => some (IRC.namReply nick channel nameList)
  | nickChanged .. | pong .. | closingLink .. | privMsg .. | topicChanged .. | what .. => none
  | m => some m.str

/-- The nickname a builder was called with. -/
def builtFor : Reply → Bytes
  | welcome nick _ _ | errNoOrigin nick | errUnknownCommand nick _ | errNickInUse nick _
  | errNotRegistered nick | errNeedMoreParams nick _ | errAlreadyRegistered nick
  | errPasswordMismatch nick => nick
  | _ => []

/-- A numeric for the client with this nickname, in the documented form: it is what the
builder of its code makes of its values, with the nickname or `*` as target. -/
structure Documented (nick : Bytes) (m : Reply) : Prop where
  built : m.built = some m.str
  form : ∃ code recipient text, m.numeric = some code ∧
    (recipient = target nick ∨ recipient = lit "*") ∧
    m.str = lit ":" ++ SERVER_NAME ++ lit " " ++ digits code ++ lit " " ++ recipient ++ text ++
      lit "\r\n"

/-- A bare numeric begins with its code. -/
theorem exists_str_of_isBare {m : Reply} (h : m.isBare = true) :
    ∃ code text, m.numeric = some code ∧ m.str = digits code ++ SPACE :: text ∧
      (digits code).head? ≠ some COLON := by
  cases m with
  | noTextToSend | noSuchChannel | noSuchNick | notEnoughParameters | notOnChannel | noTopic
  | topic | chanOpRequired | endOfNames | namReply => exact ⟨_, _, rfl, rfl, by decide⟩
  | _ => exact absurd h Bool.false_ne_true

/-- So it does not begin with the server prefix. -/
theorem not_documented_of_isBare {m : Reply} (h : m.isBare = true) (nick : Bytes) :
    ¬ m.Documented nick := by
  rintro ⟨-, _, _, _, -, -, hstr⟩
  obtain ⟨_, _, -, hstr', hhead⟩ := exists_str_of_isBare h
  exact hhead (congrArg List.head? (hstr'.symm.trans hstr))

theorem header_eq {code : String} {n : Nat} (h : lit code = lit " " ++ (digits n ++ lit " "))
    (nick : Bytes) : header code nick =
      lit ":" ++ SERVER_NAME ++ lit " " ++ digits n ++ lit " " ++ target nick := by
  simp only [header, h, List.append_assoc]

/-- What a builder makes of the nickname of a client, or of no nickname, is in the
documented form. -/
theorem documented_of_builtFor {m : Reply} {nick : Bytes} (hnumeric : m.numeric ≠ none)
    (hbare : m.isBare = false) (hfor : m.builtFor = nick ∨ m.builtFor = []) :
    m.Documented nick := by
  have hrecipient : target m.builtFor = target nick ∨ target m.builtFor = lit "*" :=
    hfor.imp (congrArg target) (congrArg target)
  have hform (code : String) (body ending : Bytes) {n : Nat} (hnum : m.numeric = some n)
      (hbuilt : m.built = some m.str) (hcode : lit code = lit " " ++ (digits n ++ lit " "))
      (hend : ending = ending.dropLast.dropLast ++ lit "\r\n")
      (hstr : m.str = header code m.builtFor ++ (body ++ ending)) : m.Documented nick := by
    refine ⟨hbuilt, n, target m.builtFor, body ++ ending.dropLast.dropLast, hnum, hrecipient, ?_⟩
    rw [hstr, header_eq hcode, List.append_assoc _ (body ++ _), List.append_assoc body, ← hend]
  cases m with
  | welcome nick user host =>
      exact hform " 001 " (lit " :Welcome to the IRC Network " ++ nick ++ lit "!" ++ user ++
        lit "@" ++ host) (lit "\r\n") rfl rfl (by decide) (by decide) (by simp [str, builtFor])
  | errNoOrigin => exact hform " 409 " [] _ rfl rfl (by decide) (by decide) rfl
  | errUnknownCommand nick command =>
      exact hform " 421 " (lit " " ++ command) (lit " :Unknown command\r\n") rfl rfl (by decide)
        (by decide) (by simp [str, builtFor])
  | errNickInUse nick badNick =>
      exact hform " 433 " (lit " " ++ badNick) (lit " :Nickname is already in use\r\n") rfl rfl
        (by decide) (by decide) (by simp [str, builtFor])
  | errNotRegistered => exact hform " 451 " [] _ rfl rfl (by decide) (by decide) rfl
  | errNeedMoreParams nick command =>
      exact hform " 461 " (lit " " ++ command) (lit " :Not enough parameters\r\n") rfl rfl
        (by decide) (by decide) (by simp [str, builtFor])
  | errAlreadyRegistered => exact hform " 462 " [] _ rfl rfl (by decide) (by decide) rfl
  | errPasswordMismatch => exact hform " 464 " [] _ rfl rfl (by decide) (by decide) rfl
  | nickChanged | pong | closingLink | privMsg | topicChanged | what => exact absurd rfl hnumeric
  | _ => exact absurd hbare.symm Bool.false_ne_true

/-- A numeric that a builder has made of this nickname or of none. -/
def Proper (nick : Bytes) (m : Reply) : Prop :=
  m.numeric ≠ none → m.isBare = false ∧ (m.builtFor = nick ∨ m.builtFor = [])

theorem Proper.of_numeric {nick : Bytes} {m : Reply} (h : m.numeric = none) : m.Proper nick :=
  fun hnumeric ↦ absurd h hnumeric

theorem Proper.of_builtFor {nick : Bytes} {m : Reply} (hbare : m.isBare = false)
    (hfor : m.builtFor = nick ∨ m.builtFor = []) : m.Proper nick := fun _ ↦ ⟨hbare, hfor⟩

end Reply

/-- The numerics appended to write buffers between the two servers are in the documented form,
for the client under this descriptor. -/
def Documents (s : Server) (fd : Int) (s' : Server) : Prop :=
  Says (fun m ↦ m.numeric ≠ none → m.Documented (s'.client fd).nickname) s s'

section

variable {s s' : Server} {fd : Int} {cmd : Parser}

theorem Documents.of_proper (h : Says (Reply.Proper (s'.client fd).nickname) s s') :
    Documents s fd s' :=
  h.mono fun _ hm hnumeric ↦
    Reply.documented_of_builtFor hnumeric (hm hnumeric).1 (hm hnumeric).2

/-- A bare numeric is not. -/
theorem not_documents {c : Client} {m : Reply} (ms : List Reply)
    (hc : s.clients.lookup fd = some c)
    (hc' : (s'.clients.lookup fd).map Client.written = some (c.written ++ m :: ms))
    (hbare : m.isBare = true) : ¬ Documents s fd s' := by
  intro h
  obtain ⟨ns, hns, hl⟩ := h fd
  rw [hc', hc, Option.map_some, Option.some.injEq, List.append_right_inj] at hl
  have hnumeric : m.numeric ≠ none := by
    obtain ⟨code, -, hcode, -⟩ := Reply.exists_str_of_isBare hbare
    simp [hcode]
  exact Reply.not_documented_of_isBare hbare _ (hns m (hl ▸ List.mem_cons_self) hnumeric)

theorem not_documents_reply {m : Reply} (hfd : fd ∈ s.clients) (hbare : m.isBare = true) :
    ¬ Documents s fd (s.reply fd m) := by
  obtain ⟨c, hc⟩ := UnorderedMap.mem_iff_lookup.mp hfd
  refine not_documents [] hc ?_ hbare
  rw [Server.reply, Server.lookup_modify_self, hc]
  rfl

theorem not_documents_replies {m n : Reply} (hclients : s'.clients = s.clients)
    (hfd : fd ∈ s.clients) (hbare : m.isBare = true) :
    ¬ Documents s fd ((s'.reply fd m).reply fd n) := by
  obtain ⟨c, hc⟩ := UnorderedMap.mem_iff_lookup.mp hfd
  refine not_documents [n] hc ?_ hbare
  rw [Server.reply, Server.reply, Server.modify_modify, Server.lookup_modify_self, hclients, hc]
  exact congrArg some (List.append_assoc c.written [m] [n])

/-! ## Handlers -/

theorem PassExit.proper (h : PassExit s fd cmd s') :
    Says (Reply.Proper (s.client fd).nickname) s s' := by
  cases h with
  | needMoreParams | alreadyRegistered => exact .reply fd (.of_builtFor rfl (Or.inl rfl))
  | authenticated => exact .silent fd fun _ ↦ rfl
  | passwordMismatch => exact .reply_silent fd (.of_builtFor rfl (Or.inl rfl)) fun _ ↦ rfl

theorem NickExit.proper (h : NickExit s fd cmd s') (hcmd : cmd.command = lit "NICK")
    (hno : ∀ n, ¬ Renames s fd cmd n) : Says (Reply.Proper (s.client fd).nickname) s s' := by
  cases h with
  | needMoreParams | notRegistered => exact .reply fd (.of_builtFor rfl (Or.inr rfl))
  | nickInUse => exact .reply fd (.of_builtFor rfl (Or.inl rfl))
  | renamed n rest hp htaken hauth =>
      exact absurd ⟨hcmd, by simp [hp], htaken, hauth⟩ (hno n)

theorem UserExit.proper (h : UserExit s fd cmd s') :
    Says (Reply.Proper (s.client fd).nickname) s s' := by
  cases h with
  | notRegistered | alreadyRegistered | needMoreParams =>
      exact .reply fd (.of_builtFor rfl (Or.inl rfl))
  | introduced =>
      refine .introduced fd fun c hc ↦ .of_builtFor rfl (Or.inl ?_)
      rw [Server.client_eq hc]
      rfl

theorem PingExit.proper (h : PingExit s fd cmd s') :
    Says (Reply.Proper (s.client fd).nickname) s s' := by
  cases h with
  | noOrigin => exact .reply fd (.of_builtFor rfl (Or.inl rfl))
  | pong => exact .reply fd (.of_numeric rfl)

theorem Topic.execute_proper {params : List Bytes} (h : Sets s fd params) :
    Says (Reply.Proper (s.client fd).nickname) s (execute s fd params) := by
  obtain ⟨k, chan, newTopic, hfind, hpermits⟩ := h
  rw [execute_of_found hfind hpermits]
  exact .trans (.of_clients rfl) (.publicMessage _ (m := .topicChanged _ _ _) (.of_numeric rfl))

/-- `NAMES` ends in a numeric without the server prefix, whatever it finds. -/
theorem Names.not_documents_execute (hfd : fd ∈ s.clients) (params : List Bytes) :
    ¬ Documents s fd (execute s fd params) := by
  have hexit := execute_exit s fd params
  generalize execute s fd params = s' at hexit
  cases hexit with
  | notEnoughParameters | noSuchChannel => exact not_documents_reply hfd rfl
  | listed => exact not_documents_replies rfl hfd rfl

end

/-! ## Lines -/

/-- The lines that a handler answers with a numeric of its own making: a `PRIVMSG` that has a
parameter and is not addressed to anybody, a `TOPIC` that sets no topic, and `NAMES`. -/
structure Handmade (s : Server) (fd : Int) (cmd : Parser) : Prop where
  registered : (s.client fd).isRegistered = true
  answered : (cmd.command = lit "PRIVMSG" ∧ cmd.params ≠ [] ∧ ∀ t x, ¬ Addressed s cmd t x) ∨
    (cmd.command = lit "TOPIC" ∧ ¬ Topic.Sets s fd cmd.params) ∨ cmd.command = lit "NAMES"

section

variable {s : Server} {fd : Int} {cmd : Parser}

/-- The welcome that follows a nickname has that nickname as target. -/
theorem documents_of_renames {n : Bytes} (h : Renames s fd cmd n) :
    Documents s fd (processCommand s fd cmd) := by
  have hc := Server.lookup_of_isAuthenticated h.2.2.2
  have hnick : ((s.modify fd (·.renamed n)).client fd).nickname = n := by
    rw [Server.client_modify_self hc, Client.renamed_eq]
  apply Documents.of_proper
  rw [processCommand_of_renames h, hnick]
  exact .renamed fd (fun _ ↦ .of_numeric rfl) fun _ ↦ .of_builtFor rfl (Or.inl rfl)

/-- The other lines are answered with texts of the builders. -/
theorem Dispatched.proper {s' : Server} (h : Dispatched s fd cmd s')
    (hno : ∀ n, ¬ Renames s fd cmd n) (hhand : ¬ Handmade s fd cmd) :
    Says (Reply.Proper (s.client fd).nickname) s s' := by
  cases h with
  | pass => exact (handlePass_exit s fd cmd).proper
  | nick h => exact (handleNick_exit s fd cmd).proper h hno
  | user => exact (handleUser_exit s fd cmd).proper
  | unregistered => exact .reply fd (.of_builtFor rfl (Or.inl rfl))
  | executed c h hreg s' hexec =>
      obtain rfl : (c.execute s fd cmd.params).1 = s' := congrArg Prod.fst hexec
      cases c with
      | topic =>
          refine Topic.execute_proper ?_
          by_contra hsets
          exact hhand ⟨hreg, Or.inr (Or.inl ⟨h, hsets⟩)⟩
      | names => exact absurd ⟨hreg, Or.inr (Or.inr h)⟩ hhand
      | join => exact absurd (congrArg Prod.snd hexec) (Join.throws s fd cmd.params)
      | invite | kick | mode | part => exact .of_clients rfl
  | ping => exact (handlePing_exit s fd cmd).proper
  | quit => exact .reply_silent fd (.of_numeric rfl) fun _ ↦ rfl
  | privMsg h hreg =>
      by_cases hto : ∃ t x, Addressed s cmd t x
      · obtain ⟨t, x, hto⟩ := hto
        obtain ⟨d, hforwards⟩ := hto.exists_forwards h hreg
        rw [handlePrivMsg_of_forwards hforwards]
        exact .reply d (.of_numeric rfl)
      · have hnot : ∀ t x, ¬ Addressed s cmd t x := fun t x hto' ↦ hto ⟨t, x, hto'⟩
        have hparams : cmd.params = [] := by
          by_contra hne
          exact hhand ⟨hreg, Or.inl ⟨h, hne, hnot⟩⟩
        rw [handlePrivMsg_of_not_addressed hnot, privMsgError, hparams]
        exact .reply fd (.of_builtFor rfl (Or.inl rfl))
  | unknown => exact .reply fd (.of_builtFor rfl (Or.inl rfl))
  | cap | thrown | pong | ignored => exact .of_clients rfl

theorem Topic.documents_execute_iff (hfd : fd ∈ s.clients) (params : List Bytes) :
    Documents s fd (execute s fd params) ↔ Sets s fd params := by
  constructor
  · intro h
    by_contra hsets
    obtain ⟨m, hm, hbare⟩ := execute_of_not_sets hsets
    exact not_documents_reply hfd hbare (hm ▸ h)
  · intro h
    have idle : Idle s fd ⟨[], lit "TOPIC", params⟩ :=
      idle_of_command (w := lit "TOPIC") rfl (by decide)
    have heffect : LineEffect s fd ⟨[], lit "TOPIC", params⟩ (execute s fd params) :=
      ChannelCommand.execute_effect (c := .topic) idle rfl
    apply Documents.of_proper
    rw [heffect.nickname idle.renames]
    exact execute_proper h

theorem not_documents_of_handmade (hfd : fd ∈ s.clients) (h : Handmade s fd cmd) :
    ¬ Documents s fd (processCommand s fd cmd) := by
  obtain ⟨hreg, ⟨hcmd, hparams, hnot⟩ | ⟨hcmd, hsets⟩ | hcmd⟩ := h
  · rw [processCommand_of_not_addressed hcmd hreg hnot]
    exact not_documents_reply hfd (isBare_privMsgError hparams)
  · rw [processCommand_of_word (c := .topic) hcmd hreg]
    exact fun hdoc ↦ hsets ((Topic.documents_execute_iff hfd cmd.params).mp hdoc)
  · rw [processCommand_of_word (c := .names) hcmd hreg]
    exact Names.not_documents_execute hfd cmd.params

theorem documents_of_not_handmade (h : ¬ Handmade s fd cmd) :
    Documents s fd (processCommand s fd cmd) := by
  by_cases hr : ∃ n, Renames s fd cmd n
  · obtain ⟨n, hr⟩ := hr
    exact documents_of_renames hr
  · have hno : ∀ n, ¬ Renames s fd cmd n := fun n hn ↦ hr ⟨n, hn⟩
    apply Documents.of_proper
    rw [(processCommand_effect s fd cmd).nickname hno]
    exact (processCommand_dispatched s fd cmd).proper hno h

end

/-- The numerics that answer a line are in the documented form unless the handler makes them
itself; those of `TOPIC` are where it sets a topic and sends none, those of `NAMES` never. -/
theorem documents_iff {s : Server} {fd : Int} (hfd : fd ∈ s.clients) :
    (∀ cmd, Documents s fd (processCommand s fd cmd) ↔ ¬ Handmade s fd cmd) ∧
    (∀ params, Documents s fd (Topic.execute s fd params) ↔ Topic.Sets s fd params) ∧
    ∀ params, ¬ Documents s fd (Names.execute s fd params) := by
  refine ⟨fun cmd ↦ ⟨fun hdoc h ↦ ?_, documents_of_not_handmade⟩,
    Topic.documents_execute_iff hfd, Names.not_documents_execute hfd⟩
  exact not_documents_of_handmade hfd h hdoc

/-- What the only client of a server does to register. -/
def aloneEvents : List Event := [.accept 4 ⟨127, 0, 0, 1⟩,
  .receive 4 (lit "PASS pw\nNICK ann\nUSER ann 0 * :Ann\n"), .line 4, .line 4, .line 4]

/-- The server with that client. -/
def alone : Server := network.run (Server.initial 3 (lit "pw")) aloneEvents

/-- The iff of every line of the only client. -/
theorem documents_iff_alone :
    (∀ cmd, Documents alone 4 (processCommand alone 4 cmd) ↔ ¬ Handmade alone 4 cmd) ∧
    (∀ params, Documents alone 4 (Topic.execute alone 4 params) ↔ Topic.Sets alone 4 params) ∧
    ∀ params, ¬ Documents alone 4 (Names.execute alone 4 params) :=
  documents_iff (by decide +kernel)

/-- The only client writes to `bob`, and the 401 it gets has no server prefix. -/
theorem not_documents_alone :
    network.Valid (Server.initial 3 (lit "pw")) aloneEvents ∧
    (processCommand alone 4 (Parser.parse (lit "PRIVMSG bob :hi"))).clients.lookup 4 =
      some ((alone.client 4).appendToWriteBuffer (.noSuchNick (lit "ann") (lit "bob"))) ∧
    (Reply.noSuchNick (lit "ann") (lit "bob")).str =
      lit "401 ann bob :No such nick/channel\r\n" ∧
    ¬ Documents alone 4 (processCommand alone 4 (Parser.parse (lit "PRIVMSG bob :hi"))) := by
  have hl : (processCommand alone 4 (Parser.parse (lit "PRIVMSG bob :hi"))).clients.lookup 4 =
      some ((alone.client 4).appendToWriteBuffer (.noSuchNick (lit "ann") (lit "bob"))) := by
    decide +kernel
  have hreg : (alone.client 4).isRegistered = true := by decide +kernel
  refine ⟨by decide +kernel, hl, by decide, ?_⟩
  exact not_documents [] (Server.lookup_of_isRegistered hreg)
    (congrArg (Option.map Client.written) hl) rfl

end IrcServer
