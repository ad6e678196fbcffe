import IrcServer.Dispatch

/-!
# Exits

A handler makes its tests one after the other and ends at the first that fails, or with
what it is for.  Each handler has a type of its exits: what the tests on the way to an exit
have established, and the server the handler leaves there.  That the handler ends at one of
them is stated once (`handlePass_exit` and so on); what a handler answers, whom it writes to
and what it can change is then read off its exits.
-/

namespace IrcServer

open Library Commands

/-! ## What is written at once -/

/-- A client to which texts are appended one after the other. -/
def Client.appendAll (c : Client) (messages : List Reply) : Client :=
  messages.foldl Client.appendToWriteBuffer c

@[simp] theorem Client.appendAll_nil (c : Client) : c.appendAll [] = c := rfl

theorem Client.appendAll_append (c : Client) (ms ns : List Reply) :
    c.appendAll (ms ++ ns) = (c.appendAll ms).appendAll ns := List.foldl_append

/-- Appending texts changes nothing but the write buffer and the record of it. -/
theorem Client.appendAll_eq (c : Client) (ms : List Reply) : c.appendAll ms =
    { c with writeBuffer := c.writeBuffer ++ ms.flatMap Reply.str, written := c.written ++ ms } := by
  induction ms generalizing c with
  | nil => simp
  | cons m ms ih =>
      change (c.appendToWriteBuffer m).appendAll ms = _
      rw [ih]
      simp [Client.appendToWriteBuffer]

namespace Client

/-- What a client is told when it takes a nickname. -/
def renameTexts (c : Client) (nickname : Bytes) : List Reply :=
  if c.isRegistered then [.nickChanged c.nickname c.username c.hostname nickname]
  else if (c.setNickname nickname).isRegistered then [.welcome nickname c.username c.hostname]
  else []

/-- What a client is told when it gives its user name. -/
def introduceTexts (c : Client) (username : Bytes) : List Reply :=
  if (c.setUsername username).isRegistered then [.welcome c.nickname username c.hostname] else []

/-- The client that has taken a nickname. -/
def renamed (c : Client) (nickname : Bytes) : Client :=
  (c.setNickname nickname).appendAll (c.renameTexts nickname)

/-- The client that has given its user name. -/
def introduced (c : Client) (username realname : Bytes) : Client :=
  ((c.setUsername username).setRealname realname).appendAll (c.introduceTexts username)

theorem renamed_eq (c : Client) (nickname : Bytes) : c.renamed nickname =
    { c with
      nickname := nickname
      writeBuffer := c.writeBuffer ++ (c.renameTexts nickname).flatMap Reply.str
      written := c.written ++ c.renameTexts nickname } := appendAll_eq _ _

theorem introduced_eq (c : Client) (username realname : Bytes) : c.introduced username realname =
    { c with
      username := username
      realname := realname
      writeBuffer := c.writeBuffer ++ (c.introduceTexts username).flatMap Reply.str
      written := c.written ++ c.introduceTexts username } := appendAll_eq _ _

end Client

/-! ## The registration -/

/-- The exits of `handlePass`. -/
inductive PassExit (s : Server) (fd : Int) (cmd : Parser) : Server → Prop where
  | needMoreParams (hp : cmd.params = []) :
      PassExit s fd cmd (s.reply fd (.errNeedMoreParams (s.client fd).nickname cmd.command))
  | alreadyRegistered (password : Bytes) (rest : List Bytes)
      (hp : cmd.params = password :: rest) (hauth : (s.client fd).isAuthenticated = true) :
      PassExit s fd cmd (s.reply fd (.errAlreadyRegistered (s.client fd).nickname))
  | authenticated (rest : List Bytes) (hp : cmd.params = s.password :: rest)
      (hauth : (s.client fd).isAuthenticated = false) :
      PassExit s fd cmd (s.modify fd (·.setAuthenticated true))
  | passwordMismatch (password : Bytes) (rest : List Bytes)
      (hp : cmd.params = password :: rest) (hauth : (s.client fd).isAuthenticated = false)
      (hpass : password ≠ s.password) :
      PassExit s fd cmd ((s.reply fd (.errPasswordMismatch (s.client fd).nickname)).modify fd
        (·.setShouldDisconnect true))

/-- The exits of `handleNick`. -/
inductive NickExit (s : Server) (fd : Int) (cmd : Parser) : Server → Prop where
  | needMoreParams (hp : cmd.params = []) :
      NickExit s fd cmd (s.reply fd (.errNeedMoreParams [] cmd.command))
  | nickInUse (nickname : Bytes) (rest : List Bytes) (hp : cmd.params = nickname :: rest)
      (htaken : s.isNicknameTaken nickname = true) :
      NickExit s fd cmd (s.reply fd (.errNickInUse (s.client fd).nickname nickname))
  | notRegistered (nickname : Bytes) (rest : List Bytes) (hp : cmd.params = nickname :: rest)
      (htaken : s.isNicknameTaken nickname = false)
      (hauth : (s.client fd).isAuthenticated = false) :
      NickExit s fd cmd (s.reply fd (.errNotRegistered []))
  | renamed (nickname : Bytes) (rest : List Bytes) (hp : cmd.params = nickname :: rest)
      (htaken : s.isNicknameTaken nickname = false)
      (hauth : (s.client fd).isAuthenticated = true) :
      NickExit s fd cmd (s.modify fd (·.renamed nickname))

/-- The exits of `handleUser`. -/
inductive UserExit (s : Server) (fd : Int) (cmd : Parser) : Server → Prop where
  | notRegistered (hauth : (s.client fd).isAuthenticated = false) :
      UserExit s fd cmd (s.reply fd (.errNotRegistered (s.client fd).nickname))
  | alreadyRegistered (hauth : (s.client fd).isAuthenticated = true)
      (huser : (s.client fd).username ≠ []) :
      UserExit s fd cmd (s.reply fd (.errAlreadyRegistered (s.client fd).nickname))
  | introduced (username a b realname : Bytes) (rest : List Bytes)
      (hp : cmd.params = username :: a :: b :: realname :: rest)
      (hauth : (s.client fd).isAuthenticated = true) (huser : (s.client fd).username = []) :
      UserExit s fd cmd (s.modify fd (·.introduced username realname))
  | needMoreParams (hp : cmd.params.length < 4) (hauth : (s.client fd).isAuthenticated = true)
      (huser : (s.client fd).username = []) :
      UserExit s fd cmd (s.reply fd (.errNeedMoreParams (s.client fd).nickname cmd.command))

theorem params_ne_of_length_lt {ps rest : List Bytes} {u a b r : Bytes} (h : ps.length < 4) :
    ps ≠ u :: a :: b :: r :: rest := by
  rintro rfl
  simp only [List.length_cons] at h
  omega

section

variable (s : Server) (fd : Int) (cmd : Parser)

theorem handlePass_exit : PassExit s fd cmd (handlePass s fd cmd) := by
  unfold handlePass
  cases hp : cmd.params with
  | nil => exact .needMoreParams hp
  | cons password rest =>
      simp only
      cases hauth : (s.client fd).isAuthenticated with
      | true => exact .alreadyRegistered password rest hp hauth
      | false =>
          simp only [Bool.false_eq_true, if_false]
          split
          · rename_i hpass
            exact .authenticated rest (hpass ▸ hp) hauth
          · rename_i hpass
            exact .passwordMismatch password rest hp hauth hpass

/-- An accepted `NICK` is one write to the sender's record. -/
theorem handleNick_of_free {s : Server} {fd : Int} {cmd : Parser} {n : Bytes} {rest : List Bytes}
    (hp : cmd.params = n :: rest) (htaken : s.isNicknameTaken n = false)
    (hauth : (s.client fd).isAuthenticated = true) :
    handleNick s fd cmd = s.modify fd (·.renamed n) := by
  have hc := Server.lookup_of_isAuthenticated hauth
  simp only [handleNick, hp, htaken, hauth, Server.client_modify_self hc, Server.reply,
    Server.modify_modify, Bool.not_true, Bool.false_eq_true, if_false]
  by_cases hreg : (s.client fd).isRegistered = true
  · simp only [hreg, Bool.not_true, Bool.false_and, Bool.false_eq_true, if_false, if_true]
    refine Server.modify_congr fd hc ?_
    simp only [Client.renamed, Client.renameTexts, hreg, if_true]
    rfl
  · by_cases hreg' : ((s.client fd).setNickname n).isRegistered = true
    · simp only [hreg, hreg', Bool.not_false, Bool.and_self, if_true]
      refine Server.modify_congr fd hc ?_
      simp only [Client.renamed, Client.renameTexts, hreg, hreg', if_true]
      rfl
    · simp only [hreg, hreg', Bool.and_false, Bool.false_eq_true, if_false]
      refine Server.modify_congr fd hc ?_
      simp only [Client.renamed, Client.renameTexts, hreg, hreg']
      rfl

theorem handleNick_exit : NickExit s fd cmd (handleNick s fd cmd) := by
  cases hp : cmd.params with
  | nil =>
      simp only [handleNick, hp]
      exact .needMoreParams hp
  | cons nickname rest =>
      cases htaken : s.isNicknameTaken nickname with
      | true =>
          simp only [handleNick, hp, htaken, if_true]
          exact .nickInUse nickname rest hp htaken
      | false =>
          cases hauth : (s.client fd).isAuthenticated with
          | false =>
              simp only [handleNick, hp, htaken, hauth, Bool.false_eq_true, if_false,
                Bool.not_false, if_true]
              exact .notRegistered nickname rest hp htaken hauth
          | true =>
              rw [handleNick_of_free hp htaken hauth]
              exact .renamed nickname rest hp htaken hauth

/-- An accepted `USER` is one write to the sender's record. -/
theorem handleUser_of_params {s : Server} {fd : Int} {cmd : Parser} {u a b r : Bytes}
    {rest : List Bytes} (hp : cmd.params = u :: a :: b :: r :: rest)
    (hauth : (s.client fd).isAuthenticated = true) (huser : (s.client fd).username = []) :
    handleUser s fd cmd = s.modify fd (·.introduced u r) := by
  have hc := Server.lookup_of_isAuthenticated hauth
  simp only [handleUser, hp, hauth, huser, Server.client_modify_self hc, Server.reply,
    Server.modify_modify, Bool.not_true, Bool.false_eq_true, if_false, List.isEmpty_nil]
  have hreal : (((s.client fd).setUsername u).setRealname r).isRegistered =
      ((s.client fd).setUsername u).isRegistered := rfl
  rw [hreal]
  split
  · rename_i hreg
    refine Server.modify_congr fd hc ?_
    simp only [Client.introduced, Client.introduceTexts, hreg, if_true]
    rfl
  · rename_i hreg
    refine Server.modify_congr fd hc ?_
    simp only [Client.introduced, Client.introduceTexts, hreg]
    rfl

theorem handleUser_exit : UserExit s fd cmd (handleUser s fd cmd) := by
  cases hauth : (s.client fd).isAuthenticated with
  | false =>
      simp only [handleUser, hauth, Bool.not_false, if_true]
      exact .notRegistered hauth
  | true =>
      by_cases huser : (s.client fd).username = []
      · rcases hp : cmd.params with _ | ⟨u, _ | ⟨a, _ | ⟨b, _ | ⟨r, rest⟩⟩⟩⟩
        case cons.cons.cons.cons =>
          rw [handleUser_of_params hp hauth huser]
          exact .introduced u a b r rest hp hauth huser
        all_goals
          simp only [handleUser, hp, hauth, huser, Bool.not_true, Bool.false_eq_true, if_false,
            List.isEmpty_nil]
          exact .needMoreParams (by simp [hp]) hauth huser
      · simp only [handleUser, hauth, List.isEmpty_eq_false_iff.mpr huser, Bool.not_true,
          Bool.false_eq_true, if_false, Bool.not_false, if_true]
        exact .alreadyRegistered hauth huser

end

/-! ## The other commands -/

/-- The exits of `handlePing`. -/
inductive PingExit (s : Server) (fd : Int) (cmd : Parser) : Server → Prop where
  | noOrigin (hp : cmd.params = []) :
      PingExit s fd cmd (s.reply fd (.errNoOrigin (s.client fd).nickname))
  | pong (token : Bytes) (rest : List Bytes) (hp : cmd.params = token :: rest) :
      PingExit s fd cmd (s.reply fd (.pong token))

/-- The exits of `handlePrivMsg`. -/
inductive PrivMsgExit (s : Server) (fd : Int) (cmd : Parser) : Server → Prop where
  | needMoreParams (hp : cmd.params = []) :
      PrivMsgExit s fd cmd (s.reply fd (.errNeedMoreParams (s.client fd).nickname cmd.command))
  | noText (target : Bytes) (hp : cmd.params = [target]) :
      PrivMsgExit s fd cmd (s.reply fd (.noTextToSend (s.client fd).nickname))
  | emptyText (target : Bytes) (rest : List Bytes) (hp : cmd.params = target :: [] :: rest) :
      PrivMsgExit s fd cmd (s.reply fd (.noTextToSend (s.client fd).nickname))
  | noSuchChannel (target message : Bytes) (rest : List Bytes)
      (hp : cmd.params = target :: message :: rest) (hmessage : message ≠ [])
      (htarget : target.head? = some 35) :
      PrivMsgExit s fd cmd (s.reply fd (.noSuchChannel (s.client fd).nickname target))
  | noSuchNick (target message : Bytes) (rest : List Bytes)
      (hp : cmd.params = target :: message :: rest) (hmessage : message ≠ [])
      (htarget : target.head? ≠ some 35) (hnone : s.getClientByNick target = none) :
      PrivMsgExit s fd cmd (s.reply fd (.noSuchNick (s.client fd).nickname target))
  | forwarded (d : Int) (target message : Bytes) (rest : List Bytes)
      (hp : cmd.params = target :: message :: rest) (hmessage : message ≠ [])
      (htarget : target.head? ≠ some 35) (hsome : s.getClientByNick target = some d) :
      PrivMsgExit s fd cmd (s.reply d (.privMsg (s.client fd).nickname (s.client fd).username
        (s.client fd).hostname target message))

section

variable (s : Server) (fd : Int) (cmd : Parser)

theorem handlePing_exit : PingExit s fd cmd (handlePing s fd cmd) := by
  unfold handlePing
  cases hp : cmd.params with
  | nil => exact .noOrigin hp
  | cons token rest => exact .pong token rest hp

theorem handlePrivMsg_exit : PrivMsgExit s fd cmd (handlePrivMsg s fd cmd) := by
  unfold handlePrivMsg
  rcases hp : cmd.params with _ | ⟨target, _ | ⟨message, rest⟩⟩
  · exact .needMoreParams hp
  · exact .noText target hp
  · simp only [List.isEmpty_iff]
    split
    · rename_i hmessage
      exact .emptyText target rest (hmessage ▸ hp)
    · rename_i hmessage
      split
      · rename_i htarget
        exact .noSuchChannel target message rest hp hmessage htarget
      · rename_i htarget
        cases hd : s.getClientByNick target with
        | none => exact .noSuchNick target message rest hp hmessage htarget hd
        | some d => exact .forwarded d target message rest hp hmessage htarget hd

end

/-! ## Channel commands -/

/-- The first parameter is the name of this channel, and the search for it finds the channel. -/
structure Finds (s : Server) (params : List Bytes) (k : Nat) (chan : Channel)
    (rest : List Bytes) : Prop where
  params : params = chan.name :: rest
  findFirst : s.channels.findFirst (·.name == chan.name) = some k
  lookup : s.channels.lookup k = some chan

/-- The client is in the channel. -/
abbrev Server.Present (s : Server) (fd : Int) (chan : Channel) : Prop :=
  s.ptr fd ∈ chan.operators ∨ s.ptr fd ∈ chan.members

/-- The exits of `Topic::execute`. -/
inductive Topic.Exit (s : Server) (fd : Int) (params : List Bytes) : Server → Prop where
  | notEnoughParameters (hp : params = []) :
      Exit s fd params (s.reply fd (.notEnoughParameters (s.client fd).nickname (lit "TOPIC")))
  | noSuchChannel (name : Bytes) (rest : List Bytes) (hp : params = name :: rest)
      (hnone : s.channels.findFirst (·.name == name) = none) :
      Exit s fd params (s.reply fd (.noSuchChannel (s.client fd).nickname name))
  | notOnChannel (k : Nat) (chan : Channel) (rest : List Bytes) (h : Finds s params k chan rest)
      (habsent : ¬ s.Present fd chan) :
      Exit s fd params (s.reply fd (.notOnChannel (s.client fd).nickname chan.name))
  | noTopic (k : Nat) (chan : Channel) (h : Finds s params k chan [])
      (hpresent : s.Present fd chan) (htopic : chan.topic = []) :
      Exit s fd params (s.reply fd (.noTopic (s.client fd).nickname chan.name))
  | topic (k : Nat) (chan : Channel) (h : Finds s params k chan [])
      (hpresent : s.Present fd chan) (htopic : chan.topic ≠ []) :
      Exit s fd params (s.reply fd (.topic (s.client fd).nickname chan.name chan.topic))
  | chanOpRequired (k : Nat) (chan : Channel) (newTopic : Bytes) (rest : List Bytes)
      (h : Finds s params k chan (newTopic :: rest)) (hpresent : s.Present fd chan)
      (hprotected : chan.protectedTopic = true) (hop : s.ptr fd ∉ chan.operators) :
      Exit s fd params (s.reply fd (.chanOpRequired (s.client fd).nickname chan.name))
  | topicChanged (k : Nat) (chan : Channel) (newTopic : Bytes) (rest : List Bytes)
      (h : Finds s params k chan (newTopic :: rest)) (hpresent : s.Present fd chan)
      (hentitled : chan.protectedTopic = true → s.ptr fd ∈ chan.operators) :
      Exit s fd params ((s.modifyChannel k (·.setTopic newTopic (s.ptr fd))).publicMessage
        ((s.modifyChannel k (·.setTopic newTopic (s.ptr fd))).channel k)
        (.topicChanged (s.client fd).nickname chan.name newTopic))

/-- The exits of `Names::execute`. -/
inductive Names.Exit (s : Server) (fd : Int) (params : List Bytes) : Server → Prop where
  | notEnoughParameters (hp : params = []) :
      Exit s fd params (s.reply fd (.notEnoughParameters (s.client fd).nickname (lit "NAMES")))
  | noSuchChannel (name : Bytes) (rest : List Bytes) (hp : params = name :: rest)
      (hnone : s.channels.findFirst (·.name == name) = none) :
      Exit s fd params (s.reply fd (.endOfNames (s.client fd).nickname name))
  | listed (k : Nat) (chan : Channel) (rest : List Bytes) (h : Finds s params k chan rest) :
      Exit s fd params (((visit s chan).reply fd (.namReply (s.client fd).nickname chan.name
        (nameList s chan))).reply fd (.endOfNames (s.client fd).nickname chan.name))

section

variable {s : Server} {params rest : List Bytes} {k : Nat} {chan : Channel}

theorem Server.channel_eq (h : s.channels.lookup k = some chan) : s.channel k = chan := by
  rw [channel, h, Option.getD_some]

theorem Finds.ne_empty (h : Finds s params k chan rest) : s.channels ≠ ∅ := by
  intro he
  have hk := h.lookup
  simp [he] at hk

theorem Finds.of_findFirst {name : Bytes}
    (h : s.channels.findFirst (·.name == name) = some k) (rest : List Bytes) :
    ∃ chan, chan.name = name ∧ Finds s (name :: rest) k chan rest := by
  obtain ⟨chan, hk, hname⟩ := UnorderedMap.findFirst_eq_some h
  obtain rfl : chan.name = name := beq_iff_eq.mp hname
  exact ⟨chan, rfl, rfl, h, hk⟩

theorem Topic.execute_exit (s : Server) (fd : Int) (params : List Bytes) :
    Exit s fd params (execute s fd params) := by
  unfold execute
  cases params with
  | nil => exact .notEnoughParameters rfl
  | cons name rest =>
      simp only
      cases hfind : s.channels.findFirst (·.name == name) with
      | none => exact .noSuchChannel name rest rfl hfind
      | some k =>
          obtain ⟨chan, rfl, h⟩ := Finds.of_findFirst hfind rest
          simp only [Server.channel_eq h.lookup]
          split
          · rename_i habsent
            exact .notOnChannel k chan rest h (by simpa using habsent)
          · rename_i hpresent
            have hpresent : s.Present fd chan := by
              by_contra habsent
              exact hpresent (by simpa using habsent)
            cases rest with
            | nil =>
                simp only [List.isEmpty_iff]
                split
                · rename_i htopic
                  exact .noTopic k chan h hpresent htopic
                · rename_i htopic
                  exact .topic k chan h hpresent htopic
            | cons newTopic rest =>
                simp only
                split
                · rename_i hboth
                  obtain ⟨hprotected, hop⟩ : chan.protectedTopic = true ∧
                      s.ptr fd ∉ chan.operators := by simpa using hboth
                  exact .chanOpRequired k chan newTopic rest h hpresent hprotected hop
                · rename_i hentitled
                  refine .topicChanged k chan newTopic rest h hpresent fun hprotected ↦ ?_
                  by_contra hop
                  exact hentitled (by simp [hprotected, hop])

theorem Names.execute_exit (s : Server) (fd : Int) (params : List Bytes) :
    Exit s fd params (execute s fd params) := by
  unfold execute
  cases params with
  | nil => exact .notEnoughParameters rfl
  | cons name rest =>
      simp only
      cases hfind : s.channels.findFirst (·.name == name) with
      | none => exact .noSuchChannel name rest rfl hfind
      | some k =>
          obtain ⟨chan, rfl, h⟩ := Finds.of_findFirst hfind rest
          simp only [Server.channel_eq h.lookup]
          exact .listed k chan rest h

end

end IrcServer
