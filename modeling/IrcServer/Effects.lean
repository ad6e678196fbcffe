import IrcServer.Exits

/-!
# What one line can do

`processCommand` reaches seven handlers and seven channel commands, each with its own
exits.  `LineEffect` lists what can come out: a change of the sender's own record, a
text put into another client's buffer, or a channel announcement.  Every invariant of
the server is proved from this list (`processCommand_effect`) and never from the
handlers.

Four kinds of line do more than answer their sender; they are told apart by the
conditions under which the handlers act on them: `Authenticates`, `Renames`,
`Introduces` and `Forwards`.  A line is `Idle` when it is none of these.
-/

namespace IrcServer

open Library Commands

/-! ## Frames -/

namespace Server

/-- Every client pointer kept in a channel designates a connected client. -/
def Sound (s : Server) : Prop :=
  ∀ k chan, s.channels.lookup k = some chan → ∀ p ∈ chan.occupants, (s.deref p).isSome

end Server

/-- The second server is the first after texts other than welcomes were appended to
clients and topics were changed. -/
structure Talks (s s' : Server) : Prop where
  password : s'.password = s.password
  serverSocket : s'.serverSocket = s.serverSocket
  pollfds : s'.pollfds = s.pollfds
  nextSerial : s'.nextSerial = s.nextSerial
  clients : ∀ d, ∃ ms : List Reply, (∀ m ∈ ms, m.isWelcome = false) ∧
    s'.clients.lookup d = (s.clients.lookup d).map (·.appendAll ms)
  occupants : ∀ k, (s'.channels.lookup k).map Channel.occupants =
    (s.channels.lookup k).map Channel.occupants
  dangling : s.Sound → s'.dangling = s.dangling

namespace Talks

variable {s s' s'' : Server}

theorem refl (s : Server) : Talks s s :=
  ⟨rfl, rfl, rfl, rfl, fun _ ↦ ⟨[], by simp, by simp⟩, fun _ ↦ rfl, fun _ ↦ rfl⟩

/-- Such a change keeps the liveness of pointers. -/
theorem isSome_deref (h : Talks s s') (p : ClientPtr) :
    (s'.deref p).isSome ↔ (s.deref p).isSome := by
  obtain ⟨ms, -, hl⟩ := h.clients p.fd
  rw [Server.isSome_deref_iff, Server.isSome_deref_iff, hl, Option.map_map]
  have hserial : (fun c : Client ↦ c.serial) ∘ (fun c : Client ↦ c.appendAll ms) =
      fun c : Client ↦ c.serial := by
    funext c
    simp [Client.appendAll_eq]
  rw [hserial]

theorem sound_iff (h : Talks s s') : s'.Sound ↔ s.Sound := by
  constructor
  · intro hs k chan hk p hp
    obtain ⟨chan', hk', heq⟩ := Option.map_eq_some_iff.mp
      ((h.occupants k).trans (congrArg (Option.map _) hk))
    exact (h.isSome_deref p).mp (hs k chan' hk' p (heq ▸ hp))
  · intro hs k chan' hk' p hp
    obtain ⟨chan, hk, heq⟩ := Option.map_eq_some_iff.mp
      ((h.occupants k).symm.trans (congrArg (Option.map _) hk'))
    exact (h.isSome_deref p).mpr (hs k chan hk p (heq ▸ hp))

theorem trans (h : Talks s s') (h' : Talks s' s'') : Talks s s'' where
  password := h'.password.trans h.password
  serverSocket := h'.serverSocket.trans h.serverSocket
  pollfds := h'.pollfds.trans h.pollfds
  nextSerial := h'.nextSerial.trans h.nextSerial
  clients d := by
    obtain ⟨ms, hms, hl⟩ := h.clients d
    obtain ⟨ns, hns, hl'⟩ := h'.clients d
    refine ⟨ms ++ ns, fun m hm ↦ (List.mem_append.mp hm).elim (hms m) (hns m), ?_⟩
    rw [hl', hl, Option.map_map]
    exact congrArg (Option.map · _) (funext fun c ↦ (Client.appendAll_append c ms ns).symm)
  occupants k := (h'.occupants k).trans (h.occupants k)
  dangling hs := (h'.dangling (h.sound_iff.mpr hs)).trans (h.dangling hs)

theorem reply (s : Server) (fd : Int) {m : Reply} (hm : m.isWelcome = false) :
    Talks s (s.reply fd m) where
  password := rfl
  serverSocket := rfl
  pollfds := rfl
  nextSerial := rfl
  clients d := by
    by_cases hd : d = fd
    · subst hd
      exact ⟨[m], by simpa using hm, Server.lookup_modify_self s d _⟩
    · exact ⟨[], by simp, by simp [Server.reply, Server.lookup_modify_of_ne s fd _ hd]⟩
  occupants _ := rfl
  dangling _ := rfl

/-- A delivery through a live pointer. -/
theorem deliver {p : ClientPtr} {m : Reply} (hm : m.isWelcome = false)
    (hp : s.Sound → (s.deref p).isSome) : Talks s (s.deliver p m) := by
  unfold Server.deliver
  split
  · exact reply s p.fd hm
  · rename_i hdead
    exact ⟨rfl, rfl, rfl, rfl, fun _ ↦ ⟨[], by simp, by simp⟩, fun _ ↦ rfl,
      fun hs ↦ absurd (hp hs) hdead⟩

theorem deliver_all {ps : List ClientPtr} {m : Reply} (hm : m.isWelcome = false)
    (hp : s.Sound → ∀ p ∈ ps, (s.deref p).isSome) : Talks s (ps.foldl (·.deliver · m) s) := by
  induction ps generalizing s with
  | nil => exact refl s
  | cons p ps ih =>
      have hfirst : Talks s (s.deliver p m) := deliver hm fun hs ↦ hp hs p (by simp)
      refine hfirst.trans (ih fun hs q hq ↦ (hfirst.isSome_deref q).mpr ?_)
      exact hp (hfirst.sound_iff.mp hs) q (by simp [hq])

/-- A broadcast to the occupants of a channel of the server. -/
theorem publicMessage {k : Nat} {chan : Channel} {m : Reply}
    (hk : s.channels.lookup k = some chan) (hm : m.isWelcome = false) :
    Talks s (s.publicMessage chan m) := by
  unfold Server.publicMessage
  split
  · exact refl s
  · rw [← List.foldl_append]
    exact deliver_all hm fun hs ↦ hs k chan hk

theorem setTopic (s : Server) (k : Nat) (topic : Bytes) (p : ClientPtr) :
    Talks s (s.modifyChannel k (·.setTopic topic p)) where
  password := rfl
  serverSocket := rfl
  pollfds := rfl
  nextSerial := rfl
  clients d := ⟨[], by simp, by simp [Server.modifyChannel]⟩
  occupants j := by
    simp only [Server.modifyChannel, UnorderedMap.lookup_modify]
    split
    · rw [Option.map_map]
      exact congrArg (Option.map · _) (funext fun chan ↦ chan.occupants_setTopic topic p)
    · rfl
  dangling _ := rfl

/-- Reading the nicknames of the occupants of a channel of the server. -/
theorem visit {k : Nat} {chan : Channel} (hk : s.channels.lookup k = some chan) :
    Talks s (Names.visit s chan) where
  password := rfl
  serverSocket := rfl
  pollfds := rfl
  nextSerial := rfl
  clients d := ⟨[], by simp, by simp [Names.visit]⟩
  occupants _ := rfl
  dangling hs := by
    have hall : chan.occupants.any (fun p ↦ (s.deref p).isNone) = false := by
      simp only [List.any_eq_false, Bool.not_eq_true, Option.isNone_eq_false_iff]
      exact hs k chan hk
    simp [Names.visit, hall]

end Talks

/-! ## Channel commands -/

/-- `TOPIC` answers its sender, or announces something in a channel that exists. -/
theorem Topic.Exit.effect {s s' : Server} {fd : Int} {params : List Bytes}
    (h : Topic.Exit s fd params s') :
    (∃ m : Reply, m.isWelcome = false ∧ s' = s.reply fd m) ∨ (Talks s s' ∧ s.channels ≠ ∅) := by
  cases h with
  | notEnoughParameters | noSuchChannel | notOnChannel | noTopic | topic | chanOpRequired =>
      exact Or.inl ⟨_, rfl, rfl⟩
  | topicChanged k chan newTopic rest h =>
      have htopic := Talks.setTopic s k newTopic (s.ptr fd)
      refine Or.inr ⟨htopic.trans (Talks.publicMessage (k := k) ?_ rfl), h.ne_empty⟩
      simp [Server.channel, Server.modifyChannel, h.lookup]

/-- `NAMES` answers its sender, or lists a channel that exists. -/
theorem Names.Exit.effect {s s' : Server} {fd : Int} {params : List Bytes}
    (h : Names.Exit s fd params s') :
    (∃ m : Reply, m.isWelcome = false ∧ s' = s.reply fd m) ∨ (Talks s s' ∧ s.channels ≠ ∅) := by
  cases h with
  | notEnoughParameters | noSuchChannel => exact Or.inl ⟨_, rfl, rfl⟩
  | listed k chan rest h =>
      exact Or.inr ⟨((Talks.visit h.lookup).trans (Talks.reply _ _ rfl)).trans
        (Talks.reply _ _ rfl), h.ne_empty⟩

/-! ## Lines that do more than answer their sender -/

section Conditions

variable (s : Server) (fd : Int) (cmd : Parser)

/-- The right password, from a client that is not authenticated. -/
def Authenticates : Prop :=
  cmd.command = lit "PASS" ∧ cmd.params.head? = some s.password ∧
    (s.client fd).isAuthenticated = false

/-- A nickname nobody has, from an authenticated client. -/
def Renames (nickname : Bytes) : Prop :=
  cmd.command = lit "NICK" ∧ cmd.params.head? = some nickname ∧
    s.isNicknameTaken nickname = false ∧ (s.client fd).isAuthenticated = true

/-- A user name, from an authenticated client that has none. -/
def Introduces (username realname : Bytes) : Prop :=
  cmd.command = lit "USER" ∧
    (∃ a b rest, cmd.params = username :: a :: b :: realname :: rest) ∧
    (s.client fd).isAuthenticated = true ∧ (s.client fd).username = []

/-- A text for the client that has the nickname `target`, from a registered client. -/
def Forwards (d : Int) (target message : Bytes) : Prop :=
  cmd.command = lit "PRIVMSG" ∧ (∃ rest, cmd.params = target :: message :: rest) ∧
    message ≠ [] ∧ target.head? ≠ some 35 ∧ (s.client fd).isRegistered = true ∧
    s.getClientByNick target = some d

/-- None of these. -/
structure Idle : Prop where
  authenticates : ¬ Authenticates s fd cmd
  renames : ∀ n, ¬ Renames s fd cmd n
  introduces : ∀ u r, ¬ Introduces s fd cmd u r
  forwards : ∀ d t m, ¬ Forwards s fd cmd d t m

end Conditions

/-- What one line can make of the server. -/
inductive LineEffect (s : Server) (fd : Int) (cmd : Parser) : Server → Prop where
  | silent (idle : Idle s fd cmd) : LineEffect s fd cmd s
  | answered (m : Reply) (idle : Idle s fd cmd) (hm : m.isWelcome = false) :
      LineEffect s fd cmd (s.reply fd m)
  | marked (m : Reply) (idle : Idle s fd cmd) (hm : m.isWelcome = false) :
      LineEffect s fd cmd ((s.reply fd m).modify fd (·.setShouldDisconnect true))
  | authenticated (h : Authenticates s fd cmd) :
      LineEffect s fd cmd (s.modify fd (·.setAuthenticated true))
  | renamed (n : Bytes) (h : Renames s fd cmd n) : LineEffect s fd cmd (s.modify fd (·.renamed n))
  | introduced (u r : Bytes) (h : Introduces s fd cmd u r) :
      LineEffect s fd cmd (s.modify fd (·.introduced u r))
  | forwarded (d : Int) (t m : Bytes) (h : Forwards s fd cmd d t m) :
      LineEffect s fd cmd (s.reply d (.privMsg (s.client fd).nickname (s.client fd).username
        (s.client fd).hostname t m))
  | announced (s' : Server) (idle : Idle s fd cmd) (h : Talks s s') (hne : s.channels ≠ ∅) :
      LineEffect s fd cmd s'

section Handlers

variable {s s' : Server} {fd : Int} {cmd : Parser}

theorem handleNick_of_renames {n : Bytes} (h : Renames s fd cmd n) :
    handleNick s fd cmd = s.modify fd (·.renamed n) := by
  obtain ⟨-, hp, hfree, hauth⟩ := h
  obtain ⟨rest, hp⟩ := List.head?_eq_some_iff.mp hp
  exact handleNick_of_free hp hfree hauth

theorem handleUser_of_introduces {u r : Bytes} (h : Introduces s fd cmd u r) :
    handleUser s fd cmd = s.modify fd (·.introduced u r) := by
  obtain ⟨-, ⟨a, b, rest, hp⟩, hauth, huser⟩ := h
  exact handleUser_of_params hp hauth huser

/-- A forwarded `PRIVMSG` is one text appended for the addressee. -/
theorem handlePrivMsg_of_forwards {d : Int} {t m : Bytes} (h : Forwards s fd cmd d t m) :
    handlePrivMsg s fd cmd = s.reply d (.privMsg (s.client fd).nickname (s.client fd).username
      (s.client fd).hostname t m) := by
  obtain ⟨-, ⟨rest, hp⟩, hm, ht, -, hd⟩ := h
  simp [handlePrivMsg, hp, hm, ht, hd]

theorem PassExit.effect (he : PassExit s fd cmd s') (h : cmd.command = lit "PASS") :
    LineEffect s fd cmd s' := by
  have idle (ha : ¬ Authenticates s fd cmd) : Idle s fd cmd :=
    ⟨ha, by simp [Renames, h], by simp [Introduces, h], by simp [Forwards, h]⟩
  cases he with
  | needMoreParams hp => exact .answered _ (idle (by simp [Authenticates, hp])) rfl
  | alreadyRegistered _ _ _ hauth => exact .answered _ (idle (by simp [Authenticates, hauth])) rfl
  | authenticated rest hp hauth => exact .authenticated ⟨h, by simp [hp], hauth⟩
  | passwordMismatch _ _ hp _ hpass =>
      exact .marked _ (idle (by simp [Authenticates, hp, hpass])) rfl

theorem NickExit.effect (he : NickExit s fd cmd s') (h : cmd.command = lit "NICK") :
    LineEffect s fd cmd s' := by
  have idle (hr : ∀ n, ¬ Renames s fd cmd n) : Idle s fd cmd :=
    ⟨by simp [Authenticates, h], hr, by simp [Introduces, h], by simp [Forwards, h]⟩
  cases he with
  | needMoreParams hp => exact .answered _ (idle (by simp [Renames, hp])) rfl
  | nickInUse n rest hp htaken => exact .answered _ (idle (by simp [Renames, hp, htaken])) rfl
  | notRegistered _ _ _ _ hauth => exact .answered _ (idle (by simp [Renames, hauth])) rfl
  | renamed n rest hp htaken hauth => exact .renamed n ⟨h, by simp [hp], htaken, hauth⟩

theorem UserExit.effect (he : UserExit s fd cmd s') (h : cmd.command = lit "USER") :
    LineEffect s fd cmd s' := by
  have idle (hi : ∀ u r, ¬ Introduces s fd cmd u r) : Idle s fd cmd :=
    ⟨by simp [Authenticates, h], by simp [Renames, h], hi, by simp [Forwards, h]⟩
  cases he with
  | notRegistered hauth => exact .answered _ (idle (by simp [Introduces, hauth])) rfl
  | alreadyRegistered _ huser => exact .answered _ (idle (by simp [Introduces, huser])) rfl
  | introduced u a b r rest hp hauth huser =>
      exact .introduced u r ⟨h, ⟨a, b, rest, hp⟩, hauth, huser⟩
  | needMoreParams hp =>
      refine .answered _ (idle fun u r hu ↦ ?_) rfl
      obtain ⟨-, ⟨a, b, rest, hp'⟩, -⟩ := hu
      exact params_ne_of_length_lt hp hp'

theorem PingExit.effect (he : PingExit s fd cmd s') (idle : Idle s fd cmd) :
    LineEffect s fd cmd s' := by
  cases he with
  | noOrigin | pong => exact .answered _ idle rfl

theorem PrivMsgExit.effect (he : PrivMsgExit s fd cmd s') (h : cmd.command = lit "PRIVMSG")
    (hreg : (s.client fd).isRegistered = true) : LineEffect s fd cmd s' := by
  have idle (hf : ∀ d t m, ¬ Forwards s fd cmd d t m) : Idle s fd cmd :=
    ⟨by simp [Authenticates, h], by simp [Renames, h], by simp [Introduces, h], hf⟩
  cases he with
  | needMoreParams hp => exact .answered _ (idle (by simp [Forwards, hp])) rfl
  | noText _ hp => exact .answered _ (idle (by simp [Forwards, hp])) rfl
  | emptyText _ _ hp =>
      refine .answered _ (idle ?_) rfl
      rintro d t m ⟨-, ⟨rest, hp'⟩, hm, -⟩
      exact hm (List.head_eq_of_cons_eq (List.tail_eq_of_cons_eq (hp'.symm.trans hp)))
  | noSuchChannel t m rest hp hm ht =>
      refine .answered _ (idle ?_) rfl
      rintro d t' m' ⟨-, ⟨rest', hp'⟩, -, ht', -⟩
      exact ht' (List.head_eq_of_cons_eq (hp'.symm.trans hp) ▸ ht)
  | noSuchNick t m rest hp hm ht hnone =>
      refine .answered _ (idle ?_) rfl
      rintro d t' m' ⟨-, ⟨rest', hp'⟩, -, -, -, hd⟩
      rw [List.head_eq_of_cons_eq (hp'.symm.trans hp), hnone] at hd
      cases hd
  | forwarded d t m rest hp hm ht hd => exact .forwarded d t m ⟨h, ⟨rest, hp⟩, hm, ht, hreg, hd⟩

theorem processCommand_privMsg (h : cmd.command = lit "PRIVMSG")
    (hreg : (s.client fd).isRegistered = true) :
    processCommand s fd cmd = handlePrivMsg s fd cmd := by
  rw [processCommand_of_mem_closed (by rw [h]; decide) hreg]
  simp [dispatchClosed, h]

/-! What each of the four conditions makes of a line, whatever else holds. -/

theorem processCommand_of_authenticates (h : Authenticates s fd cmd) :
    processCommand s fd cmd = s.modify fd (·.setAuthenticated true) := by
  obtain ⟨hpass, hp, hauth⟩ := h
  obtain ⟨rest, hp⟩ := List.head?_eq_some_iff.mp hp
  simp [processCommand, handlePass, hpass, hp, hauth]

theorem processCommand_of_renames {n : Bytes} (h : Renames s fd cmd n) :
    processCommand s fd cmd = s.modify fd (·.renamed n) := by
  rw [← handleNick_of_renames h]
  simp [processCommand, h.1]

theorem processCommand_of_introduces {u r : Bytes} (h : Introduces s fd cmd u r) :
    processCommand s fd cmd = s.modify fd (·.introduced u r) := by
  rw [← handleUser_of_introduces h]
  simp [processCommand, h.1]

theorem processCommand_of_forwards {d : Int} {t m : Bytes} (h : Forwards s fd cmd d t m) :
    processCommand s fd cmd = s.reply d (.privMsg (s.client fd).nickname (s.client fd).username
      (s.client fd).hostname t m) :=
  (processCommand_privMsg h.1 h.2.2.2.2.1).trans (handlePrivMsg_of_forwards h)

/-- The commands that change nobody's identity and reach nobody else are idle. -/
theorem idle_of_command {w : Bytes} (h : cmd.command = w)
    (hw : w ∉ [lit "PASS", lit "NICK", lit "USER", lit "PRIVMSG"]) : Idle s fd cmd := by
  obtain ⟨hpass, hnick, huser, hmsg⟩ : cmd.command ≠ lit "PASS" ∧ cmd.command ≠ lit "NICK" ∧
      cmd.command ≠ lit "USER" ∧ cmd.command ≠ lit "PRIVMSG" := by
    subst h
    simpa using hw
  exact ⟨fun h ↦ hpass h.1, fun _ h ↦ hnick h.1, fun _ _ h ↦ huser h.1, fun _ _ _ h ↦ hmsg h.1⟩

/-- Somebody who is not registered reaches nobody else. -/
theorem idle_of_unregistered (h : cmd.command ∉ openCommands)
    (hreg : (s.client fd).isRegistered = false) : Idle s fd cmd := by
  obtain ⟨hpass, hnick, huser, -⟩ : cmd.command ≠ lit "PASS" ∧ cmd.command ≠ lit "NICK" ∧
      cmd.command ≠ lit "USER" ∧ cmd.command ≠ lit "CAP" := by simpa [openCommands] using h
  refine ⟨fun h ↦ hpass h.1, fun _ h ↦ hnick h.1, fun _ _ h ↦ huser h.1, fun _ _ _ h ↦ ?_⟩
  exact absurd (hreg.symm.trans h.2.2.2.2.1) Bool.false_ne_true

/-- A channel command that does not throw answers its sender, announces something in a
channel that exists, or does nothing. -/
theorem ChannelCommand.execute_effect {s' : Server} {params : List Bytes} {c : ChannelCommand}
    (idle : Idle s fd cmd) (h : c.execute s fd params = (s', none)) : LineEffect s fd cmd s' := by
  have talks (heff : (∃ m : Reply, m.isWelcome = false ∧ s' = s.reply fd m) ∨
      (Talks s s' ∧ s.channels ≠ ∅)) : LineEffect s fd cmd s' := by
    rcases heff with ⟨m, hm, rfl⟩ | ⟨htalk, hne⟩
    · exact .answered m idle hm
    · exact .announced s' idle htalk hne
  cases c with
  | topic =>
      obtain rfl : Topic.execute s fd params = s' := congrArg Prod.fst h
      exact talks (Topic.execute_exit s fd params).effect
  | names =>
      obtain rfl : Names.execute s fd params = s' := congrArg Prod.fst h
      exact talks (Names.execute_exit s fd params).effect
  | join => exact absurd (congrArg Prod.snd h) (Join.throws s fd params)
  | invite | kick | mode | part =>
      obtain rfl : s = s' := congrArg Prod.fst h
      exact .silent idle

theorem Dispatched.effect {s' : Server} (h : Dispatched s fd cmd s') : LineEffect s fd cmd s' := by
  cases h with
  | pass h => exact (handlePass_exit s fd cmd).effect h
  | nick h => exact (handleNick_exit s fd cmd).effect h
  | user h => exact (handleUser_exit s fd cmd).effect h
  | privMsg h hreg => exact (handlePrivMsg_exit s fd cmd).effect h hreg
  | executed c h _ _ hexec =>
      exact c.execute_effect (idle_of_command h (by cases c <;> decide)) hexec
  | thrown c h => exact .silent (idle_of_command h (by cases c <;> decide))
  | ping h => exact (handlePing_exit s fd cmd).effect (idle_of_command h (by decide))
  | quit h => exact .marked _ (idle_of_command h (by decide)) rfl
  | unregistered h hreg => exact .answered _ (idle_of_unregistered h hreg) rfl
  | unknown h => exact .answered _ (idle_of_command h (by decide)) rfl
  | cap h => exact .silent (idle_of_command h (by decide))
  | pong h => exact .silent (idle_of_command h (by decide))
  | ignored h =>
      refine .silent (idle_of_command rfl fun hmem ↦ h ?_)
      simp only [List.mem_cons, List.not_mem_nil, or_false] at hmem
      rcases hmem with h | h | h | h <;> rw [h] <;> decide

/-- What one line can do. -/
theorem processCommand_effect (s : Server) (fd : Int) (cmd : Parser) :
    LineEffect s fd cmd (processCommand s fd cmd) := (processCommand_dispatched s fd cmd).effect

end Handlers

end IrcServer
