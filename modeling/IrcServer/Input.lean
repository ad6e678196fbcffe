import IrcServer.Network

/-!
# Input and processing do not interfere

No handler reads or writes a read buffer, the poll vector or the number of insertions.  A
change that no handler sees (`Unseen`) therefore commutes with `processCommand`.  One such
change is that of a read buffer, with the record of the lines taken from it
(`Client.intake`): a turn of the loop of `receiveData` can be described as if the line were
processed first and taken out of the buffer afterwards (`serveLine_eq`).
-/

namespace IrcServer

open Library Commands

/-! ## Changes that no handler sees -/

namespace Client

/-- A change of the read buffer and of the record of the lines taken from it. -/
def intake (k : Bytes → List Bytes → Bytes × List Bytes) (c : Client) : Client :=
  { c with
    readBuffer := (k c.readBuffer c.executed).1
    executed := (k c.readBuffer c.executed).2 }

/-- A client apart from its input. -/
def face (c : Client) : Client := c.intake fun _ _ ↦ ([], [])

end Client

namespace Server

/-- A change of the server that leaves alone all that a handler reads, and commutes with all
that a handler writes. -/
structure Unseen (φ : Server → Server) : Prop where
  password : ∀ s, (φ s).password = s.password
  channels : ∀ s, (φ s).channels = s.channels
  dangling : ∀ s, (φ s).dangling = s.dangling
  face : ∀ s d, ((φ s).clients.lookup d).map Client.face = (s.clients.lookup d).map Client.face
  isNicknameTaken : ∀ s n, (φ s).isNicknameTaken n = s.isNicknameTaken n
  getClientByNick : ∀ s n, (φ s).getClientByNick n = s.getClientByNick n
  modify : ∀ s d (f : Client → Client), (∀ c k, f (c.intake k) = (f c).intake k) →
    (φ s).modify d f = φ (s.modify d f)
  modifyChannel : ∀ s j f, (φ s).modifyChannel j f = φ (s.modifyChannel j f)
  setDangling : ∀ s b, { φ s with dangling := b } = φ { s with dangling := b }

namespace Unseen

variable {φ : Server → Server} (h : Unseen φ) (s : Server) (d : Int)

include h

/-- A client is where one was, with the same face. -/
theorem lookup_cases : (φ s).clients.lookup d = none ∧ s.clients.lookup d = none ∨
    ∃ c c', (φ s).clients.lookup d = some c' ∧ s.clients.lookup d = some c ∧
      c'.face = c.face := by
  have hface := h.face s d
  cases hc : s.clients.lookup d with
  | none =>
      rw [hc] at hface
      exact Or.inl ⟨Option.map_eq_none_iff.mp hface, rfl⟩
  | some c =>
      rw [hc] at hface
      obtain ⟨c', hc', heq⟩ := Option.map_eq_some_iff.mp hface
      exact Or.inr ⟨c, c', hc', rfl, heq⟩

/-- What a client is apart from its input. -/
theorem client {β : Type*} (π : Client → β) (hπ : ∀ c k, π (c.intake k) = π c) :
    π ((φ s).client d) = π (s.client d) := by
  rcases h.lookup_cases s d with ⟨hnone, hnone'⟩ | ⟨c, c', hc', hc, heq⟩
  · rw [Server.client, Server.client, hnone, hnone']
  · rw [client_eq hc, client_eq hc']
    have hface (c : Client) : π c.face = π c := hπ c _
    rw [← hface c', heq, hface]

theorem nickname : ((φ s).client d).nickname = (s.client d).nickname :=
  h.client s d Client.nickname fun _ _ ↦ rfl

theorem username : ((φ s).client d).username = (s.client d).username :=
  h.client s d Client.username fun _ _ ↦ rfl

theorem hostname : ((φ s).client d).hostname = (s.client d).hostname :=
  h.client s d Client.hostname fun _ _ ↦ rfl

theorem isAuthenticated : ((φ s).client d).isAuthenticated = (s.client d).isAuthenticated :=
  h.client s d Client.isAuthenticated fun _ _ ↦ rfl

theorem isRegistered : ((φ s).client d).isRegistered = (s.client d).isRegistered :=
  h.client s d Client.isRegistered fun _ _ ↦ rfl

theorem ptr : (φ s).ptr d = s.ptr d :=
  congrArg (ClientPtr.mk d) (h.client s d Client.serial fun _ _ ↦ rfl)

theorem channel (j : Nat) : (φ s).channel j = s.channel j := by
  rw [Server.channel, Server.channel, h.channels]

theorem reply (m : Reply) : (φ s).reply d m = φ (s.reply d m) := h.modify s d _ fun _ _ ↦ rfl

/-- What a pointer designates, apart from the input. -/
theorem deref {β : Type*} (π : Client → β) (hπ : ∀ c k, π (c.intake k) = π c) (p : ClientPtr) :
    ((φ s).deref p).map π = (s.deref p).map π := by
  rw [Server.deref, Server.deref]
  rcases h.lookup_cases s p.fd with ⟨hnone, hnone'⟩ | ⟨c, c', hc', hc, heq⟩
  · rw [hnone, hnone']
  · have hserial : c'.serial = c.serial :=
      show c'.face.serial = c.face.serial from congrArg Client.serial heq
    have hface (c : Client) : π c.face = π c := hπ c _
    have hsame : π c' = π c := by rw [← hface c', heq, hface]
    rw [hc, hc']
    by_cases hp : c.serial = p.serial <;> simp [Option.filter, hserial, hp, hsame]

theorem isSome_deref (p : ClientPtr) : ((φ s).deref p).isSome = (s.deref p).isSome := by
  have hsome := congrArg Option.isSome (h.deref s (fun _ ↦ ()) (fun _ _ ↦ rfl) p)
  simpa only [Option.isSome_map] using hsome

theorem deliver (p : ClientPtr) (m : Reply) : (φ s).deliver p m = φ (s.deliver p m) := by
  rw [Server.deliver, Server.deliver, h.isSome_deref]
  split
  · exact h.reply s p.fd m
  · exact h.setDangling s true

theorem deliver_all (ps : List ClientPtr) (m : Reply) :
    ps.foldl (·.deliver · m) (φ s) = φ (ps.foldl (·.deliver · m) s) := by
  induction ps generalizing s with
  | nil => rfl
  | cons p ps ih => rw [List.foldl_cons, List.foldl_cons, h.deliver, ih]

theorem publicMessage (chan : Channel) (m : Reply) :
    (φ s).publicMessage chan m = φ (s.publicMessage chan m) := by
  simp only [Server.publicMessage, h.deliver_all]
  split <;> rfl

theorem nicknameAt (p : ClientPtr) : Names.nicknameAt (φ s) p = Names.nicknameAt s p := by
  have hname := congrArg (Option.getD · ({} : Client).nickname)
    (h.deref s Client.nickname (fun _ _ ↦ rfl) p)
  exact (Option.getD_map ..).symm.trans (hname.trans (Option.getD_map ..))

theorem nameList (chan : Channel) : Names.nameList (φ s) chan = Names.nameList s chan := by
  simp only [Names.nameList, h.nicknameAt]

theorem visit (chan : Channel) : Names.visit (φ s) chan = φ (Names.visit s chan) := by
  have hnone : (fun p ↦ ((φ s).deref p).isNone) = fun p ↦ (s.deref p).isNone := by
    funext p
    rw [← Option.not_isSome, ← Option.not_isSome, h.isSome_deref]
  rw [Names.visit, Names.visit, hnone, h.dangling]
  exact h.setDangling s _

end Unseen

end Server

section Handlers

open Server

variable {φ : Server → Server} (h : Unseen φ) (s : Server) (d : Int)

include h

theorem Topic.execute_unseen (params : List Bytes) :
    Topic.execute (φ s) d params = φ (Topic.execute s d params) := by
  unfold Topic.execute
  cases params with
  | nil => simp only [h.nickname, h.reply]
  | cons targetName rest =>
      simp only [h.channels, h.channel, h.ptr, h.nickname]
      split
      · exact h.reply s d _
      · split
        · exact h.reply s d _
        · split
          · split <;> exact h.reply s d _
          · split
            · exact h.reply s d _
            · simp only [h.modifyChannel, h.channel, h.publicMessage]

theorem Names.execute_unseen (params : List Bytes) :
    Names.execute (φ s) d params = φ (Names.execute s d params) := by
  unfold Names.execute
  cases params with
  | nil => simp only [h.nickname, h.reply]
  | cons targetName rest =>
      simp only [h.channels, h.nickname]
      split
      · exact h.reply s d _
      · simp only [h.channel, h.visit, h.nameList, h.reply]

theorem isChannelCommand_unseen (command : Bytes) (params : List Bytes) :
    isChannelCommand (φ s) d command params =
      ((isChannelCommand s d command params).1, φ (isChannelCommand s d command params).2) := by
  unfold isChannelCommand
  cases ChannelCommand.makeCommand command with
  | error e => rfl
  | ok cmd =>
      cases cmd with
      | invite => rfl
      | join => simp only [ChannelCommand.execute, Join.execute_eq]
      | kick => rfl
      | mode => rfl
      | names => simp only [ChannelCommand.execute, Names.execute_unseen h]
      | part => rfl
      | topic => simp only [ChannelCommand.execute, Topic.execute_unseen h]

variable (cmd : Parser)

theorem handlePass_unseen : handlePass (φ s) d cmd = φ (handlePass s d cmd) := by
  unfold handlePass
  simp only [h.nickname, h.isAuthenticated, h.password, h.reply]
  split
  · rfl
  · split
    · rfl
    · split
      · exact h.modify s d _ fun _ _ ↦ rfl
      · exact h.modify _ d _ fun _ _ ↦ rfl

theorem handleNick_unseen : handleNick (φ s) d cmd = φ (handleNick s d cmd) := by
  unfold handleNick
  have hset (n : Bytes) : (φ s).modify d (·.setNickname n) = φ (s.modify d (·.setNickname n)) :=
    h.modify s d _ fun _ _ ↦ rfl
  simp only [hset, h.nickname, h.username, h.hostname, h.isAuthenticated, h.isRegistered,
    h.isNicknameTaken, h.reply]
  split
  · rfl
  · split
    · rfl
    · split
      · rfl
      · split
        · rfl
        · split <;> rfl

theorem handleUser_unseen : handleUser (φ s) d cmd = φ (handleUser s d cmd) := by
  unfold handleUser
  have hset (u r : Bytes) : (φ s).modify d (fun c ↦ (c.setUsername u).setRealname r) =
      φ (s.modify d fun c ↦ (c.setUsername u).setRealname r) := h.modify s d _ fun _ _ ↦ rfl
  simp only [hset, h.nickname, h.username, h.hostname, h.isAuthenticated, h.isRegistered, h.reply]
  split
  · rfl
  · split
    · rfl
    · split
      · split <;> rfl
      · rfl

theorem handlePing_unseen : handlePing (φ s) d cmd = φ (handlePing s d cmd) := by
  unfold handlePing
  simp only [h.nickname, h.reply]
  split <;> rfl

theorem handleQuit_unseen : handleQuit (φ s) d cmd = φ (handleQuit s d cmd) := by
  simp only [handleQuit, h.reply]
  exact h.modify _ d _ fun _ _ ↦ rfl

theorem handlePrivMsg_unseen : handlePrivMsg (φ s) d cmd = φ (handlePrivMsg s d cmd) := by
  unfold handlePrivMsg
  simp only [h.nickname, h.username, h.hostname, h.getClientByNick, h.reply]
  split
  · rfl
  · rfl
  · split
    · rfl
    · split
      · rfl
      · split <;> rfl

omit h in
theorem Server.ite_unseen {p : Prop} [Decidable p] {s t s' t' : Server} (hs : s' = φ s)
    (ht : t' = φ t) : (if p then s' else t') = φ (if p then s else t) := by
  split
  · exact hs
  · exact ht

/-- What no handler sees makes no difference to a line. -/
theorem processCommand_unseen : processCommand (φ s) d cmd = φ (processCommand s d cmd) := by
  unfold processCommand
  simp only [isChannelCommand_unseen h, h.nickname, h.isRegistered]
  refine ite_unseen (handlePass_unseen h s d cmd) ?_
  refine ite_unseen (handleNick_unseen h s d cmd) ?_
  refine ite_unseen (handleUser_unseen h s d cmd) ?_
  refine ite_unseen rfl ?_
  refine ite_unseen (h.reply s d _) ?_
  obtain ⟨b, s'⟩ := isChannelCommand s d cmd.command cmd.params
  cases b with
  | true => rfl
  | false =>
      refine ite_unseen (handlePing_unseen h s' d cmd) ?_
      refine ite_unseen rfl ?_
      refine ite_unseen (handleQuit_unseen h s' d cmd) ?_
      refine ite_unseen (handlePrivMsg_unseen h s' d cmd) ?_
      refine ite_unseen ?_ rfl
      rw [h.nickname, h.reply]

end Handlers

/-! ## Changes of the input -/

namespace Server

/-- A change of one client's input. -/
def intake (s : Server) (fd : Int) (k : Bytes → List Bytes → Bytes × List Bytes) : Server :=
  s.modify fd (·.intake k)

theorem unseen_intake (fd : Int) (k : Bytes → List Bytes → Bytes × List Bytes) :
    Unseen (·.intake fd k) where
  password _ := rfl
  channels _ := rfl
  dangling _ := rfl
  face s d := lookup_modify_map (f := (·.intake k)) (fun _ ↦ rfl) s fd d
  isNicknameTaken _ n := by
    have hsame : ∀ c : Client, ((c.intake k).nickname == n) = (c.nickname == n) := fun _ ↦ rfl
    exact UnorderedMap.any_modify hsame fd
  getClientByNick _ n := by
    have hsame : ∀ c : Client, ((c.intake k).nickname == n) = (c.nickname == n) := fun _ ↦ rfl
    exact UnorderedMap.findFirst_modify hsame fd
  modify s d f hf := by
    by_cases hd : d = fd
    · subst hd
      simp only [intake, modify_modify, hf]
    · exact modify_comm s d (·.intake k) f (Ne.symm hd)
  modifyChannel _ _ _ := rfl
  setDangling _ _ := rfl

end Server

/-- No handler reads or writes a read buffer. -/
theorem processCommand_intake (s : Server) (fd d : Int)
    (k : Bytes → List Bytes → Bytes × List Bytes) (cmd : Parser) :
    processCommand (s.intake fd k) d cmd = (processCommand s d cmd).intake fd k :=
  processCommand_unseen (Server.unseen_intake fd k) s d cmd

/-! ## The loop of `receiveData` -/

namespace Client

theorem hasCompleteCommand_iff {c : Client} : c.hasCompleteCommand = true ↔ LF ∈ c.readBuffer := by
  rw [hasCompleteCommand, Option.isSome_iff_ne_none, ne_eq, find_singleton_eq_none_iff,
    not_not]

/-- The command taken is the line up to the first LF, less one CR before it. -/
theorem extractCommandFromBuffer_eq {c : Client} {w rest : Bytes}
    (hb : c.readBuffer = w ++ LF :: rest) (hw : LF ∉ w) :
    c.extractCommandFromBuffer = (chomp CR w, { c with readBuffer := rest }) := by
  have hdrop : (w ++ LF :: rest).drop (w.length + 1) = rest := by
    rw [← List.drop_drop, List.drop_left, List.drop_one, List.tail_cons]
  simp only [extractCommandFromBuffer, hb, find_singleton_append rest hw, hdrop]
  congr 1
  rcases List.eq_nil_or_concat' w with rfl | ⟨v, a, rfl⟩
  · simp [chomp]
  · have hlen : (v ++ [a]).length - 1 = v.length := by simp
    have hlast : (v ++ [a] ++ LF :: rest)[v.length]? = some a := by simp
    rw [hlen, hlast]
    by_cases ha : a = CR
    · simp [chomp, ha]
    · simp [chomp, ha, List.take_append]

/-- Taking a line is a change of the input. -/
theorem takeCommand_eq (c : Client) : c.takeCommand = c.intake fun buf executed ↦
    match find [LF] buf with
    | some pos => (buf.drop (pos + 1), executed ++
        [buf.take (if 0 < pos ∧ buf[pos - 1]? = some CR then pos - 1 else pos)])
    | none => (buf, executed ++ [[]]) := by
  cases h : find [LF] c.readBuffer with
  | none => simp [takeCommand, extractCommandFromBuffer, intake, h]
  | some pos => simp [takeCommand, extractCommandFromBuffer, intake, h]

end Client

/-- A turn of the loop, with the line taken out of the buffer at its end. -/
theorem Server.serveLine_eq (s : Server) (fd : Int) : s.serveLine fd =
    (processCommand s fd (Parser.parse (s.nextCommand fd))).takeCommand fd := by
  have h : ∀ t : Server, t.takeCommand fd = t.intake fd _ := fun t ↦
    congrArg (t.modify fd) (funext Client.takeCommand_eq)
  rw [Server.serveLine, h, h, processCommand_intake]

end IrcServer
