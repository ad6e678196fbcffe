import IrcServer.Dispatch
import IrcServer.Runs

/-!
# Isolation

Handlers receive the whole server, and obtain other clients by pointer.  All the same, a
line reaches another client only as text appended to its write buffer, and a channel only
as a new topic; and the line of a sender that is not registered is one write to the record
of the sender (`processCommand_isolated`).
-/

namespace IrcServer

open Library Commands

/-! ## Writes to one record -/

/-- Nothing but the record under the descriptor is written to. -/
def Server.WritesOnly (s : Server) (fd : Int) (s' : Server) : Prop := ∃ f, s' = s.modify fd f

namespace Server.WritesOnly

variable {s s' : Server} {fd : Int}

theorem refl (s : Server) (fd : Int) : s.WritesOnly fd s :=
  ⟨id, by rw [Server.modify, UnorderedMap.modify_id]⟩

theorem reply (s : Server) (fd : Int) (m : Reply) : s.WritesOnly fd (s.reply fd m) := ⟨_, rfl⟩

theorem modify_modify (s : Server) (fd : Int) (f g : Client → Client) :
    s.WritesOnly fd ((s.modify fd f).modify fd g) := ⟨_, Server.modify_modify s fd f g⟩

theorem channels (h : s.WritesOnly fd s') : s'.channels = s.channels := by
  obtain ⟨f, rfl⟩ := h
  rfl

theorem lookup_of_ne (h : s.WritesOnly fd s') {d : Int} (hd : d ≠ fd) :
    s'.clients.lookup d = s.clients.lookup d := by
  obtain ⟨f, rfl⟩ := h
  exact s.lookup_modify_of_ne fd f hd

end Server.WritesOnly

section Handlers

open Server

variable {s s' : Server} {fd : Int} {cmd : Parser}

theorem PassExit.writesOnly (h : PassExit s fd cmd s') : s.WritesOnly fd s' := by
  cases h with
  | needMoreParams | alreadyRegistered => exact .reply s fd _
  | authenticated => exact ⟨_, rfl⟩
  | passwordMismatch => exact .modify_modify s fd _ _

theorem NickExit.writesOnly (h : NickExit s fd cmd s') : s.WritesOnly fd s' := by
  cases h with
  | needMoreParams | nickInUse | notRegistered => exact .reply s fd _
  | renamed => exact ⟨_, rfl⟩

theorem UserExit.writesOnly (h : UserExit s fd cmd s') : s.WritesOnly fd s' := by
  cases h with
  | notRegistered | alreadyRegistered | needMoreParams => exact .reply s fd _
  | introduced => exact ⟨_, rfl⟩

theorem PingExit.writesOnly (h : PingExit s fd cmd s') : s.WritesOnly fd s' := by
  cases h with
  | noOrigin | pong => exact .reply s fd _

/-- `PRIVMSG` writes to the sender or to the addressee. -/
theorem PrivMsgExit.writesOnly (h : PrivMsgExit s fd cmd s') : ∃ d, s.WritesOnly d s' := by
  cases h with
  | forwarded d => exact ⟨d, .reply s d _⟩
  | needMoreParams | noText | emptyText | noSuchChannel | noSuchNick => exact ⟨fd, .reply s fd _⟩

end Handlers

/-! ## Channels -/

/-- Everything of a channel but its topic. -/
def Channel.roster (chan : Channel) : Channel := { chan with topic := [] }

/-- The channels are the same, but for their topics. -/
def SameRosters (s s' : Server) : Prop := ∀ k,
  (s'.channels.lookup k).map Channel.roster = (s.channels.lookup k).map Channel.roster

namespace SameRosters

variable {s s' : Server}

theorem of_channels (h : s'.channels = s.channels) : SameRosters s s' := fun k ↦ by rw [h]

/-- A topic is what makes the difference. -/
theorem exists_topic (h : SameRosters s s') (k : Nat) : ∃ topic, s'.channels.lookup k =
    (s.channels.lookup k).map fun chan ↦ { chan with topic := topic } := by
  cases hk' : s'.channels.lookup k with
  | none =>
      have hnone := (h k).symm.trans (congrArg (Option.map _) hk')
      rw [Option.map_eq_none_iff.mp hnone]
      exact ⟨[], rfl⟩
  | some chan' =>
      obtain ⟨chan, hk, hroster⟩ := Option.map_eq_some_iff.mp
        ((h k).symm.trans (congrArg (Option.map _) hk'))
      refine ⟨chan'.topic, ?_⟩
      rw [hk, Option.map_some]
      have htopic := congrArg (fun c : Channel ↦ { c with topic := chan'.topic }) hroster
      exact congrArg some htopic.symm

end SameRosters

namespace Server

@[simp] theorem channels_deliver (s : Server) (p : ClientPtr) (m : Reply) :
    (s.deliver p m).channels = s.channels := by
  unfold deliver
  split <;> rfl

@[simp] theorem channels_deliver_all (s : Server) (ps : List ClientPtr) (m : Reply) :
    (ps.foldl (·.deliver · m) s).channels = s.channels := by
  induction ps generalizing s with
  | nil => rfl
  | cons p ps ih => rw [List.foldl_cons, ih, channels_deliver]

@[simp] theorem channels_publicMessage (s : Server) (chan : Channel) (m : Reply) :
    (s.publicMessage chan m).channels = s.channels := by
  unfold publicMessage
  split
  · rfl
  · simp only [channels_deliver_all]

/-- `setTopic` changes nothing but a topic. -/
theorem sameRosters_setTopic (s : Server) (k : Nat) (topic : Bytes) (p : ClientPtr) :
    SameRosters s (s.modifyChannel k (·.setTopic topic p)) := by
  intro j
  have hset (chan : Channel) : (chan.setTopic topic p).roster = chan.roster := by
    unfold Channel.setTopic
    split <;> rfl
  simp only [modifyChannel, UnorderedMap.lookup_modify]
  split
  · rw [Option.map_map]
    exact congrArg (Option.map · _) (funext hset)
  · rfl

end Server

theorem Topic.Exit.sameRosters {s s' : Server} {fd : Int} {params : List Bytes}
    (h : Topic.Exit s fd params s') : SameRosters s s' := by
  cases h with
  | notEnoughParameters | noSuchChannel | notOnChannel | noTopic | topic | chanOpRequired =>
      exact .of_channels rfl
  | topicChanged k =>
      intro j
      rw [Server.channels_publicMessage]
      exact s.sameRosters_setTopic k _ (s.ptr fd) j

theorem Names.Exit.channels {s s' : Server} {fd : Int} {params : List Bytes}
    (h : Names.Exit s fd params s') : s'.channels = s.channels := by
  cases h with
  | notEnoughParameters | noSuchChannel | listed => rfl

/-- Only `TOPIC` writes to a channel. -/
theorem Dispatched.channels {s s' : Server} {fd : Int} {cmd : Parser}
    (h : Dispatched s fd cmd s') : s'.channels = s.channels ∨ cmd.command = lit "TOPIC" ∧
      (s.client fd).isRegistered = true ∧ s' = Topic.execute s fd cmd.params := by
  cases h with
  | pass => exact Or.inl (handlePass_exit s fd cmd).writesOnly.channels
  | nick => exact Or.inl (handleNick_exit s fd cmd).writesOnly.channels
  | user => exact Or.inl (handleUser_exit s fd cmd).writesOnly.channels
  | ping => exact Or.inl (handlePing_exit s fd cmd).writesOnly.channels
  | privMsg =>
      obtain ⟨d, h⟩ := (handlePrivMsg_exit s fd cmd).writesOnly
      exact Or.inl h.channels
  | executed c hword hreg _ hexec =>
      obtain rfl : (c.execute s fd cmd.params).1 = s' := congrArg Prod.fst hexec
      cases c with
      | topic => exact Or.inr ⟨hword, hreg, rfl⟩
      | names => exact Or.inl (Names.execute_exit s fd cmd.params).channels
      | join => exact absurd (congrArg Prod.snd hexec) (Join.throws s fd cmd.params)
      | invite | kick | mode | part => exact Or.inl rfl
  | cap | unregistered | thrown | pong | quit | unknown | ignored => exact Or.inl rfl

theorem Dispatched.sameRosters {s s' : Server} {fd : Int} {cmd : Parser}
    (h : Dispatched s fd cmd s') : SameRosters s s' := by
  obtain h | ⟨-, -, rfl⟩ := h.channels
  · exact .of_channels h
  · exact (Topic.execute_exit s fd cmd.params).sameRosters

/-- A sender that is not registered writes to its own record only. -/
theorem Dispatched.writesOnly {s s' : Server} {fd : Int} {cmd : Parser}
    (h : Dispatched s fd cmd s') (hreg : (s.client fd).isRegistered = false) :
    s.WritesOnly fd s' := by
  cases h with
  | pass => exact (handlePass_exit s fd cmd).writesOnly
  | nick => exact (handleNick_exit s fd cmd).writesOnly
  | user => exact (handleUser_exit s fd cmd).writesOnly
  | cap => exact .refl s fd
  | unregistered => exact .reply s fd _
  | executed _ _ hreg'
  | thrown _ _ hreg'
  | ping _ hreg'
  | pong _ hreg'
  | quit _ hreg'
  | privMsg _ hreg'
  | unknown _ hreg'
  | ignored _ hreg' =>
      exact absurd (hreg.symm.trans hreg') Bool.false_ne_true

/-! ## Isolation -/

/-- A line changes another client by appending text to its write buffer, and a channel by
giving it a topic; before its sender is registered, it changes neither. -/
theorem processCommand_isolated (s : Server) (fd : Int) (cmd : Parser) :
    (∀ d, d ≠ fd → ∃ ms : List Reply, (processCommand s fd cmd).clients.lookup d =
      (s.clients.lookup d).map fun c ↦ { c with
        writeBuffer := c.writeBuffer ++ ms.flatMap Reply.str
        written := c.written ++ ms }) ∧
    (∀ k, ∃ topic, (processCommand s fd cmd).channels.lookup k =
      (s.channels.lookup k).map fun chan ↦ { chan with topic := topic }) ∧
    ((s.client fd).isRegistered = false →
      (∀ d, d ≠ fd → (processCommand s fd cmd).clients.lookup d = s.clients.lookup d) ∧
      (processCommand s fd cmd).channels = s.channels) := by
  have hdispatched := processCommand_dispatched s fd cmd
  refine ⟨?_, hdispatched.sameRosters.exists_topic, ?_⟩
  · intro d hd
    obtain ⟨f, hf, hl⟩ := (processCommand_effect s fd cmd).lookup d
    cases hf with
    | told ms hms =>
        refine ⟨ms, hl.trans ?_⟩
        exact congrArg (Option.map · _) (funext fun c ↦ c.appendAll_eq ms)
    | marked h | authenticated h | renamed h | introduced h => exact absurd h hd
  · intro hreg
    have hown := hdispatched.writesOnly hreg
    exact ⟨fun d hd ↦ hown.lookup_of_ne hd, hown.channels⟩

end IrcServer
