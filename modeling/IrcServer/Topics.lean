import IrcServer.Messages
import IrcServer.TopicRules

/-!
# Topics

Every `TOPIC` that is accepted is written down with its channel and the client that set it
(`TopicSet`).  A channel of the running server is a register of its topic: everything else
about it stays as it was, a query is answered with the topic that was set last, and nobody
has set a topic but those who were in the channel from the start, and on a protected channel
its operators (`topics_latest`).
-/

namespace IrcServer

open Library Commands

/-- A topic that is set in a channel, and the client that sets it. -/
structure TopicSet where
  channel : Nat
  setter : ClientPtr
  topic : Bytes

/-- The client has the right to set the topic of the channel. -/
structure TopicSet.Rightful (x : TopicSet) (chan : Channel) : Prop where
  present : x.setter ∈ chan.operators ∨ x.setter ∈ chan.members
  entitled : chan.protectedTopic = true → x.setter ∈ chan.operators

instance (x : TopicSet) (chan : Channel) : Decidable (x.Rightful chan) :=
  decidable_of_iff ((x.setter ∈ chan.operators ∨ x.setter ∈ chan.members) ∧
      (chan.protectedTopic = true → x.setter ∈ chan.operators))
    ⟨fun h ↦ ⟨h.1, h.2⟩, fun h ↦ ⟨h.1, h.2⟩⟩

namespace Server

/-- The topic that a line of a client sets, if it sets one. -/
def topicSet (s : Server) (fd : Int) (line : Bytes) : List TopicSet :=
  let cmd := Parser.parse line
  match cmd.params with
  | targetName :: newTopic :: _ =>
      if cmd.command = lit "TOPIC" ∧ (s.client fd).isRegistered = true then
        ((s.channels.findFirst (·.name == targetName)).toList.map fun k ↦
          { channel := k, setter := s.ptr fd, topic := newTopic }).filter
            fun x ↦ x.Rightful (s.channel x.channel)
      else []
  | _ => []

end Server

/-- The topics of a step. -/
def PollLoop.topics (σ : PollLoop) (e : PollEvent) : List TopicSet := σ.perLine Server.topicSet e

/-- The topic of a channel after those of a record, when it had another one before. -/
def topicAfter (record : List TopicSet) (k : Nat) (topic : Bytes) : Bytes :=
  latest k (record.map fun x ↦ (x.channel, x.topic)) topic

theorem topicAfter_concat (record : List TopicSet) (x : TopicSet) (k : Nat) (topic : Bytes) :
    topicAfter (record ++ [x]) k topic =
      if x.channel = k then x.topic else topicAfter record k topic := by
  rw [topicAfter, List.map_append]
  exact latest_concat k x.channel _ topic x.topic

/-! ## One line -/

section Line

variable {s : Server} {fd : Int} {line : Bytes}

/-- The line is a `TOPIC` that is accepted. -/
def SetsTopic (s : Server) (fd : Int) (line : Bytes) (k : Nat) (chan : Channel) (t : Bytes) :
    Prop :=
  (Parser.parse line).command = lit "TOPIC" ∧ (s.client fd).isRegistered = true ∧
    s.channels.findFirst (·.name == chan.name) = some k ∧
    Topic.Permits s fd (Parser.parse line).params k chan t

theorem topicSet_of_sets {k : Nat} {chan : Channel} {t : Bytes} (h : SetsTopic s fd line k chan t) :
    s.topicSet fd line = [⟨k, s.ptr fd, t⟩] := by
  obtain ⟨hcmd, hreg, hfind, hk, hnamed, hgiven, hpresent, hentitled⟩ := h
  obtain ⟨rest, hp⟩ := List.head?_eq_some_iff.mp hnamed
  rw [hp, List.getElem?_cons_succ, ← List.head?_eq_getElem?] at hgiven
  obtain ⟨rest, rfl⟩ := List.head?_eq_some_iff.mp hgiven
  have hright : TopicSet.Rightful ⟨k, s.ptr fd, t⟩ (s.channel k) := by
    rw [Server.channel_eq hk]
    exact ⟨hpresent, hentitled⟩
  simp [Server.topicSet, hp, hcmd, hreg, hfind, hright]

theorem topicSet_of_not_sets (h : ∀ k chan t, ¬ SetsTopic s fd line k chan t) :
    s.topicSet fd line = [] := by
  unfold Server.topicSet
  dsimp only
  split
  · rename_i name t rest hp
    split
    · rename_i hboth
      cases hfind : s.channels.findFirst (·.name == name) with
      | none => rfl
      | some k =>
          obtain ⟨chan, hk, hname⟩ := UnorderedMap.findFirst_eq_some hfind
          obtain rfl : chan.name = name := beq_iff_eq.mp hname
          have hnot : ¬ TopicSet.Rightful ⟨k, s.ptr fd, t⟩ (s.channel k) := by
            rw [Server.channel_eq hk]
            rintro ⟨hpresent, hentitled⟩
            exact h k chan t ⟨hboth.1, hboth.2, hfind, hk, by rw [hp]; rfl, by rw [hp]; rfl,
              hpresent, hentitled⟩
          simp [hnot]
    · rfl
  · rfl

/-- A line that sets a topic changes that topic. -/
theorem channels_process_of_sets {k : Nat} {chan : Channel} {t : Bytes}
    (h : SetsTopic s fd line k chan t) (j : Nat) :
    (Server.process fd s line).channels.lookup j =
      if j = k then some { chan with topic := t } else s.channels.lookup j := by
  obtain ⟨hcmd, hreg, hfind, hpermits⟩ := h
  have htopic : (ChannelCommand.execute s fd (Parser.parse line).params .topic).1 =
      Topic.execute s fd (Parser.parse line).params := rfl
  have hset : chan.setTopic t (s.ptr fd) = { chan with topic := t } :=
    Topic.setTopic_of_entitled hpermits.entitled
  change (processCommand s fd (Parser.parse line)).channels.lookup j = _
  rw [processCommand_of_word (c := .topic) hcmd hreg, htopic,
    Topic.execute_of_found hfind hpermits, Server.channels_publicMessage, Server.modifyChannel,
    UnorderedMap.lookup_modify]
  by_cases hj : j = k
  · rw [if_pos hj, if_pos hj, hj, hpermits.lookup, Option.map_some, hset]
  · rw [if_neg hj, if_neg hj]

/-- Any other line changes no channel. -/
theorem channels_process_of_not_sets (h : ∀ k chan t, ¬ SetsTopic s fd line k chan t) :
    (Server.process fd s line).channels = s.channels := by
  change (processCommand s fd (Parser.parse line)).channels = s.channels
  obtain hsame | ⟨hcmd, hreg, htopic⟩ :=
    (processCommand_dispatched s fd (Parser.parse line)).channels
  · exact hsame
  · have hnot : ¬ Topic.Sets s fd (Parser.parse line).params :=
      fun ⟨k, chan, t, hfind, hpermits⟩ ↦ h k chan t ⟨hcmd, hreg, hfind, hpermits⟩
    obtain ⟨m, hm, -⟩ := Topic.execute_of_not_sets hnot
    rw [htopic, hm]
    rfl

end Line

/-! ## The board -/

/-- The channels are those there were, with the topics of the record, which were set by those
who had the right to. -/
structure Board (channels : UnorderedMap Nat Channel) (s : Server) (record : List TopicSet) :
    Prop where
  lookup : ∀ k, s.channels.lookup k = (channels.lookup k).map fun chan ↦
    { chan with topic := topicAfter record k chan.topic }
  rightful : ∀ x ∈ record, ∃ chan, channels.lookup x.channel = some chan ∧ x.Rightful chan

namespace Board

variable {channels : UnorderedMap Nat Channel} {s s' : Server} {record : List TopicSet}

theorem of_channels (h : Board channels s record) (hs : s'.channels = s.channels) :
    Board channels s' record :=
  ⟨fun k ↦ by rw [hs, h.lookup], h.rightful⟩

theorem process (h : Board channels s record) (fd : Int) (line : Bytes) :
    Board channels (Server.process fd s line) (record ++ s.topicSet fd line) := by
  by_cases hsets : ∃ k chan t, SetsTopic s fd line k chan t
  · obtain ⟨k, chan', t, hsets⟩ := hsets
    rw [topicSet_of_sets hsets]
    -- the channel as it was at first has the same roles
    obtain ⟨chan, hk, hchan⟩ := Option.map_eq_some_iff.mp
      ((h.lookup k).symm.trans hsets.2.2.2.lookup)
    refine ⟨fun j ↦ ?_, List.forall_mem_append.mpr ⟨h.rightful, ?_⟩⟩
    · rw [channels_process_of_sets hsets]
      simp only [topicAfter_concat]
      by_cases hj : j = k
      · obtain rfl := hj
        simp only [if_true, hk, ← hchan, Option.map_some]
      · simp only [if_neg hj, if_neg (Ne.symm hj)]
        exact h.lookup j
    · refine List.forall_mem_singleton.mpr ⟨chan, hk, ?_⟩
      have hpermits := hsets.2.2.2
      rw [← hchan] at hpermits
      exact ⟨hpermits.present, hpermits.entitled⟩
  · have hno : ∀ k chan t, ¬ SetsTopic s fd line k chan t := fun k chan t h ↦
      hsets ⟨k, chan, t, h⟩
    rw [topicSet_of_not_sets hno, List.append_nil]
    exact h.of_channels (channels_process_of_not_sets hno)

theorem foldl_process (h : Board channels s record) {fd : Int} (hfd : fd ∈ s.clients)
    (ls : List Bytes) : Board channels (ls.foldl (Server.process fd) s)
      (record ++ (turns fd).record (Server.topicSet · fd ·) s ls) :=
  (valid_turns hfd ls).record_invariant_from (fun _ line _ _ h ↦ h.process fd line) h

theorem step {σ : PollLoop} (h : Board channels σ.server record) (hs : σ.server.InStep)
    {e : PollEvent} (he : σ.enabled e) :
    Board channels (σ.step e).server (record ++ σ.topics e) := by
  rw [PollLoop.topics, PollLoop.perLine]
  cases step_fetches hs he with
  | quiet hfeed hquiet =>
      rw [hfeed, List.append_nil]
      exact h.of_channels hquiet.channels
  | read fd chunk hfeed hne hfd heq =>
      obtain ⟨c, hc⟩ := UnorderedMap.mem_iff_lookup.mp hfd
      rw [hfeed, heq, Server.receiveData_eq hc hne, Server.absorb]
      exact (h.foldl_process hfd _).of_channels rfl

end Board

section Run

variable {σ : PollLoop} {es : List PollEvent}

theorem board_run (hv : pollLoop.Valid σ es) (hs : σ.server.InStep) :
    Board σ.server.channels (pollLoop.run σ es).server
      (pollLoop.record PollLoop.topics σ es) := by
  have hstart : Board σ.server.channels σ.server [] :=
    ⟨fun k ↦ Option.map_id'.symm, List.forall_mem_nil _⟩
  have hboth : (pollLoop.run σ es).server.InStep ∧ Board σ.server.channels
      (pollLoop.run σ es).server (pollLoop.record PollLoop.topics σ es) := hv.record_invariant
    (J := fun τ record ↦ τ.server.InStep ∧ Board σ.server.channels τ.server record)
    (fun τ _ _ he h ↦ ⟨(step_effect h.1 he).inStep h.1, h.2.step h.1 he⟩) ⟨hs, hstart⟩
  exact hboth.2

theorem Board.distinctNames {channels : UnorderedMap Nat Channel} {s s' : Server}
    {record : List TopicSet} (h : Board channels s' record) (hs : s.channels = channels)
    (hnames : s.DistinctNames) : s'.DistinctNames := by
  intro j k a b hj hk hab
  obtain ⟨a₀, ha, rfl⟩ := Option.map_eq_some_iff.mp ((h.lookup j).symm.trans hj)
  obtain ⟨b₀, hb, rfl⟩ := Option.map_eq_some_iff.mp ((h.lookup k).symm.trans hk)
  exact hnames j k a₀ b₀ (hs ▸ ha) (hs ▸ hb) hab

/-- Somebody in the channel is told its topic. -/
theorem Topic.execute_query {s : Server} {fd : Int} {k : Nat} {chan : Channel}
    (hfind : s.channels.findFirst (·.name == chan.name) = some k)
    (hk : s.channels.lookup k = some chan) (hmem : s.ptr fd ∈ chan.occupants) :
    Topic.execute s fd [chan.name] = s.reply fd
      (if chan.topic = [] then .noTopic (s.client fd).nickname chan.name
        else .topic (s.client fd).nickname chan.name chan.topic) := by
  have hpresent : (!decide (s.ptr fd ∈ chan.operators) && !decide (s.ptr fd ∈ chan.members)) =
      false := by
    rcases List.mem_append.mp hmem with hop | hmem
    · have hop' : s.ptr fd ∈ chan.operators := hop
      simp [hop']
    · have hmem' : s.ptr fd ∈ chan.members := hmem
      simp [hmem']
  simp only [Topic.execute, hfind, Server.channel_eq hk, hpresent, Bool.false_eq_true, if_false,
    List.isEmpty_iff]
  split <;> rfl

/-- However the loop runs, from any state in step, without dereferencing a pointer to a client
that is gone: the channels stay as they were but for their topics, which are those set last; a
topic is set only by somebody who was in the channel from the start, and was its operator if
the channel is protected; and where no two channels have the same name, everybody in a channel
who asks for its topic is told the one set last. -/
theorem topics_latest (hv : pollLoop.Valid σ es) (hs : σ.server.InStep) :
    let τ := pollLoop.run σ es
    let record := pollLoop.record PollLoop.topics σ es
    (∀ k, τ.server.channels.lookup k = (σ.server.channels.lookup k).map fun chan ↦
      { chan with topic := topicAfter record k chan.topic }) ∧
    (∀ x ∈ record, ∃ chan, σ.server.channels.lookup x.channel = some chan ∧ x.Rightful chan) ∧
    (σ.server.DistinctNames → ∀ k chan fd, σ.server.channels.lookup k = some chan →
      τ.server.ptr fd ∈ chan.occupants →
      let nick := (τ.server.client fd).nickname
      let topic := topicAfter record k chan.topic
      Topic.execute τ.server fd [chan.name] = τ.server.reply fd
        (if topic = [] then .noTopic nick chan.name else .topic nick chan.name topic)) := by
  intro τ record
  have hboard : Board σ.server.channels τ.server record := board_run hv hs
  refine ⟨hboard.lookup, hboard.rightful, ?_⟩
  intro hnames k chan fd hk hmem nick topic
  have hk' : τ.server.channels.lookup k = some { chan with topic := topic } := by
    rw [hboard.lookup k, hk]
    rfl
  have hfind := Topic.findFirst_name (hboard.distinctNames rfl hnames) hk'
  exact Topic.execute_query hfind hk' hmem

/-- The loop with a channel that waits for the first client as its operator and the second as
its member. -/
def board : PollLoop := .start 3 (lit "pw") <| (∅ : UnorderedMap Nat Channel).emplace 0
  { name := lit "#c"
    operators := (∅ : UnorderedSet ClientPtr).insert ⟨4, 0⟩
    members := (∅ : UnorderedSet ClientPtr).insert ⟨5, 1⟩ }

/-- Both have registered, and set topics in turns. -/
def boardRun : List PollEvent := greetingRun ++
  [.round, .prepare, .prepare, .prepare, .poll fun i ↦ (i != 0, false),
    .read .acceptFailed (.ok []), .write 0,
    .read .acceptFailed (.ok (lit "TOPIC #c :one\nTOPIC #c two\n")), .write 0,
    .read .acceptFailed (.ok (lit "TOPIC #c :three\nTOPIC #d four\n")), .write 0]

theorem topics_latest_board :
    let τ := pollLoop.run board boardRun
    let record := pollLoop.record PollLoop.topics board boardRun
    (∀ k, τ.server.channels.lookup k = (board.server.channels.lookup k).map fun chan ↦
      { chan with topic := topicAfter record k chan.topic }) ∧
    (∀ x ∈ record, ∃ chan, board.server.channels.lookup x.channel = some chan ∧ x.Rightful chan) ∧
    (board.server.DistinctNames → ∀ k chan fd, board.server.channels.lookup k = some chan →
      τ.server.ptr fd ∈ chan.occupants →
      let nick := (τ.server.client fd).nickname
      let topic := topicAfter record k chan.topic
      Topic.execute τ.server fd [chan.name] = τ.server.reply fd
        (if topic = [] then .noTopic nick chan.name else .topic nick chan.name topic)) :=
  topics_latest (by decide +kernel) (inStep_start 3 (lit "pw") _)

/-- Three topics are set, and nobody is gone who is told. -/
example : (pollLoop.record PollLoop.topics board boardRun).map TopicSet.topic =
    [lit "one", lit "two", lit "three"] ∧
    (pollLoop.run board boardRun).server.dangling = false := by decide +kernel

end Run

end IrcServer
