import IrcServer.Roles
import IrcServer.Membership
import IrcServer.Isolation

/-!
# Who may set a topic

`Topic::execute` tests the rights of the client, and `Channel::setTopic` tests them again
and says nothing when it refuses.  The two tests agree (`Topic.execute_of_permits`), so that
a topic is announced exactly when it has been set, and everybody else who asks gets one
reply (`execute_topic`).
-/

namespace IrcServer

open Library

/-- No two channels have the same name. -/
def Server.DistinctNames (s : Server) : Prop :=
  ∀ j k a b, s.channels.lookup j = some a → s.channels.lookup k = some b → a.name = b.name → j = k

namespace Topic

/-- The parameters name a channel and a topic, and the client may set the topic there. -/
structure Permits (s : Server) (fd : Int) (params : List Bytes) (k : Nat) (chan : Channel)
    (newTopic : Bytes) : Prop where
  lookup : s.channels.lookup k = some chan
  named : params.head? = some chan.name
  given : params[1]? = some newTopic
  present : s.ptr fd ∈ chan.operators ∨ s.ptr fd ∈ chan.members
  entitled : chan.protectedTopic = true → s.ptr fd ∈ chan.operators

section

variable {s : Server} {fd : Int} {params : List Bytes} {k : Nat} {chan : Channel}
variable {newTopic : Bytes}

/-- The search for a name finds the channel that has it. -/
theorem findFirst_name (hnames : s.DistinctNames) (h : s.channels.lookup k = some chan) :
    s.channels.findFirst (·.name == chan.name) = some k := by
  refine (UnorderedMap.findFirst_eq_some_iff_of_unique ?_).mpr ⟨chan, h, beq_self_eq_true _⟩
  intro i j a b hi hj ha hb
  exact hnames i j a b hi hj ((beq_iff_eq.mp ha).trans (beq_iff_eq.mp hb).symm)

/-- The second test does not refuse what the first has let through. -/
theorem setTopic_of_entitled {ptr : ClientPtr}
    (h : chan.protectedTopic = true → ptr ∈ chan.operators) :
    chan.setTopic newTopic ptr = { chan with topic := newTopic } := by
  rw [Channel.setTopic, if_neg]
  rintro ⟨hprotected, hnot⟩
  exact hnot (h hprotected)

/-- A topic that may be set is set, and announced in its channel. -/
theorem execute_of_found (hfind : s.channels.findFirst (·.name == chan.name) = some k)
    (h : Permits s fd params k chan newTopic) :
    execute s fd params =
      (s.modifyChannel k (·.setTopic newTopic (s.ptr fd))).publicMessage
        { chan with topic := newTopic }
        (.topicChanged (s.client fd).nickname chan.name newTopic) := by
  obtain ⟨rest, rfl⟩ := List.head?_eq_some_iff.mp h.named
  obtain ⟨rest, rfl⟩ : ∃ tail, rest = newTopic :: tail := by
    have hgiven := h.given
    rw [List.getElem?_cons_succ, ← List.head?_eq_getElem?] at hgiven
    exact List.head?_eq_some_iff.mp hgiven
  have hpresent : (!decide (s.ptr fd ∈ chan.operators) && !decide (s.ptr fd ∈ chan.members)) =
      false := by
    rcases h.present with hop | hmem
    · simp [hop]
    · simp [hmem]
  have hentitled : (chan.protectedTopic && !decide (s.ptr fd ∈ chan.operators)) = false := by
    cases hp : chan.protectedTopic with
    | false => rfl
    | true => simp [h.entitled hp]
  have hset : (s.modifyChannel k (·.setTopic newTopic (s.ptr fd))).channel k =
      { chan with topic := newTopic } := by
    refine Server.channel_eq ?_
    rw [Server.modifyChannel, UnorderedMap.lookup_modify_self, h.lookup, Option.map_some,
      setTopic_of_entitled h.entitled]
  simp only [execute, hfind, Server.channel_eq h.lookup, hpresent, hentitled, Bool.false_eq_true,
    if_false, hset]

theorem execute_of_permits (hnames : s.DistinctNames) (h : Permits s fd params k chan newTopic) :
    execute s fd params =
      (s.modifyChannel k (·.setTopic newTopic (s.ptr fd))).publicMessage
        { chan with topic := newTopic }
        (.topicChanged (s.client fd).nickname chan.name newTopic) :=
  execute_of_found (findFirst_name hnames h.lookup) h

/-- The client may set the topic of the channel that is found under the name. -/
def Sets (s : Server) (fd : Int) (params : List Bytes) : Prop :=
  ∃ k chan newTopic, s.channels.findFirst (·.name == chan.name) = some k ∧
    Permits s fd params k chan newTopic

/-- Who may not set a topic gets a reply, and nothing else happens. -/
theorem execute_of_not_sets (h : ¬ Sets s fd params) :
    ∃ m : Reply, execute s fd params = s.reply fd m ∧ m.isBare = true := by
  have hexit := execute_exit s fd params
  generalize execute s fd params = s' at hexit
  cases hexit with
  | notEnoughParameters | noSuchChannel | notOnChannel | noTopic | topic | chanOpRequired =>
      exact ⟨_, rfl, rfl⟩
  | topicChanged k chan newTopic rest hfinds hpresent hentitled =>
      obtain ⟨rfl, hfind, hk⟩ := hfinds
      exact absurd ⟨k, chan, newTopic, hfind, hk, rfl, rfl, hpresent, hentitled⟩ h

theorem execute_of_not_permits (h : ∀ k chan newTopic, ¬ Permits s fd params k chan newTopic) :
    ∃ m : Reply, execute s fd params = s.reply fd m ∧ m.IsLine := by
  have hsets : ¬ Sets s fd params := fun ⟨k, chan, newTopic, _, hpermits⟩ ↦
    h k chan newTopic hpermits
  obtain ⟨m, hm, hbare⟩ := execute_of_not_sets hsets
  exact ⟨m, hm, Reply.isLine_of_isBare hbare⟩

end

end Topic

/-- Of channels with distinct names, `TOPIC` changes the topic of the one that is named and
tells everybody in it, if the client may set it and gives one; otherwise the client gets one
reply and no channel changes. -/
theorem execute_topic {s : Server} (hnames : s.DistinctNames) {fd : Int} {c : Client}
    (hc : s.clients.lookup fd = some c) (params : List Bytes) :
    let s' := Topic.execute s fd params
    (∀ k chan newTopic, Topic.Permits s fd params k chan newTopic →
      (∀ j, s'.channels.lookup j =
        if j = k then some { chan with topic := newTopic } else s.channels.lookup j) ∧
      (∀ d, s'.clients.lookup d = (s.clients.lookup d).map fun b ↦
        b.appendAll (.replicate (chan.occupants.count ⟨d, b.serial⟩)
          (.topicChanged c.nickname chan.name newTopic))) ∧
      (chan.Disjoint → ∀ p ∈ chan.occupants, chan.occupants.count p = 1)) ∧
    ((∀ k chan newTopic, ¬ Topic.Permits s fd params k chan newTopic) →
      s'.channels = s.channels ∧ ∃ m : Reply, m.IsLine ∧ ∀ d, s'.clients.lookup d =
        if d = fd then some (c.appendToWriteBuffer m) else s.clients.lookup d) := by
  intro s'
  constructor
  · intro k chan newTopic h
    have hs' : s' = _ := Topic.execute_of_permits hnames h
    rw [Server.client_eq hc] at hs'
    have hm : (Reply.topicChanged c.nickname chan.name newTopic).str ≠ [] :=
      Reply.IsLine.str_ne_nil trivial
    refine ⟨?_, ?_, ?_⟩
    · intro j
      rw [hs', Server.channels_publicMessage, Server.modifyChannel, UnorderedMap.lookup_modify]
      by_cases hj : j = k
      · rw [if_pos hj, if_pos hj, hj, h.lookup, Option.map_some,
          Topic.setTopic_of_entitled h.entitled]
      · rw [if_neg hj, if_neg hj]
    · intro d
      rw [hs', Server.lookup_publicMessage _ _ hm]
      rfl
    · exact fun hd p hp ↦ List.count_eq_one_of_mem hd.nodup_occupants hp
  · intro h
    obtain ⟨m, hs', hm⟩ : ∃ m : Reply, s' = _ ∧ m.IsLine := Topic.execute_of_not_permits h
    refine ⟨by rw [hs']; rfl, m, hm, ?_⟩
    intro d
    rw [hs', Server.reply, Server.lookup_modify]
    by_cases hd : d = fd
    · rw [if_pos hd, if_pos hd, hd, hc, Option.map_some]
    · rw [if_neg hd, if_neg hd]

/-- The operator of a channel sets its topic, and the other client in it is told. -/
theorem execute_topic_meeting :
    let s' := Topic.execute meeting 4 [lit "#c", lit "hi"]
    (∀ k chan newTopic, Topic.Permits meeting 4 [lit "#c", lit "hi"] k chan newTopic →
      (∀ j, s'.channels.lookup j =
        if j = k then some { chan with topic := newTopic } else meeting.channels.lookup j) ∧
      (∀ d, s'.clients.lookup d = (meeting.clients.lookup d).map fun b ↦
        b.appendAll (.replicate (chan.occupants.count ⟨d, b.serial⟩)
          (.topicChanged (meeting.client 4).nickname chan.name newTopic))) ∧
      (chan.Disjoint → ∀ p ∈ chan.occupants, chan.occupants.count p = 1)) ∧
    ((∀ k chan newTopic, ¬ Topic.Permits meeting 4 [lit "#c", lit "hi"] k chan newTopic) →
      s'.channels = meeting.channels ∧ ∃ m : Reply, m.IsLine ∧ ∀ d, s'.clients.lookup d =
        if d = 4 then some ((meeting.client 4).appendToWriteBuffer m)
        else meeting.clients.lookup d) := by
  have hnames : meeting.DistinctNames := fun j k a b hj hk _ ↦
    (eq_zero_of_lookup_meeting hj).trans (eq_zero_of_lookup_meeting hk).symm
  exact execute_topic hnames (Server.lookup_of_isAuthenticated (by decide)) _

end IrcServer
