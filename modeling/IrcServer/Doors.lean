import IrcServer.Admission

/-!
# The doors of a channel

No operation stores a key or an invitation.  In every channel that comes from construction
the key is therefore the empty one and nobody is invited: with mode `k` on, only the empty
key opens it, and with mode `i` on nothing does (`entered_iff`).  As long as mode `i` stays
on, a channel loses members and gains none (`members_of_closed`).
-/

namespace IrcServer

open Library

namespace Channel

/-- The second channel is the first after members were let in or left: the key and mode `i`
are the same, and nobody new is invited. -/
structure Keeps (chan chan' : Channel) : Prop where
  key : chan'.key = chan.key
  inviteOnly : chan'.inviteOnly = chan.inviteOnly
  pendingInvites : ∀ n ∈ chan'.pendingInvites, n ∈ chan.pendingInvites
  members : ∀ p ∈ chan'.members, p ∈ chan.members ∨
    ∃ client : Client, chan.inviteOnly = true → client.username ∈ chan.pendingInvites

namespace Keeps

variable {chan chan' chan'' : Channel} {ptr : ClientPtr} {client : Client}

theorem of_eq (hkey : chan'.key = chan.key) (hdoor : chan'.inviteOnly = chan.inviteOnly)
    (hinvites : chan'.pendingInvites = chan.pendingInvites)
    (hmembers : ∀ p ∈ chan'.members, p ∈ chan.members) : Keeps chan chan' :=
  ⟨hkey, hdoor, fun _ hn ↦ hinvites ▸ hn, fun p hp ↦ Or.inl (hmembers p hp)⟩

theorem refl (chan : Channel) : Keeps chan chan := .of_eq rfl rfl rfl fun _ ↦ id

theorem trans (h : Keeps chan chan') (h' : Keeps chan' chan'') : Keeps chan chan'' where
  key := h'.key.trans h.key
  inviteOnly := h'.inviteOnly.trans h.inviteOnly
  pendingInvites n hn := h.pendingInvites n (h'.pendingInvites n hn)
  members p hp := by
    rcases h'.members p hp with hp | ⟨client, hclient⟩
    · exact h.members p hp
    · exact Or.inr ⟨client, fun hi ↦
        h.pendingInvites _ (hclient (h.inviteOnly.trans hi))⟩

/-- Letting somebody in. -/
theorem seat (h : chan.Admits client) : Keeps chan (chan.seat ptr client) where
  key := rfl
  inviteOnly := rfl
  pendingInvites n hn := by
    have hn' : n ∈ if chan.inviteOnly then chan.pendingInvites.erase client.username
      else chan.pendingInvites := hn
    split at hn'
    · exact (UnorderedSet.mem_erase.mp hn').2
    · exact hn'
  members _ _ := Or.inr ⟨client, h.invited⟩

theorem ite_seat {P : Prop} [Decidable P] (h : P → chan.Admits client) :
    Keeps chan (if P then chan.seat ptr client else chan) := by
  split
  · exact seat (h ‹P›)
  · exact refl chan

theorem addOperator (chan : Channel) (ptr : ClientPtr) : Keeps chan (chan.addOperator ptr) := by
  unfold Channel.addOperator
  split
  · exact refl chan
  · exact .of_eq rfl rfl rfl fun _ ↦ id

theorem eraseMember (chan : Channel) (ptr : ClientPtr) :
    Keeps chan { chan with members := chan.members.erase ptr } :=
  .of_eq rfl rfl rfl fun _ hp ↦ (UnorderedSet.mem_erase.mp hp).2

theorem eraseOperator (chan : Channel) (ptr : ClientPtr) :
    Keeps chan { chan with operators := chan.operators.erase ptr } :=
  .of_eq rfl rfl rfl fun _ ↦ id

end Keeps

/-- A mode is switched: mode `i`, or one that leaves mode `i` alone. -/
theorem changeMode_keeps (chan : Channel) (mode : UInt8) (value : Bool) :
    ∃ b, (b = chan.inviteOnly ∨ mode = Mode.INVITE_ONLY ∧ b = value) ∧
      Keeps { chan with inviteOnly := b } (chan.changeMode mode value) := by
  by_cases hmode : mode = Mode.INVITE_ONLY
  · refine ⟨value, Or.inr ⟨hmode, rfl⟩, ?_⟩
    rw [changeMode, if_pos hmode]
    exact .refl _
  · refine ⟨chan.inviteOnly, Or.inl rfl, ?_⟩
    rw [changeMode, if_neg hmode]
    repeat' split
    all_goals exact .of_eq rfl rfl rfl fun _ ↦ id

/-- What one call can do, but for a switch of mode `i`. -/
theorem keeps_step (chan : Channel) {op : ChannelOp} (he : channelSystem.enabled chan op) :
    (∃ mode value, op = .changeMode mode value) ∨ Keeps chan (channelSystem.step chan op) := by
  cases op with
  | changeMode mode value => exact Or.inl ⟨mode, value, rfl⟩
  | setName name =>
      right
      change Keeps chan (chan.setName name)
      unfold setName
      split <;> exact .of_eq rfl rfl rfl fun _ ↦ id
  | setTopic topic ptr =>
      right
      change Keeps chan (chan.setTopic topic ptr)
      unfold setTopic
      split <;> exact .of_eq rfl rfl rfl fun _ ↦ id
  | setUserLimit limit =>
      right
      change Keeps chan (chan.setUserLimit limit)
      unfold setUserLimit
      repeat' split
      all_goals exact .of_eq rfl rfl rfl fun _ ↦ id
  | addMember ptr client =>
      right
      change Keeps chan (chan.addMember ptr client)
      rw [addMember_eq]
      exact .ite_seat And.right
  | addMemberWithKey ptr client key =>
      right
      change Keeps chan (chan.addMemberWithKey ptr client key)
      rw [addMemberWithKey_eq]
      exact .ite_seat And.right
  | addOperator ptr => exact Or.inr (.addOperator chan ptr)
  | removeMember ptr =>
      rw [step_removeMember (isSome_removeMember.mp he)]
      exact Or.inr (.eraseMember chan ptr)
  | removeOperator ptr =>
      rw [step_removeOperator (isSome_removeOperator.mp he)]
      exact Or.inr (.eraseOperator chan ptr)
  | memberToOperator ptr =>
      rw [step_memberToOperator (isSome_memberToOperator.mp he)]
      exact Or.inr ((Keeps.eraseMember chan ptr).trans (.addOperator _ ptr))
  | operatorToMember ptr client =>
      rw [step_operatorToMember (isSome_operatorToMember.mp he), addMember_eq]
      exact Or.inr ((Keeps.eraseOperator chan ptr).trans (.ite_seat And.right))

/-! ## Keys and invitations -/

/-- The key is empty, and nobody is invited. -/
structure Unkeyed (chan : Channel) : Prop where
  key : chan.key = []
  uninvited : ∀ n, n ∉ chan.pendingInvites

theorem Unkeyed.keeps {chan chan' : Channel} (h : chan.Unkeyed) (hkeeps : Keeps chan chan') :
    chan'.Unkeyed :=
  ⟨hkeeps.key.trans h.key, fun n hn ↦ h.uninvited n (hkeeps.pendingInvites n hn)⟩

theorem unkeyed_construct (name : Bytes) (creator : ClientPtr) :
    (construct name creator).Unkeyed := ⟨rfl, UnorderedSet.notMem_empty⟩

theorem Unkeyed.step {chan : Channel} (h : chan.Unkeyed) {op : ChannelOp}
    (he : channelSystem.enabled chan op) : (channelSystem.step chan op).Unkeyed := by
  rcases keeps_step chan he with ⟨mode, value, rfl⟩ | hkeeps
  · obtain ⟨b, -, hkeeps⟩ := chan.changeMode_keeps mode value
    have hswitched : Unkeyed { chan with inviteOnly := b } := ⟨h.key, h.uninvited⟩
    exact hswitched.keeps hkeeps
  · exact h.keeps hkeeps

theorem unkeyed_run {name : Bytes} {creator : ClientPtr} {ops : List ChannelOp}
    (hv : channelSystem.Valid (construct name creator) ops) :
    (channelSystem.run (construct name creator) ops).Unkeyed :=
  hv.invariant (I := Unkeyed) (fun _ _ he h ↦ h.step he) (unkeyed_construct name creator)

/-- In every channel that comes from construction by any calls, somebody who is not a member
is let in exactly when the channel is neither full nor invite-only, and it brings the empty
key, or none to a channel without key mode. -/
theorem entered_iff {name : Bytes} {creator : ClientPtr} {ops : List ChannelOp}
    (hv : channelSystem.Valid (construct name creator) ops) :
    let chan := channelSystem.run (construct name creator) ops
    ∀ (ptr : ClientPtr) (client : Client) (key? : Option Bytes), ptr ∉ chan.members →
      (ptr ∈ (chan.offer ptr client key?).members ↔ chan.isFull = false ∧
        chan.inviteOnly = false ∧ (key? = some [] ∨ key? = none ∧ chan.hasKey = false)) := by
  intro chan ptr client key? hmem
  have hunkeyed : chan.Unkeyed := unkeyed_run hv
  have haccepts : chan.Accepts key? ↔ key? = some [] ∨ key? = none ∧ chan.hasKey = false := by
    cases key? with
    | none => simp [Accepts]
    | some key =>
        rw [Accepts, hunkeyed.key]
        constructor
        · rintro rfl
          exact Or.inl rfl
        · rintro (hkey | ⟨hkey, -⟩)
          · exact (Option.some.inj hkey).symm
          · cases hkey
  rw [mem_members_offer_iff hmem, admits_iff, haccepts]
  constructor
  · rintro ⟨hkey, hfull, hopen | hinvited⟩
    · exact ⟨hfull, hopen, hkey⟩
    · exact absurd hinvited (hunkeyed.uninvited _)
  · rintro ⟨hfull, hopen, hkey⟩
    exact ⟨hkey, hfull, Or.inl hopen⟩

/-- A channel with key mode, whose creator has left. -/
theorem entered_iff_founded :
    let chan := channelSystem.run (construct (lit "#c") founder)
      [.changeMode Mode.HAS_KEY true, .removeOperator founder]
    ∀ (ptr : ClientPtr) (client : Client) (key? : Option Bytes), ptr ∉ chan.members →
      (ptr ∈ (chan.offer ptr client key?).members ↔ chan.isFull = false ∧
        chan.inviteOnly = false ∧ (key? = some [] ∨ key? = none ∧ chan.hasKey = false)) :=
  entered_iff (by decide)

end Channel

/-! ## Closed channels -/

/-- The call switches mode `i` off. -/
def ChannelOp.Opens : ChannelOp → Prop
  | changeMode mode value => mode = Mode.INVITE_ONLY ∧ value = false
  | _ => False

namespace Channel

/-- In a closed channel a call that does not open it lets nobody in. -/
theorem closed_step {chan : Channel} (h : chan.Unkeyed) (hclosed : chan.inviteOnly = true)
    {op : ChannelOp} (he : channelSystem.enabled chan op) (hop : ¬ op.Opens) :
    (channelSystem.step chan op).inviteOnly = true ∧
      ∀ p ∈ (channelSystem.step chan op).members, p ∈ chan.members := by
  rcases keeps_step chan he with ⟨mode, value, rfl⟩ | hkeeps
  · refine ⟨?_, fun p hp ↦ (chan.changeMode_sets mode value).2 ▸ hp⟩
    obtain ⟨b, hb, hkeeps⟩ := chan.changeMode_keeps mode value
    refine hkeeps.inviteOnly.trans ?_
    rcases hb with rfl | ⟨hmode, rfl⟩
    · exact hclosed
    · by_contra hoff
      exact hop ⟨hmode, Bool.eq_false_iff.mpr hoff⟩
  · refine ⟨hkeeps.inviteOnly.trans hclosed, fun p hp ↦ ?_⟩
    rcases hkeeps.members p hp with hp | ⟨client, hclient⟩
    · exact hp
    · exact absurd (hclient hclosed) (h.uninvited _)

/-- A channel that comes from construction and is invite-only, and is run on without being
opened: its members at the end were members before. -/
theorem members_of_closed {name : Bytes} {creator : ClientPtr} {pre ops : List ChannelOp}
    (hv : channelSystem.Valid (construct name creator) (pre ++ ops))
    (hclosed : (channelSystem.run (construct name creator) pre).inviteOnly = true)
    (hstay : ∀ op ∈ ops, ¬ op.Opens) :
    ∀ p ∈ (channelSystem.run (construct name creator) (pre ++ ops)).members,
      p ∈ (channelSystem.run (construct name creator) pre).members := by
  obtain ⟨hpre, hops⟩ := System.along_append.mp hv
  have hunkeyed := unkeyed_run hpre
  rw [System.run_append]
  generalize channelSystem.run (construct name creator) pre = chan at hops hunkeyed hclosed
  have hvalid : channelSystem.Valid chan ops := hops
  have hrun := hvalid.invariant_along
    (I := fun chan' ↦ chan'.Unkeyed ∧ chan'.inviteOnly = true ∧
      ∀ p ∈ chan'.members, p ∈ chan.members) (P := fun _ op ↦ ¬ op.Opens) ?_
    (System.along_of_forall_mem fun op hop _ ↦ hstay op hop) ⟨hunkeyed, hclosed, fun _ ↦ id⟩
  · exact hrun.2.2
  · rintro chan' op he hop ⟨hunkeyed', hclosed', hmembers⟩
    obtain ⟨hclosed'', hmembers'⟩ := closed_step hunkeyed' hclosed' he hop
    exact ⟨hunkeyed'.step he, hclosed'', fun p hp ↦ hmembers p (hmembers' p hp)⟩

/-- A member is made operator in a closed channel and does not come back; the other one has
been there all along. -/
theorem members_of_closed_founded :
    (⟨6, 2⟩ : ClientPtr) ∈ (channelSystem.run (construct (lit "#c") founder)
      [.addMember ⟨5, 1⟩ {}, .addMember ⟨6, 2⟩ {}, .changeMode Mode.INVITE_ONLY true]).members :=
  have hrun := members_of_closed
    (show channelSystem.Valid (construct (lit "#c") founder)
      ([.addMember ⟨5, 1⟩ {}, .addMember ⟨6, 2⟩ {}, .changeMode Mode.INVITE_ONLY true] ++
        [.memberToOperator ⟨5, 1⟩, .operatorToMember ⟨5, 1⟩ {}, .addMember ⟨5, 1⟩ {}])
      from by decide) (by decide) (by simp [ChannelOp.Opens])
  hrun ⟨6, 2⟩ (by decide)

end Channel

end IrcServer
