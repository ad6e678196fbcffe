import IrcServer.Roles
import Mathlib.Data.Fintype.EquivFin

/-!
# The user limit

`isFull` compares the number of occupants with the limit for equality.  This bars the way
while the channel has no more occupants than the limit, which `setUserLimit` and the
joining operations see to; but `changeMode` switches the limit on without looking, and a
channel that is above its limit then is never full (`enforced_iff`).  A promotion asks
`isFull` of the channel without the member that is promoted, so that in a channel one above
its limit the member is removed and refused (`memberToOperator_iff`).
-/

namespace IrcServer

open Library

namespace Channel

/-- At or above the limit, nobody new gets in. -/
def Enforced (chan : Channel) : Prop :=
  chan.hasUserLimit = true → chan.userLimit ≤ chan.occupants.length → ∀ p ∉ chan.occupants,
    (∀ client, (chan.addMember p client).occupants.length ≤ chan.occupants.length) ∧
    (∀ client key,
      (chan.addMemberWithKey p client key).occupants.length ≤ chan.occupants.length) ∧
    (chan.addOperator p).occupants.length ≤ chan.occupants.length

/-- A limit that is on is not exceeded. -/
def WithinLimit (chan : Channel) : Prop :=
  chan.hasUserLimit = true → chan.occupants.length ≤ chan.userLimit

variable {chan : Channel} {ptr : ClientPtr} {client : Client}

/-- There is always a client that is not in the channel. -/
theorem exists_outsider (chan : Channel) : ∃ p : ClientPtr, p ∉ chan.occupants := by
  have : Infinite ClientPtr := Infinite.of_injective (fun n ↦ ⟨0, n⟩) fun m n h ↦
    congrArg ClientPtr.serial h
  obtain ⟨p, hp⟩ := Infinite.exists_notMem_finset chan.occupants.toFinset
  exact ⟨p, fun h ↦ hp (List.mem_toFinset.mpr h)⟩

theorem length_occupants_addOperator (hfull : chan.isFull = false) (hp : ptr ∉ chan.occupants) :
    (chan.addOperator ptr).occupants.length = chan.occupants.length + 1 := by
  have hop : ptr ∉ chan.operators := fun h ↦ hp (List.mem_append_left _ h)
  rw [addOperator_of_not_isFull hfull]
  simp only [occupants, List.length_append, UnorderedSet.length_insert_of_notMem hop]
  omega

/-- The limit bars the way exactly as long as it is not exceeded. -/
theorem enforced_iff_withinLimit : chan.Enforced ↔ chan.WithinLimit := by
  constructor
  · intro h hon
    by_contra! hover
    obtain ⟨p, hp⟩ := chan.exists_outsider
    have hfull : chan.isFull = false := isFull_eq_false_iff.mpr fun _ ↦ hover.ne'
    have hgrows := (h hon hover.le p hp).2.2
    rw [length_occupants_addOperator hfull hp] at hgrows
    exact absurd hgrows (Nat.not_succ_le_self _)
  · intro h hon hreached p _
    have hfull : chan.isFull = true := by
      rw [← Bool.not_eq_false, isFull_eq_false_iff]
      exact fun hne ↦ hne hon (le_antisymm (h hon) hreached)
    have hbarred (client : Client) : ¬ chan.Admits client := fun hadmits ↦
      Bool.false_ne_true (hadmits.notFull.symm.trans hfull)
    refine ⟨?_, ?_, ?_⟩
    · intro client
      rw [addMember_eq, if_neg fun hlet ↦ hbarred client hlet.2]
    · intro client key
      rw [addMemberWithKey_eq, if_neg fun hlet ↦ hbarred client hlet.2]
    · rw [addOperator_of_isFull hfull]

end Channel

/-- The call switches the limit on in a channel that is above it. -/
def ChannelOp.LimitsOverfull (chan : Channel) : ChannelOp → Prop
  | changeMode mode value => mode = Mode.HAS_USER_LIMIT ∧ value = true ∧
      chan.userLimit < chan.occupants.length
  | _ => False

namespace Channel

variable {chan : Channel} {ptr : ClientPtr} {client : Client}

theorem withinLimit_construct (name : Bytes) (creator : ClientPtr) :
    (construct name creator).WithinLimit := nofun

/-- A channel with no more occupants is as much within its limit. -/
theorem WithinLimit.of_le {chan' : Channel} (h : chan.WithinLimit)
    (hmode : chan'.hasUserLimit = chan.hasUserLimit) (hlimit : chan'.userLimit = chan.userLimit)
    (hle : chan'.occupants.length ≤ chan.occupants.length) : chan'.WithinLimit := by
  intro hon
  rw [hlimit]
  exact hle.trans (h (hmode ▸ hon))

/-- A channel that is not full has room for one more. -/
theorem WithinLimit.of_le_succ {chan' : Channel} (h : chan.WithinLimit)
    (hfull : chan.isFull = false) (hmode : chan'.hasUserLimit = chan.hasUserLimit)
    (hlimit : chan'.userLimit = chan.userLimit)
    (hle : chan'.occupants.length ≤ chan.occupants.length + 1) : chan'.WithinLimit := by
  intro hon
  rw [hmode] at hon
  have hroom : chan.occupants.length < chan.userLimit :=
    lt_of_le_of_ne (h hon) (isFull_eq_false_iff.mp hfull hon)
  rw [hlimit]
  exact hle.trans hroom

theorem WithinLimit.ite_seat (h : chan.WithinLimit) {P : Prop} [Decidable P]
    (hP : P → chan.Admits client) :
    (if P then chan.seat ptr client else chan).WithinLimit := by
  split
  · rename_i hp
    refine h.of_le_succ (hP hp).notFull rfl rfl ?_
    have hlen := UnorderedSet.length_insert_le ptr chan.members
    simp only [occupants, List.length_append, seat]
    omega
  · exact h

theorem WithinLimit.addOperator (h : chan.WithinLimit) : (chan.addOperator ptr).WithinLimit := by
  cases hf : chan.isFull with
  | true => rwa [addOperator_of_isFull hf]
  | false =>
      rw [addOperator_of_not_isFull hf]
      refine h.of_le_succ hf rfl rfl ?_
      have hlen := UnorderedSet.length_insert_le ptr chan.operators
      simp only [occupants, List.length_append]
      omega

theorem WithinLimit.eraseMember (h : chan.WithinLimit) :
    ({ chan with members := chan.members.erase ptr } : Channel).WithinLimit := by
  refine h.of_le rfl rfl ?_
  simp only [occupants, List.length_append]
  exact Nat.add_le_add_left List.length_erase_le _

theorem WithinLimit.eraseOperator (h : chan.WithinLimit) :
    ({ chan with operators := chan.operators.erase ptr } : Channel).WithinLimit := by
  refine h.of_le rfl rfl ?_
  simp only [occupants, List.length_append]
  exact Nat.add_le_add_right List.length_erase_le _

theorem WithinLimit.setUserLimit (h : chan.WithinLimit) (limit : Nat) :
    (chan.setUserLimit limit).WithinLimit := by
  unfold Channel.setUserLimit
  split
  · exact h
  · split
    · exact h
    · rename_i hlimit
      intro _
      simp only [occupants, List.length_append]
      omega

/-- Switching a mode keeps the limit unless it is the limit that is switched on. -/
theorem withinLimit_changeMode_iff (h : chan.WithinLimit) (mode : UInt8) (value : Bool) :
    (chan.changeMode mode value).WithinLimit ↔
      ¬ (mode = Mode.HAS_USER_LIMIT ∧ value = true ∧ chan.userLimit < chan.occupants.length) := by
  by_cases hl : mode = Mode.HAS_USER_LIMIT
  · subst hl
    change (value = true → chan.occupants.length ≤ chan.userLimit) ↔ _
    simp
  · refine iff_of_true ?_ fun hlimit ↦ hl hlimit.1
    unfold changeMode
    rw [if_neg hl]
    repeat' split
    all_goals exact h

end Channel

open Channel in
/-- A call keeps to the limit unless it switches it on too late. -/
theorem withinLimit_step_iff (chan : Channel) (op : ChannelOp)
    (he : channelSystem.enabled chan op) (h : chan.WithinLimit) :
    (channelSystem.step chan op).WithinLimit ↔ ¬ op.LimitsOverfull chan := by
  cases op with
  | setName name =>
      refine iff_of_true ?_ id
      change (chan.setName name).WithinLimit
      unfold setName
      split <;> exact h
  | setTopic topic ptr =>
      refine iff_of_true ?_ id
      change (chan.setTopic topic ptr).WithinLimit
      unfold setTopic
      split <;> exact h
  | setUserLimit limit => exact iff_of_true (h.setUserLimit limit) id
  | changeMode mode value => exact withinLimit_changeMode_iff h mode value
  | addMember ptr client =>
      refine iff_of_true ?_ id
      change (chan.addMember ptr client).WithinLimit
      rw [addMember_eq]
      exact h.ite_seat And.right
  | addMemberWithKey ptr client key =>
      refine iff_of_true ?_ id
      change (chan.addMemberWithKey ptr client key).WithinLimit
      rw [addMemberWithKey_eq]
      exact h.ite_seat And.right
  | addOperator ptr => exact iff_of_true h.addOperator id
  | removeMember ptr =>
      rw [step_removeMember (isSome_removeMember.mp he)]
      exact iff_of_true h.eraseMember id
  | removeOperator ptr =>
      rw [step_removeOperator (isSome_removeOperator.mp he)]
      exact iff_of_true h.eraseOperator id
  | memberToOperator ptr =>
      rw [step_memberToOperator (isSome_memberToOperator.mp he)]
      exact iff_of_true h.eraseMember.addOperator id
  | operatorToMember ptr client =>
      rw [step_operatorToMember (isSome_operatorToMember.mp he), addMember_eq]
      exact iff_of_true (h.eraseOperator.ite_seat And.right) id

open Channel in
/-- In a run from construction, the limit bars the way at every moment exactly when it is
never switched on in a channel that is above it. -/
theorem enforced_iff (name : Bytes) (creator : ClientPtr) {ops : List ChannelOp}
    (hv : channelSystem.Valid (construct name creator) ops) :
    (∀ pre, pre <+: ops → (channelSystem.run (construct name creator) pre).Enforced) ↔
      channelSystem.Along (fun chan op ↦ ¬ op.LimitsOverfull chan) (construct name creator) ops := by
  simp only [enforced_iff_withinLimit]
  exact hv.forall_isPrefix_iff withinLimit_step_iff (withinLimit_construct name creator)

/-- The limit is switched on before its first occupant comes back, and raised. -/
theorem enforced_iff_emptied : (∀ pre, pre <+: [.removeOperator founder,
      .changeMode Mode.HAS_USER_LIMIT true, .setUserLimit 2, .addOperator founder] →
        (channelSystem.run founded pre).Enforced) ↔
    channelSystem.Along (fun chan op ↦ ¬ op.LimitsOverfull chan) founded [.removeOperator founder,
      .changeMode Mode.HAS_USER_LIMIT true, .setUserLimit 2, .addOperator founder] :=
  enforced_iff (lit "#c") founder (by decide)

/-- The limit is 0 from construction; switched on with the creator inside, it bars nobody. -/
theorem not_enforced_of_switched_on :
    channelSystem.Valid founded [.changeMode Mode.HAS_USER_LIMIT true] ∧
      ¬ ∀ pre, pre <+: [.changeMode Mode.HAS_USER_LIMIT true] →
        (channelSystem.run founded pre).Enforced := by
  refine ⟨by decide, ?_⟩
  intro h
  have hbars := h [.changeMode Mode.HAS_USER_LIMIT true] (List.prefix_refl _) rfl (by decide)
    ⟨5, 1⟩ (by decide)
  exact absurd hbars.2.2 (by decide)

/-! ## Promotion -/

namespace Channel

variable {chan : Channel} {ptr : ClientPtr}

/-- One more occupant than a limit that is on. -/
def OneOver (chan : Channel) : Prop :=
  chan.hasUserLimit = true ∧ chan.occupants.length = chan.userLimit + 1

instance (chan : Channel) : Decidable chan.OneOver :=
  inferInstanceAs (Decidable (_ ∧ _))

/-- The channel with a member made operator. -/
def promoted (chan : Channel) (ptr : ClientPtr) : Channel :=
  { chan with
    members := chan.members.erase ptr
    operators := chan.operators.insert ptr }

theorem WithinLimit.not_oneOver (h : chan.WithinLimit) : ¬ chan.OneOver := by
  rintro ⟨hon, hlen⟩
  have hle := h hon
  omega

/-- Without one of its members, a channel is full when it was one above the limit. -/
theorem isFull_eraseMember (h : ptr ∈ chan.members) :
    ({ chan with members := chan.members.erase ptr } : Channel).isFull = false ↔
      ¬ chan.OneOver := by
  have hlen := UnorderedSet.length_erase_of_mem h
  rw [isFull_eq_false_iff, OneOver, not_and]
  simp only [occupants, List.length_append]
  exact forall_congr' fun _ ↦ by omega

/-- What a promotion does in every channel: one above the limit, it is a removal. -/
theorem memberToOperator_eq (h : ptr ∈ chan.members) : chan.memberToOperator ptr = some
    (if chan.OneOver then { chan with members := chan.members.erase ptr }
      else chan.promoted ptr) := by
  rw [memberToOperator_of_mem h, Option.some.injEq]
  split
  · rename_i hover
    have hfull : ({ chan with members := chan.members.erase ptr } : Channel).isFull = true := by
      rw [← Bool.not_eq_false, isFull_eraseMember h]
      exact fun hnot ↦ hnot hover
    exact addOperator_of_isFull hfull
  · rename_i hover
    exact addOperator_of_not_isFull ((isFull_eraseMember h).mpr hover)

/-- A member that is no operator is promoted, and nothing else changes, exactly when the
channel is not one above its limit. -/
theorem memberToOperator_eq_promoted_iff (hmem : ptr ∈ chan.members) (hop : ptr ∉ chan.operators) :
    chan.memberToOperator ptr = some (chan.promoted ptr) ↔ ¬ chan.OneOver := by
  rw [memberToOperator_eq hmem, Option.some.injEq]
  split
  · rename_i hover
    refine iff_of_false ?_ (fun h ↦ h hover)
    intro h
    have hoperators : chan.operators = chan.operators.insert ptr := congrArg Channel.operators h
    exact UnorderedSet.insert_ne_self hop hoperators.symm
  · rename_i hover
    exact iff_of_true rfl hover

/-- In every state that a run reaches from construction, a promotion keeps the member in the
channel exactly when the channel is not one above its limit, which it never is in a run
that switches the limit on only in channels within it. -/
theorem memberToOperator_iff (name : Bytes) (creator : ClientPtr) {ops : List ChannelOp}
    (hv : channelSystem.Valid (construct name creator) ops) :
    (∀ pre, pre <+: ops → let chan := channelSystem.run (construct name creator) pre
      ∀ ptr, ptr ∈ chan.members → ptr ∉ chan.operators →
        (chan.memberToOperator ptr = some (chan.promoted ptr) ↔ ¬ chan.OneOver)) ∧
    (channelSystem.Along (fun chan op ↦ ¬ op.LimitsOverfull chan) (construct name creator) ops →
      ∀ pre, pre <+: ops → let chan := channelSystem.run (construct name creator) pre
        ∀ ptr, ptr ∈ chan.members → ptr ∉ chan.operators →
          chan.memberToOperator ptr = some (chan.promoted ptr)) := by
  constructor
  · intro pre _ chan ptr hmem hop
    exact memberToOperator_eq_promoted_iff hmem hop
  · intro hlimits pre hpre chan ptr hmem hop
    have hwithin := (hv.forall_isPrefix_iff withinLimit_step_iff
      (withinLimit_construct name creator)).mpr hlimits
    exact (memberToOperator_eq_promoted_iff hmem hop).mpr (hwithin pre hpre).not_oneOver

/-- A member joins a channel and fills it. -/
theorem memberToOperator_iff_filled :
    let ops : List ChannelOp := [.removeOperator founder, .changeMode Mode.HAS_USER_LIMIT true,
      .setUserLimit 2, .addOperator founder, .addMember ⟨5, 1⟩ {}]
    (∀ pre, pre <+: ops → let chan := channelSystem.run founded pre
      ∀ ptr, ptr ∈ chan.members → ptr ∉ chan.operators →
        (chan.memberToOperator ptr = some (chan.promoted ptr) ↔ ¬ chan.OneOver)) ∧
    (channelSystem.Along (fun chan op ↦ ¬ op.LimitsOverfull chan) founded ops →
      ∀ pre, pre <+: ops → let chan := channelSystem.run founded pre
        ∀ ptr, ptr ∈ chan.members → ptr ∉ chan.operators →
          chan.memberToOperator ptr = some (chan.promoted ptr)) :=
  memberToOperator_iff (lit "#c") founder (by decide)

/-- A member joins while the limit is off; with the limit on again its promotion removes it. -/
theorem memberToOperator_drops_member :
    let ops : List ChannelOp := [.changeMode Mode.HAS_USER_LIMIT true, .setUserLimit 1,
      .changeMode Mode.HAS_USER_LIMIT false, .addMember ⟨5, 1⟩ {},
      .changeMode Mode.HAS_USER_LIMIT true]
    channelSystem.Valid founded ops ∧ ¬ ∀ chan, chan = channelSystem.run founded ops →
      ∀ ptr, ptr ∈ chan.members → ptr ∉ chan.operators →
        chan.memberToOperator ptr = some (chan.promoted ptr) := by
  refine ⟨by decide, ?_⟩
  intro h
  have hoperators := congrArg (Option.map fun chan ↦ chan.operators.elems)
    (h _ rfl ⟨5, 1⟩ (by decide) (by decide))
  exact absurd hoperators (by decide)

end Channel

end IrcServer
