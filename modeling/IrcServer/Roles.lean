import IrcServer.ChannelOperations
import IrcServer.Effects
import Mathlib.Data.Finset.Card

/-!
# Roles in a channel

A client of a channel is an operator or a member.  Two sets encode this, and neither
`addMember` nor `addOperator` looks at the set it does not write to: a client can get the
second role besides the first (`ChannelOp.Doubles`), and then counts twice and is told
everything twice.  Nothing else breaks the encoding (`oneRole_iff`).

`operatorToMember` is a removal followed by an ordinary join without a key, so that the
admission checks made for outsiders decide whether the demoted operator stays
(`operatorToMember_iff`).  Neither it nor its opposite asks whether there is somebody to
remove (`not_safe_of_absent`).
-/

namespace IrcServer

open Library

/-! ## Announcements -/

namespace Server

/-- A delivery, seen from every client. -/
theorem lookup_deliver (s : Server) (p : ClientPtr) (m : Reply) (d : Int) :
    (s.deliver p m).clients.lookup d =
      (s.clients.lookup d).map fun c ↦ if p = ⟨d, c.serial⟩ then c.appendToWriteBuffer m else c := by
  by_cases hlive : (s.deref p).isSome = true
  · rw [deliver, if_pos hlive]
    obtain ⟨c, hc, hserial⟩ := Option.map_eq_some_iff.mp (isSome_deref_iff.mp hlive)
    by_cases hd : d = p.fd
    · subst hd
      rw [reply, lookup_modify_self, hc, Option.map_some, Option.map_some,
        if_pos (by rw [hserial])]
    · have hne (c : Client) : p ≠ ⟨d, c.serial⟩ := fun h ↦ hd (congrArg ClientPtr.fd h).symm
      simp only [reply, lookup_modify_of_ne s p.fd _ hd, if_neg (hne _), Option.map_id']
  · rw [deliver, if_neg hlive]
    cases hc : s.clients.lookup d with
    | none => rfl
    | some c =>
        have hne : p ≠ ⟨d, c.serial⟩ := by
          rintro rfl
          exact hlive (isSome_deref_iff.mpr (by rw [hc, Option.map_some]))
        rw [Option.map_some, if_neg hne]

/-- A client gets a text once for every time its pointer is in the list. -/
theorem lookup_deliver_all (s : Server) (ps : List ClientPtr) (m : Reply) (d : Int) :
    (ps.foldl (·.deliver · m) s).clients.lookup d =
      (s.clients.lookup d).map fun c ↦ c.appendAll (.replicate (ps.count ⟨d, c.serial⟩) m) := by
  induction ps generalizing s with
  | nil => exact (Option.map_id').symm
  | cons p ps ih =>
      rw [List.foldl_cons, ih, lookup_deliver, Option.map_map]
      congr 1
      funext c
      by_cases hp : p = ⟨d, c.serial⟩
      · rw [Function.comp_apply, if_pos hp, hp, List.count_cons_self, List.replicate_succ]
        rfl
      · rw [Function.comp_apply, if_neg hp, List.count_cons_of_ne hp]

/-- An announcement, seen from every client. -/
theorem lookup_publicMessage (s : Server) (chan : Channel) {m : Reply} (hm : m.str ≠ [])
    (d : Int) : (s.publicMessage chan m).clients.lookup d = (s.clients.lookup d).map
      fun c ↦ c.appendAll (.replicate (chan.occupants.count ⟨d, c.serial⟩) m) := by
  have hempty : ¬ m.str.isEmpty = true := by simpa using hm
  rw [publicMessage, if_neg hempty, ← List.foldl_append]
  exact lookup_deliver_all s chan.occupants m d

theorem deref_eq_some_iff {s : Server} {p : ClientPtr} {c : Client} :
    s.deref p = some c ↔ s.clients.lookup p.fd = some c ∧ c.serial = p.serial := by
  simp [deref, Option.filter_eq_some_iff]

end Server

/-! ## One role per client -/

namespace Channel

/-- The roles exclude each other. -/
def Disjoint (chan : Channel) : Prop := ∀ p ∈ chan.operators, p ∉ chan.members

/-- Every client has one role: the roles exclude each other, every occupant is counted
once against the limit, and gets one copy of every announcement. -/
structure OneRole (chan : Channel) : Prop where
  disjoint : chan.Disjoint
  countedOnce : chan.members.elems.length + chan.operators.elems.length =
    chan.occupants.toFinset.card
  toldOnce : ∀ (s : Server) (m : Reply) (p : ClientPtr) (c : Client), m.str ≠ [] →
    p ∈ chan.occupants → s.deref p = some c →
      (s.publicMessage chan m).clients.lookup p.fd = some (c.appendToWriteBuffer m)

variable {chan : Channel}

theorem Disjoint.nodup_occupants (h : chan.Disjoint) : chan.occupants.Nodup :=
  List.nodup_append.mpr ⟨chan.operators.nodup, chan.members.nodup,
    fun p hp _ hq e ↦ h p hp (e ▸ hq)⟩

/-- Counting and telling once are consequences of the roles being disjoint. -/
theorem oneRole_iff_disjoint : chan.OneRole ↔ chan.Disjoint := by
  refine ⟨OneRole.disjoint, fun h ↦ ⟨h, ?_, ?_⟩⟩
  · rw [List.toFinset_card_of_nodup h.nodup_occupants, occupants, List.length_append, Nat.add_comm]
  · intro s m p c hm hp hc
    obtain ⟨hl, hserial⟩ := Server.deref_eq_some_iff.mp hc
    have hcount : chan.occupants.count ⟨p.fd, c.serial⟩ = 1 := by
      rw [hserial]
      exact List.count_eq_one_of_mem h.nodup_occupants hp
    rw [Server.lookup_publicMessage s chan hm, hl, Option.map_some, hcount]
    rfl

end Channel

/-- The call gives a client a second role. -/
def ChannelOp.Doubles (chan : Channel) : ChannelOp → Prop
  | addMember ptr client =>
      ptr ∈ chan.operators ∧ chan.hasKey = false ∧ chan.Admits client
  | addMemberWithKey ptr client key =>
      ptr ∈ chan.operators ∧ chan.key = key ∧ chan.Admits client
  | addOperator ptr => ptr ∈ chan.members ∧ chan.isFull = false
  | _ => False

namespace Channel

variable {chan : Channel} {ptr : ClientPtr} {client : Client}

theorem disjoint_construct (name : Bytes) (creator : ClientPtr) :
    (construct name creator).Disjoint := fun p _ ↦ UnorderedSet.notMem_empty p

/-- Letting in a client that is not an operator keeps the roles apart. -/
theorem disjoint_seat_iff (h : chan.Disjoint) :
    (chan.seat ptr client).Disjoint ↔ ptr ∉ chan.operators := by
  constructor
  · intro hs hp
    exact hs ptr hp (UnorderedSet.mem_insert_self ptr _)
  · intro hp q hq hmem
    rcases UnorderedSet.mem_insert.mp hmem with rfl | hmem
    · exact hp hq
    · exact h q hq hmem

theorem disjoint_addOperator_iff (h : chan.Disjoint) :
    (chan.addOperator ptr).Disjoint ↔ ¬ (ptr ∈ chan.members ∧ chan.isFull = false) := by
  cases hf : chan.isFull with
  | true => simp [addOperator_of_isFull hf, h]
  | false =>
      rw [addOperator_of_not_isFull hf]
      constructor
      · rintro hs ⟨hp, -⟩
        exact hs ptr (UnorderedSet.mem_insert_self ptr _) hp
      · intro hp q hq hmem
        rcases UnorderedSet.mem_insert.mp hq with rfl | hq
        · exact hp ⟨hmem, rfl⟩
        · exact h q hq hmem

/-- The two sets are all that matters. -/
theorem disjoint_congr {chan' : Channel}
    (h : chan'.operators = chan.operators ∧ chan'.members = chan.members) :
    chan'.Disjoint ↔ chan.Disjoint := by rw [Disjoint, Disjoint, h.1, h.2]

theorem Disjoint.eraseMember (h : chan.Disjoint) :
    ({ chan with members := chan.members.erase ptr } : Channel).Disjoint :=
  fun q hq hmem ↦ h q hq (UnorderedSet.mem_erase.mp hmem).2

theorem Disjoint.eraseOperator (h : chan.Disjoint) :
    ({ chan with operators := chan.operators.erase ptr } : Channel).Disjoint :=
  fun q hq hmem ↦ h q (UnorderedSet.mem_erase.mp hq).2 hmem

theorem Disjoint.ite_seat (h : chan.Disjoint) {P : Prop} [Decidable P] :
    (if P then chan.seat ptr client else chan).Disjoint ↔ ¬ (ptr ∈ chan.operators ∧ P) := by
  split
  · rename_i hP
    simp [disjoint_seat_iff h, hP]
  · rename_i hP
    simp [h, hP]

end Channel

open Channel in
/-- A call keeps the roles apart unless it gives a client a second one. -/
theorem disjoint_step_iff (chan : Channel) (op : ChannelOp) (he : channelSystem.enabled chan op)
    (h : chan.Disjoint) : (channelSystem.step chan op).Disjoint ↔ ¬ op.Doubles chan := by
  cases op with
  | setName name => exact iff_of_true ((disjoint_congr (chan.setName_sets name)).mpr h) id
  | setTopic topic ptr =>
      exact iff_of_true ((disjoint_congr (chan.setTopic_sets topic ptr)).mpr h) id
  | setUserLimit limit =>
      exact iff_of_true ((disjoint_congr (chan.setUserLimit_sets limit)).mpr h) id
  | changeMode mode value =>
      exact iff_of_true ((disjoint_congr (chan.changeMode_sets mode value)).mpr h) id
  | addMember ptr client =>
      change (chan.addMember ptr client).Disjoint ↔ _
      rw [addMember_eq]
      exact h.ite_seat
  | addMemberWithKey ptr client key =>
      change (chan.addMemberWithKey ptr client key).Disjoint ↔ _
      rw [addMemberWithKey_eq]
      exact h.ite_seat
  | addOperator ptr => exact disjoint_addOperator_iff h
  | removeMember ptr =>
      rw [step_removeMember (isSome_removeMember.mp he)]
      exact iff_of_true h.eraseMember id
  | removeOperator ptr =>
      rw [step_removeOperator (isSome_removeOperator.mp he)]
      exact iff_of_true h.eraseOperator id
  | memberToOperator ptr =>
      -- the client that is to be an operator has just left the members
      rw [step_memberToOperator (isSome_memberToOperator.mp he)]
      refine iff_of_true ((disjoint_addOperator_iff h.eraseMember).mpr ?_) id
      rintro ⟨hmem, -⟩
      exact UnorderedSet.notMem_erase_self ptr _ hmem
  | operatorToMember ptr client =>
      rw [step_operatorToMember (isSome_operatorToMember.mp he), addMember_eq]
      refine iff_of_true (h.eraseOperator.ite_seat.mpr ?_) id
      rintro ⟨hop, -⟩
      exact UnorderedSet.notMem_erase_self ptr _ hop

open Channel in
/-- In a run from construction, every client has one role at every moment exactly when no
call lets in an operator as a member or makes an operator of somebody who stays a member. -/
theorem oneRole_iff (name : Bytes) (creator : ClientPtr) {ops : List ChannelOp}
    (hv : channelSystem.Valid (construct name creator) ops) :
    (∀ pre, pre <+: ops → (channelSystem.run (construct name creator) pre).OneRole) ↔
      channelSystem.Along (fun chan op ↦ ¬ op.Doubles chan) (construct name creator) ops := by
  simp only [oneRole_iff_disjoint]
  exact hv.forall_isPrefix_iff disjoint_step_iff (disjoint_construct name creator)

/-- The creator of a channel, in the first connection of a server. -/
def founder : ClientPtr := ⟨4, 0⟩

/-- A channel just created. -/
def founded : Channel := .construct (lit "#c") founder

/-- The creator of a channel joins it and is a member besides. -/
theorem not_oneRole_of_founder_joins :
    channelSystem.Valid founded [.addMember founder {}] ∧
      ¬ ∀ pre, pre <+: [.addMember founder {}] → (channelSystem.run founded pre).OneRole := by
  refine ⟨by decide, ?_⟩
  intro h
  have hdisjoint := (h [.addMember founder {}] (List.prefix_refl _)).disjoint
  exact hdisjoint founder (by decide) (by decide)

/-- A member is promoted, demoted and removed. -/
theorem oneRole_iff_promoted : (∀ pre, pre <+: [.addMember ⟨5, 1⟩ {}, .memberToOperator ⟨5, 1⟩,
      .operatorToMember ⟨5, 1⟩ {}, .removeMember ⟨5, 1⟩] →
        (channelSystem.run founded pre).OneRole) ↔
    channelSystem.Along (fun chan op ↦ ¬ op.Doubles chan) founded
      [.addMember ⟨5, 1⟩ {}, .memberToOperator ⟨5, 1⟩, .operatorToMember ⟨5, 1⟩ {},
        .removeMember ⟨5, 1⟩] :=
  oneRole_iff (lit "#c") founder (by decide)

/-! ## Demotion -/

namespace Channel

variable {chan : Channel} {ptr : ClientPtr} {client : Client}

/-- Without one of its operators, a channel is full when it was one above the limit. -/
theorem isFull_eraseOperator (h : ptr ∈ chan.operators) :
    ({ chan with operators := chan.operators.erase ptr } : Channel).isFull = false ↔
      ¬ (chan.hasUserLimit = true ∧ chan.occupants.length = chan.userLimit + 1) := by
  have hlen := UnorderedSet.length_erase_of_mem h
  rw [isFull_eq_false_iff, not_and]
  simp only [occupants, List.length_append]
  exact forall_congr' fun _ ↦ by omega

/-- A demoted operator becomes a member, and nothing else changes, exactly when the channel
has no key, is open to all, and is not full once the operator is removed. -/
theorem operatorToMember_iff (hop : ptr ∈ chan.operators) (hmem : ptr ∉ chan.members) :
    chan.operatorToMember ptr client = some { chan with
        operators := chan.operators.erase ptr
        members := chan.members.insert ptr } ↔
      chan.hasKey = false ∧ chan.inviteOnly = false ∧
        ¬ (chan.hasUserLimit = true ∧ chan.occupants.length = chan.userLimit + 1) := by
  rw [operatorToMember_of_mem hop, addMember_eq, ← isFull_eraseOperator hop, Option.some.injEq]
  constructor
  · intro h
    split at h
    · rename_i hlet
      obtain ⟨hkey, hfull, hinvited⟩ := hlet
      refine ⟨hkey, Bool.eq_false_iff.mpr ?_, hfull⟩
      intro hi
      -- letting in an invited client would use up its invitation
      have hinvites := congrArg Channel.pendingInvites h
      simp only [seat, hi, if_true] at hinvites
      exact UnorderedSet.erase_ne_self (hinvited hi) hinvites
    · have hmembers : chan.members = chan.members.insert ptr := congrArg Channel.members h
      exact absurd hmembers.symm (UnorderedSet.insert_ne_self hmem)
  · rintro ⟨hkey, hopen, hfull⟩
    have hadmits : ({ chan with operators := chan.operators.erase ptr } : Channel).Admits client :=
      ⟨hfull, fun hi ↦ absurd (hopen.symm.trans hi) Bool.false_ne_true⟩
    rw [if_pos ⟨hkey, hadmits⟩]
    simp [seat, hopen]

theorem operatorToMember_iff_founder : founded.operatorToMember founder {} = some { founded with
        operators := founded.operators.erase founder
        members := founded.members.insert founder } ↔
      founded.hasKey = false ∧ founded.inviteOnly = false ∧
        ¬ (founded.hasUserLimit = true ∧ founded.occupants.length = founded.userLimit + 1) :=
  operatorToMember_iff (by decide) (by decide)

/-- On a channel with a key, the demoted creator is in neither set. -/
theorem operatorToMember_ejects_founder :
    channelSystem.Valid founded [.changeMode Mode.HAS_KEY true] ∧
      ¬ ∀ chan, chan = channelSystem.run founded [.changeMode Mode.HAS_KEY true] →
        founder ∈ chan.operators → founder ∉ chan.members →
          chan.operatorToMember founder {} = some { chan with
            operators := chan.operators.erase founder
            members := chan.members.insert founder } := by
  refine ⟨by decide, ?_⟩
  intro h
  have hmembers := congrArg (Option.map fun chan ↦ chan.members.elems)
    (h _ rfl (by decide) (by decide))
  exact absurd hmembers (by decide)

/-! ## Clients that are not there -/

/-- Becoming an operator changes the channel, unless it is full. -/
theorem addOperator_eq_self_iff (hop : ptr ∉ chan.operators) :
    chan.addOperator ptr = chan ↔ chan.isFull = true := by
  cases hf : chan.isFull with
  | true => exact iff_of_true (addOperator_of_isFull hf) rfl
  | false =>
      rw [addOperator_of_not_isFull hf]
      refine iff_of_false ?_ Bool.false_ne_true
      exact fun h ↦ UnorderedSet.insert_ne_self hop (congrArg Channel.operators h)

theorem seat_ne_self (hmem : ptr ∉ chan.members) : chan.seat ptr client ≠ chan :=
  fun h ↦ UnorderedSet.insert_ne_self hmem (congrArg Channel.members h)

/-- Becoming a member changes the channel, unless one is refused. -/
theorem addMember_eq_self_iff (hmem : ptr ∉ chan.members) :
    chan.addMember ptr client = chan ↔ ¬ (chan.hasKey = false ∧ chan.Admits client) := by
  rw [addMember_eq]
  split
  · rename_i hlet
    exact iff_of_false (seat_ne_self hmem) (fun h ↦ h hlet)
  · rename_i hlet
    exact iff_of_true rfl hlet

/-- No removal of a client that is not in the set leaves the channel as it is: the end
iterator is erased.  Were this harmless, the second half of a role change would still let
in an outsider wherever the insertion is not refused. -/
theorem not_safe_of_absent (chan : Channel) (ptr : ClientPtr) (client : Client) :
    (ptr ∉ chan.members →
      chan.removeMember ptr ≠ some chan ∧ chan.memberToOperator ptr ≠ some chan) ∧
    (ptr ∉ chan.operators →
      chan.removeOperator ptr ≠ some chan ∧ chan.operatorToMember ptr client ≠ some chan) ∧
    (ptr ∉ chan.occupants →
      (chan.addOperator ptr = chan ↔ chan.isFull = true) ∧
      (chan.addMember ptr client = chan ↔ ¬ (chan.hasKey = false ∧ chan.Admits client))) := by
  refine ⟨?_, ?_, ?_⟩
  · intro hmem
    have hnone : chan.removeMember ptr = none := if_neg hmem
    refine ⟨hnone ▸ (Option.some_ne_none chan).symm, ?_⟩
    rw [memberToOperator, hnone]
    exact (Option.some_ne_none chan).symm
  · intro hop
    have hnone : chan.removeOperator ptr = none := if_neg hop
    refine ⟨hnone ▸ (Option.some_ne_none chan).symm, ?_⟩
    rw [operatorToMember, hnone]
    exact (Option.some_ne_none chan).symm
  · intro hout
    constructor
    · exact addOperator_eq_self_iff fun h ↦ hout (List.mem_append_left _ h)
    · exact addMember_eq_self_iff fun h ↦ hout (List.mem_append_right _ h)

/-- A client that is not in the channel of its founder is promoted. -/
theorem memberToOperator_outsider :
    ¬ ∀ (chan : Channel) (ptr : ClientPtr), ptr ∉ chan.members →
      chan.memberToOperator ptr = some chan := by
  intro h
  have hsome := h founded ⟨5, 1⟩ (by decide)
  exact absurd (congrArg Option.isSome hsome) (by decide)

end Channel

end IrcServer
