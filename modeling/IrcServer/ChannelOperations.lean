import IrcServer.Server
import IrcServer.Library.Transition

/-!
# Channel operations

The public operations of `Channel`, and the channel as a transition system: a run is any
sequence of them, on any clients.

`removeMember` and `removeOperator` erase what `find` returned.  For a client that is not
in the set this is the end iterator, and erasing it is undefined; the model has no
result then, and a run contains no such call.
-/

namespace IrcServer

open Library

/-! ## `mode::allModes` -/

namespace Mode

/-- `'i'` -/
abbrev INVITE_ONLY : UInt8 := 105
/-- `'t'` -/
abbrev PROTECTED_TOPIC : UInt8 := 116
/-- `'k'` -/
abbrev HAS_KEY : UInt8 := 107
/-- `'l'` -/
abbrev HAS_USER_LIMIT : UInt8 := 108

end Mode

namespace Channel

/-! ## The operations -/

def setName (chan : Channel) (name : Bytes) : Channel :=
  if name.isEmpty then chan else { chan with name := name }

def setUserLimit (chan : Channel) (limit : Nat) : Channel :=
  if !chan.hasUserLimit then chan
  else if chan.members.elems.length + chan.operators.elems.length > limit then chan
  else { chan with userLimit := limit }

def addOperator (chan : Channel) (ptr : ClientPtr) : Channel :=
  if chan.isFull then chan else { chan with operators := chan.operators.insert ptr }

def removeMember (chan : Channel) (ptr : ClientPtr) : Option Channel :=
  if ptr ∈ chan.members then some { chan with members := chan.members.erase ptr } else none

def removeOperator (chan : Channel) (ptr : ClientPtr) : Option Channel :=
  if ptr ∈ chan.operators then some { chan with operators := chan.operators.erase ptr } else none

def memberToOperator (chan : Channel) (ptr : ClientPtr) : Option Channel :=
  (chan.removeMember ptr).map (·.addOperator ptr)

def operatorToMember (chan : Channel) (ptr : ClientPtr) (client : Client) : Option Channel :=
  (chan.removeOperator ptr).map (·.addMember ptr client)

def changeMode (chan : Channel) (mode : UInt8) (value : Bool) : Channel :=
  if mode = Mode.INVITE_ONLY then { chan with inviteOnly := value }
  else if mode = Mode.PROTECTED_TOPIC then { chan with protectedTopic := value }
  else if mode = Mode.HAS_KEY then { chan with hasKey := value }
  else if mode = Mode.HAS_USER_LIMIT then { chan with hasUserLimit := value }
  else chan

/-- `Channel::Channel`. -/
def construct (name : Bytes) (creator : ClientPtr) : Channel :=
  ({ name := name } : Channel).addOperator creator

/-! ## Admission -/

/-- What both overloads of `addMember` ask of a client once the key is accepted. -/
structure Admits (chan : Channel) (client : Client) : Prop where
  notFull : chan.isFull = false
  invited : chan.inviteOnly = true → client.username ∈ chan.pendingInvites

variable {chan : Channel} {ptr : ClientPtr} {client : Client}

instance : Decidable (chan.Admits client) :=
  decidable_of_iff (chan.isFull = false ∧
      (chan.inviteOnly = true → client.username ∈ chan.pendingInvites))
    ⟨fun h ↦ ⟨h.1, h.2⟩, fun h ↦ ⟨h.1, h.2⟩⟩

/-- The channel with a client let in: the invitation is used up where one is needed. -/
def seat (chan : Channel) (ptr : ClientPtr) (client : Client) : Channel :=
  { chan with
    pendingInvites := if chan.inviteOnly then chan.pendingInvites.erase client.username
      else chan.pendingInvites
    members := chan.members.insert ptr }

theorem letIn_eq (chan : Channel) (ptr : ClientPtr) (client : Client) :
    chan.letIn ptr client = if chan.Admits client then chan.seat ptr client else chan := by
  by_cases h : chan.Admits client
  · rw [if_pos h]
    cases hi : chan.inviteOnly with
    | true => simp [letIn, seat, h.notFull, hi, h.invited hi]
    | false => simp [letIn, seat, h.notFull, hi]
  · rw [if_neg h]
    cases hf : chan.isFull with
    | true => simp [letIn, hf]
    | false =>
        have hinvited : ¬ (chan.inviteOnly = true → client.username ∈ chan.pendingInvites) :=
          fun hi ↦ h ⟨hf, hi⟩
        obtain ⟨hi, hnot⟩ := Classical.not_imp.mp hinvited
        simp [letIn, hf, hi, hnot]

theorem addMember_eq (chan : Channel) (ptr : ClientPtr) (client : Client) :
    chan.addMember ptr client =
      if chan.hasKey = false ∧ chan.Admits client then chan.seat ptr client else chan := by
  rw [addMember, letIn_eq]
  cases chan.hasKey <;> simp

theorem addMemberWithKey_eq (chan : Channel) (ptr : ClientPtr) (client : Client) (key : Bytes) :
    chan.addMemberWithKey ptr client key =
      if chan.key = key ∧ chan.Admits client then chan.seat ptr client else chan := by
  rw [addMemberWithKey, letIn_eq]
  by_cases h : chan.key = key <;> simp [h]

theorem isFull_eq_false_iff : chan.isFull = false ↔
    (chan.hasUserLimit = true → chan.occupants.length ≠ chan.userLimit) := by
  cases h : chan.hasUserLimit <;> simp [isFull, occupants, h, Nat.add_comm]

theorem addOperator_of_isFull (h : chan.isFull = true) : chan.addOperator ptr = chan := if_pos h

theorem addOperator_of_not_isFull (h : chan.isFull = false) :
    chan.addOperator ptr = { chan with operators := chan.operators.insert ptr } := by
  simp [addOperator, h]

theorem removeMember_of_mem (h : ptr ∈ chan.members) :
    chan.removeMember ptr = some { chan with members := chan.members.erase ptr } := if_pos h

theorem removeOperator_of_mem (h : ptr ∈ chan.operators) :
    chan.removeOperator ptr = some { chan with operators := chan.operators.erase ptr } := if_pos h

theorem isSome_removeMember : (chan.removeMember ptr).isSome = true ↔ ptr ∈ chan.members := by
  unfold removeMember
  split <;> simp_all

theorem isSome_removeOperator :
    (chan.removeOperator ptr).isSome = true ↔ ptr ∈ chan.operators := by
  unfold removeOperator
  split <;> simp_all

theorem memberToOperator_of_mem (h : ptr ∈ chan.members) : chan.memberToOperator ptr =
    some (({ chan with members := chan.members.erase ptr } : Channel).addOperator ptr) := by
  rw [memberToOperator, removeMember_of_mem h, Option.map_some]

theorem operatorToMember_of_mem (h : ptr ∈ chan.operators) : chan.operatorToMember ptr client =
    some (({ chan with operators := chan.operators.erase ptr } : Channel).addMember ptr client) := by
  rw [operatorToMember, removeOperator_of_mem h, Option.map_some]

theorem isSome_memberToOperator :
    (chan.memberToOperator ptr).isSome = true ↔ ptr ∈ chan.members := by
  rw [memberToOperator, Option.isSome_map, isSome_removeMember]

theorem isSome_operatorToMember :
    (chan.operatorToMember ptr client).isSome = true ↔ ptr ∈ chan.operators := by
  rw [operatorToMember, Option.isSome_map, isSome_removeOperator]

/-! The calls that leave both sets alone. -/

section Settings

variable (chan : Channel)

theorem setName_sets (name : Bytes) : (chan.setName name).operators = chan.operators ∧
    (chan.setName name).members = chan.members := by
  unfold setName
  split <;> exact ⟨rfl, rfl⟩

theorem setTopic_sets (topic : Bytes) (ptr : ClientPtr) :
    (chan.setTopic topic ptr).operators = chan.operators ∧
      (chan.setTopic topic ptr).members = chan.members := by
  unfold setTopic
  split <;> exact ⟨rfl, rfl⟩

theorem setUserLimit_sets (limit : Nat) : (chan.setUserLimit limit).operators = chan.operators ∧
    (chan.setUserLimit limit).members = chan.members := by
  unfold setUserLimit
  split
  · exact ⟨rfl, rfl⟩
  · split <;> exact ⟨rfl, rfl⟩

theorem changeMode_sets (mode : UInt8) (value : Bool) :
    (chan.changeMode mode value).operators = chan.operators ∧
      (chan.changeMode mode value).members = chan.members := by
  unfold changeMode
  repeat' split
  all_goals exact ⟨rfl, rfl⟩

end Settings

end Channel

/-! ## The channel as a transition system -/

/-- A call of a public member function, with the client the reference is to. -/
inductive ChannelOp where
  | setName (name : Bytes)
  | setTopic (topic : Bytes) (ptr : ClientPtr)
  | setUserLimit (limit : Nat)
  | addMember (ptr : ClientPtr) (client : Client)
  | addMemberWithKey (ptr : ClientPtr) (client : Client) (key : Bytes)
  | addOperator (ptr : ClientPtr)
  | removeMember (ptr : ClientPtr)
  | removeOperator (ptr : ClientPtr)
  | memberToOperator (ptr : ClientPtr)
  | operatorToMember (ptr : ClientPtr) (client : Client)
  | changeMode (mode : UInt8) (value : Bool)

namespace ChannelOp

/-- The channel after the call, when the call is defined. -/
def apply (chan : Channel) : ChannelOp → Option Channel
  | setName name => some (chan.setName name)
  | setTopic topic ptr => some (chan.setTopic topic ptr)
  | setUserLimit limit => some (chan.setUserLimit limit)
  | addMember ptr client => some (chan.addMember ptr client)
  | addMemberWithKey ptr client key => some (chan.addMemberWithKey ptr client key)
  | addOperator ptr => some (chan.addOperator ptr)
  | removeMember ptr => chan.removeMember ptr
  | removeOperator ptr => chan.removeOperator ptr
  | memberToOperator ptr => chan.memberToOperator ptr
  | operatorToMember ptr client => chan.operatorToMember ptr client
  | changeMode mode value => some (chan.changeMode mode value)

end ChannelOp

/-- Removals and role changes are called for clients in the set they remove from. -/
def channelSystem : System Channel ChannelOp where
  enabled chan op := (op.apply chan).isSome = true
  step chan op := (op.apply chan).getD chan

instance (chan : Channel) (op : ChannelOp) : Decidable (channelSystem.enabled chan op) :=
  inferInstanceAs (Decidable ((op.apply chan).isSome = true))

section Step

open Channel

variable {chan : Channel} {ptr : ClientPtr} {client : Client}

theorem step_removeMember (h : ptr ∈ chan.members) : channelSystem.step chan (.removeMember ptr) =
    { chan with members := chan.members.erase ptr } :=
  congrArg (Option.getD · chan) (removeMember_of_mem h)

theorem step_removeOperator (h : ptr ∈ chan.operators) :
    channelSystem.step chan (.removeOperator ptr) =
      { chan with operators := chan.operators.erase ptr } :=
  congrArg (Option.getD · chan) (removeOperator_of_mem h)

theorem step_memberToOperator (h : ptr ∈ chan.members) :
    channelSystem.step chan (.memberToOperator ptr) =
      ({ chan with members := chan.members.erase ptr } : Channel).addOperator ptr :=
  congrArg (Option.getD · chan) (memberToOperator_of_mem h)

theorem step_operatorToMember (h : ptr ∈ chan.operators) :
    channelSystem.step chan (.operatorToMember ptr client) =
      ({ chan with operators := chan.operators.erase ptr } : Channel).addMember ptr client :=
  congrArg (Option.getD · chan) (operatorToMember_of_mem h)

end Step

end IrcServer
