import IrcServer.Roles

/-!
# Admission

The two overloads of `addMember` repeat one sequence of checks and differ in what they ask
of the key: without a key, that the channel has none; with one, that it is the channel's,
whether or not the channel has one.  The second test turns away those who bring a key to a
channel that does not ask for it (`admissionRule_iff`).

Both overloads use up the invitation before they try to insert the client, so that a client
who is in the channel already loses its invitation for nothing (`atomic_iff`).
-/

namespace IrcServer

open Library

namespace Channel

/-- The overload that is called with a key or without one. -/
def offer (chan : Channel) (ptr : ClientPtr) (client : Client) : Option Bytes → Channel
  | none => chan.addMember ptr client
  | some key => chan.addMemberWithKey ptr client key

/-- What the overloads ask of the key. -/
def Accepts (chan : Channel) : Option Bytes → Prop
  | none => chan.hasKey = false
  | some key => chan.key = key

variable {chan : Channel} {ptr : ClientPtr} {client : Client} {key? : Option Bytes}

instance (chan : Channel) : (key? : Option Bytes) → Decidable (chan.Accepts key?)
  | none => inferInstanceAs (Decidable (chan.hasKey = false))
  | some key => inferInstanceAs (Decidable (chan.key = key))

/-- Both overloads are one function of the test they make of the key. -/
theorem offer_eq (chan : Channel) (ptr : ClientPtr) (client : Client) (key? : Option Bytes) :
    chan.offer ptr client key? =
      if chan.Accepts key? ∧ chan.Admits client then chan.seat ptr client else chan := by
  cases key? with
  | none => exact chan.addMember_eq ptr client
  | some key => exact chan.addMemberWithKey_eq ptr client key

@[simp] theorem name_offer : (chan.offer ptr client key?).name = chan.name := by
  rw [offer_eq]
  split <;> rfl

theorem admits_iff : chan.Admits client ↔ chan.isFull = false ∧
    (chan.inviteOnly = false ∨ client.username ∈ chan.pendingInvites) := by
  constructor
  · intro h
    refine ⟨h.notFull, ?_⟩
    cases hi : chan.inviteOnly with
    | false => exact Or.inl rfl
    | true => exact Or.inr (h.invited hi)
  · rintro ⟨hfull, hopen | hinvited⟩
    · exact ⟨hfull, fun hi ↦ absurd (hopen.symm.trans hi) Bool.false_ne_true⟩
    · exact ⟨hfull, fun _ ↦ hinvited⟩

/-- Somebody who is not a member is one afterwards exactly when the overload lets it in. -/
theorem mem_members_offer_iff (hmem : ptr ∉ chan.members) :
    ptr ∈ (chan.offer ptr client key?).members ↔ chan.Accepts key? ∧ chan.Admits client := by
  rw [offer_eq]
  split
  · rename_i hlet
    exact iff_of_true (UnorderedSet.mem_insert_self ptr _) hlet
  · rename_i hlet
    exact iff_of_false hmem hlet

/-! ## The rule for the key -/

/-- The rule of admission: a key is needed, and asked for, where the channel has one. -/
structure AdmissionRule (chan : Channel) (ptr : ClientPtr) (client : Client)
    (key? : Option Bytes) : Prop where
  admitted_iff : ptr ∈ (chan.offer ptr client key?).members ↔
    (chan.hasKey = false ∨ key? = some chan.key) ∧ chan.isFull = false ∧
      (chan.inviteOnly = false ∨ client.username ∈ chan.pendingInvites)
  keyless : chan.hasKey = false →
    chan.offer ptr client key? = chan.offer ptr client none

/-- A key other than the stored one, brought to a channel that has no key mode and would let
the client in. -/
def WrongKeyForNone (chan : Channel) (client : Client) (key? : Option Bytes) : Prop :=
  (∃ key, key? = some key ∧ key ≠ chan.key) ∧ chan.hasKey = false ∧ chan.Admits client

/-- The two tests of the key agree but for such a key. -/
theorem accepts_iff (h : chan.hasKey = true ∨ ¬ ∃ key, key? = some key ∧ key ≠ chan.key) :
    chan.Accepts key? ↔ chan.hasKey = false ∨ key? = some chan.key := by
  cases key? with
  | none => simp [Accepts]
  | some key =>
      have hright : chan.key = key ↔ chan.hasKey = false ∨ some key = some chan.key := by
        rcases h with hkey | hsame
        · simp [hkey, eq_comm]
        · have heq : chan.key = key := by
            by_contra hne
            exact hsame ⟨key, rfl, Ne.symm hne⟩
          simp [heq]
      exact hright

/-- An outsider is admitted by the rule, and on a channel without key mode alike by both
overloads, exactly when it does not bring a wrong key to an open door. -/
theorem admissionRule_iff (hmem : ptr ∉ chan.members) :
    chan.AdmissionRule ptr client key? ↔ ¬ chan.WrongKeyForNone client key? := by
  constructor
  · rintro h ⟨⟨key, rfl, hne⟩, hkey, hadmits⟩
    have hlet := h.admitted_iff.mpr ⟨Or.inl hkey, admits_iff.mp hadmits⟩
    rw [mem_members_offer_iff hmem] at hlet
    exact hne hlet.1.symm
  · intro hnot
    have hsame (hadmits : chan.Admits client) :
        chan.hasKey = true ∨ ¬ ∃ key, key? = some key ∧ key ≠ chan.key := by
      by_cases hkey : chan.hasKey = true
      · exact Or.inl hkey
      · exact Or.inr fun hwrong ↦ hnot ⟨hwrong, Bool.eq_false_iff.mpr hkey, hadmits⟩
    constructor
    · rw [mem_members_offer_iff hmem, ← admits_iff]
      exact and_congr_left fun hadmits ↦ accepts_iff (hsame hadmits)
    · intro hkey
      rw [offer_eq, offer_eq]
      congr 1
      apply propext
      refine and_congr_left fun hadmits ↦ ?_
      rw [accepts_iff (hsame hadmits)]
      exact iff_of_true (Or.inl hkey) hkey

/-- A client brings a key to the channel of its founder, the key that is stored. -/
theorem admissionRule_iff_founded :
    founded.AdmissionRule ⟨5, 1⟩ {} (some []) ↔ ¬ founded.WrongKeyForNone {} (some []) :=
  admissionRule_iff (by decide)

/-- One that brings another key is turned away from an open channel. -/
theorem not_admissionRule_founded : ¬ ∀ (chan : Channel) (ptr : ClientPtr) (client : Client)
    (key? : Option Bytes), ptr ∉ chan.members → ptr ∉ chan.operators →
      chan.AdmissionRule ptr client key? := by
  intro h
  have hkeyless := (h founded ⟨5, 1⟩ {} (some (lit "k")) (by decide) (by decide)).keyless rfl
  exact absurd (congrArg (fun chan ↦ chan.members.elems) hkeyless) (by decide)

/-! ## The invitation -/

/-- A call lets in somebody new and uses up its invitation where one is needed, or leaves
the channel as it was. -/
def Atomic (chan : Channel) (ptr : ClientPtr) (client : Client) (key? : Option Bytes) : Prop :=
  ptr ∉ chan.members ∧ chan.offer ptr client key? = chan.seat ptr client ∨
    chan.offer ptr client key? = chan

/-- A member joins again, with an invitation and all that is asked for. -/
def InvitedAgain (chan : Channel) (ptr : ClientPtr) (client : Client) (key? : Option Bytes) :
    Prop :=
  ptr ∈ chan.members ∧ chan.inviteOnly = true ∧ chan.Accepts key? ∧ chan.Admits client

/-- Letting in a member changes nothing but the invitations. -/
theorem seat_of_mem (hmem : ptr ∈ chan.members) : chan.seat ptr client = { chan with
    pendingInvites := if chan.inviteOnly then chan.pendingInvites.erase client.username
      else chan.pendingInvites } := by
  rw [seat, UnorderedSet.insert_of_mem hmem]

/-- Every call of either overload adds somebody or changes nothing, but for a member that
joins again by an invitation. -/
theorem atomic_iff (chan : Channel) (ptr : ClientPtr) (client : Client) (key? : Option Bytes) :
    chan.Atomic ptr client key? ↔ ¬ chan.InvitedAgain ptr client key? := by
  rw [Atomic, offer_eq]
  constructor
  · rintro (⟨hnew, -⟩ | hsame) ⟨hmem, hi, haccepts, hadmits⟩
    · exact hnew hmem
    · rw [if_pos ⟨haccepts, hadmits⟩, seat_of_mem hmem, if_pos hi] at hsame
      have hinvites := congrArg Channel.pendingInvites hsame
      exact UnorderedSet.erase_ne_self (hadmits.invited hi) hinvites
  · intro hnot
    split
    · rename_i hlet
      by_cases hmem : ptr ∈ chan.members
      · right
        have hopen : ¬ chan.inviteOnly = true := fun hi ↦ hnot ⟨hmem, hi, hlet⟩
        rw [seat_of_mem hmem, if_neg hopen]
      · exact Or.inl ⟨hmem, rfl⟩
    · exact Or.inr rfl

/-- A member with an invitation joins an invite-only channel again and loses it. -/
theorem not_atomic_invited : ¬ ∀ (chan : Channel) (ptr : ClientPtr) (client : Client)
    (key? : Option Bytes), chan.Atomic ptr client key? := by
  intro h
  have hatomic := h { founded with
    inviteOnly := true
    members := (∅ : UnorderedSet ClientPtr).insert ⟨5, 1⟩
    pendingInvites := (∅ : UnorderedSet Bytes).insert (lit "bob") } ⟨5, 1⟩
    { username := lit "bob" } none
  rcases hatomic with ⟨hnew, -⟩ | hsame
  · exact hnew (by decide)
  · exact absurd (congrArg (fun chan ↦ chan.pendingInvites.elems) hsame) (by decide)

end Channel

end IrcServer
