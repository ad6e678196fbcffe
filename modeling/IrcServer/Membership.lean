import IrcServer.Runs

/-!
# Channel membership and the life of clients

Channels keep pointers to clients that the client map owns.  Processing lines and
accepting connections keep all of these pointers alive, whatever the channels are; but
`clearClient` erases a client without taking it out of its channels, and leaves them
with a dangling pointer (`sound_iff_of_operation`), which the next `TOPIC`, `NAMES` or
broadcast dereferences.
-/

namespace IrcServer

open Library Commands

/-- The descriptor of somebody in a channel. -/
def Server.Occupies (s : Server) (fd : Int) : Prop :=
  ∃ k chan, s.channels.lookup k = some chan ∧ ∃ p ∈ chan.occupants, p.fd = fd

namespace Server

variable {s : Server} {fd : Int}

/-- A write that does not replace clients keeps the pointers to them. -/
theorem sound_modify {f : Client → Client} (hf : ∀ c, (f c).serial = c.serial) :
    (s.modify fd f).Sound ↔ s.Sound := by
  have hderef (p : ClientPtr) : ((s.modify fd f).deref p).isSome ↔ (s.deref p).isSome := by
    rw [isSome_deref_iff, isSome_deref_iff]
    exact iff_of_eq (congrArg (· = _) (lookup_modify_map hf s fd p.fd))
  exact forall₃_congr fun k chan _ ↦ forall₂_congr fun p _ ↦ hderef p

theorem Sound.modify (h : s.Sound) {f : Client → Client} (hf : ∀ c, (f c).serial = c.serial) :
    (s.modify fd f).Sound := (sound_modify hf).mpr h

theorem Sound.insert (h : s.Sound) (fd : Int) (c : Client) : (s.insert fd c).Sound := by
  by_cases hfd : fd ∈ s.clients
  · rw [Server.insert, if_pos hfd]
    exact h
  · intro k chan hk p hp
    rw [channels_insert] at hk
    have hlive := isSome_deref_iff.mp (h k chan hk p hp)
    have hne : p.fd ≠ fd := by
      rintro rfl
      rw [AList.lookup_eq_none.mpr hfd] at hlive
      cases hlive
    exact isSome_deref_iff.mpr ((lookup_insert_of_ne hne).symm ▸ hlive)

/-- Clearing a client keeps the other pointers, and these only. -/
theorem sound_clearClient (h : s.Sound) : (s.clearClient fd).Sound ↔ ¬ s.Occupies fd := by
  constructor
  · rintro hs ⟨k, chan, hk, p, hp, rfl⟩
    have hlive := isSome_deref_iff.mp (hs k chan hk p hp)
    rw [show (s.clearClient p.fd).clients.lookup p.fd = none from AList.lookup_erase _ _] at hlive
    cases hlive
  · intro hnone k chan hk p hp
    have hne : p.fd ≠ fd := fun he ↦ hnone ⟨k, chan, hk, p, hp, he⟩
    have hlive := isSome_deref_iff.mp (h k chan hk p hp)
    refine isSome_deref_iff.mpr ?_
    rw [show (s.clearClient fd).clients.lookup p.fd = s.clients.lookup p.fd from
      AList.lookup_erase_ne hne]
    exact hlive

end Server

namespace LineEffect

variable {s s' : Server} {fd : Int} {cmd : Parser}

/-- Lines keep the pointers alive. -/
theorem sound (h : LineEffect s fd cmd s') (hs : s.Sound) : s'.Sound := by
  cases h with
  | silent _ => exact hs
  | answered m _ hm => exact (Talks.reply s fd hm).sound_iff.mpr hs
  | marked m _ hm =>
      rw [Server.reply, Server.modify_modify]
      exact hs.modify fun _ ↦ rfl
  | authenticated _ => exact hs.modify fun _ ↦ rfl
  | renamed n _ =>
      apply hs.modify
      intro c
      simp [Client.renamed_eq]
  | introduced u r _ =>
      apply hs.modify
      intro c
      simp [Client.introduced_eq]
  | forwarded d t m _ => exact (Talks.reply s d rfl).sound_iff.mpr hs
  | announced _ _ h _ => exact h.sound_iff.mpr hs

/-- Lines dereference live pointers only. -/
theorem dangling (h : LineEffect s fd cmd s') (hs : s.Sound) : s'.dangling = s.dangling := by
  cases h with
  | announced _ _ h _ => exact h.dangling hs
  | _ => rfl

end LineEffect

namespace Server

variable {s : Server} {fd : Int}

theorem sound_serveLine (h : s.Sound) (fd : Int) :
    (s.serveLine fd).Sound ∧ (s.serveLine fd).dangling = s.dangling := by
  have heff := s.lineEffect fd
  rw [serveLine_eq]
  constructor
  · apply (heff.sound h).modify
    intro c
    rw [Client.takeCommand_eq]
    rfl
  · rw [dangling_takeCommand]
    exact heff.dangling h

theorem sound_drain (n : Nat) (h : s.Sound) (fd : Int) :
    (s.drain n fd).Sound ∧ (s.drain n fd).dangling = s.dangling := by
  induction n generalizing s with
  | zero => exact ⟨h, rfl⟩
  | succ n ih =>
      rw [drain]
      split
      · obtain ⟨hs, hd⟩ := sound_serveLine h fd
        obtain ⟨hs', hd'⟩ := ih hs
        exact ⟨hs', hd'.trans hd⟩
      · exact ⟨h, rfl⟩

end Server

/-! ## Operations -/

/-- What the poll loop calls. -/
inductive Operation where
  | acceptClient (incoming : Incoming)
  | receiveData (fd : Int) (received : Except Errno Bytes)
  | clearClient (fd : Int)

namespace Operation

def apply (s : Server) : Operation → Server
  | acceptClient incoming => s.acceptClient incoming
  | receiveData fd received => s.receiveData fd received
  | clearClient fd => s.clearClient fd

/-- The client the operation clears: the end of its stream and an error of `recv` other
than a temporary one clear it. -/
def cleared : Operation → Option Int
  | clearClient fd => some fd
  | receiveData fd (.ok []) => some fd
  | receiveData fd (.error .other) => some fd
  | _ => none

end Operation

/-- In every sound state, whatever the channels are, no operation dereferences a dangling
pointer, and the state after it is sound if and only if it does not clear a client that is
in a channel. -/
theorem sound_iff_of_operation {s : Server} (hs : s.Sound) (op : Operation) :
    (op.apply s).dangling = s.dangling ∧
      ((op.apply s).Sound ↔ ∀ fd ∈ op.cleared, ¬ s.Occupies fd) := by
  have hclear (fd : Int) : (s.clearClient fd).Sound ↔ ∀ d ∈ some fd, ¬ s.Occupies d := by
    rw [Server.sound_clearClient hs]
    simp
  have hnone (h : (op.apply s).Sound) (hc : op.cleared = none) :
      (op.apply s).Sound ↔ ∀ fd ∈ op.cleared, ¬ s.Occupies fd := by
    rw [hc]
    exact iff_of_true h (by simp)
  cases op with
  | acceptClient incoming =>
      cases incoming with
      | connected fd address =>
          exact ⟨Server.dangling_insert s fd _, hnone (hs.insert fd _) rfl⟩
      | acceptFailed | fcntlFailed | ntopFailed => exact ⟨rfl, hnone hs rfl⟩
  | receiveData fd received =>
      match received with
      | .ok [] => exact ⟨rfl, hclear fd⟩
      | .error .other => exact ⟨rfl, hclear fd⟩
      | .error .again => exact ⟨rfl, hnone hs rfl⟩
      | .error .wouldBlock => exact ⟨rfl, hnone hs rfl⟩
      | .error .interrupted => exact ⟨rfl, hnone hs rfl⟩
      | .ok (b :: bs) =>
          have htouch : (s.touch fd).Sound := hs.insert fd _
          have hin : ((s.touch fd).modify fd
              (·.appendToReadBuffer (cString (b :: bs)))).Sound := htouch.modify fun _ ↦ rfl
          obtain ⟨hsound, hdangling⟩ := Server.sound_drain _ hin fd
          exact ⟨hdangling.trans (Server.dangling_insert s fd _), hnone hsound rfl⟩
  | clearClient fd => exact ⟨rfl, hclear fd⟩

/-- Two registered clients in a channel. -/
def meeting : Server where
  password := lit "pw"
  serverSocket := 3
  clients := ((∅ : UnorderedMap Int Client).emplace 4
    { nickname := lit "ann", username := lit "a", isAuthenticated := true }).emplace 5
    { nickname := lit "bob", username := lit "b", isAuthenticated := true, serial := 1 }
  channels := (∅ : UnorderedMap Nat Channel).emplace 0
    { name := lit "#c", members := (∅ : UnorderedSet ClientPtr).insert ⟨5, 1⟩,
      operators := (∅ : UnorderedSet ClientPtr).insert ⟨4, 0⟩ }
  nextSerial := 2

theorem eq_zero_of_lookup_meeting {k : Nat} {chan : Channel}
    (h : meeting.channels.lookup k = some chan) : k = 0 := by
  by_contra hk
  have hnone : meeting.channels.lookup k = none := UnorderedMap.lookup_emplace_of_ne hk
  cases hnone.symm.trans h

theorem lookup_meeting {k : Nat} {chan : Channel} (h : meeting.channels.lookup k = some chan) :
    chan.occupants = [⟨4, 0⟩, ⟨5, 1⟩] := by
  obtain rfl := eq_zero_of_lookup_meeting h
  have hchan := (UnorderedMap.lookup_emplace_self (AList.notMem_empty 0)).symm.trans h
  rw [← Option.some.inj hchan]
  rfl

theorem sound_meeting : meeting.Sound := by
  intro k chan hk p hp
  rw [lookup_meeting hk] at hp
  simp only [List.mem_cons, List.not_mem_nil, or_false] at hp
  rcases hp with rfl | rfl
  · decide
  · decide

/-- One of the two sets the topic. -/
theorem sound_iff_of_operation_topic :
    let op := Operation.receiveData 5 (.ok (lit "TOPIC #c :hi\n"))
    (op.apply meeting).dangling = false ∧
      ((op.apply meeting).Sound ↔ ∀ fd ∈ op.cleared, ¬ meeting.Occupies fd) :=
  sound_iff_of_operation sound_meeting _

/-- One of the two leaves: its pointer stays in the channel, and the other's `TOPIC`
dereferences it. -/
theorem not_sound_clearClient :
    meeting.Sound ∧ ¬ ((Operation.clearClient 5).apply meeting).Sound ∧
      (((Operation.clearClient 5).apply meeting).receiveData 4
        (.ok (lit "TOPIC #c :hi\n"))).dangling = true := by
  refine ⟨sound_meeting, ?_, by decide +kernel⟩
  intro h
  have hlive := h 0 _ (UnorderedMap.lookup_emplace_self (AList.notMem_empty 0)) ⟨5, 1⟩ (by decide)
  exact absurd hlive (by decide +kernel)

end IrcServer
