import IrcServer.Inbox
import IrcServer.Shutdown
import IrcServer.Library.Pace

/-!
# Progress

What has been appended to a write buffer is sent.  In a round in which the kernel obliges a
client, that is, `poll` reports `POLLOUT` for its entry if that is requested and `send` takes
something, at least one byte of its write buffer is taken, whatever the other clients do and
however many entries are removed before its own is visited.  So everything that has been
appended by now is sent after as many rounds as it has bytes, and one to complete the round
that is going on, and a client that is to be disconnected is, unless it is written to again
(`sent_of_rounds`).
-/

namespace IrcServer

open Library

namespace PollLoop

/-- The kernel does its part for the client with this descriptor. -/
def Obliges (d : Int) (σ : PollLoop) : PollEvent → Prop
  | .poll revents => ∀ j < σ.server.pollfds.length, ∀ p ∈ σ.server.pollfds[j]?, p.fd = d →
      p.wantsOut = true → (revents j).2 = true
  | .write sent => ∀ p ∈ σ.entry, p.fd = d → p.pollOut = true →
      (σ.server.client d).writeBuffer ≠ [] → 0 < sent
  | _ => True

instance (d : Int) (σ : PollLoop) : (e : PollEvent) → Decidable (σ.Obliges d e)
  | .poll _ => inferInstanceAs (Decidable (∀ _ < _, ∀ _ ∈ _, _ → _ → _))
  | .write _ => inferInstanceAs (Decidable (∀ _ ∈ _, _ → _ → _ → _))
  | .prepare | .read _ _ | .round | .rehash _ => isTrue trivial

/-- The entries that the loop after `poll` has not served yet. -/
def ahead (σ : PollLoop) : Option (List PollFd) :=
  match σ.phase with
  | .prepare _ => none
  | .read i | .write i => some (σ.server.pollfds.drop i)

theorem ahead_of_read {σ : PollLoop} {i : Nat} (h : σ.phase = .read i) :
    σ.ahead = some (σ.server.pollfds.drop i) := by rw [ahead, h]

theorem ahead_of_write {σ : PollLoop} {i : Nat} (h : σ.phase = .write i) :
    σ.ahead = some (σ.server.pollfds.drop i) := by rw [ahead, h]

/-- Of a connection, while it is there, the texts have been taken or are waiting to be, and a
byte of them has been taken in every round. -/
structure Owed (d : Int) (serial : Nat) (texts : Bytes) (sent k : Nat) (σ : PollLoop) : Prop where
  inStep : σ.server.InStep
  numbered : σ.Numbered
  prepared : σ.Prepared
  old : serial < σ.server.nextSerial
  /-- The texts are on their way. -/
  isPrefix : ∀ c, σ.server.clients.lookup d = some c → c.serial = serial →
    texts <+: σ.taken serial ++ c.writeBuffer
  /-- One byte is taken in every round but the first. -/
  length_le : ∀ c, σ.server.clients.lookup d = some c → c.serial = serial →
    min texts.length (sent + (k - 1)) ≤ (σ.taken serial).length
  /-- In the round that is going on it has been taken, or the client will be served. -/
  served : ∀ c, σ.server.clients.lookup d = some c → c.serial = serial →
    ∀ todo ∈ σ.ahead, min texts.length (sent + k) ≤ (σ.taken serial).length ∨
      ∃ p ∈ todo, p.fd = d ∧ p.pollOut = true

end PollLoop

/-! ## One step -/

section Step

variable {σ σ' : PollLoop} {d : Int} {serial : Nat} {texts : Bytes} {sent k : Nat}

/-- A connection that is there after a step was there before, and its texts are still on
their way. -/
theorem ClientEffect.taken_isPrefix {c' : Client} (h : ClientEffect σ σ' d c')
    (hold : c'.serial < σ.server.nextSerial) :
    ∃ c, σ.server.clients.lookup d = some c ∧ c.serial = c'.serial ∧
      σ.taken c.serial <+: σ'.taken c.serial ∧
      σ.taken c.serial ++ c.writeBuffer <+: σ'.taken c.serial ++ c'.writeBuffer := by
  cases h with
  | grown c _ hc hgrown htaken =>
      obtain ⟨ms, -, hbuffer⟩ := hgrown.appended
      refine ⟨c, hc, hgrown.serial.symm, htaken ▸ List.prefix_refl _, ?_⟩
      rw [htaken, hbuffer, ← List.append_assoc]
      exact List.prefix_append _ _
  | sent c hc n _ htaken =>
      refine ⟨c, hc, rfl, htaken ▸ List.prefix_append _ _, ?_⟩
      change _ <+: σ'.taken c.serial ++ c.writeBuffer.drop n
      rw [htaken, List.append_assoc, List.take_append_drop]
  | accepted address => exact absurd hold (lt_irrefl _)

/-- Where the entry of a client has been removed, the client has been. -/
theorem notMem_of_eraseP (h : σ.server.InStep) (h' : σ'.server.InStep)
    (hfds : σ'.server.pollfds = σ.server.pollfds.eraseP (·.fd == d)) : d ∉ σ'.server.clients := by
  intro hd
  obtain ⟨p, hp, rfl⟩ := h'.exists_pollFd hd
  have herase : σ'.server.pollfds.map PollFd.fd = (σ.server.pollfds.map PollFd.fd).erase p.fd := by
    rw [hfds, List.erase_eq_eraseP', List.eraseP_map]
    rfl
  exact h.nodup.not_mem_erase (herase ▸ List.mem_map_of_mem hp)

/-- What `send` takes of the client whose turn it is. -/
theorem taken_writeEntry (h : σ.server.InStep) {i : Nat} {p : PollFd} {c : Client}
    (hp : σ.server.pollfds[i]? = some p) (hout : p.pollOut = true)
    (hc : σ.server.clients.lookup p.fd = some c) (n : Int) :
    (σ.writeEntry i n).taken c.serial =
      σ.taken c.serial ++ c.writeBuffer.take (σ.server.sentLength p.fd n) := by
  have hfd : p.fd ∈ σ.server.clients := UnorderedMap.mem_iff_lookup.mpr ⟨c, hc⟩
  have hne : p.fd ≠ σ.server.serverSocket := fun heq ↦ h.listener (heq ▸ hfd)
  unfold PollLoop.writeEntry
  simp only [hp, hout, decide_eq_true hne, Bool.and_self, if_true, Server.touch_of_mem hfd,
    Server.takenBySend_eq, Server.client_eq hc]
  split <;> exact Function.update_self _ _ _

namespace PollLoop.Owed

/-- What has to be shown of a step. -/
theorem next {e : PollEvent} {l : Nat} (h : σ.Owed d serial texts sent k) (he : σ.enabled e)
    (hlength : ∀ c, σ.server.clients.lookup d = some c → c.serial = serial →
      min texts.length (sent + (l - 1)) ≤ (σ.taken serial).length)
    (hserved : ∀ c, σ.server.clients.lookup d = some c → c.serial = serial →
      d ∈ (σ.step e).server.clients → σ.taken serial <+: (σ.step e).taken serial →
      ∀ todo ∈ (σ.step e).ahead,
        min texts.length (sent + l) ≤ ((σ.step e).taken serial).length ∨
          ∃ p ∈ todo, p.fd = d ∧ p.pollOut = true) :
    (σ.step e).Owed d serial texts sent l := by
  have heffect := step_effect h.inStep he
  -- The client was there before.
  have hbefore {c' : Client} (hc' : (σ.step e).server.clients.lookup d = some c')
      (hserial : c'.serial = serial) : ∃ c, σ.server.clients.lookup d = some c ∧
        c.serial = serial ∧ σ.taken serial <+: (σ.step e).taken serial ∧
        σ.taken serial ++ c.writeBuffer <+: (σ.step e).taken serial ++ c'.writeBuffer := by
    subst hserial
    obtain ⟨c, hc, hsame, htaken, hboth⟩ := (heffect.client h.numbered hc').taken_isPrefix h.old
    rw [hsame] at htaken hboth
    exact ⟨c, hc, hsame, htaken, hboth⟩
  refine ⟨heffect.inStep h.inStep, h.numbered.step heffect, h.prepared.step h.inStep he,
    h.old.trans_le (nextSerial_le_step h.inStep he), ?_, ?_, ?_⟩
  · intro c' hc' hserial
    obtain ⟨c, hc, hsame, -, hboth⟩ := hbefore hc' hserial
    exact (h.isPrefix c hc hsame).trans hboth
  · intro c' hc' hserial
    obtain ⟨c, hc, hsame, htaken, -⟩ := hbefore hc' hserial
    exact (hlength c hc hsame).trans htaken.length_le
  · intro c' hc' hserial
    obtain ⟨c, hc, hsame, htaken, -⟩ := hbefore hc' hserial
    exact hserved c hc hsame (UnorderedMap.mem_iff_lookup.mpr ⟨c', hc'⟩) htaken

/-- Who was to be served still is, when none of its entries has been passed. -/
theorem served_of_subset (h : σ.Owed d serial texts sent k) {c : Client}
    (hc : σ.server.clients.lookup d = some c) (hserial : c.serial = serial)
    (htaken : σ.taken serial <+: σ'.taken serial) {todo todo' : List PollFd}
    (htodo : todo ∈ σ.ahead) (hsub : ∀ p ∈ todo, p.fd = d → p ∈ todo') :
    min texts.length (sent + k) ≤ (σ'.taken serial).length ∨
      ∃ p ∈ todo', p.fd = d ∧ p.pollOut = true := by
  rcases h.served c hc hserial todo htodo with hle | ⟨p, hp, hfd, hout⟩
  · exact Or.inl (hle.trans htaken.length_le)
  · exact Or.inr ⟨p, hsub p hp hfd, hfd, hout⟩

/-- All texts are sent when nothing is left in the buffer. -/
theorem length_le_of_empty (h : σ.Owed d serial texts sent k) {c : Client}
    (hc : σ.server.clients.lookup d = some c) (hserial : c.serial = serial)
    (hempty : c.writeBuffer = []) : texts.length ≤ (σ.taken serial).length := by
  have hprefix := h.isPrefix c hc hserial
  rw [hempty, List.append_nil] at hprefix
  exact hprefix.length_le

/-- `poll` reports the entry of a client that has something to be sent. -/
theorem step_poll (h : σ.Owed d serial texts sent k) {revents : Nat → Bool × Bool}
    (he : σ.enabled (.poll revents)) (ho : σ.Obliges d (.poll revents)) :
    (σ.step (.poll revents)).Owed d serial texts sent k := by
  refine h.next he h.length_le fun c hc hserial _ htaken todo htodo ↦ ?_
  by_cases hempty : c.writeBuffer = []
  · have hall := h.length_le_of_empty hc hserial hempty
    exact Or.inl ((min_le_left _ _).trans (hall.trans htaken.length_le))
  · right
    have hd : d ∈ σ.server.clients := UnorderedMap.mem_iff_lookup.mpr ⟨c, hc⟩
    obtain ⟨p, hp, rfl⟩ := h.inStep.exists_pollFd hd
    have hne : p.fd ≠ σ.server.serverSocket := fun heq ↦ h.inStep.listener (heq ▸ hd)
    have hwants : p.wantsOut = true := by
      rw [h.prepared.wantsOut he hp hne, Server.client_eq hc]
      simpa using hempty
    obtain ⟨j, hj, hget⟩ := List.mem_iff_getElem.mp hp
    have hget' : σ.server.pollfds[j]? = some p := hget ▸ List.getElem?_eq_getElem hj
    have hout := ho j hj p hget' rfl hwants
    have htodo' : todo = (σ.server.setRevents revents).pollfds := by
      obtain ⟨s, phase, taken⟩ := σ
      cases phase with
      | prepare i => exact (Option.some.inj htodo).symm
      | read | write => exact he.elim
    refine ⟨{ p with pollIn := (revents j).1, pollOut := (revents j).2 }, ?_, rfl, hout⟩
    rw [htodo']
    refine List.mem_iff_getElem?.mpr ⟨j, ?_⟩
    simp only [Server.setRevents, List.getElem?_mapIdx, hget', Option.map_some]

/-- The `POLLIN` part of a turn removes an entry, if any, and nobody who is served later. -/
theorem step_read (h : σ.Owed d serial texts sent k) {incoming : Incoming}
    {received : Except Errno Bytes} (he : σ.enabled (.read incoming received)) :
    (σ.step (.read incoming received)).Owed d serial texts sent k := by
  have hafter := (step_effect h.inStep he).inStep h.inStep
  obtain ⟨i, hphase, hi⟩ := phase_of_read he
  have hp := List.getElem?_eq_getElem hi
  refine h.next he h.length_le fun c hc hserial hstays htaken todo htodo ↦ ?_
  refine h.served_of_subset hc hserial htaken (PollLoop.ahead_of_read hphase) fun q hq hfd ↦ ?_
  obtain ⟨-, hcases⟩ := step_read_cases hphase hp incoming received
  generalize σ.step (.read incoming received) = σ' at hafter hstays htodo hcases
  rcases hcases with ⟨hphase', hfds⟩ | ⟨hphase', hfds⟩ | ⟨hphase', -, x, hfds⟩
  · rw [PollLoop.ahead_of_write hphase', hfds] at htodo
    exact Option.some.inj htodo ▸ hq
  · rw [PollLoop.ahead_of_read hphase', hfds, drop_eraseP h.inStep hp] at htodo
    rw [List.drop_eq_getElem_cons hi, List.mem_cons] at hq
    rcases hq with rfl | hq
    · exact absurd (hfd ▸ hstays) (notMem_of_eraseP h.inStep hafter hfds)
    · exact Option.some.inj htodo ▸ hq
  · rw [PollLoop.ahead_of_write hphase', hfds, List.drop_append_of_le_length hi.le] at htodo
    exact Option.some.inj htodo ▸ List.mem_append_left _ hq

/-- At least one byte is taken of the client whose turn it is. -/
theorem length_writeEntry (h : σ.Owed d serial texts sent k) {c : Client}
    (hc : σ.server.clients.lookup d = some c) (hserial : c.serial = serial) {i : Nat} {p : PollFd}
    (hp : σ.server.pollfds[i]? = some p) (hfd : p.fd = d) (hout : p.pollOut = true) {n : Int}
    (hn : c.writeBuffer ≠ [] → 0 < n) :
    min texts.length (sent + k) ≤ ((σ.writeEntry i n).taken serial).length := by
  subst hfd hserial
  rw [taken_writeEntry h.inStep hp hout hc, List.length_append, List.length_take]
  by_cases hempty : c.writeBuffer = []
  · have hall := h.length_le_of_empty hc rfl hempty
    omega
  · have hsent : σ.server.sentLength p.fd n = n.toNat := by
      rw [Server.sentLength, Server.client_eq hc]
      simp [hempty, hn hempty]
    have hlength := h.length_le c hc rfl
    have hpos := List.length_pos_of_ne_nil hempty
    have hn := hn hempty
    rw [hsent]
    omega

/-- The `POLLOUT` part of a turn is about the client or another one. -/
theorem step_write (h : σ.Owed d serial texts sent k) {n : Int} (he : σ.enabled (.write n))
    (ho : σ.Obliges d (.write n)) : (σ.step (.write n)).Owed d serial texts sent k := by
  obtain ⟨i, hphase⟩ := phase_of_write he
  have hstep := step_write_eq hphase n
  have hentry : σ.entry = σ.server.pollfds[i]? := by rw [PollLoop.entry, hphase]
  refine h.next he h.length_le fun c hc hserial _ htaken todo htodo ↦ ?_
  cases hp : σ.server.pollfds[i]? with
  | none =>
      have hsame : σ.step (.write n) = σ := by
        rw [hstep, PollLoop.writeEntry, hp]
      rw [hsame] at htodo htaken ⊢
      exact h.served c hc hserial todo htodo
  | some p =>
      obtain ⟨hi, hget⟩ := List.getElem?_eq_some_iff.mp hp
      obtain hle | ⟨q, hq, hfd, hout⟩ := h.served c hc hserial _ (PollLoop.ahead_of_write hphase)
      · exact Or.inl (hle.trans htaken.length_le)
      · rw [List.drop_eq_getElem_cons hi, hget, List.mem_cons] at hq
        rcases hq with rfl | hq
        · have hn : c.writeBuffer ≠ [] → 0 < n := fun hne ↦
            ho q (hentry.trans hp) hfd hout (Server.client_eq hc ▸ hne)
          exact Or.inl (hstep ▸ h.length_writeEntry hc hserial hp hfd hout hn)
        · refine Or.inr ⟨q, ?_, hfd, hout⟩
          obtain ⟨-, -, hcases⟩ := writeEntry_cases hp ⟨.acceptFailed, .ok [], n⟩
          dsimp only at hcases
          rw [← hstep] at hcases
          rcases hcases with ⟨hphase', hfds⟩ | ⟨hphase', hfds, -⟩
          · rw [PollLoop.ahead_of_read hphase', hfds] at htodo
            exact Option.some.inj htodo ▸ hq
          · rw [PollLoop.ahead_of_read hphase', hfds, drop_eraseP h.inStep hp] at htodo
            exact Option.some.inj htodo ▸ hq

/-- A round ends when every entry has been served. -/
theorem step_round (h : σ.Owed d serial texts sent k) (he : σ.enabled .round) :
    (σ.step .round).Owed d serial texts sent (k + 1) := by
  obtain ⟨s, phase, taken⟩ := σ
  cases phase with
  | read i =>
      refine h.next he (fun c hc hserial ↦ ?_) fun _ _ _ _ _ _ htodo ↦ nomatch htodo
      have hnone : s.pollfds.drop i = [] := List.drop_eq_nil_iff.mpr he
      obtain hle | ⟨p, hp, -⟩ := h.served c hc hserial _ rfl
      · exact hle
      · exact absurd (hnone ▸ hp) List.not_mem_nil
  | prepare | write => exact he.elim

theorem step {e : PollEvent} (h : σ.Owed d serial texts sent k) (he : σ.enabled e)
    (ho : σ.Obliges d e) (hend : e.endsRound = false) :
    (σ.step e).Owed d serial texts sent k := by
  cases e with
  | prepare =>
      refine h.next he h.length_le fun _ _ _ _ _ todo htodo ↦ ?_
      obtain ⟨s, phase, taken⟩ := σ
      cases phase with
      | prepare i => exact nomatch htodo
      | read | write => exact he.elim
  | poll revents => exact h.step_poll he ho
  | read incoming received => exact h.step_read he
  | write n => exact h.step_write he ho
  | round => cases hend
  | rehash clients =>
      refine h.next he h.length_le fun c hc hserial _ htaken todo htodo ↦ ?_
      exact h.served_of_subset hc hserial htaken htodo fun _ hp _ ↦ hp

end PollLoop.Owed

end Step

/-! ## Runs -/

/-- Rounds in which the kernel obliges a client, counted. -/
def outflow (d : Int) (serial : Nat) (texts : Bytes) (sent : Nat) :
    Pace pollLoop (PollLoop.Obliges d) PollEvent.endsRound where
  holds := PollLoop.Owed d serial texts sent
  keeps _ _ _ he ho hend h := h.step he ho hend
  advances _ _ e he _ hend h := by
    cases e with
    | round => exact h.step_round he
    | prepare | poll _ | read _ _ | write _ | rehash _ => cases hend

section Run

variable {serverSocket : Int} {password : Bytes} {channels : UnorderedMap Nat Channel}
variable {es : List PollEvent}

theorem numbered_run (hv : pollLoop.Valid (.start serverSocket password channels) es) :
    (pollLoop.run (.start serverSocket password channels) es).Numbered :=
  loop_invariant (I := PollLoop.Numbered) (fun _ _ _ heff hσ ↦ hσ.step heff) hv
    (numbered_start serverSocket password channels)

/-- What is in a write buffer is owed from now on. -/
theorem owed_run (hv : pollLoop.Valid (.start serverSocket password channels) es) {d : Int}
    {c : Client}
    (hc : (pollLoop.run (.start serverSocket password channels) es).server.clients.lookup d =
      some c) :
    let σ := pollLoop.run (.start serverSocket password channels) es
    σ.Owed d c.serial (σ.taken c.serial ++ c.writeBuffer) (σ.taken c.serial).length 0 := by
  intro σ
  have hnumbered : σ.Numbered := numbered_run hv
  refine ⟨inStep_run hv, hnumbered, prepared_run hv, hnumbered.lt d c hc, ?_, ?_, ?_⟩
  · intro x hx _
    rw [Option.some.inj (hx.symm.trans hc)]
  · exact fun _ _ _ ↦ min_le_right _ _
  · exact fun _ _ _ _ _ ↦ Or.inl (min_le_right _ _)

/-- From every reachable state, as long as the kernel obliges a client and its connection is
there, what `send` takes of it grows by a byte of what is in its write buffer now in every
round but the one that is going on.  After more rounds than there are bytes, everything that
was appended so far has been taken, and if nothing has been appended since, the client is not
marked: one that was would have been closed. -/
theorem sent_of_rounds (hv : pollLoop.Valid (.start serverSocket password channels) es) :
    let σ := pollLoop.run (.start serverSocket password channels) es
    ∀ (d : Int) (c : Client) (fs : List PollEvent), σ.server.clients.lookup d = some c →
      pollLoop.Valid σ fs → pollLoop.Along (PollLoop.Obliges d) σ fs →
      let τ := pollLoop.run σ fs
      let rounds := fs.countP PollEvent.endsRound
      ∀ c', τ.server.clients.lookup d = some c' → c'.serial = c.serial →
        σ.taken c.serial ++ c.writeBuffer.take (rounds - 1) <+: τ.taken c.serial ∧
        (c.writeBuffer.length < rounds →
          c.written.flatMap Reply.str <+: τ.taken c.serial ∧
          (c'.written = c.written → c'.shouldDisconnect = false)) := by
  intro σ d c fs hc hvalid hobliges τ rounds c' hc' hserial
  have hend := (outflow d c.serial (σ.taken c.serial ++ c.writeBuffer)
    (σ.taken c.serial).length).run hvalid hobliges (owed_run hv hc)
  rw [Nat.zero_add] at hend
  have hprefix := hend.isPrefix c' hc' hserial
  have hlength := hend.length_le c' hc' hserial
  have hfirst : σ.taken c.serial ++ c.writeBuffer.take (rounds - 1) <+: τ.taken c.serial := by
    rw [← List.take_length_add_append]
    refine List.prefix_of_prefix_length_le ((List.take_prefix _ _).trans hprefix)
      (List.prefix_append _ _) ?_
    rw [List.length_take, min_comm]
    exact hlength
  refine ⟨hfirst, fun hlt ↦ ?_⟩
  rw [List.take_of_length_le (Nat.le_sub_one_of_lt hlt),
    taken_append_writeBuffer hv d c hc] at hfirst
  refine ⟨hfirst, fun hwritten ↦ ?_⟩
  -- Nothing is left to be sent, and a marked client has something to be sent.
  have hboth : pollLoop.Valid (.start serverSocket password channels) (es ++ fs) :=
    System.along_append.mpr ⟨hv, hvalid⟩
  have hτ : pollLoop.run (.start serverSocket password channels) (es ++ fs) = τ :=
    System.run_append _ _ es fs
  have hbalance : τ.taken c.serial ++ c'.writeBuffer = c.written.flatMap Reply.str := by
    rw [← hserial, ← hwritten, ← hτ]
    exact taken_append_writeBuffer hboth d c' (hτ ▸ hc')
  have hempty : c'.writeBuffer = [] := by
    have hle := hfirst.length_le
    rw [← hbalance, List.length_append] at hle
    exact List.eq_nil_of_length_eq_zero (by omega)
  exact Bool.eq_false_iff.mpr fun hmarked ↦ pending_run hboth (hτ ▸ hc') hmarked hempty

/-- Two connections, and a refusal for the second one. -/
def slowRun : List PollEvent :=
  [.prepare, .poll fun i ↦ (i == 0, false),
    .read (.connected 4 ⟨127, 0, 0, 1⟩) (.ok []), .write 0, .read .acceptFailed (.ok []), .write 0,
    .round, .prepare, .prepare, .poll fun i ↦ (i == 0, false),
    .read (.connected 5 ⟨127, 0, 0, 1⟩) (.ok []), .write 0, .read .acceptFailed (.ok []), .write 0,
    .read .acceptFailed (.ok []), .write 0,
    .round, .prepare, .prepare, .prepare, .poll fun i ↦ (i == 2, false),
    .read .acceptFailed (.ok []), .write 0, .read .acceptFailed (.ok []), .write 0,
    .read .acceptFailed (.ok (lit "NICK bob\r\n")), .write 0, .round]

/-- The first connection is closed by the other side, and `send` takes single bytes of the
second one. -/
def slowRounds : List PollEvent :=
  [.prepare, .prepare, .prepare, .poll fun i ↦ (i == 1, i == 2),
    .read .acceptFailed (.ok []), .write 0, .read .acceptFailed (.ok []),
    .read .acceptFailed (.ok []), .write 1,
    .round, .prepare, .prepare, .poll fun i ↦ (false, i == 1),
    .read .acceptFailed (.ok []), .write 0, .read .acceptFailed (.ok []), .write 1,
    .round, .prepare, .prepare, .poll fun i ↦ (false, i == 1),
    .read .acceptFailed (.ok []), .write 0, .read .acceptFailed (.ok []), .write 1, .round]

theorem sent_of_rounds_slow :
    let σ := pollLoop.run (.start 3 (lit "pw") ∅) slowRun
    let τ := pollLoop.run σ slowRounds
    let c := σ.server.client 5
    σ.taken c.serial ++ c.writeBuffer.take 2 <+: τ.taken c.serial :=
  (sent_of_rounds (by decide +kernel) 5
    ((pollLoop.run (.start 3 (lit "pw") ∅) slowRun).server.client 5) slowRounds
    (by decide +kernel) (by decide +kernel) (by decide +kernel)
    ((pollLoop.run (pollLoop.run (.start 3 (lit "pw") ∅) slowRun) slowRounds).server.client 5)
    (by decide +kernel) (by decide +kernel)).1

end Run

end IrcServer
