import IrcServer.Growth
import IrcServer.PollLoop

/-!
# The poll vector and the client map

`acceptClient` and `clearClient` write to both containers, and everything else to neither:
the entries of `_pollfds` after the first are the keys of `_clients` (`Server.InStep`).  So
the loop only ever asks `_clients` for keys that are there, and what a step of the loop can
do comes down to seven cases (`LoopEffect`), none of which inserts a client but the one in
which a connection is accepted.
-/

namespace IrcServer

open Library

/-! ## The invariant -/

/-- The poll vector and the client map are in step. -/
structure Server.InStep (s : Server) : Prop where
  entries : ∃ fds, s.pollfds.map PollFd.fd = s.serverSocket :: fds ∧ fds.Nodup ∧
    ∀ d, d ∈ fds ↔ d ∈ s.clients
  listener : s.serverSocket ∉ s.clients
  socketFd : ∀ d c, s.clients.lookup d = some c → c.socketFd = d

namespace Server.InStep

variable {s s' : Server}

/-- An entry that is not the server socket's is a client's. -/
theorem mem_clients (h : s.InStep) {p : PollFd} (hp : p ∈ s.pollfds)
    (hne : p.fd ≠ s.serverSocket) : p.fd ∈ s.clients := by
  obtain ⟨fds, hfds, -, hmem⟩ := h.entries
  have hin : p.fd ∈ s.serverSocket :: fds := hfds ▸ List.mem_map_of_mem hp
  exact (hmem p.fd).mp ((List.mem_cons.mp hin).resolve_left hne)

/-- A client has an entry. -/
theorem exists_pollFd (h : s.InStep) {d : Int} (hd : d ∈ s.clients) :
    ∃ p ∈ s.pollfds, p.fd = d := by
  obtain ⟨fds, hfds, -, hmem⟩ := h.entries
  have hin : d ∈ s.pollfds.map PollFd.fd := hfds ▸ List.mem_cons_of_mem _ ((hmem d).mpr hd)
  exact List.mem_map.mp hin

/-- Neither container loses or gains anything. -/
theorem of_same (h : s.InStep) (hsocket : s'.serverSocket = s.serverSocket)
    (hfds : s'.pollfds.map PollFd.fd = s.pollfds.map PollFd.fd)
    (hmem : ∀ d, d ∈ s'.clients ↔ d ∈ s.clients)
    (hclients : ∀ d c', s'.clients.lookup d = some c' →
      ∃ c, s.clients.lookup d = some c ∧ c'.socketFd = c.socketFd) : s'.InStep where
  entries := by
    obtain ⟨fds, heq, hnodup, hkeys⟩ := h.entries
    exact ⟨fds, by rw [hfds, heq, hsocket], hnodup, fun d ↦ (hkeys d).trans (hmem d).symm⟩
  listener := by
    rw [hsocket, hmem]
    exact h.listener
  socketFd d c' hc' := by
    obtain ⟨c, hc, hsame⟩ := hclients d c' hc'
    exact hsame.trans (h.socketFd d c hc)

theorem fed (h : s.InStep) (hfed : Fed s s') : s'.InStep :=
  h.of_same hfed.serverSocket (by rw [hfed.pollfds]) hfed.mem_clients fun d c' hc' ↦ by
    obtain ⟨c, hc, hgrown⟩ := hfed.clients d c' hc'
    exact ⟨c, hc, hgrown.socketFd⟩

theorem modify (h : s.InStep) (fd : Int) {f : Client → Client}
    (hf : ∀ c, (f c).socketFd = c.socketFd) : (s.modify fd f).InStep :=
  h.of_same rfl rfl (fun _ ↦ s.mem_modify fd f) fun d c' hc' ↦ by
    obtain ⟨c, hc, ⟨-, rfl⟩ | ⟨-, rfl⟩⟩ := exists_of_lookup_modify hc'
    · exact ⟨c, hc, hf c⟩
    · exact ⟨c', hc, rfl⟩

theorem clearClient (h : s.InStep) {d : Int} (hd : d ∈ s.clients) : (s.clearClient d).InStep where
  entries := by
    obtain ⟨fds, hfds, hnodup, hmem⟩ := h.entries
    have hne : s.serverSocket ≠ d := fun he ↦ h.listener (he ▸ hd)
    refine ⟨fds.erase d, ?_, hnodup.erase d, ?_⟩
    · have herase : (s.pollfds.eraseP (·.fd == d)).map PollFd.fd =
          (s.pollfds.map PollFd.fd).erase d := by
        rw [List.erase_eq_eraseP', List.eraseP_map]
        rfl
      change (s.pollfds.eraseP (·.fd == d)).map PollFd.fd = _
      rw [herase, hfds, List.erase_cons_tail (by simpa using hne)]
      rfl
    · intro e
      rw [hnodup.mem_erase_iff, hmem]
      exact AList.mem_erase.symm
  listener hin := h.listener (AList.mem_erase.mp hin).2
  socketFd e c hc := h.socketFd e c (lookup_of_clearClient hc).2

theorem acceptClient (h : s.InStep) {d : Int} (address : InAddr) (hnew : d ∉ s.clients)
    (hne : d ≠ s.serverSocket) : (s.acceptClient (.connected d address)).InStep where
  entries := by
    obtain ⟨fds, hfds, hnodup, hmem⟩ := h.entries
    have hnew' : d ∉ fds := fun hd ↦ hnew ((hmem d).mp hd)
    refine ⟨fds ++ [d], ?_, ?_, ?_⟩
    · simp only [Server.acceptClient, insert_of_notMem hnew, List.map_append, hfds]
      rfl
    · exact hnodup.append (List.nodup_singleton d) (List.disjoint_singleton.mpr hnew')
    · intro e
      simp only [Server.acceptClient, insert_of_notMem hnew, UnorderedMap.mem_emplace,
        List.mem_append, List.mem_singleton, hmem]
      exact or_comm
  listener := by
    simp only [Server.acceptClient, insert_of_notMem hnew, UnorderedMap.mem_emplace, not_or]
    exact ⟨hne.symm, h.listener⟩
  socketFd e c hc := by
    by_cases he : e = d
    · subst he
      rw [← Option.some.inj ((lookup_insert_self hnew).symm.trans hc)]
    · exact h.socketFd e c ((lookup_insert_of_ne he).symm.trans hc)

end Server.InStep

theorem inStep_start (serverSocket : Int) (password : Bytes)
    (channels : UnorderedMap Nat Channel) :
    (PollLoop.start serverSocket password channels).server.InStep where
  entries := ⟨[], rfl, List.nodup_nil, fun d ↦ iff_of_false List.not_mem_nil (AList.notMem_empty d)⟩
  listener := AList.notMem_empty _
  socketFd _ _ h := nomatch h

/-! ## What a step of the loop can do -/

namespace Server

variable {s : Server} {fd : Int}

/-- A turn of the loop before `poll` sets an event mask. -/
theorem InStep.prepareEntry_eq (h : s.InStep) {i : Nat} {p : PollFd}
    (hp : s.pollfds[i]? = some p) : s.prepareEntry i =
      s.setEvents i (p.fd ≠ s.serverSocket && !(s.client p.fd).writeBuffer.isEmpty) := by
  unfold prepareEntry
  rw [hp]
  dsimp only
  split
  · rename_i hsocket
    simp [hsocket]
  · rename_i hsocket
    rw [touch_of_mem (h.mem_clients (List.mem_of_getElem? hp) hsocket)]
    simp [hsocket]

/-- The number of bytes `send` takes. -/
def sentLength (s : Server) (fd sent : Int) : Nat :=
  if !(s.client fd).writeBuffer.isEmpty && 0 < sent then sent.toNat else 0

theorem sentLength_le {sent : Int} (hsent : sent ≤ (s.client fd).writeBuffer.length) :
    s.sentLength fd sent ≤ (s.client fd).writeBuffer.length := by
  unfold sentLength
  split
  · omega
  · exact Nat.zero_le _

/-- What is erased is what was taken. -/
theorem flush_eq (hfd : fd ∈ s.clients) (sent : Int) :
    s.flush fd sent = s.modify fd (·.eraseFromWriteBuffer (s.sentLength fd sent)) := by
  rw [flush, touch_of_mem hfd]
  unfold sentLength
  split
  · rfl
  · have hid : s.modify fd (·.eraseFromWriteBuffer 0) = s.modify fd id := rfl
    rw [hid, modify, UnorderedMap.modify_id]

theorem takenBySend_eq (s : Server) (fd sent : Int) :
    s.takenBySend fd sent = (s.client fd).writeBuffer.take (s.sentLength fd sent) := by
  unfold takenBySend sentLength
  split
  · rfl
  · exact List.take_zero.symm

end Server

/-- What a step of the loop can make of the server and of the record of what was sent. -/
inductive LoopEffect (σ : PollLoop) (e : PollEvent) : PollLoop → Prop where
  /-- The event masks and the program counter change. -/
  | masked (pollfds : List PollFd)
      (hfds : pollfds.map PollFd.fd = σ.server.pollfds.map PollFd.fd) (phase : Phase) :
      LoopEffect σ e { σ with server := { σ.server with pollfds := pollfds }, phase := phase }
  | rehashed (clients : UnorderedMap Int Client)
      (h : clients.entries.Perm σ.server.clients.entries) :
      LoopEffect σ e { σ with server := { σ.server with clients := clients } }
  | accepted (d : Int) (address : InAddr) (received : Except Errno Bytes)
      (he : e = .read (.connected d address) received) (hnew : d ∉ σ.server.clients)
      (hne : d ≠ σ.server.serverSocket) (phase : Phase) : LoopEffect σ e
        { σ with server := σ.server.acceptClient (.connected d address), phase := phase }
  | fed (s : Server) (h : Fed σ.server s) (phase : Phase) :
      LoopEffect σ e { σ with server := s, phase := phase }
  /-- The stream of a client has ended, or `recv` has failed. -/
  | closed (d : Int) (hd : d ∈ σ.server.clients) (hread : ∀ sent, e ≠ .write sent)
      (phase : Phase) : LoopEffect σ e { σ with server := σ.server.clearClient d, phase := phase }
  | sent (d : Int) (c : Client) (hc : σ.server.clients.lookup d = some c) (n : Nat)
      (hn : n ≤ c.writeBuffer.length)
      (hopen : ¬ (c.writeBuffer.drop n = [] ∧ c.shouldDisconnect = true)) (phase : Phase) :
      LoopEffect σ e
        { server := σ.server.modify d (·.eraseFromWriteBuffer n)
          phase := phase
          taken := Function.update σ.taken c.serial (σ.taken c.serial ++ c.writeBuffer.take n) }
  /-- The last bytes are sent to a client that is marked. -/
  | finished (d : Int) (c : Client) (hc : σ.server.clients.lookup d = some c) (n : Nat)
      (hn : n ≤ c.writeBuffer.length) (hempty : c.writeBuffer.drop n = [])
      (hmarked : c.shouldDisconnect = true) (phase : Phase) :
      LoopEffect σ e
        { server := (σ.server.modify d (·.eraseFromWriteBuffer n)).clearClient d
          phase := phase
          taken := Function.update σ.taken c.serial (σ.taken c.serial ++ c.writeBuffer.take n) }

section Effect

variable {σ : PollLoop} {i : Nat}

theorem readEntry_effect (h : σ.server.InStep) {incoming : Incoming}
    (hnew : incoming.IsNew σ.server) (received : Except Errno Bytes) :
    LoopEffect σ (.read incoming received) (σ.readEntry i incoming received) := by
  unfold PollLoop.readEntry
  have hnothing (phase : Phase) :
      LoopEffect σ (.read incoming received) { σ with phase := phase } :=
    .masked σ.server.pollfds rfl phase
  have hread (sent : Int) : PollEvent.read incoming received ≠ .write sent := fun h ↦ nomatch h
  cases hp : σ.server.pollfds[i]? with
  | none => exact hnothing σ.phase
  | some p =>
      dsimp only
      split
      · exact hnothing (.write i)
      · split
        · cases incoming with
          | connected d address => exact .accepted d address received rfl hnew.1 hnew.2 (.write i)
          | _ => exact hnothing (.write i)
        · rename_i hsocket
          have hfd := h.mem_clients (List.mem_of_getElem? hp) hsocket
          rcases receiveData_fed hfd received with hcleared | hfed
          · split
            · exact hcleared ▸ .closed p.fd hfd hread (.read i)
            · exact hcleared ▸ .closed p.fd hfd hread (.write i)
          · split
            · exact .fed _ hfed (.read i)
            · exact .fed _ hfed (.write i)

theorem writeEntry_effect (h : σ.server.InStep) {sent : Int}
    (hsent : ∀ p ∈ σ.server.pollfds[i]?, sent ≤ (σ.server.client p.fd).writeBuffer.length) :
    LoopEffect σ (.write sent) (σ.writeEntry i sent) := by
  unfold PollLoop.writeEntry
  cases hp : σ.server.pollfds[i]? with
  | none => exact .masked σ.server.pollfds rfl σ.phase
  | some p =>
      dsimp only
      split
      · rename_i hout
        have hsocket : p.fd ≠ σ.server.serverSocket := by
          simpa using (Bool.and_eq_true_iff.mp hout).2
        have hfd := h.mem_clients (List.mem_of_getElem? hp) hsocket
        obtain ⟨c, hc⟩ := UnorderedMap.mem_iff_lookup.mp hfd
        have hn : σ.server.sentLength p.fd sent ≤ c.writeBuffer.length :=
          Server.client_eq hc ▸ Server.sentLength_le (hsent p hp)
        simp only [Server.touch_of_mem hfd, Server.flush_eq hfd, Server.takenBySend_eq,
          Server.client_eq hc]
        generalize σ.server.sentLength p.fd sent = n at hn
        have hfinished : (σ.server.modify p.fd (·.eraseFromWriteBuffer n)).isFinished p.fd = true ↔
            c.writeBuffer.drop n = [] ∧ c.shouldDisconnect = true := by
          rw [Server.isFinished, Server.client_modify_self hc]
          simp [Client.eraseFromWriteBuffer]
        split
        · rename_i h
          obtain ⟨hempty, hmarked⟩ := hfinished.mp h
          exact .finished p.fd c hc n hn hempty hmarked (.read i)
        · rename_i h
          exact .sent p.fd c hc n hn (fun hboth ↦ h (hfinished.mpr hboth)) (.read (i + 1))
      · exact .masked σ.server.pollfds rfl (.read (i + 1))

theorem prepareEntry_effect (h : σ.server.InStep) (hi : i < σ.server.pollfds.length)
    (phase : Phase) : LoopEffect σ .prepare
      { σ with server := σ.server.prepareEntry i, phase := phase } := by
  rw [h.prepareEntry_eq (List.getElem?_eq_getElem hi)]
  exact .masked _ (σ.server.map_fd_setEvents i _) phase

/-- Every step of the loop is one of the seven. -/
theorem step_effect (h : σ.server.InStep) {e : PollEvent} (he : σ.enabled e) :
    LoopEffect σ e (σ.step e) := by
  obtain ⟨s, phase, taken⟩ := σ
  cases e with
  | prepare =>
      cases phase with
      | prepare i => exact prepareEntry_effect h he (.prepare (i + 1))
      | _ => exact he.elim
  | poll revents =>
      cases phase with
      | prepare i => exact .masked _ (s.map_fd_setRevents revents) (.read 0)
      | _ => exact he.elim
  | read incoming received =>
      cases phase with
      | read i => exact readEntry_effect h he.2 received
      | _ => exact he.elim
  | write sent =>
      cases phase with
      | write i => exact writeEntry_effect h he
      | _ => exact he.elim
  | round =>
      cases phase with
      | read i => exact .masked _ rfl (.prepare 0)
      | _ => exact he.elim
  | rehash clients => exact .rehashed clients he

end Effect

namespace LoopEffect

variable {σ σ' : PollLoop} {e : PollEvent}

theorem serverSocket (h : LoopEffect σ e σ') :
    σ'.server.serverSocket = σ.server.serverSocket := by
  cases h with
  | fed _ hfed => exact hfed.serverSocket
  | accepted d address _ _ hnew => simp only [Server.acceptClient, Server.insert_of_notMem hnew]
  | _ => rfl

theorem inStep (h : LoopEffect σ e σ') (hs : σ.server.InStep) : σ'.server.InStep := by
  cases h with
  | masked pollfds hfds => exact hs.of_same rfl hfds (fun _ ↦ Iff.rfl) fun d c hc ↦ ⟨c, hc, rfl⟩
  | rehashed clients hperm =>
      refine hs.of_same rfl rfl (fun d ↦ AList.mem_of_perm hperm) fun d c hc ↦ ⟨c, ?_, rfl⟩
      exact (AList.perm_lookup hperm).symm.trans hc
  | accepted d address _ _ hnew hne => exact hs.acceptClient address hnew hne
  | fed _ hfed => exact hs.fed hfed
  | closed d hd => exact hs.clearClient hd
  | sent d c _ n => exact hs.modify d fun _ ↦ rfl
  | finished d c hc n =>
      have hsent := hs.modify (f := (·.eraseFromWriteBuffer n)) d fun _ ↦ rfl
      have hd : d ∈ σ.server.clients := UnorderedMap.mem_iff_lookup.mpr ⟨c, hc⟩
      exact hsent.clearClient ((Server.mem_modify _ d _).mpr hd)

end LoopEffect

/-! ## Insertions -/

/-- A step inserts nothing into `_clients`, or it is the one in which a connection is
accepted and inserts a new client under a key that is not there. -/
inductive Inserts (σ : PollLoop) (e : PollEvent) : PollLoop → Prop where
  | nothing (σ' : PollLoop) (hserial : σ'.server.nextSerial = σ.server.nextSerial)
      (hclients : ∀ d c', σ'.server.clients.lookup d = some c' →
        ∃ c, σ.server.clients.lookup d = some c ∧ c'.serial = c.serial) : Inserts σ e σ'
  | accepted (σ' : PollLoop) (d : Int) (address : InAddr) (received : Except Errno Bytes)
      (he : e = .read (.connected d address) received) (hnew : d ∉ σ.server.clients)
      (hserial : σ'.server.nextSerial = σ.server.nextSerial + 1)
      (hclient : σ'.server.clients.lookup d =
        some (Client.accepted d address σ.server.nextSerial))
      (hclients : ∀ d', d' ≠ d →
        σ'.server.clients.lookup d' = σ.server.clients.lookup d') : Inserts σ e σ'

theorem LoopEffect.inserts {σ σ' : PollLoop} {e : PollEvent} (h : LoopEffect σ e σ') :
    Inserts σ e σ' := by
  cases h with
  | masked => exact .nothing _ rfl fun d c hc ↦ ⟨c, hc, rfl⟩
  | rehashed clients hperm =>
      exact .nothing _ rfl fun d c hc ↦ ⟨c, (AList.perm_lookup hperm).symm.trans hc, rfl⟩
  | accepted d address received he hnew =>
      refine .accepted _ d address received he hnew ?_ ?_ ?_
      · simp only [Server.acceptClient, Server.insert_of_notMem hnew]
      · exact Server.lookup_insert_self hnew
      · exact fun d' hd' ↦ Server.lookup_insert_of_ne hd'
  | fed s hfed =>
      refine .nothing _ hfed.nextSerial ?_
      intro d c' hc'
      obtain ⟨c, hc, hgrown⟩ := hfed.clients d c' hc'
      exact ⟨c, hc, hgrown.serial⟩
  | closed d => exact .nothing _ rfl fun d' c hc ↦ ⟨c, (Server.lookup_of_clearClient hc).2, rfl⟩
  | sent d c₀ _ n =>
      refine .nothing _ rfl ?_
      intro d' c hc
      obtain ⟨c', hc', ⟨-, rfl⟩ | ⟨-, rfl⟩⟩ := Server.exists_of_lookup_modify hc
      · exact ⟨c', hc', rfl⟩
      · exact ⟨c, hc', rfl⟩
  | finished d c₀ _ n =>
      refine .nothing _ rfl ?_
      intro d' c hc
      have hstays := (Server.lookup_of_clearClient hc).2
      obtain ⟨c', hc', ⟨-, rfl⟩ | ⟨-, rfl⟩⟩ := Server.exists_of_lookup_modify hstays
      · exact ⟨c', hc', rfl⟩
      · exact ⟨c, hc', rfl⟩

/-- Where a client appears it is a fresh one. -/
theorem Inserts.fresh {σ σ' : PollLoop} {e : PollEvent} (h : Inserts σ e σ') {d : Int} {c : Client}
    (hnone : σ.server.clients.lookup d = none) (hc : σ'.server.clients.lookup d = some c) :
    ∃ address, c = .accepted d address σ.server.nextSerial := by
  cases h with
  | nothing hserial hclients =>
      obtain ⟨c₀, hc₀, -⟩ := hclients d c hc
      exact absurd (hnone.symm.trans hc₀) nofun
  | accepted d₀ address received he hnew hserial hclient hclients =>
      by_cases hd : d = d₀
      · subst hd
        exact ⟨address, Option.some.inj (hc.symm.trans hclient)⟩
      · rw [hclients d hd, hnone] at hc
        exact absurd hc nofun

/-! ## Runs -/

section Run

variable {serverSocket : Int} {password : Bytes} {channels : UnorderedMap Nat Channel}
variable {es : List PollEvent}

theorem inStep_run (hv : pollLoop.Valid (.start serverSocket password channels) es) :
    (pollLoop.run (.start serverSocket password channels) es).server.InStep :=
  hv.invariant (I := fun σ ↦ σ.server.InStep) (fun _ _ he hs ↦ (step_effect hs he).inStep hs)
    (inStep_start serverSocket password channels)

/-- What holds at the start and is kept by every effect holds in every state. -/
theorem loop_invariant {I : PollLoop → Prop}
    (hstep : ∀ σ e σ', LoopEffect σ e σ' → I σ → I σ')
    (hv : pollLoop.Valid (.start serverSocket password channels) es)
    (hs : I (.start serverSocket password channels)) :
    I (pollLoop.run (.start serverSocket password channels) es) := by
  have hboth := hv.invariant (I := fun σ ↦ σ.server.InStep ∧ I σ)
    ?_ ⟨inStep_start serverSocket password channels, hs⟩
  · exact hboth.2
  · intro σ e he hσ
    have heff := step_effect hσ.1 he
    exact ⟨heff.inStep hσ.1, hstep σ e _ heff hσ.2⟩

/-- Every step of a run is one of the seven. -/
theorem loop_effect (hv : pollLoop.Valid (.start serverSocket password channels) es)
    {pre : List PollEvent} {e : PollEvent} (hpre : pre ++ [e] <+: es) :
    LoopEffect (pollLoop.run (.start serverSocket password channels) pre) e
      (pollLoop.run (.start serverSocket password channels) (pre ++ [e])) := by
  rw [System.run_append]
  have hvpre := hv.of_isPrefix ((List.prefix_append pre [e]).trans hpre)
  exact step_effect (inStep_run hvpre) (System.along_iff.mp hv pre e hpre)

/-- In every reachable state the poll vector holds the server socket and then the keys of
`_clients`; no step of the run inserts a client but the acceptance of a connection, and
that client is fresh. -/
theorem pollfds_inStep (hv : pollLoop.Valid (.start serverSocket password channels) es) :
    let σ := pollLoop.run (.start serverSocket password channels) es
    (∃ fds, σ.server.pollfds.map PollFd.fd = serverSocket :: fds ∧ fds.Nodup ∧
      ∀ d, d ∈ fds ↔ d ∈ σ.server.clients) ∧
    (∀ d c, σ.server.clients.lookup d = some c → c.socketFd = d) ∧
    ∀ pre e, pre ++ [e] <+: es →
      let σ := pollLoop.run (.start serverSocket password channels) pre
      let σ' := pollLoop.run (.start serverSocket password channels) (pre ++ [e])
      Inserts σ e σ' ∧
      ∀ d c, σ.server.clients.lookup d = none → σ'.server.clients.lookup d = some c →
        c.isAuthenticated = false ∧ c.nickname = [] ∧ c.username = [] ∧ c.readBuffer = [] ∧
        c.writeBuffer = [] := by
  have hs := inStep_run hv
  have hsocket := loop_invariant (I := fun σ ↦ σ.server.serverSocket = serverSocket)
    (fun _ _ _ heff hσ ↦ heff.serverSocket.trans hσ) hv rfl
  have hentries := hs.entries
  rw [hsocket] at hentries
  refine ⟨hentries, hs.socketFd, ?_⟩
  intro pre e hpre
  have hinserts := (loop_effect hv hpre).inserts
  refine ⟨hinserts, ?_⟩
  intro d c hnone hc
  obtain ⟨address, rfl⟩ := hinserts.fresh hnone hc
  exact ⟨rfl, rfl, rfl, rfl, rfl⟩

/-- A connection is accepted and closed by the other side, and its descriptor is used for
the next one. -/
theorem pollfds_inStep_reused :
    let start := PollLoop.start 3 (lit "pw") ∅
    let es : List PollEvent := [.prepare, .poll fun i ↦ (i == 0, false),
      .read (.connected 4 ⟨127, 0, 0, 1⟩) (.ok []), .write 0, .read .acceptFailed (.ok []),
      .write 0, .round, .prepare, .prepare, .poll fun i ↦ (i == 1, false),
      .read .acceptFailed (.ok []), .write 0, .read .acceptFailed (.ok []), .round, .prepare,
      .poll fun i ↦ (i == 0, false), .read (.connected 4 ⟨127, 0, 0, 1⟩) (.ok [])]
    let σ := pollLoop.run start es
    (∃ fds, σ.server.pollfds.map PollFd.fd = 3 :: fds ∧ fds.Nodup ∧
      ∀ d, d ∈ fds ↔ d ∈ σ.server.clients) ∧
    (∀ d c, σ.server.clients.lookup d = some c → c.socketFd = d) ∧
    ∀ pre e, pre ++ [e] <+: es →
      let σ := pollLoop.run start pre
      let σ' := pollLoop.run start (pre ++ [e])
      Inserts σ e σ' ∧
      ∀ d c, σ.server.clients.lookup d = none → σ'.server.clients.lookup d = some c →
        c.isAuthenticated = false ∧ c.nickname = [] ∧ c.username = [] ∧ c.readBuffer = [] ∧
        c.writeBuffer = [] :=
  pollfds_inStep (by decide +kernel)

end Run

end IrcServer
