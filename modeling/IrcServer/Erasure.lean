import IrcServer.InStep

/-!
# The poll loop runs the network

The event masks of the poll vector steer the loop and nothing else: no handler sees them,
and every event of the network commutes with forgetting them (`eraseMasks`).  So what a step
of the loop does to the server is, up to the masks, a run of the network, and so is what a
whole run does (`exists_network_run`).  What holds of every run of the network holds of
`runServer`.
-/

namespace IrcServer

open Library Commands

namespace Server

/-- The server with no event requested or reported. -/
def erase (s : Server) : Server :=
  { s with pollfds := s.pollfds.map fun p ↦ { fd := p.fd } }

theorem erase_congr {s : Server} {pollfds : List PollFd}
    (h : pollfds.map PollFd.fd = s.pollfds.map PollFd.fd) :
    erase { s with pollfds := pollfds } = s.erase := by
  have hmap (l : List PollFd) : l.map (fun p ↦ ({ fd := p.fd } : PollFd)) =
      (l.map PollFd.fd).map fun fd ↦ { fd := fd } := by
    rw [List.map_map]
    rfl
  rw [erase, erase]
  simp only [hmap, h]

theorem unseen_erase : Unseen erase where
  password _ := rfl
  channels _ := rfl
  dangling _ := rfl
  face _ _ := rfl
  isNicknameTaken _ _ := rfl
  getClientByNick _ _ := rfl
  modify _ _ _ _ := rfl
  modifyChannel _ _ _ := rfl
  setDangling _ _ := rfl

theorem acceptClient_erase (s : Server) (clientFd : Int) (address : InAddr) :
    s.erase.acceptClient (.connected clientFd address) =
      (s.acceptClient (.connected clientFd address)).erase := by
  by_cases hin : clientFd ∈ s.clients
  · simp [acceptClient, insert, hin, erase]
  · simp [acceptClient, insert, hin, erase]

theorem serveLine_erase (s : Server) (fd : Int) : s.erase.serveLine fd = (s.serveLine fd).erase :=
  processCommand_unseen unseen_erase (s.takeCommand fd) fd (Parser.parse (s.nextCommand fd))

theorem clearClient_erase (s : Server) (fd : Int) :
    s.erase.clearClient fd = (s.clearClient fd).erase := by
  simp only [clearClient, erase, List.eraseP_map]
  rfl

end Server

/-- The network does not depend on the event masks. -/
def eraseMasks : Simulation network network where
  abs := Server.erase
  label _ e := some e
  enabled s e he d hd := by
    obtain rfl := Option.some.inj hd
    cases e <;> exact he
  commutes s e _ := by
    cases e with
    | accept clientFd address => exact (s.acceptClient_erase clientFd address).symm
    | line fd => exact (s.serveLine_erase fd).symm
    | close fd => exact (s.clearClient_erase fd).symm
    | receive | send | rehash => rfl

theorem Runs.erase {s s' : Server} (h : Runs s s') : Runs s.erase s'.erase := by
  obtain ⟨es, hv, rfl⟩ := h
  obtain ⟨ds, hds, hrun⟩ := eraseMasks.exists_run hv
  exact ⟨ds, hds, hrun.symm⟩

section Loop

variable {σ : PollLoop} {i : Nat}

theorem readEntry_runs (h : σ.server.InStep) {incoming : Incoming}
    (hnew : incoming.IsNew σ.server) (received : Except Errno Bytes) :
    Runs σ.server (σ.readEntry i incoming received).server := by
  unfold PollLoop.readEntry
  cases hp : σ.server.pollfds[i]? with
  | none => exact .refl σ.server
  | some p =>
      dsimp only
      split
      · exact .refl σ.server
      · split
        · apply acceptClient_runs
          intro fd address he
          rw [he] at hnew
          exact hnew
        · rename_i hsocket
          have hfd := h.mem_clients (List.mem_of_getElem? hp) hsocket
          split <;> exact receiveData_runs hfd received

theorem writeEntry_runs (h : σ.server.InStep) {sent : Int}
    (hsent : ∀ p ∈ σ.server.pollfds[i]?, sent ≤ (σ.server.client p.fd).writeBuffer.length) :
    Runs σ.server (σ.writeEntry i sent).server := by
  unfold PollLoop.writeEntry
  cases hp : σ.server.pollfds[i]? with
  | none => exact .refl σ.server
  | some p =>
      dsimp only
      split
      · rename_i hout
        have hsocket : p.fd ≠ σ.server.serverSocket := by
          simpa using (Bool.and_eq_true_iff.mp hout).2
        have hfd := h.mem_clients (List.mem_of_getElem? hp) hsocket
        have hruns := pollOut_runs hfd (hsent p hp)
        rw [Server.pollOut_eq] at hruns
        split
        · rename_i hfinished
          rwa [if_pos hfinished] at hruns
        · rename_i hfinished
          rwa [if_neg hfinished] at hruns
      · exact .refl σ.server

/-- A step of the loop is a run of the network, up to the masks. -/
theorem step_runs (h : σ.server.InStep) {e : PollEvent} (he : σ.enabled e) :
    Runs σ.server.erase (σ.step e).server.erase := by
  obtain ⟨s, phase, taken⟩ := σ
  have hmasked {pollfds : List PollFd} (hfds : pollfds.map PollFd.fd = s.pollfds.map PollFd.fd) :
      Runs s.erase (Server.erase { s with pollfds := pollfds }) :=
    Server.erase_congr hfds ▸ .refl s.erase
  cases e with
  | prepare =>
      cases phase with
      | prepare i =>
          change Runs s.erase (s.prepareEntry i).erase
          rw [Server.InStep.prepareEntry_eq h (List.getElem?_eq_getElem he)]
          exact hmasked (s.map_fd_setEvents i _)
      | _ => exact he.elim
  | poll revents =>
      cases phase with
      | prepare i => exact hmasked (s.map_fd_setRevents revents)
      | _ => exact he.elim
  | read incoming received =>
      cases phase with
      | read i => exact (readEntry_runs h he.2 received).erase
      | _ => exact he.elim
  | write sent =>
      cases phase with
      | write i => exact (writeEntry_runs h he).erase
      | _ => exact he.elim
  | round =>
      cases phase with
      | read i => exact .refl s.erase
      | _ => exact he.elim
  | rehash clients => exact Runs.erase (.event (e := .rehash clients) he)

end Loop

/-- In every state that the loop reaches, the server is up to the event masks one that the
network reaches. -/
theorem exists_network_run {serverSocket : Int} {password : Bytes} {es : List PollEvent}
    (hv : pollLoop.Valid (.start serverSocket password ∅) es) :
    ∃ ds, network.Valid (Server.initial serverSocket password) ds ∧
      network.run (Server.initial serverSocket password) ds =
        (pollLoop.run (.start serverSocket password ∅) es).server.erase := by
  have hboth := hv.invariant
    (I := fun σ ↦ σ.server.InStep ∧ Runs (Server.initial serverSocket password) σ.server.erase)
    ?_ ⟨inStep_start serverSocket password ∅, .refl _⟩
  · obtain ⟨ds, hds, hrun⟩ := hboth.2
    exact ⟨ds, hds, hrun.symm⟩
  · intro σ e he hσ
    constructor
    · exact (step_effect hσ.1 he).inStep hσ.1
    · exact hσ.2.trans (step_runs hσ.1 he)

end IrcServer
