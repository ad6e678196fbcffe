import IrcServer.Process
import IrcServer.Scan

/-!
# Descriptors

The descriptors the process holds are the server socket and the keys of `_clients`
(`Server.Owns`), in every state between `initServer` and `closeAll`.  So it never closes a
descriptor that is not open, and none is left open when `runServer` returns.  That the
kernel hands out descriptors that are not open comes to what the poll loop assumes of
`accept`.
-/

namespace IrcServer

open Library

/-- The descriptor is the server socket's or a client's. -/
def Server.Owns (s : Server) (d : Int) : Prop := d = s.serverSocket ∨ d ∈ s.clients

/-- What is open is what the server holds. -/
structure Holding (s : Server) (live : Finset Int) : Prop where
  inStep : s.InStep
  listening : 0 ≤ s.serverSocket
  mem_live : ∀ d, d ∈ live ↔ s.Owns d

/-! ## Calls of `receiveData` -/

/-- Lines do not open or close anything. -/
theorem Fed.drain (n : Nat) (s : Server) (fd : Int) : Fed s (s.drain n fd) := by
  induction n generalizing s with
  | zero => exact .refl s
  | succ n ih =>
      rw [Server.drain]
      split
      · exact (Fed.serveLine s fd).trans (ih (s.serveLine fd))
      · exact .refl s

/-- `receiveData` closes the connection where it calls `close`, and only there. -/
theorem receiveData_calls {s : Server} {fd : Int} (hfd : fd ∈ s.clients)
    (received : Except Errno Bytes) :
    Server.receiveCalls fd received = [.closed fd] ∧
        s.receiveData fd received = s.clearClient fd ∨
      Server.receiveCalls fd received = [] ∧ Fed s (s.receiveData fd received) := by
  rcases received with e | buffer
  · cases e with
    | other => exact Or.inl ⟨rfl, rfl⟩
    | again | wouldBlock | interrupted => exact Or.inr ⟨rfl, .refl s⟩
  · cases buffer with
    | nil => exact Or.inl ⟨rfl, rfl⟩
    | cons b bs =>
        refine Or.inr ⟨rfl, ?_⟩
        rw [Server.receiveData, Server.touch_of_mem hfd]
        swap
        · exact List.cons_ne_nil b bs
        refine (Fed.modify s fd fun c ↦ ?_).trans (Fed.drain _ _ fd)
        exact .of_eq rfl rfl rfl rfl rfl

/-! ## One step of the loop -/

namespace Holding

variable {s s' : Server} {live : Finset Int} {d : Int}

/-- Neither the server socket nor the keys change. -/
theorem of_same (h : Holding s live) (hs : s'.InStep)
    (hsocket : s'.serverSocket = s.serverSocket) (hmem : ∀ d, d ∈ s'.clients ↔ d ∈ s.clients) :
    Holding s' live where
  inStep := hs
  listening := hsocket ▸ h.listening
  mem_live d := by
    rw [h.mem_live, Server.Owns, Server.Owns, hsocket, hmem]

theorem fed (h : Holding s live) (hfed : Fed s s') : Holding s' live :=
  h.of_same (h.inStep.fed hfed) hfed.serverSocket hfed.mem_clients

/-- A descriptor that is not open is neither the server socket's nor a client's. -/
theorem isNew (h : Holding s live) (hd : d ∉ live) : d ∉ s.clients ∧ d ≠ s.serverSocket :=
  ⟨fun hin ↦ hd ((h.mem_live d).mpr (Or.inr hin)), fun he ↦ hd ((h.mem_live d).mpr (Or.inl he))⟩

theorem acceptClient (h : Holding s live) (hd : d ∉ live) (address : InAddr) :
    Holding (s.acceptClient (.connected d address)) (insert d live) where
  inStep := h.inStep.acceptClient address (h.isNew hd).1 (h.isNew hd).2
  listening := by
    simp only [Server.acceptClient, Server.insert_of_notMem (h.isNew hd).1]
    exact h.listening
  mem_live e := by
    simp only [Server.Owns, Server.acceptClient, Server.insert_of_notMem (h.isNew hd).1,
      UnorderedMap.mem_emplace, Finset.mem_insert, h.mem_live]
    exact or_left_comm

theorem clearClient (h : Holding s live) (hd : d ∈ s.clients) :
    d ∈ live ∧ Holding (s.clearClient d) (live.erase d) := by
  refine ⟨(h.mem_live d).mpr (Or.inr hd), h.inStep.clearClient hd, h.listening, fun e ↦ ?_⟩
  have hne : s.serverSocket ≠ d := fun he ↦ h.inStep.listener (he ▸ hd)
  rw [Finset.mem_erase, h.mem_live]
  constructor
  · rintro ⟨he, rfl | hin⟩
    · exact Or.inl rfl
    · exact Or.inr (AList.mem_erase.mpr ⟨he, hin⟩)
  · rintro (rfl | hin)
    · exact ⟨hne, Or.inl rfl⟩
    · exact ⟨(AList.mem_erase.mp hin).1, Or.inr (AList.mem_erase.mp hin).2⟩

end Holding

section Step

variable {σ : PollLoop} {live : Finset Int} {i : Nat}

/-- The calls are sound, and what is open after them is what the server holds. -/
def Accounts (live : Finset Int) (calls : List (Call Int)) (s : Server) : Prop :=
  ledger.Valid live calls ∧ Holding s (ledger.run live calls)

theorem Holding.readEntry (h : Holding σ.server live) {incoming : Incoming}
    (hnew : ∀ d ∈ incoming.descriptor, d ∉ live) (received : Except Errno Bytes) :
    Accounts live (σ.readCalls i incoming received) (σ.readEntry i incoming received).server := by
  unfold PollLoop.readCalls PollLoop.readEntry
  cases hp : σ.server.pollfds[i]? with
  | none => exact ⟨trivial, h⟩
  | some p =>
      dsimp only
      split
      · exact ⟨trivial, h⟩
      · split
        · cases incoming with
          | acceptFailed => exact ⟨trivial, h⟩
          | fcntlFailed d | ntopFailed d =>
              obtain ⟨hv, hrun⟩ := Ledger.opened_closed (hnew d rfl)
              exact ⟨hv, show Holding σ.server (ledger.run live _) from hrun.symm ▸ h⟩
          | connected d address =>
              exact ⟨⟨hnew d rfl, trivial⟩, h.acceptClient (hnew d rfl) address⟩
        · rename_i hsocket
          have hfd := h.inStep.mem_clients (List.mem_of_getElem? hp) hsocket
          rcases receiveData_calls hfd received with ⟨hcalls, hcleared⟩ | ⟨hcalls, hfed⟩
          · obtain ⟨hopen, hholding⟩ := h.clearClient hfd
            rw [hcalls, hcleared]
            refine ⟨⟨hopen, trivial⟩, ?_⟩
            split <;> exact hholding
          · rw [hcalls]
            refine ⟨trivial, ?_⟩
            split <;> exact h.fed hfed

theorem Holding.writeEntry (h : Holding σ.server live) (sent : Int) :
    Accounts live (σ.writeCalls i sent) (σ.writeEntry i sent).server := by
  unfold PollLoop.writeCalls PollLoop.writeEntry
  cases hp : σ.server.pollfds[i]? with
  | none => exact ⟨trivial, h⟩
  | some p =>
      dsimp only
      split
      · rename_i hout
        have hsocket : p.fd ≠ σ.server.serverSocket := by
          simpa using (Bool.and_eq_true_iff.mp hout).2
        have hfd := h.inStep.mem_clients (List.mem_of_getElem? hp) hsocket
        have hflush : Holding (σ.server.flush p.fd sent) live := by
          rw [Server.flush_eq hfd]
          refine h.of_same (h.inStep.modify p.fd fun _ ↦ rfl) rfl ?_
          exact fun _ ↦ Server.mem_modify σ.server p.fd _
        have hfd' : p.fd ∈ (σ.server.flush p.fd sent).clients := by
          rw [Server.flush_eq hfd]
          exact (Server.mem_modify σ.server p.fd _).mpr hfd
        split
        · obtain ⟨hopen, hholding⟩ := hflush.clearClient hfd'
          exact ⟨⟨hopen, trivial⟩, hholding⟩
        · exact ⟨trivial, hflush⟩
      · exact ⟨trivial, h⟩

/-- What a step opens and closes is what it adds to the server and takes from it. -/
theorem Holding.step (h : Holding σ.server live) {e : PollEvent} (he : σ.enabled e)
    (hnew : ∀ incoming received, e = .read incoming received →
      ∀ d ∈ incoming.descriptor, d ∉ live) :
    Accounts live (σ.calls e) (σ.step e).server := by
  have hinStep : (σ.step e).server.InStep := (step_effect h.inStep he).inStep h.inStep
  obtain ⟨s, phase, taken⟩ := σ
  cases e with
  | prepare =>
      cases phase with
      | prepare i =>
          refine ⟨trivial, h.of_same hinStep ?_ ?_⟩
          · change (s.prepareEntry i).serverSocket = s.serverSocket
            rw [Server.InStep.prepareEntry_eq h.inStep (List.getElem?_eq_getElem he)]
            rfl
          · intro d
            change d ∈ (s.prepareEntry i).clients ↔ d ∈ s.clients
            rw [Server.InStep.prepareEntry_eq h.inStep (List.getElem?_eq_getElem he)]
            rfl
      | _ => exact he.elim
  | poll revents =>
      cases phase with
      | prepare i => exact ⟨trivial, h.of_same hinStep rfl fun _ ↦ Iff.rfl⟩
      | _ => exact he.elim
  | read incoming received =>
      cases phase with
      | read i => exact h.readEntry (hnew incoming received rfl) received
      | _ => exact he.elim
  | write sent =>
      cases phase with
      | write i => exact h.writeEntry sent
      | _ => exact he.elim
  | round =>
      cases phase with
      | read i => exact ⟨trivial, h⟩
      | _ => exact he.elim
  | rehash clients =>
      exact ⟨trivial, h.of_same hinStep rfl fun _ ↦ AList.mem_of_perm he⟩

end Step

/-! ## The process -/

/-- The stages between `initServer` and the end of `closeAll`. -/
def Stage.runs : Stage → Bool
  | testing | serving | leaving => true
  | _ => false

/-- What the stage says of what is open. -/
def Process.Accounted (password : Bytes) (π : Process) : Prop :=
  match π.stage with
  | .starting => π.loop = { server := .constructed password } ∧ π.live = ∅
  | .failed => ∀ d, d ∈ π.live ↔ d = π.loop.server.serverSocket ∧ d ≠ -1
  | .testing | .serving | .leaving => Holding π.loop.server π.live
  | .returned => π.live = ∅

theorem holding_initial {fd : Int} (hfd : 0 ≤ fd) (password : Bytes) :
    Holding (.initial fd password) {fd} where
  inStep := inStep_start fd password ∅
  listening := hfd
  mem_live d := by
    rw [Finset.mem_singleton, Server.Owns]
    exact (or_iff_left (AList.notMem_empty d)).symm

/-- `closeAll` closes what the server holds. -/
theorem Holding.closeAll {s : Server} {live : Finset Int} (h : Holding s live) :
    ledger.Valid live s.closeAll ∧ ledger.run live s.closeAll = ∅ := by
  have hsocket : s.closeAll = (s.clients.keys ++ [s.serverSocket]).map .closed := by
    have hkeys : s.clients.entries.map (fun e ↦ Call.closed e.2.socketFd) =
        s.clients.keys.map .closed := by
      rw [AList.keys, List.keys, List.map_map]
      apply List.map_congr_left
      intro e he
      have hlookup : s.clients.lookup e.1 = some e.2 := List.mem_dlookup s.clients.nodupKeys he
      exact congrArg Call.closed (h.inStep.socketFd e.1 e.2 hlookup)
    have hne : -1 ≠ s.serverSocket := by
      have := h.listening
      omega
    rw [Server.closeAll, hkeys, if_pos hne, List.map_append]
    rfl
  have hnodup : (s.clients.keys ++ [s.serverSocket]).Nodup := by
    refine (s.clients.keys_nodup).append (List.nodup_singleton _) ?_
    rw [List.disjoint_singleton]
    exact h.inStep.listener
  have hmem (d : Int) : d ∈ s.clients.keys ++ [s.serverSocket] ↔ d ∈ live := by
    rw [h.mem_live, Server.Owns, List.mem_append, List.mem_singleton, or_comm]
    rfl
  obtain ⟨hv, hlive⟩ := Ledger.closed_all hnodup fun d hd ↦ (hmem d).mp hd
  rw [hsocket]
  refine ⟨hv, Finset.eq_empty_of_forall_notMem fun d hd ↦ ?_⟩
  obtain ⟨hin, hnot⟩ := (hlive d).mp hd
  exact hnot ((hmem d).mpr hin)

namespace Process

variable {π : Process} {password : Bytes}

theorem Accounted.holding (h : π.Accounted password) (hrun : π.stage.runs = true) :
    Holding π.loop.server π.live := by
  obtain ⟨stage, loop, signal, calls⟩ := π
  cases stage with
  | testing | serving | leaving => exact h
  | starting | failed | returned => exact absurd hrun Bool.false_ne_true

/-- What the kernel may hand out is what the loop may accept. -/
theorem enabled_of_allows (h : Holding π.loop.server π.live) {e : PollEvent} (he : π.allows e) :
    π.loop.enabled e := by
  obtain ⟨stage, ⟨s, phase, taken⟩, signal, calls⟩ := π
  cases e with
  | read incoming received =>
      cases phase with
      | read i =>
          refine ⟨he.1, ?_⟩
          cases incoming with
          | connected d address => exact h.isNew (he.2 d rfl).2
          | acceptFailed | fcntlFailed | ntopFailed => trivial
      | prepare | write => exact he.elim
  | prepare | poll | write | round | rehash => cases phase <;> exact he

theorem descriptor_of_allows {incoming : Incoming} {received : Except Errno Bytes}
    (he : π.allows (.read incoming received)) : ∀ d ∈ incoming.descriptor, d ∉ π.live := by
  obtain ⟨stage, ⟨s, phase, taken⟩, signal, calls⟩ := π
  cases phase with
  | read i => exact fun d hd ↦ (he.2 d hd).2
  | prepare | write => exact he.elim

/-- Every step closes only what is open, and keeps account of it. -/
theorem Accounted.step (h : π.Accounted password) (hs : Ledger.Sound π.calls)
    {e : ProcessEvent} (he : π.enabled e) :
    Ledger.Sound (π.step e).calls ∧ (π.step e).Accounted password := by
  cases e with
  | init outcome =>
      obtain ⟨stage, loop, signal, calls⟩ := π
      obtain ⟨rfl, hnew⟩ : stage = .starting ∧ _ := he
      obtain ⟨rfl, hlive⟩ : loop = _ ∧ Ledger.live calls = ∅ := h
      cases outcome with
      | logFailed | socketFailed =>
          refine ⟨?_, fun d ↦ ?_⟩
          · exact Ledger.sound_append.mpr ⟨hs, trivial⟩
          · change d ∈ Ledger.live (calls ++ []) ↔ d = -1 ∧ d ≠ -1
            rw [List.append_nil, hlive]
            exact iff_of_false (Finset.notMem_empty d) fun hd ↦ hd.2 hd.1
      | fcntlFailed fd | bindFailed fd | listenFailed fd =>
          have hfd := hnew fd rfl
          refine ⟨Ledger.sound_opened.mpr ⟨hs, hfd.2⟩, fun d ↦ ?_⟩
          change d ∈ Ledger.live (calls ++ [.opened fd]) ↔ d = fd ∧ d ≠ -1
          rw [Ledger.live_opened, hlive, insert_empty_eq, Finset.mem_singleton]
          refine (and_iff_left_of_imp fun hd ↦ ?_).symm
          have := hfd.1
          omega
      | listening fd =>
          have hfd := hnew fd rfl
          refine ⟨Ledger.sound_opened.mpr ⟨hs, hfd.2⟩, ?_⟩
          change Holding _ (Ledger.live (calls ++ [.opened fd]))
          rw [Ledger.live_opened, hlive, insert_empty_eq]
          exact holding_initial hfd.1 password
  | signal =>
      refine ⟨hs, ?_⟩
      obtain ⟨stage, loop, signal, calls⟩ := π
      cases stage <;> exact h
  | test =>
      obtain ⟨stage, loop, signal, calls⟩ := π
      obtain rfl : stage = .testing := he
      cases signal <;> exact ⟨hs, h⟩
  | loop e =>
      obtain ⟨stage, loop, signal, calls⟩ := π
      obtain ⟨rfl, hallows⟩ : stage = .serving ∧ _ := he
      have hholding : Holding loop.server (Ledger.live calls) := h
      obtain ⟨hv, hafter⟩ := hholding.step (enabled_of_allows hholding hallows) fun _ _ heq ↦ by
        subst heq
        exact descriptor_of_allows hallows
      refine ⟨Ledger.sound_append.mpr ⟨hs, hv⟩, ?_⟩
      have hlive : Holding (loop.step e).server (Ledger.live (calls ++ loop.calls e)) := by
        rw [Ledger.live_append]
        exact hafter
      cases e <;> exact hlive
  | pollFailed =>
      obtain ⟨stage, loop, signal, calls⟩ := π
      obtain ⟨rfl, -⟩ : stage = .serving ∧ _ := he
      exact ⟨hs, h⟩
  | closeAll =>
      obtain ⟨stage, loop, signal, calls⟩ := π
      obtain rfl : stage = .leaving := he
      obtain ⟨hv, hnone⟩ := Holding.closeAll (s := loop.server) h
      exact ⟨Ledger.sound_append.mpr ⟨hs, hv⟩, Ledger.live_append.trans hnone⟩

end Process

section Run

variable {password : Bytes} {es : List ProcessEvent}

theorem accounted_run (hv : process.Valid (.start password) es) :
    Ledger.Sound (process.run (.start password) es).calls ∧
      (process.run (.start password) es).Accounted password :=
  hv.invariant (I := fun π ↦ Ledger.Sound π.calls ∧ π.Accounted password)
    (fun _ _ he hπ ↦ hπ.2.step hπ.1 he) ⟨Ledger.sound_nil, rfl, rfl⟩

/-- The process never closes a descriptor that is not open.  While it serves, it holds the
server socket and the keys of `_clients`; when `runServer` has returned, everything was
closed as often as it was opened; when `initServer` has failed, the server socket is left
open, if there is one. -/
theorem descriptors_run (hv : process.Valid (.start password) es) :
    let π := process.run (.start password) es
    Ledger.Sound π.calls ∧
    (π.stage.runs = true → ∀ d, d ∈ π.live ↔
      d = π.loop.server.serverSocket ∨ d ∈ π.loop.server.clients) ∧
    (π.stage = .failed → ∀ d, d ∈ π.live ↔ d = π.loop.server.serverSocket ∧ d ≠ -1) ∧
    (π.stage = .returned → ∀ d, d ∉ π.live ∧
      π.calls.count (.opened d) = π.calls.count (.closed d)) := by
  intro π
  obtain ⟨hs, hπ⟩ : Ledger.Sound π.calls ∧ π.Accounted password := accounted_run hv
  refine ⟨hs, fun hrun ↦ (hπ.holding hrun).mem_live, ?_, ?_⟩
  · intro hstage
    rw [Process.Accounted, hstage] at hπ
    exact hπ
  · intro hstage d
    rw [Process.Accounted, hstage] at hπ
    have hd : d ∉ π.live := hπ.symm ▸ Finset.notMem_empty d
    exact ⟨hd, Ledger.count_closed_of_notMem hs hd⟩

/-- A connection is accepted, another one cannot be set up, the first is closed by the
other side, a third gets its descriptor, and a signal ends the process. -/
def servedRun : List ProcessEvent :=
  [.init (.listening 3), .test, .loop .prepare, .loop (.poll fun i ↦ (i == 0, false)),
    .loop (.read (.connected 4 ⟨127, 0, 0, 1⟩) (.ok [])), .loop (.write 0),
    .loop (.read .acceptFailed (.ok [])), .loop (.write 0), .loop .round,
    .test, .loop .prepare, .loop .prepare, .loop (.poll fun _ ↦ (true, false)),
    .loop (.read (.fcntlFailed 5) (.ok [])), .loop (.write 0),
    .loop (.read .acceptFailed (.ok [])), .loop .round,
    .test, .loop .prepare, .loop (.poll fun i ↦ (i == 0, false)),
    .loop (.read (.connected 4 ⟨127, 0, 0, 1⟩) (.ok [])), .loop (.write 0),
    .loop (.read .acceptFailed (.ok [])), .loop (.write 0), .loop .round,
    .test, .loop .prepare, .loop .prepare, .signal, .pollFailed, .closeAll]

theorem descriptors_run_served :
    let π := process.run (.start (lit "pw")) servedRun
    Ledger.Sound π.calls ∧
    (π.stage.runs = true → ∀ d, d ∈ π.live ↔
      d = π.loop.server.serverSocket ∨ d ∈ π.loop.server.clients) ∧
    (π.stage = .failed → ∀ d, d ∈ π.live ↔ d = π.loop.server.serverSocket ∧ d ≠ -1) ∧
    (π.stage = .returned → ∀ d, d ∉ π.live ∧
      π.calls.count (.opened d) = π.calls.count (.closed d)) :=
  descriptors_run (by decide +kernel)

end Run

end IrcServer
