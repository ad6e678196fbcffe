import IrcServer.Descriptors
import IrcServer.Erasure
import IrcServer.Refinement

/-!
# The levels

The process runs the poll loop, the poll loop runs the network up to the event masks, and
the network implements the registry.  Put together: whatever connects, sends, signals or
fails, the sessions of the process are those of a registry that was joined, asked and left
(`process_registry`), and the one thing assumed is that the kernel hands out descriptors
that are not open.
-/

namespace IrcServer

open Library

/-- The loop of the process is in a state that the poll loop reaches. -/
def Process.Looping (password : Bytes) (π : Process) : Prop :=
  π.stage.runs = true → ∃ fd es, pollLoop.Valid (.start fd password ∅) es ∧
    π.loop = pollLoop.run (.start fd password ∅) es

theorem Process.Looping.step {password : Bytes} {π : Process} (h : π.Looping password)
    (hπ : π.Accounted password) {e : ProcessEvent} (he : π.enabled e) :
    (π.step e).Looping password := by
  obtain ⟨stage, loop, signal, calls⟩ := π
  cases e with
  | init outcome =>
      obtain ⟨rfl, -⟩ : stage = .starting ∧ _ := he
      obtain ⟨rfl, -⟩ : loop = _ ∧ _ := hπ
      cases outcome with
      | listening fd => exact fun _ ↦ ⟨fd, [], trivial, rfl⟩
      | _ => exact fun hrun ↦ absurd hrun Bool.false_ne_true
  | signal => exact h
  | test =>
      obtain rfl : stage = .testing := he
      exact fun _ ↦ h rfl
  | loop e =>
      obtain ⟨rfl, hallows⟩ : stage = .serving ∧ _ := he
      obtain ⟨fd, es, hv, rfl⟩ := h rfl
      have henabled := Process.enabled_of_allows hπ hallows
      refine fun _ ↦ ⟨fd, es ++ [e], ?_, ?_⟩
      · exact System.along_append.mpr ⟨hv, henabled, trivial⟩
      · rw [System.run_append]
        rfl
  | pollFailed =>
      obtain ⟨rfl, -⟩ : stage = .serving ∧ _ := he
      exact fun _ ↦ h rfl
  | closeAll => exact fun hrun ↦ absurd hrun Bool.false_ne_true

section Run

variable {password : Bytes} {es : List ProcessEvent}

/-- Every run of the process is, in its rounds, a run of the poll loop. -/
theorem looping_run (hv : process.Valid (.start password) es) :
    (process.run (.start password) es).Looping password := by
  have hboth := hv.invariant
    (I := fun π ↦ (Ledger.Sound π.calls ∧ π.Accounted password) ∧ π.Looping password)
    (fun _ _ he hπ ↦ ⟨hπ.1.2.step hπ.1.1 he, hπ.2.step hπ.1.2 he⟩)
    ⟨⟨Ledger.sound_nil, rfl, rfl⟩, fun hrun ↦ absurd hrun Bool.false_ne_true⟩
  exact hboth.2

/-- While the process runs, its server is one that the network reaches, up to the event
masks. -/
theorem network_of_process (hv : process.Valid (.start password) es)
    (hrun : (process.run (.start password) es).stage.runs = true) :
    ∃ fd events, network.Valid (.initial fd password) events ∧
      (process.run (.start password) es).loop.server.erase =
        network.run (.initial fd password) events := by
  obtain ⟨fd, loopEvents, hloop, heq⟩ := looping_run hv hrun
  obtain ⟨events, hevents, hserver⟩ := exists_network_run hloop
  refine ⟨fd, events, hevents, ?_⟩
  rw [hserver]
  exact congrArg (fun σ : PollLoop ↦ σ.server.erase) heq

/-- Nobody founds a channel. -/
theorem channels_of_process (hv : process.Valid (.start password) es)
    (hrun : (process.run (.start password) es).stage.runs = true) :
    (process.run (.start password) es).loop.server.channels = ∅ := by
  obtain ⟨fd, events, hevents, herase⟩ := network_of_process hv hrun
  have hchan := ((ordinary_initial fd password).run hevents).channels
  rwa [← herase] at hchan

/-- The masks are not seen by the registry. -/
theorem registry_erase (s : Server) : s.erase.registry = s.registry := rfl

/-- While the process runs, its state is one that the poll loop reaches, up to the event
masks its server is one that the network reaches, and its sessions are those of a run of the
registry that nobody had joined, and satisfy the registry's invariants. -/
theorem process_registry (hv : process.Valid (.start password) es)
    (hrun : (process.run (.start password) es).stage.runs = true) :
    let π := process.run (.start password) es
    ∃ fd loopEvents events actions,
      (pollLoop.Valid (.start fd password ∅) loopEvents ∧
        π.loop = pollLoop.run (.start fd password ∅) loopEvents) ∧
      (network.Valid (.initial fd password) events ∧
        π.loop.server.erase = network.run (.initial fd password) events) ∧
      ((Registry.system Int Bytes).Valid (.empty password) actions ∧
        π.loop.server.registry = (Registry.system Int Bytes).run (.empty password) actions) ∧
      π.loop.server.registry.Sound := by
  intro π
  obtain ⟨fd, loopEvents, hloop, heq⟩ := looping_run hv hrun
  obtain ⟨events, hevents, hserver⟩ := exists_network_run hloop
  obtain ⟨actions, hactions, hregistry⟩ := refinement.exists_run hevents
  have hsound := sound_registry hevents
  have herase : π.loop.server.erase = network.run (.initial fd password) events := by
    rw [hserver]
    exact congrArg (fun σ : PollLoop ↦ σ.server.erase) heq
  refine ⟨fd, loopEvents, events, actions, ⟨hloop, heq⟩, ⟨hevents, herase⟩, ?_, ?_⟩
  · refine ⟨hactions, ?_⟩
    rw [← registry_erase, herase]
    exact hregistry.symm
  · rw [← registry_erase, herase]
    exact hsound

/-- A client registers, while a second one connects; that one gives the password and the
beginning of a nickname. -/
def registeringRun : List ProcessEvent := servedRun.take 12 ++
  [.loop (.poll fun _ ↦ (true, false)),
    .loop (.read (.connected 5 ⟨127, 0, 0, 2⟩) (.ok [])), .loop (.write 0),
    .loop (.read .acceptFailed (.ok (lit "PASS pw\nNICK ann\nUSER ann 0 * :Ann\n"))),
    .loop (.write 0), .loop (.read .acceptFailed (.ok [])), .loop (.write 0), .loop .round,
    .test, .loop .prepare, .loop .prepare, .loop .prepare,
    .loop (.poll fun i ↦ (i == 2, false)),
    .loop (.read .acceptFailed (.ok [])), .loop (.write 0),
    .loop (.read .acceptFailed (.ok [])), .loop (.write 0),
    .loop (.read .acceptFailed (.ok (lit "PASS pw\nNICK bo"))), .loop (.write 0)]

theorem process_registry_served :
    let π := process.run (.start (lit "pw")) registeringRun
    ∃ fd loopEvents events actions,
      (pollLoop.Valid (.start fd (lit "pw") ∅) loopEvents ∧
        π.loop = pollLoop.run (.start fd (lit "pw") ∅) loopEvents) ∧
      (network.Valid (.initial fd (lit "pw")) events ∧
        π.loop.server.erase = network.run (.initial fd (lit "pw")) events) ∧
      ((Registry.system Int Bytes).Valid (.empty (lit "pw")) actions ∧
        π.loop.server.registry =
          (Registry.system Int Bytes).run (.empty (lit "pw")) actions) ∧
      π.loop.server.registry.Sound :=
  process_registry (by decide +kernel) (by decide +kernel)

/-- The first client is registered, and the second is authenticated. -/
example :
    let s := (process.run (.start (lit "pw")) registeringRun).loop.server
    (s.client 4).isRegistered = true ∧ (s.client 5).isRegistered = false ∧
      (s.client 5).isAuthenticated = true := by decide +kernel

end Run

end IrcServer
