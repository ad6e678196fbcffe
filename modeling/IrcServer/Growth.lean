import IrcServer.Refusals
import IrcServer.Runs

/-!
# What input makes of the clients

Whoever a line comes from and whatever it does, a client comes out of it on the same
connection, with texts appended, and, if it is marked now and was not before, with something
in its write buffer (`Client.Grown`).  A call of `receiveData` either closes the connection
or does nothing but this to the clients (`receiveData_fed`).
-/

namespace IrcServer

open Library Commands

/-! ## Clients after a change of the map -/

namespace Server

variable {s : Server} {fd d : Int} {f : Client → Client} {c : Client}

theorem exists_of_lookup_modify (h : (s.modify fd f).clients.lookup d = some c) :
    ∃ c₀, s.clients.lookup d = some c₀ ∧ (d = fd ∧ c = f c₀ ∨ d ≠ fd ∧ c = c₀) := by
  by_cases hd : d = fd
  · subst hd
    rw [lookup_modify_self] at h
    obtain ⟨c₀, hc₀, rfl⟩ := Option.map_eq_some_iff.mp h
    exact ⟨c₀, hc₀, Or.inl ⟨rfl, rfl⟩⟩
  · rw [lookup_modify_of_ne s fd f hd] at h
    exact ⟨c, h, Or.inr ⟨hd, rfl⟩⟩

theorem lookup_of_clearClient (h : (s.clearClient fd).clients.lookup d = some c) :
    d ≠ fd ∧ s.clients.lookup d = some c := by
  have hd : d ≠ fd := by
    rintro rfl
    exact absurd (h.symm.trans (AList.lookup_erase d s.clients)) nofun
  exact ⟨hd, (AList.lookup_erase_ne hd).symm.trans h⟩

end Server

/-! ## Clients that grow -/

/-- The second client is the first on the same connection after texts were appended; if it
has been marked since, there is something to be sent. -/
structure Client.Grown (c c' : Client) : Prop where
  serial : c'.serial = c.serial
  socketFd : c'.socketFd = c.socketFd
  appended : ∃ ms : List Reply,
    c'.written = c.written ++ ms ∧ c'.writeBuffer = c.writeBuffer ++ ms.flatMap Reply.str
  marked : c'.shouldDisconnect = true → c.shouldDisconnect = true ∨ c'.writeBuffer ≠ []

namespace Client.Grown

variable {c c' c'' : Client}

/-- A client of which only other fields have changed. -/
theorem of_eq (serial : c'.serial = c.serial) (socketFd : c'.socketFd = c.socketFd)
    (written : c'.written = c.written) (writeBuffer : c'.writeBuffer = c.writeBuffer)
    (shouldDisconnect : c'.shouldDisconnect = c.shouldDisconnect) : c.Grown c' :=
  ⟨serial, socketFd, ⟨[], by simp [written], by simp [writeBuffer]⟩,
    fun h ↦ Or.inl (shouldDisconnect ▸ h)⟩

theorem refl (c : Client) : c.Grown c := of_eq rfl rfl rfl rfl rfl

theorem trans (h : c.Grown c') (h' : c'.Grown c'') : c.Grown c'' := by
  obtain ⟨ms, hw, hb⟩ := h.appended
  obtain ⟨ns, hw', hb'⟩ := h'.appended
  refine ⟨h'.serial.trans h.serial, h'.socketFd.trans h.socketFd, ⟨ms ++ ns, ?_, ?_⟩, ?_⟩
  · rw [hw', hw, List.append_assoc]
  · rw [hb', hb, List.flatMap_append, List.append_assoc]
  · intro hmark
    rcases h'.marked hmark with hmark' | hne
    · refine (h.marked hmark').imp id ?_
      intro hne
      rw [hb']
      exact List.append_ne_nil_of_left_ne_nil hne _
    · exact Or.inr hne

end Client.Grown

/-- What a line makes of a client, when the texts it is sent are lines. -/
theorem Change.grown {s : Server} {fd d : Int} {cmd : Parser} {f : Client → Client}
    (hf : Change s fd cmd d f) {c : Client}
    (hlines : ∀ m ∈ (f c).written.drop c.written.length, m.IsLine) : c.Grown (f c) := by
  obtain ⟨hserial, -, -, -, hsocket⟩ := hf.frame c
  refine ⟨hserial, hsocket, hf.appends c, ?_⟩
  cases hf with
  | told ms hms => exact fun h ↦ Or.inl (by simpa [Client.appendAll_eq] using h)
  | marked hd m hm =>
      -- the line that marks a client appends a text to its buffer
      intro _
      have hline : m.IsLine := hlines m (by
        simp [Client.appendToWriteBuffer, Client.setShouldDisconnect])
      exact Or.inr (List.append_ne_nil_of_right_ne_nil _ hline.str_ne_nil)
  | authenticated hd h => exact Or.inl
  | renamed hd n h =>
      exact fun h ↦ Or.inl (by simpa [Client.renamed_eq] using h)
  | introduced hd u r h =>
      exact fun h ↦ Or.inl (by simpa [Client.introduced_eq] using h)

/-! ## Servers that are fed -/

/-- The second server is the first after input of its clients was processed. -/
structure Fed (s s' : Server) : Prop where
  serverSocket : s'.serverSocket = s.serverSocket
  pollfds : s'.pollfds = s.pollfds
  nextSerial : s'.nextSerial = s.nextSerial
  mem_clients : ∀ d, d ∈ s'.clients ↔ d ∈ s.clients
  clients : ∀ d c', s'.clients.lookup d = some c' → ∃ c, s.clients.lookup d = some c ∧ c.Grown c'

namespace Fed

variable {s s' s'' : Server}

theorem refl (s : Server) : Fed s s :=
  ⟨rfl, rfl, rfl, fun _ ↦ Iff.rfl, fun _ c hc ↦ ⟨c, hc, .refl c⟩⟩

theorem trans (h : Fed s s') (h' : Fed s' s'') : Fed s s'' where
  serverSocket := h'.serverSocket.trans h.serverSocket
  pollfds := h'.pollfds.trans h.pollfds
  nextSerial := h'.nextSerial.trans h.nextSerial
  mem_clients d := (h'.mem_clients d).trans (h.mem_clients d)
  clients d c'' hc'' := by
    obtain ⟨c', hc', hgrown'⟩ := h'.clients d c'' hc''
    obtain ⟨c, hc, hgrown⟩ := h.clients d c' hc'
    exact ⟨c, hc, hgrown.trans hgrown'⟩

/-- A write to one client that is an input to it. -/
theorem modify (s : Server) (fd : Int) {f : Client → Client}
    (hf : ∀ c : Client, c.Grown (f c)) : Fed s (s.modify fd f) where
  serverSocket := rfl
  pollfds := rfl
  nextSerial := rfl
  mem_clients _ := Server.mem_modify s fd f
  clients d c' hc' := by
    obtain ⟨c, hc, ⟨-, rfl⟩ | ⟨-, rfl⟩⟩ := Server.exists_of_lookup_modify hc'
    · exact ⟨c, hc, hf c⟩
    · exact ⟨c', hc, .refl c'⟩

theorem processCommand (s : Server) (fd : Int) (cmd : Parser) :
    Fed s (processCommand s fd cmd) := by
  have heff := processCommand_effect s fd cmd
  refine ⟨heff.serverSocket, heff.pollfds, heff.nextSerial, fun d ↦ heff.mem_clients, ?_⟩
  intro d c' hc'
  obtain ⟨f, hf, hl⟩ := heff.lookup d
  obtain ⟨c, hc, rfl⟩ := Option.map_eq_some_iff.mp (hl.symm.trans hc')
  obtain ⟨ms, hms, hw⟩ := says_isLine s fd cmd d
  rw [hc', hc] at hw
  have hdrop : (f c).written.drop c.written.length = ms := by
    rw [Option.some.inj hw, List.drop_left]
  exact ⟨c, hc, hf.grown (hdrop.symm ▸ hms)⟩

theorem serveLine (s : Server) (fd : Int) : Fed s (s.serveLine fd) := by
  rw [Server.serveLine_eq]
  refine (processCommand s fd _).trans (modify _ fd ?_)
  intro c
  rw [Client.takeCommand_eq]
  exact .of_eq rfl rfl rfl rfl rfl

end Fed

/-- `receiveData` closes the connection, or feeds the server. -/
theorem receiveData_fed {s : Server} {fd : Int} (hfd : fd ∈ s.clients)
    (received : Except Errno Bytes) :
    s.receiveData fd received = s.clearClient fd ∨ Fed s (s.receiveData fd received) := by
  rcases receiveData_cases hfd received with h | h | ⟨data, k, hv, h⟩
  · exact Or.inr (h.symm ▸ .refl s)
  · exact Or.inl h
  · right
    rw [h]
    have hinput : ∀ e ∈ Event.receive fd data :: List.replicate k (.line fd),
        ∀ _ : Server, e = .receive fd data ∨ e = .line fd := fun e he _ ↦
      (List.mem_cons.mp he).imp_right List.eq_of_mem_replicate
    refine hv.invariant_along (I := Fed s) (P := fun _ e ↦ e = .receive fd data ∨ e = .line fd)
      (fun t e _ he ht ↦ ht.trans ?_) (System.along_of_forall_mem hinput) (.refl s)
    rcases he with rfl | rfl
    · exact .modify t fd fun c ↦ .of_eq rfl rfl rfl rfl rfl
    · exact .serveLine t fd

end IrcServer
