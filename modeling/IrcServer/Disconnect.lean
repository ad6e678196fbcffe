import IrcServer.Names

/-!
# Clients marked for disconnection

A wrong password and `QUIT` set `shouldDisconnect`, which `runServer` looks at when the
write buffer has been sent.  `receiveData` does not look at it: the lines a marked client
sends until then are processed like any other.  Four kinds of line take effect
(`Serves`), and a marked client is left unserved exactly in the runs without them
(`unserved_iff`).
-/

namespace IrcServer

open Library Commands

variable {serverSocket : Int} {password : Bytes} {es : List Event}

/-- A line that does more than answer its sender: the right password, an acceptable
nickname, a first user name, or a text for somebody else. -/
def Serves (s : Server) (fd : Int) (cmd : Parser) : Prop :=
  Authenticates s fd cmd ∨ (∃ n, Renames s fd cmd n) ∨ (∃ u r, Introduces s fd cmd u r) ∨
    ∃ d t m, d ≠ fd ∧ Forwards s fd cmd d t m

/-- Between the two states nothing changes for the client under `fd`, its buffers, mark and
real name apart, and nothing at all for the others and the channels. -/
structure Unserved (s s' : Server) (fd : Int) : Prop where
  isAuthenticated : (s'.client fd).isAuthenticated = (s.client fd).isAuthenticated
  nickname : (s'.client fd).nickname = (s.client fd).nickname
  username : (s'.client fd).username = (s.client fd).username
  isRegistered : (s'.client fd).isRegistered = (s.client fd).isRegistered
  others : ∀ d, d ≠ fd → s'.clients.lookup d = s.clients.lookup d
  channels : s'.channels = s.channels

namespace Unserved

variable {s s' s'' : Server} {fd : Int}

theorem refl (s : Server) (fd : Int) : Unserved s s fd := ⟨rfl, rfl, rfl, rfl, fun _ _ ↦ rfl, rfl⟩

theorem symm (h : Unserved s s' fd) : Unserved s' s fd :=
  ⟨h.isAuthenticated.symm, h.nickname.symm, h.username.symm, h.isRegistered.symm,
    fun d hd ↦ (h.others d hd).symm, h.channels.symm⟩

theorem trans (h : Unserved s s' fd) (h' : Unserved s' s'' fd) : Unserved s s'' fd where
  isAuthenticated := h'.isAuthenticated.trans h.isAuthenticated
  nickname := h'.nickname.trans h.nickname
  username := h'.username.trans h.username
  isRegistered := h'.isRegistered.trans h.isRegistered
  others d hd := (h'.others d hd).trans (h.others d hd)
  channels := h'.channels.trans h.channels

/-- A write to the client's own record that leaves its identity alone. -/
theorem modify (s : Server) (fd : Int) {f : Client → Client}
    (ha : ∀ c, (f c).isAuthenticated = c.isAuthenticated) (hn : ∀ c, (f c).nickname = c.nickname)
    (hu : ∀ c, (f c).username = c.username) : Unserved s (s.modify fd f) fd := by
  have hfield {β : Type} (π : Client → β) (hπ : ∀ c, π (f c) = π c) :
      π ((s.modify fd f).client fd) = π (s.client fd) := by
    cases hc : s.clients.lookup fd with
    | none => simp [Server.client, hc]
    | some c => rw [Server.client_modify_self hc, hπ, Server.client_eq hc]
  refine ⟨hfield _ ha, hfield _ hn, hfield _ hu, hfield _ ?_,
    fun d hd ↦ Server.lookup_modify_of_ne s fd f hd, rfl⟩
  intro c
  rw [Client.isRegistered, ha, hn, hu, Client.isRegistered]

theorem takeCommand (s : Server) (fd : Int) : Unserved s (s.takeCommand fd) fd := by
  have h := Client.takeCommand_eq
  apply modify s fd
  · intro c
    rw [h]
    rfl
  · intro c
    rw [h]
    rfl
  · intro c
    rw [h]
    rfl

end Unserved

/-- A line that is none of the four kinds leaves its sender unserved. -/
theorem unserved_of_not_serves {s : Server} {fd : Int} {cmd : Parser} (ho : s.channels = ∅)
    (h : ¬ Serves s fd cmd) : Unserved s (processCommand s fd cmd) fd := by
  have heff := processCommand_effect s fd cmd
  generalize processCommand s fd cmd = s' at heff
  cases heff with
  | silent _ => exact .refl s fd
  | answered m _ _ => exact .modify s fd (fun _ ↦ rfl) (fun _ ↦ rfl) fun _ ↦ rfl
  | marked m _ _ =>
      rw [Server.reply, Server.modify_modify]
      exact .modify s fd (fun _ ↦ rfl) (fun _ ↦ rfl) fun _ ↦ rfl
  | authenticated ha => exact absurd (Or.inl ha) h
  | renamed n hn => exact absurd (Or.inr (Or.inl ⟨n, hn⟩)) h
  | introduced u r hi => exact absurd (Or.inr (Or.inr (Or.inl ⟨u, r, hi⟩))) h
  | forwarded d t m hf =>
      have hd : d = fd := by
        by_contra hne
        exact h (Or.inr (Or.inr (Or.inr ⟨d, t, m, hne, hf⟩)))
      subst hd
      exact .modify s d (fun _ ↦ rfl) (fun _ ↦ rfl) fun _ ↦ rfl
  | announced _ _ _ hne => exact absurd ho hne

/-- A line of one of the four kinds does not. -/
theorem not_unserved_of_serves {s : Server} {fd : Int} {l : Bytes} (hfd : fd ∈ s.clients)
    (h : Serves s fd (Parser.parse l)) :
    ¬ Unserved s (processCommand s fd (Parser.parse l)) fd := by
  intro hu
  rcases h with ha | ⟨n, hn⟩ | ⟨u, r, hi⟩ | ⟨d, t, m, hne, hf⟩
  · rw [processCommand_of_authenticates ha] at hu
    obtain ⟨c, hc⟩ := UnorderedMap.mem_iff_lookup.mp hfd
    have hauth := hu.isAuthenticated
    rw [Server.client_modify_self hc, ha.2.2] at hauth
    cases hauth
  · rw [processCommand_of_renames hn] at hu
    have hc := Server.lookup_of_isAuthenticated hn.2.2.2
    have hnick := hu.nickname
    rw [Server.client_modify_self hc, Client.renamed_eq] at hnick
    exact Server.isNicknameTaken_eq_false_iff.mp hn.2.2.1 fd _ hc hnick.symm
  · rw [processCommand_of_introduces hi] at hu
    have hc := Server.lookup_of_isAuthenticated hi.2.2.1
    have huser := hu.username
    rw [Server.client_modify_self hc, Client.introduced_eq] at huser
    obtain ⟨-, ⟨a, b, rest, hp⟩, -, hblank⟩ := hi
    have hdrop : u ∈ (Parser.parse l).params.dropLast := by simp [hp]
    exact (Parser.isToken_of_mem_dropLast hdrop).ne_nil (huser.trans hblank)
  · rw [processCommand_of_forwards hf] at hu
    obtain ⟨c, hc, -⟩ := Server.getClientByNick_eq_some hf.2.2.2.2.2
    have hsame := hu.others d hne
    rw [Server.reply, Server.lookup_modify_self, hc, Option.map_some] at hsame
    have hlen := congrArg (fun c : Client ↦ c.written.length) (Option.some.inj hsame)
    simp [Client.appendToWriteBuffer] at hlen

/-- A turn of the loop leaves its client unserved exactly when its line is none of the four
kinds. -/
theorem unserved_serveLine_iff {s : Server} {fd : Int} (ho : s.channels = ∅)
    (hfd : fd ∈ s.clients) :
    Unserved s (s.serveLine fd) fd ↔ ¬ Serves s fd (s.nextParsed fd) := by
  rw [Server.serveLine_eq]
  have htake := Unserved.takeCommand (processCommand s fd (s.nextParsed fd)) fd
  constructor
  · exact fun hu hs ↦ not_unserved_of_serves hfd hs (hu.trans htake.symm)
  · exact fun hs ↦ (unserved_of_not_serves ho hs).trans htake

/-! ## Runs -/

/-- Input from one client: bytes, or a line that is processed. -/
def Event.IsInput (fd : Int) : Event → Prop
  | receive d _ | line d => d = fd
  | accept .. | send .. | close _ | rehash _ => False

/-- Whatever comes in from a marked client leaves it unserved. -/
def NeverServed (s : Server) (es : List Event) : Prop :=
  ∀ pre mid fd, pre ++ mid <+: es → (∀ e ∈ mid, e.IsInput fd) →
    ((network.run s pre).client fd).shouldDisconnect = true →
    Unserved (network.run s pre) (network.run s (pre ++ mid)) fd

/-- On the connection on which it was marked, a client keeps its authentication status, its
names and its registration status, whatever happens in between. -/
def StaysAsMarked (s : Server) (es : List Event) : Prop :=
  ∀ pre mid, pre ++ mid <+: es → ∀ d c c', (network.run s pre).clients.lookup d = some c →
    (network.run s (pre ++ mid)).clients.lookup d = some c' → c'.serial = c.serial →
    c.shouldDisconnect = true → c'.isAuthenticated = c.isAuthenticated ∧
      c'.nickname = c.nickname ∧ c'.username = c.username ∧ c'.isRegistered = c.isRegistered

/-- The condition under which a step leaves marked clients unserved. -/
def IgnoresMarked (s : Server) (e : Event) : Prop :=
  ∀ fd, e = .line fd → (s.client fd).shouldDisconnect = true → ¬ Serves s fd (s.nextParsed fd)

section Ignoring

variable {s : Server}

theorem neverServed_of_ignoresMarked {mid : List Event} {fd : Int}
    (hv : network.Valid s mid) (hi : network.Along IgnoresMarked s mid) (ho : Ordinary s)
    (hinput : ∀ e ∈ mid, e.IsInput fd) (hmark : (s.client fd).shouldDisconnect = true) :
    Unserved s (network.run s mid) fd := by
  induction mid generalizing s with
  | nil => exact .refl s fd
  | cons e mid ih =>
      have hrest := ih hv.2 hi.2 (ho.step hv.1) fun e' he' ↦ hinput e' (List.mem_cons_of_mem e he')
      have hc := Server.lookup_of_shouldDisconnect hmark
      have hfd : fd ∈ s.clients := UnorderedMap.mem_iff_lookup.mpr ⟨_, hc⟩
      have hstep : Unserved s (e.step s) fd ∧
          ((e.step s).client fd).shouldDisconnect = true := by
        cases e with
        | receive d data =>
            obtain rfl : d = fd := hinput _ List.mem_cons_self
            refine ⟨.modify s d (fun _ ↦ rfl) (fun _ ↦ rfl) fun _ ↦ rfl, ?_⟩
            change ((s.modify d _).client d).shouldDisconnect = true
            rw [Server.client_modify_self hc]
            exact hmark
        | line d =>
            obtain rfl : d = fd := hinput _ List.mem_cons_self
            refine ⟨(unserved_serveLine_iff ho.channels hfd).mpr (hi.1 d rfl hmark), ?_⟩
            obtain ⟨f, hf, hl⟩ := lookup_serveLine_self hc
            change ((s.serveLine d).client d).shouldDisconnect = true
            rw [Server.client_eq hl, Client.takeCommand_eq]
            exact hf.shouldDisconnect hmark
        | accept | send | close | rehash => exact (hinput _ List.mem_cons_self).elim
      exact hstep.1.trans (hrest hstep.2)

theorem staysAsMarked_of_ignoresMarked (hv : network.Valid s es) (ho : Ordinary s)
    (hi : network.Along IgnoresMarked s es) : StaysAsMarked s es := by
  intro pre mid hmid d c c' hc hc' hserial hmark
  rw [network.run_append] at hc'
  have hpre : pre <+: es := (List.prefix_append pre mid).trans hmid
  refine (connection_induct (P := fun c' ↦ (c'.isAuthenticated = c.isAuthenticated ∧
      c'.nickname = c.nickname ∧ c'.username = c.username ∧ c'.isRegistered = c.isRegistered) ∧
      c'.shouldDisconnect = true) (Q := IgnoresMarked) ?_
    (hv.of_middle hmid) (hi.of_middle hmid) (ho.run (hv.of_isPrefix hpre)) hc
    ⟨⟨rfl, rfl, rfl, rfl⟩, hmark⟩ hc' hserial).1
  intro s e c₁ c₂ _ _ hig hc₁ _ hm ⟨hsame, hmark⟩
  refine ⟨?_, hm.shouldDisconnect hmark⟩
  cases hm with
  | io r w he => exact hsame
  | line fd he f hf =>
      have hserves (hd : d = fd) : ¬ Serves s fd (s.nextParsed fd) := by
        subst hd
        exact hig d he (by rw [Server.client_eq hc₁]; exact hmark)
      have hf' : (f c₁).isAuthenticated = c.isAuthenticated ∧ (f c₁).nickname = c.nickname ∧
          (f c₁).username = c.username ∧ (f c₁).isRegistered = c.isRegistered := by
        cases hf with
        | told ms hms => simpa [Client.appendAll_eq, Client.isRegistered] using hsame
        | marked hd m hm => exact hsame
        | authenticated hd h => exact absurd (Or.inl h) (hserves hd)
        | renamed hd n h => exact absurd (Or.inr (Or.inl ⟨n, h⟩)) (hserves hd)
        | introduced hd u r h => exact absurd (Or.inr (Or.inr (Or.inl ⟨u, r, h⟩))) (hserves hd)
      split
      · rw [Client.takeCommand_eq]
        exact hf'
      · exact hf'

end Ignoring

/-- In a run, marked clients are left unserved if and only if none of them sends a line of
the four kinds. -/
theorem unserved_iff (hv : network.Valid (Server.initial serverSocket password) es) :
    NeverServed (Server.initial serverSocket password) es ∧
      StaysAsMarked (Server.initial serverSocket password) es ↔
    ∀ pre fd, pre ++ [.line fd] <+: es →
      ((network.run (Server.initial serverSocket password) pre).client fd).shouldDisconnect =
        true →
      ¬ Serves (network.run (Server.initial serverSocket password) pre) fd
        ((network.run (Server.initial serverSocket password) pre).nextParsed fd) := by
  have ho := ordinary_initial serverSocket password
  constructor
  · rintro ⟨hnever, -⟩ pre fd hpre hmark
    have hpre' : pre <+: es := (List.prefix_append pre _).trans hpre
    have hu := hnever pre [.line fd] fd hpre (by simp [Event.IsInput]) hmark
    rw [network.run_append] at hu
    have hfd := UnorderedMap.mem_iff_lookup.mpr ⟨_, Server.lookup_of_shouldDisconnect hmark⟩
    exact (unserved_serveLine_iff (ho.run (hv.of_isPrefix hpre')).channels hfd).mp hu
  · intro hserves
    have hi : network.Along IgnoresMarked (Server.initial serverSocket password) es := by
      apply System.along_iff.mpr
      intro pre e hpre fd he hmark
      subst he
      exact hserves pre fd hpre hmark
    refine ⟨?_, staysAsMarked_of_ignoresMarked hv ho hi⟩
    intro pre mid fd hmid hinput hmark
    rw [network.run_append]
    exact neverServed_of_ignoresMarked (hv.of_middle hmid) (hi.of_middle hmid)
      (ho.run (hv.of_isPrefix ((List.prefix_append pre mid).trans hmid))) hinput hmark

/-- A client sends a wrong password and leaves. -/
theorem unserved_iff_run :
    let s := Server.initial 3 (lit "pw")
    let es : List Event := [.accept 4 ⟨127, 0, 0, 1⟩, .receive 4 (lit "PASS no\n"), .line 4,
      .send 4 36, .close 4]
    NeverServed s es ∧ StaysAsMarked s es ↔ ∀ pre fd, pre ++ [.line fd] <+: es →
      ((network.run s pre).client fd).shouldDisconnect = true →
      ¬ Serves (network.run s pre) fd ((network.run s pre).nextParsed fd) :=
  unserved_iff (by decide +kernel)

/-- A wrong password and then the right one: the client is marked, and then authenticated. -/
theorem marked_authenticated :
    let s := Server.initial 3 (lit "pw")
    let es : List Event := [.accept 4 ⟨127, 0, 0, 1⟩, .receive 4 (lit "PASS no\nPASS pw\n"),
      .line 4, .line 4]
    network.Valid s es ∧ ¬ (NeverServed s es ∧ StaysAsMarked s es) := by
  refine ⟨by decide +kernel, ?_⟩
  intro h
  have hu := h.1 [.accept 4 ⟨127, 0, 0, 1⟩, .receive 4 (lit "PASS no\nPASS pw\n"), .line 4]
    [.line 4] 4 (List.prefix_refl _) (by simp [Event.IsInput]) (by decide +kernel)
  exact absurd hu.isAuthenticated (by decide +kernel)

end IrcServer
