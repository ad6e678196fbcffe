import IrcServer.Refinement

/-!
# Who is who

What the registry's invariants say about the server: a client is authenticated exactly
when it has presented the password, only authenticated clients have a name, and a
nickname designates one client.
-/

namespace IrcServer

open Library

variable {serverSocket : Int} {password : Bytes} {es : List Event}

theorem sessions_registry {s : Server} {d : Int} {c : Client}
    (hc : s.clients.lookup d = some c) : s.registry.sessions d = some c.session :=
  congrArg (Option.map Client.session) hc

/-- In every run, a client is authenticated exactly when one of its lines since it was
accepted was a `PASS` with the password, and only then can it have a name. -/
theorem isAuthenticated_iff_presented
    (hv : network.Valid (Server.initial serverSocket password) es) {d : Int} {c : Client}
    (hc : (network.run (Server.initial serverSocket password) es).clients.lookup d = some c) :
    (c.isAuthenticated = true ↔ ∃ l ∈ c.executed, (Parser.parse l).command = lit "PASS" ∧
      (Parser.parse l).params.head? = some password) ∧
    (c.nickname ≠ [] ∨ c.username ≠ [] → c.isAuthenticated = true) := by
  have hsound := sound_registry hv
  have hpassword : (network.run (Server.initial serverSocket password) es).registry.password =
      password := password_run _ es
  constructor
  · have h := hsound.authenticated_iff d _ (sessions_registry hc)
    rw [hpassword] at h
    refine h.trans ?_
    simp only [Client.session, List.mem_map, Parser.request_eq_present]
  · intro hname
    refine hsound.named d _ (sessions_registry hc) (hname.imp ?_ ?_)
    · exact fun hn h ↦ hn (name?_eq_none_iff.mp h)
    · exact fun hu h ↦ hu (name?_eq_none_iff.mp h)

/-- A wrong password and the right one, and a nickname. -/
theorem isAuthenticated_iff_presented_run :
    let s := network.run (Server.initial 3 (lit "pw")) [.accept 4 ⟨127, 0, 0, 1⟩,
      .receive 4 (lit "PASS no\nPASS pw\nNICK bob\n"), .line 4, .line 4, .line 4]
    (s.client 4).nickname = lit "bob" ∧ ((s.client 4).isAuthenticated = true ↔
      ∃ l ∈ (s.client 4).executed, (Parser.parse l).command = lit "PASS" ∧
        (Parser.parse l).params.head? = some (lit "pw")) ∧
    ((s.client 4).nickname ≠ [] ∨ (s.client 4).username ≠ [] →
      (s.client 4).isAuthenticated = true) :=
  ⟨by decide +kernel, isAuthenticated_iff_presented (by decide +kernel)
    (Server.lookup_of_isAuthenticated (by decide +kernel))⟩

/-- Two clients with the same non-empty nickname are one. -/
theorem fd_eq_of_nickname_eq (hv : network.Valid (Server.initial serverSocket password) es)
    {d e : Int} {c c' : Client}
    (hc : (network.run (Server.initial serverSocket password) es).clients.lookup d = some c)
    (hc' : (network.run (Server.initial serverSocket password) es).clients.lookup e = some c')
    (hn : c.nickname ≠ []) (heq : c.nickname = c'.nickname) : d = e :=
  (sound_registry hv).unique d e _ _ c.nickname (sessions_registry hc) (sessions_registry hc')
    (name?_eq_some_iff.mpr ⟨rfl, hn⟩) (name?_eq_some_iff.mpr ⟨heq.symm, hn⟩)

/-- In every run no two clients have the same non-empty nickname, so that the search for a
nickname does not depend on the order in which it visits the clients. -/
theorem nickname_unique (hv : network.Valid (Server.initial serverSocket password) es) :
    let s := network.run (Server.initial serverSocket password) es
    (∀ d e c c', s.clients.lookup d = some c → s.clients.lookup e = some c' → c.nickname ≠ [] →
      c.nickname = c'.nickname → d = e) ∧
    ∀ n, n ≠ [] → ∀ clients : UnorderedMap Int Client, clients.entries.Perm s.clients.entries →
      ({ s with clients := clients } : Server).getClientByNick n = s.getClientByNick n := by
  constructor
  · intro d e c c' hc hc'
    exact fd_eq_of_nickname_eq hv hc hc'
  · intro n hn clients hperm
    apply UnorderedMap.findFirst_eq_of_perm hperm
    intro d e c c' hc hc' hp hp'
    have hcn : c.nickname = n := beq_iff_eq.mp hp
    have hcn' : c'.nickname = n := beq_iff_eq.mp hp'
    exact fd_eq_of_nickname_eq hv hc hc' (hcn ▸ hn) (hcn.trans hcn'.symm)

/-- Two clients that want the same nickname. -/
theorem nickname_unique_run :
    let s := network.run (Server.initial 3 (lit "pw")) [.accept 4 ⟨127, 0, 0, 1⟩,
      .accept 5 ⟨127, 0, 0, 1⟩, .receive 4 (lit "PASS pw\nNICK bob\n"),
      .receive 5 (lit "PASS pw\nNICK bob\n"), .line 5, .line 5, .line 4, .line 4]
    s.getClientByNick (lit "bob") = some 5 ∧
    (∀ d e c c', s.clients.lookup d = some c → s.clients.lookup e = some c' → c.nickname ≠ [] →
      c.nickname = c'.nickname → d = e) ∧
    ∀ n, n ≠ [] → ∀ clients : UnorderedMap Int Client, clients.entries.Perm s.clients.entries →
      ({ s with clients := clients } : Server).getClientByNick n = s.getClientByNick n :=
  ⟨by decide +kernel, nickname_unique (by decide +kernel)⟩

end IrcServer
