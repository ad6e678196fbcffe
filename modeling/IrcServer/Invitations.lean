import IrcServer.Identity
import IrcServer.ChannelOperations

/-!
# Invitations

`addMember` looks an invitation up under the user name of the client that joins.  A nickname
designates one client; a user name does not, since `handleUser` takes whatever name it is
given.  Two registered clients with one user name are the same to an invitation
(`designates_iff_designated`), and nothing but a registration that is completed under a user
name in use brings this about (`designates_iff`).
-/

namespace IrcServer

open Library

/-! ## What an invitation designates -/

namespace Channel

variable {chan : Channel} {entry : Bytes} {ptr : ClientPtr} {client : Client}

/-- The client is let in by the entry, which is used up. -/
def AdmitsThrough (chan : Channel) (entry : Bytes) (ptr : ClientPtr) (client : Client) : Prop :=
  entry ∈ chan.pendingInvites ∧ entry ∉ (chan.addMember ptr client).pendingInvites ∧
    ptr ∈ (chan.addMember ptr client).members

/-- An entry admits those whose user name it is. -/
theorem admitsThrough_iff (hi : chan.inviteOnly = true) (hkey : chan.hasKey = false)
    (hfull : chan.isFull = false) (hentry : entry ∈ chan.pendingInvites) :
    chan.AdmitsThrough entry ptr client ↔ client.username = entry := by
  rw [AdmitsThrough, addMember_eq]
  constructor
  · rintro ⟨-, hgone, -⟩
    split at hgone
    · simp only [seat, hi, if_true] at hgone
      by_contra hne
      exact hgone (UnorderedSet.mem_erase.mpr ⟨Ne.symm hne, hentry⟩)
    · exact absurd hentry hgone
  · rintro rfl
    have hlet : chan.hasKey = false ∧ chan.Admits client := ⟨hkey, hfull, fun _ ↦ hentry⟩
    rw [if_pos hlet]
    refine ⟨hentry, ?_, UnorderedSet.mem_insert_self ptr _⟩
    simp only [seat, hi, if_true]
    exact UnorderedSet.notMem_erase_self _ _

end Channel

/-- Every invitation to a channel that asks for nothing else admits one registered client at
most. -/
def Server.Designates (s : Server) : Prop :=
  ∀ chan : Channel, chan.inviteOnly = true → chan.hasKey = false → chan.isFull = false →
    ∀ entry ∈ chan.pendingInvites, ∀ d e c c',
      s.clients.lookup d = some c → s.clients.lookup e = some c' →
      c.isRegistered = true → c'.isRegistered = true →
      chan.AdmitsThrough entry (s.ptr d) c → chan.AdmitsThrough entry (s.ptr e) c' → d = e

theorem Client.registeredAs_session {c : Client} {u : Bytes} :
    c.session.RegisteredAs u ↔ c.isRegistered = true ∧ c.username = u := by
  rw [Session.RegisteredAs, registered_session]
  refine and_congr_right fun hreg ↦ name?_eq_some_iff.trans (and_iff_left_of_imp ?_)
  rintro rfl
  exact (isRegistered_iff.mp hreg).2.2

/-- Invitations designate one client each exactly when user names do. -/
theorem designates_iff_designated {s : Server} : s.Designates ↔ s.registry.Designated := by
  constructor
  · intro h i j t t' u hi hj ht ht'
    obtain ⟨c, hc, rfl⟩ := Option.map_eq_some_iff.mp hi
    obtain ⟨c', hc', rfl⟩ := Option.map_eq_some_iff.mp hj
    obtain ⟨hreg, hu⟩ := Client.registeredAs_session.mp ht
    obtain ⟨hreg', hu'⟩ := Client.registeredAs_session.mp ht'
    let chan : Channel :=
      { name := [], inviteOnly := true, pendingInvites := (∅ : UnorderedSet Bytes).insert u }
    have hentry : u ∈ chan.pendingInvites := UnorderedSet.mem_insert_self u _
    exact h chan rfl rfl rfl u hentry i j c c' hc hc' hreg hreg'
      ((Channel.admitsThrough_iff rfl rfl rfl hentry).mpr hu)
      ((Channel.admitsThrough_iff rfl rfl rfl hentry).mpr hu')
  · intro h chan hi hkey hfull entry hentry d e c c' hc hc' hreg hreg' hd he
    rw [Channel.admitsThrough_iff hi hkey hfull hentry] at hd he
    exact h d e _ _ entry (sessions_registry hc) (sessions_registry hc')
      (Client.registeredAs_session.mpr ⟨hreg, hd⟩) (Client.registeredAs_session.mpr ⟨hreg', he⟩)

/-! ## How a user name comes to be held twice -/

/-- The line gives its sender what it lacks to be registered under the user name. -/
def Completes (s : Server) (fd : Int) (cmd : Parser) (username : Bytes) : Prop :=
  (∃ realname, Introduces s fd cmd username realname) ∧ (s.client fd).nickname ≠ [] ∨
    (∃ nickname, Renames s fd cmd nickname ∧ nickname ≠ []) ∧
      (s.client fd).username = username

/-- The line completes a registration under the user name of another registered client. -/
def Clashes (s : Server) (fd : Int) (cmd : Parser) : Prop :=
  ∃ u, u ≠ [] ∧ Completes s fd cmd u ∧
    ∃ d c, d ≠ fd ∧ s.clients.lookup d = some c ∧ c.isRegistered = true ∧ c.username = u

section

variable {s : Server} {fd : Int} {cmd : Parser}

theorem Completes.isAuthenticated {u : Bytes} (h : Completes s fd cmd u) :
    (s.client fd).isAuthenticated = true := by
  obtain ⟨⟨_, -, -, ha, -⟩, -⟩ | ⟨⟨_, ⟨-, -, -, ha⟩, -⟩, -⟩ := h
  · exact ha
  · exact ha

/-- A line gives its authenticated sender a nickname where it asks for a free name. -/
theorem exists_renames_iff {c : Client} (hc : s.clients.lookup fd = some c)
    (ha : c.isAuthenticated = true) :
    (∃ m, cmd.request = .rename (some m) ∧ s.registry.Free (some m)) ↔
      ∃ n, Renames s fd cmd n ∧ n ≠ [] := by
  simp only [Parser.request_eq_rename, name?_eq_some_iff, Renames, Server.client_eq hc]
  constructor
  · rintro ⟨m, ⟨hcmd, n, hp, rfl, hn⟩, hfree⟩
    rw [← name?_eq_some_iff.mpr ⟨rfl, hn⟩, Server.free_registry] at hfree
    exact ⟨n, ⟨hcmd, hp, hfree, ha⟩, hn⟩
  · rintro ⟨n, ⟨hcmd, hp, hfree, -⟩, hn⟩
    rw [← Server.free_registry, name?_eq_some_iff.mpr ⟨rfl, hn⟩] at hfree
    exact ⟨n, ⟨hcmd, n, hp, rfl, hn⟩, hfree⟩

/-- It gives one without user name the user name it introduces. -/
theorem exists_introduces_iff {c : Client} (hc : s.clients.lookup fd = some c)
    (ha : c.isAuthenticated = true) {u : Bytes} (hu : u ≠ []) :
    cmd.request = .introduce (some u) ∧ c.username = [] ↔ ∃ r, Introduces s fd cmd u r := by
  simp only [Parser.request_eq_introduce, name?_eq_some_iff, Introduces, Server.client_eq hc]
  constructor
  · rintro ⟨⟨hcmd, _, r, hp, rfl, -⟩, hnone⟩
    exact ⟨r, hcmd, hp, ha, hnone⟩
  · rintro ⟨r, hcmd, hp, -, hnone⟩
    exact ⟨⟨hcmd, u, r, hp, rfl, hu⟩, hnone⟩

theorem completes_session_iff {c : Client} (hc : s.clients.lookup fd = some c) {u : Bytes}
    (hu : u ≠ []) :
    c.session.Completes s.registry.Free cmd.request u ↔ Completes s fd cmd u := by
  have hclient := Server.client_eq hc
  have hblank : c.session.user = none ↔ c.username = [] := name?_eq_none_iff
  have hnick : c.session.nick ≠ none ↔ c.nickname ≠ [] := not_congr name?_eq_none_iff
  have huser : c.session.user = some u ↔ c.username = u :=
    name?_eq_some_iff.trans (and_iff_left hu)
  constructor
  · rintro ⟨ha, ⟨hr, hu', hn⟩ | ⟨hr, hu'⟩⟩
    · exact Or.inl ⟨(exists_introduces_iff hc ha hu).mp ⟨hr, hblank.mp hu'⟩,
        hclient ▸ hnick.mp hn⟩
    · exact Or.inr ⟨(exists_renames_iff hc ha).mp hr, hclient ▸ huser.mp hu'⟩
  · intro h
    have ha : c.isAuthenticated = true := hclient ▸ h.isAuthenticated
    refine ⟨ha, ?_⟩
    rcases h with ⟨hr, hn⟩ | ⟨hr, hu'⟩
    · obtain ⟨hreq, hnone⟩ := (exists_introduces_iff hc ha hu).mpr hr
      exact Or.inl ⟨hreq, hblank.mpr hnone, hnick.mpr (hclient ▸ hn)⟩
    · exact Or.inr ⟨(exists_renames_iff hc ha).mpr hr, huser.mpr (hclient ▸ hu')⟩

/-- The registry sees a clash exactly where there is one. -/
theorem clashes_registry_iff :
    s.registry.Clashes (.ask fd cmd.request) ↔ Clashes s fd cmd := by
  constructor
  · rintro ⟨i, r, u, t, ha, hi, hcompletes, j, t', hne, hj, ht'⟩
    cases ha
    obtain ⟨c, hc, rfl⟩ := Option.map_eq_some_iff.mp hi
    obtain ⟨c', hc', rfl⟩ := Option.map_eq_some_iff.mp hj
    obtain ⟨hreg, rfl⟩ := Client.registeredAs_session.mp ht'
    have hu := (Client.isRegistered_iff.mp hreg).2.2
    exact ⟨_, hu, (completes_session_iff hc hu).mp hcompletes, j, c', hne, hc', hreg, rfl⟩
  · rintro ⟨u, hu, hcompletes, d, c', hne, hc', hreg, hname⟩
    have hc := Server.lookup_of_isAuthenticated hcompletes.isAuthenticated
    exact ⟨fd, cmd.request, u, _, rfl, sessions_registry hc,
      (completes_session_iff hc hu).mpr hcompletes, d, _, hne, sessions_registry hc',
      Client.registeredAs_session.mpr ⟨hreg, hname⟩⟩

end

/-- A line that is processed completes no registration under a user name in use. -/
def KeepsDesignation (s : Server) (e : Event) : Prop :=
  ∀ fd, e = .line fd → ¬ Clashes s fd (s.nextParsed fd)

/-- The registry's view of the same condition. -/
theorem keepsDesignation_iff {s : Server} {e : Event} :
    KeepsDesignation s e ↔ ∀ a, e.action s = some a → ¬ s.registry.Clashes a := by
  constructor
  · rintro h a ha ⟨i, r, u, t, rfl, hclash⟩
    cases e with
    | line fd =>
        cases ha
        exact h i rfl (clashes_registry_iff.mp ⟨i, _, u, t, rfl, hclash⟩)
    | accept | receive | send | close | rehash => cases ha
  · rintro h fd rfl hclash
    exact h _ rfl (clashes_registry_iff.mpr hclash)

/-- A step keeps user names designating one client exactly when it meets the condition. -/
theorem designated_step_iff {s : Server} {e : Event} (he : e.enabled s)
    (hsound : s.registry.Sound) (hd : s.registry.Designated) :
    (e.step s).registry.Designated ↔ KeepsDesignation s e := by
  rw [registry_step he, keepsDesignation_iff]
  cases ha : e.action s with
  | none => simp [hd]
  | some a => simpa using Registry.designated_step_iff hsound hd a

/-- In every run, invitations designate one registered client at every moment exactly when
no registration is completed under a user name that another registered client has. -/
theorem designates_iff {serverSocket : Int} {password : Bytes} {es : List Event}
    (hv : network.Valid (Server.initial serverSocket password) es) :
    (∀ pre, pre <+: es →
      (network.run (Server.initial serverSocket password) pre).Designates) ↔
    network.Along KeepsDesignation (Server.initial serverSocket password) es := by
  have hstep (s : Server) (e : Event) (he : network.enabled s e)
      (h : s.registry.Sound ∧ s.registry.Designated) :
      (network.step s e).registry.Sound ∧ (network.step s e).registry.Designated ↔
        KeepsDesignation s e := by
    exact (and_iff_right (sound_registry_step he h.1)).trans (designated_step_iff he h.1 h.2)
  have hinitial : (Server.initial serverSocket password).registry.Designated :=
    fun _ _ _ _ _ hi ↦ nomatch hi
  rw [← hv.forall_isPrefix_iff hstep ⟨Registry.sound_empty password, hinitial⟩]
  refine forall₂_congr fun pre hpre ↦ ?_
  rw [designates_iff_designated, and_iff_right (sound_registry (hv.of_isPrefix hpre))]

/-- Two clients register under names of their own. -/
theorem designates_iff_run :
    let es : List Event := [.accept 4 ⟨127, 0, 0, 1⟩, .accept 5 ⟨127, 0, 0, 1⟩,
      .receive 4 (lit "PASS pw\nNICK ann\nUSER ann 0 * :Ann\n"), .line 4, .line 4, .line 4,
      .receive 5 (lit "PASS pw\nUSER bob 0 * :Bob\nNICK bob\n"), .line 5, .line 5, .line 5]
    (∀ pre, pre <+: es → (network.run (Server.initial 3 (lit "pw")) pre).Designates) ↔
      network.Along KeepsDesignation (Server.initial 3 (lit "pw")) es :=
  designates_iff (by decide +kernel)

/-- Two clients register under one user name, and an invitation to either admits the other. -/
theorem not_designates_run :
    let es : List Event := [.accept 4 ⟨127, 0, 0, 1⟩, .accept 5 ⟨127, 0, 0, 1⟩,
      .receive 4 (lit "PASS pw\nNICK ann\nUSER bob 0 * :Ann\n"), .line 4, .line 4, .line 4,
      .receive 5 (lit "PASS pw\nNICK bob\nUSER bob 0 * :Bob\n"), .line 5, .line 5, .line 5]
    network.Valid (Server.initial 3 (lit "pw")) es ∧
      ¬ ∀ pre, pre <+: es → (network.run (Server.initial 3 (lit "pw")) pre).Designates := by
  refine ⟨by decide +kernel, ?_⟩
  intro h
  have hd := h _ (List.prefix_refl _)
  let chan : Channel :=
    { name := lit "#c", inviteOnly := true,
      pendingInvites := (∅ : UnorderedSet Bytes).insert (lit "bob") }
  have hentry : lit "bob" ∈ chan.pendingInvites := UnorderedSet.mem_insert_self _ _
  have heq := hd chan rfl rfl rfl _ hentry 4 5 _ _
    (Server.lookup_of_isAuthenticated (by decide +kernel))
    (Server.lookup_of_isAuthenticated (by decide +kernel)) (by decide +kernel) (by decide +kernel)
    ((Channel.admitsThrough_iff rfl rfl rfl hentry).mpr (by decide +kernel))
    ((Channel.admitsThrough_iff rfl rfl rfl hentry).mpr (by decide +kernel))
  exact absurd heq (by decide)

end IrcServer
