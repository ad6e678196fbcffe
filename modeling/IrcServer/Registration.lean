import IrcServer.Refinement

/-!
# Registration

A client becomes registered by the line that completes its name, and is welcomed by that
line.  Both halves of "registered for good and welcomed once" fail in one way only:
`handleNick` accepts the empty nickname of `NICK :`, which takes a registered client's
registration away and lets it be welcomed again (`registered_for_good_iff`).
-/

namespace IrcServer

open Library

variable {serverSocket : Int} {password : Bytes} {es : List Event}

/-- `NICK :` from a registered client, while everybody has a nickname. -/
def Unnames (s : Server) (fd : Int) (cmd : Parser) : Prop :=
  (s.client fd).isRegistered = true ∧ cmd.command = lit "NICK" ∧ cmd.params.head? = some [] ∧
    ∀ d c, s.clients.lookup d = some c → c.nickname ≠ []

theorem unnames_iff {s : Server} {fd : Int} {c : Client} (hc : s.clients.lookup fd = some c)
    (hreg : c.isRegistered = true) {cmd : Parser} :
    Unnames s fd cmd ↔ cmd.request = .rename none ∧ s.registry.Free none := by
  have hfree : s.registry.Free none ↔ ∀ d c, s.clients.lookup d = some c → c.nickname ≠ [] :=
    (Server.free_registry (n := [])).trans Server.isNicknameTaken_eq_false_iff
  have hrequest : cmd.request = .rename none ↔
      cmd.command = lit "NICK" ∧ cmd.params.head? = some [] := by
    simp [Parser.request_eq_rename]
  rw [Unnames, Server.client_eq hc, hfree, hrequest, and_assoc]
  exact and_iff_right hreg

/-- The one step that takes a client's registration away. -/
theorem isRegistered_step_iff {s : Server} {e : Event} (he : e.enabled s) {d : Int}
    {c c' : Client} (hc : s.clients.lookup d = some c) (hreg : c.isRegistered = true)
    (hc' : (e.step s).clients.lookup d = some c') :
    c'.isRegistered = true ↔ ¬ (e = .line d ∧ Unnames s d (s.nextParsed d)) := by
  have hstep := registry_step he
  have hsession : (e.step s).registry.sessions d = some c'.session :=
    congrArg (Option.map Client.session) hc'
  have h₀ : s.registry.sessions d = some c.session := congrArg (Option.map Client.session) hc
  rw [unnames_iff hc hreg]
  cases ha : e.action s with
  | none =>
      rw [hstep, ha, Option.elim_none, h₀] at hsession
      have hsame : c'.isRegistered = true := by
        rw [← Client.registered_session, ← Option.some.inj hsession, Client.registered_session]
        exact hreg
      refine iff_of_true hsame ?_
      rintro ⟨rfl, -⟩
      cases ha
  | some a =>
      rw [hstep, ha, Option.elim_some] at hsession
      have hjoin : a ≠ .join d := by
        rintro rfl
        exact absurd (h₀.symm.trans (refinement.enabled s e he _ ha d rfl)) (by simp)
      rw [← Client.registered_session, Registry.registered_step_iff h₀
        (Client.registered_session.mpr hreg) hjoin hsession]
      refine not_congr ⟨?_, ?_⟩
      · rintro ⟨rfl, hfree⟩
        cases e with
        | line fd =>
            obtain ⟨rfl, hreq⟩ : fd = d ∧ (s.nextParsed fd).request = .rename none := by
              simpa [Event.action] using ha
            exact ⟨rfl, hreq, hfree⟩
        | accept | receive | send | close | rehash => simp [Event.action] at ha
      · rintro ⟨rfl, hreq, hfree⟩
        rw [Event.action, hreq] at ha
        exact ⟨(Option.some.inj ha).symm, hfree⟩

/-! ## Welcomes -/

/-- Only authenticated clients have a name, and the welcome has been sent once to those
that are registered. -/
structure Client.Welcomed (c : Client) : Prop where
  named : c.nickname ≠ [] ∨ c.username ≠ [] → c.isAuthenticated = true
  welcomes : c.written.countP Reply.isWelcome = if c.isRegistered then 1 else 0

/-- The condition under which a step keeps registrations. -/
def KeepsNames (s : Server) (e : Event) : Prop :=
  ∀ fd, e = .line fd → ¬ Unnames s fd (s.nextParsed fd)

namespace Client.Welcomed

theorem accepted (fd : Int) (address : InAddr) (serial : Nat) :
    (Client.accepted fd address serial).Welcomed := ⟨by simp [Client.accepted], rfl⟩

theorem appendAll {c : Client} (h : c.Welcomed) {ms : List Reply}
    (hms : ∀ m ∈ ms, m.isWelcome = false) : (c.appendAll ms).Welcomed := by
  have hnone : ms.countP Reply.isWelcome = 0 := List.countP_eq_zero.mpr (by simpa using hms)
  rw [appendAll_eq]
  refine ⟨h.named, ?_⟩
  rw [List.countP_append, hnone, Nat.add_zero, h.welcomes]
  rfl

theorem setAuthenticated {c : Client} (h : c.Welcomed) (ha : c.isAuthenticated = false) :
    (c.setAuthenticated true).Welcomed := by
  have hnick : c.nickname = [] := by
    by_contra hn
    exact absurd (h.named (Or.inl hn)) (by simp [ha])
  refine ⟨fun _ ↦ rfl, ?_⟩
  have hw := h.welcomes
  simp only [isRegistered, ha, hnick, Client.setAuthenticated] at hw ⊢
  exact hw

theorem renamed {c : Client} (h : c.Welcomed) (ha : c.isAuthenticated = true) {n : Bytes}
    (hn : c.isRegistered = true → n ≠ []) : (c.renamed n).Welcomed := by
  rw [Client.renamed_eq]
  refine ⟨fun _ ↦ ha, ?_⟩
  rw [List.countP_append]
  have hw := h.welcomes
  have hreg' : (c.setNickname n).isRegistered = true ↔ n ≠ [] ∧ c.username ≠ [] := by
    rw [isRegistered_iff]
    exact and_iff_right ha
  change c.written.countP _ + _ = if (c.setNickname n).isRegistered then 1 else 0
  by_cases hreg : c.isRegistered = true
  · have huser := (isRegistered_iff.mp hreg).2.2
    rw [hw, renameTexts, if_pos hreg, if_pos hreg, if_pos (hreg'.mpr ⟨hn hreg, huser⟩)]
    rfl
  · rw [hw, renameTexts, if_neg hreg, if_neg hreg]
    by_cases hnew : (c.setNickname n).isRegistered = true
    · rw [if_pos hnew, if_pos hnew]
      rfl
    · rw [if_neg hnew, if_neg hnew]
      rfl

theorem introduced {c : Client} (h : c.Welcomed) (ha : c.isAuthenticated = true)
    (hblank : c.username = []) (u r : Bytes) : (c.introduced u r).Welcomed := by
  rw [Client.introduced_eq]
  refine ⟨fun _ ↦ ha, ?_⟩
  have hw : c.written.countP Reply.isWelcome = 0 := by
    rw [h.welcomes, if_neg (by simp [isRegistered, hblank])]
  rw [List.countP_append]
  change c.written.countP _ + _ = if (c.setUsername u).isRegistered then 1 else 0
  rw [hw, introduceTexts]
  split <;> rfl

theorem takeCommand {c : Client} (h : c.Welcomed) : c.takeCommand.Welcomed := by
  rw [takeCommand_eq]
  exact ⟨h.named, h.welcomes⟩

end Client.Welcomed

/-- A step that keeps registrations welcomes exactly those who become registered. -/
theorem Client.Welcomed.moved {s : Server} {e : Event} {d : Int} {c c' : Client}
    (hkeeps : KeepsNames s e) (hc : s.clients.lookup d = some c) (h : c.Welcomed)
    (hm : Moved s e d c c') : c'.Welcomed := by
  have hclient := Server.client_eq hc
  cases hm with
  | io r w he => exact ⟨h.named, h.welcomes⟩
  | line fd he f hf =>
      have hf' : (f c).Welcomed := by
        cases hf with
        | told ms hms => exact h.appendAll hms
        | marked hd m hm =>
            have hone : ∀ m' ∈ [m], m'.isWelcome = false := List.forall_mem_singleton.mpr hm
            exact ⟨h.named, (h.appendAll hone).welcomes⟩
        | authenticated hd ha =>
            subst hd
            exact h.setAuthenticated (hclient ▸ ha.2.2)
        | renamed hd n hn =>
            subst hd
            obtain ⟨hnick, hp, hfree, hauth⟩ := hn
            refine h.renamed (hclient ▸ hauth) ?_
            rintro hreg rfl
            exact hkeeps d he ⟨hclient ▸ hreg, hnick, hp,
              Server.isNicknameTaken_eq_false_iff.mp hfree⟩
        | introduced hd u r hi =>
            subst hd
            exact h.introduced (hclient ▸ hi.2.2.1) (hclient ▸ hi.2.2.2) u r
      split
      · exact hf'.takeCommand
      · exact hf'

/-! ## Registered for good, welcomed once -/

/-- Once registered, a client stays registered for as long as it is connected. -/
def RegisteredForGood (s : Server) (es : List Event) : Prop :=
  ∀ pre mid, pre ++ mid <+: es → ∀ d c c', (network.run s pre).clients.lookup d = some c →
    (network.run s (pre ++ mid)).clients.lookup d = some c' → c'.serial = c.serial →
    c.isRegistered = true → c'.isRegistered = true

/-- The client `c`, connected under `d` at the end of the run, is or was registered. -/
def EverRegistered (s : Server) (es : List Event) (d : Int) (c : Client) : Prop :=
  ∃ pre c₀, pre <+: es ∧ (network.run s pre).clients.lookup d = some c₀ ∧
    c₀.serial = c.serial ∧ c₀.isRegistered = true

/-- At any time, a client has been welcomed once if it has become registered on its
connection, and never otherwise. -/
def WelcomedOnce (s : Server) (es : List Event) : Prop :=
  ∀ pre, pre <+: es → ∀ d c, (network.run s pre).clients.lookup d = some c →
    (EverRegistered s pre d c → c.written.countP Reply.isWelcome = 1) ∧
    (¬ EverRegistered s pre d c → c.written.countP Reply.isWelcome = 0)

section Good

variable {s : Server}

theorem registeredForGood_of_keepsNames (hv : network.Valid s es) (ho : Ordinary s)
    (hkeeps : network.Along KeepsNames s es) : RegisteredForGood s es := by
  intro pre mid hmid d c c' hc hc' hserial hreg
  rw [network.run_append] at hc'
  have hpre : pre <+: es := (List.prefix_append pre mid).trans hmid
  refine connection_induct (P := fun c ↦ c.isRegistered = true) (Q := KeepsNames) ?_
    (hv.of_middle hmid) (hkeeps.of_middle hmid) (ho.run (hv.of_isPrefix hpre)) hc hreg hc' hserial
  intro s e c c' _ he hk hc hc' _ hreg
  refine (isRegistered_step_iff he hc hreg hc').mpr ?_
  rintro ⟨rfl, hu⟩
  exact hk d rfl hu

theorem not_unnames_of_registeredForGood (hv : network.Valid s es)
    (hgood : RegisteredForGood s es) {pre : List Event} {fd : Int}
    (hpre : pre ++ [.line fd] <+: es) :
    ¬ Unnames (network.run s pre) fd ((network.run s pre).nextParsed fd) := by
  intro hu
  have he : (Event.line fd).enabled (network.run s pre) := System.along_iff.mp hv pre _ hpre
  have hc := Server.lookup_of_isRegistered hu.1
  obtain ⟨c', hc', hserial⟩ := exists_lookup_serveLine hc
  have hrun : (network.run s (pre ++ [.line fd])).clients.lookup fd = some c' := by
    rw [network.run_append]
    exact hc'
  have hkept := hgood pre [.line fd] hpre fd _ c' hc hrun hserial hu.1
  exact (isRegistered_step_iff he hc hu.1 hc').mp hkept ⟨rfl, hu⟩

/-- Where registrations are kept, "is or was registered" is "is registered". -/
theorem welcomedOnce_of_registeredForGood (hgood : RegisteredForGood s es)
    (hw : ∀ pre, pre <+: es → ∀ d c, (network.run s pre).clients.lookup d = some c → c.Welcomed) :
    WelcomedOnce s es := by
  intro pre hpre d c hc
  have hcount := (hw pre hpre d c hc).welcomes
  constructor
  · rintro ⟨pre', c₀, ⟨mid, rfl⟩, hc₀, hserial, hreg⟩
    rw [hcount, if_pos (hgood pre' mid hpre d c₀ c hc₀ hc hserial.symm hreg)]
  · intro hnever
    have hreg : ¬ c.isRegistered = true := fun hreg ↦
      hnever ⟨pre, c, List.prefix_refl pre, hc, rfl, hreg⟩
    rw [hcount, if_neg hreg]

end Good

/-- In a run, clients are registered for good and welcomed once if and only if no
registered client sends `NICK :` while everybody has a nickname. -/
theorem registered_for_good_iff (hv : network.Valid (Server.initial serverSocket password) es) :
    RegisteredForGood (Server.initial serverSocket password) es ∧
      WelcomedOnce (Server.initial serverSocket password) es ↔
    ∀ pre fd, pre ++ [.line fd] <+: es →
      ¬ Unnames (network.run (Server.initial serverSocket password) pre) fd
        ((network.run (Server.initial serverSocket password) pre).nextParsed fd) := by
  have ho := ordinary_initial serverSocket password
  constructor
  · rintro ⟨hgood, -⟩ pre fd hpre
    exact not_unnames_of_registeredForGood hv hgood hpre
  · intro hnames
    have hkeeps : network.Along KeepsNames (Server.initial serverSocket password) es := by
      apply System.along_iff.mpr
      intro pre e hpre fd he
      subst he
      exact hnames pre fd hpre
    have hgood := registeredForGood_of_keepsNames hv ho hkeeps
    refine ⟨hgood, welcomedOnce_of_registeredForGood hgood ?_⟩
    intro pre hpre d c hc
    exact client_invariant Client.Welcomed.accepted
      (fun s e d c c' _ _ hk hc _ hm h ↦ h.moved hk hc hm) (hv.of_isPrefix hpre)
      (hkeeps.of_isPrefix hpre) ho (fun _ _ h ↦ nomatch h) hc

/-- The nickname of a registered client is emptied. -/
theorem registered_for_good_iff_run :
    RegisteredForGood (Server.initial 3 (lit "pw")) [.accept 4 ⟨127, 0, 0, 1⟩,
        .receive 4 (lit "PASS pw\nUSER bob 0 * :Bob\nNICK bob\n"), .line 4, .line 4, .line 4] ∧
      WelcomedOnce (Server.initial 3 (lit "pw")) [.accept 4 ⟨127, 0, 0, 1⟩,
        .receive 4 (lit "PASS pw\nUSER bob 0 * :Bob\nNICK bob\n"), .line 4, .line 4, .line 4] ↔
    ∀ pre fd, pre ++ [.line fd] <+: [.accept 4 ⟨127, 0, 0, 1⟩,
        .receive 4 (lit "PASS pw\nUSER bob 0 * :Bob\nNICK bob\n"), .line 4, .line 4, .line 4] →
      ¬ Unnames (network.run (Server.initial 3 (lit "pw")) pre) fd
        ((network.run (Server.initial 3 (lit "pw")) pre).nextParsed fd) :=
  registered_for_good_iff (by decide +kernel)

/-- A registered client sends `NICK :` and is no longer registered. -/
theorem not_registered_for_good :
    let es : List Event := [.accept 4 ⟨127, 0, 0, 1⟩,
      .receive 4 (lit "PASS pw\nUSER bob 0 * :Bob\nNICK bob\nNICK :\n"),
      .line 4, .line 4, .line 4, .line 4]
    network.Valid (Server.initial 3 (lit "pw")) es ∧
      ¬ (RegisteredForGood (Server.initial 3 (lit "pw")) es ∧
        WelcomedOnce (Server.initial 3 (lit "pw")) es) := by
  refine ⟨by decide +kernel, ?_⟩
  intro h
  have hlost := h.1 [.accept 4 ⟨127, 0, 0, 1⟩,
      .receive 4 (lit "PASS pw\nUSER bob 0 * :Bob\nNICK bob\nNICK :\n"), .line 4, .line 4, .line 4]
    [.line 4] (List.prefix_refl _) 4 _ _
    (Server.lookup_of_isAuthenticated (by decide +kernel))
    (Server.lookup_of_isAuthenticated (by decide +kernel)) (by decide +kernel) (by decide +kernel)
  exact absurd hlost (by decide +kernel)

end IrcServer
