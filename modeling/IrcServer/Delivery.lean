import IrcServer.InStep
import IrcServer.Library.Outbox

/-!
# Delivery

The write buffer of a client and the bytes `send` has taken from it make up an `Outbox`, and
every step of the loop moves it by an append or a take, or leaves it alone
(`ClientEffect`).  So nothing is lost and nothing is sent twice, whoever appends and however
little `send` takes at a time.  A client that is marked has something in its write buffer:
`POLLOUT` is requested for it, and it is closed when the last byte is sent.
-/

namespace IrcServer

open Library

/-! ## Serial numbers -/

/-- No two connections share a record of what was sent. -/
structure PollLoop.Numbered (σ : PollLoop) : Prop where
  lt : ∀ d c, σ.server.clients.lookup d = some c → c.serial < σ.server.nextSerial
  inj : ∀ d d' c c', σ.server.clients.lookup d = some c → σ.server.clients.lookup d' = some c' →
    c.serial = c'.serial → d = d'
  unused : ∀ n, σ.server.nextSerial ≤ n → σ.taken n = []

section Numbered

variable {σ σ' : PollLoop} {e : PollEvent}

/-- Only the record of a client that is there is written to. -/
theorem LoopEffect.taken_of_ne (h : LoopEffect σ e σ') {n : Nat}
    (hn : ∀ d c, σ.server.clients.lookup d = some c → c.serial ≠ n) : σ'.taken n = σ.taken n := by
  cases h with
  | sent d c hc => exact Function.update_of_ne (hn d c hc).symm _ _
  | finished d c hc => exact Function.update_of_ne (hn d c hc).symm _ _
  | _ => rfl

theorem PollLoop.Numbered.step (hσ : σ.Numbered) (h : LoopEffect σ e σ') : σ'.Numbered := by
  have hunused (n : Nat) (hn : σ.server.nextSerial ≤ n) : σ'.taken n = [] := by
    rw [h.taken_of_ne fun d c hc ↦ ((hσ.lt d c hc).trans_le hn).ne]
    exact hσ.unused n hn
  cases h.inserts with
  | nothing hserial hclients =>
      constructor
      · intro d c' hc'
        obtain ⟨c, hc, hsame⟩ := hclients d c' hc'
        rw [hserial, hsame]
        exact hσ.lt d c hc
      · intro d e c' f' hc' hf' heq
        obtain ⟨c, hc, hsame⟩ := hclients d c' hc'
        obtain ⟨f, hf, hsame'⟩ := hclients e f' hf'
        exact hσ.inj d e c f hc hf (hsame.symm.trans (heq.trans hsame'))
      · exact fun n hn ↦ hunused n (hserial ▸ hn)
  | accepted d₀ address received he hnew hserial hclient hclients =>
      -- the new client has a number of its own
      have hcases (d : Int) (c : Client) (hc : σ'.server.clients.lookup d = some c) :
          d = d₀ ∧ c.serial = σ.server.nextSerial ∨
          σ.server.clients.lookup d = some c ∧ c.serial < σ.server.nextSerial := by
        by_cases hd : d = d₀
        · subst hd
          exact Or.inl ⟨rfl, by rw [Option.some.inj (hc.symm.trans hclient)]; rfl⟩
        · have hold := (hclients d hd).symm.trans hc
          exact Or.inr ⟨hold, hσ.lt d c hold⟩
      constructor
      · intro d c hc
        rw [hserial]
        rcases hcases d c hc with ⟨-, heq⟩ | ⟨-, hlt⟩
        · exact heq ▸ Nat.lt_succ_self _
        · exact Nat.lt_succ_of_lt hlt
      · intro d e c f hc hf heq
        rcases hcases d c hc with ⟨hd, hnum⟩ | ⟨hold, hlt⟩ <;>
          rcases hcases e f hf with ⟨he, hnum'⟩ | ⟨hold', hlt'⟩
        · exact hd.trans he.symm
        · omega
        · omega
        · exact hσ.inj d e c f hold hold' heq
      · exact fun n hn ↦ hunused n (by omega)

theorem numbered_start (serverSocket : Int) (password : Bytes)
    (channels : UnorderedMap Nat Channel) :
    (PollLoop.start serverSocket password channels).Numbered where
  lt _ _ h := nomatch h
  inj _ _ _ _ h := nomatch h
  unused _ _ := rfl

end Numbered

/-! ## One client and one step -/

/-- What a step makes of a client that is there after it, and of its record. -/
inductive ClientEffect (σ σ' : PollLoop) (d : Int) : Client → Prop where
  | grown (c c' : Client) (hc : σ.server.clients.lookup d = some c) (h : c.Grown c')
      (htaken : σ'.taken c.serial = σ.taken c.serial) : ClientEffect σ σ' d c'
  | sent (c : Client) (hc : σ.server.clients.lookup d = some c) (n : Nat)
      (hopen : ¬ (c.writeBuffer.drop n = [] ∧ c.shouldDisconnect = true))
      (htaken : σ'.taken c.serial = σ.taken c.serial ++ c.writeBuffer.take n) :
      ClientEffect σ σ' d (c.eraseFromWriteBuffer n)
  | accepted (address : InAddr) (htaken : σ'.taken σ.server.nextSerial = []) :
      ClientEffect σ σ' d (.accepted d address σ.server.nextSerial)

theorem LoopEffect.client {σ σ' : PollLoop} {e : PollEvent} (h : LoopEffect σ e σ')
    (hσ : σ.Numbered) {d : Int} {c' : Client} (hc' : σ'.server.clients.lookup d = some c') :
    ClientEffect σ σ' d c' := by
  cases h with
  | masked => exact .grown c' c' hc' (.refl c') rfl
  | rehashed clients hperm =>
      exact .grown c' c' ((AList.perm_lookup hperm).symm.trans hc') (.refl c') rfl
  | accepted d₀ address _ _ hnew =>
      by_cases hd : d = d₀
      · subst hd
        rw [Option.some.inj (hc'.symm.trans (Server.lookup_insert_self hnew))]
        exact .accepted address (hσ.unused _ le_rfl)
      · exact .grown c' c' ((Server.lookup_insert_of_ne hd).symm.trans hc') (.refl c') rfl
  | fed s hfed =>
      obtain ⟨c, hc, hgrown⟩ := hfed.clients d c' hc'
      exact .grown c c' hc hgrown rfl
  | closed d₀ => exact .grown c' c' (Server.lookup_of_clearClient hc').2 (.refl c') rfl
  | sent d₀ c₀ hc₀ n _ hopen =>
      obtain ⟨c, hc, ⟨rfl, rfl⟩ | ⟨hd, rfl⟩⟩ := Server.exists_of_lookup_modify hc'
      · obtain rfl := Option.some.inj (hc₀.symm.trans hc)
        exact .sent c₀ hc₀ n hopen (Function.update_self _ _ _)
      · have hne : c'.serial ≠ c₀.serial := fun heq ↦ hd (hσ.inj d d₀ _ _ hc hc₀ heq)
        exact .grown c' c' hc (.refl c') (Function.update_of_ne hne _ _)
  | finished d₀ c₀ hc₀ n =>
      obtain ⟨hd, hstays⟩ := Server.lookup_of_clearClient hc'
      obtain ⟨c, hc, ⟨heq, -⟩ | ⟨-, rfl⟩⟩ := Server.exists_of_lookup_modify hstays
      · exact absurd heq hd
      · have hne : c'.serial ≠ c₀.serial := fun heq ↦ hd (hσ.inj d d₀ _ _ hc hc₀ heq)
        exact .grown c' c' hc (.refl c') (Function.update_of_ne hne _ _)

/-! ## Outboxes -/

/-- The outbox of a client: what was sent of it, what is to be sent, and the texts. -/
def PollLoop.Holds (σ : PollLoop) (c : Client) (q : Outbox UInt8) : Prop :=
  q.taken = σ.taken c.serial ∧ q.waiting = c.writeBuffer ∧ q.appended = c.written.flatMap Reply.str

/-- A step is an append to the outbox of a client, or a take, or it opens an empty one. -/
theorem ClientEffect.holds {σ σ' : PollLoop} {d : Int} {c' : Client} (h : ClientEffect σ σ' d c')
    (hσ : ∀ c, σ.server.clients.lookup d = some c → ∃ q, σ.Holds c q) : ∃ q, σ'.Holds c' q := by
  cases h with
  | grown c _ hc hgrown htaken =>
      obtain ⟨q, hq, hwaiting, happended⟩ := hσ c hc
      obtain ⟨ms, hwritten, hbuffer⟩ := hgrown.appended
      refine ⟨q.append (ms.flatMap Reply.str), ?_, ?_, ?_⟩
      · rw [hgrown.serial, htaken]
        exact hq
      · rw [hbuffer, ← hwaiting]
        rfl
      · rw [hwritten, List.flatMap_append, ← happended]
        rfl
  | sent c hc n _ htaken =>
      obtain ⟨q, hq, hwaiting, happended⟩ := hσ c hc
      refine ⟨q.take n, ?_, ?_, happended⟩
      · rw [show (c.eraseFromWriteBuffer n).serial = c.serial from rfl, htaken, ← hq, ← hwaiting]
        rfl
      · exact congrArg (List.drop n) hwaiting
  | accepted address htaken => exact ⟨.empty, htaken.symm, rfl, rfl⟩

/-! ## Marked clients -/

/-- A client that is marked has something to be sent. -/
def Client.Pending (c : Client) : Prop := c.shouldDisconnect = true → c.writeBuffer ≠ []

theorem ClientEffect.pending {σ σ' : PollLoop} {d : Int} {c' : Client}
    (h : ClientEffect σ σ' d c') (hσ : ∀ c, σ.server.clients.lookup d = some c → c.Pending) :
    c'.Pending := by
  cases h with
  | grown c _ hc hgrown =>
      intro hmarked
      rcases hgrown.marked hmarked with hbefore | hne
      · obtain ⟨ms, -, hbuffer⟩ := hgrown.appended
        rw [hbuffer]
        exact List.append_ne_nil_of_left_ne_nil (hσ c hc hbefore) _
      · exact hne
  | sent c hc n hopen => exact fun hmarked hempty ↦ hopen ⟨hempty, hmarked⟩
  | accepted address => exact nofun

/-- A client that the `POLLOUT` part of a turn removes is marked, and what was in its write
buffer has been sent. -/
theorem LoopEffect.removed {σ σ' : PollLoop} {sent : Int} (h : LoopEffect σ (.write sent) σ')
    {d : Int} {c : Client} (hc : σ.server.clients.lookup d = some c)
    (hnone : σ'.server.clients.lookup d = none) :
    c.shouldDisconnect = true ∧ σ'.taken c.serial = σ.taken c.serial ++ c.writeBuffer := by
  have hgone : d ∉ σ'.server.clients := AList.lookup_eq_none.mp hnone
  have hd : d ∈ σ.server.clients := UnorderedMap.mem_iff_lookup.mpr ⟨c, hc⟩
  cases h with
  | masked => exact absurd hd hgone
  | rehashed clients hperm => exact absurd ((AList.mem_of_perm hperm).mpr hd) hgone
  | accepted _ _ _ he => exact nomatch he
  | fed s hfed => exact absurd ((hfed.mem_clients d).mpr hd) hgone
  | closed _ _ hread => exact absurd rfl (hread sent)
  | sent d₀ => exact absurd ((Server.mem_modify _ d₀ _).mpr hd) hgone
  | finished d₀ c₀ hc₀ n hn hempty hmarked =>
      have heq : d = d₀ := by
        by_contra hne
        exact hgone (AList.mem_erase.mpr ⟨hne, (Server.mem_modify _ d₀ _).mpr hd⟩)
      subst heq
      obtain rfl := Option.some.inj (hc₀.symm.trans hc)
      refine ⟨hmarked, (Function.update_self _ _ _).trans ?_⟩
      rw [List.take_of_length_le (List.drop_eq_nil_iff.mp hempty)]

/-! ## What is requested of `poll` -/

theorem Server.getElem?_setEvents {s : Server} {i j : Nat} {wantsOut : Bool} {p : PollFd}
    (hp : (s.setEvents i wantsOut).pollfds[j]? = some p) :
    ∃ q, s.pollfds[j]? = some q ∧ p = if i = j then { q with wantsOut := wantsOut } else q := by
  rw [setEvents, List.getElem?_modify] at hp
  obtain ⟨q, hq, rfl⟩ := Option.map_eq_some_iff.mp hp
  exact ⟨q, hq, rfl⟩

/-- The entries that the loop before `poll` has passed request `POLLOUT` exactly for the
clients that have something to be sent. -/
def PollLoop.Prepared (σ : PollLoop) : Prop :=
  ∀ i, σ.phase = .prepare i → ∀ j p, j < i → σ.server.pollfds[j]? = some p →
    p.fd ≠ σ.server.serverSocket → p.wantsOut = !(σ.server.client p.fd).writeBuffer.isEmpty

namespace PollLoop

variable {σ : PollLoop} {i k : Nat}

theorem phase_readEntry (hσ : σ.phase = .read i) (incoming : Incoming)
    (received : Except Errno Bytes) : (σ.readEntry i incoming received).phase ≠ .prepare k := by
  unfold readEntry
  split
  · exact hσ ▸ nofun
  · dsimp only
    split_ifs <;> exact nofun

theorem phase_writeEntry (hσ : σ.phase = .write i) (sent : Int) :
    (σ.writeEntry i sent).phase ≠ .prepare k := by
  unfold writeEntry
  split
  · exact hσ ▸ nofun
  · dsimp only
    split_ifs <;> exact nofun

theorem Prepared.step (hσ : σ.Prepared) (hs : σ.server.InStep) {e : PollEvent}
    (he : σ.enabled e) : (σ.step e).Prepared := by
  obtain ⟨s, phase, taken⟩ := σ
  intro k hk j p hj hp hne
  cases e with
  | prepare =>
      cases phase with
      | prepare i =>
          obtain ⟨q, hq⟩ : ∃ q, s.pollfds[i]? = some q := ⟨_, List.getElem?_eq_getElem he⟩
          obtain rfl : i + 1 = k := Phase.prepare.inj hk
          change (s.prepareEntry i).pollfds[j]? = some p at hp
          change p.fd ≠ (s.prepareEntry i).serverSocket at hne
          change p.wantsOut = !((s.prepareEntry i).client p.fd).writeBuffer.isEmpty
          rw [Server.InStep.prepareEntry_eq hs hq] at hp hne ⊢
          obtain ⟨p₀, hp₀, rfl⟩ := Server.getElem?_setEvents hp
          by_cases hij : i = j
          · subst hij
            obtain rfl := Option.some.inj (hq.symm.trans hp₀)
            rw [if_pos rfl] at hne ⊢
            exact (congrArg (· && _) (decide_eq_true hne)).trans (Bool.true_and _)
          · rw [if_neg hij] at hne ⊢
            exact hσ i rfl j p₀ (by omega) hp₀ hne
      | _ => exact he.elim
  | poll revents =>
      cases phase with
      | prepare i => exact nomatch hk
      | _ => exact he.elim
  | read incoming received =>
      cases phase with
      | read i => exact absurd hk (phase_readEntry rfl incoming received)
      | _ => exact he.elim
  | write sent =>
      cases phase with
      | write i => exact absurd hk (phase_writeEntry rfl sent)
      | _ => exact he.elim
  | round =>
      cases phase with
      | read i =>
          obtain rfl : 0 = k := Phase.prepare.inj hk
          exact absurd hj (Nat.not_lt_zero j)
      | _ => exact he.elim
  | rehash clients =>
      have hsame : (clients.lookup p.fd).getD {} = s.client p.fd :=
        congrArg (·.getD {}) (AList.perm_lookup he)
      change p.wantsOut = !((clients.lookup p.fd).getD {}).writeBuffer.isEmpty
      rw [hsame]
      exact hσ k hk j p hj hp hne

/-- When `poll` is called, every entry has been prepared. -/
theorem Prepared.wantsOut (hσ : σ.Prepared) {revents : Nat → Bool × Bool}
    (he : σ.enabled (.poll revents)) {p : PollFd} (hp : p ∈ σ.server.pollfds)
    (hne : p.fd ≠ σ.server.serverSocket) :
    p.wantsOut = !(σ.server.client p.fd).writeBuffer.isEmpty := by
  obtain ⟨s, phase, taken⟩ := σ
  cases phase with
  | prepare i =>
      obtain ⟨j, hj, rfl⟩ := List.mem_iff_getElem.mp hp
      exact hσ i rfl j _ (hj.trans_le he) (List.getElem?_eq_getElem hj) hne
  | _ => exact he.elim

end PollLoop

/-! ## Runs -/

/-- A client sends a wrong password, and `send` takes five bytes of the refusal. -/
def refusedRun : List PollEvent :=
  [.prepare, .poll fun i ↦ (i == 0, false),
    .read (.connected 4 ⟨127, 0, 0, 1⟩) (.ok []), .write 0, .read .acceptFailed (.ok []), .write 0,
    .round, .prepare, .prepare, .poll fun i ↦ (i == 1, false), .read .acceptFailed (.ok []),
    .write 0, .read .acceptFailed (.ok (lit "PASS x\r\n")), .write 0,
    .round, .prepare, .prepare, .poll fun i ↦ (false, i == 1), .read .acceptFailed (.ok []),
    .write 0, .read .acceptFailed (.ok []), .write 5,
    .round, .prepare, .prepare, .poll fun i ↦ (false, i == 1), .read .acceptFailed (.ok []),
    .write 0, .read .acceptFailed (.ok [])]

section Run

variable {serverSocket : Int} {password : Bytes} {channels : UnorderedMap Nat Channel}
variable {es : List PollEvent}

/-- The induction rule for what every client satisfies. -/
theorem loop_client_invariant {I : PollLoop → Client → Prop}
    (hstep : ∀ σ σ' d c', ClientEffect σ σ' d c' →
      (∀ c, σ.server.clients.lookup d = some c → I σ c) → I σ' c')
    (hv : pollLoop.Valid (.start serverSocket password channels) es) {d : Int} {c : Client}
    (hc : (pollLoop.run (.start serverSocket password channels) es).server.clients.lookup d =
      some c) : I (pollLoop.run (.start serverSocket password channels) es) c := by
  have hall := loop_invariant
    (I := fun σ ↦ σ.Numbered ∧ ∀ d c, σ.server.clients.lookup d = some c → I σ c)
    ?_ hv ⟨numbered_start serverSocket password channels, fun _ _ h ↦ nomatch h⟩
  · exact hall.2 d c hc
  · intro σ e σ' h hσ
    constructor
    · exact hσ.1.step h
    · intro d c' hc'
      exact hstep σ σ' d c' (h.client hσ.1 hc') (hσ.2 d)

theorem holds_run (hv : pollLoop.Valid (.start serverSocket password channels) es) {d : Int}
    {c : Client}
    (hc : (pollLoop.run (.start serverSocket password channels) es).server.clients.lookup d =
      some c) : ∃ q, (pollLoop.run (.start serverSocket password channels) es).Holds c q :=
  loop_client_invariant (I := fun σ c ↦ ∃ q, σ.Holds c q) (fun _ _ _ _ h hσ ↦ h.holds hσ) hv hc

/-- What `send` has taken of a client's texts and what is in its write buffer are the texts
appended since its connection was accepted, in the order of the appends. -/
theorem taken_append_writeBuffer
    (hv : pollLoop.Valid (.start serverSocket password channels) es) :
    let σ := pollLoop.run (.start serverSocket password channels) es
    ∀ d c, σ.server.clients.lookup d = some c →
      σ.taken c.serial ++ c.writeBuffer = c.written.flatMap Reply.str := by
  intro σ d c hc
  obtain ⟨q, htaken, hwaiting, happended⟩ := holds_run hv hc
  rw [← htaken, ← hwaiting, ← happended]
  exact q.balanced

/-- In the middle of a refusal. -/
theorem taken_append_writeBuffer_refused :
    let σ := pollLoop.run (.start 3 (lit "pw") ∅) refusedRun
    ∀ d c, σ.server.clients.lookup d = some c →
      σ.taken c.serial ++ c.writeBuffer = c.written.flatMap Reply.str :=
  taken_append_writeBuffer (by decide +kernel)

theorem pending_run (hv : pollLoop.Valid (.start serverSocket password channels) es) {d : Int}
    {c : Client}
    (hc : (pollLoop.run (.start serverSocket password channels) es).server.clients.lookup d =
      some c) : c.Pending :=
  loop_client_invariant (I := fun _ c ↦ c.Pending) (fun _ _ _ _ h hσ ↦ h.pending hσ) hv hc

theorem prepared_run (hv : pollLoop.Valid (.start serverSocket password channels) es) :
    (pollLoop.run (.start serverSocket password channels) es).Prepared := by
  have hboth := hv.invariant (I := fun σ ↦ σ.server.InStep ∧ σ.Prepared)
    (fun σ e he hσ ↦ ⟨(step_effect hσ.1 he).inStep hσ.1, hσ.2.step hσ.1 he⟩)
    ⟨inStep_start serverSocket password channels, ?_⟩
  · exact hboth.2
  · intro i hi j p hj
    obtain rfl : 0 = i := Phase.prepare.inj hi
    exact absurd hj (Nat.not_lt_zero j)

/-- A marked client always has something to be sent, `POLLOUT` is requested for it whenever
`poll` is called, and where the `POLLOUT` part of a turn closes a connection everything that
was appended has been sent. -/
theorem marked_flushed (hv : pollLoop.Valid (.start serverSocket password channels) es) :
    (∀ d c, (pollLoop.run (.start serverSocket password channels) es).server.clients.lookup d =
      some c → c.shouldDisconnect = true → c.writeBuffer ≠ []) ∧
    (∀ pre revents, pre ++ [.poll revents] <+: es →
      let s := (pollLoop.run (.start serverSocket password channels) pre).server
      ∀ d c, s.clients.lookup d = some c → c.shouldDisconnect = true →
        ∃ p ∈ s.pollfds, p.fd = d ∧ p.wantsOut = true) ∧
    ∀ pre sent, pre ++ [.write sent] <+: es →
      let σ := pollLoop.run (.start serverSocket password channels) pre
      let σ' := pollLoop.run (.start serverSocket password channels) (pre ++ [.write sent])
      ∀ d c, σ.server.clients.lookup d = some c → σ'.server.clients.lookup d = none →
        c.shouldDisconnect = true ∧ σ'.taken c.serial = c.written.flatMap Reply.str := by
  refine ⟨fun d c hc ↦ pending_run hv hc, ?_, ?_⟩
  · intro pre revents hpre s d c hc hmarked
    have hvpre := hv.of_isPrefix ((List.prefix_append pre _).trans hpre)
    have hs := inStep_run hvpre
    have hd : d ∈ s.clients := UnorderedMap.mem_iff_lookup.mpr ⟨c, hc⟩
    obtain ⟨p, hp, rfl⟩ := hs.exists_pollFd hd
    have hne : p.fd ≠ s.serverSocket := fun heq ↦ hs.listener (heq ▸ hd)
    refine ⟨p, hp, rfl, ?_⟩
    rw [(prepared_run hvpre).wantsOut (System.along_iff.mp hv pre _ hpre) hp hne,
      Server.client_eq hc]
    simpa using pending_run hvpre hc hmarked
  · intro pre sent hpre σ σ' d c hc hnone
    have hvpre := hv.of_isPrefix ((List.prefix_append pre _).trans hpre)
    obtain ⟨hmarked, hlast⟩ := (loop_effect hv hpre).removed hc hnone
    obtain ⟨q, htaken, hwaiting, happended⟩ := holds_run hvpre hc
    refine ⟨hmarked, hlast.trans ?_⟩
    rw [← htaken, ← hwaiting, ← happended]
    exact q.balanced

/-- The rest of the refusal is sent, and the client is removed. -/
theorem marked_flushed_refused :
    let start := PollLoop.start 3 (lit "pw") ∅
    let es := refusedRun ++ [.write 31]
    (∀ d c, (pollLoop.run start es).server.clients.lookup d = some c →
      c.shouldDisconnect = true → c.writeBuffer ≠ []) ∧
    (∀ pre revents, pre ++ [.poll revents] <+: es →
      let s := (pollLoop.run start pre).server
      ∀ d c, s.clients.lookup d = some c → c.shouldDisconnect = true →
        ∃ p ∈ s.pollfds, p.fd = d ∧ p.wantsOut = true) ∧
    ∀ pre sent, pre ++ [.write sent] <+: es →
      let σ := pollLoop.run start pre
      let σ' := pollLoop.run start (pre ++ [.write sent])
      ∀ d c, σ.server.clients.lookup d = some c → σ'.server.clients.lookup d = none →
        c.shouldDisconnect = true ∧ σ'.taken c.serial = c.written.flatMap Reply.str :=
  marked_flushed (by decide +kernel)

end Run

end IrcServer
