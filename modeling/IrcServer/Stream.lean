import IrcServer.Runs

/-!
# One client's stream

What handling consecutive chunks of one client's stream with `receiveData` comes to
(`receiveAll_eq`): the bytes of the chunks, each up to its first NUL, are appended to
the read buffer, and the lines of the result are processed in order.  Apart from the
NULs this does not depend on how the stream is cut, because reading lines is a
homomorphism (`Library.lines_append`).
-/

namespace IrcServer

open Library Commands

namespace Server

/-! ## Lines processed and bytes kept -/

/-- A line is processed, and recorded for the client it came from. -/
def process (fd : Int) (s : Server) (line : Bytes) : Server :=
  (processCommand s fd (Parser.parse line)).intake fd fun buf executed ↦ (buf, executed ++ [line])

/-- The bytes left in a read buffer. -/
def setBuffer (s : Server) (fd : Int) (b : Bytes) : Server :=
  s.intake fd fun _ executed ↦ (b, executed)

/-- Bytes are appended to a read buffer and every complete line is processed. -/
def absorb (s : Server) (fd : Int) (data : Bytes) : Server :=
  ((lines LF CR ((s.client fd).readBuffer ++ data)).foldl (process fd) s).setBuffer fd
    (unfinished LF ((s.client fd).readBuffer ++ data))

/-- `receiveData` on one chunk after the other. -/
def receiveAll (s : Server) (fd : Int) (chunks : List Bytes) : Server :=
  chunks.foldl (fun s chunk ↦ s.receiveData fd (.ok chunk)) s

section Process

variable (s : Server) (fd : Int)

@[simp] theorem setBuffer_setBuffer (a b : Bytes) :
    (s.setBuffer fd a).setBuffer fd b = s.setBuffer fd b :=
  modify_modify s fd _ _

/-- What is in the buffer does not matter to the processing of a line. -/
theorem process_setBuffer (b line : Bytes) :
    process fd (s.setBuffer fd b) line = (process fd s line).setBuffer fd b := by
  rw [process, setBuffer, processCommand_intake]
  simp only [process, setBuffer, intake, modify_modify]
  rfl

theorem foldl_process_setBuffer (b : Bytes) (ls : List Bytes) :
    ls.foldl (process fd) (s.setBuffer fd b) = (ls.foldl (process fd) s).setBuffer fd b := by
  induction ls generalizing s with
  | nil => rfl
  | cons l ls ih => rw [List.foldl_cons, List.foldl_cons, process_setBuffer, ih]

variable {s fd} {c : Client}

theorem lookup_setBuffer (hc : s.clients.lookup fd = some c) (b : Bytes) :
    (s.setBuffer fd b).clients.lookup fd = some { c with readBuffer := b } := by
  rw [setBuffer, intake, lookup_modify_self, hc]
  rfl

theorem setBuffer_self (hc : s.clients.lookup fd = some c) :
    s.setBuffer fd c.readBuffer = s := by
  have hid : s.setBuffer fd c.readBuffer = s.modify fd id := modify_congr fd hc rfl
  rw [hid, modify, UnorderedMap.modify_id]

theorem lookup_process (hc : s.clients.lookup fd = some c) (line : Bytes) :
    ∃ c', (process fd s line).clients.lookup fd = some c' ∧ c'.readBuffer = c.readBuffer ∧
      c'.executed = c.executed ++ [line] := by
  obtain ⟨f, hf, hl⟩ := (processCommand_effect s fd (Parser.parse line)).lookup fd
  obtain ⟨-, hbuf, hexec, -, -⟩ := hf.frame c
  refine ⟨(f c).intake fun buf executed ↦ (buf, executed ++ [line]), ?_, hbuf, ?_⟩
  · rw [process, intake, lookup_modify_self, hl, hc]
    rfl
  · exact congrArg (· ++ [line]) hexec

theorem lookup_foldl_process (hc : s.clients.lookup fd = some c) (ls : List Bytes) :
    ∃ c', (ls.foldl (process fd) s).clients.lookup fd = some c' ∧
      c'.readBuffer = c.readBuffer ∧ c'.executed = c.executed ++ ls := by
  induction ls generalizing s c with
  | nil => exact ⟨c, hc, rfl, (List.append_nil _).symm⟩
  | cons l ls ih =>
      obtain ⟨c', hc', hbuf', hexec'⟩ := lookup_process hc l
      obtain ⟨c'', hc'', hbuf'', hexec''⟩ := ih hc'
      refine ⟨c'', hc'', hbuf''.trans hbuf', ?_⟩
      rw [hexec'', hexec', List.append_assoc, List.singleton_append]

/-- The client after its stream has been read. -/
theorem lookup_absorb (hc : s.clients.lookup fd = some c) (data : Bytes) :
    ∃ c', (s.absorb fd data).clients.lookup fd = some c' ∧
      c'.readBuffer = unfinished LF (c.readBuffer ++ data) ∧
      c'.executed = c.executed ++ lines LF CR (c.readBuffer ++ data) := by
  obtain ⟨c', hc', -, hexec⟩ := lookup_foldl_process hc (lines LF CR (c.readBuffer ++ data))
  rw [absorb, client_eq hc]
  exact ⟨_, lookup_setBuffer hc' _, rfl, hexec⟩

/-- Reading bytes in two parts. -/
theorem absorb_absorb (hc : s.clients.lookup fd = some c) (data more : Bytes) :
    (s.absorb fd data).absorb fd more = s.absorb fd (data ++ more) := by
  obtain ⟨c', hc', hbuf, -⟩ := lookup_absorb hc data
  rw [absorb, client_eq hc', hbuf, ← unfinished_append]
  simp only [absorb, client_eq hc]
  rw [foldl_process_setBuffer, setBuffer_setBuffer, ← List.foldl_append, ← List.append_assoc,
    ← lines_append, List.append_assoc]

end Process

/-! ## `receiveData` -/

/-- A turn of the loop, when the first line of the buffer is known. -/
theorem serveLine_eq_process {s : Server} {fd : Int} {c : Client} {w rest : Bytes}
    (hc : s.clients.lookup fd = some c) (hb : c.readBuffer = w ++ LF :: rest) (hw : LF ∉ w) :
    s.serveLine fd = (process fd s (chomp CR w)).setBuffer fd rest := by
  have hline : s.nextCommand fd = chomp CR w := by
    rw [nextCommand, client_eq hc, Client.extractCommandFromBuffer_eq hb hw]
  obtain ⟨f, hf, hl⟩ := (processCommand_effect s fd (Parser.parse (chomp CR w))).lookup fd
  rw [hc, Option.map_some] at hl
  have hbuf : (f c).readBuffer = w ++ LF :: rest := (hf.frame c).2.1.trans hb
  rw [serveLine_eq, hline, process, setBuffer, intake, intake, modify_modify, takeCommand]
  refine modify_congr fd hl ?_
  rw [Client.takeCommand, Client.extractCommandFromBuffer_eq hbuf hw]
  rfl

/-- The loop of `receiveData` processes the complete lines of the buffer in order. -/
theorem drain_eq {n : Nat} {s : Server} {fd : Int} {c : Client}
    (hc : s.clients.lookup fd = some c) (hn : c.readBuffer.count LF ≤ n) :
    s.drain n fd = ((lines LF CR c.readBuffer).foldl (process fd) s).setBuffer fd
      (unfinished LF c.readBuffer) := by
  induction n generalizing s c with
  | zero =>
      have hmem : LF ∉ c.readBuffer := List.count_eq_zero.mp (Nat.le_zero.mp hn)
      rw [drain, lines_of_notMem CR hmem, unfinished_of_notMem hmem, List.foldl_nil,
        setBuffer_self hc]
  | succ n ih =>
      rw [drain, client_eq hc]
      by_cases hmem : LF ∈ c.readBuffer
      · obtain ⟨w, rest, hb, hw⟩ := List.eq_append_cons_of_mem hmem
        have hcount : rest.count LF ≤ n := by
          rw [hb, List.count_append, List.count_cons_self] at hn
          omega
        obtain ⟨c', hc', -, -⟩ := lookup_process hc (chomp CR w)
        rw [if_pos (Client.hasCompleteCommand_iff.mpr hmem), serveLine_eq_process hc hb hw,
          ih (lookup_setBuffer hc' rest) hcount, foldl_process_setBuffer, setBuffer_setBuffer,
          hb, lines_append_cons CR rest hw, unfinished_append_cons rest hw, List.foldl_cons]
      · rw [if_neg fun h ↦ hmem (Client.hasCompleteCommand_iff.mp h), lines_of_notMem CR hmem,
          unfinished_of_notMem hmem, List.foldl_nil, setBuffer_self hc]

theorem receiveData_eq {s : Server} {fd : Int} {c : Client} (hc : s.clients.lookup fd = some c)
    {chunk : Bytes} (hne : chunk ≠ []) :
    s.receiveData fd (.ok chunk) = s.absorb fd (cString chunk) := by
  have happend : s.modify fd (·.appendToReadBuffer (cString chunk)) =
      s.setBuffer fd (c.readBuffer ++ cString chunk) := modify_congr fd hc rfl
  have hlookup := lookup_setBuffer hc (c.readBuffer ++ cString chunk)
  rw [receiveData]
  · rw [touch_of_mem (UnorderedMap.mem_iff_lookup.mpr ⟨c, hc⟩), happend, client_eq hlookup,
      drain_eq hlookup List.count_le_length, foldl_process_setBuffer, setBuffer_setBuffer, absorb,
      client_eq hc]
  · exact hne

/-- Handling consecutive chunks: of each, the bytes before its first NUL are read. -/
theorem receiveAll_eq {s : Server} {fd : Int} {c : Client} (hc : s.clients.lookup fd = some c)
    {chunks : List Bytes} (hnil : chunks ≠ []) (hne : ∀ k ∈ chunks, k ≠ []) :
    s.receiveAll fd chunks = s.absorb fd (chunks.flatMap cString) := by
  induction chunks generalizing s c with
  | nil => exact absurd rfl hnil
  | cons chunk chunks ih =>
      obtain ⟨hchunk, hrest⟩ := List.forall_mem_cons.mp hne
      rw [receiveAll, List.foldl_cons, receiveData_eq hc hchunk]
      by_cases hlast : chunks = []
      · rw [hlast, List.foldl_nil, List.flatMap_singleton]
      · obtain ⟨c', hc', -⟩ := lookup_absorb hc (cString chunk)
        exact (ih hc' hlast hrest).trans (absorb_absorb hc _ _)

end Server

/-! ## Cutting a stream -/

/-- Consecutive chunks, each what one `recv` into a buffer of `MAXLINE` bytes can return. -/
def Cuts (stream : Bytes) (chunks : List Bytes) : Prop :=
  chunks.flatten = stream ∧ ∀ chunk ∈ chunks, chunk ≠ [] ∧ chunk.length ≤ 1023

/-- The stream without its NULs. -/
def withoutNul (stream : Bytes) : Bytes := stream.filter (· ≠ NUL)

theorem withoutNul_append (u v : Bytes) : withoutNul (u ++ v) = withoutNul u ++ withoutNul v :=
  List.filter_append u v

theorem cuts_singletons (stream : Bytes) : Cuts stream (stream.map ([·])) := by
  constructor
  · simp [← List.flatMap_def]
  · intro chunk hchunk
    obtain ⟨b, -, rfl⟩ := List.mem_map.mp hchunk
    exact ⟨List.cons_ne_nil b [], by simp⟩

theorem Cuts.append {u v : Bytes} {cs ds : List Bytes} (hcs : Cuts u cs) (hds : Cuts v ds) :
    Cuts (u ++ v) (cs ++ ds) := by
  constructor
  · rw [List.flatten_append, hcs.1, hds.1]
  · intro chunk hchunk
    exact (List.mem_append.mp hchunk).elim (hcs.2 chunk) (hds.2 chunk)

theorem cuts_one {chunk : Bytes} (hne : chunk ≠ []) (hlen : chunk.length ≤ 1023) :
    Cuts chunk [chunk] :=
  ⟨List.flatten_singleton, List.forall_mem_singleton.mpr ⟨hne, hlen⟩⟩

/-- Cut into single bytes, the stream loses exactly its NULs. -/
theorem flatMap_cString_singletons (stream : Bytes) :
    (stream.map ([·])).flatMap cString = withoutNul stream := by
  induction stream with
  | nil => rfl
  | cons b stream ih =>
      rw [List.map_cons, List.flatMap_cons, ih]
      by_cases hb : b = NUL <;> simp [cString, withoutNul, hb]

/-- No byte but a NUL follows a NUL. -/
def NulsLast (stream : Bytes) : Prop := ∀ u v, stream = u ++ NUL :: v → ∀ b ∈ v, b = NUL

theorem NulsLast.mono {s t : Bytes} (ht : NulsLast t) (h : s <:+: t) : NulsLast s := by
  obtain ⟨p, q, rfl⟩ := h
  rintro u v rfl b hb
  exact ht (p ++ u) (v ++ q) (by simp) b (List.mem_append_left q hb)

/-- Then the conversion from `char*` loses nothing but NULs. -/
theorem NulsLast.cString_eq {s : Bytes} (h : NulsLast s) : cString s = withoutNul s := by
  induction s with
  | nil => rfl
  | cons b s ih =>
      by_cases hb : b = NUL
      · subst hb
        have hnone : withoutNul s = [] := by
          simpa [withoutNul, List.filter_eq_nil_iff] using h [] s rfl
        simpa [cString, withoutNul] using hnone.symm
      · have hrest := ih (h.mono (List.suffix_cons b s).isInfix)
        simpa [cString, withoutNul, hb] using hrest

theorem NulsLast.flatMap_cString {stream : Bytes} {chunks : List Bytes} (h : NulsLast stream)
    (hcut : Cuts stream chunks) : chunks.flatMap cString = withoutNul stream := by
  obtain ⟨rfl, -⟩ := hcut
  have hchunk : ∀ chunk ∈ chunks, cString chunk = withoutNul chunk := fun chunk hchunk ↦
    (h.mono (List.infix_of_mem_flatten hchunk)).cString_eq
  rw [List.flatMap_congr hchunk, withoutNul, List.filter_flatten, List.flatMap_def]
  rfl

/-- Text that is seen in what is read, whatever stands before it. -/
def Visible (m rest : Bytes) : Prop :=
  ∀ p, ¬ (lines LF CR (p ++ m ++ rest) = lines LF CR (p ++ rest) ∧
    unfinished LF (p ++ m ++ rest) = unfinished LF (p ++ rest))

theorem visible_of_mem {m : Bytes} (rest : Bytes) (h : LF ∈ m) : Visible m rest := by
  rintro p ⟨hl, -⟩
  have hcount := congrArg List.length hl
  simp only [length_lines, List.count_append] at hcount
  have hpos := List.count_pos_iff.mpr h
  omega

theorem visible_singleton {b : UInt8} {rest : Bytes} (hb : b ≠ LF)
    (h : b = CR → rest.head? ≠ some LF) : Visible [b] rest := by
  intro p
  rw [List.append_assoc, List.singleton_append]
  exact lines_insert_ne hb h

/-- When a byte follows a NUL, some chunk hides text that would be seen. -/
theorem exists_visible {x v : Bytes} (h : ∃ b ∈ v, b ≠ NUL) :
    ∃ x' m y, x ++ NUL :: v = x' ++ (NUL :: m ++ y) ∧ NUL ∉ m ∧ m.length ≤ 2 ∧
      Visible m (withoutNul y) := by
  induction hn : v.length using Nat.strong_induction_on generalizing x v with
  | _ n ih =>
      subst hn
      obtain ⟨b, hb, hne⟩ := h
      cases v with
      | nil => simp at hb
      | cons a y =>
          by_cases ha : a = NUL
          · -- The next NUL hides the byte as well.
            subst ha
            have hy : b ∈ y := (List.mem_cons.mp hb).resolve_left hne
            simpa using ih y.length (by simp) (x := x ++ [NUL]) ⟨b, hy, hne⟩ rfl
          · by_cases hlf : a = LF
            · exact ⟨x, [a], y, by simp, by simpa using Ne.symm ha, by simp,
                visible_of_mem _ (by simp [hlf])⟩
            · by_cases hcr : a = CR → (withoutNul y).head? ≠ some LF
              · exact ⟨x, [a], y, by simp, by simpa using Ne.symm ha, by simp,
                  visible_singleton hlf hcr⟩
              · -- A CR that disappears before the LF: the LF has to be hidden, too.
                obtain ⟨rfl, hhead⟩ : a = CR ∧ (withoutNul y).head? = some LF := by
                  simpa using hcr
                have hmem : LF ∈ y := (List.mem_filter.mp (List.mem_of_head? hhead)).1
                cases y with
                | nil => simp at hmem
                | cons d z =>
                    by_cases hd : d = NUL
                    · subst hd
                      have hz : LF ∈ z := (List.mem_cons.mp hmem).resolve_left (by decide)
                      simpa using ih z.length (by simp only [List.length_cons]; omega)
                        (x := x ++ [NUL, CR])
                        ⟨LF, hz, by decide⟩ rfl
                    · have hdlf : d = LF := by simpa [withoutNul, hd] using hhead
                      subst hdlf
                      exact ⟨x, [CR, LF], z, by simp, by decide, by simp,
                        visible_of_mem _ (by simp)⟩

/-- Chunks of a stream whose NULs come last: all its other bytes are read. -/
theorem Server.receiveAll_of_nulsLast {s : Server} {fd : Int} {c : Client}
    (hc : s.clients.lookup fd = some c) {stream : Bytes} {chunks : List Bytes}
    (h : NulsLast stream) (hcut : Cuts stream chunks) : s.receiveAll fd chunks =
      if stream = [] then s else s.absorb fd (withoutNul stream) := by
  have hdata := h.flatMap_cString hcut
  obtain ⟨rfl, hne⟩ := hcut
  split
  · rename_i hnil
    have hchunks : chunks = [] := List.eq_nil_iff_forall_not_mem.mpr fun k hk ↦
      (hne k hk).1 (List.flatten_eq_nil_iff.mp hnil k hk)
    rw [hchunks, receiveAll, List.foldl_nil]
  · rename_i hnil
    have hchunks : chunks ≠ [] := fun e ↦ hnil (e ▸ List.flatten_nil)
    rw [receiveAll_eq hc hchunks fun k hk ↦ (hne k hk).1, hdata]

theorem Server.absorb_ne {s : Server} {fd : Int} {c : Client} (hc : s.clients.lookup fd = some c)
    {m rest : Bytes} (hm : Visible m rest) (u : Bytes) :
    s.absorb fd (u ++ m ++ rest) ≠ s.absorb fd (u ++ rest) := by
  intro heq
  obtain ⟨a, ha, hbuf, hexec⟩ := lookup_absorb hc (u ++ m ++ rest)
  obtain ⟨b, hb, hbuf', hexec'⟩ := lookup_absorb hc (u ++ rest)
  obtain rfl : a = b := Option.some.inj (ha.symm.trans (heq ▸ hb))
  refine hm (c.readBuffer ++ u) ⟨?_, ?_⟩
  · simpa using hexec.symm.trans hexec'
  · simpa using hbuf.symm.trans hbuf'

/-- Two cuttings tell apart a stream in which a byte follows a NUL. -/
theorem Server.exists_receiveAll_ne {s : Server} {fd : Int} {c : Client}
    (hc : s.clients.lookup fd = some c) {stream : Bytes} (h : ¬ NulsLast stream) :
    ∃ cs ds, Cuts stream cs ∧ Cuts stream ds ∧ s.receiveAll fd cs ≠ s.receiveAll fd ds := by
  obtain ⟨x', v, rfl, hv⟩ : ∃ u v, stream = u ++ NUL :: v ∧ ∃ b ∈ v, b ≠ NUL := by
    simpa [NulsLast] using h
  obtain ⟨x, m, y, hstream, hnul, hlen, hm⟩ := exists_visible (x := x') hv
  rw [hstream]
  have hchunk : Cuts (NUL :: m) [NUL :: m] := cuts_one (List.cons_ne_nil _ _) (by simp; omega)
  have hhides : Cuts (x ++ (NUL :: m ++ y)) (x.map ([·]) ++ ([NUL :: m] ++ y.map ([·]))) :=
    (cuts_singletons x).append (hchunk.append (cuts_singletons y))
  refine ⟨_, _, cuts_singletons _, hhides, ?_⟩
  have hall : ((x ++ (NUL :: m ++ y)).map ([·])).flatMap cString =
      withoutNul x ++ m ++ withoutNul y := by
    have hself : withoutNul m = m :=
      List.filter_eq_self.mpr fun b hb ↦ by simpa using fun e : b = NUL ↦ hnul (e ▸ hb)
    have hcons : withoutNul (NUL :: m) = m := hself
    rw [flatMap_cString_singletons, withoutNul_append, withoutNul_append, hcons,
      List.append_assoc]
  have hsome : (x.map ([·]) ++ ([NUL :: m] ++ y.map ([·]))).flatMap cString =
      withoutNul x ++ withoutNul y := by
    have hnone : [NUL :: m].flatMap cString = [] := rfl
    rw [List.flatMap_append, List.flatMap_append, flatMap_cString_singletons,
      flatMap_cString_singletons, hnone, List.nil_append]
  rw [receiveAll_eq hc (by simp) fun k hk ↦ ((cuts_singletons _).2 k hk).1,
    receiveAll_eq hc (by simp) fun k hk ↦ (hhides.2 k hk).1, hall, hsome]
  exact absorb_ne hc hm _

/-- Receiving a stream gives one result, however it is cut, exactly when no byte but a
NUL follows a NUL in it. -/
theorem receiveAll_const_iff {s : Server} {fd : Int} {stream : Bytes} (hfd : fd ∈ s.clients) :
    (∀ cs ds, Cuts stream cs → Cuts stream ds → s.receiveAll fd cs = s.receiveAll fd ds) ↔
      ∀ u v, stream = u ++ NUL :: v → ∀ b ∈ v, b = NUL := by
  obtain ⟨c, hc⟩ := UnorderedMap.mem_iff_lookup.mp hfd
  constructor
  · intro h
    by_contra hbad
    obtain ⟨cs, ds, hcs, hds, hne⟩ := Server.exists_receiveAll_ne hc hbad
    exact hne (h cs ds hcs hds)
  · intro h cs ds hcs hds
    rw [Server.receiveAll_of_nulsLast hc h hcs, Server.receiveAll_of_nulsLast hc h hds]

/-- A NUL between a command and its line ending, on the only connection. -/
theorem receiveAll_const_iff_run :
    let s := (Server.initial 3 (lit "pw")).acceptClient (.connected 4 ⟨127, 0, 0, 1⟩)
    let stream := lit "QUIT" ++ [NUL, CR, LF]
    (∀ cs ds, Cuts stream cs → Cuts stream ds → s.receiveAll 4 cs = s.receiveAll 4 ds) ↔
      ∀ u v, stream = u ++ NUL :: v → ∀ b ∈ v, b = NUL :=
  receiveAll_const_iff (by decide +kernel)

/-- In one chunk the line ending is lost; in two chunks the command is executed. -/
theorem receiveAll_not_const :
    let s := (Server.initial 3 (lit "pw")).acceptClient (.connected 4 ⟨127, 0, 0, 1⟩)
    let stream := lit "QUIT" ++ [NUL, CR, LF]
    ¬ ∀ cs ds, Cuts stream cs → Cuts stream ds → s.receiveAll 4 cs = s.receiveAll 4 ds := by
  intro s stream h
  have heq := h [stream] [lit "QUIT" ++ [NUL], [CR, LF]]
    ⟨by decide +kernel, by decide +kernel⟩ ⟨by decide +kernel, by decide +kernel⟩
  have hexec := congrArg (fun t : Server ↦ (t.client 4).executed) heq
  exact absurd hexec (by decide +kernel)

end IrcServer
