import IrcServer.ParserLaws
import IrcServer.Runs

/-!
# The names a client can have

A nickname is whatever parameter the parser yields, a trailing one included; a user
name is never the last parameter of its line, so it is a token; a host is an address in
dotted decimal.  Lines have no LF, so neither have names.
-/

namespace IrcServer

open Library

/-! ## Hosts -/

private theorem digit_bounds {k : UInt8} (hk : k < 10) : 48 ≤ 48 + k ∧ 48 + k ≤ 57 := by
  simp only [UInt8.le_iff_toNat_le, UInt8.lt_iff_toNat_lt, UInt8.toNat_add, UInt8.toNat_ofNat,
    Nat.reducePow, Nat.reduceMod] at hk ⊢
  omega

/-- An octet is written with digits. -/
theorem decimal_digits {n b : UInt8} (hb : b ∈ decimal n) : 48 ≤ b ∧ b ≤ 57 := by
  have hmod : ∀ k : UInt8, k % 10 < 10 := fun k ↦ by
    simp only [UInt8.lt_iff_toNat_lt, UInt8.toNat_mod, UInt8.toNat_ofNat, Nat.reducePow,
      Nat.reduceMod]
    omega
  have hten (h : n < 100) : n / 10 < 10 := by
    simp only [UInt8.lt_iff_toNat_lt, UInt8.toNat_div, UInt8.toNat_ofNat,
      Nat.reducePow, Nat.reduceMod] at h ⊢
    omega
  have hhundred : n / 100 < 10 := by
    have := n.toNat_lt
    simp only [UInt8.lt_iff_toNat_lt, UInt8.toNat_div, UInt8.toNat_ofNat, Nat.reducePow,
      Nat.reduceMod]
    omega
  unfold decimal at hb
  split at hb
  · rename_i h
    obtain rfl := List.mem_singleton.mp hb
    exact digit_bounds h
  · split at hb
    · rename_i h
      rcases List.mem_cons.mp hb with rfl | hb
      · exact digit_bounds (hten h)
      · obtain rfl := List.mem_singleton.mp hb
        exact digit_bounds (hmod n)
    · rcases List.mem_cons.mp hb with rfl | hb
      · exact digit_bounds hhundred
      · rcases List.mem_cons.mp hb with rfl | hb
        · exact digit_bounds (hmod _)
        · obtain rfl := List.mem_singleton.mp hb
          exact digit_bounds (hmod n)

/-- An address is written with digits and dots. -/
theorem inetNtop_chars {address : InAddr} {b : UInt8} (hb : b ∈ inetNtop address) :
    b = 46 ∨ 48 ≤ b ∧ b ≤ 57 := by
  have hdot : lit "." = [46] := by decide
  simp only [inetNtop, hdot, List.mem_append, List.mem_singleton] at hb
  rcases hb with (((((h | h) | h) | h) | h) | h) | h
  all_goals first | exact Or.inl h | exact Or.inr (decimal_digits h)

/-! ## Lines and names -/

/-- The line taken next has no LF. -/
theorem notMem_nextCommand (s : Server) (fd : Int) : LF ∉ s.nextCommand fd := by
  rw [Server.nextCommand]
  by_cases h : LF ∈ (s.client fd).readBuffer
  · obtain ⟨w, rest, hb, hw⟩ := List.eq_append_cons_of_mem h
    rw [Client.extractCommandFromBuffer_eq hb hw]
    exact fun hmem ↦ hw (mem_of_mem_chomp hmem)
  · rw [Client.extractCommandFromBuffer, find_singleton_eq_none_iff.mpr h]
    exact List.not_mem_nil

/-- Nor has any parameter of it. -/
theorem notMem_params {s : Server} {fd : Int} {w : Bytes} (hw : w ∈ (s.nextParsed fd).params) :
    LF ∉ w :=
  fun h ↦ notMem_nextCommand s fd (Parser.mem_of_mem_params hw h)

/-- What is known of the names of every client. -/
structure Client.Named (c : Client) : Prop where
  nickname_lf : LF ∉ c.nickname
  username_lf : LF ∉ c.username
  username_space : SPACE ∉ c.username
  hostname_chars : ∀ b ∈ c.hostname, b = 46 ∨ 48 ≤ b ∧ b ≤ 57

theorem Client.Named.moved {s : Server} {e : Event} {d : Int} {c c' : Client} (h : c.Named)
    (hm : Moved s e d c c') : c'.Named := by
  cases hm with
  | io r w he => exact ⟨h.nickname_lf, h.username_lf, h.username_space, h.hostname_chars⟩
  | line fd he f hf =>
      have hf' : (f c).Named := by
        cases hf with
        | told ms hms =>
            change (c.appendAll ms).Named
            rw [Client.appendAll_eq]
            exact ⟨h.nickname_lf, h.username_lf, h.username_space, h.hostname_chars⟩
        | marked hd m hm => exact ⟨h.nickname_lf, h.username_lf, h.username_space, h.hostname_chars⟩
        | authenticated hd ha =>
            exact ⟨h.nickname_lf, h.username_lf, h.username_space, h.hostname_chars⟩
        | renamed hd n hn =>
            have hlf : LF ∉ n := notMem_params (List.mem_of_head? hn.2.1)
            change (c.renamed n).Named
            rw [Client.renamed_eq]
            exact ⟨hlf, h.username_lf, h.username_space, h.hostname_chars⟩
        | introduced hd u r hi =>
            obtain ⟨-, ⟨a, b, rest, hp⟩, -, -⟩ := hi
            have hlf : LF ∉ u := notMem_params (hp ▸ List.mem_cons_self)
            have hspace : SPACE ∉ u := by
              have hdrop : u ∈ (s.nextParsed fd).params.dropLast := by simp [hp]
              exact (Parser.isToken_of_mem_dropLast hdrop).notMem
            change (c.introduced u r).Named
            rw [Client.introduced_eq]
            exact ⟨h.nickname_lf, hlf, hspace, h.hostname_chars⟩
      split
      · rw [Client.takeCommand_eq]
        exact ⟨hf'.nickname_lf, hf'.username_lf, hf'.username_space, hf'.hostname_chars⟩
      · exact hf'

/-- In every run, the names of every client are such. -/
theorem named_of_run {serverSocket : Int} {password : Bytes} {es : List Event}
    (hv : network.Valid (Server.initial serverSocket password) es) {d : Int} {c : Client}
    (hc : (network.run (Server.initial serverSocket password) es).clients.lookup d = some c) :
    c.Named := by
  refine client_invariant (P := Client.Named) (Q := fun _ _ ↦ True) ?_
    (fun s e d c c' _ _ _ _ _ hm h ↦ h.moved hm) hv ?_ (ordinary_initial _ _)
    (fun _ _ h ↦ nomatch h) hc
  · intro d address n
    exact ⟨List.not_mem_nil, List.not_mem_nil, List.not_mem_nil, fun b hb ↦ inetNtop_chars hb⟩
  · exact System.along_iff.mpr fun _ _ _ ↦ trivial

end IrcServer
