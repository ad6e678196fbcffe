import IrcServer.Process
import Mathlib.Data.List.TakeWhile
import Mathlib.Data.Nat.Digits.Defs

/-!
# The arguments

What `main` makes of its arguments before it constructs the server.  `std::atoi` skips white
space, reads a sign and digits, and ignores the rest; a value that is no `int` is undefined.
The texts printed on standard error are those of the refusals.
-/

namespace IrcServer

/-- `std::isspace` in the "C" locale. -/
def isspace (c : UInt8) : Bool := c == SPACE || 9 ≤ c && c ≤ 13

/-- `std::isdigit`. -/
def isdigit (c : UInt8) : Bool := 48 ≤ c && c ≤ 57

/-- The value of a run of digits. -/
def digitsValue (digits : Bytes) : Nat := digits.foldl (fun n c ↦ 10 * n + (c.toNat - 48)) 0

/-- Whether a minus stands at the beginning, and what follows the sign, if there is one. -/
def takeSign : Bytes → Bool × Bytes
  | [] => (false, [])
  | c :: s => if c = 45 then (true, s) else if c = 43 then (false, s) else (false, c :: s)

/-- The number that a text begins with, after white space; 0 if it begins with none. -/
def number (s : Bytes) : Int :=
  let (negative, s) := takeSign (s.dropWhile isspace)
  let n : Int := digitsValue (s.takeWhile isdigit)
  if negative then -n else n

/-- The values of an `int`. -/
abbrev IsInt (n : Int) : Prop := -2147483648 ≤ n ∧ n ≤ 2147483647

/-- `std::atoi`, where it is defined. -/
def atoi (s : Bytes) : Option Int := if IsInt (number s) then some (number s) else none

/-- What `main` does with its arguments. -/
inductive Launch where
  | refused (text : Bytes)
  /-- The behaviour of `atoi` is undefined. -/
  | undefined
  /-- `Server server(port, password)` -/
  | server (port : UInt16) (password : Bytes)
deriving DecidableEq

/-- `main`, until the server is constructed. -/
def launch : List Bytes → Launch
  | [_, port, password] =>
      if password = [] then .refused (lit "Error: Password cannot be empty!\n")
      else
        match atoi port with
        | none => .undefined
        | some port =>
            if port < 1024 ∨ port > 65535 then
              .refused (lit "Error: Port number out of accepted range. Must be 1024 - 65535.\n")
            else .server (UInt16.ofInt port) password
  | _ => .refused (lit "Usage: ./ircserv <port> <password>\n")

/-! ## Reading a number -/

theorem takeSign_cons_of_isdigit {c : UInt8} (h : isdigit c = true) (s : Bytes) :
    takeSign (c :: s) = (false, c :: s) := by
  have hminus : c ≠ 45 := by
    rintro rfl
    exact absurd h (by decide)
  have hplus : c ≠ 43 := by
    rintro rfl
    exact absurd h (by decide)
  rw [takeSign, if_neg hminus, if_neg hplus]

theorem eq_append_of_takeSign {s : Bytes} (h : (takeSign s).1 = false) :
    ∃ sign ∈ [[], [43]], s = sign ++ (takeSign s).2 := by
  cases s with
  | nil => exact ⟨[], by decide, rfl⟩
  | cons c s =>
      rw [takeSign] at h ⊢
      by_cases hminus : c = 45
      · rw [if_pos hminus] at h
        cases h
      · rw [if_neg hminus]
        by_cases hplus : c = 43
        · refine ⟨[43], by decide, ?_⟩
          rw [if_pos hplus, hplus]
          rfl
        · refine ⟨[], by decide, ?_⟩
          rw [if_neg hplus]
          rfl

/-- A text from which `atoi` reads a number that is not negative. -/
structure Numeral where
  blanks : Bytes
  sign : Bytes
  digits : Bytes
  rest : Bytes
  isspace_blanks : ∀ c ∈ blanks, isspace c = true
  sign_mem : sign ∈ [[], [43]]
  isdigit_digits : ∀ c ∈ digits, isdigit c = true
  digits_ne_nil : digits ≠ []
  isdigit_rest : ∀ c ∈ rest.head?, isdigit c = false

namespace Numeral

def str (t : Numeral) : Bytes := t.blanks ++ (t.sign ++ (t.digits ++ t.rest))

def value (t : Numeral) : Nat := digitsValue t.digits

theorem takeSign_eq (t : Numeral) : takeSign (t.str.dropWhile isspace) =
    (false, t.digits ++ t.rest) := by
  obtain ⟨c, digits, hdigits⟩ := List.exists_cons_of_ne_nil t.digits_ne_nil
  have hc : isdigit c = true := t.isdigit_digits c (hdigits ▸ List.mem_cons_self)
  have hspace : isspace c = false := by
    simp only [isdigit, isspace, Bool.and_eq_true, decide_eq_true_eq] at hc ⊢
    have hne : c ≠ SPACE := by
      rintro rfl
      exact absurd hc.1 (by decide)
    have hgt : ¬ c ≤ 13 := fun h ↦ absurd (UInt8.le_trans hc.1 h) (by decide)
    simp [hne, hgt]
  rw [str, List.dropWhile_append_of_pos t.isspace_blanks]
  have hsign := t.sign_mem
  simp only [List.mem_cons, List.not_mem_nil, or_false] at hsign
  rcases hsign with h | h
  · rw [h, List.nil_append, hdigits, List.cons_append,
      List.dropWhile_cons_of_neg (by simp [hspace]), takeSign_cons_of_isdigit hc]
  · rw [h, List.singleton_append, List.dropWhile_cons_of_neg (by decide)]
    rfl

theorem takeWhile_eq (t : Numeral) : (t.digits ++ t.rest).takeWhile isdigit = t.digits := by
  rw [List.takeWhile_append_of_pos t.isdigit_digits]
  have hrest : t.rest.takeWhile isdigit = [] := by
    cases h : t.rest with
    | nil => rfl
    | cons c rest =>
        exact List.takeWhile_cons_of_neg (by simp [t.isdigit_rest c (by simp [h])])
  rw [hrest, List.append_nil]

theorem number_str (t : Numeral) : number t.str = t.value := by
  simp [number, takeSign_eq, takeWhile_eq, value]

/-- A text that begins with a positive number is of this form. -/
theorem exists_of_number {s : Bytes} {v : Int} (h : number s = v) (hpos : 0 < v) :
    ∃ t : Numeral, t.str = s ∧ (t.value : Int) = v := by
  have hvalue : (takeSign (s.dropWhile isspace)).1 = false ∧
      (digitsValue ((takeSign (s.dropWhile isspace)).2.takeWhile isdigit) : Int) = v := by
    cases hsign : (takeSign (s.dropWhile isspace)).1 with
    | true =>
        simp only [number, hsign, if_true] at h
        omega
    | false =>
        simp only [number, hsign, Bool.false_eq_true, if_false] at h
        exact ⟨rfl, h⟩
  obtain ⟨hplus, hvalue⟩ := hvalue
  obtain ⟨sign, hsign, heq⟩ := eq_append_of_takeSign hplus
  generalize (takeSign (s.dropWhile isspace)).2 = text at hvalue heq
  have hne : text.takeWhile isdigit ≠ [] := by
    intro hnil
    rw [hnil] at hvalue
    exact absurd hvalue (Int.ne_of_lt hpos)
  refine ⟨⟨s.takeWhile isspace, sign, text.takeWhile isdigit, text.dropWhile isdigit,
    fun c hc ↦ List.mem_takeWhile_imp hc, hsign, fun c hc ↦ List.mem_takeWhile_imp hc, hne, ?_⟩,
    ?_, hvalue⟩
  · intro c hc
    have hhead := List.head?_dropWhile_not isdigit text
    rw [Option.mem_def.mp hc] at hhead
    simpa using hhead
  · rw [str, List.takeWhile_append_dropWhile, ← heq, List.takeWhile_append_dropWhile]

/-- The decimal form of a number. -/
def ofNat (n : Nat) (h : n ≠ 0) : Numeral where
  blanks := []
  sign := []
  digits := ((Nat.digits 10 n).reverse).map fun d ↦ UInt8.ofNat (48 + d)
  rest := []
  isspace_blanks := List.forall_mem_nil _
  sign_mem := List.mem_cons_self
  isdigit_digits := by
    intro c hc
    obtain ⟨d, hd, rfl⟩ := List.mem_map.mp hc
    have hdigit : ∀ d < 10, isdigit (UInt8.ofNat (48 + d)) = true := by decide
    exact hdigit d (Nat.digits_lt_base (by decide) (List.mem_reverse.mp hd))
  digits_ne_nil := by
    simpa using Nat.digits_ne_nil_iff_ne_zero.mpr h
  isdigit_rest := fun c hc ↦ nomatch hc

theorem digitsValue_reverse {ds : List Nat} (h : ∀ d ∈ ds, d < 10) :
    digitsValue (ds.reverse.map fun d ↦ UInt8.ofNat (48 + d)) = Nat.ofDigits 10 ds := by
  induction ds with
  | nil => rfl
  | cons d ds ih =>
      obtain ⟨hd, hds⟩ := List.forall_mem_cons.mp h
      have hdigit : ∀ d < 10, (UInt8.ofNat (48 + d)).toNat - 48 = d := by decide
      rw [List.reverse_cons, List.map_append, digitsValue, List.foldl_append, ← digitsValue,
        ih hds, Nat.ofDigits_cons, Nat.add_comm]
      simp only [List.map_singleton, List.foldl_cons, List.foldl_nil, hdigit d hd]

theorem value_ofNat {n : Nat} (h : n ≠ 0) : (ofNat n h).value = n :=
  (digitsValue_reverse fun _ hd ↦ Nat.digits_lt_base (by decide) hd).trans
    (Nat.ofDigits_digits 10 n)

end Numeral

theorem toNat_ofInt {n : Nat} (h : n < 65536) : (UInt16.ofInt (n : Int)).toNat = n := by
  have hmod : ((n : Int) % 2 ^ 16).toNat = n := by omega
  rw [UInt16.ofInt, hmod]
  exact UInt16.toNat_ofNat_of_lt h

theorem launch_of_three {name text password : Bytes} (hint : IsInt (number text)) :
    launch [name, text, password] =
      if password = [] then .refused (lit "Error: Password cannot be empty!\n")
      else if number text < 1024 ∨ number text > 65535 then
        .refused (lit "Error: Port number out of accepted range. Must be 1024 - 65535.\n")
      else .server (UInt16.ofInt (number text)) password := by
  rw [launch, atoi, if_pos hint]

/-- The port is the one that the digits stand for, and what follows them does not matter. -/
theorem launch_str {t : Numeral} {port : UInt16} {password : Bytes} (hne : password ≠ [])
    (hle : 1024 ≤ port.toNat) (hvalue : t.value = port.toNat) (name : Bytes) :
    launch [name, t.str, password] = .server port password := by
  have hlt : port.toNat < 65536 := port.toNat_lt
  have hnumber : number t.str = port.toNat := t.number_str.trans (congrArg Int.ofNat hvalue)
  have hport : UInt16.ofInt (port.toNat : Int) = port := UInt16.toNat_inj.mp (toNat_ofInt hlt)
  rw [launch_of_three (by omega), hnumber, if_neg hne, if_neg (by omega), hport]

/-- Every port in the range can be asked for. -/
theorem launch_ofNat {port : UInt16} {password : Bytes} (hne : password ≠ [])
    (hle : 1024 ≤ port.toNat) (name : Bytes) :
    launch [name, (Numeral.ofNat port.toNat (by omega)).str, password] = .server port password :=
  launch_str hne hle (Numeral.value_ofNat _) name

/-- Where the first argument does not begin with a number beyond `int`, the behaviour of `main`
is defined.  It then constructs a server exactly when it has two arguments, the second of which
is not empty, while the first is white space, an optional plus, digits, and anything that does
not go on with a digit; the digits stand for a number from 1024 to 65535, and that is the
port. -/
theorem launch_iff {av : List Bytes} (hint : ∀ text ∈ av[1]?, IsInt (number text)) :
    launch av ≠ .undefined ∧ ∀ (port : UInt16) (password : Bytes),
      launch av = .server port password ↔ password ≠ [] ∧ 1024 ≤ port.toNat ∧
        ∃ (name : Bytes) (t : Numeral), av = [name, t.str, password] ∧ t.value = port.toNat := by
  match av with
  | [] | [_] | [_, _] | _ :: _ :: _ :: _ :: _ => simp [launch]
  | [name, text, password'] =>
      rw [launch_of_three (hint text rfl)]
      constructor
      · split
        · exact Launch.noConfusion
        · split <;> exact Launch.noConfusion
      · intro port password
        constructor
        · intro h
          split at h
          · cases h
          · rename_i hne
            split at h
            · cases h
            · rename_i hrange
              obtain ⟨rfl, rfl⟩ := Launch.server.inj h
              obtain ⟨t, rfl, hvalue⟩ := Numeral.exists_of_number (s := text) rfl (by omega)
              rw [← hvalue] at hrange ⊢
              have hport := toNat_ofInt (n := t.value) (by omega)
              exact ⟨hne, by omega, name, t, rfl, hport.symm⟩
        · rintro ⟨hne, hle, name', t, heq, hvalue⟩
          rw [← launch_of_three (hint text rfl), heq]
          exact launch_str hne hle hvalue name'

/-- White space, a plus and digits, and a text after them. -/
theorem launch_iff_spaced :
    launch [lit "ircserv", lit " +6667 x", lit "pw"] ≠ .undefined ∧
    ∀ (port : UInt16) (password : Bytes),
      launch [lit "ircserv", lit " +6667 x", lit "pw"] = .server port password ↔
        password ≠ [] ∧ 1024 ≤ port.toNat ∧ ∃ (name : Bytes) (t : Numeral),
          [lit "ircserv", lit " +6667 x", lit "pw"] = [name, t.str, password] ∧
            t.value = port.toNat :=
  launch_iff (by decide)

example : launch [lit "ircserv", lit " +6667 x", lit "pw"] = .server 6667 (lit "pw") := by decide

/-- A number beyond `int`, of which nothing is known. -/
example : launch [lit "ircserv", lit "4294990752", lit "pw"] = .undefined := by decide

end IrcServer
