import Clither.IniLexemes
import Clither.IniParsers

/-!
# What is read from a settings file

A text that is accepted consists of a section header and of assignments, each of them with a
literal of digits.  The record should hold the number that the last literal of each key
denotes, and the text of the last port.

It does not for every accepted text.  The range of a number is checked when it is wrapped
around already, and the text of a port is copied no matter how long it is.
-/

namespace Clither

open Calls Ini

variable {src : List UInt8} {F α : Type} {d : Dialect} {ops : FloatOps F}

/-! ## Runs -/

/-- A program that begins with a token goes on behind it. -/
theorem run_scan {next : Token × Parser src F → Ini src F α} {p p' : Parser src F} {tok : Token}
    (h : scanNextToken d ops p = .ok (tok, p')) :
    run (handle d ops) (scan >>= next) p = run (handle d ops) (next (tok, p')) p' := by
  have hop : handle d ops .scan p = .ok ((tok, p'), p') := by
    rw [handle, h]
    rfl
  exact run_call hop

/-- And if it comes to an end, there was a token. -/
theorem run_scan_ok {next : Token × Parser src F → Ini src F α} {p : Parser src F}
    {r : α × Parser src F} (h : run (handle d ops) (scan >>= next) p = .ok r) :
    ∃ tok p', scanNextToken d ops p = .ok (tok, p') ∧
      run (handle d ops) (next (tok, p')) p' = .ok r := by
  change run (handle d ops) (.call .scan next) p = _ at h
  obtain ⟨answer, p', hop, hrest⟩ := run_call_ok h
  obtain ⟨tok, p'', hscan, heq⟩ := handle_scan_ok hop
  cases heq
  exact ⟨tok, p', hscan, hrest⟩

/-- A message is followed by the answer that it was given. -/
theorem run_reject_ok {text : String} {a : α} {p : Parser src F} {r : α × Parser src F}
    (h : run (handle d ops) (reject text a) p = .ok r) : r.1 = a := by
  change run (handle d ops) (.call (.parserError text) fun _ => .ret a) p = _ at h
  obtain ⟨answer, p', -, hrest⟩ := run_call_ok h
  cases hrest
  rfl

/-- A token that is there is passed. -/
theorem run_expect {tok : Token} {text : String} {onError : α} {rest : Parser src F → Ini src F α}
    {p p' : Parser src F} (h : scanNextToken d ops p = .ok (tok, p')) :
    run (handle d ops) (expect tok text onError rest) p = run (handle d ops) (rest p') p' := by
  rw [expect, run_scan h]
  dsimp only
  rw [if_pos rfl]

/-- An expected token is there, or the result is the one on an error. -/
theorem run_expect_ok {tok : Token} {text : String} {onError : α}
    {rest : Parser src F → Ini src F α} {p : Parser src F} {r : α × Parser src F}
    (h : run (handle d ops) (expect tok text onError rest) p = .ok r) :
    r.1 = onError ∨ ∃ p', scanNextToken d ops p = .ok (tok, p') ∧
      run (handle d ops) (rest p') p' = .ok r := by
  obtain ⟨next, p', hscan, hrun⟩ := run_scan_ok h
  dsimp only at hrun
  by_cases hnext : next = tok
  · rw [if_pos hnext] at hrun
    exact .inr ⟨p', hnext ▸ hscan, hrun⟩
  · rw [if_neg hnext] at hrun
    exact .inl (run_reject_ok hrun)

/-! ## Keys -/

/-- The keys of the fields that are numbers. -/
inductive NumberKey where
  | maxPlayers
  | maxUsernameLen
  | simTickRate
  | netTickRate
  | clientTimeout
  | maliciousTimeout
  deriving DecidableEq

namespace NumberKey

def name : NumberKey → String
  | maxPlayers => "max_players"
  | maxUsernameLen => "max_username_len"
  | simTickRate => "sim_tick_rate"
  | netTickRate => "net_tick_rate"
  | clientTimeout => "client_timeout"
  | maliciousTimeout => "malicious_timeout"

/-- The range of a key, as the message about it has it. -/
def low : NumberKey → Int
  | maxPlayers => 1
  | maxUsernameLen => 1
  | simTickRate => 1
  | netTickRate => 1
  | clientTimeout => 0
  | maliciousTimeout => 0

def high : NumberKey → Int
  | maxPlayers => 0xFFFF
  | maxUsernameLen => 255
  | simTickRate => 255
  | netTickRate => 255
  | clientTimeout => 0xFFFF
  | maliciousTimeout => 0xFFFF

def message : NumberKey → String
  | maxPlayers => "'max_players' must be 1-65535\n"
  | maxUsernameLen => "'max_username_len' must be 1-255\n"
  | simTickRate => "'sim_tick_rate' must be 1-255\n"
  | netTickRate => "'net_tick_rate' must be 1-255\n"
  | clientTimeout => "'client_timeout' must be 0-65535\n"
  | maliciousTimeout => "'malicious_timeout' must be 0-65535\n"

/-- The numbers with that of the key replaced. -/
def replace : (k : NumberKey) → ServerSettings → (n : Int) → k.low ≤ n → n ≤ k.high →
    ServerSettings
  | maxPlayers, server, n, h0, h =>
      { server with maxPlayers := UInt16.ofNat n.toNat, maxPlayers_pos := uint16_ne_zero h0 h }
  | maxUsernameLen, server, n, h0, h =>
      { server with
        maxUsernameLen := UInt8.ofNat n.toNat, maxUsernameLen_pos := uint8_ne_zero h0 h }
  | simTickRate, server, n, h0, h =>
      { server with simTickRate := UInt8.ofNat n.toNat, simTickRate_pos := uint8_ne_zero h0 h }
  | netTickRate, server, n, h0, h =>
      { server with netTickRate := UInt8.ofNat n.toNat, netTickRate_pos := uint8_ne_zero h0 h }
  | clientTimeout, server, n, _, _ => { server with clientTimeout := UInt16.ofNat n.toNat }
  | maliciousTimeout, server, n, _, _ => { server with maliciousTimeout := UInt16.ofNat n.toNat }

def store (k : NumberKey) (server : Settings) (n : Int) (h0 : k.low ≤ n) (h : n ≤ k.high) :
    Settings :=
  { server with toServerSettings := k.replace server.toServerSettings n h0 h }

/-- All of them are parsed in one way. -/
def parse (k : NumberKey) : Settings → Ini src F (Int × Settings) :=
  parseServerInteger k.low k.high k.message k.store

/-- Each number fits 16 bits. -/
theorem high_le (k : NumberKey) : k.high ≤ 65535 := by
  cases k <;> decide

end NumberKey

/-- The field of a key. -/
def ServerSettings.number (s : ServerSettings) : NumberKey → Nat
  | .maxPlayers => s.maxPlayers.toNat
  | .maxUsernameLen => s.maxUsernameLen.toNat
  | .simTickRate => s.simTickRate.toNat
  | .netTickRate => s.netTickRate.toNat
  | .clientTimeout => s.clientTimeout.toNat
  | .maliciousTimeout => s.maliciousTimeout.toNat

inductive ServerKey where
  | number (k : NumberKey)
  | port
  deriving DecidableEq

namespace ServerKey

def name : ServerKey → String
  | number k => k.name
  | port => "port"

def low : ServerKey → Int
  | number k => k.low
  | port => 0

def high : ServerKey → Int
  | number k => k.high
  | port => 65535

def parse : ServerKey → Settings → Ini src F (Int × Settings)
  | number k => k.parse
  | port => parseServerPort

/-- In the order in which they are compared. -/
def all : List ServerKey :=
  [number .maxPlayers, number .maxUsernameLen, number .simTickRate, number .netTickRate,
    number .clientTimeout, number .maliciousTimeout, port]

/-- The name as it stands in a text. -/
def text (k : ServerKey) : List UInt8 :=
  k.name.toList.map ch

/-- Different keys have different names. -/
theorem text_injective {k k' : ServerKey} (h : k.text = k'.text) : k = k' := by
  have hall : ∀ k ∈ all, ∀ k' ∈ all, k.text = k'.text → k = k' := by decide +kernel
  have hmem (k : ServerKey) : k ∈ all := by
    rcases k with k | _
    · cases k <;> decide
    · decide
  exact hall k (hmem k) k' (hmem k') h

/-- Whether the text of a literal fits into the field.  A number is not stored as a text. -/
def Fits : ServerKey → List UInt8 → Prop
  | number _, _ => True
  | port, literal => literal.length ≤ 5

end ServerKey

/-- The comparison with a C string is equality. -/
theorem eqLoop_iff (bytes cstr : List UInt8) : eqLoop bytes cstr = true ↔ bytes = cstr := by
  induction bytes generalizing cstr with
  | nil =>
      rw [eqLoop, List.isEmpty_iff]
      exact eq_comm
  | cons b bytes ih =>
      cases cstr with
      | nil => simp [eqLoop]
      | cons c cstr => simp [eqLoop, ih]

/-- So a piece of the text is compared with the name of a key. -/
theorem strviewEqCstr_iff (str : StrView src) (k : ServerKey) :
    strviewEqCstr str k.name = true ↔ str.bytes = k.text :=
  eqLoop_iff _ _

/-- The `HANDLE_KEY` lines are the keys with their names and functions. -/
theorem serverKeys_eq :
    (serverKeys : List (String × (Settings → Ini src F (Int × Settings)))) =
      ServerKey.all.map fun k => (k.name, k.parse) := rfl

/-- The comparisons find the key. -/
theorem find_serverKeys (k : ServerKey) {str : StrView src} (h : str.bytes = k.text) :
    (serverKeys : List (String × (Settings → Ini src F (Int × Settings)))).find?
      (fun entry => strviewEqCstr str entry.1) = some (k.name, k.parse) := by
  have hmatch : (fun k' : ServerKey => strviewEqCstr str k'.name) = fun k' => decide (k' = k) := by
    funext k'
    rw [Bool.eq_iff_iff, strviewEqCstr_iff, h, decide_eq_true_iff]
    exact ⟨fun heq => (ServerKey.text_injective heq).symm, fun heq => by rw [heq]⟩
  have hfind : ServerKey.all.find? (fun k' => decide (k' = k)) = some k := by
    rcases k with k | _
    · cases k <;> decide
    · decide
  rw [serverKeys_eq, List.find?_map]
  show Option.map _ (ServerKey.all.find? fun k' => strviewEqCstr str k'.name) = _
  rw [hmatch, hfind]
  rfl

/-- The function that is found for a name is the one of its key. -/
theorem key_of_find_serverKeys {str : StrView src}
    {entry : String × (Settings → Ini src F (Int × Settings))}
    (h : serverKeys.find? (fun entry => strviewEqCstr str entry.1) = some entry) :
    ∃ k : ServerKey, str.bytes = k.text ∧ entry = (k.name, k.parse) := by
  have hmem := List.mem_of_find?_eq_some h
  rw [serverKeys_eq, List.mem_map] at hmem
  obtain ⟨k, -, rfl⟩ := hmem
  have hmatch : strviewEqCstr str k.name = true :=
    List.find?_some (p := fun entry : String × (Settings → Ini src F (Int × Settings)) =>
      strviewEqCstr str entry.1) h
  exact ⟨k, (strviewEqCstr_iff str k).mp hmatch, rfl⟩

/-! ## Values -/

/-- What a literal of a key makes of the record, when `v` is the value that the scanner has
given to it. -/
def Assigned : ServerKey → Int → List UInt8 → Settings → Settings → Prop
  | .number k, v, _, s, s' => s'.number = Function.update s.number k v.toNat ∧ s'.port = s.port
  | .port, _, literal, s, s' =>
      s'.toServerSettings = s.toServerSettings ∧ ∃ unused, s'.port = literal ++ 0 :: unused

/-- A number in range is stored. -/
theorem run_parseServerInteger {low high : Int} {range : String}
    {store : Settings → (n : Int) → low ≤ n → n ≤ high → Settings} {server : Settings}
    {p p' : Parser src F} (hscan : scanNextToken d ops p = .ok (.tokInteger, p'))
    (h : low ≤ p'.value.integerLiteral ∧ p'.value.integerLiteral ≤ high) :
    run (handle d ops) (parseServerInteger low high range store server) p =
      .ok ((0, store server p'.value.integerLiteral h.1 h.2), p') := by
  rw [parseServerInteger, run_expect hscan, dif_pos h]
  rfl

/-- And only a number in range is. -/
theorem run_parseServerInteger_ok {low high : Int} {range : String}
    {store : Settings → (n : Int) → low ≤ n → n ≤ high → Settings} {server : Settings}
    {p : Parser src F} {r : (Int × Settings) × Parser src F}
    (hrun : run (handle d ops) (parseServerInteger low high range store server) p = .ok r)
    (h0 : r.1.1 = 0) :
    ∃ p', scanNextToken d ops p = .ok (.tokInteger, p') ∧ r.2 = p' ∧
      low ≤ p'.value.integerLiteral ∧ p'.value.integerLiteral ≤ high := by
  rcases run_expect_ok hrun with herror | ⟨p', hscan, hrest⟩
  · rw [herror] at h0
    cases h0
  · refine ⟨p', hscan, ?_⟩
    by_cases h : low ≤ p'.value.integerLiteral ∧ p'.value.integerLiteral ≤ high
    · rw [dif_pos h] at hrest
      cases hrest
      exact ⟨rfl, h⟩
    · rw [dif_neg h] at hrest
      rw [run_reject_ok hrest] at h0
      cases h0

/-- Numbers in the range of a 16-bit field are stored as they are. -/
theorem toNat_lt_uint16 {n : Int} (h : n ≤ 0xFFFF) : n.toNat < UInt16.size := by
  have hsize : UInt16.size = 65536 := rfl
  omega

/-- Numbers in the range of an 8-bit field are stored as they are. -/
theorem toNat_lt_uint8 {n : Int} (h : n ≤ 255) : n.toNat < UInt8.size := by
  have hsize : UInt8.size = 256 := rfl
  omega

/-- Storing a number changes the field of its key and no other. -/
theorem number_store (k : NumberKey) (server : Settings) {n : Int} (h0 : k.low ≤ n)
    (h : n ≤ k.high) :
    (k.store server n h0 h).number = Function.update server.number k n.toNat := by
  funext k'
  by_cases hk : k' = k
  · subst hk
    rw [Function.update_self]
    cases k' with
    | maxPlayers => exact UInt16.toNat_ofNat_of_lt' (toNat_lt_uint16 h)
    | maxUsernameLen => exact UInt8.toNat_ofNat_of_lt' (toNat_lt_uint8 h)
    | simTickRate => exact UInt8.toNat_ofNat_of_lt' (toNat_lt_uint8 h)
    | netTickRate => exact UInt8.toNat_ofNat_of_lt' (toNat_lt_uint8 h)
    | clientTimeout => exact UInt16.toNat_ofNat_of_lt' (toNat_lt_uint16 h)
    | maliciousTimeout => exact UInt16.toNat_ofNat_of_lt' (toNat_lt_uint16 h)
  · rw [Function.update_of_ne hk]
    cases k <;> cases k' <;> first | rfl | exact absurd rfl hk

/-- Numbers do not touch the port. -/
theorem port_store (k : NumberKey) (server : Settings) {n : Int} (h0 : k.low ≤ n) (h : n ≤ k.high) :
    (k.store server n h0 h).port = server.port := by
  cases k <;> rfl

/-- A port of five digits at most is copied with its NUL behind it. -/
theorem copyPort_ok (server : Settings) {text : List UInt8} (h : text.length ≤ 5) :
    ∃ s', copyPort server text = .ok s' ∧ s'.toServerSettings = server.toServerSettings ∧
      ∃ unused, s'.port = text ++ 0 :: unused := by
  rw [copyPort, dif_pos (by omega)]
  exact ⟨_, rfl, rfl, _, rfl⟩

/-- A longer one leaves its array. -/
theorem copyPort_long (server : Settings) {text : List UInt8} (h : ¬text.length ≤ 5) :
    copyPort server text = .error .overflow := by
  rw [copyPort, dif_neg (by omega)]

/-- The copy of a port, as far as it fits. -/
theorem run_copyPort (d : Dialect) (ops : FloatOps F) (server : Settings) {p : Parser src F}
    (hp : p.Inside) :
    (p.token.length ≤ 5 → ∃ s',
      run (handle d ops) (do
        let value ← lift (strview src p.tail (p.head - p.tail))
        let server ← lift (copyPort server value.bytes)
        return ((0 : Int), server)) p = .ok ((0, s'), p) ∧
      s'.toServerSettings = server.toServerSettings ∧ ∃ unused, s'.port = p.token ++ 0 :: unused) ∧
    (¬p.token.length ≤ 5 →
      run (handle d ops) (do
        let value ← lift (strview src p.tail (p.head - p.tail))
        let server ← lift (copyPort server value.bytes)
        return ((0 : Int), server)) p = .error .overflow) := by
  have hhead := hp.head_le
  have htail := hp.tail_le
  obtain ⟨value, hvalue, hoff, hlen⟩ := strview_ok src p.tail (p.head - p.tail) (by omega)
  have hbytes : value.bytes = p.token := by rw [StrView.bytes, hoff, hlen, Parser.token]
  rw [hvalue, ← hbytes]
  constructor
  · intro hfits
    obtain ⟨s', hcopy, hstored⟩ := copyPort_ok server hfits
    refine ⟨s', ?_, hstored⟩
    show run (handle d ops) (lift (copyPort server value.bytes) >>= _) p = _
    rw [hcopy]
    rfl
  · intro hlong
    show run (handle d ops) (lift (copyPort server value.bytes) >>= _) p = _
    rw [copyPort_long server hlong]
    rfl

/-- **A literal** in the range of its key is stored, or it does not fit. -/
theorem run_parse (k : ServerKey) (server : Settings) {p p' : Parser src F}
    (hscan : scanNextToken d ops p = .ok (.tokInteger, p')) (hp' : p'.Inside)
    (hlow : k.low ≤ p'.value.integerLiteral) (hhigh : p'.value.integerLiteral ≤ k.high) :
    (k.Fits p'.token → ∃ s', run (handle d ops) (k.parse server) p = .ok ((0, s'), p') ∧
      Assigned k p'.value.integerLiteral p'.token server s') ∧
    (¬k.Fits p'.token → run (handle d ops) (k.parse server) p = .error .overflow) := by
  cases k with
  | number k =>
      refine ⟨fun _ => ⟨_, run_parseServerInteger hscan ⟨hlow, hhigh⟩, ?_, ?_⟩,
        fun hlong => absurd trivial hlong⟩
      · exact number_store k server hlow hhigh
      · exact port_store k server hlow hhigh
  | port =>
      have hrun : run (handle d ops) (parseServerPort server) p =
          run (handle d ops) (do
            let value ← lift (strview src p'.tail (p'.head - p'.tail))
            let server ← lift (copyPort server value.bytes)
            return ((0 : Int), server)) p' := by
        have hrange : ¬(p'.value.integerLiteral < 0 ∨ p'.value.integerLiteral > 65535) := by
          change 0 ≤ _ at hlow
          change _ ≤ 65535 at hhigh
          omega
        rw [parseServerPort, run_expect hscan, if_neg hrange]
      show (_ → ∃ s', run (handle d ops) (parseServerPort server) p = _ ∧ _) ∧
        (_ → run (handle d ops) (parseServerPort server) p = _)
      rw [hrun]
      exact run_copyPort d ops server hp'

/-- A key that is accepted is followed by a number in its range. -/
theorem run_parse_ok (k : ServerKey) {server : Settings} {p : Parser src F}
    {r : (Int × Settings) × Parser src F}
    (hrun : run (handle d ops) (k.parse server) p = .ok r) (h0 : r.1.1 = 0) (hinside : ∀ tok p',
      scanNextToken d ops p = .ok (tok, p') → p'.Inside) :
    ∃ p', scanNextToken d ops p = .ok (.tokInteger, p') ∧ r.2 = p' ∧
      k.low ≤ p'.value.integerLiteral ∧ p'.value.integerLiteral ≤ k.high := by
  cases k with
  | number k => exact run_parseServerInteger_ok hrun h0
  | port =>
      change run (handle d ops) (parseServerPort server) p = _ at hrun
      rcases run_expect_ok hrun with herror | ⟨p', hscan, hrest⟩
      · rw [herror] at h0
        cases h0
      · refine ⟨p', hscan, ?_⟩
        by_cases hrange : p'.value.integerLiteral < 0 ∨ p'.value.integerLiteral > 65535
        · rw [if_pos hrange] at hrest
          rw [run_reject_ok hrest] at h0
          cases h0
        · rw [if_neg hrange] at hrest
          obtain ⟨hfits, hlong⟩ := run_copyPort d ops server (hinside _ p' hscan)
          have hbetween : ServerKey.port.low ≤ p'.value.integerLiteral ∧
              p'.value.integerLiteral ≤ ServerKey.port.high := by
            show 0 ≤ _ ∧ _ ≤ 65535
            omega
          by_cases hlength : p'.token.length ≤ 5
          · obtain ⟨s', hok, -⟩ := hfits hlength
            rw [hok] at hrest
            cases hrest
            exact ⟨rfl, hbetween⟩
          · rw [hlong hlength] at hrest
            cases hrest

/-! ## Assignments -/

/-- A key and the literal that a text assigns to it. -/
structure Assignment where
  key : ServerKey
  literal : List UInt8

namespace Assignment

def lexemes (a : Assignment) : List Lexeme :=
  [.key a.key.text, .symbol .tokEquals, .number a.literal]

/-- What the scanner makes of the literal. -/
def intValue (a : Assignment) : Int :=
  wrapInt 32 (Decimal.value a.literal)

/-- The checks let the assignment pass. -/
structure Accepted (a : Assignment) : Prop where
  ne_nil : a.literal ≠ []
  digits : ∀ c ∈ a.literal, isdigit c = true
  low_le : a.key.low ≤ a.intValue
  le_high : a.intValue ≤ a.key.high

instance (a : Assignment) : Decidable a.Accepted :=
  decidable_of_iff (a.literal.isEmpty = false ∧ a.literal.all isdigit = true ∧
      a.key.low ≤ a.intValue ∧ a.intValue ≤ a.key.high) (by
    constructor
    · intro ⟨hne, hdigits, hlow, hhigh⟩
      exact ⟨List.isEmpty_eq_false_iff.mp hne, List.all_eq_true.mp hdigits, hlow, hhigh⟩
    · intro ⟨hne, hdigits, hlow, hhigh⟩
      exact ⟨List.isEmpty_eq_false_iff.mpr hne, List.all_eq_true.mpr hdigits, hlow, hhigh⟩)

def Fits (a : Assignment) : Prop :=
  a.key.Fits a.literal

end Assignment

/-- No key has an empty name. -/
theorem ServerKey.text_ne_nil (k : ServerKey) : k.text ≠ [] := by
  rcases k with k | _
  · cases k <;> decide +kernel
  · decide +kernel

/-- The symbols of the settings file are brackets and the equals sign. -/
theorem serverSpecial_some {c : UInt8} {tok : Token} (h : serverDialect.special c = some tok) :
    tok = .tokLBracket ∨ tok = .tokRBracket ∨ tok = .tokEquals := by
  change serverSpecial c = some tok at h
  unfold serverSpecial at h
  split_ifs at h <;> cases h <;> simp

/-- The symbols of the settings are brackets and the equals sign. -/
theorem symbol_of_nextLexeme {text rest : List UInt8} {tok : Token}
    (h : serverDialect.nextLexeme text = some (.symbol tok, rest)) :
    tok = .tokLBracket ∨ tok = .tokRBracket ∨ tok = .tokEquals := by
  rw [Dialect.nextLexeme] at h
  split at h
  · cases h
  · next c tail _ =>
      have hlexeme := congrArg Prod.fst (Option.some.inj h)
      rw [Dialect.lexeme] at hlexeme
      cases hspecial : serverDialect.special c with
      | some tok' =>
          rw [hspecial] at hlexeme
          cases hlexeme
          exact serverSpecial_some hspecial
      | none =>
          rw [hspecial] at hlexeme
          dsimp only at hlexeme
          split_ifs at hlexeme

/-! ### The lexeme of a token -/

section

variable {p p' : Parser src F} (hp : p.Inside)
include hp

/-- At the end of the file there is no lexeme left. -/
theorem lexeme_of_end (h : scanNextToken serverDialect ops p = .ok (.tokEnd, p')) :
    serverDialect.nextLexeme (src.drop p.head) = none := by
  rcases nextLexeme_of_scan rfl hp h with ⟨-, hnone⟩ | ⟨l, rest, hnext, hfound, -⟩
  · exact hnone
  · cases l with
    | symbol tok =>
        obtain rfl : Token.tokEnd = tok := hfound
        rcases symbol_of_nextLexeme hnext with h | h | h <;> cases h
    | number text => rcases hfound with ⟨htok, -⟩ | ⟨htok, -⟩ <;> cases htok
    | key text => cases hfound.1

/-- A key token is a key lexeme. -/
theorem lexeme_of_key (h : scanNextToken serverDialect ops p = .ok (.tokKey, p')) :
    ∃ rest, serverDialect.nextLexeme (src.drop p.head) =
      some (.key p'.value.string.bytes, rest) ∧ Behind rest p' := by
  rcases nextLexeme_of_scan rfl hp h with ⟨hend, -⟩ | ⟨l, rest, hnext, hfound, hbehind, -⟩
  · cases hend
  · cases l with
    | symbol tok =>
        obtain rfl : Token.tokKey = tok := hfound
        rcases symbol_of_nextLexeme hnext with h | h | h <;> cases h
    | number text => rcases hfound with ⟨htok, -⟩ | ⟨htok, -⟩ <;> cases htok
    | key text =>
        obtain ⟨-, rfl⟩ := hfound
        exact ⟨rest, hnext, hbehind⟩

/-- A symbol token is that symbol. -/
theorem lexeme_of_symbol {tok : Token} (h : scanNextToken serverDialect ops p = .ok (tok, p'))
    (htok : tok = .tokLBracket ∨ tok = .tokRBracket ∨ tok = .tokEquals) :
    ∃ rest, serverDialect.nextLexeme (src.drop p.head) = some (.symbol tok, rest) ∧
      Behind rest p' := by
  rcases nextLexeme_of_scan rfl hp h with ⟨rfl, -⟩ | ⟨l, rest, hnext, hfound, hbehind, -⟩
  · rcases htok with h | h | h <;> cases h
  · cases l with
    | symbol tok' =>
        obtain rfl : tok = tok' := hfound
        exact ⟨rest, hnext, hbehind⟩
    | number text =>
        rcases hfound with ⟨rfl, -⟩ | ⟨rfl, -⟩ <;> rcases htok with h | h | h <;> cases h
    | key text =>
        obtain ⟨rfl, -⟩ := hfound
        rcases htok with h | h | h <;> cases h

/-- A number token is a lexeme of digits, with its value as an `int`; without digits it can only be
the sign at the very beginning of the text. -/
theorem lexeme_of_integer (h : scanNextToken serverDialect ops p = .ok (.tokInteger, p')) :
    ∃ text rest, serverDialect.nextLexeme (src.drop p.head) = some (.number text, rest) ∧
      Behind rest p' ∧ (∀ c ∈ text, isdigit c = true) ∧
      p'.value.integerLiteral = wrapInt 32 (Decimal.value text) ∧ (text = [] → p.head = 0) := by
  rcases nextLexeme_of_scan rfl hp h with ⟨hend, -⟩ | ⟨l, rest, hnext, hfound, hbehind, hempty⟩
  · cases hend
  · cases l with
    | symbol tok =>
        obtain rfl : Token.tokInteger = tok := hfound
        rcases symbol_of_nextLexeme hnext with h | h | h <;> cases h
    | number text =>
        rcases hfound with ⟨htok, -⟩ | ⟨-, hdigits, hvalue, -⟩
        · cases htok
        · exact ⟨text, rest, hnext, hbehind, hdigits, hvalue, fun h => hempty (congrArg _ h)⟩
    | key text => cases hfound.1

end

/-- **An assignment** that is accepted is stored in one round, or it does not fit. -/
theorem run_keyValuesRound (ops : FloatOps F) {a : Assignment} (ha : a.Accepted) {ls : List Lexeme}
    {p : Parser src F} (hp : p.Inside)
    (hlexes : serverDialect.Lexes (src.drop p.head) (a.lexemes ++ ls)) (server : Settings) :
    ∃ p' : Parser src F, p'.Inside ∧ serverDialect.Lexes (src.drop p'.head) ls ∧
      (src.drop p'.head).length < (src.drop p.head).length ∧
      (a.Fits → ∃ s',
        run (handle serverDialect ops) (keyValuesRound server) p = .ok (.inl s', p') ∧
          Assigned a.key a.intValue a.literal server s') ∧
      (¬a.Fits →
        run (handle serverDialect ops) (keyValuesRound server) p = .error .overflow) := by
  obtain ⟨rest₁, hnext₁, hlexes₁⟩ := Dialect.lexes_cons hlexes
  obtain ⟨rest₂, hnext₂, hlexes₂⟩ := Dialect.lexes_cons hlexes₁
  obtain ⟨rest₃, hnext₃, hlexes₃⟩ := Dialect.lexes_cons hlexes₂
  obtain ⟨tok₁, p₁, hscan₁, hfound₁, hbehind₁⟩ := scan_of_nextLexeme ops rfl hp hnext₁ (by simp)
  obtain ⟨rfl, hkey⟩ := hfound₁
  rw [← hbehind₁.drop] at hnext₂
  obtain ⟨tok₂, p₂, hscan₂, hfound₂, hbehind₂⟩ :=
    scan_of_nextLexeme ops rfl hbehind₁.inside hnext₂ (by simp)
  obtain rfl : tok₂ = .tokEquals := hfound₂
  rw [← hbehind₂.drop] at hnext₃
  obtain ⟨tok₃, p₃, hscan₃, hfound₃, hbehind₃⟩ :=
    scan_of_nextLexeme ops rfl hbehind₂.inside hnext₃ (by simp [ha.ne_nil])
  have hshort₁ := Dialect.length_nextLexeme hnext₁ (by simp) (by simp [a.key.text_ne_nil])
  have hshort₂ := Dialect.length_nextLexeme hnext₂ (by simp) (by simp)
  have hshort₃ := Dialect.length_nextLexeme hnext₃ (by simp [ha.ne_nil]) (by simp)
  rw [hbehind₁.drop] at hshort₂
  rw [hbehind₂.drop] at hshort₃
  rw [← hbehind₃.drop] at hlexes₃ hshort₃
  obtain ⟨rfl, hvalue, htoken⟩ : tok₃ = .tokInteger ∧ p₃.value.integerLiteral = a.intValue ∧
      p₃.token = a.literal := by
    rcases hfound₃ with ⟨-, hpoint⟩ | ⟨htok, -, hvalue, htoken⟩
    · exact absurd (ha.digits _ hpoint) (by decide)
    · exact ⟨htok, hvalue, htoken⟩
  obtain ⟨hfits, hlong⟩ := run_parse a.key server hscan₃ hbehind₃.inside
    (by rw [hvalue]; exact ha.low_le) (by rw [hvalue]; exact ha.le_high)
  rw [htoken, hvalue] at hfits
  rw [htoken] at hlong
  have hrun : run (handle serverDialect ops) (keyValuesRound server) p =
      run (handle serverDialect ops) (handleKey a.key.parse server) p₁ := by
    rw [keyValuesRound, run_scan hscan₁]
    dsimp only
    rw [find_serverKeys a.key hkey]
  refine ⟨p₃, hbehind₃.inside, hlexes₃, by omega, fun h => ?_, fun h => ?_⟩
  · obtain ⟨s', hparse, hassigned⟩ := hfits h
    refine ⟨s', ?_, hassigned⟩
    rw [hrun, handleKey, run_expect hscan₂, run_bind, hparse]
    rfl
  · rw [hrun, handleKey, run_expect hscan₂, run_bind, hlong h]
    rfl

/-- **What a round does** when it returns: the file has ended, or the loop ends with an error
or another token, or it goes on behind a value. -/
theorem keyValuesRound_cases {server : Settings} {p : Parser src F}
    {r : (Settings ⊕ (Token × Settings)) × Parser src F}
    (hrun : run (handle serverDialect ops) (keyValuesRound server) p = .ok r) :
    (scanNextToken serverDialect ops p = .ok (.tokEnd, r.2) ∧ r.1 = .inr (.tokEnd, server)) ∨
      (∃ tok s', r.1 = .inr (tok, s') ∧ tok ≠ .tokEnd) ∨
      ∃ (k : ServerKey) (p₁ p₂ : Parser src F) (s' : Settings), r.1 = .inl s' ∧
        scanNextToken serverDialect ops p = .ok (.tokKey, p₁) ∧
        p₁.value.string.bytes = k.text ∧ scanNextToken serverDialect ops p₁ = .ok (.tokEquals, p₂) ∧
        run (handle serverDialect ops) (k.parse server) p₂ = .ok ((0, s'), r.2) := by
  obtain ⟨tok₁, p₁, hscan₁, hrest₁⟩ := run_scan_ok hrun
  cases tok₁ with
  | tokEnd =>
      cases hrest₁
      exact .inl ⟨hscan₁, rfl⟩
  | tokKey =>
      refine .inr ?_
      dsimp only at hrest₁
      cases hfind : serverKeys.find? fun entry : String × (Settings → Ini src F (Int × Settings)) =>
          strviewEqCstr p₁.value.string entry.1 with
      | none =>
          rw [hfind] at hrest₁
          exact .inl ⟨_, _, run_reject_ok hrest₁, by decide⟩
      | some entry =>
          rw [hfind] at hrest₁
          obtain ⟨k, hkey, rfl⟩ := key_of_find_serverKeys hfind
          dsimp only at hrest₁
          rw [handleKey] at hrest₁
          rcases run_expect_ok hrest₁ with herror | ⟨p₂, hscan₂, hrest₂⟩
          · exact .inl ⟨_, _, herror, by decide⟩
          rw [run_bind] at hrest₂
          cases hparse : run (handle serverDialect ops) (k.parse server) p₂ with
          | error f =>
              rw [hparse] at hrest₂
              cases hrest₂
          | ok q =>
              rw [hparse] at hrest₂
              obtain ⟨⟨status, s'⟩, p₃⟩ := q
              change Except.ok ((if status ≠ 0 then _ else _), p₃) = _ at hrest₂
              by_cases h0 : status = 0
              · subst h0
                cases hrest₂
                exact .inr ⟨k, p₁, p₂, s', rfl, hscan₁, hkey, hscan₂, hparse⟩
              · rw [if_pos h0] at hrest₂
                cases hrest₂
                exact .inl ⟨_, _, rfl, by decide⟩
  | _ =>
      cases hrest₁
      exact .inr (.inl ⟨_, _, rfl, by decide⟩)

/-- **A round that goes on** has read an assignment. -/
theorem keyValuesRound_inl {server s' : Settings} {p p' : Parser src F} (hp : p.Inside)
    (hrun : run (handle serverDialect ops) (keyValuesRound server) p = .ok (.inl s', p')) :
    p'.Inside ∧ ∃ a : Assignment, a.Accepted ∧ ∀ ls, serverDialect.Lexes (src.drop p'.head) ls →
      serverDialect.Lexes (src.drop p.head) (a.lexemes ++ ls) := by
  rcases keyValuesRound_cases hrun with ⟨-, hr⟩ | ⟨tok, s'', hr, -⟩ |
    ⟨k, p₁, p₂, s'', -, hscan₁, hkey, hscan₂, hparse⟩
  · cases hr
  · cases hr
  obtain ⟨rest₁, hnext₁, hbehind₁⟩ := lexeme_of_key hp hscan₁
  obtain ⟨rest₂, hnext₂, hbehind₂⟩ := lexeme_of_symbol hbehind₁.inside hscan₂ (by simp)
  obtain ⟨p₃, hscan₃, rfl, hlow, hhigh⟩ := run_parse_ok k hparse rfl
    fun _ _ h => scan_inside hbehind₂.inside h
  obtain ⟨text, rest₃, hnext₃, hbehind₃, hdigits, hvalue, hempty⟩ :=
    lexeme_of_integer hbehind₂.inside hscan₃
  rw [hbehind₁.drop] at hnext₂
  rw [hbehind₂.drop] at hnext₃
  rw [hkey] at hnext₁
  -- only at the begin of the file the scanner returns for a minus sign
  have hpos : p₂.head ≠ 0 := by
    intro hzero
    have hshort := Dialect.length_nextLexeme hnext₂ (by simp) (by simp)
    have hlength₁ := congrArg List.length hbehind₁.drop
    have hlength₂ := congrArg List.length hbehind₂.drop
    rw [List.length_drop] at hlength₁
    rw [hzero, List.drop_zero] at hlength₂
    omega
  refine ⟨hbehind₃.inside, ⟨k, text⟩, ⟨fun hnil => hpos (hempty hnil), hdigits, ?_, ?_⟩,
    fun ls hls => ?_⟩
  · rw [Assignment.intValue, ← hvalue]
    exact hlow
  · rw [Assignment.intValue, ← hvalue]
    exact hhigh
  · rw [hbehind₃.drop] at hls
    exact .cons hnext₁ (.cons hnext₂ (.cons hnext₃ hls))

/-! ## The loop -/

/-- The record after some assignments. -/
def AssignedAll : List Assignment → Settings → Settings → Prop
  | [], s, s' => s' = s
  | a :: as, s, s' => ∃ t, Assigned a.key a.intValue a.literal s t ∧ AssignedAll as t s'

/-- **Assignments** that are accepted are stored, as long as they fit. -/
theorem run_parseServerKeyValues (ops : FloatOps F) {as : List Assignment} (has : ∀ a ∈ as, a.Accepted) {fuel : Nat}
    {p : Parser src F} (hp : p.Inside) (hfuel : (src.drop p.head).length < fuel)
    (hlexes : serverDialect.Lexes (src.drop p.head) (as.flatMap Assignment.lexemes))
    (server : Settings) :
    ((∀ a ∈ as, a.Fits) → ∃ s' p',
      run (handle serverDialect ops) (parseServerKeyValues fuel server) p =
        .ok ((.tokEnd, s'), p') ∧ AssignedAll as server s') ∧
    (¬(∀ a ∈ as, a.Fits) →
      run (handle serverDialect ops) (parseServerKeyValues fuel server) p = .error .overflow) := by
  induction as generalizing fuel p server with
  | nil =>
      obtain ⟨n, rfl⟩ := Nat.exists_eq_succ_of_ne_zero (by omega : fuel ≠ 0)
      refine ⟨fun _ => ?_, fun h => absurd (by simp) h⟩
      cases hlexes with
      | nil hnext =>
          have hfinds := scan_finds (d := serverDialect) ops rfl hp
          rw [hnext] at hfinds
          exact ⟨server, _, run_repeat_done (run_scan hfinds), rfl⟩
  | cons a as ih =>
      obtain ⟨n, rfl⟩ := Nat.exists_eq_succ_of_ne_zero (by omega : fuel ≠ 0)
      obtain ⟨p', hp', hlexes', hshort, hfits, hlong⟩ :=
        run_keyValuesRound ops (has a List.mem_cons_self) hp hlexes server
      have hfuel' : (src.drop p'.head).length < n := by omega
      have hrest (t : Settings) :=
        ih (fun b hb => has b (List.mem_cons_of_mem _ hb)) hp' hfuel' hlexes' t
      by_cases ha : a.Fits
      · obtain ⟨t, hround, hassigned⟩ := hfits ha
        obtain ⟨hok, herror⟩ := hrest t
        rw [parseServerKeyValues, run_repeat_next hround, List.forall_mem_cons]
        refine ⟨fun h => ?_, fun h => herror fun hall => h ⟨ha, hall⟩⟩
        obtain ⟨s', p'', hrun, hall⟩ := hok h.2
        exact ⟨s', p'', hrun, t, hassigned, hall⟩
      · rw [parseServerKeyValues, run_repeat_error (hlong ha), List.forall_mem_cons]
        exact ⟨fun h => absurd h.1 ha, fun _ => rfl⟩

/-- **A text that is read to its end** consists of assignments. -/
theorem lexes_of_parseServerKeyValues {fuel : Nat} {p p' : Parser src F} (hp : p.Inside)
    {server s' : Settings}
    (hrun : run (handle serverDialect ops) (parseServerKeyValues fuel server) p =
      .ok ((.tokEnd, s'), p')) :
    ∃ as : List Assignment, (∀ a ∈ as, a.Accepted) ∧
      serverDialect.Lexes (src.drop p.head) (as.flatMap Assignment.lexemes) := by
  induction fuel generalizing p server with
  | zero => cases hrun
  | succ n ih =>
      rcases run_repeat_ok hrun with hround | ⟨t, q, hround, hrest⟩
      · rcases keyValuesRound_cases hround with ⟨hscan, -⟩ | ⟨tok, s'', hr, hne⟩ |
          ⟨_, _, _, _, hr, -⟩
        · exact ⟨[], by simp, .nil (lexeme_of_end hp hscan)⟩
        · cases hr
          exact absurd rfl hne
        · cases hr
      · obtain ⟨hq, a, ha, hlexes⟩ := keyValuesRound_inl hp hround
        obtain ⟨as, has, hlater⟩ := ih hq hrest
        exact ⟨a :: as, List.forall_mem_cons.mpr ⟨ha, has⟩, hlexes _ hlater⟩

/-! ## The file -/

/-- `[server]`. -/
def header : List Lexeme :=
  [.symbol .tokLBracket, .key (textOf "server"), .symbol .tokRBracket]

/-- **The text is accepted**: behind its header there are assignments, and the checks let them
pass. -/
structure Assigns (src : List UInt8) (as : List Assignment) : Prop where
  accepted : ∀ a ∈ as, a.Accepted
  lexes : serverDialect.Lexes src (header ++ as.flatMap Assignment.lexemes)

/-- **The parser of the settings**: of a text that assigns, it makes these assignments, and it
overflows exactly when one of them does not fit. -/
theorem run_parseServerIni (ops : FloatOps F) {as : List Assignment} (h : Assigns src as)
    {fuel : Nat} (hfuel : src.length < fuel) (server : Settings) :
    ((∀ a ∈ as, a.Fits) → ∃ s' p',
      run (handle serverDialect ops) (parseServerIni fuel server) (parserInit ops src) =
        .ok ((.tokEnd, s'), p') ∧ AssignedAll as server s') ∧
    (¬(∀ a ∈ as, a.Fits) →
      run (handle serverDialect ops) (parseServerIni fuel server) (parserInit ops src) =
        .error .overflow) := by
  have hinit := parserInit_inside ops src
  obtain ⟨rest₁, hnext₁, hlexes₁⟩ := Dialect.lexes_cons h.lexes
  obtain ⟨rest₂, hnext₂, hlexes₂⟩ := Dialect.lexes_cons hlexes₁
  obtain ⟨rest₃, hnext₃, hlexes₃⟩ := Dialect.lexes_cons hlexes₂
  obtain ⟨tok₁, p₁, hscan₁, hfound₁, hbehind₁⟩ :=
    scan_of_nextLexeme ops rfl hinit hnext₁ (by simp)
  obtain rfl : tok₁ = .tokLBracket := hfound₁
  rw [← hbehind₁.drop] at hnext₂
  obtain ⟨tok₂, p₂, hscan₂, hfound₂, hbehind₂⟩ :=
    scan_of_nextLexeme ops rfl hbehind₁.inside hnext₂ (by simp)
  obtain ⟨rfl, hname⟩ := hfound₂
  rw [← hbehind₂.drop] at hnext₃
  obtain ⟨tok₃, p₃, hscan₃, hfound₃, hbehind₃⟩ :=
    scan_of_nextLexeme ops rfl hbehind₂.inside hnext₃ (by simp)
  obtain rfl : tok₃ = .tokRBracket := hfound₃
  rw [← hbehind₃.drop] at hlexes₃
  have hlength : (src.drop p₃.head).length < fuel := by
    rw [List.length_drop]
    omega
  have hserver : strviewEqCstr p₂.value.string "server" = true := (eqLoop_iff _ _).mpr hname
  have hrun : run (handle serverDialect ops) (parseServerIni fuel server) (parserInit ops src) =
      run (handle serverDialect ops) (parseServerKeyValues fuel server) p₃ := by
    rw [parseServerIni, run_expect hscan₁, run_expect hscan₂, if_pos hserver, run_expect hscan₃]
  rw [hrun]
  exact run_parseServerKeyValues ops h.accepted hbehind₃.inside hlength hlexes₃ server

/-- Only such a text is accepted. -/
theorem assigns_of_parseServerIni {fuel : Nat} {server s' : Settings} {p' : Parser src F}
    (hrun : run (handle serverDialect ops) (parseServerIni fuel server) (parserInit ops src) =
      .ok ((.tokEnd, s'), p')) : ∃ as, Assigns src as := by
  have hinit := parserInit_inside ops src
  rcases run_expect_ok hrun with herror | ⟨p₁, hscan₁, hrest₁⟩
  · cases herror
  rcases run_expect_ok hrest₁ with herror | ⟨p₂, hscan₂, hrest₂⟩
  · cases herror
  by_cases hserver : strviewEqCstr p₂.value.string "server" = true
  · rw [if_pos hserver] at hrest₂
    rcases run_expect_ok hrest₂ with herror | ⟨p₃, hscan₃, hrest₃⟩
    · cases herror
    obtain ⟨rest₁, hnext₁, hbehind₁⟩ := lexeme_of_symbol hinit hscan₁ (by simp)
    obtain ⟨rest₂, hnext₂, hbehind₂⟩ := lexeme_of_key hbehind₁.inside hscan₂
    obtain ⟨rest₃, hnext₃, hbehind₃⟩ := lexeme_of_symbol hbehind₂.inside hscan₃ (by simp)
    obtain ⟨as, has, hlexes⟩ := lexes_of_parseServerKeyValues hbehind₃.inside hrest₃
    rw [show (parserInit ops src).head = 0 from rfl, List.drop_zero] at hnext₁
    rw [hbehind₁.drop, (eqLoop_iff _ _).mp hserver] at hnext₂
    rw [hbehind₂.drop] at hnext₃
    rw [hbehind₃.drop] at hlexes
    exact ⟨as, has, .cons hnext₁ (.cons hnext₂ (.cons hnext₃ hlexes))⟩
  · rw [if_neg hserver] at hrest₂
    cases run_reject_ok hrest₂

/-- The last literal that is assigned to a key. -/
def lastLiteral (k : ServerKey) (as : List Assignment) : Option (List UInt8) :=
  (as.reverse.find? fun a => decide (a.key = k)).map Assignment.literal

/-- An assignment counts unless there is a later one for its key. -/
theorem lastLiteral_cons (k : ServerKey) (a : Assignment) (as : List Assignment) :
    lastLiteral k (a :: as) =
      (lastLiteral k as).or (if a.key = k then some a.literal else none) := by
  rw [lastLiteral, List.reverse_cons, List.find?_append, Option.map_or]
  by_cases hk : a.key = k <;> simp [lastLiteral, hk]

/-- **What the record should hold** after the assignments. -/
structure ReadsRight (as : List Assignment) (s : Settings) : Prop where
  number : ∀ k, s.number k =
    ((lastLiteral (.number k) as).map Decimal.value).getD (serverSettingsDefaults.number k)
  in_range : ∀ k, k.low ≤ s.number k ∧ (s.number k : Int) ≤ k.high
  /-- The text of the port ends in its field. -/
  port : ∃ unused, s.port = (lastLiteral .port as).getD (textOf "5555") ++ 0 :: unused

/-- The numbers that count are not too large for their keys, and the ports are not too long for
the field. -/
structure Plain (as : List Assignment) : Prop where
  number : ∀ k literal, lastLiteral (.number k) as = some literal →
    (Decimal.value literal : Int) ≤ k.high
  port : ∀ a ∈ as, a.key = .port → a.literal.length ≤ 5

/-- What the assignments leave in the record. -/
theorem assignedAll_spec {as : List Assignment} {s s' : Settings} (h : AssignedAll as s s') :
    (∀ k, s'.number k = ((lastLiteral (.number k) as).map fun literal =>
      (wrapInt 32 (Decimal.value literal)).toNat).getD (s.number k)) ∧
    ∀ text, (∃ unused, s.port = text ++ 0 :: unused) →
      ∃ unused, s'.port = (lastLiteral .port as).getD text ++ 0 :: unused := by
  induction as generalizing s with
  | nil =>
      obtain rfl : s' = s := h
      exact ⟨fun k => by simp [lastLiteral], fun text htext => htext⟩
  | cons a as ih =>
      obtain ⟨t, hassigned, hall⟩ := h
      obtain ⟨hnumber, hport⟩ := ih hall
      obtain ⟨key, literal⟩ := a
      cases key with
      | number k =>
          obtain ⟨hstored, hsame⟩ := hassigned
          refine ⟨fun k' => ?_, fun text htext => ?_⟩
          · rw [hnumber, hstored, lastLiteral_cons]
            cases lastLiteral (.number k') as with
            | some literal' =>
                rw [Option.some_or, Option.map_some, Option.getD_some, Option.getD_some]
            | none =>
                by_cases hk : k' = k
                · subst hk
                  rw [Option.none_or, if_pos rfl, Function.update_self, Option.map_none,
                    Option.getD_none, Option.map_some, Option.getD_some, Assignment.intValue]
                · have hne : ¬(ServerKey.number k = .number k') := fun heq =>
                    hk (ServerKey.number.inj heq).symm
                  simp [Function.update_of_ne hk, hne]
          · obtain ⟨unused, hunused⟩ := hport text (by rw [hsame]; exact htext)
            refine ⟨unused, ?_⟩
            rw [hunused, lastLiteral_cons, if_neg (by simp), Option.or_none]
      | port =>
          obtain ⟨hsame, hstored⟩ := hassigned
          refine ⟨fun k' => ?_, fun text htext => ?_⟩
          · rw [hnumber, hsame, lastLiteral_cons, if_neg (by simp), Option.or_none]
          · obtain ⟨unused, hunused⟩ := hport literal hstored
            refine ⟨unused, ?_⟩
            rw [hunused, lastLiteral_cons, if_pos rfl]
            cases lastLiteral .port as <;> simp

/-- What a key is set to comes from one of its assignments. -/
theorem lastLiteral_mem {k : ServerKey} {as : List Assignment} {literal : List UInt8}
    (h : lastLiteral k as = some literal) : ∃ a ∈ as, a.key = k ∧ a.literal = literal := by
  obtain ⟨a, hfind, rfl⟩ := Option.map_eq_some_iff.mp h
  have hkey := List.find?_some (p := fun a : Assignment => decide (a.key = k)) hfind
  exact ⟨a, List.mem_reverse.mp (List.mem_of_find?_eq_some hfind), of_decide_eq_true hkey, rfl⟩

/-- The defaults do not depend on what was there before. -/
theorem number_setDefaults (server : Settings) (k : NumberKey) :
    (serverSettingsSetDefaults server).number k = serverSettingsDefaults.number k := rfl

/-- Loading is parsing over the defaults, with the status from the last token. -/
theorem serverSettingsLoad_eq (ops : FloatOps F) (src : List UInt8) (fuel : Nat)
    (server : Settings) {filepath : String} (hpath : filepath.isEmpty = false) :
    serverSettingsLoadOrSetDefaults ops fuel server filepath (some src) =
      (run (handle serverDialect ops)
          (parseServerIni fuel (serverSettingsSetDefaults server)) (parserInit ops src)).map
        fun r => (if r.1.1 ≠ .tokEnd then -1 else 0, r.1.2) := by
  rw [serverSettingsLoadOrSetDefaults]
  dsimp only
  rw [if_neg (by rw [hpath]; decide)]
  cases run (handle serverDialect ops)
    (parseServerIni fuel (serverSettingsSetDefaults server)) (parserInit ops src) with
  | error f => rfl
  | ok r => rfl

/-- What is loaded from a text that is accepted. -/
theorem load_of_assigns (ops : FloatOps F) {src : List UInt8} {as : List Assignment}
    (h : Assigns src as) {fuel : Nat} (hfuel : src.length < fuel) (server : Settings)
    {filepath : String} (hpath : filepath.isEmpty = false) :
    ((∀ a ∈ as, a.Fits) → ∃ s',
      serverSettingsLoadOrSetDefaults ops fuel server filepath (some src) = .ok (0, s') ∧
        AssignedAll as (serverSettingsSetDefaults server) s') ∧
    (¬(∀ a ∈ as, a.Fits) →
      serverSettingsLoadOrSetDefaults ops fuel server filepath (some src) = .error .overflow) := by
  obtain ⟨hfits, hlong⟩ := run_parseServerIni ops h hfuel (serverSettingsSetDefaults server)
  rw [serverSettingsLoad_eq ops src fuel server hpath]
  constructor
  · intro hall
    obtain ⟨s', p', hrun, hassigned⟩ := hfits hall
    exact ⟨s', by rw [hrun]; rfl, hassigned⟩
  · intro hnot
    rw [hlong hnot]
    rfl

/-- The record is as it should be exactly if the text is plain. -/
theorem readsRight_iff {as : List Assignment} (has : ∀ a ∈ as, a.Accepted)
    {server s' : Settings} (h : AssignedAll as (serverSettingsSetDefaults server) s') :
    ReadsRight as s' ↔ ∀ k literal, lastLiteral (.number k) as = some literal →
      (Decimal.value literal : Int) ≤ k.high := by
  obtain ⟨hnumber, hport⟩ := assignedAll_spec h
  constructor
  · intro hright k literal hlast
    have hvalue := hright.number k
    have hrange := (hright.in_range k).2
    rw [hlast, Option.map_some, Option.getD_some] at hvalue
    omega
  · intro hplain
    have hwrap (k : NumberKey) (literal : List UInt8)
        (hlast : lastLiteral (.number k) as = some literal) :
        wrapInt 32 (Decimal.value literal) = Decimal.value literal := by
      have hle := hplain k literal hlast
      have hhigh := k.high_le
      exact wrapInt_of_lt (by decide) (by omega) (by omega)
    have hdefault : ∃ unused,
        (serverSettingsSetDefaults server).port = textOf "5555" ++ 0 :: unused :=
      ⟨server.port.drop 5, by rw [serverSettingsSetDefaults, textOf]⟩
    refine ⟨fun k => ?_, fun k => ?_, hport _ hdefault⟩
    · rw [hnumber]
      cases hlast : lastLiteral (.number k) as with
      | none =>
          rw [Option.map_none, Option.map_none, Option.getD_none, Option.getD_none,
            number_setDefaults]
      | some literal =>
          rw [Option.map_some, Option.map_some, Option.getD_some, Option.getD_some,
            hwrap k literal hlast, Int.toNat_natCast]
    · rw [hnumber]
      cases hlast : lastLiteral (.number k) as with
      | none =>
          rw [Option.map_none, Option.getD_none, number_setDefaults]
          cases k <;> decide
      | some literal =>
          obtain ⟨a, ha, hkey, rfl⟩ := lastLiteral_mem hlast
          have hlow := (has a ha).low_le
          rw [hkey, Assignment.intValue, hwrap k a.literal hlast] at hlow
          change k.low ≤ _ at hlow
          rw [Option.map_some, Option.getD_some, hwrap k a.literal hlast, Int.toNat_natCast]
          exact ⟨hlow, hplain k a.literal hlast⟩

/-- Only the length of a port matters. -/
theorem fits_iff (as : List Assignment) :
    (∀ a ∈ as, a.Fits) ↔ ∀ a ∈ as, a.key = .port → a.literal.length ≤ 5 := by
  refine forall₂_congr fun a _ => ?_
  rw [Assignment.Fits]
  cases a.key with
  | number k => simp [ServerKey.Fits]
  | port => simp [ServerKey.Fits]

/-- **Loading reads the assignments**, for plain texts and for no other text that is accepted:
a text is accepted exactly if it consists of assignments that pass the checks, unless a port is
copied over the end of the record. -/
theorem server_settings_load_right_iff (ops : FloatOps F) (src : List UInt8) (fuel : Nat)
    (hfuel : src.length < fuel) (server : Settings) (filepath : String)
    (hpath : filepath.isEmpty = false) :
    (∀ s', serverSettingsLoadOrSetDefaults ops fuel server filepath (some src) = .ok (0, s') →
      ∃ as, Assigns src as) ∧
    ∀ as, Assigns src as →
      ((∃ s', serverSettingsLoadOrSetDefaults ops fuel server filepath (some src) = .ok (0, s')) ∨
        serverSettingsLoadOrSetDefaults ops fuel server filepath (some src) = .error .overflow) ∧
      ((∃ s', serverSettingsLoadOrSetDefaults ops fuel server filepath (some src) = .ok (0, s') ∧
        ReadsRight as s') ↔ Plain as) := by
  constructor
  · intro s' hload
    rw [serverSettingsLoad_eq ops src fuel server hpath] at hload
    cases hrun : run (handle serverDialect ops)
        (parseServerIni fuel (serverSettingsSetDefaults server)) (parserInit ops src) with
    | error f =>
        rw [hrun] at hload
        cases hload
    | ok r =>
        rw [hrun] at hload
        obtain ⟨⟨tok, t⟩, p'⟩ := r
        change Except.ok ((if tok ≠ .tokEnd then (-1 : Int) else 0), t) = _ at hload
        by_cases htok : tok = .tokEnd
        · subst htok
          exact assigns_of_parseServerIni hrun
        · rw [if_pos htok] at hload
          cases hload
  · intro as h
    obtain ⟨hfits, hlong⟩ := load_of_assigns ops h hfuel server hpath
    by_cases hall : ∀ a ∈ as, a.Fits
    · obtain ⟨s', hload, hassigned⟩ := hfits hall
      have hiff := readsRight_iff h.accepted hassigned
      refine ⟨.inl ⟨s', hload⟩, ?_, fun hplain => ⟨s', hload, hiff.mpr hplain.number⟩⟩
      rintro ⟨s'', hload', hright⟩
      cases hload.symm.trans hload'
      exact ⟨hiff.mp hright, (fits_iff as).mp hall⟩
    · refine ⟨.inr (hlong hall), ?_, fun hplain => absurd ((fits_iff as).mpr hplain.port) hall⟩
      rintro ⟨s', hload, -⟩
      cases (hlong hall).symm.trans hload

/-! ### Texts -/

/-- A text is accepted when the lexer reads assignments that pass the checks. -/
theorem assigns_of_lexemes {src : List UInt8} {as : List Assignment} {n : Nat}
    (hlexes : serverDialect.lexemes n src = some (header ++ as.flatMap Assignment.lexemes))
    (haccepted : ∀ a ∈ as, a.Accepted) : Assigns src as where
  accepted := haccepted
  lexes := Dialect.lexes_of_lexemes hlexes

/-- The number is one when it is wrapped around. -/
def wideText : List UInt8 := textOf "[server]\nmax_players = 4294967297\n"

/-- The port has a leading zero too many. -/
def longPortText : List UInt8 := textOf "[server]\nport = 000080\n"

def wideAssignment : Assignment where
  key := .number .maxPlayers
  literal := textOf "4294967297"

def longPortAssignment : Assignment where
  key := .port
  literal := textOf "000080"

/-- The text with a number that 32 bits do not hold. -/
theorem assigns_wideText : Assigns wideText [wideAssignment] :=
  assigns_of_lexemes (n := 10) (by decide +kernel) (by decide +kernel)

/-- The text with a port that is too long. -/
theorem assigns_longPortText : Assigns longPortText [longPortAssignment] :=
  assigns_of_lexemes (n := 10) (by decide +kernel) (by decide +kernel)

/-- **Accepted texts** from which the record is not what they assign. -/
theorem not_server_settings_load_right :
    (Assigns wideText [wideAssignment] ∧ ∃ s',
      serverSettingsLoadOrSetDefaults exactOps 100 defaultSettings "server.ini" (some wideText) =
        .ok (0, s') ∧ s'.maxPlayers = 1 ∧ ¬ReadsRight [wideAssignment] s') ∧
    (Assigns longPortText [longPortAssignment] ∧
      serverSettingsLoadOrSetDefaults exactOps 100 defaultSettings "server.ini"
        (some longPortText) = .error .overflow) := by
  refine ⟨⟨assigns_wideText, ?_⟩, assigns_longPortText, ?_⟩
  · obtain ⟨s', hload, hassigned⟩ := (load_of_assigns exactOps assigns_wideText
      (show wideText.length < 100 by decide) defaultSettings (show "server.ini".isEmpty = false by
        decide)).1 (by simp [Assignment.Fits, wideAssignment, ServerKey.Fits])
    refine ⟨s', hload, ?_, fun hright => ?_⟩
    · have hnumber := (assignedAll_spec hassigned).1 .maxPlayers
      rw [← UInt16.toNat_inj]
      exact hnumber.trans (by decide +kernel)
    · have hle := (readsRight_iff assigns_wideText.accepted hassigned).mp hright .maxPlayers
        (textOf "4294967297") (by decide +kernel)
      revert hle
      decide +kernel
  · refine (load_of_assigns exactOps assigns_longPortText
      (show longPortText.length < 100 by decide) defaultSettings
      (show "server.ini".isEmpty = false by decide)).2 fun h => ?_
    have hfits := h longPortAssignment List.mem_cons_self
    revert hfits
    show ¬(textOf "000080").length ≤ 5
    decide

/-- A key that is assigned twice, and a port with leading zeros. -/
def twiceText : List UInt8 :=
  textOf "[server]\nmax_players = 60\nport = 00080 ; padded\nmax_players = 61\n"

def twiceAssignments : List Assignment :=
  [⟨.number .maxPlayers, textOf "60"⟩, ⟨.port, textOf "00080"⟩, ⟨.number .maxPlayers, textOf "61"⟩]

theorem assigns_twiceText : Assigns twiceText twiceAssignments :=
  assigns_of_lexemes (n := 30) (by decide +kernel) (by decide +kernel)

theorem plain_twiceAssignments : Plain twiceAssignments where
  number := by
    intro k literal hlast
    cases k with
    | maxPlayers =>
        cases hlast
        decide +kernel
    | _ => cases hlast
  port := by decide +kernel

/-- The text is plain, and its last assignments count. -/
theorem server_settings_load_right_twice : ∃ s',
    serverSettingsLoadOrSetDefaults exactOps 100 defaultSettings "server.ini" (some twiceText) =
      .ok (0, s') ∧ ReadsRight twiceAssignments s' :=
  ((server_settings_load_right_iff exactOps twiceText 100 (by decide) defaultSettings "server.ini"
    (by decide)).2 twiceAssignments assigns_twiceText).2.mpr plain_twiceAssignments

end Clither
