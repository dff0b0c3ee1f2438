import Clither.Ini
import Clither.Server

/-!
# The settings file of the server

The file has one section and in it one key for each field of `struct server_settings`.  A
value is an integer literal in the range of its field.  The port is stored as the text of
its literal, in the six bytes that the record has for it.
-/

namespace Clither

open Calls Ini

/-- `struct server_settings` with the port, which the running server does not read. -/
structure Settings extends ServerSettings where
  port : List UInt8
  port_length : port.length = 6

variable {src : List UInt8} {F : Type}

/-! ## Characters and keys -/

def serverSpecial (c : UInt8) : Option Token :=
  if c = ch '[' then some .tokLBracket
  else if c = ch ']' then some .tokRBracket
  else if c = ch '=' then some .tokEquals
  else none

/-- The scanner of `server_settings.c`. -/
def serverDialect : Dialect where
  special := serverSpecial
  quotes := false
  keyChar := fun c => isalpha c || c == ch '_'
  keyChar_of_isalpha := fun c h => by rw [h, Bool.true_or]
  special_ne := fun c tok h => by
    unfold serverSpecial at h
    split_ifs at h <;> cases h <;> decide
  special_minus := by decide
  special_quote := by decide

/-! ## Values -/

/-- The integers that fit into an unsigned field of the record and are not zero there. -/
theorem uint16_ne_zero {n : Int} (h0 : 1 ≤ n) (h : n ≤ 0xFFFF) : UInt16.ofNat n.toNat ≠ 0 := by
  intro hzero
  have htoNat := congrArg UInt16.toNat hzero
  rw [UInt16.toNat_ofNat', UInt16.toNat_zero] at htoNat
  omega

theorem uint8_ne_zero {n : Int} (h0 : 1 ≤ n) (h : n ≤ 255) : UInt8.ofNat n.toNat ≠ 0 := by
  intro hzero
  have htoNat := congrArg UInt8.toNat hzero
  rw [UInt8.toNat_ofNat', UInt8.toNat_zero] at htoNat
  omega

/-- A key with an integer between `low` and `high`. -/
def parseServerInteger (low high : Int) (range : String)
    (store : Settings → (n : Int) → low ≤ n → n ≤ high → Settings) (server : Settings) :
    Ini src F (Int × Settings) :=
  expect .tokInteger "Expected an integer value\n" (-1, server) fun p =>
    if h : low ≤ p.value.integerLiteral ∧ p.value.integerLiteral ≤ high then
      return (0, store server p.value.integerLiteral h.1 h.2)
    else reject range (-1, server)

def parseServerMaxPlayers : Settings → Ini src F (Int × Settings) :=
  parseServerInteger 1 0xFFFF "'max_players' must be 1-65535\n" fun server n h0 h =>
    { server with maxPlayers := UInt16.ofNat n.toNat, maxPlayers_pos := uint16_ne_zero h0 h }

def parseServerMaxUsernameLen : Settings → Ini src F (Int × Settings) :=
  parseServerInteger 1 255 "'max_username_len' must be 1-255\n" fun server n h0 h =>
    { server with maxUsernameLen := UInt8.ofNat n.toNat, maxUsernameLen_pos := uint8_ne_zero h0 h }

def parseServerSimTickRate : Settings → Ini src F (Int × Settings) :=
  parseServerInteger 1 255 "'sim_tick_rate' must be 1-255\n" fun server n h0 h =>
    { server with simTickRate := UInt8.ofNat n.toNat, simTickRate_pos := uint8_ne_zero h0 h }

def parseServerNetTickRate : Settings → Ini src F (Int × Settings) :=
  parseServerInteger 1 255 "'net_tick_rate' must be 1-255\n" fun server n h0 h =>
    { server with netTickRate := UInt8.ofNat n.toNat, netTickRate_pos := uint8_ne_zero h0 h }

def parseServerClientTimeout : Settings → Ini src F (Int × Settings) :=
  parseServerInteger 0 0xFFFF "'client_timeout' must be 0-65535\n" fun server n _ _ =>
    { server with clientTimeout := UInt16.ofNat n.toNat }

def parseServerMaliciousTimeout : Settings → Ini src F (Int × Settings) :=
  parseServerInteger 0 0xFFFF "'malicious_timeout' must be 0-65535\n" fun server n _ _ =>
    { server with maliciousTimeout := UInt16.ofNat n.toNat }

/-- The copy of a text and its NUL into the field, which does not look at the size of the
field. -/
def copyPort (server : Settings) (text : List UInt8) : Except IniFault Settings :=
  if h : text.length + 1 ≤ 6 then
    .ok
      { server with
        port := text ++ 0 :: server.port.drop (text.length + 1)
        port_length := by
          rw [List.length_append, List.length_cons, List.length_drop, server.port_length]
          omega }
  else .error .overflow

def parseServerPort (server : Settings) : Ini src F (Int × Settings) :=
  expect .tokInteger "Expected an integer value\n" (-1, server) fun p =>
    if p.value.integerLiteral < 0 ∨ p.value.integerLiteral > 65535 then
      reject "'port' must be 0-65535\n" (-1, server)
    else do
      let value ← lift (strview src p.tail (p.head - p.tail))
      let server ← lift (copyPort server value.bytes)
      return (0, server)

/-! ## Keys -/

/-- The keys, in the order in which they are compared. -/
def serverKeys : List (String × (Settings → Ini src F (Int × Settings))) :=
  [("max_players", parseServerMaxPlayers),
    ("max_username_len", parseServerMaxUsernameLen),
    ("sim_tick_rate", parseServerSimTickRate),
    ("net_tick_rate", parseServerNetTickRate),
    ("client_timeout", parseServerClientTimeout),
    ("malicious_timeout", parseServerMaliciousTimeout),
    ("port", parseServerPort)]

/-- `HANDLE_KEY`, for the key that has matched. -/
def handleKey (parse : Settings → Ini src F (Int × Settings)) (server : Settings) :
    Ini src F (Settings ⊕ (Token × Settings)) :=
  expect .tokEquals "Expected '=' after key\n" (.inr (.tokError, server)) fun _ => do
    let (status, server) ← parse server
    return if status ≠ 0 then .inr (.tokError, server) else .inl server

/-- A round of the loop over the keys. -/
def keyValuesRound (server : Settings) : Ini src F (Settings ⊕ (Token × Settings)) := do
  let (tok, p) ← scan
  match tok with
  | .tokError => return .inr (.tokError, server)
  | .tokEnd => return .inr (.tokEnd, server)
  | .tokKey =>
      match serverKeys.find? fun entry => strviewEqCstr p.value.string entry.1 with
      | some (_, parse) => handleKey parse server
      | none =>
          reject ("Unknown key '" ++ p.value.string.text ++ "'\n") (.inr (.tokError, server))
  | tok => return .inr (tok, server)

/-- The loop ends with -1, which is `tokError`, with 0, which is `tokEnd`, or with the token
that is not a key. -/
def parseServerKeyValues (fuel : Nat) (server : Settings) : Ini src F (Token × Settings) :=
  Prog.repeatUntil (fail .endless) keyValuesRound fuel server

/-- `parse_ini`. -/
def parseServerIni (fuel : Nat) (server : Settings) : Ini src F (Token × Settings) :=
  expect .tokLBracket "Expected to find a section. Example: [server]\n" (.tokError, server) fun _ =>
    expect .tokKey
      "Expected a section name within the brackets. Example: [server]\n" (.tokError, server) fun p =>
      if strviewEqCstr p.value.string "server" then
        expect .tokRBracket "Missing closing bracket ']'\n" (.tokError, server) fun _ =>
          parseServerKeyValues fuel server
      else
        reject ("Unknown section '" ++ p.value.string.text ++ "'. Expected [server]\n")
          (.tokError, server)

/-! ## Loading -/

/-- `server_settings_set_defaults`. -/
def serverSettingsSetDefaults (server : Settings) : Settings :=
  { server with
    toServerSettings := serverSettingsDefaults
    port := "5555".toList.map ch ++ 0 :: server.port.drop 5
    port_length := by
      rw [List.length_append, List.length_cons, List.length_drop, server.port_length]
      rfl }

/-- `server_settings_load_or_set_defaults`.  A file that cannot be mapped is not an error. -/
def serverSettingsLoadOrSetDefaults (ops : FloatOps F) (fuel : Nat) (server : Settings)
    (filepath : String) (mapped : Option (List UInt8)) : Except IniFault (Int × Settings) :=
  let server := serverSettingsSetDefaults server
  if filepath.isEmpty then .ok (0, server)
  else
    match mapped with
    | none => .ok (0, server)
    | some src => do
        let ((tok, server), _) ←
          run (handle serverDialect ops) (parseServerIni fuel server) (parserInit ops src)
        .ok (if tok ≠ .tokEnd then -1 else 0, server)

end Clither
