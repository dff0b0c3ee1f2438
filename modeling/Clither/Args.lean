import Clither.Ini

/-!
# The command line

`args_parse` goes over the words of the command line once.  Long options are
compared as a whole, short ones are read character by character, and some of them
take the words behind them as values.  Which options there are depends on how the
program is built.
-/

namespace Clither

/-- The `CLITHER_*` switches, and the length of `gfx_backends`. -/
structure BuildOptions where
  tests : Bool
  benchmarks : Bool
  gfx : Bool
  server : Bool
  logging : Bool
  mcd : Bool
  gfxBackends : Nat

/-- `enum mode`. -/
inductive Mode where
  | tests
  | benchmarks
  | client
  | clientAndServer
  | headless
  deriving DecidableEq

/-- `struct args`.  A string is kept without its NUL. -/
structure Args where
  logFile : List UInt8
  configFile : List UInt8
  ip : List UInt8
  port : List UInt8
  mcdPort : List UInt8
  mcdLatency : Int
  mcdLoss : Int
  mcdDup : Int
  mcdReorder : Int
  gfxBackend : Int
  mode : Mode
  deriving DecidableEq

/-- The characters of a literal. -/
def cstr (text : String) : List UInt8 :=
  text.toList.map ch

/-- `s[i]`, where `s` ends with a NUL. -/
def charAt (s : List UInt8) (i : Nat) : Except Fault UInt8 :=
  if i < s.length then .ok (s.getD i 0)
  else if i = s.length then .ok 0
  else .error .overread

/-- What `args_parse` reports with `log_err`. -/
inductive ArgsError where
  /-- `Missing argument for %s` -/
  | missingArgument (option : String)
  /-- `Unknown option "%s"` -/
  | unknownOption (text : List UInt8)
  /-- `Invalid option "%s"` -/
  | invalidOption (text : List UInt8)
  /-- `Graphics backend index "%d" is out of range!` -/
  | backendOutOfRange (index : Int)
  /-- `Can't use "--server" and "--host" at the same time` -/
  | serverAndHost
  deriving DecidableEq

/-- The local variables of `args_parse`. -/
structure ArgsState where
  args : Args
  testsFlag : Bool
  benchFlag : Bool
  serverFlag : Bool
  hostFlag : Bool
  deriving DecidableEq

/-- What becomes of a word. -/
inductive WordResult where
  /-- The parser goes on behind the values that the option has `used`. -/
  | next (s : ArgsState) (used : Nat)
  /-- `break` -/
  | stop (s : ArgsState)
  /-- `return 1` -/
  | help
  /-- `return -1` -/
  | reject (error : ArgsError)
  deriving DecidableEq

/-! ## Numbers -/

/-- The characters that `isspace` accepts. -/
def isspace (c : UInt8) : Bool :=
  decide (c = 32 ∨ (9 ≤ c ∧ c ≤ 13))

def atoiDigits : Int → List UInt8 → Int
  | n, [] => n
  | n, c :: rest => if isdigit c then atoiDigits (n * 10 + digitOf c) rest else n

/-- `strtol` for a number with that sign: what a `long` cannot hold is replaced by the largest or
the smallest one. -/
def strtolValue (n : Int) : Int :=
  if n > 2 ^ 63 - 1 then 2 ^ 63 - 1
  else if n < -2 ^ 63 then -2 ^ 63
  else n

/-- `atoi`, which is `strtol` with a conversion to `int`. -/
def atoi (s : List UInt8) : Int :=
  match s.dropWhile isspace with
  | [] => 0
  | c :: rest =>
      if c = ch '-' then wrapInt 32 (strtolValue (-atoiDigits 0 rest))
      else if c = ch '+' then wrapInt 32 (strtolValue (atoiDigits 0 rest))
      else wrapInt 32 (strtolValue (atoiDigits 0 (c :: rest)))

/-- The largest `long` becomes `-1` when it is converted. -/
example : atoi (cstr "9223372036854775808") = -1 := by decide

/-! ## The parser -/

def argsDefaults (b : BuildOptions) : Args where
  logFile := cstr "clither.txt"
  configFile := cstr "config.ini"
  ip := []
  port := []
  mcdPort := cstr "5554"
  mcdLatency := 0
  mcdLoss := 0
  mcdDup := 0
  mcdReorder := 0
  gfxBackend := 0
  mode := if b.gfx then .client else .headless

def argsBegin (b : BuildOptions) : ArgsState where
  args := argsDefaults b
  testsFlag := false
  benchFlag := false
  serverFlag := false
  hostFlag := false

section

variable (b : BuildOptions)

/-- An option with a value that must not be empty. -/
def takeValue (option : String) (rest : List (List UInt8)) (store : List UInt8 → WordResult) :
    WordResult :=
  match rest with
  | [] => .reject (.missingArgument option)
  | value :: _ => if value = [] then .reject (.missingArgument option) else store value

/-- The branch of the options with two dashes; `rest` are the words behind. -/
def parseLong (s : ArgsState) (word : List UInt8) (rest : List (List UInt8)) : WordResult :=
  let arg := word.drop 2
  if arg = cstr "help" then .help
  else if b.tests && arg = cstr "tests" then .next { s with testsFlag := true } 0
  else if b.benchmarks && arg = cstr "benchmarks" then .next { s with benchFlag := true } 0
  else if b.gfx && arg = cstr "gfx" then
    takeValue "--gfx" rest fun value =>
      let index := atoi value
      if index ≥ b.gfxBackends ∨ index < 0 then .reject (.backendOutOfRange index)
      else .next { s with args := { s.args with gfxBackend := index } } 1
  else if b.gfx && b.server && arg = cstr "server" then .next { s with serverFlag := true } 0
  else if b.gfx && b.server && arg = cstr "host" then .next { s with hostFlag := true } 0
  else if arg = cstr "ip" then
    takeValue "--ip" rest fun value => .next { s with args := { s.args with ip := value } } 1
  else if arg = cstr "port" then
    takeValue "--port" rest fun value => .next { s with args := { s.args with port := value } } 1
  else if b.mcd && arg = cstr "mcd" then
    match rest with
    | latency :: loss :: dup :: reorder :: _ =>
        .next { s with args := { s.args with mcdLatency := atoi latency, mcdLoss := atoi loss,
                                             mcdDup := atoi dup, mcdReorder := atoi reorder } } 4
    | _ => .reject (.missingArgument "--mcd")
  else if b.logging && arg = cstr "log" then
    match rest with
    | [] => .reject (.missingArgument "--log")
    | value :: _ => .next { s with args := { s.args with logFile := value } } 1
  else if arg = [] then .stop s
  else if !s.testsFlag && !s.benchFlag then .reject (.unknownOption word)
  else .next s 0

/-- The loop over the characters of short options, up to the word that the index
is at when it is over. -/
def shortLoop (s : ArgsState) (word : List UInt8) (used : Nat) :
    List UInt8 → List (List UInt8) → ArgsState × List UInt8 × Nat ⊕ ArgsError
  | [], _ => .inl (s, word, used)
  | p :: more, rest =>
      if p = ch 'p' then
        match rest with
        | [] => .inr (.missingArgument "-p")
        | value :: rest =>
            if more ≠ [] ∨ value = [] then .inr (.missingArgument "-p")
            else
              shortLoop { s with args := { s.args with port := value } } value (used + 1) more
                rest
      else if b.gfx && b.server && p = ch 's' then
        shortLoop { s with serverFlag := true } word used more rest
      else if b.gfx && b.server && p = ch 'h' then
        shortLoop { s with hostFlag := true } word used more rest
      else if b.logging && p = ch 'l' then
        match rest with
        | [] => .inr (.missingArgument "-l")
        | value :: rest =>
            if more ≠ [] then .inr (.missingArgument "-l")
            else
              shortLoop { s with args := { s.args with logFile := value } } value (used + 1) more
                rest
      else .inr (.unknownOption [ch '-', p])

/-- The branch of the options with one dash.  The index may have moved on to a
value when its second character is looked at. -/
def parseShort (s : ArgsState) (word : List UInt8) (rest : List (List UInt8)) :
    Except Fault WordResult :=
  match shortLoop b s word 0 (word.drop 1) rest with
  | .inr error => .ok (.reject error)
  | .inl (s, word, used) => do
      let second ← charAt word 1
      return if second = 0 then .reject (.unknownOption word) else .next s used

/-- One turn of the loop. -/
def parseWord (s : ArgsState) (word : List UInt8) (rest : List (List UInt8)) :
    Except Fault WordResult := do
  let first ← charAt word 0
  if first = ch '-' then
    let second ← charAt word 1
    if second = ch '-' then return parseLong b s word rest else parseShort b s word rest
  else return .reject (.invalidOption word)

/-- The loop, where so many words have been used as values already. -/
def argsLoop (s : ArgsState) : Nat → List (List UInt8) → Except Fault (ArgsState ⊕ Option ArgsError)
  | _, [] => .ok (.inl s)
  | used + 1, _ :: rest => argsLoop s used rest
  | 0, word :: rest => do
      let result ← parseWord b s word rest
      match result with
      | .next s used => argsLoop s used rest
      | .stop s => return .inl s
      | .help => return .inr none
      | .reject error => return .inr (some error)

/-- The mode that the flags ask for. -/
def selectMode (s : ArgsState) : Args ⊕ Option ArgsError :=
  if b.tests && s.testsFlag then .inl { s.args with mode := .tests }
  else if b.benchmarks && s.benchFlag then .inl { s.args with mode := .benchmarks }
  else if b.gfx && b.server && s.serverFlag && s.hostFlag then .inr (some .serverAndHost)
  else if b.gfx && b.server && s.serverFlag then .inl { s.args with mode := .headless }
  else if b.gfx && b.server && s.hostFlag then .inl { s.args with mode := .clientAndServer }
  else .inl s.args

/-- `args_parse` for the words behind `argv[0]`: the arguments when it returns 0,
no error when it returns 1 and the error when it returns -1. -/
def argsParse (words : List (List UInt8)) : Except Fault (Args ⊕ Option ArgsError) := do
  let ended ← argsLoop b (argsBegin b) 0 words
  match ended with
  | .inl s => return selectMode b s
  | .inr error => return .inr error

end

end Clither
