import Clither.Lib.Calls
import Clither.Lib.Scan
import Clither.Mem

/-!
# The scanner of the INI files

`server_settings.c` and `resource_pack.c` hold one parser each.  They scan their file with
the same code, up to the characters they know, and a `Dialect` says what these are.  The
file is mapped into memory and is not followed by a NUL, so that the scanner compares its
`head` with `end`, the length of the file.

Every read of the file goes through `readAt`, and every read of a converter through
`StrView.read`, which also knows where the token ends.  A message about the file prints
the line that it is about, and reads it.

What a parser does to its file is in `IniOp`: it scans a token or reports an error.  The
parsers themselves are programs over these calls.  `IniOp.fail` is where the model of a parser
stops: a loop that has used up its rounds, or an access outside of what it may touch.
-/

namespace Clither

open Calls Scan

/-- How a parser can fail to return. -/
inductive IniFault where
  /-- A byte that is not in the file is read. -/
  | outsideSource
  /-- A converter reads a byte that is not in its token. -/
  | outsideToken
  /-- A loop goes on and on. -/
  | endless
  /-- An element behind the end of a vector is used. -/
  | outsideVec
  /-- The copy of a token does not fit into its destination. -/
  | overflow
  /-- The copy of a token goes through a null pointer. -/
  | nullStr
  deriving DecidableEq

/-- The faults of writing a copy. -/
def IniFault.write : IniFault → Bool
  | .overflow => true
  | .nullStr => true
  | .outsideSource => false
  | .outsideToken => false
  | .endless => false
  | .outsideVec => false

/-- A byte of the execution character set. -/
abbrev ch (c : Char) : UInt8 := c.toUInt8

/-! ## Characters -/

def isdigit (c : UInt8) : Bool :=
  decide (ch '0' ≤ c ∧ c ≤ ch '9')

def isalpha (c : UInt8) : Bool :=
  decide (ch 'a' ≤ c ∧ c ≤ ch 'z') || decide (ch 'A' ≤ c ∧ c ≤ ch 'Z')

def isalnum (c : UInt8) : Bool :=
  isalpha c || isdigit c

/-- `c - '0'` for a `char`, which is signed. -/
def digitOf (c : UInt8) : Int :=
  wrapInt 8 c.toNat - 48

/-! ## Views -/

variable {src : List UInt8} {F : Type}

/-- `struct strview`, for the bytes of the file. -/
structure StrView (src : List UInt8) where
  off : Nat
  len : Nat
  inside : off + len ≤ src.length
  deriving DecidableEq

/-- The view of `""`. -/
def StrView.empty (src : List UInt8) : StrView src where
  off := 0
  len := 0
  inside := Nat.zero_le _

/-- A view of bytes that are not all in the file is a fault. -/
def strview (src : List UInt8) (off len : Nat) : Except IniFault (StrView src) :=
  if inside : off + len ≤ src.length then .ok { off := off, len := len, inside := inside }
  else .error .outsideSource

def StrView.bytes (str : StrView src) : List UInt8 :=
  (src.drop str.off).take str.len

/-- A byte of the token. -/
def StrView.read (str : StrView src) (i : Nat) : Except IniFault UInt8 :=
  if str.off ≤ i ∧ i < str.off + str.len then readAt .outsideSource src i
  else .error .outsideToken

/-- The loop of `strview_eq_cstr`.  A key has no NUL, and so the comparison does not get
behind the one of `cstr`. -/
def eqLoop : List UInt8 → List UInt8 → Bool
  | [], cstr => cstr.isEmpty
  | _ :: _, [] => false
  | b :: bytes, c :: cstr => if b = c then eqLoop bytes cstr else false

def strviewEqCstr (str : StrView src) (cstr : String) : Bool :=
  eqLoop str.bytes (cstr.toList.map ch)

/-- `%.*s`. -/
def StrView.text (str : StrView src) : String :=
  String.ofList (str.bytes.map fun c => Char.ofNat c.toNat)

/-! ## Number literals -/

/-- The sign in front of a number, and where its digits begin. -/
def signOf (str : StrView src) : Except IniFault (Nat × Int) :=
  if 0 < str.off then do
    let c ← str.read str.off
    if c = ch '-' then .ok (str.off + 1, -1) else .ok (str.off, 1)
  else .ok (str.off, 1)

/-- The loop compares for equality with the end. -/
def toIntegerLoop (str : StrView src) : Nat → Nat → Int → Except IniFault Int
  | 0, _, _ => .error .endless
  | n + 1, begin, result =>
      if begin = str.off + str.len then .ok result
      else do
        let c ← str.read begin
        toIntegerLoop str n (begin + 1) (wrapInt 32 (result * 10 + digitOf c))

def strviewToInteger (str : StrView src) : Except IniFault Int := do
  let (begin, sign) ← signOf str
  let result ← toIntegerLoop str (str.len + 1) begin 0
  .ok (wrapInt 32 (sign * result))

/-- The arithmetic of `float` that the literals need. -/
structure FloatOps (F : Type) where
  zero : F
  one : F
  /-- `val * 10.0 + digit`. -/
  timesTenPlus : F → Int → F
  /-- `scale / 10`. -/
  tenth : F → F
  /-- `val + digit * scale`. -/
  plusScaled : F → Int → F → F
  /-- `sign * val`. -/
  signed : Int → F → F

/-- The digits in front of the point. -/
def wholeLoop (ops : FloatOps F) (str : StrView src) : Nat → Nat → F → Except IniFault (Nat × F)
  | 0, _, _ => .error .endless
  | n + 1, begin, val =>
      if begin = str.off + str.len then .ok (begin, val)
      else do
        let c ← str.read begin
        if c = ch '.' then .ok (begin + 1, val)
        else wholeLoop ops str n (begin + 1) (ops.timesTenPlus val (digitOf c))

/-- The digits behind it, where a second point counts as one more. -/
def fractionLoop (ops : FloatOps F) (str : StrView src) : Nat → Nat → F → F → Except IniFault F
  | 0, _, _, _ => .error .endless
  | n + 1, begin, scale, val =>
      if begin = str.off + str.len then .ok val
      else do
        let c ← str.read begin
        let scale := ops.tenth scale
        fractionLoop ops str n (begin + 1) scale (ops.plusScaled val (digitOf c) scale)

def strviewToFloat (ops : FloatOps F) (str : StrView src) : Except IniFault F := do
  let (begin, sign) ← signOf str
  let (begin, val) ← wholeLoop ops str (str.len + 1) begin ops.zero
  let val ← fractionLoop ops str (str.len + 1) begin ops.one val
  .ok (ops.signed sign val)

/-! ## Messages -/

/-- A position in the file, as a message counts it, and the first byte of its line. -/
structure LinePos where
  line : Nat
  column : Nat
  lineOff : Nat
  pos : Nat

def LinePos.next (l : LinePos) (c : UInt8) : LinePos :=
  if c = ch '\n' then
    { line := l.line + 1, column := 1, lineOff := l.pos + 1, pos := l.pos + 1 }
  else { l with column := l.column + 1, pos := l.pos + 1 }

/-- What a message prints: where it is, and the lines that are shown below it. -/
structure Excerpt where
  line : Nat
  column : Nat
  lastLine : Nat
  lastColumn : Nat
  blockOff : Nat
  blockLen : Nat

/-- The position that `log_vflc` and `log_excerpt` count from the begin of the file. -/
def linePos (src : List UInt8) (off : Nat) : Except IniFault LinePos := do
  let (_, first) ← scanWhile .outsideSource src (fun _ => true) LinePos.next off 0
    { line := 1, column := 1, lineOff := 0, pos := 0 }
  .ok first

/-- `log_excerpt`, up to the block that it prints.  The line with the end of the location is
read until there is a newline or a NUL, and its end is not compared with the end of the file.
The loops that follow read the bytes of the block once more. -/
def logExcerpt (src : List UInt8) (off len : Nat) : Except IniFault Excerpt := do
  let first ← linePos src off
  let (_, last) ← scanWhile .outsideSource src (fun _ => true) LinePos.next len off first
  let (stop, _) ← scanWhile .outsideSource src (fun c => c != 0 && c != ch '\n') (fun _ _ => ())
    (src.length + 1) (off + len) ()
  .ok
    { line := first.line
      column := first.column
      lastLine := last.line
      lastColumn := last.column
      blockOff := first.lineOff
      blockLen := stop - first.lineOff }

/-- `log_vflc` and `log_excerpt`. -/
def printVerror (src : List UInt8) (off len : Nat) : Except IniFault Excerpt := do
  let _ ← linePos src off
  logExcerpt src off len

/-! ## Tokens -/

inductive Token where
  | tokError
  | tokEnd
  | tokLBracket
  | tokRBracket
  | tokComma
  | tokPeriod
  | tokEquals
  | tokInteger
  | tokFloat
  | tokString
  | tokKey
  deriving DecidableEq, Repr

/-- The union behind a token.  A parser reads the member that belongs to its last token only,
so that the members need not share their memory. -/
structure Value (src : List UInt8) (F : Type) where
  string : StrView src
  floatLiteral : F
  integerLiteral : Int

/-- `struct parser`.  Its `end` is the length of the file. -/
structure Parser (src : List UInt8) (F : Type) where
  head : Nat
  tail : Nat
  value : Value src F

def parserInit (ops : FloatOps F) (src : List UInt8) : Parser src F where
  head := 0
  tail := 0
  value := { string := StrView.empty src, floatLiteral := ops.zero, integerLiteral := 0 }

/-- The characters that a scanner knows. -/
structure Dialect where
  /-- The tokens of a single character. -/
  special : UInt8 → Option Token
  /-- Whether there are string literals. -/
  quotes : Bool
  /-- The characters that go on with a key. -/
  keyChar : UInt8 → Bool
  /-- A key can begin with a letter. -/
  keyChar_of_isalpha : ∀ c, isalpha c = true → keyChar c = true
  /-- A special character is a token of its own. -/
  special_ne : ∀ c tok, special c = some tok → tok ≠ .tokError ∧ tok ≠ .tokEnd
  /-- Numbers and strings begin with other characters. -/
  special_minus : special (ch '-') = none
  special_quote : special (ch '"') = none

variable (d : Dialect) (ops : FloatOps F)

/-- The end of the branch for numbers. -/
def convertNumber (p : Parser src F) (head : Nat) (isFloat : Bool) (str : StrView src) :
    Except IniFault (Token × Parser src F) :=
  if isFloat then do
    let x ← strviewToFloat ops str
    .ok (.tokFloat, { p with head := head, value := { p.value with floatLiteral := x } })
  else do
    let n ← strviewToInteger str
    .ok (.tokInteger, { p with head := head, value := { p.value with integerLiteral := n } })

/-- A number.  The loop does not accept the minus sign that leads here. -/
def scanNumber (p : Parser src F) : Except IniFault (Token × Parser src F) := do
  let (head, isFloat) ← scanWhile .outsideSource src (fun c => isdigit c || c == ch '.')
    (fun isFloat c => isFloat || c == ch '.') (src.length - p.head) p.head false
  let str ← strview src p.tail (head - p.tail)
  convertNumber ops p head isFloat str

/-- The search for the quote that ends a string, in the bytes before the end of the file. -/
def closingQuote (src : List UInt8) : Nat → Nat → Except IniFault Nat
  | 0, head => .ok head
  | n + 1, head => do
      let c ← readAt .outsideSource src head
      if c = ch '"' then do
        let before ← readAt .outsideSource src (head - 1)
        if before ≠ ch '\\' then .ok head else closingQuote src n (head + 1)
      else closingQuote src n (head + 1)

/-- A string literal, which can go over several lines. -/
def scanString (p : Parser src F) : Except IniFault (Token × Parser src F) := do
  let tail := p.head + 1
  let head ← closingQuote src (src.length - tail) tail
  if head = src.length then do
    -- Missing closing quote on string
    let _ ← printVerror src p.tail (head - p.tail)
    .ok (.tokError, { p with head := head })
  else do
    let str ← strview src tail (head - tail)
    .ok (.tokString, { p with head := head + 1, value := { p.value with string := str } })

def scanKey (p : Parser src F) : Except IniFault (Token × Parser src F) := do
  let (head, _) ← scanWhile .outsideSource src d.keyChar (fun _ _ => ()) (src.length - p.head)
    p.head ()
  let str ← strview src p.tail (head - p.tail)
  .ok (.tokKey, { p with head := head, value := { p.value with string := str } })

/-- A comment ends behind its newline or at the end of the file. -/
def skipComment (src : List UInt8) (head : Nat) : Except IniFault Nat := do
  let (head, _) ← scanWhile .outsideSource src (fun c => c != ch '\n') (fun _ _ => ())
    (src.length - head) head ()
  .ok (if head = src.length then head else head + 1)

def isComment (c : UInt8) : Bool :=
  c == ch '#' || c == ch ';'

/-- The loop of `scan_next_token`.  Each round moves `head` or returns. -/
def scanLoop : Nat → Parser src F → Except IniFault (Token × Parser src F)
  | 0, _ => .error .endless
  | n + 1, p =>
      if p.head = src.length then .ok (.tokEnd, p)
      else do
        let c ← readAt .outsideSource src p.head
        if isComment c then do
          let head ← skipComment src (p.head + 1)
          scanLoop n { p with head := head, tail := head }
        else
          match d.special c with
          | some tok => .ok (tok, { p with head := p.head + 1 })
          | none =>
              if isdigit c || c == ch '-' then scanNumber ops p
              else if d.quotes && c == ch '"' then scanString p
              else if isalpha c then scanKey d p
              else scanLoop n { p with head := p.head + 1, tail := p.head + 1 }

def scanNextToken (p : Parser src F) : Except IniFault (Token × Parser src F) :=
  scanLoop d ops (src.length - p.head + 1) { p with tail := p.head }

/-! ## Programs over the file -/

/-- What a parser does to its file. -/
inductive IniOp where
  | scan
  /-- A message about the token between `tail` and `head`. -/
  | parserError (text : String)
  /-- A message about a location. -/
  | printError (off len : Nat) (text : String)
  | fail (f : IniFault)

def IniOp.Answer (src : List UInt8) (F : Type) : IniOp → Type
  | .scan => Token × Parser src F
  | .parserError _ => Unit
  | .printError _ _ _ => Unit
  | .fail _ => Empty

/-- How a call is answered. -/
def handle : (op : IniOp) → Parser src F → Except IniFault (IniOp.Answer src F op × Parser src F)
  | .scan, p => do
      let (tok, p) ← scanNextToken d ops p
      .ok ((tok, p), p)
  | .parserError _, p => do
      let _ ← printVerror src p.tail (p.head - p.tail)
      .ok ((), p)
  | .printError off len _, p => do
      let _ ← printVerror src off len
      .ok ((), p)
  | .fail f, _ => .error f

abbrev Ini (src : List UInt8) (F α : Type) := Prog IniOp (IniOp.Answer src F) α

namespace Ini

def scan : Ini src F (Token × Parser src F) := Prog.ask IniOp.scan

def parserError (text : String) : Ini src F Unit := Prog.ask (IniOp.parserError text)

def printError (off len : Nat) (text : String) : Ini src F Unit :=
  Prog.ask (IniOp.printError off len text)

def fail {α : Type} (f : IniFault) : Ini src F α := .call (.fail f) fun e => nomatch e

/-- A function that does not scan. -/
def lift {α : Type} : Except IniFault α → Ini src F α
  | .ok a => .ret a
  | .error f => fail f

/-- `return parser_error(p, text);` -/
def reject {α : Type} (text : String) (onError : α) : Ini src F α := do
  parserError text
  return onError

/-- `if (scan_next_token(p) != tok) return parser_error(p, text);` -/
def expect {α : Type} (tok : Token) (text : String) (onError : α) (rest : Parser src F → Ini src F α) :
    Ini src F α := do
  let (next, p) ← scan
  if next = tok then rest p else reject text onError

end Ini

end Clither
