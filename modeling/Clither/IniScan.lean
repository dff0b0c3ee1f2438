import Clither.Ini

/-!
# What a call of the scanner does

The scanner skips comments and the characters that begin no token, and what is left of the
file decides the rest.  It is `ready` when it does not begin with a minus sign, and when a
string that it begins with is closed.  `scan_ready` and `scan_not_ready` are the two sides of
this: a call from a `ready` rest returns and has moved `head` unless the file has ended, and
no other call does both.
-/

namespace Clither

open Calls Scan

variable {src : List UInt8} {F : Type} {d : Dialect} {ops : FloatOps F}

/-! ## Converters -/

/-- A read within the view finds a byte. -/
theorem StrView.read_ok (str : StrView src) {i : Nat} (h0 : str.off ≤ i)
    (h : i < str.off + str.len) : ∃ c, str.read i = .ok c := by
  have hlt : i < src.length := Nat.lt_of_lt_of_le h str.inside
  rw [StrView.read, if_pos ⟨h0, h⟩]
  exact ⟨_, readAt_of_drop (List.drop_eq_getElem_cons hlt)⟩

/-- A view that is empty has no first byte. -/
theorem signOf_of_empty {str : StrView src} (hoff : 0 < str.off) (hlen : str.len = 0) :
    signOf str = .error .outsideToken := by
  rw [signOf, if_pos hoff, StrView.read, if_neg (by omega)]
  rfl

/-- Looking for a sign reads within a token, or at the start of the text. -/
theorem signOf_ok {str : StrView src} (h : str.off = 0 ∨ 0 < str.len) :
    ∃ begin sign, signOf str = .ok (begin, sign) ∧ str.off ≤ begin ∧
      begin ≤ str.off + str.len := by
  by_cases hoff : 0 < str.off
  · obtain ⟨c, hread⟩ := str.read_ok (Nat.le_refl _) (by omega)
    rw [signOf, if_pos hoff, hread]
    show ∃ begin sign, (if c = ch '-' then _ else _) = _ ∧ _
    by_cases hc : c = ch '-'
    · rw [if_pos hc]
      exact ⟨_, _, rfl, by omega, by omega⟩
    · rw [if_neg hc]
      exact ⟨_, _, rfl, by omega, by omega⟩
  · rw [signOf, if_neg hoff]
    exact ⟨_, _, rfl, by omega, by omega⟩

/-- The digit loop reads within the token, by induction on what is left of it. -/
theorem toIntegerLoop_ok (str : StrView src) {n begin : Nat} (h0 : str.off ≤ begin)
    (h : begin ≤ str.off + str.len) (hn : str.off + str.len - begin < n) (result : Int) :
    ∃ v, toIntegerLoop str n begin result = .ok v := by
  induction n generalizing begin result with
  | zero => omega
  | succ n ih =>
      rw [toIntegerLoop]
      by_cases hend : begin = str.off + str.len
      · rw [if_pos hend]
        exact ⟨_, rfl⟩
      · obtain ⟨c, hread⟩ := str.read_ok h0 (by omega)
        rw [if_neg hend, hread]
        exact ih (by omega) (by omega) (by omega) _

/-- **The converter of integers** stays in each token that is not empty. -/
theorem strviewToInteger_ok (str : StrView src) (h : str.off = 0 ∨ 0 < str.len) :
    ∃ v, strviewToInteger str = .ok v := by
  obtain ⟨begin, sign, hsign, h0, hend⟩ := signOf_ok h
  obtain ⟨v, hloop⟩ := toIntegerLoop_ok str h0 hend
    (show str.off + str.len - begin < str.len + 1 by omega) 0
  refine ⟨wrapInt 32 (sign * v), ?_⟩
  rw [strviewToInteger, hsign]
  show (toIntegerLoop str (str.len + 1) begin 0 >>= _) = _
  rw [hloop]
  rfl

/-- The sign of an empty token behind the start is looked for outside of it. -/
theorem strviewToInteger_of_empty {str : StrView src} (hoff : 0 < str.off) (hlen : str.len = 0) :
    strviewToInteger str = .error .outsideToken := by
  rw [strviewToInteger, signOf_of_empty hoff hlen]
  rfl

/-- The loop over the whole part reads within the token and ends in it. -/
theorem wholeLoop_ok (ops : FloatOps F) (str : StrView src) {n begin : Nat} (h0 : str.off ≤ begin)
    (h : begin ≤ str.off + str.len) (hn : str.off + str.len - begin < n) (val : F) :
    ∃ point v, wholeLoop ops str n begin val = .ok (point, v) ∧ str.off ≤ point ∧
      point ≤ str.off + str.len := by
  induction n generalizing begin val with
  | zero => omega
  | succ n ih =>
      rw [wholeLoop]
      by_cases hend : begin = str.off + str.len
      · rw [if_pos hend]
        exact ⟨_, _, rfl, h0, h⟩
      · obtain ⟨c, hread⟩ := str.read_ok h0 (by omega)
        rw [if_neg hend, hread]
        show ∃ point v, (if c = ch '.' then _ else _) = _ ∧ _
        by_cases hc : c = ch '.'
        · rw [if_pos hc]
          exact ⟨_, _, rfl, by omega, by omega⟩
        · rw [if_neg hc]
          exact ih (by omega) (by omega) (by omega) _

/-- The loop over the fraction reads within the token. -/
theorem fractionLoop_ok (ops : FloatOps F) (str : StrView src) {n begin : Nat} (h0 : str.off ≤ begin)
    (h : begin ≤ str.off + str.len) (hn : str.off + str.len - begin < n) (scale val : F) :
    ∃ v, fractionLoop ops str n begin scale val = .ok v := by
  induction n generalizing begin scale val with
  | zero => omega
  | succ n ih =>
      rw [fractionLoop]
      by_cases hend : begin = str.off + str.len
      · rw [if_pos hend]
        exact ⟨_, rfl⟩
      · obtain ⟨c, hread⟩ := str.read_ok h0 (by omega)
        rw [if_neg hend, hread]
        exact ih (by omega) (by omega) (by omega) _ _

/-- A token that is not empty is read as a float without leaving it. -/
theorem strviewToFloat_ok (ops : FloatOps F) (str : StrView src) (h : str.off = 0 ∨ 0 < str.len) :
    ∃ v, strviewToFloat ops str = .ok v := by
  obtain ⟨begin, sign, hsign, h0, hend⟩ := signOf_ok h
  obtain ⟨point, whole, hwhole, hpoint0, hpoint⟩ := wholeLoop_ok ops str h0 hend
    (show str.off + str.len - begin < str.len + 1 by omega) ops.zero
  obtain ⟨v, hfraction⟩ := fractionLoop_ok ops str hpoint0 hpoint
    (show str.off + str.len - point < str.len + 1 by omega) ops.one whole
  refine ⟨ops.signed sign v, ?_⟩
  rw [strviewToFloat, hsign]
  show (wholeLoop ops str (str.len + 1) begin ops.zero >>= _) = _
  rw [hwhole]
  show (fractionLoop ops str (str.len + 1) point ops.one whole >>= _) = _
  rw [hfraction]
  rfl

/-! ## Messages -/

/-- The line that is open at a position ends in the file. -/
def lineEnds (src : List UInt8) (i : Nat) : Bool :=
  (src.drop i).any fun c => !(c != 0 && c != ch '\n')

/-- No line ends past the text. -/
theorem lineEnds_of_lt {i : Nat} (h : src.length < i) : lineEnds src i = false := by
  rw [lineEnds, List.drop_of_length_le (Nat.le_of_lt h)]
  rfl

/-- Counting lines reads everything in front of a position. -/
theorem countLines_spec (n i : Nat) (hi : i ≤ src.length) (l : LinePos) :
    if i + n ≤ src.length then
      ∃ r, scanWhile IniFault.outsideSource src (fun _ => true) LinePos.next n i l = .ok r
    else
      scanWhile IniFault.outsideSource src (fun _ => true) LinePos.next n i l =
        .error .outsideSource := by
  by_cases hle : i + n ≤ src.length
  · rw [if_pos hle]
    exact ⟨_, scanWhile_of_le _ _ hle l⟩
  · rw [if_neg hle]
    exact scanWhile_of_all _ (by simp) hi (Nat.lt_of_not_le hle) l

/-- **A message** about a location is printed exactly if the last line of the location ends in
the file. -/
theorem printVerror_spec (src : List UInt8) (off len : Nat) :
    if lineEnds src (off + len) then ∃ e, printVerror src off len = .ok e
    else printVerror src off len = .error .outsideSource := by
  have hfirst := countLines_spec off 0 (Nat.zero_le src.length)
    { line := 1, column := 1, lineOff := 0, pos := 0 }
  rw [Nat.zero_add] at hfirst
  by_cases hoff : off ≤ src.length
  · rw [if_pos hoff] at hfirst
    obtain ⟨⟨_, first⟩, hfirst⟩ := hfirst
    have hlinePos : linePos src off = .ok first := by
      rw [linePos, hfirst]
      rfl
    have hlast := countLines_spec len off hoff first
    by_cases hend : off + len ≤ src.length
    · rw [if_pos hend] at hlast
      obtain ⟨⟨_, last⟩, hlast⟩ := hlast
      rw [printVerror, logExcerpt, hlinePos]
      show if lineEnds src (off + len) then ∃ e, (scanWhile _ _ _ _ _ _ _ >>= _) = _
        else (scanWhile _ _ _ _ _ _ _ >>= _) = _
      rw [hlast]
      show if lineEnds src (off + len) then ∃ e, (scanWhile _ _ _ _ _ _ _ >>= _) = _
        else (scanWhile _ _ _ _ _ _ _ >>= _) = _
      by_cases hline : lineEnds src (off + len) = true
      · obtain ⟨⟨stop, _⟩, hstop⟩ := scanWhile_of_any (fun _ _ => ()) hline
          (show src.length ≤ off + len + (src.length + 1) by omega) ()
        rw [if_pos hline, hstop]
        exact ⟨_, rfl⟩
      · rw [if_neg hline, scanWhile_of_all _ (Bool.eq_false_of_not_eq_true hline) hend (by omega)]
        rfl
    · rw [if_neg hend] at hlast
      rw [lineEnds_of_lt (Nat.lt_of_not_le hend), if_neg (by decide), printVerror, logExcerpt,
        hlinePos]
      show (scanWhile _ _ _ _ _ _ _ >>= _) = _
      rw [hlast]
      rfl
  · rw [if_neg hoff] at hfirst
    rw [lineEnds_of_lt (by omega), if_neg (by decide), printVerror, linePos, hfirst]
    rfl

/-! ## What the scanner skips -/

/-- The characters that begin a token. -/
def Dialect.starts (d : Dialect) (c : UInt8) : Bool :=
  (d.special c).isSome || (isdigit c || c == ch '-') || (d.quotes && c == ch '"') || isalpha c

/-- What is left when comments and the characters that begin no token are skipped.  The flag
says that a comment is open. -/
def Dialect.skipped (d : Dialect) : Bool → List UInt8 → List UInt8
  | _, [] => []
  | true, c :: rest => d.skipped (c != ch '\n') rest
  | false, c :: rest =>
      if isComment c then d.skipped true rest
      else if d.starts c then c :: rest
      else d.skipped false rest

/-- A quote without a backslash in front of it follows. -/
def closes : UInt8 → List UInt8 → Bool
  | _, [] => false
  | before, c :: rest => (c == ch '"' && before != ch '\\') || closes c rest

/-- The next token does not begin with a minus sign, and if it is a string, it is closed. -/
def Dialect.ready (d : Dialect) : List UInt8 → Bool
  | [] => true
  | c :: rest => c != ch '-' && (!(d.quotes && c == ch '"') || closes c rest)

/-- The positions of a parser are in its file. -/
structure Parser.Inside (p : Parser src F) : Prop where
  tail_le : p.tail ≤ p.head
  head_le : p.head ≤ src.length

/-- A comment is skipped to the end of its line. -/
theorem skipped_comment (d : Dialect) (rest : List UInt8) :
    d.skipped true rest = d.skipped false (rest.dropWhile fun c => c != ch '\n').tail := by
  induction rest with
  | nil => rfl
  | cons c rest ih =>
      rw [Dialect.skipped, List.dropWhile_cons]
      by_cases hc : (c != ch '\n') = true
      · rw [if_pos hc, hc, ih]
      · rw [if_neg hc, Bool.eq_false_of_not_eq_true hc]
        rfl

/-- `skip_comment` skips to where the dialect says the comment ends. -/
theorem skipComment_spec (d : Dialect) {i : Nat} (hi : i ≤ src.length) :
    ∃ j, skipComment src i = .ok j ∧ i ≤ j ∧ j ≤ src.length ∧
      d.skipped false (src.drop j) = d.skipped true (src.drop i) := by
  have hle := length_takeWhile_drop (fun c => c != ch '\n') hi
  have hdrop := drop_takeWhile (fun c => c != ch '\n') src i
  rw [skipComment, scanWhile_eq _ _ hi, skipped_comment, ← hdrop]
  refine ⟨_, rfl, ?_⟩
  split_ifs with hend
  · rw [hend]
    exact ⟨hi, Nat.le_refl _, by rw [List.drop_length]; rfl⟩
  · exact ⟨by omega, by omega, by rw [List.tail_drop]⟩

/-! ## Where the loop of the scanner ends -/

/-- A parser between two tokens. -/
def Parser.moveTo (p : Parser src F) (i : Nat) : Parser src F :=
  { p with head := i, tail := i }

/-- The branches of the loop that return a token. -/
def tokenAt (d : Dialect) (ops : FloatOps F) (c : UInt8) (p : Parser src F) :
    Except IniFault (Token × Parser src F) :=
  match d.special c with
  | some tok => .ok (tok, { p with head := p.head + 1 })
  | none =>
      if isdigit c || c == ch '-' then scanNumber ops p
      else if d.quotes && c == ch '"' then scanString p
      else scanKey d p

/-- One round of the loop. -/
theorem scanLoop_succ {n : Nat} {p : Parser src F} {c : UInt8} {rest : List UInt8}
    (hdrop : src.drop p.head = c :: rest) :
    scanLoop d ops (n + 1) p =
      if isComment c then
        skipComment src (p.head + 1) >>= fun head => scanLoop d ops n (p.moveTo head)
      else if d.starts c then tokenAt d ops c p
      else scanLoop d ops n (p.moveTo (p.head + 1)) := by
  rw [scanLoop, if_neg (Nat.ne_of_lt (lt_of_drop hdrop)), readAt_of_drop hdrop]
  show (if isComment c then _ else _) = _
  by_cases hcomment : isComment c = true
  · rw [if_pos hcomment, if_pos hcomment]
    rfl
  rw [if_neg hcomment, if_neg hcomment, tokenAt, Dialect.starts]
  cases hspecial : d.special c with
  | some tok => rfl
  | none =>
      dsimp only
      by_cases hnumber : (isdigit c || c == ch '-') = true
      · simp [hnumber]
      by_cases hquote : (d.quotes && c == ch '"') = true
      · simp [hnumber, hquote]
      by_cases hkey : isalpha c = true
      · simp [hnumber, hquote, hkey]
      · simp [hnumber, hquote, hkey, Parser.moveTo]

/-- **The loop skips what begins no token.** -/
theorem scanLoop_spec (ops : FloatOps F) {n i : Nat} (p : Parser src F) (hi : i ≤ src.length)
    (hn : src.length - i < n) :
    (d.skipped false (src.drop i) = [] ∧
      scanLoop d ops n (p.moveTo i) = .ok (.tokEnd, p.moveTo src.length)) ∨
    ∃ start c rest, i ≤ start ∧ src.drop start = c :: rest ∧
      d.skipped false (src.drop i) = c :: rest ∧ d.starts c = true ∧
      scanLoop d ops n (p.moveTo i) = tokenAt d ops c (p.moveTo start) := by
  induction n generalizing i with
  | zero => omega
  | succ n ih =>
      cases hdrop : src.drop i with
      | nil =>
          obtain rfl : i = src.length := Nat.le_antisymm hi (List.drop_eq_nil_iff.mp hdrop)
          exact .inl ⟨rfl, by rw [scanLoop]; exact if_pos rfl⟩
      | cons c rest =>
          have hlt := lt_of_drop hdrop
          rw [scanLoop_succ (p := p.moveTo i) hdrop, Dialect.skipped]
          by_cases hcomment : isComment c = true
          · obtain ⟨j, hskip, hij, hj, hrest⟩ :=
              skipComment_spec d (show i + 1 ≤ src.length from hlt)
            rw [if_pos hcomment, if_pos hcomment,
              show skipComment src ((p.moveTo i).head + 1) = .ok j from hskip,
              ← drop_succ_of_drop hdrop, ← hrest]
            rcases ih hj (by omega) with hend | ⟨start, c', rest', hstart, hfound⟩
            · exact .inl hend
            · exact .inr ⟨start, c', rest', by omega, hfound⟩
          rw [if_neg hcomment, if_neg hcomment]
          by_cases hstarts : d.starts c = true
          · rw [if_pos hstarts, if_pos hstarts]
            exact .inr ⟨i, c, rest, Nat.le_refl _, hdrop, rfl, hstarts, rfl⟩
          · rw [if_neg hstarts, if_neg hstarts, ← drop_succ_of_drop hdrop]
            rcases ih (show i + 1 ≤ src.length from hlt) (by omega) with
              hend | ⟨start, c', rest', hstart, hfound⟩
            · exact .inl hend
            · exact .inr ⟨start, c', rest', by omega, hfound⟩

/-! ## Tokens -/

/-- A run of characters that begins with an accepted one moves on. -/
theorem lt_takeWhile (ok : UInt8 → Bool) {c : UInt8} {rest : List UInt8} {i : Nat}
    (hdrop : src.drop i = c :: rest) (hok : ok c = true) :
    i < i + ((src.drop i).takeWhile ok).length := by
  rw [hdrop, List.takeWhile_cons, if_pos hok, List.length_cons]
  omega

/-- A span within the text has a view. -/
theorem strview_ok (src : List UInt8) (off len : Nat) (h : off + len ≤ src.length) :
    ∃ str : StrView src, strview src off len = .ok str ∧ str.off = off ∧ str.len = len :=
  ⟨{ off := off, len := len, inside := h }, dif_pos h, rfl, rfl⟩

/-- A token that the scanner returns. -/
structure Scanned (p : Parser src F) (tok : Token) (p' : Parser src F) : Prop where
  inside : p'.Inside
  moved : p.head < p'.head
  ne_error : tok ≠ .tokError
  ne_end : tok ≠ .tokEnd

/-- Scanning a key that starts with a letter ends within the text. -/
theorem scanKey_ok {p : Parser src F} {c : UInt8} {rest : List UInt8} (htail : p.tail = p.head)
    (hdrop : src.drop p.head = c :: rest) (hc : isalpha c = true) :
    ∃ tok p', scanKey d p = .ok (tok, p') ∧ Scanned p tok p' := by
  have hmoved := lt_takeWhile d.keyChar hdrop (d.keyChar_of_isalpha c hc)
  have hle := length_takeWhile_drop d.keyChar (Nat.le_of_lt (lt_of_drop hdrop))
  rw [scanKey, scanWhile_eq _ _ (Nat.le_of_lt (lt_of_drop hdrop))]
  generalize p.head + ((src.drop p.head).takeWhile d.keyChar).length = head at hmoved hle
  obtain ⟨str, hstr, -, -⟩ := strview_ok src p.tail (head - p.tail) (by omega)
  refine ⟨.tokKey, { p with head := head, value := { p.value with string := str } }, ?_, ?_⟩
  · show (strview src p.tail (head - p.tail) >>= _) = _
    rw [hstr]
    rfl
  · exact ⟨⟨by show p.tail ≤ head; omega, hle⟩, hmoved, by decide, by decide⟩

/-- What the loop over a number leaves to the converters. -/
theorem scanNumber_eq (ops : FloatOps F) {p : Parser src F} (htail : p.tail = p.head) (hi : p.head ≤ src.length) :
    ∃ head isFloat, ∃ str : StrView src,
      head = p.head + ((src.drop p.head).takeWhile fun c => isdigit c || c == ch '.').length ∧
      isFloat = ((src.drop p.head).takeWhile fun c => isdigit c || c == ch '.').foldl
        (fun isFloat c => isFloat || c == ch '.') false ∧
      head ≤ src.length ∧ str.off = p.head ∧ str.len = head - p.head ∧
      scanNumber ops p = convertNumber ops p head isFloat str := by
  have hle := length_takeWhile_drop (fun c => isdigit c || c == ch '.') hi
  rw [scanNumber, scanWhile_eq _ _ hi]
  generalize ((src.drop p.head).takeWhile fun c => isdigit c || c == ch '.').length = len at hle
  generalize ((src.drop p.head).takeWhile fun c => isdigit c || c == ch '.').foldl _ _ = isFloat
  obtain ⟨str, hstr, hoff, hlen⟩ := strview_ok src p.tail
    (p.head + len - p.tail) (by omega)
  refine ⟨p.head + len, isFloat, str, rfl, rfl, hle, hoff.trans htail, by omega, ?_⟩
  show (strview src p.tail (p.head + len - p.tail) >>= _) = _
  rw [hstr]
  rfl

/-- Scanning a number that starts with a digit ends within the text. -/
theorem scanNumber_ok {p : Parser src F} {c : UInt8} {rest : List UInt8} (htail : p.tail = p.head)
    (hdrop : src.drop p.head = c :: rest) (hc : isdigit c = true) :
    ∃ tok p', scanNumber ops p = .ok (tok, p') ∧ Scanned p tok p' := by
  obtain ⟨head, isFloat, str, hhead, -, hle, hoff, hlen, heq⟩ :=
    scanNumber_eq ops htail (Nat.le_of_lt (lt_of_drop hdrop))
  have hmoved := lt_takeWhile (fun c => isdigit c || c == ch '.') hdrop (by simp [hc])
  rw [← hhead] at hmoved
  have hscanned (tok : Token) (value : Value src F) (herror : tok ≠ .tokError)
      (hend : tok ≠ .tokEnd) : Scanned p tok { p with head := head, value := value } :=
    ⟨⟨by show p.tail ≤ head; omega, hle⟩, hmoved, herror, hend⟩
  rw [heq, convertNumber]
  cases isFloat with
  | true =>
      obtain ⟨x, hx⟩ := strviewToFloat_ok ops str (.inr (by omega))
      rw [if_pos rfl, hx]
      exact ⟨_, _, rfl, hscanned _ _ (by decide) (by decide)⟩
  | false =>
      obtain ⟨n, hn⟩ := strviewToInteger_ok str (.inr (by omega))
      rw [if_neg (by decide), hn]
      exact ⟨_, _, rfl, hscanned _ _ (by decide) (by decide)⟩

/-- **A minus sign** gives an empty token.  Its conversion leaves the token, except at the
begin of the file, where the token is returned as it is. -/
theorem scanNumber_minus (ops : FloatOps F) {p : Parser src F} {rest : List UInt8} (htail : p.tail = p.head)
    (hdrop : src.drop p.head = ch '-' :: rest) :
    scanNumber ops p = .error .outsideToken ∨
      ∃ p', scanNumber ops p = .ok (.tokInteger, p') ∧ p'.Inside ∧ p'.head = 0 := by
  obtain ⟨head, isFloat, str, hhead, hisFloat, hle, hoff, hlen, heq⟩ :=
    scanNumber_eq ops htail (Nat.le_of_lt (lt_of_drop hdrop))
  have hnil : ((src.drop p.head).takeWhile fun c => isdigit c || c == ch '.') = [] := by
    rw [hdrop]
    rfl
  rw [hnil] at hhead hisFloat
  rw [heq, convertNumber, hisFloat, List.foldl_nil, if_neg (by decide)]
  obtain rfl : head = p.head := hhead
  by_cases hzero : p.head = 0
  · obtain ⟨n, hn⟩ := strviewToInteger_ok str (.inl (by omega))
    rw [hn]
    exact .inr ⟨_, rfl, ⟨by show p.tail ≤ p.head; omega, hle⟩, hzero⟩
  · rw [strviewToInteger_of_empty (by omega) (by omega)]
    exact .inl rfl

/-- The search for the closing quote ends at it or at the end of the text. -/
theorem closingQuote_spec {i : Nat} (before : UInt8) (hpos : 0 < i) (hi : i ≤ src.length)
    (hbefore : src[i - 1]? = some before) :
    ∃ j, closingQuote src (src.length - i) i = .ok j ∧ i ≤ j ∧ j ≤ src.length ∧
      (j < src.length ↔ closes before (src.drop i) = true) := by
  induction hn : src.length - i generalizing i before with
  | zero =>
      rw [List.drop_of_length_le (by omega)]
      exact ⟨i, rfl, Nat.le_refl _, hi, iff_of_false (by omega) (by simp [closes])⟩
  | succ n ih =>
      have hlt : i < src.length := by omega
      have hdrop := List.drop_eq_getElem_cons hlt
      generalize hc : src[i] = c at hdrop
      have hread : readAt IniFault.outsideSource src (i - 1) = .ok before := by
        rw [readAt, hbefore]
      obtain ⟨j, hj, hij, hle, hiff⟩ := ih (i := i + 1) c (Nat.succ_pos _) hlt
        (by rw [Nat.add_sub_cancel, List.getElem?_eq_getElem hlt, hc]) (by omega)
      rw [closingQuote, readAt_of_drop hdrop, hdrop, closes]
      show ∃ j, (if c = ch '"' then _ else _) = _ ∧ _
      by_cases hquote : c = ch '"'
      · rw [if_pos hquote, hread]
        show ∃ j, (if before ≠ ch '\\' then _ else _) = _ ∧ _
        by_cases hescaped : before = ch '\\'
        · rw [if_neg (not_not.mpr hescaped)]
          exact ⟨j, hj, by omega, hle, by rw [hiff, hescaped]; simp⟩
        · rw [if_pos hescaped]
          exact ⟨i, rfl, Nat.le_refl _, hi, iff_of_true hlt (by simp [hquote, hescaped])⟩
      · rw [if_neg hquote]
        exact ⟨j, hj, by omega, hle, by rw [hiff]; simp [hquote]⟩

/-- **A string** is returned when it is closed.  The message about one that is not reads
behind the file. -/
theorem scanString_spec {p : Parser src F} {rest : List UInt8} (htail : p.tail = p.head)
    (hdrop : src.drop p.head = ch '"' :: rest) :
    if closes (ch '"') rest then ∃ tok p', scanString p = .ok (tok, p') ∧ Scanned p tok p'
    else scanString p = .error .outsideSource := by
  have hlt := lt_of_drop hdrop
  obtain ⟨j, hj, hij, hle, hiff⟩ := closingQuote_spec (ch '"') (Nat.succ_pos p.head) hlt (by
    rw [Nat.succ_sub_one, ← List.head?_drop, hdrop]
    rfl)
  rw [drop_succ_of_drop hdrop] at hiff
  rw [scanString]
  show if closes (ch '"') rest then ∃ tok p', (closingQuote src _ _ >>= _) = _ ∧ _
    else (closingQuote src _ _ >>= _) = _
  rw [hj]
  by_cases hclosed : closes (ch '"') rest = true
  · have hend := hiff.mpr hclosed
    obtain ⟨str, hstr, -, -⟩ := strview_ok src (p.head + 1) (j - (p.head + 1)) (by omega)
    rw [if_pos hclosed]
    refine ⟨.tokString, { p with head := j + 1, value := { p.value with string := str } }, ?_,
      ⟨⟨?_, hend⟩, ?_, by decide, by decide⟩⟩
    · show (if j = src.length then _ else _) = _
      rw [if_neg (Nat.ne_of_lt hend)]
      show (strview src (p.head + 1) (j - (p.head + 1)) >>= _) = _
      rw [hstr]
      rfl
    · show p.tail ≤ j + 1
      omega
    · show p.head < j + 1
      omega
  · rw [if_neg hclosed]
    obtain rfl : j = src.length := by
      have hnot := mt hiff.mp hclosed
      omega
    have hmessage := printVerror_spec src p.tail (src.length - p.tail)
    rw [show p.tail + (src.length - p.tail) = src.length by omega,
      show lineEnds src src.length = false by rw [lineEnds, List.drop_length]; rfl,
      if_neg (by decide)] at hmessage
    show (if src.length = src.length then _ else _) = _
    rw [if_pos rfl, hmessage]
    rfl

/-! ## Calls of the scanner -/

/-- A token that starts where the dialect allows one is scanned. -/
theorem tokenAt_ok (ops : FloatOps F) {p : Parser src F} {c : UInt8} {rest : List UInt8} (htail : p.tail = p.head)
    (hdrop : src.drop p.head = c :: rest) (hstarts : d.starts c = true)
    (hready : d.ready (c :: rest) = true) :
    ∃ tok p', tokenAt d ops c p = .ok (tok, p') ∧ Scanned p tok p' := by
  rw [Dialect.ready, Bool.and_eq_true, bne_iff_ne] at hready
  obtain ⟨hminus, hclosed⟩ := hready
  rw [tokenAt]
  cases hspecial : d.special c with
  | some tok =>
      obtain ⟨herror, hend⟩ := d.special_ne c tok hspecial
      refine ⟨_, _, rfl, ⟨⟨?_, lt_of_drop hdrop⟩, Nat.lt_succ_self _, herror, hend⟩⟩
      show p.tail ≤ p.head + 1
      omega
  | none =>
      dsimp only
      by_cases hdigit : isdigit c = true
      · rw [if_pos (by rw [hdigit, Bool.true_or])]
        exact scanNumber_ok htail hdrop hdigit
      have hnumber : ¬(isdigit c || c == ch '-') = true := by simp [hdigit, hminus]
      rw [if_neg hnumber]
      by_cases hquote : (d.quotes && c == ch '"') = true
      · rw [hquote] at hclosed
        rw [if_pos hquote]
        rw [Bool.and_eq_true, beq_iff_eq] at hquote
        obtain ⟨-, rfl⟩ := hquote
        have hspec := scanString_spec htail hdrop
        rw [if_pos (by simpa using hclosed)] at hspec
        exact hspec
      · rw [if_neg hquote]
        rw [Dialect.starts, hspecial] at hstarts
        exact scanKey_ok htail hdrop (by simpa [hnumber, hquote] using hstarts)

/-- The rest of the file that the next call of the scanner decides on. -/
def Dialect.next (d : Dialect) (p : Parser src F) : List UInt8 :=
  d.skipped false (src.drop p.head)

/-- **A call from a ready rest** returns, and has moved `head` unless the file has ended. -/
theorem scan_ready (ops : FloatOps F) {p : Parser src F} (hp : p.Inside) (hready : d.ready (d.next p) = true) :
    ∃ tok p', scanNextToken d ops p = .ok (tok, p') ∧ p'.Inside ∧ p.head ≤ p'.head ∧
      (tok ≠ .tokEnd → p.head < p'.head) := by
  rcases scanLoop_spec (d := d) ops (n := src.length - p.head + 1) p hp.head_le
    (Nat.lt_succ_self _) with ⟨-, hok⟩ | ⟨start, c, rest, hstart, hdrop, hcons, hstarts, hok⟩
  · exact ⟨.tokEnd, p.moveTo src.length, hok, ⟨Nat.le_refl _, Nat.le_refl _⟩, hp.head_le,
      fun hne => absurd rfl hne⟩
  · rw [Dialect.next, hcons] at hready
    obtain ⟨tok, p', htoken, hscanned⟩ :=
      tokenAt_ok ops (p := p.moveTo start) rfl hdrop hstarts hready
    have hmoved : start < p'.head := hscanned.moved
    exact ⟨tok, p', hok.trans htoken, hscanned.inside, by omega, fun _ => by omega⟩

/-- **A call from another rest** stops, or has not moved `head`. -/
theorem scan_not_ready (ops : FloatOps F) {p : Parser src F} (hp : p.Inside) (hready : d.ready (d.next p) = false) :
    (∃ f, scanNextToken d ops p = .error f ∧ f.write = false) ∨
      ∃ p', scanNextToken d ops p = .ok (.tokInteger, p') ∧ p'.Inside ∧ p'.head ≤ p.head := by
  rcases scanLoop_spec (d := d) ops (n := src.length - p.head + 1) p hp.head_le
    (Nat.lt_succ_self _) with ⟨hnil, -⟩ | ⟨start, c, rest, hstart, hdrop, hcons, hstarts, hok⟩
  · rw [Dialect.next, hnil] at hready
    cases hready
  · rw [Dialect.next, hcons, Dialect.ready] at hready
    by_cases hminus : c = ch '-'
    · subst hminus
      have htoken : tokenAt d ops (ch '-') (p.moveTo start) = scanNumber ops (p.moveTo start) := by
        rw [tokenAt, d.special_minus]
        rfl
      rcases scanNumber_minus ops (p := p.moveTo start) rfl hdrop with
        herror | ⟨p', hok', hinside, hhead⟩
      · exact .inl ⟨.outsideToken, hok.trans (htoken.trans herror), rfl⟩
      · exact .inr ⟨p', hok.trans (htoken.trans hok'), hinside, by omega⟩
    · have hquote : (d.quotes && c == ch '"') = true ∧ closes c rest = false := by
        simpa [hminus] using hready
      obtain ⟨hquote, hopen⟩ := hquote
      obtain ⟨-, hc⟩ := Bool.and_eq_true_iff.mp hquote
      obtain rfl := eq_of_beq hc
      have htoken : tokenAt d ops (ch '"') (p.moveTo start) = scanString (p.moveTo start) := by
        rw [tokenAt, d.special_quote]
        show (if (isdigit (ch '"') || ch '"' == ch '-') = true then _ else _) = _
        rw [if_neg (by decide), if_pos hquote]
      have hspec := scanString_spec (p := p.moveTo start) rfl hdrop
      rw [if_neg (by rw [hopen]; decide)] at hspec
      exact .inl ⟨.outsideSource, hok.trans (htoken.trans hspec), rfl⟩

end Clither
