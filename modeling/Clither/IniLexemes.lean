import Clither.IniScan
import Clither.Lib.Decimal

/-!
# The lexemes of a text

What the scanner finds in a file can be told from the text alone: symbols, numbers and
keys, with what separates them left out.  `Lexes` is this reading of a text, for a dialect
without string literals.

The scanner agrees with it, lexeme by lexeme.  The value that it gives to a number of
digits is the number in an `int`, wrapped around as often as needed.
-/

namespace Clither

open Calls Scan

/-- A character that goes on with a number. -/
def numberChar (c : UInt8) : Bool :=
  isdigit c || c == ch '.'

inductive Lexeme where
  | symbol (tok : Token)
  | number (text : List UInt8)
  | key (text : List UInt8)
  deriving DecidableEq

namespace Dialect

variable (d : Dialect)

/-- The lexeme that begins with a character, and what is behind it. -/
def lexeme (c : UInt8) (rest : List UInt8) : Lexeme × List UInt8 :=
  match d.special c with
  | some tok => (.symbol tok, rest)
  | none =>
      if isdigit c || c == ch '-' then
        (.number ((c :: rest).takeWhile numberChar), (c :: rest).dropWhile numberChar)
      else (.key ((c :: rest).takeWhile d.keyChar), (c :: rest).dropWhile d.keyChar)

/-- The first lexeme of a text. -/
def nextLexeme (text : List UInt8) : Option (Lexeme × List UInt8) :=
  match d.skipped false text with
  | [] => none
  | c :: rest => some (d.lexeme c rest)

/-- The lexemes of a text.  One with a minus sign has none, for the scanner does not get
behind it. -/
inductive Lexes : List UInt8 → List Lexeme → Prop where
  | nil {text : List UInt8} (h : d.nextLexeme text = none) : Lexes text []
  | cons {text rest : List UInt8} {l : Lexeme} {ls : List Lexeme}
      (h : d.nextLexeme text = some (l, rest)) (tail : Lexes rest ls) : Lexes text (l :: ls)

/-- The lexemes, if they are so many at most. -/
def lexemes : Nat → List UInt8 → Option (List Lexeme)
  | 0, _ => none
  | n + 1, text =>
      match d.nextLexeme text with
      | none => some []
      | some (l, rest) => (lexemes n rest).map (l :: ·)

variable {d}

/-- What the fuelled lexer reads is the text's lexemes. -/
theorem lexes_of_lexemes {n : Nat} {text : List UInt8} {ls : List Lexeme}
    (h : d.lexemes n text = some ls) : d.Lexes text ls := by
  induction n generalizing text ls with
  | zero => cases h
  | succ n ih =>
      rw [lexemes] at h
      cases hnext : d.nextLexeme text with
      | none =>
          rw [hnext] at h
          cases h
          exact .nil hnext
      | some found =>
          rw [hnext] at h
          obtain ⟨rest, hrest, rfl⟩ := Option.map_eq_some_iff.mp h
          exact .cons hnext (ih hrest)

/-- A text with a first lexeme goes on behind it. -/
theorem lexes_cons {text : List UInt8} {l : Lexeme} {ls : List Lexeme}
    (h : d.Lexes text (l :: ls)) :
    ∃ rest, d.nextLexeme text = some (l, rest) ∧ d.Lexes rest ls := by
  cases h with
  | cons hnext htail => exact ⟨_, hnext, htail⟩

/-- Skipping leaves an end of the text. -/
theorem skipped_suffix (d : Dialect) (comment : Bool) (text : List UInt8) :
    d.skipped comment text <:+ text := by
  induction text generalizing comment with
  | nil => cases comment <;> exact List.suffix_refl _
  | cons c text ih =>
      cases comment with
      | true => exact (ih _).trans (List.suffix_cons c text)
      | false =>
          rw [skipped]
          split_ifs
          · exact (ih _).trans (List.suffix_cons c text)
          · exact List.suffix_refl _
          · exact (ih _).trans (List.suffix_cons c text)

/-- A lexeme that has characters shortens the text. -/
theorem length_nextLexeme {text rest : List UInt8} {l : Lexeme}
    (h : d.nextLexeme text = some (l, rest)) (hnumber : l ≠ .number []) (hkey : l ≠ .key []) :
    rest.length < text.length := by
  have hdrop (ok : UInt8 → Bool) (text : List UInt8) (hne : text.takeWhile ok ≠ []) :
      (text.dropWhile ok).length < text.length := by
    have hlength := congrArg List.length (List.takeWhile_append_dropWhile (p := ok) (l := text))
    have hpos := List.length_pos_iff.mpr hne
    rw [List.length_append] at hlength
    omega
  have hle := (d.skipped_suffix false text).length_le
  rw [nextLexeme] at h
  cases hskipped : d.skipped false text with
  | nil =>
      rw [hskipped] at h
      cases h
  | cons c tail =>
      rw [hskipped] at h hle
      obtain hlexeme := Option.some.inj h
      rw [lexeme] at hlexeme
      cases hspecial : d.special c with
      | some tok =>
          rw [hspecial] at hlexeme
          cases hlexeme
          exact hle
      | none =>
          rw [hspecial] at hlexeme
          dsimp only at hlexeme
          split_ifs at hlexeme
          · cases hlexeme
            exact Nat.lt_of_lt_of_le (hdrop _ _ fun hnil => hnumber (congrArg _ hnil)) hle
          · cases hlexeme
            exact Nat.lt_of_lt_of_le (hdrop _ _ fun hnil => hkey (congrArg _ hnil)) hle

end Dialect

/-! ## Numbers -/

/-- The code's digit is the decimal digit. -/
theorem digitOf_eq {c : UInt8} (h : isdigit c = true) : digitOf c = Decimal.digit c := by
  have hc := of_decide_eq_true h
  have hlow := UInt8.le_iff_toNat_le.mp hc.1
  have hhigh := UInt8.le_iff_toNat_le.mp hc.2
  have h48 : (ch '0').toNat = 48 := rfl
  have h57 : (ch '9').toNat = 57 := rfl
  rw [digitOf, wrapInt_of_lt (by decide) (by omega) (by omega), Decimal.digit]
  omega

/-- Wrapping at each digit is wrapping once at the end. -/
theorem wrapInt_step (v : Int) (w : Int) : wrapInt 32 (wrapInt 32 v * 10 + w) = wrapInt 32 (v * 10 + w) := by
  unfold wrapInt
  rw [← Int.bmod_add_bmod, Int.bmod_mul_bmod, Int.bmod_add_bmod]

variable {src : List UInt8} {F : Type} {d : Dialect} {ops : FloatOps F}

/-- A read finds the byte the text has there. -/
theorem StrView.read_of_drop {str : StrView src} {i : Nat} {c : UInt8} {rest : List UInt8}
    (h0 : str.off ≤ i) (h : i < str.off + str.len) (hdrop : src.drop i = c :: rest) :
    str.read i = .ok c := by
  rw [StrView.read, if_pos ⟨h0, h⟩, readAt_of_drop hdrop]

/-- The digit loop reads the number its digits write, modulo 2³². -/
theorem toIntegerLoop_digits (str : StrView src) {text : List UInt8} {n i : Nat}
    (h0 : str.off ≤ i) (h : i ≤ str.off + str.len) (hn : text.length < n)
    (htext : (src.drop i).take (str.off + str.len - i) = text)
    (hdigits : ∀ c ∈ text, isdigit c = true) (v : Nat) :
    toIntegerLoop str n i (wrapInt 32 v) =
      .ok (wrapInt 32 (text.foldl (fun v c => v * 10 + Decimal.digit c) v : Nat)) := by
  have hin := str.inside
  have hlen := congrArg List.length htext
  rw [List.length_take, List.length_drop] at hlen
  induction text generalizing i n v with
  | nil =>
      obtain ⟨n, rfl⟩ := Nat.exists_eq_succ_of_ne_zero (by omega : n ≠ 0)
      rw [List.length_nil] at hlen
      rw [toIntegerLoop, if_pos (by omega)]
      rfl
  | cons c text ih =>
      obtain ⟨n, rfl⟩ := Nat.exists_eq_succ_of_ne_zero (by omega : n ≠ 0)
      rw [List.length_cons] at hlen hn
      have hlt : i < src.length := by omega
      have hdrop := List.drop_eq_getElem_cons hlt
      obtain ⟨k, hk⟩ : ∃ k, str.off + str.len - i = k + 1 := ⟨_, (Nat.succ_pred (by omega)).symm⟩
      rw [hdrop, hk, List.take_succ_cons] at htext
      obtain ⟨rfl, htail⟩ := List.cons.inj htext
      rw [toIntegerLoop, if_neg (by omega), StrView.read_of_drop h0 (by omega) hdrop]
      show toIntegerLoop str n (i + 1) (wrapInt 32 (wrapInt 32 v * 10 + digitOf src[i])) = _
      rw [digitOf_eq (hdigits _ List.mem_cons_self), wrapInt_step]
      have hrest := ih (n := n) (i := i + 1) (by omega) (by omega) (by omega)
        (by rw [← htail, show str.off + str.len - (i + 1) = k by omega])
        (fun c hc => hdigits c (List.mem_cons_of_mem _ hc)) (v * 10 + Decimal.digit src[i])
        (by omega)
      push_cast at hrest
      exact hrest

/-- **The converter of integers** wraps the number around. -/
theorem strviewToInteger_digits {str : StrView src} (hne : str.bytes ≠ [])
    (hdigits : ∀ c ∈ str.bytes, isdigit c = true) :
    strviewToInteger str = .ok (wrapInt 32 (Decimal.value str.bytes)) := by
  have hin := str.inside
  have hlen : str.bytes.length = str.len := by
    rw [StrView.bytes, List.length_take, List.length_drop]
    omega
  have hpos := List.length_pos_iff.mpr hne
  have hlt : str.off < src.length := by omega
  have hdrop := List.drop_eq_getElem_cons hlt
  have hfirst : isdigit src[str.off] = true := by
    refine hdigits _ ?_
    rw [StrView.bytes, hdrop, ← Nat.succ_pred (by omega : str.len ≠ 0), List.take_succ_cons]
    exact List.mem_cons_self
  have hsign : signOf str = .ok (str.off, 1) := by
    rw [signOf]
    by_cases hoff : 0 < str.off
    · rw [if_pos hoff, StrView.read_of_drop (Nat.le_refl _) (by omega) hdrop]
      show (if src[str.off] = ch '-' then _ else _) = _
      rw [if_neg]
      intro hminus
      rw [hminus] at hfirst
      exact absurd hfirst (by decide)
    · rw [if_neg hoff]
  rw [strviewToInteger, hsign]
  show (toIntegerLoop str (str.len + 1) str.off (wrapInt 32 ((0 : Nat) : Int)) >>= _) = _
  rw [toIntegerLoop_digits str (Nat.le_refl _) (by omega)
    (show str.bytes.length < str.len + 1 by omega) (by rw [StrView.bytes]; congr 1; omega)
    hdigits 0]
  show Except.ok (wrapInt 32 (1 * wrapInt 32 _)) = _
  rw [Int.one_mul]
  exact congrArg Except.ok Int.bmod_bmod

/-! ## What a call of the scanner finds -/

/-- The bytes of the last token. -/
def Parser.token (p : Parser src F) : List UInt8 :=
  (src.drop p.tail).take (p.head - p.tail)

/-- The token that the scanner returns for a lexeme, and what it stores. -/
def Found : Lexeme → Token → Parser src F → Prop
  | .symbol t, tok, _ => tok = t
  | .number text, tok, p =>
      tok = .tokFloat ∧ ch '.' ∈ text ∨ tok = .tokInteger ∧ (∀ c ∈ text, isdigit c = true) ∧
        p.value.integerLiteral = wrapInt 32 (Decimal.value text) ∧ p.token = text
  | .key text, tok, p => tok = .tokKey ∧ p.value.string.bytes = text

/-- The scanner is behind the lexeme. -/
structure Behind (rest : List UInt8) (p' : Parser src F) : Prop where
  inside : p'.Inside
  drop : src.drop p'.head = rest

/-- Taking as many as a prefix has takes the prefix. -/
theorem take_takeWhile (ok : UInt8 → Bool) (text : List UInt8) :
    text.take (text.takeWhile ok).length = text.takeWhile ok :=
  (List.prefix_iff_eq_take.mp (List.takeWhile_prefix ok)).symm

/-- The scan notices a point exactly when there is one. -/
theorem foldl_point (text : List UInt8) (isFloat : Bool) :
    text.foldl (fun isFloat c => isFloat || c == ch '.') isFloat =
      (isFloat || text.any (· == ch '.')) := by
  induction text generalizing isFloat with
  | nil => simp
  | cons c text ih => rw [List.foldl_cons, ih, List.any_cons, Bool.or_assoc]

/-- A number without a point is a text of digits. -/
theorem isdigit_of_takeWhile {text : List UInt8}
    (h : (text.takeWhile numberChar).any (· == ch '.') = false) {c : UInt8}
    (hc : c ∈ text.takeWhile numberChar) : isdigit c = true := by
  have hpoint := List.any_eq_false.mp h c hc
  have hnumber := List.mem_takeWhile_imp hc
  simpa [numberChar, hpoint] using hnumber

/-- **A number** is found, or its token is empty and its conversion leaves it. -/
theorem scanNumber_finds (ops : FloatOps F) {p : Parser src F} {c : UInt8} {rest : List UInt8}
    (htail : p.tail = p.head) (hdrop : src.drop p.head = c :: rest) :
    (scanNumber ops p = .error .outsideToken ∧ (c :: rest).takeWhile numberChar = []) ∨
      ∃ tok p', scanNumber ops p = .ok (tok, p') ∧
        Found (.number ((c :: rest).takeWhile numberChar)) tok p' ∧
        Behind ((c :: rest).dropWhile numberChar) p' ∧
        ((c :: rest).takeWhile numberChar = [] → p.head = 0) := by
  have hlt := lt_of_drop hdrop
  obtain ⟨head, isFloat, str, hhead, hisFloat, hle, hoff, hlen, heq⟩ :=
    scanNumber_eq ops htail (Nat.le_of_lt hlt)
  change head = p.head + ((src.drop p.head).takeWhile numberChar).length at hhead
  change isFloat = ((src.drop p.head).takeWhile numberChar).foldl _ false at hisFloat
  rw [foldl_point, Bool.false_or] at hisFloat
  have hbehind (value : Value src F) :
      Behind ((c :: rest).dropWhile numberChar) { p with head := head, value := value } := by
    refine ⟨⟨by show p.tail ≤ head; omega, hle⟩, ?_⟩
    show src.drop head = _
    rw [hhead, drop_takeWhile, hdrop]
  have hbytes : str.bytes = (src.drop p.head).takeWhile numberChar := by
    rw [StrView.bytes, hoff, show str.len = ((src.drop p.head).takeWhile numberChar).length by omega,
      take_takeWhile]
  have htoken (value : Value src F) :
      ({ p with head := head, value := value } : Parser src F).token =
        (src.drop p.head).takeWhile numberChar := by
    show (src.drop p.tail).take (head - p.tail) = _
    rw [← hbytes, StrView.bytes, hoff, hlen, htail]
  rw [hdrop] at hhead hisFloat hbytes htoken
  rw [heq, convertNumber]
  generalize htext : (c :: rest).takeWhile numberChar = text at hhead hisFloat hbytes htoken ⊢
  by_cases hempty : text = []
  · subst hempty
    rw [List.length_nil, Nat.add_zero] at hhead
    rw [hisFloat, List.any_nil, if_neg (by decide)]
    by_cases hzero : p.head = 0
    · have hconvert : strviewToInteger str = .ok 0 := by
        rw [strviewToInteger, signOf, if_neg (by omega)]
        show (toIntegerLoop str (str.len + 1) str.off 0 >>= _) = _
        rw [toIntegerLoop, if_pos (by omega)]
        rfl
      rw [hconvert]
      exact .inr ⟨_, _, rfl, .inr ⟨rfl, by simp, rfl, htoken _⟩, hbehind _, fun _ => hzero⟩
    · rw [strviewToInteger_of_empty (by omega) (by omega)]
      exact .inl ⟨rfl, rfl⟩
  · have hpos : 0 < str.len := by
      have := List.length_pos_iff.mpr hempty
      omega
    refine .inr ?_
    by_cases hpoint : text.any (· == ch '.') = true
    · obtain ⟨x, hx⟩ := strviewToFloat_ok ops str (.inr hpos)
      rw [hisFloat, if_pos hpoint, hx]
      exact ⟨_, _, rfl, .inl ⟨rfl, by simpa using hpoint⟩, hbehind _, fun h => absurd h hempty⟩
    · rw [hisFloat, if_neg hpoint]
      have hdigits : ∀ c ∈ text, isdigit c = true := by
        rw [← htext] at hpoint ⊢
        exact fun c hc => isdigit_of_takeWhile (Bool.eq_false_of_not_eq_true hpoint) hc
      rw [strviewToInteger_digits (by rw [hbytes]; exact hempty) (by rw [hbytes]; exact hdigits)]
      exact ⟨_, _, rfl, .inr ⟨rfl, hdigits, by rw [hbytes], htoken _⟩, hbehind _,
        fun h => absurd h hempty⟩

/-- A key is scanned up to the first byte that cannot stand in one. -/
theorem scanKey_finds {p : Parser src F} {c : UInt8} {rest : List UInt8} (htail : p.tail = p.head)
    (hdrop : src.drop p.head = c :: rest) :
    ∃ p', scanKey d p = .ok (.tokKey, p') ∧
      p'.value.string.bytes = (c :: rest).takeWhile d.keyChar ∧
      Behind ((c :: rest).dropWhile d.keyChar) p' := by
  have hle := length_takeWhile_drop d.keyChar (Nat.le_of_lt (lt_of_drop hdrop))
  have hbehind := drop_takeWhile d.keyChar src p.head
  rw [scanKey, scanWhile_eq _ _ (Nat.le_of_lt (lt_of_drop hdrop))]
  rw [hdrop] at hle hbehind ⊢
  obtain ⟨str, hstr, hoff, hlen⟩ := strview_ok src p.tail
    (p.head + ((c :: rest).takeWhile d.keyChar).length - p.tail) (by omega)
  refine ⟨{ p with
      head := p.head + ((c :: rest).takeWhile d.keyChar).length
      value := { p.value with string := str } }, ?_, ?_, ⟨?_, hle⟩, hbehind⟩
  · show (strview src p.tail _ >>= _) = _
    rw [hstr]
    rfl
  · show str.bytes = _
    rw [StrView.bytes, hoff, htail, hdrop, show str.len = ((c :: rest).takeWhile d.keyChar).length by
      omega, take_takeWhile]
  · show p.tail ≤ p.head + _
    omega

/-- **A call of the scanner** finds the first lexeme of the text that is left.  It does not
return for a minus sign, except at the begin of the file. -/
theorem scan_finds (ops : FloatOps F) (hquotes : d.quotes = false) {p : Parser src F}
    (hp : p.Inside) :
    match d.nextLexeme (src.drop p.head) with
    | none => scanNextToken d ops p = .ok (.tokEnd, p.moveTo src.length)
    | some (l, rest) =>
        (scanNextToken d ops p = .error .outsideToken ∧ l = .number []) ∨
          ∃ tok p', scanNextToken d ops p = .ok (tok, p') ∧ Found l tok p' ∧ Behind rest p' ∧
            (l = .number [] → p.head = 0) := by
  rcases scanLoop_spec (d := d) ops (n := src.length - p.head + 1) p hp.head_le
    (Nat.lt_succ_self _) with ⟨hnil, hok⟩ | ⟨start, c, rest, hstart, hdrop, hcons, hstarts, hok⟩
  · rw [Dialect.nextLexeme, hnil]
    exact hok
  · rw [Dialect.nextLexeme, hcons]
    dsimp only
    rw [show scanNextToken d ops p = tokenAt d ops c (p.moveTo start) from hok, tokenAt,
      Dialect.lexeme]
    cases hspecial : d.special c with
    | some tok =>
        refine .inr ⟨tok, _, rfl, rfl, ⟨⟨?_, lt_of_drop hdrop⟩, drop_succ_of_drop hdrop⟩,
          fun h => by cases h⟩
        show start ≤ start + 1
        omega
    | none =>
        dsimp only
        by_cases hnumber : (isdigit c || c == ch '-') = true
        · rw [if_pos hnumber, if_pos hnumber]
          rcases scanNumber_finds ops (p := p.moveTo start) rfl hdrop with
            ⟨herror, hempty⟩ | ⟨tok, p', hok', hfound, hbehind, hempty⟩
          · exact .inl ⟨herror, congrArg _ hempty⟩
          · refine .inr ⟨tok, p', hok', hfound, hbehind, fun h => ?_⟩
            have hzero : start = 0 := hempty (Lexeme.number.inj h)
            omega
        · rw [if_neg hnumber, if_neg hnumber, hquotes, Bool.false_and, if_neg (by decide)]
          obtain ⟨p', hok', hbytes, hbehind⟩ := scanKey_finds (d := d) (p := p.moveTo start) rfl hdrop
          exact .inr ⟨.tokKey, p', hok', ⟨rfl, hbytes⟩, hbehind, fun h => by cases h⟩

/-- The scanner finds the next lexeme where there is one. -/
theorem scan_of_nextLexeme (ops : FloatOps F) (hquotes : d.quotes = false) {p : Parser src F}
    (hp : p.Inside) {l : Lexeme} {rest : List UInt8}
    (h : d.nextLexeme (src.drop p.head) = some (l, rest)) (hl : l ≠ .number []) :
    ∃ tok p', scanNextToken d ops p = .ok (tok, p') ∧ Found l tok p' ∧ Behind rest p' := by
  have hfinds := scan_finds ops hquotes hp
  rw [h] at hfinds
  rcases hfinds with ⟨-, hempty⟩ | ⟨tok, p', hok, hfound, hbehind, -⟩
  · exact absurd hempty hl
  · exact ⟨tok, p', hok, hfound, hbehind⟩

/-- What the scanner finds is the next lexeme. -/
theorem nextLexeme_of_scan (hquotes : d.quotes = false) {p p' : Parser src F} (hp : p.Inside)
    {tok : Token} (h : scanNextToken d ops p = .ok (tok, p')) :
    (tok = .tokEnd ∧ d.nextLexeme (src.drop p.head) = none) ∨
      ∃ l rest, d.nextLexeme (src.drop p.head) = some (l, rest) ∧ Found l tok p' ∧
        Behind rest p' ∧ (l = .number [] → p.head = 0) := by
  have hfinds := scan_finds ops hquotes hp
  cases hnext : d.nextLexeme (src.drop p.head) with
  | none =>
      rw [hnext] at hfinds
      cases h.symm.trans hfinds
      exact .inl ⟨rfl, rfl⟩
  | some found =>
      rw [hnext] at hfinds
      rcases hfinds with ⟨herror, -⟩ | ⟨tok', p'', hok, hfound, hbehind, hempty⟩
      · cases h.symm.trans herror
      · cases h.symm.trans hok
        exact .inr ⟨found.1, found.2, rfl, hfound, hbehind, hempty⟩

end Clither
