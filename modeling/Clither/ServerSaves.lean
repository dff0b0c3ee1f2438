import Clither.ServerLoads

/-!
# Saving the settings and loading them again

`server_settings_save` writes one line for each field, with a comment behind the value and,
for the port, quotes around it.  The scanner ignores the quotes and skips the comments, so
that the file has the lexemes of seven assignments.
-/

namespace Clither

open Calls Ini

variable {F : Type}

/-! ## The file that is written -/

/-- `%d` for a field. -/
def decimal (n : Nat) : List UInt8 :=
  Decimal.numeral n

/-- `%s` for the port. -/
def Settings.portText (s : Settings) : List UInt8 :=
  s.port.takeWhile (· != 0)

/-- `fprintf` with one value. -/
def fprintf (before : String) (value : List UInt8) (after : String) : List UInt8 :=
  textOf before ++ value ++ textOf after

def savedText (s : Settings) : List UInt8 :=
  textOf "[server]\n" ++
    [fprintf "max_players = " (decimal s.maxPlayers.toNat)
        "     ; Total number of clients allowed to join the server\n",
      fprintf "max_username_len = " (decimal s.maxUsernameLen.toNat)
        " ; Limits the user name length\n",
      fprintf "sim_tick_rate = " (decimal s.simTickRate.toNat)
        "    ; Simulation speed in Hz\n",
      fprintf "net_tick_rate = " (decimal s.netTickRate.toNat)
        "    ; Network update speed in Hz. Should be smaller or equal to simulation speed\n",
      fprintf "client_timeout = " (decimal s.clientTimeout.toNat)
        "    ; How many seconds to wait for a client before disconnecting them\n",
      fprintf "malicious_timeout = " (decimal s.maliciousTimeout.toNat)
        " ; How many seconds to keep a client on the malicious list\n",
      fprintf "port = \"" s.portText "\"         ; Port to bind server to\n"].flatten

/-- `server_settings_save`, with what it writes.  `opened` says whether the file could be
opened. -/
def serverSettingsSave (s : Settings) (filename : String) (opened : Bool) : Option (List UInt8) :=
  if filename.isEmpty then none
  else if opened then some (savedText s)
  else none

/-! ## Its lexemes -/

namespace Dialect

variable {d : Dialect}

/-- A character that is skipped on its own. -/
def ignores (d : Dialect) (c : UInt8) : Bool :=
  !isComment c && !d.starts c

/-- Ignored bytes are skipped. -/
theorem nextLexeme_ignored {ignored : List UInt8} (h : ∀ c ∈ ignored, d.ignores c = true)
    (text : List UInt8) : d.nextLexeme (ignored ++ text) = d.nextLexeme text := by
  induction ignored with
  | nil => rfl
  | cons c ignored ih =>
      obtain ⟨hcomment, hstarts⟩ := Bool.and_eq_true_iff.mp (h c List.mem_cons_self)
      rw [Bool.not_eq_true'] at hcomment hstarts
      rw [← ih fun c hc => h c (List.mem_cons_of_mem _ hc)]
      rw [List.cons_append, nextLexeme, nextLexeme, skipped, hcomment, hstarts]
      rfl

/-- A comment line is skipped. -/
theorem nextLexeme_comment {comment : List UInt8} (h : ∀ c ∈ comment, c ≠ ch '\n')
    (text : List UInt8) :
    d.nextLexeme (ch ';' :: (comment ++ ch '\n' :: text)) = d.nextLexeme text := by
  have hline : (comment ++ ch '\n' :: text).dropWhile (fun c => c != ch '\n') = ch '\n' :: text := by
    rw [List.dropWhile_append_of_pos (by simpa using h), List.dropWhile_cons, if_neg (by decide)]
  rw [nextLexeme, nextLexeme, skipped, if_pos (by decide), skipped_comment, hline, List.tail_cons]

/-- A symbol is its byte. -/
theorem nextLexeme_symbol {c : UInt8} {tok : Token} (hcomment : isComment c = false)
    (h : d.special c = some tok) (rest : List UInt8) :
    d.nextLexeme (c :: rest) = some (.symbol tok, rest) := by
  have hstarts : d.starts c = true := by rw [starts, h]; rfl
  rw [nextLexeme, skipped, hcomment, if_neg (by decide), if_pos hstarts]
  dsimp only
  rw [lexeme, h]

/-- A word ends at the first byte that cannot stand in it. -/
theorem takeWhile_word {ok : UInt8 → Bool} {word : List UInt8} (h : ∀ c ∈ word, ok c = true)
    {stop : UInt8} (hstop : ok stop = false) (rest : List UInt8) :
    (word ++ stop :: rest).takeWhile ok = word ∧
      (word ++ stop :: rest).dropWhile ok = stop :: rest := by
  rw [List.takeWhile_append_of_pos h, List.dropWhile_append_of_pos h, List.takeWhile_cons,
    List.dropWhile_cons, hstop]
  exact ⟨List.append_nil _, rfl⟩

/-- A word that is not a symbol, up to the character that ends it. -/
theorem nextLexeme_number {word : List UInt8} (hne : word ≠ [])
    (h : ∀ c ∈ word, isdigit c = true) (hspecial : ∀ c, isdigit c = true → d.special c = none)
    {stop : UInt8} (hstop : numberChar stop = false) (rest : List UInt8) :
    d.nextLexeme (word ++ stop :: rest) = some (.number word, stop :: rest) := by
  have hnumber : ∀ c ∈ word, numberChar c = true :=
    fun c hc => by rw [numberChar, h c hc, Bool.true_or]
  obtain ⟨htake, hdrop⟩ := takeWhile_word hnumber hstop rest
  obtain ⟨c, tail, rfl⟩ := List.exists_cons_of_ne_nil hne
  have hc := h c List.mem_cons_self
  have hcomment : isComment c = false := by
    have hrange := of_decide_eq_true hc
    rw [isComment, Bool.or_eq_false_iff, beq_eq_false_iff_ne, beq_eq_false_iff_ne]
    constructor <;> rintro rfl <;> revert hrange <;> decide
  have hstarts : d.starts c = true := by rw [starts, hc]; simp
  rw [List.cons_append] at htake hdrop ⊢
  rw [nextLexeme, skipped, hcomment, if_neg (by decide), if_pos hstarts]
  dsimp only
  rw [lexeme, hspecial c hc]
  dsimp only
  rw [if_pos (by rw [hc, Bool.true_or]), htake, hdrop]

/-- A key is read up to the byte behind it. -/
theorem nextLexeme_key {first : UInt8} {word : List UInt8} (hfirst : isalpha first = true)
    (hcomment : isComment first = false) (hspecial : d.special first = none)
    (hnumber : (isdigit first || first == ch '-') = false)
    (h : ∀ c ∈ first :: word, d.keyChar c = true) {stop : UInt8} (hstop : d.keyChar stop = false)
    (rest : List UInt8) :
    d.nextLexeme (first :: word ++ stop :: rest) = some (.key (first :: word), stop :: rest) := by
  obtain ⟨htake, hdrop⟩ := takeWhile_word h hstop rest
  have hstarts : d.starts first = true := by rw [starts, hfirst]; simp
  rw [List.cons_append] at htake hdrop ⊢
  rw [nextLexeme, skipped, hcomment, if_neg (by decide), if_pos hstarts]
  dsimp only
  rw [lexeme, hspecial]
  dsimp only
  rw [if_neg (by rw [hnumber]; decide), htake, hdrop]

end Dialect

/-! ## Lines -/

/-- **A line of the file**: the key, the equals sign and the value, with characters between
them that the scanner ignores, and a comment. -/
theorem lexes_line (k : ServerKey) {before after : String} {quote gap comment : List UInt8}
    {stop : UInt8} (hbefore : textOf before = k.text ++ ch ' ' :: ch '=' :: quote)
    (hquote : ∀ c ∈ quote, serverDialect.ignores c = true)
    (hafter : textOf after = stop :: gap ++ ch ';' :: (comment ++ [ch '\n']))
    (hstop : numberChar stop = false) (hgap : ∀ c ∈ stop :: gap, serverDialect.ignores c = true)
    (hcomment : ∀ c ∈ comment, c ≠ ch '\n') {value : List UInt8} (hne : value ≠ [])
    (hdigits : ∀ c ∈ value, isdigit c = true) {rest : List UInt8} {ls : List Lexeme}
    (hrest : serverDialect.Lexes rest ls) :
    serverDialect.Lexes (fprintf before value after ++ rest)
      (Assignment.lexemes ⟨k, value⟩ ++ ls) := by
  have htext : fprintf before value after ++ rest =
      k.text ++ ch ' ' :: (ch '=' :: (quote ++ (value ++ stop :: (gap ++ ch ';' ::
        (comment ++ ch '\n' :: rest))))) := by
    simp [fprintf, hbefore, hafter]
  have hkey (tail : List UInt8) :
      serverDialect.nextLexeme (k.text ++ ch ' ' :: tail) = some (.key k.text, ch ' ' :: tail) := by
    have hfirst : ∃ first word, k.text = first :: word ∧ isalpha first = true ∧
        isComment first = false ∧ serverDialect.special first = none ∧
        (isdigit first || first == ch '-') = false := by
      rcases k with k | _
      · cases k <;> exact ⟨_, _, rfl, by decide, by decide, by decide, by decide⟩
      · exact ⟨_, _, rfl, by decide, by decide, by decide, by decide⟩
    have hword : ∀ c ∈ k.text, serverDialect.keyChar c = true := by
      rcases k with k | _
      · cases k <;> decide +kernel
      · decide +kernel
    obtain ⟨first, word, htext, halpha, hsemicolon, hspecial, hnumber⟩ := hfirst
    rw [htext] at hword ⊢
    exact Dialect.nextLexeme_key halpha hsemicolon hspecial hnumber hword (by decide) tail
  have hblank : serverDialect.ignores (ch ' ') = true := by decide
  have hspace (tail : List UInt8) :
      serverDialect.nextLexeme (ch ' ' :: ch '=' :: tail) = some (.symbol .tokEquals, tail) := by
    refine (Dialect.nextLexeme_ignored (List.forall_mem_singleton.mpr hblank) _).trans ?_
    exact Dialect.nextLexeme_symbol (by decide) (by decide) tail
  have hspecial (c : UInt8) (hc : isdigit c = true) : serverDialect.special c = none := by
    have hrange := of_decide_eq_true hc
    show serverSpecial c = none
    unfold serverSpecial
    rw [if_neg, if_neg, if_neg] <;> rintro rfl <;> revert hrange <;> decide
  have hnumber (tail : List UInt8) :
      serverDialect.nextLexeme (quote ++ (value ++ stop :: tail)) =
        some (.number value, stop :: tail) :=
    (Dialect.nextLexeme_ignored hquote _).trans
      (Dialect.nextLexeme_number hne hdigits hspecial hstop tail)
  have hcommented : serverDialect.nextLexeme (stop :: (gap ++ ch ';' ::
      (comment ++ ch '\n' :: rest))) = serverDialect.nextLexeme rest :=
    (Dialect.nextLexeme_ignored hgap _).trans (Dialect.nextLexeme_comment hcomment rest)
  rw [htext]
  refine .cons (hkey _) (.cons (hspace _) (.cons (hnumber _) ?_))
  cases hrest with
  | nil hnone => exact .nil (hcommented.trans hnone)
  | cons hnext htail => exact .cons (hcommented.trans hnext) htail

/-- The comment of a line, when so many blanks stand between the value and its semicolon. -/
def commentOf (blanks : Nat) (after : String) : List UInt8 :=
  ((textOf after).drop (blanks + 1)).dropLast

/-- A line with a number is read as its assignment. -/
theorem lexes_decimal (k : ServerKey) (blanks : Nat) {before after : String}
    (hbefore : textOf before = k.text ++ [ch ' ', ch '=', ch ' '])
    (hafter : textOf after =
      List.replicate blanks (ch ' ') ++ ch ';' :: (commentOf blanks after ++ [ch '\n']))
    (hblanks : blanks ≠ 0) (hcomment : ∀ c ∈ commentOf blanks after, c ≠ ch '\n') (n : Nat)
    {rest : List UInt8} {ls : List Lexeme} (hrest : serverDialect.Lexes rest ls) :
    serverDialect.Lexes (fprintf before (decimal n) after ++ rest)
      (Assignment.lexemes ⟨k, decimal n⟩ ++ ls) := by
  obtain ⟨blanks, rfl⟩ := Nat.exists_eq_succ_of_ne_zero hblanks
  rw [List.replicate_succ] at hafter
  have hquote : ∀ c ∈ [ch ' '], serverDialect.ignores c = true :=
    List.forall_mem_singleton.mpr (by decide)
  refine lexes_line k hbefore hquote hafter (by decide) ?_ hcomment
    (Decimal.numeral_ne_nil n) (fun c hc => Decimal.isDigit_of_mem_numeral hc) hrest
  intro c hc
  rw [← List.replicate_succ] at hc
  rw [List.eq_of_mem_replicate hc]
  decide

/-- What the file assigns. -/
def savedAssignments (s : Settings) : List Assignment :=
  [⟨.number .maxPlayers, decimal s.maxPlayers.toNat⟩,
    ⟨.number .maxUsernameLen, decimal s.maxUsernameLen.toNat⟩,
    ⟨.number .simTickRate, decimal s.simTickRate.toNat⟩,
    ⟨.number .netTickRate, decimal s.netTickRate.toNat⟩,
    ⟨.number .clientTimeout, decimal s.clientTimeout.toNat⟩,
    ⟨.number .maliciousTimeout, decimal s.maliciousTimeout.toNat⟩,
    ⟨.port, s.portText⟩]

/-- A port of one to five decimal digits. -/
structure PortValid (s : Settings) : Prop where
  length_pos : 0 < s.portText.length
  length_le : s.portText.length ≤ 5
  digits : ∀ c ∈ s.portText, isdigit c = true
  value_le : Decimal.value s.portText ≤ 65535

/-- The section line is read as the header. -/
theorem lexes_header {rest : List UInt8} {ls : List Lexeme} (h : serverDialect.Lexes rest ls) :
    serverDialect.Lexes (textOf "[server]\n" ++ rest) (header ++ ls) := by
  have htext : textOf "[server]\n" ++ rest =
      ch '[' :: (textOf "server" ++ ch ']' :: (ch '\n' :: rest)) := by
    have hclosed : textOf "[server]\n" = ch '[' :: (textOf "server" ++ [ch ']', ch '\n']) := by
      decide +kernel
    rw [hclosed]
    simp
  have hnewline : serverDialect.nextLexeme (ch '\n' :: rest) = serverDialect.nextLexeme rest :=
    Dialect.nextLexeme_ignored
      (List.forall_mem_singleton.mpr (show serverDialect.ignores (ch '\n') = true by decide)) rest
  have hserver : serverDialect.nextLexeme (textOf "server" ++ ch ']' :: (ch '\n' :: rest)) =
      some (.key (textOf "server"), ch ']' :: (ch '\n' :: rest)) := by
    have hword : textOf "server" = ch 's' :: textOf "erver" := by decide +kernel
    rw [hword]
    exact Dialect.nextLexeme_key (by decide) (by decide) (by decide) (by decide)
      (by decide +kernel) (by decide) _
  rw [htext]
  refine .cons (Dialect.nextLexeme_symbol (by decide) (by decide) _)
    (.cons hserver (.cons (Dialect.nextLexeme_symbol (by decide) (by decide) _) ?_))
  cases h with
  | nil hnone => exact .nil (hnewline.trans hnone)
  | cons hnext htail => exact .cons (hnewline.trans hnext) htail

/-- The saved file is read as its header and its assignments. -/
theorem lexes_savedText {s : Settings} (h : PortValid s) :
    serverDialect.Lexes (savedText s)
      (header ++ (savedAssignments s).flatMap Assignment.lexemes) := by
  simp only [savedText, savedAssignments, List.flatten_cons, List.flatten_nil, List.flatMap_cons,
    List.flatMap_nil]
  refine lexes_header ?_
  refine lexes_decimal (.number .maxPlayers) 5 (by decide +kernel) (by decide +kernel)
    (by decide) (by decide +kernel) _ ?_
  refine lexes_decimal (.number .maxUsernameLen) 1 (by decide +kernel) (by decide +kernel)
    (by decide) (by decide +kernel) _ ?_
  refine lexes_decimal (.number .simTickRate) 4 (by decide +kernel) (by decide +kernel)
    (by decide) (by decide +kernel) _ ?_
  refine lexes_decimal (.number .netTickRate) 4 (by decide +kernel) (by decide +kernel)
    (by decide) (by decide +kernel) _ ?_
  refine lexes_decimal (.number .clientTimeout) 4 (by decide +kernel) (by decide +kernel)
    (by decide) (by decide +kernel) _ ?_
  refine lexes_decimal (.number .maliciousTimeout) 1 (by decide +kernel) (by decide +kernel)
    (by decide) (by decide +kernel) _ ?_
  have hafter : textOf "\"         ; Port to bind server to\n" =
      ch '"' :: textOf "         " ++ ch ';' :: (textOf " Port to bind server to" ++ [ch '\n']) := by
    decide +kernel
  have hbefore : textOf "port = \"" = ServerKey.port.text ++ ch ' ' :: ch '=' :: textOf " \"" := by
    decide +kernel
  exact lexes_line .port hbefore (by decide +kernel) hafter (by decide) (by decide +kernel)
    (by decide +kernel) (List.length_pos_iff.mp h.length_pos) h.digits (.nil rfl)

/-- Every field is in the range of its key, for the record carries it. -/
theorem number_in_range (s : ServerSettings) (k : NumberKey) :
    k.low ≤ s.number k ∧ (s.number k : Int) ≤ k.high := by
  have hpos16 {n : UInt16} (h : n ≠ 0) : 1 ≤ n.toNat :=
    Nat.one_le_iff_ne_zero.mpr fun h0 => h (UInt16.toNat_inj.mp h0)
  have hpos8 {n : UInt8} (h : n ≠ 0) : 1 ≤ n.toNat :=
    Nat.one_le_iff_ne_zero.mpr fun h0 => h (UInt8.toNat_inj.mp h0)
  have hlt16 (n : UInt16) : n.toNat < 65536 := n.toNat_lt
  have hlt8 (n : UInt8) : n.toNat < 256 := n.toNat_lt
  cases k with
  | maxPlayers =>
      have := hpos16 s.maxPlayers_pos
      have := hlt16 s.maxPlayers
      show 1 ≤ (s.maxPlayers.toNat : Int) ∧ (s.maxPlayers.toNat : Int) ≤ 0xFFFF
      omega
  | maxUsernameLen =>
      have := hpos8 s.maxUsernameLen_pos
      have := hlt8 s.maxUsernameLen
      show 1 ≤ (s.maxUsernameLen.toNat : Int) ∧ (s.maxUsernameLen.toNat : Int) ≤ 255
      omega
  | simTickRate =>
      have := hpos8 s.simTickRate_pos
      have := hlt8 s.simTickRate
      show 1 ≤ (s.simTickRate.toNat : Int) ∧ (s.simTickRate.toNat : Int) ≤ 255
      omega
  | netTickRate =>
      have := hpos8 s.netTickRate_pos
      have := hlt8 s.netTickRate
      show 1 ≤ (s.netTickRate.toNat : Int) ∧ (s.netTickRate.toNat : Int) ≤ 255
      omega
  | clientTimeout =>
      have := hlt16 s.clientTimeout
      show 0 ≤ (s.clientTimeout.toNat : Int) ∧ (s.clientTimeout.toNat : Int) ≤ 0xFFFF
      omega
  | maliciousTimeout =>
      have := hlt16 s.maliciousTimeout
      show 0 ≤ (s.maliciousTimeout.toNat : Int) ∧ (s.maliciousTimeout.toNat : Int) ≤ 0xFFFF
      omega

/-- An assignment of a number that is in the range of its key. -/
theorem accepted_decimal (s : ServerSettings) (k : NumberKey) :
    Assignment.Accepted ⟨.number k, decimal (s.number k)⟩ := by
  obtain ⟨hlow, hhigh⟩ := number_in_range s k
  have hle := k.high_le
  have hvalue : Assignment.intValue ⟨.number k, decimal (s.number k)⟩ = s.number k := by
    show wrapInt 32 (Decimal.value (Decimal.numeral (s.number k))) = s.number k
    rw [Decimal.value_numeral]
    exact wrapInt_of_lt (by decide) (by omega) (by omega)
  exact ⟨Decimal.numeral_ne_nil _, fun c hc => Decimal.isDigit_of_mem_numeral hc,
    by rw [hvalue]; exact hlow, by rw [hvalue]; exact hhigh⟩

/-- The saved file assigns what was saved. -/
theorem assigns_savedText {s : Settings} (h : PortValid s) :
    Assigns (savedText s) (savedAssignments s) where
  accepted := by
    have hport : Assignment.Accepted ⟨.port, s.portText⟩ := by
      have hvalue : Assignment.intValue ⟨.port, s.portText⟩ = Decimal.value s.portText := by
        have hle := h.value_le
        show wrapInt 32 (Decimal.value s.portText) = _
        exact wrapInt_of_lt (by decide) (by omega) (by omega)
      have hle := h.value_le
      refine ⟨List.length_pos_iff.mp h.length_pos, h.digits, ?_, ?_⟩
      · rw [hvalue]
        show (0 : Int) ≤ _
        omega
      · rw [hvalue]
        show _ ≤ (65535 : Int)
        omega
    have hnumber := accepted_decimal s.toServerSettings
    simp only [savedAssignments, List.forall_mem_cons]
    exact ⟨hnumber .maxPlayers, hnumber .maxUsernameLen, hnumber .simTickRate,
      hnumber .netTickRate, hnumber .clientTimeout, hnumber .maliciousTimeout, hport, by simp⟩
  lexes := lexes_savedText h

/-- What was saved fits the limits the loader checks. -/
theorem fits_savedAssignments {s : Settings} (h : PortValid s) :
    ∀ a ∈ savedAssignments s, a.Fits := by
  simp only [savedAssignments, List.forall_mem_cons, Assignment.Fits, ServerKey.Fits]
  exact ⟨trivial, trivial, trivial, trivial, trivial, trivial, h.length_le, by simp⟩

/-- Each number is assigned once, with its decimal digits. -/
theorem lastLiteral_savedAssignments (s : Settings) (k : NumberKey) :
    lastLiteral (.number k) (savedAssignments s) = some (decimal (s.number k)) := by
  cases k <;> rfl

/-- Records with the same numbers are the same. -/
theorem ServerSettings.ext_number {s s' : ServerSettings} (h : ∀ k, s'.number k = s.number k) :
    s' = s := by
  obtain ⟨maxPlayers, clientTimeout, maliciousTimeout, maxUsernameLen, simTickRate, netTickRate⟩ := s
  obtain ⟨maxPlayers', clientTimeout', maliciousTimeout', maxUsernameLen', simTickRate',
    netTickRate'⟩ := s'
  obtain rfl : maxPlayers' = maxPlayers := UInt16.toNat_inj.mp (h .maxPlayers)
  obtain rfl : clientTimeout' = clientTimeout := UInt16.toNat_inj.mp (h .clientTimeout)
  obtain rfl : maliciousTimeout' = maliciousTimeout := UInt16.toNat_inj.mp (h .maliciousTimeout)
  obtain rfl : maxUsernameLen' = maxUsernameLen := UInt8.toNat_inj.mp (h .maxUsernameLen)
  obtain rfl : simTickRate' = simTickRate := UInt8.toNat_inj.mp (h .simTickRate)
  obtain rfl : netTickRate' = netTickRate := UInt8.toNat_inj.mp (h .netTickRate)
  rfl

/-- **Round trip.**  The record that is loaded from a saved file has the saved fields, and its
port is the same text. -/
theorem load_serverSettingsSave (ops : FloatOps F) {s : Settings} (h : PortValid s)
    {filename : String} {opened : Bool} {text : List UInt8}
    (hsave : serverSettingsSave s filename opened = some text) {fuel : Nat}
    (hfuel : text.length < fuel) (server : Settings) :
    ∃ s', serverSettingsLoadOrSetDefaults ops fuel server filename (some text) = .ok (0, s') ∧
      s'.toServerSettings = s.toServerSettings ∧ s'.portText = s.portText := by
  rw [serverSettingsSave] at hsave
  by_cases hpath : filename.isEmpty = true
  · rw [if_pos hpath] at hsave
    cases hsave
  rw [if_neg hpath] at hsave
  obtain rfl : savedText s = text := by
    cases opened with
    | true => exact Option.some.inj hsave
    | false => cases hsave
  have hassigns := assigns_savedText h
  obtain ⟨s', hload, hassigned⟩ := (load_of_assigns ops hassigns hfuel server
    (Bool.eq_false_of_not_eq_true hpath)).1 (fits_savedAssignments h)
  have hright := (readsRight_iff hassigns.accepted hassigned).mpr fun k literal hlast => by
    rw [lastLiteral_savedAssignments] at hlast
    cases hlast
    rw [decimal, Decimal.value_numeral]
    exact (number_in_range s.toServerSettings k).2
  refine ⟨s', hload, ServerSettings.ext_number fun k => ?_, ?_⟩
  · rw [hright.number, lastLiteral_savedAssignments, Option.map_some, Option.getD_some, decimal,
      Decimal.value_numeral]
  · obtain ⟨unused, hport⟩ := hright.port
    have hlast : lastLiteral .port (savedAssignments s) = some s.portText := rfl
    rw [hlast, Option.getD_some] at hport
    have hdigits : ∀ c ∈ s.portText, (c != 0) = true := by
      intro c hc
      have hrange := of_decide_eq_true (h.digits c hc)
      rw [bne_iff_ne]
      rintro rfl
      revert hrange
      decide
    rw [Settings.portText, hport, List.takeWhile_append_of_pos hdigits, List.takeWhile_cons,
      if_neg (by decide), List.append_nil]

/-- A record in which no field has its default, with a port that begins with zeros. -/
def changedSettings : Settings where
  maxPlayers := 12
  clientTimeout := 7
  maliciousTimeout := 90
  maxUsernameLen := 21
  simTickRate := 45
  netTickRate := 15
  maxPlayers_pos := by decide
  maxUsernameLen_pos := by decide
  simTickRate_pos := by decide
  netTickRate_pos := by decide
  port := textOf "00080" ++ [0]
  port_length := by decide

/-- It is loaded again over a record that has the defaults. -/
theorem load_serverSettingsSave_changed : ∃ s',
    serverSettingsLoadOrSetDefaults exactOps 1000 defaultSettings "server.ini"
      (some (savedText changedSettings)) = .ok (0, s') ∧
    s'.toServerSettings = changedSettings.toServerSettings ∧
    s'.portText = changedSettings.portText :=
  load_serverSettingsSave exactOps ⟨by decide, by decide, by decide +kernel, by decide +kernel⟩
    ((if_neg (by decide +kernel)).trans (if_pos rfl)) (by decide +kernel) defaultSettings

end Clither
