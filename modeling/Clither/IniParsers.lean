import Clither.IniScan
import Clither.ServerConfig
import Clither.ResourcePack

/-!
# What the parsers do to their files

A parser reads its file well when it ends, when it does not read a byte outside of the file or
of a token that it converts, and when each call of the scanner that returns a token has moved
`head`.  The two things that go wrong are a token that begins with a minus sign and a message
about a line that the file does not end.  `reads_well_iff` says that there is nothing else.

`Forward` and `Advances` are about the programs that the parsers consist of: they come to an
end, unless a copy is too large for its destination, and a round of a loop that is followed by
another has moved `head`.
-/

namespace Clither

open Calls Ini

variable {src : List UInt8} {F α β : Type} {d : Dialect} {ops : FloatOps F}

/-! ## Calls -/

/-- The call finds a token that is a match for the scanner, or a line that ends in the file. -/
def CalledWell (d : Dialect) : IniOp → Parser src F → Prop
  | .scan, p => d.ready (d.next p) = true
  | .parserError _, p => lineEnds src p.head = true
  | .printError off len _, _ => lineEnds src (off + len) = true
  | .fail _, _ => True

instance (d : Dialect) : (op : IniOp) → (p : Parser src F) → Decidable (CalledWell d op p)
  | .scan, _ => inferInstanceAs (Decidable (_ = true))
  | .parserError _, _ => inferInstanceAs (Decidable (_ = true))
  | .printError _ _ _, _ => inferInstanceAs (Decidable (_ = true))
  | .fail _, _ => isTrue trivial

/-- A token that is neither the end of the file nor an error has moved `head`. -/
def ScanMoves : (op : IniOp) → Parser src F → IniOp.Answer src F op → Parser src F → Prop
  | .scan, p, (tok, _), p' => tok ≠ .tokEnd → tok ≠ .tokError → p.head < p'.head
  | .parserError _, _, _, _ => True
  | .printError _ _ _, _, _, _ => True
  | .fail _, _, _, _ => True

/-- The model stops here for a copy only. -/
def StopsForCopy : IniOp → Prop
  | .fail f => f.write = true
  | .scan => True
  | .parserError _ => True
  | .printError _ _ _ => True

/-- Printing a message leaves the parser where it is. -/
theorem handle_message {off len : Nat} {p : Parser src F} {r : Unit × Parser src F}
    (h : (do let _ ← printVerror src off len; .ok ((), p)) = Except.ok r) : r.2 = p := by
  cases hprint : printVerror src off len with
  | error f =>
      rw [hprint] at h
      cases h
  | ok e =>
      rw [hprint] at h
      cases h
      rfl

/-- The answer to a call of the scanner is its token, with the parser behind it. -/
theorem handle_scan_ok {p : Parser src F} {r : (Token × Parser src F) × Parser src F}
    (h : handle d ops .scan p = .ok r) :
    ∃ tok p', scanNextToken d ops p = .ok (tok, p') ∧ r = ((tok, p'), p') := by
  rw [handle] at h
  cases hscan : scanNextToken d ops p with
  | error f =>
      rw [hscan] at h
      cases h
  | ok q =>
      rw [hscan] at h
      cases h
      exact ⟨q.1, q.2, rfl, rfl⟩

/-- A call of the scanner that returns leaves the positions in the file. -/
theorem scan_inside {p p' : Parser src F} {tok : Token} (hp : p.Inside)
    (h : scanNextToken d ops p = .ok (tok, p')) : p'.Inside := by
  by_cases hready : d.ready (d.next p) = true
  · obtain ⟨_, _, hok, hinside, -⟩ := scan_ready ops hp hready
    cases h.symm.trans hok
    exact hinside
  · rcases scan_not_ready ops hp (Bool.eq_false_of_not_eq_true hready) with
      ⟨_, herror, -⟩ | ⟨_, hok, hinside, -⟩
    · cases h.symm.trans herror
    · cases h.symm.trans hok
      exact hinside

/-- **Every call keeps the positions in the file.** -/
theorem handle_inside (op : IniOp) (p : Parser src F) (r : IniOp.Answer src F op × Parser src F)
    (hp : p.Inside) (h : handle d ops op p = .ok r) : r.2.Inside := by
  cases op with
  | scan =>
      obtain ⟨tok, p', hscan, rfl⟩ := handle_scan_ok h
      exact scan_inside hp hscan
  | parserError text =>
      rw [handle_message h]
      exact hp
  | printError off len text =>
      rw [handle_message h]
      exact hp
  | fail f => cases h

/-- **A call is safe exactly if it is made well**, and the model goes on after it. -/
theorem handle_safe_iff (d : Dialect) (ops : FloatOps F) (op : IniOp) (p : Parser src F) (hp : p.Inside) :
    ((∀ f, handle d ops op p = .error f → f.write = true) ∧
        ∀ r, handle d ops op p = .ok r → ScanMoves op p r.1 r.2) ↔
      CalledWell d op p ∧ StopsForCopy op := by
  have hmessage (off len : Nat) :
      ((∀ f, (do let _ ← printVerror src off len; .ok ((), p)) = Except.error f → f.write = true) ∧
          ∀ r : Unit × Parser src F,
            (do let _ ← printVerror src off len; .ok ((), p)) = Except.ok r → True) ↔
        lineEnds src (off + len) = true := by
    have hspec := printVerror_spec src off len
    by_cases hline : lineEnds src (off + len) = true
    · rw [if_pos hline] at hspec
      obtain ⟨e, hprint⟩ := hspec
      rw [hprint]
      exact iff_of_true ⟨fun f hf => (by cases hf), fun _ _ => trivial⟩ hline
    · rw [if_neg hline] at hspec
      rw [hspec]
      refine iff_of_false (fun h => ?_) hline
      cases h.1 _ rfl
  cases op with
  | scan =>
      rw [StopsForCopy, and_true, CalledWell]
      by_cases hready : d.ready (d.next p) = true
      · obtain ⟨tok, p', hok, -, -, hmoved⟩ := scan_ready ops hp hready
        rw [handle, hok]
        refine iff_of_true ⟨fun f hf => (by cases hf), fun r hr => ?_⟩ hready
        cases hr
        exact fun hend _ => hmoved hend
      · refine iff_of_false (fun h => ?_) hready
        rcases scan_not_ready ops hp (Bool.eq_false_of_not_eq_true hready) with
          ⟨f, herror, hwrite⟩ | ⟨p', hok, -, hstays⟩
        · have hf := h.1 f (by rw [handle, herror]; rfl)
          rw [hwrite] at hf
          cases hf
        · have hmoves := h.2 ((.tokInteger, p'), p') (by rw [handle, hok]; rfl)
          exact absurd (hmoves (by decide) (by decide)) (Nat.not_lt_of_le hstays)
  | parserError text =>
      rw [StopsForCopy, and_true, CalledWell]
      have hiff := hmessage p.tail (p.head - p.tail)
      rw [Nat.add_sub_cancel' hp.tail_le] at hiff
      exact hiff
  | printError off len text =>
      rw [StopsForCopy, and_true, CalledWell]
      exact hmessage off len
  | fail f =>
      rw [CalledWell, true_and]
      exact ⟨fun h => h.1 f rfl, fun h => ⟨fun _ hf => Except.error.inj hf ▸ h, fun _ hr => (by cases hr)⟩⟩

/-! ## Rules for the programs -/

/-- From a position in the file the program ends in `post`, as long as its calls are made
well. -/
abbrev Clear (d : Dialect) (ops : FloatOps F) (post : α → Parser src F → Prop)
    (prog : Ini src F α) (p : Parser src F) : Prop :=
  Yields (handle d ops) (CalledWell d) StopsForCopy post prog p

/-- A later state of the parser. -/
structure Later (p p' : Parser src F) : Prop where
  inside : p'.Inside
  head_le : p.head ≤ p'.head

theorem Later.refl {p : Parser src F} (hp : p.Inside) : Later p p := ⟨hp, Nat.le_refl _⟩

theorem Later.trans {p p' p'' : Parser src F} (h : Later p p') (h' : Later p' p'') : Later p p'' :=
  ⟨h'.inside, Nat.le_trans h.head_le h'.head_le⟩

/-- The program goes forward. -/
def Forward (d : Dialect) (ops : FloatOps F) (prog : Ini src F α) : Prop :=
  ∀ p, p.Inside → Clear d ops (fun _ p' => Later p p') prog p

/-- The round of a loop goes forward, and has moved `head` if another one follows. -/
def Advances (d : Dialect) (ops : FloatOps F) (round : Ini src F (β ⊕ α)) : Prop :=
  ∀ p, p.Inside →
    Clear d ops (fun r p' => Later p p' ∧ (r.isLeft = true → p.head < p'.head)) round p

/-- A program that begins with a token is clear if it is from behind each token on. -/
theorem clear_scan {p : Parser src F} (hp : p.Inside) {next : Token × Parser src F → Ini src F α}
    {post : α → Parser src F → Prop}
    (h : ∀ tok p', Later p p' → (tok ≠ .tokEnd → p.head < p'.head) →
      Clear d ops post (next (tok, p')) p') :
    Clear d ops post (scan >>= next) p := by
  intro hready
  refine ⟨trivial, fun r hr => ?_⟩
  obtain ⟨tok, p', hscan, rfl⟩ := handle_scan_ok hr
  obtain ⟨_, _, hok, hinside, hle, hmoved⟩ := scan_ready ops hp hready
  cases hscan.symm.trans hok
  exact h tok p' ⟨hinside, hle⟩ hmoved

/-- A message ends a program where it is. -/
theorem clear_reject {p : Parser src F} {text : String} {a : α} {post : α → Parser src F → Prop}
    (h : post a p) : Clear d ops post (reject text a) p := by
  refine fun _ => ⟨trivial, fun r hr => ?_⟩
  show post a r.2
  rw [handle_message hr]
  exact h

/-- So does a message that names a piece of the text. -/
theorem clear_rejectView {p : Parser src F} {str : StrView src} {text : String} {a : α}
    {post : α → Parser src F → Prop} (h : post a p) :
    Clear d ops post (rejectView str text a) p := by
  refine fun _ => ⟨trivial, fun r hr => ?_⟩
  show post a r.2
  rw [handle_message hr]
  exact h

/-- Of an expected token only two continuations are left: the token is there, or there is an error.
-/
theorem clear_expect {p : Parser src F} (hp : p.Inside) {tok : Token} (htok : tok ≠ .tokEnd)
    {text : String} {onError : α} {rest : Parser src F → Ini src F α}
    {post : α → Parser src F → Prop}
    (hrest : ∀ p', Later p p' → p.head < p'.head → Clear d ops post (rest p') p')
    (herror : ∀ p', Later p p' → post onError p') :
    Clear d ops post (expect tok text onError rest) p := by
  refine clear_scan hp fun next p' hlater hmoved => ?_
  show Clear d ops post (if next = tok then rest p' else reject text onError) p'
  by_cases hnext : next = tok
  · rw [if_pos hnext]
    exact hrest p' hlater (hmoved (hnext ▸ htok))
  · rw [if_neg hnext]
    exact clear_reject (herror p' hlater)

/-- A function that does not scan stops for a copy only. -/
theorem clear_lift {p : Parser src F} {x : Except IniFault β} {next : β → Ini src F α}
    {post : α → Parser src F → Prop} (herror : ∀ f, x = .error f → f.write = true)
    (hok : ∀ b, x = .ok b → Clear d ops post (next b) p) :
    Clear d ops post (lift x >>= next) p := by
  cases x with
  | error f => exact fun _ => ⟨herror f rfl, fun r hr => nomatch hr⟩
  | ok b => exact hok b rfl

theorem forward_ret (a : α) : Forward d ops (.ret a : Ini src F α) := fun _ hp => Later.refl hp

/-- A message does not move the parser. -/
theorem forward_reject (text : String) (a : α) : Forward d ops (reject text a : Ini src F α) :=
  fun _ hp => clear_reject (Later.refl hp)

/-- Nor does one that names a piece of the text. -/
theorem forward_rejectView (str : StrView src) (text : String) (a : α) :
    Forward d ops (rejectView str text a : Ini src F α) :=
  fun _ hp => clear_rejectView (Later.refl hp)

/-- Two programs that go forward do so one after the other. -/
theorem forward_bind {prog : Ini src F β} {next : β → Ini src F α} (hprog : Forward d ops prog)
    (hnext : ∀ b, Forward d ops (next b)) : Forward d ops (prog >>= next) := by
  intro p hp
  refine yields_bind ((hprog p hp).mono fun b p' hlater => ?_)
  exact (hnext b p' hlater.inside).mono fun _ _ h => hlater.trans h

/-- A program goes forward if it does so from behind its first token on. -/
theorem forward_scan {next : Token × Parser src F → Ini src F α}
    (h : ∀ tok p, p.Inside → Clear d ops (fun _ p' => Later p p') (next (tok, p)) p) :
    Forward d ops (scan >>= next) := by
  refine fun p hp => clear_scan hp fun tok p' hlater _ => ?_
  exact (h tok p' hlater.inside).mono fun _ _ => hlater.trans

/-- The same for a token that is expected. -/
theorem forward_expect {tok : Token} (htok : tok ≠ .tokEnd) {text : String} {onError : α}
    {rest : Parser src F → Ini src F α}
    (h : ∀ p, p.Inside → Clear d ops (fun _ p' => Later p p') (rest p) p) :
    Forward d ops (expect tok text onError rest) := by
  refine fun p hp => clear_expect hp htok (fun p' hlater _ => ?_) fun _ hlater => hlater
  exact (h p' hlater.inside).mono fun _ _ => hlater.trans

/-- A round that begins with an expected token gets ahead or is the last one. -/
theorem advances_expect {tok : Token} (htok : tok ≠ .tokEnd) {text : String} {a : α}
    {rest : Parser src F → Ini src F (β ⊕ α)}
    (h : ∀ p, p.Inside → Clear d ops (fun _ p' => Later p p') (rest p) p) :
    Advances d ops (expect tok text (.inr a) rest) := by
  refine fun p hp => clear_expect hp htok (fun p' hlater hmoved => ?_)
    fun _ hlater => ⟨hlater, nofun⟩
  exact (h p' hlater.inside).mono fun _ _ hlater' =>
    ⟨hlater.trans hlater', fun _ => Nat.lt_of_lt_of_le hmoved hlater'.head_le⟩

/-- **Loops end.**  More rounds than there are bytes are never needed. -/
theorem forward_repeatUntil {round : β → Ini src F (β ⊕ α)} (h : ∀ b, Advances d ops (round b))
    {fuel : Nat} (hfuel : src.length < fuel) (b : β) :
    Forward d ops (Prog.repeatUntil (fail .endless) round fuel b) := by
  intro p hp
  refine yields_repeatUntil (fun _ p' => Later p p') (fun p' => src.length - p'.head)
    (fun b' p' hlater => ?_) fuel (Later.refl hp) (by omega)
  refine (h b' p' hlater.inside).mono fun r p'' hr => ?_
  obtain ⟨hlater', hmoved⟩ := hr
  cases r with
  | inl b'' =>
      have hle := hlater'.inside.head_le
      have hlt := hmoved rfl
      exact ⟨hlater.trans hlater', by omega⟩
  | inr a => exact hlater.trans hlater'

/-! ## The settings file -/

/-- Reading a number goes forward, whether it is in range or not. -/
theorem forward_parseServerInteger (low high : Int) (range : String)
    (store : Settings → (n : Int) → low ≤ n → n ≤ high → Settings) (server : Settings) :
    Forward d ops (parseServerInteger low high range store server : Ini src F (Int × Settings)) := by
  refine forward_expect (by decide) fun p hp => ?_
  split_ifs with hrange
  · exact Later.refl hp
  · exact forward_reject _ _ p hp

/-- The port is the only field whose copy can leave its array, and it is a write. -/
theorem copyPort_error {server : Settings} {text : List UInt8} {f : IniFault}
    (h : copyPort server text = .error f) : f.write = true := by
  rw [copyPort] at h
  split_ifs at h
  cases h
  rfl

/-- Reading the port goes forward. -/
theorem forward_parseServerPort (server : Settings) :
    Forward d ops (parseServerPort server : Ini src F (Int × Settings)) := by
  refine forward_expect (by decide) fun p hp => ?_
  have hhead := hp.head_le
  have htail := hp.tail_le
  obtain ⟨value, hvalue, -, -⟩ := strview_ok src p.tail (p.head - p.tail) (by omega)
  split_ifs with hrange
  · exact forward_reject _ _ p hp
  · rw [hvalue]
    refine clear_lift (fun _ hf => nomatch hf) fun value' _ => ?_
    exact clear_lift (fun f hf => copyPort_error hf) fun _ _ => Later.refl hp

/-- Every key has a value that goes forward. -/
theorem forward_serverKeys (server : Settings) :
    ∀ entry ∈ (serverKeys : List (String × (Settings → Ini src F (Int × Settings)))),
      Forward d ops (entry.2 server) := by
  simp only [serverKeys, List.forall_mem_cons]
  exact ⟨forward_parseServerInteger _ _ _ _ server, forward_parseServerInteger _ _ _ _ server,
    forward_parseServerInteger _ _ _ _ server, forward_parseServerInteger _ _ _ _ server,
    forward_parseServerInteger _ _ _ _ server, forward_parseServerInteger _ _ _ _ server,
    forward_parseServerPort server, fun _ h => nomatch h⟩

/-- A key goes forward if the function for it does. -/
theorem forward_handleKey {parse : Settings → Ini src F (Int × Settings)} {server : Settings}
    (h : Forward d ops (parse server)) : Forward d ops (handleKey parse server) :=
  forward_expect (by decide) fun p hp =>
    forward_bind h (fun _ => forward_ret _) p hp

/-- Each round of the loop over the keys reads a token or is the last. -/
theorem advances_keyValuesRound (server : Settings) :
    Advances d ops (keyValuesRound server : Ini src F (Settings ⊕ (Token × Settings))) := by
  refine fun p hp => clear_scan hp fun tok p' hlater hmoved => ?_
  have hright (tok : Token) : Clear d ops (fun (r : Settings ⊕ (Token × Settings)) p'' =>
      Later p p'' ∧ (r.isLeft = true → p.head < p''.head)) (.ret (.inr (tok, server))) p' :=
    ⟨hlater, nofun⟩
  have hforward {round : Ini src F (Settings ⊕ (Token × Settings))} (hlt : p.head < p'.head)
      (h : Forward d ops round) : Clear d ops (fun r p'' =>
        Later p p'' ∧ (r.isLeft = true → p.head < p''.head)) round p' :=
    (h p' hlater.inside).mono fun _ _ hlater' =>
      ⟨hlater.trans hlater', fun _ => Nat.lt_of_lt_of_le hlt hlater'.head_le⟩
  cases tok with
  | tokKey =>
      dsimp only
      split
      · next parse hfind =>
          exact hforward (hmoved (by decide))
            (forward_handleKey (forward_serverKeys server _ (List.mem_of_find?_eq_some hfind)))
      · exact hforward (hmoved (by decide)) (forward_reject _ _)
  | _ => exact hright _

/-- The loop over the keys goes forward, with fuel for every byte. -/
theorem forward_parseServerKeyValues {fuel : Nat} (hfuel : src.length < fuel) (server : Settings) :
    Forward d ops (parseServerKeyValues fuel server : Ini src F (Token × Settings)) :=
  forward_repeatUntil advances_keyValuesRound hfuel server

/-- **The parser of the settings file ends.** -/
theorem forward_parseServerIni {fuel : Nat} (hfuel : src.length < fuel) (server : Settings) :
    Forward d ops (parseServerIni fuel server : Ini src F (Token × Settings)) := by
  refine forward_expect (by decide) fun p hp => ?_
  refine forward_expect (by decide) (fun p hp => ?_) p hp
  split_ifs with hname
  · exact forward_expect (by decide)
      (fun p hp => forward_parseServerKeyValues hfuel server p hp) p hp
  · exact forward_reject _ _ p hp

/-! ## The resource pack -/

/-- What can go wrong with a string is a write outside of it. -/
theorem strReserve_error {mem : Alloc} {str : Str} {size : Nat} {f : IniFault}
    (h : strReserve mem str size = .error f) : f.write = true := by
  rw [strReserve] at h
  dsimp only at h
  split_ifs at h <;> cases h <;> rfl

/-- Only a reservation writes out of bounds, not what follows it. -/
theorem reserved_error {mem : Alloc} {str : Str} {size : Nat}
    {rest : Option Str → Except IniFault (Option Str)} (hrest : ∀ r f, rest r ≠ .error f)
    {f : IniFault} (h : strReserve mem str size >>= rest = .error f) : f.write = true := by
  cases hreserve : strReserve mem str size with
  | error f' =>
      rw [hreserve] at h
      cases h
      exact strReserve_error hreserve
  | ok r =>
      rw [hreserve] at h
      exact absurd h (hrest r f)

/-- Setting a string can only fail with a write. -/
theorem strSetCstr_error {mem : Alloc} {str : Str} {cstr : List UInt8} {f : IniFault}
    (h : strSetCstr mem str cstr = .error f) : f.write = true :=
  reserved_error (fun r _ hr => by cases r <;> cases hr) h

/-- Joining a path can only fail with a write. -/
theorem strJoinPath_error {mem : Alloc} {str : Str} {path : List UInt8} {f : IniFault}
    (h : strJoinPath mem str path = .error f) : f.write = true :=
  reserved_error (fun r _ hr => by cases r <;> cases hr) h

/-- Adding a path to a list can only fail with a write. -/
theorem addPath_error {mem : Alloc} {pathPrefix : List UInt8} {str : Str} {list : StrList}
    {name : StrView src} {f : IniFault} (h : addPath mem pathPrefix str list name = .error f) :
    f.write = true := by
  rw [addPath] at h
  cases hset : strSetCstr mem str pathPrefix with
  | error f' =>
      rw [hset] at h
      cases h
      exact strSetCstr_error hset
  | ok r =>
      rw [hset] at h
      cases r with
      | none => cases h
      | some str' =>
          change (strJoinPath mem str' name.bytes >>= _) = _ at h
          cases hjoin : strJoinPath mem str' name.bytes with
          | error f' =>
              rw [hjoin] at h
              cases h
              exact strJoinPath_error hjoin
          | ok r' =>
              rw [hjoin] at h
              cases r' with
              | none => cases h
              | some str'' =>
                  simp only [bind, Except.bind] at h
                  cases hadd : strlistAddCstr mem list str''.text <;> rw [hadd] at h <;> cases h

/-- Each round of the loop over a list of strings reads a token or is the last. -/
theorem advances_stringListRound (mem : Alloc) (pathPrefix : List UInt8) (state : Str × StrList) :
    Advances d ops (stringListRound mem pathPrefix state :
      Ini src F ((Str × StrList) ⊕ (TokenText src × StrList))) := by
  refine advances_expect (by decide) fun p hp => ?_
  refine clear_lift (fun f hf => addPath_error hf) fun r _ => ?_
  cases r with
  | none => exact Later.refl hp
  | some r =>
      obtain ⟨str, list⟩ := r
      refine clear_scan hp fun tok p' hlater _ => ?_
      exact hlater

/-- A list of strings goes forward. -/
theorem forward_parseStringList (mem : Alloc) {fuel : Nat} (hfuel : src.length < fuel)
    (pathPrefix : List UInt8) (list : StrList) :
    Forward d ops (parseStringList mem fuel pathPrefix list :
      Ini src F (TokenText src × StrList)) :=
  forward_repeatUntil (advances_stringListRound mem pathPrefix) hfuel _

/-- A result that ends the loop. -/
theorem advances_inr (a : α) : Advances d ops (.ret (.inr a) : Ini src F (β ⊕ α)) :=
  fun _ hp => ⟨Later.refl hp, nofun⟩

/-- A message ends its loop. -/
theorem advances_reject (text : String) (a : α) :
    Advances d ops (reject text (.inr a) : Ini src F (β ⊕ α)) :=
  fun _ hp => clear_reject ⟨Later.refl hp, nofun⟩

/-- Asking for the next token goes forward. -/
theorem forward_nextToken {γ : Type} (state : β) :
    Forward d ops (nextToken state : Ini src F ((TokenText src × β) ⊕ γ)) :=
  forward_scan fun _ _ hp => Later.refl hp

/-- Each round over the keys of a shader section reads a token or is the last. -/
theorem advances_glslRound (mem : Alloc) {fuel : Nat} (hfuel : src.length < fuel)
    (pathPrefix : List UInt8) (state : TokenText src × (Shader → StrList)) :
    Advances d ops (glslRound mem fuel pathPrefix state :
      Ini src F ((TokenText src × (Shader → StrList)) ⊕ (Token × (Shader → StrList)))) := by
  obtain ⟨⟨tok, key⟩, glsl⟩ := state
  cases tok with
  | tokKey =>
      rw [glslRound]
      dsimp only
      split
      · exact advances_expect (by decide) fun p hp =>
          forward_bind (forward_parseStringList mem hfuel pathPrefix _) (fun _ => forward_ret _) p hp
      · exact advances_reject _ _
  | _ => exact advances_inr _

/-- A shader section goes forward. -/
theorem forward_parseSectionGlsl (mem : Alloc) {fuel : Nat} (hfuel : src.length < fuel)
    (pathPrefix : List UInt8) (glsl : Shader → StrList) :
    Forward d ops (parseSectionGlsl mem fuel pathPrefix glsl :
      Ini src F (Token × (Shader → StrList))) :=
  forward_scan fun _ p hp =>
    forward_repeatUntil (advances_glslRound mem hfuel pathPrefix) hfuel _ p hp

/-- A numeric key of a sprite reads its tokens. -/
theorem advances_parseSpriteNumber {tok : Token} (htok : tok ≠ .tokEnd) (text : String)
    (sprite : ResourceSprite F) (store : Parser src F → ResourceSprite F) :
    Advances d ops (parseSpriteNumber tok text sprite store) :=
  advances_expect (by decide) fun p hp =>
    forward_expect htok (fun p hp => forward_nextToken _ p hp) p hp

/-- So does the key with the two numbers of a tile. -/
theorem advances_parseSpriteTile (sprite : ResourceSprite F) :
    Advances d ops (parseSpriteTile sprite :
      Ini src F ((TokenText src × ResourceSprite F) ⊕ (Token × ResourceSprite F))) := by
  refine advances_expect (by decide) fun p hp => ?_
  refine forward_expect (by decide) (fun p hp => ?_) p hp
  refine forward_expect (by decide) (fun p hp => ?_) p hp
  exact forward_expect (by decide) (fun p hp => forward_nextToken _ p hp) p hp

/-- So does any key of a sprite. -/
theorem advances_parseSpriteKey (mem : Alloc) {fuel : Nat} (hfuel : src.length < fuel)
    (pathPrefix : List UInt8) (key : StrView src) (sprite : ResourceSprite F) :
    Advances d ops (parseSpriteKey mem fuel pathPrefix key sprite) := by
  rw [parseSpriteKey]
  split_ifs
  · exact advances_expect (by decide) fun p hp =>
      forward_bind (forward_parseStringList mem hfuel pathPrefix _) (fun _ => forward_ret _) p hp
  · exact advances_parseSpriteTile sprite
  · exact advances_parseSpriteNumber (by decide) _ _ _
  · exact advances_parseSpriteNumber (by decide) _ _ _
  · exact advances_parseSpriteNumber (by decide) _ _ _
  · exact advances_reject _ _

/-- Each round over the keys of a sprite section reads a token or is the last. -/
theorem advances_spriteRound (mem : Alloc) {fuel : Nat} (hfuel : src.length < fuel)
    (pathPrefix : List UInt8) (state : TokenText src × ResourceSprite F) :
    Advances d ops (spriteRound mem fuel pathPrefix state) := by
  obtain ⟨⟨tok, key⟩, sprite⟩ := state
  cases tok with
  | tokKey => exact advances_parseSpriteKey mem hfuel pathPrefix key sprite
  | _ => exact advances_inr _

/-- A sprite section goes forward. -/
theorem forward_parseSectionSprite (mem : Alloc) {fuel : Nat} (hfuel : src.length < fuel)
    (pathPrefix : List UInt8) (sprite : ResourceSprite F) :
    Forward d ops (parseSectionSprite mem fuel pathPrefix sprite :
      Ini src F (Token × ResourceSprite F)) :=
  forward_scan fun _ p hp =>
    forward_repeatUntil (advances_spriteRound mem hfuel pathPrefix) hfuel _ p hp

/-- The search for the digits of a section name stays inside the name. -/
theorem firstDigit_le {n : Nat} (h : n ≤ src.length) : ∃ k, firstDigit src n = .ok k ∧ k ≤ n := by
  induction n with
  | zero => exact ⟨0, rfl, Nat.le_refl _⟩
  | succ n ih =>
      obtain ⟨k, hk, hle⟩ := ih (by omega)
      rw [firstDigit, Scan.readAt_of_drop (List.drop_eq_getElem_cons h)]
      show ∃ k, (if isdigit src[n] then _ else _) = _ ∧ _
      by_cases hdigit : isdigit src[n] = true
      · rw [if_pos hdigit]
        exact ⟨k, hk, by omega⟩
      · rw [if_neg hdigit]
        exact ⟨n + 1, rfl, Nat.le_refl _⟩

/-- **The index of a section** is converted from digits of its key. -/
theorem parseSectionNameAndIndex_ok (s : IniSection src) (key : StrView src) :
    ∃ s', parseSectionNameAndIndex s key = .ok s' := by
  have hinside := key.inside
  obtain ⟨first, hfirst, hle⟩ := firstDigit_le key.inside
  obtain ⟨name, hname, -, -⟩ := strview_ok src key.off (first - key.off) (by omega)
  rw [parseSectionNameAndIndex, hfirst]
  show ∃ s', (strview src key.off (first - key.off) >>= _) = _
  rw [hname]
  show ∃ s', (if first < key.off + key.len then _ else _) = _
  by_cases hindex : first < key.off + key.len
  · obtain ⟨digits, hdigits, hoff, hlen⟩ :=
      strview_ok src first (key.off + key.len - first) (by omega)
    obtain ⟨index, hvalue⟩ := strviewToInteger_ok digits (.inr (by omega))
    rw [if_pos hindex, hdigits]
    show ∃ s', (strviewToInteger digits >>= _) = _
    rw [hvalue]
    exact ⟨_, rfl⟩
  · rw [if_neg hindex]
    exact ⟨_, rfl⟩

/-- The head of a section is read forward, and past where it began unless there is an error. -/
theorem clear_parseSectionDesc (s : IniSection src) {p : Parser src F} (hp : p.Inside) :
    Clear d ops (fun r p' => Later p p' ∧ (r.1 ≠ .tokError → p.head < p'.head))
      (parseSectionDesc s) p := by
  refine clear_expect hp (by decide) (fun p' hlater hmoved => ?_)
    fun _ hlater => ⟨hlater, fun hne => absurd rfl hne⟩
  have hpost {tok : Token} {s : IniSection src} {p'' : Parser src F} (h : Later p' p'') :
      Later p p'' ∧ ((tok, s).1 ≠ .tokError → p.head < p''.head) :=
    ⟨hlater.trans h, fun _ => Nat.lt_of_lt_of_le hmoved h.head_le⟩
  obtain ⟨s₁, hname⟩ := parseSectionNameAndIndex_ok s p'.value.string
  rw [hname]
  refine clear_lift (fun _ hf => nomatch hf) fun s₁ _ => ?_
  refine clear_scan hlater.inside fun tok₂ p₂ h₂ _ => ?_
  dsimp only
  split_ifs with hperiod₂
  · exact hpost h₂
  refine clear_expect h₂.inside (by decide) (fun p₃ h₃ _ => ?_) fun _ h => hpost (h₂.trans h)
  refine clear_scan h₃.inside fun tok₄ p₄ h₄ _ => ?_
  have h₄ := (h₂.trans h₃).trans h₄
  dsimp only
  split_ifs with hperiod₄
  · exact hpost h₄
  refine clear_expect h₄.inside (by decide) (fun p₅ h₅ _ => ?_) fun _ h => hpost (h₄.trans h)
  exact clear_scan h₅.inside fun tok₆ p₆ h₆ _ => hpost ((h₄.trans h₅).trans h₆)

/-- The missing parts have been added one by one. -/
theorem length_pushMissing {c : VecInstance} {mem : Alloc} {elem : α} {n : Nat} {v v' : Vec c α}
    (h : pushMissing mem elem n v = (true, v')) : v'.items.length = v.items.length + n := by
  induction n generalizing v with
  | zero =>
      cases h
      rfl
  | succ n ih =>
      rw [pushMissing] at h
      split_ifs at h with hspace
      · rw [ih h, items_vecPush, if_pos hspace, List.length_append, List.length_singleton]
        omega
      · cases h

/-- The elements up to the index are there. -/
theorem lt_pushMissing {c : VecInstance} {mem : Alloc} {elem : α} {index : Int} {v v' : Vec c α}
    (hindex : ¬index < 0) (h : pushMissing mem elem (missing index v) v = (true, v')) :
    index.toNat < v'.items.length := by
  rw [length_pushMissing h, missing]
  omega

/-- After growing, the index of the section is inside of every list of parts. -/
theorem lt_growParts {mem : Alloc} {index : Int} (hindex : ¬index < 0) {rest : List Part}
    {parts parts' : Part → Vec snakePartVec (ResourceSnakePart F)}
    (h : growParts mem index rest parts = (true, parts')) (part : Part)
    (hpart : part ∈ rest ∨ index.toNat < (parts part).items.length) :
    index.toNat < (parts' part).items.length := by
  induction rest generalizing parts with
  | nil =>
      cases h
      exact hpart.resolve_left List.not_mem_nil
  | cons first rest ih =>
      rw [growParts] at h
      split at h
      · cases h
      · next v hpush =>
          refine ih h ?_
          by_cases hfirst : part = first
          · subst hfirst
            rw [Function.update_self]
            exact .inr (lt_pushMissing hindex hpush)
          · rw [Function.update_of_ne hfirst]
            exact hpart.imp_left fun hmem => (List.mem_cons.mp hmem).resolve_left hfirst

/-- The section `[shaders]` goes forward. -/
theorem forward_parseShaders (mem : Alloc) {fuel : Nat} (hfuel : src.length < fuel)
    (pathPrefix : List UInt8) (s : IniSection src) (pack : ResourcePack F) :
    Forward d ops (parseShaders mem fuel pathPrefix s pack) := by
  rw [parseShaders]
  split_ifs
  · exact forward_bind (forward_parseSectionGlsl mem hfuel pathPrefix _) fun _ => forward_ret _
  · exact forward_rejectView _ _ _
  · exact forward_rejectView _ _ _

/-- The section `[background]` goes forward. -/
theorem forward_parseBackground (mem : Alloc) {fuel : Nat} (hfuel : src.length < fuel)
    (pathPrefix : List UInt8) (s : IniSection src) (pack : ResourcePack F) :
    Forward d ops (parseBackground mem ops fuel pathPrefix s pack) := by
  rw [parseBackground]
  split_ifs with hindex
  · exact forward_rejectView _ _ _
  split
  · exact forward_ret _
  · next v hpush =>
      have hlt := lt_pushMissing hindex hpush
      rw [List.getElem?_eq_getElem hlt]
      dsimp only
      split
      · exact forward_ret _
      · exact forward_bind (forward_parseSectionSprite mem hfuel pathPrefix _)
          fun _ => forward_ret _

/-- The section of a layer goes forward. -/
theorem forward_parseLayer (mem : Alloc) {fuel : Nat} (hfuel : src.length < fuel)
    (pathPrefix : List UInt8) (s : IniSection src) (part : Part) (pack : ResourcePack F)
    (snakePart : ResourceSnakePart F) :
    Forward d ops (parseLayer mem ops fuel pathPrefix s part pack snakePart) := by
  rw [parseLayer]
  split
  · exact forward_rejectView _ _ _
  · split
    · exact forward_ret _
    · exact forward_bind (forward_parseSectionSprite mem hfuel pathPrefix _)
        fun _ => forward_ret _

/-- The section of a part of the snake goes forward. -/
theorem forward_parseSnake (mem : Alloc) {fuel : Nat} (hfuel : src.length < fuel)
    (pathPrefix : List UInt8) (s : IniSection src) (pack : ResourcePack F) :
    Forward d ops (parseSnake mem ops fuel pathPrefix s pack) := by
  rw [parseSnake]
  split_ifs with hindex
  · exact forward_rejectView _ _ _
  split
  · exact forward_rejectView _ _ _
  · next part _ =>
      split
      · exact forward_ret _
      · next parts hgrow =>
          have hlt := lt_growParts hindex hgrow part (.inl (by cases part <;> decide))
          rw [List.getElem?_eq_getElem hlt]
          exact forward_parseLayer mem hfuel pathPrefix s part _ _

/-- Whatever its name is, a section goes forward. -/
theorem forward_parseSection (mem : Alloc) {fuel : Nat} (hfuel : src.length < fuel)
    (pathPrefix : List UInt8) (s : IniSection src) (pack : ResourcePack F) :
    Forward d ops (parseSection mem ops fuel pathPrefix s pack) := by
  rw [parseSection]
  split_ifs
  · exact forward_parseShaders mem hfuel pathPrefix s pack
  · exact forward_parseBackground mem hfuel pathPrefix s pack
  · exact forward_parseSnake mem hfuel pathPrefix s pack
  · exact forward_rejectView _ _ _

/-- Each section reads a token or is the last. -/
theorem advances_packRound (mem : Alloc) {fuel : Nat} (hfuel : src.length < fuel)
    (pathPrefix : List UInt8) (state : Token × ResourcePack F) :
    Advances d ops (packRound mem ops fuel pathPrefix state :
      Ini src F ((Token × ResourcePack F) ⊕ (Int × ResourcePack F))) := by
  obtain ⟨tok, pack⟩ := state
  cases tok with
  | tokError => exact advances_inr _
  | tokEnd => exact advances_inr _
  | tokLBracket =>
      intro p hp
      refine yields_bind ((clear_parseSectionDesc (sectionInit src) hp).mono fun r p' hr => ?_)
      obtain ⟨tok, s⟩ := r
      obtain ⟨hlater, hmoved⟩ := hr
      dsimp only
      split_ifs with hbracket
      · exact clear_reject ⟨hlater, nofun⟩
      · have hlt := hmoved (fun herror => hbracket (by rw [show tok = .tokError from herror]; decide))
        refine (forward_bind (forward_parseSection mem hfuel pathPrefix s pack)
          (fun _ => forward_ret _) p' hlater.inside).mono fun _ _ hlater' => ?_
        exact ⟨hlater.trans hlater', fun _ => Nat.lt_of_lt_of_le hlt hlater'.head_le⟩
  | _ => exact advances_reject _ _

/-- **The parser of a resource pack ends.** -/
theorem forward_parsePackIni (mem : Alloc) {fuel : Nat} (hfuel : src.length < fuel)
    (pathPrefix : List UInt8) (pack : ResourcePack F) :
    Forward d ops (parsePackIni mem ops fuel pathPrefix pack :
      Ini src F (Int × ResourcePack F)) :=
  forward_scan fun _ p hp =>
    forward_repeatUntil (advances_packRound mem hfuel pathPrefix) hfuel _ p hp

/-! ## Reading a file -/

/-- A parser begins inside of its text. -/
theorem parserInit_inside (ops : FloatOps F) (src : List UInt8) : (parserInit ops src).Inside :=
  ⟨Nat.le_refl _, Nat.zero_le _⟩

/-- Every call of the parser is safe: it reads bytes of the file, and of the token that it
converts, only, and it moves `head` if it returns a token.  The parser ends with a result, or
with a copy that is too large for its destination: this is about what is read, so that a run that
ends in such a write counts as reading well. -/
def ReadsWell (d : Dialect) (ops : FloatOps F) (prog : Ini src F α) : Prop :=
  EverySafe (handle d ops) ScanMoves (fun f => f.write = true) prog (parserInit ops src) ∧
    ((∃ r, run (handle d ops) prog (parserInit ops src) = .ok r) ∨
      ∃ f, f.write = true ∧ run (handle d ops) prog (parserInit ops src) = .error f)

/-- No token begins with a minus sign, no string is open at the end of the file, and each
message is about a line that the file ends. -/
def CallsWell (d : Dialect) (ops : FloatOps F) (prog : Ini src F α) : Prop :=
  Meets (handle d ops) (CalledWell d) prog (parserInit ops src)

instance (d : Dialect) (ops : FloatOps F) (prog : Ini src F α) :
    Decidable (CallsWell d ops prog) :=
  inferInstanceAs (Decidable (Meets _ _ _ _))

/-- **A program that goes forward reads well exactly if its calls are made well.** -/
theorem readsWell_iff {prog : Ini src F α} (h : Forward d ops prog) :
    ReadsWell d ops prog ↔ CallsWell d ops prog := by
  have hinit := parserInit_inside ops src
  have hsafe := everySafe_iff_meets handle_inside (handle_safe_iff d ops) prog hinit
  constructor
  · rintro ⟨hevery, -⟩
    exact meets_mono (fun _ _ => And.left) (hsafe.mp hevery)
  · intro hmeets
    have hevery := hsafe.mpr ((h _ hinit).meets hmeets)
    exact ⟨hevery, run_of_everySafe hevery⟩

/-- **Both parsers read their file well exactly if their calls are made well.** -/
theorem ini_parsers_read_well_iff (ops : FloatOps F) (mem : Alloc) (src : List UInt8) (fuel : Nat)
    (hfuel : src.length < fuel) (server : Settings) (pathPrefix : List UInt8) :
    (ReadsWell serverDialect ops (parseServerIni fuel server : Ini src F (Token × Settings)) ↔
        CallsWell serverDialect ops (parseServerIni fuel server : Ini src F (Token × Settings))) ∧
      (ReadsWell packDialect ops (parsePackIni mem ops fuel pathPrefix resourcePackInit :
          Ini src F (Int × ResourcePack F)) ↔
        CallsWell packDialect ops (parsePackIni mem ops fuel pathPrefix resourcePackInit :
          Ini src F (Int × ResourcePack F))) :=
  ⟨readsWell_iff (forward_parseServerIni hfuel server),
    readsWell_iff (forward_parsePackIni mem hfuel pathPrefix resourcePackInit)⟩

/-! ### Texts -/

/-- Floats without rounding. -/
def exactOps : FloatOps ℚ where
  zero := 0
  one := 1
  timesTenPlus := fun val digit => val * 10 + digit
  tenth := fun scale => scale / 10
  plusScaled := fun val digit scale => val + digit * scale
  signed := fun sign val => sign * val

/-- The record that `server_settings_set_defaults` fills. -/
def defaultSettings : Settings where
  toServerSettings := serverSettingsDefaults
  port := "5555".toList.map ch ++ [0, 0]
  port_length := by decide

def textOf (text : String) : List UInt8 := text.toList.map ch

/-- A negative number is converted from behind the end of its token. -/
def negativeText : List UInt8 := textOf "[server]\nmax_players = -5\n"

/-- A minus sign at the begin of the file is a token without characters. -/
def minusText : List UInt8 := textOf "-\n"

/-- The message about the missing bracket looks for the end of its line. -/
def openText : List UInt8 := textOf "[snake0"

/-- Neither parser reads every text well. -/
theorem not_ini_parsers_read_well :
    ¬ReadsWell serverDialect exactOps
        (parseServerIni 100 defaultSettings : Ini negativeText ℚ (Token × Settings)) ∧
      ¬ReadsWell serverDialect exactOps
        (parseServerIni 100 defaultSettings : Ini minusText ℚ (Token × Settings)) ∧
      ¬ReadsWell packDialect exactOps
        (parsePackIni Alloc.unlimited exactOps 100 [] resourcePackInit :
          Ini openText ℚ (Int × ResourcePack ℚ)) := by
  refine ⟨?_, ?_, ?_⟩
  · rw [readsWell_iff (forward_parseServerIni (by decide) _)]
    decide +kernel
  · rw [readsWell_iff (forward_parseServerIni (by decide) _)]
    decide +kernel
  · rw [readsWell_iff (forward_parsePackIni _ (by decide) _ _)]
    decide +kernel

def serverText : List UInt8 :=
  textOf "; the defaults\n[server]\nmax_players = 600\nport = 5555 # here\n"

def packText : List UInt8 :=
  textOf "[snake0.head.base]\ntextures = \"a.png\", \"b.png\"\ntile = 4,4\n[shaders.hlsl]\n"

/-- The second text ends with a message about its last section. -/
theorem ini_parsers_read_well_samples :
    ReadsWell serverDialect exactOps
        (parseServerIni 100 defaultSettings : Ini serverText ℚ (Token × Settings)) ∧
      ReadsWell packDialect exactOps
        (parsePackIni Alloc.unlimited exactOps 100 (textOf "packs/horror") resourcePackInit :
          Ini packText ℚ (Int × ResourcePack ℚ)) :=
  ⟨(ini_parsers_read_well_iff exactOps Alloc.unlimited serverText 100 (by decide) defaultSettings
      []).1.mpr (by decide +kernel),
    (ini_parsers_read_well_iff exactOps Alloc.unlimited packText 100 (by decide) defaultSettings
      (textOf "packs/horror")).2.mpr (by decide +kernel)⟩

end Clither
