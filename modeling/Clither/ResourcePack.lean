import Clither.Ini
import Clither.Vec

/-!
# The description of a resource pack

The sections of the file are named by up to three keys, and the first of them can end in an
index.  `shaders` lists the files of the shaders.  `background` and `snake` describe a
sprite, in a vector that grows up to the index.

Strings are built in a `str` and collected in a `strlist`.  Their memory is asked for as the
source does; the strings themselves are lists of bytes.
-/

namespace Clither

open Calls Ini

variable {src : List UInt8} {F : Type}

/-! ## Characters -/

def packSpecial (c : UInt8) : Option Token :=
  if c = ch '[' then some .tokLBracket
  else if c = ch ']' then some .tokRBracket
  else if c = ch ',' then some .tokComma
  else if c = ch '.' then some .tokPeriod
  else if c = ch '=' then some .tokEquals
  else none

/-- The scanner of `resource_pack.c`. -/
def packDialect : Dialect where
  special := packSpecial
  quotes := true
  keyChar := isalnum
  keyChar_of_isalpha := fun c h => by rw [isalnum, h, Bool.true_or]
  special_ne := fun c tok h => by
    unfold packSpecial at h
    split_ifs at h <;> cases h <;> decide
  special_minus := by decide
  special_quote := by decide

/-! ## Strings -/

/-- `struct str`: its capacity, which is 0 for the null pointer, and its text without the
NUL. -/
structure Str where
  capacity : Int
  text : List UInt8

def strInit : Str where
  capacity := 0
  text := []

/-- Make room for `size` bytes, which the caller then copies.  The index type of the vector has
16 bits, and a vector of no elements is freed. -/
def strReserve (mem : Alloc) (str : Str) (size : Nat) : Except IniFault (Option Str) :=
  if str.capacity < size then
    let elems := wrapInt 16 size
    if elems = 0 then .error .nullStr
    else if granted mem (4 + elems) then
      if size ≤ elems then .ok (some { str with capacity := elems }) else .error .overflow
    else .ok none
  else .ok (some str)

/-- `str_set_cstr`. -/
def strSetCstr (mem : Alloc) (str : Str) (cstr : List UInt8) : Except IniFault (Option Str) := do
  match ← strReserve mem str (cstr.length + 1) with
  | none => .ok none
  | some str => .ok (some { str with text := cstr })

/-- `str_join_path`.  The byte behind the text is its NUL, and so a slash is always put
between. -/
def strJoinPath (mem : Alloc) (str : Str) (path : List UInt8) : Except IniFault (Option Str) := do
  match ← strReserve mem str (str.text.length + 1 + path.length + 1) with
  | none => .ok none
  | some str => .ok (some { str with text := str.text ++ ch '/' :: path })

/-- `struct strlist`: the bytes for strings and spans together, and the strings. -/
structure StrList where
  capacity : Nat
  strings : List (List UInt8)

def strlistInit : StrList where
  capacity := 0
  strings := []

/-- The bytes that the strings take with their NULs. -/
def StrList.strUsed (l : StrList) : Nat :=
  (l.strings.map fun s => s.length + 1).sum

/-- The loop of `grow`, which doubles the capacity until there is room for `need` bytes.  One
round makes it larger by at least one, so that the bytes that are missing bound the
rounds. -/
def growLoop (mem : Alloc) (need : Nat) : Nat → Nat → Option Nat
  | 0, capacity => some capacity
  | n + 1, capacity =>
      if capacity < need then
        let growSize := if capacity = 0 then 128 else capacity
        if granted mem (wrapInt 32 (capacity + growSize + 12)) then
          growLoop mem need n (capacity + growSize)
        else none
      else some capacity

/-- `strlist_add_cstr`, which copies up to the first NUL. -/
def strlistAddCstr (mem : Alloc) (l : StrList) (cstr : List UInt8) : Option StrList :=
  let str := cstr.takeWhile (· ≠ 0)
  let need := 8 * (l.strings.length + 1) + l.strUsed + str.length + 1
  match growLoop mem need (need - l.capacity) l.capacity with
  | none => none
  | some capacity => some { capacity := capacity, strings := l.strings ++ [str] }

/-! ## The pack -/

/-- `struct resource_sprite`. -/
structure ResourceSprite (F : Type) where
  textures : StrList
  tileX : Int
  tileY : Int
  numFrames : Int
  fps : Int
  scale : F

/-- `resource_sprite_create`. -/
def resourceSpriteCreate (mem : Alloc) (ops : FloatOps F) : Option (ResourceSprite F) :=
  if granted mem 32 then
    some
      { textures := strlistInit
        tileX := 1
        tileY := 1
        numFrames := 1
        fps := 0
        scale := ops.one }
  else none

/-- The layers of a snake part. -/
inductive Layer where
  | base
  | gather
  | boost
  | turn
  | projectile
  | split
  | armor
  deriving DecidableEq

/-- `struct resource_snake_part`.  A layer that does not exist is a null pointer. -/
abbrev ResourceSnakePart (F : Type) := Layer → Option (ResourceSprite F)

/-- `resource_snake_part_init`. -/
def resourceSnakePartInit : ResourceSnakePart F := fun _ => none

/-- The instance behind `resource_sprite_vec`. -/
def spriteVec : VecInstance where
  header := 8
  sizeofElem := 8
  header_lt := ElemType.vecHeader_lt .pointer
  sizeofElem_pos := ElemType.size_pos .pointer

/-- The instance behind `resource_snake_part_vec`. -/
def snakePartVec : VecInstance where
  header := 8
  sizeofElem := 56
  header_lt := ElemType.vecHeader_lt .resourceSnakePart
  sizeofElem_pos := ElemType.size_pos .resourceSnakePart

/-- The parts of a snake. -/
inductive Part where
  | head
  | body
  | tail
  deriving DecidableEq

/-- The files of the shaders. -/
inductive Shader where
  | background
  | shadow
  | sprite
  deriving DecidableEq

/-- `struct resource_pack`. -/
structure ResourcePack (F : Type) where
  glsl : Shader → StrList
  background : Vec spriteVec (Option (ResourceSprite F))
  parts : Part → Vec snakePartVec (ResourceSnakePart F)

/-- `resource_pack_init`. -/
def resourcePackInit : ResourcePack F where
  glsl := fun _ => strlistInit
  background := vecInit
  parts := fun _ => vecInit

/-- Write to an element of a vector. -/
def Vec.setAt {c : VecInstance} {α : Type} (v : Vec c α) (i : Nat) (elem : α) : Vec c α where
  capacity := v.capacity
  items := v.items.set i elem
  capacity_eq := v.capacity_eq
  length_le := by
    rw [List.length_set]
    exact v.length_le

/-- `while (vec_count(v) <= index)` push an element, for as many as are missing. -/
def pushMissing {c : VecInstance} {α : Type} (mem : Alloc) (elem : α) :
    Nat → Vec c α → Bool × Vec c α
  | 0, v => (true, v)
  | n + 1, v => if vecHasSpace mem v then pushMissing mem elem n (vecPush mem v elem) else (false, v)

def missing {c : VecInstance} {α : Type} (index : Int) (v : Vec c α) : Nat :=
  (index + 1 - v.items.length).toNat

/-! ## Values -/

/-- One string of a list, which is stored under the path of the pack. -/
def addPath (mem : Alloc) (pathPrefix : List UInt8) (str : Str) (list : StrList)
    (name : StrView src) : Except IniFault (Option (Str × StrList)) := do
  match ← strSetCstr mem str pathPrefix with
  | none => .ok none
  | some str =>
      match ← strJoinPath mem str name.bytes with
      | none => .ok none
      | some str =>
          match strlistAddCstr mem list str.text with
          | none => .ok none
          | some list => .ok (some (str, list))

/-- A token and, if it is a key, its text. -/
abbrev TokenText (src : List UInt8) := Token × StrView src

/-- A round of `parse_string_list`: a string and the token behind it. -/
def stringListRound (mem : Alloc) (pathPrefix : List UInt8) (state : Str × StrList) :
    Ini src F ((Str × StrList) ⊕ (TokenText src × StrList)) :=
  expect .tokString "Expected a string value\n"
    (.inr ((.tokError, StrView.empty src), state.2)) fun p => do
    match ← lift (addPath mem pathPrefix state.1 state.2 p.value.string) with
    | none => return .inr ((.tokError, StrView.empty src), state.2)
    | some (str, list) =>
        let (tok, p) ← scan
        return if tok = .tokComma then .inl (str, list) else .inr ((tok, p.value.string), list)

/-- `parse_string_list` returns the token that is not a comma. -/
def parseStringList (mem : Alloc) (fuel : Nat) (pathPrefix : List UInt8) (list : StrList) :
    Ini src F (TokenText src × StrList) :=
  Prog.repeatUntil (fail .endless) (stringListRound mem pathPrefix) fuel (strInit, list)

/-- `break` out of the switch over a token leads to the next one. -/
def nextToken {β γ : Type} (state : β) : Ini src F ((TokenText src × β) ⊕ γ) := do
  let (tok, p) ← scan
  return .inl ((tok, p.value.string), state)

/-- The list that a key of the section names. -/
def shaderKeys : List (String × Shader) :=
  [("shadow", .shadow), ("sprite", .sprite), ("background", .background)]

/-- A round of `parse_section_glsl`, from `reswitch_tok` on. -/
def glslRound (mem : Alloc) (fuel : Nat) (pathPrefix : List UInt8)
    (state : TokenText src × (Shader → StrList)) :
    Ini src F ((TokenText src × (Shader → StrList)) ⊕ (Token × (Shader → StrList))) :=
  let ((tok, key), glsl) := state
  match tok with
  | .tokError => return .inr (.tokError, glsl)
  | .tokEnd => return .inr (.tokEnd, glsl)
  | .tokKey =>
      match shaderKeys.find? fun entry => strviewEqCstr key entry.1 with
      | some (_, shader) =>
          expect .tokEquals "Expected '=' after key\n" (.inr (.tokError, glsl)) fun _ => do
            let (next, list) ← parseStringList mem fuel pathPrefix (glsl shader)
            return .inl (next, Function.update glsl shader list)
      | none => reject ("Unknown key \"" ++ key.text ++ "\"\n") (.inr (.tokError, glsl))
  | tok => return .inr (tok, glsl)

def parseSectionGlsl (mem : Alloc) (fuel : Nat) (pathPrefix : List UInt8)
    (glsl : Shader → StrList) : Ini src F (Token × (Shader → StrList)) := do
  let (tok, p) ← scan
  Prog.repeatUntil (fail .endless) (glslRound mem fuel pathPrefix) fuel
    ((tok, p.value.string), glsl)

/-- A key of a sprite with one number. -/
def parseSpriteNumber (tok : Token) (text : String) (sprite : ResourceSprite F)
    (store : Parser src F → ResourceSprite F) :
    Ini src F ((TokenText src × ResourceSprite F) ⊕ (Token × ResourceSprite F)) :=
  expect .tokEquals "Expected '=' after key\n" (.inr (.tokError, sprite)) fun _ =>
    expect tok text (.inr (.tokError, sprite)) fun p => nextToken (store p)

/-- The key `tile` has two numbers. -/
def parseSpriteTile (sprite : ResourceSprite F) :
    Ini src F ((TokenText src × ResourceSprite F) ⊕ (Token × ResourceSprite F)) :=
  expect .tokEquals "Expected '=' after key\n" (.inr (.tokError, sprite)) fun _ =>
    expect .tokInteger "Expected an integer value. Example: tile = 4,4\n"
      (.inr (.tokError, sprite)) fun p =>
      let sprite := { sprite with tileX := p.value.integerLiteral }
      expect .tokComma "Expected a comma after the first tile value\n"
        (.inr (.tokError, sprite)) fun _ =>
        expect .tokInteger "Expected an integer value. Example: tile = 4,4\n"
          (.inr (.tokError, sprite)) fun p =>
          nextToken { sprite with tileY := p.value.integerLiteral }

/-- A key of a sprite. -/
def parseSpriteKey (mem : Alloc) (fuel : Nat) (pathPrefix : List UInt8) (key : StrView src)
    (sprite : ResourceSprite F) :
    Ini src F ((TokenText src × ResourceSprite F) ⊕ (Token × ResourceSprite F)) :=
  if strviewEqCstr key "textures" then
    expect .tokEquals "Expected '=' after key\n" (.inr (.tokError, sprite)) fun _ => do
      let (next, list) ← parseStringList mem fuel pathPrefix sprite.textures
      return .inl (next, { sprite with textures := list })
  else if strviewEqCstr key "tile" then parseSpriteTile sprite
  else if strviewEqCstr key "frames" then
    parseSpriteNumber .tokInteger "Expected an integer value. Example: frames = 16\n" sprite
      fun p => { sprite with numFrames := p.value.integerLiteral }
  else if strviewEqCstr key "fps" then
    parseSpriteNumber .tokInteger "Expected an integer value. Example: fps = 20\n" sprite
      fun p => { sprite with fps := p.value.integerLiteral }
  else if strviewEqCstr key "scale" then
    parseSpriteNumber .tokFloat "Expected a float value. Example: scale = 2.0\n" sprite
      fun p => { sprite with scale := p.value.floatLiteral }
  else reject ("Unknown key \"" ++ key.text ++ "\"\n") (.inr (.tokError, sprite))

/-- A round of `parse_section_sprite`, from `reswitch_tok` on. -/
def spriteRound (mem : Alloc) (fuel : Nat) (pathPrefix : List UInt8)
    (state : TokenText src × ResourceSprite F) :
    Ini src F ((TokenText src × ResourceSprite F) ⊕ (Token × ResourceSprite F)) :=
  let ((tok, key), sprite) := state
  match tok with
  | .tokError => return .inr (.tokError, sprite)
  | .tokEnd => return .inr (.tokEnd, sprite)
  | .tokKey => parseSpriteKey mem fuel pathPrefix key sprite
  | tok => return .inr (tok, sprite)

def parseSectionSprite (mem : Alloc) (fuel : Nat) (pathPrefix : List UInt8)
    (sprite : ResourceSprite F) : Ini src F (Token × ResourceSprite F) := do
  let (tok, p) ← scan
  Prog.repeatUntil (fail .endless) (spriteRound mem fuel pathPrefix) fuel
    ((tok, p.value.string), sprite)

/-! ## Sections -/

/-- `struct section`. -/
structure IniSection (src : List UInt8) where
  name : StrView src
  subsection : StrView src
  subsubsection : StrView src
  sectionIndex : Int

/-- `section_init`. -/
def sectionInit (src : List UInt8) : IniSection src where
  name := StrView.empty src
  subsection := StrView.empty src
  subsubsection := StrView.empty src
  sectionIndex := -1

/-- The loop that looks for the digits at the end of a key.  It goes back as far as there are
digits, and a key begins with a letter. -/
def firstDigit (src : List UInt8) : Nat → Except IniFault Nat
  | 0 => .ok 0
  | n + 1 => do
      let c ← Scan.readAt .outsideSource src n
      if isdigit c then firstDigit src n else .ok (n + 1)

/-- `parse_section_name_and_index`. -/
def parseSectionNameAndIndex (s : IniSection src) (key : StrView src) :
    Except IniFault (IniSection src) := do
  let first ← firstDigit src (key.off + key.len)
  let name ← strview src key.off (first - key.off)
  if first < key.off + key.len then do
    let digits ← strview src first (key.off + key.len - first)
    let index ← strviewToInteger digits
    .ok { s with name := name, sectionIndex := index }
  else .ok { s with name := name, sectionIndex := -1 }

/-- `parse_section_desc`, which returns the token behind the description. -/
def parseSectionDesc (s : IniSection src) : Ini src F (Token × IniSection src) :=
  expect .tokKey "Expected a section name within the brackets. Example: [section]\n"
    (.tokError, s) fun p => do
    let s ← lift (parseSectionNameAndIndex s p.value.string)
    let (tok, _) ← scan
    if tok ≠ .tokPeriod then return (tok, s)
    else
      expect .tokKey
        "Expected a subsection name after the period. Example: [section.subsection]\n"
        (.tokError, s) fun p => do
        let s := { s with subsection := p.value.string }
        let (tok, _) ← scan
        if tok ≠ .tokPeriod then return (tok, s)
        else
          expect .tokKey ("Expected a subsubsection name after the period. " ++
              "Example: [section.subsection.subsubsection]\n")
            (.tokError, s) fun p => do
            let s := { s with subsubsection := p.value.string }
            let (tok, _) ← scan
            return (tok, s)

/-- `return print_error(...)` with the location of a view. -/
def rejectView {α : Type} (str : StrView src) (text : String) (onError : α) : Ini src F α := do
  printError str.off str.len text
  return onError

/-- The sprite in a slot, or a new one. -/
def spriteOrNew (mem : Alloc) (ops : FloatOps F) :
    Option (ResourceSprite F) → Option (ResourceSprite F)
  | some sprite => some sprite
  | none => resourceSpriteCreate mem ops

def parseShaders (mem : Alloc) (fuel : Nat) (pathPrefix : List UInt8) (s : IniSection src)
    (pack : ResourcePack F) : Ini src F (Token × ResourcePack F) :=
  if strviewEqCstr s.subsection "glsl" then do
    let (tok, glsl) ← parseSectionGlsl mem fuel pathPrefix pack.glsl
    return (tok, { pack with glsl := glsl })
  else if s.subsection.len = 0 then
    rejectView s.name ("Section 'shaders' requires a subsection for the shader language. " ++
      "Example: [shaders.glsl]\n") (.tokError, pack)
  else
    rejectView s.subsection ("Unknown subsection \"" ++ s.subsection.text ++ "\"\n")
      (.tokError, pack)

def parseBackground (mem : Alloc) (ops : FloatOps F) (fuel : Nat) (pathPrefix : List UInt8)
    (s : IniSection src) (pack : ResourcePack F) : Ini src F (Token × ResourcePack F) :=
  if s.sectionIndex < 0 then
    rejectView s.name "Section 'background' requires an index. Example: [background0]\n"
      (.tokError, pack)
  else
    match pushMissing mem none (missing s.sectionIndex pack.background) pack.background with
    | (false, v) => return (.tokError, { pack with background := v })
    | (true, v) =>
        match v.items[s.sectionIndex.toNat]? with
        | none => fail .outsideVec
        | some bg =>
            match spriteOrNew mem ops bg with
            | none => return (.tokError, { pack with background := v })
            | some sprite => do
                let (tok, sprite) ← parseSectionSprite mem fuel pathPrefix sprite
                let v := v.setAt s.sectionIndex.toNat (some sprite)
                return (tok, { pack with background := v })

def partKeys : List (String × Part) :=
  [("head", .head), ("body", .body), ("tail", .tail)]

def layerKeys : List (String × Layer) :=
  [("base", .base), ("gather", .gather), ("boost", .boost), ("turn", .turn),
    ("projectile", .projectile), ("split", .split), ("armor", .armor)]

/-- The loops over the heads, the bodies and the tails. -/
def growParts (mem : Alloc) (index : Int) :
    List Part → (Part → Vec snakePartVec (ResourceSnakePart F)) →
      Bool × (Part → Vec snakePartVec (ResourceSnakePart F))
  | [], parts => (true, parts)
  | part :: rest, parts =>
      match pushMissing mem resourceSnakePartInit (missing index (parts part)) (parts part) with
      | (false, v) => (false, Function.update parts part v)
      | (true, v) => growParts mem index rest (Function.update parts part v)

/-- The layer of a part that exists. -/
def parseLayer (mem : Alloc) (ops : FloatOps F) (fuel : Nat) (pathPrefix : List UInt8)
    (s : IniSection src) (part : Part) (pack : ResourcePack F) (snakePart : ResourceSnakePart F) :
    Ini src F (Token × ResourcePack F) :=
  match layerKeys.find? fun entry => strviewEqCstr s.subsubsection entry.1 with
  | none =>
      rejectView s.subsubsection ("Unknown snake part \"" ++ s.subsubsection.text ++
        "\". Know 'base', 'gather', 'boost', 'turn', 'projectile', 'split', and 'armor'\n")
        (.tokError, pack)
  | some (_, layer) =>
      match spriteOrNew mem ops (snakePart layer) with
      | none => return (.tokError, pack)
      | some sprite => do
          let (tok, sprite) ← parseSectionSprite mem fuel pathPrefix sprite
          let v := (pack.parts part).setAt s.sectionIndex.toNat
            (Function.update snakePart layer (some sprite))
          return (tok, { pack with parts := Function.update pack.parts part v })

def parseSnake (mem : Alloc) (ops : FloatOps F) (fuel : Nat) (pathPrefix : List UInt8)
    (s : IniSection src) (pack : ResourcePack F) : Ini src F (Token × ResourcePack F) :=
  if s.sectionIndex < 0 then
    rejectView s.name "Section 'snake' requires an index. Example: [snake0.head.base]\n"
      (.tokError, pack)
  else
    match partKeys.find? fun entry => strviewEqCstr s.subsection entry.1 with
    | none =>
        rejectView s.subsection ("Unknown snake part \"" ++ s.subsection.text ++
          "\". Know 'head', 'body', and 'tail'\n") (.tokError, pack)
    | some (_, part) =>
        match growParts mem s.sectionIndex [.head, .body, .tail] pack.parts with
        | (false, parts) => return (.tokError, { pack with parts := parts })
        | (true, parts) =>
            match (parts part).items[s.sectionIndex.toNat]? with
            | none => fail .outsideVec
            | some snakePart =>
                parseLayer mem ops fuel pathPrefix s part { pack with parts := parts } snakePart

/-- `parse_section`. -/
def parseSection (mem : Alloc) (ops : FloatOps F) (fuel : Nat) (pathPrefix : List UInt8)
    (s : IniSection src) (pack : ResourcePack F) : Ini src F (Token × ResourcePack F) :=
  if strviewEqCstr s.name "shaders" then parseShaders mem fuel pathPrefix s pack
  else if strviewEqCstr s.name "background" then parseBackground mem ops fuel pathPrefix s pack
  else if strviewEqCstr s.name "snake" then parseSnake mem ops fuel pathPrefix s pack
  else
    rejectView s.name ("Unknown section \"" ++ s.name.text ++ "\"\n") (.tokError, pack)

/-- A round of `parse_ini`, from `reswitch_tok` on. -/
def packRound (mem : Alloc) (ops : FloatOps F) (fuel : Nat) (pathPrefix : List UInt8)
    (state : Token × ResourcePack F) :
    Ini src F ((Token × ResourcePack F) ⊕ (Int × ResourcePack F)) :=
  match state.1 with
  | .tokError => return .inr (-1, state.2)
  | .tokEnd => return .inr (0, state.2)
  | .tokLBracket => do
      let (tok, s) ← parseSectionDesc (sectionInit src)
      if tok ≠ .tokRBracket then reject "Missing closing bracket ']'\n" (.inr (-1, state.2))
      else do
        let next ← parseSection mem ops fuel pathPrefix s state.2
        return .inl next
  | _ =>
      reject ("Unexpected token encountered. Expected a section name. " ++
        "Example: [section.subsection]\n") (.inr (-1, state.2))

/-- `parse_ini`. -/
def parsePackIni (mem : Alloc) (ops : FloatOps F) (fuel : Nat) (pathPrefix : List UInt8)
    (pack : ResourcePack F) : Ini src F (Int × ResourcePack F) := do
  let (tok, _) ← scan
  Prog.repeatUntil (fail .endless) (packRound mem ops fuel pathPrefix) fuel (tok, pack)

end Clither
