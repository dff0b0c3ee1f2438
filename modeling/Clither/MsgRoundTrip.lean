import Clither.Msg

/-!
# Messages with a fixed layout

Five messages consist of numbers only, each at its own place in the payload.
What the receiver reads there is what the sender wrote, if the numbers fit into
the bytes that they get: coordinates are signed numbers of 24 bits, angles of
16, and the index of a bezier handle is not negative.

`rebuild` passes the fields of a parsed payload to the function that builds such
a message.  `fixed_round_trip` says that parsing and building undo each other,
one way for all fields in range and the other way for all payloads of the right
length.
-/

namespace Clither

/-- A signed 24-bit number. -/
def In24 (x : Int) : Prop :=
  -2 ^ 23 ≤ x ∧ x < 2 ^ 23

/-- A signed 16-bit number. -/
def In16 (x : Int) : Prop :=
  -2 ^ 15 ≤ x ∧ x < 2 ^ 15

def QwPos.InRange (p : QwPos) : Prop :=
  In24 p.x ∧ In24 p.y

/-! ## Reading back -/

/-- The byte of an integer is its residue modulo 256. -/
theorem toNat_ofInt_byte (x : Int) : ((UInt8.ofInt x).toNat : Int) = x % 256 := by
  have hlow : 0 ≤ x % 256 := Int.emod_nonneg x (by decide)
  have hlt : (x % 256).toNat < 256 := by omega
  have h : (UInt8.ofInt x).toNat = (x % 256).toNat := UInt8.toNat_ofNat_of_lt' hlt
  rw [h]
  exact Int.toNat_of_nonneg hlow

/-- The sign bit of a byte. -/
theorem sign_bit (b : UInt8) : b &&& 0x80 ≠ 0 ↔ 128 ≤ b.toNat := by
  have h : ∀ n : Fin 256, UInt8.ofNat n.val &&& 0x80 ≠ 0 ↔ 128 ≤ n.val := by decide +kernel
  simpa using h ⟨b.toNat, b.toNat_lt⟩

/-- An integer of 24 bits is read back from its bytes. -/
theorem read24_bytes24 {x : Int} (h : In24 x) :
    read24 (UInt8.ofInt (x >>> (16 : Nat))) (UInt8.ofInt (x >>> (8 : Nat))) (UInt8.ofInt x) = x := by
  obtain ⟨hlow, hhigh⟩ := h
  have h2 := toNat_ofInt_byte (x >>> (16 : Nat))
  have h1 := toNat_ofInt_byte (x >>> (8 : Nat))
  have h0 := toNat_ofInt_byte x
  simp only [read24, sign_bit, Int.shiftRight_eq_div_pow] at h1 h2 ⊢
  push_cast at h1 h2 ⊢
  split <;> omega

/-- Two bytes of a signed number. -/
theorem wrapInt_read16 {x : Int} (h : In16 x) :
    wrapInt 16 (read16 (UInt8.ofInt (x >>> (8 : Nat))) (UInt8.ofInt x)).toNat = x := by
  obtain ⟨hlow, hhigh⟩ := h
  have h1 := toNat_ofInt_byte (x >>> (8 : Nat))
  have h0 := toNat_ofInt_byte x
  rw [toNat_read16, wrapInt, Int.bmod]
  simp only [Int.shiftRight_eq_div_pow] at h1 ⊢
  push_cast at h1 ⊢
  split <;> omega

/-- A wrapped integer fits 16 bits. -/
theorem in16_wrapInt (x : Int) : In16 (wrapInt 16 x) := by
  have hlow := @Int.le_bmod x (2 ^ 16) (by decide)
  have hhigh := @Int.bmod_lt x (2 ^ 16) (by decide)
  constructor
  · exact hlow
  · exact hhigh

/-- What three bytes are read as fits 24 bits. -/
theorem in24_read24 (b₀ b₁ b₂ : UInt8) : In24 (read24 b₀ b₁ b₂) := by
  have h₀ := b₀.toNat_lt
  have h₁ := b₁.toNat_lt
  have h₂ := b₂.toNat_lt
  simp only [In24, read24, sign_bit]
  push_cast
  split <;> omega

/-- Two bytes are written back from what they are read as. -/
theorem bytes16_read16 (hi lo : UInt8) : bytes16 (read16 hi lo) = [hi, lo] := by
  have hhi := hi.toNat_lt
  have hlo := lo.toNat_lt
  have hread := toNat_read16 hi lo
  have hfirst : (read16 hi lo >>> 8).toUInt8 = hi := by
    apply UInt8.toNat_inj.mp
    rw [UInt16.toNat_toUInt8, UInt16.toNat_shiftRight, hread, Nat.shiftRight_eq_div_pow]
    show (hi.toNat * 2 ^ 8 + lo.toNat) / 2 ^ 8 % 2 ^ 8 = hi.toNat
    omega
  have hsecond : (read16 hi lo).toUInt8 = lo := by
    apply UInt8.toNat_inj.mp
    rw [UInt16.toNat_toUInt8, hread]
    omega
  rw [bytes16, hfirst, hsecond]

/-- A byte of a number is determined by the number modulo 256. -/
theorem ofInt_eq_byte {x : Int} {b : UInt8} (h : x % 256 = b.toNat) : UInt8.ofInt x = b := by
  apply UInt8.toNat_inj.mp
  have hbyte := toNat_ofInt_byte x
  omega

/-- So are three bytes. -/
theorem bytes24_read24 (b₀ b₁ b₂ : UInt8) : bytes24 (read24 b₀ b₁ b₂) = [b₀, b₁, b₂] := by
  have h₀ := b₀.toNat_lt
  have h₁ := b₁.toNat_lt
  have h₂ := b₂.toNat_lt
  have hread : ∃ top : Int, read24 b₀ b₁ b₂ =
      top * 2 ^ 24 + (b₀.toNat * 2 ^ 16 + b₁.toNat * 2 ^ 8 + b₂.toNat : Nat) := by
    unfold read24
    by_cases hsign : b₀ &&& 0x80 ≠ 0
    · exact ⟨-1, by rw [if_pos hsign]; ring⟩
    · exact ⟨0, by rw [if_neg hsign]; ring⟩
  obtain ⟨top, hread⟩ := hread
  push_cast at hread
  have hfirst : UInt8.ofInt (read24 b₀ b₁ b₂ >>> (16 : Nat)) = b₀ := by
    apply ofInt_eq_byte
    rw [Int.shiftRight_eq_div_pow, hread]
    omega
  have hsecond : UInt8.ofInt (read24 b₀ b₁ b₂ >>> (8 : Nat)) = b₁ := by
    apply ofInt_eq_byte
    rw [Int.shiftRight_eq_div_pow, hread]
    omega
  have hthird : UInt8.ofInt (read24 b₀ b₁ b₂) = b₂ := by
    apply ofInt_eq_byte
    rw [hread]
    omega
  rw [bytes24, hfirst, hsecond, hthird]

/-- The two bytes of an angle. -/
theorem bytes_wrapInt_read16 (hi lo : UInt8) :
    UInt8.ofInt (wrapInt 16 (read16 hi lo).toNat >>> (8 : Nat)) = hi ∧
      UInt8.ofInt (wrapInt 16 (read16 hi lo).toNat) = lo := by
  have hhi := hi.toNat_lt
  have hlo := lo.toNat_lt
  have hread : ∃ top : Int, wrapInt 16 (read16 hi lo).toNat =
      top * 2 ^ 16 + (hi.toNat * 2 ^ 8 + lo.toNat : Nat) := by
    rw [toNat_read16, wrapInt, Int.bmod_def]
    push_cast
    split
    · exact ⟨0, by omega⟩
    · exact ⟨-1, by omega⟩
  obtain ⟨top, hread⟩ := hread
  push_cast at hread
  constructor
  · apply ofInt_eq_byte
    rw [Int.shiftRight_eq_div_pow, hread]
    omega
  · apply ofInt_eq_byte
    rw [hread]
    omega

/-! ## Parsing what was built -/

/-- **A `MSG_SNAKE_HEAD` can be read back** if the position fits into 24 bits. -/
theorem parse_msgSnakeHead {head : SnakeHead} (hpos : head.pos.InRange) (hangle : In16 head.angle)
    (frame : UInt16) :
    msgParsePayload MsgType.snakeHead.toByte (msgSnakeHead head frame).payload =
      .ok (.snakeHead head frame) := by
  have hx := read24_bytes24 hpos.1
  have hy := read24_bytes24 hpos.2
  have ha := wrapInt_read16 hangle
  have hf := read16_bytes16 frame
  rw [msgSnakeHead, payload_msgAlloc (by simp [bytes16, bytes24])]
  rw [msgParsePayload, MsgType.ofByte_toByte]
  simp only [bytes16, bytes24, List.cons_append, List.nil_append, List.length_cons,
    List.length_nil, payload24, payload16, payloadAngle, payloadAt, List.getD_cons_succ,
    List.getD_cons_zero, hx, hy, ha, hf]
  rfl

/-- The receiver reads the handle that was sent. -/
theorem parse_msgSnakeBezier {handle : BezierHandle} (hpos : handle.pos.InRange)
    (hangle : In16 handle.angle) (snakeId : UInt16) {handleId : Nat} (hid : handleId < 2 ^ 15) :
    msgParsePayload MsgType.snakeBezier.toByte
        (msgSnakeBezier snakeId (UInt16.ofNat handleId) handle).payload =
      .ok (.snakeBezier snakeId handleId handle.pos handle.angle handle.lenBackwards
        handle.lenForwards) := by
  have hx := read24_bytes24 hpos.1
  have hy := read24_bytes24 hpos.2
  have ha := wrapInt_read16 hangle
  have hs := read16_bytes16 snakeId
  have hi := read16_bytes16 (UInt16.ofNat handleId)
  have hidx : wrapInt 16 (UInt16.ofNat handleId).toNat = handleId := by
    rw [UInt16.toNat_ofNat_of_lt' (by show handleId < 2 ^ 16; omega)]
    exact wrapInt_of_lt (by decide) (by omega) (by exact_mod_cast hid)
  rw [msgSnakeBezier, payload_msgAlloc (by simp [bytes16, bytes24])]
  rw [msgParsePayload, MsgType.ofByte_toByte]
  simp only [bytes16, bytes24, List.cons_append, List.nil_append, List.length_cons,
    List.length_nil, payload24, payload16, payloadAngle, payloadAt, List.getD_cons_succ,
    List.getD_cons_zero, hx, hy, ha, hs, hi, hidx]
  rw [if_neg (by decide), if_neg (by omega)]

/-- Only the position can change on the way. -/
theorem parse_msgJoinAccept_spawn (simTickRate netTickRate : UInt8)
    (clientFrame serverFrame snakeId : UInt16) (spawn : QwPos) :
    msgParsePayload MsgType.joinAccept.toByte
        (msgJoinAccept simTickRate netTickRate clientFrame serverFrame snakeId spawn).payload =
      .ok (.joinAccept simTickRate netTickRate clientFrame serverFrame snakeId
        { x := payload24 (bytes24 spawn.x) 0, y := payload24 (bytes24 spawn.y) 0 }) := by
  have hclient := read16_bytes16 clientFrame
  have hserver := read16_bytes16 serverFrame
  have hid := read16_bytes16 snakeId
  rw [msgJoinAccept, payload_msgAlloc (by simp [bytes16, bytes24])]
  rw [msgParsePayload, MsgType.ofByte_toByte]
  simp only [bytes16, bytes24, List.cons_append, List.nil_append, List.length_cons,
    List.length_nil, payload24, payload16, payloadAt, List.getD_cons_succ, List.getD_cons_zero,
    hclient, hserver, hid]
  rfl

/-- The receiver reads the six fields that were sent. -/
theorem parse_msgJoinAccept {spawn : QwPos} (hspawn : spawn.InRange)
    (simTickRate netTickRate : UInt8) (clientFrame serverFrame snakeId : UInt16) :
    msgParsePayload MsgType.joinAccept.toByte
        (msgJoinAccept simTickRate netTickRate clientFrame serverFrame snakeId spawn).payload =
      .ok (.joinAccept simTickRate netTickRate clientFrame serverFrame snakeId spawn) := by
  have hx : payload24 (bytes24 spawn.x) 0 = spawn.x := read24_bytes24 hspawn.1
  have hy : payload24 (bytes24 spawn.y) 0 = spawn.y := read24_bytes24 hspawn.2
  rw [parse_msgJoinAccept_spawn, hx, hy]

/-- The receiver reads the frame and the signed diff that were sent. -/
theorem parse_msgFeedback (diff : Int8) (frameNumber : UInt16) :
    msgParsePayload MsgType.feedback.toByte (msgFeedback diff frameNumber).payload =
      .ok (.feedback frameNumber diff) := by
  have hframe := read16_bytes16 frameNumber
  rw [msgFeedback, payload_msgAlloc (by simp [bytes16])]
  rw [msgParsePayload, MsgType.ofByte_toByte]
  simp only [bytes16, List.cons_append, List.nil_append, List.length_cons, List.length_nil,
    payload16, payloadAt, List.getD_cons_succ, List.getD_cons_zero, hframe]
  rfl

/-- The receiver reads the handle id that was sent. -/
theorem parse_msgSnakeBezierAck (handleIdx : UInt16) :
    msgParsePayload MsgType.snakeBezierAck.toByte (msgSnakeBezierAck handleIdx).payload =
      .ok (.snakeBezierAck handleIdx) := by
  have hidx := read16_bytes16 handleIdx
  rw [msgSnakeBezierAck, payload_msgAlloc (by simp [bytes16])]
  rw [msgParsePayload, MsgType.ofByte_toByte]
  simp only [bytes16, List.length_cons, List.length_nil, payload16, payloadAt,
    List.getD_cons_succ, List.getD_cons_zero, hidx]
  rfl

/-! ## Building from what was parsed -/

/-- The message that is built from the fields of a parsed payload, for the
messages with a fixed layout. -/
def rebuild : ParsedPayload → Option Msg
  | .joinAccept simTickRate netTickRate clientFrame serverFrame snakeId spawn =>
      some (msgJoinAccept simTickRate netTickRate clientFrame serverFrame snakeId spawn)
  | .feedback frameNumber diff => some (msgFeedback diff frameNumber)
  | .snakeHead head frameNumber => some (msgSnakeHead head frameNumber)
  | .snakeBezier snakeId handleIdx pos angle lenBackwards lenForwards =>
      some (msgSnakeBezier snakeId (UInt16.ofInt handleIdx)
        { pos := pos, angle := angle, lenBackwards := lenBackwards, lenForwards := lenForwards })
  | .snakeBezierAck handleIdx => some (msgSnakeBezierAck handleIdx)
  | _ => none

/-- The numbers that are wider in memory than on the wire are in range. -/
def ParsedPayload.InRange : ParsedPayload → Prop
  | .joinAccept _ _ _ _ _ spawn => spawn.InRange
  | .snakeHead head _ => head.pos.InRange ∧ In16 head.angle
  | .snakeBezier _ handleIdx pos angle _ _ =>
      pos.InRange ∧ In16 angle ∧ 0 ≤ handleIdx ∧ handleIdx < 2 ^ 15
  | _ => True

/-- A natural number below 2¹⁵ is the same through an integer. -/
theorem ofInt_natCast_of_lt {n : Nat} (h : n < 2 ^ 15) :
    UInt16.ofInt (n : Int) = UInt16.ofNat n := by
  have hmod : ((n : Int) % (2 ^ 16)).toNat = n := by omega
  rw [UInt16.ofInt, hmod]

/-- Parsing a message that was built gives back its fields. -/
theorem parse_rebuild {pp : ParsedPayload} {m : Msg} (hbuild : rebuild pp = some m)
    (hrange : pp.InRange) : msgParsePayload m.type.toByte m.payload = .ok pp := by
  cases pp with
  | joinAccept simTickRate netTickRate clientFrame serverFrame snakeId spawn =>
      cases hbuild
      exact parse_msgJoinAccept hrange _ _ _ _ _
  | feedback frameNumber diff =>
      cases hbuild
      exact parse_msgFeedback diff frameNumber
  | snakeHead head frameNumber =>
      cases hbuild
      exact parse_msgSnakeHead hrange.1 hrange.2 frameNumber
  | snakeBezier snakeId handleIdx pos angle lenBackwards lenForwards =>
      cases hbuild
      obtain ⟨hpos, hangle, hlow, hhigh⟩ := hrange
      obtain ⟨handleId, rfl⟩ := Int.eq_ofNat_of_zero_le hlow
      have hid := ofInt_natCast_of_lt (by exact_mod_cast hhigh)
      rw [hid]
      exact parse_msgSnakeBezier hpos hangle snakeId (by exact_mod_cast hhigh)
  | snakeBezierAck handleIdx =>
      cases hbuild
      exact parse_msgSnakeBezierAck handleIdx
  | joinRequest | joinDeny | command | unparsed => cases hbuild

/-- A payload is known by its bytes. -/
theorem eq_payload {bytes payload : List UInt8} (hlength : payload.length = bytes.length)
    (h : bytes = (List.range bytes.length).map (payloadAt payload)) : bytes = payload := by
  refine h.trans (List.ext_getElem ?_ ?_)
  · rw [List.length_map, List.length_range, hlength]
  · intro i hi hi'
    rw [List.getElem_map, List.getElem_range, payloadAt, List.getD_eq_getElem?_getD,
      List.getElem?_eq_getElem hi', Option.getD_some]

/-- A 16-bit field writes back its two bytes of the payload. -/
theorem bytes16_payload16 (payload : List UInt8) (i : Nat) :
    bytes16 (payload16 payload i) = [payloadAt payload i, payloadAt payload (i + 1)] :=
  bytes16_read16 _ _

/-- A 24-bit field writes back its three bytes of the payload. -/
theorem bytes24_payload24 (payload : List UInt8) (i : Nat) :
    bytes24 (payload24 payload i) =
      [payloadAt payload i, payloadAt payload (i + 1), payloadAt payload (i + 2)] :=
  bytes24_read24 _ _ _

/-- Going through a signed 16-bit integer keeps an unsigned one. -/
theorem ofInt_wrapInt_toNat (x : UInt16) : UInt16.ofInt (wrapInt 16 x.toNat) = x := by
  have hx := x.toNat_lt
  apply UInt16.toNat_inj.mp
  have hmod : wrapInt 16 x.toNat % (2 ^ 16) = x.toNat := by
    rw [wrapInt, Int.bmod_def]
    push_cast
    split <;> omega
  rw [UInt16.ofInt, hmod, Int.toNat_natCast, UInt16.ofNat_toNat]

/-- Building from the fields of a payload gives back the payload. -/
theorem rebuild_parse {pp : ParsedPayload} {m : Msg} (hbuild : rebuild pp = some m)
    {payload : List UInt8} (hlength : payload.length = m.payload.length)
    (hparse : msgParsePayload m.type.toByte payload = .ok pp) : m.payload = payload := by
  cases pp with
  | joinAccept simTickRate netTickRate clientFrame serverFrame snakeId spawn =>
      cases hbuild
      rw [show (msgJoinAccept _ _ _ _ _ _).type = .joinAccept from rfl, msgParsePayload,
        MsgType.ofByte_toByte] at hparse
      cases of_ite_error hparse
      rw [msgJoinAccept, payload_msgAlloc (by simp [bytes16, bytes24])] at hlength ⊢
      refine eq_payload hlength ?_
      simp only [bytes16_payload16, bytes24_payload24]
      rfl
  | feedback frameNumber diff =>
      cases hbuild
      rw [show (msgFeedback _ _).type = .feedback from rfl, msgParsePayload,
        MsgType.ofByte_toByte] at hparse
      cases of_ite_error hparse
      rw [msgFeedback, payload_msgAlloc (by simp [bytes16])] at hlength ⊢
      refine eq_payload hlength ?_
      simp only [bytes16_payload16]
      rfl
  | snakeHead head frameNumber =>
      cases hbuild
      rw [show (msgSnakeHead _ _).type = .snakeHead from rfl, msgParsePayload,
        MsgType.ofByte_toByte] at hparse
      cases of_ite_error hparse
      obtain ⟨hhi, hlo⟩ := bytes_wrapInt_read16 (payloadAt payload 8) (payloadAt payload 9)
      rw [msgSnakeHead, payload_msgAlloc (by simp [bytes16, bytes24])] at hlength ⊢
      refine eq_payload hlength ?_
      simp only [bytes16_payload16, bytes24_payload24, payloadAngle]
      simp only [payload16, hhi, hlo]
      rfl
  | snakeBezier snakeId handleIdx pos angle lenBackwards lenForwards =>
      cases hbuild
      rw [show (msgSnakeBezier _ _ _).type = .snakeBezier from rfl, msgParsePayload,
        MsgType.ofByte_toByte] at hparse
      cases of_ite_error (of_ite_error hparse)
      obtain ⟨hhi, hlo⟩ := bytes_wrapInt_read16 (payloadAt payload 10) (payloadAt payload 11)
      rw [msgSnakeBezier, payload_msgAlloc (by simp [bytes16, bytes24])] at hlength ⊢
      refine eq_payload hlength ?_
      simp only [ofInt_wrapInt_toNat, bytes16_payload16, bytes24_payload24, payloadAngle]
      simp only [payload16, hhi, hlo]
      rfl
  | snakeBezierAck handleIdx =>
      cases hbuild
      rw [show (msgSnakeBezierAck _).type = .snakeBezierAck from rfl, msgParsePayload,
        MsgType.ofByte_toByte] at hparse
      cases of_ite_error hparse
      rw [msgSnakeBezierAck, payload_msgAlloc (by simp [bytes16])] at hlength ⊢
      refine eq_payload hlength ?_
      simp only [bytes16_payload16]
      rfl
  | joinRequest | joinDeny | command | unparsed => cases hbuild

/-- **Messages with a fixed layout round trip.** -/
theorem fixed_round_trip (pp : ParsedPayload) (m : Msg) (hbuild : rebuild pp = some m) :
    (pp.InRange → msgParsePayload m.type.toByte m.payload = .ok pp) ∧
    ∀ payload : List UInt8, payload.length = m.payload.length →
      msgParsePayload m.type.toByte payload = .ok pp → m.payload = payload :=
  ⟨parse_rebuild hbuild, fun _ => rebuild_parse hbuild⟩

/-- The smallest position, and a negative angle. -/
theorem fixed_round_trip_bezier :
    msgParsePayload MsgType.snakeBezier.toByte
        (msgSnakeBezier 513 0x7FFF ⟨⟨-2 ^ 23, 2 ^ 23 - 1⟩, -12867, 255, 1⟩).payload =
      .ok (.snakeBezier 513 0x7FFF ⟨-2 ^ 23, 2 ^ 23 - 1⟩ (-12867) 255 1) ∧
    (msgSnakeBezier 513 0x7FFF ⟨⟨-2 ^ 23, 2 ^ 23 - 1⟩, -12867, 255, 1⟩).payload =
      [2, 1, 127, 255, 128, 0, 0, 127, 255, 255, 205, 189, 255, 1] :=
  have h := fixed_round_trip (.snakeBezier 513 0x7FFF ⟨-2 ^ 23, 2 ^ 23 - 1⟩ (-12867) 255 1) _ rfl
  ⟨h.1 ⟨⟨⟨by decide, by decide⟩, by decide, by decide⟩, ⟨by decide, by decide⟩, by decide,
    by decide⟩, h.2 _ rfl (by decide +kernel)⟩

end Clither
