import Clither.SnakeHead

/-!
# Messages

A message has a type and a payload of at most 255 bytes.  Multi-byte numbers are
written with the most significant byte first; world coordinates take 24 bits.

`msgParsePayload` checks a payload that has arrived and takes it apart.  The
types that it has nothing to check for pass as they are, and so do bytes that
are no type at all.
-/

namespace Clither

/-- `enum msg_type`. -/
inductive MsgType where
  | joinRequest
  | joinAccept
  | joinDenyBadProtocol
  | joinDenyBadUsername
  | joinDenyServerFull
  | leave
  | commands
  | feedback
  | snakeUsername
  | snakeUsernameAck
  | snakeBezier
  | snakeBezierAck
  | snakeDestroy
  | snakeDestroyAck
  | snakeHead
  | foodGridParams
  | foodGridParamsAck
  | foodClusterCreate
  | foodClusterCreateAck
  | foodClusterUpdate
  | foodClusterUpdateAck
  deriving DecidableEq, Repr

/-- The types in the order of their numbers. -/
def msgTypes : List MsgType :=
  [.joinRequest, .joinAccept, .joinDenyBadProtocol, .joinDenyBadUsername, .joinDenyServerFull,
    .leave, .commands, .feedback, .snakeUsername, .snakeUsernameAck, .snakeBezier,
    .snakeBezierAck, .snakeDestroy, .snakeDestroyAck, .snakeHead, .foodGridParams,
    .foodGridParamsAck, .foodClusterCreate, .foodClusterCreateAck, .foodClusterUpdate,
    .foodClusterUpdateAck]

/-- The byte that stands for a type on the wire. -/
def MsgType.toByte (type : MsgType) : UInt8 :=
  UInt8.ofNat (msgTypes.idxOf type)

/-- The type that a byte stands for, if any. -/
def MsgType.ofByte (byte : UInt8) : Option MsgType :=
  msgTypes[byte.toNat]?

@[simp] theorem MsgType.ofByte_toByte (type : MsgType) : ofByte type.toByte = some type := by
  cases type <;> rfl

theorem MsgType.ofByte_eq_some {byte : UInt8} {type : MsgType} (h : ofByte byte = some type) :
    byte = type.toByte := by
  obtain ⟨hlt, hget⟩ := List.getElem?_eq_some_iff.mp h
  rw [toByte, ← hget, List.Nodup.idxOf_getElem (by decide), UInt8.ofNat_toNat]

/-- `struct msg`, with the `payload_len` bytes of its payload. -/
structure Msg where
  type : MsgType
  resendPeriod : UInt8
  resendPeriodCounter : UInt8
  resendRetryCounter : UInt8
  payload : List UInt8
  length_lt : payload.length < 256
  deriving DecidableEq

/-- `msg_is_reliable`. -/
def Msg.isReliable (m : Msg) : Bool :=
  decide (m.resendPeriod > 0)

/-- `payload_len`. -/
def Msg.payloadLen (m : Msg) : UInt8 :=
  UInt8.ofNat m.payload.length

/-- `msg_alloc`, with the payload that is then written.  The length of the
payload is stored in a byte. -/
def msgAlloc (type : MsgType) (resendPeriod : UInt8) (payload : List UInt8) : Msg where
  type := type
  resendPeriod := resendPeriod
  resendPeriodCounter := 1
  resendRetryCounter := 10
  payload := payload.take (payload.length % 256)
  length_lt := by
    rw [List.length_take]
    omega

theorem payload_msgAlloc {type : MsgType} {resendPeriod : UInt8} {payload : List UInt8}
    (h : payload.length < 256) : (msgAlloc type resendPeriod payload).payload = payload := by
  show payload.take (payload.length % 256) = payload
  rw [Nat.mod_eq_of_lt h, List.take_length]

/-! ## Numbers in payloads -/

/-- Two bytes of a 16-bit number. -/
def bytes16 (x : UInt16) : List UInt8 :=
  [(x >>> 8).toUInt8, x.toUInt8]

def read16 (hi lo : UInt8) : UInt16 :=
  (hi.toUInt16 <<< 8) ||| lo.toUInt16

/-- The lower three bytes of a coordinate. -/
def bytes24 (x : Int) : List UInt8 :=
  [UInt8.ofInt (x >>> (16 : Nat)), UInt8.ofInt (x >>> (8 : Nat)), UInt8.ofInt x]

/-- Sign extension from 24 bits. -/
def read24 (b₀ b₁ b₂ : UInt8) : Int :=
  (if b₀ &&& 0x80 ≠ 0 then -2 ^ 24 else 0) + (b₀.toNat * 2 ^ 16 + b₁.toNat * 2 ^ 8 + b₂.toNat : Nat)

/-- The payload of a message that has arrived.  The parser checks the length
before it reads. -/
def payloadAt (payload : List UInt8) (i : Nat) : UInt8 :=
  payload.getD i 0

def payload16 (payload : List UInt8) (i : Nat) : UInt16 :=
  read16 (payloadAt payload i) (payloadAt payload (i + 1))

def payload24 (payload : List UInt8) (i : Nat) : Int :=
  read24 (payloadAt payload i) (payloadAt payload (i + 1)) (payloadAt payload (i + 2))

/-- An angle, which is a signed 16-bit number. -/
def payloadAngle (payload : List UInt8) (i : Nat) : Int :=
  wrapInt 16 (payload16 payload i).toNat

theorem toNat_read16 (hi lo : UInt8) : (read16 hi lo).toNat = hi.toNat * 2 ^ 8 + lo.toNat := by
  have hhi := hi.toNat_lt
  have hlo := lo.toNat_lt
  have hshift : (hi.toUInt16 <<< 8).toNat = hi.toNat <<< 8 := by
    rw [UInt16.toNat_shiftLeft, UInt8.toNat_toUInt16]
    exact Nat.mod_eq_of_lt (by show hi.toNat <<< 8 < 2 ^ 16; rw [Nat.shiftLeft_eq]; omega)
  rw [read16, UInt16.toNat_or, hshift, UInt8.toNat_toUInt16,
    ← Nat.shiftLeft_add_eq_or_of_lt hlo, Nat.shiftLeft_eq]

theorem read16_bytes16 (x : UInt16) : read16 (x >>> 8).toUInt8 x.toUInt8 = x := by
  have hx := x.toNat_lt
  apply UInt16.toNat_inj.mp
  rw [toNat_read16, UInt16.toNat_toUInt8, UInt16.toNat_toUInt8, UInt16.toNat_shiftRight,
    Nat.shiftRight_eq_div_pow]
  show x.toNat / 2 ^ 8 % 2 ^ 8 * 2 ^ 8 + x.toNat % 2 ^ 8 = x.toNat
  omega

/-! ## Parsing -/

/-- `union parsed_payload`, with the type that `msg_parse_payload` returns. -/
inductive ParsedPayload where
  | joinRequest (protocolVersion frame : UInt16) (usernameLen : UInt8) (username : List UInt8)
  | joinAccept (simTickRate netTickRate : UInt8) (clientFrame serverFrame snakeId : UInt16)
      (spawn : QwPos)
  | joinDeny (type : MsgType) (error : List UInt8)
  | command (frameNumber : UInt16)
  | feedback (frameNumber : UInt16) (diff : Int8)
  | snakeBezier (snakeId : UInt16) (handleIdx : Int) (pos : QwPos) (angle : Int)
      (lenBackwards lenForwards : UInt8)
  | snakeBezierAck (handleIdx : UInt16)
  | snakeHead (head : SnakeHead) (frameNumber : UInt16)
  /-- A type without a payload to parse. -/
  | unparsed (byte : UInt8)
  deriving DecidableEq

/-- A string of `len` bytes from `start` on. -/
def payloadString (payload : List UInt8) (start : Nat) (len : UInt8) : List UInt8 :=
  (payload.drop start).take len.toNat

/-- The three types of `MSG_JOIN_DENY`. -/
def parseJoinDeny (type : MsgType) (payload : List UInt8) : Except Int ParsedPayload :=
  if payload.length < 2 then .error (-1)
  else
    let errorLen := payloadAt payload 0
    if 1 + errorLen.toNat + 1 > payload.length then .error (-2)
    else if payloadAt payload (1 + errorLen.toNat) ≠ 0 then .error (-3)
    else .ok (.joinDeny type (payloadString payload 1 errorLen))

/-- `msg_parse_payload`. -/
def msgParsePayload (byte : UInt8) (payload : List UInt8) : Except Int ParsedPayload :=
  match MsgType.ofByte byte with
  | some .joinRequest =>
      if payload.length < 6 then .error (-1)
      else
        let usernameLen := payloadAt payload 4
        if usernameLen = 0 then .error (-2)
        else if 5 + usernameLen.toNat + 1 > payload.length then .error (-3)
        else if payloadAt payload (5 + usernameLen.toNat) ≠ 0 then .error (-4)
        else
          .ok (.joinRequest (payload16 payload 0) (payload16 payload 2) usernameLen
            (payloadString payload 5 usernameLen))
  | some .joinAccept =>
      if payload.length < 14 then .error (-1)
      else
        .ok (.joinAccept (payloadAt payload 0) (payloadAt payload 1) (payload16 payload 2)
          (payload16 payload 4) (payload16 payload 6)
          { x := payload24 payload 8, y := payload24 payload 11 })
  | some .joinDenyBadProtocol => parseJoinDeny .joinDenyBadProtocol payload
  | some .joinDenyBadUsername => parseJoinDeny .joinDenyBadUsername payload
  | some .joinDenyServerFull => parseJoinDeny .joinDenyServerFull payload
  | some .commands =>
      if payload.length < 6 then .error (-1) else .ok (.command (payload16 payload 0))
  | some .feedback =>
      if payload.length < 3 then .error (-1)
      else .ok (.feedback (payload16 payload 0) (payloadAt payload 2).toInt8)
  | some .snakeBezier =>
      if payload.length < 14 then .error (-1)
      else
        let handleIdx := wrapInt 16 (payload16 payload 2).toNat
        if handleIdx < 0 then .error (-2)
        else
          .ok (.snakeBezier (payload16 payload 0) handleIdx
            { x := payload24 payload 4, y := payload24 payload 7 } (payloadAngle payload 10)
            (payloadAt payload 12) (payloadAt payload 13))
  | some .snakeBezierAck =>
      if payload.length < 2 then .error (-1) else .ok (.snakeBezierAck (payload16 payload 0))
  | some .snakeHead =>
      if payload.length < 11 then .error (-1)
      else
        .ok (.snakeHead
          { pos := { x := payload24 payload 2, y := payload24 payload 5 }
            angle := payloadAngle payload 8
            speed := payloadAt payload 10 }
          (payload16 payload 0))
  | _ => .ok (.unparsed byte)

/-- The byte of the type that a payload was parsed as. -/
def ParsedPayload.byte : ParsedPayload → UInt8
  | .joinRequest _ _ _ _ => MsgType.joinRequest.toByte
  | .joinAccept _ _ _ _ _ _ => MsgType.joinAccept.toByte
  | .joinDeny type _ => type.toByte
  | .command _ => MsgType.commands.toByte
  | .feedback _ _ => MsgType.feedback.toByte
  | .snakeBezier _ _ _ _ _ _ => MsgType.snakeBezier.toByte
  | .snakeBezierAck _ => MsgType.snakeBezierAck.toByte
  | .snakeHead _ _ => MsgType.snakeHead.toByte
  | .unparsed byte => byte

/-- A check that a payload passes. -/
theorem of_ite_error {check : Prop} [Decidable check] {code : Int}
    {rest : Except Int ParsedPayload} {pp : ParsedPayload}
    (h : (if check then .error code else rest) = .ok pp) : rest = .ok pp := by
  by_cases hcheck : check
  · rw [if_pos hcheck] at h
    cases h
  · rwa [if_neg hcheck] at h

/-- **The parser returns the type that it was given.** -/
theorem byte_of_msgParsePayload {byte : UInt8} {payload : List UInt8} {pp : ParsedPayload}
    (h : msgParsePayload byte payload = .ok pp) : pp.byte = byte := by
  cases hof : MsgType.ofByte byte with
  | none =>
      rw [msgParsePayload, hof] at h
      cases h
      rfl
  | some type =>
      have hbyte := MsgType.ofByte_eq_some hof
      rw [msgParsePayload, hof] at h
      cases type with
      | joinRequest =>
          cases of_ite_error (of_ite_error (of_ite_error (of_ite_error h)))
          exact hbyte.symm
      | joinDenyBadProtocol | joinDenyBadUsername | joinDenyServerFull =>
          cases of_ite_error (of_ite_error (of_ite_error h))
          exact hbyte.symm
      | snakeBezier =>
          cases of_ite_error (of_ite_error h)
          exact hbyte.symm
      | joinAccept | commands | feedback | snakeBezierAck | snakeHead =>
          cases of_ite_error h
          exact hbyte.symm
      | _ =>
          cases h
          rfl

/-! ## The messages of the client -/

/-- `msg_join_request`, for a name without its terminator. -/
def msgJoinRequest (protocolVersion frameNumber : UInt16) (username : List UInt8) : Msg :=
  let nameLen := if username.length > 254 then 254 else username.length
  msgAlloc .joinRequest 1
    (bytes16 protocolVersion ++ bytes16 frameNumber ++
      UInt8.ofNat nameLen :: (username ++ [0]).take (nameLen + 1))

/-- `msg_leave`. -/
def msgLeave : Msg :=
  msgAlloc .leave 0 []

/-! ## The messages of the server -/

/-- `msg_join_accept`. -/
def msgJoinAccept (simTickRate netTickRate : UInt8) (clientFrame serverFrame snakeId : UInt16)
    (spawnPos : QwPos) : Msg :=
  msgAlloc .joinAccept 0
    ([simTickRate, netTickRate] ++ bytes16 clientFrame ++ bytes16 serverFrame ++ bytes16 snakeId ++
      bytes24 spawnPos.x ++ bytes24 spawnPos.y)

/-- `msg_alloc_string_payload`, for a string without its terminator. -/
def msgAllocStringPayload (type : MsgType) (resendPeriod : UInt8) (str : List UInt8) : Msg :=
  let len := if str.length > 254 then 254 else str.length
  msgAlloc type resendPeriod (UInt8.ofNat len :: (str ++ [0]).take (len + 1))

/-- `msg_join_deny_bad_protocol`. -/
def msgJoinDenyBadProtocol (error : List UInt8) : Msg :=
  msgAllocStringPayload .joinDenyBadProtocol 0 error

/-- `msg_join_deny_bad_username`. -/
def msgJoinDenyBadUsername (error : List UInt8) : Msg :=
  msgAllocStringPayload .joinDenyBadUsername 0 error

/-- `msg_join_deny_server_full`. -/
def msgJoinDenyServerFull (error : List UInt8) : Msg :=
  msgAllocStringPayload .joinDenyServerFull 0 error

/-- `msg_feedback`. -/
def msgFeedback (diff : Int8) (frameNumber : UInt16) : Msg :=
  msgAlloc .feedback 0 (bytes16 frameNumber ++ [diff.toUInt8])

/-- `msg_snake_head`. -/
def msgSnakeHead (head : SnakeHead) (frameNumber : UInt16) : Msg :=
  msgAlloc .snakeHead 0
    (bytes16 frameNumber ++ bytes24 head.pos.x ++ bytes24 head.pos.y ++
      [UInt8.ofInt (head.angle >>> (8 : Nat)), UInt8.ofInt head.angle, head.speed])

/-- `msg_snake_bezier`. -/
def msgSnakeBezier (snakeId bezierHandleIdx : UInt16) (handle : BezierHandle) : Msg :=
  msgAlloc .snakeBezier 1
    (bytes16 snakeId ++ bytes16 bezierHandleIdx ++ bytes24 handle.pos.x ++ bytes24 handle.pos.y ++
      [UInt8.ofInt (handle.angle >>> (8 : Nat)), UInt8.ofInt handle.angle, handle.lenBackwards,
        handle.lenForwards])

/-- `msg_snake_bezier_ack`. -/
def msgSnakeBezierAck (bezierHandleIdx : UInt16) : Msg :=
  msgAlloc .snakeBezierAck 0 (bytes16 bezierHandleIdx)

/-- `msg_snake_destroy`. -/
def msgSnakeDestroy (snakeId : UInt16) : Msg :=
  msgAlloc .snakeDestroy 10 (bytes16 snakeId)

end Clither
