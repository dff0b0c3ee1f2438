import Clither.Client
import Clither.Lib.Bounds
import Clither.Packet

/-!
# Reading what has arrived

Lengths inside of a packet come from the sender: the length byte of a message,
the length of a string, the number of commands, and the bits that decide how many
bits an action takes.  This module has the code that reads a packet with every
read checked: `framingLoop` is the loop over the bytes that server and client
share, and `msgParsePayloadChecked` and `msgCommandsUnpackIntoChecked` read the
payload of one message.

`reads_inside` says that none of the checks ever fails.  `framingLoop` has no
fuel: that it ends is part of its definition.
-/

namespace Clither

/-! ## The loop over the messages -/

/-- How a turn of the loop ends. -/
inductive Turn (σ ρ : Type) where
  | goOn (s : σ)
  | stop (r : ρ)

section

variable {σ ρ : Type} (handle : σ → UInt8 → List UInt8 → Turn σ ρ) (truncated done : σ → ρ)

/-- The loop of `unpack_packet` from byte `i` on.  `handle` gets the bytes of the
payload, `truncated` deals with a payload that points outside of the packet. -/
def framingLoop (udpBuf : List UInt8) (i : Nat) (s : σ) : Except Fault ρ :=
  if i + 1 < udpBuf.length then do
    let type ← Bounds.load .overread udpBuf i
    let msgLen ← Bounds.load .overread udpBuf (i + 1)
    if i + 2 + msgLen.toNat > udpBuf.length then return truncated s
    else
      match handle s type ((udpBuf.drop (i + 2)).take msgLen.toNat) with
      | .goOn s => framingLoop udpBuf (i + (msgLen.toNat + 2)) s
      | .stop r => return r
  else return done s
termination_by udpBuf.length - i

/-- The same loop over the frames of the packet. -/
def walkFrames : List Frame → σ → ρ
  | [], s => done s
  | .truncated :: _, s => truncated s
  | .message type payload :: rest, s =>
      match handle s type payload with
      | .goOn s => walkFrames rest s
      | .stop r => r

/-- **The loop reads inside of the packet** and goes through its frames. -/
theorem framingLoop_eq (udpBuf : List UInt8) (fuel i : Nat)
    (hfuel : udpBuf.length < i + 2 * fuel + 2) (s : σ) :
    framingLoop handle truncated done udpBuf i s =
      .ok (walkFrames handle truncated done (framesLoop fuel (udpBuf.drop i)) s) := by
  induction fuel generalizing i s with
  | zero =>
      rw [framingLoop, if_neg (by omega)]
      rfl
  | succ fuel ih =>
      rw [framingLoop]
      by_cases hmore : i + 1 < udpBuf.length
      · have hdrop : udpBuf.drop i =
            udpBuf.getD i 0 :: udpBuf.getD (i + 1) 0 :: udpBuf.drop (i + 2) := by
          rw [List.drop_eq_getElem_cons (by omega), List.drop_eq_getElem_cons hmore]
          simp [List.getD_eq_getElem?_getD, List.getElem?_eq_getElem (Nat.lt_of_succ_lt hmore),
            List.getElem?_eq_getElem hmore]
        rw [if_pos hmore, Bounds.load_of_lt 0 (by omega), ok_bind, Bounds.load_of_lt 0 hmore,
          ok_bind, hdrop, framesLoop]
        rw [List.length_drop]
        by_cases hlong : i + 2 + (udpBuf.getD (i + 1) 0).toNat > udpBuf.length
        · rw [if_pos hlong, if_pos (by omega)]
          rfl
        · rw [if_neg hlong, if_neg (by omega), walkFrames]
          cases handle s (udpBuf.getD i 0)
              ((udpBuf.drop (i + 2)).take (udpBuf.getD (i + 1) 0).toNat) with
          | goOn s =>
              dsimp only
              rw [ih _ (by omega), List.drop_drop]
              congr 4
              omega
          | stop r => rfl
      · rw [if_neg hmore]
        have hshort : (udpBuf.drop i).length ≤ 1 := by
          rw [List.length_drop]
          omega
        rcases hdrop : udpBuf.drop i with _ | ⟨b, _ | ⟨b', rest⟩⟩
        · rfl
        · rfl
        · rw [hdrop, List.length_cons, List.length_cons] at hshort
          omega

end

section

variable (mem : Alloc) (settings : ServerSettings)

/-- A turn of the loop of the server. -/
def serverTurn (client : Option Nat) (addr : NetAddr) (frameNumber : UInt16) (s : Server)
    (type : UInt8) (payload : List UInt8) : Turn Server (Except Fault Server) :=
  if client = none ∧ type ≠ MsgType.joinRequest.toByte then .stop (.ok s)
  else
    match processMessage mem settings s client addr type payload frameNumber with
    | .ok s => .goOn s
    | .error f => .stop (.error f)

/-- The server's frame loop is a walk over the frames. -/
theorem processFrames_eq_walk (client : Option Nat) (addr : NetAddr) (frameNumber : UInt16)
    (fs : List Frame) (s : Server) :
    processFrames mem settings client addr frameNumber fs s =
      walkFrames (serverTurn mem settings client addr frameNumber)
        (fun s => markClientAsMaliciousAndDrop mem settings s addr client) .ok fs s := by
  induction fs generalizing s with
  | nil => rfl
  | cons frame rest ih =>
      cases frame with
      | truncated => rfl
      | message type payload =>
          rw [processFrames, walkFrames, serverTurn]
          by_cases hbreak : client = none ∧ type ≠ MsgType.joinRequest.toByte
          · rw [if_pos hbreak, if_pos hbreak]
          · rw [if_neg hbreak, if_neg hbreak]
            cases processMessage mem settings s client addr type payload frameNumber with
            | ok s => exact ih s
            | error f => rfl

/-- What the client keeps while it handles a packet. -/
abbrev ClientTurn := Client × World × ClientRecvResult

/-- A turn of the loop of the client. -/
def clientTurn (num : Numerics) (s : ClientTurn) (type : UInt8) (payload : List UInt8) :
    Turn ClientTurn (Except Fault ClientTurn) :=
  match clientProcessMessage mem num s.1 s.2.1 type payload with
  | .ok (client, world, r) =>
      let result := clientRecvResultCombine s.2.2 r
      if result.error || result.disconnected then .stop (.ok (client, world, result))
      else .goOn (client, world, result)
  | .error f => .stop (.error f)

/-- **The client handles a packet frame by frame**, too. -/
theorem clientUnpackLoop_eq (num : Numerics) (fuel : Nat) (udpBuf : List UInt8) (client : Client)
    (world : World) (result : ClientRecvResult) :
    clientUnpackLoop mem num fuel udpBuf client world result =
      walkFrames (clientTurn mem num) .ok .ok (framesLoop fuel udpBuf) (client, world, result) := by
  induction fuel generalizing udpBuf client world result with
  | zero => rfl
  | succ fuel ih =>
      match udpBuf with
      | [] => rfl
      | [_] => rfl
      | type :: msgLen :: rest =>
          rw [clientUnpackLoop, framesLoop]
          by_cases hlong : msgLen.toNat > rest.length
          · rw [if_pos hlong, if_pos hlong]
            rfl
          · rw [if_neg hlong, if_neg hlong, walkFrames, clientTurn]
            cases clientProcessMessage mem num client world type (rest.take msgLen.toNat) with
            | error f => rfl
            | ok r =>
                rw [ok_bind]
                dsimp only
                split
                · rfl
                · exact ih _ _ _ _

end

/-! ## The parser -/

def payload16Checked (payload : List UInt8) (i : Nat) : Except Fault UInt16 := do
  let hi ← Bounds.load .overread payload i
  let lo ← Bounds.load .overread payload (i + 1)
  return read16 hi lo

def payload24Checked (payload : List UInt8) (i : Nat) : Except Fault Int := do
  let b₀ ← Bounds.load .overread payload i
  let b₁ ← Bounds.load .overread payload (i + 1)
  let b₂ ← Bounds.load .overread payload (i + 2)
  return read24 b₀ b₁ b₂

def payloadAngleChecked (payload : List UInt8) (i : Nat) : Except Fault Int := do
  let x ← payload16Checked payload i
  return wrapInt 16 x.toNat

def qwPosChecked (payload : List UInt8) (i : Nat) : Except Fault QwPos := do
  let x ← payload24Checked payload i
  let y ← payload24Checked payload (i + 3)
  return { x := x, y := y }

def parseJoinDenyChecked (type : MsgType) (payload : List UInt8) :
    Except Fault (Except Int ParsedPayload) :=
  if payload.length < 2 then return .error (-1)
  else do
    let errorLen ← Bounds.load .overread payload 0
    if 1 + errorLen.toNat + 1 > payload.length then return .error (-2)
    else do
      let terminator ← Bounds.load .overread payload (1 + errorLen.toNat)
      if terminator ≠ 0 then return .error (-3)
      else return .ok (.joinDeny type (payloadString payload 1 errorLen))

/-- `msgParsePayload` with every read checked. -/
def msgParsePayloadChecked (byte : UInt8) (payload : List UInt8) :
    Except Fault (Except Int ParsedPayload) :=
  match MsgType.ofByte byte with
  | some .joinRequest =>
      if payload.length < 6 then return .error (-1)
      else do
        let protocolVersion ← payload16Checked payload 0
        let frame ← payload16Checked payload 2
        let usernameLen ← Bounds.load .overread payload 4
        if usernameLen = 0 then return .error (-2)
        else if 5 + usernameLen.toNat + 1 > payload.length then return .error (-3)
        else do
          let terminator ← Bounds.load .overread payload (5 + usernameLen.toNat)
          if terminator ≠ 0 then return .error (-4)
          else
            return .ok (.joinRequest protocolVersion frame usernameLen
              (payloadString payload 5 usernameLen))
  | some .joinAccept =>
      if payload.length < 14 then return .error (-1)
      else do
        let simTickRate ← Bounds.load .overread payload 0
        let netTickRate ← Bounds.load .overread payload 1
        let clientFrame ← payload16Checked payload 2
        let serverFrame ← payload16Checked payload 4
        let snakeId ← payload16Checked payload 6
        let spawn ← qwPosChecked payload 8
        return .ok (.joinAccept simTickRate netTickRate clientFrame serverFrame snakeId spawn)
  | some .joinDenyBadProtocol => parseJoinDenyChecked .joinDenyBadProtocol payload
  | some .joinDenyBadUsername => parseJoinDenyChecked .joinDenyBadUsername payload
  | some .joinDenyServerFull => parseJoinDenyChecked .joinDenyServerFull payload
  | some .commands =>
      if payload.length < 6 then return .error (-1)
      else do
        let frameNumber ← payload16Checked payload 0
        return .ok (.command frameNumber)
  | some .feedback =>
      if payload.length < 3 then return .error (-1)
      else do
        let frameNumber ← payload16Checked payload 0
        let diff ← Bounds.load .overread payload 2
        return .ok (.feedback frameNumber diff.toInt8)
  | some .snakeBezier =>
      if payload.length < 14 then return .error (-1)
      else do
        let snakeId ← payload16Checked payload 0
        let handleIdx ← payloadAngleChecked payload 2
        if handleIdx < 0 then return .error (-2)
        else do
          let pos ← qwPosChecked payload 4
          let angle ← payloadAngleChecked payload 10
          let lenBackwards ← Bounds.load .overread payload 12
          let lenForwards ← Bounds.load .overread payload 13
          return .ok (.snakeBezier snakeId handleIdx pos angle lenBackwards lenForwards)
  | some .snakeBezierAck =>
      if payload.length < 2 then return .error (-1)
      else do
        let handleIdx ← payload16Checked payload 0
        return .ok (.snakeBezierAck handleIdx)
  | some .snakeHead =>
      if payload.length < 11 then return .error (-1)
      else do
        let frameNumber ← payload16Checked payload 0
        let pos ← qwPosChecked payload 2
        let angle ← payloadAngleChecked payload 8
        let speed ← Bounds.load .overread payload 10
        return .ok (.snakeHead { pos := pos, angle := angle, speed := speed } frameNumber)
  | _ => return .ok (.unparsed byte)

/-- A load within the payload finds its byte. -/
theorem load_payload {payload : List UInt8} {i : Nat} (h : i < payload.length) :
    Bounds.load Fault.overread payload i = .ok (payloadAt payload i) :=
  Bounds.load_of_lt 0 h

/-- The checked 16-bit read agrees with the plain one inside the payload. -/
theorem payload16Checked_of_lt {payload : List UInt8} {i : Nat} (h : i + 1 < payload.length) :
    payload16Checked payload i = .ok (payload16 payload i) := by
  rw [payload16Checked, load_payload (by omega), ok_bind, load_payload h]
  rfl

/-- So does the checked read of a position. -/
theorem qwPosChecked_of_lt {payload : List UInt8} {i : Nat} (h : i + 5 < payload.length) :
    qwPosChecked payload i = .ok { x := payload24 payload i, y := payload24 payload (i + 3) } := by
  have hcoord {j : Nat} (hj : j + 2 < payload.length) :
      payload24Checked payload j = .ok (payload24 payload j) := by
    rw [payload24Checked, load_payload (by omega), ok_bind, load_payload (by omega), ok_bind,
      load_payload hj]
    rfl
  rw [qwPosChecked, hcoord (by omega), ok_bind, hcoord (by omega)]
  rfl

/-- And that of an angle. -/
theorem payloadAngleChecked_of_lt {payload : List UInt8} {i : Nat} (h : i + 1 < payload.length) :
    payloadAngleChecked payload i = .ok (payloadAngle payload i) := by
  rw [payloadAngleChecked, payload16Checked_of_lt h]
  rfl

/-- Parsing a deny message reads nothing outside of it. -/
theorem parseJoinDenyChecked_eq (type : MsgType) (payload : List UInt8) :
    parseJoinDenyChecked type payload = .ok (parseJoinDeny type payload) := by
  unfold parseJoinDenyChecked parseJoinDeny
  by_cases hlen : payload.length < 2
  · rw [if_pos hlen, if_pos hlen, pure_eq_ok]
  · rw [if_neg hlen, if_neg hlen, load_payload (by omega), ok_bind]
    dsimp only
    by_cases hstring : 1 + (payloadAt payload 0).toNat + 1 > payload.length
    · rw [if_pos hstring, if_pos hstring, pure_eq_ok]
    · rw [if_neg hstring, if_neg hstring, load_payload (by omega), ok_bind]
      split <;> rfl

/-- **The parser reads inside of the payload.** -/
theorem msgParsePayloadChecked_eq (byte : UInt8) (payload : List UInt8) :
    msgParsePayloadChecked byte payload = .ok (msgParsePayload byte payload) := by
  unfold msgParsePayloadChecked msgParsePayload
  cases MsgType.ofByte byte with
  | none => rfl
  | some type =>
      cases type with
      | joinRequest =>
          dsimp only
          by_cases hlen : payload.length < 6
          · rw [if_pos hlen, if_pos hlen, pure_eq_ok]
          · rw [if_neg hlen, if_neg hlen, payload16Checked_of_lt (by omega), ok_bind,
              payload16Checked_of_lt (by omega), ok_bind, load_payload (by omega), ok_bind]
            by_cases hzero : payloadAt payload 4 = 0
            · rw [if_pos hzero, if_pos hzero, pure_eq_ok]
            · rw [if_neg hzero, if_neg hzero]
              by_cases hstring : 5 + (payloadAt payload 4).toNat + 1 > payload.length
              · rw [if_pos hstring, if_pos hstring, pure_eq_ok]
              · rw [if_neg hstring, if_neg hstring, load_payload (by omega), ok_bind]
                split <;> rfl
      | joinAccept =>
          dsimp only
          by_cases hlen : payload.length < 14
          · rw [if_pos hlen, if_pos hlen, pure_eq_ok]
          · rw [if_neg hlen, if_neg hlen, load_payload (by omega), ok_bind,
              load_payload (by omega), ok_bind, payload16Checked_of_lt (by omega), ok_bind,
              payload16Checked_of_lt (by omega), ok_bind, payload16Checked_of_lt (by omega),
              ok_bind, qwPosChecked_of_lt (by omega)]
            rfl
      | joinDenyBadProtocol | joinDenyBadUsername | joinDenyServerFull =>
          exact parseJoinDenyChecked_eq _ payload
      | commands | snakeBezierAck =>
          dsimp only
          split
          · rfl
          · rw [payload16Checked_of_lt (by omega)]
            rfl
      | feedback =>
          dsimp only
          by_cases hlen : payload.length < 3
          · rw [if_pos hlen, if_pos hlen, pure_eq_ok]
          · rw [if_neg hlen, if_neg hlen, payload16Checked_of_lt (by omega), ok_bind,
              load_payload (by omega)]
            rfl
      | snakeBezier =>
          dsimp only
          by_cases hlen : payload.length < 14
          · rw [if_pos hlen, if_pos hlen, pure_eq_ok]
          · rw [if_neg hlen, if_neg hlen, payload16Checked_of_lt (by omega), ok_bind,
              payloadAngleChecked_of_lt (by omega), ok_bind]
            by_cases hneg : payloadAngle payload 2 < 0
            · rw [if_pos hneg, pure_eq_ok]
              exact congrArg Except.ok (if_pos hneg).symm
            · rw [if_neg hneg, qwPosChecked_of_lt (by omega), ok_bind,
                payloadAngleChecked_of_lt (by omega), ok_bind, load_payload (by omega), ok_bind,
                load_payload (by omega), ok_bind]
              exact congrArg Except.ok (if_neg hneg).symm
      | snakeHead =>
          dsimp only
          by_cases hlen : payload.length < 11
          · rw [if_pos hlen, if_pos hlen, pure_eq_ok]
          · rw [if_neg hlen, if_neg hlen, payload16Checked_of_lt (by omega), ok_bind,
              qwPosChecked_of_lt (by omega), ok_bind, payloadAngleChecked_of_lt (by omega), ok_bind,
              load_payload (by omega)]
            rfl
      | _ => rfl

/-! ## The decoder of commands -/

def bitAtChecked (payload : List UInt8) (pos : Nat) : Except Fault Bool := do
  let v ← Bounds.load .overread payload (pos / 8)
  return Bits.getBit v (pos % 8)

def skipActionsChecked (payload : List UInt8) : Nat → Nat → Except Fault (Option Nat)
  | 0, pos => return some pos
  | turns + 1, pos =>
      if pos / 8 ≥ payload.length then return none
      else do
        let b ← bitAtChecked payload pos
        skipActionsChecked payload turns (pos + if b then 4 else 1)

def unpackActionChecked (payload : List UInt8) (pos : Nat) (action : BitVec 3) :
    Except Fault (BitVec 3 × Nat) := do
  if ← bitAtChecked payload pos then do
    let b₁ ← bitAtChecked payload (pos + 1)
    let b₂ ← bitAtChecked payload (pos + 2)
    let b₃ ← bitAtChecked payload (pos + 3)
    return ((if b₁ then 1#3 else 0#3) ||| (if b₂ then 2#3 else 0#3) |||
      (if b₃ then 4#3 else 0#3), pos + 4)
  else return (action, pos + 1)

section

variable (mem : Alloc)

def unpackDeltasChecked (payload : List UInt8) (frameNumber firstFrameNumber : UInt16)
    (offset : Nat) : Nat → Nat → Nat → Cmd → CmdQueue → Except Fault CmdQueue
  | 0, _, _, _, cmdq => return cmdq
  | turns + 1, i, pos, command, cmdq => do
      let (action, pos) ← unpackActionChecked payload pos command.action
      let delta ← Bounds.load .overread payload (offset + i)
      let command := applyDelta command action delta
      let cmdq := putUnpassed mem cmdq command (frameAt firstFrameNumber (i + 1)) frameNumber
      unpackDeltasChecked payload frameNumber firstFrameNumber offset turns (i + 1) pos command cmdq

/-- `msgCommandsUnpackInto` with every read checked. -/
def msgCommandsUnpackIntoChecked (cmdq : CmdQueue) (payload : List UInt8) (frameNumber : UInt16) :
    Except Fault (CmdQueue × Int × UInt16 × UInt16) := do
  let firstFrameNumber ← payload16Checked payload 0
  let count ← Bounds.load .overread payload 2
  let commandCount := count.toNat
  let lastFrame := frameAt firstFrameNumber commandCount
  let angle ← Bounds.load .overread payload 3
  let speed ← Bounds.load .overread payload 4
  let action ← Bounds.load .overread payload 5
  let command : Cmd :=
    { angle := angle, speed := speed, action := BitVec.ofNat 3 (action &&& 0x07).toNat }
  let cmdq := putUnpassed mem cmdq command firstFrameNumber frameNumber
  if commandCount = 0 then return (cmdq, 0, firstFrameNumber, lastFrame)
  else
    match ← skipActionsChecked payload commandCount (8 * 5 + 3) with
    | none => return (cmdq, -1, firstFrameNumber, lastFrame)
    | some pos =>
        let mouseDataOffset := nextByte pos
        if mouseDataOffset + commandCount > payload.length then
          return (cmdq, -1, firstFrameNumber, lastFrame)
        else do
          let cmdq ← unpackDeltasChecked mem payload frameNumber firstFrameNumber mouseDataOffset
            commandCount 0 (8 * 5 + 3) command cmdq
          return (cmdq, 0, firstFrameNumber, lastFrame)

variable {mem}

/-- The checked read of a bit agrees with the plain one inside the payload. -/
theorem bitAtChecked_of_lt {payload : List UInt8} {pos : Nat} (h : pos < 8 * payload.length) :
    bitAtChecked payload pos = .ok (Bits.bitAt payload pos) := by
  rw [bitAtChecked, load_payload (by omega)]
  rfl

/-- Skipping the actions reads nothing outside, by induction on their number. -/
theorem skipActionsChecked_eq (payload : List UInt8) (turns pos : Nat) :
    skipActionsChecked payload turns pos = .ok (skipActions payload turns pos) := by
  induction turns generalizing pos with
  | zero => rfl
  | succ turns ih =>
      rw [skipActionsChecked, skipActions]
      by_cases hend : pos / 8 ≥ payload.length
      · rw [if_pos hend, if_pos hend, pure_eq_ok]
      · rw [if_neg hend, if_neg hend, bitAtChecked_of_lt (by omega), ok_bind, ih]

/-- The bits of the actions end where skipping them has ended. -/
theorem skipActions_le {payload : List UInt8} {turns pos last : Nat}
    (h : skipActions payload turns pos = some last) : pos + turns ≤ last := by
  induction turns generalizing pos with
  | zero =>
      cases h
      exact Nat.le_refl _
  | succ turns ih =>
      rw [skipActions] at h
      split at h
      · cases h
      · have hle := ih h
        split at hle <;> omega

/-- Unpacking an action reads nothing outside as long as its bits are there. -/
theorem unpackActionChecked_eq {payload : List UInt8} {pos : Nat} (action : BitVec 3)
    (h : pos + (if Bits.bitAt payload pos then 4 else 1) ≤ 8 * payload.length) :
    unpackActionChecked payload pos action = .ok (unpackAction payload pos action) := by
  rw [unpackActionChecked, bitAtChecked_of_lt (by split at h <;> omega), ok_bind, unpackAction]
  by_cases hbit : Bits.bitAt payload pos = true
  · rw [if_pos hbit] at h
    rw [if_pos hbit, if_pos hbit, bitAtChecked_of_lt (by omega), ok_bind,
      bitAtChecked_of_lt (by omega), ok_bind, bitAtChecked_of_lt (by omega)]
    rfl
  · rw [if_neg hbit, if_neg hbit, pure_eq_ok]

/-- The reader of the actions goes where skipping them has gone, and the byte of
the differences lies behind all of them. -/
theorem unpackDeltasChecked_eq {payload : List UInt8} {frameNumber first : UInt16}
    {offset turns i pos last : Nat} (hskip : skipActions payload turns pos = some last)
    (hlast : last ≤ 8 * offset) (hoffset : offset + i + turns ≤ payload.length) (command : Cmd)
    (cmdq : CmdQueue) :
    unpackDeltasChecked mem payload frameNumber first offset turns i pos command cmdq =
      .ok (unpackDeltas mem payload frameNumber first offset turns i pos command cmdq) := by
  induction turns generalizing i pos command cmdq with
  | zero => rfl
  | succ turns ih =>
      rw [skipActions] at hskip
      split at hskip
      · cases hskip
      · have hle := skipActions_le hskip
        have hsnd : (unpackAction payload pos command.action).2 =
            pos + if Bits.bitAt payload pos then 4 else 1 := by
          unfold unpackAction
          split <;> rfl
        rw [unpackDeltasChecked, unpackDeltas, unpackActionChecked_eq _ (by omega), ok_bind]
        dsimp only
        rw [load_payload (by omega), ok_bind, hsnd]
        exact ih hskip (by omega) _ _

/-- **The decoder reads inside of a payload that the parser has accepted.** -/
theorem msgCommandsUnpackIntoChecked_eq {payload : List UInt8} (hlen : 6 ≤ payload.length)
    (cmdq : CmdQueue) (frameNumber : UInt16) :
    msgCommandsUnpackIntoChecked mem cmdq payload frameNumber =
      .ok (msgCommandsUnpackInto mem cmdq payload frameNumber) := by
  unfold msgCommandsUnpackIntoChecked msgCommandsUnpackInto
  rw [payload16Checked_of_lt (by omega), ok_bind, load_payload (by omega), ok_bind,
    load_payload (by omega), ok_bind, load_payload (by omega), ok_bind, load_payload (by omega),
    ok_bind]
  dsimp only
  by_cases hzero : (payloadAt payload 2).toNat = 0
  · rw [if_pos hzero, if_pos hzero, pure_eq_ok]
  · rw [if_neg hzero, if_neg hzero, skipActionsChecked_eq, ok_bind]
    cases hskip : skipActions payload (payloadAt payload 2).toNat (8 * 5 + 3) with
    | none => rfl
    | some pos =>
        dsimp only
        have hbounds := nextByte_bounds pos
        by_cases hshort : nextByte pos + (payloadAt payload 2).toNat > payload.length
        · rw [if_pos hshort, if_pos hshort, pure_eq_ok]
        · rw [if_neg hshort, if_neg hshort,
            unpackDeltasChecked_eq hskip (by omega) (by omega), ok_bind, pure_eq_ok]

end

/-! ## Strings -/

/-- The strings that the parser hands out. -/
def ParsedPayload.strings : ParsedPayload → List (List UInt8)
  | .joinRequest _ _ _ username => [username]
  | .joinDeny _ error => [error]
  | _ => []

/-- The bytes are in the payload, with a NUL behind them. -/
def NulTerminated (payload str : List UInt8) : Prop :=
  ∃ before behind, payload = before ++ (str ++ 0 :: behind)

/-- A string that ends inside the payload with a NUL is terminated. -/
theorem nulTerminated_payloadString {payload : List UInt8} {start : Nat} {len : UInt8}
    (hinside : start + len.toNat < payload.length)
    (hnul : payloadAt payload (start + len.toNat) = 0) :
    NulTerminated payload (payloadString payload start len) := by
  refine ⟨payload.take start, payload.drop (start + len.toNat + 1), ?_⟩
  have hcell : payload.drop (start + len.toNat) = 0 :: payload.drop (start + len.toNat + 1) := by
    rw [List.drop_eq_getElem_cons hinside, ← hnul, payloadAt, List.getD_eq_getElem?_getD,
      List.getElem?_eq_getElem hinside, Option.getD_some]
  rw [payloadString, ← hcell, ← List.drop_drop, List.take_append_drop, List.take_append_drop]

/-- The strings a deny message is parsed to are terminated. -/
theorem nulTerminated_of_parseJoinDeny {type : MsgType} {payload : List UInt8}
    {pp : ParsedPayload} (h : parseJoinDeny type payload = .ok pp) :
    ∀ str ∈ pp.strings, NulTerminated payload str := by
  unfold parseJoinDeny at h
  dsimp only at h
  split at h
  · cases h
  · split at h
    · cases h
    · split at h
      · cases h
      · cases h
        simp only [ParsedPayload.strings, List.mem_singleton, forall_eq]
        exact nulTerminated_payloadString (by omega) (by simpa using ‹¬ _ ≠ _›)

/-- **Strings end inside of the payload.** -/
theorem nulTerminated_of_msgParsePayload {byte : UInt8} {payload : List UInt8}
    {pp : ParsedPayload} (h : msgParsePayload byte payload = .ok pp) :
    ∀ str ∈ pp.strings, NulTerminated payload str := by
  cases hof : MsgType.ofByte byte with
  | none =>
      rw [msgParsePayload, hof] at h
      cases h
      exact fun str hstr => absurd hstr List.not_mem_nil
  | some type =>
      rw [msgParsePayload, hof] at h
      cases type with
      | joinRequest =>
          dsimp only at h
          split at h
          · cases h
          · split at h
            · cases h
            · split at h
              · cases h
              · split at h
                · cases h
                · cases h
                  simp only [ParsedPayload.strings, List.mem_singleton, forall_eq]
                  exact nulTerminated_payloadString (by omega) (by simpa using ‹¬ _ ≠ _›)
      | joinDenyBadProtocol | joinDenyBadUsername | joinDenyServerFull =>
          exact nulTerminated_of_parseJoinDeny h
      | snakeBezier =>
          cases of_ite_error (of_ite_error h)
          exact fun str hstr => absurd hstr List.not_mem_nil
      | joinAccept | commands | feedback | snakeBezierAck | snakeHead =>
          cases of_ite_error h
          exact fun str hstr => absurd hstr List.not_mem_nil
      | _ =>
          cases h
          exact fun str hstr => absurd hstr List.not_mem_nil

/-! ## All reads -/

/-- A command message that is parsed has its six bytes of header. -/
theorem length_of_command {byte : UInt8} {payload : List UInt8} {frameNumber : UInt16}
    (h : msgParsePayload byte payload = .ok (.command frameNumber)) : 6 ≤ payload.length := by
  have hbyte : MsgType.commands.toByte = byte := byte_of_msgParsePayload h
  rw [← hbyte, msgParsePayload, MsgType.ofByte_toByte] at h
  dsimp only at h
  split at h
  · cases h
  · omega

/-- What is read of a packet when it is handled, by either side. -/
structure ReadsInside (udpBuf : List UInt8) : Prop where
  /-- The loop of the server. -/
  server : ∀ mem settings client addr frameNumber s,
    framingLoop (serverTurn mem settings client addr frameNumber)
        (fun s => markClientAsMaliciousAndDrop mem settings s addr client) .ok udpBuf 0 s =
      .ok (unpackPacket mem settings s client addr udpBuf frameNumber)
  /-- The loop of the client. -/
  client : ∀ mem num client world,
    framingLoop (clientTurn mem num) .ok .ok udpBuf 0 (client, world, clientRecvOk) =
      .ok (clientUnpackPacket mem num client world udpBuf)
  /-- The parser, and the decoder where the parser has found commands. -/
  message : ∀ type payload,
    msgParsePayloadChecked type payload = .ok (msgParsePayload type payload) ∧
    (∀ frame, msgParsePayload type payload = .ok (.command frame) → ∀ mem cmdq frameNumber,
      msgCommandsUnpackIntoChecked mem cmdq payload frameNumber =
        .ok (msgCommandsUnpackInto mem cmdq payload frameNumber)) ∧
    ∀ pp, msgParsePayload type payload = .ok pp → ∀ str ∈ pp.strings, NulTerminated payload str

/-- **Whatever arrives is read inside of its bounds.** -/
theorem reads_inside (udpBuf : List UInt8) : ReadsInside udpBuf where
  server := by
    intro mem settings client addr frameNumber s
    have hloop := framingLoop_eq (serverTurn mem settings client addr frameNumber)
      (fun s => markClientAsMaliciousAndDrop mem settings s addr client) .ok udpBuf
      udpBuf.length 0 (by omega) s
    rw [hloop, unpackPacket_eq, processFrames_eq_walk]
    rfl
  client := by
    intro mem num client world
    have hloop := framingLoop_eq (clientTurn mem num) .ok .ok udpBuf udpBuf.length 0 (by omega)
      (client, world, clientRecvOk)
    rw [hloop, clientUnpackPacket, clientUnpackLoop_eq]
    rfl
  message := by
    intro type payload
    exact ⟨msgParsePayloadChecked_eq type payload,
      fun frame hparse mem cmdq frameNumber =>
        msgCommandsUnpackIntoChecked_eq (length_of_command hparse) cmdq frameNumber,
      fun pp hparse => nulTerminated_of_msgParsePayload hparse⟩

end Clither
