import Clither.Server

/-!
# The client

A client asks to join until it is accepted, then simulates its own snake ahead
of the server and takes back what the server does not agree with.  This module
holds the functions of `client.c` that do not draw: connecting, handling the
messages of a packet and sending what is pending.

The world of the client is a map of the same type as the world of the server.
What concerns sockets and the name of the player is left out, so a packet that is
sent is the list of its bytes.
-/

namespace Clither

/-- `enum client_state`. -/
inductive ClientState where
  | disconnected
  | joining
  | connected
  deriving DecidableEq, Repr

/-- `struct client_recv_result`. -/
structure ClientRecvResult where
  error : Bool
  disconnected : Bool
  tickRateChanged : Bool
  deriving DecidableEq, Repr

def clientRecvOk : ClientRecvResult := ⟨false, false, false⟩
def clientRecvError : ClientRecvResult := ⟨true, false, false⟩
def clientRecvDisconnected : ClientRecvResult := ⟨false, true, false⟩
def clientRecvTickRateChanged : ClientRecvResult := ⟨false, false, true⟩

/-- `client_recv_result_combine`. -/
def clientRecvResultCombine (r₁ r₂ : ClientRecvResult) : ClientRecvResult where
  error := r₁.error || r₂.error
  disconnected := r₁.disconnected || r₂.disconnected
  tickRateChanged := r₁.tickRateChanged || r₂.tickRateChanged

/-- `struct client`. -/
structure Client where
  pendingMsgs : Vec msgVec Msg
  timeoutCounter : Int
  frameNumber : UInt16
  snakeId : UInt16
  warp : Int
  simTickRate : UInt8
  netTickRate : UInt8
  state : ClientState
  deriving DecidableEq

/-- `client_init`. -/
def clientInit : Client where
  pendingMsgs := vecInit
  timeoutCounter := 0
  frameNumber := 0
  snakeId := 0
  warp := 0
  simTickRate := 60
  netTickRate := 20
  state := .disconnected

section

variable (mem : Alloc)

/-- `client_queue`, whose result is ignored. -/
def clientQueue (client : Client) (m : Msg) : Client :=
  { client with pendingMsgs := vecPush mem client.pendingMsgs m }

/-- `client_connect`, with sockets that can be opened. -/
def clientConnect (client : Client) (username : List UInt8) : Client :=
  { clientQueue mem client (msgJoinRequest 0 client.frameNumber username) with state := .joining }

/-- `client_disconnect`. -/
def clientDisconnect (client : Client) : Client :=
  { client with pendingMsgs := client.pendingMsgs.clear, state := .disconnected }

/-! ## Messages from the server -/

/-- `retain_type`. -/
def retainType (type : MsgType) (_ : Unit) (m : Msg) : Option (Unit × Option Msg) :=
  some ((), if m.type = type then none else some m)

/-- `msg_vec_remove_type`. -/
def msgVecRemoveType (msgq : Vec msgVec Msg) (type : MsgType) : Vec msgVec Msg :=
  match vecRetain (retainType type) () msgq with
  | some (_, msgq) => msgq
  | none => msgq

/-- The frames that a client is ahead of the server on top of the round trip. -/
def clientLead (client : Client) : UInt16 :=
  UInt16.ofNat (5 * client.simTickRate.toNat / client.netTickRate.toNat)

/-- `MSG_JOIN_ACCEPT`.  The frame number that the server sends back may be at most
five seconds old. -/
def processJoinAccept (client : Client) (world : World) (simTickRate netTickRate : UInt8)
    (clientFrame serverFrame snakeId : UInt16) (spawn : QwPos) :
    Except Fault (Client × World × ClientRecvResult) :=
  if client.state ≠ .joining then .ok (client, world, clientRecvOk)
  else
    let client := { client with pendingMsgs := msgVecRemoveType client.pendingMsgs .joinRequest }
    let rtt := client.frameNumber - clientFrame
    if rtt.toNat > client.netTickRate.toNat * 5 then
      .ok (clientDisconnect client, world, clientRecvDisconnected)
    else do
      let client := { client with frameNumber := serverFrame + rtt + clientLead client,
                                  snakeId := snakeId }
      let (world, status) ← worldCreateSnake mem world client.snakeId spawn
      if status ≠ .new then return (client, world, clientRecvError)
      else
        return ({ client with simTickRate := simTickRate, netTickRate := netTickRate,
                              state := .connected },
          world, clientRecvTickRateChanged)

/-- `MSG_FEEDBACK`. -/
def processFeedback (client : Client) (diff : Int8) : Client :=
  if client.warp = 0 then { client with warp := diff.toInt * 10 } else client

/-- `MSG_SNAKE_HEAD`, about the client's own snake. -/
def processSnakeHead (num : Numerics) (client : Client) (world : World) (head : SnakeHead)
    (frameNumber : UInt16) : Except Fault World := do
  let snake ← findSnake world client.snakeId
  let snake ← snakeAckFrame mem num snake head frameNumber client.simTickRate
  return bmapSet world client.snakeId snake

/-- `MSG_SNAKE_BEZIER`, which only makes sure that there is such a snake. -/
def processSnakeBezier (world : World) (snakeId : UInt16) :
    Except Fault (World × ClientRecvResult) :=
  match bmapFind world snakeId with
  | some _ => .ok (world, clientRecvOk)
  | none => do
      let (world, status) ← worldCreateSnake mem world snakeId { x := 0, y := 0 }
      return (world, if status ≠ .new then clientRecvError else clientRecvOk)

/-- `process_message`.  Every type that is not listed is skipped, and so is a
payload that the parser refuses. -/
def clientProcessMessage (num : Numerics) (client : Client) (world : World) (type : UInt8)
    (payload : List UInt8) : Except Fault (Client × World × ClientRecvResult) :=
  match msgParsePayload type payload with
  | .ok (.joinAccept simTickRate netTickRate clientFrame serverFrame snakeId spawn) =>
      processJoinAccept mem client world simTickRate netTickRate clientFrame serverFrame snakeId
        spawn
  | .ok (.joinDeny _ _) => .ok (clientDisconnect client, world, clientRecvDisconnected)
  | .ok (.feedback _ diff) => .ok (processFeedback client diff, world, clientRecvOk)
  | .ok (.snakeHead head frameNumber) => do
      let world ← processSnakeHead mem num client world head frameNumber
      return (client, world, clientRecvOk)
  | .ok (.snakeBezier snakeId _ _ _ _ _) => do
      let (world, result) ← processSnakeBezier mem world snakeId
      return (client, world, result)
  | _ => .ok (client, world, clientRecvOk)

/-- The loop of `unpack_packet`, with the bytes that are left. -/
def clientUnpackLoop (num : Numerics) :
    Nat → List UInt8 → Client → World → ClientRecvResult →
      Except Fault (Client × World × ClientRecvResult)
  | fuel + 1, type :: msgLen :: rest, client, world, result =>
      if msgLen.toNat > rest.length then .ok (client, world, result)
      else do
        let (client, world, r) ←
          clientProcessMessage mem num client world type (rest.take msgLen.toNat)
        let result := clientRecvResultCombine result r
        if result.error || result.disconnected then return (client, world, result)
        else clientUnpackLoop num fuel (rest.drop msgLen.toNat) client world result
  | _, _, client, world, result => .ok (client, world, result)

/-- `unpack_packet`.  Every turn of the loop consumes at least two bytes. -/
def clientUnpackPacket (num : Numerics) (client : Client) (world : World) (udpBuf : List UInt8) :
    Except Fault (Client × World × ClientRecvResult) :=
  clientUnpackLoop mem num udpBuf.length udpBuf client world clientRecvOk

/-- `client_recv`, for the packet that has arrived, if any. -/
def clientRecv (num : Numerics) (client : Client) (world : World) (packet : Option (List UInt8)) :
    Except Fault (Client × World × ClientRecvResult) :=
  match packet with
  | none | some [] => .ok (client, world, clientRecvOk)
  | some udpBuf => clientUnpackPacket mem num { client with timeoutCounter := 0 } world udpBuf

end

/-! ## Messages to the server -/

/-- `msg_update_frame_number`. -/
def msgUpdateFrameNumber (m : Msg) (frameNumber : UInt16) : Msg :=
  match m.type with
  | .joinRequest =>
      { m with payload := (m.payload.set 2 (frameNumber >>> 8).toUInt8).set 3 frameNumber.toUInt8
               length_lt := by
                 rw [List.length_set, List.length_set]
                 exact m.length_lt }
  | _ => m

/-- `append_reliable_msgs_to_buf` of the client, which writes the frame number of
this packet into the message. -/
def clientAppendReliableMsgsToBuf (frameNumber : UInt16) (buf : List UInt8) (m : Msg) :
    Option (List UInt8 × Option Msg) :=
  if buf.length + m.payload.length + 2 > netMaxUdpPacketSize then some (buf, some m)
  else if !m.isReliable then some (buf, some m)
  else
    let m := { m with resendPeriodCounter := m.resendPeriodCounter - 1 }
    if m.resendPeriodCounter > 0 then some (buf, some m)
    else
      let m := { m with resendPeriodCounter := m.resendPeriod,
                        resendRetryCounter := m.resendRetryCounter - 1 }
      if m.resendRetryCounter = 0 then none
      else
        let m := msgUpdateFrameNumber m frameNumber
        some (buf ++ msgBytes m, some m)

/-- The packet for the server and the messages that stay; `none` when a message
has been resent too often.  The client appends unreliable messages as the server
does. -/
def clientPackMsgs (frameNumber : UInt16) (pendingMsgs : Vec msgVec Msg) :
    Option (List UInt8 × Vec msgVec Msg) := do
  let (buf, pendingMsgs) ← vecRetain appendUnreliableMsgsToBuf [] pendingMsgs
  vecRetain (clientAppendReliableMsgsToBuf frameNumber) buf pendingMsgs

/-- `client_send_pending_data`, with the packet that is sent, if any.  An error
ends the client. -/
def clientSendPendingData (client : Client) : Except Fault (Client × Option (List UInt8)) :=
  match clientPackMsgs client.frameNumber client.pendingMsgs with
  | none => .error .stopped
  | some (buf, pendingMsgs) =>
      let client := { client with pendingMsgs := pendingMsgs }
      let client := if buf = [] then client
        else { client with timeoutCounter := client.timeoutCounter + 1 }
      if client.timeoutCounter > (client.netTickRate.toNat : Int) * 3 then .error .stopped
      else .ok (client, if buf = [] then none else some buf)

/-! ## What the functions leave alone -/

theorem items_msgVecRemoveType (msgq : Vec msgVec Msg) (type : MsgType) :
    (msgVecRemoveType msgq type).items = msgq.items.filter fun m => decide (m.type ≠ type) := by
  have hloop (elems : List Msg) : retainLoop (retainType type) () elems =
      some ((), elems.filter fun m => decide (m.type ≠ type)) := by
    induction elems with
    | nil => rfl
    | cons m rest ih =>
        rw [retainLoop, retainType]
        dsimp only
        rw [ih]
        by_cases htype : m.type = type
        · simp [htype]
        · simp [htype]
  have hretain := items_vecRetain (hloop msgq.items)
  obtain ⟨v, hv, hitems⟩ := hretain
  rw [msgVecRemoveType, hv]
  exact hitems

end Clither
