import Clither.MsgCommands
import Clither.NetAddr
import Clither.ValidHm
import Clither.World

/-!
# The server

A server keeps a record for each client that has joined, under its network
address, and a snake for each record in the world.  This module holds the
functions of `server.c` and the body of the main loop of `server_instance.c`.

A pointer to a client record is the number of its cell in `server->clients`.
`NULL` is `none`, and a pointer to a record that has been erased refers to a
cell that is empty; using either one is a fault.  Everything handed to
`net_sendto` is logged in `sent`.
-/

namespace Clither

/-- `struct server_settings`.  The parser of the settings file refuses zeros. -/
structure ServerSettings where
  maxPlayers : UInt16
  clientTimeout : UInt16
  maliciousTimeout : UInt16
  maxUsernameLen : UInt8
  simTickRate : UInt8
  netTickRate : UInt8
  maxPlayers_pos : maxPlayers ≠ 0
  maxUsernameLen_pos : maxUsernameLen ≠ 0
  simTickRate_pos : simTickRate ≠ 0
  netTickRate_pos : netTickRate ≠ 0

/-- `server_settings_set_defaults`. -/
def serverSettingsDefaults : ServerSettings where
  maxPlayers := 600
  clientTimeout := 5
  maliciousTimeout := 60
  maxUsernameLen := 32
  simTickRate := 60
  netTickRate := 20
  maxPlayers_pos := by decide
  maxUsernameLen_pos := by decide
  simTickRate_pos := by decide
  netTickRate_pos := by decide

/-- Simulation steps per network update. -/
def ServerSettings.granularity (settings : ServerSettings) : Nat :=
  settings.simTickRate.toNat / settings.netTickRate.toNat

/-- The instance behind `msg_vec`. -/
def msgVec : VecInstance where
  header := 8
  sizeofElem := 8
  header_lt := ElemType.vecHeader_lt .pointer
  sizeofElem_pos := ElemType.size_pos .pointer

/-- `struct proximity_state`: the bezier handles that the client has not
acknowledged yet. -/
structure ProximityState where
  bezierPendingAcks : List Int
  deriving DecidableEq

/-- `proximity_state_init`. -/
def proximityStateInit : ProximityState where
  bezierPendingAcks := []

/-- The instance behind `proximity_state_bmap`. -/
def proximityStateBmap : BmapInstance where
  header := 16
  sizeofValue := 8

structure ServerClient where
  pendingMsgs : Vec msgVec Msg
  snakesInProximity : Bmap proximityStateBmap ProximityState
  timeoutCounter : Int
  /-- The "Command Buffer Fullness" window. -/
  cbfWindow : List Int
  snakeId : UInt16
  lastCommandMsgFrame : UInt16
  deriving DecidableEq

/-- `CBF_WINDOW_SIZE`. -/
def cbfWindowSize : Nat := 20

/-- The server, its world, and what it has sent so far. -/
structure Server where
  clients : ValidHm serverClientHm ServerClient
  maliciousClients : Hm NetAddr Int
  bannedClients : Hm NetAddr Int
  world : World
  sent : List (NetAddr × List UInt8)
  deriving DecidableEq

/-- `server_init` and `world_init`. -/
def serverInit : Server where
  clients := .empty
  maliciousClients := none
  bannedClients := none
  world := worldInit
  sent := []

namespace Server

/-- Read through a pointer to a client record. -/
def client (s : Server) : Option Nat → Except Fault (Nat × ServerClient)
  | none => .error .nullClient
  | some slot =>
      match s.clients.cell slot with
      | some (_, record) => .ok (slot, record)
      | none => .error .staleClient

/-- Write to a client record. -/
def setClient (s : Server) (slot : Nat) (record : ServerClient) : Server :=
  { s with clients := s.clients.set slot record }

end Server

/-! ## Removing clients -/

/-- `client_remove`. -/
def clientRemove (s : Server) (addr : NetAddr) (client : Option Nat) : Except Fault Server := do
  let (_, record) ← s.client client
  let clients ← s.clients.erase addr
  return { s with clients := clients, world := worldRemoveSnake s.world record.snakeId }

section

variable (mem : Alloc) (settings : ServerSettings)

/-- `mark_client_as_malicious_and_drop`. -/
def markClientAsMaliciousAndDrop (s : Server) (addr : NetAddr) (client : Option Nat) :
    Except Fault Server := do
  let malicious ← hmInsertUpdate netAddrHm mem s.maliciousClients addr
    settings.maliciousTimeout.toNat
  clientRemove { s with maliciousClients := malicious } addr client

/-! ## Messages to clients -/

/-- A message as it stands in a packet. -/
def msgBytes (m : Msg) : List UInt8 :=
  m.type.toByte :: m.payloadLen :: m.payload

/-- `server_queue`, whose result is ignored. -/
def serverQueue (client : ServerClient) (m : Msg) : ServerClient :=
  { client with pendingMsgs := vecPush mem client.pendingMsgs m }

/-- A packet with a single message. -/
def sendMsg (s : Server) (addr : NetAddr) (m : Msg) : Server :=
  { s with sent := s.sent ++ [(addr, msgBytes m)] }

/-- The characters of a string constant. -/
def cString (str : String) : List UInt8 :=
  str.toList.map fun c => UInt8.ofNat c.toNat

/-- `cbf_add`. -/
def cbfAdd (window : List Int) (value : Int) : List Int :=
  value :: window.take (cbfWindowSize - 1)

/-- `cbf_lower_bound`. -/
def cbfLowerBound (window : List Int) : Int :=
  window.foldl (fun lower value => if lower > value then value else lower) (2 ^ 31 - 1)

/-! ## Messages from clients -/

/-- The record of a client that joins in frame `frameNumber`, with all the fields
that are written to it. -/
def serverClientInit (frameNumber snakeId : UInt16) : ServerClient where
  pendingMsgs := vecInit
  snakesInProximity := none
  timeoutCounter := 0
  cbfWindow := List.replicate cbfWindowSize settings.granularity
  snakeId := snakeId
  lastCommandMsgFrame := frameNumber

/-- The part of `MSG_JOIN_REQUEST` that creates a client, with the pointer to its
record. -/
def createClient (s : Server) (addr : NetAddr) (frameNumber : UInt16) :
    Except Fault (Server × Nat) := do
  let record := serverClientInit settings frameNumber (spawnId s.world)
  match ← s.clients.emplaceNew mem addr record with
  | (_, none) => .error .nullClient
  | (clients, some slot) => do
      let (world, snakeId) ← worldSpawnSnake mem s.world
      let snake ← findSnake world snakeId
      return ({ s with clients := clients, world := bmapSet world snakeId (snakeSetHold snake) },
        slot)

/-- The answer to a join request of a client that has a record. -/
def joinAccept (s : Server) (slot : Nat) (clientFrame frameNumber : UInt16) :
    Except Fault Server := do
  let (_, record) ← s.client (some slot)
  let snake ← findSnake s.world record.snakeId
  let response := msgJoinAccept settings.simTickRate settings.netTickRate clientFrame frameNumber
    record.snakeId snake.head.pos
  return s.setClient slot (serverQueue mem record response)

/-- `MSG_JOIN_REQUEST`. -/
def processJoinRequest (s : Server) (client : Option Nat) (addr : NetAddr) (clientFrame : UInt16)
    (usernameLen : UInt8) (frameNumber : UInt16) : Except Fault Server :=
  if s.clients.count + 1 > settings.maxPlayers.toNat then
    .ok (sendMsg s addr (msgJoinDenyServerFull (cString "Server full")))
  else if usernameLen > settings.maxUsernameLen then
    .ok (sendMsg s addr (msgJoinDenyBadUsername (cString "Username too long")))
  else
    match client with
    | none => do
        let (s, slot) ← createClient mem settings s addr frameNumber
        joinAccept mem settings s slot clientFrame frameNumber
    | some slot => joinAccept mem settings s slot clientFrame frameNumber

/-- The feedback on the fullness of the client's command buffer. -/
def queueFeedback (client : ServerClient) (commandsQueued : Int) (frameNumber : UInt16) :
    ServerClient :=
  let lower := cbfLowerBound client.cbfWindow
  if commandsQueued < 0 then
    let diff := if commandsQueued < -10 then -10 else commandsQueued
    serverQueue mem client (msgFeedback (Int8.ofInt diff) frameNumber)
  else if lower - settings.granularity * 2 > 0 then
    let diff := Int8.ofInt (lower - settings.granularity * 2)
    let diff := if diff > 10 then 10 else diff
    serverQueue mem client (msgFeedback diff frameNumber)
  else client

/-- `MSG_COMMANDS`. -/
def processCommands (s : Server) (client : Option Nat) (addr : NetAddr) (payload : List UInt8)
    (frameNumber : UInt16) : Except Fault Server := do
  let (slot, record) ← s.client client
  let snake ← findSnake s.world record.snakeId
  let commandsQueued := u16SubWrap snake.cmdq.frameEnd frameNumber
  let (cmdq, status, _, lastFrame) := msgCommandsUnpackInto mem snake.cmdq payload frameNumber
  let s := { s with world := bmapSet s.world record.snakeId { snake with cmdq := cmdq } }
  if status ≠ 0 then markClientAsMaliciousAndDrop mem settings s addr client
  -- packets may be reordered: commands older than the last ones are dropped
  else if u16LeWrap lastFrame record.lastCommandMsgFrame then return s
  else
    let record := { record with lastCommandMsgFrame := lastFrame,
                                cbfWindow := cbfAdd record.cbfWindow commandsQueued }
    return s.setClient slot (queueFeedback mem settings record commandsQueued frameNumber)

/-- `process_message`.  It returns 0 on every path. -/
def processMessage (s : Server) (client : Option Nat) (addr : NetAddr) (type : UInt8)
    (payload : List UInt8) (frameNumber : UInt16) : Except Fault Server :=
  match msgParsePayload type payload with
  | .ok (.joinRequest _ frame usernameLen _) =>
      processJoinRequest mem settings s client addr frame usernameLen frameNumber
  | .ok (.command _) => processCommands mem settings s client addr payload frameNumber
  | .ok (.unparsed byte) =>
      if byte = MsgType.leave.toByte then clientRemove s addr client
      else markClientAsMaliciousAndDrop mem settings s addr client
  | _ => markClientAsMaliciousAndDrop mem settings s addr client

/-- The loop of `unpack_packet`, with the bytes that are left. -/
def unpackLoop (client : Option Nat) (addr : NetAddr) (frameNumber : UInt16) :
    Nat → List UInt8 → Server → Except Fault Server
  | fuel + 1, type :: msgLen :: rest, s =>
      if msgLen.toNat > rest.length then markClientAsMaliciousAndDrop mem settings s addr client
      else if client = none ∧ type ≠ MsgType.joinRequest.toByte then .ok s
      else do
        let s ← processMessage mem settings s client addr type (rest.take msgLen.toNat) frameNumber
        unpackLoop client addr frameNumber fuel (rest.drop msgLen.toNat) s
  | _, _, s => .ok s

/-- `unpack_packet`.  Every turn of the loop consumes at least two bytes. -/
def unpackPacket (s : Server) (client : Option Nat) (addr : NetAddr) (udpBuf : List UInt8)
    (frameNumber : UInt16) : Except Fault Server :=
  unpackLoop mem settings client addr frameNumber udpBuf.length udpBuf s

/-- The body of the receive loop of `server_recv`, for one packet. -/
def receivePacket (s : Server) (addr : NetAddr) (udpBuf : List UInt8) (frameNumber : UInt16) :
    Except Fault Server := do
  if (← hmFind netAddrHm s.bannedClients addr).isSome then return s
  else
    match ← hmFind netAddrHm s.maliciousClients addr with
    | some slot =>
        let increase := settings.maliciousTimeout.toNat * settings.netTickRate.toNat
        return { s with
                 maliciousClients := s.maliciousClients.map fun t =>
                   t.setValue slot (wrapInt 32 ((t.valueAt slot).getD 0 + increase)) }
    | none => do
        let client ← s.clients.find addr
        let s ← match client with
          | none => .ok s
          | some _ => do
              let (slot, record) ← s.client client
              .ok (s.setClient slot { record with timeoutCounter := 0 })
        unpackPacket mem settings s client addr udpBuf frameNumber

/-! ## Loops over the clients -/

/-- `server_client_hm_for_each`: the body gets the number of a cell, the address
and the record.  It may change or clear cells but not rearrange them. -/
def forEachClient (body : Server → Nat → NetAddr → ServerClient → Except Fault Server) :
    List Nat → Server → Except Fault Server
  | [], s => .ok s
  | slot :: rest, s =>
      match s.clients.cell slot with
      | none => forEachClient body rest s
      | some (addr, record) => do
          let s ← body s slot addr record
          forEachClient body rest s

/-- All cells, first to last. -/
def Server.slots (s : Server) : List Nat :=
  List.range s.clients.capacity

/-- The client has not been heard of for too long. -/
def timedOut (client : ServerClient) : Bool :=
  decide (client.timeoutCounter + 1 > settings.clientTimeout.toNat * settings.netTickRate.toNat)

/-- The first loop of `server_recv`. -/
def updateTimeouts (s : Server) : Except Fault Server :=
  forEachClient
    (fun s slot addr record =>
      let counted := s.setClient slot { record with timeoutCounter := record.timeoutCounter + 1 }
      if timedOut settings record then clientRemove counted addr (some slot) else .ok counted)
    s.slots s

/-- The second loop of `server_recv`, over the slots of the malicious clients. -/
def updateMaliciousLoop : List Nat → Hm NetAddr Int → Except Fault (Hm NetAddr Int)
  | [], malicious => .ok malicious
  | slot :: rest, malicious =>
      match malicious with
      | none => .ok none
      | some t =>
          match t.slotAt slot with
          | .live _ addr timeout => do
              let timeout := wrapInt 32 (timeout - 1)
              let malicious ←
                if timeout > 0 then .ok (some (t.setValue slot timeout))
                else hmErase netAddrHm (some (t.setValue slot timeout)) addr
              updateMaliciousLoop rest malicious
          | _ => updateMaliciousLoop rest (some t)

def updateMalicious (s : Server) : Except Fault Server := do
  let slots := match s.maliciousClients with
    | none => []
    | some t => List.range t.capacity
  let malicious ← updateMaliciousLoop slots s.maliciousClients
  return { s with maliciousClients := malicious }

/-- The receive loop of `server_recv`, for the packets that have arrived. -/
def receivePackets (frameNumber : UInt16) :
    List (NetAddr × List UInt8) → Server → Except Fault Server
  | [], s => .ok s
  | (addr, udpBuf) :: rest, s => do
      let s ← receivePacket mem settings s addr udpBuf frameNumber
      receivePackets frameNumber rest s

/-- `server_recv`. -/
def serverRecv (s : Server) (packets : List (NetAddr × List UInt8)) (frameNumber : UInt16) :
    Except Fault Server := do
  let s ← updateTimeouts settings s
  let s ← updateMalicious s
  receivePackets mem settings frameNumber packets s

/-! ## Network updates -/

/-- `NET_MAX_UDP_PACKET_SIZE`. -/
def netMaxUdpPacketSize : Nat := 576 - 60 - 8

/-- `append_unreliable_msgs_to_buf`. -/
def appendUnreliableMsgsToBuf (buf : List UInt8) (m : Msg) : Option (List UInt8 × Option Msg) :=
  if buf.length + m.payload.length + 2 > netMaxUdpPacketSize then some (buf, some m)
  else if m.isReliable then some (buf, some m)
  else some (buf ++ msgBytes m, none)

/-- `append_reliable_msgs_to_buf`. -/
def appendReliableMsgsToBuf (buf : List UInt8) (m : Msg) : Option (List UInt8 × Option Msg) :=
  if buf.length + m.payload.length + 2 > netMaxUdpPacketSize then some (buf, some m)
  else if !m.isReliable then some (buf, some m)
  else
    let m := { m with resendPeriodCounter := m.resendPeriodCounter - 1 }
    if m.resendPeriodCounter > 0 then some (buf, some m)
    else
      let m := { m with resendPeriodCounter := m.resendPeriod,
                        resendRetryCounter := m.resendRetryCounter - 1 }
      if m.resendRetryCounter = 0 then none
      else some (buf ++ msgBytes m, some m)

/-- The packet for a client and the messages that stay; `none` when a message has
been resent too often. -/
def packMsgs (pendingMsgs : Vec msgVec Msg) : Option (List UInt8 × Vec msgVec Msg) := do
  let (buf, pendingMsgs) ← vecRetain appendUnreliableMsgsToBuf [] pendingMsgs
  vecRetain appendReliableMsgsToBuf buf pendingMsgs

/-- `server_send_pending_data`. -/
def serverSendPendingData (s : Server) : Except Fault Server :=
  forEachClient
    (fun s slot addr record =>
      match packMsgs record.pendingMsgs with
      | none => clientRemove s addr (some slot)
      | some (buf, pendingMsgs) =>
          let record := { record with pendingMsgs := pendingMsgs }
          if buf = [] then .ok (s.setClient slot record)
          else
            .ok { s.setClient slot { record with timeoutCounter := record.timeoutCounter + 1 } with
                  sent := s.sent ++ [(addr, buf)] })
    s.slots s

/-- The elements with the indices that `rb_for_each` hands out. -/
def rbIndexed {c : RbInstance} {α : Type} : Rb c α → List (Nat × α)
  | none => []
  | some r =>
      (List.range r.count).filterMap fun i =>
        (r.peek i).map fun x => ((r.read + i) &&& (r.capacity - 1), x)

/-- The bounding box of a snake, enlarged on all sides. -/
def enlargedAabb (snake : Snake) (proximityRange : Int) : QwAabb where
  x1 := qwSub snake.data.aabb.x1 proximityRange
  y1 := qwSub snake.data.aabb.y1 proximityRange
  x2 := qwAdd snake.data.aabb.x2 proximityRange
  y2 := qwAdd snake.data.aabb.y2 proximityRange

/-- Queue all bezier handles of a snake that came into range. -/
def queueBezierHandles (client : ServerClient) (snakeId : UInt16) (snake : Snake) : ServerClient :=
  (rbIndexed snake.data.bezierHandles).foldl
    (fun client (handleId, handle) =>
      serverQueue mem client (msgSnakeBezier snakeId (UInt16.ofNat handleId) handle))
    client

/-- The inner loop of `server_update_snakes_in_range`, over the other clients.
When the map of snakes in proximity cannot grow, the function returns -1 and the
server instance stops. -/
def updateSnakesInRangeOf (world : World) (proximityRange : Int) :
    List ServerClient → ServerClient → Except Fault ServerClient
  | [], client => .ok client
  | otherClient :: rest, client => do
      let snake ← findSnake world client.snakeId
      let otherSnake ← findSnake world otherClient.snakeId
      if qwaabbTestQwpos (enlargedAabb otherSnake proximityRange) snake.head.pos then
        match ← bmapEmplace mem client.snakesInProximity otherClient.snakeId
            (.ok proximityStateInit) with
        | (_, .oom) => .error .stopped
        | (_, .present) => updateSnakesInRangeOf world proximityRange rest client
        | (prox, .new) =>
            let client := { client with snakesInProximity := prox }
            updateSnakesInRangeOf world proximityRange rest
              (queueBezierHandles mem client otherClient.snakeId otherSnake)
      else
        match bmapFind client.snakesInProximity otherClient.snakeId with
        | none => updateSnakesInRangeOf world proximityRange rest client
        | some _ =>
            let client := serverQueue mem client (msgSnakeDestroy otherClient.snakeId)
            let prox := bmapErase client.snakesInProximity otherClient.snakeId
            updateSnakesInRangeOf world proximityRange rest
              { client with snakesInProximity := prox }

/-- The records in all cells but one, first to last. -/
def otherClients (s : Server) (slot : Nat) : List ServerClient :=
  s.slots.filterMap fun otherSlot =>
    if otherSlot = slot then none else (s.clients.cell otherSlot).map Prod.snd

/-- `server_update_snakes_in_range`. -/
def serverUpdateSnakesInRange (s : Server) (proximityRange : Int) : Except Fault Server :=
  forEachClient
    (fun s slot _ record => do
      let record ← updateSnakesInRangeOf mem s.world proximityRange (otherClients s slot) record
      return s.setClient slot record)
    s.slots s

/-- The first loop of `server_queue_snake_data`: the head of the client's own
snake, unless it is held. -/
def queueSnakeHeads (s : Server) (frameNumber : UInt16) : Except Fault Server :=
  forEachClient
    (fun s slot _ record => do
      let snake ← findSnake s.world record.snakeId
      if snakeIsHeld snake then return s
      else return s.setClient slot (serverQueue mem record (msgSnakeHead snake.head frameNumber)))
    s.slots s

/-- The bezier handles of the snakes in proximity that are not acknowledged. -/
def queuePendingHandles (world : World) :
    List (UInt16 × ProximityState) → ServerClient → Except Fault ServerClient
  | [], client => .ok client
  | (snakeId, prox) :: rest, client => do
      let snake ← findSnake world snakeId
      queuePendingHandles world rest
        ((rbIndexed snake.data.bezierHandles).foldl
          (fun client (handleId, handle) =>
            if (handleId : Int) ∈ prox.bezierPendingAcks then
              serverQueue mem client (msgSnakeBezier snakeId (UInt16.ofNat handleId) handle)
            else client)
          client)

/-- The second loop of `server_queue_snake_data`. -/
def queueBezierData (s : Server) : Except Fault Server :=
  forEachClient
    (fun s slot _ record => do
      let record ← queuePendingHandles mem s.world
        (bmapEntries record.snakesInProximity).entries record
      return s.setClient slot record)
    s.slots s

/-- `server_queue_snake_data`. -/
def serverQueueSnakeData (s : Server) (frameNumber : UInt16) : Except Fault Server := do
  let s ← queueSnakeHeads mem s frameNumber
  queueBezierData mem s

/-! ## Simulation -/

variable (num : Numerics)

/-- One snake in `sim_update`. -/
def simUpdateSnake (snake : Snake) (frameNumber : UInt16) : Except Fault Snake :=
  let (snake, moves) := snakeTryResetHold snake frameNumber
  if moves then do
    let (cmdq, command) ← cmdQueueTakeOrPredict snake.cmdq frameNumber
    let (data, head, stale) ← snakeStep mem num snake.data snake.head snake.param command
      settings.simTickRate
    let data ← snakeRemoveStaleSegments data stale
    return { snake with cmdq := cmdq, data := data, head := head }
  else return snake

/-- The loop over the snakes of the world. -/
def simUpdateLoop (frameNumber : UInt16) : List UInt16 → World → Except Fault World
  | [], world => .ok world
  | snakeId :: rest, world => do
      let snake ← findSnake world snakeId
      let snake ← simUpdateSnake mem settings num snake frameNumber
      simUpdateLoop frameNumber rest (bmapSet world snakeId snake)

/-- `sim_update`, the part of the main loop that moves the snakes. -/
def simUpdate (s : Server) (frameNumber : UInt16) : Except Fault Server := do
  let world ← simUpdateLoop mem settings num frameNumber (bmapKeys s.world) s.world
  return { s with world := world }

end

end Clither
