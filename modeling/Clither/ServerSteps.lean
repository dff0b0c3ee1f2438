import Clither.Lib.Run
import Clither.RemovedSender
import Mathlib.Logic.Relation

/-!
# What the server can do

The main loop of the server consists of a few functions, and a run calls them in
any order.  Each of them is a sequence of small steps: a client record changes in
one of ten ways, a packet is sent, a client is created or removed, a snake gets
its commands or moves, or a list of addresses changes.

`serverEvent_steps` is the one place where the functions are taken apart.  An
invariant of the server is proved for each kind of step.
-/

namespace Clither

open Faults (bind_eq_ok)

open Relation

/-- The parts of an iteration of `server_instance_run`.  A packet is a part of
its own. -/
inductive ServerEvent where
  | timeouts
  | malicious
  | packet (sender : NetAddr) (udpBuf : List UInt8)
  | simulate
  | snakesInRange (proximityRange : Int)
  | queueData
  | sendPending
  | nextFrame

structure ServerRun where
  server : Server
  frame : UInt16
  deriving DecidableEq

/-- The server has just been started. -/
def serverRunInit : ServerRun where
  server := serverInit
  frame := 0

section

variable (mem : Alloc) (settings : ServerSettings) (num : Numerics)

def serverEvent (r : ServerRun) : ServerEvent → Except Fault ServerRun
  | .timeouts => do
      let s ← updateTimeouts settings r.server
      return { r with server := s }
  | .malicious => do
      let s ← updateMalicious r.server
      return { r with server := s }
  | .packet sender udpBuf => do
      let s ← receivePacket mem settings r.server sender udpBuf r.frame
      return { r with server := s }
  | .simulate => do
      let s ← simUpdate mem settings num r.server r.frame
      return { r with server := s }
  | .snakesInRange proximityRange => do
      let s ← serverUpdateSnakesInRange mem r.server proximityRange
      return { r with server := s }
  | .queueData => do
      let s ← serverQueueSnakeData mem r.server r.frame
      return { r with server := s }
  | .sendPending => do
      let s ← serverSendPendingData r.server
      return { r with server := s }
  | .nextFrame => .ok { r with frame := r.frame + 1 }

end

/-! ## The steps -/

/-- The event is a packet from that address that holds an accepted join request. -/
def AsksToJoin (event : ServerEvent) (addr : NetAddr) (clientFrame : UInt16)
    (usernameLen : UInt8) : Prop :=
  ∃ sender udpBuf type payload, event = .packet sender udpBuf ∧
    SameKey serverClientHm addr sender ∧ .message type payload ∈ frames udpBuf ∧
    msgKind type payload = .join clientFrame usernameLen

/-- The event is a packet with a message that removes its sender. -/
def DropsSender (event : ServerEvent) : Prop :=
  ∃ sender udpBuf f, event = .packet sender udpBuf ∧ f ∈ frames udpBuf ∧ f.dropsSender = true

section

variable (mem : Alloc) (settings : ServerSettings) (num : Numerics) (event : ServerEvent)
  (frame : UInt16)

/-- What one event can do to the record of a client. -/
inductive RecordStep (s : Server) (slot : Nat) (addr : NetAddr) (record : ServerClient) :
    ServerClient → Prop where
  | heard (hevent : ∃ sender udpBuf, event = .packet sender udpBuf) :
      RecordStep s slot addr record { record with timeoutCounter := 0 }
  | counted (hevent : event = .timeouts) :
      RecordStep s slot addr record { record with timeoutCounter := record.timeoutCounter + 1 }
  | accepted {clientFrame : UInt16} {usernameLen : UInt8} {snake : Snake}
      (hasks : AsksToJoin event addr clientFrame usernameLen)
      (hsnake : findSnake s.world record.snakeId = .ok snake) :
      RecordStep s slot addr record
        (serverQueue mem record (msgJoinAccept settings.simTickRate settings.netTickRate
          clientFrame frame record.snakeId snake.head.pos))
  | commands (lastFrame : UInt16) (commandsQueued : Int) :
      RecordStep s slot addr record
        { record with lastCommandMsgFrame := lastFrame,
                      cbfWindow := cbfAdd record.cbfWindow commandsQueued }
  | feedback (diff : Int8) :
      RecordStep s slot addr record (serverQueue mem record (msgFeedback diff frame))
  | head {snake : Snake} (hsnake : findSnake s.world record.snakeId = .ok snake) :
      RecordStep s slot addr record (serverQueue mem record (msgSnakeHead snake.head frame))
  | entered {proximityRange : Int} {other : ServerClient} {snake otherSnake : Snake}
      {prox : Bmap proximityStateBmap ProximityState}
      (hevent : event = .snakesInRange proximityRange)
      (hother : other ∈ otherClients s slot)
      (hsnake : findSnake s.world record.snakeId = .ok snake)
      (hotherSnake : findSnake s.world other.snakeId = .ok otherSnake)
      (hinside : qwaabbTestQwpos (enlargedAabb otherSnake proximityRange) snake.head.pos = true)
      (hemplace : bmapEmplace mem record.snakesInProximity other.snakeId
        (.ok proximityStateInit) = .ok (prox, .new)) :
      RecordStep s slot addr record
        (queueBezierHandles mem { record with snakesInProximity := prox } other.snakeId otherSnake)
  | left {other : ServerClient} (hother : other ∈ otherClients s slot)
      (hkey : other.snakeId ∈ bmapKeys record.snakesInProximity) :
      RecordStep s slot addr record
        { serverQueue mem record (msgSnakeDestroy other.snakeId) with
          snakesInProximity := bmapErase record.snakesInProximity other.snakeId }
  | handle {snakeId : UInt16} {prox : ProximityState} {snake : Snake} {handleId : Nat}
      {handle : BezierHandle}
      (hentry : (snakeId, prox) ∈ (bmapEntries record.snakesInProximity).entries)
      (hpending : (handleId : Int) ∈ prox.bezierPendingAcks)
      (hsnake : findSnake s.world snakeId = .ok snake)
      (hhandle : (handleId, handle) ∈ rbIndexed snake.data.bezierHandles) :
      RecordStep s slot addr record
        (serverQueue mem record (msgSnakeBezier snakeId (UInt16.ofNat handleId) handle))
  | packed {left : Vec msgVec Msg} (hevent : event = .sendPending)
      (hpack : packMsgs record.pendingMsgs = some ([], left)) :
      RecordStep s slot addr record { record with pendingMsgs := left }

/-- Why a client is removed. -/
inductive RemoveReason (record : ServerClient) : Prop where
  | silent (hevent : event = .timeouts)
      (hcounter : record.timeoutCounter >
        settings.clientTimeout.toNat * settings.netTickRate.toNat)
  | exhausted (hevent : event = .sendPending) (hpack : packMsgs record.pendingMsgs = none)
  | dropped (hdrops : DropsSender event)

/-- What an event that begins in `start` can do to the server. -/
inductive ServerStep (start s : Server) : Server → Prop where
  | record {slot : Nat} {addr : NetAddr} {record record' : ServerClient}
      (hcell : s.clients.cell slot = some (addr, record))
      (hsteps : ReflTransGen (RecordStep mem settings event frame s slot addr) record record') :
      ServerStep start s (s.setClient slot record')
  | sent {slot : Nat} {addr : NetAddr} {record : ServerClient} {buf : List UInt8}
      {left : Vec msgVec Msg} (hevent : event = .sendPending)
      (hcell : s.clients.cell slot = some (addr, record))
      (hpack : packMsgs record.pendingMsgs = some (buf, left)) :
      ServerStep start s
        { s.setClient slot { record with pendingMsgs := left,
                                         timeoutCounter := record.timeoutCounter + 1 } with
          sent := s.sent ++ [(addr, buf)] }
  | denied {addr : NetAddr} {clientFrame : UInt16} {usernameLen : UInt8} {m : Msg}
      (hasks : AsksToJoin event addr clientFrame usernameLen)
      (hdenial : joinDenial settings s.clients.count usernameLen = some m) :
      ServerStep start s (sendMsg s addr m)
  | joined {addr : NetAddr} {clientFrame : UInt16} {usernameLen : UInt8} {slot : Nat}
      {s' : Server} (hasks : AsksToJoin event addr clientFrame usernameLen)
      (hclients : s.clients = start.clients) (hworld : s.world = start.world)
      (hdenial : joinDenial settings s.clients.count usernameLen = none)
      (hcreate : createClient mem settings s addr frame = .ok (s', slot)) :
      ServerStep start s s'
  | removed {slot : Nat} {a addr : NetAddr} {record : ServerClient} {s' : Server}
      (hcell : s.clients.cell slot = some (a, record)) (hsame : SameKey serverClientHm a addr)
      (hreason : RemoveReason settings event record)
      (hremove : clientRemove s addr (some slot) = .ok s') :
      ServerStep start s s'
  | commands {slot : Nat} {addr : NetAddr} {record : ServerClient} {snake : Snake}
      (payload : List UInt8) (hcell : s.clients.cell slot = some (addr, record))
      (hsnake : findSnake s.world record.snakeId = .ok snake) :
      ServerStep start s
        { s with world := bmapSet s.world record.snakeId
                   { snake with cmdq := (msgCommandsUnpackInto mem snake.cmdq payload frame).1 } }
  | simulated {snakeId : UInt16} {snake snake' : Snake} (hevent : event = .simulate)
      (hsnake : findSnake s.world snakeId = .ok snake)
      (hstart : findSnake start.world snakeId = .ok snake)
      (hupdate : simUpdateSnake mem settings num snake frame = .ok snake') :
      ServerStep start s { s with world := bmapSet s.world snakeId snake' }
  | marked {malicious : Hm NetAddr Int} (hdrops : DropsSender event) :
      ServerStep start s { s with maliciousClients := malicious }
  | punished {malicious : Hm NetAddr Int}
      (hempty : s.maliciousClients = none → malicious = none) :
      ServerStep start s { s with maliciousClients := malicious }

/-- The steps of an event. -/
abbrev ServerSteps (start : Server) : Server → Server → Prop :=
  ReflTransGen (ServerStep mem settings num event frame start)

end

section

variable {mem : Alloc} {settings : ServerSettings} {num : Numerics} {event : ServerEvent}
  {frame : UInt16} {start : Server}

/-- Storing a record that one record step away is one step of the server. -/
theorem steps_setClient {s : Server} {slot : Nat} {addr : NetAddr} {record record' : ServerClient}
    (hcell : s.clients.cell slot = some (addr, record))
    (hstep : RecordStep mem settings event frame s slot addr record record') :
    ServerSteps mem settings num event frame start s (s.setClient slot record') :=
  .single (.record hcell (.single hstep))

/-! ## Packets -/

/-- Accepting a join is steps of the sender's record. -/
theorem steps_joinAccept {s s' : Server} {slot : Nat} {addr : NetAddr} {record : ServerClient}
    {clientFrame : UInt16} {usernameLen : UInt8}
    (hcell : s.clients.cell slot = some (addr, record))
    (hasks : AsksToJoin event addr clientFrame usernameLen)
    (h : joinAccept mem settings s slot clientFrame frame = .ok s') :
    ServerSteps mem settings num event frame start s s' := by
  unfold joinAccept at h
  rw [client_of_cell hcell, ok_bind] at h
  obtain ⟨snake, hsnake, h⟩ := bind_eq_ok.mp h
  cases h
  exact steps_setClient hcell (.accepted hasks hsnake)

/-- Marking a client as malicious removes it, which a packet that drops its sender allows. -/
theorem steps_mark {s s' : Server} {slot : Nat} {a addr : NetAddr} {record : ServerClient}
    (hdrops : DropsSender event) (hcell : s.clients.cell slot = some (a, record))
    (hsame : SameKey serverClientHm a addr)
    (h : markClientAsMaliciousAndDrop mem settings s addr (some slot) = .ok s') :
    ServerSteps mem settings num event frame start s s' := by
  obtain ⟨malicious, -, hremove⟩ := bind_eq_ok.mp h
  have hmarked : ServerStep mem settings num event frame start s
      { s with maliciousClients := malicious } := .marked hdrops
  exact .head hmarked (.single (.removed hcell hsame (.dropped hdrops) hremove))

/-- Queueing a feedback message is steps of the record it is queued for. -/
theorem steps_queueFeedback {s : Server} {slot : Nat} {addr : NetAddr} {record : ServerClient}
    (commandsQueued : Int) :
    ReflTransGen (RecordStep mem settings event frame s slot addr) record
      (queueFeedback mem settings record commandsQueued frame) := by
  unfold queueFeedback
  dsimp only
  split
  · exact .single (.feedback _)
  · split
    · exact .single (.feedback _)
    · exact .refl

/-- Unpacking commands steps the sender's snake and record, or drops the sender. -/
theorem steps_processCommands {s s' : Server} {slot : Nat} {a addr : NetAddr}
    {record : ServerClient} (hcell : s.clients.cell slot = some (a, record))
    (hsame : SameKey serverClientHm a addr) {payload : List UInt8}
    (hdrops : commandsStatus payload ≠ 0 → DropsSender event)
    (h : processCommands mem settings s (some slot) addr payload frame = .ok s') :
    ServerSteps mem settings num event frame start s s' := by
  unfold processCommands at h
  rw [client_of_cell hcell, ok_bind] at h
  obtain ⟨snake, hsnake, h⟩ := bind_eq_ok.mp h
  simp only [msgCommandsUnpackInto_status] at h
  generalize hs₁ : ({ s with world := _ } : Server) = s₁ at h
  have hfirst : ServerStep mem settings num event frame start s s₁ := by
    subst hs₁
    exact .commands payload hcell hsnake
  have hcell₁ : s₁.clients.cell slot = some (a, record) := by
    subst hs₁
    exact hcell
  by_cases hstatus : commandsStatus payload = 0
  · rw [if_neg (not_not.mpr hstatus)] at h
    split at h
    · cases h
      exact .single hfirst
    · cases h
      exact .tail (.single hfirst)
        (.record hcell₁ (.head (.commands _ _) (steps_queueFeedback _)))
  · rw [if_pos hstatus] at h
    exact .head hfirst (steps_mark (hdrops hstatus) hcell₁ hsame h)

/-- A message of a registered client. -/
theorem steps_processMessage {s s' : Server} {slot : Nat} {a addr : NetAddr}
    {record : ServerClient} {udpBuf : List UInt8} {type : UInt8} {payload : List UInt8}
    (hcell : s.clients.cell slot = some (a, record)) (hsame : SameKey serverClientHm a addr)
    (hframe : .message type payload ∈ frames udpBuf)
    (h : processMessage mem settings s (some slot) addr type payload frame = .ok s') :
    ServerSteps mem settings num (.packet addr udpBuf) frame start s s' := by
  have hdrops (hdrop : (Frame.message type payload).dropsSender = true) :
      DropsSender (.packet addr udpBuf) := ⟨addr, udpBuf, _, rfl, hframe, hdrop⟩
  rw [processMessage_eq] at h
  simp only [Frame.dropsSender] at hdrops
  cases hkind : msgKind type payload with
  | join clientFrame usernameLen =>
      rw [hkind] at h
      simp only [processJoinRequest_eq] at h
      cases hdenial : joinDenial settings s.clients.count usernameLen with
      | some m =>
          rw [hdenial] at h
          cases h
          exact .single (.denied ⟨addr, udpBuf, type, payload, rfl, SameKey.refl _ addr, hframe, hkind⟩
            hdenial)
      | none =>
          rw [hdenial] at h
          exact steps_joinAccept hcell ⟨addr, udpBuf, type, payload, rfl, hsame, hframe, hkind⟩ h
  | leave =>
      rw [hkind] at h hdrops
      exact .single (.removed hcell hsame (.dropped (hdrops rfl)) h)
  | commands =>
      rw [hkind] at h hdrops
      exact steps_processCommands hcell hsame (fun hstatus => hdrops (decide_eq_true hstatus)) h
  | malicious =>
      rw [hkind] at h hdrops
      exact steps_mark (hdrops rfl) hcell hsame h

/-- A message that reaches the server through a pointer that cannot be used. -/
theorem steps_processMessage_unusable {s s' : Server} {client : Option Nat} {addr : NetAddr}
    {udpBuf : List UInt8} {type : UInt8} {payload : List UInt8} (hpointer : Unusable s client addr)
    (hframe : .message type payload ∈ frames udpBuf)
    (h : processMessage mem settings s client addr type payload frame = .ok s') :
    ServerSteps mem settings num (.packet addr udpBuf) frame start s s' ∧
      Unusable s' client addr := by
  obtain ⟨f, hf, hclient⟩ := hpointer.fault
  rw [processMessage_eq] at h
  cases hkind : msgKind type payload with
  | join clientFrame usernameLen =>
      rw [hkind] at h
      dsimp only at h
      cases hdenial : joinDenial settings s.clients.count usernameLen with
      | some m =>
          rw [processJoinRequest_eq, hdenial] at h
          cases h
          exact ⟨.single (.denied ⟨addr, udpBuf, type, payload, rfl, SameKey.refl _ addr, hframe,
            hkind⟩ hdenial), hpointer.fault, hpointer.stores⟩
      | none =>
          obtain ⟨f', -, hjoin⟩ :=
            processJoinRequest_unusable mem hpointer hdenial clientFrame frame
          cases hjoin.symm.trans h
  | leave =>
      rw [hkind] at h
      cases (clientRemove_of_error hclient).symm.trans h
  | commands =>
      rw [hkind] at h
      dsimp only at h
      rw [processCommands, hclient] at h
      cases h
  | malicious =>
      rw [hkind] at h
      exact absurd h ((mark_missing mem settings addr hclient hf).2 s')

/-- Without a usable record, the frames of a datagram add answers only. -/
theorem steps_processFrames_unusable {s s' : Server} {client : Option Nat} {addr : NetAddr}
    {udpBuf : List UInt8} {fs : List Frame} (hpointer : Unusable s client addr)
    (hfs : ∀ f ∈ fs, f ∈ frames udpBuf)
    (h : processFrames mem settings client addr frame fs s = .ok s') :
    ServerSteps mem settings num (.packet addr udpBuf) frame start s s' := by
  induction fs generalizing s with
  | nil =>
      cases h
      exact .refl
  | cons f rest ih =>
      obtain ⟨hf, hrest⟩ := List.forall_mem_cons.mp hfs
      cases f with
      | truncated =>
          obtain ⟨g, hg, hclient⟩ := hpointer.fault
          exact absurd h ((mark_missing mem settings addr hclient hg).2 s')
      | message type payload =>
          rw [processFrames] at h
          split at h
          · cases h
            exact .refl
          · obtain ⟨s₁, hmessage, h⟩ := bind_eq_ok.mp h
            obtain ⟨hsteps, hpointer₁⟩ :=
              @steps_processMessage_unusable mem settings num frame start _ _ _ _ _ _ _ hpointer hf
                hmessage
            exact hsteps.trans (ih hpointer₁ hrest h)

/-- The frames of a registered client are steps of its record, by induction on the frames. -/
theorem steps_processFrames_registered {s s' : Server} {slot : Nat} {a addr : NetAddr}
    {record : ServerClient} {udpBuf : List UInt8} {fs : List Frame}
    (hcell : s.clients.cell slot = some (a, record)) (hsame : SameKey serverClientHm a addr)
    (hfs : ∀ f ∈ fs, f ∈ frames udpBuf)
    (h : processFrames mem settings (some slot) addr frame fs s = .ok s') :
    ServerSteps mem settings num (.packet addr udpBuf) frame start s s' := by
  induction fs generalizing s record with
  | nil =>
      cases h
      exact .refl
  | cons f rest ih =>
      obtain ⟨hf, hrest⟩ := List.forall_mem_cons.mp hfs
      cases f with
      | truncated => exact steps_mark ⟨addr, udpBuf, .truncated, rfl, hf, rfl⟩ hcell hsame h
      | message type payload =>
          rw [processFrames, if_neg (by simp)] at h
          obtain ⟨s₁, hmessage, h⟩ := bind_eq_ok.mp h
          refine (steps_processMessage hcell hsame hf hmessage).trans ?_
          rcases processMessage_registered hcell hsame hmessage with ⟨-, hkept⟩ | ⟨-, hgone⟩
          · obtain ⟨a', record', record₁, hcell', hcell₁, -⟩ := hkept.cell
            cases hcell.symm.trans hcell'
            exact ih hcell₁ hrest h
          · exact steps_processFrames_unusable (unusable_of_empty addr hgone.empty) hrest h

/-- A packet from an address without a record: the clients and the world are as
they were when the packet arrived. -/
theorem steps_processFrames_unknown {s s' : Server} {addr : NetAddr} {udpBuf : List UInt8}
    {fs : List Frame} (hclients : s.clients = start.clients) (hworld : s.world = start.world)
    (hfs : ∀ f ∈ fs, f ∈ frames udpBuf)
    (h : processFrames mem settings none addr frame fs s = .ok s') :
    ServerSteps mem settings num (.packet addr udpBuf) frame start s s' := by
  induction fs generalizing s with
  | nil =>
      cases h
      exact .refl
  | cons f rest ih =>
      obtain ⟨hf, hlater⟩ := List.forall_mem_cons.mp hfs
      have hasks {type : UInt8} {payload : List UInt8} {clientFrame : UInt16} {usernameLen : UInt8}
          (heq : f = .message type payload)
          (hkind : msgKind type payload = .join clientFrame usernameLen) :
          AsksToJoin (.packet addr udpBuf) addr clientFrame usernameLen :=
        ⟨addr, udpBuf, type, payload, rfl, SameKey.refl _ addr, heq ▸ hf, hkind⟩
      cases unknownFrame_of_ok h with
      | ends htype hsame =>
          rw [hsame]
      | denied hkind hdenial hrest =>
          exact .head (.denied (hasks rfl hkind) hdenial) (ih hclients hworld hlater hrest)
      | created hkind hdenial hcreate haccept hrest =>
          obtain ⟨hcell, -, -⟩ := createClient_cell hcreate
          have hkept := kept_of_joinAccept hcell haccept
          obtain ⟨a, record, record', hcell', hcell₂, -⟩ := hkept.cell
          cases hcell.symm.trans hcell'
          have hstores := unusable_of_stores ⟨_, addr, record', hcell₂, SameKey.refl _ addr⟩
          refine .head (.joined (hasks rfl hkind) hclients hworld hdenial hcreate) ?_
          exact (steps_joinAccept hcell (hasks rfl hkind) haccept).trans
            (steps_processFrames_unusable hstores hlater hrest)

/-- One received datagram is steps of the server. -/
theorem steps_receivePacket {s' : Server} {sender : NetAddr} {udpBuf : List UInt8}
    (h : receivePacket mem settings start sender udpBuf frame = .ok s') :
    ServerSteps mem settings num (.packet sender udpBuf) frame start start s' := by
  cases received_of_ok h with
  | ignored => exact .refl
  | punished hempty => exact .single (.punished hempty)
  | unknown hbanned hmalicious hfind hframes =>
      exact steps_processFrames_unknown rfl rfl (fun f hf => hf) hframes
  | @known slot a record _ hbanned hmalicious hcell hsame hframes =>
      have hcell₁ := cell_setClient hcell { record with timeoutCounter := 0 }
      exact (steps_setClient hcell (.heard ⟨sender, udpBuf, rfl⟩)).trans
        (steps_processFrames_registered hcell₁ hsame (fun f hf => hf) hframes)

/-! ## Loops over the clients -/

/-- Counting the timeouts is steps of the records, each of them kept or removed. -/
theorem steps_updateTimeouts {s' : Server} (h : updateTimeouts settings start = .ok s') :
    ServerSteps mem settings num .timeouts frame start start s' := by
  refine forEachClient_invariant (fun s s₁ slot addr record hs hcell hbody => ?_) .refl h
  refine hs.trans ?_
  dsimp only at hbody
  have hcounted : ServerSteps mem settings num .timeouts frame start s
      (s.setClient slot { record with timeoutCounter := record.timeoutCounter + 1 }) :=
    steps_setClient hcell (.counted rfl)
  by_cases htimedOut : timedOut settings record = true
  · rw [if_pos htimedOut] at hbody
    have hcell₁ := cell_setClient hcell { record with timeoutCounter := record.timeoutCounter + 1 }
    exact .tail hcounted (.removed hcell₁ (SameKey.refl _ addr)
      (.silent rfl (of_decide_eq_true htimedOut)) hbody)
  · rw [if_neg htimedOut] at hbody
    cases hbody
    exact hcounted

/-- A list of malicious clients without a table stays without one. -/
theorem updateMaliciousLoop_none {slots : List Nat} {malicious : Hm NetAddr Int}
    (h : updateMaliciousLoop slots none = .ok malicious) : malicious = none := by
  cases slots with
  | nil =>
      cases h
      rfl
  | cons slot rest =>
      cases h
      rfl

/-- Serving the malicious list leaves clients and world alone. -/
theorem steps_updateMalicious {s' : Server} (h : updateMalicious start = .ok s') :
    ServerSteps mem settings num .malicious frame start start s' := by
  obtain ⟨malicious, hloop, h⟩ := bind_eq_ok.mp h
  cases h
  refine .single (.punished fun hnone => ?_)
  rw [hnone] at hloop
  exact updateMaliciousLoop_none hloop

/-- Queueing the snake heads is steps of the records. -/
theorem steps_queueSnakeHeads {s₀ s' : Server} (h : queueSnakeHeads mem s₀ frame = .ok s') :
    ServerSteps mem settings num event frame start s₀ s' := by
  refine forEachClient_invariant (fun s s₁ slot addr record hs hcell hbody => ?_) .refl h
  obtain ⟨snake, hsnake, hbody⟩ := bind_eq_ok.mp hbody
  refine hs.trans ?_
  split at hbody
  · cases hbody
    exact .refl
  · cases hbody
    exact steps_setClient hcell (.head hsnake)

/-- The handles of one snake are queued one step after the other, by induction on the fold. -/
theorem steps_pendingHandles {s : Server} {slot : Nat} {addr : NetAddr}
    {entry : UInt16 × ProximityState} {snake : Snake}
    (hsnake : findSnake s.world entry.1 = .ok snake) {handles : List (Nat × BezierHandle)}
    (hhandles : ∀ x ∈ handles, x ∈ rbIndexed snake.data.bezierHandles) {record : ServerClient}
    (hentry : entry ∈ (bmapEntries record.snakesInProximity).entries) :
    ReflTransGen (RecordStep mem settings event frame s slot addr) record
      (handles.foldl
        (fun client x =>
          if (x.1 : Int) ∈ entry.2.bezierPendingAcks then
            serverQueue mem client (msgSnakeBezier entry.1 (UInt16.ofNat x.1) x.2)
          else client)
        record) := by
  induction handles generalizing record with
  | nil => exact .refl
  | cons x rest ih =>
      obtain ⟨hx, hrest⟩ := List.forall_mem_cons.mp hhandles
      rw [List.foldl_cons]
      by_cases hpending : (x.1 : Int) ∈ entry.2.bezierPendingAcks
      · rw [if_pos hpending]
        exact .head (.handle hentry hpending hsnake hx)
          (@ih hrest (serverQueue mem record (msgSnakeBezier entry.1 (UInt16.ofNat x.1) x.2)) hentry)
      · rw [if_neg hpending]
        exact ih hrest hentry

/-- Queueing handles changes nothing that identifies the client. -/
theorem ident_pendingHandles (addr : NetAddr) (handles : List (Nat × BezierHandle))
    (snakeId : UInt16) (acks : List Int) (record : ServerClient) :
    ident (addr, handles.foldl
      (fun client x =>
        if (x.1 : Int) ∈ acks then
          serverQueue mem client (msgSnakeBezier snakeId (UInt16.ofNat x.1) x.2)
        else client)
      record) = ident (addr, record) := by
  induction handles generalizing record with
  | nil => rfl
  | cons x rest ih =>
      rw [List.foldl_cons, ih]
      split <;> rfl

/-- The same over every snake in the proximity of the record. -/
theorem steps_queuePendingHandles {s : Server} {slot : Nat} {addr : NetAddr}
    {entries : List (UInt16 × ProximityState)} {record record' : ServerClient}
    (hentries : ∀ e ∈ entries, e ∈ (bmapEntries record.snakesInProximity).entries)
    (h : queuePendingHandles mem s.world entries record = .ok record') :
    ReflTransGen (RecordStep mem settings event frame s slot addr) record record' := by
  induction entries generalizing record with
  | nil =>
      cases h
      exact .refl
  | cons entry rest ih =>
      obtain ⟨hentry, hrest⟩ := List.forall_mem_cons.mp hentries
      obtain ⟨snake, hsnake, h⟩ := bind_eq_ok.mp h
      refine (steps_pendingHandles hsnake (fun x hx => hx) hentry).trans (ih ?_ h)
      rw [(ident_inj (ident_pendingHandles addr _ _ _ _)).2.2]
      exact hrest

/-- Queueing the bezier data is steps of the records. -/
theorem steps_queueBezierData {s₀ s' : Server} (h : queueBezierData mem s₀ = .ok s') :
    ServerSteps mem settings num event frame start s₀ s' := by
  refine forEachClient_invariant (fun s s₁ slot addr record hs hcell hbody => ?_) .refl h
  obtain ⟨record', hqueue, hbody⟩ := bind_eq_ok.mp hbody
  cases hbody
  exact .tail hs (.record hcell (steps_queuePendingHandles (fun e he => he) hqueue))

/-- Going over the other clients is steps of the record, by induction on them. -/
theorem steps_updateSnakesInRangeOf {s : Server} {slot : Nat} {addr : NetAddr}
    {proximityRange : Int} {others : List ServerClient} {record record' : ServerClient}
    (hothers : ∀ other ∈ others, other ∈ otherClients s slot)
    (h : updateSnakesInRangeOf mem s.world proximityRange others record = .ok record') :
    ReflTransGen (RecordStep mem settings (.snakesInRange proximityRange) frame s slot addr)
      record record' := by
  induction others generalizing record with
  | nil =>
      cases h
      exact .refl
  | cons other rest ih =>
      obtain ⟨hother, hrest⟩ := List.forall_mem_cons.mp hothers
      obtain ⟨snake, hsnake, h⟩ := bind_eq_ok.mp h
      obtain ⟨otherSnake, hotherSnake, h⟩ := bind_eq_ok.mp h
      by_cases hinside : qwaabbTestQwpos (enlargedAabb otherSnake proximityRange) snake.head.pos
      · rw [if_pos hinside] at h
        obtain ⟨⟨prox, status⟩, hemplace, h⟩ := bind_eq_ok.mp h
        cases status with
        | oom => cases h
        | present => exact ih hrest h
        | new =>
            exact .head (.entered rfl hother hsnake hotherSnake hinside hemplace) (ih hrest h)
      · rw [if_neg hinside] at h
        cases hfind : bmapFind record.snakesInProximity other.snakeId with
        | none =>
            rw [hfind] at h
            exact ih hrest h
        | some prox =>
            rw [hfind] at h
            exact .head (.left hother (mem_bmapKeys.mpr ⟨prox, hfind⟩)) (ih hrest h)

/-- The proximity update is steps of the records. -/
theorem steps_updateSnakesInRange {s' : Server} {proximityRange : Int}
    (h : serverUpdateSnakesInRange mem start proximityRange = .ok s') :
    ServerSteps mem settings num (.snakesInRange proximityRange) frame start start s' := by
  refine forEachClient_invariant (fun s s₁ slot addr record hs hcell hbody => ?_) .refl h
  obtain ⟨record', hupdate, hbody⟩ := bind_eq_ok.mp hbody
  cases hbody
  exact .tail hs (.record hcell (steps_updateSnakesInRangeOf (fun other hother => hother) hupdate))

/-- Sending is steps of the records: their messages leave or are counted. -/
theorem steps_sendPendingData {s' : Server} (h : serverSendPendingData start = .ok s') :
    ServerSteps mem settings num .sendPending frame start start s' := by
  refine forEachClient_invariant (fun s s₁ slot addr record hs hcell hbody => ?_) .refl h
  cases hpack : packMsgs record.pendingMsgs with
  | none =>
      rw [hpack] at hbody
      exact .tail hs (.removed hcell (SameKey.refl _ addr) (.exhausted rfl hpack) hbody)
  | some packed =>
      obtain ⟨buf, left⟩ := packed
      rw [hpack] at hbody
      dsimp only at hbody
      by_cases hempty : buf = []
      · rw [if_pos hempty] at hbody
        cases hbody
        subst hempty
        exact hs.trans (steps_setClient hcell (.packed rfl hpack))
      · rw [if_neg hempty] at hbody
        cases hbody
        exact .tail hs (.sent rfl hcell hpack)

/-! ## The simulation -/

/-- Every snake is simulated once, so it is still as it was. -/
theorem steps_simUpdateLoop {ids : List UInt16} (hnodup : ids.Nodup) {s : Server} {world : World}
    (hstill : ∀ id ∈ ids, bmapFind s.world id = bmapFind start.world id)
    (h : simUpdateLoop mem settings num frame ids s.world = .ok world) :
    ServerSteps mem settings num .simulate frame start s { s with world := world } := by
  induction ids generalizing s with
  | nil =>
      cases h
      exact .refl
  | cons id rest ih =>
      obtain ⟨hfresh, hrest⟩ := List.nodup_cons.mp hnodup
      obtain ⟨snake, hsnake, h⟩ := bind_eq_ok.mp h
      obtain ⟨snake', hupdate, h⟩ := bind_eq_ok.mp h
      have hfind := findSnake_eq_ok.mp hsnake
      have hstart : findSnake start.world id = .ok snake :=
        findSnake_eq_ok.mpr ((hstill id List.mem_cons_self).symm.trans hfind)
      refine .head (.simulated rfl hsnake hstart hupdate)
        (@ih hrest { s with world := bmapSet s.world id snake' } ?_ h)
      intro other hother
      have hne : other ≠ id := fun heq => hfresh (heq ▸ hother)
      have hset := bmapFind_set snake' (mem_bmapKeys.mpr ⟨snake, hfind⟩) other
      rw [if_neg hne] at hset
      exact hset.trans (hstill other (List.mem_cons_of_mem _ hother))

/-- The simulation update steps every snake with the command it takes. -/
theorem steps_simUpdate {s' : Server} (h : simUpdate mem settings num start frame = .ok s') :
    ServerSteps mem settings num .simulate frame start start s' := by
  obtain ⟨world, hloop, h⟩ := bind_eq_ok.mp h
  cases h
  exact steps_simUpdateLoop (bmapKeys_nodup _) (fun _ _ => rfl) hloop

/-- Every event but the last one runs a function of the server. -/
theorem server_of_ok {result : Except Fault Server} {r r' : ServerRun}
    (h : (do
      let s ← result
      return { r with server := s }) = Except.ok r') : result = .ok r'.server := by
  obtain ⟨s, hs, h⟩ := bind_eq_ok.mp h
  cases h
  exact hs

/-- **Every event is a sequence of steps.** -/
theorem serverEvent_steps {r r' : ServerRun} {event : ServerEvent}
    (h : serverEvent mem settings num r event = .ok r') :
    ServerSteps mem settings num event r.frame r.server r.server r'.server := by
  cases event with
  | timeouts => exact steps_updateTimeouts (server_of_ok h)
  | malicious => exact steps_updateMalicious (server_of_ok h)
  | packet sender udpBuf => exact steps_receivePacket (server_of_ok h)
  | simulate => exact steps_simUpdate (server_of_ok h)
  | snakesInRange proximityRange => exact steps_updateSnakesInRange (server_of_ok h)
  | queueData =>
      obtain ⟨s₁, hheads, hdata⟩ := bind_eq_ok.mp (server_of_ok h)
      exact (steps_queueSnakeHeads hheads).trans (steps_queueBezierData hdata)
  | sendPending => exact steps_sendPendingData (server_of_ok h)
  | nextFrame =>
      cases h
      exact .refl

/-- **Step rule.**  What every step keeps is kept by the event. -/
theorem serverEvent_invariant {inv : Server → Prop} {r r' : ServerRun} {event : ServerEvent}
    (keeps : ∀ s s', inv s → ServerStep mem settings num event r.frame r.server s s' → inv s')
    (hr : inv r.server) (h : serverEvent mem settings num r event = .ok r') : inv r'.server := by
  have hsteps := serverEvent_steps h
  generalize r'.server = s' at hsteps
  induction hsteps with
  | refl => exact hr
  | tail _ hstep ih => exact keeps _ _ ih hstep

/-! ## The snakes -/

/-- All snakes of the world. -/
def AllSnakes (p : Snake → Prop) (world : World) : Prop :=
  ∀ snakeId snake, findSnake world snakeId = .ok snake → p snake

/-- Replacing a stored snake by one with the property keeps it of all snakes. -/
theorem AllSnakes.set {p : Snake → Prop} {world : World} (h : AllSnakes p world) {snakeId : UInt16}
    {old snake : Snake} (hold : findSnake world snakeId = .ok old) (hsnake : p snake) :
    AllSnakes p (bmapSet world snakeId snake) := by
  intro id found hfound
  have hset := bmapFind_set snake (mem_bmapKeys.mpr ⟨old, findSnake_eq_ok.mp hold⟩) id
  rw [findSnake_eq_ok, hset] at hfound
  by_cases hid : id = snakeId
  · rw [if_pos hid] at hfound
    cases hfound
    exact hsnake
  · rw [if_neg hid] at hfound
    exact h id found (findSnake_eq_ok.mpr hfound)

/-- What a client finds in the world that is created for it. -/
theorem AllSnakes.created {p : Snake → Prop} {s s' : Server} {addr : NetAddr} {slot : Nat}
    (hinit : ∀ snake, snakeInit mem { x := 0, y := 0 } = some snake → p snake)
    (hhold : ∀ snake, p snake → p (snakeSetHold snake)) (h : AllSnakes p s.world)
    (hcreate : createClient mem settings s addr frame = .ok (s', slot)) :
    AllSnakes p s'.world := by
  obtain ⟨clients, world, snake, -, hspawn, hfind, rfl⟩ := createClient_ok hcreate
  have hworld : AllSnakes p world := by
    cases (worldSpawnSnake_spec hspawn).2 with
    | taken => exact h
    | refused => exact h
    | @new _ fresh _ hfresh _ hfound =>
        intro id found hid
        rw [findSnake_eq_ok, hfound] at hid
        split at hid
        · cases hid
          exact hinit fresh hfresh
        · exact h id found (findSnake_eq_ok.mpr hid)
  exact hworld.set hfind (hhold snake (hworld _ snake hfind))

/-- **World rule.**  A predicate of snakes that survives new commands, the hold
and the simulation holds of all snakes. -/
theorem ServerStep.allSnakes {p : Snake → Prop} {s s' : Server}
    (hinit : ∀ snake, snakeInit mem { x := 0, y := 0 } = some snake → p snake)
    (hhold : ∀ snake, p snake → p (snakeSetHold snake))
    (hcommands : ∀ snake cmdq, p snake → p { snake with cmdq := cmdq })
    (hsim : event = .simulate → ∀ snakeId snake snake', findSnake start.world snakeId = .ok snake →
      p snake → simUpdateSnake mem settings num snake frame = .ok snake' → p snake')
    (hs : AllSnakes p s.world) (h : ServerStep mem settings num event frame start s s') :
    AllSnakes p s'.world := by
  cases h with
  | record hcell hsteps => exact hs
  | sent hevent hcell hpack => exact hs
  | denied hasks hdenial => exact hs
  | joined hasks hclients hworld hdenial hcreate => exact hs.created hinit hhold hcreate
  | @removed slot a addr record _ hcell hsame hreason hremove =>
      obtain ⟨s₁, hok, -, -, hworld, -⟩ := clientRemove_of_cell hcell hsame
      cases hok.symm.trans hremove
      intro id snake hsnake
      rw [findSnake_eq_ok, hworld, bmapFind_erase] at hsnake
      split at hsnake
      · cases hsnake
      · exact hs id snake (findSnake_eq_ok.mpr hsnake)
  | commands payload hcell hsnake => exact hs.set hsnake (hcommands _ _ (hs _ _ hsnake))
  | simulated hevent hsnake hstart hupdate =>
      exact hs.set hsnake (hsim hevent _ _ _ hstart (hs _ _ hsnake) hupdate)
  | marked hdrops => exact hs
  | punished hempty => exact hs

/-! ## The records -/

/-- All clients of the server. -/
def AllClients (p : NetAddr → ServerClient → Prop) (s : Server) : Prop :=
  ∀ e ∈ s.clients.entries, p e.1 e.2

/-- What holds of all clients holds of the one in a cell. -/
theorem AllClients.of_cell {p : NetAddr → ServerClient → Prop} {s : Server} (h : AllClients p s)
    {slot : Nat} {addr : NetAddr} {record : ServerClient}
    (hcell : s.clients.cell slot = some (addr, record)) : p addr record :=
  h _ (ValidHm.mem_entries.mpr ⟨slot, hcell⟩)

/-- One cell is overwritten or cleared. -/
theorem AllClients.set {p : NetAddr → ServerClient → Prop} {s s' : Server} (h : AllClients p s)
    {slot : Nat} {e : NetAddr × ServerClient} {x : Option (NetAddr × ServerClient)}
    (hcell : s.clients.cell slot = some e)
    (hcells : s'.clients.cells = s.clients.cells.set slot x) (hx : ∀ e' ∈ x, p e'.1 e'.2) :
    AllClients p s' := by
  intro e' he'
  obtain ⟨i, hi⟩ := ValidHm.mem_entries.mp he'
  rw [ValidHm.cell_of_cells_set hcell hcells] at hi
  by_cases hslot : i = slot
  · rw [if_pos hslot] at hi
    exact hx e' hi
  · rw [if_neg hslot] at hi
    exact h.of_cell hi

/-- **Record rule.**  A predicate of records that every change keeps holds of all
clients. -/
theorem ServerStep.allClients {p : NetAddr → ServerClient → Prop} {s s' : Server}
    (hinit : ∀ addr snakeId, p addr (serverClientInit settings frame snakeId))
    (hrecord : ∀ slot addr record record', p addr record →
      RecordStep mem settings event frame s slot addr record record' → p addr record')
    (hsent : event = .sendPending → ∀ addr record buf left, p addr record →
      packMsgs record.pendingMsgs = some (buf, left) →
      p addr { record with pendingMsgs := left, timeoutCounter := record.timeoutCounter + 1 })
    (hs : AllClients p s) (h : ServerStep mem settings num event frame start s s') :
    AllClients p s' := by
  cases h with
  | @record slot addr record record' hcell hsteps =>
      have hkeeps : p addr record' := by
        induction hsteps with
        | refl => exact hs.of_cell hcell
        | tail _ hstep ih => exact hrecord slot addr _ _ ih hstep
      refine hs.set hcell (ValidHm.cells_set hcell record') ?_
      rintro _ ⟨⟩
      exact hkeeps
  | @sent slot addr record buf left hevent hcell hpack =>
      refine hs.set hcell (ValidHm.cells_set hcell _) ?_
      rintro _ ⟨⟩
      exact hsent hevent addr record buf left (hs.of_cell hcell) hpack
  | denied hasks hdenial => exact hs
  | joined hasks hclients hworld hdenial hcreate =>
      obtain ⟨clients, world, snake, hemplace, -, -, rfl⟩ := createClient_ok hcreate
      obtain ⟨-, hperm, -⟩ := ValidHm.emplaceNew_some hemplace
      intro e he
      rcases List.mem_cons.mp (hperm.mem_iff.mp he) with rfl | hold
      · exact hinit _ _
      · exact hs e hold
  | @removed slot a addr record _ hcell hsame hreason hremove =>
      obtain ⟨s₁, hok, hcells, -⟩ := clientRemove_of_cell hcell hsame
      cases hok.symm.trans hremove
      exact hs.set hcell hcells nofun
  | commands payload hcell hsnake => exact hs
  | simulated hevent hsnake hstart hupdate => exact hs
  | marked hdrops => exact hs
  | punished hempty => exact hs

/-! ## Unreliable messages -/

/-- Messages that are sent only once never keep a packet from being sent. -/
theorem packMsgs_unreliable {pendingMsgs : Vec msgVec Msg}
    (h : ∀ m ∈ pendingMsgs.items, m.isReliable = false) :
    ∃ buf left, packMsgs pendingMsgs = some (buf, left) ∧ ∀ m ∈ left.items, m.isReliable = false := by
  have hunreliable (buf : List UInt8) (m : Msg) (hm : m.isReliable = false) :
      ∃ buf' kept, appendUnreliableMsgsToBuf buf m = some (buf', kept) ∧
        ∀ x ∈ kept, x.isReliable = false := by
    unfold appendUnreliableMsgsToBuf
    rw [hm]
    split
    · exact ⟨buf, some m, rfl, by simpa using hm⟩
    · exact ⟨_, none, rfl, by simp⟩
  have hreliable (buf : List UInt8) (m : Msg) (hm : m.isReliable = false) :
      ∃ buf' kept, appendReliableMsgsToBuf buf m = some (buf', kept) ∧
        ∀ x ∈ kept, x.isReliable = false := by
    unfold appendReliableMsgsToBuf
    rw [hm]
    split
    · exact ⟨buf, some m, rfl, by simpa using hm⟩
    · exact ⟨buf, some m, rfl, by simpa using hm⟩
  obtain ⟨buf₁, items₁, hloop₁, hitems₁⟩ := @retainLoop_total _ _ _ _ hunreliable [] _ h
  obtain ⟨left₁, hretain₁, rfl⟩ := items_vecRetain hloop₁
  obtain ⟨buf₂, items₂, hloop₂, hitems₂⟩ := @retainLoop_total _ _ _ _ hreliable buf₁ _ hitems₁
  obtain ⟨left₂, hretain₂, rfl⟩ := items_vecRetain hloop₂
  refine ⟨buf₂, left₂, ?_, hitems₂⟩
  rw [packMsgs, hretain₁]
  exact hretain₂

end

end Clither
