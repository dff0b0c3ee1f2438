import Clither.Client
import Clither.Lib.Run
import Clither.Packet
import Clither.RollbackExact
import Clither.SnakeFaults

/-!
# The loop of the client

Each iteration of `client_run` receives a packet, simulates the client's own
snake, sends what is pending and goes on to the next frame.  A run is a sequence
of these four parts in any order, where a packet comes apart into its messages.

A `MSG_SNAKE_HEAD` is handed to the snake with the client's own id, whether there
is one or not.  `own_snake_known_iff` says that this is all that can go wrong:
as long as every such message finds a snake, the client only works on snakes of
its world.
-/

namespace Clither

open Faults

variable {mem : Alloc} {num : Numerics}

/-! ## One iteration -/

section

variable (mem : Alloc) (num : Numerics)

/-- The part of an iteration that steps the own snake.  The messages with the
commands are queued when the network is due. -/
def clientSimUpdate (uninit : Nat → Nat → UInt8) (client : Client) (world : World) (command : Cmd)
    (netUpdate : Bool) : Except Fault (Client × World) :=
  if client.state = .connected then do
    let snake ← findSnake world client.snakeId
    let snake ← clientStep mem num snake command client.frameNumber client.simTickRate
    let world := bmapSet world client.snakeId snake
    if netUpdate then do
      let msgs ← msgCommands uninit [] snake.cmdq
      return ({ client with pendingMsgs := msgs.foldl (vecPush mem) client.pendingMsgs }, world)
    else return (client, world)
  else return (client, world)

end

/-- The end of an iteration: the warp fades and the frame number moves on. -/
def clientNextFrame (client : Client) : Client :=
  let warp := if client.warp > 0 then client.warp - 1 else client.warp
  let warp := if warp < 0 then warp + 1 else warp
  { client with warp := warp, frameNumber := client.frameNumber + 1 }

/-! ## Runs -/

/-- A client, its world, and whether a `MSG_JOIN_ACCEPT` has given it a snake. -/
structure ClientGame where
  client : Client
  world : World
  accepted : Bool
  deriving DecidableEq

/-- The game that begins when a new client asks to join. -/
def ClientGame.begin (mem : Alloc) (username : List UInt8) : ClientGame where
  client := clientConnect mem clientInit username
  world := worldInit
  accepted := false

inductive GameEvent where
  /-- A packet has arrived. -/
  | packet
  /-- `process_message` is called for a message of the packet. -/
  | message (type : UInt8) (payload : List UInt8)
  | simulate (uninit : Nat → Nat → UInt8) (command : Cmd) (netUpdate : Bool)
  | send
  | nextFrame

/-- An error ends the client. -/
def gameEvent (mem : Alloc) (num : Numerics) (s : ClientGame) : GameEvent → Except Fault ClientGame
  | .packet => .ok { s with client := { s.client with timeoutCounter := 0 } }
  | .message type payload => do
      let (client, world, result) ← clientProcessMessage mem num s.client s.world type payload
      if result.error then .error .stopped
      else return { client := client, world := world,
                    accepted := s.accepted || result.tickRateChanged }
  | .simulate uninit command netUpdate => do
      let (client, world) ← clientSimUpdate mem num uninit s.client s.world command netUpdate
      return { s with client := client, world := world }
  | .send => do
      let (client, _) ← clientSendPendingData s.client
      return { s with client := client }
  | .nextFrame => .ok { s with client := clientNextFrame s.client }

/-! ## A packet is a run -/

/-- The messages of a packet. -/
def messagesOf : List Frame → List GameEvent
  | .message type payload :: rest => .message type payload :: messagesOf rest
  | _ => []

/-- What a packet makes of the game, as a run would. -/
def gameOf (accepted : Bool) (r : Except Fault (Client × World × ClientRecvResult)) :
    Except Fault ClientGame := do
  let (client, world, result) ← r
  if result.error then .error .stopped
  else return { client := client, world := world, accepted := accepted || result.tickRateChanged }

/-- The frame loop is a run over a start of the messages. -/
theorem clientUnpackLoop_run (fuel : Nat) (udpBuf : List UInt8) (client : Client) (world : World)
    (result : ClientRecvResult) (accepted : Bool) (herror : result.error = false) :
    ∃ messages, messages <+: messagesOf (framesLoop fuel udpBuf) ∧
      Run.run (gameEvent mem num)
          { client := client, world := world, accepted := accepted || result.tickRateChanged }
          messages =
        gameOf accepted (clientUnpackLoop mem num fuel udpBuf client world result) := by
  have hdone : Run.run (gameEvent mem num)
      { client := client, world := world, accepted := accepted || result.tickRateChanged } [] =
        gameOf accepted (.ok (client, world, result)) := by
    rw [gameOf, ok_bind]
    dsimp only
    rw [herror]
    rfl
  induction fuel generalizing udpBuf client world result with
  | zero => exact ⟨[], List.nil_prefix, hdone⟩
  | succ fuel ih =>
      match udpBuf with
      | [] => exact ⟨[], List.nil_prefix, hdone⟩
      | [_] => exact ⟨[], List.nil_prefix, hdone⟩
      | type :: msgLen :: rest =>
          rw [framesLoop, clientUnpackLoop]
          by_cases hlong : msgLen.toNat > rest.length
          · rw [if_pos hlong, if_pos hlong]
            exact ⟨[], List.nil_prefix, hdone⟩
          · rw [if_neg hlong, if_neg hlong, messagesOf]
            cases hmsg : clientProcessMessage mem num client world type (rest.take msgLen.toNat) with
            | error f =>
                refine ⟨[.message type (rest.take msgLen.toNat)],
                  List.cons_prefix_cons.mpr ⟨rfl, List.nil_prefix⟩, ?_⟩
                simp only [Run.run, gameEvent, hmsg, error_bind, gameOf]
            | ok r =>
                obtain ⟨client', world', r⟩ := r
                have hcombined : (clientRecvResultCombine result r).error = r.error := by
                  rw [clientRecvResultCombine, herror, Bool.false_or]
                by_cases hfail : r.error = true
                · refine ⟨[.message type (rest.take msgLen.toNat)],
                    List.cons_prefix_cons.mpr ⟨rfl, List.nil_prefix⟩, ?_⟩
                  simp [Run.run, gameEvent, hmsg, gameOf, hcombined, hfail]
                · have hgood := Bool.eq_false_of_not_eq_true hfail
                  have hevent : gameEvent mem num
                      ⟨client, world, accepted || result.tickRateChanged⟩
                      (.message type (rest.take msgLen.toNat)) =
                        .ok ⟨client', world',
                          accepted || (clientRecvResultCombine result r).tickRateChanged⟩ := by
                    simp [gameEvent, hmsg, hgood, clientRecvResultCombine, Bool.or_assoc]
                  by_cases hstop : (clientRecvResultCombine result r).disconnected = true
                  · refine ⟨[.message type (rest.take msgLen.toNat)],
                      List.cons_prefix_cons.mpr ⟨rfl, List.nil_prefix⟩, ?_⟩
                    simp [Run.run, hevent, gameOf, hcombined, hgood, hstop]
                  · obtain ⟨messages, hprefix, hrun⟩ := ih (rest.drop msgLen.toNat) client' world'
                      (clientRecvResultCombine result r) (by rw [hcombined, hgood])
                      (by rw [gameOf, ok_bind]; dsimp only; rw [hcombined, hgood]; rfl)
                    refine ⟨.message type (rest.take msgLen.toNat) :: messages,
                      List.cons_prefix_cons.mpr ⟨rfl, hprefix⟩, ?_⟩
                    simp only [Run.run, hevent, hrun, ok_bind]
                    rw [if_neg (by simp [hcombined, hgood, hstop])]

/-- **A packet is a run over the first of its messages.** -/
theorem clientRecv_run (s : ClientGame) {udpBuf : List UInt8} (hne : udpBuf ≠ []) :
    ∃ messages, messages <+: messagesOf (frames udpBuf) ∧
      Run.run (gameEvent mem num) s (.packet :: messages) =
        gameOf s.accepted (clientRecv mem num s.client s.world (some udpBuf)) := by
  obtain ⟨byte, rest, rfl⟩ := List.exists_cons_of_ne_nil hne
  obtain ⟨messages, hprefix, hrun⟩ := clientUnpackLoop_run (byte :: rest).length (byte :: rest)
    { s.client with timeoutCounter := 0 } s.world clientRecvOk s.accepted rfl
  refine ⟨messages, hprefix, ?_⟩
  have hsame : (s.accepted || clientRecvOk.tickRateChanged) = s.accepted := Bool.or_false _
  rw [hsame] at hrun
  exact hrun

/-! ## The own snake -/

/-- The message is a `MSG_SNAKE_HEAD`. -/
def isSnakeHead (type : UInt8) (payload : List UInt8) : Bool :=
  match msgParsePayload type payload with
  | .ok (.snakeHead _ _) => true
  | _ => false

/-- A `MSG_SNAKE_HEAD` finds a snake with the client's id. -/
def headWelcome (s : ClientGame) : GameEvent → Bool
  | .message type payload =>
      !isSnakeHead type payload || decide (s.client.snakeId ∈ bmapKeys s.world)
  | _ => true

/-- A connected client has its snake, and a `MSG_SNAKE_HEAD` that comes before
the client has been given one changes nothing. -/
def OwnSnakeKnown (s : ClientGame) (e : GameEvent) (s' : ClientGame) : Prop :=
  (s'.client.state = .connected → s'.client.snakeId ∈ bmapKeys s'.world) ∧
    ∀ type payload, e = .message type payload → isSnakeHead type payload = true →
      s.accepted = false → s' = s

/-- The invariant of a run.  Before the client has been given a snake, no snake of
its world has any commands. -/
structure ClientGame.Sound (s : ClientGame) : Prop where
  own : s.client.state = .connected → s.client.snakeId ∈ bmapKeys s.world
  idle : s.accepted = false → s.client.state ≠ .connected ∧
    ∀ k snake, bmapFind s.world k = some snake → snake.cmdq.count = 0

/-- The game starts sound. -/
theorem ClientGame.sound_begin (mem : Alloc) (username : List UInt8) :
    (ClientGame.begin mem username).Sound := by
  have hstate : (ClientGame.begin mem username).client.state = .joining := rfl
  have hworld : (ClientGame.begin mem username).world = none := rfl
  refine ⟨fun h => ?_, fun _ => ⟨fun h => ?_, fun k snake hk => ?_⟩⟩
  · rw [hstate] at h
    cases h
  · rw [hstate] at h
    cases h
  · rw [hworld] at hk
    cases hk

/-- A snake is created, or there is one already. -/
theorem worldCreateSnake_spec {world world' : World} {snakeId : UInt16} {spawnPos : QwPos}
    {status : BmapStatus} (h : worldCreateSnake mem world snakeId spawnPos = .ok (world', status)) :
    bmapKeys world ⊆ bmapKeys world' ∧ (status = .new → snakeId ∈ bmapKeys world') ∧
      ∀ k snake, bmapFind world' k = some snake →
        bmapFind world k = some snake ∨ snake.cmdq.count = 0 := by
  cases bmapEmplace_spec h with
  | present _ => exact ⟨List.Subset.refl _, nofun, fun _ _ => Or.inl⟩
  | oom _ _ => exact ⟨List.Subset.refl _, nofun, fun _ _ => Or.inl⟩
  | new _ hinit hkeys hfind =>
      refine ⟨fun k hk => hkeys.mem_iff.mpr (List.mem_cons_of_mem _ hk),
        fun _ => hkeys.mem_iff.mpr List.mem_cons_self, fun k snake hk => ?_⟩
      rw [hfind] at hk
      by_cases hid : k = snakeId
      · rw [if_pos hid] at hk
        cases hk
        right
        cases hsnake : snakeInit mem spawnPos with
        | none =>
            rw [hsnake] at hinit
            cases hinit
        | some snake =>
            rw [hsnake] at hinit
            cases hinit
            obtain ⟨data, -, hsnake⟩ := Option.bind_eq_some_iff.mp hsnake
            cases hsnake
            rfl
      · rw [if_neg hid] at hk
        exact Or.inl hk

/-- Creating a snake faults only as its parts do. -/
theorem avoids_worldCreateSnake {f : Fault} (hlost : Fault.danglingMap ≠ f)
    (hsegment : Fault.nullSegment ≠ f) (world : World) (snakeId : UInt16) (spawnPos : QwPos) :
    Avoids f (worldCreateSnake mem world snakeId spawnPos) := by
  intro h
  rcases bmapEmplace_error h with heq | hinit
  · exact hlost heq.symm
  · cases hsnake : snakeInit mem spawnPos with
    | none =>
        rw [hsnake] at hinit
        cases hinit
        exact hsegment rfl
    | some snake =>
        rw [hsnake] at hinit
        cases hinit

/-- Sending keeps the state and the snake id. -/
theorem clientSendPendingData_spec {client client' : Client} {packet : Option (List UInt8)}
    (h : clientSendPendingData client = .ok (client', packet)) :
    client'.state = client.state ∧ client'.snakeId = client.snakeId := by
  unfold clientSendPendingData at h
  split at h
  · cases h
  · next buf pendingMsgs _ =>
      dsimp only at h
      split at h
      · split at h
        · cases h
        · cases h
          exact ⟨rfl, rfl⟩
      · split at h
        · cases h
        · cases h
          exact ⟨rfl, rfl⟩

/-- Without commands there is nothing to acknowledge. -/
theorem processSnakeHead_idle {client : Client} {world : World} {snake : Snake}
    (hfind : bmapFind world client.snakeId = some snake) (hidle : snake.cmdq.count = 0)
    (head : SnakeHead) (frame : UInt16) :
    processSnakeHead mem num client world head frame = .ok world := by
  unfold processSnakeHead
  rw [findSnake_eq_ok.mpr hfind, ok_bind, snakeAckFrame, if_pos hidle, ok_bind, pure_eq_ok,
    bmapSet_self hfind]

/-- What all but an accepted `MSG_JOIN_ACCEPT` leave of the invariant. -/
theorem ClientGame.Sound.keep {s : ClientGame} (h : s.Sound) {client : Client} {world : World}
    (hstate : client.state = .connected →
      s.client.state = .connected ∧ client.snakeId = s.client.snakeId)
    (hkeys : bmapKeys s.world ⊆ bmapKeys world)
    (hidle : s.accepted = false → ∀ k snake, bmapFind world k = some snake →
      bmapFind s.world k = some snake ∨ snake.cmdq.count = 0) :
    ClientGame.Sound { client := client, world := world, accepted := s.accepted } where
  own := by
    intro hconnected
    obtain ⟨hwas, hid⟩ := hstate hconnected
    show client.snakeId ∈ bmapKeys world
    rw [hid]
    exact hkeys (h.own hwas)
  idle := by
    intro haccepted
    obtain ⟨hstate', hcount⟩ := h.idle haccepted
    refine ⟨fun hconnected => hstate' (hstate hconnected).1, fun k snake hk => ?_⟩
    rcases hidle haccepted k snake hk with hold | hnew
    · exact hcount k snake hold
    · exact hnew

/-- A client whose world has stayed the same. -/
theorem ClientGame.Sound.keepWorld {s : ClientGame} (h : s.Sound) {client : Client}
    (hstate : client.state = .connected →
      s.client.state = .connected ∧ client.snakeId = s.client.snakeId) :
    ClientGame.Sound { client := client, world := s.world, accepted := s.accepted } :=
  h.keep hstate (List.Subset.refl _) fun _ _ _ => Or.inl

/-- Accepting a join keeps the game sound. -/
theorem ClientGame.Sound.joinAccept {s : ClientGame} (h : s.Sound) {simTickRate netTickRate : UInt8}
    {clientFrame serverFrame snakeId : UInt16} {spawn : QwPos} {client : Client} {world : World}
    {result : ClientRecvResult}
    (hok : processJoinAccept mem s.client s.world simTickRate netTickRate clientFrame serverFrame
      snakeId spawn = .ok (client, world, result)) :
    ClientGame.Sound ⟨client, world, s.accepted || result.tickRateChanged⟩ := by
  unfold processJoinAccept at hok
  by_cases hjoining : s.client.state ≠ .joining
  · rw [if_pos hjoining] at hok
    cases hok
    exact (Bool.or_false s.accepted).symm ▸ h
  rw [if_neg hjoining] at hok
  dsimp only at hok
  split at hok
  · cases hok
    exact (Bool.or_false s.accepted).symm ▸ h.keepWorld nofun
  · obtain ⟨⟨world', status⟩, hcreate, hok⟩ := bind_eq_ok.mp hok
    obtain ⟨hkeys, hmem, hfind⟩ := worldCreateSnake_spec hcreate
    by_cases hnew : status = .new
    · rw [if_neg (not_not_intro hnew)] at hok
      cases hok
      refine ⟨fun _ => hmem hnew, fun haccepted => ?_⟩
      simp [clientRecvTickRateChanged] at haccepted
    · rw [if_pos hnew] at hok
      cases hok
      refine (Bool.or_false s.accepted).symm ▸ h.keep (fun hconnected => ?_) hkeys fun _ => hfind
      exact absurd ((not_not.mp hjoining).symm.trans hconnected) nofun

/-- What a message that is handled leaves of the invariant. -/
theorem ClientGame.Sound.message {s : ClientGame} (h : s.Sound) {type : UInt8}
    {payload : List UInt8} {client : Client} {world : World} {result : ClientRecvResult}
    (hok : clientProcessMessage mem num s.client s.world type payload = .ok (client, world, result)) :
    ClientGame.Sound ⟨client, world, s.accepted || result.tickRateChanged⟩ := by
  have hor := (Bool.or_false s.accepted).symm
  unfold clientProcessMessage at hok
  split at hok
  · exact h.joinAccept hok
  · cases hok
    exact hor ▸ h.keepWorld nofun
  · cases hok
    refine hor ▸ h.keepWorld fun hconnected => ?_
    unfold processFeedback at hconnected ⊢
    split at hconnected
    · exact ⟨hconnected, by split <;> rfl⟩
    · exact ⟨hconnected, by split <;> rfl⟩
  · next head frame _ =>
      obtain ⟨world', hhead, hok⟩ := bind_eq_ok.mp hok
      cases hok
      have hown : ∃ snake, bmapFind s.world s.client.snakeId = some snake := by
        cases hfind : bmapFind s.world s.client.snakeId with
        | some snake => exact ⟨snake, rfl⟩
        | none =>
            rw [processSnakeHead, findSnake, hfind] at hhead
            cases hhead
      obtain ⟨snake, hfind⟩ := hown
      have hkeys : bmapKeys s.world ⊆ bmapKeys world := by
        unfold processSnakeHead at hhead
        obtain ⟨_, -, hhead⟩ := bind_eq_ok.mp hhead
        obtain ⟨_, -, hhead⟩ := bind_eq_ok.mp hhead
        cases hhead
        rw [bmapKeys_set]
        exact List.Subset.refl _
      refine hor ▸ h.keep (fun hconnected => ⟨hconnected, rfl⟩) hkeys fun haccepted k other hk => ?_
      rw [processSnakeHead_idle hfind ((h.idle haccepted).2 _ _ hfind)] at hhead
      cases hhead
      exact Or.inl hk
  · next snakeId _ _ _ _ _ _ =>
      obtain ⟨⟨world', result'⟩, hbezier, hok⟩ := bind_eq_ok.mp hok
      cases hok
      unfold processSnakeBezier at hbezier
      split at hbezier
      · cases hbezier
        exact hor ▸ h
      · obtain ⟨⟨world'', status⟩, hcreate, hbezier⟩ := bind_eq_ok.mp hbezier
        obtain ⟨hkeys, -, hfind⟩ := worldCreateSnake_spec hcreate
        cases hbezier
        have htick : (if status ≠ .new then clientRecvError else clientRecvOk).tickRateChanged =
            false := by split <;> rfl
        rw [htick]
        exact hor ▸ h.keep (fun hconnected => ⟨hconnected, rfl⟩) hkeys fun _ => hfind
  · cases hok
    exact hor ▸ h

/-- A simulation update keeps the game sound. -/
theorem ClientGame.Sound.simulate {s : ClientGame} (h : s.Sound) {uninit : Nat → Nat → UInt8}
    {command : Cmd} {netUpdate : Bool} {client : Client} {world : World}
    (hok : clientSimUpdate mem num uninit s.client s.world command netUpdate = .ok (client, world)) :
    ClientGame.Sound ⟨client, world, s.accepted⟩ := by
  unfold clientSimUpdate at hok
  by_cases hconnected : s.client.state = .connected
  · rw [if_pos hconnected] at hok
    obtain ⟨snake, -, hok⟩ := bind_eq_ok.mp hok
    obtain ⟨snake', -, hok⟩ := bind_eq_ok.mp hok
    have hkeep (client : Client) (hstate : client.state = s.client.state)
        (hid : client.snakeId = s.client.snakeId) :
        ClientGame.Sound ⟨client, bmapSet s.world s.client.snakeId snake', s.accepted⟩ :=
      h.keep (fun hc => ⟨hstate.symm.trans hc, hid⟩)
        (by rw [bmapKeys_set]; exact List.Subset.refl _) fun haccepted => absurd hconnected (h.idle haccepted).1
    cases netUpdate with
    | false =>
        rw [if_neg (by decide)] at hok
        cases hok
        exact hkeep s.client rfl rfl
    | true =>
        rw [if_pos rfl] at hok
        obtain ⟨msgs, -, hok⟩ := bind_eq_ok.mp hok
        cases hok
        exact hkeep _ rfl rfl
  · rw [if_neg hconnected] at hok
    cases hok
    exact h

/-- Every event keeps the game sound. -/
theorem ClientGame.Sound.event {s s' : ClientGame} (h : s.Sound) {e : GameEvent}
    (hok : gameEvent mem num s e = .ok s') : s'.Sound := by
  cases e with
  | packet =>
      cases hok
      exact h.keepWorld fun hconnected => ⟨hconnected, rfl⟩
  | message type payload =>
      obtain ⟨⟨client, world, result⟩, hmsg, hok⟩ := bind_eq_ok.mp hok
      dsimp only at hok
      split at hok
      · cases hok
      · cases hok
        exact h.message hmsg
  | simulate uninit command netUpdate =>
      obtain ⟨⟨client, world⟩, hsim, hok⟩ := bind_eq_ok.mp hok
      cases hok
      exact h.simulate hsim
  | send =>
      obtain ⟨⟨client, packet⟩, hsend, hok⟩ := bind_eq_ok.mp hok
      cases hok
      refine h.keepWorld fun hconnected => ?_
      obtain ⟨hstate, hid⟩ := clientSendPendingData_spec hsend
      rw [hstate] at hconnected
      exact ⟨hconnected, hid⟩
  | nextFrame =>
      cases hok
      exact h.keepWorld fun hconnected => ⟨hconnected, rfl⟩

/-! ## Safety -/

/-- A `MSG_SNAKE_HEAD` for no snake. -/
theorem gameEvent_unwelcome {s : ClientGame} {type : UInt8} {payload : List UInt8}
    (hhead : isSnakeHead type payload = true) (hno : s.client.snakeId ∉ bmapKeys s.world) :
    gameEvent mem num s (.message type payload) = .error .nullSnake := by
  have hnone : findSnake s.world s.client.snakeId = .error .nullSnake :=
    findSnake_eq_error.mpr ⟨hno, rfl⟩
  unfold isSnakeHead at hhead
  split at hhead
  · next heq =>
      simp only [gameEvent, clientProcessMessage, heq, processSnakeHead, hnone, error_bind]
  · cases hhead

/-- A message that does not ask for the own snake finds all snakes it needs. -/
theorem avoids_clientProcessMessage {client : Client} {world : World} {type : UInt8}
    {payload : List UInt8}
    (hwelcome : isSnakeHead type payload = true → client.snakeId ∈ bmapKeys world) :
    Avoids Fault.nullSnake (clientProcessMessage mem num client world type payload) := by
  unfold isSnakeHead at hwelcome
  unfold clientProcessMessage
  split
  · unfold processJoinAccept
    refine avoids_ite (fun _ => avoids_ok _) fun _ => ?_
    dsimp only
    refine avoids_ite (fun _ => avoids_ok _) fun _ => ?_
    refine (avoids_worldCreateSnake (by decide) (by decide) _ _ _).bind fun r _ => ?_
    exact avoids_ite (fun _ => avoids_pure _) fun _ => avoids_pure _
  · exact avoids_ok _
  · exact avoids_ok _
  · next head frame heq =>
      rw [heq] at hwelcome
      obtain ⟨snake, hfind⟩ := findSnake_of_mem (hwelcome rfl)
      unfold processSnakeHead
      rw [hfind, ok_bind]
      refine Avoids.bind ?_ fun _ _ => avoids_pure _
      exact (avoids_snakeAckFrame (by decide) (by decide) _ _ _ _).bind fun _ _ => avoids_pure _
  · refine Avoids.bind ?_ fun _ _ => avoids_pure _
    unfold processSnakeBezier
    split
    · exact avoids_ok _
    · exact (avoids_worldCreateSnake (by decide) (by decide) _ _ _).bind fun r _ => avoids_pure _
  · exact avoids_ok _

/-- With its own snake in the world, the update meets no missing snake. -/
theorem avoids_clientSimUpdate {client : Client} {world : World}
    (hown : client.state = .connected → client.snakeId ∈ bmapKeys world)
    (uninit : Nat → Nat → UInt8) (command : Cmd) (netUpdate : Bool) :
    Avoids Fault.nullSnake (clientSimUpdate mem num uninit client world command netUpdate) := by
  unfold clientSimUpdate
  refine avoids_ite (fun hconnected => ?_) fun _ => avoids_pure _
  obtain ⟨snake, hfind⟩ := findSnake_of_mem (hown hconnected)
  rw [hfind, ok_bind]
  refine (avoids_clientStep (by decide) (by decide) _ _ _ _).bind fun snake _ => ?_
  refine avoids_ite (fun _ => ?_) fun _ => avoids_pure _
  exact (avoids_msgCommands (by decide) (by decide) _ _ _).bind fun _ _ => avoids_pure _

/-- Sending meets no snake at all. -/
theorem avoids_clientSendPendingData (client : Client) :
    Avoids Fault.nullSnake (clientSendPendingData client) := by
  unfold clientSendPendingData
  split
  · exact avoids_error (by decide)
  · exact avoids_ite (fun _ => avoids_error (by decide)) fun _ => avoids_ok _

/-- **One event.**  It is safe exactly when a `MSG_SNAKE_HEAD` finds a snake. -/
theorem ClientGame.Sound.safe_iff {s : ClientGame} (h : s.Sound) (e : GameEvent) :
    ((∀ f, gameEvent mem num s e = .error f → f ≠ .nullSnake) ∧
      ∀ s', gameEvent mem num s e = .ok s' → OwnSnakeKnown s e s') ↔ headWelcome s e = true := by
  constructor
  · rintro ⟨hsafe, -⟩
    cases e with
    | message type payload =>
        simp only [headWelcome, Bool.or_eq_true, Bool.not_eq_true', decide_eq_true_eq]
        by_cases hhead : isSnakeHead type payload = true
        · by_contra hno
          rw [not_or] at hno
          exact hsafe _ (gameEvent_unwelcome hhead hno.2) rfl
        · exact Or.inl (Bool.eq_false_of_not_eq_true hhead)
    | packet => rfl
    | simulate uninit command netUpdate => rfl
    | send => rfl
    | nextFrame => rfl
  · intro hwelcome
    refine ⟨fun f hfault hnull => ?_, fun s' hok => ⟨(h.event hok).own, ?_⟩⟩
    · rw [hnull] at hfault
      revert hfault
      cases e with
      | packet => exact nofun
      | message type payload =>
          refine Avoids.bind (avoids_clientProcessMessage fun hhead => ?_) fun r _ => ?_
          · simpa [headWelcome, hhead] using hwelcome
          · exact avoids_ite (fun _ => avoids_error (by decide)) fun _ => avoids_pure _
      | simulate uninit command netUpdate =>
          exact (avoids_clientSimUpdate h.own _ _ _).bind fun _ _ => avoids_pure _
      | send => exact (avoids_clientSendPendingData _).bind fun _ _ => avoids_pure _
      | nextFrame => exact nofun
    · rintro type payload rfl hhead hnot
      have hmem : s.client.snakeId ∈ bmapKeys s.world := by
        simpa [headWelcome, hhead] using hwelcome
      obtain ⟨snake, hfind⟩ := mem_bmapKeys.mp hmem
      have hidle := (h.idle hnot).2 _ _ hfind
      unfold isSnakeHead at hhead
      split at hhead
      · next heq =>
          simp only [gameEvent, clientProcessMessage, heq, processSnakeHead_idle hfind hidle,
            ok_bind, pure_eq_ok] at hok
          cases hok
          exact congrArg (ClientGame.mk s.client s.world) (Bool.or_false _)
      · cases hhead

/-- **The client only works on snakes of its world.**  This holds of a whole run
exactly if every `MSG_SNAKE_HEAD` comes when there is a snake with the client's
id: no step works on a missing snake, a connected client always has its own, and
a `MSG_SNAKE_HEAD` before the client is given one changes nothing. -/
theorem own_snake_known_iff (mem : Alloc) (num : Numerics) (username : List UInt8)
    (events : List GameEvent) :
    Run.EverySafe (gameEvent mem num) OwnSnakeKnown (fun f => f ≠ .nullSnake)
        (ClientGame.begin mem username) events ↔
      Run.Meets (gameEvent mem num) (fun s e => headWelcome s e = true)
        (ClientGame.begin mem username) events :=
  Run.everySafe_iff_meets (fun _ _ _ h => h.event) (fun _ e h => h.safe_iff e)
    (ClientGame.sound_begin mem username)

/-- A `MSG_SNAKE_HEAD` that overtakes the `MSG_JOIN_ACCEPT`. -/
theorem head_before_accept :
    clientRecv Alloc.unlimited eastward (ClientGame.begin Alloc.unlimited [65]).client
      (ClientGame.begin Alloc.unlimited [65]).world
      (some (msgBytes (msgSnakeHead (snakeHeadInit ⟨0, 0⟩) 7))) = .error .nullSnake := by
  decide +kernel

end Clither
