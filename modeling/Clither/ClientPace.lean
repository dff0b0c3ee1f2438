import Clither.ClientTraffic
import Clither.Lib.Potential
import Clither.ServerInstance

/-!
# The main loop of the client

`client_run` keeps two ticks as the server does, but it waits with
`tick_wait_warp`: as long as the server says that the client runs ahead of it or
behind, each iteration takes a tenth of an interval longer or shorter.

Each iteration is a run of the events of the client.  `feedback_carried_out` says
what feedback comes to: in the end the schedule has been moved by just as many
tenths as were asked for.
-/

namespace Clither

open Faults (bind_eq_ok)

/-- A client at the head of its loop, and the packets that it has sent. -/
structure ClientInstance where
  game : ClientGame
  simTick : Tick
  netTick : Tick
  sent : List (List UInt8)

/-- `client_run` up to its loop. -/
def ClientInstance.begin (mem : Alloc) (username : List UInt8) (cfgSimTick cfgNetTick : Timespec) :
    Except TickFault ClientInstance :=
  let game := ClientGame.begin mem username
  match tickCfg cfgSimTick game.client.simTickRate.toNat with
  | .error f => .error f
  | .ok simTick =>
      match tickCfg cfgNetTick game.client.netTickRate.toNat with
      | .error f => .error f
      | .ok netTick => .ok { game := game, simTick := simTick, netTick := netTick, sent := [] }

/-- What an iteration meets with: the clock, the packet that has arrived, and the command that the
input stands for. -/
structure ClientIteration where
  poll : Timespec
  packet : Option (List UInt8)
  cfgSimTick : Timespec
  cfgNetTick : Timespec
  uninit : Nat → Nat → UInt8
  command : Cmd
  wakeup : Wakeup

/-- `net_update && client.state != CLIENT_DISCONNECTED`. -/
def ifConnected (netUpdate : Bool) (s : ClientInstance)
    (body : ClientInstance → Except InstanceEnd ClientInstance) :
    Except InstanceEnd ClientInstance :=
  if netUpdate = true ∧ s.game.client.state ≠ .disconnected then body s else .ok s

/-- Match the tick rates of the server. -/
def matchTickRates (s : ClientInstance) (it : ClientIteration) (changed : Bool) :
    Except InstanceEnd ClientInstance :=
  if changed then do
    let simTick ← orTick (tickCfg it.cfgSimTick s.game.client.simTickRate.toNat)
    let netTick ← orTick (tickCfg it.cfgNetTick s.game.client.netTickRate.toNat)
    return { s with simTick := simTick, netTick := netTick }
  else .ok s

section

variable (mem : Alloc) (num : Numerics)

/-- The call of `client_recv`. -/
def iterationRecv (it : ClientIteration) (s : ClientInstance) :
    Except InstanceEnd ClientInstance := do
  let (client, world, result) ←
    orFault (clientRecv mem num s.game.client s.game.world it.packet)
  if result.error then .error .stopped
  else
    let game : ClientGame :=
      { client := client, world := world, accepted := s.game.accepted || result.tickRateChanged }
    matchTickRates { s with game := game } it result.tickRateChanged

/-- The call of `client_send_pending_data`. -/
def iterationSend (s : ClientInstance) : Except InstanceEnd ClientInstance := do
  let (client, packet) ← orFault (clientSendPendingData s.game.client)
  return { s with game := { s.game with client := client }, sent := s.sent ++ packet.toList }

/-- The end of the loop.  A client that is three seconds late gives up. -/
def iterationWait (it : ClientIteration) (s : ClientInstance) :
    Except InstanceEnd ClientInstance := do
  let simTickRate : Int := s.game.client.simTickRate.toNat
  let waited ← orTick (tickWaitWarp s.simTick it.wakeup s.game.client.warp (simTickRate * 10))
  if waited.lag > simTickRate * 3 then .error .stopped
  else
    return { s with game := { s.game with client := clientNextFrame s.game.client },
                    simTick := waited.tick }

/-- An iteration of `client_run`. -/
def clientIteration (s : ClientInstance) (it : ClientIteration) :
    Except InstanceEnd ClientInstance := do
  let polled ← orTick (tickAdvance s.netTick it.poll)
  let netUpdate := decide (polled.2 ≠ 0)
  let s ← ifConnected netUpdate { s with netTick := polled.1 } (iterationRecv mem num it)
  let (client, world) ←
    orFault (clientSimUpdate mem num it.uninit s.game.client s.game.world it.command netUpdate)
  let s := { s with game := { s.game with client := client, world := world } }
  let s ← ifConnected netUpdate s iterationSend
  iterationWait it s

end

/-! ## Feedback in a packet -/

/-- The feedback that a client without warp takes from a packet: the first that is not zero, unless
it is turned away before. -/
def askedBy : List Frame → Int
  | .message type payload :: rest =>
      match msgParsePayload type payload with
      | .ok (.joinDeny _ _) => 0
      | .ok (.feedback _ diff) => if diff.toInt = 0 then askedBy rest else diff.toInt
      | _ => askedBy rest
  | _ => 0

/-- A client that does not wait for an answer to its join request any more, and one that it turns
into. -/
structure Settled (client client' : Client) : Prop where
  joined : client'.state ≠ .joining
  simTickRate : client'.simTickRate = client.simTickRate
  netTickRate : client'.netTickRate = client.netTickRate
  frame : client'.frameNumber = client.frameNumber

/-- The warp of a client that is asked for it. -/
def warpAsked (warp asked : Int) : Int :=
  if warp = 0 then asked * 10 else warp

section

variable {mem : Alloc} {num : Numerics}

/-- A joined client that nothing happened to is settled. -/
theorem Settled.refl {client : Client} (h : client.state ≠ .joining) : Settled client client :=
  ⟨h, rfl, rfl, rfl⟩

/-- Being settled goes through two steps one after the other. -/
theorem Settled.trans {client client₁ client₂ : Client} (h : Settled client client₁)
    (h' : Settled client₁ client₂) : Settled client client₂ :=
  ⟨h'.joined, h'.simTickRate.trans h.simTickRate, h'.netTickRate.trans h.netTickRate,
    h'.frame.trans h.frame⟩

/-- What a message does to a client that has joined. -/
structure MessageTaken (type : UInt8) (payload : List UInt8) (client client' : Client)
    (r : ClientRecvResult) : Prop where
  settled : Settled client client'
  unchanged : r.tickRateChanged = false
  warp : r.error = false → ∀ rest : List Frame,
    warpAsked client.warp (askedBy (.message type payload :: rest)) =
      if r.disconnected then client'.warp else warpAsked client'.warp (askedBy rest)

/-- A message that asks for nothing and leaves the client alone is taken as it should be. -/
theorem taken_of_same {type : UInt8} {payload : List UInt8} {client : Client}
    {r : ClientRecvResult} (hjoined : client.state ≠ .joining)
    (hnothing : ∀ rest, askedBy (.message type payload :: rest) = askedBy rest)
    (hunchanged : r.tickRateChanged = false) (hstays : r.disconnected = false) :
    MessageTaken type payload client client r where
  settled := .refl hjoined
  unchanged := hunchanged
  warp := by
    intro _ rest
    rw [hnothing, hstays]
    rfl

/-- Whatever message a joined client processes, it is taken: only `MSG_FEEDBACK` changes the warp.
-/
theorem taken_clientProcessMessage {client client' : Client} {world world' : World} {type : UInt8}
    {payload : List UInt8} {r : ClientRecvResult} (hjoined : client.state ≠ .joining)
    (h : clientProcessMessage mem num client world type payload = .ok (client', world', r)) :
    MessageTaken type payload client client' r := by
  unfold clientProcessMessage at h
  split at h
  · next simTickRate netTickRate clientFrame serverFrame snakeId spawn heq =>
      rw [processJoinAccept, if_pos hjoined] at h
      cases h
      exact taken_of_same hjoined (fun rest => by simp only [askedBy, heq]) rfl rfl
  · next heq =>
      cases h
      refine ⟨⟨nofun, rfl, rfl, rfl⟩, rfl, ?_⟩
      intro _ rest
      simp only [askedBy, heq, warpAsked, Int.zero_mul, clientRecvDisconnected, clientDisconnect,
        if_true]
      split
      · next hzero => exact hzero.symm
      · rfl
  · next diff heq =>
      cases h
      refine ⟨⟨?_, ?_, ?_, ?_⟩, rfl, ?_⟩
      · unfold processFeedback
        split <;> exact hjoined
      · unfold processFeedback
        split <;> rfl
      · unfold processFeedback
        split <;> rfl
      · unfold processFeedback
        split <;> rfl
      · intro _ rest
        simp only [askedBy, heq, clientRecvOk, Bool.false_eq_true, if_false, warpAsked,
          processFeedback]
        grind
  · next heq =>
      obtain ⟨world₁, -, h⟩ := bind_eq_ok.mp h
      cases h
      exact taken_of_same hjoined (fun rest => by simp only [askedBy, heq]) rfl rfl
  · next heq =>
      obtain ⟨⟨world₁, r₁⟩, hbezier, h⟩ := bind_eq_ok.mp h
      cases h
      have hr : r.tickRateChanged = false ∧ r.disconnected = false := by
        unfold processSnakeBezier at hbezier
        split at hbezier
        · cases hbezier
          exact ⟨rfl, rfl⟩
        · obtain ⟨⟨world₂, status⟩, -, hbezier⟩ := bind_eq_ok.mp hbezier
          cases hbezier
          split <;> exact ⟨rfl, rfl⟩
      exact taken_of_same hjoined (fun rest => by simp only [askedBy, heq]) hr.1 hr.2
  · next hdeny hfeedback _ _ =>
      cases h
      refine taken_of_same hjoined (fun rest => ?_) rfl rfl
      rw [askedBy]
      split
      · next heq => exact absurd heq (by intro heq; exact hdeny _ _ heq)
      · next heq => exact absurd heq (by intro heq; exact hfeedback _ _ heq)
      · rfl

/-- What a packet does to a client that has joined. -/
structure PacketTaken (fs : List Frame) (client client' : Client) (r : ClientRecvResult) :
    Prop where
  settled : Settled client client'
  unchanged : r.tickRateChanged = false
  warp : r.error = false → client'.warp = warpAsked client.warp (askedBy fs)

/-- Frames that ask for nothing are taken when the client stays settled and keeps its warp. -/
theorem packetTaken_nothing {fs : List Frame} {client client' : Client} {r : ClientRecvResult}
    (hsettled : Settled client client') (hwarp : client'.warp = client.warp)
    (hnothing : askedBy fs = 0) (hunchanged : r.tickRateChanged = false) :
    PacketTaken fs client client' r where
  settled := hsettled
  unchanged := hunchanged
  warp := by
    intro _
    rw [hwarp, hnothing, warpAsked]
    split
    · next hzero => rw [hzero]; rfl
    · rfl

/-- The frame loop takes what the messages ask for, by recursion over the datagram. -/
theorem taken_clientUnpackLoop {fuel : Nat} {udpBuf : List UInt8} {client client' : Client}
    {world world' : World} {result result' : ClientRecvResult} (hjoined : client.state ≠ .joining)
    (hresult : result = clientRecvOk)
    (h : clientUnpackLoop mem num fuel udpBuf client world result =
      .ok (client', world', result')) :
    PacketTaken (framesLoop fuel udpBuf) client client' result' := by
  induction fuel generalizing udpBuf client world result with
  | zero =>
      cases h
      exact packetTaken_nothing (.refl hjoined) rfl rfl (by rw [hresult]; rfl)
  | succ fuel ih =>
      have hdone (fs : List Frame) (hfs : askedBy fs = 0)
          (hok : (.ok (client, world, result) : Except Fault _) = .ok (client', world', result')) :
          PacketTaken fs client client' result' := by
        cases hok
        exact packetTaken_nothing (.refl hjoined) rfl hfs (by rw [hresult]; rfl)
      match udpBuf with
      | [] => exact hdone _ rfl h
      | [_] => exact hdone _ rfl h
      | type :: msgLen :: rest =>
          rw [clientUnpackLoop] at h
          rw [framesLoop]
          by_cases hlong : msgLen.toNat > rest.length
          · rw [if_pos hlong] at h ⊢
            exact hdone _ rfl h
          rw [if_neg hlong] at h ⊢
          obtain ⟨⟨client₁, world₁, r⟩, hmsg, h⟩ := bind_eq_ok.mp h
          have htaken := taken_clientProcessMessage hjoined hmsg
          have hcombined : clientRecvResultCombine result r = r := by
            rw [hresult]
            rfl
          dsimp only at h
          rw [hcombined] at h
          split at h
          · next hstop =>
              cases h
              refine ⟨htaken.settled, htaken.unchanged, fun hgood => ?_⟩
              have hgone : result'.disconnected = true := by simpa [hgood] using hstop
              rw [htaken.warp hgood, if_pos hgone]
          · next hgoOn =>
              simp only [Bool.or_eq_true, not_or, Bool.not_eq_true] at hgoOn
              have hr : r = clientRecvOk := by
                obtain ⟨error, disconnected, tickRateChanged⟩ := r
                obtain ⟨rfl, rfl⟩ := hgoOn
                obtain rfl := htaken.unchanged
                rfl
              obtain ⟨hsettled, hunchanged, hwarp⟩ := ih htaken.settled.joined hr h
              refine ⟨htaken.settled.trans hsettled, hunchanged, fun hgood => ?_⟩
              rw [hwarp hgood, htaken.warp hgoOn.1, if_neg (by simp [hgoOn.2])]

/-- The frames of what `net_recv` has returned. -/
def framesIn : Option (List UInt8) → List Frame
  | none => []
  | some udpBuf => frames udpBuf

/-- `client_recv` takes what the feedback messages of a datagram ask for. -/
theorem taken_clientRecv {packet : Option (List UInt8)} {client client' : Client}
    {world world' : World} {r : ClientRecvResult} (hjoined : client.state ≠ .joining)
    (h : clientRecv mem num client world packet = .ok (client', world', r)) :
    PacketTaken (framesIn packet) client client' r := by
  match packet with
  | none =>
      cases h
      exact packetTaken_nothing (.refl hjoined) rfl rfl rfl
  | some [] =>
      cases h
      exact packetTaken_nothing (.refl hjoined) rfl rfl rfl
  | some (byte :: rest) =>
      have hheard : ({ client with timeoutCounter := 0 } : Client).state ≠ .joining := hjoined
      have htaken := taken_clientUnpackLoop hheard rfl h
      exact ⟨⟨htaken.settled.joined, htaken.settled.simTickRate, htaken.settled.netTickRate,
        htaken.settled.frame⟩, htaken.unchanged, htaken.warp⟩

/-! ## One iteration -/

end

/-- The feedback that is accepted when `net_tick` has passed. -/
def feedbackAt (s : ClientInstance) (it : ClientIteration) (netUpdate : Bool) : Int :=
  if netUpdate = true ∧ s.game.client.state ≠ .disconnected ∧ s.game.client.warp = 0 then
    askedBy (framesIn it.packet)
  else 0

/-- `net_tick` passes in the iteration. -/
def netDue (s : ClientInstance) (it : ClientIteration) : Bool :=
  (tickAdvance s.netTick it.poll).toOption.any fun polled => polled.2 ≠ 0

/-- The feedback that is accepted in an iteration. -/
def feedbackTaken (s : ClientInstance) (it : ClientIteration) : Int :=
  feedbackAt s it (netDue s it)

/-- A tenth of an interval. -/
def warpShift (simTickRate : UInt8) : Int :=
  1000000000 / (simTickRate.toNat * 10)

/-- The deadline as it will be when the warp has been used up, apart from the intervals until
then. -/
def ClientInstance.target (s : ClientInstance) : Int :=
  s.simTick.last.toNat + warpShift s.game.client.simTickRate * s.game.client.warp

/-- A client that has joined, with a tick that goes with its rate. -/
structure AtRate (simTickRate : UInt8) (interval : UInt64) (s : ClientInstance) : Prop where
  state : s.game.client.state ≠ .joining
  simTickRate : s.game.client.simTickRate = simTickRate
  interval : s.simTick.interval = interval

section

variable {mem : Alloc} {num : Numerics} {simTickRate : UInt8} {interval : UInt64}
  {s s' : ClientInstance} {it : ClientIteration}

/-- The network tick is due exactly when `tick_advance` answers something other than zero. -/
theorem netDue_of_polled {polled : Tick × Int} (h : tickAdvance s.netTick it.poll = .ok polled) :
    netDue s it = decide (polled.2 ≠ 0) := by
  rw [netDue, h]
  rfl

/-- Up to the end of an iteration only the warp may have changed. -/
structure BeforeWait (s s' : ClientInstance) (warp : Int) : Prop where
  state : s'.game.client.state ≠ .joining
  simTickRate : s'.game.client.simTickRate = s.game.client.simTickRate
  frame : s'.game.client.frameNumber = s.game.client.frameNumber
  simTick : s'.simTick = s.simTick
  warp : s'.game.client.warp = warp

/-- Receiving keeps the tick as it was and moves the warp by what the packet asked for. -/
theorem beforeWait_recv (hjoined : s.game.client.state ≠ .joining)
    (h : iterationRecv mem num it s = .ok s') :
    BeforeWait s s' (warpAsked s.game.client.warp (askedBy (framesIn it.packet))) := by
  obtain ⟨⟨client, world, r⟩, hrecv, h⟩ := bind_eq_ok.mp h
  obtain ⟨hsettled, hunchanged, hwarp⟩ := taken_clientRecv hjoined (orFault_eq_ok.mp hrecv)
  dsimp only at h
  split at h
  · cases h
  · next hgood =>
      rw [hunchanged] at h
      cases h
      exact ⟨hsettled.joined, hsettled.simTickRate, hsettled.frame, rfl,
        hwarp (Bool.eq_false_of_not_eq_true hgood)⟩

/-- Sending touches neither the tick nor the warp. -/
theorem beforeWait_send {warp : Int} (hbefore : BeforeWait s s' warp) {s'' : ClientInstance}
    (h : iterationSend s' = .ok s'') : BeforeWait s s'' warp := by
  obtain ⟨⟨client, packet⟩, hsend, h⟩ := bind_eq_ok.mp h
  obtain ⟨buf, left, timeoutCounter, -, hclient, -⟩ :=
    clientSendPendingData_packed (orFault_eq_ok.mp hsend)
  cases h
  subst hclient
  exact ⟨hbefore.state, hbefore.simTickRate, hbefore.frame, hbefore.simTick, hbefore.warp⟩

/-- `client_next_frame` takes the warp one step towards zero. -/
theorem warp_clientNextFrame (client : Client) :
    (clientNextFrame client).warp = client.warp - client.warp.sign := by
  simp only [clientNextFrame]
  rcases Int.lt_trichotomy client.warp 0 with hneg | hzero | hpos
  · have hnot : ¬ client.warp > 0 := by omega
    simp only [hnot, if_false, hneg, if_true, Int.sign_eq_neg_one_of_neg hneg]
    omega
  · rw [hzero]
    rfl
  · have hnot : ¬ client.warp - 1 < 0 := by omega
    simp only [hpos, if_true, hnot, if_false, Int.sign_eq_one_of_pos hpos]

/-- The wait of an iteration. -/
theorem wait_target (hjoined : AtRate simTickRate interval s)
    (hperiod : ∃ interval, tickPeriod simTickRate.toNat = .ok interval)
    (h : iterationWait it s = .ok s') :
    AtRate simTickRate interval s' ∧
      s'.game.client.frameNumber = s.game.client.frameNumber + 1 ∧
      s'.target ≡ s.target + interval.toNat [ZMOD 2 ^ 64] := by
  obtain ⟨waited, hwait, h⟩ := bind_eq_ok.mp h
  have hwait := orTick_eq_ok.mp hwait
  dsimp only at h
  split at h
  · cases h
  cases h
  have hpos : 0 < (simTickRate.toNat : Int) := by
    obtain ⟨interval, hperiod⟩ := hperiod
    rw [tickPeriod] at hperiod
    split at hperiod
    · cases hperiod
    · omega
  have hsmall := simTickRate.toNat_lt
  obtain ⟨shift, hshift, hshiftNat, -⟩ :=
    @tickPeriod_of_pos ((simTickRate.toNat : Int) * 10) (by omega) (by omega)
  rw [hjoined.simTickRate, tickWaitWarp] at hwait
  cases hdeadline : warpedDeadline s.simTick s.game.client.warp (simTickRate.toNat * 10) with
  | error f =>
      rw [hdeadline] at hwait
      cases hwait
  | ok waitUntil =>
      rw [hdeadline] at hwait
      have htick := tick_tickWaitUntil hwait
      have hmod := warpedDeadline_modEq hshift hdeadline
      have hshiftInt : (shift.toNat : Int) = warpShift simTickRate := by
        have htps : ((simTickRate.toNat : Int) * 10).toNat = simTickRate.toNat * 10 := by omega
        rw [hshiftNat, warpShift, htps]
        push_cast
        rfl
      refine ⟨⟨hjoined.state, hjoined.simTickRate, ?_⟩, rfl, ?_⟩
      · rw [htick]
        exact hjoined.interval
      · unfold ClientInstance.target
        dsimp only
        have hrate : (clientNextFrame s.game.client).simTickRate = simTickRate :=
          hjoined.simTickRate
        rw [warp_clientNextFrame, htick, hrate, hjoined.simTickRate, ← hshiftInt]
        rw [hjoined.interval] at hmod
        have hadded := hmod.add_right (shift.toNat * (s.game.client.warp - s.game.client.warp.sign))
        have hsum : (s.simTick.last.toNat : Int) + interval.toNat +
            shift.toNat * s.game.client.warp.sign +
              shift.toNat * (s.game.client.warp - s.game.client.warp.sign) =
            s.simTick.last.toNat + shift.toNat * s.game.client.warp + interval.toNat := by
          ring
        rw [← hsum]
        exact hadded

/-- **One iteration** adds an interval to the target and ten shifts for each frame that it is asked
for. -/
theorem iteration_target (hjoined : AtRate simTickRate interval s)
    (hperiod : ∃ interval, tickPeriod simTickRate.toNat = .ok interval)
    (h : clientIteration mem num s it = .ok s') :
    AtRate simTickRate interval s' ∧
      s'.game.client.frameNumber = s.game.client.frameNumber + 1 ∧
      s'.target ≡ s.target + interval.toNat +
        10 * warpShift simTickRate * feedbackTaken s it [ZMOD 2 ^ 64] := by
  obtain ⟨polled, hpolled, h⟩ := bind_eq_ok.mp h
  obtain ⟨received, hrecv, h⟩ := bind_eq_ok.mp h
  obtain ⟨⟨client, world⟩, hsim, h⟩ := bind_eq_ok.mp h
  obtain ⟨sent, hsend, hwait⟩ := bind_eq_ok.mp h
  have hpolled := orTick_eq_ok.mp hpolled
  have hreceived : BeforeWait s received
      (s.game.client.warp + 10 * feedbackTaken s it) := by
    have hsame : BeforeWait s { s with netTick := polled.1 } s.game.client.warp :=
      ⟨hjoined.state, rfl, rfl, rfl, rfl⟩
    have htaken : feedbackTaken s it = feedbackAt s it (decide (polled.2 ≠ 0)) := by
      rw [feedbackTaken, netDue_of_polled hpolled]
    rw [htaken, feedbackAt]
    unfold ifConnected at hrecv
    by_cases hconnected : decide (polled.2 ≠ 0) = true ∧ s.game.client.state ≠ .disconnected
    · rw [if_pos hconnected] at hrecv
      have hbefore := beforeWait_recv
        (s := { s with netTick := polled.1 }) hjoined.state hrecv
      refine ⟨hbefore.state, hbefore.simTickRate, hbefore.frame, hbefore.simTick,
        hbefore.warp.trans ?_⟩
      rw [warpAsked]
      by_cases hzero : s.game.client.warp = 0
      · rw [if_pos hzero, if_pos ⟨hconnected.1, hconnected.2, hzero⟩]
        omega
      · rw [if_neg hzero, if_neg (fun hall => hzero hall.2.2), Int.mul_zero, Int.add_zero]
    · rw [if_neg hconnected] at hrecv
      cases hrecv
      rw [if_neg (fun hall => hconnected ⟨hall.1, hall.2.1⟩), Int.mul_zero, Int.add_zero]
      exact hsame
  obtain ⟨pendingMsgs, hclient, -⟩ := clientSimUpdate_spec (orFault_eq_ok.mp hsim)
  dsimp only at hsend
  subst hclient
  have hbefore : BeforeWait s sent (s.game.client.warp + 10 * feedbackTaken s it) := by
    unfold ifConnected at hsend
    have hsimulated : BeforeWait s
        { received with game := { received.game with
            client := { received.game.client with pendingMsgs := pendingMsgs }, world := world } }
        (s.game.client.warp + 10 * feedbackTaken s it) :=
      ⟨hreceived.state, hreceived.simTickRate, hreceived.frame, hreceived.simTick, hreceived.warp⟩
    split at hsend
    · exact beforeWait_send hsimulated hsend
    · cases hsend
      exact hsimulated
  have hwaits : AtRate simTickRate interval sent := by
    refine ⟨hbefore.state, hbefore.simTickRate.trans hjoined.simTickRate, ?_⟩
    rw [hbefore.simTick]
    exact hjoined.interval
  obtain ⟨hs', hframe, htarget⟩ := wait_target hwaits hperiod hwait
  refine ⟨hs', hframe.trans (by rw [hbefore.frame]), htarget.trans ?_⟩
  have hsum : sent.target + interval.toNat = s.target + interval.toNat +
      10 * warpShift simTickRate * feedbackTaken s it := by
    unfold ClientInstance.target
    rw [hbefore.simTick, hbefore.simTickRate, hbefore.warp, hjoined.simTickRate]
    ring
  rw [hsum]

/-! ## An iteration is a run of events -/

namespace GameEvent

def isSimulate : GameEvent → Bool
  | simulate _ _ _ => true
  | _ => false

def isNextFrame : GameEvent → Bool
  | nextFrame => true
  | _ => false

end GameEvent

/-- The events of some iterations. -/
structure IterationsTaken (mem : Alloc) (num : Numerics) (s : ClientInstance)
    (iterations : List ClientIteration) (s' : ClientInstance) (events : List GameEvent) :
    Prop where
  refines : Run.run (gameEvent mem num) s.game events = .ok s'.game
  simulated : events.countP GameEvent.isSimulate = iterations.length
  frames : events.countP GameEvent.isNextFrame = iterations.length
  messages : ∀ type payload, .message type payload ∈ events →
    ∃ it ∈ iterations, .message type payload ∈ framesIn it.packet

/-- The messages of a packet, and nothing else. -/
def MessagesOnly (packet : Option (List UInt8)) (events : List GameEvent) : Prop :=
  ∀ event ∈ events, event = .packet ∨
    ∃ type payload, event = .message type payload ∧ .message type payload ∈ framesIn packet

/-- The events of a frame list are its messages, nothing else. -/
theorem mem_of_messagesOf {fs : List Frame} {event : GameEvent} (h : event ∈ messagesOf fs) :
    ∃ type payload, event = .message type payload ∧ .message type payload ∈ fs := by
  induction fs with
  | nil => cases h
  | cons f rest ih =>
      cases f with
      | truncated => cases h
      | message type payload =>
          rcases List.mem_cons.mp h with rfl | hrest
          · exact ⟨type, payload, rfl, List.mem_cons_self⟩
          · obtain ⟨type', payload', hevent, hmem⟩ := ih hrest
            exact ⟨type', payload', hevent, List.mem_cons_of_mem _ hmem⟩

/-- A count that skips packets and messages finds nothing in the events of a packet. -/
theorem countP_messagesOnly {packet : Option (List UInt8)} {events : List GameEvent}
    (h : MessagesOnly packet events) {p : GameEvent → Bool} (hpacket : p .packet = false)
    (hmessage : ∀ type payload, p (.message type payload) = false) : events.countP p = 0 := by
  rw [List.countP_eq_zero]
  intro event hevent
  rcases h event hevent with rfl | ⟨type, payload, rfl, -⟩
  · simp [hpacket]
  · simp [hmessage]

/-- The receiving half of an iteration is a run of message events of the client's game. -/
theorem run_iterationRecv (h : iterationRecv mem num it s = .ok s') :
    ∃ events, Run.run (gameEvent mem num) s.game events = .ok s'.game ∧
      MessagesOnly it.packet events := by
  obtain ⟨⟨client, world, r⟩, hrecv, h⟩ := bind_eq_ok.mp h
  have hrecv := orFault_eq_ok.mp hrecv
  dsimp only at h
  split at h
  · cases h
  next hgood =>
  have hgame : s'.game = ⟨client, world, s.game.accepted || r.tickRateChanged⟩ := by
    unfold matchTickRates at h
    split at h
    · obtain ⟨simTick, -, h⟩ := bind_eq_ok.mp h
      obtain ⟨netTick, -, h⟩ := bind_eq_ok.mp h
      cases h
      rfl
    · cases h
      rfl
  have hnothing (hempty : it.packet = none ∨ it.packet = some []) :
      Run.run (gameEvent mem num) s.game [] = .ok s'.game := by
    have hsame : (.ok (s.game.client, s.game.world, clientRecvOk) : Except Fault _) =
        .ok (client, world, r) := by
      rcases hempty with hnone | hnone
      · rw [hnone] at hrecv
        exact hrecv
      · rw [hnone] at hrecv
        exact hrecv
    cases hsame
    rw [hgame]
    show Except.ok s.game = .ok ⟨s.game.client, s.game.world, s.game.accepted || false⟩
    rw [Bool.or_false]
  cases hpacket : it.packet with
  | none => exact ⟨[], hnothing (Or.inl hpacket), by simp [MessagesOnly]⟩
  | some udpBuf =>
      by_cases hempty : udpBuf = []
      · exact ⟨[], hnothing (Or.inr (by rw [hpacket, hempty])), by simp [MessagesOnly]⟩
      obtain ⟨messages, hinitial, hrun⟩ := @clientRecv_run mem num s.game udpBuf hempty
      rw [hpacket] at hrecv
      rw [hrecv, gameOf, ok_bind] at hrun
      dsimp only at hrun
      rw [if_neg hgood] at hrun
      refine ⟨.packet :: messages, by rw [hgame]; exact hrun, ?_⟩
      intro event hevent
      rcases List.mem_cons.mp hevent with rfl | hmessage
      · exact Or.inl rfl
      · exact Or.inr (mem_of_messagesOf (hinitial.subset hmessage))

/-- The sending half of an iteration is one `send` event. -/
theorem run_iterationSend (h : iterationSend s = .ok s') :
    gameEvent mem num s.game .send = .ok s'.game := by
  obtain ⟨⟨client, packet⟩, hsend, h⟩ := bind_eq_ok.mp h
  cases h
  simp only [gameEvent, orFault_eq_ok.mp hsend, ok_bind, pure_eq_ok]

/-- **Each iteration is a run of events.** -/
theorem clientIteration_ok (h : clientIteration mem num s it = .ok s') :
    ∃ events, IterationsTaken mem num s [it] s' events := by
  obtain ⟨polled, hpolled, h⟩ := bind_eq_ok.mp h
  obtain ⟨received, hrecv, h⟩ := bind_eq_ok.mp h
  obtain ⟨⟨client, world⟩, hsim, h⟩ := bind_eq_ok.mp h
  obtain ⟨sent, hsend, hend⟩ := bind_eq_ok.mp h
  obtain ⟨waited, hwait, hend⟩ := bind_eq_ok.mp hend
  obtain ⟨first, hfirst, honly⟩ : ∃ events,
      Run.run (gameEvent mem num) s.game events = .ok received.game ∧
        MessagesOnly it.packet events := by
    unfold ifConnected at hrecv
    split at hrecv
    · exact run_iterationRecv (s := { s with netTick := polled.1 }) hrecv
    · cases hrecv
      exact ⟨[], rfl, by simp [MessagesOnly]⟩
  have hsimulate : gameEvent mem num received.game
      (.simulate it.uninit it.command (decide (polled.2 ≠ 0))) =
        .ok { received.game with client := client, world := world } := by
    simp only [gameEvent, orFault_eq_ok.mp hsim, ok_bind, pure_eq_ok]
  obtain ⟨last, hlast, hsends⟩ : ∃ events,
      Run.run (gameEvent mem num) { received.game with client := client, world := world } events =
          .ok sent.game ∧ (events = [] ∨ events = [.send]) := by
    unfold ifConnected at hsend
    split at hsend
    · refine ⟨[.send], ?_, Or.inr rfl⟩
      rw [Run.run_cons_ok (run_iterationSend hsend)]
      rfl
    · cases hsend
      exact ⟨[], rfl, Or.inl rfl⟩
  have hnext : gameEvent mem num sent.game .nextFrame = .ok s'.game := by
    dsimp only at hend
    split at hend
    · cases hend
    · cases hend
      rfl
  have hfirstNone := @countP_messagesOnly it.packet first honly
  refine ⟨first ++ .simulate it.uninit it.command (decide (polled.2 ≠ 0)) :: (last ++ [.nextFrame]),
    ?_, ?_, ?_, ?_⟩
  · rw [Run.run_append, hfirst]
    dsimp only
    rw [Run.run_cons_ok hsimulate, Run.run_append, hlast]
    dsimp only
    rw [Run.run_cons_ok hnext]
    rfl
  · rw [List.countP_append, hfirstNone rfl fun _ _ => rfl]
    rcases hsends with rfl | rfl <;> rfl
  · rw [List.countP_append, hfirstNone rfl fun _ _ => rfl]
    rcases hsends with rfl | rfl <;> rfl
  · intro type payload hmem
    refine ⟨it, List.mem_singleton_self _, ?_⟩
    rcases List.mem_append.mp hmem with hmem | hmem
    · rcases honly _ hmem with hpacket | ⟨type', payload', hevent, hframe⟩
      · cases hpacket
      · cases hevent
        exact hframe
    · rcases hsends with rfl | rfl <;> simp at hmem

/-- A run of the loop is a run of the game's events, iteration after iteration. -/
theorem iterations_taken {iterations : List ClientIteration}
    (h : Run.run (clientIteration mem num) s iterations = .ok s') :
    ∃ events, IterationsTaken mem num s iterations s' events := by
  induction iterations generalizing s with
  | nil =>
      cases h
      exact ⟨[], rfl, rfl, rfl, by simp⟩
  | cons it rest ih =>
      cases hstep : clientIteration mem num s it with
      | error f =>
          rw [Run.run, hstep] at h
          cases h
      | ok m =>
          rw [Run.run_cons_ok hstep] at h
          obtain ⟨first, hfirst⟩ := clientIteration_ok hstep
          obtain ⟨events, hrest⟩ := ih h
          refine ⟨first ++ events, ?_, ?_, ?_, ?_⟩
          · rw [Run.run_append, hfirst.refines]
            exact hrest.refines
          · rw [List.countP_append, hfirst.simulated, hrest.simulated, List.length_singleton,
              List.length_cons, Nat.add_comm]
          · rw [List.countP_append, hfirst.frames, hrest.frames, List.length_singleton,
              List.length_cons, Nat.add_comm]
          · intro type payload hmem
            rcases List.mem_append.mp hmem with hmem | hmem
            · obtain ⟨it', hit', hframe⟩ := hfirst.messages type payload hmem
              obtain rfl := List.mem_singleton.mp hit'
              exact ⟨it', List.mem_cons_self, hframe⟩
            · obtain ⟨it', hit', hframe⟩ := hrest.messages type payload hmem
              exact ⟨it', List.mem_cons_of_mem _ hit', hframe⟩

/-! ## Rates and ticks -/

/-- A message that does not say so leaves the rates. -/
theorem rate_clientProcessMessage {client client' : Client} {world world' : World} {type : UInt8}
    {payload : List UInt8} {r : ClientRecvResult}
    (h : clientProcessMessage mem num client world type payload = .ok (client', world', r))
    (hsame : r.tickRateChanged = false) : client'.simTickRate = client.simTickRate := by
  unfold clientProcessMessage at h
  split at h
  · unfold processJoinAccept at h
    split at h
    · cases h
      rfl
    · dsimp only at h
      split at h
      · cases h
        rfl
      · obtain ⟨⟨world₁, status⟩, -, h⟩ := bind_eq_ok.mp h
        dsimp only at h
        split at h
        · cases h
          rfl
        · cases h
          cases hsame
  · cases h
    rfl
  · cases h
    unfold processFeedback
    split <;> rfl
  · obtain ⟨world₁, -, h⟩ := bind_eq_ok.mp h
    cases h
    rfl
  · obtain ⟨⟨world₁, r₁⟩, -, h⟩ := bind_eq_ok.mp h
    cases h
    rfl
  · cases h
    rfl

/-- Unless the frame loop reports a new tick rate, it left the rate alone. -/
theorem rate_clientUnpackLoop {fuel : Nat} {udpBuf : List UInt8} {client client' : Client}
    {world world' : World} {result result' : ClientRecvResult}
    (h : clientUnpackLoop mem num fuel udpBuf client world result = .ok (client', world', result'))
    (hsame : result'.tickRateChanged = false) :
    result.tickRateChanged = false ∧ client'.simTickRate = client.simTickRate := by
  induction fuel generalizing udpBuf client world result with
  | zero =>
      cases h
      exact ⟨hsame, rfl⟩
  | succ fuel ih =>
      match udpBuf with
      | [] =>
          cases h
          exact ⟨hsame, rfl⟩
      | [_] =>
          cases h
          exact ⟨hsame, rfl⟩
      | type :: msgLen :: rest =>
          rw [clientUnpackLoop] at h
          split at h
          · cases h
            exact ⟨hsame, rfl⟩
          obtain ⟨⟨client₁, world₁, r⟩, hmsg, h⟩ := bind_eq_ok.mp h
          dsimp only at h
          have hlast : (clientRecvResultCombine result r).tickRateChanged = false ∧
              client'.simTickRate = client₁.simTickRate := by
            split at h
            · cases h
              exact ⟨hsame, rfl⟩
            · exact ih h
          obtain ⟨hcombined, hrest⟩ := hlast
          obtain ⟨hbefore, hr⟩ := Bool.or_eq_false_iff.mp hcombined
          exact ⟨hbefore, hrest.trans (rate_clientProcessMessage hmsg hr)⟩

/-- Unless `client_recv` reports a new tick rate, it left the rate alone. -/
theorem rate_clientRecv {packet : Option (List UInt8)} {client client' : Client}
    {world world' : World} {r : ClientRecvResult}
    (h : clientRecv mem num client world packet = .ok (client', world', r))
    (hsame : r.tickRateChanged = false) : client'.simTickRate = client.simTickRate := by
  match packet with
  | none =>
      cases h
      rfl
  | some [] =>
      cases h
      rfl
  | some (byte :: rest) => exact (rate_clientUnpackLoop h hsame).2

/-- The tick goes with the rate. -/
def ClientInstance.Configured (s : ClientInstance) : Prop :=
  tickPeriod s.game.client.simTickRate.toNat = .ok s.simTick.interval

/-- The interval that `tick_cfg` stores is the period of the rate it was given. -/
theorem tickPeriod_of_cfg {now : Timespec} {tps : Int} {t : Tick} (h : tickCfg now tps = .ok t) :
    tickPeriod tps = .ok t.interval := by
  unfold tickCfg at h
  split at h
  · cases h
  · next interval hperiod =>
      cases h
      exact hperiod

/-- The loop starts from the game that `client_connect` leaves behind. -/
theorem game_begin {username : List UInt8} {cfgSimTick cfgNetTick : Timespec}
    (h : ClientInstance.begin mem username cfgSimTick cfgNetTick = .ok s) :
    s.game = ClientGame.begin mem username := by
  unfold ClientInstance.begin at h
  dsimp only at h
  split at h
  · cases h
  · split at h
    · cases h
    · cases h
      rfl

/-- The loop starts with a simulation tick configured for the client's rate. -/
theorem configured_begin {username : List UInt8} {cfgSimTick cfgNetTick : Timespec}
    (h : ClientInstance.begin mem username cfgSimTick cfgNetTick = .ok s) : s.Configured := by
  unfold ClientInstance.begin at h
  dsimp only at h
  split at h
  · cases h
  · next simTick hsim =>
      split at h
      · cases h
      · cases h
        exact tickPeriod_of_cfg hsim

/-- A tick rate that a packet brings is configured before the iteration goes on. -/
theorem configured_recv (hs : s.Configured) (h : iterationRecv mem num it s = .ok s') :
    s'.Configured := by
  obtain ⟨⟨client, world, r⟩, hrecv, h⟩ := bind_eq_ok.mp h
  dsimp only at h
  split at h
  · cases h
  unfold matchTickRates at h
  split at h
  · obtain ⟨simTick, hsim, h⟩ := bind_eq_ok.mp h
    obtain ⟨netTick, -, h⟩ := bind_eq_ok.mp h
    cases h
    exact tickPeriod_of_cfg (orTick_eq_ok.mp hsim)
  · next hsame =>
      cases h
      have hrate := rate_clientRecv (orFault_eq_ok.mp hrecv) (Bool.eq_false_of_not_eq_true hsame)
      show tickPeriod client.simTickRate.toNat = _
      rw [hrate]
      exact hs

/-- One iteration keeps the simulation tick configured for the client's rate. -/
theorem configured_iteration (hs : s.Configured) (h : clientIteration mem num s it = .ok s') :
    s'.Configured := by
  obtain ⟨polled, hpolled, h⟩ := bind_eq_ok.mp h
  obtain ⟨received, hrecv, h⟩ := bind_eq_ok.mp h
  obtain ⟨⟨client, world⟩, hsim, h⟩ := bind_eq_ok.mp h
  obtain ⟨sent, hsend, hend⟩ := bind_eq_ok.mp h
  obtain ⟨waited, hwait, hend⟩ := bind_eq_ok.mp hend
  have hreceived : received.Configured := by
    unfold ifConnected at hrecv
    split at hrecv
    · exact configured_recv (s := { s with netTick := polled.1 }) hs hrecv
    · cases hrecv
      exact hs
  obtain ⟨pendingMsgs, rfl, -⟩ := clientSimUpdate_spec (orFault_eq_ok.mp hsim)
  have hsent : sent.Configured := by
    unfold ifConnected at hsend
    split at hsend
    · obtain ⟨⟨client, packet⟩, hpacket, hsend⟩ := bind_eq_ok.mp hsend
      obtain ⟨buf, left, timeoutCounter, -, rfl, -⟩ :=
        clientSendPendingData_packed (orFault_eq_ok.mp hpacket)
      cases hsend
      exact hreceived
    · cases hsend
      exact hreceived
  have htick : waited.tick.interval = sent.simTick.interval := by
    have hwait := orTick_eq_ok.mp hwait
    unfold tickWaitWarp at hwait
    split at hwait
    · cases hwait
    · rw [tick_tickWaitUntil hwait]
  dsimp only at hend
  split at hend
  · cases hend
  · cases hend
    show tickPeriod sent.game.client.simTickRate.toNat = .ok waited.tick.interval
    rw [htick]
    exact hsent

/-- **Feedback is carried out.**  Take a client that has joined in some run of the loop, and any
number of iterations from there on.  Its frame number has gone up by one in each.  Its deadline has
moved by as many intervals, and by ten shifts for each frame that accepted feedback has asked for,
except for the warp that is left.  A positive warp delays it and a negative one brings it
forward. -/
theorem feedback_carried_out {username : List UInt8} {cfgSimTick cfgNetTick : Timespec}
    {start : ClientInstance} {past iterations : List ClientIteration}
    (hstart : ClientInstance.begin mem username cfgSimTick cfgNetTick = .ok start)
    (hpast : Run.run (clientIteration mem num) start past = .ok s)
    (hjoined : s.game.client.state ≠ .joining)
    (hrun : Run.run (clientIteration mem num) s iterations = .ok s') :
    (s'.game.client.frameNumber.toNat : Int) ≡
        s.game.client.frameNumber.toNat + iterations.length [ZMOD 2 ^ 16] ∧
      (s'.simTick.last.toNat : Int) +
          warpShift s.game.client.simTickRate * s'.game.client.warp ≡
        s.simTick.last.toNat + warpShift s.game.client.simTickRate * s.game.client.warp +
            iterations.length * s.simTick.interval.toNat +
          10 * warpShift s.game.client.simTickRate *
            Run.total (clientIteration mem num) feedbackTaken s iterations [ZMOD 2 ^ 64] := by
  have hkeeps (m : ClientInstance) (it : ClientIteration) (m' : ClientInstance)
      (hm : m.Configured) (_ : True) (hok : clientIteration mem num m it = .ok m') :
      m'.Configured := configured_iteration hm hok
  have hconfigured := Run.run_invariant hkeeps (configured_begin hstart)
    (Run.meets_of_forall (fun _ _ => trivial) _ _) hpast
  have hs : AtRate s.game.client.simTickRate s.simTick.interval s := ⟨hjoined, rfl, rfl⟩
  have hkeepsTarget (m : ClientInstance) (it : ClientIteration) (m' : ClientInstance)
      (hm : AtRate s.game.client.simTickRate s.simTick.interval m) (_ : True)
      (hok : clientIteration mem num m it = .ok m') :
      AtRate s.game.client.simTickRate s.simTick.interval m' ∧
        m'.target ≡ m.target + s.simTick.interval.toNat +
          10 * warpShift s.game.client.simTickRate * feedbackTaken m it [ZMOD 2 ^ 64] := by
    obtain ⟨hm', -, htarget⟩ := iteration_target hm ⟨_, hconfigured⟩ hok
    exact ⟨hm', htarget⟩
  have hkeepsFrame (m : ClientInstance) (it : ClientIteration) (m' : ClientInstance)
      (hm : AtRate s.game.client.simTickRate s.simTick.interval m) (_ : True)
      (hok : clientIteration mem num m it = .ok m') :
      AtRate s.game.client.simTickRate s.simTick.interval m' ∧
        (m'.game.client.frameNumber.toNat : Int) ≡
          m.game.client.frameNumber.toNat + 1 + 0 * feedbackTaken m it [ZMOD 2 ^ 16] := by
    obtain ⟨hm', hframe, -⟩ := iteration_target hm ⟨_, hconfigured⟩ hok
    refine ⟨hm', ?_⟩
    rw [hframe, UInt16.toNat_add]
    unfold Int.ModEq
    have hone : (1 : UInt16).toNat = 1 := rfl
    omega
  obtain ⟨hs', htarget⟩ := Run.potential_run hkeepsTarget hs (fun _ _ => trivial) hrun
  obtain ⟨-, hframe⟩ := Run.potential_run hkeepsFrame hs (fun _ _ => trivial) hrun
  refine ⟨by simpa using hframe, ?_⟩
  unfold ClientInstance.target at htarget
  rw [hs'.simTickRate] at htarget
  exact htarget

end

/-- An iteration that polls and waits at these times, of a player who does nothing. -/
def promptIteration (poll now : UInt64) (packet : Option (List UInt8)) : ClientIteration where
  poll := timespecUntil poll
  packet := packet
  cfgSimTick := timespecUntil poll
  cfgNetTick := timespecUntil poll
  uninit := fun _ _ => 0
  command := cmdDefault
  wakeup := promptWakeup now

/-- A client is accepted when `net_tick` passes for the first time. -/
def acceptedIterations : List ClientIteration :=
  [promptIteration 110000000 120000000
    (some (msgBytes (msgJoinAccept 60 20 0 7 3 { x := 0, y := 0 })))]

/-- It is one frame late, and hears of it once. -/
def feedbackIterations : List ClientIteration :=
  [promptIteration 220000000 230000000 (some (msgBytes (msgFeedback 1 8))),
    promptIteration 230000000 240000000 none]

/-- Two iterations, one of them with a feedback of 1: the deadline and what is left of the warp move
by two intervals and ten steps of the warp. -/
theorem feedback_carried_out_sample : ∃ start s s' : ClientInstance,
    ClientInstance.begin Alloc.unlimited (cString "a") ⟨0, 0⟩ ⟨0, 0⟩ = .ok start ∧
      Run.run (clientIteration Alloc.unlimited eastward) start acceptedIterations = .ok s ∧
      Run.run (clientIteration Alloc.unlimited eastward) s feedbackIterations = .ok s' ∧
      (s'.simTick.last.toNat : Int) +
          warpShift s.game.client.simTickRate * s'.game.client.warp ≡
        s.simTick.last.toNat + warpShift s.game.client.simTickRate * s.game.client.warp +
            2 * s.simTick.interval.toNat +
          10 * warpShift s.game.client.simTickRate * 1 [ZMOD 2 ^ 64] := by
  have h : (do
      let start ← orTick (ClientInstance.begin Alloc.unlimited (cString "a") ⟨0, 0⟩ ⟨0, 0⟩)
      let s ← Run.run (clientIteration Alloc.unlimited eastward) start acceptedIterations
      let _ ← Run.run (clientIteration Alloc.unlimited eastward) s feedbackIterations
      return (s.game.client.state, Run.total (clientIteration Alloc.unlimited eastward)
        feedbackTaken s feedbackIterations)) = Except.ok (.connected, 1) := by
    decide +kernel
  obtain ⟨start, hstart, h⟩ := bind_eq_ok.mp h
  obtain ⟨s, hs, h⟩ := bind_eq_ok.mp h
  obtain ⟨s', hs', h⟩ := bind_eq_ok.mp h
  obtain ⟨hconnected, htotal⟩ := Prod.mk.inj (Except.ok.inj h)
  have hjoined : s.game.client.state ≠ .joining := by
    rw [hconnected]
    nofun
  have hcarried := (feedback_carried_out (orTick_eq_ok.mp hstart) hs hjoined hs').2
  rw [htotal] at hcarried
  exact ⟨start, s, s', orTick_eq_ok.mp hstart, hs, hs', hcarried⟩

end Clither
