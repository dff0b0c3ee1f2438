import Clither.Lib.Faults
import Clither.Silence
import Clither.Tick

/-!
# The main loop of a server instance

`server_instance_run` keeps two ticks.  `sim_tick` paces the loop: each turn
simulates one frame and then waits.  `net_tick` is only polled, and when it has
passed the turn begins with what clients have sent and ends with what is sent to
them.

Each turn is a run of the events of the server, so that everything about such
runs holds of an instance.  `server_instance_paced` is about how many events of
which kind there are: one simulation for each interval of `sim_tick`, and network
updates as often as `net_tick` says.
-/

namespace Clither

open Faults (bind_eq_ok)

/-- The loop ends because a function has returned an error, or it runs into a fault. -/
inductive InstanceEnd where
  | stopped
  | fault (f : Fault)
  | tick (f : TickFault)
  deriving DecidableEq

def orFault {α : Type} : Except Fault α → Except InstanceEnd α
  | .error f => .error (.fault f)
  | .ok x => .ok x

def orTick {α : Type} : Except TickFault α → Except InstanceEnd α
  | .error f => .error (.tick f)
  | .ok x => .ok x

/-- An instance at the head of its loop, and what its ticks have returned. -/
structure ServerInstance where
  run : ServerRun
  simTick : TickRun
  netTick : TickRun

/-- `server_instance_run` up to its loop. -/
def ServerInstance.begin (simTick netTick : Tick) : ServerInstance where
  run := serverRunInit
  simTick := .begin simTick
  netTick := .begin netTick

/-- What a turn of the loop meets with: the clock, and the answers of `net_recvfrom`, where `none`
is an error. -/
structure InstanceTurn where
  poll : Timespec
  answers : List (Option (NetAddr × List UInt8))
  wakeup : Wakeup

/-- The packets that the receive loop reads, and whether the socket fails behind them. -/
def receivedFrom : List (Option (NetAddr × List UInt8)) → List (NetAddr × List UInt8) × Bool
  | [] => ([], false)
  | none :: _ => ([], true)
  | some (sender, datagram) :: rest =>
      let udpBuf := datagram.take netMaxUdpPacketSize
      if udpBuf = [] then ([], false)
      else
        let received := receivedFrom rest
        ((sender, udpBuf) :: received.1, received.2)

/-- The packets that a turn reads if it is a network update. -/
def InstanceTurn.packets (t : InstanceTurn) : List (NetAddr × List UInt8) :=
  (receivedFrom t.answers).1

section

variable (mem : Alloc) (settings : ServerSettings) (num : Numerics)

/-- The call of `server_recv`. -/
def instanceRecv (r : ServerRun) (t : InstanceTurn) : Except InstanceEnd Server := do
  let server ← orFault (serverRecv mem settings r.server t.packets r.frame)
  if (receivedFrom t.answers).2 then .error .stopped else return server

/-- The calls behind the simulation. -/
def instanceSend (server : Server) (frameNumber : UInt16) : Except Fault Server := do
  let server ← serverUpdateSnakesInRange mem server (makeQw2 10 1)
  let server ← serverQueueSnakeData mem server frameNumber
  serverSendPendingData server

/-- `if (net_update)`. -/
def ifUpdate (netUpdate : Int) (server : Server) (body : Except InstanceEnd Server) :
    Except InstanceEnd Server :=
  if netUpdate ≠ 0 then body else .ok server

/-- A turn of the loop. -/
def instanceTurn (s : ServerInstance) (t : InstanceTurn) : Except InstanceEnd ServerInstance := do
  let polled ← orTick (tickAdvance s.netTick.tick t.poll)
  let server ← ifUpdate polled.2 s.run.server (instanceRecv mem settings s.run t)
  let server ← orFault (simUpdate mem settings num server s.run.frame)
  let server ← ifUpdate polled.2 server (orFault (instanceSend mem server s.run.frame))
  let waited ← orTick (tickWait s.simTick.tick t.wakeup)
  return { run := { server := server, frame := s.run.frame + 1 },
           simTick := s.simTick.answered waited.tick waited.clock waited.lag,
           netTick := s.netTick.answered polled.1 t.poll.nanos polled.2 }

end

/-! ## A turn is a run of events -/

/-- The events of a turn. -/
def turnEvents (update : Bool) (packets : List (NetAddr × List UInt8)) : List ServerEvent :=
  if update then
    .timeouts :: .malicious :: packets.map (fun packet => .packet packet.1 packet.2) ++
      [.simulate, .snakesInRange (makeQw2 10 1), .queueData, .sendPending, .nextFrame]
  else [.simulate, .nextFrame]

section

variable {mem : Alloc} {settings : ServerSettings} {num : Numerics}

/-- A lifted fault result is a value exactly when the result is. -/
theorem orFault_eq_ok {α : Type} {result : Except Fault α} {x : α} :
    orFault result = .ok x ↔ result = .ok x := by
  cases result <;> simp [orFault]

/-- A lifted tick result is a value exactly when the result is. -/
theorem orTick_eq_ok {α : Type} {result : Except TickFault α} {x : α} :
    orTick result = .ok x ↔ result = .ok x := by
  cases result <;> simp [orTick]

/-- Receiving a list of packets is a run of packet events. -/
theorem run_receivePackets {s s' : Server} {frame : UInt16} {packets : List (NetAddr × List UInt8)}
    (h : receivePackets mem settings frame packets s = .ok s') :
    Run.run (serverEvent mem settings num) ⟨s, frame⟩
      (packets.map fun packet => .packet packet.1 packet.2) = .ok ⟨s', frame⟩ := by
  induction packets generalizing s with
  | nil =>
      cases h
      rfl
  | cons packet rest ih =>
      obtain ⟨s₁, hpacket, h⟩ := bind_eq_ok.mp h
      have hstep : serverEvent mem settings num ⟨s, frame⟩ (.packet packet.1 packet.2) =
          .ok ⟨s₁, frame⟩ := by
        simp only [serverEvent, hpacket, ok_bind, pure_eq_ok]
      rw [List.map_cons, Run.run_cons_ok hstep]
      exact ih h

/-- `server_recv` counts the timeouts, serves the malicious list, and takes the packets in turn. -/
theorem run_serverRecv {s s' : Server} {frame : UInt16} {packets : List (NetAddr × List UInt8)}
    (h : serverRecv mem settings s packets frame = .ok s') :
    Run.run (serverEvent mem settings num) ⟨s, frame⟩
      (.timeouts :: .malicious :: packets.map fun packet => .packet packet.1 packet.2) =
        .ok ⟨s', frame⟩ := by
  obtain ⟨s₁, htimeouts, h⟩ := bind_eq_ok.mp h
  obtain ⟨s₂, hmalicious, h⟩ := bind_eq_ok.mp h
  have hfirst : serverEvent mem settings num ⟨s, frame⟩ .timeouts = .ok ⟨s₁, frame⟩ := by
    simp only [serverEvent, htimeouts, ok_bind, pure_eq_ok]
  have hsecond : serverEvent mem settings num ⟨s₁, frame⟩ .malicious = .ok ⟨s₂, frame⟩ := by
    simp only [serverEvent, hmalicious, ok_bind, pure_eq_ok]
  rw [Run.run_cons_ok hfirst, Run.run_cons_ok hsecond]
  exact run_receivePackets h

/-- The simulation update is one event. -/
theorem run_simulate {s s' : Server} {frame : UInt16}
    (h : simUpdate mem settings num s frame = .ok s') :
    serverEvent mem settings num ⟨s, frame⟩ .simulate = .ok ⟨s', frame⟩ := by
  simp only [serverEvent, h, ok_bind, pure_eq_ok]

/-- The sending half is the proximity update, the queueing, the sending and the next frame. -/
theorem run_instanceSend {s s' : Server} {frame : UInt16}
    (h : instanceSend mem s frame = .ok s') :
    Run.run (serverEvent mem settings num) ⟨s, frame⟩
      [.snakesInRange (makeQw2 10 1), .queueData, .sendPending, .nextFrame] =
        .ok ⟨s', frame + 1⟩ := by
  obtain ⟨s₁, hrange, h⟩ := bind_eq_ok.mp h
  obtain ⟨s₂, hqueue, h⟩ := bind_eq_ok.mp h
  simp only [Run.run, serverEvent, hrange, hqueue, h, ok_bind, pure_eq_ok]

/-- What a turn that goes through has done. -/
structure TurnTaken (mem : Alloc) (settings : ServerSettings) (num : Numerics)
    (s : ServerInstance) (t : InstanceTurn) (s' : ServerInstance) (polled : Tick × Int)
    (waited : Waited) : Prop where
  advances : tickAdvance s.netTick.tick t.poll = .ok polled
  waits : tickWait s.simTick.tick t.wakeup = .ok waited
  netTick : s'.netTick = s.netTick.answered polled.1 t.poll.nanos polled.2
  simTick : s'.simTick = s.simTick.answered waited.tick waited.clock waited.lag
  frame : s'.run.frame = s.run.frame + 1
  events : Run.run (serverEvent mem settings num) s.run
    (turnEvents (decide (polled.2 ≠ 0)) t.packets) = .ok s'.run

/-- **Each turn is a run of events.** -/
theorem instanceTurn_ok {s s' : ServerInstance} {t : InstanceTurn}
    (h : instanceTurn mem settings num s t = .ok s') :
    ∃ polled waited, TurnTaken mem settings num s t s' polled waited := by
  obtain ⟨polled, hpolled, h⟩ := bind_eq_ok.mp h
  obtain ⟨server, hrecv, h⟩ := bind_eq_ok.mp h
  obtain ⟨simulated, hsim, h⟩ := bind_eq_ok.mp h
  obtain ⟨sent, hsend, h⟩ := bind_eq_ok.mp h
  obtain ⟨waited, hwaited, h⟩ := bind_eq_ok.mp h
  have hsimulate := run_simulate (orFault_eq_ok.mp hsim)
  cases h
  refine ⟨polled, waited, orTick_eq_ok.mp hpolled, orTick_eq_ok.mp hwaited, rfl, rfl, rfl, ?_⟩
  by_cases hupdate : polled.2 ≠ 0
  · rw [ifUpdate, if_pos hupdate] at hrecv hsend
    obtain ⟨received, hreceived, hrecv⟩ := bind_eq_ok.mp hrecv
    split at hrecv
    · cases hrecv
    · cases hrecv
      rw [turnEvents, if_pos (decide_eq_true hupdate), Run.run_append,
        run_serverRecv (orFault_eq_ok.mp hreceived)]
      exact (Run.run_cons_ok hsimulate _).trans (run_instanceSend (orFault_eq_ok.mp hsend))
  · rw [ifUpdate, if_neg hupdate] at hrecv hsend
    cases hrecv
    cases hsend
    have hno : ¬ decide (polled.2 ≠ 0) = true := by simpa using hupdate
    rw [turnEvents, if_neg hno, Run.run_cons_ok hsimulate]
    rfl

/-! ## Counting events -/

namespace ServerEvent

def isSimulate : ServerEvent → Bool
  | simulate => true
  | _ => false

end ServerEvent

/-- Packets aside, a turn has the same events whatever is received. -/
theorem countP_turnEvents {p : ServerEvent → Bool}
    (h : ∀ sender udpBuf, p (.packet sender udpBuf) = false) (update : Bool)
    (packets : List (NetAddr × List UInt8)) :
    (turnEvents update packets).countP p = (turnEvents update []).countP p := by
  have hnone : (packets.map fun packet => ServerEvent.packet packet.1 packet.2).countP p = 0 := by
    rw [List.countP_eq_zero]
    intro event hevent
    obtain ⟨packet, -, rfl⟩ := List.mem_map.mp hevent
    simp [h]
  cases update with
  | false => rfl
  | true =>
      simp only [turnEvents, if_true, List.cons_append, List.countP_cons, List.countP_append, hnone]
      simp

/-- A turn counts the timeouts once if it updates the network, and not otherwise. -/
theorem countP_isTimeouts (update : Bool) (packets : List (NetAddr × List UInt8)) :
    (turnEvents update packets).countP ServerEvent.isTimeouts = if update then 1 else 0 := by
  rw [countP_turnEvents fun _ _ => rfl]
  cases update <;> rfl

/-- A turn sends once if it updates the network, and not otherwise. -/
theorem countP_isSendPending (update : Bool) (packets : List (NetAddr × List UInt8)) :
    (turnEvents update packets).countP ServerEvent.isSendPending = if update then 1 else 0 := by
  rw [countP_turnEvents fun _ _ => rfl]
  cases update <;> rfl

/-- Every turn simulates once. -/
theorem countP_isSimulate (update : Bool) (packets : List (NetAddr × List UInt8)) :
    (turnEvents update packets).countP ServerEvent.isSimulate = 1 := by
  rw [countP_turnEvents fun _ _ => rfl]
  cases update <;> rfl

/-- The packet events of a turn are its packets. -/
theorem mem_of_packet_mem {update : Bool} {packets : List (NetAddr × List UInt8)} {sender : NetAddr}
    {udpBuf : List UInt8} (h : .packet sender udpBuf ∈ turnEvents update packets) :
    (sender, udpBuf) ∈ packets := by
  cases update with
  | false => simp [turnEvents] at h
  | true => simpa [turnEvents] using h

/-- The events of turns in which `net_tick` gives these answers. -/
def eventsOf (answers : List Int) (turns : List InstanceTurn) : List ServerEvent :=
  (answers.zipWith (fun answer t => turnEvents (decide (answer ≠ 0)) t.packets) turns).flatten

/-- The events of the first turn come first. -/
@[simp] theorem eventsOf_cons (answer : Int) (answers : List Int) (t : InstanceTurn)
    (turns : List InstanceTurn) :
    eventsOf (answer :: answers) (t :: turns) =
      turnEvents (decide (answer ≠ 0)) t.packets ++ eventsOf answers turns :=
  rfl

/-- What a run of turns is to the server: the answers of `net_tick`, one for each turn, say which of
them receive and send. -/
structure TurnsTaken (mem : Alloc) (settings : ServerSettings) (num : Numerics)
    (s : ServerInstance) (turns : List InstanceTurn) (s' : ServerInstance)
    (answers : List Int) : Prop where
  polled : s'.netTick.answers = s.netTick.answers ++ answers
  length : answers.length = turns.length
  refines : Run.run (serverEvent mem settings num) s.run (eventsOf answers turns) = .ok s'.run
  frame : s'.run.frame = s.run.frame + UInt16.ofNat turns.length
  simulated : (eventsOf answers turns).countP ServerEvent.isSimulate = turns.length
  updates : s'.netTick.fires =
    s.netTick.fires + (eventsOf answers turns).countP ServerEvent.isTimeouts
  sent : (eventsOf answers turns).countP ServerEvent.isSendPending =
    (eventsOf answers turns).countP ServerEvent.isTimeouts
  packets : ∀ sender udpBuf, .packet sender udpBuf ∈ eventsOf answers turns →
    ∃ t ∈ turns, (sender, udpBuf) ∈ t.packets

/-- **Each run of turns is a run of events**, whatever the clock says. -/
theorem turns_taken {s s' : ServerInstance} {turns : List InstanceTurn}
    (h : Run.run (instanceTurn mem settings num) s turns = .ok s') :
    ∃ answers, TurnsTaken mem settings num s turns s' answers := by
  induction turns generalizing s with
  | nil =>
      cases h
      exact ⟨[], by simp, rfl, rfl, by simp, rfl, rfl, rfl, by simp [eventsOf]⟩
  | cons t rest ih =>
      cases hturn : instanceTurn mem settings num s t with
      | error f =>
          rw [Run.run, hturn] at h
          cases h
      | ok m =>
          rw [Run.run_cons_ok hturn] at h
          obtain ⟨polled, waited, htaken⟩ := instanceTurn_ok hturn
          obtain ⟨answers, hrest⟩ := ih h
          refine ⟨polled.2 :: answers, ?_, ?_, ?_, ?_, ?_, ?_, ?_, ?_⟩
          · rw [hrest.polled, htaken.netTick]
            simp [TickRun.answered]
          · rw [List.length_cons, List.length_cons, hrest.length]
          · rw [eventsOf_cons, Run.run_append, htaken.events]
            exact hrest.refines
          · rw [hrest.frame, htaken.frame, List.length_cons, Nat.add_comm, UInt16.ofNat_add,
              UInt16.add_assoc]
            rfl
          · rw [eventsOf_cons, List.countP_append, countP_isSimulate, hrest.simulated,
              List.length_cons, add_comm]
          · rw [eventsOf_cons, List.countP_append, countP_isTimeouts, hrest.updates,
              htaken.netTick, fires_answered]
            simp only [decide_eq_true_eq]
            rw [Nat.add_assoc]
          · rw [eventsOf_cons, List.countP_append, List.countP_append, countP_isTimeouts,
              countP_isSendPending, hrest.sent]
          · intro sender udpBuf hmem
            rw [eventsOf_cons] at hmem
            rcases List.mem_append.mp hmem with hfirst | hlater
            · exact ⟨t, List.mem_cons_self, mem_of_packet_mem hfirst⟩
            · obtain ⟨t', ht', hpacket⟩ := hrest.packets sender udpBuf hlater
              exact ⟨t', List.mem_cons_of_mem _ ht', hpacket⟩

/-! ## Pace -/

/-- What the clock promises to a turn: it does not go back, the work of a turn takes no longer than
`work`, and wakeups are at most `latency` late. -/
structure OnTime (latency work : Nat) (s : ServerInstance) (t : InstanceTurn) : Prop where
  begun : s.simTick.clock ≤ t.poll.nanos
  poll : s.netTick.clock ≤ t.poll.nanos
  order : t.poll.nanos ≤ t.wakeup.now.nanos
  busy : t.wakeup.now.nanos.toNat ≤ s.simTick.clock.toNat + work
  keeps : KeepsTime latency s.simTick.clock t.wakeup

/-- An instance after `count` turns, none of which was late. -/
structure InStep (simTick : Tick) (latency count : Nat) (s : ServerInstance) : Prop where
  schedule : OnSchedule simTick count s.simTick
  prompt : s.simTick.clock.toNat ≤ s.simTick.tick.last.toNat + latency
  lags : ∀ lag ∈ s.simTick.answers, lag = 0

/-- The ticks are configured one after the other, and turns come often enough for `net_tick`. -/
structure PollsOften (simTick netTick : Tick) (latency work : Nat) : Prop where
  begun : simTick.last ≤ netTick.last
  soon : netTick.last.toNat ≤ simTick.last.toNat + work
  range : netTick.last.toNat + netTick.interval.toNat < 2 ^ 64
  positive : 0 < netTick.interval.toNat
  often : simTick.interval.toNat + latency + work ≤ netTick.interval.toNat

/-- The last of `count` turns has polled `net_tick` in time. -/
structure Paced (simTick netTick : Tick) (latency work count : Nat) (s : ServerInstance) :
    Prop where
  fired : Fired netTick s.netTick.fires s.netTick.tick
  fires : s.netTick.fires = netTick.goal s.netTick.clock
  begun : netTick.last ≤ s.netTick.clock
  least : simTick.last.toNat + count * simTick.interval.toNat ≤
    s.netTick.clock.toNat + simTick.interval.toNat
  most : s.netTick.clock.toNat ≤
    simTick.last.toNat + (count - 1) * simTick.interval.toNat + latency + work

section

variable {simTick netTick : Tick} {latency work count : Nat} {s s' : ServerInstance}
  {t : InstanceTurn} {polled : Tick × Int} {waited : Waited}

/-- **One turn** that is not late. -/
theorem InStep.turn (h : InStep simTick latency count s)
    (hbusy : latency + work ≤ simTick.interval.toNat)
    (hrange : simTick.last.toNat + (count + 1) * simTick.interval.toNat < 2 ^ 64)
    (htime : OnTime latency work s t) (hturn : instanceTurn mem settings num s t = .ok s') :
    InStep simTick latency (count + 1) s' := by
  obtain ⟨polled, waited, htaken⟩ := instanceTurn_ok hturn
  have hsleep : tickSleep s.simTick t.wakeup = .ok s'.simTick := by
    rw [tickSleep, htaken.waits, htaken.simTick]
    rfl
  have hlate : t.wakeup.now.nanos.toNat ≤
      s.simTick.tick.last.toNat + simTick.interval.toNat := by
    have := htime.busy
    have := h.prompt
    omega
  obtain ⟨hschedule, -⟩ := h.schedule.sleep htime.keeps.sleeps hsleep
  obtain ⟨hprompt, hanswers⟩ := h.schedule.prompt hrange htime.keeps hsleep hlate
  refine ⟨hschedule, hprompt, ?_⟩
  intro lag hlag
  rw [hanswers] at hlag
  rcases List.mem_append.mp hlag with hold | hnew
  · exact h.lags lag hold
  · exact List.mem_singleton.mp hnew

/-- When the turn begins, the last one has just returned. -/
theorem InStep.clock (h : InStep simTick latency count s)
    (hrange : simTick.last.toNat + count * simTick.interval.toNat < 2 ^ 64) :
    simTick.last.toNat + count * simTick.interval.toNat ≤ s.simTick.clock.toNat ∧
      s.simTick.clock.toNat ≤ simTick.last.toNat + count * simTick.interval.toNat + latency := by
  have hlast := h.schedule.toNat_last hrange
  have hearly := UInt64.le_iff_toNat_le.mp h.schedule.early
  have hprompt := h.prompt
  omega

/-- The polled tick passes exactly when the goal goes up. -/
theorem Paced.polls (h : Paced simTick netTick latency work count s)
    (hoften : PollsOften simTick netTick latency work)
    (hbound : t.poll.nanos.toNat ≤ s.netTick.clock.toNat + netTick.interval.toNat)
    (hpolled : s.netTick.clock ≤ t.poll.nanos)
    (htaken : TurnTaken mem settings num s t s' polled waited) :
    Fired netTick s'.netTick.fires s'.netTick.tick ∧
      s'.netTick.fires = netTick.goal t.poll.nanos := by
  have hnear :
      t.poll.nanos.toNat < s.netTick.tick.last.toNat + 2 ^ 31 * netTick.interval.toNat := by
    have hgoal := netTick.lt_of_goal hoften.positive s.netTick.clock
    rw [← h.fires, Nat.add_mul] at hgoal
    have := h.fired.last
    omega
  obtain ⟨t', hadvance, ht'⟩ := h.fired.poll hoften.positive hnear
  have hup : netTick.goal s.netTick.clock ≤ netTick.goal t.poll.nanos :=
    netTick.goal_le_goal hpolled
  have hone := Tick.goal_le_succ hoften.positive h.begun hbound
  rw [← h.fires] at hup hone
  have hfollow : Pace.follow s.netTick.fires (netTick.goal t.poll.nanos) =
      netTick.goal t.poll.nanos := by
    rw [Pace.follow_eq_min hup]
    omega
  cases hadvance.symm.trans htaken.advances
  have hfires : s'.netTick.fires = netTick.goal t.poll.nanos := by
    rw [htaken.netTick, fires_answered_behind, ← Pace.follow_eq_add, hfollow]
  refine ⟨?_, hfires⟩
  rw [hfollow] at ht'
  rw [hfires, htaken.netTick]
  exact ht'

/-- **One turn** that polls in time. -/
theorem Paced.turn (h : Paced simTick netTick latency work count s)
    (hstep : InStep simTick latency count s) (hoften : PollsOften simTick netTick latency work)
    (hrange : simTick.last.toNat + (count + 1) * simTick.interval.toNat < 2 ^ 64)
    (htime : OnTime latency work s t) (hturn : instanceTurn mem settings num s t = .ok s') :
    Paced simTick netTick latency work (count + 1) s' := by
  obtain ⟨polled, waited, htaken⟩ := instanceTurn_ok hturn
  rw [Nat.add_mul, Nat.one_mul] at hrange
  obtain ⟨hleast, hmost⟩ := hstep.clock (by omega)
  have hbegun := UInt64.le_iff_toNat_le.mp htime.begun
  have horder := UInt64.le_iff_toNat_le.mp htime.order
  have hbusy := htime.busy
  have hnet : s'.netTick.clock = t.poll.nanos := by
    rw [htaken.netTick]
    rfl
  have hbound : t.poll.nanos.toNat ≤ s.netTick.clock.toNat + netTick.interval.toNat := by
    have := h.least
    have := hoften.often
    omega
  obtain ⟨hfired, hfires⟩ := h.polls hoften hbound htime.poll htaken
  refine ⟨hfired, hnet ▸ hfires, ?_, ?_, ?_⟩
  · rw [hnet]
    exact UInt64.le_trans h.begun htime.poll
  · rw [hnet, Nat.add_mul, Nat.one_mul]
    omega
  · rw [hnet, Nat.add_sub_cancel]
    omega

/-- Turns that are not late, and the network updates among them. -/
theorem InStep.turns {turns : List InstanceTurn} (h : InStep simTick latency count s)
    (hbusy : latency + work ≤ simTick.interval.toNat)
    (hrange : simTick.last.toNat + (count + turns.length) * simTick.interval.toNat < 2 ^ 64)
    (htime : Run.Meets (instanceTurn mem settings num) (OnTime latency work) s turns)
    (hrun : Run.run (instanceTurn mem settings num) s turns = .ok s') :
    InStep simTick latency (count + turns.length) s' ∧
      (PollsOften simTick netTick latency work →
        Paced simTick netTick latency work count s →
        Paced simTick netTick latency work (count + turns.length) s') := by
  induction turns generalizing s count with
  | nil =>
      cases hrun
      exact ⟨h, fun _ hpaced => hpaced⟩
  | cons t rest ih =>
      obtain ⟨hfirst, hlater⟩ := htime
      cases hturn : instanceTurn mem settings num s t with
      | error f =>
          rw [Run.run, hturn] at hrun
          cases hrun
      | ok m =>
          rw [Run.run_cons_ok hturn] at hrun
          have hcount : count + (t :: rest).length = count + 1 + rest.length := by
            rw [List.length_cons]
            omega
          rw [hcount] at hrange ⊢
          have hnext : simTick.last.toNat + (count + 1) * simTick.interval.toNat < 2 ^ 64 := by
            have := Nat.mul_le_mul_right simTick.interval.toNat
              (Nat.le_add_right (count + 1) rest.length)
            omega
          obtain ⟨hs', hpaced'⟩ :=
            ih (h.turn hbusy hnext hfirst hturn) hrange (hlater m hturn) hrun
          refine ⟨hs', fun hoften hpaced => ?_⟩
          exact hpaced' hoften (hpaced.turn h hoften hnext hfirst hturn)

/-- At the start nothing has been waited for. -/
theorem inStep_begin (simTick netTick : Tick) (latency : Nat) :
    InStep simTick latency 0 (.begin simTick netTick) := by
  refine ⟨onSchedule_begin simTick, Nat.le_add_right _ _, ?_⟩
  simp [ServerInstance.begin, TickRun.begin]

/-- The ticks have just been configured. -/
theorem paced_begin (hoften : PollsOften simTick netTick latency work) :
    Paced simTick netTick latency work 0 (.begin simTick netTick) := by
  have hfirst := UInt64.le_iff_toNat_le.mp hoften.begun
  have hsoon := hoften.soon
  have hrange := hoften.range
  refine ⟨⟨rfl, ?_, ?_⟩, ?_, UInt64.le_refl _, ?_, ?_⟩
  · simp [ServerInstance.begin, TickRun.begin, TickRun.fires]
  · simpa [ServerInstance.begin, TickRun.begin, TickRun.fires] using hrange
  · simp [ServerInstance.begin, TickRun.begin, TickRun.fires, Tick.goal]
  · simp only [ServerInstance.begin, TickRun.begin]
    omega
  · simp only [ServerInstance.begin, TickRun.begin]
    omega

/-- The number of network updates after `turns` turns: up to the latency and the work, the
intervals of `net_tick` in the time of all turns but one, without the first. -/
structure UpdatesOften (simTick netTick : Tick) (latency work turns updates : Nat) : Prop where
  least : ((turns - 1) * simTick.interval.toNat - work) / netTick.interval.toNat - 1 ≤ updates
  most : updates ≤
    ((turns - 1) * simTick.interval.toNat + latency + work) / netTick.interval.toNat - 1

/-- If the network tick polls often enough, a paced run made the updates that were due. -/
theorem Paced.updatesOften (h : Paced simTick netTick latency work count s)
    (hoften : PollsOften simTick netTick latency work) :
    UpdatesOften simTick netTick latency work count s.netTick.fires := by
  have hleast := h.least
  have hmost := h.most
  have hfirst := UInt64.le_iff_toNat_le.mp hoften.begun
  have hsoon := hoften.soon
  refine ⟨?_, ?_⟩
  · rw [h.fires, Tick.goal]
    apply Nat.sub_le_sub_right
    apply Nat.div_le_div_right
    rw [Nat.sub_mul, Nat.one_mul]
    omega
  · rw [h.fires, Tick.goal]
    apply Nat.sub_le_sub_right
    apply Nat.div_le_div_right
    omega

/-- What comes of turns that keep time: none is late, and if they poll often enough, the network
updates keep the pace of `net_tick`. -/
structure KeepsPace (simTick netTick : Tick) (latency work turns : Nat) (s : ServerInstance)
    (updates : Nat) : Prop where
  schedule : OnSchedule simTick turns s.simTick
  lags : ∀ lag ∈ s.simTick.answers, lag = 0
  updates : PollsOften simTick netTick latency work →
    UpdatesOften simTick netTick latency work turns updates

/-- **An instance keeps its pace.**  Every run of its loop is a run of the events of the server,
turn by turn: each turn simulates one frame, and it receives and sends if `net_tick` has passed.  If
the work of a turn fits into an interval, then no turn is late, and after `n` turns there have been
as many network updates as `net_tick` has intervals in the time of `n - 1` turns, without the
first. -/
theorem server_instance_paced {turns : List InstanceTurn}
    (hrun : Run.run (instanceTurn mem settings num) (.begin simTick netTick) turns = .ok s) :
    ∃ answers, TurnsTaken mem settings num (.begin simTick netTick) turns s answers ∧
      ∀ latency work, latency + work ≤ simTick.interval.toNat →
        simTick.last.toNat + turns.length * simTick.interval.toNat < 2 ^ 64 →
        Run.Meets (instanceTurn mem settings num) (OnTime latency work) (.begin simTick netTick)
          turns →
        KeepsPace simTick netTick latency work turns.length s
          ((eventsOf answers turns).countP ServerEvent.isTimeouts) := by
  obtain ⟨answers, htaken⟩ := turns_taken hrun
  refine ⟨answers, htaken, ?_⟩
  intro latency work hbusy hrange htime
  obtain ⟨hstep, hpaced⟩ :=
    (inStep_begin simTick netTick latency).turns hbusy (by rwa [Nat.zero_add]) htime hrun
  rw [Nat.zero_add] at hstep hpaced
  refine ⟨hstep.schedule, hstep.lags, fun hoften => ?_⟩
  have hupdates := htaken.updates
  have hnone : (ServerInstance.begin simTick netTick).netTick.fires = 0 := rfl
  rw [hnone, Nat.zero_add] at hupdates
  rw [← hupdates]
  exact (hpaced hoften (paced_begin hoften)).updatesOften hoften

/-- Two readings that are `n` intervals apart. -/
theorem goal_add_lt {tick : Tick} {n : Nat} {now later : UInt64}
    (hinterval : 0 < tick.interval.toNat) (hlast : tick.last ≤ now)
    (h : now.toNat + (n + 2) * tick.interval.toNat ≤ later.toNat) :
    tick.goal now + n < tick.goal later := by
  have hlast := UInt64.le_iff_toNat_le.mp hlast
  have hdiv : (now.toNat - tick.last.toNat + tick.interval.toNat * (n + 2)) /
      tick.interval.toNat ≤ (later.toNat - tick.last.toNat) / tick.interval.toNat := by
    apply Nat.div_le_div_right
    rw [Nat.mul_comm tick.interval.toNat]
    omega
  rw [Nat.add_mul_div_left _ _ hinterval] at hdiv
  unfold Tick.goal
  generalize (now.toNat - tick.last.toNat) / tick.interval.toNat = before at hdiv ⊢
  omega

/-- **Silent clients leave in time.**  A client that is not heard of for as many turns as take
`client_timeout * net_tick_rate + 3` intervals of `net_tick` is gone, if the turns keep time and
poll often enough. -/
theorem silent_clients_leave_in_time {addr : NetAddr} {past silence : List InstanceTurn}
    {m : ServerInstance} (hbusy : latency + work ≤ simTick.interval.toNat)
    (hoften : PollsOften simTick netTick latency work)
    (hrange :
      simTick.last.toNat + (past.length + silence.length) * simTick.interval.toNat < 2 ^ 64)
    (htime : Run.Meets (instanceTurn mem settings num) (OnTime latency work)
      (.begin simTick netTick) past)
    (hpast : Run.run (instanceTurn mem settings num) (.begin simTick netTick) past = .ok m)
    (htime' : Run.Meets (instanceTurn mem settings num) (OnTime latency work) m silence)
    (hrun : Run.run (instanceTurn mem settings num) m silence = .ok s)
    (hquiet : ∀ t ∈ silence, ∀ packet ∈ t.packets, ¬ SameKey serverClientHm packet.1 addr)
    (hlong : (settings.patience + 3) * netTick.interval.toNat ≤
      silence.length * simTick.interval.toNat) :
    ¬ s.run.server.clients.Stores addr := by
  have hbefore : simTick.last.toNat + (0 + past.length) * simTick.interval.toNat < 2 ^ 64 := by
    rw [Nat.add_mul] at hrange
    rw [Nat.zero_add]
    omega
  obtain ⟨hstep, hpaced⟩ :=
    (inStep_begin simTick netTick latency).turns hbusy hbefore htime hpast
  rw [Nat.zero_add] at hstep hpaced
  obtain ⟨-, hpaced'⟩ := hstep.turns hbusy hrange htime' hrun
  have hm := hpaced hoften (paced_begin hoften)
  have hs := hpaced' hoften hm
  obtain ⟨pastAnswers, hpastTaken⟩ := turns_taken hpast
  obtain ⟨answers, htaken⟩ := turns_taken hrun
  have hapart : m.netTick.clock.toNat + (settings.patience + 2) * netTick.interval.toNat ≤
      s.netTick.clock.toNat := by
    have hleast := hs.least
    have hmost := hm.most
    have hnet := hoften.often
    have hturns : (past.length - 1) * simTick.interval.toNat ≤
        past.length * simTick.interval.toNat := Nat.mul_le_mul_right _ (Nat.sub_le _ _)
    rw [Nat.add_mul] at hlong hleast ⊢
    omega
  have hupdates : settings.patience <
      (eventsOf answers silence).countP ServerEvent.isTimeouts := by
    have hlt := goal_add_lt hoften.positive hm.begun hapart
    rw [← hm.fires, ← hs.fires, htaken.updates] at hlt
    omega
  have hcounters : ∀ e ∈ m.run.server.clients.entries, SameKey serverClientHm e.1 addr →
      ((0 : Nat) : Int) ≤ e.2.timeoutCounter :=
    fun e he _ => counters_nonneg hpastTaken.refines e he
  refine gone_of_silence ?_ htaken.refines hcounters
    (fun hnever => absurd hnever (Nat.not_lt_zero _)) (by omega)
  rintro event hevent ⟨sender, udpBuf, rfl, hsame⟩
  obtain ⟨t, ht, hpacket⟩ := htaken.packets sender udpBuf hevent
  exact hquiet t ht (sender, udpBuf) hpacket hsame

/-! ## A prompt run -/

/-- What is left of `OnTime` when the sleep is exact. -/
def SoonEnough (latency work : Nat) (s : ServerInstance) (t : InstanceTurn) : Prop :=
  s.simTick.clock ≤ t.poll.nanos ∧ s.netTick.clock ≤ t.poll.nanos ∧
    t.poll.nanos ≤ t.wakeup.now.nanos ∧ InTime latency work s.simTick.clock t.wakeup

instance (latency work : Nat) (s : ServerInstance) (t : InstanceTurn) :
    Decidable (SoonEnough latency work s t) :=
  inferInstanceAs (Decidable (_ ∧ _ ∧ _ ∧ _))

/-- Turns that wake exactly and soon enough are on time. -/
theorem meets_onTime {turns : List InstanceTurn} (hexact : ∀ t ∈ turns, t.wakeup.Exact)
    (h : Run.Meets (instanceTurn mem settings num) (SoonEnough latency work) s turns) :
    Run.Meets (instanceTurn mem settings num) (OnTime latency work) s turns := by
  refine Run.meets_mono ?_ (Run.meets_and (Run.meets_of_mem hexact) h)
  rintro s t ⟨hexact, hbegun, hpoll, horder, hin⟩
  exact ⟨hbegun, hpoll, horder, hin.2.1, hin.keepsTime hexact⟩

end

end

/-- A turn that polls and waits at these times. -/
def promptTurn (poll now : UInt64) (answers : List (Option (NetAddr × List UInt8))) :
    InstanceTurn where
  poll := timespecUntil poll
  answers := answers
  wakeup := promptWakeup now

/-- A client may not be silent at all. -/
def impatientSettings : ServerSettings :=
  { serverSettingsDefaults with clientTimeout := 0 }

/-- A client joins when `net_tick` passes for the first time. -/
def joiningTurns : List InstanceTurn :=
  [promptTurn 400 700 [], promptTurn 10400 10700 [], promptTurn 20400 20700 [],
    promptTurn 30400 30700 [some (loopback 40000, joinPacket (cString "a"))]]

def silentTurns : List InstanceTurn :=
  [promptTurn 40400 40700 [], promptTurn 50400 50700 [], promptTurn 60400 60700 [],
    promptTurn 70400 70700 []]

/-- The wakeups of the joining turns are exact. -/
theorem exact_joiningTurns : ∀ t ∈ joiningTurns, t.wakeup.Exact := by
  simp [joiningTurns, promptTurn, exact_promptWakeup]

/-- Every joining turn is on time. -/
theorem meets_joiningTurns :
    Run.Meets (instanceTurn Alloc.unlimited impatientSettings eastward) (OnTime 5 1000)
      (.begin ⟨10000, 100⟩ ⟨12000, 100⟩) joiningTurns := by
  apply meets_onTime exact_joiningTurns
  decide +kernel

/-- The sample's ticks poll often enough. -/
theorem pollsOften_sample : PollsOften ⟨10000, 100⟩ ⟨12000, 100⟩ 5 1000 :=
  ⟨by decide, by decide, by decide, by decide, by decide⟩

/-- Four turns, the last of them with a join: no lag, and the network updates that were due. -/
theorem server_instance_paced_sample : ∃ s answers,
    Run.run (instanceTurn Alloc.unlimited impatientSettings eastward)
        (.begin ⟨10000, 100⟩ ⟨12000, 100⟩) joiningTurns = .ok s ∧
      TurnsTaken Alloc.unlimited impatientSettings eastward (.begin ⟨10000, 100⟩ ⟨12000, 100⟩)
        joiningTurns s answers ∧
      (∀ lag ∈ s.simTick.answers, lag = 0) ∧
      UpdatesOften ⟨10000, 100⟩ ⟨12000, 100⟩ 5 1000 4
        ((eventsOf answers joiningTurns).countP ServerEvent.isTimeouts) := by
  obtain ⟨s, hrun⟩ := Run.exists_ok_of_isSome
    (x := Run.run (instanceTurn Alloc.unlimited impatientSettings eastward)
      (.begin ⟨10000, 100⟩ ⟨12000, 100⟩) joiningTurns) (by decide +kernel)
  obtain ⟨answers, htaken, hpace⟩ := server_instance_paced hrun
  obtain ⟨-, hlags, hupdates⟩ := hpace 5 1000 (by decide) (by decide) meets_joiningTurns
  exact ⟨s, answers, hrun, htaken, hlags, hupdates pollsOften_sample⟩

/-- A client joins, falls silent and is gone after the silent turns. -/
theorem silent_clients_leave_in_time_sample : ∃ m s,
    Run.run (instanceTurn Alloc.unlimited impatientSettings eastward)
        (.begin ⟨10000, 100⟩ ⟨12000, 100⟩) joiningTurns = .ok m ∧
      m.run.server.clients.count = 1 ∧
      Run.run (instanceTurn Alloc.unlimited impatientSettings eastward) m silentTurns = .ok s ∧
      ¬ s.run.server.clients.Stores (loopback 40000) := by
  have h : (do
      let m ← Run.run (instanceTurn Alloc.unlimited impatientSettings eastward)
        (.begin ⟨10000, 100⟩ ⟨12000, 100⟩) joiningTurns
      let _ ← Run.run (instanceTurn Alloc.unlimited impatientSettings eastward) m silentTurns
      return (m.run.server.clients.count,
        decide (Run.Meets (instanceTurn Alloc.unlimited impatientSettings eastward)
          (SoonEnough 5 1000) m silentTurns))) = Except.ok (1, true) := by
    decide +kernel
  obtain ⟨m, hm, h⟩ := bind_eq_ok.mp h
  obtain ⟨s, hs, h⟩ := bind_eq_ok.mp h
  obtain ⟨hcount, hsoon⟩ := Prod.mk.inj (Except.ok.inj h)
  have hexact : ∀ t ∈ silentTurns, t.wakeup.Exact := by
    simp [silentTurns, promptTurn, exact_promptWakeup]
  have hsilent : Run.Meets (instanceTurn Alloc.unlimited impatientSettings eastward) (OnTime 5 1000)
      m silentTurns := meets_onTime hexact (of_decide_eq_true hsoon)
  have hnone : ∀ t ∈ silentTurns, t.packets = [] := by
    simp [silentTurns, promptTurn, InstanceTurn.packets, receivedFrom]
  refine ⟨m, s, hm, hcount, hs, ?_⟩
  refine silent_clients_leave_in_time (by decide) pollsOften_sample (by decide) meets_joiningTurns
    hm hsilent hs ?_ (by decide)
  intro t ht packet hpacket
  rw [hnone t ht] at hpacket
  cases hpacket

end Clither
