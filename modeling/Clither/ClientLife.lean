import Clither.ClientPace

/-!
# The life of a client

A client that has been accepted works on a snake of its own until it ends, and
as long as memory lasts each of its network updates is a packet for the server.
A server that does not answer is therefore noticed after three seconds' worth of
network updates.
-/

namespace Clither

open Faults

variable {mem : Alloc} {num : Numerics}

/-! ## The own snake in a packet -/

/-- A connected client stays connected until it disconnects. -/
theorem connected_clientProcessMessage {client client' : Client} {world world' : World}
    {type : UInt8} {payload : List UInt8} {r : ClientRecvResult}
    (hconnected : client.state = .connected)
    (h : clientProcessMessage mem num client world type payload = .ok (client', world', r))
    (hstays : r.disconnected = false) : client'.state = .connected := by
  have hidle : client.state ≠ .joining := by
    rw [hconnected]
    decide
  unfold clientProcessMessage at h
  split at h
  · rw [processJoinAccept, if_pos hidle] at h
    cases h
    exact hconnected
  · cases h
    cases hstays
  · cases h
    unfold processFeedback
    split <;> exact hconnected
  · obtain ⟨world₁, -, h⟩ := bind_eq_ok.mp h
    cases h
    exact hconnected
  · obtain ⟨⟨world₁, r₁⟩, -, h⟩ := bind_eq_ok.mp h
    cases h
    exact hconnected
  · cases h
    exact hconnected

/-- A connected client that has its snake. -/
def Playing (client : Client) (world : World) : Prop :=
  client.state = .connected ∧ client.snakeId ∈ bmapKeys world

/-- No message takes the own snake away, except for one that disconnects. -/
theorem playing_clientProcessMessage {client client' : Client} {world world' : World}
    {type : UInt8} {payload : List UInt8} {r : ClientRecvResult} (hplaying : Playing client world)
    (h : clientProcessMessage mem num client world type payload = .ok (client', world', r))
    (hstays : r.disconnected = false) : Playing client' world' := by
  have hsound : ClientGame.Sound ⟨client, world, true⟩ := ⟨fun _ => hplaying.2, nofun⟩
  have hconnected := connected_clientProcessMessage hplaying.1 h hstays
  exact ⟨hconnected, (hsound.message h).own hconnected⟩

/-- So a packet finds it at each of its messages. -/
theorem avoids_clientUnpackLoop {fuel : Nat} {udpBuf : List UInt8} {client : Client} {world : World}
    {result : ClientRecvResult} (hplaying : Playing client world) :
    Avoids Fault.nullSnake (clientUnpackLoop mem num fuel udpBuf client world result) := by
  induction fuel generalizing udpBuf client world result with
  | zero => exact avoids_ok _
  | succ fuel ih =>
      match udpBuf with
      | [] => exact avoids_ok _
      | [_] => exact avoids_ok _
      | type :: msgLen :: rest =>
          rw [clientUnpackLoop]
          refine avoids_ite (fun _ => avoids_ok _) fun _ => ?_
          refine (avoids_clientProcessMessage fun _ => hplaying.2).bind fun handled hmsg => ?_
          obtain ⟨client₁, world₁, r⟩ := handled
          refine avoids_ite (fun _ => avoids_pure _) fun hgoOn => ?_
          have hstays : r.disconnected = false := by
            simp only [clientRecvResultCombine, Bool.or_eq_true, not_or, Bool.not_eq_true] at hgoOn
            exact hgoOn.2.2
          exact ih (playing_clientProcessMessage hplaying hmsg hstays)

/-- And so does what is received. -/
theorem avoids_clientRecv {packet : Option (List UInt8)} {client : Client} {world : World}
    (hplaying : Playing client world) :
    Avoids Fault.nullSnake (clientRecv mem num client world packet) := by
  unfold clientRecv
  split
  · exact avoids_ok _
  · exact avoids_ok _
  · exact avoids_clientUnpackLoop hplaying

/-! ## The own snake in an iteration -/

/-- A fault that a function avoids does not end the loop. -/
theorem avoids_orFault {α : Type} {f : Fault} {x : Except Fault α} (h : Avoids f x) :
    Avoids (InstanceEnd.fault f) (orFault x) := by
  cases x with
  | ok a => exact avoids_ok a
  | error f' =>
      intro heq
      cases heq
      exact h rfl

/-- The ticks have faults of their own. -/
theorem avoids_orTick {α : Type} (f : Fault) (x : Except TickFault α) :
    Avoids (InstanceEnd.fault f) (orTick x) := by
  cases x with
  | ok a => exact avoids_ok a
  | error f' => nofun

section

variable {s s' : ClientInstance} {it : ClientIteration} {netUpdate : Bool}

/-- A client whose own snake is there whenever it is needed. -/
def ClientInstance.Equipped (s : ClientInstance) : Prop :=
  s.game.client.state ≠ .joining ∧
    (s.game.client.state = .connected → s.game.client.snakeId ∈ bmapKeys s.game.world)

/-- An equipped client that is connected has its snake. -/
theorem ClientInstance.Equipped.playing (hs : s.Equipped)
    (hconnected : s.game.client.state ≠ .disconnected) : Playing s.game.client s.game.world := by
  cases hstate : s.game.client.state with
  | disconnected => exact absurd hstate hconnected
  | joining => exact absurd hstate hs.1
  | connected => exact ⟨hstate, hs.2 hstate⟩

/-- Receiving does not miss the own snake. -/
theorem avoids_iterationRecv (hs : s.Equipped) (hconnected : s.game.client.state ≠ .disconnected) :
    Avoids (InstanceEnd.fault .nullSnake) (iterationRecv mem num it s) := by
  refine (avoids_orFault (avoids_clientRecv (hs.playing hconnected))).bind fun received _ => ?_
  obtain ⟨client, world, r⟩ := received
  refine avoids_ite (fun _ => nofun) fun _ => ?_
  unfold matchTickRates
  refine avoids_ite (fun _ => ?_) fun _ => avoids_ok _
  exact (avoids_orTick _ _).bind fun _ _ => (avoids_orTick _ _).bind fun _ _ => avoids_pure _

/-- Sending does not need it. -/
theorem avoids_iterationSend :
    Avoids (InstanceEnd.fault .nullSnake) (iterationSend s) :=
  (avoids_orFault (avoids_clientSendPendingData _)).bind fun _ _ => avoids_pure _

/-- Nor does waiting. -/
theorem avoids_iterationWait :
    Avoids (InstanceEnd.fault .nullSnake) (iterationWait it s) := by
  refine (avoids_orTick _ _).bind fun _ _ => ?_
  exact avoids_ite (fun _ => nofun) fun _ => avoids_pure _

/-- Receiving keeps a client equipped. -/
theorem equipped_iterationRecv (hsound : s.game.Sound) (hs : s.Equipped)
    (h : iterationRecv mem num it s = .ok s') : s'.Equipped := by
  obtain ⟨events, hrun, -⟩ := run_iterationRecv h
  have hsound' : s'.game.Sound :=
    Run.run_invariant (fun _ _ _ hm _ hok => ClientGame.Sound.event hm hok) hsound
      (Run.meets_of_forall (fun _ _ => trivial) _ _) hrun
  exact ⟨(beforeWait_recv hs.1 h).state, hsound'.own⟩

/-- **One iteration** does not miss the own snake, whatever arrives. -/
theorem avoids_clientIteration (hsound : s.game.Sound) (hs : s.Equipped) :
    Avoids (InstanceEnd.fault .nullSnake) (clientIteration mem num s it) := by
  refine (avoids_orTick _ _).bind fun polled _ => ?_
  refine Avoids.bind ?_ fun received hrecv => ?_
  · exact avoids_ite (fun hdue => avoids_iterationRecv hs hdue.2) fun _ => avoids_ok _
  have hreceived : received.Equipped := by
    unfold ifConnected at hrecv
    split at hrecv
    · exact equipped_iterationRecv (s := { s with netTick := polled.1 }) hsound hs hrecv
    · cases hrecv
      exact hs
  refine (avoids_orFault (avoids_clientSimUpdate hreceived.2 _ _ _)).bind fun simulated _ => ?_
  refine Avoids.bind ?_ fun _ _ => avoids_iterationWait
  exact avoids_ite (fun _ => avoids_iterationSend) fun _ => avoids_ok _

end

/-- **The loop and its snake.**  Every run of the client's loop is a run of its events.  A client
that has been answered finds its own snake in every further iteration, whatever the bytes of the
packet. -/
theorem own_snake_lasts {username : List UInt8} {cfgSimTick cfgNetTick : Timespec}
    {start s : ClientInstance} {iterations : List ClientIteration}
    (hstart : ClientInstance.begin mem username cfgSimTick cfgNetTick = .ok start)
    (hrun : Run.run (clientIteration mem num) start iterations = .ok s) :
    (∃ events, IterationsTaken mem num start iterations s events) ∧
      (s.game.client.state = .connected → s.game.client.snakeId ∈ bmapKeys s.game.world) ∧
      (s.game.client.state ≠ .joining → ∀ it,
        clientIteration mem num s it ≠ .error (.fault .nullSnake)) := by
  obtain ⟨events, htaken⟩ := iterations_taken hrun
  have hsound : s.game.Sound := by
    refine Run.run_invariant (fun _ _ _ hm _ hok => ClientGame.Sound.event hm hok) ?_
      (Run.meets_of_forall (fun _ _ => trivial) _ _) htaken.refines
    rw [game_begin hstart]
    exact ClientGame.sound_begin mem username
  refine ⟨⟨events, htaken⟩, hsound.own, ?_⟩
  intro hjoined it
  exact avoids_clientIteration hsound ⟨hjoined, hsound.own⟩

/-- A client is accepted, and its snake stays. -/
theorem own_snake_lasts_sample : ∃ start s : ClientInstance,
    ClientInstance.begin Alloc.unlimited (cString "a") ⟨0, 0⟩ ⟨0, 0⟩ = .ok start ∧
      Run.run (clientIteration Alloc.unlimited eastward) start acceptedIterations = .ok s ∧
      s.game.client.snakeId ∈ bmapKeys s.game.world ∧
      ∀ it, clientIteration Alloc.unlimited eastward s it ≠ .error (.fault .nullSnake) := by
  have h : (do
      let start ← orTick (ClientInstance.begin Alloc.unlimited (cString "a") ⟨0, 0⟩ ⟨0, 0⟩)
      let s ← Run.run (clientIteration Alloc.unlimited eastward) start acceptedIterations
      return s.game.client.state) = Except.ok .connected := by
    decide +kernel
  obtain ⟨start, hstart, h⟩ := bind_eq_ok.mp h
  obtain ⟨s, hs, h⟩ := bind_eq_ok.mp h
  have hstart := orTick_eq_ok.mp hstart
  have hconnected := Except.ok.inj h
  obtain ⟨-, hown, hfinds⟩ := own_snake_lasts hstart hs
  have hjoined : s.game.client.state ≠ .joining := by
    rw [hconnected]
    decide
  exact ⟨start, s, hstart, hs, hown hconnected, hfinds hjoined⟩

/-! ## What waits for the server -/

/-- What a client has to send: its request while it is joining, and otherwise nothing that is sent
again. -/
structure Client.Tidy (client : Client) : Prop where
  requests : ∀ m ∈ client.pendingMsgs.items, m.isReliable = true → m.type = .joinRequest
  joining : ∀ m ∈ client.pendingMsgs.items, m.type = .joinRequest → client.state = .joining
  counted : 0 ≤ client.timeoutCounter

/-- Once connected, a client has nothing to resend. -/
theorem Client.Tidy.unreliable {client : Client} (h : client.Tidy)
    (hconnected : client.state = .connected) :
    ∀ m ∈ client.pendingMsgs.items, m.isReliable = false := by
  intro m hm
  cases hreliable : m.isReliable with
  | false => rfl
  | true =>
      have hjoining := h.joining m hm (h.requests m hm hreliable)
      rw [hconnected] at hjoining
      cases hjoining

/-- At first there is only the join request. -/
theorem Client.tidy_begin (username : List UInt8) :
    (ClientGame.begin mem username).client.Tidy where
  requests := by
    intro m hm _
    rcases mem_vecPush hm with hnil | rfl
    · cases hnil
    · rfl
  joining := fun _ _ _ => rfl
  counted := Int.le_refl 0

/-- The simulation only queues commands, which are not resent. -/
theorem Client.Tidy.simulate {client client' : Client} {world world' : World} (h : client.Tidy)
    {uninit : Nat → Nat → UInt8} {command : Cmd} {netUpdate : Bool}
    (hok : clientSimUpdate mem num uninit client world command netUpdate =
      .ok (client', world')) : client'.Tidy := by
  obtain ⟨pendingMsgs, rfl, hpending⟩ := clientSimUpdate_spec hok
  refine ⟨?_, ?_, h.counted⟩
  · intro m hm hreliable
    rcases hpending m hm with hold | ⟨_, _, _, _, -, -, -, hpack⟩
    · exact h.requests m hold hreliable
    · obtain ⟨payload, rfl⟩ := msg_of_packChunk hpack
      cases hreliable
  · intro m hm htype
    rcases hpending m hm with hold | hchunk
    · exact h.joining m hold htype
    · rw [hchunk.type_eq] at htype
      cases htype

/-- A packet is counted until something is heard. -/
theorem clientSendPendingData_counted {client client' : Client} {packet : Option (List UInt8)}
    (h : clientSendPendingData client = .ok (client', packet)) :
    ∃ buf left, clientPackMsgs client.frameNumber client.pendingMsgs = some (buf, left) ∧
      client' = { client with
        pendingMsgs := left
        timeoutCounter := client.timeoutCounter + packet.toList.length } ∧
      client'.timeoutCounter ≤ (client.netTickRate.toNat : Int) * 3 ∧
      packet = if buf = [] then none else some buf := by
  unfold clientSendPendingData at h
  cases hpack : clientPackMsgs client.frameNumber client.pendingMsgs with
  | none =>
      rw [hpack] at h
      cases h
  | some packed =>
      obtain ⟨buf, left⟩ := packed
      rw [hpack] at h
      dsimp only at h
      refine ⟨buf, left, rfl, ?_⟩
      by_cases hempty : buf = []
      · simp only [if_pos hempty] at h ⊢
        split at h
        · cases h
        next hearly =>
        cases h
        exact ⟨by simp, Int.not_lt.mp hearly, rfl⟩
      · simp only [if_neg hempty] at h ⊢
        split at h
        · cases h
        next hearly =>
        cases h
        exact ⟨by simp, Int.not_lt.mp hearly, rfl⟩

/-- Sending does not queue anything. -/
theorem Client.Tidy.send {client client' : Client} {packet : Option (List UInt8)} (h : client.Tidy)
    (hok : clientSendPendingData client = .ok (client', packet)) : client'.Tidy := by
  obtain ⟨buf, left, hpack, rfl, -, -⟩ := clientSendPendingData_counted hok
  have hleft (m' : Msg) (hm' : m' ∈ left.items) : ∃ m ∈ client.pendingMsgs.items,
      m'.type = m.type ∧ m'.isReliable = m.isReliable := by
    obtain ⟨m, hm, rfl | rfl | rfl⟩ := (clientPackMsgs_flushed hpack).mem_left hm'
    · exact ⟨_, hm, rfl, rfl⟩
    · exact ⟨m, hm, rfl, rfl⟩
    · refine ⟨m, hm, type_msgUpdateFrameNumber _ _, ?_⟩
      unfold msgUpdateFrameNumber
      split <;> rfl
  refine ⟨?_, ?_, ?_⟩
  · intro m' hm' hreliable
    obtain ⟨m, hm, htype, hsame⟩ := hleft m' hm'
    rw [htype]
    exact h.requests m hm (hsame.symm.trans hreliable)
  · intro m' hm' hrequest
    obtain ⟨m, hm, htype, -⟩ := hleft m' hm'
    exact h.joining m hm (htype.symm.trans hrequest)
  · have hcounted := h.counted
    show 0 ≤ client.timeoutCounter + packet.toList.length
    omega

/-- Messages do not touch the timeout counter. -/
theorem counted_clientProcessMessage {client client' : Client} {world world' : World} {type : UInt8}
    {payload : List UInt8} {result : ClientRecvResult}
    (hok : clientProcessMessage mem num client world type payload =
      .ok (client', world', result)) : client'.timeoutCounter = client.timeoutCounter := by
  unfold clientProcessMessage at hok
  split at hok
  · unfold processJoinAccept at hok
    split at hok
    · cases hok
      rfl
    · dsimp only at hok
      split at hok
      · cases hok
        rfl
      · obtain ⟨⟨world₁, status⟩, -, hok⟩ := bind_eq_ok.mp hok
        dsimp only at hok
        split at hok <;>
        · cases hok
          rfl
  · cases hok
    rfl
  · cases hok
    unfold processFeedback
    split <;> rfl
  · obtain ⟨world₁, -, hok⟩ := bind_eq_ok.mp hok
    cases hok
    rfl
  · obtain ⟨⟨world₁, r₁⟩, -, hok⟩ := bind_eq_ok.mp hok
    cases hok
    rfl
  · cases hok
    rfl

/-- A message that is not an error leaves the client tidy. -/
theorem Client.Tidy.message {client client' : Client} {world world' : World} {type : UInt8}
    {payload : List UInt8} {result : ClientRecvResult} (h : client.Tidy)
    (hok : clientProcessMessage mem num client world type payload = .ok (client', world', result))
    (herror : result.error = false) : client'.Tidy := by
  have hcounted := counted_clientProcessMessage hok ▸ h.counted
  cases @heard_processMessage mem num (fun _ _ => True) _ _ _ _ _ _ _
    (fun _ _ _ _ _ _ _ => trivial) hok herror with
  | same timeoutCounter warp => exact ⟨h.requests, h.joining, hcounted⟩
  | gone hstate hpending hframe =>
      refine ⟨?_, ?_, hcounted⟩
      · intro m hm
        rw [hpending] at hm
        cases hm
      · intro m hm
        rw [hpending] at hm
        cases hm
  | joined hp hjoining hrtt hframe hstate hpending =>
      refine ⟨?_, ?_, hcounted⟩
      · intro m hm
        rw [hpending] at hm
        exact h.requests m (List.mem_of_mem_filter hm)
      · intro m hm hrequest
        rw [hpending] at hm
        exact absurd hrequest (by simpa using (List.mem_filter.mp hm).2)

/-- **One event** leaves the client tidy. -/
theorem Client.Tidy.event {s s' : ClientGame} {e : GameEvent} (h : s.client.Tidy)
    (hok : gameEvent mem num s e = .ok s') : s'.client.Tidy := by
  cases e with
  | packet =>
      cases hok
      exact ⟨h.requests, h.joining, Int.le_refl 0⟩
  | message type payload =>
      obtain ⟨⟨client, world, result⟩, hmsg, hok⟩ := bind_eq_ok.mp hok
      dsimp only at hok
      split at hok
      · cases hok
      next hgood =>
      cases hok
      exact h.message hmsg (Bool.eq_false_of_not_eq_true hgood)
  | simulate uninit command netUpdate =>
      obtain ⟨⟨client, world⟩, hsim, hok⟩ := bind_eq_ok.mp hok
      cases hok
      exact h.simulate hsim
  | send =>
      obtain ⟨⟨client, packet⟩, hsend, hok⟩ := bind_eq_ok.mp hok
      cases hok
      exact h.send hsend
  | nextFrame =>
      cases hok
      exact ⟨h.requests, h.joining, h.counted⟩

/-! ## A network update of a connected client -/

/-- After a put the queue is not empty. -/
theorem cmdQueuePut_pos (cmdq : CmdQueue) (command : Cmd) (frameNumber : UInt16) :
    0 < (cmdQueuePut Alloc.unlimited cmdq command frameNumber).count := by
  by_cases hpos : 0 < cmdq.count
  · unfold cmdQueuePut
    split
    · exact hpos
    · dsimp only
      rcases rbPutRealloc_spec Alloc.unlimited cmdq.rb command with
        ⟨-, hnone⟩ | ⟨-, rb, hsome, hlist⟩
      · rw [hnone]
        exact hpos
      · rw [hsome, ← CmdQueue.length_commands, CmdQueue.commands, hlist]
        simp
  · have hspace : rbHasSpace Alloc.unlimited cmdq.rb = true := by
      have hzero : rbCount cmdq.rb = 0 := Nat.eq_zero_of_not_pos hpos
      rw [rbHasSpace_unlimited, hzero]
      rfl
    obtain ⟨hcommands, -⟩ := @cmdQueuePut_next Alloc.unlimited cmdq command frameNumber
      (fun h => absurd h hpos) hspace
    rw [← CmdQueue.length_commands, hcommands]
    simp

/-- Packing adds messages. -/
theorem length_msgCommandsLoop {uninit : Nat → Nat → UInt8} {cmdq : CmdQueue} {turns sendIdx : Nat}
    {first : UInt16} {msgs msgs' : List Msg}
    (h : msgCommandsLoop uninit cmdq turns sendIdx first msgs = .ok msgs') :
    msgs.length ≤ msgs'.length := by
  induction turns generalizing sendIdx first msgs with
  | zero =>
      cases h
      exact Nat.le_refl _
  | succ turns ih =>
      rw [msgCommandsLoop] at h
      split at h
      · obtain ⟨m, -, h⟩ := bind_eq_ok.mp h
        have hlater := ih h
        rw [List.length_append, List.length_singleton] at hlater
        omega
      · cases h
        exact Nat.le_refl _

/-- A queue that is not empty is packed into at least one. -/
theorem msgCommands_ne_nil {uninit : Nat → Nat → UInt8} {cmdq : CmdQueue} {msgs : List Msg}
    (hpos : 0 < cmdq.count) (h : msgCommands uninit [] cmdq = .ok msgs) : msgs ≠ [] := by
  obtain ⟨turns, hturns⟩ := Nat.exists_eq_succ_of_ne_zero (Nat.ne_of_gt hpos)
  rw [msgCommands, hturns, Nat.succ_eq_add_one, msgCommandsLoop, if_pos hpos] at h
  obtain ⟨m, -, h⟩ := bind_eq_ok.mp h
  have hlength := length_msgCommandsLoop h
  rw [List.nil_append, List.length_singleton] at hlength
  exact List.ne_nil_of_length_pos hlength

/-- With memory, what is pushed is there. -/
theorem foldl_vecPush_ne_nil {msgs : List Msg} {v : Vec msgVec Msg}
    (h : v.items ≠ [] ∨ msgs ≠ []) : (msgs.foldl (vecPush Alloc.unlimited) v).items ≠ [] := by
  induction msgs generalizing v with
  | nil => exact h.resolve_right (fun hne => hne rfl)
  | cons m rest ih =>
      refine ih (Or.inl ?_)
      rw [items_vecPush, vecHasSpace_unlimited]
      split
      · simp
      · next hfull =>
          intro hnil
          rw [hnil] at hfull
          exact hfull rfl

/-- The commands of the own snake are pending. -/
theorem pending_clientSimUpdate {uninit : Nat → Nat → UInt8} {client client' : Client}
    {world world' : World} {command : Cmd} (hconnected : client.state = .connected)
    (h : clientSimUpdate Alloc.unlimited num uninit client world command true =
      .ok (client', world')) : client'.pendingMsgs.items ≠ [] := by
  rw [clientSimUpdate, if_pos hconnected] at h
  obtain ⟨snake, -, h⟩ := bind_eq_ok.mp h
  obtain ⟨snake', hstep, h⟩ := bind_eq_ok.mp h
  obtain ⟨msgs, hmsgs, h⟩ := bind_eq_ok.mp h
  cases h
  refine foldl_vecPush_ne_nil (Or.inr (msgCommands_ne_nil ?_ hmsgs))
  obtain ⟨stepped, -, hstep⟩ := bind_eq_ok.mp hstep
  obtain ⟨data, -, hstep⟩ := bind_eq_ok.mp hstep
  cases hstep
  exact cmdQueuePut_pos _ _ _

/-- The first pending message fits into the packet. -/
theorem packed_ne_nil {frameNumber : UInt16} {pendingMsgs left : Vec msgVec Msg} {buf : List UInt8}
    (hne : pendingMsgs.items ≠ []) (hunreliable : ∀ m ∈ pendingMsgs.items, m.isReliable = false)
    (h : clientPackMsgs frameNumber pendingMsgs = some (buf, left)) : buf ≠ [] := by
  obtain ⟨fates, hpending, hfates, -, hreceived⟩ := (clientPackMsgs_flushed h).fates
  rintro rfl
  rw [← hpending] at hne hunreliable
  cases fates with
  | nil => exact hne rfl
  | cons first rest =>
      obtain ⟨m, fate⟩ := first
      have hfate := hfates [] m fate rest rfl
      have hfits : ¬ 0 + m.wireLen > netMaxUdpPacketSize := by
        have hshort := m.length_lt
        show ¬ 0 + (m.payload.length + 2) > 508
        omega
      have hsent : fate = .sent := by
        rw [hfate, fateOf, hunreliable m List.mem_cons_self, if_neg (by decide)]
        exact if_neg hfits
      rw [receivedFrames_eq, hsent] at hreceived
      cases hreceived

/-! ## Silence of the server -/

/-- What `net_tick` returns in an iteration, as a number of network updates. -/
def netUpdates (s : ClientInstance) (it : ClientIteration) : Int :=
  if netDue s it then 1 else 0

/-- Nothing arrives. -/
def ClientIteration.Silent (it : ClientIteration) : Prop :=
  ∀ udpBuf ∈ it.packet, udpBuf = []

/-- A connected client that has heard nothing since `start`. -/
structure Unheeded (start client : Client) : Prop where
  connected : client.state = .connected
  tidy : client.Tidy
  rate : client.netTickRate = start.netTickRate
  inTime : client.timeoutCounter = start.timeoutCounter ∨
    client.timeoutCounter ≤ (start.netTickRate.toNat : Int) * 3

section

variable {start client client' : Client} {s s' : ClientInstance} {it : ClientIteration}

/-- A frame of a client that hears nothing leaves its counter. -/
theorem unheeded_simulate {world world' : World} {uninit : Nat → Nat → UInt8} {command : Cmd}
    {netUpdate : Bool} (h : Unheeded start client)
    (hok : clientSimUpdate mem num uninit client world command netUpdate = .ok (client', world')) :
    Unheeded start client' ∧ client'.timeoutCounter = client.timeoutCounter := by
  have htidy := h.tidy.simulate hok
  obtain ⟨pendingMsgs, rfl, -⟩ := clientSimUpdate_spec hok
  exact ⟨⟨h.connected, htidy, h.rate, h.inTime⟩, rfl⟩

/-- Sending counts, and there is one packet. -/
theorem unheeded_send {packet : Option (List UInt8)} (h : Unheeded start client)
    (hpending : client.pendingMsgs.items ≠ [])
    (hok : clientSendPendingData client = .ok (client', packet)) :
    Unheeded start client' ∧ client'.timeoutCounter = client.timeoutCounter + 1 ∧
      packet.toList.length = 1 := by
  have htidy := h.tidy.send hok
  obtain ⟨buf, left, hpack, rfl, hinTime, hpacket⟩ := clientSendPendingData_counted hok
  have hne := packed_ne_nil hpending (h.tidy.unreliable h.connected) hpack
  rw [if_neg hne] at hpacket
  subst hpacket
  rw [h.rate] at hinTime
  exact ⟨⟨h.connected, htidy, h.rate, Or.inr hinTime⟩, rfl, rfl⟩

/-- Where nothing arrives, nothing changes. -/
theorem recv_silent (hsilent : it.Silent) (h : iterationRecv mem num it s = .ok s') :
    s'.game.client = s.game.client ∧ s'.sent = s.sent := by
  have hnothing : clientRecv mem num s.game.client s.game.world it.packet =
      .ok (s.game.client, s.game.world, clientRecvOk) := by
    cases hpacket : it.packet with
    | none => rfl
    | some udpBuf =>
        rw [hsilent udpBuf hpacket]
        rfl
  obtain ⟨⟨client, world, r⟩, hrecv, h⟩ := bind_eq_ok.mp h
  rw [hnothing] at hrecv
  cases hrecv
  cases h
  exact ⟨rfl, rfl⟩

/-- A silent iteration simulates, sends and waits. -/
theorem silent_iteration (hsilent : it.Silent) (h : clientIteration mem num s it = .ok s') :
    ∃ (received : ClientInstance) (client : Client) (world : World) (sent : ClientInstance),
      received.game.client = s.game.client ∧
      received.sent = s.sent ∧
      clientSimUpdate mem num it.uninit s.game.client received.game.world it.command
        (netDue s it) = .ok (client, world) ∧
      ifConnected (netDue s it)
          { received with game := { received.game with client := client, world := world } }
          iterationSend = .ok sent ∧
      s'.game.client = clientNextFrame sent.game.client ∧ s'.sent = sent.sent := by
  obtain ⟨polled, hpolled, h⟩ := bind_eq_ok.mp h
  obtain ⟨received, hrecv, h⟩ := bind_eq_ok.mp h
  obtain ⟨⟨client, world⟩, hsim, h⟩ := bind_eq_ok.mp h
  obtain ⟨sent, hsend, hend⟩ := bind_eq_ok.mp h
  obtain ⟨waited, hwait, hend⟩ := bind_eq_ok.mp hend
  rw [netDue_of_polled (orTick_eq_ok.mp hpolled)]
  obtain ⟨hclient, hlog⟩ : received.game.client = s.game.client ∧ received.sent = s.sent := by
    unfold ifConnected at hrecv
    split at hrecv
    · exact recv_silent (s := { s with netTick := polled.1 }) hsilent hrecv
    · cases hrecv
      exact ⟨rfl, rfl⟩
  have hsim := orFault_eq_ok.mp hsim
  rw [hclient] at hsim
  refine ⟨received, client, world, sent, hclient, hlog, hsim, hsend, ?_⟩
  dsimp only at hend
  split at hend
  · cases hend
  · cases hend
    exact ⟨rfl, rfl⟩

/-- **A silent iteration** is counted if `net_tick` passes, and then a packet is sent. -/
theorem unheeded_iteration (hs : Unheeded start s.game.client) (hsilent : it.Silent)
    (h : clientIteration Alloc.unlimited num s it = .ok s') :
    Unheeded start s'.game.client ∧
      s'.game.client.timeoutCounter = s.game.client.timeoutCounter + netUpdates s it ∧
      (s'.sent.length : Int) = s.sent.length + netUpdates s it := by
  obtain ⟨received, client, world, sent, -, hreceived, hsim, hsend, hclient, hlog⟩ :=
    silent_iteration hsilent h
  obtain ⟨hsimulated, hcounter⟩ := unheeded_simulate hs hsim
  have hlast : Unheeded start sent.game.client ∧
      sent.game.client.timeoutCounter = s.game.client.timeoutCounter + netUpdates s it ∧
      (sent.sent.length : Int) = s.sent.length + netUpdates s it := by
    unfold ifConnected at hsend
    rw [netUpdates]
    by_cases hnet : netDue s it = true
    · have hstate : client.state ≠ .disconnected := by
        rw [hsimulated.connected]
        decide
      rw [if_pos ⟨hnet, hstate⟩] at hsend
      rw [hnet] at hsim
      obtain ⟨⟨client₁, packet⟩, hpacket, hsend⟩ := bind_eq_ok.mp hsend
      obtain ⟨hunheeded, hone, hlength⟩ := unheeded_send hsimulated
        (pending_clientSimUpdate hs.connected hsim) (orFault_eq_ok.mp hpacket)
      cases hsend
      rw [if_pos hnet]
      refine ⟨hunheeded, by rw [hone, hcounter], ?_⟩
      dsimp only
      rw [List.length_append, hlength, hreceived]
      rfl
    · rw [if_neg (fun hall => hnet hall.1)] at hsend
      cases hsend
      rw [if_neg hnet, Int.add_zero, Int.add_zero, hreceived]
      exact ⟨hsimulated, hcounter, rfl⟩
  obtain ⟨hunheeded, hlastCounter, hlength⟩ := hlast
  rw [hclient, hlog]
  exact ⟨⟨hunheeded.connected,
    ⟨hunheeded.tidy.requests, hunheeded.tidy.joining, hunheeded.tidy.counted⟩,
    hunheeded.rate, hunheeded.inTime⟩, hlastCounter, hlength⟩

end

/-- **A silent server is noticed.**  Take a client that is connected in some run of the loop, with
memory to spare, and any iterations from there on in which nothing arrives.  Each network update
sends one packet, and each packet is counted, so that the client ends before it has gone through
more than three seconds' worth of network updates. -/
theorem silent_server_noticed {username : List UInt8} {cfgSimTick cfgNetTick : Timespec}
    {start s s' : ClientInstance} {past iterations : List ClientIteration}
    (hstart : ClientInstance.begin Alloc.unlimited username cfgSimTick cfgNetTick = .ok start)
    (hpast : Run.run (clientIteration Alloc.unlimited num) start past = .ok s)
    (hconnected : s.game.client.state = .connected)
    (hsilent : ∀ it ∈ iterations, it.Silent)
    (hrun : Run.run (clientIteration Alloc.unlimited num) s iterations = .ok s') :
    (s'.sent.length : Int) = s.sent.length +
        Run.total (clientIteration Alloc.unlimited num) netUpdates s iterations ∧
      s'.game.client.timeoutCounter = s.game.client.timeoutCounter +
        Run.total (clientIteration Alloc.unlimited num) netUpdates s iterations ∧
      Run.total (clientIteration Alloc.unlimited num) netUpdates s iterations ≤
        (s.game.client.netTickRate.toNat : Int) * 3 := by
  obtain ⟨events, htaken⟩ := iterations_taken hpast
  have htidy : s.game.client.Tidy := by
    refine @Run.run_invariant _ _ _ _ (fun g : ClientGame => g.client.Tidy) _
      (fun _ _ _ hm _ hok => Client.Tidy.event hm hok) _ _ _ ?_
      (Run.meets_of_forall (fun _ _ => trivial) _ _) htaken.refines
    rw [game_begin hstart]
    exact Client.tidy_begin username
  have hs : Unheeded s.game.client s.game.client := ⟨hconnected, htidy, rfl, Or.inl rfl⟩
  have hkeepsCounter (m : ClientInstance) (it : ClientIteration) (m' : ClientInstance)
      (hm : Unheeded s.game.client m.game.client) (hit : it.Silent)
      (hok : clientIteration Alloc.unlimited num m it = .ok m') :
      Unheeded s.game.client m'.game.client ∧
        m'.game.client.timeoutCounter ≡
          m.game.client.timeoutCounter + 0 + 1 * netUpdates m it [ZMOD 0] := by
    obtain ⟨hm', hcounter, -⟩ := unheeded_iteration hm hit hok
    exact ⟨hm', Int.modEq_zero_iff.mpr (by rw [hcounter]; ring)⟩
  have hkeepsLog (m : ClientInstance) (it : ClientIteration) (m' : ClientInstance)
      (hm : Unheeded s.game.client m.game.client) (hit : it.Silent)
      (hok : clientIteration Alloc.unlimited num m it = .ok m') :
      Unheeded s.game.client m'.game.client ∧
        (m'.sent.length : Int) ≡ m.sent.length + 0 + 1 * netUpdates m it [ZMOD 0] := by
    obtain ⟨hm', -, hlength⟩ := unheeded_iteration hm hit hok
    exact ⟨hm', Int.modEq_zero_iff.mpr (by rw [hlength]; ring)⟩
  obtain ⟨hs', hcounter⟩ := Run.potential_run hkeepsCounter hs hsilent hrun
  obtain ⟨-, hlength⟩ := Run.potential_run hkeepsLog hs hsilent hrun
  have hcounter := Int.modEq_zero_iff.mp hcounter
  have hlength := Int.modEq_zero_iff.mp hlength
  have hstarted := htidy.counted
  refine ⟨by linarith, by linarith, ?_⟩
  rcases hs'.inTime with hsame | hinTime <;> omega

/-- `net_tick` passes in the first of these. -/
def lonelyIterations : List ClientIteration :=
  [promptIteration 220000000 230000000 none, promptIteration 230000000 240000000 none]

/-- A lonely network update counts one. -/
theorem silent_server_noticed_sample : ∃ start s s' : ClientInstance,
    ClientInstance.begin Alloc.unlimited (cString "a") ⟨0, 0⟩ ⟨0, 0⟩ = .ok start ∧
      Run.run (clientIteration Alloc.unlimited eastward) start acceptedIterations = .ok s ∧
      Run.run (clientIteration Alloc.unlimited eastward) s lonelyIterations = .ok s' ∧
      s'.game.client.timeoutCounter = s.game.client.timeoutCounter + 1 := by
  have h : (do
      let start ← orTick (ClientInstance.begin Alloc.unlimited (cString "a") ⟨0, 0⟩ ⟨0, 0⟩)
      let s ← Run.run (clientIteration Alloc.unlimited eastward) start acceptedIterations
      let _ ← Run.run (clientIteration Alloc.unlimited eastward) s lonelyIterations
      return (s.game.client.state, Run.total (clientIteration Alloc.unlimited eastward)
        netUpdates s lonelyIterations)) = Except.ok (.connected, 1) := by
    decide +kernel
  obtain ⟨start, hstart, h⟩ := bind_eq_ok.mp h
  obtain ⟨s, hs, h⟩ := bind_eq_ok.mp h
  obtain ⟨s', hs', h⟩ := bind_eq_ok.mp h
  obtain ⟨hconnected, htotal⟩ := Prod.mk.inj (Except.ok.inj h)
  have hstart := orTick_eq_ok.mp hstart
  have hsilent : ∀ it ∈ lonelyIterations, it.Silent := by
    simp [lonelyIterations, promptIteration, ClientIteration.Silent]
  have hnoticed := (silent_server_noticed hstart hs hconnected hsilent hs').2.1
  rw [htotal] at hnoticed
  exact ⟨start, s, s', hstart, hs, hs', hnoticed⟩

end Clither
