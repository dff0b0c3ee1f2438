import Clither.ClientLife

/-!
# An unanswered request

A client that is joining has nothing to send but its request, which is reliable.
It is repeated with every network update, with the frame number of the update,
until it has been resent too often.
-/

namespace Clither

open Faults

variable {mem : Alloc} {num : Numerics} {username : List UInt8}

/-! ## The request -/

/-- The pending request after that many tries. -/
structure IsRequest (username : List UInt8) (tries : Nat) (m : Msg) : Prop where
  type : m.type = .joinRequest
  period : m.resendPeriod = 1
  counter : m.resendPeriodCounter = 1
  retries : m.resendRetryCounter.toNat + tries = 10
  tries_le : tries ≤ 9
  payload : ∃ frame, m.payload = (msgJoinRequest 0 frame username).payload

theorem isRequest_msgJoinRequest (frame : UInt16) :
    IsRequest username 0 (msgJoinRequest 0 frame username) :=
  ⟨rfl, rfl, rfl, rfl, Nat.zero_le _, ⟨frame, rfl⟩⟩

/-- The update writes the frame number where the request has it. -/
theorem payload_msgUpdateFrameNumber {m : Msg} {first frame : UInt16}
    (htype : m.type = .joinRequest)
    (hpayload : m.payload = (msgJoinRequest 0 first username).payload) :
    (msgUpdateFrameNumber m frame).payload = (msgJoinRequest 0 frame username).payload := by
  have hset : (msgUpdateFrameNumber m frame).payload =
      (m.payload.set 2 (frame >>> 8).toUInt8).set 3 frame.toUInt8 := by
    rw [msgUpdateFrameNumber, htype]
  rw [hset, hpayload]
  simp only [msgJoinRequest, msgAlloc, ← List.take_set]
  congr 1

/-- **One try.**  The request is sent with the frame number, and there are at most nine tries. -/
theorem packed_request {frame : UInt16} {pendingMsgs left : Vec msgVec Msg} {buf : List UInt8}
    {tries : Nat} {m : Msg} (hitems : pendingMsgs.items = [m]) (hm : IsRequest username tries m)
    (h : clientPackMsgs frame pendingMsgs = some (buf, left)) :
    buf = msgBytes (msgJoinRequest 0 frame username) ∧
      ∃ m', left.items = [m'] ∧ IsRequest username (tries + 1) m' := by
  have hreliable : m.isReliable = true := by
    rw [Msg.isReliable, hm.period]
    rfl
  have hfits : ¬ ([] : List UInt8).length + m.payload.length + 2 > netMaxUdpPacketSize := by
    have hshort := m.length_lt
    show ¬ 0 + m.payload.length + 2 > 508
    omega
  have hunreliable : appendUnreliableMsgsToBuf [] m = some ([], some m) := by
    simp [appendUnreliableMsgsToBuf, hreliable]
  have hreliableStep : clientAppendReliableMsgsToBuf frame [] m =
      if m.resendRetryCounter - 1 = 0 then none
      else
        let resent := msgUpdateFrameNumber
          { m with resendPeriodCounter := m.resendPeriod,
                   resendRetryCounter := m.resendRetryCounter - 1 } frame
        some (msgBytes resent, some resent) := by
    unfold clientAppendReliableMsgsToBuf
    rw [if_neg hfits, hreliable, hm.counter, if_neg (by decide)]
    dsimp only
    rw [if_neg (by decide)]
    rfl
  have hkept : retainLoop appendUnreliableMsgsToBuf [] [m] = some ([], [m]) := by
    simp [retainLoop, hunreliable]
  have hflush := clientPackMsgs_eq_flush frame pendingMsgs
  rw [h, hitems, flush, retainInPlace_zero, hkept] at hflush
  simp only [Option.map_some, Option.bind_eq_bind, Option.bind_some, retainInPlace_zero,
    retainLoop, hreliableStep] at hflush
  by_cases hlast : m.resendRetryCounter - 1 = 0
  · rw [if_pos hlast] at hflush
    cases hflush
  rw [if_neg hlast] at hflush
  simp only [Option.some.injEq, Prod.mk.injEq, Option.toList_some, List.append_nil] at hflush
  obtain ⟨rfl, hleft⟩ := hflush
  obtain ⟨first, hpayload⟩ := hm.payload
  set resent := msgUpdateFrameNumber { m with
    resendPeriodCounter := m.resendPeriod, resendRetryCounter := m.resendRetryCounter - 1 } frame
    with hresent
  have htype : resent.type = .joinRequest := by
    rw [hresent, type_msgUpdateFrameNumber]
    exact hm.type
  have hsame : resent.payload = (msgJoinRequest 0 frame username).payload :=
    payload_msgUpdateFrameNumber hm.type hpayload
  have hcounters : resent.resendPeriod = m.resendPeriod ∧
      resent.resendPeriodCounter = m.resendPeriod ∧
      resent.resendRetryCounter = m.resendRetryCounter - 1 := by
    rw [hresent]
    unfold msgUpdateFrameNumber
    split <;> exact ⟨rfl, rfl, rfl⟩
  obtain ⟨hperiod, hcounter, hretry⟩ := hcounters
  refine ⟨?_, resent, hleft, ⟨htype, hperiod.trans hm.period, hcounter.trans hm.period, ?_, ?_,
    ⟨frame, hsame⟩⟩⟩
  · simp only [msgBytes, Msg.payloadLen, htype, hsame]
    rfl
  · have hretries := hm.retries
    have htries := hm.tries_le
    have hone : 1 ≤ m.resendRetryCounter := by
      rw [UInt8.le_iff_toNat_le]
      show 1 ≤ m.resendRetryCounter.toNat
      omega
    rw [hretry, UInt8.toNat_sub_of_le _ _ hone]
    show m.resendRetryCounter.toNat - 1 + (tries + 1) = 10
    omega
  · have hretries := hm.retries
    have hmore : m.resendRetryCounter.toNat ≠ 1 := by
      intro hone
      refine hlast ?_
      have heq : m.resendRetryCounter = 1 := UInt8.toNat_inj.mp hone
      rw [heq]
      rfl
    have htries := hm.tries_le
    omega

/-! ## Iterations -/

/-- The frame number of an iteration in which `net_tick` passes. -/
def framesDue (s : ClientInstance) (it : ClientIteration) : List UInt16 :=
  if netDue s it then [s.game.client.frameNumber] else []

/-- A client that has nothing but its request, and has sent it before. -/
structure Asking (username : List UInt8) (s : ClientInstance) : Prop where
  joining : s.game.client.state = .joining
  request : ∃ m, s.game.client.pendingMsgs.items = [m] ∧ IsRequest username s.sent.length m

theorem asking_begin {cfgSimTick cfgNetTick : Timespec} {start : ClientInstance}
    (h : ClientInstance.begin mem username cfgSimTick cfgNetTick = .ok start)
    (hqueued : start.game.client.pendingMsgs.items ≠ []) :
    Asking username start ∧ start.sent = [] := by
  have hgame := game_begin h
  have hsent : start.sent = [] := by
    unfold ClientInstance.begin at h
    dsimp only at h
    split at h
    · cases h
    · split at h
      · cases h
      · cases h
        rfl
  refine ⟨⟨?_, msgJoinRequest 0 0 username, ?_, ?_⟩, hsent⟩
  · rw [hgame]
    rfl
  · rw [hgame] at hqueued ⊢
    have hpending : (ClientGame.begin mem username).client.pendingMsgs =
        vecPush mem vecInit (msgJoinRequest 0 0 username) := rfl
    rw [hpending, items_vecPush] at hqueued ⊢
    split at hqueued
    · next hspace =>
        rw [if_pos hspace]
        rfl
    · exact absurd rfl hqueued
  · rw [hsent]
    exact isRequest_msgJoinRequest 0

/-- **A silent iteration** of a client that is joining sends the request if `net_tick` passes. -/
theorem asking_iteration {s s' : ClientInstance} {it : ClientIteration} (hs : Asking username s)
    (hsilent : it.Silent) (h : clientIteration mem num s it = .ok s') :
    Asking username s' ∧ s'.sent = s.sent ++
      (framesDue s it).map fun frame => msgBytes (msgJoinRequest 0 frame username) := by
  obtain ⟨received, client, world, sent, hsame, hreceived, hsim, hsend, hclient, hlog⟩ :=
    silent_iteration hsilent h
  obtain ⟨m, hitems, hm⟩ := hs.request
  have hidle : ¬ s.game.client.state = .connected := by
    rw [hs.joining]
    decide
  rw [clientSimUpdate, if_neg hidle] at hsim
  cases hsim
  have hlast : Asking username sent ∧ sent.sent = s.sent ++
      (framesDue s it).map fun frame => msgBytes (msgJoinRequest 0 frame username) := by
    unfold ifConnected at hsend
    rw [framesDue]
    by_cases hnet : netDue s it = true
    · have hstate : s.game.client.state ≠ .disconnected := by
        rw [hs.joining]
        decide
      rw [if_pos ⟨hnet, hstate⟩] at hsend
      obtain ⟨⟨client, packet⟩, hpacket, hsend⟩ := bind_eq_ok.mp hsend
      obtain ⟨buf, left, hpack, rfl, -, hbuf⟩ :=
        clientSendPendingData_counted (orFault_eq_ok.mp hpacket)
      obtain ⟨rfl, m', hleft, hm'⟩ := packed_request hitems hm hpack
      have hne : msgBytes (msgJoinRequest 0 s.game.client.frameNumber username) ≠ [] := by
        intro hnil
        cases hnil
      rw [if_neg hne] at hbuf
      subst hbuf
      cases hsend
      rw [if_pos hnet]
      have hsent : received.sent ++
          [msgBytes (msgJoinRequest 0 s.game.client.frameNumber username)] = s.sent ++
            [msgBytes (msgJoinRequest 0 s.game.client.frameNumber username)] := by
        rw [hreceived]
      refine ⟨⟨hs.joining, m', hleft, ?_⟩, hsent⟩
      show IsRequest username (received.sent ++ [_]).length m'
      rw [List.length_append, hreceived]
      exact hm'
    · rw [if_neg (fun hall => hnet hall.1)] at hsend
      cases hsend
      rw [if_neg hnet, List.map_nil, List.append_nil]
      refine ⟨⟨hs.joining, m, hitems, ?_⟩, hreceived⟩
      show IsRequest username received.sent.length m
      rw [hreceived]
      exact hm
  obtain ⟨hasking, hsent⟩ := hlast
  refine ⟨⟨?_, ?_⟩, hlog.trans hsent⟩
  · rw [hclient]
    exact hasking.joining
  · rw [hclient, hlog]
    exact hasking.request

/-- **An unanswered request.**  In any run of the loop in which nothing arrives, the client sends
its request once per network update, with the frame number of the iteration, and nothing else.  It
does not get past nine of them. -/
theorem unanswered_request {cfgSimTick cfgNetTick : Timespec} {start s : ClientInstance}
    {iterations : List ClientIteration}
    (hstart : ClientInstance.begin mem username cfgSimTick cfgNetTick = .ok start)
    (hqueued : start.game.client.pendingMsgs.items ≠ [])
    (hsilent : ∀ it ∈ iterations, it.Silent)
    (hrun : Run.run (clientIteration mem num) start iterations = .ok s) :
    s.game.client.state = .joining ∧
      s.sent = (Run.emitted (clientIteration mem num) framesDue start iterations).map
        (fun frame => msgBytes (msgJoinRequest 0 frame username)) ∧
      (Run.emitted (clientIteration mem num) framesDue start iterations).length ≤ 9 := by
  obtain ⟨hasking, hnothing⟩ := asking_begin hstart hqueued
  have hkeeps (m : ClientInstance) (it : ClientIteration) (m' : ClientInstance)
      (hm : Asking username m) (hit : it.Silent)
      (hok : clientIteration mem num m it = .ok m') :
      Asking username m' ∧ m'.sent = m.sent ++
        (framesDue m it).map fun frame => msgBytes (msgJoinRequest 0 frame username) :=
    asking_iteration hm hit hok
  obtain ⟨hs, hlog⟩ :=
    Run.emitted_run (clientIteration mem num) framesDue hkeeps hasking hsilent hrun
  rw [hnothing, List.nil_append] at hlog
  obtain ⟨m, -, hm⟩ := hs.request
  have htries := hm.tries_le
  rw [hlog, List.length_map] at htries
  exact ⟨hs.joining, hlog, htries⟩

/-- Nothing arrives, and `net_tick` passes in the first and in the last of these. -/
def unansweredIterations : List ClientIteration :=
  [promptIteration 110000000 115000000 none, promptIteration 127000000 130000000 none,
    promptIteration 144000000 147000000 none, promptIteration 161000000 165000000 none]

/-- Two network updates without an answer: the request goes out with frame 0 and again with frame 3.
-/
theorem unanswered_request_sample : ∃ start s : ClientInstance,
    ClientInstance.begin Alloc.unlimited (cString "a") ⟨0, 0⟩ ⟨0, 0⟩ = .ok start ∧
      Run.run (clientIteration Alloc.unlimited eastward) start unansweredIterations = .ok s ∧
      s.sent = [msgBytes (msgJoinRequest 0 0 (cString "a")),
        msgBytes (msgJoinRequest 0 3 (cString "a"))] := by
  have h : (do
      let start ← orTick (ClientInstance.begin Alloc.unlimited (cString "a") ⟨0, 0⟩ ⟨0, 0⟩)
      let _ ← Run.run (clientIteration Alloc.unlimited eastward) start unansweredIterations
      return (start.game.client.pendingMsgs.items.length,
        Run.emitted (clientIteration Alloc.unlimited eastward) framesDue start
          unansweredIterations)) = Except.ok (1, [0, 3]) := by
    decide +kernel
  obtain ⟨start, hstart, h⟩ := bind_eq_ok.mp h
  obtain ⟨s, hs, h⟩ := bind_eq_ok.mp h
  obtain ⟨hone, hframes⟩ := Prod.mk.inj (Except.ok.inj h)
  have hstart := orTick_eq_ok.mp hstart
  have hqueued : start.game.client.pendingMsgs.items ≠ [] := by
    intro hnil
    rw [hnil] at hone
    cases hone
  have hsilent : ∀ it ∈ unansweredIterations, it.Silent := by
    simp [unansweredIterations, promptIteration, ClientIteration.Silent]
  have hsent := (unanswered_request hstart hqueued hsilent hs).2.1
  rw [hframes] at hsent
  exact ⟨start, s, hstart, hs, hsent⟩

end Clither
