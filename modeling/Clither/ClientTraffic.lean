import Clither.ClientLoop
import Clither.CommandsArrive
import Clither.Flush
import Clither.MsgText
import Clither.RemovedSender

/-!
# What a client hears and sends

A client hears of the frame that it continues with, that it has been turned away,
or nothing that concerns joining.  It sends its join request, which is given the
current frame number each time, and its commands, and a server that has a record
of the client never takes offence at these.
-/

namespace Clither

open Faults (bind_eq_ok)

/-- Each message type has its own byte. -/
theorem MsgType.toByte_inj {type type' : MsgType} (h : type.toByte = type'.toByte) :
    type = type' := by
  have hof := congrArg MsgType.ofByte h
  rw [MsgType.ofByte_toByte, MsgType.ofByte_toByte] at hof
  exact Option.some.inj hof

/-! ## Hearing -/

/-- The packet holds a `MSG_JOIN_ACCEPT` with those frame numbers. -/
def Accepts (udpBuf : List UInt8) (clientFrame serverFrame : UInt16) : Prop :=
  ∃ type payload simTickRate netTickRate snakeId spawn, .message type payload ∈ frames udpBuf ∧
    msgParsePayload type payload =
      .ok (.joinAccept simTickRate netTickRate clientFrame serverFrame snakeId spawn)

section

variable {mem : Alloc} {num : Numerics} {p : UInt16 → UInt16 → Prop}

/-- What messages of the server do to a client, as far as joining is concerned. -/
inductive Heard (p : UInt16 → UInt16 → Prop) (client : Client) : Client → Prop where
  | same (timeoutCounter warp : Int) :
      Heard p client { client with timeoutCounter := timeoutCounter, warp := warp }
  | gone {client' : Client} (hstate : client'.state = .disconnected)
      (hpending : client'.pendingMsgs.items = [])
      (hframe : client.state ≠ .joining → client'.frameNumber = client.frameNumber) :
      Heard p client client'
  | joined {client' : Client} {clientFrame serverFrame : UInt16} (hp : p clientFrame serverFrame)
      (hjoining : client.state = .joining)
      (hrtt : (client.frameNumber - clientFrame).toNat ≤ client.netTickRate.toNat * 5)
      (hframe : client'.frameNumber =
        serverFrame + (client.frameNumber - clientFrame) + clientLead client)
      (hstate : client'.state = .connected)
      (hpending : client'.pendingMsgs.items =
        client.pendingMsgs.items.filter fun m => decide (m.type ≠ .joinRequest)) :
      Heard p client client'

/-- Hearing nothing changes nothing. -/
theorem Heard.refl (client : Client) : Heard p client client :=
  .same client.timeoutCounter client.warp

/-- What was heard goes through two steps one after the other. -/
theorem Heard.trans {client client₁ client₂ : Client} (h : Heard p client client₁)
    (h' : Heard p client₁ client₂) : Heard p client client₂ := by
  cases h with
  | same timeoutCounter warp =>
      cases h' with
      | same timeoutCounter' warp' => exact .same timeoutCounter' warp'
      | gone hstate hpending hframe => exact .gone hstate hpending hframe
      | joined hp hjoining hrtt hframe hstate hpending =>
          exact .joined hp hjoining hrtt hframe hstate hpending
  | gone hstate hpending hframe =>
      have hidle : client₁.state ≠ .joining := by
        rw [hstate]
        nofun
      cases h' with
      | same timeoutCounter warp => exact .gone hstate hpending hframe
      | gone hstate' hpending' hframe' =>
          exact .gone hstate' hpending' fun h => (hframe' hidle).trans (hframe h)
      | joined hp hjoining hrtt hframe hstate' hpending' => exact absurd hjoining hidle
  | joined hp hjoining hrtt hframe hstate hpending =>
      cases h' with
      | same timeoutCounter warp => exact .joined hp hjoining hrtt hframe hstate hpending
      | gone hstate' hpending' hframe' => exact .gone hstate' hpending' fun h => absurd hjoining h
      | joined hp' hjoining' hrtt' hframe' hstate' hpending' =>
          rw [hstate] at hjoining'
          cases hjoining'

/-- Hearing queues no message. -/
theorem Heard.pending_subset {client client' : Client} (h : Heard p client client') :
    client'.pendingMsgs.items ⊆ client.pendingMsgs.items := by
  cases h with
  | same timeoutCounter warp => exact List.Subset.refl _
  | gone hstate hpending hframe =>
      rw [hpending]
      exact List.nil_subset _
  | joined hp hjoining hrtt hframe hstate hpending =>
      rw [hpending]
      exact List.filter_subset_self _

/-- An accepted join hears the frames of the message. -/
theorem heard_processJoinAccept {client client' : Client} {world world' : World}
    {simTickRate netTickRate : UInt8} {clientFrame serverFrame snakeId : UInt16} {spawn : QwPos}
    {result : ClientRecvResult} (hp : p clientFrame serverFrame)
    (h : processJoinAccept mem client world simTickRate netTickRate clientFrame serverFrame snakeId
      spawn = .ok (client', world', result)) (herror : result.error = false) :
    Heard p client client' := by
  unfold processJoinAccept at h
  by_cases hstate : client.state ≠ .joining
  · rw [if_pos hstate] at h
    cases h
    exact .refl _
  rw [if_neg hstate] at h
  dsimp only at h
  by_cases hold : (client.frameNumber - clientFrame).toNat > client.netTickRate.toNat * 5
  · rw [if_pos hold] at h
    cases h
    exact .gone rfl rfl fun _ => rfl
  · rw [if_neg hold] at h
    obtain ⟨⟨world₁, status⟩, -, h⟩ := bind_eq_ok.mp h
    dsimp only at h
    by_cases hnew : status ≠ .new
    · rw [if_pos hnew] at h
      cases h
      cases herror
    · rw [if_neg hnew] at h
      cases h
      exact .joined hp (not_not.mp hstate) (Nat.le_of_not_lt hold) rfl rfl
        (items_msgVecRemoveType _ _)

/-- Any message that is no error is heard. -/
theorem heard_processMessage {client client' : Client} {world world' : World} {type : UInt8}
    {payload : List UInt8} {result : ClientRecvResult}
    (hp : ∀ simTickRate netTickRate clientFrame serverFrame snakeId spawn,
      msgParsePayload type payload =
        .ok (.joinAccept simTickRate netTickRate clientFrame serverFrame snakeId spawn) →
      p clientFrame serverFrame)
    (h : clientProcessMessage mem num client world type payload = .ok (client', world', result))
    (herror : result.error = false) : Heard p client client' := by
  unfold clientProcessMessage at h
  split at h
  · next hparse => exact heard_processJoinAccept (hp _ _ _ _ _ _ hparse) h herror
  · cases h
    exact .gone rfl rfl fun _ => rfl
  · cases h
    unfold processFeedback
    split
    · exact .same client.timeoutCounter _
    · exact .refl _
  · obtain ⟨world₁, -, h⟩ := bind_eq_ok.mp h
    cases h
    exact .refl _
  · obtain ⟨⟨world₁, result₁⟩, -, h⟩ := bind_eq_ok.mp h
    cases h
    exact .refl _
  · cases h
    exact .refl _

/-- So are the messages of a datagram, by recursion over it. -/
theorem heard_unpackLoop {fuel : Nat} {udpBuf : List UInt8} {client client' : Client}
    {world world' : World} {result result' : ClientRecvResult}
    (hp : ∀ type payload, .message type payload ∈ framesLoop fuel udpBuf →
      ∀ simTickRate netTickRate clientFrame serverFrame snakeId spawn,
        msgParsePayload type payload =
          .ok (.joinAccept simTickRate netTickRate clientFrame serverFrame snakeId spawn) →
        p clientFrame serverFrame)
    (h : clientUnpackLoop mem num fuel udpBuf client world result = .ok (client', world', result'))
    (herror : result'.error = false) : Heard p client client' := by
  induction fuel generalizing udpBuf client world result with
  | zero =>
      cases h
      exact .refl _
  | succ fuel ih =>
      match udpBuf with
      | [] =>
          cases h
          exact .refl _
      | [_] =>
          cases h
          exact .refl _
      | type :: msgLen :: rest =>
          rw [clientUnpackLoop] at h
          rw [framesLoop] at hp
          by_cases hlong : msgLen.toNat > rest.length
          · rw [if_pos hlong] at h
            cases h
            exact .refl _
          rw [if_neg hlong] at h hp
          obtain ⟨⟨client₁, world₁, r⟩, hmessage, h⟩ := bind_eq_ok.mp h
          dsimp only at h
          have hone (hr : r.error = false) : Heard p client client₁ :=
            heard_processMessage (hp _ _ List.mem_cons_self) hmessage hr
          by_cases hstop : (clientRecvResultCombine result r).error ||
              (clientRecvResultCombine result r).disconnected
          · rw [if_pos hstop] at h
            cases h
            exact hone (Bool.or_eq_false_iff.mp herror).2
          · rw [if_neg hstop] at h
            have hgood : (clientRecvResultCombine result r).error = false := by
              cases hcombined : (clientRecvResultCombine result r).error with
              | false => rfl
              | true => simp [hcombined] at hstop
            exact (hone (Bool.or_eq_false_iff.mp hgood).2).trans
              (ih (fun type payload hmem => hp type payload (List.mem_cons_of_mem _ hmem)) h)

/-- **What a packet of the server does to a client.** -/
theorem heard_clientRecv {client client' : Client} {world world' : World} {udpBuf : List UInt8}
    {result : ClientRecvResult}
    (h : clientRecv mem num client world (some udpBuf) = .ok (client', world', result))
    (herror : result.error = false) : Heard (Accepts udpBuf) client client' := by
  cases udpBuf with
  | nil =>
      cases h
      exact .refl _
  | cons byte rest =>
      exact Heard.trans (.same 0 client.warp) (heard_unpackLoop
        (fun type payload hmem _ _ _ _ _ _ hparse =>
          ⟨type, payload, _, _, _, _, hmem, hparse⟩) h herror)

end

/-! ## Requests -/

/-- The packet holds a join request with that frame number. -/
def Requests (udpBuf : List UInt8) (clientFrame : UInt16) : Prop :=
  ∃ type payload usernameLen, .message type payload ∈ frames udpBuf ∧
    msgKind type payload = .join clientFrame usernameLen

/-- A request that has been updated carries the frame number of the update. -/
theorem join_msgUpdateFrameNumber {m : Msg} {frameNumber clientFrame : UInt16} {usernameLen : UInt8}
    (htype : m.type = .joinRequest)
    (h : msgKind m.type.toByte (msgUpdateFrameNumber m frameNumber).payload =
      .join clientFrame usernameLen) : clientFrame = frameNumber := by
  have hpayload : (msgUpdateFrameNumber m frameNumber).payload =
      (m.payload.set 2 (frameNumber >>> 8).toUInt8).set 3 frameNumber.toUInt8 := by
    rw [msgUpdateFrameNumber, htype]
  rw [htype, hpayload, msgKind, msgParsePayload, MsgType.ofByte_toByte] at h
  dsimp only at h
  split at h
  · next hparse =>
      cases h
      by_cases hshort : ((m.payload.set 2 (frameNumber >>> 8).toUInt8).set 3
          frameNumber.toUInt8).length < 6
      · rw [if_pos hshort] at hparse
        cases hparse
      · cases of_ite_error (of_ite_error (of_ite_error (of_ite_error hparse)))
        rw [List.length_set, List.length_set] at hshort
        have h2 : 2 < m.payload.length := by omega
        have h3 : 3 < m.payload.length := by omega
        rw [payload16, payloadAt, payloadAt]
        simp only [List.getD_eq_getElem?_getD, List.getElem?_set, List.length_set, h2, h3]
        exact read16_bytes16 frameNumber
  · cases h
  · split at h <;> cases h
  · cases h

/-- Restamping keeps the type. -/
theorem type_msgUpdateFrameNumber (m : Msg) (frameNumber : UInt16) :
    (msgUpdateFrameNumber m frameNumber).type = m.type := by
  unfold msgUpdateFrameNumber
  split <;> rfl

/-- What the client sends are requests with its current frame number, if they
were pending as reliable messages. -/
theorem requests_of_clientPackMsgs {frameNumber clientFrame : UInt16}
    {pendingMsgs left : Vec msgVec Msg} {buf : List UInt8}
    (hreliable : ∀ m ∈ pendingMsgs.items, m.type = .joinRequest → m.isReliable = true)
    (hpack : clientPackMsgs frameNumber pendingMsgs = some (buf, left))
    (h : Requests buf clientFrame) :
    clientFrame = frameNumber ∧ ∃ m ∈ pendingMsgs.items, m.type = .joinRequest := by
  obtain ⟨type, payload, usernameLen, hframe, hkind⟩ := h
  obtain ⟨m, hm, ⟨hunreliable, hsame⟩ | ⟨-, hsame⟩⟩ := (clientPackMsgs_flushed hpack).mem_frames hframe
  · cases hsame
    have htype : m.type = .joinRequest := MsgType.toByte_inj (type_of_join hkind)
    rw [hreliable m hm htype] at hunreliable
    cases hunreliable
  · cases hsame
    have htype : m.type = .joinRequest :=
      (type_msgUpdateFrameNumber m.resend frameNumber).symm.trans
        (MsgType.toByte_inj (type_of_join hkind))
    rw [type_msgUpdateFrameNumber] at hkind
    exact ⟨@join_msgUpdateFrameNumber m.resend _ _ _ htype hkind, m, hm, htype⟩

/-! ## Commands -/

/-- The message is a `MSG_COMMANDS` that was packed from a queue. -/
def Msg.IsChunk (m : Msg) : Prop :=
  ∃ uninit cmdq first sendCount, 0 < sendCount ∧ sendCount ≤ 100 ∧ sendCount ≤ cmdq.count ∧
    packChunk uninit cmdq first sendCount = .ok m

/-- A chunk is a command message. -/
theorem Msg.IsChunk.type_eq {m : Msg} (h : m.IsChunk) : m.type = .commands := by
  obtain ⟨uninit, cmdq, first, sendCount, -, -, -, hpack⟩ := h
  obtain ⟨payload, rfl⟩ := msg_of_packChunk hpack
  rfl

/-- Every message of the chain is a chunk. -/
theorem isChunk_of_msgCommandsLoop {uninit : Nat → Nat → UInt8} {cmdq : CmdQueue}
    {turns sendIdx : Nat} {first : UInt16} {msgs msgs' : List Msg}
    (h : msgCommandsLoop uninit cmdq turns sendIdx first msgs = .ok msgs')
    (hmsgs : ∀ m ∈ msgs, m.IsChunk) : ∀ m ∈ msgs', m.IsChunk := by
  induction turns generalizing sendIdx first msgs with
  | zero =>
      cases h
      exact hmsgs
  | succ turns ih =>
      rw [msgCommandsLoop] at h
      by_cases hmore : sendIdx < cmdq.count
      · rw [if_pos hmore] at h
        obtain ⟨m, hpack, h⟩ := bind_eq_ok.mp h
        refine ih h ?_
        intro m' hm'
        rcases List.mem_append.mp hm' with hold | hnew
        · exact hmsgs m' hold
        · rw [List.mem_singleton.mp hnew]
          refine ⟨uninit sendIdx, cmdq, first, _, ?_, ?_, ?_, hpack⟩ <;> split <;> omega
      · rw [if_neg hmore] at h
        cases h
        exact hmsgs

section

variable {mem : Alloc} {num : Numerics}

/-- What is pushed was there or is one of the messages. -/
theorem mem_foldl_vecPush {msgs : List Msg} {v : Vec msgVec Msg} {m : Msg}
    (h : m ∈ (msgs.foldl (vecPush mem) v).items) : m ∈ v.items ∨ m ∈ msgs := by
  induction msgs generalizing v with
  | nil => exact Or.inl h
  | cons m' rest ih =>
      rcases ih h with hv | hrest
      · rcases mem_vecPush hv with hold | rfl
        · exact Or.inl hold
        · exact Or.inr List.mem_cons_self
      · exact Or.inr (List.mem_cons_of_mem _ hrest)

/-- The simulation of the own snake only queues commands. -/
theorem clientSimUpdate_spec {uninit : Nat → Nat → UInt8} {client client' : Client}
    {world world' : World} {command : Cmd} {netUpdate : Bool}
    (h : clientSimUpdate mem num uninit client world command netUpdate = .ok (client', world')) :
    ∃ pendingMsgs, client' = { client with pendingMsgs := pendingMsgs } ∧
      ∀ m ∈ pendingMsgs.items, m ∈ client.pendingMsgs.items ∨ m.IsChunk := by
  unfold clientSimUpdate at h
  by_cases hconnected : client.state = .connected
  · rw [if_pos hconnected] at h
    obtain ⟨snake, -, h⟩ := bind_eq_ok.mp h
    obtain ⟨snake', -, h⟩ := bind_eq_ok.mp h
    dsimp only at h
    by_cases hnet : netUpdate = true
    · rw [if_pos hnet] at h
      obtain ⟨msgs, hmsgs, h⟩ := bind_eq_ok.mp h
      cases h
      refine ⟨_, rfl, fun m hm => ?_⟩
      rcases mem_foldl_vecPush hm with hold | hnew
      · exact Or.inl hold
      · exact Or.inr (isChunk_of_msgCommandsLoop hmsgs nofun m hnew)
    · rw [if_neg hnet] at h
      cases h
      exact ⟨_, rfl, fun m hm => Or.inl hm⟩
  · rw [if_neg hconnected] at h
    cases h
    exact ⟨_, rfl, fun m hm => Or.inl hm⟩

end

/-- `client_send_pending_data` keeps what the packing left. -/
theorem clientSendPendingData_packed {client client' : Client} {packet : Option (List UInt8)}
    (h : clientSendPendingData client = .ok (client', packet)) :
    ∃ buf left timeoutCounter, clientPackMsgs client.frameNumber client.pendingMsgs = some (buf, left) ∧
      client' = { client with pendingMsgs := left, timeoutCounter := timeoutCounter } ∧
      ∀ udpBuf ∈ packet, udpBuf = buf := by
  unfold clientSendPendingData at h
  cases hpack : clientPackMsgs client.frameNumber client.pendingMsgs with
  | none =>
      rw [hpack] at h
      cases h
  | some packed =>
      obtain ⟨buf, left⟩ := packed
      rw [hpack] at h
      dsimp only at h
      by_cases hempty : buf = []
      · simp only [if_pos hempty] at h
        split at h
        · cases h
        · cases h
          exact ⟨buf, left, _, rfl, rfl, nofun⟩
      · simp only [if_neg hempty] at h
        split at h
        · cases h
        · cases h
          refine ⟨buf, left, _, rfl, rfl, ?_⟩
          rintro _ ⟨⟩
          rfl

/-! ## Harmless messages -/

/-- A server does not remove the sender for the message. -/
def Msg.Harmless (m : Msg) : Prop :=
  m.frame.dropsSender = false

/-- A chunk is long enough for its actions and its changes. -/
theorem commandsStatus_chunk {payload : List UInt8} {first : UInt16} {c : Cmd} {rest : List Cmd}
    (h : ChunkPayload payload first c rest) (hlen : rest.length < 100) :
    commandsStatus payload = 0 := by
  have hnumber : (payloadAt payload 2).toNat = rest.length := by
    rw [h.count, UInt8.toNat_ofNat']
    exact Nat.mod_eq_of_lt (by show _ < 2 ^ 8; omega)
  unfold commandsStatus
  simp only [hnumber]
  by_cases hsingle : rest.length = 0
  · rw [if_pos hsingle]
  · have hbounds := nextByte_bounds (8 * 5 + 3 + (actionsBits c rest).length)
    have hskip := skipActions_eq h.actions (by rw [h.length_eq]; omega)
    rw [if_neg hsingle, hskip]
    simp only [h.length_eq]
    rw [if_neg (by omega)]

/-- Every chunk of commands is well formed, whatever the commands are. -/
theorem Msg.IsChunk.harmless {m : Msg} (h : m.IsChunk) : m.Harmless := by
  have htype := h.type_eq
  obtain ⟨uninit, cmdq, first, sendCount, hpos, hle, hcount, hpack⟩ := h
  obtain ⟨n, rfl⟩ : ∃ n, sendCount = n + 1 := ⟨sendCount - 1, by omega⟩
  rw [← cmdq.length_commands] at hcount
  obtain ⟨c, rest, hcommands⟩ : ∃ c rest, cmdq.commands = c :: rest := by
    cases hcommands : cmdq.commands with
    | nil =>
        rw [hcommands, List.length_nil] at hcount
        omega
    | cons c rest => exact ⟨c, rest, rfl⟩
  have hlength : (rest.take n).length = n := by
    rw [hcommands, List.length_cons] at hcount
    rw [List.length_take]
    omega
  obtain ⟨m', hpack', hpayload⟩ := @packChunk_spec uninit cmdq first c (rest.take n) (rest.drop n)
    (by rw [hcommands, List.take_append_drop]) (by omega)
  rw [hlength, hpack] at hpack'
  cases hpack'
  have hbounds := nextByte_bounds (8 * 5 + 3 + (actionsBits c (rest.take n)).length)
  have hsize : ¬ m.payload.length < 6 := by
    rw [hpayload.length_eq]
    omega
  have hkind : msgKind m.type.toByte m.payload = .commands := by
    rw [htype, msgKind, msgParsePayload, MsgType.ofByte_toByte]
    simp only [if_neg hsize]
  rw [Msg.Harmless, Msg.frame, Frame.dropsSender, hkind]
  exact decide_eq_false (not_not.mpr (commandsStatus_chunk hpayload (by omega)))

/-- Writing one byte keeps the others. -/
theorem payloadAt_set {payload : List UInt8} {i j : Nat} (hne : i ≠ j) (byte : UInt8) :
    payloadAt (payload.set i byte) j = payloadAt payload j := by
  rw [payloadAt, payloadAt, List.getD_eq_getElem?_getD, List.getD_eq_getElem?_getD,
    List.getElem?_set_ne hne]

/-- Only the frame number of a request is overwritten. -/
theorem parse_update {payload : List UInt8} {protocolVersion frame : UInt16} {usernameLen : UInt8}
    {username : List UInt8} (hi lo : UInt8)
    (h : msgParsePayload MsgType.joinRequest.toByte payload =
      .ok (.joinRequest protocolVersion frame usernameLen username)) :
    ∃ frame' username', msgParsePayload MsgType.joinRequest.toByte ((payload.set 2 hi).set 3 lo) =
      .ok (.joinRequest protocolVersion frame' usernameLen username') := by
  have hkeep (i : Nat) (h2 : 2 ≠ i) (h3 : 3 ≠ i) :
      payloadAt ((payload.set 2 hi).set 3 lo) i = payloadAt payload i := by
    rw [payloadAt_set h3, payloadAt_set h2]
  have hend := hkeep (5 + (payloadAt payload 4).toNat) (by omega) (by omega)
  have hversion : payload16 ((payload.set 2 hi).set 3 lo) 0 = payload16 payload 0 := by
    rw [payload16, hkeep 0 (by decide) (by decide), hkeep 1 (by decide) (by decide)]
    rfl
  rw [msgParsePayload, MsgType.ofByte_toByte] at h ⊢
  simp only [List.length_set, hkeep 4 (by decide) (by decide), hend, hversion] at h ⊢
  by_cases hshort : payload.length < 6
  · rw [if_pos hshort] at h
    cases h
  rw [if_neg hshort] at h ⊢
  by_cases hnoname : payloadAt payload 4 = 0
  · rw [if_pos hnoname] at h
    cases h
  rw [if_neg hnoname] at h ⊢
  by_cases hlong : 5 + (payloadAt payload 4).toNat + 1 > payload.length
  · rw [if_pos hlong] at h
    cases h
  rw [if_neg hlong] at h ⊢
  by_cases hnul : payloadAt payload (5 + (payloadAt payload 4).toNat) ≠ 0
  · rw [if_pos hnul] at h
    cases h
  rw [if_neg hnul] at h ⊢
  cases h
  exact ⟨_, _, rfl⟩

/-- A message stays harmless when it is given another frame number. -/
theorem Msg.Harmless.update {m : Msg} (h : m.Harmless) (frameNumber : UInt16) :
    (msgUpdateFrameNumber m frameNumber).Harmless := by
  by_cases htype : m.type = .joinRequest
  · have hpayload : (msgUpdateFrameNumber m frameNumber).payload =
        (m.payload.set 2 (frameNumber >>> 8).toUInt8).set 3 frameNumber.toUInt8 := by
      rw [msgUpdateFrameNumber, htype]
    rw [Msg.Harmless, Msg.frame, Frame.dropsSender] at h ⊢
    rw [type_msgUpdateFrameNumber, hpayload, htype]
    rw [htype] at h
    rcases kind_of_join_type m.payload rfl with ⟨clientFrame, usernameLen, hkind⟩ | hkind
    · unfold msgKind at hkind
      split at hkind
      · next hparse =>
          obtain ⟨frame', username', hparse'⟩ :=
            parse_update (frameNumber >>> 8).toUInt8 frameNumber.toUInt8 hparse
          rw [msgKind, hparse']
      · cases hkind
      · split at hkind <;> cases hkind
      · cases hkind
    · rw [hkind] at h
      cases h
  · have hsame : msgUpdateFrameNumber m frameNumber = m := by
      unfold msgUpdateFrameNumber
      split
      · next hjoin => exact absurd hjoin htype
      · rfl
    rw [hsame]
    exact h

/-- A request is accepted if the name is not empty and the message fits into 255 bytes. -/
theorem harmless_msgJoinRequest {username : List UInt8} (hname : username ≠ [])
    (hshort : username.length < 250) (protocolVersion frame : UInt16) :
    (msgJoinRequest protocolVersion frame username).Harmless := by
  obtain ⟨-, hparse⟩ := parse_msgJoinRequest protocolVersion frame hname (by omega)
  have htype : (msgJoinRequest protocolVersion frame username).type = .joinRequest := rfl
  rw [Msg.Harmless, Msg.frame, Frame.dropsSender, htype, msgKind, hparse]

/-- **A client with harmless messages sends harmless packets.** -/
theorem harmless_clientPackMsgs {frameNumber : UInt16} {pendingMsgs left : Vec msgVec Msg}
    {buf : List UInt8} (h : ∀ m ∈ pendingMsgs.items, m.Harmless)
    (hpack : clientPackMsgs frameNumber pendingMsgs = some (buf, left)) :
    (∀ m ∈ left.items, m.Harmless) ∧ ∀ f ∈ frames buf, f.dropsSender = false := by
  have hflushed := clientPackMsgs_flushed hpack
  constructor
  · intro m' hm'
    obtain ⟨m, hm, rfl | rfl | rfl⟩ := hflushed.mem_left hm'
    · exact h m' hm
    · exact h m hm
    · exact @Msg.Harmless.update m.resend (h m hm) frameNumber
  · intro f hf
    obtain ⟨m, hm, ⟨-, rfl⟩ | ⟨-, rfl⟩⟩ := hflushed.mem_frames hf
    · exact h m hm
    · exact @Msg.Harmless.update m.resend (h m hm) frameNumber

end Clither
