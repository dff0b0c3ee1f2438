import Clither.ClientTraffic
import Clither.MsgRoundTrip
import Clither.ServerSteps

/-!
# Joining at the right frame

A client that joins sends its frame number, the server sends it back with its
own, and from the two the client finds the frame that it continues with.  In the
meantime both sides count on, requests and answers are delayed, lost, duplicated
and reordered, and each repeated request carries a new frame number.

Each `MSG_JOIN_ACCEPT` can be traced back to a request that has arrived: it holds
the frame of the client in which that request was sent and the frame of the
server in which it arrived.  This provenance is kept by every step, and
`join_synchronised` follows from it.
-/

namespace Clither

open Faults (bind_eq_ok)

/-! ## Answers -/

/-- If the message is a `MSG_JOIN_ACCEPT`, then its frame numbers are related by `p`. -/
def Msg.AcceptsOnly (p : UInt16 → UInt16 → Prop) (m : Msg) : Prop :=
  ∀ simTickRate netTickRate clientFrame serverFrame snakeId spawn,
    msgParsePayload m.type.toByte m.payload =
      .ok (.joinAccept simTickRate netTickRate clientFrame serverFrame snakeId spawn) →
    p clientFrame serverFrame

theorem acceptsOnly_of_type (p : UInt16 → UInt16 → Prop) {m : Msg} (h : m.type ≠ .joinAccept) :
    m.AcceptsOnly p := by
  intro simTickRate netTickRate clientFrame serverFrame snakeId spawn hparse
  exact absurd (MsgType.toByte_inj (byte_of_msgParsePayload hparse).symm) h

theorem acceptsOnly_msgJoinAccept {p : UInt16 → UInt16 → Prop} {clientFrame serverFrame : UInt16}
    (h : p clientFrame serverFrame) (simTickRate netTickRate : UInt8) (snakeId : UInt16)
    (spawn : QwPos) :
    (msgJoinAccept simTickRate netTickRate clientFrame serverFrame snakeId spawn).AcceptsOnly p := by
  intro _ _ cf sf _ _ hparse
  have htype : (msgJoinAccept simTickRate netTickRate clientFrame serverFrame snakeId spawn).type =
      .joinAccept := rfl
  rw [htype, parse_msgJoinAccept_spawn] at hparse
  cases hparse
  exact h

/-! ## The server -/

section

variable {mem : Alloc} {settings : ServerSettings} {num : Numerics} {event : ServerEvent}
  {frame : UInt16} {start : Server} {addr : NetAddr} {p : UInt16 → UInt16 → Prop}

/-- Whatever the server has told that address, or is about to, are pairs of frame
numbers with `p`. -/
structure Answers (addr : NetAddr) (p : UInt16 → UInt16 → Prop) (s : Server) : Prop where
  pending : AllClients (fun a record => a = addr → ∀ m ∈ record.pendingMsgs.items, m.AcceptsOnly p) s
  sent : ∀ udpBuf, (addr, udpBuf) ∈ s.sent → ∀ clientFrame serverFrame,
    Accepts udpBuf clientFrame serverFrame → p clientFrame serverFrame

theorem Answers.mono {q : UInt16 → UInt16 → Prop} {s : Server} (h : Answers addr p s)
    (himp : ∀ clientFrame serverFrame, p clientFrame serverFrame → q clientFrame serverFrame) :
    Answers addr q s where
  pending := fun e he ha m hm _ _ _ _ _ _ hparse =>
    himp _ _ (h.pending e he ha m hm _ _ _ _ _ _ hparse)
  sent := fun udpBuf hsent _ _ haccepts => himp _ _ (h.sent udpBuf hsent _ _ haccepts)

theorem acceptsOnly_of_push {record : ServerClient} {m : Msg}
    (h : ∀ m ∈ record.pendingMsgs.items, m.AcceptsOnly p) (hm : m.AcceptsOnly p) :
    ∀ m' ∈ (serverQueue mem record m).pendingMsgs.items, m'.AcceptsOnly p := by
  intro m' hm'
  rcases mem_vecPush hm' with hold | rfl
  · exact h m' hold
  · exact hm

/-- Counting down does not change what a message says. -/
theorem acceptsOnly_of_left {pendingMsgs left : Vec msgVec Msg} {buf : List UInt8}
    (h : ∀ m ∈ pendingMsgs.items, m.AcceptsOnly p) (hpack : packMsgs pendingMsgs = some (buf, left)) :
    ∀ m ∈ left.items, m.AcceptsOnly p := by
  intro m' hm'
  obtain ⟨m, hm, rfl | rfl | rfl⟩ := (packMsgs_flushed hpack).mem_left hm'
  · exact h m' hm
  · exact h m hm
  · exact h m hm

theorem accepts_of_packMsgs {pendingMsgs left : Vec msgVec Msg} {buf : List UInt8}
    (h : ∀ m ∈ pendingMsgs.items, m.AcceptsOnly p) (hpack : packMsgs pendingMsgs = some (buf, left))
    {clientFrame serverFrame : UInt16} (haccepts : Accepts buf clientFrame serverFrame) :
    p clientFrame serverFrame := by
  obtain ⟨type, payload, simTickRate, netTickRate, snakeId, spawn, hframe, hparse⟩ := haccepts
  obtain ⟨m, hm, ⟨-, hsame⟩ | ⟨-, hsame⟩⟩ := (packMsgs_flushed hpack).mem_frames hframe
  · cases hsame
    exact h m hm _ _ _ _ _ _ hparse
  · cases hsame
    exact h m hm _ _ _ _ _ _ hparse

/-- A client is told the frame of a request and the current one. -/
theorem answers_record {s : Server} {slot : Nat} {a : NetAddr} {record record' : ServerClient}
    (hasks : ∀ clientFrame usernameLen, AsksToJoin event addr clientFrame usernameLen →
      p clientFrame frame)
    (h : a = addr → ∀ m ∈ record.pendingMsgs.items, m.AcceptsOnly p)
    (hstep : RecordStep mem settings event frame s slot a record record') :
    a = addr → ∀ m ∈ record'.pendingMsgs.items, m.AcceptsOnly p := by
  rintro rfl
  have h := h rfl
  cases hstep with
  | heard hevent => exact h
  | counted hevent => exact h
  | accepted hask hsnake =>
      exact acceptsOnly_of_push h (acceptsOnly_msgJoinAccept (hasks _ _ hask) _ _ _ _)
  | commands lastFrame commandsQueued => exact h
  | feedback diff => exact acceptsOnly_of_push h (acceptsOnly_of_type p nofun)
  | head hsnake => exact acceptsOnly_of_push h (acceptsOnly_of_type p nofun)
  | @entered _ other snake otherSnake prox hevent hother hsnake hotherSnake hinside hemplace =>
      unfold queueBezierHandles
      generalize rbIndexed otherSnake.data.bezierHandles = handles
      have hentered : ∀ m ∈ ({ record with snakesInProximity := prox } : ServerClient).pendingMsgs.items,
          m.AcceptsOnly p := h
      generalize ({ record with snakesInProximity := prox } : ServerClient) = entered at hentered
      induction handles generalizing entered with
      | nil => exact hentered
      | cons x rest ih =>
          exact ih _ (acceptsOnly_of_push hentered (acceptsOnly_of_type p nofun))
  | left hother hkey => exact acceptsOnly_of_push h (acceptsOnly_of_type p nofun)
  | handle hentry hpending hsnake hhandle =>
      exact acceptsOnly_of_push h (acceptsOnly_of_type p nofun)
  | packed hevent hpack => exact acceptsOnly_of_left h hpack

/-- A denial is no answer. -/
theorem type_of_joinDenial {count : Nat} {usernameLen : UInt8} {m : Msg}
    (h : joinDenial settings count usernameLen = some m) : m.type ≠ .joinAccept := by
  unfold joinDenial at h
  split at h
  · cases h
    nofun
  · split at h
    · cases h
      nofun
    · cases h

/-- **The server only answers requests that have arrived.** -/
theorem ServerStep.answers {s s' : Server}
    (hasks : ∀ clientFrame usernameLen, AsksToJoin event addr clientFrame usernameLen →
      p clientFrame frame)
    (hs : Answers addr p s) (h : ServerStep mem settings num event frame start s s') :
    Answers addr p s' where
  pending := h.allClients (fun _ _ _ => nofun) (fun _ _ _ _ hrecord hstep =>
    answers_record hasks hrecord hstep) (fun _ _ _ _ _ hrecord hpack ha =>
      acceptsOnly_of_left (hrecord ha) hpack) hs.pending
  sent := by
    intro udpBuf hsent clientFrame serverFrame haccepts
    cases h with
    | record hcell hsteps => exact hs.sent udpBuf hsent _ _ haccepts
    | sent hevent hcell hpack =>
        rcases List.mem_append.mp hsent with hold | hnew
        · exact hs.sent udpBuf hold _ _ haccepts
        · cases List.mem_singleton.mp hnew
          exact accepts_of_packMsgs (hs.pending.of_cell hcell rfl) hpack haccepts
    | @denied _ _ _ m hasks' hdenial =>
        rcases List.mem_append.mp hsent with hold | hnew
        · exact hs.sent udpBuf hold _ _ haccepts
        · cases List.mem_singleton.mp hnew
          obtain ⟨type, payload, simTickRate, netTickRate, snakeId, spawn, hframe, hparse⟩ := haccepts
          have hframes : frames (msgBytes m) = [m.frame] := by
            have hone := frames_bytesOf [m]
            rwa [bytesOf, List.flatMap_singleton] at hone
          rw [hframes] at hframe
          cases List.mem_singleton.mp hframe
          exact acceptsOnly_of_type p (type_of_joinDenial hdenial) _ _ _ _ _ _ hparse
    | joined hasks' hclients hworld hdenial hcreate =>
        obtain ⟨clients, world, snake, -, -, -, rfl⟩ := createClient_ok hcreate
        exact hs.sent udpBuf hsent _ _ haccepts
    | removed hcell hsame hreason hremove =>
        obtain ⟨s₁, hok, -, -, -, -, -, hkept⟩ := clientRemove_of_cell hcell hsame
        cases hok.symm.trans hremove
        rw [hkept] at hsent
        exact hs.sent udpBuf hsent _ _ haccepts
    | commands payload hcell hsnake => exact hs.sent udpBuf hsent _ _ haccepts
    | simulated hevent hsnake hstart hupdate => exact hs.sent udpBuf hsent _ _ haccepts
    | marked hdrops => exact hs.sent udpBuf hsent _ _ haccepts
    | punished hempty => exact hs.sent udpBuf hsent _ _ haccepts

end

/-! ## Both sides -/

/-- A packet of the client that has arrived at the server. -/
structure Arrival where
  sentAt : Nat
  arrivedAt : Nat
  serverFrame : UInt16
  udpBuf : List UInt8

/-- The arrival of a request that the two frame numbers answer. -/
def Arrival.Answered (a : Arrival) (clientFrame serverFrame : UInt16) : Prop :=
  Requests a.udpBuf clientFrame ∧ serverFrame = a.serverFrame

/-- A client and a server.  The packets of the server are in its log, and those of
the client are kept with the step in which they were sent. -/
structure Joint where
  client : Client
  world : World
  server : ServerRun
  /-- The simulation steps so far. -/
  now : Nat
  packets : List (Nat × List UInt8)
  arrivals : List Arrival

/-- The client is about to join. -/
def Joint.begin (mem : Alloc) (username : List UInt8) (clientFrame serverFrame : UInt16) : Joint where
  client := clientConnect mem { clientInit with frameNumber := clientFrame } username
  world := worldInit
  server := { server := serverInit, frame := serverFrame }
  now := 0
  packets := []
  arrivals := []

/-- How far the client is ahead of the server. -/
def Joint.lead (s : Joint) : UInt16 :=
  s.client.frameNumber - s.server.frame

/-- The event is no packet from that address, nor does it move the frame number on. -/
def Elsewhere (addr : NetAddr) : ServerEvent → Prop
  | .packet sender _ => ¬ SameKey serverClientHm addr sender
  | .nextFrame => False
  | _ => True

/-- A packet may arrive at any time after it was sent, any number of times or not
at all. -/
inductive JointEvent (addr : NetAddr) where
  /-- A simulation step is over on both sides. -/
  | nextFrame
  | clientSimulates (uninit : Nat → Nat → UInt8) (command : Cmd) (netUpdate : Bool)
  | clientSends
  /-- The packet with that number arrives at the server. -/
  | toServer (i : Nat)
  /-- The packet with that number arrives at its receiver. -/
  | toClient (i : Nat)
  /-- The server deals with other clients and its own work. -/
  | server (event : ServerEvent) (helsewhere : Elsewhere addr event)

section

variable (mem : Alloc) (settings : ServerSettings) (num : Numerics) {addr : NetAddr}

def jointEvent (s : Joint) : JointEvent addr → Except Fault Joint
  | .nextFrame => do
      let server ← serverEvent mem settings num s.server .nextFrame
      return { s with client := clientNextFrame s.client, server := server, now := s.now + 1 }
  | .clientSimulates uninit command netUpdate => do
      let (client, world) ← clientSimUpdate mem num uninit s.client s.world command netUpdate
      return { s with client := client, world := world }
  | .clientSends => do
      let (client, packet) ← clientSendPendingData s.client
      return { s with client := client,
                      packets := s.packets ++ (packet.map fun udpBuf => (s.now, udpBuf)).toList }
  | .toServer i =>
      match s.packets[i]? with
      | none => .ok s
      | some (sentAt, udpBuf) => do
          let server ← serverEvent mem settings num s.server (.packet addr udpBuf)
          return { s with server := server,
                          arrivals := ⟨sentAt, s.now, s.server.frame, udpBuf⟩ :: s.arrivals }
  | .toClient i =>
      match s.server.server.sent[i]? with
      | none => .ok s
      | some (receiver, udpBuf) =>
          if receiver = addr then do
            let (client, world, result) ← clientRecv mem num s.client s.world (some udpBuf)
            if result.error then .error .stopped
            else return { s with client := client, world := world }
          else .ok s
  | .server event _ => do
      let server ← serverEvent mem settings num s.server event
      return { s with server := server }

end

/-- What is right about a step: the client joins with an answer to a request that
has arrived, it is then ahead of the server by the steps that the request took
and a reserve, and that never changes again. -/
structure Synchronised {addr : NetAddr} (s : Joint) (e : JointEvent addr) (s' : Joint) : Prop where
  joins : s.client.state = .joining → s'.client.state = .connected →
    ∃ i udpBuf clientFrame serverFrame, e = .toClient i ∧
      s.server.server.sent[i]? = some (addr, udpBuf) ∧ Accepts udpBuf clientFrame serverFrame ∧
      (∃ a ∈ s.arrivals, a.Answered clientFrame serverFrame) ∧
      ∀ a ∈ s.arrivals, a.Answered clientFrame serverFrame → a.sentAt ≤ a.arrivedAt ∧
        s'.lead = UInt16.ofNat (a.arrivedAt - a.sentAt) +
          UInt16.ofNat (5 * clientInit.simTickRate.toNat / clientInit.netTickRate.toNat)
  stays : s.client.state ≠ .joining → s'.lead = s.lead ∧ s'.client.state ≠ .joining

/-- The frame counters run in step, and everything that has been sent says when. -/
structure Joint.Sound (addr : NetAddr) (clientFrame serverFrame : UInt16) (s : Joint) : Prop where
  server : s.server.frame = serverFrame + UInt16.ofNat s.now
  joining : s.client.state = .joining →
    s.client.frameNumber = clientFrame + UInt16.ofNat s.now ∧ clientLead s.client = clientLead clientInit
  pending : ∀ m ∈ s.client.pendingMsgs.items, m.type = .joinRequest →
    s.client.state = .joining ∧ m.isReliable = true
  packets : ∀ x ∈ s.packets, x.1 ≤ s.now ∧
    ∀ frame, Requests x.2 frame → frame = clientFrame + UInt16.ofNat x.1
  arrivals : ∀ a ∈ s.arrivals, a.sentAt ≤ a.arrivedAt ∧
    a.serverFrame = serverFrame + UInt16.ofNat a.arrivedAt ∧
    ∀ frame, Requests a.udpBuf frame → frame = clientFrame + UInt16.ofNat a.sentAt
  answers : Answers addr (fun clientFrame serverFrame =>
    ∃ a ∈ s.arrivals, a.Answered clientFrame serverFrame) s.server.server

section

variable {mem : Alloc} {settings : ServerSettings} {num : Numerics} {addr : NetAddr}
  {clientFrame serverFrame : UInt16}

theorem Joint.sound_begin (username : List UInt8) :
    (Joint.begin mem username clientFrame serverFrame).Sound addr clientFrame serverFrame where
  server := (UInt16.add_zero serverFrame).symm
  joining := fun _ => ⟨(UInt16.add_zero clientFrame).symm, rfl⟩
  pending := by
    intro m hm _
    rcases mem_vecPush hm with hnil | rfl
    · cases hnil
    · exact ⟨rfl, rfl⟩
  packets := nofun
  arrivals := nofun
  answers := ⟨nofun, nofun⟩

/-- The client answers what it is told: three frame numbers from different
moments leave the way of the request. -/
theorem lead_of_accept (clientFrame serverFrame reserve : UInt16) {sentAt arrivedAt : Nat}
    (h : sentAt ≤ arrivedAt) (now : Nat) :
    serverFrame + UInt16.ofNat arrivedAt +
        (clientFrame + UInt16.ofNat now - (clientFrame + UInt16.ofNat sentAt)) + reserve -
      (serverFrame + UInt16.ofNat now) = UInt16.ofNat (arrivedAt - sentAt) + reserve := by
  obtain ⟨way, rfl⟩ := Nat.exists_eq_add_of_le h
  rw [Nat.add_sub_cancel_left, UInt16.ofNat_add]
  grind

/-- A step that leaves the frame numbers and the state of the client. -/
theorem synchronised_of_same {s s' : Joint} {e : JointEvent addr}
    (hframe : s'.client.frameNumber = s.client.frameNumber)
    (hstate : s'.client.state = s.client.state) (hserver : s'.server.frame = s.server.frame) :
    Synchronised s e s' where
  joins := by
    intro hjoining hconnected
    rw [hstate, hjoining] at hconnected
    cases hconnected
  stays := by
    intro hidle
    rw [Joint.lead, Joint.lead, hframe, hserver, hstate]
    exact ⟨rfl, hidle⟩

theorem frame_of_serverEvent {r r' : ServerRun} {event : ServerEvent} (hne : event ≠ .nextFrame)
    (h : serverEvent mem settings num r event = .ok r') : r'.frame = r.frame := by
  cases event with
  | nextFrame => exact absurd rfl hne
  | _ =>
      obtain ⟨s, -, h⟩ := bind_eq_ok.mp h
      cases h
      rfl

/-- The client joins, is turned away, or goes on as before. -/
theorem Joint.Sound.heard {s : Joint} (h : s.Sound addr clientFrame serverFrame) {i : Nat}
    {udpBuf : List UInt8} (hsent : s.server.server.sent[i]? = some (addr, udpBuf)) {client : Client}
    (world : World) (hheard : Heard (Accepts udpBuf) s.client client) :
    Joint.Sound addr clientFrame serverFrame { s with client := client, world := world } ∧
      Synchronised s (.toClient i : JointEvent addr) { s with client := client, world := world } := by
  cases hheard with
  | same timeoutCounter warp =>
      exact ⟨{ h with }, synchronised_of_same rfl rfl rfl⟩
  | gone hstate hpending hframe =>
      have hidle : client.state ≠ .joining := by
        rw [hstate]
        nofun
      refine ⟨{ h with joining := fun hj => absurd hj hidle, pending := ?_ }, ?_, ?_⟩
      · intro m hm
        rw [hpending] at hm
        cases hm
      · intro _ hconnected
        rw [hstate] at hconnected
        cases hconnected
      · intro hstart
        exact ⟨by rw [Joint.lead, Joint.lead, hframe hstart], hidle⟩
  | @joined _ cf sf haccepts hjoining hrtt hframe hstate hpending =>
      have hidle : client.state ≠ .joining := by
        rw [hstate]
        nofun
      obtain ⟨hnow, hreserve⟩ := h.joining hjoining
      refine ⟨{ h with joining := fun hj => absurd hj hidle, pending := ?_ }, ?_, ?_⟩
      · intro m hm htype
        rw [hpending] at hm
        exact absurd htype (by simpa using (List.mem_filter.mp hm).2)
      · intro _ _
        refine ⟨i, udpBuf, cf, sf, rfl, hsent, haccepts,
          h.answers.sent udpBuf (List.mem_of_getElem? hsent) cf sf haccepts, ?_⟩
        intro a ha hanswered
        obtain ⟨hle, harrived, hsentAt⟩ := h.arrivals a ha
        refine ⟨hle, ?_⟩
        rw [Joint.lead, hframe, hreserve, hnow, h.server, hanswered.2, harrived,
          hsentAt cf hanswered.1]
        exact lead_of_accept clientFrame serverFrame _ hle s.now
      · exact fun hstart => absurd hjoining hstart

/-- The server works, and a request may have arrived. -/
theorem Joint.Sound.serverStep {s : Joint} (h : s.Sound addr clientFrame serverFrame)
    {event : ServerEvent} {server : ServerRun} {arrivals : List Arrival}
    (hevent : serverEvent mem settings num s.server event = .ok server) (hne : event ≠ .nextFrame)
    (harrivals : ∀ a ∈ arrivals, a.sentAt ≤ a.arrivedAt ∧
      a.serverFrame = serverFrame + UInt16.ofNat a.arrivedAt ∧
      ∀ frame, Requests a.udpBuf frame → frame = clientFrame + UInt16.ofNat a.sentAt)
    (hsubset : s.arrivals ⊆ arrivals)
    (hasks : ∀ cf usernameLen, AsksToJoin event addr cf usernameLen →
      ∃ a ∈ arrivals, a.Answered cf s.server.frame) :
    Joint.Sound addr clientFrame serverFrame { s with server := server, arrivals := arrivals } := by
  have hanswers : Answers addr (fun cf sf => ∃ a ∈ arrivals, a.Answered cf sf) s.server.server := by
    refine h.answers.mono ?_
    rintro cf sf ⟨a, ha, hanswered⟩
    exact ⟨a, hsubset ha, hanswered⟩
  refine { h with server := ?_, arrivals := harrivals, answers := ?_ }
  · rw [← h.server]
    exact frame_of_serverEvent hne hevent
  · exact serverEvent_invariant (fun _ _ hs hstep => hstep.answers hasks hs) hanswers hevent

/-- What the client sends says when it was sent. -/
theorem Joint.Sound.sends {s : Joint} (h : s.Sound addr clientFrame serverFrame) {client : Client}
    {packet : Option (List UInt8)} (hsend : clientSendPendingData s.client = .ok (client, packet)) :
    Joint.Sound addr clientFrame serverFrame
      { s with client := client,
               packets := s.packets ++ (packet.map fun udpBuf => (s.now, udpBuf)).toList } := by
  obtain ⟨buf, left, timeoutCounter, hpack, rfl, hpacket⟩ := clientSendPendingData_packed hsend
  refine { h with pending := ?_, packets := ?_ }
  · intro m' hm' htype
    obtain ⟨m, hm, rfl | rfl | rfl⟩ := (clientPackMsgs_flushed hpack).mem_left hm'
    · exact h.pending m' hm htype
    · exact h.pending m hm htype
    · dsimp only at htype ⊢
      rw [type_msgUpdateFrameNumber] at htype
      obtain ⟨hjoining, hreliable⟩ := h.pending m hm htype
      refine ⟨hjoining, ?_⟩
      unfold msgUpdateFrameNumber
      split <;> exact hreliable
  · intro x hx
    rcases List.mem_append.mp hx with hold | hnew
    · exact h.packets x hold
    · obtain ⟨udpBuf, hudp, rfl⟩ := Option.map_eq_some_iff.mp (Option.mem_toList.mp hnew)
      refine ⟨Nat.le_refl _, fun frame hrequests => ?_⟩
      rw [hpacket udpBuf hudp] at hrequests
      obtain ⟨rfl, m, hm, htype⟩ := requests_of_clientPackMsgs
        (fun m hm htype => (h.pending m hm htype).2) hpack hrequests
      exact (h.joining (h.pending m hm htype).1).1

/-- The two frame counters go on together, and so does the clock. -/
theorem Joint.Sound.nextFrame {s s' : Joint} (h : s.Sound addr clientFrame serverFrame)
    (hok : jointEvent mem settings num s (.nextFrame : JointEvent addr) = .ok s') :
    s'.Sound addr clientFrame serverFrame ∧ Synchronised s (.nextFrame : JointEvent addr) s' := by
  cases hok
  have hnext : UInt16.ofNat (s.now + 1) = UInt16.ofNat s.now + 1 := UInt16.ofNat_add _ _
  refine ⟨{ h with server := ?_, joining := ?_, packets := ?_ }, ?_, ?_⟩
  · rw [hnext, ← UInt16.add_assoc, ← h.server]
  · intro hjoining
    obtain ⟨hframe, hreserve⟩ := h.joining hjoining
    refine ⟨?_, hreserve⟩
    rw [hnext, ← UInt16.add_assoc, ← hframe]
    rfl
  · intro x hx
    obtain ⟨hle, hframe⟩ := h.packets x hx
    exact ⟨Nat.le_succ_of_le hle, hframe⟩
  · intro hjoining hconnected
    cases hjoining.symm.trans hconnected
  · intro hidle
    refine ⟨?_, hidle⟩
    show s.client.frameNumber + 1 - (s.server.frame + 1) = s.client.frameNumber - s.server.frame
    grind

/-- A simulation update queues commands, and no request. -/
theorem Joint.Sound.clientSimulates {s s' : Joint} (h : s.Sound addr clientFrame serverFrame)
    {uninit : Nat → Nat → UInt8} {command : Cmd} {netUpdate : Bool}
    (hok : jointEvent mem settings num s
      (.clientSimulates uninit command netUpdate : JointEvent addr) = .ok s') :
    s'.Sound addr clientFrame serverFrame ∧
      Synchronised s (.clientSimulates uninit command netUpdate : JointEvent addr) s' := by
  obtain ⟨⟨client, world⟩, hsim, hok⟩ := bind_eq_ok.mp hok
  cases hok
  obtain ⟨pendingMsgs, rfl, hpending⟩ := clientSimUpdate_spec hsim
  refine ⟨{ h with pending := ?_ }, synchronised_of_same rfl rfl rfl⟩
  intro m hm htype
  rcases hpending m hm with hold | hcommands
  · exact h.pending m hold htype
  · rw [hcommands.type_eq] at htype
    cases htype

/-- A packet that arrives at the server is recorded, with the frames of that moment. -/
theorem Joint.Sound.toServer {s s' : Joint} (h : s.Sound addr clientFrame serverFrame) {i : Nat}
    (hok : jointEvent mem settings num s (.toServer i : JointEvent addr) = .ok s') :
    s'.Sound addr clientFrame serverFrame ∧ Synchronised s (.toServer i : JointEvent addr) s' := by
  unfold jointEvent at hok
  cases hget : s.packets[i]? with
  | none =>
      simp only [hget] at hok
      cases hok
      exact ⟨h, synchronised_of_same rfl rfl rfl⟩
  | some x =>
      obtain ⟨sentAt, udpBuf⟩ := x
      simp only [hget] at hok
      obtain ⟨server, hserver, hok⟩ := bind_eq_ok.mp hok
      cases hok
      obtain ⟨hle, hframe⟩ := h.packets _ (List.mem_of_getElem? hget)
      have hne : ServerEvent.packet addr udpBuf ≠ .nextFrame := nofun
      refine ⟨h.serverStep hserver hne ?_ (List.subset_cons_self _ _) ?_,
        synchronised_of_same rfl rfl (frame_of_serverEvent hne hserver)⟩
      · exact List.forall_mem_cons.mpr ⟨⟨hle, h.server, hframe⟩, h.arrivals⟩
      · rintro cf usernameLen ⟨_, _, type, payload, ⟨⟩, -, hmem, hkind⟩
        exact ⟨_, List.mem_cons_self, ⟨type, payload, usernameLen, hmem, hkind⟩, rfl⟩

/-- A packet that arrives at the client is heard, if it is for the client. -/
theorem Joint.Sound.toClient {s s' : Joint} (h : s.Sound addr clientFrame serverFrame) {i : Nat}
    (hok : jointEvent mem settings num s (.toClient i : JointEvent addr) = .ok s') :
    s'.Sound addr clientFrame serverFrame ∧ Synchronised s (.toClient i : JointEvent addr) s' := by
  unfold jointEvent at hok
  cases hget : s.server.server.sent[i]? with
  | none =>
      simp only [hget] at hok
      cases hok
      exact ⟨h, synchronised_of_same rfl rfl rfl⟩
  | some x =>
      obtain ⟨receiver, udpBuf⟩ := x
      simp only [hget] at hok
      by_cases hreceiver : receiver = addr
      · rw [if_pos hreceiver] at hok
        subst hreceiver
        obtain ⟨⟨client, world, result⟩, hrecv, hok⟩ := bind_eq_ok.mp hok
        dsimp only at hok
        by_cases herror : result.error = true
        · rw [if_pos herror] at hok
          cases hok
        · rw [if_neg herror] at hok
          cases hok
          exact h.heard hget world (heard_clientRecv hrecv (Bool.eq_false_iff.mpr herror))
      · rw [if_neg hreceiver] at hok
        cases hok
        exact ⟨h, synchronised_of_same rfl rfl rfl⟩

/-- **Every step keeps the provenance** and is synchronised. -/
theorem Joint.Sound.event {s s' : Joint} (h : s.Sound addr clientFrame serverFrame)
    {e : JointEvent addr} (hok : jointEvent mem settings num s e = .ok s') :
    s'.Sound addr clientFrame serverFrame ∧ Synchronised s e s' := by
  cases e with
  | nextFrame => exact h.nextFrame hok
  | clientSimulates uninit command netUpdate => exact h.clientSimulates hok
  | clientSends =>
      obtain ⟨⟨client, packet⟩, hsend, hok⟩ := bind_eq_ok.mp hok
      cases hok
      refine ⟨h.sends hsend, ?_⟩
      obtain ⟨buf, left, timeoutCounter, -, rfl, -⟩ := clientSendPendingData_packed hsend
      exact synchronised_of_same rfl rfl rfl
  | toServer i => exact h.toServer hok
  | toClient i => exact h.toClient hok
  | server event helsewhere =>
      obtain ⟨server, hserver, hok⟩ := bind_eq_ok.mp hok
      cases hok
      have hne : event ≠ .nextFrame := by
        rintro rfl
        exact helsewhere
      refine ⟨h.serverStep hserver hne h.arrivals (List.Subset.refl _) ?_,
        synchronised_of_same rfl rfl (frame_of_serverEvent hne hserver)⟩
      rintro cf usernameLen ⟨_, _, type, payload, rfl, hsame, -⟩
      exact absurd hsame helsewhere

end

/-- A request is repeated after a step and then overtaken. -/
def overtakingRun : List (JointEvent (loopback 40000)) :=
  [.clientSends, .nextFrame, .clientSends, .nextFrame, .nextFrame, .nextFrame, .toServer 1,
    .server .sendPending trivial, .toServer 0, .nextFrame, .toClient 0]

/-- The client joins with the answer to the second request, which took three steps. -/
example : (do
    let s ← Run.run (jointEvent Alloc.unlimited serverSettingsDefaults eastward)
      (Joint.begin Alloc.unlimited (cString "username") 65530 7)
      overtakingRun
    return (s.client.state, s.lead)) = Except.ok (.connected, 3 + 15) := by
  decide +kernel

end Clither
