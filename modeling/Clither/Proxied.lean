import Clither.JoinSync
import Clither.Lib.Simulation
import Clither.McdWifi

/-!
# A game through the proxy

With `CLITHER_MCD` the client talks to the proxy, and the proxy to the server.
Both connections are UDP, and the proxy adds its own losses, duplicates and
delays.

`proxied_refines_joint` says that the proxy is nothing but a network: whatever it
does, the client and the server go through a run that they could have gone
through without it.  Joining is therefore synchronised as before.
-/

namespace Clither

open Faults

/-! ## The three parties -/

/-- A client, a server and the proxy between them.  The packets of the client are kept with the step
in which they were sent, and those that have arrived at the server with the step in which they
arrived. -/
structure Proxied where
  client : Client
  world : World
  server : ServerRun
  now : Nat
  packets : List (Nat × List UInt8)
  proxy : McdWifi
  arrived : List (Nat × List UInt8)

/-- The client is about to join, and the proxy is connected to the server. -/
def Proxied.begin (mem : Alloc) (username : List UInt8) (clientFrame serverFrame : UInt16)
    (serverFd : Int) (otherFds : List Int) : Proxied where
  client := clientConnect mem { clientInit with frameNumber := clientFrame } username
  world := worldInit
  server := { server := serverInit, frame := serverFrame }
  now := 0
  packets := []
  proxy := .begin serverFd otherFds
  arrived := []

/-- What a socket returns: an error, or the packet with that number if there is one. -/
def answerOf {α β : Type} (packets : List α) (received : α → Option β) :
    Option Nat → Option (Option β)
  | none => some none
  | some i => (packets[i]?.bind received).map some

/-- What the sockets of the proxy return.  The server knows the proxy by `addr`. -/
def Proxied.answers (s : Proxied) (addr clientAddr : NetAddr)
    (fromClient fromServer : List (Option Nat)) : McdTurn where
  fromClient := fromClient.filterMap (answerOf s.packets fun x => some (clientAddr, x.2))
  fromServer := fromServer.filterMap (answerOf s.server.server.sent fun x =>
    if x.1 = addr then some x.2 else none)

/-- On each of the four ways a packet may arrive at any time after it was sent, any number of times
or not at all. -/
inductive ProxiedEvent (addr : NetAddr) where
  | nextFrame
  | clientSimulates (uninit : Nat → Nat → UInt8) (command : Cmd) (netUpdate : Bool)
  | clientSends
  /-- A turn of the proxy, which reads the packets with these numbers. -/
  | proxyTurn (clientAddr : NetAddr) (fromClient fromServer : List (Option Nat))
  /-- The packet of the proxy with that number arrives at the server. -/
  | toServer (i : Nat)
  /-- The packet of the proxy with that number arrives at the client. -/
  | toClient (i : Nat)
  | server (event : ServerEvent) (helsewhere : Elsewhere addr event)

section

variable (mem : Alloc) (settings : ServerSettings) (num : Numerics) (a : Args) (rand : Rand)
  {addr : NetAddr}

def proxiedEvent (s : Proxied) : ProxiedEvent addr → Except Fault Proxied
  | .nextFrame => do
      let server ← serverEvent mem settings num s.server .nextFrame
      return { s with client := clientNextFrame s.client, server := server, now := s.now + 1 }
  | .clientSimulates uninit command netUpdate => do
      let (client, world) ← clientSimUpdate mem num uninit s.client s.world command netUpdate
      return { s with client := client, world := world }
  | .clientSends => do
      let (client, packet) ← clientSendPendingData s.client
      return { s with client := client,
                      packets := s.packets ++ (packet.map fun udpBuf => (s.now, udpBuf)).toList }
  | .proxyTurn clientAddr fromClient fromServer => do
      let proxy ← mcdTurn mem a rand s.proxy (s.answers addr clientAddr fromClient fromServer)
      return { s with proxy := proxy }
  | .toServer i =>
      match s.proxy.toServer[i]? with
      | none => .ok s
      | some (_, udpBuf) => do
          let server ← serverEvent mem settings num s.server (.packet addr udpBuf)
          return { s with server := server, arrived := (s.now, udpBuf) :: s.arrived }
  | .toClient i =>
      match s.proxy.toClient[i]? with
      | none => .ok s
      | some (_, udpBuf) => do
          let (client, world, result) ← clientRecv mem num s.client s.world (some udpBuf)
          if result.error then .error .stopped
          else return { s with client := client, world := world }
  | .server event _ => do
      let server ← serverEvent mem settings num s.server event
      return { s with server := server }

end

/-- The same client and server without the proxy. -/
def Proxied.joint (s : Proxied) (arrivals : List Arrival) : Joint where
  client := s.client
  world := s.world
  server := s.server
  now := s.now
  packets := s.packets
  arrivals := arrivals

/-! ## What the proxy carries -/

/-- The client has sent the packet. -/
def FromClient (s : Proxied) (udpBuf : List UInt8) : Prop :=
  ∃ sentAt, (sentAt, udpBuf) ∈ s.packets

/-- The server has sent the packet to that address. -/
def FromServer (addr : NetAddr) (s : Proxied) (udpBuf : List UInt8) : Prop :=
  (addr, udpBuf) ∈ s.server.server.sent

/-- Whatever the proxy holds or has sent, one of the two sides has sent before. -/
structure Carries (addr : NetAddr) (s : Proxied) : Prop where
  short : ∀ x ∈ s.packets, x.2.length ≤ netMaxUdpPacketSize
  answersShort : ∀ x ∈ s.server.server.sent, x.2.length ≤ netMaxUdpPacketSize
  holds : ∃ clientLine serverLine, McdHolds s.proxy clientLine serverLine ∧
    (∀ entry ∈ clientLine, FromClient s entry.2) ∧
    ∀ entry ∈ serverLine, FromServer addr s entry.2
  toServer : ∀ x ∈ s.proxy.toServer, FromClient s x.2
  toClient : ∀ x ∈ s.proxy.toClient, FromServer addr s x.2

section

variable {mem : Alloc} {settings : ServerSettings} {num : Numerics} {a : Args} {rand : Rand}
  {addr : NetAddr}

/-- At the start nothing is on its way. -/
theorem carries_begin (username : List UInt8) (clientFrame serverFrame : UInt16) (serverFd : Int)
    (otherFds : List Int) :
    Carries addr (Proxied.begin mem username clientFrame serverFrame serverFd otherFds) where
  short := nofun
  answersShort := nofun
  holds := ⟨[], [], mcdHolds_begin serverFd otherFds, nofun, nofun⟩
  toServer := nofun
  toClient := nofun

/-- More packets and the same proxy. -/
theorem Carries.more {s s' : Proxied} (h : Carries addr s) (hproxy : s'.proxy = s.proxy)
    (hpackets : s.packets ⊆ s'.packets) (hsent : s.server.server.sent ⊆ s'.server.server.sent)
    (hshort : ∀ x ∈ s'.packets, x.2.length ≤ netMaxUdpPacketSize)
    (hanswers : ∀ x ∈ s'.server.server.sent, x.2.length ≤ netMaxUdpPacketSize) :
    Carries addr s' := by
  have hclient (udpBuf : List UInt8) (hfrom : FromClient s udpBuf) : FromClient s' udpBuf := by
    obtain ⟨sentAt, hmem⟩ := hfrom
    exact ⟨sentAt, hpackets hmem⟩
  obtain ⟨clientLine, serverLine, hholds, hclientLine, hserverLine⟩ := h.holds
  refine ⟨hshort, hanswers, ⟨clientLine, serverLine, ?_, ?_, ?_⟩, ?_, ?_⟩
  · rw [hproxy]
    exact hholds
  · intro entry hentry
    exact hclient _ (hclientLine entry hentry)
  · intro entry hentry
    exact hsent (hserverLine entry hentry)
  · intro x hx
    rw [hproxy] at hx
    exact hclient _ (h.toServer x hx)
  · intro x hx
    rw [hproxy] at hx
    exact hsent (h.toClient x hx)

/-- The log of a server that has worked since `start`, with packets that fit. -/
structure LogGrows (start s : Server) : Prop where
  old : start.sent ⊆ s.sent
  short : ∀ x ∈ s.sent, x.2.length ≤ netMaxUdpPacketSize

/-- A step that sends nothing keeps the log. -/
theorem LogGrows.same {start s s' : Server} (h : LogGrows start s) (hsent : s'.sent = s.sent) :
    LogGrows start s' := by
  refine ⟨?_, ?_⟩
  · rw [hsent]
    exact h.old
  · rw [hsent]
    exact h.short

/-- A step that sends one datagram of a size UDP takes adds it to the log. -/
theorem LogGrows.append {start s s' : Server} (h : LogGrows start s) {x : NetAddr × List UInt8}
    (hsent : s'.sent = s.sent ++ [x]) (hshort : x.2.length ≤ netMaxUdpPacketSize) :
    LogGrows start s' := by
  refine ⟨?_, ?_⟩
  · rw [hsent]
    exact List.Subset.trans h.old (List.subset_append_left _ _)
  · intro y hy
    rw [hsent] at hy
    rcases List.mem_append.mp hy with hold | hnew
    · exact h.short y hold
    · rw [List.mem_singleton.mp hnew]
      exact hshort

/-- Every step of the server keeps the log or adds such a datagram. -/
theorem LogGrows.step {event : ServerEvent} {frame : UInt16} {start begun s s' : Server}
    (h : LogGrows start s) (hstep : ServerStep mem settings num event frame begun s s') :
    LogGrows start s' := by
  cases hstep with
  | record hcell hsteps => exact h.same rfl
  | sent hevent hcell hpack => exact h.append rfl (packMsgs_flushed hpack).length_le
  | @denied _ _ _ m hasks hdenial =>
      refine h.append rfl ?_
      show (msgBytes m).length ≤ 508
      have hlen := m.length_lt
      rw [length_msgBytes, Msg.wireLen]
      omega
  | joined hasks hclients hworld hdenial hcreate =>
      obtain ⟨clients, world, snake, -, -, -, rfl⟩ := createClient_ok hcreate
      exact h.same rfl
  | removed hcell hsame hreason hremove =>
      obtain ⟨s₁, hok, -, -, -, -, -, hkept⟩ := clientRemove_of_cell hcell hsame
      cases hok.symm.trans hremove
      exact h.same hkept
  | commands payload hcell hsnake => exact h.same rfl
  | simulated hevent hsnake hstart hupdate => exact h.same rfl
  | marked hdrops => exact h.same rfl
  | punished hempty => exact h.same rfl

/-- A server event only adds to what the server has sent. -/
theorem Carries.serverStep {s s' : Proxied} (h : Carries addr s) {event : ServerEvent}
    {server : ServerRun} (hevent : serverEvent mem settings num s.server event = .ok server)
    (hserver : s'.server = server) (hproxy : s'.proxy = s.proxy)
    (hpackets : s'.packets = s.packets) : Carries addr s' := by
  have hgrown : LogGrows s.server.server server.server :=
    serverEvent_invariant (fun _ _ hs hstep => LogGrows.step hs hstep)
      ⟨List.Subset.refl _, h.answersShort⟩ hevent
  refine h.more hproxy ?_ ?_ ?_ ?_
  · rw [hpackets]
    exact List.Subset.refl _
  · rw [hserver]
    exact hgrown.old
  · rw [hpackets]
    exact h.short
  · rw [hserver]
    exact hgrown.short

/-- A packet of the client is one more it has sent. -/
theorem Carries.sends {s s' : Proxied} (h : Carries addr s) {packet : Option (List UInt8)}
    (hsend : clientSendPendingData s.client = .ok (s'.client, packet))
    (hproxy : s'.proxy = s.proxy) (hserver : s'.server = s.server)
    (hpackets : s'.packets =
      s.packets ++ (packet.map fun udpBuf => (s.now, udpBuf)).toList) : Carries addr s' := by
  obtain ⟨buf, left, timeoutCounter, hpack, -, hpacket⟩ := clientSendPendingData_packed hsend
  refine h.more hproxy ?_ ?_ ?_ ?_
  · rw [hpackets]
    exact List.subset_append_left _ _
  · rw [hserver]
    exact List.Subset.refl _
  · intro x hx
    rw [hpackets] at hx
    rcases List.mem_append.mp hx with hold | hnew
    · exact h.short x hold
    · obtain ⟨udpBuf, hudp, rfl⟩ := Option.map_eq_some_iff.mp (Option.mem_toList.mp hnew)
      rw [hpacket udpBuf hudp]
      exact (clientPackMsgs_flushed hpack).length_le
  · rw [hserver]
    exact h.answersShort

/-! ## A turn of the proxy -/

/-- What the proxy reads is the start of a datagram that arrived. -/
theorem mem_received {answers : List (Option (List UInt8))} {data : List UInt8}
    (h : data ∈ received answers) :
    ∃ datagram, some datagram ∈ answers ∧ data = datagram.take netMaxUdpPacketSize := by
  induction answers with
  | nil => cases h
  | cons answer rest ih =>
      cases answer with
      | none =>
          obtain ⟨datagram, hmem, hdata⟩ := ih h
          exact ⟨datagram, List.mem_cons_of_mem _ hmem, hdata⟩
      | some datagram =>
          simp only [received] at h
          split at h
          · cases h
          · rcases List.mem_cons.mp h with rfl | hrest
            · exact ⟨datagram, List.mem_cons_self, rfl⟩
            · obtain ⟨later, hmem, hdata⟩ := ih hrest
              exact ⟨later, List.mem_cons_of_mem _ hmem, hdata⟩

/-- What is queued was one of the packets. -/
theorem mem_turnFates {room : Prop} {packets : List (List UInt8)} {copies : Copies}
    (h : TurnFates a room packets copies) {entry : Nat × List UInt8}
    (hentry : entry ∈ copies.queued) : entry.2 ∈ packets := by
  obtain ⟨parts, hmade, hparts⟩ := h.fates
  have hmem := h.sublist.subset hentry
  rw [hmade] at hmem
  clear hmade hentry h
  induction hparts with
  | nil => cases hmem
  | @cons data part packets parts hfate _ ih =>
      rcases List.mem_append.mp hmem with hfirst | hrest
      · have hdata : entry.2 = data := by
          cases hfate with
          | lost hloss => cases hfirst
          | once hloss hwaits => rw [List.mem_singleton.mp hfirst]
          | twice hloss hdup hwaits =>
              rcases List.mem_cons.mp hfirst with rfl | hsecond
              · rfl
              · rw [List.mem_singleton.mp hsecond]
        rw [hdata]
        exact List.mem_cons_self
      · exact List.mem_cons_of_mem _ (ih hrest)

/-- What a socket answers is what was received of one of the packets. -/
theorem mem_answerOf {α β : Type} {packets : List α} {received : α → Option β}
    {numbers : List (Option Nat)} {y : β}
    (h : some y ∈ numbers.filterMap (answerOf packets received)) :
    ∃ x ∈ packets, received x = some y := by
  obtain ⟨number, -, hanswer⟩ := List.mem_filterMap.mp h
  cases number with
  | none => cases hanswer
  | some i =>
      obtain ⟨y', hbind, hsome⟩ := Option.map_eq_some_iff.mp hanswer
      cases hsome
      obtain ⟨x, hget, hx⟩ := Option.bind_eq_some_iff.mp hbind
      exact ⟨x, List.mem_of_getElem? hget, hx⟩

/-- What the proxy reads from the client's socket is from the client. -/
theorem Carries.requests {s : Proxied} (h : Carries addr s) {clientAddr : NetAddr}
    {fromClient fromServer : List (Option Nat)} {data : List UInt8}
    (hdata : data ∈ (s.answers addr clientAddr fromClient fromServer).requests) :
    FromClient s data := by
  obtain ⟨datagram, hmem, rfl⟩ := mem_received hdata
  obtain ⟨answer, hanswer, hsome⟩ := List.mem_map.mp hmem
  obtain ⟨y, rfl, rfl⟩ := Option.map_eq_some_iff.mp hsome
  obtain ⟨x, hx, hsent⟩ := mem_answerOf hanswer
  cases hsent
  rw [List.take_of_length_le (h.short x hx)]
  exact ⟨x.1, hx⟩

/-- What the proxy reads from the server's socket is from the server. -/
theorem Carries.answers {s : Proxied} (h : Carries addr s) {clientAddr : NetAddr}
    {fromClient fromServer : List (Option Nat)} {data : List UInt8}
    (hdata : data ∈ (s.answers addr clientAddr fromClient fromServer).answers) :
    FromServer addr s data := by
  obtain ⟨datagram, hmem, rfl⟩ := mem_received hdata
  obtain ⟨x, hx, hsent⟩ := mem_answerOf hmem
  split at hsent
  · next hreceiver =>
      cases hsent
      rw [List.take_of_length_le (h.answersShort x hx)]
      show (addr, x.2) ∈ _
      rw [← hreceiver]
      exact hx
  · cases hsent

/-- What is due was in the line. -/
theorem mem_due {line : List (Nat × List UInt8)} {data : List UInt8}
    (h : data ∈ DelayLine.due line) :
    ∃ entry ∈ line, entry.2 = data := by
  obtain ⟨entry, hentry, rfl⟩ := List.mem_map.mp h
  exact ⟨entry, List.mem_of_mem_filter hentry, rfl⟩

/-- **A turn of the proxy** carries what has been sent. -/
theorem Carries.turn {s : Proxied} (h : Carries addr s) {clientAddr : NetAddr}
    {fromClient fromServer : List (Option Nat)} {proxy : McdWifi}
    (hturn : mcdTurn mem a rand s.proxy (s.answers addr clientAddr fromClient fromServer) =
      .ok proxy) : Carries addr { s with proxy := proxy } := by
  obtain ⟨clientLine, serverLine, hholds, hclientLine, hserverLine⟩ := h.holds
  obtain ⟨newClient, newServer, hfates, hfates', hholds', htoServer, htoClient, -⟩ :=
    mcdTurn_spec hholds hturn
  have hclient (entry : Nat × List UInt8) (hentry : entry ∈ clientLine ++ newClient.queued) :
      FromClient s entry.2 := by
    rcases List.mem_append.mp hentry with hold | hnew
    · exact hclientLine entry hold
    · exact h.requests (mem_turnFates hfates hnew)
  have hserver (entry : Nat × List UInt8) (hentry : entry ∈ serverLine ++ newServer.queued) :
      FromServer addr s entry.2 := by
    rcases List.mem_append.mp hentry with hold | hnew
    · exact hserverLine entry hold
    · exact h.answers (mem_turnFates hfates' hnew)
  refine ⟨h.short, h.answersShort, ⟨_, _, hholds', ?_, ?_⟩, ?_, ?_⟩
  · intro entry hentry
    obtain ⟨waiting, hwaiting, -, hdata⟩ := DelayLine.mem_closer hentry
    rw [hdata]
    exact hclient waiting hwaiting
  · intro entry hentry
    obtain ⟨waiting, hwaiting, -, hdata⟩ := DelayLine.mem_closer hentry
    rw [hdata]
    exact hserver waiting hwaiting
  · intro x hx
    have hmem : x.2 ∈ proxy.toServer.map Prod.snd := List.mem_map_of_mem hx
    rw [htoServer] at hmem
    rcases List.mem_append.mp hmem with hold | hnew
    · obtain ⟨y, hy, hsame⟩ := List.mem_map.mp hold
      rw [← hsame]
      exact h.toServer y hy
    · obtain ⟨entry, hentry, hsame⟩ := mem_due hnew
      rw [← hsame]
      exact hclient entry hentry
  · intro x hx
    have hmem : x.2 ∈ proxy.toClient.map Prod.snd := List.mem_map_of_mem hx
    rw [htoClient] at hmem
    rcases List.mem_append.mp hmem with hold | hnew
    · obtain ⟨y, hy, hsame⟩ := List.mem_map.mp hold
      rw [← hsame]
      exact h.toClient y hy
    · split at hnew
      · obtain ⟨entry, hentry, hsame⟩ := mem_due hnew
        rw [← hsame]
        exact hserver entry hentry
      · cases hnew

end

/-! ## Nothing but a network -/

/-- What is right about a step: a client joins with the answer to a request that it has sent, which
has arrived at the server through the proxy, and it is then ahead of the server by the steps that
the request took and a reserve.  That never changes again. -/
structure JoinsInStep (s s' : Proxied) : Prop where
  joins : s.client.state = .joining → s'.client.state = .connected →
    ∃ sentAt arrivedAt request, (sentAt, request) ∈ s.packets ∧ (arrivedAt, request) ∈ s.arrived ∧
      (∃ frame, Requests request frame) ∧ sentAt ≤ arrivedAt ∧
      s'.client.frameNumber - s'.server.frame =
        UInt16.ofNat (arrivedAt - sentAt) +
          UInt16.ofNat (5 * clientInit.simTickRate.toNat / clientInit.netTickRate.toNat)
  stays : s.client.state ≠ .joining → s'.client.state ≠ .joining ∧
    s'.client.frameNumber - s'.server.frame = s.client.frameNumber - s.server.frame

/-- The packets of the arrivals have been sent and have arrived. -/
def Traced (s : Proxied) (arrivals : List Arrival) : Prop :=
  ∀ request ∈ arrivals, (request.sentAt, request.udpBuf) ∈ s.packets ∧
    (request.arrivedAt, request.udpBuf) ∈ s.arrived

/-- The invariant of a run: with these arrivals, the client and the server could have got here
without the proxy. -/
structure Proxied.Sound (addr : NetAddr) (clientFrame serverFrame : UInt16) (s : Proxied)
    (arrivals : List Arrival) : Prop where
  carries : Carries addr s
  sound : (s.joint arrivals).Sound addr clientFrame serverFrame
  traced : Traced s arrivals

section

variable {mem : Alloc} {settings : ServerSettings} {num : Numerics} {a : Args} {rand : Rand}
  {addr : NetAddr} {clientFrame serverFrame : UInt16}

/-- One step with the proxy is at most one step without it. -/
structure Matched (mem : Alloc) (settings : ServerSettings) (num : Numerics) (addr : NetAddr)
    (clientFrame serverFrame : UInt16) (s s' : Proxied) (arrivals arrivals' : List Arrival)
    (joints : List (JointEvent addr)) : Prop where
  length_le : joints.length ≤ 1
  refines : Run.run (jointEvent mem settings num) (s.joint arrivals) joints =
    .ok (s'.joint arrivals')
  sound : s'.Sound addr clientFrame serverFrame arrivals'
  inStep : JoinsInStep s s'

/-- The step is matched, with some arrivals. -/
def CanMatch (mem : Alloc) (settings : ServerSettings) (num : Numerics) (addr : NetAddr)
    (clientFrame serverFrame : UInt16) (s s' : Proxied) (arrivals : List Arrival) : Prop :=
  ∃ arrivals' joints,
    Matched mem settings num addr clientFrame serverFrame s s' arrivals arrivals' joints

section

variable {s s' : Proxied} {arrivals : List Arrival}
  (h : s.Sound addr clientFrame serverFrame arrivals)

/-- More has been sent and has arrived. -/
theorem Traced.more (htraced : Traced s arrivals) (hpackets : s.packets ⊆ s'.packets)
    (harrived : s.arrived ⊆ s'.arrived) : Traced s' arrivals := by
  intro request hrequest
  obtain ⟨hsent, hcame⟩ := htraced request hrequest
  exact ⟨hpackets hsent, harrived hcame⟩

include h

/-- A step that the two sides can make by themselves. -/
theorem matched_of_event {arrivals' : List Arrival} {e : JointEvent addr}
    (hok : jointEvent mem settings num (s.joint arrivals) e = .ok (s'.joint arrivals'))
    (hcarries : Carries addr s') (htraced : Traced s' arrivals') :
    CanMatch mem settings num addr clientFrame serverFrame s s' arrivals := by
  obtain ⟨hsound, hsynchronised⟩ := h.sound.event hok
  refine ⟨arrivals', [e], Nat.le_refl 1, ?_, ⟨hcarries, hsound, htraced⟩, ?_, ?_⟩
  · rw [Run.run_cons_ok hok]
    rfl
  · intro hjoining hconnected
    obtain ⟨_, _, cf, sf, -, -, -, ⟨request, hrequest, hanswered⟩, hlead⟩ :=
      hsynchronised.joins hjoining hconnected
    obtain ⟨hsent, harrived⟩ := h.traced request hrequest
    obtain ⟨hle, hjoint⟩ := hlead request hrequest hanswered
    exact ⟨request.sentAt, request.arrivedAt, request.udpBuf, hsent, harrived, ⟨cf, hanswered.1⟩,
      hle, hjoint⟩
  · intro hidle
    obtain ⟨hlead, hstate⟩ := hsynchronised.stays hidle
    exact ⟨hstate, hlead⟩

/-- A step that is nothing to the two sides. -/
theorem matched_of_nothing (hsame : s'.joint arrivals = s.joint arrivals)
    (harrived : s'.arrived = s.arrived) (hcarries : Carries addr s') :
    CanMatch mem settings num addr clientFrame serverFrame s s' arrivals := by
  have hclient : s'.client = s.client := congrArg Joint.client hsame
  have hserver : s'.server = s.server := congrArg Joint.server hsame
  have hpackets : s'.packets = s.packets := congrArg Joint.packets hsame
  refine ⟨arrivals, [], Nat.zero_le 1, ?_, ⟨hcarries, ?_, ?_⟩, ?_, ?_⟩
  · rw [hsame]
    rfl
  · rw [hsame]
    exact h.sound
  · unfold Traced
    rw [hpackets, harrived]
    exact h.traced
  · intro hjoining hconnected
    rw [hclient, hjoining] at hconnected
    cases hconnected
  · intro hidle
    rw [hclient, hserver]
    exact ⟨hidle, rfl⟩

/-- Both sides count one frame. -/
theorem matched_nextFrame
    (hok : proxiedEvent mem settings num a rand s (.nextFrame : ProxiedEvent addr) = .ok s') :
    CanMatch mem settings num addr clientFrame serverFrame s s' arrivals := by
  obtain ⟨server, hserver, hend⟩ := bind_eq_ok.mp hok
  cases hend
  refine @matched_of_event mem settings num addr _ _ _ _ _ h arrivals .nextFrame ?_
    (h.carries.serverStep hserver rfl rfl rfl)
    (h.traced.more (List.Subset.refl _) (List.Subset.refl _))
  show (serverEvent mem settings num s.server .nextFrame >>= _) = _
  rw [hserver]
  rfl

/-- The client works for itself. -/
theorem matched_clientSimulates {uninit : Nat → Nat → UInt8} {command : Cmd} {netUpdate : Bool}
    (hok : proxiedEvent mem settings num a rand s
      (.clientSimulates uninit command netUpdate : ProxiedEvent addr) = .ok s') :
    CanMatch mem settings num addr clientFrame serverFrame s s' arrivals := by
  obtain ⟨⟨client, world⟩, hsim, hend⟩ := bind_eq_ok.mp hok
  cases hend
  refine @matched_of_event mem settings num addr _ _ _ _ _ h arrivals
    (.clientSimulates uninit command netUpdate) ?_
    (h.carries.more rfl (List.Subset.refl _) (List.Subset.refl _) h.carries.short
      h.carries.answersShort)
    (h.traced.more (List.Subset.refl _) (List.Subset.refl _))
  show (clientSimUpdate mem num uninit s.client s.world command netUpdate >>= _) = _
  rw [hsim]
  rfl

/-- The client sends a packet, which is kept. -/
theorem matched_clientSends
    (hok : proxiedEvent mem settings num a rand s (.clientSends : ProxiedEvent addr) = .ok s') :
    CanMatch mem settings num addr clientFrame serverFrame s s' arrivals := by
  obtain ⟨⟨client, packet⟩, hsend, hend⟩ := bind_eq_ok.mp hok
  cases hend
  refine @matched_of_event mem settings num addr _ _ _ _ _ h arrivals .clientSends ?_
    (h.carries.sends hsend rfl rfl rfl)
    (h.traced.more (List.subset_append_left _ _) (List.Subset.refl _))
  show (clientSendPendingData s.client >>= _) = _
  rw [hsend]
  rfl

/-- The server works for itself, or for other clients. -/
theorem matched_server {event : ServerEvent} {helsewhere : Elsewhere addr event}
    (hok : proxiedEvent mem settings num a rand s (.server event helsewhere) = .ok s') :
    CanMatch mem settings num addr clientFrame serverFrame s s' arrivals := by
  obtain ⟨server, hserver, hend⟩ := bind_eq_ok.mp hok
  cases hend
  refine @matched_of_event mem settings num addr _ _ _ _ _ h arrivals (.server event helsewhere) ?_
    (h.carries.serverStep hserver rfl rfl rfl)
    (h.traced.more (List.Subset.refl _) (List.Subset.refl _))
  show (serverEvent mem settings num s.server event >>= _) = _
  rw [hserver]
  rfl

/-- A packet of the proxy arrives at the server: the network could have delivered it. -/
theorem matched_toServer {i : Nat}
    (hok : proxiedEvent mem settings num a rand s (.toServer i : ProxiedEvent addr) = .ok s') :
    CanMatch mem settings num addr clientFrame serverFrame s s' arrivals := by
  unfold proxiedEvent at hok
  cases hget : s.proxy.toServer[i]? with
  | none =>
      simp only [hget] at hok
      cases hok
      exact matched_of_nothing h rfl rfl h.carries
  | some x =>
      obtain ⟨fd, udpBuf⟩ := x
      simp only [hget] at hok
      obtain ⟨server, hserver, hend⟩ := bind_eq_ok.mp hok
      cases hend
      obtain ⟨sentAt, hsent⟩ := h.carries.toServer _ (List.mem_of_getElem? hget)
      obtain ⟨j, hj⟩ := List.mem_iff_getElem?.mp hsent
      have htraced : Traced { s with server := server, arrived := (s.now, udpBuf) :: s.arrived }
          (⟨sentAt, s.now, s.server.frame, udpBuf⟩ :: arrivals) :=
        List.forall_mem_cons.mpr ⟨⟨hsent, List.mem_cons_self⟩,
          h.traced.more (List.Subset.refl _) (List.subset_cons_self _ _)⟩
      refine @matched_of_event mem settings num addr _ _ _ _ _ h _ (.toServer j) ?_
        (h.carries.serverStep hserver rfl rfl rfl) htraced
      have hj' : (s.joint arrivals).packets[j]? = some (sentAt, udpBuf) := hj
      unfold jointEvent
      simp only [hj']
      show (serverEvent mem settings num s.server (.packet addr udpBuf) >>= _) = _
      rw [hserver]
      rfl

/-- A packet of the proxy arrives at the client. -/
theorem matched_toClient {i : Nat}
    (hok : proxiedEvent mem settings num a rand s (.toClient i : ProxiedEvent addr) = .ok s') :
    CanMatch mem settings num addr clientFrame serverFrame s s' arrivals := by
  unfold proxiedEvent at hok
  cases hget : s.proxy.toClient[i]? with
  | none =>
      simp only [hget] at hok
      cases hok
      exact matched_of_nothing h rfl rfl h.carries
  | some x =>
      obtain ⟨target, udpBuf⟩ := x
      simp only [hget] at hok
      obtain ⟨⟨client, world, result⟩, hrecv, hend⟩ := bind_eq_ok.mp hok
      obtain ⟨j, hj⟩ := List.mem_iff_getElem?.mp
        (h.carries.toClient _ (List.mem_of_getElem? hget))
      dsimp only at hend
      by_cases herror : result.error = true
      · rw [if_pos herror] at hend
        cases hend
      · rw [if_neg herror] at hend
        cases hend
        refine @matched_of_event mem settings num addr _ _ _ _ _ h arrivals (.toClient j) ?_
          (h.carries.more rfl (List.Subset.refl _) (List.Subset.refl _) h.carries.short
            h.carries.answersShort)
          (h.traced.more (List.Subset.refl _) (List.Subset.refl _))
        have hj' : (s.joint arrivals).server.server.sent[j]? = some (addr, udpBuf) := hj
        unfold jointEvent
        simp only [hj', if_true]
        show (clientRecv mem num s.client s.world (some udpBuf) >>= _) = _
        rw [hrecv, ok_bind]
        dsimp only
        rw [if_neg herror]
        rfl

/-- **One step.**  What the proxy does by itself is nothing to the two sides, and each packet that
it delivers is one that the network could have delivered. -/
theorem matched_proxiedEvent {e : ProxiedEvent addr}
    (hok : proxiedEvent mem settings num a rand s e = .ok s') :
    CanMatch mem settings num addr clientFrame serverFrame s s' arrivals := by
  cases e with
  | nextFrame => exact matched_nextFrame h hok
  | clientSimulates uninit command netUpdate => exact matched_clientSimulates h hok
  | clientSends => exact matched_clientSends h hok
  | proxyTurn clientAddr fromClient fromServer =>
      obtain ⟨proxy, hturn, hend⟩ := bind_eq_ok.mp hok
      cases hend
      exact matched_of_nothing h rfl rfl (h.carries.turn hturn)
  | toServer i => exact matched_toServer h hok
  | toClient i => exact matched_toClient h hok
  | server event helsewhere => exact matched_server h hok

end

/-- A run starts sound, with no arrival recorded. -/
theorem proxied_sound_begin (username : List UInt8) (serverFd : Int) (otherFds : List Int) :
    (Proxied.begin mem username clientFrame serverFrame serverFd otherFds).Sound addr clientFrame
      serverFrame [] :=
  ⟨carries_begin username clientFrame serverFrame serverFd otherFds, Joint.sound_begin username,
    nofun⟩

/-- The client and the server follow the three parties. -/
theorem joint_simulates_proxied :
    Run.Simulates (@proxiedEvent mem settings num a rand addr)
      (@jointEvent mem settings num addr)
      (fun (s : Proxied) (t : Joint) => ∃ arrivals : List Arrival, t = s.joint arrivals ∧
        s.Sound addr clientFrame serverFrame arrivals) := by
  intro s t e s' hrel hok
  obtain ⟨arrivals, rfl, hsound⟩ := hrel
  obtain ⟨arrivals', joints, hmatched⟩ := matched_proxiedEvent hsound hok
  exact ⟨s'.joint arrivals', joints, hmatched.length_le, hmatched.refines, arrivals', rfl,
    hmatched.sound⟩

/-- **The proxy is a network.**  Each run of the three parties ends with a client and a server that
the two of them could have reached without the proxy, in no more steps. -/
theorem proxied_refines_joint {username : List UInt8} {serverFd : Int} {otherFds : List Int}
    {events : List (ProxiedEvent addr)} {s : Proxied}
    (hrun : Run.run (proxiedEvent mem settings num a rand)
      (Proxied.begin mem username clientFrame serverFrame serverFd otherFds) events = .ok s) :
    ∃ (arrivals : List Arrival) (joints : List (JointEvent addr)),
      joints.length ≤ events.length ∧
      Run.run (jointEvent mem settings num)
        (Joint.begin mem username clientFrame serverFrame) joints =
          .ok (s.joint arrivals) := by
  have hbegin : (Proxied.begin mem username clientFrame serverFrame serverFd otherFds).Sound addr
      clientFrame serverFrame [] := proxied_sound_begin username serverFd otherFds
  obtain ⟨_, joints, hlength, hjoint, arrivals, rfl, -⟩ :=
    joint_simulates_proxied.run ⟨[], rfl, hbegin⟩ hrun
  exact ⟨arrivals, joints, hlength, hjoint⟩

end

/-- **Joining through the proxy.**  Whatever the proxy and the network lose, repeat, delay and
reorder, the client that joins is ahead of the server by the steps that one of its requests took. -/
theorem proxied_joins_in_step (mem : Alloc) (settings : ServerSettings) (num : Numerics) (a : Args)
    (rand : Rand) (addr : NetAddr) (username : List UInt8) (clientFrame serverFrame : UInt16)
    (serverFd : Int) (otherFds : List Int) (events : List (ProxiedEvent addr)) :
    Run.EverySafe (proxiedEvent mem settings num a rand) (fun s _ s' => JoinsInStep s s')
      (fun _ => True) (Proxied.begin mem username clientFrame serverFrame serverFd otherFds)
      events := by
  have hkeeps (s : Proxied) (e : ProxiedEvent addr) (s' : Proxied)
      (hs : ∃ arrivals, s.Sound addr clientFrame serverFrame arrivals)
      (hok : proxiedEvent mem settings num a rand s e = .ok s') :
      (∃ arrivals, s'.Sound addr clientFrame serverFrame arrivals) ∧ JoinsInStep s s' := by
    obtain ⟨arrivals, hsound⟩ := hs
    obtain ⟨arrivals', joints, hmatched⟩ := matched_proxiedEvent hsound hok
    exact ⟨⟨arrivals', hmatched.sound⟩, hmatched.inStep⟩
  exact Run.everySafe_of_invariant hkeeps
    ⟨[], proxied_sound_begin username serverFd otherFds⟩

/-- A request goes through the proxy in four turns, and so does the answer. -/
def throughProxy : List (ProxiedEvent (loopback 40000)) :=
  [.clientSends, .proxyTurn (loopback 1) [some 0] [], .proxyTurn (loopback 1) [] [], .nextFrame,
    .proxyTurn (loopback 1) [] [], .proxyTurn (loopback 1) [] [], .toServer 0,
    .server .sendPending trivial, .proxyTurn (loopback 1) [] [some 0],
    .proxyTurn (loopback 1) [] [], .proxyTurn (loopback 1) [] [], .proxyTurn (loopback 1) [] [],
    .toClient 0]

/-- A join through the proxy, and the run of the two parties it stands for. -/
theorem proxied_refines_joint_sample : ∃ (s : Proxied) (arrivals : List Arrival)
    (joints : List (JointEvent (loopback 40000))),
    Run.run (proxiedEvent Alloc.unlimited serverSettingsDefaults eastward mcdSampleArgs
        (Rand.constant 2147483647 (by decide) (by decide)))
      (Proxied.begin Alloc.unlimited (cString "username") 65530 7 3 []) throughProxy = .ok s ∧
    s.client.state = .connected ∧ joints.length ≤ 13 ∧
    Run.run (jointEvent Alloc.unlimited serverSettingsDefaults eastward)
      (Joint.begin Alloc.unlimited (cString "username") 65530 7) joints =
        .ok (s.joint arrivals) := by
  have h : (do
      let s ← Run.run (proxiedEvent Alloc.unlimited serverSettingsDefaults eastward mcdSampleArgs
          (Rand.constant 2147483647 (by decide) (by decide)))
        (Proxied.begin Alloc.unlimited (cString "username") 65530 7 3 []) throughProxy
      return s.client.state) = Except.ok .connected := by
    decide +kernel
  obtain ⟨s, hrun, hend⟩ := bind_eq_ok.mp h
  obtain ⟨arrivals, joints, hlength, hjoint⟩ := proxied_refines_joint hrun
  exact ⟨s, arrivals, joints, hrun, Except.ok.inj hend, hlength, hjoint⟩

end Clither
