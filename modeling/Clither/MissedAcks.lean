import Clither.ClientRuns
import Clither.ClientTraffic
import Clither.SoleClient

/-!
# Missing acknowledgements

A reliable message that is not acknowledged is sent nine times, and then the
client is removed.  The server queues reliable messages when the snakes of two
clients meet, but no client acknowledges them, and the server would take the
acknowledgement for an attack.

The server and its clients run together, and every client does what `client.c`
does.  As long as no snake comes near another one, the server only has unreliable
messages and keeps its clients (`never_dropped`).  Two clients that have just
joined meet where they start, and are both removed (`dropped_where_they_start`).
-/

namespace Clither

open Faults (bind_eq_ok)

/-! ## The server without reliable messages -/

section

variable {mem : Alloc} {settings : ServerSettings} {num : Numerics} {event : ServerEvent}
  {frame : UInt16} {start : Server}

/-- No client has met another one. -/
abbrev AllQuiet (s : Server) : Prop :=
  AllClients (fun _ record => ∃ bound, Quiet bound record) s

theorem quiet_of_counter {bound bound' : Int} {record record' : ServerClient}
    (h : Quiet bound record) (hprox : record'.snakesInProximity = record.snakesInProximity)
    (hpending : record'.pendingMsgs = record.pendingMsgs) (hcounter : record'.timeoutCounter ≤ bound') :
    Quiet bound' record' where
  prox := hprox.trans h.prox
  counter := hcounter
  pending := by
    rw [hpending]
    exact h.pending

/-- What does not depend on other snakes leaves the client without reliable messages. -/
theorem quiet_record {s : Server} {slot : Nat} {addr : NetAddr} {record record' : ServerClient}
    (hevent : ∀ proximityRange, event ≠ .snakesInRange proximityRange)
    (h : ∃ bound, Quiet bound record)
    (hstep : RecordStep mem settings event frame s slot addr record record') :
    ∃ bound, Quiet bound record' := by
  obtain ⟨bound, h⟩ := h
  cases hstep with
  | heard hpacket => exact ⟨0, quiet_of_counter h rfl rfl (Int.le_refl 0)⟩
  | counted htimeouts => exact ⟨_, quiet_of_counter h rfl rfl (Int.le_refl _)⟩
  | accepted hasks hsnake => exact ⟨bound, quiet_serverQueue h rfl⟩
  | commands lastFrame commandsQueued => exact ⟨bound, quiet_of_counter h rfl rfl h.counter⟩
  | feedback diff => exact ⟨bound, quiet_serverQueue h rfl⟩
  | head hsnake => exact ⟨bound, quiet_serverQueue h rfl⟩
  | entered hrange hother hsnake hotherSnake hinside hemplace => exact absurd hrange (hevent _)
  | left hother hkey =>
      rw [h.prox] at hkey
      cases hkey
  | handle hentry hpending hsnake hhandle =>
      rw [h.prox] at hentry
      cases hentry
  | packed hsend hpack =>
      obtain ⟨buf, left, hpack', hleft⟩ := packMsgs_unreliable h.pending
      cases hpack.symm.trans hpack'
      exact ⟨bound, h.prox, h.counter, hleft⟩

theorem quiet_step {s s' : Server} (hevent : ∀ proximityRange, event ≠ .snakesInRange proximityRange)
    (hs : AllQuiet s) (h : ServerStep mem settings num event frame start s s') : AllQuiet s' := by
  refine h.allClients ?_ (fun _ _ _ _ hrecord hstep => quiet_record hevent hrecord hstep) ?_ hs
  · exact fun _ _ => ⟨0, rfl, Int.le_refl 0, nofun⟩
  · rintro _ _ record buf left ⟨bound, hquiet⟩ hpack
    obtain ⟨buf', left', hpack', hleft⟩ := packMsgs_unreliable hquiet.pending
    cases hpack.symm.trans hpack'
    exact ⟨record.timeoutCounter + 1, hquiet.prox, Int.le_refl _, hleft⟩

/-- Without a message that removes its sender nobody is malicious. -/
theorem malicious_step {s s' : Server} (hdrops : ¬ DropsSender event)
    (hs : s.maliciousClients = none) (h : ServerStep mem settings num event frame start s s') :
    s'.maliciousClients = none := by
  cases h with
  | joined hasks hclients hworld hdenial hcreate =>
      obtain ⟨clients, world, snake, -, -, -, rfl⟩ := createClient_ok hcreate
      exact hs
  | removed hcell hsame hreason hremove =>
      obtain ⟨s₁, hok, -, -, -, hkept, -⟩ := clientRemove_of_cell hcell hsame
      cases hok.symm.trans hremove
      exact hkept.trans hs
  | marked hmarks => exact absurd hmarks hdrops
  | punished hempty => exact hempty hs
  | record hcell hsteps => exact hs
  | sent hevent hcell hpack => exact hs
  | denied hasks hdenial => exact hs
  | commands payload hcell hsnake => exact hs
  | simulated hevent hsnake hstart hupdate => exact hs

/-! ## Snakes that stay apart -/

/-- No snake has its head in the enlarged box of another client's snake. -/
def Apart (s : Server) (proximityRange : Int) : Prop :=
  ∀ e ∈ s.clients.entries, ∀ e' ∈ s.clients.entries, e.1 ≠ e'.1 →
    ∀ snake ∈ bmapFind s.world e.2.snakeId, ∀ otherSnake ∈ bmapFind s.world e'.2.snakeId,
      qwaabbTestQwpos (enlargedAabb otherSnake proximityRange) snake.head.pos = false

instance (s : Server) (proximityRange : Int) : Decidable (Apart s proximityRange) :=
  inferInstanceAs (Decidable (∀ e ∈ _, ∀ e' ∈ _, _ → _))

theorem updateSnakesInRangeOf_apart {world : World} {proximityRange : Int}
    {others : List ServerClient} {record record' : ServerClient}
    (hprox : record.snakesInProximity = none)
    (hapart : ∀ other ∈ others, ∀ snake otherSnake, findSnake world record.snakeId = .ok snake →
      findSnake world other.snakeId = .ok otherSnake →
      qwaabbTestQwpos (enlargedAabb otherSnake proximityRange) snake.head.pos = false)
    (h : updateSnakesInRangeOf mem world proximityRange others record = .ok record') :
    record' = record := by
  induction others with
  | nil =>
      cases h
      rfl
  | cons other rest ih =>
      obtain ⟨hother, hrest⟩ := List.forall_mem_cons.mp hapart
      obtain ⟨snake, hsnake, h⟩ := bind_eq_ok.mp h
      obtain ⟨otherSnake, hotherSnake, h⟩ := bind_eq_ok.mp h
      have hnothing : bmapFind record.snakesInProximity other.snakeId = none := by
        rw [hprox]
        rfl
      rw [hother snake otherSnake hsnake hotherSnake, if_neg (by decide), hnothing] at h
      exact ih hrest h

/-- **A proximity update of snakes that are apart** changes no record. -/
theorem snakesInRange_apart {s' : Server} {proximityRange : Int} (hquiet : AllQuiet start)
    (hapart : Apart start proximityRange)
    (h : serverUpdateSnakesInRange mem start proximityRange = .ok s') : AllQuiet s' := by
  have hcells : s'.world = start.world ∧ ∀ i, s'.clients.cell i = start.clients.cell i := by
    let unchanged (s : Server) : Prop :=
      s.world = start.world ∧ ∀ i, s.clients.cell i = start.clients.cell i
    refine @forEachClient_invariant _ unchanged ?_ _ _ _ ⟨rfl, fun _ => rfl⟩ h
    rintro s s₁ slot addr record ⟨hworld, hsame⟩ hcell hbody
    obtain ⟨record', hupdate, hbody⟩ := bind_eq_ok.mp hbody
    cases hbody
    have hstart := (hsame slot).symm.trans hcell
    obtain ⟨bound, hrecord⟩ := hquiet.of_cell hstart
    have hkept : record' = record := by
      refine updateSnakesInRangeOf_apart hrecord.prox ?_ hupdate
      intro other hother snake otherSnake hsnake hotherSnake
      obtain ⟨i, -, hi⟩ := List.mem_filterMap.mp hother
      by_cases hslot : i = slot
      · rw [if_pos hslot] at hi
        cases hi
      · rw [if_neg hslot] at hi
        obtain ⟨e', he', rfl⟩ := Option.map_eq_some_iff.mp hi
        rw [hsame] at he'
        rw [hworld, findSnake_eq_ok] at hsnake hotherSnake
        refine hapart (addr, record) (ValidHm.mem_entries.mpr ⟨slot, hstart⟩) e'
          (ValidHm.mem_entries.mpr ⟨i, he'⟩) ?_ snake hsnake otherSnake hotherSnake
        rintro rfl
        exact hslot (ValidHm.cell_unique he' hstart (SameKey.refl _ _))
    subst hkept
    refine ⟨hworld, fun i => ?_⟩
    show (s.clients.set slot record').cell i = _
    rw [ValidHm.cell_set hcell]
    by_cases hi : i = slot
    · rw [if_pos hi, hi]
      exact hstart.symm
    · rw [if_neg hi]
      exact hsame i
  intro e he
  obtain ⟨slot, hslot⟩ := ValidHm.mem_entries.mp he
  rw [hcells.2] at hslot
  exact hquiet.of_cell hslot

/-! ## Sending -/

/-- **Sending what is pending** removes the clients that a message has been sent to
too often. -/
theorem left_sendPendingData {s s' : Server} (h : serverSendPendingData s = .ok s') :
    Left (fun e => packMsgs e.2.pendingMsgs = none) s s' := by
  refine forEachClient_left (fun s s₁ slot addr record hcell hbody => ?_) h
  cases hpack : packMsgs record.pendingMsgs with
  | none =>
      rw [hpack] at hbody
      obtain ⟨s₂, hok, hcells, -, hworld, -⟩ := clientRemove_of_cell hcell (SameKey.refl _ addr)
      cases hok.symm.trans hbody
      refine ⟨⟨none, hcells, .removed hpack⟩, fun k => ?_⟩
      rw [hworld, mem_bmapKeys_erase]
      exact and_congr_right fun _ => ⟨fun hne _ => Ne.symm hne, fun himp => Ne.symm (himp hpack)⟩
  | some packed =>
      have hstay : ¬ packMsgs (addr, record).2.pendingMsgs = none := by
        rw [hpack]
        nofun
      have hkeys (k : UInt16) : k ∈ bmapKeys s.world ↔ k ∈ bmapKeys s.world ∧
          (packMsgs (addr, record).2.pendingMsgs = none → record.snakeId ≠ k) :=
        (and_iff_left fun hgone => absurd hgone hstay).symm
      obtain ⟨buf, left⟩ := packed
      rw [hpack] at hbody
      dsimp only at hbody
      by_cases hempty : buf = []
      · rw [if_pos hempty] at hbody
        cases hbody
        exact ⟨⟨_, ValidHm.cells_set hcell _, .kept hstay rfl⟩, fun k => hkeys k⟩
      · rw [if_neg hempty] at hbody
        cases hbody
        exact ⟨⟨_, ValidHm.cells_set hcell _, .kept hstay rfl⟩, fun k => hkeys k⟩

theorem same_sendPendingData {s s' : Server} (hquiet : AllQuiet s)
    (h : serverSendPendingData s = .ok s') : Same s s' := by
  have hleft := left_sendPendingData h
  have hnobody : ∀ e ∈ s.clients.entries, ¬ packMsgs e.2.pendingMsgs = none := by
    intro e he
    obtain ⟨bound, hrecord⟩ := hquiet e he
    obtain ⟨buf, left, hpack, -⟩ := packMsgs_unreliable hrecord.pending
    rw [hpack]
    nofun
  refine ⟨fun e he _ => hleft.stays e he (hnobody e he), fun e' he' => ?_, fun k => ?_⟩
  · obtain ⟨e, he, -, hident⟩ := hleft.came e' he'
    exact ⟨e, he, not_false, hident⟩
  · rw [hleft.world]
    exact and_congr_right fun _ =>
      ⟨fun _ _ _ => False.elim, fun _ e he hgone => absurd hgone (hnobody e he)⟩

end

/-! ## A server and its clients -/

/-- The event is the server's own work. -/
def ServerEvent.Own : ServerEvent → Prop
  | .packet _ _ => False
  | _ => True

/-- The parser accepts join requests with that name. -/
def JoinName (username : List UInt8) : Prop :=
  username ≠ [] ∧ username.length < 250

structure Peer where
  addr : NetAddr
  client : Client
  world : World

/-- A server, the clients that play on it, and what they have sent.  The packets
of the server are in its log. -/
structure Arena where
  server : ServerRun
  peers : List Peer
  packets : List (NetAddr × List UInt8)
  /-- The packets of the server that have arrived, by their places in the log. -/
  received : List Nat

def Arena.begin : Arena where
  server := serverRunInit
  peers := []
  packets := []
  received := []

/-- Every packet of the server has arrived. -/
def Arena.Lossless (s : Arena) : Prop :=
  ∀ i ∈ List.range s.server.server.sent.length, i ∈ s.received

instance (s : Arena) : Decidable s.Lossless :=
  inferInstanceAs (Decidable (∀ i ∈ _, i ∈ _))

inductive ArenaEvent where
  /-- A client is started. -/
  | join (addr : NetAddr) (username : List UInt8) (hname : JoinName username)
  | peerSimulates (k : Nat) (uninit : Nat → Nat → UInt8) (command : Cmd) (netUpdate : Bool)
  | peerSends (k : Nat)
  | peerNextFrame (k : Nat)
  /-- A packet of a client arrives at the server. -/
  | toServer (i : Nat)
  /-- A packet of the server arrives at the client that it is for. -/
  | toPeer (k i : Nat)
  | server (event : ServerEvent) (hown : event.Own)

section

variable (mem : Alloc) (settings : ServerSettings) (num : Numerics)

def arenaEvent (s : Arena) : ArenaEvent → Except Fault Arena
  | .join addr username _ =>
      .ok { s with peers := s.peers ++ [⟨addr, clientConnect mem clientInit username, worldInit⟩] }
  | .peerSimulates k uninit command netUpdate =>
      match s.peers[k]? with
      | none => .ok s
      | some peer => do
          let (client, world) ← clientSimUpdate mem num uninit peer.client peer.world command netUpdate
          return { s with peers := s.peers.set k { peer with client := client, world := world } }
  | .peerSends k =>
      match s.peers[k]? with
      | none => .ok s
      | some peer => do
          let (client, packet) ← clientSendPendingData peer.client
          return { s with peers := s.peers.set k { peer with client := client },
                          packets := s.packets ++
                            (packet.map fun udpBuf => (peer.addr, udpBuf)).toList }
  | .peerNextFrame k =>
      match s.peers[k]? with
      | none => .ok s
      | some peer =>
          .ok { s with peers := s.peers.set k { peer with client := clientNextFrame peer.client } }
  | .toServer i =>
      match s.packets[i]? with
      | none => .ok s
      | some (sender, udpBuf) => do
          let server ← serverEvent mem settings num s.server (.packet sender udpBuf)
          return { s with server := server }
  | .toPeer k i =>
      match s.peers[k]?, s.server.server.sent[i]? with
      | some peer, some (receiver, udpBuf) =>
          if receiver = peer.addr then do
            let (client, world, result) ← clientRecv mem num peer.client peer.world (some udpBuf)
            if result.error then .error .stopped
            else return { s with peers := s.peers.set k { peer with client := client, world := world },
                                 received := i :: s.received }
          else .ok s
      | _, _ => .ok s
  | .server event _ => do
      let server ← serverEvent mem settings num s.server event
      return { s with server := server }

end

/-- Nobody is removed when pending messages are sent, and nobody is malicious. -/
structure NeverDropped (s : Arena) (e : ArenaEvent) (s' : Arena) : Prop where
  stays : e = .server .sendPending trivial → Same s.server.server s'.server.server
  innocent : ∀ addr, hmFind netAddrHm s'.server.server.maliciousClients addr = .ok none

/-- The snakes are apart when the server looks for snakes in range. -/
def staysApart (s : Arena) : ArenaEvent → Prop
  | .server (.snakesInRange proximityRange) _ => Apart s.server.server proximityRange
  | _ => True

instance (s : Arena) : (e : ArenaEvent) → Decidable (staysApart s e)
  | .server (.snakesInRange proximityRange) _ =>
      inferInstanceAs (Decidable (Apart s.server.server proximityRange))
  | .server .timeouts _ | .server .malicious _ | .server .simulate _ | .server .queueData _
  | .server .sendPending _ | .server .nextFrame _ | .server (.packet _ _) _ | .join _ _ _
  | .peerSimulates _ _ _ _ | .peerSends _ | .peerNextFrame _ | .toServer _ | .toPeer _ _ =>
      isTrue trivial

/-- The clients only send what is harmless, and the server has no reliable messages. -/
structure Arena.Sound (s : Arena) : Prop where
  peers : ∀ peer ∈ s.peers, ∀ m ∈ peer.client.pendingMsgs.items, m.Harmless
  packets : ∀ x ∈ s.packets, ∀ f ∈ frames x.2, f.dropsSender = false
  quiet : AllQuiet s.server.server
  malicious : s.server.server.maliciousClients = none

section

variable {mem : Alloc} {settings : ServerSettings} {num : Numerics}

theorem Arena.sound_begin : Arena.begin.Sound where
  peers := nofun
  packets := nofun
  quiet := nofun
  malicious := rfl

theorem Arena.Sound.setPeer {s : Arena} (h : s.Sound) (k : Nat) {peer : Peer}
    (hpeer : ∀ m ∈ peer.client.pendingMsgs.items, m.Harmless) :
    ∀ peer' ∈ s.peers.set k peer, ∀ m ∈ peer'.client.pendingMsgs.items, m.Harmless := by
  intro peer' hmem
  rcases List.mem_or_eq_of_mem_set hmem with hold | rfl
  · exact h.peers peer' hold
  · exact hpeer

theorem neverDropped_of_clients {s s' : Arena} {e : ArenaEvent} (h : s.Sound)
    (hne : e ≠ .server .sendPending trivial) (hserver : s'.server = s.server) :
    NeverDropped s e s' where
  stays := fun heq => absurd heq hne
  innocent := by
    intro addr
    rw [hserver, h.malicious]
    rfl

/-- **A step of the server**, with or without a harmless packet. -/
theorem Arena.Sound.serverStep {s : Arena} (h : s.Sound) {event : ServerEvent} {server : ServerRun}
    (hdrops : ¬ DropsSender event)
    (hapart : ∀ proximityRange, event = .snakesInRange proximityRange →
      Apart s.server.server proximityRange)
    (hok : serverEvent mem settings num s.server event = .ok server) :
    AllQuiet server.server ∧ server.server.maliciousClients = none := by
  refine ⟨?_, serverEvent_invariant (fun _ _ hs hstep => malicious_step hdrops hs hstep) h.malicious
    hok⟩
  by_cases hrange : ∃ proximityRange, event = .snakesInRange proximityRange
  · obtain ⟨proximityRange, rfl⟩ := hrange
    obtain ⟨server', hupdate, hok⟩ := bind_eq_ok.mp hok
    cases hok
    exact snakesInRange_apart h.quiet (hapart proximityRange rfl) hupdate
  · exact serverEvent_invariant
      (fun _ _ hs hstep => quiet_step (fun range heq => hrange ⟨range, heq⟩) hs hstep) h.quiet hok

/-- A client that is started only asks to join. -/
theorem Arena.Sound.join {s s' : Arena} (h : s.Sound) {addr : NetAddr} {username : List UInt8}
    {hname : JoinName username}
    (hok : arenaEvent mem settings num s (.join addr username hname) = .ok s') :
    s'.Sound ∧ NeverDropped s (.join addr username hname) s' := by
  cases hok
  refine ⟨{ h with peers := ?_ }, neverDropped_of_clients h nofun rfl⟩
  intro peer hpeer m hm
  rcases List.mem_append.mp hpeer with hold | hnew
  · exact h.peers peer hold m hm
  · cases List.mem_singleton.mp hnew
    rcases mem_vecPush hm with hnil | rfl
    · cases hnil
    · exact harmless_msgJoinRequest hname.1 hname.2 _ _

/-- A simulation update of a client queues chunks of commands only. -/
theorem Arena.Sound.peerSimulates {s s' : Arena} (h : s.Sound) {k : Nat}
    {uninit : Nat → Nat → UInt8} {command : Cmd} {netUpdate : Bool}
    (hok : arenaEvent mem settings num s (.peerSimulates k uninit command netUpdate) = .ok s') :
    s'.Sound ∧ NeverDropped s (.peerSimulates k uninit command netUpdate) s' := by
  unfold arenaEvent at hok
  cases hpeer : s.peers[k]? with
  | none =>
      simp only [hpeer] at hok
      cases hok
      exact ⟨h, neverDropped_of_clients h nofun rfl⟩
  | some peer =>
      simp only [hpeer] at hok
      obtain ⟨⟨client, world⟩, hsim, hok⟩ := bind_eq_ok.mp hok
      cases hok
      obtain ⟨pendingMsgs, rfl, hpending⟩ := clientSimUpdate_spec hsim
      refine ⟨{ h with peers := h.setPeer k fun m hm => ?_ }, neverDropped_of_clients h nofun rfl⟩
      rcases hpending m hm with hold | hchunk
      · exact h.peers peer (List.mem_of_getElem? hpeer) m hold
      · exact hchunk.harmless

/-- What a client sends is what was pending, and so is harmless. -/
theorem Arena.Sound.peerSends {s s' : Arena} (h : s.Sound) {k : Nat}
    (hok : arenaEvent mem settings num s (.peerSends k) = .ok s') :
    s'.Sound ∧ NeverDropped s (.peerSends k) s' := by
  unfold arenaEvent at hok
  cases hpeer : s.peers[k]? with
  | none =>
      simp only [hpeer] at hok
      cases hok
      exact ⟨h, neverDropped_of_clients h nofun rfl⟩
  | some peer =>
      simp only [hpeer] at hok
      obtain ⟨⟨client, packet⟩, hsend, hok⟩ := bind_eq_ok.mp hok
      cases hok
      obtain ⟨buf, left, timeoutCounter, hpack, rfl, hpacket⟩ := clientSendPendingData_packed hsend
      obtain ⟨hleft, hframes⟩ := harmless_clientPackMsgs (h.peers peer (List.mem_of_getElem? hpeer))
        hpack
      refine ⟨{ h with peers := h.setPeer k hleft, packets := fun x hx => ?_ },
        neverDropped_of_clients h nofun rfl⟩
      rcases List.mem_append.mp hx with hold | hnew
      · exact h.packets x hold
      · obtain ⟨udpBuf, hudp, rfl⟩ := Option.map_eq_some_iff.mp (Option.mem_toList.mp hnew)
        rw [hpacket udpBuf hudp]
        exact hframes

/-- Going on to the next frame queues nothing. -/
theorem Arena.Sound.peerNextFrame {s s' : Arena} (h : s.Sound) {k : Nat}
    (hok : arenaEvent mem settings num s (.peerNextFrame k) = .ok s') :
    s'.Sound ∧ NeverDropped s (.peerNextFrame k) s' := by
  unfold arenaEvent at hok
  cases hpeer : s.peers[k]? with
  | none =>
      simp only [hpeer] at hok
      cases hok
      exact ⟨h, neverDropped_of_clients h nofun rfl⟩
  | some peer =>
      simp only [hpeer] at hok
      cases hok
      exact ⟨{ h with peers := h.setPeer k (h.peers peer (List.mem_of_getElem? hpeer)) },
        neverDropped_of_clients h nofun rfl⟩

/-- A harmless packet does not make the server drop its sender. -/
theorem Arena.Sound.toServer {s s' : Arena} (h : s.Sound) {i : Nat}
    (hok : arenaEvent mem settings num s (.toServer i) = .ok s') :
    s'.Sound ∧ NeverDropped s (.toServer i) s' := by
  unfold arenaEvent at hok
  cases hpacket : s.packets[i]? with
  | none =>
      simp only [hpacket] at hok
      cases hok
      exact ⟨h, neverDropped_of_clients h nofun rfl⟩
  | some x =>
      obtain ⟨sender, udpBuf⟩ := x
      simp only [hpacket] at hok
      obtain ⟨server, hserver, hok⟩ := bind_eq_ok.mp hok
      cases hok
      have hdrops : ¬ DropsSender (.packet sender udpBuf) := by
        rintro ⟨_, _, f, ⟨⟩, hf, hdrop⟩
        rw [h.packets _ (List.mem_of_getElem? hpacket) f hf] at hdrop
        cases hdrop
      obtain ⟨hquiet, hmalicious⟩ := h.serverStep hdrops nofun hserver
      refine ⟨{ h with quiet := hquiet, malicious := hmalicious }, nofun, fun addr => ?_⟩
      rw [hmalicious]
      rfl

/-- A packet of the server queues nothing at the client that takes it. -/
theorem Arena.Sound.toPeer {s s' : Arena} (h : s.Sound) {k i : Nat}
    (hok : arenaEvent mem settings num s (.toPeer k i) = .ok s') :
    s'.Sound ∧ NeverDropped s (.toPeer k i) s' := by
  unfold arenaEvent at hok
  cases hpeer : s.peers[k]? with
  | none =>
      simp only [hpeer] at hok
      cases hok
      exact ⟨h, neverDropped_of_clients h nofun rfl⟩
  | some peer =>
      cases hsent : s.server.server.sent[i]? with
      | none =>
          simp only [hpeer, hsent] at hok
          cases hok
          exact ⟨h, neverDropped_of_clients h nofun rfl⟩
      | some x =>
          obtain ⟨receiver, udpBuf⟩ := x
          simp only [hpeer, hsent] at hok
          by_cases hreceiver : receiver = peer.addr
          · rw [if_pos hreceiver] at hok
            obtain ⟨⟨client, world, result⟩, hrecv, hok⟩ := bind_eq_ok.mp hok
            dsimp only at hok
            by_cases herror : result.error = true
            · rw [if_pos herror] at hok
              cases hok
            · rw [if_neg herror] at hok
              cases hok
              have hheard := heard_clientRecv hrecv (Bool.eq_false_iff.mpr herror)
              refine ⟨{ h with peers := h.setPeer k fun m hm => ?_ },
                neverDropped_of_clients h nofun rfl⟩
              exact h.peers peer (List.mem_of_getElem? hpeer) m (hheard.pending_subset hm)
          · rw [if_neg hreceiver] at hok
            cases hok
            exact ⟨h, neverDropped_of_clients h nofun rfl⟩

/-- The server's own steps drop nobody while the snakes are apart. -/
theorem Arena.Sound.server {s s' : Arena} (h : s.Sound) {event : ServerEvent}
    {hown : event.Own} (hcond : staysApart s (.server event hown))
    (hok : arenaEvent mem settings num s (.server event hown) = .ok s') :
    s'.Sound ∧ NeverDropped s (.server event hown) s' := by
  obtain ⟨server, hserver, hok⟩ := bind_eq_ok.mp hok
  cases hok
  have hdrops : ¬ DropsSender event := by
    rintro ⟨_, _, _, rfl, -⟩
    exact hown
  have hapart (proximityRange : Int) (heq : event = .snakesInRange proximityRange) :
      Apart s.server.server proximityRange := by
    subst heq
    exact hcond
  obtain ⟨hquiet, hmalicious⟩ := h.serverStep hdrops hapart hserver
  refine ⟨{ h with quiet := hquiet, malicious := hmalicious }, ?_, fun addr => ?_⟩
  · intro heq
    cases heq
    obtain ⟨server', hsend, hok⟩ := bind_eq_ok.mp hserver
    cases hok
    exact same_sendPendingData h.quiet hsend
  · rw [hmalicious]
    rfl

/-- **A step of the arena**, whichever party makes it. -/
theorem Arena.Sound.event {s s' : Arena} (h : s.Sound) {e : ArenaEvent} (hcond : staysApart s e)
    (hok : arenaEvent mem settings num s e = .ok s') : s'.Sound ∧ NeverDropped s e s' := by
  cases e with
  | join addr username hname => exact h.join hok
  | peerSimulates k uninit command netUpdate => exact h.peerSimulates hok
  | peerSends k => exact h.peerSends hok
  | peerNextFrame k => exact h.peerNextFrame hok
  | toServer i => exact h.toServer hok
  | toPeer k i => exact h.toPeer hok
  | server event hown => exact h.server hcond hok

end

/-- **No client is dropped** as long as the snakes of different clients stay apart. -/
theorem never_dropped (mem : Alloc) (settings : ServerSettings) (num : Numerics)
    (events : List ArenaEvent)
    (hapart : Run.Meets (arenaEvent mem settings num) staysApart Arena.begin events) :
    Run.EverySafe (arenaEvent mem settings num) NeverDropped (fun _ => True) Arena.begin events :=
  Run.everySafe_of_meets (fun _ _ _ hs hcond hok => hs.event hcond hok) Arena.sound_begin hapart

/-! ## Two clients that meet -/

/-- A client simulates three frames and sends its commands. -/
def peerWorks (k : Nat) : List ArenaEvent :=
  [.peerSimulates k (fun _ _ => 0) cmdDefault false, .peerNextFrame k,
    .peerSimulates k (fun _ _ => 0) cmdDefault false, .peerNextFrame k,
    .peerSimulates k (fun _ _ => 0) cmdDefault true, .peerSends k, .peerNextFrame k]

/-- The server receives, in the network update with that number, what its clients
have sent last, simulates the snakes and looks for snakes in range. -/
def serverWorks (clients n : Nat) : List ArenaEvent :=
  [.server .timeouts trivial, .server .malicious trivial] ++
    (List.range clients).map (fun k => .toServer (clients * n + k)) ++
    [.server .simulate trivial, .server (.snakesInRange (10 * 2 ^ 14)) trivial,
      .server .queueData trivial]

/-- It sends what is pending, which all arrives, and goes on. -/
def networkUpdate (clients n : Nat) : List ArenaEvent :=
  serverWorks clients n ++
    [.server .sendPending trivial, .server .nextFrame trivial, .server .simulate trivial,
      .server .nextFrame trivial, .server .simulate trivial, .server .nextFrame trivial] ++
    (List.range clients).flatMap fun k => .toPeer k (clients * n + k) :: peerWorks k

/-- Sine and cosine of the angle 0, and snakes that only keep their newest segment. -/
def shedding : Numerics :=
  { eastward with equidistantPoints := fun handles _ _ => handles.length - 2 }

/-- The server works until it sends again, and its packets from number `i` on arrive. -/
def serverRound (i : Nat) : List ArenaEvent :=
  [.server .timeouts trivial, .server .malicious trivial, .server .simulate trivial,
    .server (.snakesInRange (10 * 2 ^ 14)) trivial, .server .queueData trivial,
    .server .sendPending trivial, .server .nextFrame trivial, .toPeer 0 i, .toPeer 1 i,
    .toPeer 0 (i + 1), .toPeer 1 (i + 1)]

/-- The first client joins and boosts away. -/
def partingRun : List ArenaEvent :=
  [.join (loopback 40000) [97] ⟨nofun, by decide⟩, .peerSends 0, .toServer 0,
    .server .sendPending trivial, .toPeer 0 0,
    .peerSimulates 0 (fun _ _ => 0) { cmdDefault with action := cmdActionBoost } true,
    .peerSends 0, .peerNextFrame 0, .toServer 1] ++
    (List.replicate 250 [.server .simulate trivial, .server .nextFrame trivial]).flatten

/-- The second client joins when the first one is far away, and they play on. -/
def partedRun : List ArenaEvent :=
  partingRun ++
    [.join (loopback 40001) [98] ⟨nofun, by decide⟩, .peerSends 1, .toServer 2] ++
    serverRound 1 ++ peerWorks 1 ++ [.toServer 3] ++ serverRound 3 ++ serverRound 5

/-- The server looks for snakes in range three times, with two snakes that are apart. -/
theorem never_dropped_parted :
    Run.EverySafe (arenaEvent Alloc.unlimited serverSettingsDefaults shedding) NeverDropped
      (fun _ => True) Arena.begin partedRun :=
  never_dropped Alloc.unlimited serverSettingsDefaults shedding partedRun (by decide +kernel)

/-- Two clients join, and the server is about to send for the tenth time. -/
def meetingRun : List ArenaEvent :=
  [.join (loopback 40000) [97] ⟨nofun, by decide⟩, .join (loopback 40001) [98] ⟨nofun, by decide⟩,
    .peerSends 0, .peerSends 1] ++ (List.range 9).flatMap (networkUpdate 2) ++ serverWorks 2 9

/-- The tenth network update removes both clients. -/
theorem meeting_ends : ∃ s s' : Arena,
    Run.run (arenaEvent Alloc.unlimited serverSettingsDefaults eastward) Arena.begin meetingRun =
      .ok s ∧
    arenaEvent Alloc.unlimited serverSettingsDefaults eastward s (.server .sendPending trivial) =
      .ok s' ∧
    s.Lossless ∧ s.server.server.clients.count = 2 ∧ s'.server.server.clients.count = 0 := by
  have h : (do
      let s ← Run.run (arenaEvent Alloc.unlimited serverSettingsDefaults eastward) Arena.begin
        meetingRun
      let s' ← arenaEvent Alloc.unlimited serverSettingsDefaults eastward s
        (.server .sendPending trivial)
      return (decide s.Lossless, s.server.server.clients.count, s'.server.server.clients.count)) =
        Except.ok (true, 2, 0) := by decide +kernel
  obtain ⟨s, hs, h⟩ := bind_eq_ok.mp h
  obtain ⟨s', hs', h⟩ := bind_eq_ok.mp h
  rw [pure_eq_ok, Except.ok.injEq, Prod.mk.injEq, Prod.mk.injEq, decide_eq_true_eq] at h
  exact ⟨s, s', hs, hs', h⟩

/-- **Two clients that do all that clients do** are dropped where they start. -/
theorem dropped_where_they_start :
    (∃ s, Run.run (arenaEvent Alloc.unlimited serverSettingsDefaults eastward) Arena.begin
      meetingRun = .ok s ∧ s.Lossless) ∧
    ¬ Run.EverySafe (arenaEvent Alloc.unlimited serverSettingsDefaults eastward) NeverDropped
      (fun _ => True) Arena.begin (meetingRun ++ [.server .sendPending trivial]) := by
  obtain ⟨s, s', hs, hs', hlossless, htwo, hnone⟩ := meeting_ends
  refine ⟨⟨s, hs, hlossless⟩, fun hsafe => ?_⟩
  have hsame := (Run.effect_of_everySafe hsafe hs hs').stays rfl
  rw [ValidHm.count_eq] at htwo hnone
  obtain ⟨e, he⟩ := List.exists_mem_of_length_pos
    (by rw [htwo]; decide : 0 < s.server.server.clients.entries.length)
  obtain ⟨e', he', -⟩ := hsame.stays e he not_false
  rw [List.length_eq_zero_iff.mp hnone] at he'
  cases he'

end Clither
