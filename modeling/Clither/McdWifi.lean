import Clither.Args
import Clither.Lib.DelayLine
import Clither.Lib.Run
import Clither.Server

/-!
# McDonald's WiFi

A proxy between the client and the server that makes the connection worse.  It
reads what has arrived on both sides, loses some of it and keeps the rest in two
queues.  Each queued packet has a header of three bytes: its length and the
number of turns that it still waits.  Once per turn, both queues are gone through:
what waits no longer is sent on, and the counters of the others go down.

The environment of a turn is what the sockets return, and the results of `rand`
are a parameter.
-/

namespace Clither

open Faults (bind_eq_ok)

/-! ## The queues -/

/-- The instance of `msg_buf`. -/
def msgBuf : VecInstance where
  header := 8
  sizeofElem := 8
  header_lt := ElemType.vecHeader_lt .pointer
  sizeofElem_pos := ElemType.size_pos .pointer

/-- A queued packet: the three bytes of the header and what `recv` has written
behind them. -/
structure McdMsg where
  lenHigh : UInt8
  lenLow : UInt8
  countdown : UInt8
  data : List UInt8
  deriving DecidableEq

/-- The packet that is allocated for what has been received. -/
def mcdMsg (countdown : UInt8) (data : List UInt8) : McdMsg where
  lenHigh := (UInt16.ofNat data.length >>> 8).toUInt8
  lenLow := (UInt16.ofNat data.length).toUInt8
  countdown := countdown
  data := data

/-- The bytes that are sent: as many as the header says. -/
def McdMsg.sentBytes (msg : McdMsg) : List UInt8 :=
  msg.data.take (read16 msg.lenHigh msg.lenLow).toNat

/-- `TICK_RATE`. -/
def mcdTickRate : Int := 60

/-- The results of `rand`, in the order of the calls. -/
structure Rand where
  randMax : Int
  value : Nat → Int
  randMax_ge : 32767 ≤ randMax
  nonneg : ∀ i, 0 ≤ value i
  le_randMax : ∀ i, value i ≤ randMax

/-- `struct ctx`, the queues and the number of calls of `rand`.  The sockets to
the server are a stack of which the last is used.  `toServer` and `toClient` log
what has been sent. -/
structure McdWifi where
  serverFd : Int
  otherFds : List Int
  clientAddr : Option NetAddr
  clientActive : Bool
  clientBuf : Vec msgBuf McdMsg
  serverBuf : Vec msgBuf McdMsg
  randCalls : Nat
  toServer : List (Int × List UInt8)
  toClient : List (Option NetAddr × List UInt8)
  deriving DecidableEq

def McdWifi.begin (serverFd : Int) (otherFds : List Int) : McdWifi where
  serverFd := serverFd
  otherFds := otherFds
  clientAddr := none
  clientActive := false
  clientBuf := vecInit
  serverBuf := vecInit
  randCalls := 0
  toServer := []
  toClient := []

/-- What the sockets return in one turn, where `none` is an error. -/
structure McdTurn where
  fromClient : List (Option (NetAddr × List UInt8))
  fromServer : List (Option (List UInt8))

section

variable (mem : Alloc) (a : Args) (rand : Rand)

/-- `rand() < (int64_t)percent * RAND_MAX / 100`. -/
def chance (percent : Int) (call : Nat) : Bool :=
  decide (rand.value call < Int.tdiv (percent * rand.randMax) 100)

/-- The turns that a packet waits, as the byte of the header has room for them.  The product is an
`int`. -/
def mcdDelay : UInt8 :=
  UInt8.ofInt (Int.tdiv (wrapInt 32 (mcdTickRate * a.mcdLatency)) 1000)

/-- The turns that a reordered packet waits longer. -/
def mcdExtra (call : Nat) : UInt8 :=
  UInt8.ofInt (Int.tdiv (rand.value call * mcdTickRate) rand.randMax)

/-- A packet that has not been lost is added to the queue.  The counter of a
reordered packet goes up when it and its duplicate are in the queue already, so
that the duplicate does not wait longer. -/
def mcdAdd (buf : Vec msgBuf McdMsg) (calls : Nat) (data : List UInt8) :
    Except Fault (Vec msgBuf McdMsg × Nat) :=
  let duplicated := chance rand a.mcdDup calls
  let reordered := chance rand a.mcdReorder (calls + 1)
  let extra := if reordered then mcdExtra rand (calls + 2) else 0
  if granted mem (data.length + 3) then
    let buf := vecPush mem buf (mcdMsg (mcdDelay a + extra) data)
    let buf := if duplicated then vecPush mem buf (mcdMsg (mcdDelay a) data) else buf
    .ok (buf, if reordered then calls + 3 else calls + 2)
  else .error .outOfBlock

/-- The loop that reads from the client.  A call that returns no bytes ends it. -/
def readClient : List (Option (NetAddr × List UInt8)) → McdWifi → Except Fault McdWifi
  | [], s => .ok s
  | none :: _, _ => .error .stopped
  | some (addr, datagram) :: rest, s =>
      let s := { s with clientAddr := some addr }
      let data := datagram.take netMaxUdpPacketSize
      if data = [] then .ok s
      else if chance rand a.mcdLoss s.randCalls then
        readClient rest { s with randCalls := s.randCalls + 1 }
      else do
        let (buf, calls) ← mcdAdd mem a rand s.clientBuf (s.randCalls + 1) data
        readClient rest { s with clientBuf := buf, randCalls := calls, clientActive := true }

/-- The loop that reads from the server.  A socket that fails is closed, and the
next one is tried. -/
def readServer : List (Option (List UInt8)) → McdWifi → Except Fault McdWifi
  | [], s => .ok s
  | none :: rest, s =>
      match s.otherFds.getLast? with
      | none => .error .stopped
      | some fd => readServer rest { s with serverFd := fd, otherFds := s.otherFds.dropLast }
  | some datagram :: rest, s =>
      let data := datagram.take netMaxUdpPacketSize
      if data = [] then .ok s
      else if chance rand a.mcdLoss s.randCalls then
        readServer rest { s with randCalls := s.randCalls + 1 }
      else do
        let (buf, calls) ← mcdAdd mem a rand s.serverBuf (s.randCalls + 1) data
        readServer rest { s with serverBuf := buf, randCalls := calls }

/-- The common part of `send_pending_client_msgs` and `send_pending_server_msgs`. -/
def sendPendingMsg {σ : Type} (send : σ → List UInt8 → σ) (sent : σ) (msg : McdMsg) :
    Option (σ × Option McdMsg) :=
  if msg.countdown = 0 then some (send sent msg.sentBytes, none)
  else some (sent, some { msg with countdown := msg.countdown - 1 })

/-- `send_pending_client_msgs`. -/
def sendPendingClientMsgs (fd : Int) :=
  sendPendingMsg fun (sent : List (Int × List UInt8)) bytes => sent ++ [(fd, bytes)]

/-- `send_pending_server_msgs`. -/
def sendPendingServerMsgs (active : Bool) (addr : Option NetAddr) :=
  sendPendingMsg fun (sent : List (Option NetAddr × List UInt8)) bytes =>
    if active then sent ++ [(addr, bytes)] else sent

/-- The callbacks return no error, so `retain` returns none either. -/
def mcdSend (s : McdWifi) : Option McdWifi := do
  let (toServer, clientBuf) ← vecRetain (sendPendingClientMsgs s.serverFd) s.toServer s.clientBuf
  let (toClient, serverBuf) ←
    vecRetain (sendPendingServerMsgs s.clientActive s.clientAddr) s.toClient s.serverBuf
  return { s with toServer := toServer, toClient := toClient, clientBuf := clientBuf,
                  serverBuf := serverBuf }

/-- One turn of the loop of `run_mcd_wifi`, up to `tick_wait`. -/
def mcdTurn (s : McdWifi) (t : McdTurn) : Except Fault McdWifi := do
  let s ← readClient mem a rand t.fromClient s
  let s ← readServer mem a rand t.fromServer s
  return (mcdSend s).getD s

end

/-! ## Packets -/

/-- The header holds the length of the packet. -/
theorem sentBytes_mcdMsg (countdown : UInt8) {data : List UInt8} (h : data.length < 2 ^ 16) :
    (mcdMsg countdown data).sentBytes = data := by
  have hread : read16 (mcdMsg countdown data).lenHigh (mcdMsg countdown data).lenLow =
      UInt16.ofNat data.length := read16_bytes16 _
  rw [McdMsg.sentBytes, hread, UInt16.toNat_ofNat_of_lt' h]
  exact List.take_length

/-- What `recvfrom` reads of a datagram fits 16 bits. -/
theorem length_take_udp (datagram : List UInt8) :
    (datagram.take netMaxUdpPacketSize).length < 2 ^ 16 := by
  have hcap : netMaxUdpPacketSize < 2 ^ 16 := by decide
  exact (List.length_take_le _ _).trans_lt hcap

/-- A queued packet for an entry of a delay line. -/
def mcdEntry (entry : Nat × List UInt8) : McdMsg :=
  mcdMsg (UInt8.ofNat entry.1) entry.2

/-- The queue holds the entries of the line. -/
structure Queues (buf : Vec msgBuf McdMsg) (line : List (Nat × List UInt8)) : Prop where
  items : buf.items = line.map mcdEntry
  countdown : ∀ entry ∈ line, entry.1 < 256
  length : ∀ entry ∈ line, entry.2.length < 2 ^ 16

/-- **One pass over a queue** sends what is due and brings the rest closer. -/
theorem retainLoop_sendPendingMsg {σ : Type} (send : σ → List UInt8 → σ) (sent : σ)
    {line : List (Nat × List UInt8)} (hcountdown : ∀ entry ∈ line, entry.1 < 256)
    (hlength : ∀ entry ∈ line, entry.2.length < 2 ^ 16) :
    retainLoop (sendPendingMsg send) sent (line.map mcdEntry) =
      some ((DelayLine.due line).foldl send sent, (DelayLine.closer line).map mcdEntry) := by
  induction line generalizing sent with
  | nil => rfl
  | cons entry rest ih =>
      obtain ⟨hfirst, hrest⟩ := List.forall_mem_cons.mp hcountdown
      obtain ⟨hshort, hshorts⟩ := List.forall_mem_cons.mp hlength
      have hbytes : (mcdEntry entry).sentBytes = entry.2 := sentBytes_mcdMsg _ hshort
      rw [List.map_cons, retainLoop, sendPendingMsg, DelayLine.due_cons, DelayLine.closer_cons]
      by_cases hdue : entry.1 = 0
      · have hzero : (mcdEntry entry).countdown = 0 := by
          rw [mcdEntry, mcdMsg, hdue]
          rfl
        rw [if_pos hzero, if_pos hdue, if_pos hdue, hbytes, List.foldl_cons]
        simp only [ih _ hrest hshorts]
        rfl
      · have hpos : (mcdEntry entry).countdown ≠ 0 := by
          intro hzero
          have hnat := UInt8.toNat_inj.mpr hzero
          rw [mcdEntry, mcdMsg, UInt8.toNat_ofNat_of_lt' hfirst] at hnat
          exact hdue hnat
        have hcloser : { mcdEntry entry with countdown := (mcdEntry entry).countdown - 1 } =
            mcdEntry (entry.1 - 1, entry.2) := by
          have hsub : UInt8.ofNat entry.1 - 1 = UInt8.ofNat (entry.1 - 1) := by
            obtain ⟨n, hn⟩ := Nat.exists_eq_succ_of_ne_zero hdue
            rw [hn, Nat.succ_eq_add_one, UInt8.ofNat_add, Nat.add_sub_cancel]
            grind
          simp only [mcdEntry, mcdMsg, hsub]
        rw [if_neg hpos, if_neg hdue, if_neg hdue, List.map_cons, hcloser]
        simp only [ih _ hrest hshorts]
        rfl

/-- One pass sends what is due, in order, and brings the rest one turn closer. -/
theorem Queues.retain {buf : Vec msgBuf McdMsg} {line : List (Nat × List UInt8)}
    (h : Queues buf line) {σ : Type} (send : σ → List UInt8 → σ) (sent : σ) :
    ∃ buf', vecRetain (sendPendingMsg send) sent buf =
        some ((DelayLine.due line).foldl send sent, buf') ∧
          Queues buf' (DelayLine.closer line) := by
  have hloop := retainLoop_sendPendingMsg send sent h.countdown h.length
  rw [← h.items] at hloop
  obtain ⟨buf', hretain, hitems⟩ := items_vecRetain hloop
  refine ⟨buf', hretain, hitems, ?_, ?_⟩
  · intro entry hentry
    obtain ⟨waiting, hwaiting, hlt, -⟩ := DelayLine.mem_closer hentry
    exact hlt.trans (h.countdown waiting hwaiting)
  · intro entry hentry
    obtain ⟨waiting, hwaiting, -, heq⟩ := DelayLine.mem_closer hentry
    rw [heq]
    exact h.length waiting hwaiting

/-- Sending adds the bytes at the end, and nothing without an active client. -/
theorem map_foldl_send {τ : Type} (active : Bool) (target : τ) (bytes : List (List UInt8))
    (sent : List (τ × List UInt8)) :
    (bytes.foldl (fun sent bytes => if active then sent ++ [(target, bytes)] else sent) sent).map
        Prod.snd = sent.map Prod.snd ++ if active then bytes else [] := by
  induction bytes generalizing sent with
  | nil => cases active <;> simp
  | cons first rest ih =>
      rw [List.foldl_cons, ih]
      cases active <;> simp

/-- Both queues hold the entries of a line. -/
structure McdHolds (s : McdWifi) (clientLine serverLine : List (Nat × List UInt8)) : Prop where
  client : Queues s.clientBuf clientLine
  server : Queues s.serverBuf serverLine

/-- Sending the pending messages of both directions moves both delay lines by one turn. -/
theorem McdHolds.send {s : McdWifi} {clientLine serverLine : List (Nat × List UInt8)}
    (h : McdHolds s clientLine serverLine) :
    ∃ s', mcdSend s = some s' ∧ s'.clientActive = s.clientActive ∧
      McdHolds s' (DelayLine.closer clientLine) (DelayLine.closer serverLine) ∧
      s'.toServer.map Prod.snd = s.toServer.map Prod.snd ++ DelayLine.due clientLine ∧
      s'.toClient.map Prod.snd = s.toClient.map Prod.snd ++
        if s.clientActive then DelayLine.due serverLine else [] := by
  obtain ⟨clientBuf, hclient, hclientBuf⟩ := h.client.retain
    (fun sent bytes => sent ++ [(s.serverFd, bytes)]) s.toServer
  obtain ⟨serverBuf, hserver, hserverBuf⟩ := h.server.retain
    (fun sent bytes => if s.clientActive then sent ++ [(s.clientAddr, bytes)] else sent) s.toClient
  have hsend : mcdSend s = some { s with
      toServer := (DelayLine.due clientLine).foldl
        (fun sent bytes => sent ++ [(s.serverFd, bytes)]) s.toServer
      toClient := (DelayLine.due serverLine).foldl
        (fun sent bytes => if s.clientActive then sent ++ [(s.clientAddr, bytes)] else sent)
        s.toClient
      clientBuf := clientBuf
      serverBuf := serverBuf } := by
    simp only [mcdSend, sendPendingClientMsgs, sendPendingServerMsgs, hclient, hserver]
    rfl
  refine ⟨_, hsend, rfl, ⟨hclientBuf, hserverBuf⟩, ?_, ?_⟩
  · exact map_foldl_send true s.serverFd _ _
  · exact map_foldl_send s.clientActive s.clientAddr _ _

/-! ## What becomes of a packet -/

/-- The turns that a packet may wait. -/
def McdWaits (a : Args) (delay : Nat) : Prop :=
  delay = (mcdDelay a).toNat ∨
    0 < a.mcdReorder ∧ ∃ extra ≤ 60, delay = ((mcdDelay a).toNat + extra) % 256

/-- What a packet becomes: entries of the queue with the turns that they wait. -/
inductive PacketFate (a : Args) (data : List UInt8) : List (Nat × List UInt8) → Prop where
  | lost (hloss : 0 < a.mcdLoss) : PacketFate a data []
  | once {delay : Nat} (hloss : a.mcdLoss ≤ 100) (hwaits : McdWaits a delay) :
      PacketFate a data [(delay, data)]
  | twice {delay : Nat} (hloss : a.mcdLoss ≤ 100) (hdup : 0 < a.mcdDup)
      (hwaits : McdWaits a delay) :
      PacketFate a data [(delay, data), ((mcdDelay a).toNat, data)]

/-- What a turn makes of the packets that it reads from one side: their copies, and those of them
that the queue has taken. -/
structure Copies where
  made : List (Nat × List UInt8)
  queued : List (Nat × List UInt8)

/-- Each packet has become what it may become.  With `room`, the queue has taken all of the
copies. -/
structure TurnFates (a : Args) (room : Prop) (packets : List (List UInt8)) (copies : Copies) :
    Prop where
  fates : ∃ parts, copies.made = parts.flatten ∧ List.Forall₂ (PacketFate a) packets parts
  sublist : copies.queued.Sublist copies.made
  all : room → copies.queued = copies.made

section

variable {mem : Alloc} {a : Args} {rand : Rand}

/-- A chance of zero per cent never comes true. -/
theorem pos_of_chance {percent : Int} {call : Nat} (h : chance rand percent call = true) :
    0 < percent := by
  have hlt := of_decide_eq_true h
  have hnonneg := rand.nonneg call
  have hmax := rand.randMax_ge
  by_contra hneg
  have hle : percent * rand.randMax ≤ 0 := by
    have : 0 ≤ -percent * rand.randMax := Int.mul_nonneg (by omega) (by omega)
    rw [Int.neg_mul] at this
    omega
  have hzero := Int.tdiv_le_tdiv (by decide : (0 : Int) < 100) hle
  rw [Int.zero_tdiv] at hzero
  omega

/-- With more than 100 percent it always happens. -/
theorem le_of_not_chance {percent : Int} {call : Nat} (h : chance rand percent call = false) :
    percent ≤ 100 := by
  have hge := of_decide_eq_false h
  have hle := rand.le_randMax call
  have hmax := rand.randMax_ge
  by_contra hmore
  have hmul : (rand.randMax + 1) * 100 ≤ percent * rand.randMax := by
    have : 101 * rand.randMax ≤ percent * rand.randMax :=
      Int.mul_le_mul_of_nonneg_right (by omega) (by omega)
    omega
  have := Int.le_tdiv_of_mul_le (by decide : (0 : Int) < 100) hmul
  omega

/-- The extra delay is at most 60 turns. -/
theorem mcdExtra_le (call : Nat) : (mcdExtra rand call).toNat ≤ 60 := by
  have hnonneg := rand.nonneg call
  have hmax := rand.randMax_ge
  have hle : rand.value call * mcdTickRate ≤ 60 * rand.randMax := by
    have := rand.le_randMax call
    rw [mcdTickRate]
    omega
  have hquot := Int.tdiv_le_tdiv (by omega : 0 < rand.randMax) hle
  rw [Int.mul_tdiv_cancel _ (by omega)] at hquot
  have hpos : 0 ≤ Int.tdiv (rand.value call * mcdTickRate) rand.randMax :=
    Int.tdiv_nonneg (Int.mul_nonneg hnonneg (by decide)) (by omega)
  obtain ⟨n, hn⟩ := Int.eq_ofNat_of_zero_le hpos
  rw [hn] at hquot
  have hsmall : ((n : Int) % 2 ^ 8).toNat = n := by omega
  have hlt : n < 2 ^ 8 := by omega
  rw [mcdExtra, hn, UInt8.ofInt, hsmall, UInt8.toNat_ofNat_of_lt' hlt]
  omega

/-- An entry of the delay line is the message with its countdown. -/
theorem mcdEntry_toNat (countdown : UInt8) (data : List UInt8) :
    mcdEntry (countdown.toNat, data) = mcdMsg countdown data := by
  rw [mcdEntry, UInt8.ofNat_toNat]

/-- A queue takes a packet or is left as it is. -/
theorem Queues.push {buf : Vec msgBuf McdMsg} {line : List (Nat × List UInt8)} (h : Queues buf line)
    (countdown : UInt8) {data : List UInt8} (hshort : data.length < 2 ^ 16) :
    ∃ part, Queues (vecPush mem buf (mcdMsg countdown data)) (line ++ part) ∧
      part.Sublist [(countdown.toNat, data)] ∧
      (mem = Alloc.unlimited → line.length < 2 ^ 14 → part = [(countdown.toNat, data)]) := by
  have hitems := items_vecPush mem buf (mcdMsg countdown data)
  by_cases hspace : vecHasSpace mem buf = true
  · rw [if_pos hspace, h.items] at hitems
    refine ⟨[(countdown.toNat, data)], ⟨?_, ?_, ?_⟩, List.Sublist.refl _, fun _ _ => rfl⟩
    · rw [hitems, List.map_append, List.map_singleton, mcdEntry_toNat]
    · intro entry hentry
      rcases List.mem_append.mp hentry with hold | hnew
      · exact h.countdown entry hold
      · rw [List.mem_singleton.mp hnew]
        exact countdown.toNat_lt
    · intro entry hentry
      rcases List.mem_append.mp hentry with hold | hnew
      · exact h.length entry hold
      · rw [List.mem_singleton.mp hnew]
        exact hshort
  · rw [if_neg hspace, h.items] at hitems
    refine ⟨[], ⟨by rw [hitems, List.append_nil], ?_, ?_⟩, List.nil_sublist _, ?_⟩
    · rw [List.append_nil]
      exact h.countdown
    · rw [List.append_nil]
      exact h.length
    · rintro rfl hlen
      rw [vecHasSpace_unlimited, h.items, List.length_map] at hspace
      exact absurd (decide_eq_true hlen) hspace

/-- A copy waits the delay and, when it is reordered, the extra on top. -/
theorem waits_of_reordered (calls : Nat) :
    McdWaits a (mcdDelay a + if chance rand a.mcdReorder (calls + 1) then
      mcdExtra rand (calls + 2) else 0).toNat := by
  by_cases hreordered : chance rand a.mcdReorder (calls + 1) = true
  · rw [if_pos hreordered, UInt8.toNat_add]
    exact Or.inr ⟨pos_of_chance hreordered, _, mcdExtra_le _, rfl⟩
  · rw [if_neg hreordered, UInt8.add_zero]
    exact Or.inl rfl

/-- **What is added to a queue.** -/
theorem mcdAdd_spec {buf buf' : Vec msgBuf McdMsg} {calls calls' : Nat} {data : List UInt8}
    {line : List (Nat × List UInt8)} (hbuf : Queues buf line) (hshort : data.length < 2 ^ 16)
    (hloss : a.mcdLoss ≤ 100) (hadd : mcdAdd mem a rand buf calls data = .ok (buf', calls')) :
    ∃ part entries, Queues buf' (line ++ part) ∧ PacketFate a data entries ∧ entries ≠ [] ∧
      part.Sublist entries ∧
      (mem = Alloc.unlimited → line.length + 2 ≤ 2 ^ 14 → part = entries) := by
  have hwaits := @waits_of_reordered a rand calls
  rw [mcdAdd] at hadd
  dsimp only at hadd
  generalize hextra : (if chance rand a.mcdReorder (calls + 1) then mcdExtra rand (calls + 2)
    else 0) = extra at hadd hwaits
  split at hadd
  · obtain ⟨first, hfirst, hsub, hroom⟩ := @Queues.push mem _ _ hbuf (mcdDelay a + extra) _ hshort
    by_cases hdup : chance rand a.mcdDup calls = true
    · rw [if_pos hdup] at hadd
      cases hadd
      obtain ⟨second, hsecond, hsub', hroom'⟩ := @Queues.push mem _ _ hfirst (mcdDelay a) _ hshort
      rw [List.append_assoc] at hsecond
      refine ⟨first ++ second, _, hsecond, .twice hloss (pos_of_chance hdup) hwaits,
        List.cons_ne_nil _ _, hsub.append hsub', ?_⟩
      intro hmem hlen
      have hone : first.length ≤ 1 := hsub.length_le
      rw [hroom hmem (by omega), hroom' hmem (by rw [List.length_append]; omega)]
      rfl
    · rw [if_neg hdup] at hadd
      cases hadd
      exact ⟨first, _, hfirst, .once hloss hwaits, List.cons_ne_nil _ _, hsub,
        fun hmem hlen => hroom hmem (by omega)⟩
  · cases hadd

/-! ## One turn -/

/-- What a turn reads from a socket, up to a call that returns no bytes. -/
def received : List (Option (List UInt8)) → List (List UInt8)
  | [] => []
  | none :: rest => received rest
  | some datagram :: rest =>
      let data := datagram.take netMaxUdpPacketSize
      if data = [] then [] else data :: received rest

/-- The packets that a turn reads from the client. -/
def McdTurn.requests (t : McdTurn) : List (List UInt8) :=
  received (t.fromClient.map (Option.map Prod.snd))

/-- The packets that a turn reads from the server. -/
def McdTurn.answers (t : McdTurn) : List (List UInt8) :=
  received t.fromServer

/-- A turn without packets makes no copies. -/
theorem turnFates_nil (a : Args) (room : Prop) : TurnFates a room [] ⟨[], []⟩ :=
  ⟨⟨[], rfl, .nil⟩, List.Sublist.refl _, fun _ => rfl⟩

/-- The copies of the first packet come before those of the others. -/
theorem TurnFates.cons {room : Prop} {data : List UInt8} {packets : List (List UInt8)}
    {part entries : List (Nat × List UInt8)} {copies : Copies}
    (h : TurnFates a room packets copies) (hfate : PacketFate a data entries)
    (hsub : part.Sublist entries) (hroom : room → part = entries) :
    TurnFates a room (data :: packets) ⟨entries ++ copies.made, part ++ copies.queued⟩ := by
  obtain ⟨parts, hmade, hparts⟩ := h.fates
  refine ⟨⟨entries :: parts, ?_, .cons hfate hparts⟩, hsub.append h.sublist, ?_⟩
  · rw [List.flatten_cons, hmade]
  · intro h'
    rw [hroom h', h.all h']

/-- A packet that is lost leaves no copies. -/
theorem TurnFates.lost {room : Prop} {data : List UInt8} {packets : List (List UInt8)}
    {copies : Copies} (h : TurnFates a room packets copies) (hloss : 0 < a.mcdLoss) :
    TurnFates a room (data :: packets) copies :=
  h.cons (.lost hloss) (List.Sublist.refl _) fun _ => rfl

/-- A stronger assumption on the room keeps the fates. -/
theorem TurnFates.weaken {room room' : Prop} {packets : List (List UInt8)} {copies : Copies}
    (h : TurnFates a room packets copies) (hroom : room' → room) :
    TurnFates a room' packets copies :=
  ⟨h.fates, h.sublist, fun h' => h.all (hroom h')⟩

/-- An answer that is not queued needs no room. -/
theorem room_of_cons {α : Type} {n : Nat} {answer : α} {rest : List α}
    (h : mem = Alloc.unlimited ∧ n + 2 * (answer :: rest).length ≤ 2 ^ 14) :
    mem = Alloc.unlimited ∧ n + 2 * rest.length ≤ 2 ^ 14 := by
  obtain ⟨hmem, hlen⟩ := h
  rw [List.length_cons] at hlen
  exact ⟨hmem, by omega⟩

/-- A packet becomes at most two entries. -/
theorem PacketFate.length_le {data : List UInt8} {entries : List (Nat × List UInt8)}
    (h : PacketFate a data entries) : entries.length ≤ 2 := by
  cases h <;> simp

/-- **Reading from the client**: the client is active as soon as one packet is not lost. -/
theorem readClient_spec {answers : List (Option (NetAddr × List UInt8))} {s s' : McdWifi}
    {clientLine serverLine : List (Nat × List UInt8)} (h : McdHolds s clientLine serverLine)
    (hread : readClient mem a rand answers s = .ok s') :
    ∃ copies, TurnFates a
        (mem = Alloc.unlimited ∧ clientLine.length + 2 * answers.length ≤ 2 ^ 14)
        (received (answers.map (Option.map Prod.snd))) copies ∧
      McdHolds s' (clientLine ++ copies.queued) serverLine ∧ s'.toServer = s.toServer ∧
      s'.toClient = s.toClient ∧
      (s'.clientActive = true ↔ s.clientActive = true ∨ copies.made ≠ []) := by
  induction answers generalizing s clientLine with
  | nil =>
      cases hread
      exact ⟨⟨[], []⟩, turnFates_nil a _, by rwa [List.append_nil], rfl, rfl, by simp⟩
  | cons answer rest ih =>
      cases answer with
      | none => cases hread
      | some packet =>
          obtain ⟨addr, datagram⟩ := packet
          rw [readClient] at hread
          simp only [List.map_cons, Option.map_some, received]
          by_cases hempty : datagram.take netMaxUdpPacketSize = []
          · rw [if_pos hempty] at hread ⊢
            cases hread
            exact ⟨⟨[], []⟩, turnFates_nil a _, by rw [List.append_nil]; exact ⟨h.client, h.server⟩,
              rfl, rfl, by simp⟩
          · rw [if_neg hempty] at hread ⊢
            by_cases hlost : chance rand a.mcdLoss s.randCalls = true
            · rw [if_pos hlost] at hread
              have hnext : McdHolds { s with clientAddr := some addr, randCalls := s.randCalls + 1 }
                  clientLine serverLine := ⟨h.client, h.server⟩
              obtain ⟨copies, hfates, hholds, hserver, hclient, hactive⟩ := ih hnext hread
              exact ⟨copies, (hfates.weaken room_of_cons).lost (pos_of_chance hlost), hholds,
                hserver, hclient, hactive⟩
            · rw [if_neg hlost] at hread
              obtain ⟨⟨buf, calls⟩, hadd, hread⟩ := bind_eq_ok.mp hread
              have hloss := le_of_not_chance (Bool.eq_false_of_not_eq_true hlost)
              obtain ⟨part, entries, hbuf, hfate, hne, hsub, hexact⟩ :=
                mcdAdd_spec h.client (length_take_udp datagram) hloss hadd
              have hone : part.length ≤ 2 := hsub.length_le.trans hfate.length_le
              have hnext : McdHolds { s with clientAddr := some addr, clientBuf := buf,
                                             randCalls := calls, clientActive := true }
                  (clientLine ++ part) serverLine := ⟨hbuf, h.server⟩
              obtain ⟨copies, hfates, hholds, hserver, hclient, hactive⟩ := ih hnext hread
              rw [List.append_assoc] at hholds
              refine ⟨⟨entries ++ copies.made, part ++ copies.queued⟩,
                (hfates.weaken ?_).cons hfate hsub ?_, hholds, hserver, hclient, ?_⟩
              · rintro ⟨hmem, hlen⟩
                rw [List.length_cons] at hlen
                exact ⟨hmem, by rw [List.length_append]; omega⟩
              · rintro ⟨hmem, hlen⟩
                rw [List.length_cons] at hlen
                exact hexact hmem (by omega)
              · have hmade : entries ++ copies.made ≠ [] := List.append_ne_nil_of_left_ne_nil hne _
                exact ⟨fun _ => Or.inr hmade, fun _ => hactive.mpr (Or.inl rfl)⟩

/-- **Reading from the server** does not make the client active. -/
theorem readServer_spec {answers : List (Option (List UInt8))} {s s' : McdWifi}
    {clientLine serverLine : List (Nat × List UInt8)} (h : McdHolds s clientLine serverLine)
    (hread : readServer mem a rand answers s = .ok s') :
    ∃ copies, TurnFates a
        (mem = Alloc.unlimited ∧ serverLine.length + 2 * answers.length ≤ 2 ^ 14)
        (received answers) copies ∧
      McdHolds s' clientLine (serverLine ++ copies.queued) ∧ s'.toServer = s.toServer ∧
      s'.toClient = s.toClient ∧ s'.clientActive = s.clientActive := by
  induction answers generalizing s serverLine with
  | nil =>
      cases hread
      exact ⟨⟨[], []⟩, turnFates_nil a _, by rwa [List.append_nil], rfl, rfl, rfl⟩
  | cons answer rest ih =>
      cases answer with
      | none =>
          rw [readServer] at hread
          cases hfd : s.otherFds.getLast? with
          | none =>
              rw [hfd] at hread
              cases hread
          | some fd =>
              rw [hfd] at hread
              have hnext : McdHolds { s with serverFd := fd, otherFds := s.otherFds.dropLast }
                  clientLine serverLine := ⟨h.client, h.server⟩
              obtain ⟨copies, hfates, hholds, hserver, hclient, hactive⟩ := ih hnext hread
              exact ⟨copies, hfates.weaken room_of_cons, hholds, hserver, hclient, hactive⟩
      | some datagram =>
          rw [readServer] at hread
          simp only [received]
          by_cases hempty : datagram.take netMaxUdpPacketSize = []
          · rw [if_pos hempty] at hread ⊢
            cases hread
            exact ⟨⟨[], []⟩, turnFates_nil a _, by rwa [List.append_nil], rfl, rfl, rfl⟩
          · rw [if_neg hempty] at hread ⊢
            by_cases hlost : chance rand a.mcdLoss s.randCalls = true
            · rw [if_pos hlost] at hread
              have hnext : McdHolds { s with randCalls := s.randCalls + 1 } clientLine serverLine :=
                ⟨h.client, h.server⟩
              obtain ⟨copies, hfates, hholds, hserver, hclient, hactive⟩ := ih hnext hread
              exact ⟨copies, (hfates.weaken room_of_cons).lost (pos_of_chance hlost), hholds,
                hserver, hclient, hactive⟩
            · rw [if_neg hlost] at hread
              obtain ⟨⟨buf, calls⟩, hadd, hread⟩ := bind_eq_ok.mp hread
              have hloss := le_of_not_chance (Bool.eq_false_of_not_eq_true hlost)
              obtain ⟨part, entries, hbuf, hfate, -, hsub, hexact⟩ :=
                mcdAdd_spec h.server (length_take_udp datagram) hloss hadd
              have hone : part.length ≤ 2 := hsub.length_le.trans hfate.length_le
              have hnext : McdHolds { s with serverBuf := buf, randCalls := calls } clientLine
                  (serverLine ++ part) := ⟨h.client, hbuf⟩
              obtain ⟨copies, hfates, hholds, hserver, hclient, hactive⟩ := ih hnext hread
              rw [List.append_assoc] at hholds
              refine ⟨⟨entries ++ copies.made, part ++ copies.queued⟩,
                (hfates.weaken ?_).cons hfate hsub ?_, hholds, hserver, hclient, hactive⟩
              · rintro ⟨hmem, hlen⟩
                rw [List.length_cons] at hlen
                exact ⟨hmem, by rw [List.length_append]; omega⟩
              · rintro ⟨hmem, hlen⟩
                rw [List.length_cons] at hlen
                exact hexact hmem (by omega)

/-- The queues can hold what the turn may bring. -/
def McdRoom (s : McdWifi) (t : McdTurn) : Prop :=
  s.clientBuf.items.length + 2 * t.fromClient.length ≤ 2 ^ 14 ∧
    s.serverBuf.items.length + 2 * t.fromServer.length ≤ 2 ^ 14

instance decidableMcdRoom (s : McdWifi) (t : McdTurn) : Decidable (McdRoom s t) :=
  inferInstanceAs (Decidable (_ ∧ _))

/-- **One turn** is a turn of both lines. -/
theorem mcdTurn_spec {s s' : McdWifi} {t : McdTurn}
    {clientLine serverLine : List (Nat × List UInt8)} (h : McdHolds s clientLine serverLine)
    (hturn : mcdTurn mem a rand s t = .ok s') :
    ∃ fromClient fromServer,
      TurnFates a (mem = Alloc.unlimited ∧ McdRoom s t) t.requests fromClient ∧
      TurnFates a (mem = Alloc.unlimited ∧ McdRoom s t) t.answers fromServer ∧
      McdHolds s' (DelayLine.closer (clientLine ++ fromClient.queued))
        (DelayLine.closer (serverLine ++ fromServer.queued)) ∧
      s'.toServer.map Prod.snd =
        s.toServer.map Prod.snd ++ DelayLine.due (clientLine ++ fromClient.queued) ∧
      (s'.toClient.map Prod.snd = s.toClient.map Prod.snd ++
        if s'.clientActive then DelayLine.due (serverLine ++ fromServer.queued) else []) ∧
      (s'.clientActive = true ↔ s.clientActive = true ∨ fromClient.made ≠ []) := by
  obtain ⟨s₁, hclient, hturn⟩ := bind_eq_ok.mp hturn
  obtain ⟨s₂, hserver, hturn⟩ := bind_eq_ok.mp hturn
  obtain ⟨fromClient, hfates, h₁, hsent₁, hback₁, hactive₁⟩ := readClient_spec h hclient
  obtain ⟨fromServer, hfates', h₂, hsent₂, hback₂, hactive₂⟩ := readServer_spec h₁ hserver
  obtain ⟨s₃, hsend, hactive₃, h₃, hsent₃, hback₃⟩ := h₂.send
  rw [hsend] at hturn
  obtain rfl : s₃ = s' := Except.ok.inj hturn
  have hlen := congrArg List.length h.client.items
  have hlen' := congrArg List.length h.server.items
  rw [List.length_map] at hlen hlen'
  refine ⟨fromClient, fromServer, hfates.weaken ?_, hfates'.weaken ?_, h₃, ?_, ?_, ?_⟩
  · rintro ⟨hmem, hroom, -⟩
    exact ⟨hmem, by rwa [hlen] at hroom⟩
  · rintro ⟨hmem, -, hroom⟩
    exact ⟨hmem, by rwa [hlen'] at hroom⟩
  · rw [hsent₃, hsent₂, hsent₁]
  · rw [hback₃, hback₂, hback₁, hactive₃]
  · rw [hactive₃, hactive₂]
    exact hactive₁

/-! ## Runs -/

/-- The copies of a run, turn by turn: each packet that a turn has read becomes
what `PacketFate` allows, in the order of arrival. -/
def RunFates (mem : Alloc) (a : Args) (rand : Rand) (packets : McdTurn → List (List UInt8))
    (s : McdWifi) (turns : List McdTurn) (copies : List Copies) : Prop :=
  List.Forall₂ (fun t copies =>
    TurnFates a (mem = Alloc.unlimited ∧ Run.Meets (mcdTurn mem a rand) McdRoom s turns)
      (packets t) copies) turns copies

/-- The copies of the first turn come before those of the others. -/
theorem RunFates.cons {packets : McdTurn → List (List UInt8)} {s m : McdWifi} {t : McdTurn}
    {turns : List McdTurn} {first : Copies} {copies : List Copies}
    (h : RunFates mem a rand packets m turns copies) (hturn : mcdTurn mem a rand s t = .ok m)
    (hfates : TurnFates a (mem = Alloc.unlimited ∧ McdRoom s t) (packets t) first) :
    RunFates mem a rand packets s (t :: turns) (first :: copies) :=
  List.Forall₂.cons (hfates.weaken fun hroom => ⟨hroom.1, hroom.2.1⟩)
    (h.imp fun _ _ hlater => hlater.weaken fun hroom => ⟨hroom.1, hroom.2.2 m hturn⟩)

/-- The client becomes active in the turn with that number: it is the first one with a packet from
the client that is not lost. -/
structure WakesIn (clientCopies : List Copies) (active : Nat) : Prop where
  le : active ≤ clientCopies.length
  asleep : ∀ copies ∈ clientCopies.take active, copies.made = []
  awake : ∀ copies, clientCopies[active]? = some copies → copies.made ≠ []

/-- **A run** is a run of both lines.  What is due from the server is thrown away in the turns
before the client is active. -/
theorem mcd_run_spec {turns : List McdTurn} {s s' : McdWifi}
    {clientLine serverLine : List (Nat × List UInt8)} (h : McdHolds s clientLine serverLine)
    (hrun : Run.run (mcdTurn mem a rand) s turns = .ok s') :
    ∃ clientCopies serverCopies active,
      RunFates mem a rand McdTurn.requests s turns clientCopies ∧
      RunFates mem a rand McdTurn.answers s turns serverCopies ∧
      McdHolds s' (DelayLine.lineAfter clientLine (clientCopies.map Copies.queued))
        (DelayLine.lineAfter serverLine (serverCopies.map Copies.queued)) ∧
      s'.toServer.map Prod.snd = s.toServer.map Prod.snd ++
        (DelayLine.outputs clientLine (clientCopies.map Copies.queued)).flatten ∧
      s'.toClient.map Prod.snd = s.toClient.map Prod.snd ++
        ((DelayLine.outputs serverLine (serverCopies.map Copies.queued)).drop active).flatten ∧
      (s.clientActive = true → active = 0) ∧
      (s.clientActive = false → WakesIn clientCopies active) := by
  induction turns generalizing s clientLine serverLine with
  | nil =>
      cases hrun
      exact ⟨[], [], 0, .nil, .nil, h, (List.append_nil _).symm, (List.append_nil _).symm,
        fun _ => rfl, fun _ => ⟨Nat.le_refl 0, by simp, by simp⟩⟩
  | cons t rest ih =>
      cases hturn : mcdTurn mem a rand s t with
      | error f =>
          rw [Run.run, hturn] at hrun
          cases hrun
      | ok m =>
          rw [Run.run_cons_ok hturn] at hrun
          obtain ⟨fromClient, fromServer, hfates, hfates', hm, hsent, hback, hactive⟩ :=
            mcdTurn_spec h hturn
          obtain ⟨clientCopies, serverCopies, active, hclient, hserver, hholds, hsent', hback',
            hzero, hwakes⟩ := ih hm hrun
          rw [hsent, List.append_assoc] at hsent'
          cases hnow : m.clientActive with
          | true =>
              rw [hback, if_pos hnow, hzero hnow, List.append_assoc] at hback'
              refine ⟨fromClient :: clientCopies, fromServer :: serverCopies, 0,
                hclient.cons hturn hfates, hserver.cons hturn hfates', hholds, hsent', hback',
                fun _ => rfl, fun hs => ⟨Nat.zero_le _, by simp, ?_⟩⟩
              intro copies hcopies
              cases hcopies
              refine (hactive.mp hnow).resolve_left ?_
              rw [hs]
              decide
          | false =>
              have hasleep : ¬ (s.clientActive = true ∨ fromClient.made ≠ []) := by
                rw [← hactive, hnow]
                decide
              obtain ⟨hs, hnothing⟩ := not_or.mp hasleep
              obtain ⟨hle, hbefore, hawake⟩ := hwakes hnow
              rw [hback, hnow, if_neg (by decide), List.append_nil] at hback'
              refine ⟨fromClient :: clientCopies, fromServer :: serverCopies, active + 1,
                hclient.cons hturn hfates, hserver.cons hturn hfates', hholds, hsent', hback',
                fun hs' => absurd hs' hs, fun _ => ⟨Nat.succ_le_succ hle, ?_, ?_⟩⟩
              · intro copies hcopies
                rw [List.take_succ_cons, List.mem_cons] at hcopies
                rcases hcopies with rfl | hlater
                · exact not_not.mp hnothing
                · exact hbefore copies hlater
              · intro copies hcopies
                rw [List.getElem?_cons_succ] at hcopies
                exact hawake copies hcopies

/-- At the start both lines are empty. -/
theorem mcdHolds_begin (serverFd : Int) (otherFds : List Int) :
    McdHolds (McdWifi.begin serverFd otherFds) [] [] :=
  ⟨⟨rfl, by simp, by simp⟩, ⟨rfl, by simp, by simp⟩⟩

/-- The bytes in the queue are those in the line. -/
theorem map_sentBytes {buf : Vec msgBuf McdMsg} {line : List (Nat × List UInt8)}
    (h : Queues buf line) : buf.items.map McdMsg.sentBytes = line.map Prod.snd := by
  rw [h.items, List.map_map]
  apply List.map_congr_left
  intro entry hentry
  exact sentBytes_mcdMsg _ (h.length entry hentry)

/-- The copies that are sent in each turn, when they are queued like this. -/
def sentIn (turns : List McdTurn) (copies : List Copies) : List (List (List UInt8)) :=
  (List.range turns.length).map
    (DelayLine.dueAt (DelayLine.schedule 0 (copies.map Copies.queued)))

/-- What a run has delivered, when the packets of each turn have become these
copies, and the client has been active from the turn `active` on. -/
structure Delivers (mem : Alloc) (a : Args) (rand : Rand) (start : McdWifi) (turns : List McdTurn)
    (s : McdWifi) (clientCopies serverCopies : List Copies) (active : Nat) : Prop where
  requests : RunFates mem a rand McdTurn.requests start turns clientCopies
  answers : RunFates mem a rand McdTurn.answers start turns serverCopies
  toServer : s.toServer.map Prod.snd = (sentIn turns clientCopies).flatten
  /-- What is due in the turns before is thrown away. -/
  toClient : s.toClient.map Prod.snd = ((sentIn turns serverCopies).drop active).flatten
  wakes : WakesIn clientCopies active
  clientQueue : ((sentIn turns clientCopies).flatten ++
    s.clientBuf.items.map McdMsg.sentBytes).Perm
      ((clientCopies.map Copies.queued).flatten.map Prod.snd)
  serverQueue : ((sentIn turns serverCopies).flatten ++
    s.serverBuf.items.map McdMsg.sentBytes).Perm
      ((serverCopies.map Copies.queued).flatten.map Prod.snd)

/-- The turns of a line are those of its schedule, and what has not come out is left in it. -/
theorem outputs_sentIn {packets : McdTurn → List (List UInt8)} {start : McdWifi}
    {turns : List McdTurn} {copies : List Copies} {buf : Vec msgBuf McdMsg}
    (hcopies : RunFates mem a rand packets start turns copies)
    (hbuf : Queues buf (DelayLine.lineAfter [] (copies.map Copies.queued))) :
    DelayLine.outputs [] (copies.map Copies.queued) = sentIn turns copies ∧
      ((sentIn turns copies).flatten ++ buf.items.map McdMsg.sentBytes).Perm
        ((copies.map Copies.queued).flatten.map Prod.snd) := by
  have hlen : (copies.map Copies.queued).length = turns.length := by
    rw [List.length_map]
    exact hcopies.length_eq.symm
  have houtputs : DelayLine.outputs [] (copies.map Copies.queued) = sentIn turns copies := by
    rw [DelayLine.outputs_eq 0, hlen, ← List.range_eq_range']
    rfl
  have hperm := DelayLine.delivered_perm [] (copies.map Copies.queued)
  rw [houtputs, ← map_sentBytes hbuf] at hperm
  exact ⟨houtputs, hperm⟩

/-- **The proxy delivers what it has not lost, whole and when it is due.**  In any
run, each packet that is read becomes at most two copies, one that was lost none,
and each turn sends exactly the copies whose delay is over, in the order in which
they have come; what is not sent yet is in the queues.  What is due from the server is
dropped in exactly the turns before the first in which a packet from the client is not lost. -/
theorem mcd_delivers {serverFd : Int} {otherFds : List Int} {turns : List McdTurn} {s : McdWifi}
    (hrun : Run.run (mcdTurn mem a rand) (McdWifi.begin serverFd otherFds) turns = .ok s) :
    ∃ clientCopies serverCopies active, Delivers mem a rand (McdWifi.begin serverFd otherFds)
      turns s clientCopies serverCopies active := by
  obtain ⟨clientCopies, serverCopies, active, hclient, hserver, hholds, hsent, hback, -, hwakes⟩ :=
    mcd_run_spec (mcdHolds_begin serverFd otherFds) hrun
  obtain ⟨hsentIn, hperm⟩ := outputs_sentIn hclient hholds.client
  obtain ⟨hsentIn', hperm'⟩ := outputs_sentIn hserver hholds.server
  rw [hsentIn] at hsent
  rw [hsentIn'] at hback
  exact ⟨clientCopies, serverCopies, active, hclient, hserver, hsent, hback, hwakes rfl, hperm,
    hperm'⟩

/-- With nothing to go wrong, a packet becomes one copy that waits as long as the others. -/
theorem queued_of_perfect {packets : List (List UInt8)} {copies : Copies}
    {room : Prop} (h : TurnFates a room packets copies) (hroom : room) (hloss : a.mcdLoss ≤ 0)
    (hdup : a.mcdDup ≤ 0) (hreorder : a.mcdReorder ≤ 0) :
    copies.queued = packets.map fun data => ((mcdDelay a).toNat, data) := by
  obtain ⟨parts, hmade, hparts⟩ := h.fates
  rw [h.all hroom, hmade]
  clear hmade h
  induction hparts with
  | nil => rfl
  | cons hfate _ ih =>
      rw [List.flatten_cons, ih, List.map_cons]
      cases hfate with
      | lost hpos => omega
      | twice _ hpos _ => omega
      | once _ hwaits =>
          rcases hwaits with rfl | ⟨hpos, -⟩
          · rfl
          · omega

/-- A list related to another by a function is its image. -/
theorem eq_map_of_forall₂ {ι τ : Type} {f : ι → τ} {xs : List ι} {ys : List τ}
    (h : List.Forall₂ (fun x y => y = f x) xs ys) : ys = xs.map f := by
  induction h with
  | nil => rfl
  | cons hfirst _ ih => rw [hfirst, ih, List.map_cons]

/-- The delay in turns, for a latency whose product with the tick rate is an `int`. -/
theorem toNat_mcdDelay (h : 0 ≤ a.mcdLatency) (hfits : a.mcdLatency ≤ 35791394) :
    (mcdDelay a).toNat = (60 * a.mcdLatency.toNat / 1000) % 256 := by
  obtain ⟨n, hn⟩ := Int.eq_ofNat_of_zero_le h
  have hwrap : wrapInt 32 (mcdTickRate * (n : Int)) = mcdTickRate * n :=
    wrapInt_of_lt (by decide) (by unfold mcdTickRate; omega) (by unfold mcdTickRate; omega)
  have hquot : Int.tdiv (mcdTickRate * (n : Int)) 1000 = ((60 * n / 1000 : Nat) : Int) := by
    rw [mcdTickRate, Int.tdiv_eq_ediv_of_nonneg (by omega)]
    omega
  have hmod (k : Nat) : ((k : Int) % 2 ^ 8).toNat = k % 256 := by omega
  rw [mcdDelay, hn, hwrap, hquot, UInt8.ofInt, hmod, Int.toNat_natCast]
  exact UInt8.toNat_ofNat_of_lt' (Nat.mod_lt _ (by decide))

/-- **A proxy that loses, duplicates and reorders nothing** hands on every packet
of the client once, in order, and after as many turns as the byte of the header says.  With a
latency that does not overflow these are its turns modulo 256. -/
theorem mcd_perfect {serverFd : Int} {otherFds : List Int} {turns : List McdTurn} {s : McdWifi}
    (hloss : a.mcdLoss ≤ 0) (hdup : a.mcdDup ≤ 0) (hreorder : a.mcdReorder ≤ 0)
    (hroom : Run.Meets (mcdTurn Alloc.unlimited a rand) McdRoom (McdWifi.begin serverFd otherFds)
      turns)
    (hrun : Run.run (mcdTurn Alloc.unlimited a rand) (McdWifi.begin serverFd otherFds) turns =
      .ok s) :
    s.toServer.map Prod.snd =
      ((List.replicate (mcdDelay a).toNat [] ++
          turns.map McdTurn.requests).take turns.length).flatten ∧
    (0 ≤ a.mcdLatency → a.mcdLatency ≤ 35791394 →
      (mcdDelay a).toNat = (60 * a.mcdLatency.toNat / 1000) % 256) := by
  obtain ⟨clientCopies, serverCopies, active, hclient, -, -, hsent, -⟩ :=
    mcd_run_spec (mcdHolds_begin serverFd otherFds) hrun
  have hcopies : clientCopies.map Copies.queued =
      turns.map fun t => t.requests.map fun data => ((mcdDelay a).toNat, data) := by
    apply eq_map_of_forall₂
    rw [List.forall₂_map_right_iff]
    refine hclient.imp ?_
    intro t copies hfates
    exact queued_of_perfect hfates ⟨rfl, hroom⟩ hloss hdup hreorder
  have hconstant : ∀ arrivals ∈ clientCopies.map Copies.queued, ∀ entry ∈ arrivals,
      entry.1 = (mcdDelay a).toNat := by
    rw [hcopies]
    intro arrivals harrivals entry hentry
    obtain ⟨t, -, rfl⟩ := List.mem_map.mp harrivals
    obtain ⟨data, -, rfl⟩ := List.mem_map.mp hentry
    rfl
  have hpayloads : (clientCopies.map Copies.queued).map (List.map Prod.snd) =
      turns.map McdTurn.requests := by
    rw [hcopies, List.map_map]
    apply List.map_congr_left
    intro t _
    simp [Function.comp_def]
  have hlen : (clientCopies.map Copies.queued).length = turns.length := by
    rw [List.length_map]
    exact hclient.length_eq.symm
  have hnothing : (McdWifi.begin serverFd otherFds).toServer.map Prod.snd = [] := rfl
  rw [hnothing, List.nil_append, DelayLine.outputs_of_constant hconstant, hpayloads, hlen] at hsent
  exact ⟨hsent, toNat_mcdDelay⟩

end

/-! ## A proxy at work -/

/-- The greatest `rand` value is at least the one POSIX asks for. -/
theorem randMax_posix : (32767 : Int) ≤ 2147483647 := by decide

/-- `rand` always returns the same. -/
def Rand.constant (value : Int) (hnonneg : 0 ≤ value) (hle : value ≤ 2147483647) : Rand where
  randMax := 2147483647
  value := fun _ => value
  randMax_ge := randMax_posix
  nonneg := fun _ => hnonneg
  le_randMax := fun _ => hle

/-- 50 milliseconds are three turns. -/
def mcdSampleArgs : Args :=
  { argsDefaults ⟨true, false, true, true, true, true, 2⟩ with mcdLatency := 50 }

/-- Two packets come from the client and one from the server. -/
def mcdSampleTurns : List McdTurn :=
  [⟨[some (loopback 1, [1, 2])], []⟩, ⟨[], [some [7]]⟩, ⟨[some (loopback 1, [3])], []⟩, ⟨[], []⟩,
    ⟨[], []⟩, ⟨[], []⟩]

/-- A run over both directions in which copies are made, delayed and delivered. -/
theorem mcd_delivers_sample :
    ∃ s clientCopies serverCopies active,
      Run.run (mcdTurn Alloc.unlimited mcdSampleArgs
        (Rand.constant 2147483647 (by decide) (by decide))) (McdWifi.begin 3 [])
        mcdSampleTurns = .ok s ∧
      Delivers Alloc.unlimited mcdSampleArgs (Rand.constant 2147483647 (by decide) (by decide))
        (McdWifi.begin 3 []) mcdSampleTurns s clientCopies serverCopies active := by
  obtain ⟨s, hrun⟩ := Run.exists_ok_of_isSome (x := Run.run (mcdTurn Alloc.unlimited mcdSampleArgs
    (Rand.constant 2147483647 (by decide) (by decide))) (McdWifi.begin 3 []) mcdSampleTurns)
    (by decide +kernel)
  obtain ⟨clientCopies, serverCopies, active, hdelivers⟩ := mcd_delivers hrun
  exact ⟨s, clientCopies, serverCopies, active, hrun, hdelivers⟩

/-- Without loss and reordering the same packets arrive after three turns, each once and in order.
-/
theorem mcd_perfect_sample :
    ∃ s, Run.run (mcdTurn Alloc.unlimited mcdSampleArgs
        (Rand.constant 2147483647 (by decide) (by decide))) (McdWifi.begin 3 [])
        mcdSampleTurns = .ok s ∧
      s.toServer.map Prod.snd =
        ((List.replicate (mcdDelay mcdSampleArgs).toNat [] ++
          mcdSampleTurns.map McdTurn.requests).take mcdSampleTurns.length).flatten ∧
      (mcdDelay mcdSampleArgs).toNat = 3 := by
  obtain ⟨s, hrun⟩ := Run.exists_ok_of_isSome (x := Run.run (mcdTurn Alloc.unlimited mcdSampleArgs
    (Rand.constant 2147483647 (by decide) (by decide))) (McdWifi.begin 3 []) mcdSampleTurns)
    (by decide +kernel)
  obtain ⟨hsent, hdelay⟩ := mcd_perfect (by decide) (by decide) (by decide) (by decide +kernel) hrun
  exact ⟨s, hrun, hsent, hdelay (by decide) (by decide)⟩

end Clither
