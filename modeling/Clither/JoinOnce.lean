import Clither.SnakeOwners
import Clither.UnknownSender

/-!
# Asking twice to join

A client repeats its request until the answer arrives, and so the server gets requests from
addresses that have a record.  Such a request has to be answered with the snake of that record.
Two things come before the look at the record: the server denies all requests when it is full,
and the pointer to the record is looked up once for each packet.

`joins_idempotent_iff` says which runs answer all repeated requests.
-/

namespace Clither

open Faults (bind_eq_ok)

/-! ## Requests -/

/-- The frame number of a request that the parser accepts and whose name is not too long. -/
def Frame.joinFrame (settings : ServerSettings) : Frame → Option UInt16
  | .truncated => none
  | .message type payload =>
      match msgKind type payload with
      | .join clientFrame usernameLen =>
          if usernameLen > settings.maxUsernameLen then none else some clientFrame
      | _ => none

/-- Packets hold such requests only. -/
def OnlyJoins (settings : ServerSettings) : ServerEvent → Prop
  | .packet _ udpBuf => ∀ f ∈ frames udpBuf, f.joinFrame settings ≠ none
  | _ => True

instance decidableOnlyJoins (settings : ServerSettings) :
    (event : ServerEvent) → Decidable (OnlyJoins settings event)
  | .packet _ udpBuf => inferInstanceAs (Decidable (∀ f ∈ frames udpBuf, _))
  | .timeouts | .malicious | .simulate | .snakesInRange _ | .queueData | .sendPending
  | .nextFrame => isTrue trivial

section

variable {mem : Alloc} {settings : ServerSettings} {num : Numerics} {addr : NetAddr}
  {frame clientFrame : UInt16} {s s' : Server} {f : Frame}

/-- What a join request is. -/
theorem joinFrame_eq_some (h : f.joinFrame settings = some clientFrame) :
    ∃ type payload usernameLen, f = .message type payload ∧
      msgKind type payload = .join clientFrame usernameLen ∧
      ¬ usernameLen > settings.maxUsernameLen := by
  cases f with
  | truncated => cases h
  | message type payload =>
      rw [Frame.joinFrame] at h
      cases hkind : msgKind type payload with
      | join cf usernameLen =>
          rw [hkind] at h
          dsimp only at h
          split_ifs at h with hlong
          cases h
          exact ⟨type, payload, usernameLen, rfl, hkind, hlong⟩
      | leave => rw [hkind] at h; cases h
      | commands => rw [hkind] at h; cases h
      | malicious => rw [hkind] at h; cases h

/-- One message of a packet. -/
def frameStep (mem : Alloc) (settings : ServerSettings) (client : Option Nat) (addr : NetAddr)
    (frame : UInt16) (s : Server) (f : Frame) : Except Fault Server :=
  processFrames mem settings client addr frame [f] s

/-- **The three ways of a request**: the server is full, the client is known, or it is new. -/
theorem frameStep_full {client : Option Nat} (hjoin : f.joinFrame settings = some clientFrame)
    (hfull : ¬ s.clients.count < settings.maxPlayers.toNat) :
    frameStep mem settings client addr frame s f =
      .ok (sendMsg s addr (msgJoinDenyServerFull (cString "Server full"))) := by
  obtain ⟨type, payload, usernameLen, rfl, hkind, hshort⟩ := joinFrame_eq_some hjoin
  have hdenial : joinDenial settings s.clients.count usernameLen =
      some (msgJoinDenyServerFull (cString "Server full")) := by
    rw [joinDenial, if_pos (by omega)]
  rw [frameStep, processFrames, if_neg (fun h => h.2 (type_of_join hkind)), processMessage_eq]
  simp only [hkind, processJoinRequest_eq, hdenial]
  rfl

/-- With room and a short name a join is not denied. -/
theorem joinDenial_room {usernameLen : UInt8} (hroom : s.clients.count < settings.maxPlayers.toNat)
    (hshort : ¬ usernameLen > settings.maxUsernameLen) :
    joinDenial settings s.clients.count usernameLen = none := by
  rw [joinDenial, if_neg (by omega), if_neg hshort]

/-- A join of a registered client is accepted again. -/
theorem frameStep_known {slot : Nat} (hjoin : f.joinFrame settings = some clientFrame)
    (hroom : s.clients.count < settings.maxPlayers.toNat) :
    frameStep mem settings (some slot) addr frame s f =
      joinAccept mem settings s slot clientFrame frame := by
  obtain ⟨type, payload, usernameLen, rfl, hkind, hshort⟩ := joinFrame_eq_some hjoin
  rw [frameStep, processFrames, if_neg (fun h => h.2 (type_of_join hkind)), processMessage_eq]
  simp only [hkind, processJoinRequest_eq, joinDenial_room hroom hshort]
  cases joinAccept mem settings s slot clientFrame frame <;> rfl

/-- A join of an unknown sender creates its record and accepts it. -/
theorem frameStep_new (hjoin : f.joinFrame settings = some clientFrame)
    (hroom : s.clients.count < settings.maxPlayers.toNat) :
    frameStep mem settings none addr frame s f =
      createClient mem settings s addr frame >>= fun created =>
        joinAccept mem settings created.1 created.2 clientFrame frame := by
  obtain ⟨type, payload, usernameLen, rfl, hkind, hshort⟩ := joinFrame_eq_some hjoin
  rw [frameStep, processFrames, if_neg (fun h => h.2 (type_of_join hkind)), processMessage_eq]
  simp only [hkind, processJoinRequest_eq, joinDenial_room hroom hshort]
  cases createClient mem settings s addr frame >>= fun created =>
    joinAccept mem settings created.1 created.2 clientFrame frame <;> rfl

/-- A packet of requests is handled message by message. -/
theorem processFrames_eq_run {client : Option Nat} {fs : List Frame}
    (hfs : ∀ f ∈ fs, f.joinFrame settings ≠ none) (s : Server) :
    processFrames mem settings client addr frame fs s =
      Run.run (frameStep mem settings client addr frame) s fs := by
  induction fs generalizing s with
  | nil => rfl
  | cons f rest ih =>
      obtain ⟨hf, hrest⟩ := List.forall_mem_cons.mp hfs
      obtain ⟨clientFrame, hjoin⟩ := Option.ne_none_iff_exists'.mp hf
      obtain ⟨type, payload, usernameLen, rfl, hkind, -⟩ := joinFrame_eq_some hjoin
      have hgoes : ¬ (client = none ∧ type ≠ MsgType.joinRequest.toByte) :=
        fun h => h.2 (type_of_join hkind)
      rw [Run.run, frameStep, processFrames, if_neg hgoes, processFrames, if_neg hgoes]
      cases processMessage mem settings s client addr type payload frame with
      | error fault => rfl
      | ok s₁ => exact ih hrest s₁

/-! ## Answers -/

/-- The request is answered with the snake of the record, and nothing else has changed. -/
def Reaccepted (settings : ServerSettings) (frame : UInt16) (f : Frame) (slot : Nat)
    (record : ServerClient) (s s' : Server) : Prop :=
  ∃ clientFrame pending spawn, f.joinFrame settings = some clientFrame ∧
    s' = s.setClient slot { record with pendingMsgs := pending } ∧
    pending.items = record.pendingMsgs.items ++
      [msgJoinAccept settings.simTickRate settings.netTickRate clientFrame frame record.snakeId
        spawn]

/-- If the sender has a record, then the request is answered for it. -/
def RequestAnswered (mem : Alloc) (settings : ServerSettings) (client : Option Nat)
    (addr : NetAddr) (frame : UInt16) (s : Server) (f : Frame) : Prop :=
  ∀ slot a record, s.clients.cell slot = some (a, record) → SameKey serverClientHm a addr →
    ∃ s', frameStep mem settings client addr frame s f = .ok s' ∧
      Reaccepted settings frame f slot record s s'

/-- The answers to the requests of a packet. -/
def joinAnswers (settings : ServerSettings) (frame snakeId : UInt16) (spawn : QwPos)
    (fs : List Frame) : List Msg :=
  fs.filterMap fun f => (f.joinFrame settings).map fun clientFrame =>
    msgJoinAccept settings.simTickRate settings.netTickRate clientFrame frame snakeId spawn

/-- A denial leaves all records as they are. -/
theorem not_reaccepted_of_sent {slot : Nat} {record : ServerClient} {m : Msg} :
    ¬ Reaccepted settings frame f slot record s (sendMsg s addr m) := by
  rintro ⟨clientFrame, pending, spawn, -, hset, -⟩
  have hsent : s.sent ++ [(addr, msgBytes m)] = s.sent := congrArg Server.sent hset
  have hlength := congrArg List.length hsent
  rw [List.length_append, List.length_singleton] at hlength
  omega

/-- **A request of a known client** is answered if the server has room for one more client, and
the client has a snake and space in its queue. -/
theorem requestAnswered_known_iff {slot : Nat} {a : NetAddr} {record : ServerClient}
    (hcell : s.clients.cell slot = some (a, record)) (hsame : SameKey serverClientHm a addr)
    (hjoin : f.joinFrame settings = some clientFrame) :
    RequestAnswered mem settings (some slot) addr frame s f ↔
      s.clients.count < settings.maxPlayers.toNat ∧
        (∃ snake, findSnake s.world record.snakeId = .ok snake) ∧
        vecHasSpace mem record.pendingMsgs = true := by
  constructor
  · intro h
    obtain ⟨s', hstep, hanswer⟩ := h slot a record hcell hsame
    by_cases hroom : s.clients.count < settings.maxPlayers.toNat
    · rw [frameStep_known hjoin hroom, joinAccept, client_of_cell hcell, ok_bind] at hstep
      obtain ⟨snake, hsnake, hstep⟩ := bind_eq_ok.mp hstep
      cases hstep
      refine ⟨hroom, ⟨snake, hsnake⟩, ?_⟩
      obtain ⟨cf, pending, spawn, -, hset, hitems⟩ := hanswer
      have hcells := congrArg (fun t : Server => t.clients.cell slot) hset
      rw [cell_setClient hcell, cell_setClient hcell] at hcells
      have hrecord := congrArg Prod.snd (Option.some.inj hcells)
      have hpending : vecPush mem record.pendingMsgs _ = pending :=
        congrArg ServerClient.pendingMsgs hrecord
      rw [← hpending, items_vecPush] at hitems
      by_contra hnone
      rw [if_neg hnone] at hitems
      have hlength := congrArg List.length hitems
      rw [List.length_append, List.length_singleton] at hlength
      omega
    · rw [frameStep_full hjoin hroom] at hstep
      cases hstep
      exact absurd hanswer not_reaccepted_of_sent
  · rintro ⟨hroom, ⟨snake, hsnake⟩, hspace⟩ slot' a' record' hcell' hsame'
    obtain rfl := ValidHm.cell_unique hcell' hcell (hsame'.trans hsame.symm)
    cases hcell.symm.trans hcell'
    rw [frameStep_known hjoin hroom]
    refine ⟨_, joinAccept_of_cell mem settings hcell hsnake clientFrame frame, clientFrame, _,
      snake.head.pos, hjoin, rfl, ?_⟩
    rw [items_vecPush, if_pos hspace]

/-- **A packet of a known client.** -/
theorem requestsAnswered_known_iff {slot : Nat} {a : NetAddr} {record : ServerClient}
    {fs : List Frame} (hfs : ∀ f ∈ fs, f.joinFrame settings ≠ none)
    (hcell : s.clients.cell slot = some (a, record)) (hsame : SameKey serverClientHm a addr) :
    Run.Meets (frameStep mem settings (some slot) addr frame)
        (RequestAnswered mem settings (some slot) addr frame) s fs ↔
      (fs ≠ [] → s.clients.count < settings.maxPlayers.toNat ∧
        ∃ snake, findSnake s.world record.snakeId = .ok snake ∧
          vecTakesAll mem record.pendingMsgs
            (joinAnswers settings frame record.snakeId snake.head.pos fs) = true) := by
  induction fs generalizing s record with
  | nil => exact iff_of_true trivial fun h => absurd rfl h
  | cons f rest ih =>
      obtain ⟨hf, hrest⟩ := List.forall_mem_cons.mp hfs
      obtain ⟨clientFrame, hjoin⟩ := Option.ne_none_iff_exists'.mp hf
      have hfirst : RequestAnswered mem settings (some slot) addr frame s f ↔ _ :=
        requestAnswered_known_iff hcell hsame hjoin
      have hnext {snake : Snake} (hroom : s.clients.count < settings.maxPlayers.toNat)
          (hsnake : findSnake s.world record.snakeId = .ok snake) :
          frameStep mem settings (some slot) addr frame s f = .ok (s.setClient slot
            (serverQueue mem record (msgJoinAccept settings.simTickRate settings.netTickRate
              clientFrame frame record.snakeId snake.head.pos))) := by
        rw [frameStep_known hjoin hroom]
        exact joinAccept_of_cell mem settings hcell hsnake clientFrame frame
      have hlater (record' : ServerClient) :=
        @ih (s.setClient slot record') record' hrest (cell_setClient hcell record')
      have hcount (record' : ServerClient) :
          (s.setClient slot record').clients.count = s.clients.count := ValidHm.count_set _ _ _
      have hanswers (snake : Snake) :
          joinAnswers settings frame record.snakeId snake.head.pos (f :: rest) =
            msgJoinAccept settings.simTickRate settings.netTickRate clientFrame frame
                record.snakeId snake.head.pos ::
              joinAnswers settings frame record.snakeId snake.head.pos rest := by
        rw [joinAnswers, List.filterMap_cons, hjoin]
        rfl
      constructor
      · rintro ⟨hanswered, hmeets⟩ -
        obtain ⟨hroom, ⟨snake, hsnake⟩, hspace⟩ := hfirst.mp hanswered
        refine ⟨hroom, snake, hsnake, ?_⟩
        rw [hanswers, vecTakesAll, hspace, Bool.true_and]
        by_cases hnil : rest = []
        · rw [hnil]
          rfl
        · obtain ⟨-, snake', hsnake', htakes⟩ :=
            (hlater _).mp (hmeets _ (hnext hroom hsnake)) hnil
          obtain rfl := Except.ok.inj (hsnake.symm.trans hsnake')
          exact htakes
      · intro h
        obtain ⟨hroom, snake, hsnake, htakes⟩ := h (List.cons_ne_nil f rest)
        rw [hanswers, vecTakesAll, Bool.and_eq_true] at htakes
        obtain ⟨hspace, htakes⟩ := htakes
        refine ⟨hfirst.mpr ⟨hroom, ⟨snake, hsnake⟩, hspace⟩, fun s₁ hs₁ => ?_⟩
        cases (hnext hroom hsnake).symm.trans hs₁
        refine (hlater _).mpr fun _ => ⟨?_, snake, hsnake, htakes⟩
        rwa [hcount]

/-! ## New clients -/

/-- A record and a snake can be created for the sender. -/
def CanRegister (mem : Alloc) (settings : ServerSettings) (s : Server) (addr : NetAddr)
    (frame : UInt16) : Prop :=
  (∃ clients slot, s.clients.emplaceNew mem addr
    (serverClientInit settings frame (spawnId s.world)) = .ok (clients, some slot)) ∧
  SpawnReturns mem s.world

/-- Without a record there is nothing to repeat. -/
theorem requestAnswered_of_not_stores {client : Option Nat} (h : ¬ s.clients.Stores addr) :
    RequestAnswered mem settings client addr frame s f := by
  intro slot a record hcell hsame
  exact absurd ⟨slot, a, record, hcell, hsame⟩ h

/-- On a full server every request of an unknown sender is answered as it should be. -/
theorem meets_full {fs : List Frame} (hfs : ∀ f ∈ fs, f.joinFrame settings ≠ none)
    (hunknown : ¬ s.clients.Stores addr) (hfull : ¬ s.clients.count < settings.maxPlayers.toNat) :
    Run.Meets (frameStep mem settings none addr frame)
      (RequestAnswered mem settings none addr frame) s fs := by
  induction fs generalizing s with
  | nil => trivial
  | cons f rest ih =>
      obtain ⟨hf, hrest⟩ := List.forall_mem_cons.mp hfs
      obtain ⟨clientFrame, hjoin⟩ := Option.ne_none_iff_exists'.mp hf
      refine ⟨requestAnswered_of_not_stores hunknown, fun s₁ hs₁ => ?_⟩
      rw [frameStep_full hjoin hfull] at hs₁
      cases hs₁
      exact ih hrest hunknown hfull

/-- **A second request behind the one that registers** is not answered: the pointer to the client
is still `NULL`. -/
theorem not_requestAnswered_stored (hstores : s.clients.Stores addr)
    (hjoin : f.joinFrame settings = some clientFrame) :
    ¬ RequestAnswered mem settings none addr frame s f := by
  intro h
  obtain ⟨slot, a, record, hcell, hsame⟩ := hstores
  obtain ⟨s', hstep, hanswer⟩ := h slot a record hcell hsame
  by_cases hroom : s.clients.count < settings.maxPlayers.toNat
  · rw [frameStep_new hjoin hroom] at hstep
    obtain ⟨⟨s₁, slot₁⟩, hcreate, -⟩ := bind_eq_ok.mp hstep
    obtain ⟨-, -, habsent⟩ := createClient_cell hcreate
    exact habsent ⟨slot, a, record, hcell, hsame⟩
  · rw [frameStep_full hjoin hroom] at hstep
    cases hstep
    exact not_reaccepted_of_sent hanswer

/-- **A packet of an unknown sender.** -/
theorem requestsAnswered_unknown_iff {fs : List Frame}
    (hfs : ∀ f ∈ fs, f.joinFrame settings ≠ none) (hunknown : ¬ s.clients.Stores addr) :
    Run.Meets (frameStep mem settings none addr frame)
        (RequestAnswered mem settings none addr frame) s fs ↔
      (s.clients.count < settings.maxPlayers.toNat → CanRegister mem settings s addr frame →
        fs.length ≤ 1) := by
  by_cases hroom : s.clients.count < settings.maxPlayers.toNat
  · cases fs with
    | nil => exact iff_of_true trivial fun _ _ => Nat.zero_le 1
    | cons f rest =>
        obtain ⟨hf, hrest⟩ := List.forall_mem_cons.mp hfs
        obtain ⟨clientFrame, hjoin⟩ := Option.ne_none_iff_exists'.mp hf
        constructor
        · rintro ⟨-, hmeets⟩ - ⟨⟨clients, slot, hemplace⟩, hspawn⟩
          obtain ⟨s₁, s₂, hcreate, haccept, -, hkept⟩ :=
            createClient_stored hemplace hspawn clientFrame
          have hstep : frameStep mem settings none addr frame s f = .ok s₂ := by
            rw [frameStep_new hjoin hroom, hcreate, ok_bind, haccept]
          obtain ⟨hcell, -, -⟩ := createClient_cell hcreate
          have hstores : s₂.clients.Stores addr := by
            obtain ⟨a, record, record', hcell', hcell₂, -⟩ := hkept.cell
            cases hcell.symm.trans hcell'
            exact ⟨slot, addr, record', hcell₂, SameKey.refl _ addr⟩
          cases rest with
          | nil => exact Nat.le_refl 1
          | cons g rest =>
              obtain ⟨hg, -⟩ := List.forall_mem_cons.mp hrest
              obtain ⟨clientFrame', hjoin'⟩ := Option.ne_none_iff_exists'.mp hg
              exact absurd (hmeets s₂ hstep).1 (not_requestAnswered_stored hstores hjoin')
        · intro h
          refine ⟨requestAnswered_of_not_stores hunknown, fun s₂ hs₂ => ?_⟩
          rw [frameStep_new hjoin hroom] at hs₂
          obtain ⟨⟨s₁, slot⟩, hcreate, -⟩ := bind_eq_ok.mp hs₂
          obtain ⟨clients, world, snake, hemplace, hspawn, hsnake, -⟩ := createClient_ok hcreate
          have hone := h hroom ⟨⟨clients, slot, hemplace⟩, world, _, snake, hspawn, hsnake⟩
          rw [List.length_cons] at hone
          rw [List.length_eq_zero_iff.mp (by omega : rest.length = 0)]
          trivial
  · exact iff_of_true (meets_full hfs hunknown hroom) fun h => absurd h hroom

/-! ## Packets -/

/-- `server_recv` looks up the sender and resets its counter before it reads the packet. -/
def hearFrom (s : Server) (addr : NetAddr) : Except Fault (Option Nat × Server) := do
  match ← s.clients.find addr with
  | none => return (none, s)
  | some slot => do
      let (slot, record) ← s.client (some slot)
      return (some slot, s.setClient slot { record with timeoutCounter := 0 })

/-- All requests of a packet from an address that has a record are answered for this record. -/
structure PacketAnswered (mem : Alloc) (settings : ServerSettings) (r : ServerRun)
    (sender : NetAddr) (udpBuf : List UInt8) : Prop where
  /-- The packet is handled message by message. -/
  handled : receivePacket mem settings r.server sender udpBuf r.frame =
    hearFrom r.server sender >>= fun heard =>
      Run.run (frameStep mem settings heard.1 sender r.frame) heard.2 (frames udpBuf)
  /-- A sender that has a record is found. -/
  found : ∀ slot a record, r.server.clients.cell slot = some (a, record) →
    SameKey serverClientHm a sender → ∃ s, hearFrom r.server sender = .ok (some slot, s)
  answered : ∀ client s, hearFrom r.server sender = .ok (client, s) →
    Run.Meets (frameStep mem settings client sender r.frame)
      (RequestAnswered mem settings client sender r.frame) s (frames udpBuf)

def RequestsAnswered (mem : Alloc) (settings : ServerSettings) (r : ServerRun) :
    ServerEvent → Prop
  | .packet sender udpBuf => PacketAnswered mem settings r sender udpBuf
  | _ => True

/-- A sender with a record asks while the server has room for one more client, and has a snake and
space for the answers.  Any other sender asks once, if it can be registered. -/
structure AsksOnce (mem : Alloc) (settings : ServerSettings) (r : ServerRun) (sender : NetAddr)
    (udpBuf : List UInt8) : Prop where
  known : ∀ slot a record, r.server.clients.cell slot = some (a, record) →
    SameKey serverClientHm a sender → frames udpBuf ≠ [] →
    r.server.clients.count < settings.maxPlayers.toNat ∧
      ∃ snake, findSnake r.server.world record.snakeId = .ok snake ∧
        vecTakesAll mem record.pendingMsgs
          (joinAnswers settings r.frame record.snakeId snake.head.pos (frames udpBuf)) = true
  unknown : r.server.clients.find sender = .ok none →
    r.server.clients.count < settings.maxPlayers.toNat →
    CanRegister mem settings r.server sender r.frame → (frames udpBuf).length ≤ 1

def JoinsOnce (mem : Alloc) (settings : ServerSettings) (r : ServerRun) : ServerEvent → Prop
  | .packet sender udpBuf => AsksOnce mem settings r sender udpBuf
  | _ => True

/-- Hearing from a registered client resets its counter. -/
theorem hearFrom_of_cell {slot : Nat} {a : NetAddr} {record : ServerClient}
    (hcell : s.clients.cell slot = some (a, record)) (hsame : SameKey serverClientHm a addr) :
    hearFrom s addr = .ok (some slot, s.setClient slot { record with timeoutCounter := 0 }) := by
  rw [hearFrom, ValidHm.find_of_cell hcell hsame, ok_bind]
  dsimp only
  rw [client_of_cell hcell]
  rfl

/-- Hearing from anybody else changes nothing. -/
theorem hearFrom_of_none (h : s.clients.find addr = .ok none) :
    hearFrom s addr = .ok (none, s) := by
  rw [hearFrom, h]
  rfl

/-- Nobody is banned or malicious, and so no packet is ignored. -/
structure Trusting (s : Server) : Prop where
  banned : s.bannedClients = none
  malicious : s.maliciousClients = none

/-- A datagram of joins goes through the steps of its frames. -/
theorem receivePacket_trusting (h : Trusting s) (udpBuf : List UInt8)
    (hjoins : ∀ f ∈ frames udpBuf, f.joinFrame settings ≠ none) :
    receivePacket mem settings s addr udpBuf frame =
      hearFrom s addr >>= fun heard =>
        Run.run (frameStep mem settings heard.1 addr frame) heard.2 (frames udpBuf) := by
  have hfree (hm : Hm NetAddr Int) (hnone : hm = none) : hmFind netAddrHm hm addr = .ok none := by
    rw [hnone]
    rfl
  rw [receivePacket, hfree _ h.banned, ok_bind, if_neg (by decide), hfree _ h.malicious, ok_bind,
    hearFrom]
  cases hfind : s.clients.find addr with
  | error fault => rfl
  | ok client =>
      cases client with
      | none =>
          simp only [ok_bind, pure_eq_ok, unpackPacket_eq]
          exact processFrames_eq_run hjoins s
      | some slot =>
          obtain ⟨a, record, hcell, -⟩ := ValidHm.find_some hfind
          simp only [ok_bind, pure_eq_ok, unpackPacket_eq, client_of_cell hcell]
          exact processFrames_eq_run hjoins _

/-- **A packet is answered exactly under its condition.** -/
theorem packetAnswered_iff {r : ServerRun} (h : Trusting r.server) {sender : NetAddr}
    {udpBuf : List UInt8} (hjoins : ∀ f ∈ frames udpBuf, f.joinFrame settings ≠ none) :
    PacketAnswered mem settings r sender udpBuf ↔ AsksOnce mem settings r sender udpBuf := by
  have hknown {slot : Nat} {a : NetAddr} {record : ServerClient}
      (hcell : r.server.clients.cell slot = some (a, record))
      (hsame : SameKey serverClientHm a sender) :
      Run.Meets (frameStep mem settings (some slot) sender r.frame)
        (RequestAnswered mem settings (some slot) sender r.frame)
        (r.server.setClient slot { record with timeoutCounter := 0 }) (frames udpBuf) ↔ _ :=
    requestsAnswered_known_iff hjoins (cell_setClient hcell { record with timeoutCounter := 0 })
      hsame
  have hcount {slot : Nat} {record : ServerClient} :
      (r.server.setClient slot record).clients.count = r.server.clients.count :=
    ValidHm.count_set _ _ _
  constructor
  · rintro ⟨-, -, hanswered⟩
    constructor
    · intro slot a record hcell hsame
      have hmeets := (hknown hcell hsame).mp (hanswered _ _ (hearFrom_of_cell hcell hsame))
      rwa [hcount] at hmeets
    · intro hfind
      exact (requestsAnswered_unknown_iff hjoins (ValidHm.find_none hfind)).mp
        (hanswered _ _ (hearFrom_of_none hfind))
  · rintro ⟨hcond, hunknown⟩
    refine ⟨receivePacket_trusting h udpBuf hjoins,
      fun slot a record hcell hsame => ⟨_, hearFrom_of_cell hcell hsame⟩, ?_⟩
    intro client s hheard
    cases hfind : r.server.clients.find sender with
    | error fault =>
        rw [hearFrom, hfind] at hheard
        cases hheard
    | ok found =>
        cases found with
        | none =>
            cases (hearFrom_of_none hfind).symm.trans hheard
            exact (requestsAnswered_unknown_iff hjoins (ValidHm.find_none hfind)).mpr
              (hunknown hfind)
        | some slot =>
            obtain ⟨a, record, hcell, hsame⟩ := ValidHm.find_some hfind
            cases (hearFrom_of_cell hcell hsame).symm.trans hheard
            refine (hknown hcell hsame).mpr ?_
            rw [hcount]
            exact hcond slot a record hcell hsame

/-! ## Steps -/

/-- Joins drop nobody. -/
theorem not_dropsSender_of_onlyJoins {event : ServerEvent} (h : OnlyJoins settings event) :
    ¬ DropsSender event := by
  rintro ⟨sender, udpBuf, f, rfl, hf, hdrops⟩
  obtain ⟨clientFrame, hjoin⟩ := Option.ne_none_iff_exists'.mp (h f hf)
  obtain ⟨type, payload, usernameLen, rfl, hkind, -⟩ := joinFrame_eq_some hjoin
  rw [Frame.dropsSender, hkind] at hdrops
  cases hdrops

/-- Every snake is the snake of a client. -/
def NoStray (s : Server) : Prop :=
  ∀ k ∈ bmapKeys s.world, ∃ e ∈ s.clients.entries, e.2.snakeId = k

/-- A record that keeps its snake leaves no snake behind. -/
theorem NoStray.setCell (h : NoStray s) {slot : Nat} {record record' : ServerClient}
    (hcell : s.clients.cell slot = some (addr, record)) (hid : record'.snakeId = record.snakeId)
    (hcells : s'.clients.cells = s.clients.cells.set slot (some (addr, record')))
    (hworld : s'.world = s.world) : NoStray s' := by
  have hcell' := ValidHm.cell_of_cells_set hcell hcells
  intro k hk
  rw [hworld] at hk
  obtain ⟨e, he, rfl⟩ := h k hk
  obtain ⟨i, hi⟩ := ValidHm.mem_entries.mp he
  by_cases hslot : i = slot
  · subst hslot
    cases hcell.symm.trans hi
    exact ⟨(addr, record'), ValidHm.mem_entries.mpr ⟨i, by rw [hcell', if_pos rfl]⟩, hid⟩
  · exact ⟨e, ValidHm.mem_entries.mpr ⟨i, by rw [hcell', if_neg hslot, hi]⟩, rfl⟩

/-- A client leaves with its snake. -/
theorem NoStray.removed (h : NoStray s) {slot : Nat} {record : ServerClient}
    (hcell : s.clients.cell slot = some (addr, record))
    (hcells : s'.clients.cells = s.clients.cells.set slot none)
    (hworld : s'.world = bmapErase s.world record.snakeId) : NoStray s' := by
  intro k hk
  rw [hworld, mem_bmapKeys_erase] at hk
  obtain ⟨e, he, rfl⟩ := h k hk.1
  obtain ⟨i, hi⟩ := ValidHm.mem_entries.mp he
  refine ⟨e, ValidHm.mem_entries.mpr ⟨i, ?_⟩, rfl⟩
  rw [ValidHm.cell_of_cells_set hcell hcells, if_neg, hi]
  rintro rfl
  cases hcell.symm.trans hi
  exact hk.2 rfl

/-- A client joins, with a new snake or with one that is there. -/
theorem NoStray.joined (h : NoStray s) {slot : Nat}
    (hcreate : createClient mem settings s addr frame = .ok (s', slot)) : NoStray s' := by
  obtain ⟨clients, world, snake, hemplace, hspawn, -, rfl⟩ := createClient_ok hcreate
  obtain ⟨-, hperm, -⟩ := ValidHm.emplaceNew_some hemplace
  have hold (k : UInt16) (hk : k ∈ bmapKeys s.world) :
      ∃ e ∈ clients.entries, e.2.snakeId = k := by
    obtain ⟨e, he, hid⟩ := h k hk
    exact ⟨e, hperm.mem_iff.mpr (List.mem_cons_of_mem _ he), hid⟩
  intro k hk
  rw [bmapKeys_set] at hk
  cases (worldSpawnSnake_spec hspawn).2 with
  | taken _ => exact hold k hk
  | refused _ _ => exact hold k hk
  | new _ _ hkeys _ =>
      rcases List.mem_cons.mp (hkeys.mem_iff.mp hk) with rfl | hk
      · exact ⟨_, hperm.mem_iff.mpr List.mem_cons_self, rfl⟩
      · exact hold k hk

/-- No step of the server leaves a snake without its client. -/
theorem ServerStep.noStray {event : ServerEvent} {start : Server} (hs : NoStray s)
    (h : ServerStep mem settings num event frame start s s') : NoStray s' := by
  cases h with
  | @record slot addr record record' hcell hsteps =>
      exact hs.setCell hcell (snakeId_of_steps hsteps) (ValidHm.cells_set hcell record') rfl
  | @sent slot addr record buf left hevent hcell hpack =>
      have hid : ({ record with pendingMsgs := left,
                                timeoutCounter := record.timeoutCounter + 1 } :
          ServerClient).snakeId = record.snakeId := rfl
      exact hs.setCell hcell hid (ValidHm.cells_set hcell _) rfl
  | denied hasks hdenial => exact hs
  | joined hasks hclients hworld hdenial hcreate => exact hs.joined hcreate
  | @removed slot a addr record _ hcell hsame hreason hremove =>
      obtain ⟨s₁, hok, hcells, -, hworld, -⟩ := clientRemove_of_cell hcell hsame
      cases hok.symm.trans hremove
      exact hs.removed hcell hcells hworld
  | commands payload hcell hsnake =>
      intro k hk
      rw [bmapKeys_set] at hk
      exact hs k hk
  | simulated hevent hsnake hstart hupdate =>
      intro k hk
      rw [bmapKeys_set] at hk
      exact hs k hk
  | marked hdrops => exact hs
  | punished hempty => exact hs

/-- Requests make nobody malicious. -/
theorem ServerStep.trusting {event : ServerEvent} (honly : OnlyJoins settings event)
    {start : Server} (hs : Trusting s) (h : ServerStep mem settings num event frame start s s') :
    Trusting s' := by
  have hnever := not_dropsSender_of_onlyJoins honly
  cases h with
  | joined hasks hclients hworld hdenial hcreate =>
      obtain ⟨clients, world, snake, -, -, -, rfl⟩ := createClient_ok hcreate
      exact ⟨hs.banned, hs.malicious⟩
  | removed hcell hsame hreason hremove =>
      obtain ⟨s₁, hok, -, -, -, hmalicious, hbanned, -⟩ := clientRemove_of_cell hcell hsame
      cases hok.symm.trans hremove
      exact ⟨hbanned.trans hs.banned, hmalicious.trans hs.malicious⟩
  | marked hdrops => exact absurd hdrops hnever
  | punished hempty => exact ⟨hs.banned, hempty hs.malicious⟩
  | _ => exact ⟨hs.banned, hs.malicious⟩

/-! ## Runs -/

/-- The address has this snake. -/
def HasSnake (s : Server) (addr : NetAddr) (snakeId : UInt16) : Prop :=
  snakeId ∈ bmapKeys s.world ∧ ∃ slot a record, s.clients.cell slot = some (a, record) ∧
    SameKey serverClientHm a addr ∧ record.snakeId = snakeId

/-- Each address has at most one record and at most one snake, and no snake is left over. -/
structure OneEach (s : Server) : Prop where
  records : ∀ i j e e', s.clients.cell i = some e → s.clients.cell j = some e' →
    SameKey serverClientHm e.1 e'.1 → i = j
  snakes : ∀ addr k k', HasSnake s addr k → HasSnake s addr k' → k = k'
  owned : ∀ k ∈ bmapKeys s.world, ∃ addr, HasSnake s addr k

/-- Then each client has one snake. -/
theorem oneEach_of_noStray (h : NoStray s) : OneEach s where
  records := by
    rintro i j ⟨a, record⟩ ⟨a', record'⟩ hi hj hsame
    exact ValidHm.cell_unique hi hj hsame
  snakes := by
    rintro addr k k' ⟨-, i, a, record, hi, hsame, rfl⟩ ⟨-, j, a', record', hj, hsame', rfl⟩
    obtain rfl := ValidHm.cell_unique hi hj (hsame.trans hsame'.symm)
    cases hi.symm.trans hj
    rfl
  owned := by
    intro k hk
    obtain ⟨⟨a, record⟩, he, rfl⟩ := h k hk
    obtain ⟨i, hi⟩ := ValidHm.mem_entries.mp he
    exact ⟨a, hk, i, a, record, hi, SameKey.refl _ a, rfl⟩

end

/-- **Joining is idempotent** in exactly those runs in which nobody asks in vain for what he has,
and in which a new client asks once in a packet. -/
theorem joins_idempotent_iff (mem : Alloc) (settings : ServerSettings) (num : Numerics)
    (events : List ServerEvent) (hjoins : ∀ event ∈ events, OnlyJoins settings event) :
    (OneEach serverRunInit.server ∧
      Run.EverySafe (serverEvent mem settings num) (fun _ _ r => OneEach r.server) (fun _ => True)
        serverRunInit events ∧
      Run.Meets (serverEvent mem settings num) (RequestsAnswered mem settings) serverRunInit
        events) ↔
    Run.Meets (serverEvent mem settings num) (JoinsOnce mem settings) serverRunInit events := by
  have hinit : NoStray serverRunInit.server := by
    intro k hk
    cases hk
  have hkeeps (r : ServerRun) (event : ServerEvent) (r' : ServerRun) (hr : NoStray r.server)
      (h : serverEvent mem settings num r event = .ok r') :
      NoStray r'.server ∧ OneEach r'.server := by
    have hafter : NoStray r'.server :=
      serverEvent_invariant (fun _ _ hs hstep => hstep.noStray hs) hr h
    exact ⟨hafter, oneEach_of_noStray hafter⟩
  have htrusting (r : ServerRun) (event : ServerEvent) (r' : ServerRun) (hr : Trusting r.server)
      (honly : OnlyJoins settings event) (h : serverEvent mem settings num r event = .ok r') :
      Trusting r'.server :=
    serverEvent_invariant (fun _ _ hs hstep => hstep.trusting honly hs) hr h
  have hexact (r : ServerRun) (event : ServerEvent) (hr : Trusting r.server)
      (honly : OnlyJoins settings event) :
      RequestsAnswered mem settings r event ↔ JoinsOnce mem settings r event := by
    cases event with
    | packet sender udpBuf => exact packetAnswered_iff hr honly
    | _ => exact Iff.rfl
  have heach := @Run.everySafe_of_invariant _ _ _ _ (fun r : ServerRun => NoStray r.server)
    (fun _ _ r => OneEach r.server) hkeeps _ events hinit
  have htrust : Trusting serverRunInit.server := ⟨rfl, rfl⟩
  have hiff := @Run.meets_iff_meets _ _ _ _ (fun r : ServerRun => Trusting r.server) _ _ _ htrusting
    hexact _ events htrust (Run.meets_of_mem hjoins)
  rw [← hiff]
  exact ⟨fun h => h.2.2, fun h => ⟨oneEach_of_noStray hinit, heach, h⟩⟩

/-- A client joins and asks again. -/
def asksAgain : List ServerEvent :=
  [.packet (loopback 40000) (joinPacket (cString "a")),
    .packet (loopback 40000) (joinPacket (cString "a"))]

/-- With room for 600 clients it is answered again. -/
theorem joins_idempotent_iff_asksAgain :
    OneEach serverRunInit.server ∧
      Run.EverySafe (serverEvent Alloc.unlimited serverSettingsDefaults eastward)
        (fun _ _ r => OneEach r.server) (fun _ => True) serverRunInit asksAgain ∧
      Run.Meets (serverEvent Alloc.unlimited serverSettingsDefaults eastward)
        (RequestsAnswered Alloc.unlimited serverSettingsDefaults) serverRunInit asksAgain := by
  refine (joins_idempotent_iff Alloc.unlimited serverSettingsDefaults eastward asksAgain
    (by decide +kernel)).mpr ⟨⟨?_, fun _ _ _ => by decide +kernel⟩, fun r hr =>
      ⟨⟨?_, fun _ _ _ => by decide +kernel⟩, fun _ _ => trivial⟩⟩
  · intro slot a record hcell
    cases hcell
  · have h : (do
        let r ← serverEvent Alloc.unlimited serverSettingsDefaults eastward serverRunInit
          (.packet (loopback 40000) (joinPacket (cString "a")))
        return decide (∀ e ∈ r.server.clients.entries,
          r.server.clients.count < serverSettingsDefaults.maxPlayers.toNat ∧
            (findSnake r.server.world e.2.snakeId).toOption.any fun snake =>
              vecTakesAll Alloc.unlimited e.2.pendingMsgs
                (joinAnswers serverSettingsDefaults r.frame e.2.snakeId snake.head.pos
                  (frames (joinPacket (cString "a")))))) = Except.ok true := by decide +kernel
    obtain ⟨r', hr', h⟩ := bind_eq_ok.mp h
    cases hr'.symm.trans hr
    rw [pure_eq_ok, Except.ok.injEq, decide_eq_true_eq] at h
    intro slot a record hcell _ _
    obtain ⟨hroom, htakes⟩ := h (a, record) (ValidHm.mem_entries.mpr ⟨slot, hcell⟩)
    refine ⟨hroom, ?_⟩
    cases hfind : findSnake r.server.world record.snakeId with
    | error fault =>
        rw [hfind] at htakes
        cases htakes
    | ok snake =>
        rw [hfind] at htakes
        exact ⟨snake, rfl, htakes⟩

/-- The default settings with room for one client. -/
def soloSettings : ServerSettings :=
  { serverSettingsDefaults with
    maxPlayers := 1
    maxPlayers_pos := by decide }

/-- **A full server denies the repeated request** of its only client. -/
theorem joins_repeat_denied :
    (∀ event ∈ asksAgain, OnlyJoins soloSettings event) ∧
      ¬ Run.Meets (serverEvent Alloc.unlimited soloSettings eastward)
        (RequestsAnswered Alloc.unlimited soloSettings) serverRunInit asksAgain := by
  have hjoins : ∀ event ∈ asksAgain, OnlyJoins soloSettings event := by decide +kernel
  have h : (do
      let r ← serverEvent Alloc.unlimited soloSettings eastward serverRunInit
        (.packet (loopback 40000) (joinPacket (cString "a")))
      return decide (r.server.bannedClients = none ∧ r.server.maliciousClients = none ∧
        r.server.clients.count = 1 ∧ ∃ e ∈ r.server.clients.entries, e.1 = loopback 40000)) =
      Except.ok true := by decide +kernel
  obtain ⟨r, hr, h⟩ := bind_eq_ok.mp h
  rw [pure_eq_ok, Except.ok.injEq, decide_eq_true_eq] at h
  obtain ⟨hbanned, hmalicious, hcount, ⟨a, record⟩, he, rfl⟩ := h
  refine ⟨hjoins, fun hmeets => ?_⟩
  have hanswered : PacketAnswered Alloc.unlimited soloSettings r (loopback 40000)
      (joinPacket (cString "a")) := (hmeets.2 r hr).1
  have htrust : Trusting r.server := ⟨hbanned, hmalicious⟩
  have honce := (packetAnswered_iff htrust (hjoins _ List.mem_cons_self)).mp hanswered
  obtain ⟨slot, hcell⟩ := ValidHm.mem_entries.mp he
  obtain ⟨hroom, -⟩ := honce.known slot _ record hcell (SameKey.refl _ _) (by decide +kernel)
  have hfull : soloSettings.maxPlayers.toNat = 1 := by decide
  omega

end Clither
