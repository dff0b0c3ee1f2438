import Clither.ClientRecords

/-!
# The messages of a packet

`unpack_packet` walks through the bytes of a packet and handles one message
after the other.  Where a message begins and ends does not depend on what the
messages do, so a packet is the list of its frames, and `unpackPacket` is a walk
along that list.

A message is one of four kinds: a join request that the parser accepts, a
request to leave, commands, and everything else, for which the sender is dropped
as malicious.  This is the only case distinction that the later modules make.
-/

namespace Clither

open Faults (bind_eq_ok)

/-- A message as the loop of `unpack_packet` meets it. -/
inductive Frame where
  | message (type : UInt8) (payload : List UInt8)
  /-- The payload length points outside of the packet. -/
  | truncated
  deriving DecidableEq

def framesLoop : Nat → List UInt8 → List Frame
  | fuel + 1, type :: msgLen :: rest =>
      if msgLen.toNat > rest.length then [.truncated]
      else .message type (rest.take msgLen.toNat) :: framesLoop fuel (rest.drop msgLen.toNat)
  | _, _ => []

/-- The frames of a packet. -/
def frames (udpBuf : List UInt8) : List Frame :=
  framesLoop udpBuf.length udpBuf

/-- The loop ends at a truncated message. -/
theorem framesLoop_truncated {fuel : Nat} {udpBuf : List UInt8} {before behind : List Frame}
    (h : framesLoop fuel udpBuf = before ++ .truncated :: behind) : behind = [] := by
  induction fuel generalizing udpBuf before with
  | zero =>
      have hnil : framesLoop 0 udpBuf = [] := rfl
      rw [hnil] at h
      simp at h
  | succ fuel ih =>
      match udpBuf with
      | [] => simp [framesLoop] at h
      | [_] => simp [framesLoop] at h
      | type :: msgLen :: rest =>
          rw [framesLoop] at h
          by_cases hlong : msgLen.toNat > rest.length
          · rw [if_pos hlong] at h
            cases before with
            | nil => exact (List.cons.inj h).2.symm
            | cons b bs => simp at h
          · rw [if_neg hlong] at h
            cases before with
            | nil => simp at h
            | cons b bs => exact ih (List.cons.inj h).2

section

variable (mem : Alloc) (settings : ServerSettings)

/-- Handle the frames of a packet in turn. -/
def processFrames (client : Option Nat) (addr : NetAddr) (frameNumber : UInt16) :
    List Frame → Server → Except Fault Server
  | [], s => .ok s
  | .truncated :: _, s => markClientAsMaliciousAndDrop mem settings s addr client
  | .message type payload :: rest, s =>
      if client = none ∧ type ≠ MsgType.joinRequest.toByte then .ok s
      else do
        let s ← processMessage mem settings s client addr type payload frameNumber
        processFrames client addr frameNumber rest s

variable {mem settings}

/-- The unpacking loop works on the frames of the datagram. -/
theorem unpackLoop_eq (client : Option Nat) (addr : NetAddr) (frameNumber : UInt16) (fuel : Nat)
    (udpBuf : List UInt8) (s : Server) :
    unpackLoop mem settings client addr frameNumber fuel udpBuf s =
      processFrames mem settings client addr frameNumber (framesLoop fuel udpBuf) s := by
  induction fuel generalizing udpBuf s with
  | zero => rfl
  | succ fuel ih =>
      match udpBuf with
      | [] => rfl
      | [_] => rfl
      | type :: msgLen :: rest =>
          rw [unpackLoop, framesLoop]
          by_cases hlong : msgLen.toNat > rest.length
          · rw [if_pos hlong, if_pos hlong, processFrames]
          · rw [if_neg hlong, if_neg hlong, processFrames]
            simp only [ih]

/-- **A packet is handled frame by frame.** -/
theorem unpackPacket_eq (s : Server) (client : Option Nat) (addr : NetAddr) (udpBuf : List UInt8)
    (frameNumber : UInt16) :
    unpackPacket mem settings s client addr udpBuf frameNumber =
      processFrames mem settings client addr frameNumber (frames udpBuf) s :=
  unpackLoop_eq client addr frameNumber udpBuf.length udpBuf s

end

/-! ## Kinds of messages -/

/-- What `process_message` distinguishes. -/
inductive MsgKind where
  /-- An accepted join request, with its frame and the length of the name. -/
  | join (clientFrame : UInt16) (usernameLen : UInt8)
  | leave
  | commands
  /-- The sender is dropped as malicious. -/
  | malicious
  deriving DecidableEq

def msgKind (type : UInt8) (payload : List UInt8) : MsgKind :=
  match msgParsePayload type payload with
  | .ok (.joinRequest _ frame usernameLen _) => .join frame usernameLen
  | .ok (.command _) => .commands
  | .ok (.unparsed byte) => if byte = MsgType.leave.toByte then .leave else .malicious
  | _ => .malicious

/-- Only messages of that type are taken for join requests. -/
theorem type_of_join {type : UInt8} {payload : List UInt8} {frame : UInt16} {usernameLen : UInt8}
    (h : msgKind type payload = .join frame usernameLen) : type = MsgType.joinRequest.toByte := by
  unfold msgKind at h
  split at h
  · next hparse => exact (byte_of_msgParsePayload hparse).symm
  · cases h
  · split at h <;> cases h
  · cases h

/-- A message of that type is a join request or malformed. -/
theorem kind_of_join_type {type : UInt8} (payload : List UInt8)
    (h : type = MsgType.joinRequest.toByte) :
    (∃ frame usernameLen, msgKind type payload = .join frame usernameLen) ∨
      msgKind type payload = .malicious := by
  unfold msgKind
  split
  · exact Or.inl ⟨_, _, rfl⟩
  · next hparse =>
      have hbyte := byte_of_msgParsePayload hparse
      rw [h] at hbyte
      cases hbyte
  · next byte hparse =>
      have hbyte : byte = type := byte_of_msgParsePayload hparse
      rw [if_neg (by rw [hbyte, h]; decide)]
      exact Or.inr rfl
  · exact Or.inr rfl

section

variable {mem : Alloc} {settings : ServerSettings}

/-- What a message does depends on its kind only. -/
theorem processMessage_eq (s : Server) (client : Option Nat) (addr : NetAddr) (type : UInt8)
    (payload : List UInt8) (frameNumber : UInt16) :
    processMessage mem settings s client addr type payload frameNumber =
      match msgKind type payload with
      | .join frame usernameLen =>
          processJoinRequest mem settings s client addr frame usernameLen frameNumber
      | .leave => clientRemove s addr client
      | .commands => processCommands mem settings s client addr payload frameNumber
      | .malicious => markClientAsMaliciousAndDrop mem settings s addr client := by
  unfold processMessage msgKind
  generalize msgParsePayload type payload = parsed
  cases parsed with
  | error code => rfl
  | ok pp =>
      cases pp with
      | unparsed byte =>
          simp only
          split <;> rfl
      | _ => rfl

/-- The denial of a join request with a name of that length, while `count`
clients are registered. -/
def joinDenial (settings : ServerSettings) (count : Nat) (usernameLen : UInt8) : Option Msg :=
  if count + 1 > settings.maxPlayers.toNat then some (msgJoinDenyServerFull (cString "Server full"))
  else if usernameLen > settings.maxUsernameLen then
    some (msgJoinDenyBadUsername (cString "Username too long"))
  else none

/-- A join request is denied, or answered for the client that it comes from,
which may have to be created first. -/
theorem processJoinRequest_eq (s : Server) (client : Option Nat) (addr : NetAddr)
    (clientFrame : UInt16) (usernameLen : UInt8) (frameNumber : UInt16) :
    processJoinRequest mem settings s client addr clientFrame usernameLen frameNumber =
      match joinDenial settings s.clients.count usernameLen with
      | some m => .ok (sendMsg s addr m)
      | none =>
          match client with
          | none => do
              let (s, slot) ← createClient mem settings s addr frameNumber
              joinAccept mem settings s slot clientFrame frameNumber
          | some slot => joinAccept mem settings s slot clientFrame frameNumber := by
  unfold processJoinRequest joinDenial
  split
  · rfl
  · split
    · rfl
    · rfl

/-! ## New clients -/

/-- What creating a client that returns has done. -/
theorem createClient_ok {s s' : Server} {addr : NetAddr} {frameNumber : UInt16} {slot : Nat}
    (h : createClient mem settings s addr frameNumber = .ok (s', slot)) :
    ∃ clients world snake,
      s.clients.emplaceNew mem addr (serverClientInit settings frameNumber (spawnId s.world)) =
        .ok (clients, some slot) ∧
      worldSpawnSnake mem s.world = .ok (world, spawnId s.world) ∧
      findSnake world (spawnId s.world) = .ok snake ∧
      s' = { s with clients := clients,
                    world := bmapSet world (spawnId s.world) (snakeSetHold snake) } := by
  unfold createClient at h
  obtain ⟨⟨clients, slot'⟩, hemplace, h⟩ := bind_eq_ok.mp h
  cases slot' with
  | none => cases h
  | some slot' =>
      obtain ⟨⟨world, snakeId⟩, hspawn, h⟩ := bind_eq_ok.mp h
      obtain ⟨snake, hfind, h⟩ := bind_eq_ok.mp h
      obtain rfl := (worldSpawnSnake_spec hspawn).1
      cases h
      exact ⟨clients, world, snake, hemplace, hspawn, hfind, rfl⟩

/-- The new client is in the cell that the pointer refers to. -/
theorem createClient_cell {s s' : Server} {addr : NetAddr} {frameNumber : UInt16} {slot : Nat}
    (h : createClient mem settings s addr frameNumber = .ok (s', slot)) :
    s'.clients.cell slot = some (addr, serverClientInit settings frameNumber (spawnId s.world)) ∧
    s'.clients.count = s.clients.count + 1 ∧ ¬ s.clients.Stores addr := by
  obtain ⟨clients, world, snake, hemplace, -, -, rfl⟩ := createClient_ok h
  obtain ⟨habsent, hperm, hcell⟩ := ValidHm.emplaceNew_some hemplace
  refine ⟨hcell, ?_, habsent⟩
  show clients.count = s.clients.count + 1
  rw [ValidHm.count_eq, ValidHm.count_eq, hperm.length_eq, List.length_cons]

/-- The answer to a client whose snake is there. -/
theorem joinAccept_of_cell (mem : Alloc) (settings : ServerSettings) {s : Server} {slot : Nat} {a : NetAddr} {record : ServerClient}
    {snake : Snake} (hcell : s.clients.cell slot = some (a, record))
    (hsnake : findSnake s.world record.snakeId = .ok snake) (clientFrame frameNumber : UInt16) :
    joinAccept mem settings s slot clientFrame frameNumber =
      .ok (s.setClient slot (serverQueue mem record (msgJoinAccept settings.simTickRate
        settings.netTickRate clientFrame frameNumber record.snakeId snake.head.pos))) := by
  rw [joinAccept, client_of_cell hcell, ok_bind]
  dsimp only
  rw [hsnake]
  rfl

/-- Accepting a join keeps the other records. -/
theorem kept_of_joinAccept {s s' : Server} {slot : Nat} {a : NetAddr} {record : ServerClient}
    (hcell : s.clients.cell slot = some (a, record)) {clientFrame frameNumber : UInt16}
    (h : joinAccept mem settings s slot clientFrame frameNumber = .ok s') : Kept slot s s' := by
  unfold joinAccept at h
  rw [client_of_cell hcell, ok_bind] at h
  obtain ⟨snake, -, h⟩ := bind_eq_ok.mp h
  cases h
  exact kept_setClient hcell rfl

/-! ## Dropping a malicious client -/

/-- The insertion into the list of malicious clients ends. -/
def MarkReturns (mem : Alloc) (settings : ServerSettings) (s : Server) (addr : NetAddr) : Prop :=
  ∃ malicious, hmInsertUpdate netAddrHm mem s.maliciousClients addr
    (settings.maliciousTimeout.toNat : Int) = .ok malicious

/-- A rehash can only fail on a slot taken or on an endless probe. -/
theorem rehash_error {K V : Type} {c : HmInstance K} {old : List (HmSlot K V)} {new : HmTable K V}
    {f : Fault} (h : rehash c old new = .error f) : f = .slotTaken ∨ f = .probeLoop := by
  induction old generalizing new with
  | nil => cases h
  | cons slot rest ih =>
      cases slot with
      | unused => exact ih h
      | rip => exact ih h
      | live hash k v =>
          rw [rehash] at h
          split at h
          · exact ih h
          · cases h
            exact Or.inl rfl
          · cases h
            exact Or.inr rfl

/-- An insertion fails to return in one of two ways. -/
theorem hmInsertUpdate_error {K V : Type} {c : HmInstance K} {hm : Hm K V} {key : K} {value : V}
    {f : Fault} (h : hmInsertUpdate c mem hm key value = .error f) :
    f = .slotTaken ∨ f = .probeLoop := by
  unfold hmInsertUpdate hmEmplaceOrGet at h
  cases hprep : hmPrepare c mem hm with
  | ok prepared =>
      rw [hprep] at h
      cases prepared with
      | none => cases h
      | some t =>
          simp only at h
          cases hfind : findSlot c t key (hmHash c key) with
          | none =>
              rw [hfind] at h
              cases h
              exact Or.inr rfl
          | some found =>
              rw [hfind] at h
              cases found <;> cases h
  | error f' =>
      rw [hprep] at h
      cases h
      unfold hmPrepare hmGrow at hprep
      split at hprep
      · split at hprep
        · split at hprep
          · cases hprep
          · next hrehash =>
              cases hprep
              exact rehash_error hrehash
        · cases hprep
      · cases hprep

/-- A record is used that is not there: there has never been one, or it has been
erased. -/
def UsesMissingRecord (r : Except Fault Server) : Prop :=
  r = .error .nullClient ∨ r = .error .staleClient

/-- A state that was reached used no missing record. -/
theorem usesMissingRecord_ok (s : Server) : ¬ UsesMissingRecord (.ok s) := by
  rintro (h | h) <;> cases h

/-- Dropping through such a pointer is a use of it, unless the insertion in front
of it never returns. -/
theorem mark_missing (mem : Alloc) (settings : ServerSettings) {s : Server} (addr : NetAddr)
    {client : Option Nat} {f : Fault} (h : s.client client = .error f) (hf : f = .nullClient ∨ f = .staleClient) :
    (UsesMissingRecord (markClientAsMaliciousAndDrop mem settings s addr client) ↔
      MarkReturns mem settings s addr) ∧
    ∀ s', markClientAsMaliciousAndDrop mem settings s addr client ≠ .ok s' := by
  unfold markClientAsMaliciousAndDrop MarkReturns
  cases hmark : hmInsertUpdate netAddrHm mem s.maliciousClients addr
      (settings.maliciousTimeout.toNat : Int) with
  | ok malicious =>
      have hremove : clientRemove { s with maliciousClients := malicious } addr client = .error f :=
        clientRemove_of_error h
      rw [ok_bind, hremove]
      refine ⟨iff_of_true ?_ ⟨malicious, rfl⟩, fun s' h' => by cases h'⟩
      rcases hf with rfl | rfl
      · exact Or.inl rfl
      · exact Or.inr rfl
  | error f' =>
      rw [error_bind]
      refine ⟨iff_of_false ?_ (by simp), fun s' h' => by cases h'⟩
      rcases hmInsertUpdate_error hmark with rfl | rfl
      · rintro (h | h) <;> cases h
      · rintro (h | h) <;> cases h

/-! ## Pointers without a record -/

/-- A pointer that cannot be used: its record has been erased, or it is still
`NULL` although the sender has a record by now. -/
structure Unusable (s : Server) (client : Option Nat) (addr : NetAddr) : Prop where
  fault : ∃ f, (f = .nullClient ∨ f = .staleClient) ∧ s.client client = .error f
  stores : client = none → s.clients.Stores addr

/-- The pointer to an empty cell is unusable. -/
theorem unusable_of_empty {s : Server} {slot : Nat} (addr : NetAddr)
    (h : s.clients.cell slot = none) : Unusable s (some slot) addr where
  fault := ⟨.staleClient, Or.inr rfl, client_of_empty h⟩
  stores := fun hnone => by cases hnone

/-- The missing pointer is unusable while the address is stored. -/
theorem unusable_of_stores {s : Server} {addr : NetAddr} (h : s.clients.Stores addr) :
    Unusable s none addr where
  fault := ⟨.nullClient, Or.inl rfl, rfl⟩
  stores := fun _ => h

/-- A join request that is not denied uses the record. -/
theorem processJoinRequest_unusable (mem : Alloc) {s : Server} {client : Option Nat}
    {addr : NetAddr} (h : Unusable s client addr) {usernameLen : UInt8}
    (hdenial : joinDenial settings s.clients.count usernameLen = none)
    (clientFrame frameNumber : UInt16) :
    ∃ f, (f = .nullClient ∨ f = .staleClient) ∧
      processJoinRequest mem settings s client addr clientFrame usernameLen frameNumber =
        .error f := by
  rw [processJoinRequest_eq, hdenial]
  cases client with
  | none =>
      obtain ⟨clients, hfail⟩ : ∃ clients, s.clients.emplaceNew mem addr
          (serverClientInit settings frameNumber (spawnId s.world)) = .ok (clients, none) :=
        ValidHm.emplaceNew_of_stores (h.stores rfl)
      refine ⟨.nullClient, Or.inl rfl, ?_⟩
      simp only [createClient, hfail, ok_bind, error_bind]
  | some slot =>
      obtain ⟨f, hf, hclient⟩ := h.fault
      refine ⟨f, hf, ?_⟩
      simp only [joinAccept, hclient, error_bind]

/-- The frames that are handled without the record: up to the first one that
ends the loop they are join requests that are denied. -/
def LeavesAlone (settings : ServerSettings) (client : Option Nat) (count : Nat) (marks : Prop) :
    List Frame → Prop
  | [] => True
  | .truncated :: _ => ¬ marks
  | .message type payload :: rest =>
      if client = none ∧ type ≠ MsgType.joinRequest.toByte then True
      else
        match msgKind type payload with
        | .join _ usernameLen =>
            (joinDenial settings count usernameLen).isSome ∧
              LeavesAlone settings client count marks rest
        | .malicious => ¬ marks
        | _ => False

/-- When a message leaves the server alone, read off the definition. -/
theorem leavesAlone_message (settings : ServerSettings) (client : Option Nat) (count : Nat)
    (marks : Prop) (type : UInt8) (payload : List UInt8) (rest : List Frame) :
    LeavesAlone settings client count marks (.message type payload :: rest) =
      if client = none ∧ type ≠ MsgType.joinRequest.toByte then True
      else
        match msgKind type payload with
        | .join _ usernameLen =>
            (joinDenial settings count usernameLen).isSome ∧
              LeavesAlone settings client count marks rest
        | .malicious => ¬ marks
        | _ => False := rfl

/-- **Behind an unusable pointer.**  The record is left alone exactly by the
frames that can be handled without it, and they change neither clients nor
world. -/
theorem processFrames_unusable (mem : Alloc) (settings : ServerSettings) {s : Server} {client : Option Nat} {addr : NetAddr}
    (h : Unusable s client addr) (frameNumber : UInt16) (fs : List Frame) :
    (¬ UsesMissingRecord (processFrames mem settings client addr frameNumber fs s) ↔
      LeavesAlone settings client s.clients.count (MarkReturns mem settings s addr) fs) ∧
    ∀ s', processFrames mem settings client addr frameNumber fs s = .ok s' →
      s'.clients = s.clients ∧ s'.world = s.world := by
  induction fs generalizing s with
  | nil =>
      refine ⟨iff_of_true (usesMissingRecord_ok s) trivial, fun s' hs' => ?_⟩
      cases hs'
      exact ⟨rfl, rfl⟩
  | cons frame rest ih =>
      obtain ⟨f, hf, hclient⟩ := h.fault
      have hmark := mark_missing mem settings addr hclient hf
      have huse {r : Except Fault Server} {f : Fault} (hf : f = .nullClient ∨ f = .staleClient)
          (hr : r = .error f) : UsesMissingRecord r := by
        rcases hf with rfl | rfl
        · exact Or.inl hr
        · exact Or.inr hr
      cases frame with
      | truncated =>
          exact ⟨not_congr hmark.1, fun s' hs' => absurd hs' (hmark.2 s')⟩
      | message type payload =>
          by_cases hbreak : client = none ∧ type ≠ MsgType.joinRequest.toByte
          · rw [processFrames, leavesAlone_message, if_pos hbreak, if_pos hbreak]
            refine ⟨iff_of_true (usesMissingRecord_ok s) trivial, fun s' hs' => ?_⟩
            cases hs'
            exact ⟨rfl, rfl⟩
          · rw [processFrames, leavesAlone_message, if_neg hbreak, if_neg hbreak, processMessage_eq]
            have hfails {r : Except Fault Server} (hr : r = .error f) (p : Prop) (hp : ¬ p) :
                (¬ UsesMissingRecord (do
                  let s ← r
                  processFrames mem settings client addr frameNumber rest s) ↔ p) ∧
                ∀ s', (do
                  let s ← r
                  processFrames mem settings client addr frameNumber rest s) = .ok s' →
                    s'.clients = s.clients ∧ s'.world = s.world := by
              subst hr
              exact ⟨iff_of_false (fun hno => hno (huse hf rfl)) hp, fun s' hs' => by cases hs'⟩
            cases hkind : msgKind type payload with
            | join clientFrame usernameLen =>
                cases hdenial : joinDenial settings s.clients.count usernameLen with
                | some m =>
                    simp only [processJoinRequest_eq, hdenial, ok_bind, Option.isSome_some, true_and]
                    exact @ih (sendMsg s addr m) ⟨h.fault, h.stores⟩
                | none =>
                    obtain ⟨f', hf', hjoin⟩ :=
                      processJoinRequest_unusable mem h hdenial clientFrame frameNumber
                    simp only [hjoin, error_bind]
                    refine ⟨iff_of_false (fun hno => hno (huse hf' rfl)) ?_, fun s' hs' => by cases hs'⟩
                    rintro ⟨hsome, -⟩
                    rw [hdenial] at hsome
                    cases hsome
            | leave => exact hfails (clientRemove_of_error hclient) _ not_false
            | commands =>
                refine hfails ?_ _ not_false
                simp only [processCommands, hclient, error_bind]
            | malicious =>
                simp only
                cases hresult : markClientAsMaliciousAndDrop mem settings s addr client with
                | ok s₁ => exact absurd hresult (hmark.2 s₁)
                | error f' =>
                    rw [hresult] at hmark
                    rw [error_bind]
                    exact ⟨not_congr hmark.1, fun s' hs' => by cases hs'⟩

/-! ## Received packets -/

/-- What becomes of a frame from an address without a record: the walk ends, or
the request is denied, or a client is created. -/
inductive UnknownFrame (mem : Alloc) (settings : ServerSettings) (addr : NetAddr)
    (frameNumber : UInt16) (s : Server) (rest : List Frame) (s' : Server) : Frame → Prop where
  | ends {type : UInt8} {payload : List UInt8} (htype : type ≠ MsgType.joinRequest.toByte)
      (hsame : s' = s) : UnknownFrame mem settings addr frameNumber s rest s' (.message type payload)
  | denied {type : UInt8} {payload : List UInt8} {clientFrame : UInt16} {usernameLen : UInt8}
      {m : Msg} (hkind : msgKind type payload = .join clientFrame usernameLen)
      (hdenial : joinDenial settings s.clients.count usernameLen = some m)
      (hrest : processFrames mem settings none addr frameNumber rest (sendMsg s addr m) = .ok s') :
      UnknownFrame mem settings addr frameNumber s rest s' (.message type payload)
  | created {type : UInt8} {payload : List UInt8} {clientFrame : UInt16} {usernameLen : UInt8}
      {slot : Nat} {s₁ s₂ : Server} (hkind : msgKind type payload = .join clientFrame usernameLen)
      (hdenial : joinDenial settings s.clients.count usernameLen = none)
      (hcreate : createClient mem settings s addr frameNumber = .ok (s₁, slot))
      (haccept : joinAccept mem settings s₁ slot clientFrame frameNumber = .ok s₂)
      (hrest : processFrames mem settings none addr frameNumber rest s₂ = .ok s') :
      UnknownFrame mem settings addr frameNumber s rest s' (.message type payload)

/-- What the first frame of an unknown sender did. -/
theorem unknownFrame_of_ok {s s' : Server} {addr : NetAddr} {frameNumber : UInt16} {f : Frame}
    {rest : List Frame}
    (h : processFrames mem settings none addr frameNumber (f :: rest) s = .ok s') :
    UnknownFrame mem settings addr frameNumber s rest s' f := by
  -- whoever has no record cannot be dropped
  have hnever := (@mark_missing mem settings s addr none _ rfl (Or.inl rfl)).2
  cases f with
  | truncated => exact absurd h (hnever s')
  | message type payload =>
      rw [processFrames] at h
      by_cases htype : type ≠ MsgType.joinRequest.toByte
      · rw [if_pos ⟨rfl, htype⟩] at h
        cases h
        exact .ends htype rfl
      rw [if_neg (fun hbreak => htype hbreak.2), processMessage_eq] at h
      rcases kind_of_join_type payload (not_not.mp htype) with
        ⟨clientFrame, usernameLen, hkind⟩ | hkind
      · simp only [hkind, processJoinRequest_eq] at h
        cases hdenial : joinDenial settings s.clients.count usernameLen with
        | some m =>
            rw [hdenial] at h
            exact .denied hkind hdenial h
        | none =>
            rw [hdenial] at h
            obtain ⟨s₂, hcreated, hrest⟩ := bind_eq_ok.mp h
            obtain ⟨⟨s₁, slot⟩, hcreate, haccept⟩ := bind_eq_ok.mp hcreated
            exact .created hkind hdenial hcreate haccept hrest
      · simp only [hkind] at h
        obtain ⟨s₁, hmark, -⟩ := bind_eq_ok.mp h
        exact absurd hmark (hnever s₁)

/-- What becomes of a packet: its sender is banned, or malicious, or has no
record, or has one. -/
inductive PacketReceived (mem : Alloc) (settings : ServerSettings) (s : Server) (addr : NetAddr)
    (udpBuf : List UInt8) (frameNumber : UInt16) : Server → Prop where
  | ignored : PacketReceived mem settings s addr udpBuf frameNumber s
  | punished {malicious : Hm NetAddr Int}
      (hempty : s.maliciousClients = none → malicious = none) :
      PacketReceived mem settings s addr udpBuf frameNumber { s with maliciousClients := malicious }
  | unknown {s' : Server} (hbanned : hmFind netAddrHm s.bannedClients addr = .ok none)
      (hmalicious : hmFind netAddrHm s.maliciousClients addr = .ok none)
      (hfind : s.clients.find addr = .ok none)
      (hframes : processFrames mem settings none addr frameNumber (frames udpBuf) s = .ok s') :
      PacketReceived mem settings s addr udpBuf frameNumber s'
  | known {slot : Nat} {a : NetAddr} {record : ServerClient} {s' : Server}
      (hbanned : hmFind netAddrHm s.bannedClients addr = .ok none)
      (hmalicious : hmFind netAddrHm s.maliciousClients addr = .ok none)
      (hcell : s.clients.cell slot = some (a, record)) (hsame : SameKey serverClientHm a addr)
      (hframes : processFrames mem settings (some slot) addr frameNumber (frames udpBuf)
        (s.setClient slot { record with timeoutCounter := 0 }) = .ok s') :
      PacketReceived mem settings s addr udpBuf frameNumber s'

/-- What a datagram did, by the lists its sender is on. -/
theorem received_of_ok {s s' : Server} {addr : NetAddr} {udpBuf : List UInt8}
    {frameNumber : UInt16}
    (h : receivePacket mem settings s addr udpBuf frameNumber = .ok s') :
    PacketReceived mem settings s addr udpBuf frameNumber s' := by
  unfold receivePacket at h
  obtain ⟨banned, hbanned, h⟩ := bind_eq_ok.mp h
  by_cases hsome : banned.isSome = true
  · rw [if_pos hsome] at h
    cases h
    exact .ignored
  rw [if_neg hsome] at h
  rw [Option.not_isSome_iff_eq_none.mp hsome] at hbanned
  obtain ⟨malicious, hmalicious, h⟩ := bind_eq_ok.mp h
  cases malicious with
  | some slot =>
      cases h
      exact .punished fun hnone => by rw [hnone]; rfl
  | none =>
      obtain ⟨client, hfind, h⟩ := bind_eq_ok.mp h
      cases client with
      | none =>
          dsimp only at h
          rw [ok_bind, unpackPacket_eq] at h
          exact .unknown hbanned hmalicious hfind h
      | some slot =>
          obtain ⟨a, record, hcell, hsame⟩ := ValidHm.find_some hfind
          dsimp only at h
          rw [client_of_cell hcell, ok_bind, ok_bind, unpackPacket_eq] at h
          exact .known hbanned hmalicious hcell hsame h

end

/-- The packet of a client that joins with the given name. -/
def joinPacket (username : List UInt8) : List UInt8 :=
  msgBytes (msgJoinRequest 0 0 username)

/-- A server with the default settings and a single client, in cell 13. -/
def soleClient : Server :=
  match receivePacket .unlimited serverSettingsDefaults serverInit (loopback 40000)
    (joinPacket (cString "a")) 0 with
  | .ok s => s
  | .error _ => serverInit

end Clither
