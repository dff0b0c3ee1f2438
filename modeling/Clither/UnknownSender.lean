import Clither.Packet

/-!
# Packets from unknown addresses

For an address without a record the pointer to the client is `NULL`, and it stays
`NULL` for the whole packet, also when a join request in it has created a
record.  `process_message` relies on `unpack_packet` to let only join requests
pass, but a join request may be one that the parser rejects, and a truncated
message is not looked at before its sender is dropped.

`unknown_sender_iff` says which packets are handled without a use of the `NULL`
pointer.
-/

namespace Clither

section

variable (mem : Alloc) (settings : ServerSettings)

/-- A snake for a new client is created and found. -/
def SpawnReturns (world : World) : Prop :=
  ∃ world' snakeId snake, worldSpawnSnake mem world = .ok (world', snakeId) ∧
    findSnake world' snakeId = .ok snake

/-- The frames of an unknown sender that are handled without a record: neither
truncated nor malformed, and at most one join request that is not denied, for
which the record can be stored. -/
def UnknownHarmless (s : Server) (addr : NetAddr) (frameNumber : UInt16) : List Frame → Prop
  | [] => True
  | .truncated :: _ => ¬ MarkReturns mem settings s addr
  | .message type payload :: rest =>
      if type ≠ MsgType.joinRequest.toByte then True
      else
        match msgKind type payload with
        | .join _ usernameLen =>
            if (joinDenial settings s.clients.count usernameLen).isSome then
              UnknownHarmless s addr frameNumber rest
            else
              match s.clients.emplaceNew mem addr
                (serverClientInit settings frameNumber (spawnId s.world)) with
              | .error _ => True
              | .ok (_, none) => False
              | .ok (_, some _) => SpawnReturns mem s.world →
                  LeavesAlone settings none (s.clients.count + 1) (MarkReturns mem settings s addr)
                    rest
        | _ => ¬ MarkReturns mem settings s addr

variable {mem settings}

/-- The message is a join request that the parser accepts. -/
def Frame.isJoin : Frame → Bool
  | .truncated => false
  | .message type payload =>
      match msgKind type payload with
      | .join _ _ => true
      | _ => false

/-- The answer to a join request for which a record has been stored. -/
theorem createClient_stored {s : Server} {addr : NetAddr} {frameNumber : UInt16}
    {clients : ValidHm serverClientHm ServerClient} {slot : Nat}
    (hemplace : s.clients.emplaceNew mem addr
      (serverClientInit settings frameNumber (spawnId s.world)) = .ok (clients, some slot))
    (hspawn : SpawnReturns mem s.world) (clientFrame : UInt16) :
    ∃ s₁ s₂, createClient mem settings s addr frameNumber = .ok (s₁, slot) ∧
      joinAccept mem settings s₁ slot clientFrame frameNumber = .ok s₂ ∧
      s₁.maliciousClients = s.maliciousClients ∧ Kept slot s₁ s₂ := by
  obtain ⟨world, snakeId, snake, hworld, hsnake⟩ := hspawn
  obtain rfl := (worldSpawnSnake_spec hworld).1
  obtain ⟨-, -, hcell⟩ := ValidHm.emplaceNew_some hemplace
  generalize hs₁ :
    ({ s with clients := clients,
              world := bmapSet world (spawnId s.world) (snakeSetHold snake) } : Server) = s₁
  have hcreate : createClient mem settings s addr frameNumber = .ok (s₁, slot) := by
    simp only [createClient, hemplace, hworld, hsnake, ok_bind, pure_eq_ok, hs₁]
  have hcell₁ : s₁.clients.cell slot =
      some (addr, serverClientInit settings frameNumber (spawnId s.world)) := by
    rw [← hs₁]
    exact hcell
  have hmem : spawnId s.world ∈ bmapKeys s₁.world := by
    rw [← hs₁, bmapKeys_set]
    exact mem_bmapKeys.mpr ⟨snake, findSnake_eq_ok.mp hsnake⟩
  obtain ⟨snake₁, hsnake₁⟩ := findSnake_of_mem hmem
  have haccept := joinAccept_of_cell mem settings hcell₁ hsnake₁ clientFrame frameNumber
  refine ⟨s₁, _, hcreate, haccept, ?_, kept_of_joinAccept hcell₁ haccept⟩
  rw [← hs₁]

/-- Without a snake the server stops, but for another reason than a missing
record. -/
theorem createClient_no_snake {s : Server} {addr : NetAddr} {frameNumber : UInt16}
    {clients : ValidHm serverClientHm ServerClient} {slot : Nat}
    (hemplace : s.clients.emplaceNew mem addr
      (serverClientInit settings frameNumber (spawnId s.world)) = .ok (clients, some slot))
    (hspawn : ¬ SpawnReturns mem s.world) :
    ∃ f, createClient mem settings s addr frameNumber = .error f ∧
      f ≠ .nullClient ∧ f ≠ .staleClient := by
  cases hworld : worldSpawnSnake mem s.world with
  | error f =>
      refine ⟨f, by simp only [createClient, hemplace, hworld, ok_bind, error_bind], ?_⟩
      rcases worldSpawnSnake_error hworld with rfl | rfl
      · exact ⟨by decide, by decide⟩
      · exact ⟨by decide, by decide⟩
  | ok r =>
      obtain ⟨world, snakeId⟩ := r
      cases hsnake : findSnake world snakeId with
      | ok snake => exact absurd ⟨world, snakeId, snake, hworld, hsnake⟩ hspawn
      | error f =>
          refine ⟨f, by simp only [createClient, hemplace, hworld, hsnake, ok_bind, error_bind], ?_⟩
          obtain ⟨-, rfl⟩ := findSnake_eq_error.mp hsnake
          exact ⟨by decide, by decide⟩

/-- The frames behind a join request for which a record has been stored. -/
theorem processFrames_stored {s : Server} {addr : NetAddr} {frameNumber : UInt16}
    {clients : ValidHm serverClientHm ServerClient} {slot : Nat}
    (hemplace : s.clients.emplaceNew mem addr
      (serverClientInit settings frameNumber (spawnId s.world)) = .ok (clients, some slot))
    (clientFrame : UInt16) (rest : List Frame) :
    ¬ UsesMissingRecord (do
        let s ← (do
          let r ← createClient mem settings s addr frameNumber
          joinAccept mem settings r.1 r.2 clientFrame frameNumber)
        processFrames mem settings none addr frameNumber rest s) ↔
      (SpawnReturns mem s.world →
        LeavesAlone settings none (s.clients.count + 1) (MarkReturns mem settings s addr) rest) := by
  by_cases hspawn : SpawnReturns mem s.world
  · obtain ⟨s₁, s₂, hcreate, haccept, hmal, hkept⟩ :=
      createClient_stored hemplace hspawn clientFrame
    obtain ⟨hcell, hcount, -⟩ := createClient_cell hcreate
    have hstores : s₂.clients.Stores addr := by
      obtain ⟨a, record, record', hcell', hcell₂, -⟩ := hkept.cell
      cases hcell.symm.trans hcell'
      exact ⟨slot, addr, record', hcell₂, SameKey.refl _ addr⟩
    have hmarks : MarkReturns mem settings s₂ addr ↔ MarkReturns mem settings s addr := by
      unfold MarkReturns
      rw [hkept.malicious, hmal]
    rw [hcreate, ok_bind, haccept, ok_bind,
      (processFrames_unusable mem settings (unusable_of_stores hstores) frameNumber rest).1,
      hkept.count, hcount, propext hmarks]
    exact ⟨fun h _ => h, fun h => h hspawn⟩
  · obtain ⟨f, hcreate, hnull, hstale⟩ := createClient_no_snake hemplace hspawn
    rw [hcreate, error_bind, error_bind]
    refine iff_of_true ?_ fun h => absurd h hspawn
    rintro (h | h)
    · exact hnull (Except.error.inj h)
    · exact hstale (Except.error.inj h)

/-- Which packets are handled without a use of the `NULL` pointer. -/
theorem processFrames_unknown (mem : Alloc) (settings : ServerSettings) (s : Server)
    (addr : NetAddr) (frameNumber : UInt16) (fs : List Frame)
    (sent : List (NetAddr × List UInt8)) :
    ¬ UsesMissingRecord (processFrames mem settings none addr frameNumber fs
        { s with sent := sent }) ↔
      UnknownHarmless mem settings s addr frameNumber fs := by
  induction fs generalizing sent with
  | nil => exact iff_of_true (usesMissingRecord_ok _) trivial
  | cons frame rest ih =>
      have hmark :=
        @mark_missing mem settings { s with sent := sent } addr none _ rfl (Or.inl rfl)
      cases frame with
      | truncated => exact not_congr hmark.1
      | message type payload =>
          by_cases htype : type ≠ MsgType.joinRequest.toByte
          · rw [processFrames, UnknownHarmless, if_pos ⟨rfl, htype⟩, if_pos htype]
            exact iff_of_true (usesMissingRecord_ok _) trivial
          rw [processFrames, UnknownHarmless, if_neg (fun h => htype h.2), if_neg htype,
            processMessage_eq]
          rcases kind_of_join_type payload (not_not.mp htype) with
            ⟨clientFrame, usernameLen, hkind⟩ | hkind
          · simp only [hkind, processJoinRequest_eq]
            cases hdenial : joinDenial settings s.clients.count usernameLen with
            | some m => exact ih (sent ++ [(addr, msgBytes m)])
            | none =>
                simp only [Option.isSome_none, Bool.false_eq_true, if_false]
                cases hemplace : s.clients.emplaceNew mem addr
                    (serverClientInit settings frameNumber (spawnId s.world)) with
                | error f =>
                    obtain rfl := ValidHm.emplaceNew_error hemplace
                    simp only [createClient, hemplace, error_bind]
                    exact iff_of_true (by rintro (h | h) <;> cases h) trivial
                | ok r =>
                    obtain ⟨clients, slot⟩ := r
                    cases slot with
                    | none =>
                        simp only [createClient, hemplace, ok_bind, error_bind]
                        exact iff_of_false (fun h => h (Or.inl rfl)) not_false
                    | some slot =>
                        exact processFrames_stored (s := { s with sent := sent }) hemplace
                          clientFrame rest
          · simp only [hkind]
            cases hresult : markClientAsMaliciousAndDrop mem settings { s with sent := sent }
                addr none with
            | ok s₁ => exact absurd hresult (hmark.2 s₁)
            | error f =>
                rw [hresult] at hmark
                exact not_congr hmark.1

/-- Without an accepted join request nothing changes. -/
theorem processFrames_no_join {s s' : Server} {addr : NetAddr} {frameNumber : UInt16}
    {fs : List Frame} (hfs : ∀ f ∈ fs, f.isJoin = false)
    (h : processFrames mem settings none addr frameNumber fs s = .ok s') :
    s'.clients = s.clients ∧ s'.world = s.world := by
  cases fs with
  | nil =>
      cases h
      exact ⟨rfl, rfl⟩
  | cons f rest =>
      have hjoin := hfs f List.mem_cons_self
      cases unknownFrame_of_ok h with
      | ends htype hsame =>
          rw [hsame]
          exact ⟨rfl, rfl⟩
      | denied hkind hdenial hrest =>
          simp only [Frame.isJoin, hkind] at hjoin
          cases hjoin
      | created hkind hdenial hcreate haccept hrest =>
          simp only [Frame.isJoin, hkind] at hjoin
          cases hjoin

/-- **A packet from an unknown address** leaves the `NULL` pointer alone, and
clients and world as they are unless it holds an accepted join request, exactly
when its frames can be handled without a record. -/
theorem unknown_sender_iff (mem : Alloc) (settings : ServerSettings) (s : Server) (addr : NetAddr)
    (udpBuf : List UInt8) (frameNumber : UInt16) :
    (¬ UsesMissingRecord (unpackPacket mem settings s none addr udpBuf frameNumber) ∧
      ((∀ f ∈ frames udpBuf, f.isJoin = false) →
        ∀ s', unpackPacket mem settings s none addr udpBuf frameNumber = .ok s' →
          s'.clients = s.clients ∧ s'.world = s.world)) ↔
    UnknownHarmless mem settings s addr frameNumber (frames udpBuf) := by
  rw [unpackPacket_eq]
  rw [and_iff_left fun hfs s' => processFrames_no_join hfs]
  exact processFrames_unknown mem settings s addr frameNumber (frames udpBuf) s.sent

/-- A single message that claims to be longer than the packet, from an address
that the server has never heard of. -/
theorem truncated_from_unknown :
    serverInit.clients.find (loopback 40000) = .ok none ∧
    receivePacket .unlimited serverSettingsDefaults serverInit (loopback 40000) [5, 9] 0 =
      .error .nullClient := by
  decide +kernel

end

end Clither
