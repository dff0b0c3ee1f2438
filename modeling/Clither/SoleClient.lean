import Clither.ServerSteps

/-!
# A server with a single client

With one client the loops over the clients run once, and there is no other snake
to meet.  `Alone` says what such a server looks like, and each event that keeps
it so has one lemma.  `alone_iteration` puts them together to an iteration of the
main loop, in which a packet from the client keeps it from being dropped.
-/

namespace Clither

theorem forEachClient_empty {body : Server → Nat → NetAddr → ServerClient → Except Fault Server}
    {slots : List Nat} {s : Server} (h : ∀ i ∈ slots, s.clients.cell i = none) :
    forEachClient body slots s = .ok s := by
  induction slots with
  | nil => rfl
  | cons slot rest ih =>
      obtain ⟨hslot, hrest⟩ := List.forall_mem_cons.mp h
      rw [forEachClient, hslot]
      exact ih hrest

/-- With a single record the loop runs its body once. -/
theorem forEachClient_sole {body : Server → Nat → NetAddr → ServerClient → Except Fault Server}
    {s s' : Server} {slot : Nat} {addr : NetAddr} {record : ServerClient}
    (hcell : s.clients.cell slot = some (addr, record))
    (hothers : ∀ i, i ≠ slot → s.clients.cell i = none)
    (hbody : body s slot addr record = .ok s')
    (hothers' : ∀ i, i ≠ slot → s'.clients.cell i = none) :
    forEachClient body s.slots s = .ok s' := by
  have hloop (before after : List Nat) (hbefore : slot ∉ before) (hafter : slot ∉ after) :
      forEachClient body (before ++ slot :: after) s = .ok s' := by
    induction before with
    | nil =>
        rw [List.nil_append, forEachClient, hcell]
        simp only [hbody, ok_bind]
        exact forEachClient_empty fun i hi => hothers' i fun heq => hafter (heq ▸ hi)
    | cons b bs ih =>
        obtain ⟨hb, hbs⟩ := not_or.mp (List.mem_cons.not.mp hbefore)
        rw [List.cons_append, forEachClient, hothers b (Ne.symm hb)]
        exact ih hbs
  obtain ⟨before, after, hslots⟩ := List.append_of_mem
    (List.mem_range.mpr (ValidHm.lt_capacity_of_cell hcell))
  have hnodup : (before ++ slot :: after).Nodup := hslots ▸ List.nodup_range
  obtain ⟨hbefore, hafter⟩ : slot ∉ before ∧ slot ∉ after := by
    have hmiddle := List.nodup_middle.mp hnodup
    exact not_or.mp fun h => (List.nodup_cons.mp hmiddle).1 (List.mem_append.mpr h)
  rw [Server.slots, hslots]
  exact hloop before after hbefore hafter

/-- A record of a client that is far away from all others. -/
structure Quiet (bound : Int) (record : ServerClient) : Prop where
  prox : record.snakesInProximity = none
  counter : record.timeoutCounter ≤ bound
  pending : ∀ m ∈ record.pendingMsgs.items, m.isReliable = false

/-- There is one client, and its snake satisfies a predicate. -/
structure Alone (addr : NetAddr) (p : Snake → Prop) (bound : Int) (s : Server) : Prop where
  count : s.clients.count = 1
  malicious : s.maliciousClients = none
  banned : s.bannedClients = none
  cell : ∃ slot record, s.clients.cell slot = some (addr, record) ∧ Quiet bound record ∧
    bmapKeys s.world = [record.snakeId]
  snakes : AllSnakes p s.world

section

variable {mem : Alloc} {settings : ServerSettings} {num : Numerics}
variable {addr : NetAddr} {p : Snake → Prop} {bound : Int} {s : Server}

theorem eq_of_count_one {i j : Nat} {e e' : NetAddr × ServerClient} (hcount : s.clients.count = 1)
    (hi : s.clients.cell i = some e) (hj : s.clients.cell j = some e') : e = e' ∧ i = j := by
  rw [ValidHm.count_eq] at hcount
  obtain ⟨x, hx⟩ := List.length_eq_one_iff.mp hcount
  have he := ValidHm.mem_entries.mpr ⟨i, hi⟩
  have he' := ValidHm.mem_entries.mpr ⟨j, hj⟩
  rw [hx] at he he'
  obtain rfl := List.mem_singleton.mp he
  obtain rfl := List.mem_singleton.mp he'
  exact ⟨rfl, ValidHm.cell_unique hi hj (SameKey.refl _ _)⟩

/-- The record may change, but not the id. -/
theorem Alone.setClient {bound' : Int} (h : Alone addr p bound s) {slot : Nat} {a : NetAddr}
    {record record' : ServerClient} (hcell : s.clients.cell slot = some (a, record))
    (hquiet : Quiet bound' record') (hid : record'.snakeId = record.snakeId) :
    Alone addr p bound' (s.setClient slot record') := by
  obtain ⟨slot₀, record₀, hcell₀, -, hkeys⟩ := h.cell
  obtain ⟨heq, -⟩ := eq_of_count_one h.count hcell₀ hcell
  cases heq
  refine ⟨(ValidHm.count_set _ _ _).trans h.count, h.malicious, h.banned,
    ⟨slot, record', cell_setClient hcell record', hquiet, ?_⟩, h.snakes⟩
  rw [hid]
  exact hkeys

/-- **Loop rule** for a single client. -/
theorem Alone.forEach {body : Server → Nat → NetAddr → ServerClient → Except Fault Server}
    {bound' : Int} (h : Alone addr p bound s)
    (hbody : ∀ slot record, s.clients.cell slot = some (addr, record) → Quiet bound record →
      bmapKeys s.world = [record.snakeId] →
      ∃ s', body s slot addr record = .ok s' ∧ Alone addr p bound' s' ∧
        (s'.clients.cell slot).isSome) :
    ∃ s', forEachClient body s.slots s = .ok s' ∧ Alone addr p bound' s' := by
  obtain ⟨slot, record, hcell, hquiet, hkeys⟩ := h.cell
  obtain ⟨s', hok, hs', hsome⟩ := hbody slot record hcell hquiet hkeys
  obtain ⟨e', hcell'⟩ := Option.isSome_iff_exists.mp hsome
  have hothers {t : Server} (hcount : t.clients.count = 1) {e : NetAddr × ServerClient}
      (he : t.clients.cell slot = some e) (i : Nat) (hi : i ≠ slot) : t.clients.cell i = none := by
    cases hcell : t.clients.cell i with
    | none => rfl
    | some e' => exact absurd (eq_of_count_one hcount hcell he).2 hi
  exact ⟨s', forEachClient_sole hcell (hothers h.count hcell) hok (hothers hs'.count hcell'), hs'⟩


/-! ## The events -/

theorem alone_timeouts (h : Alone addr p bound s)
    (hbound : bound + 1 ≤ settings.clientTimeout.toNat * settings.netTickRate.toNat) :
    ∃ s', updateTimeouts settings s = .ok s' ∧ Alone addr p (bound + 1) s' := by
  refine h.forEach fun slot record hcell hquiet hkeys => ?_
  have hcounter := hquiet.counter
  have hnot : timedOut settings record = false := decide_eq_false (by omega)
  rw [hnot]
  exact ⟨_, rfl, h.setClient hcell ⟨hquiet.prox, by simpa using hcounter, hquiet.pending⟩ rfl,
    by rw [cell_setClient hcell]; rfl⟩

theorem alone_malicious (h : Alone addr p bound s) : updateMalicious s = .ok s := by
  obtain ⟨clients, malicious, banned, world, sent⟩ := s
  obtain rfl : malicious = none := h.malicious
  rfl

/-- A packet without a message only shows that the client is there. -/
theorem alone_packet (mem : Alloc) (settings : ServerSettings) (h : Alone addr p bound s)
    (byte : UInt8) (frame : UInt16) :
    ∃ s', receivePacket mem settings s addr [byte] frame = .ok s' ∧ Alone addr p 0 s' := by
  obtain ⟨slot, record, hcell, hquiet, hkeys⟩ := h.cell
  have hfind := ValidHm.find_of_cell hcell (SameKey.refl _ addr)
  refine ⟨_, ?_, h.setClient hcell
    (⟨hquiet.prox, Int.le_refl 0, hquiet.pending⟩ : Quiet 0 { record with timeoutCounter := 0 }) rfl⟩
  rw [receivePacket, h.banned, h.malicious]
  simp only [hfind, client_of_cell hcell, hmFind, ok_bind]
  rfl

/-- Nobody comes into range. -/
theorem alone_snakesInRange (mem : Alloc) (h : Alone addr p bound s) (proximityRange : Int) :
    ∃ s', serverUpdateSnakesInRange mem s proximityRange = .ok s' ∧ Alone addr p bound s' := by
  refine h.forEach fun slot record hcell hquiet hkeys => ?_
  have hnobody : otherClients s slot = [] := by
    refine List.filterMap_eq_nil_iff.mpr fun other _ => ?_
    split
    · rfl
    · next hne =>
        cases hother : s.clients.cell other with
        | none => rfl
        | some e => exact absurd (eq_of_count_one h.count hother hcell).2 hne
  rw [hnobody]
  exact ⟨_, rfl, h.setClient hcell hquiet rfl, by rw [cell_setClient hcell]; rfl⟩

theorem quiet_serverQueue {record : ServerClient} (h : Quiet bound record) {m : Msg}
    (hm : m.isReliable = false) : Quiet bound (serverQueue mem record m) where
  prox := h.prox
  counter := h.counter
  pending := by
    intro x hx
    rw [serverQueue, items_vecPush] at hx
    split at hx
    · rcases List.mem_append.mp hx with hold | hnew
      · exact h.pending x hold
      · rw [List.mem_singleton.mp hnew, hm]
    · exact h.pending x hx

theorem alone_queueData (mem : Alloc) (h : Alone addr p bound s) (frame : UInt16) :
    ∃ s', serverQueueSnakeData mem s frame = .ok s' ∧ Alone addr p bound s' := by
  have hheads : ∃ s', queueSnakeHeads mem s frame = .ok s' ∧ Alone addr p bound s' := by
    refine h.forEach fun slot record hcell hquiet hkeys => ?_
    have hmem : record.snakeId ∈ bmapKeys s.world := by
      rw [hkeys]
      exact List.mem_singleton_self _
    obtain ⟨snake, hsnake⟩ := findSnake_of_mem hmem
    rw [hsnake, ok_bind]
    split
    · exact ⟨s, rfl, h, by rw [hcell]; rfl⟩
    · exact ⟨_, rfl, h.setClient hcell (quiet_serverQueue hquiet rfl) rfl,
        by rw [cell_setClient hcell]; rfl⟩
  obtain ⟨s₁, hheads, h₁⟩ := hheads
  have hdata : ∃ s', queueBezierData mem s₁ = .ok s' ∧ Alone addr p bound s' := by
    refine h₁.forEach fun slot record hcell hquiet hkeys => ?_
    rw [hquiet.prox]
    exact ⟨_, rfl, h₁.setClient hcell hquiet rfl, by rw [cell_setClient hcell]; rfl⟩
  obtain ⟨s₂, hdata, h₂⟩ := hdata
  exact ⟨s₂, by rw [serverQueueSnakeData, hheads]; exact hdata, h₂⟩

theorem alone_sendPending (h : Alone addr p bound s) :
    ∃ s', serverSendPendingData s = .ok s' ∧ Alone addr p (bound + 1) s' := by
  refine h.forEach fun slot record hcell hquiet hkeys => ?_
  have hcounter := hquiet.counter
  obtain ⟨buf, left, hpack, hleft⟩ := packMsgs_unreliable hquiet.pending
  rw [hpack]
  dsimp only
  split
  · exact ⟨_, rfl, h.setClient hcell ⟨hquiet.prox, by show record.timeoutCounter ≤ _; omega, hleft⟩ rfl,
      by rw [cell_setClient hcell]; rfl⟩
  · have hsent : Quiet (bound + 1)
        { record with pendingMsgs := left, timeoutCounter := record.timeoutCounter + 1 } :=
      ⟨hquiet.prox, by show record.timeoutCounter + 1 ≤ _; omega, hleft⟩
    have hset := h.setClient hcell hsent rfl
    exact ⟨_, rfl, ⟨hset.count, hset.malicious, hset.banned, hset.cell, hset.snakes⟩,
      by rw [Server.setClient, ValidHm.cell_set hcell, if_pos rfl]; rfl⟩

/-- The snake is simulated. -/
theorem alone_simulate {p' : Snake → Prop} {frame : UInt16}
    (hsim : ∀ snake, p snake →
      ∃ snake', simUpdateSnake mem settings num snake frame = .ok snake' ∧ p' snake')
    (h : Alone addr p bound s) :
    ∃ s', simUpdate mem settings num s frame = .ok s' ∧ Alone addr p' bound s' := by
  obtain ⟨slot, record, hcell, hquiet, hkeys⟩ := h.cell
  have hmem : record.snakeId ∈ bmapKeys s.world := by
    rw [hkeys]
    exact List.mem_singleton_self _
  obtain ⟨snake, hsnake⟩ := findSnake_of_mem hmem
  obtain ⟨snake', hupdate, hsnake'⟩ := hsim snake (h.snakes _ _ hsnake)
  refine ⟨{ s with world := bmapSet s.world record.snakeId snake' }, ?_,
    h.count, h.malicious, h.banned, ⟨slot, record, hcell, hquiet, ?_⟩, ?_⟩
  · simp only [simUpdate, hkeys, simUpdateLoop, hsnake, hupdate, ok_bind, pure_eq_ok]
  · rw [bmapKeys_set, hkeys]
  · intro id found hfound
    have hset := bmapFind_set snake' hmem id
    rw [findSnake_eq_ok, hset] at hfound
    split at hfound
    · cases hfound
      exact hsnake'
    · next hne =>
        have hid : id ∈ bmapKeys s.world := mem_bmapKeys.mpr ⟨found, hfound⟩
        rw [hkeys] at hid
        exact absurd (List.mem_singleton.mp hid) hne

/-! ## The main loop -/

/-- An iteration of the main loop with a network update, from the simulation to
the packets of the next iteration. -/
def iterationOf (addr : NetAddr) : List ServerEvent :=
  [.simulate, .snakesInRange (makeQw2 10 1), .queueData, .sendPending, .nextFrame, .timeouts,
    .malicious, .packet addr [0]]

theorem alone_iteration {p' : Snake → Prop} {r : ServerRun}
    (hsim : ∀ snake, p snake →
      ∃ snake', simUpdateSnake mem settings num snake r.frame = .ok snake' ∧ p' snake')
    (hbound : 2 ≤ (settings.clientTimeout.toNat * settings.netTickRate.toNat : Int))
    (h : Alone addr p 0 r.server) :
    ∃ r', Run.run (serverEvent mem settings num) r (iterationOf addr) = .ok r' ∧
      Alone addr p' 0 r'.server := by
  obtain ⟨s₁, h₁, ha₁⟩ := alone_simulate hsim h
  obtain ⟨s₂, h₂, ha₂⟩ := alone_snakesInRange mem ha₁ (makeQw2 10 1)
  obtain ⟨s₃, h₃, ha₃⟩ := alone_queueData mem ha₂ r.frame
  obtain ⟨s₄, h₄, ha₄⟩ := alone_sendPending ha₃
  obtain ⟨s₅, h₅, ha₅⟩ := @alone_timeouts settings addr p' (0 + 1) s₄ ha₄ (by omega)
  have h₆ := alone_malicious ha₅
  obtain ⟨s₇, h₇, ha₇⟩ := alone_packet mem settings ha₅ 0 (r.frame + 1)
  refine ⟨⟨s₇, r.frame + 1⟩, ?_, ha₇⟩
  simp only [iterationOf, Run.run, serverEvent, h₁, h₂, h₃, h₄, h₅, h₆, h₇, ok_bind, pure_eq_ok]

end

end Clither
