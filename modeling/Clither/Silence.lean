import Clither.Isolation
import Clither.SnakeOwners

/-!
# Clients that fall silent

The server counts, in the record of each client, the network updates since it has
last heard of the client, and it also counts the packets that it sends to it.  A
client whose counter gets too high is removed.

`aged_event` says what a single event does to the record of a client that it is
not a packet of.  From it follows how long a silent client is kept: it is gone
after `client_timeout * net_tick_rate` network updates and one more, and it stays
while network updates and packets together are not as many.
-/

namespace Clither

open Faults (bind_eq_ok)

open Relation

/-! ## Kinds of events -/

namespace ServerEvent

/-- The event is a packet from that address. -/
def IsFrom (addr : NetAddr) (event : ServerEvent) : Prop :=
  ∃ sender udpBuf, event = .packet sender udpBuf ∧ SameKey serverClientHm sender addr

def isTimeouts : ServerEvent → Bool
  | timeouts => true
  | _ => false

def isSendPending : ServerEvent → Bool
  | sendPending => true
  | _ => false

def isPacket : ServerEvent → Bool
  | packet _ _ => true
  | _ => false

/-- The event counts nothing. -/
def isIdle (event : ServerEvent) : Bool :=
  !event.isTimeouts && !event.isSendPending && !event.isPacket

end ServerEvent

/-- The number of network updates that a client may be silent for. -/
def ServerSettings.patience (settings : ServerSettings) : Nat :=
  settings.clientTimeout.toNat * settings.netTickRate.toNat

/-- The event removes clients with such a record, unless it is a packet. -/
def DropsSilent (settings : ServerSettings) (event : ServerEvent) (record : ServerClient) : Prop :=
  (event.isTimeouts = true ∧ settings.patience < record.timeoutCounter + 1) ∨
    (event.isSendPending = true ∧ packMsgs record.pendingMsgs = none)

/-! ## What an event does to a record -/

/-- The counter has gone up at least by `least` and at most by `most`, or the client is gone. -/
inductive AgedCell (least most : Int) (removes : ServerClient → Prop) :
    Option (NetAddr × ServerClient) → Option (NetAddr × ServerClient) → Prop where
  | empty : AgedCell least most removes none none
  | gone {a : NetAddr} {record : ServerClient} (hgone : removes record) :
      AgedCell least most removes (some (a, record)) none
  | aged {a : NetAddr} {record record' : ServerClient} (hstays : ¬ removes record)
      (hid : record'.snakeId = record.snakeId)
      (hleast : record.timeoutCounter + least ≤ record'.timeoutCounter)
      (hmost : record'.timeoutCounter ≤ record.timeoutCounter + most) :
      AgedCell least most removes (some (a, record)) (some (a, record'))

/-- What has become of the record of an address. -/
structure Aged (addr : NetAddr) (least most : Int) (removes : ServerClient → Prop)
    (s s' : Server) : Prop where
  stays : ∀ e ∈ s.clients.entries, SameKey serverClientHm e.1 addr → ¬ removes e.2 →
    ∃ e' ∈ s'.clients.entries, SameKey serverClientHm e'.1 addr ∧ e'.2.snakeId = e.2.snakeId ∧
      e'.2.timeoutCounter ≤ e.2.timeoutCounter + most
  came : ∀ e' ∈ s'.clients.entries, SameKey serverClientHm e'.1 addr →
    ∃ e ∈ s.clients.entries, SameKey serverClientHm e.1 addr ∧ ¬ removes e.2 ∧
      e.2.timeoutCounter + least ≤ e'.2.timeoutCounter

section

variable {mem : Alloc} {settings : ServerSettings} {num : Numerics} {event : ServerEvent}
  {frame : UInt16} {addr : NetAddr} {least most : Int} {removes : ServerClient → Prop}
  {start s s' : Server}

theorem aged_of_cells
    (h : ∀ slot, AgedCell least most removes (s.clients.cell slot) (s'.clients.cell slot)) :
    Aged addr least most removes s s' where
  stays := by
    intro e he hsame hstays
    obtain ⟨slot, hslot⟩ := ValidHm.mem_entries.mp he
    have hcell := h slot
    rw [hslot] at hcell
    generalize hslot' : s'.clients.cell slot = o at hcell
    cases hcell with
    | gone hgone => exact absurd hgone hstays
    | aged _ hid _ hmost => exact ⟨_, ValidHm.mem_entries.mpr ⟨slot, hslot'⟩, hsame, hid, hmost⟩
  came := by
    intro e' he' hsame
    obtain ⟨slot, hslot'⟩ := ValidHm.mem_entries.mp he'
    have hcell := h slot
    rw [hslot'] at hcell
    generalize hslot : s.clients.cell slot = o at hcell
    cases hcell with
    | aged hstays _ hleast _ =>
        exact ⟨_, ValidHm.mem_entries.mpr ⟨slot, hslot⟩, hsame, hstays, hleast⟩

theorem counter_queueBezierHandles (record : ServerClient) (snakeId : UInt16) (snake : Snake) :
    (queueBezierHandles mem record snakeId snake).timeoutCounter = record.timeoutCounter := by
  unfold queueBezierHandles
  generalize rbIndexed snake.data.bezierHandles = handles
  induction handles generalizing record with
  | nil => rfl
  | cons x rest ih =>
      exact ih (serverQueue mem record (msgSnakeBezier snakeId (UInt16.ofNat x.1) x.2))

/-- Only packets and network updates change the counter. -/
theorem counter_of_idle (hidle : event.isIdle = true) {slot : Nat} {record record' : ServerClient}
    (h : RecordStep mem settings event frame s slot addr record record') :
    record'.timeoutCounter = record.timeoutCounter := by
  cases h with
  | heard hevent =>
      obtain ⟨sender, udpBuf, rfl⟩ := hevent
      cases hidle
  | counted hevent =>
      subst hevent
      cases hidle
  | packed hevent hpack => rfl
  | @entered _ other snake otherSnake prox hevent hother hsnake hotherSnake hinside hemplace =>
      exact counter_queueBezierHandles { record with snakesInProximity := prox } _ _
  | _ => rfl

/-- An event that counts nothing leaves all clients where they are. -/
theorem agedCell_of_idle (hidle : event.isIdle = true)
    (hs : ∀ slot, AgedCell 0 0 (fun _ => False) (start.clients.cell slot) (s.clients.cell slot))
    (h : ServerStep mem settings num event frame start s s') (slot : Nat) :
    AgedCell 0 0 (fun _ => False) (start.clients.cell slot) (s'.clients.cell slot) := by
  have hnever {a : NetAddr} {clientFrame : UInt16} {usernameLen : UInt8}
      (hasks : AsksToJoin event a clientFrame usernameLen) : False := by
    obtain ⟨sender, udpBuf, type, payload, rfl, -⟩ := hasks
    cases hidle
  cases h with
  | @record i a record record' hcell hsteps =>
      have hcounter : record'.timeoutCounter = record.timeoutCounter := by
        clear hcell
        induction hsteps with
        | refl => rfl
        | tail _ hstep ih => exact (counter_of_idle hidle hstep).trans ih
      rw [Server.setClient, ValidHm.cell_set hcell]
      by_cases hi : slot = i
      · rw [if_pos hi]
        have hslot := hs i
        rw [hcell] at hslot
        rw [hi]
        generalize start.clients.cell i = o at hslot
        cases hslot with
        | aged hstays hid hleast hmost =>
            exact .aged hstays ((snakeId_of_steps hsteps).trans hid) (by omega) (by omega)
      · rw [if_neg hi]
        exact hs slot
  | sent hevent hcell hpack =>
      subst hevent
      cases hidle
  | denied hasks hdenial => exact (hnever hasks).elim
  | joined hasks hclients hworld hdenial hcreate => exact (hnever hasks).elim
  | removed hcell hsame hreason hremove =>
      cases hreason with
      | silent hevent hcounter =>
          subst hevent
          cases hidle
      | exhausted hevent hpack =>
          subst hevent
          cases hidle
      | dropped hdrops =>
          obtain ⟨sender, udpBuf, f, rfl, -⟩ := hdrops
          cases hidle
  | commands payload hcell hsnake => exact hs slot
  | simulated hevent hsnake hstart hupdate => exact hs slot
  | marked hdrops => exact hs slot
  | punished hempty => exact hs slot

/-- A loop that does its work on each cell. -/
theorem agedCell_of_forEach
    {body : Server → Nat → NetAddr → ServerClient → Except Fault Server}
    (hbody : ∀ s s' slot a record, s.clients.cell slot = some (a, record) →
      body s slot a record = .ok s' → ∃ x, s'.clients.cells = s.clients.cells.set slot x ∧
        AgedCell least most removes (some (a, record)) x)
    (h : forEachClient body s.slots s = .ok s') (slot : Nat) :
    AgedCell least most removes (s.clients.cell slot) (s'.clients.cell slot) := by
  obtain ⟨-, hcap, hcells⟩ := forEachClient_cells (fun _ => True)
    (fun _ e x => AgedCell least most removes (some e) x)
    (fun s s' slot a record _ hcell hok => ⟨trivial, hbody s s' slot a record hcell hok⟩)
    List.nodup_range trivial h
  obtain ⟨houtside, hinside⟩ := hcells slot
  by_cases hmem : slot ∈ s.slots
  · have hdone := hinside hmem
    cases hcell : s.clients.cell slot with
    | none =>
        rw [hcell] at hdone
        rw [show s'.clients.cell slot = none from hdone]
        exact .empty
    | some e =>
        rw [hcell] at hdone
        exact hdone
  · have hnone : s.clients.cell slot = none := by
      cases hcell : s.clients.cell slot with
      | none => rfl
      | some e =>
          exact absurd (List.mem_range.mpr (ValidHm.lt_capacity_of_cell hcell)) hmem
    rw [houtside hmem, hnone]
    exact .empty

theorem aged_updateTimeouts (h : updateTimeouts settings s = .ok s') :
    Aged addr 1 1 (DropsSilent settings .timeouts) s s' := by
  refine aged_of_cells (agedCell_of_forEach ?_ h)
  intro s s' slot a record hcell hbody
  dsimp only at hbody
  have hcell₁ := cell_setClient hcell { record with timeoutCounter := record.timeoutCounter + 1 }
  by_cases htimedOut : timedOut settings record = true
  · rw [if_pos htimedOut] at hbody
    obtain ⟨s₂, hok, hcells, -⟩ := clientRemove_of_cell hcell₁ (SameKey.refl _ a)
    cases hok.symm.trans hbody
    refine ⟨none, ?_, .gone (Or.inl ⟨rfl, of_decide_eq_true htimedOut⟩)⟩
    rw [hcells]
    show (s.clients.set slot _).cells.set slot none = _
    rw [ValidHm.cells_set hcell, List.set_set]
  · rw [if_neg htimedOut] at hbody
    cases hbody
    refine ⟨_, ValidHm.cells_set hcell _, .aged ?_ rfl (Int.le_refl _) (Int.le_refl _)⟩
    rintro (⟨-, hlate⟩ | ⟨hsend, -⟩)
    · exact htimedOut (decide_eq_true hlate)
    · cases hsend

theorem aged_sendPendingData (h : serverSendPendingData s = .ok s') :
    Aged addr 0 1 (DropsSilent settings .sendPending) s s' := by
  refine aged_of_cells (agedCell_of_forEach ?_ h)
  intro s s' slot a record hcell hbody
  cases hpack : packMsgs record.pendingMsgs with
  | none =>
      rw [hpack] at hbody
      obtain ⟨s₂, hok, hcells, -⟩ := clientRemove_of_cell hcell (SameKey.refl _ a)
      cases hok.symm.trans hbody
      exact ⟨none, hcells, .gone (Or.inr ⟨rfl, hpack⟩)⟩
  | some packed =>
      obtain ⟨buf, left⟩ := packed
      have hstays : ¬ DropsSilent settings .sendPending record := by
        rintro (⟨htimeouts, -⟩ | ⟨-, hnone⟩)
        · cases htimeouts
        · cases hpack.symm.trans hnone
      rw [hpack] at hbody
      dsimp only at hbody
      by_cases hempty : buf = []
      · rw [if_pos hempty] at hbody
        cases hbody
        exact ⟨_, ValidHm.cells_set hcell _, .aged hstays rfl (by simp) (by simp)⟩
      · rw [if_neg hempty] at hbody
        cases hbody
        exact ⟨_, ValidHm.cells_set hcell _, .aged hstays rfl (by simp) (by simp)⟩

/-- **One event**, unless it is a packet from the address. -/
theorem aged_event {r r' : ServerRun} (hsilent : ¬ event.IsFrom addr)
    (h : serverEvent mem settings num r event = .ok r') :
    Aged addr (if event.isTimeouts then 1 else 0)
      (if event.isTimeouts || event.isSendPending then 1 else 0) (DropsSilent settings event)
      r.server r'.server := by
  have hidle (hidle : event.isIdle = true) :
      Aged addr 0 0 (fun _ => False) r.server r'.server := by
    refine aged_of_cells fun slot => ?_
    refine serverEvent_invariant (fun s s' hs hstep => agedCell_of_idle hidle hs hstep) ?_ h slot
    intro i
    cases r.server.clients.cell i with
    | none => exact .empty
    | some e => exact .aged not_false rfl (by simp) (by simp)
  have hnever (h : event.isTimeouts = false) (h' : event.isSendPending = false) :
      DropsSilent settings event = fun _ => False := by
    funext record
    simp [DropsSilent, h, h']
  cases event with
  | timeouts => exact aged_updateTimeouts (server_of_ok h)
  | sendPending => exact aged_sendPendingData (server_of_ok h)
  | packet sender udpBuf =>
      rw [hnever rfl rfl]
      have hothers := (receivePacket_othersAlone (server_of_ok h)).touches.records
      have hnot {e : NetAddr × ServerClient} (hsame : SameKey serverClientHm e.1 addr) :
          ¬ SameKey serverClientHm e.1 sender :=
        fun hsender => hsilent ⟨sender, udpBuf, rfl, hsender.symm.trans hsame⟩
      constructor
      · intro e he hsame _
        exact ⟨e, (hothers e (hnot hsame)).mpr he, hsame, rfl,
          by simp [ServerEvent.isTimeouts, ServerEvent.isSendPending]⟩
      · intro e he hsame
        exact ⟨e, (hothers e (hnot hsame)).mp he, hsame, not_false,
          by simp [ServerEvent.isTimeouts]⟩
  | malicious => exact (hnever rfl rfl) ▸ hidle rfl
  | simulate => exact (hnever rfl rfl) ▸ hidle rfl
  | snakesInRange proximityRange => exact (hnever rfl rfl) ▸ hidle rfl
  | queueData => exact (hnever rfl rfl) ▸ hidle rfl
  | nextFrame => exact (hnever rfl rfl) ▸ hidle rfl

/-! ## Runs -/

/-- Nobody hears from the address. -/
def Quietly (addr : NetAddr) (events : List ServerEvent) : Prop :=
  ∀ event ∈ events, ¬ event.IsFrom addr

/-- The client has not been sent a message too often. -/
def StillPatient (addr : NetAddr) (r : ServerRun) (event : ServerEvent) : Prop :=
  event.isSendPending = true → ∀ e ∈ r.server.clients.entries,
    SameKey serverClientHm e.1 addr → packMsgs e.2.pendingMsgs ≠ none

/-- The counter of a silent client goes up with each network update until it is gone. -/
theorem gone_of_silence {r r' : ServerRun} {events : List ServerEvent} {least : Nat}
    (hquiet : Quietly addr events) (hrun : Run.run (serverEvent mem settings num) r events = .ok r')
    (hleast : ∀ e ∈ r.server.clients.entries, SameKey serverClientHm e.1 addr →
      least ≤ e.2.timeoutCounter)
    (hlate : settings.patience < least → ¬ r.server.clients.Stores addr)
    (hlong : settings.patience < least + events.countP ServerEvent.isTimeouts) :
    ¬ r'.server.clients.Stores addr := by
  induction events generalizing r least with
  | nil =>
      cases hrun
      exact hlate hlong
  | cons event rest ih =>
      obtain ⟨hevent, hrest⟩ := List.forall_mem_cons.mp hquiet
      cases hstep : serverEvent mem settings num r event with
      | error f =>
          rw [Run.run, hstep] at hrun
          cases hrun
      | ok m =>
          rw [Run.run_cons_ok hstep] at hrun
          have haged := aged_event hevent hstep
          rw [List.countP_cons] at hlong
          have hnone (hgone : ¬ r.server.clients.Stores addr) : ¬ m.server.clients.Stores addr := by
            rintro ⟨slot, a, record, hcell, hsame⟩
            obtain ⟨e, he, hsame', -⟩ :=
              haged.came (a, record) (ValidHm.mem_entries.mpr ⟨slot, hcell⟩) hsame
            obtain ⟨slot', hslot'⟩ := ValidHm.mem_entries.mp he
            exact hgone ⟨slot', e.1, e.2, hslot', hsame'⟩
          by_cases htimeouts : event.isTimeouts = true
          · simp only [htimeouts, if_true] at haged hlong
            refine @ih m (least + 1) hrest hrun ?_ ?_ (by omega)
            · intro e' he' hsame
              obtain ⟨e, he, hsame', -, hcounter⟩ := haged.came e' he' hsame
              have := hleast e he hsame'
              push_cast
              omega
            · rintro hpatience ⟨slot, a, record, hcell, hsame⟩
              obtain ⟨e, he, hsame', hstays, -⟩ :=
                haged.came (a, record) (ValidHm.mem_entries.mpr ⟨slot, hcell⟩) hsame
              have := hleast e he hsame'
              exact hstays (Or.inl ⟨htimeouts, by omega⟩)
          · simp only [htimeouts] at haged hlong
            refine ih hrest hrun ?_ (fun hpatience => hnone (hlate hpatience))
              (by simpa using hlong)
            intro e' he' hsame
            obtain ⟨e, he, hsame', -, hcounter⟩ := haged.came e' he' hsame
            have := hleast e he hsame'
            simp only [Bool.false_eq_true, if_false] at hcounter
            omega

/-- A silent client stays as long as its counter cannot have become too high. -/
theorem stays_in_silence {r r' : ServerRun} {events : List ServerEvent} {e : NetAddr × ServerClient}
    (hquiet : Quietly addr events) (hrun : Run.run (serverEvent mem settings num) r events = .ok r')
    (hpatient : Run.Meets (serverEvent mem settings num) (StillPatient addr) r events)
    (he : e ∈ r.server.clients.entries) (hsame : SameKey serverClientHm e.1 addr)
    (hshort : e.2.timeoutCounter +
      events.countP (fun event => event.isTimeouts || event.isSendPending) ≤ settings.patience) :
    ∃ e' ∈ r'.server.clients.entries, SameKey serverClientHm e'.1 addr ∧
      e'.2.snakeId = e.2.snakeId := by
  induction events generalizing r e with
  | nil =>
      cases hrun
      exact ⟨e, he, hsame, rfl⟩
  | cons event rest ih =>
      obtain ⟨hevent, hrest⟩ := List.forall_mem_cons.mp hquiet
      obtain ⟨hfirst, hlater⟩ := hpatient
      cases hstep : serverEvent mem settings num r event with
      | error f =>
          rw [Run.run, hstep] at hrun
          cases hrun
      | ok m =>
          rw [Run.run_cons_ok hstep] at hrun
          have haged := aged_event hevent hstep
          rw [List.countP_cons] at hshort
          have hstays : ¬ DropsSilent settings event e.2 := by
            rintro (⟨htimeouts, hlate⟩ | ⟨hsend, hnone⟩)
            · simp only [htimeouts, Bool.true_or, if_true] at hshort
              omega
            · exact hfirst hsend e he hsame hnone
          obtain ⟨e₁, he₁, hsame₁, hid, hcounter⟩ := haged.stays e he hsame hstays
          obtain ⟨e', he', hsame', hid'⟩ := ih hrest hrun (hlater m hstep) he₁ hsame₁ (by
            push_cast at hshort
            omega)
          exact ⟨e', he', hsame', hid'.trans hid⟩

/-- Counters are never negative. -/
theorem counters_nonneg {r : ServerRun} {events : List ServerEvent}
    (hrun : Run.run (serverEvent mem settings num) serverRunInit events = .ok r) :
    AllClients (fun _ record => 0 ≤ record.timeoutCounter) r.server := by
  have hkeeps (r : ServerRun) (event : ServerEvent) (r' : ServerRun)
      (hr : AllClients (fun _ record => 0 ≤ record.timeoutCounter) r.server) (_ : True)
      (hok : serverEvent mem settings num r event = .ok r') :
      AllClients (fun _ record => 0 ≤ record.timeoutCounter) r'.server := by
    refine serverEvent_invariant (fun s s' hs hstep => ?_) hr hok
    refine hstep.allClients (fun _ _ => Int.le_refl 0) ?_ ?_ hs
    · intro slot addr record record' hrecord hstep
      cases hstep with
      | heard hevent => exact Int.le_refl 0
      | counted hevent => exact Int.le_add_one hrecord
      | @entered _ other snake otherSnake prox hevent hother hsnake hotherSnake hinside hemplace =>
          rw [counter_queueBezierHandles]
          exact hrecord
      | _ => exact hrecord
    · intro _ addr record buf left hrecord _
      exact Int.le_add_one hrecord
  refine Run.run_invariant hkeeps ?_ (Run.meets_of_forall (fun _ _ => trivial) _ _) hrun
  intro e he
  cases he

/-- **Silence.**  Take any run of the server, and then one in which nothing is heard from an
address.  After `client_timeout * net_tick_rate` network updates and one more the address has no
record.  Until its counter, with the network updates and the rounds of packets since, exceeds that
number, it keeps a record with the same snake id, unless a message has been resent to it too
often. -/
theorem silent_clients_leave {past silence : List ServerEvent} {r r' : ServerRun}
    (hpast : Run.run (serverEvent mem settings num) serverRunInit past = .ok r)
    (hrun : Run.run (serverEvent mem settings num) r silence = .ok r')
    (hquiet : Quietly addr silence) :
    (settings.patience < silence.countP ServerEvent.isTimeouts → ¬ r'.server.clients.Stores addr) ∧
      (Run.Meets (serverEvent mem settings num) (StillPatient addr) r silence →
        ∀ e ∈ r.server.clients.entries, SameKey serverClientHm e.1 addr →
          e.2.timeoutCounter +
              silence.countP (fun event => event.isTimeouts || event.isSendPending) ≤
            settings.patience →
          ∃ e' ∈ r'.server.clients.entries, SameKey serverClientHm e'.1 addr ∧
            e'.2.snakeId = e.2.snakeId) := by
  constructor
  · intro hlong
    have hcounters : ∀ e ∈ r.server.clients.entries, SameKey serverClientHm e.1 addr →
        ((0 : Nat) : Int) ≤ e.2.timeoutCounter := fun e he _ => counters_nonneg hpast e he
    exact gone_of_silence hquiet hrun hcounters (fun hnever => absurd hnever (Nat.not_lt_zero _))
      (by omega)
  · intro hpatient e he hsame hshort
    exact stays_in_silence hquiet hrun hpatient he hsame hshort

end

/-- A client may be silent for one network update. -/
def hastySettings : ServerSettings :=
  { serverSettingsDefaults with
    clientTimeout := 1
    netTickRate := 1
    netTickRate_pos := by decide }

/-- A client that joins and is not heard of again. -/
def silentJoin : List ServerEvent :=
  [.packet (loopback 40000) (joinPacket (cString "a"))]

/-- A client that is silent for two network updates of such a server is gone. -/
theorem silent_clients_leave_sample : ∃ r r' : ServerRun,
    Run.run (serverEvent Alloc.unlimited hastySettings eastward) serverRunInit silentJoin = .ok r ∧
      Run.run (serverEvent Alloc.unlimited hastySettings eastward) r
        [.timeouts, .sendPending, .nextFrame, .timeouts] = .ok r' ∧
      ¬ r'.server.clients.Stores (loopback 40000) := by
  have h : (do
      let r ← Run.run (serverEvent Alloc.unlimited hastySettings eastward) serverRunInit silentJoin
      let r' ← Run.run (serverEvent Alloc.unlimited hastySettings eastward) r
        [.timeouts, .sendPending, .nextFrame, .timeouts]
      return r'.server.clients.count) = Except.ok 0 := by decide +kernel
  obtain ⟨r, hr, h⟩ := bind_eq_ok.mp h
  obtain ⟨r', hr', -⟩ := bind_eq_ok.mp h
  refine ⟨r, r', hr, hr', (silent_clients_leave hr hr' ?_).1 (by decide)⟩
  intro event hevent
  rintro ⟨sender, udpBuf, rfl, -⟩
  simp at hevent

end Clither
