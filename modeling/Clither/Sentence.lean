import Clither.Silence

/-!
# Malicious addresses

An address that has sent nonsense loses its record, and it is put on a list with a
timeout.  As long as it is there the server ignores it, and each packet that comes
from it makes the timeout longer.

`outlaws_are_ignored` says what a listed address can do, and
`sentence_served_exactly` when it is released.
-/

namespace Clither

open Faults (bind_eq_ok)

/-- The address is on the list, with that timeout. -/
def Serves (malicious : Hm NetAddr Int) (addr : NetAddr) (n : Int) : Prop :=
  ∃ e ∈ Hm.entries malicious, SameKey netAddrHm e.1 addr ∧ e.2 = n

/-- Each packet of a listed address adds this to its timeout. -/
def ServerSettings.penalty (settings : ServerSettings) : Nat :=
  settings.maliciousTimeout.toNat * settings.netTickRate.toNat

/-! ## The list -/

/-- A sentence is served in the cell of the address. -/
theorem serves_iff_cell {m : ValidHm netAddrHm Int} {addr : NetAddr} {n : Int} :
    Serves m.hm addr n ↔ ∃ slot a, m.cell slot = some (a, n) ∧ SameKey netAddrHm a addr := by
  unfold Serves
  rw [← ValidHm.entries_eq]
  constructor
  · rintro ⟨⟨a, n⟩, he, hsame, rfl⟩
    obtain ⟨slot, hslot⟩ := ValidHm.mem_entries.mp he
    exact ⟨slot, a, hslot, hsame⟩
  · rintro ⟨slot, a, hslot, hsame⟩
    exact ⟨(a, n), ValidHm.mem_entries.mpr ⟨slot, hslot⟩, hsame, rfl⟩

/-- Erasing in the slots is erasing in the hash map. -/
theorem hmErase_of_erase {K V : Type} {c : HmInstance K} {m m' : ValidHm c V} {key : K}
    (h : m.erase key = .ok m') : hmErase c m.hm key = .ok m'.hm := by
  unfold ValidHm.erase at h
  cases hattach : ValidHm.attach ((hmErase c m.hm key).map fun hm => (hm, ())) m.erase_wf with
  | error f =>
      rw [hattach] at h
      cases h
  | ok x =>
      rw [hattach] at h
      cases h
      have hx := ValidHm.attach_eq_ok.mp hattach
      cases herase : hmErase c m.hm key with
      | error f =>
          rw [herase] at hx
          cases hx
      | ok hm =>
          rw [herase] at hx
          cases hx
          rfl

section

variable {malicious malicious' : Hm NetAddr Int} {addr : NetAddr} {n : Int}

/-- An address serves one sentence. -/
theorem Serves.unique {n' : Int} (hwf : Hm.WF netAddrHm malicious) (h : Serves malicious addr n)
    (h' : Serves malicious addr n') : n = n' := by
  obtain ⟨slot, a, hslot, hsame⟩ := (@serves_iff_cell ⟨malicious, hwf⟩ _ _).mp h
  obtain ⟨slot', a', hslot', hsame'⟩ := (@serves_iff_cell ⟨malicious, hwf⟩ _ _).mp h'
  obtain rfl := ValidHm.cell_unique hslot hslot' (hsame.trans hsame'.symm)
  cases hslot.symm.trans hslot'
  rfl

/-- An entry one network update later. -/
def served (e : NetAddr × Int) : Option (NetAddr × Int) :=
  if wrapInt 32 (e.2 - 1) > 0 then some (e.1, wrapInt 32 (e.2 - 1)) else none

/-- One turn of the loop over the list. -/
theorem updateMaliciousLoop_cons {m m' : ValidHm netAddrHm Int} {slot : Nat} {rest : List Nat}
    (h : updateMaliciousLoop (slot :: rest) m.hm = .ok m'.hm) :
    ∃ m₁ : ValidHm netAddrHm Int, updateMaliciousLoop rest m₁.hm = .ok m'.hm ∧
      ∀ i, m₁.cell i = if i = slot then (m.cell slot).bind served else m.cell i := by
  cases hcell : m.cell slot with
  | none =>
      refine ⟨m, ?_, ?_⟩
      · cases hm : m.hm with
        | none =>
            rw [hm] at h
            cases rest <;> exact h
        | some t =>
            rw [hm] at h
            cases hslot : t.slotAt slot with
            | unused => simpa [updateMaliciousLoop, hslot] using h
            | rip => simpa [updateMaliciousLoop, hslot] using h
            | live hash a n =>
                cases hcell.symm.trans (ValidHm.cell_eq_some.mpr ⟨t, hash, hm, hslot⟩)
      · intro i
        split
        · next hi => rw [hi, hcell]; rfl
        · rfl
  | some e =>
      obtain ⟨a, n⟩ := e
      obtain ⟨t, hash, hm, hslot⟩ := ValidHm.cell_eq_some.mp hcell
      rw [hm] at h
      simp only [updateMaliciousLoop, hslot] at h
      generalize hleft : wrapInt 32 (n - 1) = left at h
      have hset : (m.set slot left).hm = some (t.setValue slot left) := by
        show m.hm.map _ = _
        rw [hm]
        rfl
      have hcell₁ := ValidHm.cell_set hcell left
      by_cases hmore : left > 0
      · rw [if_pos hmore, ok_bind, ← hset] at h
        refine ⟨m.set slot left, h, ?_⟩
        intro i
        rw [hcell₁, Option.bind_some, served, hleft, if_pos hmore]
      · rw [if_neg hmore, ← hset] at h
        have hself : (m.set slot left).cell slot = some (a, left) := by
          rw [hcell₁, if_pos rfl]
        obtain ⟨m₁, herase, hcells, -⟩ := ValidHm.erase_of_cell hself (SameKey.refl _ a)
        obtain ⟨erased, herased, h⟩ := bind_eq_ok.mp h
        cases herased.symm.trans (hmErase_of_erase herase)
        refine ⟨m₁, h, ?_⟩
        intro i
        rw [ValidHm.cell_of_cells_set hself hcells, hcell₁, Option.bind_some, served, hleft,
          if_neg hmore]
        grind

/-- Each listed cell is served once and the others stay. -/
theorem cell_updateMaliciousLoop {m m' : ValidHm netAddrHm Int} {slots : List Nat}
    (hnodup : slots.Nodup) (h : updateMaliciousLoop slots m.hm = .ok m'.hm) (i : Nat) :
    m'.cell i = if i ∈ slots then (m.cell i).bind served else m.cell i := by
  induction slots generalizing m with
  | nil =>
      have hsame : m.hm = m'.hm := Except.ok.inj h
      obtain rfl : m = m' := by
        cases m
        cases m'
        cases hsame
        rfl
      rfl
  | cons slot rest ih =>
      obtain ⟨hfresh, hrest⟩ := List.nodup_cons.mp hnodup
      obtain ⟨m₁, h₁, hcell⟩ := updateMaliciousLoop_cons h
      rw [ih hrest h₁, hcell]
      by_cases hi : i = slot
      · subst hi
        simp [hfresh]
      · simp [hi]

/-- The loop over all slots. -/
theorem cell_served {m m' : ValidHm netAddrHm Int} {slots : List Nat} (hnodup : slots.Nodup)
    (hall : ∀ i e, m.cell i = some e → i ∈ slots)
    (h : updateMaliciousLoop slots m.hm = .ok m'.hm) (i : Nat) :
    m'.cell i = (m.cell i).bind served := by
  rw [cell_updateMaliciousLoop hnodup h]
  split
  · rfl
  · next hout =>
      cases hi : m.cell i with
      | none => rfl
      | some e => exact absurd (hall i e hi) hout

/-- **A network update** takes one off each timeout and releases those whose timeout is over. -/
theorem serves_updateMalicious {s s' : Server} (hwf : Hm.WF netAddrHm s.maliciousClients)
    (h : updateMalicious s = .ok s') :
    Serves s'.maliciousClients addr n ↔
      0 < n ∧ ∃ k, Serves s.maliciousClients addr k ∧ wrapInt 32 (k - 1) = n := by
  obtain ⟨malicious, hloop, h⟩ := bind_eq_ok.mp h
  cases h
  let m : ValidHm netAddrHm Int := ⟨s.maliciousClients, hwf⟩
  let m' : ValidHm netAddrHm Int := ⟨malicious, wf_updateMaliciousLoop hwf hloop⟩
  have hcell : ∀ i, m'.cell i = (m.cell i).bind served := by
    refine cell_served ?_ ?_ hloop
    · split
      · exact List.nodup_nil
      · exact List.nodup_range
    · rintro i ⟨a, k⟩ hi
      obtain ⟨t, hash, hm, hslot⟩ := ValidHm.cell_eq_some.mp hi
      have hm : s.maliciousClients = some t := hm
      rw [hm]
      exact List.mem_range.mpr (HmTable.lt_capacity_of_slotAt (by simp [hslot]))
  have hright (k : Int) := @serves_iff_cell m addr k
  refine (@serves_iff_cell m' addr n).trans ?_
  simp only [hcell, Option.bind_eq_some_iff, served]
  constructor
  · rintro ⟨slot, a, ⟨⟨a', k⟩, hslot, hserved⟩, hsame⟩
    split at hserved
    · next hmore =>
        obtain ⟨rfl, hk⟩ := Prod.mk.inj (Option.some.inj hserved)
        dsimp only at hk hmore
        rw [hk] at hmore
        exact ⟨hmore, k, (hright k).mpr ⟨slot, a', hslot, hsame⟩, hk⟩
    · cases hserved
  · rintro ⟨hpos, k, hk, hn⟩
    obtain ⟨slot, a, hslot, hsame⟩ := (hright k).mp hk
    refine ⟨slot, a, ⟨_, hslot, ?_⟩, hsame⟩
    simp [hn, hpos]

/-- Writing the timeout of an address. -/
theorem serves_setValue {t : HmTable NetAddr Int} {slot : Nat} {hash : UInt32} {a : NetAddr}
    {k k' : Int} (hwf : t.WF netAddrHm) (hslot : t.slotAt slot = .live hash a k)
    (hsame : SameKey netAddrHm a addr) :
    Serves (some (t.setValue slot k')) addr n ↔ n = k' := by
  obtain ⟨before, after, -, hnew⟩ := entries_setValue hslot k'
  have hself : Serves (some (t.setValue slot k')) addr k' :=
    ⟨(a, k'), by rw [Hm.entries, hnew]; simp, hsame, rfl⟩
  constructor
  · intro h
    exact h.unique (Hm.wf_some (hwf.setValue slot k')) hself
  · rintro rfl
    exact hself

/-- An address that is put on the list gets the timeout, unless there is no memory for it. -/
theorem serves_insertUpdate {mem : Alloc} {value : Int} (hwf : Hm.WF netAddrHm malicious)
    (hfree : ¬ Hm.Stores netAddrHm malicious addr)
    (h : hmInsertUpdate netAddrHm mem malicious addr value = .ok malicious') :
    (∀ n, Serves malicious' addr n ↔ n = value) ∨ malicious' = malicious := by
  unfold hmInsertUpdate at h
  cases hemplace : hmEmplaceOrGet netAddrHm mem malicious addr value with
  | error f =>
      rw [hemplace] at h
      cases h
  | ok r =>
      obtain ⟨hm, status⟩ := r
      have hspec := hmEmplaceOrGet_spec hwf hemplace
      rw [hemplace] at h
      cases hspec with
      | oom hdue hgrant =>
          cases h
          exact Or.inr rfl
      | present htwf hperm hslot hsame =>
          exact absurd ⟨_, hperm.mem_iff.mp (HmTable.mem_entries hslot), hsame⟩ hfree
      | @new t slot hash htwf hperm habsent hslot =>
          cases h
          have hself : Serves (some t) addr value :=
            ⟨(addr, value), HmTable.mem_entries hslot, SameKey.refl _ addr, rfl⟩
          refine Or.inl fun n => ⟨fun hn => hn.unique (Hm.wf_some htwf) hself, ?_⟩
          rintro rfl
          exact hself

end

/-! ## Packets -/

/-- What a packet that is not ignored does to the list: nothing, or its sender loses its record
and is put on the list. -/
inductive Verdict (mem : Alloc) (settings : ServerSettings) (addr : NetAddr) (s s' : Server) :
    Prop where
  | spared (hsame : s'.maliciousClients = s.maliciousClients)
  | marked (hmark : hmInsertUpdate netAddrHm mem s.maliciousClients addr
        settings.maliciousTimeout.toNat = .ok s'.maliciousClients)
      (hgone : ¬ s'.clients.Stores addr)

section

variable {mem : Alloc} {settings : ServerSettings} {addr : NetAddr} {s s' : Server} {slot : Nat}
  {a : NetAddr} {record : ServerClient} {frameNumber : UInt16}

/-- The verdict looks at the malicious list of the start only. -/
theorem Verdict.of_list {s₁ : Server} (h : Verdict mem settings addr s₁ s')
    (hlist : s₁.maliciousClients = s.maliciousClients) : Verdict mem settings addr s s' := by
  cases h with
  | spared hsame => exact .spared (hsame.trans hlist)
  | marked hmark hgone =>
      rw [hlist] at hmark
      exact .marked hmark hgone

/-- The only record of an address is gone. -/
theorem not_stores_of_removed (hcell : s.clients.cell slot = some (a, record))
    (hsame : SameKey serverClientHm a addr) (h : Removed slot s s') :
    ¬ s'.clients.Stores addr := by
  rintro ⟨i, b, other, hi, hb⟩
  by_cases hslot : i = slot
  · rw [hslot, h.empty] at hi
    cases hi
  · rw [h.others i hslot] at hi
    exact hslot (ValidHm.cell_unique hi hcell (hb.trans hsame.symm))

/-- Marking a client sentences its address. -/
theorem verdict_mark (hcell : s.clients.cell slot = some (a, record))
    (hsame : SameKey serverClientHm a addr)
    (h : markClientAsMaliciousAndDrop mem settings s addr (some slot) = .ok s') :
    Verdict mem settings addr s s' := by
  have hgone := not_stores_of_removed hcell hsame (removed_of_mark hcell hsame h)
  obtain ⟨malicious, hmark, hremove⟩ := bind_eq_ok.mp h
  have hlist := malicious_clientRemove hremove
  exact .marked (by rw [hlist]; exact hmark) hgone

/-- A message of a registered client sentences its address or does not touch the list. -/
theorem verdict_processMessage {type : UInt8} {payload : List UInt8}
    (hcell : s.clients.cell slot = some (a, record)) (hsame : SameKey serverClientHm a addr)
    (h : processMessage mem settings s (some slot) addr type payload frameNumber = .ok s') :
    Verdict mem settings addr s s' := by
  rw [processMessage_eq] at h
  cases hkind : msgKind type payload with
  | join clientFrame usernameLen =>
      rw [hkind] at h
      simp only [processJoinRequest_eq] at h
      cases hdenial : joinDenial settings s.clients.count usernameLen with
      | some m =>
          rw [hdenial] at h
          cases h
          exact .spared rfl
      | none =>
          rw [hdenial] at h
          dsimp only at h
          unfold joinAccept at h
          rw [client_of_cell hcell, ok_bind] at h
          obtain ⟨snake, -, h⟩ := bind_eq_ok.mp h
          cases h
          exact .spared rfl
  | leave =>
      rw [hkind] at h
      exact .spared (malicious_clientRemove h)
  | commands =>
      rw [hkind] at h
      dsimp only at h
      unfold processCommands at h
      rw [client_of_cell hcell, ok_bind] at h
      obtain ⟨snake, hsnake, h⟩ := bind_eq_ok.mp h
      simp only [msgCommandsUnpackInto_status] at h
      generalize hs₁ : ({ s with world := _ } : Server) = s₁ at h
      have hlist : s₁.maliciousClients = s.maliciousClients := by
        subst hs₁
        rfl
      have hcell₁ : s₁.clients.cell slot = some (a, record) := by
        subst hs₁
        exact hcell
      split at h
      · exact (verdict_mark hcell₁ hsame h).of_list hlist
      · split at h
        · cases h
          exact .spared hlist
        · cases h
          exact .spared hlist
  | malicious =>
      rw [hkind] at h
      exact verdict_mark hcell hsame h

/-- Frames without a usable record leave the verdict as it is. -/
theorem verdict_of_unusable {client : Option Nat} {fs : List Frame} {s₁ : Server}
    (hverdict : Verdict mem settings addr s s₁) (hpointer : Unusable s₁ client addr)
    (h : processFrames mem settings client addr frameNumber fs s₁ = .ok s') :
    Verdict mem settings addr s s' := by
  obtain ⟨answers, rfl⟩ := answered_of_unusable hpointer h
  cases hverdict with
  | spared hsame => exact .spared hsame
  | marked hmark hgone => exact .marked hmark hgone

/-- A datagram of a registered client sentences its address at most once. -/
theorem verdict_processFrames {fs : List Frame} (hcell : s.clients.cell slot = some (a, record))
    (hsame : SameKey serverClientHm a addr)
    (h : processFrames mem settings (some slot) addr frameNumber fs s = .ok s') :
    Verdict mem settings addr s s' := by
  induction fs generalizing s record with
  | nil =>
      cases h
      exact .spared rfl
  | cons f rest ih =>
      cases f with
      | truncated => exact verdict_mark hcell hsame h
      | message type payload =>
          rw [processFrames, if_neg (by simp)] at h
          obtain ⟨s₁, hmessage, h⟩ := bind_eq_ok.mp h
          have hverdict := verdict_processMessage hcell hsame hmessage
          rcases processMessage_registered hcell hsame hmessage with ⟨-, hkept⟩ | ⟨-, hgone⟩
          · obtain ⟨a', record', record₁, hcell', hcell₁, hident⟩ := hkept.cell
            cases hcell.symm.trans hcell'
            cases hverdict with
            | spared hlist => exact (ih hcell₁ h).of_list hlist
            | marked hmark hgone => exact absurd ⟨slot, a, record₁, hcell₁, hsame⟩ hgone
          · exact verdict_of_unusable hverdict (unusable_of_empty addr hgone.empty) h

/-- Whoever has no record is not put on the list. -/
theorem spared_of_unknown {fs : List Frame}
    (h : processFrames mem settings none addr frameNumber fs s = .ok s') :
    s'.maliciousClients = s.maliciousClients := by
  induction fs generalizing s with
  | nil =>
      cases h
      rfl
  | cons f rest ih =>
      cases unknownFrame_of_ok h with
      | ends htype hsame => rw [hsame]
      | denied hkind hdenial hrest =>
          have hlist := ih hrest
          exact hlist
      | @created _ _ _ _ slot s₁ s₂ hkind hdenial hcreate haccept hrest =>
          obtain ⟨hcell, -, -⟩ := createClient_cell hcreate
          obtain ⟨_, _, record', hcell', hcell₂, -⟩ := (kept_of_joinAccept hcell haccept).cell
          cases hcell.symm.trans hcell'
          have hstores := unusable_of_stores ⟨_, addr, record', hcell₂, SameKey.refl _ addr⟩
          obtain ⟨answers, rfl⟩ := answered_of_unusable hstores hrest
          obtain ⟨clients, world, snake, -, -, -, rfl⟩ := createClient_ok hcreate
          unfold joinAccept at haccept
          rw [client_of_cell hcell, ok_bind] at haccept
          obtain ⟨snake, -, haccept⟩ := bind_eq_ok.mp haccept
          cases haccept
          rfl

/-- A packet from a listed address is ignored, and the timeout gets longer. -/
theorem receivePacket_listed {udpBuf : List UInt8} {n : Int}
    (hwf : Hm.WF netAddrHm s.maliciousClients) (hbanned : s.bannedClients = none)
    (hserves : Serves s.maliciousClients addr n)
    (h : receivePacket mem settings s addr udpBuf frameNumber = .ok s') :
    ∃ malicious, s' = { s with maliciousClients := malicious } ∧
      ∀ n', Serves malicious addr n' ↔ n' = wrapInt 32 (n + settings.penalty) := by
  obtain ⟨slot, a, hcell, hsame⟩ := (@serves_iff_cell ⟨s.maliciousClients, hwf⟩ _ _).mp hserves
  obtain ⟨t, hash, hm, hslot⟩ := ValidHm.cell_eq_some.mp hcell
  have hm : s.maliciousClients = some t := hm
  have hnone : hmFind netAddrHm s.bannedClients addr = .ok none := by
    rw [hbanned]
    rfl
  have hfind : hmFind netAddrHm s.maliciousClients addr = .ok (some slot) := by
    rw [hm]
    exact hmFind_live (hwf t hm) hslot hsame
  unfold receivePacket at h
  rw [hnone, ok_bind, hfind, ok_bind] at h
  cases h
  refine ⟨_, rfl, ?_⟩
  intro n'
  have hvalue : t.valueAt slot = some n := by
    rw [HmTable.valueAt, hslot]
  rw [hm, Option.map_some, hvalue]
  exact serves_setValue (hwf t hm) hslot hsame

/-- A packet from another address: at most its sender is put on the list, if it has a record, and
then one of the messages removes it. -/
theorem receivePacket_unlisted {udpBuf : List UInt8} (hwf : Hm.WF netAddrHm s.maliciousClients)
    (hbanned : s.bannedClients = none) (hfree : ¬ Hm.Stores netAddrHm s.maliciousClients addr)
    (h : receivePacket mem settings s addr udpBuf frameNumber = .ok s') :
    s'.maliciousClients = s.maliciousClients ∨
      (hmInsertUpdate netAddrHm mem s.maliciousClients addr settings.maliciousTimeout.toNat =
          .ok s'.maliciousClients ∧
        s.clients.Stores addr ∧ ¬ s'.clients.Stores addr ∧
        ∃ f ∈ frames udpBuf, f.dropsSender = true) := by
  have hlist {slot : Nat} : hmFind netAddrHm s.maliciousClients addr ≠ .ok (some slot) := by
    intro hfind
    rcases hmFind_spec hwf hfind with ⟨t, slot', hash, k, v, hm, hslot', hslot, hsame⟩ | ⟨hnone, -⟩
    · rw [hm] at hfree
      exact hfree ⟨(k, v), HmTable.mem_entries hslot, hsame⟩
    · cases hnone
  have hnone : hmFind netAddrHm s.bannedClients addr = .ok none := by
    rw [hbanned]
    rfl
  unfold receivePacket at h
  rw [hnone, ok_bind] at h
  obtain ⟨malicious, hmalicious, h⟩ := bind_eq_ok.mp h
  cases malicious with
  | some slot => exact absurd hmalicious hlist
  | none =>
      obtain ⟨client, hfind, h⟩ := bind_eq_ok.mp h
      cases client with
      | none =>
          dsimp only at h
          rw [ok_bind, unpackPacket_eq] at h
          exact Or.inl (spared_of_unknown h)
      | some slot =>
          obtain ⟨a, record, hcell, hsame⟩ := ValidHm.find_some hfind
          dsimp only at h
          rw [client_of_cell hcell, ok_bind, ok_bind, unpackPacket_eq] at h
          have hcell₁ := cell_setClient hcell { record with timeoutCounter := 0 }
          cases verdict_processFrames hcell₁ hsame h with
          | spared hkeeps => exact Or.inl hkeeps
          | marked hmark hgone =>
              refine Or.inr ⟨hmark, ⟨slot, a, record, hcell, hsame⟩, hgone, ?_⟩
              rcases processFrames_registered hcell₁ hsame h with ⟨-, hkept⟩ | ⟨hdrops, -⟩
              · obtain ⟨_, _, record', hcell', hcell₂, -⟩ := hkept.cell
                cases hcell₁.symm.trans hcell'
                exact absurd ⟨slot, a, record', hcell₂, hsame⟩ hgone
              · exact hdrops

end

/-! ## Events -/

instance decidableSameKey {K : Type} (c : HmInstance K) (a b : K) : Decidable (SameKey c a b) :=
  inferInstanceAs (Decidable (_ ∧ _))

namespace ServerEvent

/-- `IsFrom`, as a test. -/
def comesFrom (addr : NetAddr) : ServerEvent → Bool
  | packet sender _ => decide (SameKey serverClientHm sender addr)
  | _ => false

def isMalicious : ServerEvent → Bool
  | malicious => true
  | _ => false

/-- What becomes of the timeout of an address, which is an `int`. -/
def timeoutAfter (settings : ServerSettings) (addr : NetAddr) (n : Int) :
    ServerEvent → Option Int
  | malicious => if 0 < wrapInt 32 (n - 1) then some (wrapInt 32 (n - 1)) else none
  | packet sender _ =>
      if SameKey serverClientHm sender addr then some (wrapInt 32 (n + settings.penalty))
      else some n
  | _ => some n

end ServerEvent

/-- The addresses on the list have no record. -/
structure Outlaws (s : Server) : Prop where
  wf : Hm.WF netAddrHm s.maliciousClients
  banned : s.bannedClients = none
  outside : ∀ addr n, Serves s.maliciousClients addr n → ¬ s.clients.Stores addr

/-- What an event can do to listed addresses, and they to the server. -/
structure Enforced (settings : ServerSettings) (r : ServerRun) (event : ServerEvent)
    (r' : ServerRun) : Prop where
  outside : ∀ addr n, Serves r.server.maliciousClients addr n → ¬ r.server.clients.Stores addr
  ignores : ∀ sender udpBuf n, event = .packet sender udpBuf →
    Serves r.server.maliciousClients sender n →
      ∃ malicious, r'.server = { r.server with maliciousClients := malicious }
  serves : ∀ addr n, Serves r.server.maliciousClients addr n →
    ∀ n', Serves r'.server.maliciousClients addr n' ↔ event.timeoutAfter settings addr n = some n'
  begins : ∀ addr n, ¬ Hm.Stores netAddrHm r.server.maliciousClients addr →
    Serves r'.server.maliciousClients addr n →
      event.comesFrom addr = true ∧ DropsSender event ∧ n = settings.maliciousTimeout.toNat ∧
        r.server.clients.Stores addr ∧ ¬ r'.server.clients.Stores addr

section

variable {mem : Alloc} {settings : ServerSettings} {num : Numerics} {event : ServerEvent}
  {addr : NetAddr} {r r' : ServerRun}

/-- The same key serves the same sentence. -/
theorem Serves.congr {malicious : Hm NetAddr Int} {addr addr' : NetAddr} {n : Int}
    (h : Serves malicious addr n) (hsame : SameKey netAddrHm addr addr') :
    Serves malicious addr' n := by
  obtain ⟨e, he, haddr, hn⟩ := h
  exact ⟨e, he, haddr.trans hsame, hn⟩

/-- The list holds an address exactly when it serves some sentence. -/
theorem stores_iff_serves {malicious : Hm NetAddr Int} {addr : NetAddr} :
    Hm.Stores netAddrHm malicious addr ↔ ∃ n, Serves malicious addr n := by
  constructor
  · rintro ⟨e, he, hsame⟩
    exact ⟨e.2, e, he, hsame, rfl⟩
  · rintro ⟨n, e, he, hsame, -⟩
    exact ⟨e, he, hsame⟩

/-- The test is the comparison of the addresses. -/
theorem comesFrom_iff : event.comesFrom addr = true ↔ event.IsFrom addr := by
  unfold ServerEvent.IsFrom
  cases event with
  | packet sender udpBuf =>
      rw [ServerEvent.comesFrom, decide_eq_true_iff]
      constructor
      · intro hsame
        exact ⟨sender, udpBuf, rfl, hsame⟩
      · rintro ⟨_, _, hevent, hsame⟩
        cases hevent
        exact hsame
  | _ => simp [ServerEvent.comesFrom]

/-- Only its own packets give an address a record. -/
theorem not_stores_of_event (hother : ¬ event.IsFrom addr)
    (h : serverEvent mem settings num r event = .ok r')
    (hnone : ¬ r.server.clients.Stores addr) : ¬ r'.server.clients.Stores addr := by
  rintro ⟨slot, a, record, hcell, hsame⟩
  obtain ⟨e, he, hsame', -⟩ :=
    (aged_event hother h).came (a, record) (ValidHm.mem_entries.mpr ⟨slot, hcell⟩) hsame
  obtain ⟨slot', hslot'⟩ := ValidHm.mem_entries.mp he
  exact hnone ⟨slot', e.1, e.2, hslot', hsame'⟩

/-- No event touches the ban list. -/
theorem banned_serverEvent (h : serverEvent mem settings num r event = .ok r') :
    r'.server.bannedClients = r.server.bannedClients := by
  refine @serverEvent_invariant mem settings num
    (fun s => s.bannedClients = r.server.bannedClients) r r' event ?_ rfl h
  intro s s' hs hstep
  cases hstep with
  | joined hasks hclients hworld hdenial hcreate =>
      obtain ⟨clients, world, snake, -, -, -, rfl⟩ := createClient_ok hcreate
      exact hs
  | removed hcell hsame hreason hremove =>
      obtain ⟨s₁, hok, -, -, -, -, hbanned, -⟩ := clientRemove_of_cell hcell hsame
      cases hok.symm.trans hremove
      exact hbanned.trans hs
  | _ => exact hs

/-- A timeout changes with network updates and packets from its address. -/
theorem serves_event (hr : Outlaws r.server)
    (h : serverEvent mem settings num r event = .ok r') {n : Int}
    (hserves : Serves r.server.maliciousClients addr n) (n' : Int) :
    Serves r'.server.maliciousClients addr n' ↔
      event.timeoutAfter settings addr n = some n' := by
  have hkept : (∀ k, Serves r'.server.maliciousClients addr k ↔
      Serves r.server.maliciousClients addr k) →
      (Serves r'.server.maliciousClients addr n' ↔ some n = some n') := by
    intro hsame
    rw [hsame, Option.some_inj]
    constructor
    · intro hn'
      exact hserves.unique hr.wf hn'
    · rintro rfl
      exact hserves
  have hidle (hupdate : event ≠ .malicious)
      (hpacket : ∀ sender udpBuf, event ≠ .packet sender udpBuf) :
      Serves r'.server.maliciousClients addr n' ↔ some n = some n' :=
    hkept fun k => by rw [malicious_serverEvent hupdate hpacket h]
  cases event with
  | malicious =>
      rw [serves_updateMalicious hr.wf (server_of_ok h)]
      simp only [ServerEvent.timeoutAfter, Option.ite_none_right_eq_some, Option.some_inj]
      constructor
      · rintro ⟨hpos, k, hk, rfl⟩
        rw [hserves.unique hr.wf hk]
        exact ⟨hpos, rfl⟩
      · rintro ⟨hpos, rfl⟩
        exact ⟨hpos, n, hserves, rfl⟩
  | packet sender udpBuf =>
      by_cases hsame : SameKey serverClientHm sender addr
      · obtain ⟨malicious, hs', hafter⟩ := receivePacket_listed hr.wf hr.banned
          (hserves.congr hsame.symm) (server_of_ok h)
        rw [ServerEvent.timeoutAfter, if_pos hsame, Option.some_inj, hs']
        constructor
        · intro hn'
          exact ((hafter n').mp (hn'.congr hsame.symm)).symm
        · rintro rfl
          exact ((hafter _).mpr rfl).congr hsame
      · rw [ServerEvent.timeoutAfter, if_neg hsame]
        refine hkept fun k => ?_
        have hothers := ((receivePacket_othersAlone (server_of_ok h)).touches.malicious hr.wf).2
        unfold Serves
        constructor
        · rintro ⟨e, he, haddr, hk⟩
          exact ⟨e, (hothers e fun hmine => hsame (hmine.symm.trans haddr)).mp he, haddr, hk⟩
        · rintro ⟨e, he, haddr, hk⟩
          exact ⟨e, (hothers e fun hmine => hsame (hmine.symm.trans haddr)).mpr he, haddr, hk⟩
  | timeouts => exact hidle (by simp) (by simp)
  | simulate => exact hidle (by simp) (by simp)
  | snakesInRange proximityRange => exact hidle (by simp) (by simp)
  | queueData => exact hidle (by simp) (by simp)
  | sendPending => exact hidle (by simp) (by simp)
  | nextFrame => exact hidle (by simp) (by simp)

/-- Only a client with a record that sends nonsense is put on the list. -/
theorem begins_event (hr : Outlaws r.server)
    (h : serverEvent mem settings num r event = .ok r') {n : Int}
    (hfree : ¬ Hm.Stores netAddrHm r.server.maliciousClients addr)
    (hserves : Serves r'.server.maliciousClients addr n) :
    event.comesFrom addr = true ∧ DropsSender event ∧ n = settings.maliciousTimeout.toNat ∧
      r.server.clients.Stores addr ∧ ¬ r'.server.clients.Stores addr := by
  have hnever {k : Int} (hlisted : Serves r.server.maliciousClients addr k) : False :=
    hfree (stores_iff_serves.mpr ⟨k, hlisted⟩)
  by_cases hupdate : event = .malicious
  · subst hupdate
    obtain ⟨-, k, hk, -⟩ := (serves_updateMalicious hr.wf (server_of_ok h)).mp hserves
    exact (hnever hk).elim
  by_cases hpacket : ∀ sender udpBuf, event ≠ .packet sender udpBuf
  · rw [malicious_serverEvent hupdate hpacket h] at hserves
    exact (hnever hserves).elim
  simp only [not_forall, not_not] at hpacket
  obtain ⟨sender, udpBuf, rfl⟩ := hpacket
  by_cases hsame : SameKey serverClientHm sender addr
  · have hfree' : ¬ Hm.Stores netAddrHm r.server.maliciousClients sender := by
      rintro ⟨e, he, hsender⟩
      exact hfree ⟨e, he, hsender.trans hsame⟩
    rcases receivePacket_unlisted hr.wf hr.banned hfree' (server_of_ok h) with
      hkept | ⟨hmark, ⟨slot, a, record, hcell, ha⟩, hgone, f, hf, hdrops⟩
    · rw [hkept] at hserves
      exact (hnever hserves).elim
    · rcases serves_insertUpdate hr.wf hfree' hmark with hvalue | hkept
      · refine ⟨comesFrom_iff.mpr ⟨sender, udpBuf, rfl, hsame⟩,
          ⟨sender, udpBuf, f, rfl, hf, hdrops⟩, (hvalue n).mp (hserves.congr hsame.symm),
          ⟨slot, a, record, hcell, ha.trans hsame⟩, ?_⟩
        rintro ⟨slot', a', record', hcell', ha'⟩
        exact hgone ⟨slot', a', record', hcell', ha'.trans hsame.symm⟩
      · rw [hkept] at hserves
        exact (hnever hserves).elim
  · obtain ⟨e, he, haddr, -⟩ := hserves
    have hothers := ((receivePacket_othersAlone (server_of_ok h)).touches.malicious hr.wf).2
    have hbefore := (hothers e fun hmine => hsame (hmine.symm.trans haddr)).mp he
    exact (hfree ⟨e, hbefore, haddr⟩).elim

/-- **One event.** -/
theorem Outlaws.after (hr : Outlaws r.server)
    (h : serverEvent mem settings num r event = .ok r') :
    Outlaws r'.server ∧ Enforced settings r event r' := by
  have hignores : ∀ sender udpBuf n, event = .packet sender udpBuf →
      Serves r.server.maliciousClients sender n →
        ∃ malicious, r'.server = { r.server with maliciousClients := malicious } := by
    rintro sender udpBuf n rfl hserves
    obtain ⟨malicious, hs', -⟩ := receivePacket_listed hr.wf hr.banned hserves (server_of_ok h)
    exact ⟨malicious, hs'⟩
  have hserves (addr : NetAddr) (n : Int) (hn : Serves r.server.maliciousClients addr n)
      (n' : Int) := serves_event hr h hn n'
  have hbegins (addr : NetAddr) (n : Int) :=
    @begins_event mem settings num event addr r r' hr h n
  refine ⟨⟨wf_serverEvent hr.wf h, (banned_serverEvent h).trans hr.banned, ?_⟩,
    hr.outside, hignores, hserves, hbegins⟩
  intro addr n' hn'
  by_cases hlisted : Hm.Stores netAddrHm r.server.maliciousClients addr
  · obtain ⟨n, hn⟩ := stores_iff_serves.mp hlisted
    have hnone := hr.outside addr n hn
    by_cases hfrom : event.IsFrom addr
    · obtain ⟨sender, udpBuf, rfl, hsame⟩ := hfrom
      obtain ⟨malicious, hs'⟩ := hignores sender udpBuf n rfl (hn.congr hsame.symm)
      rw [hs']
      exact hnone
    · exact not_stores_of_event hfrom h hnone
  · exact (hbegins addr n' hlisted hn').2.2.2.2

/-- The server starts with no outlaw. -/
theorem outlaws_init : Outlaws serverRunInit.server := by
  have hnone (addr : NetAddr) (n : Int) :
      ¬ Serves serverRunInit.server.maliciousClients addr n := by
    rintro ⟨e, he, -⟩
    cases he
  refine ⟨?_, rfl, fun addr n hn => absurd hn (hnone addr n)⟩
  intro t ht
  cases ht

/-- A timeout that has not overflowed: it is over only where packets cost nothing. -/
def Running (settings : ServerSettings) (n : Int) : Prop :=
  0 < n ∨ n = 0 ∧ settings.penalty = 0

instance (settings : ServerSettings) (n : Int) : Decidable (Running settings n) :=
  inferInstanceAs (Decidable (_ ∨ _))

/-- The timeout that an address is put on the list with. -/
theorem running_maliciousTimeout (settings : ServerSettings) :
    Running settings settings.maliciousTimeout.toNat := by
  unfold Running ServerSettings.penalty
  rcases Nat.eq_zero_or_pos settings.maliciousTimeout.toNat with hzero | hpos
  · right
    rw [hzero, Nat.zero_mul]
    exact ⟨rfl, rfl⟩
  · left
    exact_mod_cast hpos

/-- The network updates until an address with the timeout `n` is released, after some events. -/
def timeLeft (settings : ServerSettings) (addr : NetAddr) (n : Int) (events : List ServerEvent) :
    Int :=
  max n 1 + settings.penalty * events.countP (ServerEvent.comesFrom addr) -
    events.countP ServerEvent.isMalicious

section

variable {n : Int}

/-- A sentence ends only with an update, when at most one is left. -/
theorem timeoutAfter_eq_none (hrunning : Running settings n) (hroom : n < 2 ^ 31) :
    event.timeoutAfter settings addr n = none ↔ event = .malicious ∧ n ≤ 1 := by
  have hwrap : wrapInt 32 (n - 1) = n - 1 := by
    rcases hrunning with hpos | ⟨rfl, -⟩
    · exact wrapInt_of_range (by decide) (by omega) (by omega)
    · rfl
  cases event with
  | malicious =>
      simp only [ServerEvent.timeoutAfter, hwrap, ite_eq_right_iff, reduceCtorEq, imp_false,
        true_and]
      omega
  | packet sender udpBuf =>
      rw [ServerEvent.timeoutAfter]
      split <;> simp
  | _ => simp [ServerEvent.timeoutAfter]

/-- An event takes off the time left what it takes off the timeout. -/
theorem timeLeft_cons {n' : Int} (hrunning : Running settings n)
    (hroom : n + settings.penalty * (if event.comesFrom addr then 1 else 0) < 2 ^ 31)
    (hafter : event.timeoutAfter settings addr n = some n') (events : List ServerEvent) :
    timeLeft settings addr n (event :: events) = timeLeft settings addr n' events ∧
      Running settings n' ∧
      n' = n + settings.penalty * (if event.comesFrom addr then 1 else 0) -
        (if event.isMalicious then 1 else 0) := by
  unfold timeLeft Running at *
  rw [List.countP_cons, List.countP_cons]
  cases event with
  | malicious =>
      simp only [ServerEvent.comesFrom, Bool.false_eq_true, if_false, Int.mul_zero] at hroom
      rw [ServerEvent.timeoutAfter, wrapInt_of_range (by decide) (by omega) (by omega),
        Option.ite_none_right_eq_some, Option.some_inj] at hafter
      simp only [ServerEvent.comesFrom, ServerEvent.isMalicious, Bool.false_eq_true, if_false,
        if_true, Nat.add_zero, Int.mul_zero]
      push_cast
      omega
  | packet sender udpBuf =>
      rw [ServerEvent.timeoutAfter] at hafter
      by_cases hsame : SameKey serverClientHm sender addr
      · simp only [ServerEvent.comesFrom, hsame, decide_true, if_true, Int.mul_one] at hroom
        rw [if_pos hsame, wrapInt_of_range (by decide) (by omega) hroom] at hafter
        cases hafter
        simp only [ServerEvent.comesFrom, ServerEvent.isMalicious, hsame, decide_true,
          Bool.false_eq_true, if_false, if_true]
        push_cast
        rw [Int.mul_add]
        omega
      · rw [if_neg hsame] at hafter
        cases hafter
        simpa [ServerEvent.comesFrom, ServerEvent.isMalicious, hsame] using hrunning
  | _ =>
      cases hafter
      simpa [ServerEvent.comesFrom, ServerEvent.isMalicious] using hrunning

/-- A run of events takes the sentence down by one for each update and up by the penalty for each
packet. -/
theorem Outlaws.serve {events : List ServerEvent} (hr : Outlaws r.server)
    (hserves : Serves r.server.maliciousClients addr n) (hrunning : Running settings n)
    (hroom : n + settings.penalty * events.countP (ServerEvent.comesFrom addr) < 2 ^ 31)
    (hrun : Run.run (serverEvent mem settings num) r events = .ok r')
    (hlong : ∀ es, es <+: events → es ≠ events → 0 < timeLeft settings addr n es) :
    ¬ r'.server.clients.Stores addr ∧ ∀ n', Serves r'.server.maliciousClients addr n' ↔
      0 < timeLeft settings addr n events ∧
        n' = n + settings.penalty * events.countP (ServerEvent.comesFrom addr) -
          events.countP ServerEvent.isMalicious := by
  induction events generalizing r n with
  | nil =>
      cases hrun
      refine ⟨hr.outside addr n hserves, fun n' => ?_⟩
      simp only [timeLeft, List.countP_nil]
      constructor
      · intro hn'
        have := hserves.unique hr.wf hn'
        omega
      · rintro ⟨-, hn'⟩
        have hn' : n' = n := by omega
        rw [hn']
        exact hserves
  | cons event rest ih =>
      cases hstep : serverEvent mem settings num r event with
      | error f =>
          rw [Run.run, hstep] at hrun
          cases hrun
      | ok m =>
          rw [Run.run_cons_ok hstep] at hrun
          obtain ⟨hm, henforced⟩ := hr.after hstep
          have hnext := henforced.serves addr n hserves
          -- The penalties of the later packets still have to fit.
          have hlater : (0 : Int) ≤
              settings.penalty * rest.countP (ServerEvent.comesFrom addr) := by positivity
          rw [List.countP_cons, Nat.cast_add, Int.mul_add] at hroom
          have hroom₁ :
              n + settings.penalty * (if event.comesFrom addr then 1 else 0) < 2 ^ 31 := by
            push_cast at hroom
            omega
          cases hafter : event.timeoutAfter settings addr n with
          | some n₁ =>
              obtain ⟨-, hrunning₁, hn₁⟩ := timeLeft_cons hrunning hroom₁ hafter rest
              have hlong₁ : ∀ es, es <+: rest → es ≠ rest → 0 < timeLeft settings addr n₁ es := by
                intro es hes hne
                rw [← (timeLeft_cons hrunning hroom₁ hafter es).1]
                exact hlong (event :: es) ((List.prefix_cons_inj event).mpr hes)
                  (by simpa using hne)
              have hrest : n₁ + settings.penalty *
                  rest.countP (ServerEvent.comesFrom addr) < 2 ^ 31 := by
                push_cast at hroom
                grind
              obtain ⟨hnone, hend⟩ := ih hm ((hnext n₁).mpr hafter) hrunning₁ hrest hrun hlong₁
              refine ⟨hnone, fun n' => ?_⟩
              rw [hend, (timeLeft_cons hrunning hroom₁ hafter rest).1, List.countP_cons,
                List.countP_cons]
              push_cast
              rw [Int.mul_add]
              grind
          | none =>
              -- The address is released now, so there is nothing left of the run.
              have hbelow : n < 2 ^ 31 := by
                have : (0 : Int) ≤
                    settings.penalty * (if event.comesFrom addr then 1 else 0) := by positivity
                omega
              obtain ⟨rfl, hover⟩ := (timeoutAfter_eq_none hrunning hbelow).mp hafter
              have hzero : timeLeft settings addr n [.malicious] = 0 := by
                simp only [timeLeft, List.countP_singleton, ServerEvent.comesFrom,
                  ServerEvent.isMalicious, Bool.false_eq_true, if_false, if_true]
                omega
              have hrest : rest = [] := by
                by_contra hne
                have hpos := hlong [.malicious] (by simp) (by simpa using Ne.symm hne)
                omega
              subst hrest
              cases hrun
              refine ⟨not_stores_of_event (by simp [ServerEvent.IsFrom]) hstep
                (hr.outside addr n hserves), fun n' => ?_⟩
              rw [hnext, hafter, hzero]
              simp

end

end

/-- A sentence is two network updates long, and a packet costs another two. -/
def strictSettings : ServerSettings :=
  { hastySettings with maliciousTimeout := 2 }

/-- A client that joins and then sends a message that ends early. -/
def nonsense : List ServerEvent :=
  [.packet (loopback 40000) (joinPacket (cString "a")), .packet (loopback 40000) [0, 5]]

/-- It sends another packet before its sentence is over. -/
def fiveUpdates : List ServerEvent :=
  [.malicious, .packet (loopback 40000) [], .malicious, .malicious, .malicious]

end Clither
