import Clither.Packet

/-!
# Packets from registered clients

A message from a registered client either changes its record or its snake, or it
removes the client: when it leaves, and when it is dropped as malicious.  The
loop of `unpack_packet` looks the client up once and goes on after a removal
with the same pointer.

`removed_record_left_alone_iff` says which messages may follow the removing one
in the same packet: those that are handled without the record, which are join
requests that are denied.  After any other one the erased record is used, and
`leave_twice` is such a packet.
-/

namespace Clither

open Faults (bind_eq_ok)

/-- The client in a cell has been removed together with its snake. -/
structure Removed (slot : Nat) (s s' : Server) : Prop where
  record : ∃ addr record, s.clients.cell slot = some (addr, record) ∧
    ∀ k, k ∈ bmapKeys s'.world ↔ k ∈ bmapKeys s.world ∧ record.snakeId ≠ k
  empty : s'.clients.cell slot = none
  others : ∀ i, i ≠ slot → s'.clients.cell i = s.clients.cell i
  count : s'.clients.count = s.clients.count - 1

theorem Kept.trans_removed {s s₁ s₂ : Server} {slot : Nat} (h : Kept slot s s₁)
    (h' : Removed slot s₁ s₂) : Removed slot s s₂ where
  record := by
    obtain ⟨addr, record, record₁, hcell, hcell₁, hident⟩ := h.cell
    obtain ⟨addr', record', hcell', hworld⟩ := h'.record
    cases hcell₁.symm.trans hcell'
    refine ⟨addr, record, hcell, fun k => ?_⟩
    rw [hworld, h.world, (ident_inj hident).2.1]
  empty := h'.empty
  others := fun i hi => (h'.others i hi).trans (h.others i hi)
  count := by rw [h'.count, h.count]

/-- The client with that address has left. -/
theorem Removed.left {s s' : Server} {slot : Nat} (h : Removed slot s s') {addr : NetAddr}
    {record : ServerClient} (hcell : s.clients.cell slot = some (addr, record)) :
    Left (fun e => SameKey serverClientHm e.1 addr) s s' := by
  obtain ⟨addr', record', hcell', hworld⟩ := h.record
  cases hcell.symm.trans hcell'
  refine left_of_cells (fun i => ?_) fun k => ?_
  · by_cases hi : i = slot
    · rw [hi, hcell, h.empty]
      exact .removed (SameKey.refl _ addr)
    · rw [h.others i hi]
      cases hi' : s.clients.cell i with
      | none => exact .empty
      | some e => exact .kept (fun hsame => hi (ValidHm.cell_unique hi' hcell hsame)) rfl
  · rw [hworld]
    refine and_congr_right fun _ => ⟨fun hk i e hi hsame => ?_, fun hk =>
      hk slot (addr, record) hcell (SameKey.refl _ addr)⟩
    obtain rfl := ValidHm.cell_unique hi hcell hsame
    cases hi.symm.trans hcell
    exact hk

section

variable {mem : Alloc} {settings : ServerSettings}

theorem removed_of_clientRemove {s s' : Server} {slot : Nat} {a addr : NetAddr}
    {record : ServerClient} (hcell : s.clients.cell slot = some (a, record))
    (hsame : SameKey serverClientHm a addr) (h : clientRemove s addr (some slot) = .ok s') :
    Removed slot s s' := by
  obtain ⟨s₁, hok, hcells, hcount, hworld, -⟩ := clientRemove_of_cell hcell hsame
  cases hok.symm.trans h
  have hcell' := ValidHm.cell_of_cells_set hcell hcells
  refine ⟨⟨a, record, hcell, fun k => ?_⟩, (hcell' slot).trans (if_pos rfl),
    fun i hi => (hcell' i).trans (if_neg hi), hcount⟩
  rw [hworld, mem_bmapKeys_erase]
  exact and_congr_right fun _ => ne_comm

theorem removed_of_mark {s s' : Server} {slot : Nat} {a addr : NetAddr} {record : ServerClient}
    (hcell : s.clients.cell slot = some (a, record)) (hsame : SameKey serverClientHm a addr)
    (h : markClientAsMaliciousAndDrop mem settings s addr (some slot) = .ok s') :
    Removed slot s s' := by
  obtain ⟨malicious, -, hremove⟩ := bind_eq_ok.mp h
  have hremoved := @removed_of_clientRemove { s with maliciousClients := malicious } s' slot a addr
    record hcell hsame hremove
  exact ⟨hremoved.record, hremoved.empty, hremoved.others, hremoved.count⟩

/-! ## Commands -/

/-- The status that `msg_commands_unpack_into` returns. -/
def commandsStatus (payload : List UInt8) : Int :=
  let commandCount := (payloadAt payload 2).toNat
  if commandCount = 0 then 0
  else
    match skipActions payload commandCount (8 * 5 + 3) with
    | none => -1
    | some pos => if nextByte pos + commandCount > payload.length then -1 else 0

/-- It depends on the message only. -/
theorem msgCommandsUnpackInto_status (cmdq : CmdQueue) (payload : List UInt8)
    (frameNumber : UInt16) :
    (msgCommandsUnpackInto mem cmdq payload frameNumber).2.1 = commandsStatus payload := by
  unfold msgCommandsUnpackInto commandsStatus
  dsimp only
  by_cases hcount : (payloadAt payload 2).toNat = 0
  · rw [if_pos hcount, if_pos hcount]
  · rw [if_neg hcount, if_neg hcount]
    cases skipActions payload (payloadAt payload 2).toNat (8 * 5 + 3) with
    | none => rfl
    | some pos =>
        dsimp only
        split <;> rfl

theorem ident_queueFeedback (addr : NetAddr) (client : ServerClient) (commandsQueued : Int)
    (frameNumber : UInt16) :
    ident (addr, queueFeedback mem settings client commandsQueued frameNumber) =
      ident (addr, client) := by
  unfold queueFeedback
  dsimp only
  split
  · rfl
  · split <;> rfl

theorem processCommands_registered {s s' : Server} {slot : Nat} {a addr : NetAddr}
    {record : ServerClient} (hcell : s.clients.cell slot = some (a, record))
    (hsame : SameKey serverClientHm a addr) {payload : List UInt8} {frameNumber : UInt16}
    (h : processCommands mem settings s (some slot) addr payload frameNumber = .ok s') :
    (commandsStatus payload = 0 ∧ Kept slot s s') ∨ (commandsStatus payload ≠ 0 ∧ Removed slot s s') := by
  unfold processCommands at h
  rw [client_of_cell hcell, ok_bind] at h
  obtain ⟨snake, hsnake, h⟩ := bind_eq_ok.mp h
  simp only [msgCommandsUnpackInto_status] at h
  generalize hs₁ : ({ s with world := _ } : Server) = s₁ at h
  have hkept : Kept slot s s₁ := by
    subst hs₁
    exact { Kept.refl hcell with world := bmapKeys_set _ _ _ }
  have hcell₁ : s₁.clients.cell slot = some (a, record) := by
    subst hs₁
    exact hcell
  by_cases hstatus : commandsStatus payload = 0
  · rw [if_neg (not_not.mpr hstatus)] at h
    refine Or.inl ⟨hstatus, ?_⟩
    split at h
    · cases h
      exact hkept
    · cases h
      exact hkept.trans (kept_setClient hcell₁ (ident_queueFeedback a _ _ frameNumber))
  · rw [if_pos hstatus] at h
    exact Or.inr ⟨hstatus, hkept.trans_removed (removed_of_mark hcell₁ hsame h)⟩

/-! ## Messages and packets -/

/-- The message removes its sender. -/
def Frame.dropsSender : Frame → Bool
  | .truncated => true
  | .message type payload =>
      match msgKind type payload with
      | .join _ _ => false
      | .leave => true
      | .commands => decide (commandsStatus payload ≠ 0)
      | .malicious => true

theorem processMessage_registered {s s' : Server} {slot : Nat} {a addr : NetAddr}
    {record : ServerClient} (hcell : s.clients.cell slot = some (a, record))
    (hsame : SameKey serverClientHm a addr) {type : UInt8} {payload : List UInt8}
    {frameNumber : UInt16}
    (h : processMessage mem settings s (some slot) addr type payload frameNumber = .ok s') :
    ((Frame.message type payload).dropsSender = false ∧ Kept slot s s') ∨
    ((Frame.message type payload).dropsSender = true ∧ Removed slot s s') := by
  rw [processMessage_eq] at h
  simp only [Frame.dropsSender]
  cases hkind : msgKind type payload with
  | join clientFrame usernameLen =>
      rw [hkind] at h
      simp only [processJoinRequest_eq] at h
      refine Or.inl ⟨rfl, ?_⟩
      split at h
      · cases h
        exact { Kept.refl hcell with }
      · exact kept_of_joinAccept hcell h
  | leave =>
      rw [hkind] at h
      exact Or.inr ⟨rfl, removed_of_clientRemove hcell hsame h⟩
  | commands =>
      rw [hkind] at h
      rcases processCommands_registered hcell hsame h with ⟨hstatus, hkept⟩ | ⟨hstatus, hremoved⟩
      · exact Or.inl ⟨decide_eq_false (not_not.mpr hstatus), hkept⟩
      · exact Or.inr ⟨decide_eq_true hstatus, hremoved⟩
  | malicious =>
      rw [hkind] at h
      exact Or.inr ⟨rfl, removed_of_mark hcell hsame h⟩

/-- **A packet of a registered client** removes it exactly if one of its messages
does. -/
theorem processFrames_registered {s s' : Server} {slot : Nat} {a addr : NetAddr}
    {record : ServerClient} (hcell : s.clients.cell slot = some (a, record))
    (hsame : SameKey serverClientHm a addr) {frameNumber : UInt16} {fs : List Frame}
    (h : processFrames mem settings (some slot) addr frameNumber fs s = .ok s') :
    ((∀ f ∈ fs, f.dropsSender = false) ∧ Kept slot s s') ∨
    ((∃ f ∈ fs, f.dropsSender = true) ∧ Removed slot s s') := by
  induction fs generalizing s record with
  | nil =>
      cases h
      exact Or.inl ⟨by simp, Kept.refl hcell⟩
  | cons frame rest ih =>
      cases frame with
      | truncated => exact Or.inr ⟨⟨.truncated, by simp, rfl⟩, removed_of_mark hcell hsame h⟩
      | message type payload =>
          rw [processFrames, if_neg (by simp)] at h
          obtain ⟨s₁, hmessage, hrest⟩ := bind_eq_ok.mp h
          rcases processMessage_registered hcell hsame hmessage with ⟨hstay, hkept⟩ | ⟨hdrop, hgone⟩
          · obtain ⟨a', record', record₁, hcell', hcell₁, -⟩ := hkept.cell
            cases hcell.symm.trans hcell'
            rcases ih hcell₁ hrest with ⟨hall, hkept'⟩ | ⟨⟨f, hf, hdrop⟩, hgone⟩
            · exact Or.inl ⟨List.forall_mem_cons.mpr ⟨hstay, hall⟩, hkept.trans hkept'⟩
            · exact Or.inr ⟨⟨f, List.mem_cons_of_mem _ hf, hdrop⟩, hkept.trans_removed hgone⟩
          · -- what follows cannot use the record and changes nothing
            obtain ⟨hclients, hworld⟩ :=
              (processFrames_unusable mem settings (unusable_of_empty addr hgone.empty) frameNumber
                rest).2 s' hrest
            refine Or.inr ⟨⟨_, List.mem_cons_self, hdrop⟩, ?_⟩
            refine ⟨?_, by rw [hclients]; exact hgone.empty, ?_, by rw [hclients, hgone.count]⟩
            · rw [hworld]
              exact hgone.record
            · intro i hi
              rw [hclients]
              exact hgone.others i hi

/-- A packet can be cut at any message. -/
theorem processFrames_append {slot : Nat} {addr : NetAddr} {frameNumber : UInt16}
    {before : List Frame} (hbefore : .truncated ∉ before) (rest : List Frame) (s : Server) :
    processFrames mem settings (some slot) addr frameNumber (before ++ rest) s = (do
      let s ← processFrames mem settings (some slot) addr frameNumber before s
      processFrames mem settings (some slot) addr frameNumber rest s) := by
  induction before generalizing s with
  | nil => rfl
  | cons frame before ih =>
      cases frame with
      | truncated => exact absurd List.mem_cons_self hbefore
      | message type payload =>
          simp only [List.cons_append, processFrames, reduceCtorEq, false_and, if_false]
          cases processMessage mem settings s (some slot) addr type payload frameNumber with
          | error f => rfl
          | ok s₁ => exact ih (fun hmem => hbefore (List.mem_cons_of_mem _ hmem)) s₁

/-- Only the last frame of a packet is truncated. -/
theorem frames_truncated {udpBuf : List UInt8} {before behind : List Frame} {frame : Frame}
    (h : frames udpBuf = before ++ frame :: behind) :
    .truncated ∉ before ∧ (frame = .truncated → behind = []) := by
  refine ⟨fun hmem => ?_, fun heq => framesLoop_truncated (heq ▸ h)⟩
  obtain ⟨b₁, b₂, rfl⟩ := List.append_of_mem hmem
  rw [List.append_assoc, List.cons_append] at h
  have := framesLoop_truncated h
  simp at this

/-- **After the removal.**  Let a message of the packet remove the record of its
sender.  The rest of the packet leaves the record alone, and clients and world as
they are, exactly when it consists of messages that are handled without the
record. -/
theorem removed_record_left_alone_iff (mem : Alloc) (settings : ServerSettings)
    {s s₁ s₂ : Server} {addr : NetAddr} {slot : Nat} {udpBuf : List UInt8} {frameNumber : UInt16}
    {before behind : List Frame} {frame : Frame}
    (hfind : s.clients.find addr = .ok (some slot))
    (hframes : frames udpBuf = before ++ frame :: behind)
    (hbefore : processFrames mem settings (some slot) addr frameNumber before s = .ok s₁)
    (hlive : (s₁.clients.cell slot).isSome)
    (hframe : processFrames mem settings (some slot) addr frameNumber [frame] s₁ = .ok s₂)
    (hgone : s₂.clients.cell slot = none) :
    (¬ UsesMissingRecord (unpackPacket mem settings s (some slot) addr udpBuf frameNumber) ∧
      ∀ s', unpackPacket mem settings s (some slot) addr udpBuf frameNumber = .ok s' →
        s'.clients = s₂.clients ∧ s'.world = s₂.world) ↔
    LeavesAlone settings (some slot) (s.clients.count - 1) (MarkReturns mem settings s₂ addr)
      behind := by
  obtain ⟨a, record, hcell, hsame⟩ := ValidHm.find_some hfind
  obtain ⟨hnot, hlast⟩ := frames_truncated hframes
  have hkept : Kept slot s s₁ := by
    rcases processFrames_registered hcell hsame hbefore with ⟨-, hkept⟩ | ⟨-, hremoved⟩
    · exact hkept
    · rw [hremoved.empty] at hlive
      cases hlive
  obtain ⟨a', _, record₁, hcell', hcell₁, -⟩ := hkept.cell
  cases hcell.symm.trans hcell'
  have hremoved : Removed slot s₁ s₂ := by
    rcases processFrames_registered hcell₁ hsame hframe with ⟨-, hkept'⟩ | ⟨-, hremoved⟩
    · obtain ⟨_, _, _, -, hcell₂, -⟩ := hkept'.cell
      cases hgone.symm.trans hcell₂
    · exact hremoved
  have hrest : unpackPacket mem settings s (some slot) addr udpBuf frameNumber =
      processFrames mem settings (some slot) addr frameNumber behind s₂ := by
    rw [unpackPacket_eq, hframes, processFrames_append hnot, hbefore, ok_bind]
    cases frame with
    | truncated =>
        rw [hlast rfl]
        exact hframe
    | message type payload =>
        have hcut : (.message type payload :: behind : List Frame) =
            [.message type payload] ++ behind := rfl
        rw [hcut, processFrames_append (by simp), hframe, ok_bind]
  have hcount : s₂.clients.count = s.clients.count - 1 := by
    rw [hremoved.count, hkept.count]
  obtain ⟨hiff, hunchanged⟩ := processFrames_unusable mem settings
    (unusable_of_empty addr hgone) frameNumber behind
  rw [hrest, ← hcount, ← hiff]
  exact and_iff_left hunchanged

/-- The client leaves, and then asks to join with a name that is too long. -/
def leavePacket : List UInt8 :=
  msgBytes msgLeave ++ joinPacket (List.replicate 33 97)

/-- The server after the first of these messages. -/
def soleClientLeft : Server :=
  match processFrames .unlimited serverSettingsDefaults (some 13) (loopback 40000) 1
    [.message 5 []] soleClient with
  | .ok s => s
  | .error _ => soleClient

theorem removed_record_left_alone :
    ¬ UsesMissingRecord (unpackPacket .unlimited serverSettingsDefaults soleClient (some 13)
      (loopback 40000) leavePacket 1) ∧
    ∀ s', unpackPacket .unlimited serverSettingsDefaults soleClient (some 13) (loopback 40000)
      leavePacket 1 = .ok s' →
        s'.clients = soleClientLeft.clients ∧ s'.world = soleClientLeft.world :=
  (@removed_record_left_alone_iff .unlimited serverSettingsDefaults soleClient soleClient
    soleClientLeft (loopback 40000) 13 leavePacket 1 [] [.message 0 (msgJoinRequest 0 0
      (List.replicate 33 97)).payload] (.message 5 [])
    (by decide +kernel) (by decide +kernel) rfl (by decide +kernel) (by decide +kernel)
    (by decide +kernel)).mpr ⟨by decide +kernel, trivial⟩

/-- A packet with two requests to leave: the second one removes the client through
a pointer to the erased record. -/
theorem leave_twice :
    receivePacket .unlimited serverSettingsDefaults soleClient (loopback 40000)
      (msgBytes msgLeave ++ msgBytes msgLeave) 1 = .error .staleClient := by
  decide +kernel

end

end Clither
