import Clither.CommandsArrive
import Clither.Lib.Bounds

/-!
# The round trip of a command packet

Up to a hundred commands fit into one message.  `packChunkChecked` is the
encoder with every store checked against the length that the message was
allocated with.  `commands_round_trip` says that no store is outside of it, and
that the receiver gets the commands of all frames that have not passed, whatever
frame it is at.
-/

namespace Clither

variable {mem : Alloc}

/-! ## The encoder with checked stores -/

def packActionsChecked (payloadLen : Nat) (cmdq : CmdQueue) :
    Nat → Nat → List UInt8 → Nat → Except Fault (List UInt8 × Nat)
  | 0, _, payload, pos => .ok (payload, pos)
  | turns + 1, i, payload, pos => do
      let prev ← cmdQueuePeek cmdq (i - 1)
      let next ← cmdQueuePeek cmdq i
      let bits := actionBits prev next
      let payload ← Bounds.storeBits .overrun payloadLen payload pos bits
      packActionsChecked payloadLen cmdq turns (i + 1) payload (pos + bits.length)

def packDeltasChecked (payloadLen : Nat) (cmdq : CmdQueue) :
    Nat → Nat → List UInt8 → Nat → Except Fault (List UInt8 × Nat)
  | 0, _, payload, byte => .ok (payload, byte)
  | turns + 1, i, payload, byte => do
      let prev ← cmdQueuePeek cmdq (i - 1)
      let next ← cmdQueuePeek cmdq i
      let payload ← Bounds.store .overrun payloadLen payload byte (deltaByte prev next)
      packDeltasChecked payloadLen cmdq turns (i + 1) payload (byte + 1)

/-- `packChunk`, which may write the first `payloadLen` bytes only. -/
def packChunkChecked (uninit : Nat → UInt8) (cmdq : CmdQueue) (firstFrameNumber : UInt16)
    (sendCount : Nat) : Except Fault Msg := do
  let payloadLen := (2 + 3 + (12 * sendCount + 8) / 8) % 256
  let c ← cmdQueuePeek cmdq 0
  let payload ← Bounds.storeBytes .overrun payloadLen ((List.range 255).map uninit) 0
    (bytes16 firstFrameNumber ++
      [UInt8.ofNat (sendCount - 1), c.angle, c.speed, UInt8.ofNat c.action.toNat])
  let (payload, pos) ← packActionsChecked payloadLen cmdq (sendCount - 1) 1 payload (8 * 5 + 3)
  let (payload, byte) ← packDeltasChecked payloadLen cmdq (sendCount - 1) 1 payload (nextByte pos)
  if byte ≤ payloadLen then return msgAlloc .commands 0 (payload.take byte)
  else .error .overrun

theorem packActionsChecked_eq {payloadLen : Nat} {cmdq : CmdQueue} {i : Nat} {prev : Cmd}
    {rest more : List Cmd} (h : cmdq.commands.drop i = prev :: (rest ++ more))
    (payload : List UInt8) {pos : Nat}
    (hfits : pos + (actionsBits prev rest).length ≤ 8 * payloadLen) :
    packActionsChecked payloadLen cmdq rest.length (i + 1) payload pos =
      packActions cmdq rest.length (i + 1) payload pos := by
  induction rest generalizing i prev payload pos with
  | nil => rfl
  | cons next rest ih =>
      have hnext := Scan.drop_succ_of_drop h
      rw [actionsBits, List.length_append] at hfits
      rw [List.length_cons, packActionsChecked, packActions, Nat.add_sub_cancel,
        cmdQueuePeek_of_drop h, ok_bind, cmdQueuePeek_of_drop hnext, ok_bind, ok_bind, ok_bind]
      dsimp only
      rw [Bounds.storeBits_of_le (by omega), ok_bind, ih hnext _ (by omega)]

theorem packDeltasChecked_eq {payloadLen : Nat} {cmdq : CmdQueue} {i : Nat} {prev : Cmd}
    {rest more : List Cmd} (h : cmdq.commands.drop i = prev :: (rest ++ more))
    (payload : List UInt8) {byte : Nat} (hfits : byte + rest.length ≤ payloadLen) :
    packDeltasChecked payloadLen cmdq rest.length (i + 1) payload byte =
      packDeltas cmdq rest.length (i + 1) payload byte := by
  induction rest generalizing i prev payload byte with
  | nil => rfl
  | cons next rest ih =>
      have hnext := Scan.drop_succ_of_drop h
      rw [List.length_cons] at hfits
      rw [List.length_cons, packDeltasChecked, packDeltas, Nat.add_sub_cancel,
        cmdQueuePeek_of_drop h, ok_bind, cmdQueuePeek_of_drop hnext, ok_bind, ok_bind, ok_bind,
        Bounds.store_of_lt (by omega), ok_bind, ih hnext _ (by omega)]

/-- **No store is outside** of the allocated length. -/
theorem packChunkChecked_eq (uninit : Nat → UInt8) {cmdq : CmdQueue} (first : UInt16) {c : Cmd}
    {rest : List Cmd} (hcmds : cmdq.commands = c :: rest) (hlen : rest.length < 100) :
    packChunkChecked uninit cmdq first (rest.length + 1) =
      packChunk uninit cmdq first (rest.length + 1) := by
  have hdrop : cmdq.commands.drop 0 = c :: (rest ++ []) := by
    rw [List.append_nil]
    exact hcmds
  obtain ⟨hfits, hmax⟩ := chunk_fits c hlen
  have hbounds := nextByte_bounds (8 * 5 + 3 + (actionsBits c rest).length)
  have hmod : (2 + 3 + (12 * (rest.length + 1) + 8) / 8) % 256 = chunkLen (rest.length + 1) :=
    Nat.mod_eq_of_lt (by unfold chunkLen at hmax; omega)
  have hheader : 0 + (bytes16 first ++
      [UInt8.ofNat rest.length, c.angle, c.speed, UInt8.ofNat c.action.toNat]).length ≤
        chunkLen (rest.length + 1) := by
    show 0 + 6 ≤ _
    unfold chunkLen
    omega
  rw [packChunkChecked, packChunk, cmdQueuePeek_of_drop hdrop, ok_bind, ok_bind]
  simp only [hmod, Nat.add_sub_cancel]
  rw [Bounds.storeBytes_of_le hheader, ok_bind,
    packActionsChecked_eq hdrop _ (by omega), packActions_eq hdrop, ok_bind, ok_bind]
  dsimp only
  rw [packDeltasChecked_eq hdrop _ hfits]

/-! ## Frames that have passed -/

/-- Within a hundred frames the frames that have not passed are next to each
other. -/
theorem passed_again {first frameNumber : UInt16} {i j k : Nat} (hij : i < j) (hjk : j ≤ k)
    (hki : k < i + 100) (hi : u16GeWrap (frameAt first i) frameNumber = true)
    (hj : u16GeWrap (frameAt first j) frameNumber = false) :
    u16GeWrap (frameAt first k) frameNumber = false := by
  have hf := first.toNat_lt
  have hn := frameNumber.toNat_lt
  rw [← Bool.not_eq_true, u16GeWrap_iff, toNat_frameAt] at hj ⊢
  rw [u16GeWrap_iff, toNat_frameAt] at hi
  omega

/-- The commands of the frames that have not passed. -/
def unpassed (frameNumber : UInt16) (frames : List (UInt16 × Cmd)) : List (UInt16 × Cmd) :=
  frames.filter fun e => u16GeWrap e.1 frameNumber

/-- The queued commands with their frames. -/
def CmdQueue.frames (cmdq : CmdQueue) : List (UInt16 × Cmd) :=
  framesOf cmdq.frameBegin cmdq.commands

theorem framesOf_append (first : UInt16) (xs ys : List Cmd) :
    framesOf first (xs ++ ys) = framesOf first xs ++ framesOf (frameAt first xs.length) ys := by
  induction xs generalizing first with
  | nil => rw [List.length_nil, frameAt_zero]; rfl
  | cons x xs ih =>
      rw [List.cons_append, framesOf, ih, List.length_cons, Nat.add_comm, ← frameAt_frameAt]
      rfl

theorem putFrames_passed {frameNumber : UInt16} {frames : List (UInt16 × Cmd)}
    (h : ∀ e ∈ frames, u16GeWrap e.1 frameNumber = false) (cmdq : CmdQueue) :
    putFrames mem frameNumber cmdq frames = cmdq := by
  induction frames with
  | nil => rfl
  | cons e frames ih =>
      obtain ⟨hfirst, hrest⟩ := List.forall_mem_cons.mp h
      show putFrames mem frameNumber (putUnpassed mem cmdq e.2 e.1 frameNumber) frames = cmdq
      rw [putUnpassed, hfirst]
      exact ih hrest

theorem mem_framesOf {first : UInt16} {cs : List Cmd} {e : UInt16 × Cmd}
    (h : e ∈ framesOf first cs) : ∃ j, j < cs.length ∧ e.1 = frameAt first j := by
  induction cs generalizing first with
  | nil => cases h
  | cons c cs ih =>
      rcases List.mem_cons.mp h with rfl | h
      · exact ⟨0, Nat.succ_pos _, (frameAt_zero first).symm⟩
      · obtain ⟨j, hj, he⟩ := ih h
        refine ⟨j + 1, Nat.succ_lt_succ hj, ?_⟩
        rw [he, Nat.add_comm, ← frameAt_frameAt]
        rfl

/-- Once a command has been queued the next ones follow it until one has
passed, and so have all behind it. -/
theorem frames_putFrames_open {base frameNumber : UInt16} {i₀ i : Nat} {cs : List Cmd}
    {cmdq : CmdQueue} (hstart : u16GeWrap (frameAt base i₀) frameNumber = true) (hi : i₀ < i)
    (hspan : i + cs.length ≤ i₀ + 100) (hpos : 0 < cmdq.count)
    (hnext : cmdq.frameEnd = frameAt base i) (hcount : cmdq.count + cs.length < 2 ^ 14) :
    (putFrames Alloc.unlimited frameNumber cmdq (framesOf (frameAt base i) cs)).frames =
      cmdq.frames ++ unpassed frameNumber (framesOf (frameAt base i) cs) := by
  induction cs generalizing i cmdq with
  | nil => exact (List.append_nil _).symm
  | cons c cs ih =>
      rw [List.length_cons] at hspan hcount
      by_cases hc : u16GeWrap (frameAt base i) frameNumber = true
      · have hput := received_putUnpassed c (fun _ => hnext.symm) (by omega) hc
        have hframes : (putUnpassed Alloc.unlimited cmdq c (frameAt base i) frameNumber).frames =
            cmdq.frames ++ [(frameAt base i, c)] := by
          rw [CmdQueue.frames, hput.commands, framesOf_append, CmdQueue.frameBegin, hput.firstFrame,
            if_pos (Or.inl hpos), cmdq.length_commands, ← hnext]
          rfl
        have hone := hput.count
        have hend := hput.next
        rw [List.length_singleton] at hone hend
        have hrest := ih (Nat.lt_succ_of_lt hi) (by omega) (by omega) ((hend (by omega)).symm.trans
          (frameAt_succ base i).symm) (by omega)
        rw [framesOf, ← frameAt_succ, unpassed, List.filter_cons, if_pos hc]
        show (putFrames _ _ (putUnpassed _ _ _ _ _) _).frames = _
        rw [hrest, hframes, List.append_assoc]
        rfl
      · have hall : ∀ e ∈ framesOf (frameAt base i) (c :: cs), u16GeWrap e.1 frameNumber = false := by
          intro e he
          obtain ⟨j, hj, hframe⟩ := mem_framesOf he
          rw [hframe, frameAt_frameAt]
          rw [List.length_cons] at hj
          exact passed_again hi (Nat.le_add_right i j) (by omega) hstart (Bool.not_eq_true _ ▸ hc)
        have hnone : unpassed frameNumber (framesOf (frameAt base i) (c :: cs)) = [] :=
          List.filter_eq_nil_iff.mpr fun e he => by rw [hall e he]; decide
        rw [putFrames_passed hall, hnone, List.append_nil]

/-- **An empty queue gets the commands of the frames that have not passed.** -/
theorem frames_putFrames {base frameNumber : UInt16} {i : Nat} {cs : List Cmd} {cmdq : CmdQueue}
    (hspan : cs.length ≤ 100) (hempty : cmdq.count = 0) :
    (putFrames Alloc.unlimited frameNumber cmdq (framesOf (frameAt base i) cs)).frames =
      unpassed frameNumber (framesOf (frameAt base i) cs) := by
  induction cs generalizing i with
  | nil =>
      have hnone : cmdq.commands = [] := by
        rw [← List.length_eq_zero_iff, cmdq.length_commands, hempty]
      show framesOf _ cmdq.commands = []
      rw [hnone]
      rfl
  | cons c cs ih =>
      rw [List.length_cons] at hspan
      rw [framesOf, ← frameAt_succ, unpassed, List.filter_cons]
      by_cases hc : u16GeWrap (frameAt base i) frameNumber = true
      · have hput := @received_putUnpassed cmdq (frameAt base i) frameNumber c
          (fun h => absurd h (by omega)) (by omega) hc
        have hone := hput.count
        have hend := hput.next
        rw [List.length_singleton] at hone hend
        have hframes : (putUnpassed Alloc.unlimited cmdq c (frameAt base i) frameNumber).frames =
            [(frameAt base i, c)] := by
          have hnone : cmdq.commands = [] := by
            rw [← List.length_eq_zero_iff, cmdq.length_commands, hempty]
          rw [CmdQueue.frames, hput.commands, hnone, CmdQueue.frameBegin, hput.firstFrame,
            if_neg (by simp [hempty])]
          rfl
        have hrest := @frames_putFrames_open base frameNumber i (i + 1) cs _ hc
          (Nat.lt_succ_self i) (by omega) (by omega)
          ((hend (by omega)).symm.trans (frameAt_succ base i).symm) (by omega)
        rw [if_pos hc]
        show (putFrames _ _ (putUnpassed _ _ _ _ _) _).frames = _
        rw [hrest, hframes]
        rfl
      · rw [if_neg hc]
        show (putFrames _ _ (putUnpassed _ _ _ _ _) _).frames = _
        rw [putUnpassed, if_neg hc]
        exact ih (by omega)

/-! ## The round trip -/

/-- What a message with the commands `cs` of the frames from `first` on is like:
the encoder keeps to its length, and the decoder gets the commands back. -/
structure RoundTrip (uninit : Nat → Nat → UInt8) (cmdq : CmdQueue) (frameNumber : UInt16)
    (empty : CmdQueue) (m : Msg) : Prop where
  sent : msgCommands uninit [] cmdq = .ok [m]
  checked : packChunkChecked (uninit 0) cmdq cmdq.frameBegin cmdq.count = .ok m
  length_ge : 6 ≤ m.payload.length
  length_le : m.payload.length ≤ chunkLen cmdq.count
  allocated : chunkLen cmdq.count ≤ 255
  received : ∃ cmdq', msgCommandsUnpackInto Alloc.unlimited empty m.payload frameNumber =
      (cmdq', 0, cmdq.frameBegin, frameAt cmdq.frameBegin (cmdq.count - 1)) ∧
    cmdq'.frames = unpassed frameNumber cmdq.frames

/-- **Round trip.**  A queue of up to a hundred commands, each made by `cmd_make`
from the one before it, is sent in one message, and arrives in an empty queue as
far as its frames have not passed. -/
theorem commands_round_trip (uninit : Nat → Nat → UInt8) {cmdq : CmdQueue}
    (hpos : 0 < cmdq.count) (hcount : cmdq.count ≤ 100)
    (hsteps : List.IsChain CmdStep cmdq.commands) (frameNumber : UInt16) {empty : CmdQueue}
    (hempty : empty.count = 0) : ∃ m, RoundTrip uninit cmdq frameNumber empty m := by
  have hlength := cmdq.length_commands
  obtain ⟨c, rest, hcmds⟩ := List.exists_cons_of_length_pos (show 0 < cmdq.commands.length by omega)
  rw [hcmds, List.length_cons] at hlength
  have hsmall : List.IsChain SmallDelta (c :: rest) := by
    rw [hcmds] at hsteps
    exact hsteps.imp fun _ _ => smallDelta_of_cmdStep
  have hrest : rest.length < 100 := by omega
  obtain ⟨m, hpack, hpayload⟩ := @packChunk_spec (uninit 0) cmdq cmdq.frameBegin c rest []
    (by rw [List.append_nil]; exact hcmds) hrest
  obtain ⟨hfits, hmax⟩ := chunk_fits c hrest
  have hbounds := nextByte_bounds (8 * 5 + 3 + (actionsBits c rest).length)
  have hsize := hpayload.length_eq
  refine ⟨m, ?_, ?_, by omega, by rw [← hlength]; omega, by rw [← hlength]; omega, ?_⟩
  · rw [msgCommands, ← hlength, msgCommandsLoop, if_pos (by omega)]
    dsimp only
    rw [if_neg (by omega), ← hlength, Nat.sub_zero, hpack, ok_bind, msgCommandsLoop_last (by omega)]
    rfl
  · rw [← hlength, packChunkChecked_eq (uninit 0) cmdq.frameBegin hcmds hrest, hpack]
  · refine ⟨putFrames Alloc.unlimited frameNumber empty
      (framesOf cmdq.frameBegin (c :: rest)), ?_, ?_⟩
    · rw [unpack_chunk hpayload hrest hsmall empty frameNumber, ← hlength, Nat.add_sub_cancel]
    · have hframes := @frames_putFrames cmdq.frameBegin frameNumber 0 (c :: rest) empty
        (by rw [List.length_cons]; omega) hempty
      rw [frameAt_zero] at hframes
      rw [hframes, CmdQueue.frames, hcmds]

/-- Three commands on both sides of the wrap, the first of which has passed. -/
theorem commands_round_trip_wrap :
    ∃ m, RoundTrip (fun _ _ => 0xAA)
      (queueOf 65535 [⟨254, 0, 0⟩, ⟨1, 15, 3⟩, ⟨254, 0, 3⟩]) 0 cmdQueueInit m :=
  @commands_round_trip (fun _ _ => 0xAA)
    (queueOf 65535 [⟨254, 0, 0⟩, ⟨1, 15, 3⟩, ⟨254, 0, 3⟩]) (by decide +kernel) (by decide +kernel)
    (List.isChain_cons_cons.mpr ⟨⟨1, 15, 3, by decide⟩,
      List.isChain_cons_cons.mpr ⟨⟨254, 0, 3, by decide⟩, List.isChain_singleton _⟩⟩)
    0 cmdQueueInit rfl

end Clither
