import Clither.Lib.Scan
import Clither.MsgCommands
import Mathlib.Data.List.Chain

/-!
# Which commands arrive

Packing and unpacking one chunk are inverse to each other (`unpack_chunk`):
the bits of the actions and the bytes of the differences are read where they were
written, and small differences fit into their bits.

A chunk is packed from the front of the queue, so that the receiver gets the
first hundred commands again and again (`unpackAll_msgCommands`).
-/

namespace Clither

open Faults (bind_eq_ok)

variable {mem : Alloc}

/-! ## Small differences -/

/-- Angles differ by at most three, on the circle, and speeds by at most 15. -/
def SmallDelta (prev next : Cmd) : Prop :=
  (next.angle - prev.angle + 3).toNat ≤ 6 ∧ next.speed.toNat ≤ prev.speed.toNat + 15 ∧
    prev.speed.toNat ≤ next.speed.toNat + 15

instance (prev next : Cmd) : Decidable (SmallDelta prev next) :=
  inferInstanceAs (Decidable (_ ∧ _ ∧ _))

/-- The circle is that of the numbers modulo 256. -/
theorem toNat_angleStep (next prev : UInt8) :
    (next - prev + 3).toNat = (next.toNat + 259 - prev.toNat) % 256 := by
  have hn := next.toNat_lt
  have hp := prev.toNat_lt
  rw [UInt8.toNat_add, UInt8.toNat_sub]
  show ((2 ^ 8 - prev.toNat + next.toNat) % 2 ^ 8 + 3) % 2 ^ 8 = _
  omega

/-- `cmd_make` keeps the differences small. -/
theorem smallDelta_of_cmdStep {prev next : Cmd} (h : CmdStep prev next) : SmallDelta prev next := by
  obtain ⟨newAngle, newSpeed, action, rfl⟩ := h
  have ha := newAngle.toNat_lt
  have hb := prev.angle.toNat_lt
  have hv := newSpeed.toNat_lt
  have hw := prev.speed.toNat_lt
  refine ⟨?_, ?_⟩
  · rw [toNat_angleStep]
    show ((if angleDelta newAngle prev.angle > 3 then prev.angle + 3
      else if angleDelta newAngle prev.angle < -3 then prev.angle - 3 else newAngle).toNat + 259 -
        prev.angle.toNat) % 256 ≤ 6
    by_cases hfar : angleDelta newAngle prev.angle > 3
    · rw [if_pos hfar, UInt8.toNat_add]
      show ((prev.angle.toNat + 3) % 2 ^ 8 + 259 - prev.angle.toNat) % 256 ≤ 6
      omega
    · by_cases hback : angleDelta newAngle prev.angle < -3
      · rw [if_neg hfar, if_pos hback, UInt8.toNat_sub]
        show ((2 ^ 8 - 3 + prev.angle.toNat) % 2 ^ 8 + 259 - prev.angle.toNat) % 256 ≤ 6
        omega
      · rw [if_neg hfar, if_neg hback]
        unfold angleDelta at hfar hback
        grind
  · simp only [cmdMake]
    split
    · rw [UInt8.toNat_add]
      show (prev.speed.toNat + 15) % 2 ^ 8 ≤ prev.speed.toNat + 15 ∧
        prev.speed.toNat ≤ (prev.speed.toNat + 15) % 2 ^ 8 + 15
      omega
    · split
      · rw [UInt8.toNat_sub]
        show (2 ^ 8 - 15 + prev.speed.toNat) % 2 ^ 8 ≤ prev.speed.toNat + 15 ∧
          prev.speed.toNat ≤ (2 ^ 8 - 15 + prev.speed.toNat) % 2 ^ 8 + 15
        omega
      · omega

/-- The byte holds the two differences side by side. -/
theorem deltaByte_eq {prev next : Cmd} (h : SmallDelta prev next) :
    ∃ da dv : Nat, da < 7 ∧ dv < 31 ∧ deltaByte prev next = UInt8.ofNat (8 * dv + da) ∧
      next.angle.toNat = (prev.angle.toNat + da + 253) % 256 ∧
      next.speed.toNat + 15 = prev.speed.toNat + dv := by
  obtain ⟨hangle, hmore, hless⟩ := h
  have ha := next.angle.toNat_lt
  have hb := prev.angle.toNat_lt
  rw [toNat_angleStep] at hangle
  have hside : ∀ da : Fin 7, ∀ dv : Fin 31, ((UInt8.ofInt (dv.val : Int) <<< 3) &&& 0xF8) |||
      (UInt8.ofInt (da.val : Int) &&& 0x07) = UInt8.ofNat (8 * dv.val + da.val) := by
    decide
  refine ⟨(next.angle.toNat + 259 - prev.angle.toNat) % 256,
    next.speed.toNat + 15 - prev.speed.toNat, by omega, by omega, ?_, by omega, by omega⟩
  rw [← hside ⟨(next.angle.toNat + 259 - prev.angle.toNat) % 256, by omega⟩
    ⟨next.speed.toNat + 15 - prev.speed.toNat, by omega⟩]
  simp only [deltaByte]
  congr 3
  · congr 1
    omega
  · split <;> split <;> omega

/-- **Small differences are applied as they were taken.** -/
theorem applyDelta_deltaByte {prev next : Cmd} (h : SmallDelta prev next) :
    applyDelta prev next.action (deltaByte prev next) = next := by
  obtain ⟨da, dv, hda, hdv, hbyte, hangle, hspeed⟩ := deltaByte_eq h
  have hapart : ∀ da : Fin 7, ∀ dv : Fin 31,
      UInt8.ofNat (8 * dv.val + da.val) &&& 0x07 = UInt8.ofNat da.val ∧
      (UInt8.ofNat (8 * dv.val + da.val) >>> 3) &&& 0x1F = UInt8.ofNat dv.val := by
    decide
  obtain ⟨hlow, hhigh⟩ := hapart ⟨da, hda⟩ ⟨dv, hdv⟩
  have ha := next.angle.toNat_lt
  have hs := next.speed.toNat_lt
  have heq : applyDelta prev next.action (deltaByte prev next) =
      { angle := prev.angle + (UInt8.ofNat da - 3), speed := prev.speed + (UInt8.ofNat dv - 15),
        action := next.action } := by
    rw [applyDelta, hbyte, hlow, hhigh]
  rw [heq]
  have h₁ : prev.angle + (UInt8.ofNat da - 3) = next.angle := by
    apply UInt8.toNat_inj.mp
    rw [UInt8.toNat_add, UInt8.toNat_sub, UInt8.toNat_ofNat', hangle]
    show (prev.angle.toNat + (2 ^ 8 - 3 + da % 2 ^ 8) % 2 ^ 8) % 2 ^ 8 = _
    omega
  have h₂ : prev.speed + (UInt8.ofNat dv - 15) = next.speed := by
    apply UInt8.toNat_inj.mp
    rw [UInt8.toNat_add, UInt8.toNat_sub, UInt8.toNat_ofNat']
    show (prev.speed.toNat + (2 ^ 8 - 15 + dv % 2 ^ 8) % 2 ^ 8) % 2 ^ 8 = _
    omega
  rw [h₁, h₂]

/-! ## The loops that pack -/

/-- The bits of all actions behind that of `prev`. -/
def actionsBits : Cmd → List Cmd → List Bool
  | _, [] => []
  | prev, next :: rest => actionBits prev next ++ actionsBits next rest

/-- The bytes of all differences. -/
def deltaBytes : Cmd → List Cmd → List UInt8
  | _, [] => []
  | prev, next :: rest => deltaByte prev next :: deltaBytes next rest

/-- There is one delta byte for each later command. -/
@[simp] theorem length_deltaBytes (prev : Cmd) (rest : List Cmd) :
    (deltaBytes prev rest).length = rest.length := by
  induction rest generalizing prev with
  | nil => rfl
  | cons next rest ih => rw [deltaBytes, List.length_cons, List.length_cons, ih]

/-- An action takes four bits at most. -/
theorem length_actionsBits_le (prev : Cmd) (rest : List Cmd) :
    (actionsBits prev rest).length ≤ 4 * rest.length := by
  induction rest generalizing prev with
  | nil => exact Nat.le_refl 0
  | cons next rest ih =>
      have hone : (actionBits prev next).length ≤ 4 := by
        unfold actionBits
        split <;> simp
      have hrest := ih next
      rw [actionsBits, List.length_append, List.length_cons]
      omega

/-- Peeking reads the queue at the index. -/
theorem cmdQueuePeek_of_drop {cmdq : CmdQueue} {i : Nat} {c : Cmd} {rest : List Cmd}
    (h : cmdq.commands.drop i = c :: rest) : cmdQueuePeek cmdq i = .ok c := by
  apply rbPeek_of_getElem?
  have hget : (cmdq.commands.drop i)[0]? = cmdq.commands[i]? := by
    rw [List.getElem?_drop, Nat.add_zero]
  rw [h] at hget
  exact hget.symm

/-- Whatever is packed is a `MSG_COMMANDS` that is not resent. -/
theorem msg_of_packChunk {uninit : Nat → UInt8} {cmdq : CmdQueue} {first : UInt16}
    {sendCount : Nat} {m : Msg} (h : packChunk uninit cmdq first sendCount = .ok m) :
    ∃ payload, m = msgAlloc .commands 0 payload := by
  unfold packChunk at h
  obtain ⟨c, -, h⟩ := bind_eq_ok.mp h
  obtain ⟨⟨payload, pos⟩, -, h⟩ := bind_eq_ok.mp h
  obtain ⟨⟨payload, byte⟩, -, h⟩ := bind_eq_ok.mp h
  dsimp only at h
  split at h
  · cases h
    exact ⟨_, rfl⟩
  · cases h

/-- The loop writes the action bits one command after the other. -/
theorem packActions_eq {cmdq : CmdQueue} {i : Nat} {prev : Cmd} {rest more : List Cmd}
    (h : cmdq.commands.drop i = prev :: (rest ++ more)) (payload : List UInt8) (pos : Nat) :
    packActions cmdq rest.length (i + 1) payload pos =
      .ok (Bits.writeAll payload pos (actionsBits prev rest),
        pos + (actionsBits prev rest).length) := by
  induction rest generalizing i prev payload pos with
  | nil => rfl
  | cons next rest ih =>
      have hnext := Scan.drop_succ_of_drop h
      rw [List.length_cons, packActions, Nat.add_sub_cancel, cmdQueuePeek_of_drop h, ok_bind,
        cmdQueuePeek_of_drop hnext, ok_bind, ih hnext, actionsBits, Bits.writeAll_append,
        List.length_append, Nat.add_assoc]

/-- The loop writes the delta bytes one command after the other. -/
theorem packDeltas_eq {cmdq : CmdQueue} {i : Nat} {prev : Cmd} {rest more : List Cmd}
    (h : cmdq.commands.drop i = prev :: (rest ++ more)) (payload : List UInt8) (byte : Nat) :
    packDeltas cmdq rest.length (i + 1) payload byte =
      .ok (Bits.writeBytes payload byte (deltaBytes prev rest), byte + rest.length) := by
  induction rest generalizing i prev payload byte with
  | nil => rfl
  | cons next rest ih =>
      have hnext := Scan.drop_succ_of_drop h
      rw [List.length_cons, packDeltas, Nat.add_sub_cancel, cmdQueuePeek_of_drop h, ok_bind,
        cmdQueuePeek_of_drop hnext, ok_bind, ih hnext, deltaBytes, Bits.writeBytes,
        Nat.add_assoc, Nat.add_comm 1]

/-! ## The loops that unpack -/

/-- The skipped bits are those of the actions. -/
theorem skipActions_eq {payload : List UInt8} {pos : Nat} {prev : Cmd} {rest : List Cmd}
    (hreads : Bits.Reads payload pos (actionsBits prev rest))
    (hlen : pos + (actionsBits prev rest).length ≤ 8 * payload.length) :
    skipActions payload rest.length pos = some (pos + (actionsBits prev rest).length) := by
  induction rest generalizing pos prev with
  | nil => rfl
  | cons next rest ih =>
      rw [actionsBits, Bits.reads_append] at hreads
      rw [actionsBits, List.length_append] at hlen
      obtain ⟨hbits, hrest⟩ := hreads
      by_cases hsame : next.action = prev.action
      · rw [actionBits, if_pos hsame] at hbits hrest hlen
        rw [List.length_singleton] at hrest hlen
        rw [List.length_cons, skipActions, if_neg (by omega), hbits.1, if_neg (by decide),
          ih hrest (by omega), actionsBits, actionBits, if_pos hsame, List.length_append,
          List.length_singleton, Nat.add_assoc]
      · rw [actionBits, if_neg hsame] at hbits hrest hlen
        change Bits.Reads payload (pos + 4) _ at hrest
        change pos + (4 + _) ≤ _ at hlen
        rw [List.length_cons, skipActions, if_neg (by omega), hbits.1, if_pos rfl,
          ih hrest (by omega), actionsBits, actionBits, if_neg hsame, List.length_append,
          Nat.add_assoc]
        rfl

/-- An action is read as it was written. -/
theorem unpackAction_eq {payload : List UInt8} {pos : Nat} {prev next : Cmd}
    (hreads : Bits.Reads payload pos (actionBits prev next)) :
    unpackAction payload pos prev.action =
      (next.action, pos + (actionBits prev next).length) := by
  have hmake : ∀ action : BitVec 3,
      (if decide (action &&& 1#3 ≠ 0#3) = true then 1#3 else 0#3) |||
        (if decide (action &&& 2#3 ≠ 0#3) = true then 2#3 else 0#3) |||
        (if decide (action &&& 4#3 ≠ 0#3) = true then 4#3 else 0#3) = action := by
    decide
  unfold unpackAction
  by_cases hsame : next.action = prev.action
  · rw [actionBits, if_pos hsame] at hreads ⊢
    rw [hreads.1, if_neg (by decide), hsame]
    rfl
  · rw [actionBits, if_neg hsame] at hreads ⊢
    obtain ⟨hflag, h₀, h₁, h₂, -⟩ := hreads
    rw [hflag, if_pos rfl, h₀, h₁, h₂, hmake]
    rfl

/-- Commands with the numbers of their frames, from `first` on. -/
def framesOf : UInt16 → List Cmd → List (UInt16 × Cmd)
  | _, [] => []
  | first, c :: cs => (first, c) :: framesOf (first + 1) cs

/-- Put commands into the queue, except for those of frames that have passed. -/
def putFrames (mem : Alloc) (frameNumber : UInt16) (cmdq : CmdQueue)
    (frames : List (UInt16 × Cmd)) : CmdQueue :=
  frames.foldl (fun cmdq e => putUnpassed mem cmdq e.2 e.1 frameNumber) cmdq

/-- The second loop puts the commands that the bits and bytes stand for. -/
theorem unpackDeltas_eq {payload : List UInt8} {frameNumber first : UInt16}
    {offset i pos : Nat} {prev : Cmd} {rest : List Cmd} {cmdq : CmdQueue}
    (hreads : Bits.Reads payload pos (actionsBits prev rest))
    (hbytes : ∀ j, j < rest.length → payload[offset + i + j]? = (deltaBytes prev rest)[j]?)
    (hsmall : List.IsChain SmallDelta (prev :: rest)) :
    unpackDeltas mem payload frameNumber first offset rest.length i pos prev cmdq =
      putFrames mem frameNumber cmdq (framesOf (frameAt first (i + 1)) rest) := by
  induction rest generalizing i pos prev cmdq with
  | nil => rfl
  | cons next rest ih =>
      rw [actionsBits, Bits.reads_append] at hreads
      have hsmall' := List.isChain_cons_cons.mp hsmall
      have hbyte : payloadAt payload (offset + i) = deltaByte prev next := by
        have hfirst : payload[offset + i]? = some (deltaByte prev next) :=
          hbytes 0 (Nat.succ_pos _)
        rw [payloadAt, List.getD_eq_getElem?_getD, hfirst]
        rfl
      have hbytes' : ∀ j, j < rest.length →
          payload[offset + (i + 1) + j]? = (deltaBytes next rest)[j]? := by
        intro j hj
        have hbehind := hbytes (j + 1) (Nat.succ_lt_succ hj)
        rw [deltaBytes, List.getElem?_cons_succ] at hbehind
        rw [← hbehind]
        congr 1
        omega
      simp only [List.length_cons, unpackDeltas, unpackAction_eq hreads.1, hbyte,
        applyDelta_deltaByte hsmall'.1]
      rw [ih hreads.2 hbytes' hsmall'.2, frameAt_succ first (i + 1)]
      rfl

/-- Commands of the frames from `first` on have been put into the queue. -/
structure Received (cmdq : CmdQueue) (first : UInt16) (cs : List Cmd) (cmdq' : CmdQueue) :
    Prop where
  commands : cmdq'.commands = cmdq.commands ++ cs
  firstFrame : cmdq'.firstFrame = if 0 < cmdq.count ∨ cs = [] then cmdq.firstFrame else first
  next : 0 < cmdq'.count → frameAt first cs.length = cmdq'.frameEnd

/-- As many commands are queued as were received. -/
theorem Received.count {cmdq cmdq' : CmdQueue} {first : UInt16} {cs : List Cmd}
    (h : Received cmdq first cs cmdq') : cmdq'.count = cmdq.count + cs.length := by
  rw [← CmdQueue.length_commands, h.commands, List.length_append, CmdQueue.length_commands]

/-- What was received in two parts was received. -/
theorem Received.trans {q₀ q₁ q₂ : CmdQueue} {first : UInt16} {xs ys : List Cmd}
    (h₁ : Received q₀ first xs q₁) (h₂ : Received q₁ (frameAt first xs.length) ys q₂)
    (hxs : xs ≠ []) : Received q₀ first (xs ++ ys) q₂ where
  commands := by rw [h₂.commands, h₁.commands, List.append_assoc]
  firstFrame := by
    have hpos : 0 < q₁.count := by
      have := List.length_pos_of_ne_nil hxs
      rw [h₁.count]
      omega
    rw [h₂.firstFrame, if_pos (Or.inl hpos), h₁.firstFrame]
    simp [hxs]
  next := by
    intro hpos
    rw [List.length_append, ← frameAt_frameAt]
    exact h₂.next hpos

/-- A command of the next frame, if that has not passed. -/
theorem received_putUnpassed {cmdq : CmdQueue} {frame frameNumber : UInt16} (command : Cmd)
    (hframe : 0 < cmdq.count → frame = cmdq.frameEnd) (hcount : cmdq.count + 1 < 2 ^ 14)
    (hunpassed : u16GeWrap frame frameNumber = true) :
    Received cmdq frame [command] (putUnpassed Alloc.unlimited cmdq command frame frameNumber) := by
  have hspace : rbHasSpace Alloc.unlimited cmdq.rb = true := by
    rw [rbHasSpace_unlimited]
    exact decide_eq_true hcount
  obtain ⟨hcommands, -, hfirst⟩ := cmdQueuePut_next command hframe hspace
  rw [putUnpassed, if_pos hunpassed]
  refine ⟨hcommands, by simpa using hfirst, fun _ => ?_⟩
  exact (cmdQueuePut_frameEnd command hframe hspace).symm

/-- Commands of consecutive frames that have not passed are all appended. -/
theorem received_putFrames {frameNumber first : UInt16} {cs : List Cmd} {cmdq : CmdQueue}
    (hunpassed : ∀ j, j < cs.length → u16GeWrap (frameAt first j) frameNumber = true)
    (hnext : 0 < cmdq.count → first = cmdq.frameEnd) (hcount : cmdq.count + cs.length < 2 ^ 14) :
    Received cmdq first cs
      (putFrames Alloc.unlimited frameNumber cmdq (framesOf first cs)) := by
  induction cs generalizing first cmdq with
  | nil =>
      refine ⟨(List.append_nil _).symm, by simp [putFrames, framesOf], ?_⟩
      rw [List.length_nil, frameAt_zero]
      exact hnext
  | cons c cs ih =>
      rw [List.length_cons] at hcount hunpassed
      have hput := received_putUnpassed c hnext (by omega)
        (by simpa using hunpassed 0 (Nat.succ_pos _))
      have hone := hput.count
      have hnext' := hput.next
      rw [List.length_singleton] at hone hnext'
      have hunpassed' : ∀ j, j < cs.length → u16GeWrap (frameAt (first + 1) j) frameNumber = true := by
        intro j hj
        have hbehind := hunpassed (j + 1) (Nat.succ_lt_succ hj)
        rw [Nat.add_comm, ← frameAt_frameAt] at hbehind
        exact hbehind
      exact hput.trans (ih hunpassed' hnext' (by omega)) (List.cons_ne_nil _ _)

/-! ## One chunk -/

/-- The payload of the commands `c :: rest` of the frames from `first` on. -/
structure ChunkPayload (payload : List UInt8) (first : UInt16) (c : Cmd) (rest : List Cmd) :
    Prop where
  frame : payload16 payload 0 = first
  count : payloadAt payload 2 = UInt8.ofNat rest.length
  angle : payloadAt payload 3 = c.angle
  speed : payloadAt payload 4 = c.speed
  action : BitVec.ofNat 3 (payloadAt payload 5 &&& 0x07).toNat = c.action
  actions : Bits.Reads payload (8 * 5 + 3) (actionsBits c rest)
  deltas : ∀ j, j < rest.length →
    payload[nextByte (8 * 5 + 3 + (actionsBits c rest).length) + j]? = (deltaBytes c rest)[j]?
  length_eq : payload.length =
    nextByte (8 * 5 + 3 + (actionsBits c rest).length) + rest.length

/-- A byte among those taken is the byte of the list. -/
theorem getD_take {xs : List UInt8} {n i : Nat} (hi : i < n) :
    (xs.take n).getD i 0 = xs.getD i 0 := by
  rw [List.getD_eq_getElem?_getD, List.getElem?_take_of_lt hi, List.getD_eq_getElem?_getD]

/-- The three bits of the first action share their byte with the other actions. -/
theorem and_seven_eq {v w : UInt8} (h : ∀ i, i < 3 → Bits.getBit v i = Bits.getBit w i) :
    v &&& 0x07 = w &&& 0x07 := by
  apply Bits.eq_of_getBit_eq
  intro i hi
  rw [Bits.getBit_eq_testBit _ hi, Bits.getBit_eq_testBit _ hi, UInt8.toNat_and, UInt8.toNat_and,
    Nat.testBit_and, Nat.testBit_and]
  by_cases hlow : i < 3
  · rw [← Bits.getBit_eq_testBit v hi, ← Bits.getBit_eq_testBit w hi, h i hlow]
  · have hseven : Nat.testBit (7 : UInt8).toNat i = false :=
      Nat.testBit_lt_two_pow (lt_of_lt_of_le (show 7 < 2 ^ 3 by decide)
        (Nat.pow_le_pow_right (by decide) (by omega)))
    rw [hseven, Bool.and_false, Bool.and_false]

/-- The length that a message with `sendCount` commands is allocated with. -/
def chunkLen (sendCount : Nat) : Nat :=
  2 + 3 + (12 * sendCount + 8) / 8

/-- The actions and differences fit into that length. -/
theorem chunk_fits (c : Cmd) {rest : List Cmd} (hlen : rest.length < 100) :
    nextByte (8 * 5 + 3 + (actionsBits c rest).length) + rest.length ≤ chunkLen (rest.length + 1) ∧
      chunkLen (rest.length + 1) < 157 := by
  have hbits := length_actionsBits_le c rest
  have hbounds := nextByte_bounds (8 * 5 + 3 + (actionsBits c rest).length)
  unfold chunkLen
  omega

/-- The bytes before the first difference are those of header and actions. -/
theorem packChunk_spec (uninit : Nat → UInt8) {cmdq : CmdQueue} (first : UInt16) {c : Cmd}
    {rest more : List Cmd} (hcmds : cmdq.commands = c :: (rest ++ more)) (hlen : rest.length < 100) :
    ∃ m, packChunk uninit cmdq first (rest.length + 1) = .ok m ∧
      ChunkPayload m.payload first c rest := by
  have hdrop : cmdq.commands.drop 0 = c :: (rest ++ more) := hcmds
  have hbits := length_actionsBits_le c rest
  have hbounds := nextByte_bounds (8 * 5 + 3 + (actionsBits c rest).length)
  generalize hoffset : nextByte (8 * 5 + 3 + (actionsBits c rest).length) = offset at hbounds
  let header := bytes16 first ++
    [UInt8.ofNat rest.length, c.angle, c.speed, UInt8.ofNat c.action.toNat]
  let base := Bits.writeBytes ((List.range 255).map uninit) 0 header
  let packed := Bits.writeAll base (8 * 5 + 3) (actionsBits c rest)
  let whole := Bits.writeBytes packed offset (deltaBytes c rest)
  let payload := whole.take (offset + rest.length)
  have hbase : base.length = 255 := by simp [base]
  have hpacked : packed.length = 255 := by simp [packed, hbase]
  have hwhole : whole.length = 255 := by simp [whole, hpacked]
  have hsize : payload.length = offset + rest.length := by
    rw [List.length_take, hwhole]
    omega
  have hchunk : packChunk uninit cmdq first (rest.length + 1) = .ok (msgAlloc .commands 0 payload) := by
    simp only [packChunk, cmdQueuePeek_of_drop hdrop, ok_bind, Nat.add_sub_cancel,
      packActions_eq hdrop, packDeltas_eq hdrop, hoffset]
    have hfits : offset + rest.length ≤ (2 + 3 + (12 * (rest.length + 1) + 8) / 8) % 256 := by
      obtain ⟨hchunk, hmax⟩ := chunk_fits c hlen
      rw [hoffset] at hchunk
      unfold chunkLen at hchunk hmax
      rw [Nat.mod_eq_of_lt (by omega)]
      exact hchunk
    rw [if_pos hfits]
    rfl
  have hpayload : (msgAlloc .commands 0 payload).payload = payload := payload_msgAlloc (by omega)
  have hbefore : ∀ i, i < offset → payload.getD i 0 = packed.getD i 0 := by
    intro i hi
    rw [getD_take (by omega), Bits.getD_writeBytes_of_lt _ _ hi]
  have hbaseD : ∀ i, i < 6 → base.getD i 0 = header.getD i 0 := by
    intro i hi
    have hget := @Bits.getElem?_writeBytes ((List.range 255).map uninit) 0 header
      (by simp [header, bytes16]) i (by simpa [header, bytes16] using hi)
    rw [Nat.zero_add] at hget
    rw [List.getD_eq_getElem?_getD, hget, List.getD_eq_getElem?_getD]
  have hheader : ∀ i, i < 5 → payloadAt payload i = header.getD i 0 := by
    intro i hi
    rw [payloadAt, hbefore i (by omega), Bits.getD_writeAll _ _ (by omega), hbaseD i (by omega)]
  have haction : payloadAt payload 5 &&& 0x07 = UInt8.ofNat c.action.toNat &&& 0x07 := by
    apply and_seven_eq
    intro i hi
    have hshared := @Bits.bitAt_writeAll base (8 * 5 + 3) (actionsBits c rest) (by omega) (40 + i)
      (by omega)
    rw [Bits.bitAt, Bits.bitAt, show (40 + i) / 8 = 5 by omega, show (40 + i) % 8 = i by omega,
      hbaseD 5 (by omega)] at hshared
    rw [payloadAt, hbefore 5 (by omega)]
    exact hshared
  refine ⟨_, hchunk, ?_⟩
  rw [hpayload]
  refine ⟨?_, hheader 2 (by omega), hheader 3 (by omega), hheader 4 (by omega), ?_, ?_, ?_, ?_⟩
  · rw [payload16, hheader 0 (by omega), hheader 1 (by omega)]
    exact read16_bytes16 first
  · have hfin : ∀ action : BitVec 3,
        BitVec.ofNat 3 (UInt8.ofNat action.toNat &&& 0x07).toNat = action := by
      decide
    rw [haction, hfin]
  · have hreads : Bits.Reads packed (8 * 5 + 3) (actionsBits c rest) :=
      Bits.reads_writeAll (by omega)
    exact hreads.congr (fun i hi => hbefore i (by omega))
  · intro j hj
    rw [hoffset, List.getElem?_take_of_lt (by omega), Bits.getElem?_writeBytes (by simp; omega)
      (by simpa using hj)]
  · rw [hoffset, hsize]

/-- **A chunk is unpacked as it was packed.** -/
theorem unpack_chunk {payload : List UInt8} {first : UInt16} {c : Cmd} {rest : List Cmd}
    (h : ChunkPayload payload first c rest) (hlen : rest.length < 100)
    (hsmall : List.IsChain SmallDelta (c :: rest)) (cmdq : CmdQueue) (frameNumber : UInt16) :
    msgCommandsUnpackInto mem cmdq payload frameNumber =
      (putFrames mem frameNumber cmdq (framesOf first (c :: rest)), 0, first,
        frameAt first rest.length) := by
  have hnumber : (payloadAt payload 2).toNat = rest.length := by
    rw [h.count, UInt8.toNat_ofNat']
    exact Nat.mod_eq_of_lt (by show _ < 2 ^ 8; omega)
  unfold msgCommandsUnpackInto
  simp only [h.frame, hnumber, h.angle, h.speed, h.action]
  by_cases hsingle : rest.length = 0
  · obtain rfl := List.length_eq_zero_iff.mp hsingle
    exact if_pos rfl
  · have hbounds := nextByte_bounds (8 * 5 + 3 + (actionsBits c rest).length)
    have hskip := skipActions_eq h.actions (by rw [h.length_eq]; omega)
    rw [if_neg hsingle, hskip]
    simp only [h.length_eq]
    rw [if_neg (by omega)]
    have hdeltas := @unpackDeltas_eq mem payload frameNumber first
      (nextByte (8 * 5 + 3 + (actionsBits c rest).length)) 0 (8 * 5 + 3) c rest
      (putUnpassed mem cmdq c first frameNumber) h.actions (fun j hj => h.deltas j hj) hsmall
    exact congrArg (fun q => (q, (0 : Int), first, frameAt first rest.length)) hdeltas

/-- **One chunk arrives as it was sent.** -/
theorem received_chunk {payload : List UInt8} {first frameNumber : UInt16} {c : Cmd}
    {rest : List Cmd} {cmdq : CmdQueue} (h : ChunkPayload payload first c rest)
    (hlen : rest.length < 100) (hsmall : List.IsChain SmallDelta (c :: rest))
    (hunpassed : ∀ j, j ≤ rest.length → u16GeWrap (frameAt first j) frameNumber = true)
    (hnext : 0 < cmdq.count → first = cmdq.frameEnd)
    (hcount : cmdq.count + rest.length + 1 < 2 ^ 14) :
    ∃ cmdq', msgCommandsUnpackInto Alloc.unlimited cmdq payload frameNumber =
        (cmdq', 0, first, frameAt first rest.length) ∧ Received cmdq first (c :: rest) cmdq' :=
  ⟨_, unpack_chunk h hlen hsmall cmdq frameNumber,
    received_putFrames (fun j hj => hunpassed j (Nat.lt_succ_iff.mp hj)) hnext hcount⟩

/-! ## All chunks -/

/-- Unpack messages in order, each of them successfully. -/
def unpackAll (mem : Alloc) (frameNumber : UInt16) : CmdQueue → List Msg → Option CmdQueue
  | cmdq, [] => some cmdq
  | cmdq, m :: msgs =>
      let (cmdq', status, _, _) := msgCommandsUnpackInto mem cmdq m.payload frameNumber
      if status = 0 then unpackAll mem frameNumber cmdq' msgs else none

/-- The first frame and the number of frames that a message is for. -/
def frameRange (m : Msg) : UInt16 × Nat :=
  (payload16 m.payload 0, (payloadAt m.payload 2).toNat + 1)

/-- Consecutive ranges of at most a hundred frames, `n` frames from `first` on. -/
def Consecutive : UInt16 → Nat → List (UInt16 × Nat) → Prop
  | _, n, [] => n = 0
  | first, n, (f, len) :: ranges =>
      f = first ∧ len ≤ 100 ∧ len ≤ n ∧ Consecutive (frameAt first len) (n - len) ranges

/-- The size of the chunk at `sendIdx` of a queue of `count` commands. -/
def chunkSize (count sendIdx : Nat) : Nat :=
  if count - sendIdx > 100 then 100 else count - sendIdx

/-- The commands in the chunks from `sendIdx` on. -/
def sentCommands (cs : List Cmd) : Nat → Nat → List Cmd
  | 0, _ => []
  | turns + 1, sendIdx =>
      if sendIdx < cs.length then
        cs.take (chunkSize cs.length sendIdx) ++ sentCommands cs turns (sendIdx + 100)
      else []

/-- A chunk takes 100 commands, or what is left. -/
theorem chunkSize_cases (count sendIdx : Nat) :
    (100 < count - sendIdx ∧ chunkSize count sendIdx = 100) ∨
      (count - sendIdx ≤ 100 ∧ chunkSize count sendIdx = count - sendIdx) := by
  unfold chunkSize
  by_cases h : count - sendIdx > 100
  · exact Or.inl ⟨h, if_pos h⟩
  · exact Or.inr ⟨by omega, if_neg h⟩

/-- The chunks hold the first hundred commands again and again. -/
theorem getElem?_sentCommands {cs : List Cmd} {turns sendIdx : Nat}
    (hturns : cs.length ≤ sendIdx + turns) (i : Nat) :
    (sentCommands cs turns sendIdx)[i]? =
      if sendIdx + i < cs.length then cs[i % 100]? else none := by
  induction turns generalizing sendIdx i with
  | zero =>
      rw [if_neg (by omega)]
      rfl
  | succ turns ih =>
      rw [sentCommands]
      by_cases hmore : sendIdx < cs.length
      · rw [if_pos hmore]
        have hrest := @ih (sendIdx + 100) (by omega) (i - 100)
        rcases chunkSize_cases cs.length sendIdx with ⟨hbig, hsize⟩ | ⟨hlast, hsize⟩
        · have hlen : (cs.take 100).length = 100 := by
            rw [List.length_take]
            omega
          rw [hsize]
          by_cases hin : i < 100
          · rw [List.getElem?_append_left (by omega), List.getElem?_take_of_lt hin,
              Nat.mod_eq_of_lt hin, if_pos (by omega)]
          · rw [List.getElem?_append_right (by omega), hlen, hrest,
              show (i - 100) % 100 = i % 100 by omega,
              show sendIdx + 100 + (i - 100) = sendIdx + i by omega]
        · have hlen : (cs.take (cs.length - sendIdx)).length = cs.length - sendIdx := by
            rw [List.length_take]
            omega
          rw [hsize]
          by_cases hin : i < cs.length - sendIdx
          · rw [List.getElem?_append_left (by omega), List.getElem?_take_of_lt hin,
              Nat.mod_eq_of_lt (by omega), if_pos (by omega)]
          · rw [List.getElem?_append_right (by omega), hlen, ih (by omega), if_neg (by omega),
              if_neg (by omega)]
      · rw [if_neg hmore, if_neg (by omega)]
        rfl

/-- In the last chunk there is nothing behind it. -/
theorem sentCommands_last {cs : List Cmd} {turns sendIdx : Nat} (h : cs.length ≤ sendIdx) :
    sentCommands cs turns sendIdx = [] := by
  cases turns with
  | zero => rfl
  | succ turns => rw [sentCommands, if_neg (by omega)]

/-- With no command left the chain ends. -/
theorem msgCommandsLoop_last {uninit : Nat → Nat → UInt8} {cmdq : CmdQueue} {turns sendIdx : Nat}
    (h : cmdq.count ≤ sendIdx) (first : UInt16) (msgs : List Msg) :
    msgCommandsLoop uninit cmdq turns sendIdx first msgs = .ok msgs := by
  cases turns with
  | zero => rfl
  | succ turns => rw [msgCommandsLoop, if_neg (by omega)]

/-- The first message is unpacked before the others. -/
theorem unpackAll_cons {mem : Alloc} {frameNumber first last : UInt16} {cmdq cmdq' : CmdQueue}
    {m : Msg} (msgs : List Msg)
    (h : msgCommandsUnpackInto mem cmdq m.payload frameNumber = (cmdq', 0, first, last)) :
    unpackAll mem frameNumber cmdq (m :: msgs) = unpackAll mem frameNumber cmdq' msgs := by
  rw [unpackAll, h]
  rfl

/-- The commands of a chunk. -/
theorem exists_chunk {cmdq : CmdQueue} {sendIdx : Nat} (hmore : sendIdx < cmdq.count) :
    ∃ c rest more, cmdq.commands = c :: (rest ++ more) ∧
      rest.length + 1 = chunkSize cmdq.count sendIdx ∧
      cmdq.commands.take (chunkSize cmdq.count sendIdx) = c :: rest := by
  have hlength := cmdq.length_commands
  have hsize : 0 < chunkSize cmdq.count sendIdx ∧ chunkSize cmdq.count sendIdx ≤ cmdq.count := by
    rcases chunkSize_cases cmdq.count sendIdx with ⟨hbig, hsize⟩ | ⟨hlast, hsize⟩ <;> omega
  obtain ⟨size, hsucc⟩ : ∃ size, chunkSize cmdq.count sendIdx = size + 1 :=
    ⟨chunkSize cmdq.count sendIdx - 1, by omega⟩
  obtain ⟨c, tail, hcmds⟩ := List.exists_cons_of_length_pos (show 0 < cmdq.commands.length by omega)
  rw [hcmds, List.length_cons] at hlength
  refine ⟨c, tail.take size, tail.drop size, by rw [hcmds, List.take_append_drop], ?_, ?_⟩
  · rw [List.length_take]
    omega
  · rw [hcmds, hsucc, List.take_succ_cons]

/-- **What the loop sends and what arrives of it.**  The frames are `j` frames and
more behind the one that the receiver is at. -/
theorem msgCommandsLoop_spec (uninit : Nat → Nat → UInt8) {cmdq : CmdQueue}
    (hsmall : List.IsChain SmallDelta cmdq.commands) {turns sendIdx : Nat}
    (hturns : cmdq.count ≤ sendIdx + turns) (frameNumber : UInt16) {j : Nat}
    (hj : j + (cmdq.count - sendIdx) < 2 ^ 15) (msgs : List Msg) {q : CmdQueue}
    (hnext : 0 < q.count → frameAt frameNumber j = q.frameEnd)
    (hcount : q.count + (cmdq.count - sendIdx) < 2 ^ 14) :
    ∃ sent q', msgCommandsLoop uninit cmdq turns sendIdx (frameAt frameNumber j) msgs =
        .ok (msgs ++ sent) ∧
      Consecutive (frameAt frameNumber j) (cmdq.count - sendIdx) (sent.map frameRange) ∧
      unpackAll Alloc.unlimited frameNumber q sent = some q' ∧
      Received q (frameAt frameNumber j) (sentCommands cmdq.commands turns sendIdx) q' := by
  have hlength := cmdq.length_commands
  have hnone : ∀ {turns sendIdx : Nat} {j : Nat} (msgs : List Msg) {q : CmdQueue},
      cmdq.count ≤ sendIdx → (0 < q.count → frameAt frameNumber j = q.frameEnd) →
      ∃ sent q', msgCommandsLoop uninit cmdq turns sendIdx (frameAt frameNumber j) msgs =
          .ok (msgs ++ sent) ∧
        Consecutive (frameAt frameNumber j) (cmdq.count - sendIdx) (sent.map frameRange) ∧
        unpackAll Alloc.unlimited frameNumber q sent = some q' ∧
        Received q (frameAt frameNumber j) (sentCommands cmdq.commands turns sendIdx) q' := by
    intro turns sendIdx j msgs q hdone hnext
    rw [msgCommandsLoop_last hdone, sentCommands_last (by omega)]
    refine ⟨[], q, by rw [List.append_nil], Nat.sub_eq_zero_of_le hdone, rfl,
      (List.append_nil _).symm, by simp, ?_⟩
    rw [List.length_nil, frameAt_zero]
    exact hnext
  induction turns generalizing sendIdx j msgs q with
  | zero => exact hnone msgs (by omega) hnext
  | succ turns ih =>
      by_cases hmore : sendIdx < cmdq.count
      · obtain ⟨c, rest, more, hcmds, hlen, htake⟩ := exists_chunk hmore
        have hsize : chunkSize cmdq.count sendIdx ≤ 100 ∧
            chunkSize cmdq.count sendIdx ≤ cmdq.count - sendIdx := by
          rcases chunkSize_cases cmdq.count sendIdx with ⟨hbig, hsize⟩ | ⟨hlast, hsize⟩ <;> omega
        have hchain : List.IsChain SmallDelta (c :: rest) := by
          rw [← htake]
          exact hsmall.take _
        obtain ⟨m, hpack, hpayload⟩ := packChunk_spec (uninit sendIdx) (frameAt frameNumber j) hcmds
          (by omega)
        have hunpassed : ∀ i, i ≤ rest.length →
            u16GeWrap (frameAt (frameAt frameNumber j) i) frameNumber = true := by
          intro i hi
          have hge := u16GeWrap_add (b := frameNumber) (i := j + i) (j := 0) (by omega) (by omega)
          rw [frameAt_zero] at hge
          rw [frameAt_frameAt, hge]
          exact decide_eq_true (Nat.zero_le _)
        obtain ⟨q₁, hunpack, hreceived⟩ := received_chunk hpayload (by omega) hchain hunpassed hnext
          (by omega)
        have hrange : frameRange m = (frameAt frameNumber j, chunkSize cmdq.count sendIdx) := by
          rw [frameRange, hpayload.frame, hpayload.count, UInt8.toNat_ofNat',
            Nat.mod_eq_of_lt (by show _ < 2 ^ 8; omega), hlen]
        have hcount₁ := hreceived.count
        have hnext₁ := hreceived.next
        rw [List.length_cons, hlen] at hcount₁ hnext₁
        rw [frameAt_frameAt] at hnext₁
        have hloop : msgCommandsLoop uninit cmdq (turns + 1) sendIdx (frameAt frameNumber j) msgs =
            msgCommandsLoop uninit cmdq turns (sendIdx + 100) (frameAt frameNumber (j + 100))
              (msgs ++ [m]) := by
          rw [msgCommandsLoop, if_pos hmore]
          show packChunk _ _ _ (chunkSize cmdq.count sendIdx) >>= _ = _
          rw [← hlen, hpack, ok_bind, ← frameAt_frameAt]
          rfl
        rw [hloop, sentCommands, if_pos (by omega), hlength, htake]
        rcases chunkSize_cases cmdq.count sendIdx with ⟨hbig, hfull⟩ | ⟨hlast, hfull⟩
        · rw [hfull] at hcount₁ hnext₁ hrange
          obtain ⟨sent, q', hok, hranges, hall, hrest⟩ := @ih (sendIdx + 100) (by omega) (j + 100)
            (by omega) (msgs ++ [m]) q₁ hnext₁ (by omega)
          refine ⟨m :: sent, q', by rw [hok, List.append_assoc]; rfl, ?_, ?_, ?_⟩
          · rw [List.map_cons, hrange]
            refine ⟨rfl, by omega, by omega, ?_⟩
            rw [frameAt_frameAt, Nat.sub_sub]
            exact hranges
          · rw [unpackAll_cons sent hunpack]
            exact hall
          · refine hreceived.trans ?_ (List.cons_ne_nil _ _)
            rw [List.length_cons, hlen, hfull, frameAt_frameAt]
            exact hrest
        · rw [msgCommandsLoop_last (by omega), sentCommands_last (by omega), List.append_nil]
          refine ⟨[m], q₁, rfl, ?_, ?_, hreceived⟩
          · rw [List.map_singleton, hrange]
            exact ⟨rfl, by omega, by omega, by rw [hfull]; exact Nat.sub_self _⟩
          · rw [unpackAll_cons [] hunpack]
            rfl
      · exact hnone msgs (by omega) hnext

/-! ## Which queues arrive -/

/-- The messages cover the frames of the queue, and unpacking them in order into
an empty queue yields the queue again. -/
structure Delivered (cmdq : CmdQueue) (frameNumber : UInt16) (sent : List Msg) : Prop where
  ranges : Consecutive cmdq.frameBegin cmdq.count (sent.map frameRange)
  arrives : ∃ q, unpackAll Alloc.unlimited frameNumber cmdQueueInit sent = some q ∧
    q.frameBegin = cmdq.frameBegin ∧ q.commands = cmdq.commands

/-- What is sent, and what arrives of it in an empty queue. -/
theorem msgCommands_spec (uninit : Nat → Nat → UInt8) {cmdq : CmdQueue} (msgs : List Msg)
    {frameNumber : UInt16} {j : Nat} (hsmall : List.IsChain SmallDelta cmdq.commands)
    (hbegin : cmdq.frameBegin = frameAt frameNumber j) (hj : j + cmdq.count < 2 ^ 15) :
    ∃ sent q, msgCommands uninit msgs cmdq = .ok (msgs ++ sent) ∧
      Consecutive cmdq.frameBegin cmdq.count (sent.map frameRange) ∧
      unpackAll Alloc.unlimited frameNumber cmdQueueInit sent = some q ∧
      (q.commands ≠ [] → q.frameBegin = cmdq.frameBegin) ∧
      ∀ i, q.commands[i]? = if i < cmdq.count then cmdq.commands[i % 100]? else none := by
  have hlength := cmdq.length_commands
  have hempty : cmdQueueInit.count = 0 := rfl
  have hshort := cmdq.count_lt
  obtain ⟨sent, q, hloop, hranges, hall, hreceived⟩ := msgCommandsLoop_spec uninit hsmall
    (show cmdq.count ≤ 0 + cmdq.count by omega) frameNumber (show j + (cmdq.count - 0) < 2 ^ 15 by omega)
    msgs (fun h => absurd h (by rw [hempty]; decide)) (by omega)
  rw [← hbegin] at hloop hranges
  have hcommands : q.commands = sentCommands cmdq.commands cmdq.count 0 := hreceived.commands
  refine ⟨sent, q, hloop, hranges, hall, ?_, ?_⟩
  · intro hne
    have hfirst := hreceived.firstFrame
    rw [hcommands] at hne
    rw [if_neg (by rw [hempty]; simp [hne])] at hfirst
    exact hfirst.trans hbegin.symm
  · intro i
    rw [hcommands, getElem?_sentCommands (by omega), hlength, Nat.zero_add]

/-- A queue that is delivered consists of its first hundred commands. -/
theorem Delivered.repeats {uninit : Nat → Nat → UInt8} {cmdq : CmdQueue} {msgs : List Msg}
    {frameNumber : UInt16} {j : Nat} (hsmall : List.IsChain SmallDelta cmdq.commands)
    (hbegin : cmdq.frameBegin = frameAt frameNumber j) (hj : j + cmdq.count < 2 ^ 15)
    {sent : List Msg} (hok : msgCommands uninit msgs cmdq = .ok (msgs ++ sent))
    (h : Delivered cmdq frameNumber sent) {i : Nat} (hi : i < cmdq.count) :
    cmdq.commands[i]? = cmdq.commands[i % 100]? := by
  obtain ⟨sent', q, hok', -, hall, -, hget⟩ := msgCommands_spec uninit msgs hsmall hbegin hj
  obtain rfl := List.append_cancel_left (Except.ok.inj (hok.symm.trans hok'))
  obtain ⟨q', hall', -, hsame⟩ := h.arrives
  obtain rfl := Option.some.inj (hall.symm.trans hall')
  rw [← hsame, hget i, if_pos hi, hsame]

/-- **Exactly which queues arrive.**  The receiver is at most `2 ^ 15` frames
behind the end of the queue.  The messages deliver the queue if and only if every
command is the same as the one at its place among the first hundred. -/
theorem commands_arrive_iff (uninit : Nat → Nat → UInt8) (cmdq : CmdQueue) (msgs : List Msg)
    (frameNumber : UInt16) (j : Nat) (hpos : 0 < cmdq.count)
    (hsmall : List.IsChain SmallDelta cmdq.commands)
    (hbegin : cmdq.frameBegin = frameAt frameNumber j) (hj : j + cmdq.count < 2 ^ 15) :
    (∃ sent, msgCommands uninit msgs cmdq = .ok (msgs ++ sent) ∧ Delivered cmdq frameNumber sent) ↔
      ∀ i, i < cmdq.count → cmdq.commands[i]? = cmdq.commands[i % 100]? := by
  constructor
  · intro ⟨sent, hok, hdelivered⟩ i hi
    exact hdelivered.repeats hsmall hbegin hj hok hi
  · intro hrepeats
    obtain ⟨sent, q, hok, hranges, hall, hfirst, hget⟩ :=
      msgCommands_spec uninit msgs hsmall hbegin hj
    have hlength := cmdq.length_commands
    have hsame : q.commands = cmdq.commands := by
      apply List.ext_getElem?
      intro i
      rw [hget i]
      by_cases hi : i < cmdq.count
      · rw [if_pos hi, hrepeats i hi]
      · rw [if_neg hi, List.getElem?_eq_none (by omega)]
    have hne : q.commands ≠ [] := by
      rw [hsame, ← List.length_pos_iff, hlength]
      exact hpos
    exact ⟨sent, hok, hranges, q, hall, hfirst hne, hsame⟩

/-- The queue of the commands of a list. -/
def queueOf (firstFrame : UInt16) (cs : List Cmd) : CmdQueue where
  rb := rbOfList cs
  lastCommandRead := cmdDefault
  firstFrame := firstFrame

/-- Three commands on both sides of the wrap of frame number and angle. -/
theorem commands_arrive_short :
    ∃ sent, msgCommands (fun _ _ => 0xAA) []
        (queueOf 65535 [⟨254, 0, 0⟩, ⟨1, 15, 3⟩, ⟨254, 0, 3⟩]) = .ok ([] ++ sent) ∧
      Delivered (queueOf 65535 [⟨254, 0, 0⟩, ⟨1, 15, 3⟩, ⟨254, 0, 3⟩]) 65530 sent :=
  (commands_arrive_iff (fun _ _ => 0xAA) (queueOf 65535 [⟨254, 0, 0⟩, ⟨1, 15, 3⟩, ⟨254, 0, 3⟩]) []
    65530 5 (by decide +kernel) (by decide +kernel) (by decide +kernel) (by decide +kernel)).mpr
    (by decide +kernel)

/-- A hundred default commands and one that turns. -/
def longQueue : CmdQueue :=
  queueOf 7 (List.replicate 100 cmdDefault ++ [⟨129, 0, 0⟩])

/-- The 101st command differs from the first one and does not arrive. -/
theorem commands_cut_off :
    0 < longQueue.count ∧ List.IsChain SmallDelta longQueue.commands ∧
    ¬ ∃ sent, msgCommands (fun _ _ => 0) [] longQueue = .ok ([] ++ sent) ∧
      Delivered longQueue 7 sent := by
  have hsmall : List.IsChain SmallDelta longQueue.commands := by decide +kernel
  refine ⟨by decide +kernel, hsmall, ?_⟩
  intro ⟨sent, hok, hdelivered⟩
  have hlast : longQueue.commands[100]? = longQueue.commands[100 % 100]? :=
    hdelivered.repeats hsmall (frameAt_zero 7).symm (by decide +kernel) hok (by decide +kernel)
  exact absurd hlast (by decide +kernel)

end Clither
