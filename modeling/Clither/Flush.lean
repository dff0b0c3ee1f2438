import Clither.Framing

/-!
# Packing a datagram

Once per network update a side goes over its pending messages twice: unreliable
messages are copied into the packet and erased, and reliable messages that are
due are copied and stay.  A message that does not fit is left for the next time.

`fateOf` says what becomes of a message, given the bytes that are in the packet
at its turn.  `flush_round_trip` says that every message meets its fate, that the
others are not disturbed, and that the receiver finds exactly the copied messages
in the datagram.
-/

namespace Clither

/-! ## The two passes -/

/-- The reliable pass of either side.  The client also updates a message before it
copies it. -/
def appendUpdatedMsgsToBuf (update : Msg → Msg) (buf : List UInt8) (m : Msg) :
    Option (List UInt8 × Option Msg) :=
  if buf.length + m.payload.length + 2 > netMaxUdpPacketSize then some (buf, some m)
  else if !m.isReliable then some (buf, some m)
  else
    let m := { m with resendPeriodCounter := m.resendPeriodCounter - 1 }
    if m.resendPeriodCounter > 0 then some (buf, some m)
    else
      let m := { m with resendPeriodCounter := m.resendPeriod,
                        resendRetryCounter := m.resendRetryCounter - 1 }
      if m.resendRetryCounter = 0 then none
      else some (buf ++ msgBytes (update m), some (update m))

/-- The server resends messages as they are. -/
theorem appendReliableMsgsToBuf_eq : appendReliableMsgsToBuf = appendUpdatedMsgsToBuf id := rfl

/-- The client restamps them with the frame. -/
theorem clientAppendReliableMsgsToBuf_eq (frameNumber : UInt16) :
    clientAppendReliableMsgsToBuf frameNumber =
      appendUpdatedMsgsToBuf fun m => msgUpdateFrameNumber m frameNumber := rfl

/-- One flush, with both passes erasing from the array they iterate over. -/
def flush (appendReliable : List UInt8 → Msg → Option (List UInt8 × Option Msg))
    (pending : List Msg) : Option (List UInt8 × List Msg) := do
  let (buf, pending) ← retainInPlace appendUnreliableMsgsToBuf [] pending 0
  retainInPlace appendReliable buf pending 0

/-! ## What becomes of a message -/

inductive Fate where
  /-- It is copied and erased. -/
  | sent
  /-- It stays as it is. -/
  | kept
  /-- It is not due yet and only counts down. -/
  | counted
  /-- It is copied, and its counters start anew. -/
  | resent
  deriving DecidableEq, Repr

/-- The bytes of a message in a packet. -/
def Msg.wireLen (m : Msg) : Nat := m.payload.length + 2

/-- The last countdown before a message is due is over. -/
def Msg.due (m : Msg) : Bool :=
  decide (m.resendPeriodCounter - 1 = 0)

/-- A message that is due runs out of retries. -/
def Msg.exhausted (m : Msg) : Bool :=
  m.isReliable && m.due && decide (m.resendRetryCounter - 1 = 0)

/-- The fate of a message at its turn, when all unreliable messages together take
`total` bytes, those before it `unreliable` and the reliable ones before it
`reliable`. -/
def fateOf (total unreliable reliable : Nat) (m : Msg) : Fate :=
  if m.isReliable then
    if total + reliable + m.wireLen > netMaxUdpPacketSize then .kept
    else if m.due then .resent
    else .counted
  else if unreliable + m.wireLen > netMaxUdpPacketSize then .kept
  else .sent

/-- A message that waits for its turn. -/
def Msg.count (m : Msg) : Msg :=
  { m with resendPeriodCounter := m.resendPeriodCounter - 1 }

/-- A message that is resent. -/
def Msg.resend (m : Msg) : Msg :=
  { m with resendPeriodCounter := m.resendPeriod, resendRetryCounter := m.resendRetryCounter - 1 }

section

variable (update : Msg → Msg)

/-- What is left of a message. -/
def Fate.leaves : Fate → Msg → Option Msg
  | .sent, _ => none
  | .kept, m => some m
  | .counted, m => some m.count
  | .resent, m => some (update m.resend)

/-- The messages that are left, in their order. -/
def leftOf (fates : List (Msg × Fate)) : List Msg :=
  fates.filterMap fun (m, fate) => fate.leaves update m

/-- The unreliable messages in the packet, in their order. -/
def sentOf (fates : List (Msg × Fate)) : List Msg :=
  fates.filterMap fun (m, fate) => if fate = .sent then some m else none

/-- The reliable messages in the packet, in their order. -/
def resentOf (fates : List (Msg × Fate)) : List Msg :=
  fates.filterMap fun (m, fate) => if fate = .resent then some (update m.resend) else none

/-- The bytes that messages take. -/
def wireLen (msgs : List Msg) : Nat :=
  (msgs.map Msg.wireLen).sum

/-- The frame of a message. -/
def Msg.frame (m : Msg) : Frame := .message m.type.toByte m.payload

/-- The messages that the loop of the receiver meets, in their order. -/
def receivedFrames (udpBuf : List UInt8) : Except Fault (List Frame) :=
  framingLoop (fun fs type payload => .goOn (fs ++ [.message type payload]))
    (fun fs => fs ++ [.truncated]) id udpBuf 0 []

/-- A flush of `pending` that has filled the packet `buf` and left `left`. -/
structure Flushed (pending : List Msg) (buf : List UInt8) (left : List Msg) : Prop where
  length_le : buf.length ≤ netMaxUdpPacketSize
  /-- Each message has its fate, the reliable ones counting the bytes of all
  unreliable ones. -/
  fates : ∃ fates : List (Msg × Fate), fates.map Prod.fst = pending ∧
    (∀ before m fate after, fates = before ++ (m, fate) :: after →
      fate = fateOf (wireLen (sentOf fates)) (wireLen (sentOf before))
        (wireLen (resentOf update before)) m) ∧
    left = leftOf update fates ∧
    receivedFrames buf = .ok ((sentOf fates ++ resentOf update fates).map Msg.frame)

end

/-! ## The datagram -/

/-- Messages in a packet, one behind the other. -/
def bytesOf (msgs : List Msg) : List UInt8 :=
  msgs.flatMap msgBytes

/-- A message takes its wire length. -/
theorem length_msgBytes (m : Msg) : (msgBytes m).length = m.wireLen := by
  simp [msgBytes, Msg.wireLen]

/-- Messages take the sum of their wire lengths. -/
theorem length_bytesOf (msgs : List Msg) : (bytesOf msgs).length = wireLen msgs := by
  induction msgs with
  | nil => rfl
  | cons m rest ih =>
      simp only [bytesOf, wireLen, List.flatMap_cons, List.length_append, List.map_cons,
        List.sum_cons, length_msgBytes] at ih ⊢
      rw [ih]

/-- The length byte holds the length of the payload. -/
theorem toNat_payloadLen (m : Msg) : m.payloadLen.toNat = m.payload.length :=
  UInt8.toNat_ofNat_of_lt' m.length_lt

/-- The receiver's loop finds the messages the sender wrote, by induction on them. -/
theorem framesLoop_bytesOf {msgs : List Msg} {fuel : Nat} (hfuel : msgs.length ≤ fuel) :
    framesLoop fuel (bytesOf msgs) = msgs.map Msg.frame := by
  induction msgs generalizing fuel with
  | nil => cases fuel <;> rfl
  | cons m rest ih =>
      obtain ⟨fuel, rfl⟩ : ∃ k, fuel = k + 1 := ⟨fuel - 1, by simp at hfuel; omega⟩
      have hbytes : bytesOf (m :: rest) =
          m.type.toByte :: m.payloadLen :: (m.payload ++ bytesOf rest) := rfl
      rw [hbytes, framesLoop, toNat_payloadLen, if_neg (by simp), List.take_left', List.drop_left',
        ih (by simpa using hfuel)] <;> rfl

/-- The receiver meets the frames of the packet. -/
theorem receivedFrames_eq (udpBuf : List UInt8) : receivedFrames udpBuf = .ok (frames udpBuf) := by
  have hwalk (fs acc : List Frame)
      (hend : ∀ before behind, fs = before ++ .truncated :: behind → behind = []) :
      walkFrames (fun fs type payload => Turn.goOn (fs ++ [Frame.message type payload]))
        (fun fs => fs ++ [.truncated]) id fs acc = acc ++ fs := by
    induction fs generalizing acc with
    | nil => exact (List.append_nil acc).symm
    | cons frame rest ih =>
        cases frame with
        | truncated =>
            rw [hend [] rest rfl]
            rfl
        | message type payload =>
            rw [walkFrames]
            dsimp only
            rw [ih _ fun before behind hsplit =>
              hend (.message type payload :: before) behind (by rw [hsplit]; rfl), List.append_assoc]
            rfl
  rw [receivedFrames, framingLoop_eq _ _ _ _ udpBuf.length 0 (by omega), List.drop_zero,
    hwalk _ _ fun _ _ => framesLoop_truncated, List.nil_append]
  rfl

/-- The frames of packed messages are the messages. -/
theorem frames_bytesOf (msgs : List Msg) : frames (bytesOf msgs) = msgs.map Msg.frame := by
  have hlen : msgs.length ≤ (bytesOf msgs).length := by
    rw [length_bytesOf]
    induction msgs with
    | nil => exact Nat.le_refl 0
    | cons m rest ih =>
        simp only [wireLen, List.map_cons, List.sum_cons, List.length_cons, Msg.wireLen] at ih ⊢
        omega
  exact framesLoop_bytesOf hlen

/-- **The receiver finds the messages that were packed.** -/
theorem receivedFrames_bytesOf (msgs : List Msg) :
    receivedFrames (bytesOf msgs) = .ok (msgs.map Msg.frame) := by
  rw [receivedFrames_eq, frames_bytesOf]

/-! ## The passes follow the fates -/

/-- The fates of messages in turn. -/
def fatesFrom (total : Nat) : Nat → Nat → List Msg → List (Msg × Fate)
  | _, _, [] => []
  | unreliable, reliable, m :: rest =>
      let fate := fateOf total unreliable reliable m
      (m, fate) :: fatesFrom total
        (if fate = .sent then unreliable + m.wireLen else unreliable)
        (if fate = .resent then reliable + m.wireLen else reliable) rest

/-- Every pending message has a fate, in order. -/
theorem map_fst_fatesFrom (total unreliable reliable : Nat) (pending : List Msg) :
    (fatesFrom total unreliable reliable pending).map Prod.fst = pending := by
  induction pending generalizing unreliable reliable with
  | nil => rfl
  | cons m rest ih => rw [fatesFrom, List.map_cons, ih]

/-- The wire lengths add up. -/
theorem wireLen_cons (m : Msg) (msgs : List Msg) : wireLen (m :: msgs) = m.wireLen + wireLen msgs := by
  simp [wireLen]

section

variable {update : Msg → Msg} (hupdate : ∀ m, (update m).payload.length = m.payload.length)

include hupdate in
/-- The fates are those of the bytes that are in the packet at each turn. -/
theorem fatesFrom_decided {total unreliable reliable : Nat} {pending : List Msg}
    {before after : List (Msg × Fate)} {m : Msg} {fate : Fate}
    (h : fatesFrom total unreliable reliable pending = before ++ (m, fate) :: after) :
    fate = fateOf total (unreliable + wireLen (sentOf before))
      (reliable + wireLen (resentOf update before)) m := by
  induction pending generalizing unreliable reliable before with
  | nil => simp [fatesFrom] at h
  | cons m' rest ih =>
      rw [fatesFrom] at h
      cases before with
      | nil =>
          rw [List.nil_append, List.cons.injEq, Prod.mk.injEq] at h
          obtain ⟨⟨rfl, rfl⟩, -⟩ := h
          rfl
      | cons first before =>
          rw [List.cons_append, List.cons.injEq] at h
          obtain ⟨rfl, hrest⟩ := h
          have hlen : (update m'.resend).wireLen = m'.wireLen := by
            rw [Msg.wireLen, hupdate]
            rfl
          rw [ih hrest]
          cases hfate : fateOf total unreliable reliable m' <;>
            simp [sentOf, resentOf, wireLen_cons, hlen, Nat.add_assoc]

/-- **The unreliable pass.** -/
theorem retainLoop_unreliable (total reliable : Nat) (buf : List UInt8) (pending : List Msg) :
    retainLoop appendUnreliableMsgsToBuf buf pending =
      some (buf ++ bytesOf (sentOf (fatesFrom total buf.length reliable pending)),
        ((fatesFrom total buf.length reliable pending).filter fun p => decide (p.2 ≠ .sent)).map
          Prod.fst) := by
  induction pending generalizing buf reliable with
  | nil => simp [retainLoop, fatesFrom, sentOf, bytesOf]
  | cons m rest ih =>
      have hkeep (fate : Fate) (hfate : fateOf total buf.length reliable m = fate)
          (hsent : fate ≠ .sent) (hone : appendUnreliableMsgsToBuf buf m = some (buf, some m)) :
          retainLoop appendUnreliableMsgsToBuf buf (m :: rest) =
            some (buf ++ bytesOf (sentOf (fatesFrom total buf.length reliable (m :: rest))),
              ((fatesFrom total buf.length reliable (m :: rest)).filter
                fun p => decide (p.2 ≠ .sent)).map Prod.fst) := by
        rw [retainLoop, hone]
        dsimp only
        rw [fatesFrom, hfate, if_neg hsent,
          ih (if fate = .resent then reliable + m.wireLen else reliable)]
        simp [sentOf, hsent]
      by_cases hreliable : m.isReliable = true
      · have hone : appendUnreliableMsgsToBuf buf m = some (buf, some m) := by
          simp [appendUnreliableMsgsToBuf, hreliable]
        refine hkeep _ rfl ?_ hone
        unfold fateOf
        rw [if_pos hreliable]
        split
        · decide
        · split <;> decide
      · by_cases hlong : buf.length + m.wireLen > netMaxUdpPacketSize
        · refine hkeep .kept ?_ (by decide) (if_pos hlong)
          rw [fateOf, if_neg hreliable, if_pos hlong]
        · have hfate : fateOf total buf.length reliable m = .sent := by
            rw [fateOf, if_neg hreliable, if_neg hlong]
          have hone : appendUnreliableMsgsToBuf buf m = some (buf ++ msgBytes m, none) := by
            unfold appendUnreliableMsgsToBuf
            rw [if_neg hreliable]
            exact if_neg hlong
          have hrest := ih reliable (buf ++ msgBytes m)
          rw [List.length_append, length_msgBytes] at hrest
          rw [retainLoop, hone]
          dsimp only
          rw [hrest, fatesFrom, hfate]
          simp [sentOf, bytesOf]

/-- What the reliable pass does with a message of each fate. -/
theorem appendUpdatedMsgsToBuf_eq (update : Msg → Msg) {total unreliable reliable : Nat}
    {buf : List UInt8} (hbuf : buf.length = total + reliable) (m : Msg) :
    appendUpdatedMsgsToBuf update buf m =
      match fateOf total unreliable reliable m with
      | .sent | .kept => some (buf, some m)
      | .counted => some (buf, some m.count)
      | .resent =>
          if m.exhausted then none
          else some (buf ++ msgBytes (update m.resend), some (update m.resend)) := by
  by_cases hreliable : m.isReliable = true
  · unfold appendUpdatedMsgsToBuf fateOf
    by_cases hlong : total + reliable + m.wireLen > netMaxUdpPacketSize
    · rw [if_pos (by rw [hbuf]; exact hlong), if_pos hreliable, if_pos hlong]
    · rw [if_neg (by rw [hbuf]; exact hlong), if_neg (by simp [hreliable]), if_pos hreliable,
        if_neg hlong]
      dsimp only
      by_cases hdue : m.resendPeriodCounter - 1 = 0
      · have hpos : ¬ (m.resendPeriodCounter - 1 > 0) := by rw [hdue]; decide
        have hexhausted : m.exhausted = decide (m.resendRetryCounter - 1 = 0) := by
          simp [Msg.exhausted, Msg.due, hreliable, hdue]
        have hdue' : m.due = true := decide_eq_true hdue
        rw [if_neg hpos, if_pos hdue', hexhausted]
        simp only [decide_eq_true_eq]
        rfl
      · have hpos : m.resendPeriodCounter - 1 > 0 := UInt8.pos_iff_ne_zero.mpr hdue
        have hdue' : ¬ m.due = true := fun h => hdue (of_decide_eq_true h)
        rw [if_pos hpos, if_neg hdue']
        rfl
  · have hone : appendUpdatedMsgsToBuf update buf m = some (buf, some m) := by
      simp [appendUpdatedMsgsToBuf, hreliable]
    rw [hone, fateOf, if_neg hreliable]
    by_cases hlong : unreliable + m.wireLen > netMaxUdpPacketSize
    · rw [if_pos hlong]
    · rw [if_neg hlong]

/-- The reliable pass over what the first pass has kept: it fails at a message
without retries, or each message meets its fate. -/
def ReliablePass (update : Msg → Msg) (pending : List Msg) (buf : List UInt8)
    (fates : List (Msg × Fate)) : Prop :=
  (retainLoop (appendUpdatedMsgsToBuf update) buf
      ((fates.filter fun p => decide (p.2 ≠ .sent)).map Prod.fst) = none ∧
    ∃ m ∈ pending, m.exhausted = true) ∨
  retainLoop (appendUpdatedMsgsToBuf update) buf
      ((fates.filter fun p => decide (p.2 ≠ .sent)).map Prod.fst) =
    some (buf ++ bytesOf (resentOf update fates), leftOf update fates)

/-- The fate of the first message comes before those of the others. -/
theorem ReliablePass.cons {update : Msg → Msg} {pending : List Msg} {buf : List UInt8}
    {fates : List (Msg × Fate)} {m m' : Msg} {fate : Fate} (hsent : fate ≠ .sent)
    (hone : appendUpdatedMsgsToBuf update buf m =
      some (buf ++ bytesOf (resentOf update [(m, fate)]), some m'))
    (hleft : fate.leaves update m = some m')
    (h : ReliablePass update pending (buf ++ bytesOf (resentOf update [(m, fate)])) fates) :
    ReliablePass update (m :: pending) buf ((m, fate) :: fates) := by
  have hfilter : (((m, fate) :: fates).filter fun p => decide (p.2 ≠ .sent)).map Prod.fst =
      m :: (fates.filter fun p => decide (p.2 ≠ .sent)).map Prod.fst := by simp [hsent]
  unfold ReliablePass
  rw [hfilter, retainLoop, hone]
  dsimp only
  rcases h with ⟨hnone, m₁, hm₁, hexhausted⟩ | hsome
  · rw [hnone]
    exact Or.inl ⟨rfl, m₁, List.mem_cons_of_mem _ hm₁, hexhausted⟩
  · rw [hsome]
    right
    have hbytes : resentOf update ((m, fate) :: fates) =
        resentOf update [(m, fate)] ++ resentOf update fates := by
      unfold resentOf
      rw [← List.filterMap_append]
      rfl
    have hmsgs : leftOf update ((m, fate) :: fates) = m' :: leftOf update fates := by
      simp [leftOf, hleft]
    rw [hbytes, hmsgs, bytesOf, bytesOf, bytesOf, List.flatMap_append, List.append_assoc]
    rfl

include hupdate in
/-- **The reliable pass.** -/
theorem reliablePass_fatesFrom {total unreliable reliable : Nat} {buf : List UInt8}
    (hbuf : buf.length = total + reliable) (pending : List Msg) :
    ReliablePass update pending buf (fatesFrom total unreliable reliable pending) := by
  induction pending generalizing buf unreliable reliable with
  | nil =>
      right
      simp [retainLoop, fatesFrom, resentOf, leftOf, bytesOf]
  | cons m rest ih =>
      have hone := @appendUpdatedMsgsToBuf_eq update total unreliable reliable buf hbuf m
      rw [fatesFrom]
      cases hfate : fateOf total unreliable reliable m with
      | sent =>
          rcases @ih (unreliable + m.wireLen) reliable buf hbuf with ⟨hnone, m₁, hm₁, hexhausted⟩ | hsome
          · exact Or.inl ⟨hnone, m₁, List.mem_cons_of_mem _ hm₁, hexhausted⟩
          · exact Or.inr hsome
      | kept =>
          rw [hfate] at hone
          have hbytes : buf ++ bytesOf (resentOf update [(m, .kept)]) = buf := List.append_nil buf
          refine ReliablePass.cons (by decide) (by rw [hbytes]; exact hone) rfl ?_
          rw [hbytes]
          exact ih hbuf
      | counted =>
          rw [hfate] at hone
          have hbytes : buf ++ bytesOf (resentOf update [(m, .counted)]) = buf := List.append_nil buf
          refine ReliablePass.cons (by decide) (by rw [hbytes]; exact hone) rfl ?_
          rw [hbytes]
          exact ih hbuf
      | resent =>
          rw [hfate] at hone
          by_cases hexhausted : m.exhausted = true
          · rw [if_pos hexhausted] at hone
            refine Or.inl ⟨?_, m, List.mem_cons_self, hexhausted⟩
            have hfilter (fates : List (Msg × Fate)) :
                (((m, Fate.resent) :: fates).filter fun p => decide (p.2 ≠ .sent)).map Prod.fst =
                  m :: (fates.filter fun p => decide (p.2 ≠ .sent)).map Prod.fst := by simp
            rw [hfilter, retainLoop, hone]
          · rw [if_neg hexhausted] at hone
            have hbytes : bytesOf (resentOf update [(m, .resent)]) = msgBytes (update m.resend) :=
              List.append_nil _
            have hlen : (update m.resend).wireLen = m.wireLen := by
              rw [Msg.wireLen, hupdate]
              rfl
            refine ReliablePass.cons (by decide) (by rw [hbytes]; exact hone) rfl ?_
            rw [hbytes]
            refine ih ?_
            rw [List.length_append, length_msgBytes, hlen, if_pos rfl, hbuf, Nat.add_assoc]

end

/-! ## The flush -/

/-- A flush ends at a reliable message without retries, or as it should. -/
def FlushOutcome (update : Msg → Msg) (pending : List Msg) (r : Option (List UInt8 × List Msg)) :
    Prop :=
  (r = none ∧ ∃ m ∈ pending, m.exhausted = true) ∨
    ∃ buf left, r = some (buf, left) ∧ Flushed update pending buf left

/-- A pass whose steps stay within the datagram stays within it. -/
theorem length_le_of_pass {append : List UInt8 → Msg → Option (List UInt8 × Option Msg)}
    (happend : ∀ buf m buf' kept, append buf m = some (buf', kept) →
      buf' = buf ∨ buf'.length ≤ netMaxUdpPacketSize)
    {buf buf' : List UInt8} {pending kept : List Msg} (hbuf : buf.length ≤ netMaxUdpPacketSize)
    (h : retainLoop append buf pending = some (buf', kept)) :
    buf'.length ≤ netMaxUdpPacketSize := by
  let short (buf : List UInt8) : Prop := buf.length ≤ netMaxUdpPacketSize
  refine @retainLoop_invariant _ _ append short ?_ buf buf' pending kept hbuf h
  intro buf m buf' kept hinv hone
  rcases happend buf m buf' kept hone with rfl | hle
  · exact hinv
  · exact hle

/-- An unreliable message is added only where it fits. -/
theorem length_le_of_unreliable {buf buf' : List UInt8} {m : Msg} {kept : Option Msg}
    (h : appendUnreliableMsgsToBuf buf m = some (buf', kept)) :
    buf' = buf ∨ buf'.length ≤ netMaxUdpPacketSize := by
  unfold appendUnreliableMsgsToBuf at h
  split at h
  · cases h
    exact Or.inl rfl
  · split at h
    · cases h
      exact Or.inl rfl
    · cases h
      right
      rw [List.length_append, length_msgBytes, Msg.wireLen]
      omega

/-- A reliable message is added only where it fits. -/
theorem length_le_of_updated {update : Msg → Msg}
    (hupdate : ∀ m, (update m).payload.length = m.payload.length) {buf buf' : List UInt8} {m : Msg}
    {kept : Option Msg} (h : appendUpdatedMsgsToBuf update buf m = some (buf', kept)) :
    buf' = buf ∨ buf'.length ≤ netMaxUdpPacketSize := by
  unfold appendUpdatedMsgsToBuf at h
  split at h
  · cases h
    exact Or.inl rfl
  · split at h
    · cases h
      exact Or.inl rfl
    · dsimp only at h
      split at h
      · cases h
        exact Or.inl rfl
      · split at h
        · cases h
        · cases h
          right
          rw [List.length_append, length_msgBytes, Msg.wireLen, hupdate]
          show buf.length + (m.payload.length + 2) ≤ _
          omega

/-- **One flush**, over the array in place. -/
theorem flush_spec {update : Msg → Msg}
    (hupdate : ∀ m, (update m).payload.length = m.payload.length) (pending : List Msg) :
    FlushOutcome update pending (flush (appendUpdatedMsgsToBuf update) pending) := by
  -- the bytes of the unreliable messages do not depend on those of the reliable ones
  generalize htotal : (bytesOf (sentOf (fatesFrom 0 0 0 pending))).length = total
  have hfirst := retainLoop_unreliable total 0 [] pending
  have hsame := (retainLoop_unreliable 0 0 [] pending).symm.trans hfirst
  simp only [List.nil_append, List.length_nil, Option.some.injEq, Prod.mk.injEq] at hfirst hsame
  rw [hsame.1] at htotal
  generalize hfates : fatesFrom total 0 0 pending = fates at hfirst htotal
  have hflush : flush (appendUpdatedMsgsToBuf update) pending =
      retainLoop (appendUpdatedMsgsToBuf update) (bytesOf (sentOf fates))
        ((fates.filter fun p => decide (p.2 ≠ .sent)).map Prod.fst) := by
    rw [flush, retainInPlace_zero, hfirst]
    exact retainInPlace_zero _ _ _
  have hpass := @reliablePass_fatesFrom update hupdate total 0 0 (bytesOf (sentOf fates)) htotal
    pending
  rw [hfates] at hpass
  rw [hflush]
  rcases hpass with hnone | hsome
  · exact Or.inl hnone
  · refine Or.inr ⟨_, _, hsome, ?_, fates, ?_, ?_, rfl, ?_⟩
    · have hunreliable := @length_le_of_pass _ (fun _ _ _ _ => length_le_of_unreliable) []
        _ _ _ (Nat.zero_le _) hfirst
      exact length_le_of_pass (fun _ _ _ _ => length_le_of_updated hupdate) hunreliable hsome
    · rw [← hfates, map_fst_fatesFrom]
    · intro before m fate after hsplit
      rw [← hfates] at hsplit
      have hfate := fatesFrom_decided hupdate hsplit
      rw [Nat.zero_add, Nat.zero_add] at hfate
      rw [hfate, ← length_bytesOf (sentOf fates), htotal]
    · rw [bytesOf, bytesOf, ← List.flatMap_append]
      exact receivedFrames_bytesOf _

/-- Restamping keeps the length. -/
theorem length_payload_msgUpdateFrameNumber (m : Msg) (frameNumber : UInt16) :
    (msgUpdateFrameNumber m frameNumber).payload.length = m.payload.length := by
  unfold msgUpdateFrameNumber
  split <;> simp

/-- The flush of a vector is that of its elements. -/
theorem flush_items (appendReliable : List UInt8 → Msg → Option (List UInt8 × Option Msg))
    (v : Vec msgVec Msg) :
    flush appendReliable v.items =
      (do
        let (buf, v) ← vecRetain appendUnreliableMsgsToBuf [] v
        let (buf, v) ← vecRetain appendReliable buf v
        return (buf, v.items)) := by
  have hretain (onElement : List UInt8 → Msg → Option (List UInt8 × Option Msg)) (buf : List UInt8)
      (v : Vec msgVec Msg) : retainInPlace onElement buf v.items 0 =
        (vecRetain onElement buf v).map fun (buf, v) => (buf, v.items) := by
    rw [retainInPlace_zero]
    cases h : retainLoop onElement buf v.items with
    | none =>
        have hnone : vecRetain onElement buf v = none := by
          unfold vecRetain
          split
          · rfl
          · next hsome =>
              rw [h] at hsome
              cases hsome
        rw [hnone]
        rfl
    | some r =>
        obtain ⟨v', hv', hitems⟩ := items_vecRetain h
        rw [hv']
        exact congrArg some (Prod.ext rfl hitems.symm)
  rw [flush, hretain]
  cases vecRetain appendUnreliableMsgsToBuf [] v with
  | none => rfl
  | some r =>
      show retainInPlace appendReliable r.1 r.2.items 0 = _
      rw [hretain]
      cases hlast : vecRetain appendReliable r.1 r.2 <;> simp [hlast]

/-- What `server_send_pending_data` packs. -/
theorem packMsgs_eq_flush (v : Vec msgVec Msg) :
    (packMsgs v).map (fun (buf, v) => (buf, v.items)) = flush appendReliableMsgsToBuf v.items := by
  rw [flush_items, packMsgs]
  cases vecRetain appendUnreliableMsgsToBuf [] v with
  | none => rfl
  | some r => cases h : vecRetain appendReliableMsgsToBuf r.1 r.2 <;> simp [h]

/-- What `client_send_pending_data` packs. -/
theorem clientPackMsgs_eq_flush (frameNumber : UInt16) (v : Vec msgVec Msg) :
    (clientPackMsgs frameNumber v).map (fun (buf, v) => (buf, v.items)) =
      flush (clientAppendReliableMsgsToBuf frameNumber) v.items := by
  rw [flush_items, clientPackMsgs]
  cases vecRetain appendUnreliableMsgsToBuf [] v with
  | none => rfl
  | some r => cases h : vecRetain (clientAppendReliableMsgsToBuf frameNumber) r.1 r.2 <;> simp [h]

/-! ## Where the messages come from -/

/-- What is in the packet was pending: an unreliable message as it is, a reliable
one updated. -/
theorem Flushed.mem_frames {update : Msg → Msg} {pending left : List Msg} {buf : List UInt8}
    (h : Flushed update pending buf left) {f : Frame} (hf : f ∈ frames buf) :
    ∃ m ∈ pending, m.isReliable = false ∧ f = m.frame ∨
      m.isReliable = true ∧ f = (update m.resend).frame := by
  obtain ⟨fates, rfl, hfates, -, hreceived⟩ := h.fates
  have hall : frames buf = (sentOf fates ++ resentOf update fates).map Msg.frame :=
    Except.ok.inj ((receivedFrames_eq buf).symm.trans hreceived)
  rw [hall] at hf
  obtain ⟨x, hx, rfl⟩ := List.mem_map.mp hf
  have hreliable {m : Msg} {fate : Fate} (hmem : (m, fate) ∈ fates) :
      (fate = .sent → m.isReliable = false) ∧ (fate = .resent → m.isReliable = true) := by
    obtain ⟨before, after, hsplit⟩ := List.append_of_mem hmem
    have hfate := hfates before m fate after hsplit
    unfold fateOf at hfate
    cases hm : m.isReliable with
    | false =>
        rw [hm, if_neg (by decide)] at hfate
        refine ⟨fun _ => rfl, ?_⟩
        rintro rfl
        split at hfate <;> cases hfate
    | true =>
        rw [hm, if_pos rfl] at hfate
        refine ⟨?_, fun _ => rfl⟩
        rintro rfl
        split at hfate
        · cases hfate
        · split at hfate <;> cases hfate
  rcases List.mem_append.mp hx with hx | hx
  · obtain ⟨⟨m, fate⟩, hmem, hsent⟩ := List.mem_filterMap.mp hx
    dsimp only at hsent
    by_cases hfate : fate = .sent
    · rw [if_pos hfate] at hsent
      cases hsent
      exact ⟨_, List.mem_map_of_mem hmem, Or.inl ⟨(hreliable hmem).1 hfate, rfl⟩⟩
    · rw [if_neg hfate] at hsent
      cases hsent
  · obtain ⟨⟨m, fate⟩, hmem, hresent⟩ := List.mem_filterMap.mp hx
    dsimp only at hresent
    by_cases hfate : fate = .resent
    · rw [if_pos hfate] at hresent
      cases hresent
      exact ⟨m, List.mem_map_of_mem hmem, Or.inr ⟨(hreliable hmem).2 hfate, rfl⟩⟩
    · rw [if_neg hfate] at hresent
      cases hresent

/-- What is left was pending, and only its counters have changed before the update. -/
theorem Flushed.mem_left {update : Msg → Msg} {pending left : List Msg} {buf : List UInt8}
    (h : Flushed update pending buf left) {m' : Msg} (hm' : m' ∈ left) :
    ∃ m ∈ pending, m' = m ∨ m' = m.count ∨ m' = update m.resend := by
  obtain ⟨fates, rfl, -, rfl, -⟩ := h.fates
  obtain ⟨⟨m, fate⟩, hmem, hleaves⟩ := List.mem_filterMap.mp hm'
  refine ⟨m, List.mem_map_of_mem hmem, ?_⟩
  cases fate with
  | sent => cases hleaves
  | kept =>
      cases hleaves
      exact Or.inl rfl
  | counted =>
      cases hleaves
      exact Or.inr (Or.inl rfl)
  | resent =>
      cases hleaves
      exact Or.inr (Or.inr rfl)

/-- What `net_pack` of the server did to the pending messages is a flush. -/
theorem packMsgs_flushed {pendingMsgs left : Vec msgVec Msg} {buf : List UInt8}
    (h : packMsgs pendingMsgs = some (buf, left)) : Flushed id pendingMsgs.items buf left.items := by
  have hflush := packMsgs_eq_flush pendingMsgs
  rw [h, appendReliableMsgsToBuf_eq] at hflush
  rcases @flush_spec id (fun _ => rfl) pendingMsgs.items with ⟨hnone, -⟩ | ⟨buf', left', hsome, hflushed⟩
  · cases hflush.trans hnone
  · cases hflush.trans hsome
    exact hflushed

/-- The same for the client, with the frame it restamps with. -/
theorem clientPackMsgs_flushed {frameNumber : UInt16} {pendingMsgs left : Vec msgVec Msg}
    {buf : List UInt8} (h : clientPackMsgs frameNumber pendingMsgs = some (buf, left)) :
    Flushed (fun m => msgUpdateFrameNumber m frameNumber) pendingMsgs.items buf left.items := by
  have hflush := clientPackMsgs_eq_flush frameNumber pendingMsgs
  rw [h, clientAppendReliableMsgsToBuf_eq] at hflush
  rcases @flush_spec (fun m => msgUpdateFrameNumber m frameNumber)
      (fun m => length_payload_msgUpdateFrameNumber m frameNumber) pendingMsgs.items with
    ⟨hnone, -⟩ | ⟨buf', left', hsome, hflushed⟩
  · cases hflush.trans hnone
  · cases hflush.trans hsome
    exact hflushed

/-- **The datagrams of both sides.**  The flush of a server and the flush of a
client end only at a reliable message without retries.  Otherwise every message
meets its fate, and the receiver finds the unreliable and then the reliable
messages that were due, in the order of the queue. -/
theorem flush_round_trip (pending : List Msg) (frameNumber : UInt16) :
    FlushOutcome id pending (flush appendReliableMsgsToBuf pending) ∧
    FlushOutcome (fun m => msgUpdateFrameNumber m frameNumber) pending
      (flush (clientAppendReliableMsgsToBuf frameNumber) pending) :=
  ⟨flush_spec (fun _ => rfl) pending,
    flush_spec (fun m => length_payload_msgUpdateFrameNumber m frameNumber) pending⟩

end Clither
