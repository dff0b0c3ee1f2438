import Clither.Msg

/-!
# Messages with a text

A join request carries the name of the player and a denial the reason, each with
its length in front of it and a terminator behind it.  Both functions cut the
text off at 254 bytes, but a payload has only 255 bytes for the text, its
terminator and everything in front of it.

`texts_carried_iff` says up to which length a text reaches the other side.
-/

namespace Clither

/-- What `msg_join_request` writes to the payload. -/
def joinRequestBytes (protocolVersion frameNumber : UInt16) (username : List UInt8) : List UInt8 :=
  let nameLen := if username.length > 254 then 254 else username.length
  bytes16 protocolVersion ++ bytes16 frameNumber ++
    UInt8.ofNat nameLen :: (username ++ [0]).take (nameLen + 1)

/-- What `msg_alloc_string_payload` writes to the payload. -/
def stringPayloadBytes (str : List UInt8) : List UInt8 :=
  let len := if str.length > 254 then 254 else str.length
  UInt8.ofNat len :: (str ++ [0]).take (len + 1)

/-- The text that a parsed payload points to. -/
def ParsedPayload.text : ParsedPayload → Option (List UInt8)
  | .joinRequest _ _ _ username => some username
  | .joinDeny _ error => some error
  | _ => none

/-- The message, for which `written` is written to the payload, carries the text
behind the first `start` bytes. -/
structure CarriesText (m : Msg) (written : List UInt8) (start : Nat) (text : List UInt8) : Prop where
  length : m.payloadLen.toNat = written.length
  short : written.length ≤ 255
  parsed : ∃ pp found, msgParsePayload m.type.toByte m.payload = .ok pp ∧ pp.text = some found ∧
    payloadAt m.payload (start + found.length) = 0 ∧ 0 ∉ found ∧
    if start + text.length + 1 ≤ 255 then found = text else found ≠ [] ∧ found <+: text

/-! ## Texts that fit -/

theorem payloadLen_msgAlloc {type : MsgType} {resendPeriod : UInt8} {written : List UInt8}
    (h : written.length ≤ 255) : (msgAlloc type resendPeriod written).payloadLen.toNat = written.length := by
  rw [Msg.payloadLen, payload_msgAlloc (by omega)]
  exact UInt8.toNat_ofNat_of_lt' (by show written.length < 256; omega)

theorem joinRequestBytes_short (protocolVersion frameNumber : UInt16) {username : List UInt8}
    (h : username.length ≤ 254) :
    joinRequestBytes protocolVersion frameNumber username =
      bytes16 protocolVersion ++ bytes16 frameNumber ++
        UInt8.ofNat username.length :: (username ++ [0]) := by
  have htake : (username ++ [0]).take (username.length + 1) = username ++ [0] :=
    List.take_of_length_le (by simp)
  rw [joinRequestBytes, if_neg (by omega), htake]

theorem stringPayloadBytes_short {str : List UInt8} (h : str.length ≤ 254) :
    stringPayloadBytes str = UInt8.ofNat str.length :: (str ++ [0]) := by
  have htake : (str ++ [0]).take (str.length + 1) = str ++ [0] :=
    List.take_of_length_le (by simp)
  rw [stringPayloadBytes, if_neg (by omega), htake]

/-- The terminator stands behind the text. -/
theorem payloadAt_terminator (front text : List UInt8) {start : Nat} (h : front.length = start) :
    payloadAt (front ++ (text ++ [0])) (start + text.length) = 0 := by
  subst h
  rw [payloadAt, List.getD_eq_getElem?_getD, List.getElem?_append_right (by omega),
    Nat.add_sub_cancel_left, List.getElem?_append_right (Nat.le_refl _), Nat.sub_self]
  rfl

theorem payloadString_text (front text : List UInt8) {start : Nat} (hstart : front.length = start)
    (hlength : text.length < 256) :
    payloadString (front ++ (text ++ [0])) start (UInt8.ofNat text.length) = text := by
  subst hstart
  rw [payloadString, List.drop_left, UInt8.toNat_ofNat_of_lt' hlength, List.take_left]

/-- A request whose name is not too long, in one piece. -/
theorem payload_msgJoinRequest (protocolVersion frameNumber : UInt16) {username : List UInt8}
    (hshort : username.length ≤ 249) :
    (msgJoinRequest protocolVersion frameNumber username).payload =
      (bytes16 protocolVersion ++ bytes16 frameNumber ++ [UInt8.ofNat username.length]) ++
        (username ++ [0]) := by
  have hwritten := joinRequestBytes_short protocolVersion frameNumber
    (by omega : username.length ≤ 254)
  have hmsg : msgJoinRequest protocolVersion frameNumber username =
      msgAlloc .joinRequest 1 (joinRequestBytes protocolVersion frameNumber username) := rfl
  rw [hmsg, payload_msgAlloc (by rw [hwritten]; simp [bytes16]; omega), hwritten,
    List.append_assoc _ [_]]
  rfl

/-- It is accepted, and its terminator stands behind the name. -/
theorem parse_msgJoinRequest (protocolVersion frameNumber : UInt16) {username : List UInt8}
    (hname : username ≠ []) (hshort : username.length ≤ 249) :
    payloadAt (msgJoinRequest protocolVersion frameNumber username).payload
        (5 + username.length) = 0 ∧
      msgParsePayload MsgType.joinRequest.toByte
          (msgJoinRequest protocolVersion frameNumber username).payload =
        .ok (.joinRequest protocolVersion frameNumber (UInt8.ofNat username.length) username) := by
  rw [payload_msgJoinRequest protocolVersion frameNumber hshort]
  generalize hfront : bytes16 protocolVersion ++ bytes16 frameNumber ++
    [UInt8.ofNat username.length] = front
  have hfive : front.length = 5 := by
    rw [← hfront]
    rfl
  have hprotocol : payload16 (front ++ (username ++ [0])) 0 = protocolVersion := by
    rw [← hfront]
    exact read16_bytes16 protocolVersion
  have hframe : payload16 (front ++ (username ++ [0])) 2 = frameNumber := by
    rw [← hfront]
    exact read16_bytes16 frameNumber
  have hlen : payloadAt (front ++ (username ++ [0])) 4 = UInt8.ofNat username.length := by
    rw [← hfront]
    rfl
  have hnat : (UInt8.ofNat username.length).toNat = username.length :=
    UInt8.toNat_ofNat_of_lt' (by show username.length < 256; omega)
  have hpos : UInt8.ofNat username.length ≠ 0 := by
    intro hzero
    rw [hzero] at hnat
    exact hname (List.length_eq_zero_iff.mp hnat.symm)
  have hsize : (front ++ (username ++ [0])).length = username.length + 6 := by
    rw [List.length_append, hfive, List.length_append, List.length_singleton]
    omega
  have hend := payloadAt_terminator front username hfive
  refine ⟨hend, ?_⟩
  rw [msgParsePayload, MsgType.ofByte_toByte]
  simp only [hlen, hnat, hprotocol, hframe]
  rw [if_neg (by omega), if_neg hpos, if_neg (by omega), if_neg (not_not.mpr hend),
    payloadString_text front username hfive (by omega)]

/-- A name that is not too long. -/
theorem carriesText_joinRequest (protocolVersion frameNumber : UInt16) {username : List UInt8}
    (hname : username ≠ []) (hnul : 0 ∉ username) (hshort : username.length ≤ 249) :
    CarriesText (msgJoinRequest protocolVersion frameNumber username)
      (joinRequestBytes protocolVersion frameNumber username) 5 username := by
  have hlength : (joinRequestBytes protocolVersion frameNumber username).length =
      username.length + 6 := by
    rw [joinRequestBytes_short protocolVersion frameNumber (by omega)]
    simp [bytes16]
  have hmsg : msgJoinRequest protocolVersion frameNumber username =
      msgAlloc .joinRequest 1 (joinRequestBytes protocolVersion frameNumber username) := rfl
  obtain ⟨hend, hparse⟩ := parse_msgJoinRequest protocolVersion frameNumber hname hshort
  refine ⟨?_, by omega, _, _, hparse, rfl, hend, hnul, ?_⟩
  · rw [hmsg]
    exact payloadLen_msgAlloc (by omega)
  · rw [if_pos (by omega)]

/-- A reason that is not too long, for one of the denials. -/
theorem carriesText_stringPayload {type : MsgType} (htype : type = .joinDenyBadProtocol ∨
      type = .joinDenyBadUsername ∨ type = .joinDenyServerFull)
    {str : List UInt8} (hnul : 0 ∉ str) (hshort : str.length ≤ 253) :
    CarriesText (msgAllocStringPayload type 0 str) (stringPayloadBytes str) 1 str := by
  have hwritten := stringPayloadBytes_short (by omega : str.length ≤ 254)
  have hlength : (stringPayloadBytes str).length = str.length + 2 := by
    rw [hwritten]
    simp
  have hmsg : msgAllocStringPayload type 0 str = msgAlloc type 0 (stringPayloadBytes str) := rfl
  have hpayload : (msgAllocStringPayload type 0 str).payload =
      [UInt8.ofNat str.length] ++ (str ++ [0]) := by
    rw [hmsg, payload_msgAlloc (by omega), hwritten]
    rfl
  have hnat : (UInt8.ofNat str.length).toNat = str.length :=
    UInt8.toNat_ofNat_of_lt' (by show str.length < 256; omega)
  have hend := payloadAt_terminator [UInt8.ofNat str.length] str (rfl : _ = 1)
  have htext := payloadString_text [UInt8.ofNat str.length] str (rfl : _ = 1) (by omega)
  have hparse : msgParsePayload type.toByte (msgAllocStringPayload type 0 str).payload =
      .ok (.joinDeny type str) := by
    have hdeny : parseJoinDeny type (msgAllocStringPayload type 0 str).payload =
        .ok (.joinDeny type str) := by
      rw [hpayload, parseJoinDeny]
      have hlen : payloadAt ([UInt8.ofNat str.length] ++ (str ++ [0])) 0 = UInt8.ofNat str.length := rfl
      simp only [hlen, hnat]
      rw [if_neg (by simp), if_neg (by simp; omega), if_neg (not_not.mpr hend), htext]
    rw [msgParsePayload, MsgType.ofByte_toByte]
    rcases htype with rfl | rfl | rfl
    · exact hdeny
    · exact hdeny
    · exact hdeny
  refine ⟨?_, by omega, .joinDeny type str, str, hparse, rfl, ?_, hnul, ?_⟩
  · rw [hmsg]
    exact payloadLen_msgAlloc (by omega)
  · rw [hpayload]
    exact hend
  · rw [if_pos (by omega)]

/-! ## Texts that do not fit -/

theorem length_joinRequestBytes (protocolVersion frameNumber : UInt16) (username : List UInt8) :
    (joinRequestBytes protocolVersion frameNumber username).length =
      min username.length 254 + 6 := by
  rw [joinRequestBytes]
  simp only [bytes16, List.length_append, List.length_cons, List.length_nil, List.length_take]
  split <;> omega

theorem length_stringPayloadBytes (str : List UInt8) :
    (stringPayloadBytes str).length = min str.length 254 + 2 := by
  rw [stringPayloadBytes]
  simp only [List.length_append, List.length_cons, List.length_nil, List.length_take]
  split <;> omega

/-- **How long a text may be.** -/
theorem texts_carried_iff (protocolVersion frameNumber : UInt16) (username error : List UInt8)
    (hname : username ≠ []) (husername : 0 ∉ username) (herror : 0 ∉ error) :
    (CarriesText (msgJoinRequest protocolVersion frameNumber username)
      (joinRequestBytes protocolVersion frameNumber username) 5 username ↔
        username.length ≤ 249) ∧
    ∀ build ∈ [msgJoinDenyBadProtocol, msgJoinDenyBadUsername, msgJoinDenyServerFull],
      (CarriesText (build error) (stringPayloadBytes error) 1 error ↔ error.length ≤ 253) := by
  constructor
  · constructor
    · intro h
      have hshort := h.short
      rw [length_joinRequestBytes] at hshort
      omega
    · exact carriesText_joinRequest protocolVersion frameNumber hname husername
  · intro build hbuild
    have htype : ∃ type, (type = .joinDenyBadProtocol ∨ type = .joinDenyBadUsername ∨
        type = .joinDenyServerFull) ∧ build error = msgAllocStringPayload type 0 error := by
      simp only [List.mem_cons, List.not_mem_nil, or_false] at hbuild
      rcases hbuild with rfl | rfl | rfl
      · exact ⟨_, Or.inl rfl, rfl⟩
      · exact ⟨_, Or.inr (Or.inl rfl), rfl⟩
      · exact ⟨_, Or.inr (Or.inr rfl), rfl⟩
    obtain ⟨type, htype, heq⟩ := htype
    rw [heq]
    constructor
    · intro h
      have hshort := h.short
      rw [length_stringPayloadBytes] at hshort
      omega
    · exact carriesText_stringPayload htype herror

/-- The longest texts that are carried. -/
theorem texts_carried_longest :
    CarriesText (msgJoinRequest 0 0 (List.replicate 249 97))
      (joinRequestBytes 0 0 (List.replicate 249 97)) 5 (List.replicate 249 97) ∧
    ∀ build ∈ [msgJoinDenyBadProtocol, msgJoinDenyBadUsername, msgJoinDenyServerFull],
      CarriesText (build (List.replicate 253 97)) (stringPayloadBytes (List.replicate 253 97)) 1
        (List.replicate 253 97) :=
  have h := texts_carried_iff 0 0 (List.replicate 249 97) (List.replicate 253 97) (by decide)
    (fun h => absurd (List.eq_of_mem_replicate h) (by decide))
    (fun h => absurd (List.eq_of_mem_replicate h) (by decide))
  ⟨h.1.mpr List.length_replicate.le, fun build hbuild =>
    (h.2 build hbuild).mpr List.length_replicate.le⟩

/-- A name of 250 bytes leaves a payload of length 0, which is rejected, and so does
a reason of 254 bytes. -/
theorem texts_cut_off :
    ¬ CarriesText (msgJoinRequest 0 0 (List.replicate 250 97))
        (joinRequestBytes 0 0 (List.replicate 250 97)) 5 (List.replicate 250 97) ∧
    msgParsePayload MsgType.joinRequest.toByte
        (msgJoinRequest 0 0 (List.replicate 250 97)).payload = .error (-1) ∧
    ¬ CarriesText (msgJoinDenyServerFull (List.replicate 254 97))
        (stringPayloadBytes (List.replicate 254 97)) 1 (List.replicate 254 97) := by
  refine ⟨fun h => ?_, by decide +kernel, fun h => ?_⟩
  · have hshort := h.short
    rw [length_joinRequestBytes, List.length_replicate] at hshort
    omega
  · have hshort := h.short
    rw [length_stringPayloadBytes, List.length_replicate] at hshort
    omega

end Clither
