import Diamond.Lib.Codec

/-! # WebSocket frames

What is read from a connection is a `Reader` of its bytes: a read that comes short raises.  The key
of a masked frame is what `SecureRandom.bytes(4)` gave. -/

namespace Diamond.WebSocket

open Codec List

def websocketMaxFrameSize : ℕ := 16 * 1024 * 1024

def chr (n : ℕ) : UInt8 := UInt8.ofNat n

def websocketMask (data key : Bytes) : Bytes :=
  data.mapIdx fun index byte => byte ^^^ key.getD (index % 4) 0

/-- The lowest `count` bytes of a length, highest first. -/
def lengthBytes (length : ℕ) : ℕ → Bytes
  | 0 => []
  | count + 1 => chr ((length >>> (8 * count)) &&& 255) :: lengthBytes length count

def lengthHeader (maskBit length : ℕ) : Bytes :=
  if length ≤ 125 then [chr (maskBit ||| length)]
  else if length ≤ 65535 then chr (maskBit ||| 126) :: lengthBytes length 2
  else chr (maskBit ||| 127) :: lengthBytes length 8

def websocketEncodeFrame (opcode : ℕ) (payload : Bytes) (masked fin : Bool) (key : Bytes) : Bytes :=
  chr ((if fin then 128 else 0) ||| opcode) ::
    (lengthHeader (if masked then 128 else 0) payload.length ++
      if masked then key ++ websocketMask payload key else payload)

structure Frame where
  fin : Bool
  opcode : ℕ
  payload : Bytes
  masked : Bool
  deriving DecidableEq, Repr

def lengthOf (extended : Bytes) : ℕ :=
  extended.foldl (fun value byte => (value <<< 8) ||| byte.toNat) 0

def readLength (length7 : ℕ) : Reader ℕ :=
  if length7 = 126 then lengthOf <$> take 2
  else if length7 = 127 then lengthOf <$> take 8
  else pure length7

def readPayload (masked : Bool) (length : ℕ) : Reader Bytes := do
  if masked then
    let key ← take 4
    let rawPayload ← take length
    return websocketMask rawPayload key
  else take length

def websocketReadFrameBytes : Reader Frame := do
  let header ← take 2
  let byte0 := (header.getD 0 0).toNat
  let byte1 := (header.getD 1 0).toNat
  let masked : Bool := byte1 &&& 128 ≠ 0
  let length ← readLength (byte1 &&& 127)
  require (length ≤ websocketMaxFrameSize)
  let payload ← readPayload masked length
  return ⟨byte0 &&& 128 ≠ 0, byte0 &&& 15, payload, masked⟩

lemma websocketMask_mask (data key : Bytes) : websocketMask (websocketMask data key) key = data := by
  apply ext_getElem
  · simp [websocketMask]
  · intro i _ _
    simp only [websocketMask, getElem_mapIdx]
    rw [UInt8.xor_assoc, UInt8.xor_self, UInt8.xor_zero]

lemma length_lengthBytes (length count : ℕ) : (lengthBytes length count).length = count := by
  induction count <;> simp [lengthBytes, *]

lemma foldl_lengthBytes (length count value : ℕ) :
    (lengthBytes length count).foldl (fun value byte => (value <<< 8) ||| byte.toNat) value =
      value * 256 ^ count + length % 256 ^ count := by
  induction count generalizing value with
  | zero => simp [lengthBytes, Nat.mod_one]
  | succ count ih =>
    have hbyte : (chr ((length >>> (8 * count)) &&& 255)).toNat = length / 256 ^ count % 256 := by
      rw [Nat.and_two_pow_sub_one_eq_mod _ 8, Nat.shiftRight_eq_div_pow, Nat.pow_mul]
      exact UInt8.toNat_ofNat_of_lt (Nat.mod_lt _ (by decide))
    rw [lengthBytes, foldl_cons, ih, hbyte, ← Nat.shiftLeft_add_eq_or_of_lt (Nat.mod_lt _ (by decide)),
      Nat.shiftLeft_eq, pow_succ 256, Nat.mod_mul (a := 256 ^ count)]
    ring

lemma reads_length {length count : ℕ} (h : length < 256 ^ count) :
    Reads (lengthOf <$> take count) (lengthBytes length count) length := by
  have hread := (Reads.take (length_lengthBytes length count)).map (f := lengthOf)
  rwa [lengthOf, foldl_lengthBytes, Nat.zero_mul, Nat.zero_add, Nat.mod_eq_of_lt h] at hread

/-- A byte of seven bits under a flag. -/
lemma flagged (flag : Bool) : ∀ n < 128, let byte := (chr ((if flag then 128 else 0) ||| n)).toNat
    decide (byte &&& 128 ≠ 0) = flag ∧ byte &&& 127 = n ∧ (n < 16 → byte &&& 15 = n) := by
  cases flag <;> decide +kernel

lemma lengthHeader_eq (maskBit : ℕ) {length} (h : length ≤ websocketMaxFrameSize) :
    ∃ length7 extended, length7 < 128 ∧
      lengthHeader maskBit length = chr (maskBit ||| length7) :: extended ∧
      Reads (readLength length7) extended length := by
  unfold lengthHeader
  split_ifs
  · refine ⟨length, [], by omega, rfl, ?_⟩
    rw [readLength, if_neg (by omega), if_neg (by omega)]
    exact .pure _
  · exact ⟨126, _, by decide, rfl, reads_length (by omega)⟩
  · exact ⟨127, _, by decide, rfl, reads_length (h.trans_lt (by decide))⟩

lemma reads_payload {key} (masked : Bool) (payload : Bytes) (hkey : key.length = 4) :
    Reads (readPayload masked payload.length)
      (if masked then key ++ websocketMask payload key else payload) payload := by
  cases masked with
  | true =>
    have hlength : (websocketMask payload key).length = payload.length := by simp [websocketMask]
    have hread := (Reads.take hlength).map (f := (websocketMask · key))
    rw [websocketMask_mask] at hread
    exact .bind (.take hkey) hread
  | false => exact .take rfl

/-- A frame is read back as it was encoded, whatever follows it. -/
theorem reads_websocketEncodeFrame {opcode payload key} (masked fin : Bool) (hopcode : opcode < 16)
    (hlength : payload.length ≤ websocketMaxFrameSize) (hkey : key.length = 4) :
    Reads websocketReadFrameBytes (websocketEncodeFrame opcode payload masked fin key)
      ⟨fin, opcode, payload, masked⟩ := by
  obtain ⟨length7, extended, h7, hheader, hread⟩ :=
    lengthHeader_eq (if masked then 128 else 0) hlength
  obtain ⟨hfin, -, hop⟩ := flagged fin opcode (by omega)
  obtain ⟨hmasked, hlength7, -⟩ := flagged masked length7 h7
  rw [websocketEncodeFrame, hheader]
  refine Reads.bind (.take (rfl : [_, _].length = 2)) ?_
  simp only [getD_cons_zero, getD_cons_succ, hfin, hop hopcode, hmasked, hlength7]
  apply Reads.bind hread
  apply Reads.require hlength
  rw [← append_nil (ite ..)]
  exact .bind (reads_payload masked payload hkey) (.pure _)

/-- A masked text. -/
theorem reads_websocketEncodeFrame_text :
    Reads websocketReadFrameBytes (websocketEncodeFrame 1 [72, 105] true true [1, 2, 3, 4])
      ⟨true, 1, [72, 105], true⟩ :=
  reads_websocketEncodeFrame true true (by decide) (by decide) rfl

end Diamond.WebSocket
