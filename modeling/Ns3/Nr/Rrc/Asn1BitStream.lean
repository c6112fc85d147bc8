import Ns3.Network.OctetBits
import Ns3.Nr.Rrc.Asn1Header

/-!
# The stream of bits

A header that is written to holds a stream of bits: the octets of the result and the pending bits
behind them. One that is read from has a stream in front of it: the pending bits and the octets of
the buffer. In both cases the pending octet has zeros behind its bits.
-/

namespace Ns3.Nr.Asn1Header

open Network List UInt8

/-- The pending bits. -/
structure Pending (header : Asn1Header) (bits : List Bool) : Prop where
  count : header.numSerializationPendingBits = bits.length
  octet : octetBits header.serializationPendingBits = bits ++ replicate (8 - bits.length) false

/-- What has been written is a stream. -/
def Writes (header : Asn1Header) (stream : List Bool) : Prop :=
  ∃ bits, Pending header bits ∧ bits.length < 8 ∧ stream = header.serializationResult.flatMap octetBits ++ bits

/-- What is left to read is a stream. -/
def Reads (header : Asn1Header) (buffer : List UInt8) (stream : List Bool) : Prop :=
  ∃ bits, Pending header bits ∧ bits.length < 8 ∧ stream = bits ++ buffer.flatMap octetBits

variable {header : Asn1Header} {bits stream : List Bool} {size : Nat} {data : BitVec size} {mask octet : UInt8}
  {buffer : List UInt8} {count position place : Nat}

theorem nextMask_mask (below : place < 7) : nextMask (0x80 >>> ofNat place) = 0x80 >>> ofNat (place + 1) := by
  revert place
  decide

theorem Pending.length_le (pending : Pending header bits) : bits.length ≤ 8 := by
  have length := congrArg List.length pending.octet
  rw [length_octetBits, length_append, length_replicate] at length
  omega

theorem octet_append (isOctet : octetBits octet = bits ++ replicate (8 - bits.length) false)
    (room : bits.length < 8) (bit : Bool) :
    octetBits (octet ||| if bit then 0x80 >>> ofNat bits.length else 0) =
      (bits ++ [bit]) ++ replicate (8 - (bits ++ [bit]).length) false := by
  have behind : replicate (8 - bits.length) false = false :: replicate (7 - bits.length) false := by
    rw [show 8 - bits.length = 7 - bits.length + 1 by omega, replicate_succ]
  have clear : octetBit octet bits.length = false := by
    rw [← getElem_octetBits (by simpa using room)]
    simp only [isOctet, behind]
    rw [getElem_append_right (Nat.le_refl _)]
    simp
  rw [octetBits_or_mask room, clear, isOctet, behind, set_append_right _ _ (Nat.le_refl _), Nat.sub_self,
    set_cons_zero, Bool.false_or, length_append, length_singleton, append_assoc,
    show 8 - (bits.length + 1) = 7 - bits.length by omega]
  rfl

theorem Pending.append (pending : Pending header bits) (room : bits.length < 8) (bit : Bool) : Pending { header with
      serializationPendingBits :=
        header.serializationPendingBits ||| if bit then 0x80 >>> ofNat bits.length else 0
      numSerializationPendingBits := header.numSerializationPendingBits + 1 } (bits ++ [bit]) where
  count := by
    dsimp only
    rw [pending.count, length_append, length_singleton]
  octet := octet_append pending.octet room bit

theorem pending_zero {result : List UInt8} {isDataSerialized : Bool} : Pending ⟨0, 0, isDataSerialized, result⟩ [] :=
  ⟨rfl, (by decide : octetBits 0 = replicate 8 false)⟩

theorem Pending.flushOctet (pending : Pending header bits) :
    Writes header.flushOctet (header.serializationResult.flatMap octetBits ++ bits) := by
  have bound := pending.length_le
  unfold Asn1Header.flushOctet
  rw [pending.count]
  split
  · rename_i full
    have whole : octetBits header.serializationPendingBits = bits := by
      rw [pending.octet, show 8 - bits.length = 0 by omega, replicate_zero, append_nil]
    refine ⟨[], pending_zero, by simp, ?_⟩
    rw [writeOctet, append_nil, flatMap_append, flatMap_singleton, whole]
  · exact ⟨bits, pending, by omega, rfl⟩

theorem completeOctet_spec (pending : Pending header bits)
    (isMask : bits.length < 8 -> mask = 0x80 >>> ofNat bits.length) :
    ∃ left after taken, completeOctet data count mask header = (left, after) ∧
      bitsBelow data count = taken ++ bitsBelow data left ∧
      Writes after (header.serializationResult.flatMap octetBits ++ (bits ++ taken)) ∧
      (left = 0 ∨ after.numSerializationPendingBits = 0) := by
  induction count generalizing header bits mask with
  | zero =>
    refine ⟨0, _, [], rfl, rfl, ?_, .inl rfl⟩
    rw [append_nil]
    exact pending.flushOctet
  | succ count ih =>
    unfold completeOctet
    rw [pending.count]
    by_cases room : bits.length < 8
    · rw [if_pos room, isMask room]
      have appended := pending.append room (data.getLsbD count)
      rw [pending.count] at appended
      have isNextMask : (bits ++ [data.getLsbD count]).length < 8 -> nextMask (0x80 >>> ofNat bits.length) =
          0x80 >>> ofNat (bits ++ [data.getLsbD count]).length := by
        intro more
        rw [length_append, length_singleton] at more ⊢
        exact nextMask_mask (by omega)
      obtain ⟨left, after, taken, isResult, parts, writes, done⟩ := ih appended isNextMask
      refine ⟨left, after, data.getLsbD count :: taken, isResult, ?_, ?_, done⟩
      · rw [bitsBelow, parts, cons_append]
      · rw [append_assoc, singleton_append] at writes
        exact writes
    · rw [if_neg room]
      have full : bits.length = 8 := by
        have bound := pending.length_le
        omega
      refine ⟨count + 1, _, [], rfl, rfl, ?_, .inr ?_⟩
      · rw [append_nil]
        exact pending.flushOctet
      · rw [Asn1Header.flushOctet, if_pos (by rw [pending.count]; omega)]

theorem take_bitsBelow (below : count < position) : (bitsBelow data position).take (count + 1) =
      (bitsBelow data position).take count ++ [data.getLsbD (position - (count + 1))] := by
  rw [take_succ_eq_append_getElem (by simpa using below), getElem_bitsBelow,
    show position - 1 - count = position - (count + 1) by omega]

theorem gatherOctet_spec {tail : List Bool} (below : count ≤ position)
    (isOctet : octetBits octet = replicate count false ++ tail) (bound : count ≤ 8)
    (isMask : 0 < count -> mask = 0x80 >>> ofNat (count - 1)) :
    octetBits (gatherOctet data position count mask octet) = (bitsBelow data position).take count ++ tail := by
  induction count generalizing mask octet tail with
  | zero => simpa [gatherOctet] using isOctet
  | succ count ih =>
    have split : replicate (count + 1) false = replicate count false ++ [false] := replicate_succ'
    have clear : octetBit octet count = false := by
      rw [← getElem_octetBits (by simp; omega)]
      simp only [isOctet]
      rw [getElem_append_left (by simp)]
      simp
    unfold gatherOctet
    rw [isMask (by omega), Nat.add_sub_cancel]
    rw [@ih _ _ (data.getLsbD (position - (count + 1)) :: tail) (by omega) ?_ (by omega) ?_,
      take_bitsBelow (by omega), append_assoc, singleton_append]
    · rw [octetBits_or_mask (by omega), clear, isOctet, split, append_assoc,
        set_append_right _ _ (by simp), length_replicate, Nat.sub_self, Bool.false_or]
      rfl
    · intro more
      have next : ∀ place < 7, (((0x80 : UInt8) >>> ofNat (place + 1)) <<< 1) &&&
          ~~~(0x80 >>> ofNat (place + 1)) = 0x80 >>> ofNat place := by decide
      have isNext := next (count - 1) (by omega)
      rw [show count - 1 + 1 = count by omega] at isNext
      exact isNext

theorem storeBits_spec (isOctet : octetBits octet = bits ++ replicate (8 - bits.length) false)
    (room : bits.length + count ≤ 8) (isMask : bits.length < 8 -> mask = 0x80 >>> ofNat bits.length) :
    octetBits (storeBits data count mask octet) =
      (bits ++ bitsBelow data count) ++ replicate (8 - (bits ++ bitsBelow data count).length) false := by
  induction count generalizing mask octet bits with
  | zero =>
    rw [storeBits, bitsBelow, append_nil]
    exact isOctet
  | succ count ih =>
    unfold storeBits
    rw [isMask (by omega)]
    have appended := octet_append isOctet (by omega) (data.getLsbD count)
    rw [ih appended (by rw [length_append, length_singleton]; omega), bitsBelow, append_assoc bits, singleton_append]
    intro more
    rw [length_append, length_singleton] at more ⊢
    exact nextMask_mask (by omega)

theorem writeOctets_rest (some : 0 < count) (few : count < 8) : writeOctets data count header = { header with
      numSerializationPendingBits := count
      serializationPendingBits := storeBits data count 0x80 header.serializationPendingBits } := by
  rcases count with _ | _ | _ | _ | _ | _ | _ | _ | count
  · omega
  all_goals first | rfl | omega

theorem writeOctets_spec (pending : Pending header []) :
    Writes (writeOctets data count header) (header.serializationResult.flatMap octetBits ++ bitsBelow data count) := by
  induction count using Nat.strong_induction_on generalizing header with
  | _ count ih =>
    by_cases few : count < 8
    · by_cases none : count = 0
      · subst none
        exact ⟨[], pending, by simp, rfl⟩
      · rw [writeOctets_rest (by omega) few]
        have stored := @storeBits_spec [] size data 0x80 header.serializationPendingBits count pending.octet
          (by simpa using few.le) fun _ => rfl
        exact ⟨bitsBelow data count, ⟨(length_bitsBelow data count).symm, stored⟩, by simpa using few, rfl⟩
    · obtain ⟨rest, rfl⟩ := Nat.exists_eq_add_of_le' (Nat.not_lt.mp few)
      have gathered : octetBits (gatherOctet data (rest + 8) 8 1 0) = (bitsBelow data (rest + 8)).take 8 := by
        have whole := @gatherOctet_spec size data 1 0 8 (rest + 8) [] (by omega) (by decide) (Nat.le_refl _)
          (by decide)
        rwa [append_nil] at whole
      have written := @ih rest (by omega)
        (header.writeOctet (gatherOctet data (rest + 8) 8 1 0)) ⟨pending.count, pending.octet⟩
      rw [writeOctet, flatMap_append, flatMap_singleton, gathered, append_assoc,
        ← bitsBelow_add data rest 8] at written
      exact written

theorem Writes.serializeBitset (writes : Writes header stream) (small : size < 256) (data : BitVec size) :
    Writes (header.serializeBitset data) (stream ++ bitsBelow data size) := by
  obtain ⟨bits, pending, few, rfl⟩ := writes
  unfold Asn1Header.serializeBitset
  split
  · rename_i empty
    subst empty
    exact ⟨bits, pending, few, append_nil _⟩
  · rw [if_pos (by omega), pending.count, Nat.mod_eq_of_lt small]
    split
    · obtain ⟨left, after, taken, isResult, parts, written, done⟩ :=
        @completeOctet_spec header bits size data _ size pending fun _ => rfl
      rw [isResult, parts]
      dsimp only
      obtain ⟨rest, isPending, short, isStream⟩ := written
      rcases done with rfl | none
      · refine ⟨rest, isPending, short, ?_⟩
        rw [bitsBelow, append_nil, append_assoc]
        exact isStream
      · obtain rfl := eq_nil_of_length_eq_zero (isPending.count.symm.trans none)
        rw [append_nil] at isStream
        have further := @writeOctets_spec after size data left isPending
        rw [← isStream] at further
        simpa only [append_assoc] using further
    · rename_i none
      obtain rfl := eq_nil_of_length_eq_zero (Nat.le_zero.mp (Nat.not_lt.mp none))
      rw [append_nil]
      exact writeOctets_spec pending

/-- The bits from a position on. -/
def bitsFrom (data : BitVec size) (position : Nat) : List Bool :=
  (bitsBelow data size).take (size - position)

theorem getLsbD_setBit (bit : Bool) (below : position < size) (other : Nat) :
    (setBit data position bit).getLsbD other = if other = position then bit else data.getLsbD other := by
  unfold setBit
  cases bit with
  | false =>
    rw [if_neg Bool.false_ne_true, BitVec.getLsbD_and, BitVec.getLsbD_not, BitVec.getLsbD_twoPow]
    by_cases same : other = position
    · simp [same, below]
    · have differ : ¬position = other := fun equal => same equal.symm
      by_cases inside : other < size
      · simp [same, differ, inside]
      · simp [same, inside, BitVec.getLsbD_of_ge _ _ (Nat.not_lt.mp inside)]
  | true =>
    rw [if_pos rfl, BitVec.getLsbD_or, BitVec.getLsbD_twoPow]
    by_cases same : other = position
    · simp [same, below]
    · have differ : ¬position = other := fun equal => same equal.symm
      simp [same, differ]

theorem bitsFrom_setBit (bit : Bool) (below : position < size) :
    bitsFrom (setBit data position bit) position = bitsFrom data (position + 1) ++ [bit] := by
  apply ext_getElem
  · rw [bitsFrom, bitsFrom, length_append, length_take, length_take, length_bitsBelow, length_bitsBelow,
      length_singleton]
    omega
  · intro i left right
    rw [bitsFrom, length_take, length_bitsBelow] at left
    have inside : i < size := by omega
    simp only [bitsFrom, getElem_take]
    rw [getElem_bitsBelow, getLsbD_setBit bit below]
    by_cases last : i < size - (position + 1)
    · rw [getElem_append_left (by simp; omega), getElem_take, getElem_bitsBelow, if_neg (by omega)]
    · rw [getElem_append_right (by simp; omega), getElem_singleton, if_pos (by omega)]

theorem Pending.shift {bit : Bool} (pending : Pending header (bit :: bits)) : Pending { header with
      numSerializationPendingBits := header.numSerializationPendingBits - 1
      serializationPendingBits := header.serializationPendingBits <<< 1 } bits ∧
      decide (header.serializationPendingBits &&& 0x80 ≠ 0) = bit := by
  have bound := pending.length_le
  rw [length_cons] at bound
  refine ⟨⟨?_, ?_⟩, ?_⟩
  · dsimp only
    rw [pending.count, length_cons, Nat.add_sub_cancel]
  · have shifted := octetBits_shiftLeft (by omega : 1 < 8) header.serializationPendingBits
    rw [pending.octet, cons_append, drop_succ_cons, drop_zero, length_cons, append_assoc,
      replicate_append_replicate, show 8 - (bits.length + 1) + 1 = 8 - bits.length by omega] at shifted
    exact shifted
  · have top := and_mask_ne_zero (by omega : 0 < 8) header.serializationPendingBits
    rw [← getElem_octetBits (by simp)] at top
    simp only [pending.octet] at top
    exact top

theorem takePending_spec (pending : Pending header bits) (bound : count ≤ size) :
    ∃ left after result taken rest, takePending count header data = (left, after, result) ∧
      count = left + taken.length ∧ bits = taken ++ rest ∧ Pending after rest ∧
      bitsFrom result left = bitsFrom data count ++ taken ∧ (left = 0 ∨ rest = []) := by
  induction count generalizing header bits data with
  | zero => exact ⟨0, _, _, [], bits, rfl, rfl, rfl, pending, (append_nil _).symm, .inl rfl⟩
  | succ count ih =>
    unfold takePending
    rw [pending.count]
    cases bits with
    | nil => exact ⟨count + 1, _, _, [], [], rfl, rfl, rfl, pending, (append_nil _).symm, .inr rfl⟩
    | cons bit bits =>
      rw [if_pos (by simp)]
      obtain ⟨shifted, isBit⟩ := pending.shift
      rw [isBit]
      obtain ⟨left, after, result, taken, rest, isResult, isCount, parts, isPending, isBits, done⟩ :=
        @ih _ _ (setBit data count bit) shifted (by omega)
      rw [pending.count] at isResult
      refine ⟨left, after, result, bit :: taken, rest, isResult, ?_, ?_, isPending, ?_, done⟩
      · rw [length_cons, isCount]
        rfl
      · rw [parts, cons_append]
      · rw [isBits, bitsFrom_setBit bit (by omega), append_assoc, singleton_append]

theorem setBits_spec {lowest : Nat} (room : place + count ≤ 8) (bound : lowest + count ≤ size)
    (isMask : place < 8 -> mask = 0x80 >>> ofNat place) :
    bitsFrom (setBits octet lowest count mask data) lowest =
      bitsFrom data (lowest + count) ++ ((octetBits octet).drop place).take count := by
  induction count generalizing place mask data with
  | zero =>
    rw [setBits, take_zero, append_nil]
    rfl
  | succ count ih =>
    have next : place + 1 < 8 -> mask >>> 1 = 0x80 >>> ofNat (place + 1) := by
      intro inside
      rw [isMask (by omega)]
      have shift : ∀ place < 7, ((0x80 : UInt8) >>> ofNat place) >>> 1 = 0x80 >>> ofNat (place + 1) := by
        decide
      exact shift place (by omega)
    have first : (octetBits octet).drop place = octetBit octet place :: (octetBits octet).drop (place + 1) := by
      rw [drop_eq_getElem_cons (by simp; omega), getElem_octetBits]
    unfold setBits
    rw [ih (by omega) (by omega) next, isMask (by omega), and_mask_ne_zero (by omega),
      bitsFrom_setBit _ (by omega), first, take_succ_cons, append_assoc, singleton_append]
    rfl

theorem readOctets_rest (some : 0 < count) (few : count < 8) : readOctets count header data (octet :: buffer) =
      Option.some (setBits octet 0 count 0x80 data, { header with
          numSerializationPendingBits := 8 - count
          serializationPendingBits := octet <<< ofNat count }, buffer) := by
  rcases count with _ | _ | _ | _ | _ | _ | _ | _ | count
  · omega
  all_goals first | rfl | omega

theorem readOctets_spec (pending : Pending header []) (bound : count ≤ size)
    (enough : count ≤ (buffer.flatMap octetBits).length) :
    ∃ result after rest, readOctets count header data buffer = some (result, after, rest) ∧
      Reads after rest ((buffer.flatMap octetBits).drop count) ∧
      bitsBelow result size = bitsFrom data count ++ (buffer.flatMap octetBits).take count := by
  induction count using Nat.strong_induction_on generalizing data buffer with
  | _ count ih =>
    by_cases none : count = 0
    · subst none
      refine ⟨data, header, buffer, by rw [readOctets], ⟨[], pending, by simp, rfl⟩, ?_⟩
      rw [take_zero, append_nil, bitsFrom, Nat.sub_zero, take_of_length_le (by simp)]
    · cases buffer with
      | nil =>
        rw [flatMap_nil, length_nil] at enough
        omega
      | cons octet buffer =>
        rw [flatMap_cons] at enough ⊢
        rw [length_append, length_octetBits] at enough
        by_cases few : count < 8
        · have bits := @setBits_spec size data 0x80 octet count 0 0 (by omega) (by omega) fun _ => rfl
          refine ⟨_, _, _, readOctets_rest (by omega) few,
            ⟨(octetBits octet).drop count, ⟨?_, ?_⟩, ?_, ?_⟩, ?_⟩
          · rw [length_drop, length_octetBits]
          · rw [length_drop, length_octetBits, show 8 - (8 - count) = count by omega]
            exact octetBits_shiftLeft few octet
          · rw [length_drop, length_octetBits]
            omega
          · rw [drop_append_of_le_length (by simp; omega)]
          · rw [bitsFrom, Nat.sub_zero, take_of_length_le (by simp), drop_zero, Nat.zero_add] at bits
            rw [bits, take_append_of_le_length (by simp; omega)]
        · obtain ⟨left, rfl⟩ := Nat.exists_eq_add_of_le' (Nat.not_lt.mp few)
          have bits := @setBits_spec size data 0x80 octet 8 0 left (by omega) (by omega) fun _ => rfl
          obtain ⟨result, after, rest, isResult, reads, isBits⟩ := @ih left (by omega)
            (setBits octet left 8 0x80 data) buffer (by omega) (by omega)
          refine ⟨result, after, rest, ?_, ?_, ?_⟩
          · rw [readOctets]
            exact isResult
          · rw [Nat.add_comm, ← length_octetBits octet, drop_length_add_append]
            exact reads
          · rw [drop_zero, take_of_length_le (by simp)] at bits
            rw [isBits, bits, Nat.add_comm left 8, ← length_octetBits octet, take_length_add_append,
              append_assoc, Nat.add_comm]

theorem Reads.deserializeBitset (reads : Reads header buffer stream) (enough : size ≤ stream.length)
    (data : BitVec size) :
    ∃ result after rest, header.deserializeBitset data buffer = some (result, after, rest) ∧
      Reads after rest (stream.drop size) ∧ bitsBelow result size = stream.take size := by
  obtain ⟨bits, pending, few, rfl⟩ := reads
  obtain ⟨left, after, result, taken, rest, isTaken, isCount, rfl, isPending, isBits, done⟩ :=
    @takePending_spec header bits size data size pending (Nat.le_refl _)
  have nothing : bitsFrom data size = [] := by rw [bitsFrom, Nat.sub_self, take_zero]
  rw [nothing, nil_append] at isBits
  unfold Asn1Header.deserializeBitset
  rw [isTaken]
  dsimp only
  have few : rest.length < 8 := by
    rw [length_append] at few
    omega
  rcases done with rfl | rfl
  · rw [readOctets]
    rw [Nat.zero_add] at isCount
    refine ⟨result, after, buffer, rfl, ⟨rest, isPending, few, ?_⟩, ?_⟩
    · rw [isCount, append_assoc, drop_left]
    · rw [bitsFrom, Nat.sub_zero, take_of_length_le (by simp)] at isBits
      rw [isBits, append_assoc, isCount, take_left]
  · rw [append_nil, length_append] at enough
    obtain ⟨final, last, remaining, isFinal, finalReads, finalBits⟩ :=
      @readOctets_spec after size result buffer left isPending (by omega) (by omega)
    refine ⟨final, last, remaining, isFinal, ?_, ?_⟩
    · rw [append_nil, isCount, Nat.add_comm, drop_length_add_append]
      exact finalReads
    · rw [finalBits, isBits, append_nil, isCount, Nat.add_comm, take_length_add_append]

end Ns3.Nr.Asn1Header
