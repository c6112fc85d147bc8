import Ns3.Internet.Fragmentation.Ipv6Reassembly

/-!
# IPv6 fragmentation and reassembly

The fragments of a packet give it back when the last missing one arrives exactly if none has to
carry extension headers, eight bytes fit, and none arrives twice before: `inverse_iff`. Headers are
put back in the opposite order, and a fragment that is there twice is taken for a gap.
-/

namespace Ns3.Internet.Ipv6Extension

open Fragments List Option Function UInt8 Nat ExtensionHeader

/-! ## Packets -/

/-- A header whose length field is right; what routing headers reserve is zero. -/
def ExtensionHeader.WellFormed (header : ExtensionHeader) : Prop :=
  if header.kind = .routing then
    ∃ (addressNum : Nat) (segmentsLeft : UInt8) (addresses : List UInt8), addressNum < 128 ∧
      addresses.length = addressNum * 16 ∧
      header.rest = UInt8.ofNat (addressNum * 2) :: 0 :: segmentsLeft :: 0 :: 0 :: 0 :: 0 :: addresses
  else
    ∃ (length : UInt8) (options : List UInt8), options.length = 8 * (length.toNat + 1) - 2 ∧
      header.rest = length :: options

/-- The number of the first of some headers, or of what is behind them. -/
def firstNumber (upper : UInt8) : List ExtensionHeader -> UInt8
  | [] => upper
  | header :: _ => header.kind.number

/-- Each header announces the next one. -/
def Linked (upper : UInt8) : List ExtensionHeader -> Prop
  | [] => True
  | header :: rest => header.nextHeader = firstNumber upper rest ∧ Linked upper rest

/-- A chain of extension headers and a payload that is none, of a length that an IPv6 header can
have. -/
structure ExtendedPacket where
  headers : List ExtensionHeader
  upper : UInt8
  payload : List UInt8
  wellFormed : ∀ header ∈ headers, header.WellFormed
  linked : Linked upper headers
  isPayload : upper ≠ extHopByHop ∧ upper ≠ extRouting ∧ upper ≠ extFragmentation ∧ upper ≠ extDestination
  small : (headers.flatMap ExtensionHeader.serialize ++ payload).length < 2 ^ 16

namespace ExtendedPacket

def bytes (packet : ExtendedPacket) : List UInt8 :=
  packet.headers.flatMap ExtensionHeader.serialize ++ packet.payload

/-- The next header field of the IPv6 header. -/
def nextHeader (packet : ExtendedPacket) : UInt8 :=
  firstNumber packet.upper packet.headers

end ExtendedPacket

/-- The headers that each fragment is to carry: those in front of a destination header that no
routing header follows. -/
def unfragmentable : List ExtensionHeader -> List ExtensionHeader
  | [] => []
  | header :: rest =>
    if header.kind = .destination ∧ (rest.head?.map ExtensionHeader.kind) ≠ some .routing then []
    else header :: unfragmentable rest

/-- Headers that a fragment header follows. -/
def relink : List ExtensionHeader -> List ExtensionHeader
  | [] => []
  | [last] => [{ last with nextHeader := extFragmentation }]
  | header :: next :: rest => header :: relink (next :: rest)

variable (packet : ExtendedPacket)

/-- A fragment carries the headers in their order, each announcing the next, then a fragment header
that announces what follows in the packet. -/
def Carries (fragment : Ipv6Fragment) : Prop :=
  fragment.nextHeader = firstNumber extFragmentation (unfragmentable packet.headers) ∧
    ∃ (header : FragmentHeader) (data : List UInt8),
      fragment.packet = (relink (unfragmentable packet.headers)).flatMap ExtensionHeader.serialize ++
        (header.serialize ++ data) ∧
      header.nextHeader = firstNumber packet.upper (packet.headers.drop (unfragmentable packet.headers).length)

/-! ## Arrivals -/

/-- The fragments received after some have arrived in an order. -/
def arrivals (fragments : List Ipv6Fragment) (order : List Nat) : List Ipv6Fragment :=
  order.filterMap fun index => fragments[index]?

/-- What the receiver keeps after some arrivals. -/
def receivedAfter (source : BitVec 128) (offset : UInt8) (received : List Ipv6Fragment) :
    Option (FragmentKey -> Option Gathered) :=
  received.foldlM (fun kept fragment => (process kept source offset fragment.packet).map Processed.fragments)
    fun _ => none

/-- What an arrival gives back, after some others, and the next header reported with it. -/
def answer (source : BitVec 128) (offset : UInt8) (received : List Ipv6Fragment) (last : Ipv6Fragment) :
    Option (UInt8 × Option (List UInt8)) :=
  (receivedAfter source offset received).bind fun kept =>
    (process kept source offset last.packet).map fun processed => (processed.nextHeader, processed.packet)

/-- An order in which all fragments arrive, some of them several times. -/
def Arrives (fragments : List Ipv6Fragment) (order : List Nat) : Prop :=
  ∀ index, index < fragments.length ↔ index ∈ order

/-- The arrival of the last fragment that is missing. -/
structure LastMissing (fragments : List Ipv6Fragment) (order earlier : List Nat) (last : Nat) : Prop where
  isPrefix : earlier ++ [last] <+: order
  missing : last ∉ earlier
  all : ∀ index, index < fragments.length -> index ∈ earlier ++ [last]

/-- Where the fragment header of each fragment starts. -/
def headerOffset : UInt8 :=
  UInt8.ofNat ((unfragmentable packet.headers).flatMap ExtensionHeader.serialize).length

/-- The last fragment to arrive gives back the packet, and announces what is behind its headers. -/
def Reassembled (source : BitVec 128) (fragments : List Ipv6Fragment)
    (earlier : List Nat) (last : Nat) : Prop :=
  ∃ fragment, fragments[last]? = some fragment ∧
    answer source (headerOffset packet) (arrivals fragments earlier) fragment =
      some (firstNumber packet.upper (packet.headers.drop (unfragmentable packet.headers).length), some packet.bytes)

/-- Fragmentation and reassembly, for the fragments of a packet arriving in an order. -/
def Inverse (maxFragmentSize : Nat) (identification : UInt32) (source : BitVec 128)
    (order : List Nat) : Prop :=
  ∃ fragments, getFragments packet.bytes packet.nextHeader maxFragmentSize identification = some fragments ∧
    (∀ fragment ∈ fragments, Carries packet fragment ∧ ipv6HeaderSize + fragment.packet.length ≤ maxFragmentSize) ∧
    ∃ earlier last, LastMissing fragments order earlier last ∧ Reassembled packet source fragments earlier last

/-- No fragment arrives twice before all are there. -/
def OnceEach (order : List Nat) : Prop :=
  ∃ before after, order = before ++ after ∧ before.Nodup ∧ after ⊆ before

/-! ## Headers that are taken off -/

theorem removeOptions_serialize {kind : HeaderKind} {nextHeader length : UInt8} {options : List UInt8}
    (sized : options.length = 8 * (length.toNat + 1) - 2) (tail : List UInt8) :
    removeOptions kind (nextHeader :: length :: options ++ tail) =
      some ⟨⟨kind, nextHeader, length :: options⟩, 8 * (length.toNat + 1) % 2 ^ 8, tail⟩ := by
  have whole : (nextHeader :: length :: options).length = 8 * (length.toNat + 1) := by
    simp only [length_cons, sized]
    omega
  have long : ¬ (nextHeader :: length :: (options ++ tail)).length < 8 * (length.toNat + 1) := by
    rw [← cons_append, ← cons_append, length_append, whole]
    omega
  have again : UInt8.ofNat (8 * (length.toNat + 1) / 8 - 1) = length := by
    rw [Nat.mul_div_cancel_left _ (by decide), Nat.add_sub_cancel, UInt8.ofNat_toNat]
  simp only [cons_append, removeOptions, if_neg long, again, some.injEq, Removed.mk.injEq,
    ExtensionHeader.mk.injEq, List.cons.injEq, true_and]
  refine ⟨?_, ?_⟩
  · rw [← sized, take_left]
  · rw [← cons_append, ← cons_append, ← whole, drop_left]

theorem removeRouting_serialize {nextHeader segmentsLeft : UInt8} {addressNum : Nat} {addresses : List UInt8}
    (few : addressNum < 128) (sized : addresses.length = addressNum * 16) (tail : List UInt8) :
    removeRouting (nextHeader :: ofNat (addressNum * 2) :: 0 :: segmentsLeft :: 0 :: 0 :: 0 :: 0 ::
        addresses ++ tail) =
      some ⟨⟨.routing, nextHeader,
        ofNat (addressNum * 2) :: 0 :: segmentsLeft :: 0 :: 0 :: 0 :: 0 :: addresses⟩,
        (8 + addressNum * 16) % 2 ^ 8, tail⟩ := by
  have read : (ofNat (addressNum * 2)).toNat = addressNum * 2 := by
    rw [toNat_ofNat']
    exact Nat.mod_eq_of_lt (by omega)
  have half : addressNum * 2 / 2 = addressNum := Nat.mul_div_cancel _ (by decide)
  simp only [cons_append, removeRouting, read, half]
  have long : ¬ ((nextHeader :: ofNat (addressNum * 2) :: 0 :: segmentsLeft :: 0 :: 0 :: 0 :: 0 ::
      (addresses ++ tail)).length < 8 + addressNum * 16 ∨ (0 : UInt8) ≠ 0) := by
    rintro (short | nonzero)
    · simp only [length_cons, length_append, sized] at short
      omega
    · exact nonzero rfl
  have length : 8 * (addressNum * 2 + 1) = 8 + addressNum * 16 := by omega
  rw [if_neg long, length]
  simp only [drop_succ_cons, drop_zero, some.injEq, Removed.mk.injEq, ExtensionHeader.mk.injEq,
    List.cons.injEq, true_and]
  refine ⟨?_, ?_⟩
  · rw [← sized, take_left]
  · rw [Nat.add_comm 8, ← sized]
    simp

theorem removeHeader_serialize {header : ExtensionHeader} (wellFormed : header.WellFormed) (tail : List UInt8) :
    removeHeader header.kind.number (header.serialize ++ tail) =
      some ⟨header, header.serialize.length % 2 ^ 8, tail⟩ := by
  obtain ⟨kind, nextHeader, rest⟩ := header
  have options : kind ≠ .routing -> ∀ other, removeOptions other (nextHeader :: rest ++ tail) =
      some ⟨⟨other, nextHeader, rest⟩, (nextHeader :: rest).length % 2 ^ 8, tail⟩ := by
    intro notRouting other
    rw [ExtensionHeader.WellFormed, if_neg notRouting] at wellFormed
    obtain ⟨length, options, sized, rfl⟩ := wellFormed
    rw [removeOptions_serialize sized]
    simp only [length_cons, sized]
    congr 3
  cases kind with
  | hopByHop => exact options (by decide) .hopByHop
  | destination => exact options (by decide) .destination
  | routing =>
    rw [ExtensionHeader.WellFormed, if_pos rfl] at wellFormed
    obtain ⟨addressNum, segmentsLeft, addresses, few, sized, rfl⟩ := wellFormed
    refine (removeRouting_serialize few sized tail).trans ?_
    simp only [serialize, length_cons, sized]
    congr 3
    omega

variable {upper : UInt8} {headers : List ExtensionHeader}

/-- What headers announce is never the fragment header. -/
theorem firstNumber_ne (notFragment : upper ≠ extFragmentation) : firstNumber upper headers ≠ extFragmentation := by
  cases headers with
  | nil => exact notFragment
  | cons header rest =>
    rw [firstNumber]
    cases header.kind <;> decide

/-- A header is taken off exactly if each fragment is to carry it. -/
theorem moreHeader_eq (payload : List UInt8) (linked : Linked upper headers)
    (isPayload : upper ≠ extHopByHop ∧ upper ≠ extRouting ∧ upper ≠ extFragmentation ∧ upper ≠ extDestination) :
    moreHeader (firstNumber upper headers) (headers.flatMap serialize ++ payload) =
      !(unfragmentable headers).isEmpty := by
  cases headers with
  | nil =>
    simp [moreHeader, firstNumber, unfragmentable, isPayload]
  | cons header rest =>
    obtain ⟨next, -⟩ := linked
    have first : ((header :: rest).flatMap serialize ++ payload).head? = some header.nextHeader := by
      simp [serialize]
    rw [moreHeader, first, firstNumber, unfragmentable, next]
    cases header.kind with
    | hopByHop => rfl
    | routing => rfl
    | destination =>
      cases rest with
      | nil =>
        have notRouting : ¬ upper = extRouting := isPayload.2.1
        simp [firstNumber, HeaderKind.number, extHopByHop, extRouting, extDestination] at notRouting ⊢
        exact notRouting
      | cons second others =>
        obtain ⟨kind, nextHeader, rest⟩ := second
        cases kind <;> rfl

theorem length_le_bytes (headers : List ExtensionHeader) (payload : List UInt8) :
    headers.length ≤ (headers.flatMap serialize ++ payload).length := by
  induction headers with
  | nil => exact zero_le _
  | cons header rest ih =>
    simp only [flatMap_cons, append_assoc, length_append, length_cons] at ih ⊢
    simp only [serialize, length_cons]
    omega

theorem relink_cons {header : ExtensionHeader} {rest : List ExtensionHeader} (some : rest ≠ []) :
    relink (header :: rest) = header :: relink rest := by
  cases rest with
  | nil => exact absurd rfl some
  | cons => rfl

/-- The headers that each fragment is to carry come off, and the last one announces the fragment
header. -/
theorem peelFrom_eq (payload : List UInt8)
    (wellFormed : ∀ header ∈ headers, header.WellFormed) (linked : Linked upper headers)
    (isPayload : upper ≠ extHopByHop ∧ upper ≠ extRouting ∧ upper ≠ extFragmentation ∧ upper ≠ extDestination)
    (some : unfragmentable headers ≠ []) {rounds : Nat} (enough : headers.length ≤ rounds) :
    peelFrom rounds (firstNumber upper headers) (headers.flatMap serialize ++ payload) = .some
        { unfragmentablePart := relink (unfragmentable headers)
          unfragmentablePartSize :=
            ((unfragmentable headers).map fun header => header.serialize.length % 2 ^ 8).sum
          nextHeader := firstNumber upper (headers.drop (unfragmentable headers).length)
          p := (headers.drop (unfragmentable headers).length).flatMap serialize ++ payload } := by
  induction headers generalizing rounds with
  | nil => exact absurd rfl some
  | cons header rest ih =>
    have carried : unfragmentable (header :: rest) = header :: unfragmentable rest := by
      rw [unfragmentable] at some ⊢
      split
      next isUpper => exact absurd (if_pos isUpper) some
      · rfl
    cases rounds with
    | zero => exact absurd enough (not_succ_le_zero _)
    | succ rounds =>
      have removed := removeHeader_serialize (wellFormed header mem_cons_self) (rest.flatMap serialize ++ payload)
      obtain ⟨next, linkedRest⟩ := linked
      have more := moreHeader_eq payload linkedRest isPayload
      rw [flatMap_cons, append_assoc, firstNumber, peelFrom, removed, carried]
      simp only [bind_some, next, more]
      by_cases none : unfragmentable rest = []
      · simp [none, relink]
      · have further := ih (fun header mem => wellFormed header (mem_cons_of_mem _ mem))
          linkedRest none (le_of_succ_le_succ enough)
        have nonempty : (!(unfragmentable rest).isEmpty) = true := by
          rw [Bool.not_eq_true', isEmpty_eq_false_iff]
          exact none
        rw [if_pos nonempty, further, relink_cons none]
        simp

theorem peel_eq : peel packet.nextHeader packet.bytes = some
        { unfragmentablePart := relink (unfragmentable packet.headers)
          unfragmentablePartSize :=
            ((unfragmentable packet.headers).map fun header => header.serialize.length % 2 ^ 8).sum
          nextHeader := firstNumber packet.upper (packet.headers.drop (unfragmentable packet.headers).length)
          p := (packet.headers.drop (unfragmentable packet.headers).length).flatMap serialize ++
            packet.payload } := by
  have more := moreHeader_eq packet.payload packet.linked packet.isPayload
  rw [peel, ExtendedPacket.nextHeader, ExtendedPacket.bytes, more]
  by_cases none : unfragmentable packet.headers = []
  · simp [none, relink]
  · have nonempty : (!(unfragmentable packet.headers).isEmpty) = true := by
      rw [Bool.not_eq_true', isEmpty_eq_false_iff]
      exact none
    rw [if_pos nonempty]
    apply peelFrom_eq packet.payload packet.wellFormed packet.linked packet.isPayload none
    exact le_succ_of_le (length_le_bytes packet.headers packet.payload)

/-! ## Fragments that carry no headers -/

namespace FragmentHeader

theorem four_bytes {word : Nat} (small : word < 2 ^ 32) :
    word / 2 ^ 24 % 2 ^ 8 * 2 ^ 24 + word / 2 ^ 16 % 2 ^ 8 * 2 ^ 16 + word / 2 ^ 8 % 2 ^ 8 * 2 ^ 8 + word % 2 ^ 8 =
      word := by
  simp only [reducePow] at small ⊢
  omega

theorem deserialize_serialize (header : FragmentHeader) (rest : List UInt8) :
    deserialize (header.serialize ++ rest) = some (header, rest) := by
  obtain ⟨nextHeader, offset, identification⟩ := header
  have offsetSmall : offset.toNat < 2 ^ 16 := offset.toNat_lt
  have readOffset : offset.toNat / 2 ^ 8 % 2 ^ 8 * 2 ^ 8 + offset.toNat % 2 ^ 8 = offset.toNat := by omega
  simp only [serialize, cons_append, nil_append, deserialize, toNat_ofNat', readOffset,
    four_bytes identification.toNat_lt, UInt16.ofNat_toNat, UInt32.ofNat_toNat]

theorem serialize_length (header : FragmentHeader) : header.serialize.length = serializedSize :=
  rfl

variable {moreFragment : Bool}

variable {nextHeader : UInt8} {offset : Nat} {identification : UInt32}

theorem make_offset (aligned : offset % 8 = 0) (small : offset < 2 ^ 16) :
    (make nextHeader offset moreFragment identification).offset.toNat = offset + if moreFragment then 1 else 0 := by
  rw [make, UInt16.toNat_ofNat']
  cases moreFragment with
  | false =>
    simp only [Bool.false_eq_true, if_false]
    omega
  | true =>
    simp only [if_true]
    omega

theorem getOffset_make (aligned : offset % 8 = 0) (small : offset < 2 ^ 16) :
    (make nextHeader offset moreFragment identification).getOffset = offset := by
  rw [getOffset, make_offset aligned small]
  cases moreFragment with
  | false =>
    simp only [Bool.false_eq_true, if_false]
    omega
  | true =>
    simp only [if_true]
    omega

theorem getMoreFragment_make (aligned : offset % 8 = 0) (small : offset < 2 ^ 16) :
    (make nextHeader offset moreFragment identification).getMoreFragment = moreFragment := by
  rw [getMoreFragment, make_offset aligned small]
  cases moreFragment with
  | false =>
    simp only [Bool.false_eq_true, if_false, decide_eq_false_iff_not]
    omega
  | true =>
    simp only [if_true, decide_eq_true_eq]
    omega

end FragmentHeader

/-- A part behind a fragment header. -/
def carry (nextHeader : UInt8) (identification : UInt32) (part : Fragment UInt8) : Ipv6Fragment :=
  let packet := (FragmentHeader.make nextHeader part.offset part.moreFragment identification).serialize ++ part.data
  { packet := packet, nextHeader := extFragmentation, payloadLength := packet.length % 2 ^ 16 }

/-- A packet without headers that each fragment is to carry. -/
def withoutHeaders (nextHeader : UInt8) (p : List UInt8) : Peeled where
  unfragmentablePart := []
  unfragmentablePartSize := 0
  nextHeader := nextHeader
  p := p

variable {p : List UInt8} {nextHeader : UInt8} {identification : UInt32} {source : BitVec 128} {offset size : Nat}
  {parts received : List (Fragment UInt8)} {part : Fragment UInt8}

theorem fragmentAt_withoutHeaders (inside : offset + size ≤ p.length) (moreFragment : Bool) :
    fragmentAt (withoutHeaders nextHeader p) extFragmentation identification offset size moreFragment =
      some (carry nextHeader identification ⟨(p.drop offset).take size, offset, moreFragment⟩) :=
  if_pos inside

/-- With room for eight bytes, the loop cuts a packet in consecutive parts that fit. -/
theorem fragmentLoop_consecutive {room : Nat} (enoughRoom : 8 ≤ room) (roomSmall : room < 2 ^ 17)
    (small : p.length < 2 ^ 16) (inside : offset < p.length) {rounds : Nat} (enough : p.length - offset < rounds) :
    ∃ parts, fragmentLoop (withoutHeaders nextHeader p) extFragmentation identification room rounds offset =
        some (parts.map (carry nextHeader identification)) ∧
      Consecutive p (room - room % 8) offset parts ∧ ∀ part ∈ parts, part.data.length ≤ room := by
  induction rounds generalizing offset with
  | zero => exact absurd enough (not_lt_zero _)
  | succ rounds ih =>
    have unwrapped : (offset + room) % 2 ^ 32 = offset + room := mod_eq_of_lt (by omega)
    have length : (withoutHeaders nextHeader p).p.length = p.length := rfl
    rw [fragmentLoop, length, unwrapped]
    by_cases more : p.length > offset + room
    · have next : (offset + (room - room % 8)) % 2 ^ 16 = offset + (room - room % 8) := mod_eq_of_lt (by omega)
      obtain ⟨rest, isRest, consecutive, fit⟩ :=
        @ih (offset + (room - room % 8)) (by omega) (by omega)
      have first := @fragmentAt_withoutHeaders p nextHeader identification offset (room - room % 8) (by omega) true
      refine ⟨⟨(p.drop offset).take (room - room % 8), offset, true⟩ :: rest, ?_, .more (by omega) consecutive, ?_⟩
      · rw [if_pos more]
        simp only [first, next, bind_some, isRest, map_some, map_cons]
      · rintro part (_ | ⟨_, later⟩)
        · exact le_trans (length_take_le _ _) (sub_le _ _)
        · exact fit part later
    · have only := @fragmentAt_withoutHeaders p nextHeader identification offset (p.length - offset) (by omega) false
      rw [take_of_length_le (le_of_eq length_drop)] at only
      refine ⟨[⟨p.drop offset, offset, false⟩], ?_, .last inside, ?_⟩
      · rw [if_neg more]
        simp only [only, map_some, map_cons, map_nil]
      · rintro part (_ | ⟨_, none⟩)
        · rw [length_drop]
          omega
        · cases none

/-- Without room for eight bytes, the loop makes fragments that carry nothing, and never ends. -/
theorem fragmentLoop_eq_none {room : Nat} (noRoom : room < 8) (needs : room < p.length) (rounds : Nat) :
    fragmentLoop (withoutHeaders nextHeader p) extFragmentation identification room rounds 0 = none := by
  induction rounds with
  | zero => rfl
  | succ rounds ih =>
    have unwrapped : (0 + room) % 2 ^ 32 = room := by omega
    have empty : room - room % 8 = 0 := by omega
    have more : (withoutHeaders nextHeader p).p.length > room := needs
    rw [fragmentLoop, unwrapped, if_pos more]
    simp only [empty, zero_mod, add_zero, ih, map_none]
    cases fragmentAt (withoutHeaders nextHeader p) extFragmentation identification 0 0 true <;> rfl

/-! ## Parts that arrive -/

/-- What a part leaves, gathered with the earlier ones. -/
theorem process_carry {kept : FragmentKey -> Option Gathered} (aligned : part.offset % 8 = 0)
    (small : part.offset < 2 ^ 16) :
    process kept source 0 (carry nextHeader identification part).packet =
      let gathered := ((kept (source, identification)).getD .new).add [] part
      if gathered.isEntire then
        gathered.getPacket.map fun packet =>
          ⟨update kept (source, identification) none, nextHeader, some packet⟩
      else some ⟨update kept (source, identification) (some gathered), nextHeader, none⟩ := by
  have zero : (0 : UInt8).toNat = 0 := rfl
  rw [process, carry, zero, drop_zero, take_zero, FragmentHeader.deserialize_serialize, bind_some,
    FragmentHeader.getOffset_make aligned small, FragmentHeader.getMoreFragment_make aligned small]
  rfl

section

variable (positive : 0 < size) (multiple : size % 8 = 0) (consecutive : Consecutive p size 0 parts)
  (small : p.length < 2 ^ 16)
include positive multiple consecutive small

theorem receivedAfter_carry (arePart : received ⊆ parts) (missing : ∃ part ∈ parts, part ∉ received) :
    ∃ kept, receivedAfter source 0 (received.map (carry nextHeader identification)) = some kept ∧
      (kept (source, identification)).getD .new = gatherAll received := by
  induction received using reverseRecOn with
  | nil => exact ⟨_, rfl, rfl⟩
  | append_singleton received last ih =>
    obtain ⟨lost, isLost, notReceived⟩ := missing
    obtain ⟨kept, isKept, gathered⟩ := ih (fun _ mem => arePart (mem_append_left _ mem))
      ⟨lost, isLost, fun mem => notReceived (mem_append_left _ mem)⟩
    have isPart : last ∈ parts := arePart (mem_append_right _ mem_cons_self)
    have inside := consecutive.within isPart
    have processed := @process_carry nextHeader identification source last kept
      (consecutive.aligned multiple rfl isPart) (by omega)
    have notEntire : ¬ (gatherAll (received ++ [last])).isEntire = true := by
      intro entire
      have perm := (isEntire_iff positive consecutive small arePart).mp entire
      exact notReceived (perm.mem_iff.mpr isLost)
    simp only [gathered, ← gatherAll_append, if_neg notEntire] at processed
    refine ⟨update kept (source, identification) (some (gatherAll (received ++ [last]))), ?_, ?_⟩
    · rw [receivedAfter, map_append, foldlM_append]
      rw [receivedAfter] at isKept
      simp only [isKept, map_cons, map_nil, foldlM_cons, foldlM_nil, bind_eq_bind,
        bind_some, processed, map_some]
      rfl
    · rw [update_self]
      rfl

/-- The last missing part gives back the packet exactly if no part has arrived twice. -/
theorem answer_carry (arePart : received ++ [part] ⊆ parts) (missing : part ∉ received) :
    answer source 0 (received.map (carry nextHeader identification)) (carry nextHeader identification part) =
        some (nextHeader, some p) ↔
      (received ++ [part]).Perm parts := by
  have isPart : part ∈ parts := arePart (mem_append_right _ mem_cons_self)
  have inside := consecutive.within isPart
  obtain ⟨kept, isKept, gathered⟩ := @receivedAfter_carry p nextHeader identification source size parts received
    positive multiple consecutive small (fun _ mem => arePart (mem_append_left _ mem)) ⟨part, isPart, missing⟩
  have processed := @process_carry nextHeader identification source part kept
    (consecutive.aligned multiple rfl isPart) (by omega)
  have entire := isEntire_iff positive consecutive small arePart
  simp only [gathered, ← gatherAll_append] at processed
  rw [answer, isKept, bind_some, processed]
  constructor
  · intro answered
    by_cases isEntire : (gatherAll (received ++ [part])).isEntire
    · exact entire.mp isEntire
    · rw [if_neg isEntire] at answered
      simp at answered
  · intro perm
    rw [if_pos (entire.mpr perm), getPacket_gatherAll positive consecutive perm]
    rfl

end

theorem arrivals_map (order : List Nat) : arrivals (parts.map (carry nextHeader identification)) order =
      (order.filterMap (parts[·]?)).map (carry nextHeader identification) := by
  simp only [arrivals, getElem?_map, map_filterMap]

theorem mem_arrived {order : List Nat} : part ∈ order.filterMap (parts[·]?) ↔
    ∃ index ∈ order, parts[index]? = some part :=
  mem_filterMap

theorem arrived_nodup {order : List Nat} (nodup : parts.Nodup) (inside : ∀ index ∈ order, index < parts.length) :
    (order.filterMap (parts[·]?)).Nodup ↔ order.Nodup := by
  rw [List.Nodup, pairwise_filterMap, List.Nodup]
  constructor
  · intro differ
    refine differ.imp_of_mem fun {first second} isFirst _ ne same => ?_
    have bound := inside first isFirst
    exact ne parts[first] (getElem?_eq_getElem bound) parts[first]
      (by rw [← same]; exact getElem?_eq_getElem bound) rfl
  · intro differ
    refine differ.imp fun {first second} ne part isPart other isOther same => ?_
    subst same
    obtain ⟨bound, read⟩ := List.getElem?_eq_some_iff.mp isPart
    obtain ⟨otherBound, otherRead⟩ := List.getElem?_eq_some_iff.mp isOther
    exact ne ((List.Nodup.getElem_inj_iff nodup).mp (read.trans otherRead.symm))

/-! ## Packets without headers to carry -/

section

variable {packet : ExtendedPacket} {maxFragmentSize : Nat} {order : List Nat}

section

variable (none : unfragmentable packet.headers = [])
include none

theorem getFragments_of_nil :
    getFragments packet.bytes packet.nextHeader maxFragmentSize identification =
      fragmentLoop (withoutHeaders packet.nextHeader packet.bytes) extFragmentation identification
        (maxFragmentablePartSize maxFragmentSize 0) (packet.bytes.length + 1) 0 := by
  have more := moreHeader_eq packet.payload packet.linked packet.isPayload
  rw [none] at more
  have isUpper : moreHeader packet.nextHeader packet.bytes = false := more
  have peeled : peel packet.nextHeader packet.bytes = some (withoutHeaders packet.nextHeader packet.bytes) := by
    rw [peel, isUpper, if_neg Bool.false_ne_true, withoutHeaders]
  have size : (withoutHeaders packet.nextHeader packet.bytes).unfragmentablePartSize = 0 := rfl
  rw [getFragments, peeled, isUpper, bind_some, if_neg Bool.false_ne_true, size]

/-- With room for eight bytes, such a packet is given back unless a fragment arrives twice before
all are there. -/
theorem inverse_iff_onceEach (room : 56 ≤ maxFragmentSize)
    (needs : maxFragmentSize < ipv6HeaderSize + packet.bytes.length)
    (arrives : ∀ fragments,
      getFragments packet.bytes packet.nextHeader maxFragmentSize identification = some fragments ->
      Arrives fragments order) :
    Inverse packet maxFragmentSize identification source order ↔ OnceEach order := by
  have small : packet.bytes.length < 2 ^ 16 := packet.small
  rw [ipv6HeaderSize] at needs
  have roomEq : maxFragmentablePartSize maxFragmentSize 0 = maxFragmentSize - 48 := by
    rw [maxFragmentablePartSize, ipv6HeaderSize, FragmentHeader.serializedSize]
    omega
  obtain ⟨parts, isCut, consecutive, fit⟩ := @fragmentLoop_consecutive packet.bytes packet.nextHeader identification 0
    (maxFragmentSize - 48) (by omega) (by omega) small (by omega) (packet.bytes.length + 1) (by omega)
  have isFragments : getFragments packet.bytes packet.nextHeader maxFragmentSize identification =
      some (parts.map (carry packet.nextHeader identification)) := by
    rw [getFragments_of_nil none, roomEq]
    exact isCut
  have inOrder : ∀ index, index < parts.length ↔ index ∈ order := by
    have all := arrives _ isFragments
    simpa [Arrives] using all
  have positive : 0 < maxFragmentSize - 48 - (maxFragmentSize - 48) % 8 := by omega
  have multiple : (maxFragmentSize - 48 - (maxFragmentSize - 48) % 8) % 8 = 0 := by omega
  have nodup := consecutive.nodup positive
  have front : headerOffset packet = 0 := by
    rw [headerOffset, none]
    rfl
  have announced : firstNumber packet.upper (packet.headers.drop (unfragmentable packet.headers).length) =
      packet.nextHeader := by
    rw [none]
    rfl
  -- What arrives are parts, the last one for the first time.
  have answered : ∀ earlier last part, (∀ index ∈ earlier ++ [last], index ∈ order) -> last ∉ earlier ->
      parts[last]? = some part ->
      (answer source (headerOffset packet) (arrivals (parts.map (carry packet.nextHeader identification)) earlier)
          (carry packet.nextHeader identification part) = some (packet.nextHeader, some packet.bytes) ↔
        ((earlier ++ [last]).filterMap (parts[·]?)).Perm parts) := by
    intro earlier last part within missing isPart
    have split : (earlier ++ [last]).filterMap (parts[·]?) = earlier.filterMap (parts[·]?) ++ [part] := by
      simp [filterMap_append, isPart]
    rw [arrivals_map, front, split]
    apply answer_carry positive multiple consecutive small
    · intro other mem
      rw [← split] at mem
      obtain ⟨index, -, isOther⟩ := mem_arrived.mp mem
      exact mem_of_getElem? isOther
    · intro mem
      obtain ⟨index, isEarlier, same⟩ := mem_arrived.mp mem
      obtain ⟨bound, read⟩ := List.getElem?_eq_some_iff.mp isPart
      obtain ⟨indexBound, indexRead⟩ := List.getElem?_eq_some_iff.mp same
      obtain rfl := (List.Nodup.getElem_inj_iff nodup).mp (read.trans indexRead.symm)
      exact missing isEarlier
  constructor
  · rintro ⟨fragments, same, -, earlier, last, ⟨⟨after, rfl⟩, missing, all⟩, fragment, isFragment, gives⟩
    cases same.symm.trans isFragments
    rw [getElem?_map] at isFragment
    obtain ⟨part, isPart, rfl⟩ := map_eq_some_iff.mp isFragment
    rw [announced] at gives
    have perm := (answered earlier last part (fun index => mem_append_left _) missing isPart).mp gives
    have inside : ∀ index ∈ earlier ++ [last], index < parts.length := fun index mem =>
      (inOrder index).mpr (mem_append_left _ mem)
    refine ⟨earlier ++ [last], after, rfl, (arrived_nodup nodup inside).mp (perm.nodup_iff.mpr nodup), ?_⟩
    intro index mem
    apply all
    rw [length_map]
    exact (inOrder index).mpr (mem_append_right _ mem)
  · rintro ⟨before, after, rfl, once, again⟩
    refine ⟨_, isFragments, ?_, ?_⟩
    · intro fragment mem
      obtain ⟨part, isPart, rfl⟩ := List.mem_map.mp mem
      refine ⟨⟨?_, FragmentHeader.make packet.nextHeader part.offset part.moreFragment identification, part.data, ?_,
        announced.symm⟩, ?_⟩
      · rw [none]
        rfl
      · rw [none]
        rfl
      · have fits := fit part isPart
        simp only [carry, length_append, FragmentHeader.serialize_length, FragmentHeader.serializedSize,
          ipv6HeaderSize]
        omega
    · have inBefore : ∀ index, index < parts.length -> index ∈ before := by
        intro index bound
        rcases mem_append.mp ((inOrder index).mp bound) with first | second
        · exact first
        · exact again second
      cases before using reverseRecOn with
      | nil => exact absurd (inBefore 0 (length_pos_iff.mpr consecutive.ne_nil)) not_mem_nil
      | append_singleton earlier last =>
        have within : ∀ index ∈ earlier ++ [last], index < parts.length := fun index mem =>
          (inOrder index).mpr (mem_append_left _ mem)
        have missing : last ∉ earlier := fun mem =>
          (nodup_append.mp once).2.2 last mem last mem_cons_self rfl
        have bound := within last (mem_append_right _ mem_cons_self)
        have isPart := getElem?_eq_getElem bound
        refine ⟨earlier, last, ⟨prefix_append _ _, missing, ?_⟩,
          carry packet.nextHeader identification parts[last], ?_, ?_⟩
        · intro index inside
          rw [length_map] at inside
          exact inBefore index inside
        · rw [getElem?_map, isPart]
          rfl
        · rw [announced]
          refine (answered earlier last _ (fun index => mem_append_left _) missing isPart).mpr ?_
          refine (perm_ext_iff_of_nodup ((arrived_nodup nodup within).mpr once) nodup).mpr fun part => ?_
          rw [mem_arrived]
          constructor
          · rintro ⟨index, -, read⟩
            exact mem_of_getElem? read
          · intro mem
            obtain ⟨index, bound, rfl⟩ := getElem_of_mem mem
            exact ⟨index, inBefore index bound, getElem?_eq_getElem bound⟩

/-- Without that room, no fragment fits or there is no end of them. -/
theorem not_inverse_of_no_room (noRoom : maxFragmentSize < 56)
    (needs : maxFragmentSize < ipv6HeaderSize + packet.bytes.length) :
    ¬ Inverse packet maxFragmentSize identification source order := by
  rintro ⟨fragments, isFragments, each, -⟩
  have small : packet.bytes.length < 2 ^ 16 := packet.small
  rw [getFragments_of_nil none] at isFragments
  rw [ipv6HeaderSize] at needs
  by_cases wraps : maxFragmentSize < 48
  · have huge : ¬ (withoutHeaders packet.nextHeader packet.bytes).p.length >
        (0 + maxFragmentablePartSize maxFragmentSize 0) % 2 ^ 32 := by
      have length : (withoutHeaders packet.nextHeader packet.bytes).p.length = packet.bytes.length := rfl
      rw [length, maxFragmentablePartSize, ipv6HeaderSize, FragmentHeader.serializedSize]
      omega
    rw [fragmentLoop, if_neg huge] at isFragments
    obtain ⟨fragment, isFragment, rfl⟩ := map_eq_some_iff.mp isFragments
    have only := (each fragment (mem_singleton_self _)).2
    rw [fragmentAt_withoutHeaders (by simp [withoutHeaders])] at isFragment
    cases isFragment
    simp only [carry, length_append, FragmentHeader.serialize_length, FragmentHeader.serializedSize,
      ipv6HeaderSize] at only
    omega
  · have roomEq : maxFragmentablePartSize maxFragmentSize 0 = maxFragmentSize - 48 := by
      rw [maxFragmentablePartSize, ipv6HeaderSize, FragmentHeader.serializedSize]
      omega
    rw [roomEq, fragmentLoop_eq_none (by omega) (by omega)] at isFragments
    cases isFragments

end

/-! ## Packets with headers to carry -/

theorem addHeaders_relink_head {headers : List ExtensionHeader} (some : headers ≠ []) (fragment : List UInt8) :
    (addHeaders (relink headers) fragment).head? = .some extFragmentation := by
  induction headers generalizing fragment with
  | nil => exact absurd rfl some
  | cons header rest ih =>
    by_cases last : rest = []
    · subst last
      rfl
    · rw [relink_cons last]
      exact ih last (header.serialize ++ fragment)

variable {fragments : List Ipv6Fragment}

variable {peeled : Peeled} {firstHeader start : UInt8} {room rounds : Nat}
  {header : ExtensionHeader} {rest : List ExtensionHeader} {bytes : List UInt8}
  {kept : FragmentKey -> Option Gathered}

/-- Each fragment has the headers in front of it. -/
theorem fragmentLoop_mem
    (isCut : fragmentLoop peeled firstHeader identification room rounds offset = some fragments) :
    ∀ fragment ∈ fragments, ∃ behind, fragment.packet = addHeaders peeled.unfragmentablePart behind := by
  have front : ∀ {offset size : Nat} {moreFragment : Bool} {fragment : Ipv6Fragment},
      fragmentAt peeled firstHeader identification offset size moreFragment = some fragment ->
        ∃ behind, fragment.packet = addHeaders peeled.unfragmentablePart behind := by
    intro offset size moreFragment fragment isFragment
    rw [fragmentAt] at isFragment
    split at isFragment
    · cases isFragment
      exact ⟨_, rfl⟩
    · cases isFragment
  induction rounds generalizing offset fragments with
  | zero => cases isCut
  | succ rounds ih =>
    rw [fragmentLoop] at isCut
    split at isCut
    · obtain ⟨first, isFirst, isMapped⟩ := bind_eq_some_iff.mp isCut
      obtain ⟨rest, isRest, rfl⟩ := map_eq_some_iff.mp isMapped
      rintro fragment (_ | ⟨_, later⟩)
      · exact front isFirst
      · exact ih isRest fragment later
    · obtain ⟨only, isOnly, rfl⟩ := map_eq_some_iff.mp isCut
      rintro fragment (_ | ⟨_, none⟩)
      · exact front isOnly
      · cases none

theorem fragments_head (some : unfragmentable packet.headers ≠ [])
    (isFragments : getFragments packet.bytes packet.nextHeader maxFragmentSize identification = .some fragments) :
    ∀ fragment ∈ fragments, fragment.packet.head? = .some extFragmentation := by
  rw [getFragments, peel_eq, bind_some] at isFragments
  intro fragment mem
  obtain ⟨behind, front⟩ := fragmentLoop_mem isFragments fragment mem
  rw [front]
  exact addHeaders_relink_head some behind

/-- Each header that fragments carry announces another one, the last one what they do not carry. -/
theorem head_bytes (isHeaders : packet.headers = header :: rest) : packet.bytes.head? ≠ some extFragmentation := by
  have linked := packet.linked
  rw [isHeaders] at linked
  have first : packet.bytes.head? = some header.nextHeader := by
    rw [ExtendedPacket.bytes, isHeaders]
    rfl
  rw [first, linked.1]
  exact fun same => firstNumber_ne packet.isPayload.2.2.1 (some.inj same)

theorem exists_header (some : unfragmentable packet.headers ≠ []) :
    ∃ header rest, packet.headers = header :: rest ∧ unfragmentable packet.headers = header :: unfragmentable rest := by
  cases isHeaders : packet.headers with
  | nil =>
    rw [isHeaders] at some
    exact absurd rfl some
  | cons header rest =>
    rw [isHeaders] at some
    refine ⟨header, rest, rfl, ?_⟩
    rw [unfragmentable] at some ⊢
    split
    next isUpper => exact absurd (if_pos isUpper) some
    · rfl

theorem not_carries (some : unfragmentable packet.headers ≠ []) {fragment : Ipv6Fragment}
    (front : fragment.packet.head? = .some extFragmentation) (carries : Carries packet fragment) :
    (unfragmentable packet.headers).length = 1 := by
  obtain ⟨header, rest, isHeaders, carried⟩ := exists_header some
  obtain ⟨-, fragmentHeader, data, bytes, -⟩ := carries
  by_cases single : unfragmentable rest = []
  · rw [carried, single]
    rfl
  · rw [bytes, carried, relink_cons single] at front
    have linked := packet.linked
    rw [isHeaders] at linked
    have next : header.nextHeader = extFragmentation := Option.some.inj front
    exact absurd (linked.1.symm.trans next) (firstNumber_ne packet.isPayload.2.2.1)

/-- What the receiver keeps in front of the parts, where each fragment starts with the number of the
fragment header. -/
def FrontsAnnounce (kept : FragmentKey -> Option Gathered) : Prop :=
  ∀ key gathered front, kept key = some gathered -> gathered.unfragmentable = some front ->
    front.head? = some extFragmentation

theorem head_take {number : UInt8} {count : Nat} (positive : 0 < count)
    (head : bytes.head? = some number) : (bytes.take count).head? = some number := by
  rw [head?_take, if_neg (ne_of_gt positive), head]

theorem FrontsAnnounce.process {processed : Processed} (fronts : FrontsAnnounce kept) (positive : 0 < start.toNat)
    (head : bytes.head? = some extFragmentation)
    (isProcessed : Ipv6Extension.process kept source start bytes = some processed) :
    FrontsAnnounce processed.fragments ∧
      ∀ packet, processed.packet = some packet -> packet.head? = some extFragmentation := by
  rw [Ipv6Extension.process] at isProcessed
  obtain ⟨⟨header, data⟩, -, isProcessed⟩ := bind_eq_some_iff.mp isProcessed
  -- A front is an earlier one or what is in front of this fragment header.
  have announced : ∀ front, (((kept (source, header.identification)).getD .new).add (bytes.take start.toNat)
        ⟨data, header.getOffset, header.getMoreFragment⟩).unfragmentable = some front ->
      front.head? = some extFragmentation := by
    intro front isFront
    simp only [Gathered.add] at isFront
    split at isFront
    · cases isFront
      exact head_take positive head
    · cases earlier : kept (source, header.identification) with
      | none =>
        rw [earlier] at isFront
        cases isFront
      | some gathered =>
        rw [earlier] at isFront
        exact fronts _ gathered front earlier isFront
  simp only at isProcessed
  split at isProcessed
  · obtain ⟨packet, isPacket, rfl⟩ := map_eq_some_iff.mp isProcessed
    refine ⟨fun key gathered front isKept isFront => ?_, ?_⟩
    · by_cases here : key = (source, header.identification)
      · subst here
        simp at isKept
      · simp only [update_of_ne here] at isKept
        exact fronts key gathered front isKept isFront
    · intro other same
      cases same
      obtain ⟨front, isFront, rfl⟩ := map_eq_some_iff.mp isPacket
      have isAnnounced := announced front isFront
      rw [head?_append, isAnnounced]
      rfl
  · cases isProcessed
    refine ⟨fun key gathered front isKept isFront => ?_, fun packet isPacket => by cases isPacket⟩
    by_cases here : key = (source, header.identification)
    · subst here
      simp only [update_self, some.injEq] at isKept
      subst isKept
      exact announced front isFront
    · simp only [update_of_ne here] at isKept
      exact fronts key gathered front isKept isFront

theorem receivedAfter_fronts {received : List Ipv6Fragment}
    (positive : 0 < start.toNat) (heads : ∀ fragment ∈ received, fragment.packet.head? = some extFragmentation)
    (isKept : receivedAfter source start received = some kept) : FrontsAnnounce kept := by
  induction received using reverseRecOn generalizing kept with
  | nil =>
    cases isKept
    intro key gathered front isNone
    cases isNone
  | append_singleton received last ih =>
    rw [receivedAfter, foldlM_append] at isKept
    obtain ⟨earlier, isEarlier, isLast⟩ := bind_eq_some_iff.mp isKept
    simp only [foldlM_cons, foldlM_nil, bind_eq_bind, Option.pure_def] at isLast
    obtain ⟨latest, isMapped, same⟩ := bind_eq_some_iff.mp isLast
    cases same
    obtain ⟨processed, isProcessed, rfl⟩ := map_eq_some_iff.mp isMapped
    have fronts := ih (fun fragment mem => heads fragment (mem_append_left _ mem)) isEarlier
    exact (fronts.process positive (heads last (mem_append_right _ mem_cons_self)) isProcessed).1

/-- The first fragment takes all there is room for, up to a multiple of 8, or all there is. -/
theorem exists_first_fragment (roomSmall : room < 2 ^ 32)
    (isCut : fragmentLoop peeled firstHeader identification room (rounds + 1) 0 = some fragments) :
    ∃ fragment ∈ fragments, ∃ (header : FragmentHeader) (data : List UInt8),
      fragment.packet = addHeaders peeled.unfragmentablePart (header.serialize ++ data) ∧
      (room - 7 ≤ data.length ∨ data.length = peeled.p.length) := by
  have unwrapped : (0 + room) % 2 ^ 32 = room := by
    rw [zero_add]
    exact mod_eq_of_lt roomSmall
  rw [fragmentLoop, unwrapped] at isCut
  split at isCut
  next more =>
    obtain ⟨first, isFirst, isMapped⟩ := bind_eq_some_iff.mp isCut
    obtain ⟨rest, -, rfl⟩ := map_eq_some_iff.mp isMapped
    rw [fragmentAt, if_pos (by omega)] at isFirst
    cases isFirst
    refine ⟨_, mem_cons_self, _, _, rfl, .inl ?_⟩
    rw [length_take, length_drop]
    omega
  next =>
    obtain ⟨only, isOnly, rfl⟩ := map_eq_some_iff.mp isCut
    rw [fragmentAt, if_pos (by omega)] at isOnly
    cases isOnly
    refine ⟨_, mem_cons_self, _, _, rfl, .inr ?_⟩
    rw [length_take, length_drop]
    omega

/-- A header of 256 bytes or more is counted as so many bytes less, and the first fragment does not
fit. -/
theorem not_fits_of_long
    (isHeaders : packet.headers = header :: rest) (single : unfragmentable packet.headers = [header])
    (long : 256 ≤ header.serialize.length) (needs : maxFragmentSize < ipv6HeaderSize + packet.bytes.length)
    (isFragments : getFragments packet.bytes packet.nextHeader maxFragmentSize identification = some fragments) :
    ∃ fragment ∈ fragments, maxFragmentSize < ipv6HeaderSize + fragment.packet.length := by
  have small : packet.bytes.length < 2 ^ 16 := packet.small
  have total : packet.bytes.length = header.serialize.length + (rest.flatMap serialize ++ packet.payload).length := by
    rw [ExtendedPacket.bytes, isHeaders, flatMap_cons, append_assoc, length_append]
  rw [getFragments, peel_eq, bind_some] at isFragments
  obtain ⟨fragment, mem, fragmentHeader, data, bytes, taken⟩ :=
    exists_first_fragment (mod_lt _ (by decide)) isFragments
  refine ⟨fragment, mem, ?_⟩
  have length : fragment.packet.length = header.serialize.length + (8 + data.length) := by
    rw [bytes, single]
    simp only [relink, addHeaders, foldl_cons, foldl_nil, length_append, FragmentHeader.serialize_length,
      FragmentHeader.serializedSize]
    rfl
  rw [single, isHeaders] at taken
  simp only [length_singleton, drop_succ_cons, drop_zero, map_cons, map_nil, sum_cons,
    sum_nil, add_zero, ipv6HeaderSize, FragmentHeader.serializedSize] at taken
  rw [ipv6HeaderSize] at needs ⊢
  rcases taken with partly | all
  · omega
  · omega

/-- Such a packet never comes through: several headers are carried in the opposite order, a long one
leaves too little room, and a short one comes back with the number of the fragment header. -/
theorem not_inverse_of_headers (some : unfragmentable packet.headers ≠ [])
    (needs : maxFragmentSize < ipv6HeaderSize + packet.bytes.length) :
    ¬ Inverse packet maxFragmentSize identification source order := by
  rintro ⟨fragments, isFragments, each, earlier, last, -, fragment, isFragment, gives⟩
  have heads := fragments_head some isFragments
  have isMember := mem_of_getElem? isFragment
  obtain ⟨header, rest, isHeaders, carried⟩ := exists_header some
  have one := not_carries some (heads fragment isMember) (each fragment isMember).1
  have single : unfragmentable packet.headers = [header] := by
    rw [carried, length_cons] at one
    rw [carried, length_eq_zero_iff.mp (succ.inj one)]
  by_cases long : 256 ≤ header.serialize.length
  · obtain ⟨large, isLarge, exceeds⟩ := not_fits_of_long isHeaders single long needs isFragments
    exact absurd (each large isLarge).2 (not_le_of_gt exceeds)
  · have start : 0 < (headerOffset packet).toNat := by
      have positive : 0 < header.serialize.length := succ_pos _
      rw [headerOffset, single, toNat_ofNat']
      simp only [flatMap_cons, flatMap_nil, append_nil]
      omega
    obtain ⟨kept, isKept, answered⟩ := bind_eq_some_iff.mp gives
    obtain ⟨processed, isProcessed, same⟩ := map_eq_some_iff.mp answered
    have fronts := receivedAfter_fronts start (fun received mem => by
      obtain ⟨index, -, isReceived⟩ := mem_filterMap.mp mem
      exact heads received (mem_of_getElem? isReceived)) isKept
    have announced :=
      (fronts.process start (heads fragment isMember) isProcessed).2 packet.bytes
        (congrArg Prod.snd same)
    exact head_bytes isHeaders announced

/-! ## When they are inverse -/

/-- However the fragments arrive, fragmentation and reassembly are inverse exactly if the fragments
carry no headers, there is room for eight bytes of the packet, and no fragment arrives twice before
all are there. -/
theorem inverse_iff (packet : ExtendedPacket) (maxFragmentSize : Nat) (identification : UInt32) (source : BitVec 128)
    (order : List Nat) (needs : maxFragmentSize < ipv6HeaderSize + packet.bytes.length)
    (arrives : ∀ fragments,
      getFragments packet.bytes packet.nextHeader maxFragmentSize identification = some fragments ->
      Arrives fragments order) :
    Inverse packet maxFragmentSize identification source order ↔
      unfragmentable packet.headers = [] ∧ 56 ≤ maxFragmentSize ∧ OnceEach order := by
  by_cases none : unfragmentable packet.headers = []
  · by_cases room : 56 ≤ maxFragmentSize
    · rw [inverse_iff_onceEach none room needs arrives]
      simp only [none, room, true_and]
    · have never := @not_inverse_of_no_room identification source packet maxFragmentSize order none
        (Nat.lt_of_not_ge room) needs
      simp only [never, room, false_and, and_false]
  · have never := @not_inverse_of_headers identification source packet maxFragmentSize order none needs
    simp only [never, none, false_and]

/-- 64 bytes of UDP. -/
def plainPacket : ExtendedPacket where
  headers := []
  upper := 17
  payload := replicate 64 0
  wellFormed := fun _ member => absurd member not_mem_nil
  linked := trivial
  isPayload := by decide
  small := by decide

theorem plainPacket_arrives {order : List Nat} (all : ∀ index, index < 2 ↔ index ∈ order)
    (fragments : List Ipv6Fragment)
    (isFragments : getFragments plainPacket.bytes plainPacket.nextHeader 80 7 = some fragments) :
    Arrives fragments order := by
  have two : (getFragments plainPacket.bytes plainPacket.nextHeader 80 7).map List.length = some 2 := by
    decide +kernel
  rw [isFragments] at two
  have length : fragments.length = 2 := some.inj two
  intro index
  rw [length]
  exact all index

/-- They arrive the last one first. -/
theorem plainPacket_inverse_iff : Inverse plainPacket 80 7 1 [1, 0] ↔
      unfragmentable plainPacket.headers = [] ∧ 56 ≤ 80 ∧ OnceEach [1, 0] :=
  inverse_iff plainPacket 80 7 1 [1, 0] (by decide) (plainPacket_arrives fun index => by
    simp only [mem_cons, not_mem_nil, or_false]
    omega)

/-- Behind a hop-by-hop header with padding and an empty routing header, 64 bytes of UDP. -/
def routedPacket : ExtendedPacket where
  headers := [⟨.hopByHop, 43, [0, 1, 4, 0, 0, 0, 0]⟩, ⟨.routing, 17, [0, 0, 0, 0, 0, 0, 0]⟩]
  upper := 17
  payload := replicate 64 0
  wellFormed := by
    intro header member
    simp only [mem_cons, not_mem_nil, or_false] at member
    rcases member with rfl | rfl
    · exact ⟨0, [1, 4, 0, 0, 0, 0], rfl, rfl⟩
    · exact ⟨0, 0, [], by decide, rfl, rfl⟩
  linked := ⟨rfl, rfl, trivial⟩
  isPayload := by decide
  small := by decide

/-- A hop-by-hop header with padding, and 64 bytes of UDP. -/
def optionPacket : ExtendedPacket where
  headers := [⟨.hopByHop, 17, [0, 1, 4, 0, 0, 0, 0]⟩]
  upper := 17
  payload := replicate 64 0
  wellFormed := by
    intro header member
    rw [mem_singleton.mp member]
    exact ⟨0, [1, 4, 0, 0, 0, 0], rfl, rfl⟩
  linked := ⟨rfl, trivial⟩
  isPayload := by decide
  small := by decide

/-- Two fragments that arrive in order are not enough: the headers of a packet are in the opposite
order, a single header comes back with a wrong number, and without any, a first fragment that
arrives twice keeps the packet from being given back. -/
theorem not_inverse : (¬ Inverse routedPacket 96 7 1 [0, 1] ∧
      (getFragments routedPacket.bytes routedPacket.nextHeader 96 7).map (List.map fun fragment =>
        (fragment.nextHeader, fragment.packet.take 9)) =
        some [(0, [44, 0, 0, 0, 0, 0, 0, 0, 43]), (0, [44, 0, 0, 0, 0, 0, 0, 0, 43])]) ∧
    (¬ Inverse optionPacket 88 7 1 [0, 1] ∧
      ((getFragments optionPacket.bytes optionPacket.nextHeader 88 7).bind fun fragments =>
        fragments.getLast?.bind fun last => answer 1 (headerOffset optionPacket) fragments.dropLast last) =
        some (17, some (44 :: optionPacket.bytes.tail))) ∧
    (¬ Inverse plainPacket 80 7 1 [0, 0, 1] ∧
      ((getFragments plainPacket.bytes plainPacket.nextHeader 80 7).bind fun fragments =>
        fragments.getLast?.bind fun last =>
          answer 1 (headerOffset plainPacket) (arrivals fragments [0, 0]) last) = some (17, none)) := by
  refine ⟨⟨not_inverse_of_headers (by decide) (by decide), by decide +kernel⟩,
    ⟨not_inverse_of_headers (by decide) (by decide), by decide +kernel⟩, fun inverse => ?_, by decide +kernel⟩
  have arrives := @plainPacket_arrives [0, 0, 1] fun index => by
    simp only [mem_cons, not_mem_nil, or_false]
    omega
  have once := (@inverse_iff_onceEach 7 1 plainPacket 80 [0, 0, 1] rfl (by decide) (by decide) arrives).mp inverse
  obtain ⟨before, after, split, nodup, again⟩ := once
  have all : 1 ∈ before := by
    have arrived : 1 ∈ before ++ after := split ▸ by decide
    exact (mem_append.mp arrived).elim id fun late => again late
  have isPrefix : before ∈ [0, 0, 1].inits := (mem_inits _ _).mpr ⟨after, split.symm⟩
  have isWhole : ∀ first ∈ [0, 0, 1].inits, 1 ∈ first -> ¬ first.Nodup := by decide
  exact isWhole before isPrefix all nodup

end

end Ns3.Internet.Ipv6Extension
