import Hdf.Wifi.FlowControl

/-!
# The queues of Ethernet frames

A frame is put into a queue by its type and, if it carries IPv4, by the protocol. The
transport header is looked for twenty bytes behind the start of the IP header, whatever
options that header has, and the header length of a TCP segment is taken sixteen times
too large.

## Main results

* `getQueueIdByEtherBuff_tcp`, `getQueueIdByEtherBuff_udp`: which queue a frame gets
* `recognised_iff`: the frames that are recognised
-/

namespace Hdf.Wifi.FrameClasses

open FlowControl FlowControlQueueID

/-! ## The classifier -/

/-- A byte of a buffer; the readers test the length before. -/
def byteAt (buff : List UInt8) (i : ℕ) : ℕ := (buff.getD i 0).toNat

/-- `ntohs` of the two bytes at a place. -/
def ntohsAt (buff : List UInt8) (i : ℕ) : ℕ := byteAt buff i * 256 + byteAt buff (i + 1)

/-- `sizeof(struct EtherHeader)`. -/
def etherHeaderSize : ℕ := 14

/-- `sizeof(struct IpHeader)`. -/
def ipHeaderSize : ℕ := 20

/-- `sizeof(struct TcpHeader)`. -/
def tcpHeaderSize : ℕ := 20

/-- `sizeof(struct UdpHeader)`. -/
def udpHeaderSize : ℕ := 8

/-- `g_tosToIdHash`. -/
def tosToIdHash : List FlowControlQueueID := [be, bk, bk, be, vi, vi]

/-- `TosToFcQueueId`: priorities from `TOS_TO_ID_COUNT` on are voice. -/
def tosToFcQueueId (priority : ℕ) : FlowControlQueueID := (tosToIdHash[priority]?).getD vo

/-- `IsDhcpPort`: the destination port of a UDP header is one of DHCP. -/
def isDhcpPort (udpHdr : List UInt8) (len : ℕ) : Bool :=
  if len < udpHeaderSize then false
  else ntohsAt udpHdr 2 = 68 ∨ ntohsAt udpHdr 2 = 67

/-- `IsTcpKeyFrame`. -/
def isTcpKeyFrame (ipHeader : List UInt8) (len : ℕ) : Bool :=
  if len < ipHeaderSize then false
  else if len - ipHeaderSize < tcpHeaderSize then false
  else
    let tcpHdr := ipHeader.drop ipHeaderSize
    let ipPktLen := ntohsAt ipHeader 2
    let ipHdrLen := ((byteAt ipHeader 0 &&& 0x0F) <<< 2) % 256
    let tcpHdrLen := (byteAt tcpHdr 12 &&& 0xF0) <<< 2
    tcpHdrLen + ipHdrLen = ipPktLen

/-- `IpProcessFunc`; nothing stands for `QUEUE_ID_COUNT`. -/
def ipProcessFunc (buff : List UInt8) (len : ℕ) : Option FlowControlQueueID :=
  if len < ipHeaderSize then none
  else if byteAt buff 9 = 17 then
    if len - ipHeaderSize < udpHeaderSize then none
    else if ntohsAt buff 6 &&& 0x1FFF = 0 ∧ isDhcpPort (buff.drop ipHeaderSize) (len - ipHeaderSize)
      then some vip
    else some (tosToFcQueueId (byteAt buff 1 >>> 5))
  else if byteAt buff 9 = 6 then
    if isTcpKeyFrame buff len then some tcpAck else some tcpData
  else some normal

/-- `g_etherTypeProMap`. -/
def etherTypeProMap : List (ℕ × Option (List UInt8 → ℕ → Option FlowControlQueueID)) :=
  [(0x0800, some ipProcessFunc), (0x86dd, none), (0x888e, none), (0x890d, none), (0x8863, none),
    (0x8864, none), (0x88b4, none), (0x8100, none)]

/-- `GetQueueIdByEtherBuff`; nothing stands for `QUEUE_ID_COUNT`. -/
def getQueueIdByEtherBuff : Option (List UInt8) → Option FlowControlQueueID
  | none => none
  | some buff =>
    if buff.length < etherHeaderSize then none
    else
      match etherTypeProMap.find? fun entry => entry.1 = ntohsAt buff 12 with
      | some (_, some processFun) =>
        processFun (buff.drop etherHeaderSize) (buff.length - etherHeaderSize)
      | some (_, none) => some vip
      | none => some normal

/-! ## Well-formed frames -/

/-- The packet in a frame. -/
def packet (frame : List UInt8) : List UInt8 := frame.drop etherHeaderSize

/-- The header length field of an IPv4 packet, in words. -/
def headerLength (packet : List UInt8) : ℕ := byteAt packet 0 % 16

/-- The total length field of an IPv4 packet. -/
def totalLength (packet : List UInt8) : ℕ := ntohsAt packet 2

/-- The fragment offset field of an IPv4 packet. -/
def fragmentOffset (packet : List UInt8) : ℕ := ntohsAt packet 6 % 2 ^ 13

/-- The data offset field of the TCP segment in a packet, in words. -/
def dataOffset (packet : List UInt8) : ℕ := byteAt packet (4 * headerLength packet + 12) / 16

/-- The destination port of the UDP datagram in a packet. -/
def destinationPort (packet : List UInt8) : ℕ := ntohsAt packet (4 * headerLength packet + 2)

/-- A port of DHCP. -/
def DhcpPort (port : ℕ) : Prop := port = 67 ∨ port = 68

/-- A frame with an IPv4 packet that is inside it. -/
structure IpFrame (frame : List UInt8) : Prop where
  etherType : ntohsAt frame 12 = 0x0800
  version : byteAt (packet frame) 0 / 16 = 4
  header : 5 ≤ headerLength (packet frame)
  inside : etherHeaderSize + totalLength (packet frame) ≤ frame.length

/-- A frame with a TCP segment whose header is inside the packet. -/
structure TcpFrame (frame : List UInt8) : Prop extends IpFrame frame where
  protocol : byteAt (packet frame) 9 = 6
  offset : 5 ≤ dataOffset (packet frame)
  headers : 4 * headerLength (packet frame) + 4 * dataOffset (packet frame) ≤
    totalLength (packet frame)

/-- A frame with the first fragment of a UDP datagram. -/
structure UdpFrame (frame : List UInt8) : Prop extends IpFrame frame where
  protocol : byteAt (packet frame) 9 = 17
  first : fragmentOffset (packet frame) = 0
  headers : 4 * headerLength (packet frame) + udpHeaderSize ≤ totalLength (packet frame)

/-- The payload of the TCP segment is empty. -/
def EmptySegment (packet : List UInt8) : Prop :=
  totalLength packet = 4 * headerLength packet + 4 * dataOffset packet

instance {packet : List UInt8} : Decidable (EmptySegment packet) :=
  inferInstanceAs (Decidable (_ = _))

/-- Acknowledgements are told from other segments, and DHCP messages from other datagrams. -/
structure Recognised (frame : List UInt8) : Prop where
  tcp : TcpFrame frame → getQueueIdByEtherBuff (some frame) =
    some (if EmptySegment (packet frame) then tcpAck else tcpData)
  udp : UdpFrame frame → (getQueueIdByEtherBuff (some frame) = some vip ↔
    DhcpPort (destinationPort (packet frame)))

/-- A TCP segment has a payload, and its length is not 64 times the upper half of the byte
twelve bytes behind an IP header without options; the port of a UDP datagram and the one
behind an IP header without options are both ports of DHCP or neither is. -/
structure Recognisable (frame : List UInt8) : Prop where
  tcp : TcpFrame frame → ¬ EmptySegment (packet frame) ∧
    totalLength (packet frame) ≠
      4 * headerLength (packet frame) + 64 * (byteAt (packet frame) 32 / 16)
  udp : UdpFrame frame →
    (DhcpPort (ntohsAt (packet frame) 22) ↔ DhcpPort (destinationPort (packet frame)))

/-! ## What the classifier does -/

variable {frame buff : List UInt8} {len : ℕ}

theorem byteAt_lt {i : ℕ} : byteAt buff i < 256 := UInt8.toNat_lt _

theorem byteAt_drop {n i : ℕ} : byteAt (buff.drop n) i = byteAt buff (n + i) := by
  rw [byteAt, byteAt, List.getD_eq_getElem?_getD, List.getD_eq_getElem?_getD, List.getElem?_drop]

theorem ntohsAt_drop {n i : ℕ} : ntohsAt (buff.drop n) i = ntohsAt buff (n + i) := by
  rw [ntohsAt, ntohsAt, byteAt_drop, byteAt_drop, Nat.add_assoc]

theorem and_highNibble : ∀ b < 256, b &&& 0xF0 = 16 * (b / 16) := by
  decide +kernel

/-- The data offset that the classifier reads is that of a header without options, times 16. -/
theorem isTcpKeyFrame_iff (long : ipHeaderSize + tcpHeaderSize ≤ len) :
    isTcpKeyFrame buff len = true ↔
      totalLength buff = 4 * headerLength buff + 64 * (byteAt buff 32 / 16) := by
  rw [ipHeaderSize, tcpHeaderSize] at long
  have notShort : ¬ len < ipHeaderSize := by
    rw [ipHeaderSize]
    omega
  have notShort' : ¬ len - ipHeaderSize < tcpHeaderSize := by
    rw [ipHeaderSize, tcpHeaderSize]
    omega
  have low : byteAt buff 0 &&& 0x0F = headerLength buff := Nat.and_two_pow_sub_one_eq_mod _ 4
  have small : headerLength buff < 16 := Nat.mod_lt _ (by decide)
  simp only [isTcpKeyFrame, notShort, notShort', if_false, decide_eq_true_eq, byteAt_drop, low,
    and_highNibble _ byteAt_lt, Nat.shiftLeft_eq]
  simp only [ipHeaderSize, Nat.reduceAdd, totalLength]
  omega

theorem isDhcpPort_iff (long : udpHeaderSize ≤ len) :
    isDhcpPort buff len = true ↔ DhcpPort (ntohsAt buff 2) := by
  rw [isDhcpPort, if_neg (Nat.not_lt.mpr long), decide_eq_true_eq, DhcpPort, or_comm]

theorem tosToFcQueueId_ne_vip (priority : ℕ) : tosToFcQueueId priority ≠ vip := by
  intro found
  have entry : ∀ id ∈ tosToIdHash, id ≠ vip := by decide
  rw [tosToFcQueueId] at found
  cases inside : tosToIdHash[priority]? with
  | none => simp [inside] at found
  | some id =>
    rw [inside] at found
    exact entry id (List.mem_of_getElem? inside) found

theorem IpFrame.getQueueId (ip : IpFrame frame) :
    getQueueIdByEtherBuff (some frame) =
      ipProcessFunc (packet frame) (frame.length - etherHeaderSize) := by
  have long : ¬ frame.length < etherHeaderSize := by
    have := ip.inside
    omega
  simp [getQueueIdByEtherBuff, etherTypeProMap, long, ip.etherType, packet]

/-- The queue of a TCP segment. -/
theorem getQueueIdByEtherBuff_tcp (tcp : TcpFrame frame) :
    getQueueIdByEtherBuff (some frame) = some
      (if totalLength (packet frame) =
        4 * headerLength (packet frame) + 64 * (byteAt (packet frame) 32 / 16)
      then tcpAck else tcpData) := by
  have long : ipHeaderSize + tcpHeaderSize ≤ frame.length - etherHeaderSize := by
    have inside := tcp.inside
    have headers := tcp.headers
    have header := tcp.header
    have offset := tcp.offset
    rw [ipHeaderSize, tcpHeaderSize]
    omega
  have notShort : ¬ frame.length - etherHeaderSize < ipHeaderSize := by omega
  rw [tcp.getQueueId, ipProcessFunc, if_neg notShort, tcp.protocol]
  simp only [isTcpKeyFrame_iff long, Nat.reduceEqDiff, if_false, if_true]
  split <;> rfl

/-- A first fragment of a datagram is a priority frame if the place behind a header without
options holds a port of DHCP. -/
theorem getQueueIdByEtherBuff_udp (udp : UdpFrame frame) :
    getQueueIdByEtherBuff (some frame) = some vip ↔ DhcpPort (ntohsAt (packet frame) 22) := by
  have long : ipHeaderSize + udpHeaderSize ≤ frame.length - etherHeaderSize := by
    have inside := udp.inside
    have headers := udp.headers
    have header := udp.header
    rw [ipHeaderSize]
    omega
  have notShort : ¬ frame.length - etherHeaderSize < ipHeaderSize := by omega
  have room : udpHeaderSize ≤ frame.length - etherHeaderSize - ipHeaderSize := by omega
  have first : ntohsAt (packet frame) 6 &&& 0x1FFF = 0 :=
    (Nat.and_two_pow_sub_one_eq_mod _ 13).trans udp.first
  rw [udp.getQueueId, ipProcessFunc, if_neg notShort, if_pos udp.protocol,
    if_neg (Nat.not_lt.mpr room)]
  have port : isDhcpPort ((packet frame).drop ipHeaderSize)
      (frame.length - etherHeaderSize - ipHeaderSize) = true ↔
        DhcpPort (ntohsAt (packet frame) 22) := by
    rw [isDhcpPort_iff room, ntohsAt_drop, ipHeaderSize]
  by_cases dhcp : DhcpPort (ntohsAt (packet frame) 22)
  · rw [if_pos ⟨first, port.mpr dhcp⟩]
    exact iff_of_true rfl dhcp
  · rw [if_neg fun both => dhcp (port.mp both.2)]
    exact iff_of_false (fun same => tosToFcQueueId_ne_vip _ (Option.some.inj same)) dhcp

/-- The frames that the classifier recognises. -/
theorem recognised_iff : Recognised frame ↔ Recognisable frame := by
  constructor
  · intro recognised
    refine ⟨fun tcp => ?_, fun udp => ?_⟩
    · have same := recognised.tcp tcp
      rw [getQueueIdByEtherBuff_tcp tcp, Option.some.injEq] at same
      have header := tcp.offset
      have small : dataOffset (packet frame) < 16 := Nat.div_lt_of_lt_mul byteAt_lt
      have payload : ¬ EmptySegment (packet frame) := by
        -- the data offset is less than 16, so 16 times another one is not it
        intro empty
        have apart : totalLength (packet frame) ≠
            4 * headerLength (packet frame) + 64 * (byteAt (packet frame) 32 / 16) := by
          rw [empty]
          omega
        rw [if_neg apart, if_pos empty] at same
        exact absurd same (by decide)
      refine ⟨payload, fun equal => ?_⟩
      rw [if_pos equal, if_neg payload] at same
      exact absurd same (by decide)
    · exact (getQueueIdByEtherBuff_udp udp).symm.trans (recognised.udp udp)
  · intro fits
    refine ⟨fun tcp => ?_, fun udp => ?_⟩
    · obtain ⟨payload, apart⟩ := fits.tcp tcp
      rw [getQueueIdByEtherBuff_tcp tcp, if_neg apart, if_neg payload]
    · exact (getQueueIdByEtherBuff_udp udp).trans (fits.udp udp)

/-- An acknowledgement without options: forty bytes of headers and no payload. -/
def acknowledgement : List UInt8 :=
  [0x42, 0x2b, 0x13, 0x41, 0xc9, 0xd7, 0x38, 0x81, 0x13, 0x1c, 0x6d, 0xad, 0x08, 0x00] ++
    [0x45, 0, 0, 40, 0, 1, 0, 0, 64, 6, 0, 0, 10, 0, 0, 1, 10, 0, 0, 2] ++
    [0x1f, 0x90, 0x1f, 0x91, 0, 0, 0, 1, 0, 0, 0, 1, 0x50, 0x10, 1, 0, 0, 0, 0, 0]

/-- The acknowledgement goes to the data queue. -/
theorem acknowledgement_not_recognised :
    TcpFrame acknowledgement ∧ EmptySegment (packet acknowledgement) ∧
      getQueueIdByEtherBuff (some acknowledgement) = some tcpData ∧
      ¬ Recognised acknowledgement := by
  have tcp : TcpFrame acknowledgement :=
    ⟨⟨by decide, by decide, by decide, by decide⟩, by decide, by decide, by decide⟩
  have empty : EmptySegment (packet acknowledgement) := by decide
  refine ⟨tcp, empty, by decide, fun recognised => ?_⟩
  have same := recognised.tcp tcp
  rw [if_pos empty] at same
  exact absurd same (by decide)

end Hdf.Wifi.FrameClasses
