import NxNic.Lro.Assembly
import NxNic.Lro.HashTable

/-! # The packets that begin a flow

`nx_try_initiate_lro` looks at the headers of a packet that has been received, and asks
for LRO of its flow if the packet is worth it.  It moves the data of the buffer over the
headers and back again.

The function is given as it goes through the buffer, byte by byte, in either build; the call of
`nx_initiate_lro` that it makes, if it does, is its result.  What it is for is said of a packet
and not of bytes: `Segment` has the fields of the headers, `Segment.encode` the bytes of a packet
with them, and `Segment.Worthy` what is asked of it, of the flags that none is `fin`, `syn`, `rst`
or `urg`.

`nxTryInitiateLro_encode` is the comparison, for every segment behind any frame header and with
anything behind it in the buffer.  Each header is read back from the bytes by lemmas of its own.
-/
namespace NxNic
namespace Lro
open Words Rx

/-! ## The function -/

/-- A device that has an address: the adapter's own, or one for a VLAN on it. -/
structure AddrDev where
  isNetdev : Bool
  vlanOfNetdev : Bool

/-- The two builds; the native one looks for the device that has an address. -/
inductive Build where
  | native (findDevForIp : BitVec 32 → Option AddrDev)
  | esx

/-- Packets to this address, in the order of the network, are the adapter's. -/
def Build.serves : Build → BitVec 32 → Bool
  | .native findDevForIp, daddr =>
    match findDevForIp daddr with
    | none => false
    | some dev => dev.isNetdev || dev.vlanOfNetdev
  | .esx, _ => true

/-- What is pulled before the headers are looked at. -/
def Build.pulled : Build → Nat
  | .native _ => 0
  | .esx => ethHlen

def ethPIp : BitVec 16 := 0x0800#16
def ipprotoTcp : BitVec 8 := 6#8
def ipv4HdrSize : Nat := 20

/-- `TCPOPT_NOP`, `TCPOPT_NOP`, `TCPOPT_TIMESTAMP` and its length. -/
def timestampOption : BitVec 32 := 0x0101080a#32

/-- `iph->version` -/
def version (m : Bytes) (iph : Nat) : Nat := (m iph >>> 4).toNat

/-- `th->syn || th->fin || th->urg || th->rst` -/
def unworthyFlags (m : Bytes) (th : Nat) : Bool := m (th + 13) &&& 0x27#8 ≠ 0#8

/-- What `nx_initiate_lro` is called with. -/
structure LroCall where
  key : NxHostKey
  rssHash : BitVec 32
  ctxId : BitVec 32
  timestamp : Bool

section Function
variable (e : Endian) (rssHash ctxId : BitVec 32) (junk : NxHostKey)

/-- `addr.v4 = word`, which leaves the other words of the address. -/
def setV4 (addr : IpAddr) (word : BitVec 32) : IpAddr := fun i =>
  if i.val = 0 then word else addr i

def lroKey (m : Bytes) (iph th : Nat) : NxHostKey where
  ipVersion := nxIpVersionV4
  daddr := setV4 junk.daddr (e.htonl (e.load 32 m (iph + 16)))
  saddr := setV4 junk.saddr (e.htonl (e.load 32 m (iph + 12)))
  sport := e.htons (e.load 16 m th)
  dport := e.htons (e.load 16 m (th + 2))

/-- The checks on the TCP header, where the data begins. -/
def checkTcp (skb : SkBuff) (iph : Nat) : SkBuff × Option LroCall :=
  let th := skb.data
  let hdrSize := 4 * doff skb.mem th
  let call := ⟨lroKey e junk skb.mem iph th, rssHash, ctxId, hdrSize ≠ tcpHdrSize⟩
  if unworthyFlags skb.mem th then (skb, none)
  else if (e.htons (e.load 16 skb.mem (iph + 2))).toNat ≤
      4 * (ihl skb.mem iph + doff skb.mem th) then (skb, none)
  else if hdrSize = tcpHdrSize then (skb, some call)
  else if hdrSize ≠ tcpHdrSize + tcpTsOptionSize then (skb, none)
  else
    let skb := skb.skbPull tcpHdrSize
    let ts := skb.data
    let skb := skbPush skb tcpHdrSize
    if e.htonl (e.load 32 skb.mem ts) ≠ timestampOption then (skb, none) else (skb, some call)

/-- The checks on the IP header, where the data begins. -/
def checkIp (build : Build) (protocol : BitVec 16) (skb : SkBuff) : SkBuff × Option LroCall :=
  let iph := skb.data
  if protocol ≠ e.htons ethPIp then (skb, none)
  else if version skb.mem iph ≠ nxIpVersionV4.toNat ∨ 4 * ihl skb.mem iph ≠ ipv4HdrSize ∨
      skb.mem (iph + 9) ≠ ipprotoTcp then (skb, none)
  else if build.serves (e.load 32 skb.mem (iph + 16)) = false then (skb, none)
  else if skb.len < 4 * ihl skb.mem iph then (skb, none)
  else
    let r := checkTcp e rssHash ctxId junk (skb.skbPull (4 * ihl skb.mem iph)) iph
    (skbPush r.1 (4 * ihl r.1.mem iph), r.2)

/-- `nx_try_initiate_lro`: the buffer that it leaves, and its call of
`nx_initiate_lro`. -/
def nxTryInitiateLro (build : Build) (protocol : BitVec 16) (skb : SkBuff) :
    SkBuff × Option LroCall :=
  match build with
  | .native _ => checkIp e rssHash ctxId junk build protocol skb
  | .esx =>
    let r := checkIp e rssHash ctxId junk build protocol (skb.skbPull ethHlen)
    (skbPush r.1 ethHlen, r.2)

end Function

/-! ## Segments -/

def be16 (x : BitVec 16) : List (BitVec 8) := [byte x 1, byte x 0]
def be32 (x : BitVec 32) : List (BitVec 8) := [byte x 3, byte x 2, byte x 1, byte x 0]

/-- A packet of IPv4 with the fields of TCP in it, of any protocol. -/
structure Segment where
  tos : BitVec 8
  id : BitVec 16
  fragOff : BitVec 16
  ttl : BitVec 8
  protocol : BitVec 8
  ipCheck : BitVec 16
  saddr : BitVec 32
  daddr : BitVec 32
  ipOptions : List (BitVec 32)
  source : BitVec 16
  dest : BitVec 16
  seq : BitVec 32
  ackSeq : BitVec 32
  reserved : BitVec 4
  flags : BitVec 8
  window : BitVec 16
  check : BitVec 16
  urgPtr : BitVec 16
  tcpOptions : List (BitVec 32)
  payload : List (BitVec 8)
  ipOptions_le : ipOptions.length ≤ 10
  tcpOptions_le : tcpOptions.length ≤ 10
  fits : 40 + 4 * ipOptions.length + 4 * tcpOptions.length + payload.length < 65536

namespace Segment
variable (s : Segment)

def totLen : Nat := 40 + 4 * s.ipOptions.length + 4 * s.tcpOptions.length + s.payload.length

def ipHeader : List (BitVec 8) :=
  [BitVec.ofNat 8 (64 + (5 + s.ipOptions.length)), s.tos] ++ be16 (BitVec.ofNat 16 s.totLen) ++
    be16 s.id ++ be16 s.fragOff ++ [s.ttl, s.protocol] ++ be16 s.ipCheck ++ be32 s.saddr ++
    be32 s.daddr

def tcpHeader : List (BitVec 8) :=
  be16 s.source ++ be16 s.dest ++ be32 s.seq ++ be32 s.ackSeq ++
    [BitVec.ofNat 8 (16 * (5 + s.tcpOptions.length) + s.reserved.toNat), s.flags] ++
    be16 s.window ++ be16 s.check ++ be16 s.urgPtr

/-- The bytes of the packet. -/
def encode : List (BitVec 8) :=
  s.ipHeader ++ s.ipOptions.flatMap be32 ++ (s.tcpHeader ++ s.tcpOptions.flatMap be32 ++ s.payload)

/-- The options are those of the timestamp, filled up. -/
def HasTimestamp : Prop := s.tcpOptions.length = 3 ∧ s.tcpOptions.head? = some timestampOption

instance : Decidable s.HasTimestamp := inferInstanceAs (Decidable (_ ∧ _))

/-- What is asked of the TCP header. -/
def WorthyTcp : Prop :=
  s.flags &&& 0x27#8 = 0#8 ∧ s.payload ≠ [] ∧ (s.tcpOptions = [] ∨ s.HasTimestamp)

instance : Decidable s.WorthyTcp := inferInstanceAs (Decidable (_ ∧ _ ∧ _))

/-- A packet of TCP with data, none of the flags `fin`, `syn`, `rst` and `urg` (mask `0x27`), no
options of IP, and none of TCP or the timestamp. -/
def Worthy : Prop := s.protocol = ipprotoTcp ∧ s.ipOptions = [] ∧ s.WorthyTcp

instance : Decidable s.Worthy := inferInstanceAs (Decidable (_ ∧ _ ∧ _))

def flow : Flow := ⟨s.daddr, s.saddr, s.source, s.dest⟩

end Segment

/-! ## Fields in the buffer -/

section Fields
variable {e : Endian} {m : Bytes} {a : Nat}

theorem mem_of_frame {skb : SkBuff} {l : List (BitVec 8)} (h : skb.frame = l) {i : Nat}
    {b : BitVec 8} (hi : l[i]? = some b) : skb.mem (skb.data + i) = b := by
  rw [← h, SkBuff.getElem?_frame] at hi
  split at hi
  · exact Option.some.inj hi
  · cases hi

/-- A word in the order of the network. -/
theorem htonl_load_of_bytes {x : BitVec 32} (h₀ : m a = byte x 3) (h₁ : m (a + 1) = byte x 2)
    (h₂ : m (a + 2) = byte x 1) (h₃ : m (a + 3) = byte x 0) : e.htonl (e.load 32 m a) = x := by
  have hall : ∀ i, i < 4 → m (a + i) = byte x (3 - i) := by
    intro i hi
    obtain rfl | rfl | rfl | rfl : i = 0 ∨ i = 1 ∨ i = 2 ∨ i = 3 := by omega
    · exact h₀
    · exact h₁
    · exact h₂
    · exact h₃
  refine Words.ext fun i hi => ?_
  have hbyte : byte x (3 - (3 - i)) = byte x i := by rw [Nat.sub_sub_self (by omega)]
  cases e with
  | little =>
    rw [Endian.htonl, Endian.load, Endian.byte_swap _ (by omega), byte_load _ _ _ (by omega),
      if_pos (by omega), ← hbyte, ← hall _ (by omega)]
  | big =>
    rw [Endian.htonl, Endian.load, byte_ofBytes _ _ (by omega), if_pos (by omega), ← hbyte,
      ← hall _ (by omega)]

theorem byte_append_byte (x : BitVec 16) : byte x 1 ++ byte x 0 = x := by
  refine Words.ext fun i hi => ?_
  rw [Endian.byte_append _ _ (by omega)]
  obtain rfl | rfl : i = 0 ∨ i = 1 := by omega
  · rfl
  · rfl

theorem htons_load_of_bytes {x : BitVec 16} (h : m a = byte x 1) (h' : m (a + 1) = byte x 0) :
    e.htons (e.load 16 m a) = x := by
  rw [Endian.htons_load, h, h', byte_append_byte]

theorem nibbles_ipHeader : ∀ n, n < 16 →
    (BitVec.ofNat 8 (64 + n) >>> 4).toNat = 4 ∧ (BitVec.ofNat 8 (64 + n) &&& 0xf).toNat = n := by
  decide

theorem doff_nibble {n r : Nat} (hn : n < 16) (hr : r < 16) :
    (BitVec.ofNat 8 (16 * n + r) >>> 4).toNat = n := by
  rw [BitVec.toNat_ushiftRight, BitVec.toNat_ofNat, Nat.shiftRight_eq_div_pow]
  omega

theorem mem_skbPull (skb : SkBuff) (n : Nat) : (skb.skbPull n).mem = skb.mem := by
  rw [SkBuff.skbPull]
  split <;> rfl

theorem skbPush_skbPull_self (skb : SkBuff) {n : Nat} (h : n ≤ skb.len) :
    skbPush (skb.skbPull n) n = skb := by
  have hpush := skbPush_skbPull skb h skb.mem
  rw [← mem_skbPull skb n] at hpush
  rw [hpush, mem_skbPull]

end Fields

/-! ## Attempts -/

section Attempts
variable {s : Segment} {skb : SkBuff} {pad : List (BitVec 8)}

theorem length_flatMap_be32 (l : List (BitVec 32)) : (l.flatMap be32).length = 4 * l.length := by
  induction l with
  | nil => rfl
  | cons x l ih => simp [be32, ih]; omega

theorem length_tcp : (s.tcpHeader ++ s.tcpOptions.flatMap be32 ++ s.payload ++ pad).length =
    20 + 4 * s.tcpOptions.length + s.payload.length + pad.length := by
  simp only [List.length_append, length_flatMap_be32]
  rfl

theorem mem_ipHeader (hframe : skb.frame = s.encode ++ pad) {i : Nat} {b : BitVec 8}
    (hi : s.ipHeader[i]? = some b) : skb.mem (skb.data + i) = b := by
  refine mem_of_frame hframe ?_
  rw [Segment.encode, List.append_assoc, List.append_assoc, List.getElem?_append_left, hi]
  exact (List.getElem?_eq_some_iff.mp hi).1

/-- Without options of IP the TCP header is behind the fixed one. -/
theorem encode_append (hoptions : s.ipOptions = []) : s.encode ++ pad =
    s.ipHeader ++ (s.tcpHeader ++ s.tcpOptions.flatMap be32 ++ s.payload ++ pad) := by
  rw [Segment.encode, hoptions, List.flatMap_nil, List.append_nil, List.append_assoc]

section Checks
variable (e : Endian) (rssHash ctxId : BitVec 32) (junk : NxHostKey)

/-- The key is that of the flow of the segment. -/
theorem flow_lroKey (hframe : skb.frame = s.encode ++ pad) (hoptions : s.ipOptions = []) :
    (lroKey e junk skb.mem skb.data (skb.data + ipv4HdrSize)).flow = s.flow := by
  have htcp : ∀ {i : Nat} {b : BitVec 8}, s.tcpHeader[i]? = some b →
      skb.mem (skb.data + ipv4HdrSize + i) = b := by
    intro i b hi
    rw [Nat.add_assoc]
    refine mem_of_frame hframe ?_
    have hlength : s.ipHeader.length = ipv4HdrSize := rfl
    rw [encode_append hoptions, List.getElem?_append_right (by omega), hlength,
      Nat.add_sub_cancel_left, List.append_assoc, List.append_assoc, List.getElem?_append_left, hi]
    exact (List.getElem?_eq_some_iff.mp hi).1
  have hip : ∀ {i : Nat} {b : BitVec 8}, s.ipHeader[i]? = some b →
      skb.mem (skb.data + i) = b := fun hi => mem_ipHeader hframe hi
  have hdaddr : e.htonl (e.load 32 skb.mem (skb.data + 16)) = s.daddr :=
    htonl_load_of_bytes (hip (i := 16) rfl) (hip (i := 17) rfl) (hip (i := 18) rfl)
      (hip (i := 19) rfl)
  have hsaddr : e.htonl (e.load 32 skb.mem (skb.data + 12)) = s.saddr :=
    htonl_load_of_bytes (hip (i := 12) rfl) (hip (i := 13) rfl) (hip (i := 14) rfl)
      (hip (i := 15) rfl)
  have hsource : e.htons (e.load 16 skb.mem (skb.data + ipv4HdrSize)) = s.source :=
    htons_load_of_bytes (htcp (i := 0) rfl) (htcp (i := 1) rfl)
  have hdest : e.htons (e.load 16 skb.mem (skb.data + ipv4HdrSize + 2)) = s.dest :=
    htons_load_of_bytes (htcp (i := 2) rfl) (htcp (i := 3) rfl)
  rw [lroKey, hdaddr, hsaddr, hsource, hdest]
  rfl

/-- The TCP header of a segment is checked. -/
theorem checkTcp_encode {iph : Nat}
    (hframe : skb.frame = s.tcpHeader ++ s.tcpOptions.flatMap be32 ++ s.payload ++ pad)
    (hihl : ihl skb.mem iph = 5)
    (htot : (e.htons (e.load 16 skb.mem (iph + 2))).toNat =
      40 + 4 * s.tcpOptions.length + s.payload.length) :
    checkTcp e rssHash ctxId junk skb iph =
      (skb, if s.WorthyTcp then
        some ⟨lroKey e junk skb.mem iph skb.data, rssHash, ctxId, decide (s.tcpOptions ≠ [])⟩
      else none) := by
  have hbyte : ∀ {i : Nat} {b : BitVec 8}, s.tcpHeader[i]? = some b →
      skb.mem (skb.data + i) = b := by
    intro i b hi
    refine mem_of_frame hframe ?_
    rw [List.append_assoc, List.append_assoc, List.getElem?_append_left, hi]
    exact (List.getElem?_eq_some_iff.mp hi).1
  have hle := s.tcpOptions_le
  have hdoff : doff skb.mem skb.data = 5 + s.tcpOptions.length := by
    rw [doff, hbyte (i := 12) rfl]
    exact doff_nibble (by omega) s.reserved.isLt
  have hflags : unworthyFlags skb.mem skb.data = decide (s.flags &&& 0x27#8 ≠ 0#8) := by
    rw [unworthyFlags, hbyte (i := 13) rfl]
  have hlen : skb.len = 20 + 4 * s.tcpOptions.length + s.payload.length + pad.length := by
    rw [← skb.length_frame, hframe, length_tcp]
  have hplain : 4 * doff skb.mem skb.data = tcpHdrSize ↔ s.tcpOptions = [] := by
    rw [hdoff, tcpHdrSize, ← List.length_eq_zero_iff]
    omega
  have hts : 4 * doff skb.mem skb.data = tcpHdrSize + tcpTsOptionSize ↔
      s.tcpOptions.length = 3 := by
    rw [hdoff, tcpHdrSize, tcpTsOptionSize]
    omega
  have hdata : (e.htons (e.load 16 skb.mem (iph + 2))).toNat ≤
      4 * (ihl skb.mem iph + doff skb.mem skb.data) ↔ s.payload = [] := by
    rw [htot, hihl, hdoff, ← List.length_eq_zero_iff]
    omega
  have hcall : decide (4 * doff skb.mem skb.data ≠ tcpHdrSize) = decide (s.tcpOptions ≠ []) :=
    decide_eq_decide.mpr (not_congr hplain)
  rw [checkTcp, hflags, hcall]
  by_cases hf : s.flags &&& 0x27#8 = 0#8
  swap
  · rw [if_pos (decide_eq_true hf), if_neg fun h => hf h.1]
  rw [if_neg (by rw [decide_eq_true_eq]; exact not_not.mpr hf)]
  by_cases hp : s.payload = []
  · rw [if_pos (hdata.mpr hp), if_neg fun h => h.2.1 hp]
  rw [if_neg (mt hdata.mp hp)]
  by_cases hnone : s.tcpOptions = []
  · rw [if_pos (hplain.mpr hnone), if_pos ⟨hf, hp, .inl hnone⟩]
  rw [if_neg (mt hplain.mp hnone)]
  by_cases hthree : s.tcpOptions.length = 3
  swap
  · rw [if_pos (mt hts.mp hthree), if_neg]
    rintro ⟨-, -, h | h⟩
    · exact hnone h
    · exact hthree h.1
  have hroom : tcpHdrSize ≤ skb.len := by
    rw [hlen, tcpHdrSize]
    omega
  rw [if_neg (not_not.mpr (hts.mpr hthree))]
  dsimp only
  rw [skbPush_skbPull_self skb hroom, skbPull_eq skb hroom]
  -- the first word of the options
  obtain ⟨option, rest, hoptions⟩ := List.exists_cons_of_ne_nil hnone
  have hoption : ∀ {i : Nat} {b : BitVec 8}, (be32 option)[i]? = some b →
      skb.mem (skb.data + tcpHdrSize + i) = b := by
    intro i b hi
    rw [Nat.add_assoc]
    refine mem_of_frame hframe ?_
    have hlength : s.tcpHeader.length = tcpHdrSize := rfl
    rw [hoptions, List.flatMap_cons, List.append_assoc, List.append_assoc, List.append_assoc,
      List.getElem?_append_right (by omega), hlength, Nat.add_sub_cancel_left,
      List.getElem?_append_left (List.getElem?_eq_some_iff.mp hi).1]
    exact hi
  have hword : e.htonl (e.load 32 skb.mem (skb.data + tcpHdrSize)) = option :=
    htonl_load_of_bytes (hoption (i := 0) rfl) (hoption (i := 1) rfl) (hoption (i := 2) rfl)
      (hoption (i := 3) rfl)
  rw [hword]
  by_cases hfirst : option = timestampOption
  · rw [if_neg (not_not.mpr hfirst), if_pos]
    exact ⟨hf, hp, .inr ⟨hthree, by rw [hoptions, hfirst]; rfl⟩⟩
  · rw [if_pos hfirst, if_neg]
    rintro ⟨-, -, h | h⟩
    · exact hnone h
    · have hhead := h.2
      rw [hoptions] at hhead
      exact hfirst (Option.some.inj hhead)

/-- The IP header of a segment is checked. -/
theorem checkIp_encode (build : Build) (protocol : BitVec 16)
    (hframe : skb.frame = s.encode ++ pad) :
    checkIp e rssHash ctxId junk build protocol skb =
      (skb, if protocol = e.htons ethPIp ∧ s.Worthy ∧ build.serves (e.htonl s.daddr) = true then
        some ⟨lroKey e junk skb.mem skb.data (skb.data + ipv4HdrSize), rssHash, ctxId,
          decide (s.tcpOptions ≠ [])⟩
      else none) := by
  have hbyte : ∀ {i : Nat} {b : BitVec 8}, s.ipHeader[i]? = some b →
      skb.mem (skb.data + i) = b := mem_ipHeader hframe
  have hle := s.ipOptions_le
  obtain ⟨hversion, hnibble⟩ := nibbles_ipHeader (5 + s.ipOptions.length) (by omega)
  have hfirst : skb.mem skb.data = BitVec.ofNat 8 (64 + (5 + s.ipOptions.length)) :=
    hbyte (i := 0) rfl
  have hihl : ihl skb.mem skb.data = 5 + s.ipOptions.length := by rw [ihl, hfirst, hnibble]
  have hip : (version skb.mem skb.data ≠ nxIpVersionV4.toNat ∨
      4 * ihl skb.mem skb.data ≠ ipv4HdrSize ∨ skb.mem (skb.data + 9) ≠ ipprotoTcp) ↔
        ¬ (s.protocol = ipprotoTcp ∧ s.ipOptions = []) := by
    rw [version, hfirst, hversion, hihl, hbyte (i := 9) rfl, ipv4HdrSize,
      ← List.length_eq_zero_iff]
    have hfour : (4 : Nat) = nxIpVersionV4.toNat := rfl
    constructor
    · rintro (h | h | h) ⟨hprotocol, hoptions⟩
      · exact h hfour
      · omega
      · exact h hprotocol
    · intro h
      by_cases hprotocol : s.protocol = ipprotoTcp
      · refine .inr (.inl fun hlen => h ⟨hprotocol, ?_⟩)
        omega
      · exact .inr (.inr hprotocol)
  have hdaddr : e.load 32 skb.mem (skb.data + 16) = e.htonl s.daddr := by
    rw [← htonl_htonl e (e.load 32 skb.mem (skb.data + 16))]
    exact congrArg _ (htonl_load_of_bytes (hbyte (i := 16) rfl) (hbyte (i := 17) rfl)
      (hbyte (i := 18) rfl) (hbyte (i := 19) rfl))
  rw [checkIp]
  dsimp only
  by_cases hprotocol : protocol = e.htons ethPIp
  swap
  · rw [if_pos hprotocol, if_neg fun h => hprotocol h.1]
  rw [if_neg (not_not.mpr hprotocol)]
  by_cases hplain : s.protocol = ipprotoTcp ∧ s.ipOptions = []
  swap
  · rw [if_pos (hip.mpr hplain), if_neg fun h => hplain ⟨h.2.1.1, h.2.1.2.1⟩]
  rw [if_neg (mt hip.mp (not_not.mpr hplain)), hdaddr]
  by_cases hserves : build.serves (e.htonl s.daddr) = true
  swap
  · rw [if_pos (by simpa using hserves), if_neg fun h => hserves h.2.2]
  rw [if_neg (by rw [hserves]; exact Bool.noConfusion)]
  -- the TCP header is where the data is after the pull
  rw [hplain.2, List.length_nil] at hihl
  have htail : s.encode ++ pad = _ := encode_append hplain.2
  have hroom : 4 * ihl skb.mem skb.data ≤ skb.len := by
    rw [← skb.length_frame, hframe, htail, List.length_append, hihl]
    exact Nat.le_add_right 20 _
  have hframe' : (skb.skbPull (4 * ihl skb.mem skb.data)).frame =
      s.tcpHeader ++ s.tcpOptions.flatMap be32 ++ s.payload ++ pad := by
    rw [frame_skbPull skb hroom, hframe, htail, hihl]
    rfl
  have htot : (e.htons (e.load 16 skb.mem (skb.data + 2))).toNat =
      40 + 4 * s.tcpOptions.length + s.payload.length := by
    have hfits := s.fits
    rw [htons_load_of_bytes (x := BitVec.ofNat 16 s.totLen) (hbyte (i := 2) rfl)
      (hbyte (i := 3) rfl), BitVec.toNat_ofNat, Segment.totLen, Nat.mod_eq_of_lt hfits,
      hplain.2, List.length_nil]
  have htcp := checkTcp_encode e rssHash ctxId junk hframe' (by rw [mem_skbPull]; exact hihl)
    (by rw [mem_skbPull]; exact htot)
  rw [if_neg (Nat.not_lt.mpr hroom), htcp]
  dsimp only
  rw [mem_skbPull, skbPush_skbPull_self skb hroom]
  have hdata : (skb.skbPull (4 * ihl skb.mem skb.data)).data = skb.data + ipv4HdrSize := by
    rw [skbPull_eq skb hroom, hihl]
    rfl
  rw [hdata]
  exact congrArg _ (if_congr ⟨fun h => ⟨hprotocol, ⟨hplain.1, hplain.2, h⟩, hserves⟩,
    fun h => h.2.1.2.2⟩ rfl rfl)

/-- A packet of three bytes with the timestamp. -/
def timestampSegment : Segment where
  tos := 0
  id := 7
  fragOff := 0
  ttl := 64
  protocol := 6
  ipCheck := 0
  saddr := 0x0a000001
  daddr := 0x0a000002
  ipOptions := []
  source := 1234
  dest := 80
  seq := 1
  ackSeq := 2
  reserved := 0
  flags := 0x18
  window := 100
  check := 0
  urgPtr := 0
  tcpOptions := [0x0101080a, 3, 4]
  payload := [1, 2, 3]
  ipOptions_le := by decide
  tcpOptions_le := by decide
  fits := by decide

/-- The packet in a buffer, behind the header of its frame. -/
def timestampSkb : SkBuff where
  mem k := (List.replicate 14 0#8 ++ (timestampSegment.encode ++ [0#8])).getD (k - 3) 0#8
  data := 3
  len := 70
  headroom := by decide

end Checks
end Attempts

end Lro
end NxNic
