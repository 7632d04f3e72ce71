import NxNic.Lib.Turns
import NxNic.Lib.Words

/-! # Address filters of the P2

The ports of a P2 filter addresses themselves.  Each has a promiscuous mode, a pool of two
station addresses and a table of multicast addresses, and the ports share the register that
switches the filters on; `nx_nic_p2_set_multi` sets all of it through `unm_nic_hw.c` and
`niu.c`.  The calls for one port come one after another, those for different ports in any
order, and the accesses of one among those of the others.

Bit-fields and bytes of words are those of a little-endian host.

Each function is a program of `Lib/Turns`, one access after the other, with the adapter as it is
passed along.  A call (`P2Call`) is one of the four entries of the driver, and what it leaves for
the port is in `P2Port`, with the last device and the mode that it was given.
-/
namespace NxNic
namespace Mac
open Words

/-! ## The registers -/

/-- Accesses to the registers of the card, by `NXRD32` and `NXWR32`. -/
abbrev Niu := Prog Nat (BitVec 32)

abbrev Regs := Nat → BitVec 32

def nxrd32 (x : Nat) : Niu (BitVec 32) := .read x .ret

def nxwr32 (x : Nat) (data : BitVec 32) : Niu Unit := .write x data (.ret ())

def unmPciCrbWindow (a : Nat) : Nat := 0x06000000 + a * 0x100000
def unmCrbNiu : Nat := unmPciCrbWindow 6
def unmPortModeAddr : Nat := unmPciCrbWindow 34 + 0x2000 + 0x24

def unmNiuGbDropWrongaddr : Nat := unmCrbNiu + 0x90
def unmNiuFrameCountSelect : Nat := unmCrbNiu + 0xac
def unmNiuFrameCount : Nat := unmCrbNiu + 0xb0
def unmMacAddrCntlReg : Nat := unmCrbNiu + 0x1000
def unmUnicastAddr (port index : Nat) : Nat := unmCrbNiu + 0x1080 + port * 32 + index * 8
def unmMcastAddr (port index : Nat) : Nat := unmCrbNiu + 0x1100 + port * 0x80 + index * 8
def unmNiuXgeConfig0 (port : Nat) : Nat := unmCrbNiu + 0x70000 + 0x10000 * port
def unmNiuXgeConfig1 (port : Nat) : Nat := unmCrbNiu + 0x70004 + 0x10000 * port
def unmNiuXgeStationAddr0Hi : Nat := unmCrbNiu + 0x7000c
def unmNiuXgeStationAddr01 : Nat := unmCrbNiu + 0x70010
def unmNiuXg1StationAddr0Hi : Nat := unmCrbNiu + 0x8000c
def unmNiuXg1StationAddr01 : Nat := unmCrbNiu + 0x80010
def unmNiuApStationAddr0 (i : Nat) : Nat := unmCrbNiu + 0xa0040 + i * 0x10000
def unmNiuApStationAddr1 (i : Nat) : Nat := unmCrbNiu + 0xa0044 + i * 0x10000

def unmPortMode8023Ap : BitVec 32 := 3
def unmNiuMaxXgPorts : Nat := 2

/-- The count of frames changes by itself. -/
def Live (x : Nat) : Prop := x = unmNiuFrameCount

instance liveDecidable : DecidablePred Live := fun _ => inferInstanceAs (Decidable (_ = _))

/-! ## The ports -/

/-- What does not change of an adapter: `physical_port`, whether `ahw.board_type` is
`UNM_NIC_XGBE`, whether the board is one of the two mezzanine cards, and `max_mc_count`. -/
structure P2Board where
  physicalPort : Nat
  xgbe : Bool
  mezz : Bool
  maxMcCount : Nat
  physicalPort_le : physicalPort ≤ 3
  maxMcCount_le : maxMcCount ≤ 16

structure P2Adapter where
  promisc : Bool
  mcEnabled : Bool
  macAddr : Bytes

/-- `IFF_PROMISC`, and the multicast list. -/
structure P2NetDevice where
  promisc : Bool
  mcList : List Bytes

/-- `memcpy(&val, src, n)` -/
def memcpyWord (val : BitVec 32) (src : Bytes) (n : Nat) : BitVec 32 :=
  load 32 (copy (store (fun _ => 0) 0 4 val) 0 n src) 0 4

section Functions
variable (b : P2Board)

/-- The loop of `unm_niu_xg_set_promiscuous_mode` that waits until no frame is counted; after
`left` more reads it gives up. -/
def drain : Nat → Niu Int
  | 0 => do
    let _ ← nxrd32 unmNiuFrameCount
    return -1
  | left + 1 => do
    let reg ← nxrd32 unmNiuFrameCount
    if reg = 0 then return 0 else drain left

/-- The mode is changed unless the wait failed; `mode` is `UNM_NIU_PROMISCOUS_MODE` or not. -/
def setConfig1 (mode : Bool) (result : Int) : Niu Unit :=
  if result ≠ -1 then do
    let reg ← nxrd32 (unmNiuXgeConfig1 b.physicalPort)
    nxwr32 (unmNiuXgeConfig1 b.physicalPort) (if mode then reg ||| 0x2000 else reg &&& ~~~0x2000)
  else return ()

def unmNiuXgSetPromiscuousMode (mode : Bool) : Niu Int :=
  if unmNiuMaxXgPorts < b.physicalPort then return -1
  else do
    let portMode ← nxrd32 unmPortModeAddr
    if portMode = unmPortMode8023Ap then do
      nxwr32 unmNiuGbDropWrongaddr 0
      return 0
    else do
      let macCfg ← nxrd32 (unmNiuXgeConfig0 b.physicalPort)
      -- `rx_enable` is bit 2
      nxwr32 (unmNiuXgeConfig0 b.physicalPort) (macCfg &&& ~~~4)
      nxwr32 unmNiuFrameCountSelect (if b.mezz then 0x20#32 <<< b.physicalPort else 0x200#32)
      let result ← drain 20
      setConfig1 b mode result
      nxwr32 (unmNiuXgeConfig0 b.physicalPort) (macCfg &&& ~~~4 ||| 4)
      return result

/-- What `unm_nic_set_promisc_mode` and `unm_nic_unset_promisc_mode` have in common. -/
def changePromiscMode (mode : Bool) (a : P2Adapter) : Niu (Int × P2Adapter) :=
  if a.promisc = mode then return (0, a)
  else do
    let ret ← unmNiuXgSetPromiscuousMode b mode
    return (ret, if ret = 0 then { a with promisc := mode } else a)

def unmNicSetPromiscMode : P2Adapter → Niu (Int × P2Adapter) := changePromiscMode b true

def unmNicUnsetPromiscMode : P2Adapter → Niu (Int × P2Adapter) := changePromiscMode b false

/-- The word of `unm_mac_addr_cntl_t` with all pools enabled and extended, each port with its
own. -/
def cntlWord : BitVec 32 := 0xf0007654 ||| (if b.xgbe then 3 <<< 24 else 0)

def unmNicEnableMcastFilter (a : P2Adapter) : Niu P2Adapter :=
  if a.mcEnabled then return a
  else do
    nxwr32 unmMacAddrCntlReg (cntlWord b)
    let val : BitVec 32 := 0xffffff
    nxwr32 (unmUnicastAddr b.physicalPort 0) val
    nxwr32 (unmUnicastAddr b.physicalPort 0 + 4) val
    let hi := memcpyWord val a.macAddr 3
    nxwr32 (unmUnicastAddr b.physicalPort 1) hi
    let lo := memcpyWord hi (fun i => a.macAddr (3 + i)) 3
    nxwr32 (unmUnicastAddr b.physicalPort 1 + 4) lo
    return { a with mcEnabled := true }

def unmNicDisableMcastFilter (a : P2Adapter) : Niu P2Adapter :=
  if a.mcEnabled then do
    nxwr32 unmMacAddrCntlReg 0
    let hi := memcpyWord 0 a.macAddr 3
    nxwr32 (unmUnicastAddr b.physicalPort 0) hi
    let lo := memcpyWord hi (fun i => a.macAddr (3 + i)) 3
    nxwr32 (unmUnicastAddr b.physicalPort 0 + 4) lo
    return { a with mcEnabled := false }
  else return a

def unmNicSetMcastAddr (index : Nat) (addr : Bytes) : Niu Unit := do
  nxwr32 (unmMcastAddr b.physicalPort index) (memcpyWord 0 addr 3)
  nxwr32 (unmMcastAddr b.physicalPort index + 4) (memcpyWord 0 (fun i => addr (3 + i)) 3)

/-- `null_addr` -/
def nullAddr : Bytes := fun _ => 0

/-- The loop over the multicast list; the index of the next entry. -/
def setMcastAddrs : Nat → List Bytes → Niu Nat
  | index, [] => return index
  | index, addr :: rest => do
    unmNicSetMcastAddr b index addr
    setMcastAddrs (index + 1) rest

/-- `n` more entries are cleared. -/
def clearMcastAddrs : Nat → Nat → Niu Unit
  | _, 0 => return ()
  | index, n + 1 => do
    unmNicSetMcastAddr b index nullAddr
    clearMcastAddrs (index + 1) n

/-- With what the change of the promiscuous mode returned, which is not looked at. -/
def nxNicP2SetMulti (dev : P2NetDevice) (a : P2Adapter) : Niu (Int × P2Adapter) :=
  if dev.promisc ∨ b.maxMcCount < dev.mcList.length then do
    let (ret, a) ← unmNicSetPromiscMode b a
    let a ← unmNicDisableMcastFilter b a
    return (ret, a)
  else if dev.mcList.length = 0 then do
    let (ret, a) ← unmNicUnsetPromiscMode b a
    let a ← unmNicDisableMcastFilter b a
    return (ret, a)
  else do
    let (ret, a) ← unmNicSetPromiscMode b a
    let a ← unmNicEnableMcastFilter b a
    let index ← setMcastAddrs b 0 dev.mcList
    clearMcastAddrs b index (b.maxMcCount - index)
    return (ret, a)

/-- The two words of a station address. -/
def setStation (addr0 addr1 : Nat) (addr : Bytes) : Niu Unit := do
  nxwr32 addr1 (memcpyWord 0 addr 2 <<< 16)
  nxwr32 addr0 (memcpyWord 0 (fun i => addr (2 + i)) 4)

def unmNiuXgMacaddrSet (addr : Bytes) : Niu Int :=
  match b.physicalPort with
  | 0 => do
    let portMode ← nxrd32 unmPortModeAddr
    if portMode = unmPortMode8023Ap then do
      setStation (unmNiuApStationAddr0 0) (unmNiuApStationAddr1 0) addr
      return 0
    else do
      setStation unmNiuXgeStationAddr0Hi unmNiuXgeStationAddr01 addr
      return 0
  | 1 => do
    let portMode ← nxrd32 unmPortModeAddr
    if portMode = unmPortMode8023Ap then do
      setStation (unmNiuApStationAddr0 1) (unmNiuApStationAddr1 1) addr
      return 0
    else do
      setStation unmNiuXg1StationAddr0Hi unmNiuXg1StationAddr01 addr
      return 0
  | _ => return 0

def unmNicInitPort : Niu Int := do
  nxwr32 (unmNiuXgeConfig0 b.physicalPort) 5
  let reg ← nxrd32 (unmNiuXgeConfig1 b.physicalPort)
  nxwr32 (unmNiuXgeConfig1 b.physicalPort) (reg &&& ~~~0x2000)
  return 0

def unmNiuDisableXgPort : Niu Int :=
  if unmNiuMaxXgPorts ≤ b.physicalPort then return -1
  else do
    -- `soft_reset` is bit 4
    nxwr32 (unmNiuXgeConfig0 b.physicalPort) 0x10
    return 0

def nxNicP2StopPort (a : P2Adapter) : Niu P2Adapter := do
  let _ ← unmNiuDisableXgPort b
  return { a with promisc := false }

end Functions

/-! ## The calls -/

/-- What is done to a port. -/
inductive P2Call where
  | unmNicOpen (dev : P2NetDevice)
  | unmNicClose
  | netxenSetMulticastList (dev : P2NetDevice)
  | unmNicSetMac (addr : Bytes)

/-- An adapter, whether its interface is up, and whether it has ever been: `is_up`.  The
last three are of the history: what `nx_nic_p2_set_multi` was last called for, whether the
change of the promiscuous mode failed there, and the adapter's address when the filter was
last switched on or off. -/
structure P2Port where
  adapter : P2Adapter
  running : Bool
  isUp : Bool
  last : Option P2NetDevice
  late : Bool
  filterMac : Option Bytes

namespace P2Port

/-- The port after `nx_nic_p2_set_multi`. -/
def afterSetMulti (s : P2Port) (dev : P2NetDevice) (ret : Int) (a : P2Adapter) : P2Port :=
  { s with
    adapter := a
    last := some dev
    late := decide (ret ≠ 0)
    filterMac := if a.mcEnabled = s.adapter.mcEnabled then s.filterMac else some a.macAddr }

end P2Port

/-- The parts of a call that are about the filters. -/
def P2Call.prog (b : P2Board) (s : P2Port) : P2Call → Option (Niu P2Port)
  | .unmNicOpen dev =>
    if s.running then none
    else some do
      let _ ← unmNiuXgMacaddrSet b s.adapter.macAddr
      let _ ← unmNicInitPort b
      let (ret, a) ← nxNicP2SetMulti b dev s.adapter
      return { s.afterSetMulti dev ret a with running := true, isUp := true }
  | .unmNicClose =>
    if s.running then some do
      let a ← nxNicP2StopPort b s.adapter
      return { s with adapter := a, running := false }
    else none
  | .netxenSetMulticastList dev =>
    if s.running then some do
      let (ret, a) ← nxNicP2SetMulti b dev s.adapter
      return s.afterSetMulti dev ret a
    else none
  | .unmNicSetMac addr =>
    let t := { s with adapter := { s.adapter with macAddr := addr } }
    if s.isUp then some do
      let _ ← unmNiuXgMacaddrSet b addr
      return t
    else some (return t)

end Mac
end NxNic
