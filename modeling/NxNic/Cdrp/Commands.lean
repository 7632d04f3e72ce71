import Mathlib.Logic.Function.Basic

/-! # Firmware commands

The root command interface of `nxhal_nic_interface.h`: one command and response
register, three argument registers and a signature, shared by all the functions
of the card.  The functions of `nxhal.c` that issue a command differ in its
arguments and in the registers they read when it is over.

So a function is an `FwCmd`: its command, its three arguments and the list of registers that it
reads afterwards, with whether it reads them after a failure too.  Each function of the source has
its own.
-/
namespace NxNic
namespace Cdrp

/-! ## The protocol -/

/-- `NX_ARG1_CRB_OFFSET` and so on. -/
inductive ArgReg where
  | arg1
  | arg2
  | arg3
deriving DecidableEq

def nxCdrpCmdBit : BitVec 32 := 0x80000000

def nxCdrpRspOk : BitVec 32 := 1
def nxCdrpRspFail : BitVec 32 := 2
def nxCdrpRspTimeout : BitVec 32 := 3

/-- `NX_CDRP_IS_RSP`. -/
def nxCdrpIsRsp (rsp : BitVec 32) : Bool := rsp &&& nxCdrpCmdBit = 0

/-- `NX_CDRP_FORM_CMD`. -/
def nxCdrpFormCmd (cmd : BitVec 32) : BitVec 32 := nxCdrpCmdBit ||| cmd

/-- `NX_CDRP_SIGNATURE_MAKE`. -/
def nxCdrpSignatureMake (pcifn version : BitVec 32) : BitVec 32 :=
  (pcifn &&& 0xff) ||| ((version &&& 0xff) <<< 8) ||| (0xcafe <<< 16)

def nxRcodeSuccess : BitVec 32 := 0
def nxRcodeTimeout : BitVec 32 := 17

/-- `NX_OS_CRB_RETRY_COUNT`. -/
def nxOsCrbRetryCount : Nat := 4000

/-- A command is not a response. -/
theorem not_isRsp_formCmd (cmd : BitVec 32) : nxCdrpIsRsp (nxCdrpFormCmd cmd) = false := by
  apply decide_eq_false
  intro h
  have hbit : ((nxCdrpCmdBit ||| cmd) &&& nxCdrpCmdBit).getLsbD 31 = false := by
    rw [show (nxCdrpCmdBit ||| cmd) &&& nxCdrpCmdBit = 0 from h]
    rfl
  have hset : nxCdrpCmdBit.getLsbD 31 = true := by decide
  rw [BitVec.getLsbD_and, BitVec.getLsbD_or, hset, Bool.true_or, Bool.true_and] at hbit
  cases hbit

/-! ## The functions that issue a command -/

/-- A call of a function that issues a command: what it passes to `issue_cmd`, and
the registers it reads afterwards, in order; `always` where it does so even if the
command failed. -/
structure FwCmd where
  pciFn : BitVec 32
  version : BitVec 32
  arg1 : BitVec 32
  arg2 : BitVec 32
  arg3 : BitVec 32
  cmd : BitVec 32
  reads : List ArgReg
  always : Bool

/-- What is passed in a register. -/
def FwCmd.arg (c : FwCmd) : ArgReg → BitVec 32
  | .arg1 => c.arg1
  | .arg2 => c.arg2
  | .arg3 => c.arg3

def nxhalVersion : BitVec 32 := 1

section
variable (pciFunc : BitVec 32)

def nxFwCmdSubmitCapabilities (in0 in1 in2 : BitVec 32) : FwCmd :=
  ⟨pciFunc, nxhalVersion, in0, in1, in2, 0x01, [.arg1, .arg2, .arg3], false⟩

def nxFwCmdGetToeLicense : FwCmd := ⟨pciFunc, nxhalVersion, 0, 0, 0, 0x1d, [.arg2], false⟩

def nxFwCmdQueryPhy (reg : BitVec 32) : FwCmd :=
  ⟨pciFunc, nxhalVersion, reg, 0, 0, 0x13, [.arg1], false⟩

def nxFwCmdSetPhy (reg val : BitVec 32) : FwCmd :=
  ⟨pciFunc, nxhalVersion, reg, val, 0, 0x14, [], false⟩

def nxFwCmdQueryHwReg (reg offsetUnit : BitVec 32) : FwCmd :=
  ⟨pciFunc, nxhalVersion, reg, offsetUnit, 0, 0x15, [.arg1], false⟩

def nxFwCmdGetFlowCtl (isTx : BitVec 32) : FwCmd :=
  ⟨pciFunc, nxhalVersion, isTx, 0, 0, 0x16, [.arg1], false⟩

def nxFwCmdSetFlowCtl (isTx val : BitVec 32) : FwCmd :=
  ⟨pciFunc, nxhalVersion, isTx, val, 0, 0x17, [], false⟩

/-- It reads nothing back, and neither does the next one. -/
def nxFwCmdQueryMaxRdsPerCtx : FwCmd := ⟨pciFunc, nxhalVersion, 0, 0, 0, 0x02, [], false⟩

def nxFwCmdQueryMaxSdsPerCtx : FwCmd := ⟨pciFunc, nxhalVersion, 0, 0, 0, 0x03, [], false⟩

def nxFwCmdQueryMaxRulesPerCtx : FwCmd := ⟨pciFunc, nxhalVersion, 0, 0, 0, 0x04, [.arg1], true⟩

def nxFwCmdQueryMaxRxCtx : FwCmd := ⟨pciFunc, nxhalVersion, 0, 0, 0, 0x05, [.arg1], true⟩

def nxFwCmdQueryMaxTxCtx : FwCmd := ⟨pciFunc, nxhalVersion, 0, 0, 0, 0x06, [.arg1], true⟩

def nxFwCmdQueryMaxMtu : FwCmd := ⟨pciFunc, nxhalVersion, 0, 0, 0, 0x18, [.arg1], true⟩

def nxFwCmdQueryMaxLro : FwCmd := ⟨pciFunc, nxhalVersion, 0, 0, 0, 0x19, [.arg1], true⟩

def nxFwCmdQueryMaxLroPerBoard : FwCmd := ⟨pciFunc, nxhalVersion, 0, 0, 0, 0x1e, [.arg1], true⟩

def nxFwCmdSetMtu (contextId mtu : BitVec 32) : FwCmd :=
  ⟨pciFunc, nxhalVersion, contextId, mtu, 0, 0x12, [], false⟩

def nxFwCmdQueryPexq : FwCmd := ⟨pciFunc, nxhalVersion, 0, 0, 0, 0x1c, [.arg1, .arg2], true⟩

end

end Cdrp
end NxNic
