/-
The settings of a deployment.

Every setting has a usual value, so that an empty document is a deployment.  The
subnets for projects must be distinct IPv4 networks of 24 bits.
-/

import HostNet.Duration
import HostNet.Link.Basic
import HostNet.Rule.Codec
import HostNet.StatePaths

namespace HostNet

/-- The settings of a deployment. -/
structure Settings where
  /-- The mark in front of the names of managed links. -/
  mark : String
  uplink : String
  /-- The subnets that projects are given. -/
  subnets : List Ipv4Net
  /-- The tables that snapshots cover. -/
  tables : List Table
  /-- The most seconds that one operation on the host may take. -/
  operationSeconds : UInt64
  /-- The most seconds that an operation waits for the lock. -/
  lockSeconds : UInt64
  stateDirectory : String
  deriving DecidableEq

namespace Settings

/-- The network `10.10.n.0/24`. -/
def privateSubnet (n : Nat) : Ipv4Net :=
  .ofAddress24 (BitVec.ofNat 32 (0x0A0A0000 + n * 256))

/-- The usual settings. -/
def standard : Settings where
  mark := Naming.standard.mark
  uplink := "enp0s8"
  subnets := [10, 11, 12, 13, 14, 15].map privateSubnet
  tables := [.filter, .nat]
  operationSeconds := 10
  lockSeconds := 30
  stateDirectory := StatePaths.standard.root

/-! ## Checks -/

/-- Whether a network is one for a project: 24 bits, and no host bits. -/
def isProjectSubnet (n : Ipv4Net) : Bool := n.length == 24 && n.truncated == n

/-- Checks subnets for projects one after the other, given those before them. -/
def checkSubnets (before : List Ipv4Net) : List Ipv4Net → Except Error Unit
  | [] => .ok ()
  | n :: rest =>
    if !isProjectSubnet n then
      .error (.validation "project_subnets" (n.text ++ " is not an IPv4 /24 network"))
    else if before.contains n then
      .error (.validation "project_subnets" (n.text ++ " is listed twice"))
    else checkSubnets (n :: before) rest

/-- Checks that a text is not empty. -/
def checkGiven (field value : String) : Except Error Unit :=
  if value.isEmpty then .error (.validation field "must not be empty") else .ok ()

/-- Checks that a number of seconds is not zero. -/
def checkPositive (field : String) (seconds : UInt64) : Except Error Unit :=
  if seconds = 0 then .error (.validation field "must be greater than zero") else .ok ()

/-- Checks the settings one after the other. -/
def check (s : Settings) : Except Error Unit := do
  checkGiven "managed_prefix" s.mark
  checkGiven "uplink_interface" s.uplink
  checkSubnets [] s.subnets
  checkPositive "operation_timeout_secs" s.operationSeconds
  checkPositive "lock_timeout_secs" s.lockSeconds

/-! ## Use -/

/-- A span of time in whole seconds, at least one. -/
def secondsOf (d : Duration) : UInt64 := UInt64.ofNat (max d.wholeSeconds 1)

/-- The most time that one operation on the host may take. -/
def operationTimeout (s : Settings) : Duration := .ofSeconds s.operationSeconds.toNat

/-- The most time that an operation waits for the lock. -/
def lockTimeout (s : Settings) : Duration := .ofSeconds s.lockSeconds.toNat

/-- The files of the deployment. -/
def paths (s : Settings) : StatePaths := ⟨s.stateDirectory⟩

/-- The naming of managed links. -/
def naming (s : Settings) : Naming := ⟨s.mark⟩

end Settings

end HostNet
