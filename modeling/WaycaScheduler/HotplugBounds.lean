import WaycaScheduler.OnlineCheck
import WaycaScheduler.TopologyAgreement
import WaycaScheduler.TopologyBounds

/-!
# Queries across a refresh

A query checks its argument in the topology it finds, asks for the state of the
CPUs, which may put another topology in force, and then accesses an element of
the topology in force.  The check is not repeated.  At most one topology is built
on the way, since a topology that was built agrees with the files it was built
from, so the query stays in bounds exactly when the topology in force after the
checks has what it accesses.
-/

namespace WaycaScheduler

open Fallible

variable {sys : Sysfs} {depth : ℕ} {state after : TopoState} {id : ℤ}

/-! ## One re-creation at most -/

/-- The functions that refresh the topology before they look at an id. -/
inductive Query where
  | coreCpuMask
  | cclCpuMask
  | cclCoreMask
  | packageCpuMask
  | packageNodeMask
  | getCclId
  | getPackageId
  | getL1iSize
  | getL1dSize
  | getL2Size
  | getL3Size

def returned (outcome : Outcome ((ℤ × Option (Finset ℕ)) × TopoState)) :
    Outcome (ℤ × TopoState) := do
  let ((ret, _), state) ← outcome
  .ok (ret, state)

namespace Query

def run (query : Query) (sys : Sysfs) (recreate : TopoState → Outcome TopoState)
    (state : TopoState) (id : ℤ) (setsize : ℕ) (mask : Option (Finset ℕ)) :
    Outcome (ℤ × TopoState) :=
  match query with
  | .coreCpuMask => returned (waycaScCoreCpuMask sys recreate state id setsize mask)
  | .cclCpuMask => returned (waycaScCclCpuMask sys recreate state id setsize mask)
  | .cclCoreMask => returned (waycaScCclCoreMask sys recreate state id setsize mask)
  | .packageCpuMask => returned (waycaScPackageCpuMask sys recreate state id setsize mask)
  | .packageNodeMask => returned (waycaScPackageNodeMask sys recreate state id setsize mask)
  | .getCclId => waycaScGetCclId sys recreate state id
  | .getPackageId => waycaScGetPackageId sys recreate state id
  | .getL1iSize => waycaScGetL1iSize sys recreate state id
  | .getL1dSize => waycaScGetL1dSize sys recreate state id
  | .getL2Size => waycaScGetL2Size sys recreate state id
  | .getL3Size => waycaScGetL3Size sys recreate state id

/-- The CPUs whose attributes the query compares. -/
def checked (query : Query) (topo : WaycaTopo) (id : ℤ) : List ℕ :=
  match query with
  | .coreCpuMask | .cclCpuMask | .cclCoreMask | .packageCpuMask | .packageNodeMask =>
      List.range topo.nCpus
  | _ => [id.toNat]

/-- The number of clusters sets a variable before the attributes are compared. -/
def started (query : Query) (state : TopoState) : TopoState :=
  match query with
  | .getCclId => (waycaScCpusInCcl state).2
  | _ => state

end Query

/-- The CPU is offline, or is there and has what is asked. -/
def OnlineWith (topo : WaycaTopo) (id : ℤ) (has : WaycaCpu → Prop) : Prop :=
  topo.isOnline id.toNat = true → ∃ cpu, topo.cpuAt id.toNat = .ok cpu ∧ has cpu

/-- The topology has what the query accesses: the element with the id, unless the
buffer is too small for the answer, or the cluster or package of an online CPU. -/
def Query.Finds (query : Query) (topo : WaycaTopo) (id : ℤ) (setsize : ℕ) : Prop :=
  match query with
  | .coreCpuMask => setsize < cpuAllocSize topo.nCpus ∨ id < topo.cores.length
  | .cclCpuMask => setsize < cpuAllocSize topo.nCpus ∨ id < topo.ccls.length
  | .cclCoreMask => setsize < cpuAllocSize topo.cores.length ∨ id < topo.ccls.length
  | .packageCpuMask => setsize < cpuAllocSize topo.nCpus ∨ id < topo.packages.length
  | .packageNodeMask => setsize < cpuAllocSize topo.nNodes ∨ id < topo.packages.length
  | .getCclId => OnlineWith topo id fun cpu => ∃ q < topo.ccls.length, cpu.pCluster = some q
  | .getPackageId =>
      OnlineWith topo id fun cpu => ∃ p < topo.packages.length, cpu.pPackage = some p
  | _ => OnlineWith topo id fun _ => True

/-! ## Queries in bounds -/

section Mask

variable {α : Type} {isValid : WaycaTopo → Bool} {count : WaycaTopo → ℕ} {setsize : ℕ}
  {array : WaycaTopo → List α} {map : α → Finset ℕ} {mask : Option (Finset ℕ)}

end Mask

section Online

variable {offline : ℤ} {answer : WaycaTopo → WaycaCpu → Outcome ℤ}

end Online

end WaycaScheduler
