import Mathlib.Tactic

/-!
# Automatic deployment

The deployment daemon keeps the load that it has booked on each cluster and on
each node.  For a program with little need of memory bandwidth it looks for a
cluster with enough idle CPUs, starting with the first one of the node of its
devices, and otherwise takes this node or its package.  CPU, cluster, node and
package numbers are plain integers, and the function passes one for another.
-/

namespace WaycaScheduler

def NR_CPUS : ℕ := 1024

/-- The sizes that the topology functions return on a machine whose clusters,
nodes and packages are numbered along their CPUs. -/
structure DeployMachine where
  cpusInCcl : ℕ
  cpusInNode : ℕ
  cpusInPackage : ℕ
  cpusInTotal : ℕ
  total_pos : 0 < cpusInTotal
  ccl_dvd : cpusInCcl ∣ cpusInNode
  node_dvd : cpusInNode ∣ cpusInPackage
  package_dvd : cpusInPackage ∣ cpusInTotal

/-- `ccl_cpus_load` and `node_cpus_load` -/
structure DeployLoads where
  ccl : ℕ → ℤ
  node : ℕ → ℤ

/-- `enum MEMBAND` -/
inductive MemBand where
  | low
  | die
  | package
  | all
deriving DecidableEq

/-- What `process_auto_bind` reads of `struct program`.  A configuration without
a bandwidth has none. -/
structure AutoProgram where
  cpuUtil : ℤ
  ioNode : ℤ
  memBand : Option MemBand

/-- A call of `thread_bind_ccl` and its siblings, with the argument. -/
inductive BindCall where
  | ccl (ccl : ℕ)
  | node (node : ℕ)
  | package (package : ℕ)
  | unbind
deriving DecidableEq

/-- The loads after a call, what it has bound the program to and where it has
added the utilisation. -/
structure AutoOutcome where
  loads : DeployLoads
  bound : Option BindCall
  cclBooked : Option ℕ
  nodeBooked : Option ℕ

section Program

variable (machine : DeployMachine) (loads : DeployLoads)

def cclIdleCpuCores (ccl : ℕ) : ℤ := machine.cpusInCcl - loads.ccl ccl

def nodeIdleCpuCores (node : ℕ) : ℤ := machine.cpusInNode - loads.node node

/-- `for (int i = 0; i < cr_in_pack; i += cr_in_ccl)`: the CPU where an idle
cluster starts, if there is one.  There is no result for a read behind the
table. -/
def idleCclLoop (cpuUtil : ℤ) (cpu : ℕ) : ℕ → ℕ → Option (Option ℕ)
  | 0, _ => some none
  | left + 1, i =>
      let ccl := (i + cpu) / machine.cpusInCcl
      if NR_CPUS ≤ ccl then none
      else if cpuUtil ≤ cclIdleCpuCores machine loads ccl then some (some (i + cpu))
      else idleCclLoop cpuUtil cpu left (i + machine.cpusInCcl)

def bookCcl (ccl : ℕ) (cpuUtil : ℤ) : DeployLoads :=
  { loads with ccl := Function.update loads.ccl ccl (loads.ccl ccl + cpuUtil) }

def bookNode (node : ℕ) (cpuUtil : ℤ) : DeployLoads :=
  { loads with node := Function.update loads.node node (loads.node node + cpuUtil) }

section Booking

variable {loads}

theorem update_add (load : ℕ → ℤ) (index k : ℕ) (cpuUtil : ℤ) :
    Function.update load index (load index + cpuUtil) k =
      load k + if k = index then cpuUtil else 0 := by
  by_cases hk : k = index
  · rw [hk, Function.update_self, if_pos rfl]
  · rw [Function.update_of_ne hk, if_neg hk, add_zero]

theorem bookCcl_ccl (ccl k : ℕ) (cpuUtil : ℤ) :
    (bookCcl loads ccl cpuUtil).ccl k = loads.ccl k + if k = ccl then cpuUtil else 0 :=
  update_add loads.ccl ccl k cpuUtil

theorem bookNode_node (node m : ℕ) (cpuUtil : ℤ) :
    (bookNode loads node cpuUtil).node m = loads.node m + if m = node then cpuUtil else 0 :=
  update_add loads.node node m cpuUtil

@[simp]
theorem bookCcl_node (ccl : ℕ) (cpuUtil : ℤ) : (bookCcl loads ccl cpuUtil).node = loads.node := rfl

@[simp]
theorem bookNode_ccl (node : ℕ) (cpuUtil : ℤ) : (bookNode loads node cpuUtil).ccl = loads.ccl := rfl

end Booking

/-- `case DIE` -/
def bindDie (cpuUtil : ℤ) (ioNode : ℕ) : Option AutoOutcome :=
  if NR_CPUS ≤ ioNode then none
  else if cpuUtil ≤ nodeIdleCpuCores machine loads ioNode then
    some ⟨bookNode loads ioNode cpuUtil, some (.node ioNode), none, some ioNode⟩
  else some ⟨loads, some (.package ioNode), none, none⟩

/-- `process_auto_bind`, none where it writes outside the load tables. -/
def processAutoBind (prog : AutoProgram) : Option AutoOutcome :=
  if prog.ioNode < 0 then some ⟨loads, none, none, none⟩
  else
    let ioNode := prog.ioNode.toNat
    let cpu := machine.cpusInNode * ioNode
    match prog.memBand with
    | some .low => do
        match ← idleCclLoop machine loads prog.cpuUtil cpu
            (machine.cpusInPackage / machine.cpusInCcl) 0 with
        | some start =>
            let ccl := start / machine.cpusInCcl
            let node := start / machine.cpusInNode
            some ⟨bookNode (bookCcl loads ccl prog.cpuUtil) node prog.cpuUtil,
              some (.ccl start), some ccl, some node⟩
        | none => bindDie machine loads prog.cpuUtil ioNode
    | some .die => bindDie machine loads prog.cpuUtil ioNode
    | some .package => some ⟨loads, some (.package ioNode), none, none⟩
    | some .all => some ⟨loads, some .unbind, none, none⟩
    | none => some ⟨loads, some (.package ioNode), none, none⟩

end Program

/-! ## Clusters of a machine -/

namespace DeployMachine

variable (machine : DeployMachine)

def cclOf (cpu : ℕ) : ℕ := cpu / machine.cpusInCcl

def nodeOf (cpu : ℕ) : ℕ := cpu / machine.cpusInNode

def packageOf (cpu : ℕ) : ℕ := cpu / machine.cpusInPackage

/-- `wayca_sc_nodes_in_total` -/
def nodes : ℕ := machine.cpusInTotal / machine.cpusInNode

def cclsInNode : ℕ := machine.cpusInNode / machine.cpusInCcl

def cclsInPackage : ℕ := machine.cpusInPackage / machine.cpusInCcl

def firstCcl (node : ℕ) : ℕ := node * machine.cclsInNode

theorem package_pos : 0 < machine.cpusInPackage :=
  Nat.pos_of_dvd_of_pos machine.package_dvd machine.total_pos

theorem node_pos : 0 < machine.cpusInNode :=
  Nat.pos_of_dvd_of_pos machine.node_dvd machine.package_pos

theorem ccl_pos : 0 < machine.cpusInCcl := Nat.pos_of_dvd_of_pos machine.ccl_dvd machine.node_pos

theorem node_eq : machine.cpusInNode = machine.cpusInCcl * machine.cclsInNode :=
  (Nat.mul_div_cancel' machine.ccl_dvd).symm

theorem package_eq : machine.cpusInPackage = machine.cpusInCcl * machine.cclsInPackage :=
  (Nat.mul_div_cancel' (machine.ccl_dvd.trans machine.node_dvd)).symm

theorem cclsInPackage_pos : 0 < machine.cclsInPackage :=
  Nat.div_pos (Nat.le_of_dvd machine.package_pos (machine.ccl_dvd.trans machine.node_dvd))
    machine.ccl_pos

theorem of_cclOf {cpu ccl : ℕ} (hccl : machine.cclOf cpu = ccl) :
    machine.nodeOf cpu = ccl / machine.cclsInNode ∧
      machine.packageOf cpu = ccl / machine.cclsInPackage := by
  subst hccl
  unfold nodeOf packageOf cclOf
  rw [machine.node_eq, machine.package_eq, Nat.div_div_eq_div_mul, Nat.div_div_eq_div_mul]
  exact ⟨rfl, rfl⟩

theorem start_eq (ioNode j : ℕ) :
    j * machine.cpusInCcl + machine.cpusInNode * ioNode =
      (machine.firstCcl ioNode + j) * machine.cpusInCcl := by
  rw [firstCcl, machine.node_eq]
  ring

end DeployMachine

/-! ## The search for an idle cluster -/

section Search

variable {machine : DeployMachine} {loads : DeployLoads} {cpuUtil : ℤ} {ioNode : ℕ}

/-- The search takes cluster `j` counted from the first one of the node. -/
structure FirstIdle (machine : DeployMachine) (loads : DeployLoads) (cpuUtil : ℤ) (ioNode j : ℕ) :
    Prop where
  near : j < machine.cclsInPackage
  idle : cpuUtil ≤ cclIdleCpuCores machine loads (machine.firstCcl ioNode + j)
  busy : ∀ i < j, cclIdleCpuCores machine loads (machine.firstCcl ioNode + i) < cpuUtil
  inTable : machine.firstCcl ioNode + j < NR_CPUS

structure NoneIdle (machine : DeployMachine) (loads : DeployLoads) (cpuUtil : ℤ) (ioNode : ℕ) :
    Prop where
  busy : ∀ i < machine.cclsInPackage,
    cclIdleCpuCores machine loads (machine.firstCcl ioNode + i) < cpuUtil
  inTable : machine.firstCcl ioNode + machine.cclsInPackage ≤ NR_CPUS

/-- The search finds the first idle cluster, or none, or leaves the table.  The
induction is on the clusters that are left. -/
theorem idleCclLoop_cases {left j : ℕ} (hleft : j + left = machine.cclsInPackage)
    (hbusy : ∀ i < j, cclIdleCpuCores machine loads (machine.firstCcl ioNode + i) < cpuUtil)
    (htable : ∀ i < j, machine.firstCcl ioNode + i < NR_CPUS) :
    (∃ k, FirstIdle machine loads cpuUtil ioNode k ∧
      idleCclLoop machine loads cpuUtil (machine.cpusInNode * ioNode) left (j * machine.cpusInCcl) =
          some (some ((machine.firstCcl ioNode + k) * machine.cpusInCcl))) ∨
    (NoneIdle machine loads cpuUtil ioNode ∧
      idleCclLoop machine loads cpuUtil (machine.cpusInNode * ioNode) left
        (j * machine.cpusInCcl) = some none) ∨
    ((∀ k, ¬ FirstIdle machine loads cpuUtil ioNode k) ∧ ¬ NoneIdle machine loads cpuUtil ioNode ∧
      idleCclLoop machine loads cpuUtil (machine.cpusInNode * ioNode) left
        (j * machine.cpusInCcl) = none) := by
  induction left generalizing j with
  | zero =>
      rw [Nat.add_zero] at hleft
      subst hleft
      refine .inr (.inl ⟨⟨hbusy, ?_⟩, rfl⟩)
      have hpos := machine.cclsInPackage_pos
      have hlast := htable (machine.cclsInPackage - 1) (Nat.sub_lt hpos one_pos)
      omega
  | succ left ih =>
      have hccl : (j * machine.cpusInCcl + machine.cpusInNode * ioNode) / machine.cpusInCcl =
          machine.firstCcl ioNode + j := by
        rw [machine.start_eq, Nat.mul_div_cancel _ machine.ccl_pos]
      rw [idleCclLoop, hccl]
      by_cases houtside : NR_CPUS ≤ machine.firstCcl ioNode + j
      · refine .inr (.inr ⟨?_, ?_, if_pos houtside⟩)
        · intro k hfirst
          have hin := hfirst.inTable
          exact absurd hfirst.idle (not_le.mpr (hbusy k (by omega)))
        · intro hnone
          have hin := hnone.inTable
          omega
      · rw [if_neg houtside]
        by_cases hidle : cpuUtil ≤ cclIdleCpuCores machine loads (machine.firstCcl ioNode + j)
        · refine .inl ⟨j, ⟨by omega, hidle, hbusy, not_le.mp houtside⟩, ?_⟩
          rw [if_pos hidle, machine.start_eq]
        · rw [if_neg hidle, ← Nat.succ_mul]
          apply ih
          · omega
          · intro i hi
            rcases Nat.lt_succ_iff_lt_or_eq.mp hi with hlt | rfl
            · exact hbusy i hlt
            · exact not_le.mp hidle
          · intro i hi
            rcases Nat.lt_succ_iff_lt_or_eq.mp hi with hlt | rfl
            · exact htable i hlt
            · exact not_le.mp houtside

end Search

/-! ## What a call does -/

section Call

variable {machine : DeployMachine} {loads : DeployLoads} {prog : AutoProgram} {ioNode : ℕ}

def cclOutcome (machine : DeployMachine) (loads : DeployLoads) (cpuUtil : ℤ) (ccl : ℕ) :
    AutoOutcome :=
  ⟨bookNode (bookCcl loads ccl cpuUtil) (ccl / machine.cclsInNode) cpuUtil,
    some (.ccl (ccl * machine.cpusInCcl)), some ccl, some (ccl / machine.cclsInNode)⟩

theorem processAutoBind_low (hnode : prog.ioNode = ioNode) (hband : prog.memBand = some .low) :
    (∃ k, FirstIdle machine loads prog.cpuUtil ioNode k ∧ processAutoBind machine loads prog =
        some (cclOutcome machine loads prog.cpuUtil (machine.firstCcl ioNode + k))) ∨
    (NoneIdle machine loads prog.cpuUtil ioNode ∧
      processAutoBind machine loads prog = bindDie machine loads prog.cpuUtil ioNode) ∨
    ((∀ k, ¬ FirstIdle machine loads prog.cpuUtil ioNode k) ∧
      ¬ NoneIdle machine loads prog.cpuUtil ioNode ∧
      processAutoBind machine loads prog = none) := by
  have hstart : ((ioNode : ℤ)).toNat = ioNode := Int.toNat_natCast ioNode
  have hcases := @idleCclLoop_cases machine loads prog.cpuUtil ioNode machine.cclsInPackage 0
    (Nat.zero_add _) (by omega) (by omega)
  rw [Nat.zero_mul] at hcases
  rw [processAutoBind, hnode, hband, if_neg (by omega), hstart]
  rcases hcases with ⟨k, hfirst, hloop⟩ | ⟨hnone, hloop⟩ | ⟨hfirst, hnone, hloop⟩
  · refine .inl ⟨k, hfirst, ?_⟩
    have hccl := Nat.mul_div_cancel (machine.firstCcl ioNode + k) machine.ccl_pos
    have hof := (machine.of_cclOf hccl).1
    unfold DeployMachine.nodeOf at hof
    unfold DeployMachine.cclsInPackage at hloop
    simp only [hloop, Option.bind_eq_bind, Option.bind_some, hccl, hof]
    rfl
  · refine .inr (.inl ⟨hnone, ?_⟩)
    unfold DeployMachine.cclsInPackage at hloop
    simp only [hloop, Option.bind_eq_bind, Option.bind_some]
  · refine .inr (.inr ⟨hfirst, hnone, ?_⟩)
    unfold DeployMachine.cclsInPackage at hloop
    simp only [hloop, Option.bind_eq_bind, Option.bind_none]

end Call

/-! ## Where a program is bound and booked -/

section Agreement

variable {machine : DeployMachine} {loads : DeployLoads} {cpuUtil : ℤ} {ioNode : ℕ}

theorem firstIdle_unique {j k : ℕ} (hj : FirstIdle machine loads cpuUtil ioNode j)
    (hk : FirstIdle machine loads cpuUtil ioNode k) : j = k := by
  rcases Nat.lt_trichotomy j k with hlt | rfl | hgt
  · exact absurd hj.idle (not_le.mpr (hk.busy j hlt))
  · rfl
  · exact absurd hk.idle (not_le.mpr (hj.busy k hgt))

theorem FirstIdle.not_noneIdle {k : ℕ} (hfirst : FirstIdle machine loads cpuUtil ioNode k) :
    ¬ NoneIdle machine loads cpuUtil ioNode := by
  intro hnone
  exact absurd hfirst.idle (not_le.mpr (hnone.busy k hfirst.near))

end Agreement

def twoNodes : DeployMachine where
  cpusInCcl := 2
  cpusInNode := 4
  cpusInPackage := 8
  cpusInTotal := 8
  total_pos := Nat.succ_pos _
  ccl_dvd := by decide
  node_dvd := by decide
  package_dvd := by decide

end WaycaScheduler
