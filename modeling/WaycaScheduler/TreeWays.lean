import WaycaScheduler.TreeKeys

/-!
# Ways through the topology

A CPU is shown for every way from the system down to it that the masks leave
open below the limits.  When every level has one element for the CPU there is
one way, and whatever way there is goes through the masks.
-/

namespace WaycaScheduler

open SiblingForest

section Ways

variable {topo : WaycaTopo} {cpu package node ccl core : ℕ}
variable {way : List ElementKey} {mask : Finset ℕ} {level : TopoLevel}

def wayTo (topo : WaycaTopo) (cpu package node ccl core : ℕ) : List ElementKey :=
  ([(.cpu, some (cpu : ℤ)), (.core, some (core : ℤ))] ++
    if topo.largestCcl = 0 then [] else [(.ccl, some (ccl : ℤ))]) ++
    [(.numa, some (node : ℤ)), (.pkg, some (package : ℤ)), (.sys, none)]

theorem wayTo_levels (topo : WaycaTopo) (cpu package node ccl core : ℕ) (level : TopoLevel) :
    ((wayTo topo cpu package node ccl core).filter fun key => decide (key.1 = level)) =
      match level with
      | .sys => [(.sys, none)]
      | .pkg => [(.pkg, some (package : ℤ))]
      | .numa => [(.numa, some (node : ℤ))]
      | .ccl => if topo.largestCcl = 0 then [] else [(.ccl, some (ccl : ℤ))]
      | .core => [(.core, some (core : ℤ))]
      | .cpu => [(.cpu, some (cpu : ℤ))]
      | _ => [] := by
  unfold wayTo
  split
  next => cases level <;> rfl
  next => cases level <;> rfl

/-- The masks on the way to a CPU have one element for it at each level. -/
structure Placement (topo : WaycaTopo) (cpu package node ccl core : ℕ) : Prop where
  cpu_lt : cpu < topo.nCpus
  package_lt : package < topo.packages.length
  node_lt : node < topo.nNodes
  core_lt : core < topo.cores.length
  core_limit : core < topo.nCpus / topo.largestCore
  node_iff : ∀ p, node ∈ maskAt WaycaPackage.numaMap topo.packages p ↔ p = package
  cpu_iff : ∀ r, cpu ∈ maskAt WaycaCore.coreCpusMap topo.cores r ↔ r = core
  inNode : topo.largestCcl = 0 → ∀ k, core ∈ topo.nodeCores k ↔ k = node
  ccl_of : ∀ c, core ∈ topo.cclCores c → c = ccl
  inCcl : topo.largestCcl ≠ 0 →
    ccl < topo.ccls.length ∧ ccl < topo.nCpus / topo.largestCcl ∧
      (∀ k, ccl ∈ (topo.node k).clusterMap ↔ k = node) ∧ core ∈ topo.cclCores ccl

/-- The element is one of those around the CPU. -/
def Encloses (cpu package node ccl core : ℕ) : ElementKey → Prop
  | (.sys, _) => True
  | (.pkg, some p) => p.toNat = package
  | (.numa, some k) => k.toNat = node
  | (.ccl, some c) => c.toNat = ccl
  | (.core, some r) => r.toNat = core
  | (.cpu, some i) => i.toNat = cpu
  | _ => False

theorem mem_cpuSeen {size i : ℕ} {set : Finset ℕ} :
    i ∈ cpuSeen size set ↔ i ∈ set ∧ i / 8 < size := Finset.mem_filter

theorem mem_shownKeys_of {limit count i : ℕ}
    (hlimit : i < limit) (hcount : i < count) (hmask : i ∈ mask) :
    (level, some (i : ℤ)) ∈ shownKeys level limit (cpuSeen (cpuAllocSize count) mask) :=
  mem_shownKeys.mpr ⟨i, hlimit, mem_cpuSeen.mpr ⟨hmask, lt_cpuAllocSize hcount⟩, rfl⟩

theorem shownKeys_nodup (level : TopoLevel) (limit : ℕ) (mask : Finset ℕ) :
    (shownKeys level limit mask).Nodup := by
  apply List.Nodup.map
  · intro first second hsame
    simpa using hsame
  · exact List.nodup_range.filter _

theorem keyChildren_nodup (topo : WaycaTopo) (key : ElementKey) : (keyChildren topo key).Nodup := by
  obtain ⟨level, index⟩ := key
  have hpackages : ((List.range topo.packages.length).map fun i : ℕ =>
      ((.pkg, some (i : ℤ)) : ElementKey)).Nodup := by
    apply List.Nodup.map
    · intro first second hsame
      simpa using hsame
    · exact List.nodup_range
  cases level with
  | sys => exact hpackages
  | pkg | ccl | core =>
      cases index with
      | none => exact List.nodup_nil
      | some index => exact shownKeys_nodup _ _ _
  | numa =>
      cases index with
      | none => exact List.nodup_nil
      | some index =>
          simp only [keyChildren]
          split
          · exact shownKeys_nodup _ _ _
          · exact shownKeys_nodup _ _ _
  | cpu | intr | irq | pcidev | smmudev => exact List.nodup_nil

abbrev OnlyWayTo (topo : WaycaTopo) (cpu package node ccl core : ℕ) :
    ElementKey → List ElementKey → Prop :=
  OnlyWay (keyChildren topo) (fun key => decide (key = (.cpu, some (cpu : ℤ))))
    (Encloses cpu package node ccl core)

theorem onlyWay_shown (parent : TopoLevel) (index : Option ℤ)
    {child limit : ℕ} (hother : parent ≠ .cpu)
    (hchildren : keyChildren topo (parent, index) = shownKeys level limit mask)
    (hchild : (level, some (child : ℤ)) ∈ shownKeys level limit mask)
    (hindex : ∀ i : ℕ, Encloses cpu package node ccl core (level, some (i : ℤ)) → i = child)
    (hbelow : OnlyWayTo topo cpu package node ccl core (level, some (child : ℤ)) way) :
    OnlyWayTo topo cpu package node ccl core (parent, index) (way ++ [(parent, index)]) := by
  apply OnlyWay.step _ (keyChildren_nodup topo _) _ _ hbelow
  · apply decide_eq_false
    intro hsame
    exact hother (congrArg Prod.fst hsame)
  · rw [hchildren]
    exact hchild
  · intro other hmem hencloses
    rw [hchildren] at hmem
    obtain ⟨i, -, -, rfl⟩ := mem_shownKeys.mp hmem
    rw [hindex i hencloses]

section Placement

variable (hplaced : Placement topo cpu package node ccl core)

include hplaced

theorem Placement.parent (key child : ElementKey) (hchild : child ∈ keyChildren topo key)
    (hencloses : Encloses cpu package node ccl core child) :
    Encloses cpu package node ccl core key := by
  obtain ⟨level, index⟩ := key
  cases level with
  | sys => trivial
  | pkg =>
      cases index with
      | none => cases hchild
      | some p =>
          obtain ⟨i, -, hmask, rfl⟩ := mem_shownKeys.mp hchild
          have hi : i = node := hencloses
          subst hi
          exact (hplaced.node_iff _).mp (mem_cpuSeen.mp hmask).1
  | numa =>
      cases index with
      | none => cases hchild
      | some k =>
          simp only [keyChildren] at hchild
          split at hchild
          next hnone =>
            obtain ⟨i, -, hmask, rfl⟩ := mem_shownKeys.mp hchild
            have hi : i = core := hencloses
            subst hi
            exact (hplaced.inNode hnone _).mp (mem_cpuSeen.mp hmask).1
          next hsome =>
            obtain ⟨i, -, hmask, rfl⟩ := mem_shownKeys.mp hchild
            have hi : i = ccl := hencloses
            subst hi
            exact ((hplaced.inCcl hsome).2.2.1 _).mp (mem_cpuSeen.mp hmask).1
  | ccl =>
      cases index with
      | none => cases hchild
      | some c =>
          obtain ⟨i, -, hmask, rfl⟩ := mem_shownKeys.mp hchild
          have hi : i = core := hencloses
          subst hi
          exact hplaced.ccl_of _ (mem_cpuSeen.mp hmask).1
  | core =>
      cases index with
      | none => cases hchild
      | some r =>
          obtain ⟨i, -, hmask, rfl⟩ := mem_shownKeys.mp hchild
          have hi : i = cpu := hencloses
          subst hi
          exact (hplaced.cpu_iff _).mp (mem_cpuSeen.mp hmask).1
  | cpu | intr | irq | pcidev | smmudev => cases hchild

theorem Placement.onlyWay :
    OnlyWayTo topo cpu package node ccl core (.sys, none)
      (wayTo topo cpu package node ccl core) := by
  have hcore := onlyWay_shown .core (some (core : ℤ)) (by decide) rfl
    (mem_shownKeys_of hplaced.cpu_lt hplaced.cpu_lt ((hplaced.cpu_iff core).mpr rfl))
    (fun _ hencloses => hencloses)
    (.leaf (decide_eq_true rfl) rfl : OnlyWayTo topo cpu package node ccl core _ _)
  have hnode : ∃ way, OnlyWayTo topo cpu package node ccl core (.numa, some (node : ℤ)) way ∧
      wayTo topo cpu package node ccl core = way ++ [(.pkg, some (package : ℤ)), (.sys, none)] := by
    by_cases hnone : topo.largestCcl = 0
    · refine ⟨_, onlyWay_shown .numa (some (node : ℤ)) (by decide) (if_pos hnone)
        (mem_shownKeys_of hplaced.core_limit hplaced.core_lt
          ((hplaced.inNode hnone node).mpr rfl)) (fun _ hencloses => hencloses) hcore, ?_⟩
      simp [wayTo, hnone]
    · obtain ⟨hlt, hlimit, hnodes, hmem⟩ := hplaced.inCcl hnone
      have hccl := onlyWay_shown .ccl (some (ccl : ℤ)) (by decide) rfl
        (mem_shownKeys_of hplaced.core_limit hplaced.core_lt hmem)
        (fun _ hencloses => hencloses) hcore
      refine ⟨_, onlyWay_shown .numa (some (node : ℤ)) (by decide) (if_neg hnone)
        (mem_shownKeys_of hlimit hlt ((hnodes node).mpr rfl)) (fun _ hencloses => hencloses)
        hccl, ?_⟩
      simp [wayTo, hnone]
  obtain ⟨way, hnode, hway⟩ := hnode
  have hpackage := onlyWay_shown .pkg (some (package : ℤ)) (by decide) rfl
    (mem_shownKeys_of hplaced.node_lt hplaced.node_lt ((hplaced.node_iff package).mpr rfl))
    (fun _ hencloses => hencloses) hnode
  have hsystem : keyChildren topo (.sys, none) =
      shownKeys .pkg topo.packages.length (Finset.range topo.packages.length) := by
    apply congrArg (List.map _)
    symm
    rw [List.filter_eq_self]
    intro i hi
    exact decide_eq_true (Finset.mem_range.mpr (List.mem_range.mp hi))
  have hroot := onlyWay_shown .sys none (by decide) hsystem
    (mem_shownKeys.mpr ⟨package, hplaced.package_lt, Finset.mem_range.mpr hplaced.package_lt, rfl⟩)
    (fun _ hencloses => hencloses) hpackage
  rw [hway]
  rwa [List.append_assoc] at hroot

/-- The tree has one way to the CPU. -/
theorem Placement.ways_eq :
    ways (keyChildren topo) (fun key => decide (key = (.cpu, some (cpu : ℤ)))) 6 (.sys, none) =
      [wayTo topo cpu package node ccl core] := by
  apply hplaced.onlyWay.ways_eq _ hplaced.parent
  · unfold wayTo
    split
    · exact Nat.le_succ 5
    · exact le_refl 6
  · intro key hkey
    rw [of_decide_eq_true hkey]
    exact rfl

end Placement

theorem of_mem_ways
    (hway : way ∈ ways (keyChildren topo) (fun key => decide (key = (.cpu, some (cpu : ℤ)))) 6
      (.sys, none)) :
    ∃ package node ccl core : ℕ, way = wayTo topo cpu package node ccl core ∧
      node ∈ maskAt WaycaPackage.numaMap topo.packages package ∧
      (topo.largestCcl ≠ 0 → ccl < topo.nCpus / topo.largestCcl ∧
        ccl ∈ (topo.node node).clusterMap) ∧
      core < topo.nCpus / topo.largestCore ∧
      cpu ∈ maskAt WaycaCore.coreCpusMap topo.cores core := by
  have hbelow : ∀ {level : TopoLevel} {index : Option ℤ} {depth : ℕ} {way : List ElementKey},
      level ≠ .cpu →
      way ∈ ways (keyChildren topo) (fun key => decide (key = (.cpu, some (cpu : ℤ)))) (depth + 1)
        (level, index) →
      ∃ child ∈ keyChildren topo (level, index),
        ∃ below ∈ ways (keyChildren topo) (fun key => decide (key = (.cpu, some (cpu : ℤ)))) depth
          child, way = below ++ [(level, index)] := by
    intro level index depth way hlevel hway
    rcases mem_ways_succ.mp hway with ⟨hown, -⟩ | hstep
    · exact absurd (congrArg Prod.fst (of_decide_eq_true hown)) hlevel
    · exact hstep
  have hleaf : ∀ {depth i : ℕ} {way : List ElementKey},
      way ∈ ways (keyChildren topo) (fun key => decide (key = (.cpu, some (cpu : ℤ)))) (depth + 1)
        (.cpu, some (i : ℤ)) → i = cpu ∧ way = [(.cpu, some (cpu : ℤ))] := by
    intro depth i way hway
    rcases mem_ways_succ.mp hway with ⟨hown, rfl⟩ | ⟨child, hchild, -⟩
    · have hkey := of_decide_eq_true hown
      rw [hkey]
      exact ⟨by simpa using hkey, rfl⟩
    · cases hchild
  have hinCore : ∀ {depth r : ℕ} {way : List ElementKey},
      way ∈ ways (keyChildren topo) (fun key => decide (key = (.cpu, some (cpu : ℤ))))
        (depth + 2) (.core, some (r : ℤ)) →
      way = [(.cpu, some (cpu : ℤ)), (.core, some (r : ℤ))] ∧
        cpu ∈ maskAt WaycaCore.coreCpusMap topo.cores r := by
    intro depth r way hway
    obtain ⟨child, hchild, below, hway, rfl⟩ := hbelow (by decide) hway
    obtain ⟨i, -, hmask, rfl⟩ := mem_shownKeys.mp hchild
    obtain ⟨rfl, rfl⟩ := hleaf hway
    exact ⟨rfl, (mem_cpuSeen.mp hmask).1⟩
  obtain ⟨child, hchild, below, hway, rfl⟩ := hbelow (by decide) hway
  obtain ⟨package, -, rfl⟩ := List.mem_map.mp hchild
  obtain ⟨child, hchild, below, hway, rfl⟩ := hbelow (by decide) hway
  obtain ⟨node, -, hnode, rfl⟩ := mem_shownKeys.mp hchild
  obtain ⟨child, hchild, below, hway, rfl⟩ := hbelow (by decide) hway
  simp only [keyChildren] at hchild
  split at hchild
  next hnone =>
    obtain ⟨core, hcore, -, rfl⟩ := mem_shownKeys.mp hchild
    obtain ⟨rfl, hcpu⟩ := hinCore hway
    refine ⟨package, node, 0, core, ?_, (mem_cpuSeen.mp hnode).1, fun hsome => absurd hnone hsome,
      hcore, hcpu⟩
    simp [wayTo, hnone]
  next hsome =>
    obtain ⟨ccl, hccl, hcclMask, rfl⟩ := mem_shownKeys.mp hchild
    obtain ⟨child, hchild, below, hway, rfl⟩ := hbelow (by decide) hway
    obtain ⟨core, hcore, -, rfl⟩ := mem_shownKeys.mp hchild
    obtain ⟨rfl, hcpu⟩ := hinCore hway
    refine ⟨package, node, ccl, core, ?_, (mem_cpuSeen.mp hnode).1,
      fun _ => ⟨hccl, (mem_cpuSeen.mp hcclMask).1⟩, hcore, hcpu⟩
    simp [wayTo, hsome]

end Ways

end WaycaScheduler
