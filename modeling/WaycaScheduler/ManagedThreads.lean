import WaycaScheduler.ListTermination
import WaycaScheduler.RejectedLists

/-!
# Maps of managed threads

The text `1,3@c1$1 2,4@n0-1$2` says on which CPUs the threads with given
numbers run.  `to_task_cpu_map` cuts it in place into entries and reads each
entry into one of a hundred maps.  A round writes some of the fields of its map
and reads none of them, so what it writes depends on the text alone.
-/

namespace WaycaScheduler

open CText Fuelled Finset

variable {char sep : Char} {rest q : List Char} {ranges : List CpuRange} {cpu : ℕ} {id : ℤ}

def MAX_MANAGED_MAPS : ℕ := 100

/-- `struct task_cpu_map` -/
structure TaskCpuMap where
  tasks : Finset ℕ
  cpus : Finset ℕ
  nodes : Finset ℕ
  cpuUtil : ℤ
deriving DecidableEq

def zeroMap : TaskCpuMap := ⟨∅, ∅, ∅, 0⟩

/-- The list behind the `@`: CPUs, nodes, or neither. -/
inductive MapTarget where
  | cpus (cpus : Finset ℕ)
  | nodes (nodes : Finset ℕ)
  | bad
deriving DecidableEq

/-- What a round writes.  Without a `$` there is no utilisation. -/
structure MapWrite where
  tasks : Finset ℕ
  cpuUtil : Option ℤ
  target : MapTarget
deriving DecidableEq

def cutAt (text : List Char) (sep : Char) : List Char :=
  text.takeWhile (· ≠ sep)

section Program

variable (perror : ℤ → ℤ) (crInTotal crInNode nrInTotal : ℕ)

/-- The CPUs of the nodes, as far as they fit into a `cpu_set_t`. -/
def nodemaskToCpumask (nodeMask : Finset ℕ) : Finset ℕ :=
  (List.range nrInTotal).foldl (fun cpuMask i =>
    if i ∈ nodeMask then
      (List.range crInNode).foldl
        (fun cpuMask j => cpuSetS (i * crInNode + j) cpuSetBytes cpuMask) cpuMask
    else cpuMask) ∅

def readTarget (fuel : ℕ) (q : List Char) : Option MapTarget :=
  match skipChar 'c' q with
  | some list => (listToMask perror crInTotal fuel list cpuSetBytes).map fun read => .cpus read.2
  | none =>
      match skipChar 'n' q with
      | some list =>
          (listToMask perror crInTotal fuel list cpuSetBytes).map fun read => .nodes read.2
      | none => some .bad

def readEntry (fuel : ℕ) (p q : List Char) : Option MapWrite :=
  (listToMask perror crInTotal fuel p cpuSetBytes).bind fun tasks =>
    (readTarget perror crInTotal fuel (cutAt q '$')).bind fun target =>
      some ⟨tasks.2, (strchr q '$').map fun r => toInt (strtoul 0 r.tail).value, target⟩

def MapWrite.apply (write : MapWrite) (map : TaskCpuMap) : TaskCpuMap where
  tasks := write.tasks
  cpus :=
    match write.target with
    | .cpus cpus => cpus
    | .nodes nodes => nodemaskToCpumask crInNode nrInTotal nodes
    | .bad => map.cpus
  nodes :=
    match write.target with
    | .nodes nodes => nodes
    | _ => map.nodes
  cpuUtil := write.cpuUtil.getD map.cpuUtil

/-- `while (p && i < MAX_MANAGED_MAPS)`, with the maps that are left. -/
def toTaskCpuMapLoop (fuel : ℕ) :
    ℕ → ℕ → List Char → (ℕ → TaskCpuMap) → Option (ℤ × (ℕ → TaskCpuMap))
  | 0, _, _, maps => some (0, maps)
  | left + 1, i, p, maps =>
      match strchr p '@' with
      | none => some (0, maps)
      | some q =>
          (readEntry perror crInTotal fuel (cutAt p '@') (cutAt q.tail ' ')).bind fun write =>
            let maps := Function.update maps i (write.apply crInNode nrInTotal (maps i))
            if write.target = .bad then some (-1, maps)
            else
              match strchr q.tail ' ' with
              | none => some (0, maps)
              | some p => toTaskCpuMapLoop fuel left (i + 1) p.tail maps

def toTaskCpuMap (fuel : ℕ) (cpuList : Option (List Char)) (maps : ℕ → TaskCpuMap) :
    Option (ℤ × (ℕ → TaskCpuMap)) :=
  match cpuList with
  | none => some (0, maps)
  | some p => toTaskCpuMapLoop perror crInTotal crInNode nrInTotal fuel MAX_MANAGED_MAPS 0 p maps

/-- The CPUs of the first map with the thread, or none for the result -1. -/
def waycaManagedThreadCpumask (maps : ℕ → TaskCpuMap) (id : ℤ) : Option (Finset ℕ) :=
  ((List.range MAX_MANAGED_MAPS).find? fun i =>
    cpuIssetS (toUlong id) cpuSetBytes (maps i).tasks).map fun i => (maps i).cpus

end Program

/-! ## What is written -/

section Written

variable {perror : ℤ → ℤ} {crInTotal crInNode nrInTotal : ℕ}
variable {p : List Char}

/-- What `readTarget` returns with enough fuel. -/
inductive TargetReads (perror : ℤ → ℤ) (crInTotal : ℕ) : List Char → MapTarget → Prop
  | cpus {list : List Char} {ret : ℤ} {cpus : Finset ℕ} :
      Returns (fun fuel => listToMask perror crInTotal fuel list cpuSetBytes) (ret, cpus) →
      TargetReads perror crInTotal ('c' :: list) (.cpus cpus)
  | nodes {list : List Char} {ret : ℤ} {nodes : Finset ℕ} :
      Returns (fun fuel => listToMask perror crInTotal fuel list cpuSetBytes) (ret, nodes) →
      TargetReads perror crInTotal ('n' :: list) (.nodes nodes)
  | bad {q : List Char} : skipChar 'c' q = none → skipChar 'n' q = none →
      TargetReads perror crInTotal q .bad

/-- The tasks before the `@` and what stands behind it up to the blank. -/
structure EntryReads (perror : ℤ → ℤ) (crInTotal : ℕ) (p q : List Char) (write : MapWrite) :
    Prop where
  tasks : ∃ ret, Returns (fun fuel => listToMask perror crInTotal fuel p cpuSetBytes)
    (ret, write.tasks)
  util : write.cpuUtil = (strchr q '$').map fun r => toInt (strtoul 0 r.tail).value
  target : TargetReads perror crInTotal (cutAt q '$') write.target

/-- The entries of a text for a number of maps, and the value that is
returned. -/
inductive MapEntries (perror : ℤ → ℤ) (crInTotal : ℕ) : ℕ → List Char → List MapWrite → ℤ → Prop
  | full (text : List Char) : MapEntries perror crInTotal 0 text [] 0
  | finished {left : ℕ} {text : List Char} : '@' ∉ text →
      MapEntries perror crInTotal (left + 1) text [] 0
  | bad {left : ℕ} {text q : List Char} {write : MapWrite} : strchr text '@' = some q →
      EntryReads perror crInTotal (cutAt text '@') (cutAt q.tail ' ') write → write.target = .bad →
      MapEntries perror crInTotal (left + 1) text [write] (-1)
  | last {left : ℕ} {text q : List Char} {write : MapWrite} : strchr text '@' = some q →
      EntryReads perror crInTotal (cutAt text '@') (cutAt q.tail ' ') write → write.target ≠ .bad →
      ' ' ∉ q.tail → MapEntries perror crInTotal (left + 1) text [write] 0
  | more {left : ℕ} {text q p : List Char} {write : MapWrite} {writes : List MapWrite} {ret : ℤ} :
      strchr text '@' = some q →
      EntryReads perror crInTotal (cutAt text '@') (cutAt q.tail ' ') write → write.target ≠ .bad →
      strchr q.tail ' ' = some p → MapEntries perror crInTotal left p.tail writes ret →
      MapEntries perror crInTotal (left + 1) text (write :: writes) ret

theorem listToMask_steady (text : List Char) :
    Steady fun fuel => listToMask perror crInTotal fuel text cpuSetBytes :=
  listToMaskLoop_steady text ∅

theorem readTarget_steady (q : List Char) :
    Steady fun fuel => readTarget perror crInTotal fuel q := by
  unfold readTarget
  split
  next list hcpus => exact steady_map (listToMask_steady list) _
  next hcpus =>
    split
    next list hnodes => exact steady_map (listToMask_steady list) _
    next hnodes => exact steady_some

theorem eq_cons_of_skipChar {text : List Char} (hskip : skipChar char text = some rest) :
    text = char :: rest := by
  cases text with
  | nil => cases hskip
  | cons next later =>
      rw [skipChar] at hskip
      split at hskip
      next hsame =>
        cases hskip
        rw [hsame]
      next => cases hskip

theorem readTarget_returns {target : MapTarget} :
    Returns (fun fuel => readTarget perror crInTotal fuel q) target ↔
      TargetReads perror crInTotal q target := by
  constructor
  · intro hreturns
    unfold readTarget at hreturns
    split at hreturns
    next list hcpus =>
      obtain ⟨⟨ret, cpus⟩, hlist, rfl⟩ := returns_map.mp hreturns
      rw [eq_cons_of_skipChar hcpus]
      exact .cpus hlist
    next hcpus =>
      split at hreturns
      next list hnodes =>
        obtain ⟨⟨ret, nodes⟩, hlist, rfl⟩ := returns_map.mp hreturns
        rw [eq_cons_of_skipChar hnodes]
        exact .nodes hlist
      next hnodes =>
        rw [returns_some.mp hreturns]
        exact .bad hcpus hnodes
  · intro hreads
    unfold readTarget
    cases hreads with
    | cpus hlist =>
        rw [skipChar_cons]
        exact returns_map.mpr ⟨_, hlist, rfl⟩
    | @nodes list ret nodes hlist =>
        have hcpus : skipChar 'c' ('n' :: list) = none := by
          rw [skipChar, if_neg (by decide)]
        rw [hcpus, skipChar_cons]
        exact returns_map.mpr ⟨_, hlist, rfl⟩
    | bad hcpus hnodes =>
        rw [hcpus, hnodes]
        exact returns_some.mpr rfl

theorem readEntry_steady (p q : List Char) :
    Steady fun fuel => readEntry perror crInTotal fuel p q :=
  steady_bind (listToMask_steady p) fun _ => steady_bind (readTarget_steady _) fun _ => steady_some

theorem readEntry_returns {write : MapWrite} :
    Returns (fun fuel => readEntry perror crInTotal fuel p q) write ↔
      EntryReads perror crInTotal p q write := by
  unfold readEntry
  rw [returns_bind (listToMask_steady p) fun _ =>
    steady_bind (readTarget_steady _) fun _ => steady_some]
  simp only [returns_bind (readTarget_steady _) fun _ => steady_some, returns_some,
    readTarget_returns]
  constructor
  · rintro ⟨⟨ret, tasks⟩, htasks, target, htarget, rfl⟩
    exact ⟨⟨ret, htasks⟩, rfl, htarget⟩
  · rintro ⟨⟨ret, htasks⟩, hutil, htarget⟩
    exact ⟨(ret, write.tasks), htasks, write.target, htarget, by rw [← hutil]⟩

theorem EntryReads.unique {write write' : MapWrite}
    (hreads : EntryReads perror crInTotal p q write)
    (hreads' : EntryReads perror crInTotal p q write') :
    write = write' :=
  (readEntry_steady p q).unique (readEntry_returns.mpr hreads) (readEntry_returns.mpr hreads')

theorem MapEntries.unique {left : ℕ} {text : List Char} {writes writes' : List MapWrite}
    {ret ret' : ℤ} (hentries : MapEntries perror crInTotal left text writes ret)
    (hentries' : MapEntries perror crInTotal left text writes' ret') : writes = writes' := by
  induction hentries generalizing writes' ret' with
  | full text =>
      cases hentries'
      rfl
  | finished hnone =>
      have hat := strchr_eq_none hnone
      cases hentries' with
      | finished _ => rfl
      | bad hat' _ _ => cases hat.symm.trans hat'
      | last hat' _ _ _ => cases hat.symm.trans hat'
      | more hat' _ _ _ _ => cases hat.symm.trans hat'
  | bad hat hreads hbad =>
      cases hentries' with
      | finished hnone => cases (strchr_eq_none hnone).symm.trans hat
      | bad hat' hreads' _ =>
          cases hat.symm.trans hat'
          rw [hreads.unique hreads']
      | last hat' hreads' hgood _ =>
          cases hat.symm.trans hat'
          exact absurd (hreads.unique hreads' ▸ hbad) hgood
      | more hat' hreads' hgood _ _ =>
          cases hat.symm.trans hat'
          exact absurd (hreads.unique hreads' ▸ hbad) hgood
  | last hat hreads hgood hblank =>
      cases hentries' with
      | finished hnone => cases (strchr_eq_none hnone).symm.trans hat
      | bad hat' hreads' hbad =>
          cases hat.symm.trans hat'
          exact absurd (hreads'.unique hreads ▸ hbad) hgood
      | last hat' hreads' _ _ =>
          cases hat.symm.trans hat'
          rw [hreads.unique hreads']
      | more hat' _ _ hp _ =>
          cases hat.symm.trans hat'
          cases (strchr_eq_none hblank).symm.trans hp
  | more hat hreads hgood hp hlater ih =>
      cases hentries' with
      | finished hnone => cases (strchr_eq_none hnone).symm.trans hat
      | bad hat' hreads' hbad =>
          cases hat.symm.trans hat'
          exact absurd (hreads'.unique hreads ▸ hbad) hgood
      | last hat' _ _ hblank =>
          cases hat.symm.trans hat'
          cases (strchr_eq_none hblank).symm.trans hp
      | more hat' hreads' _ hp' hlater' =>
          cases hat.symm.trans hat'
          cases hp.symm.trans hp'
          rw [hreads.unique hreads', ih hlater']

theorem MapEntries.length_le {left : ℕ} {text : List Char} {writes : List MapWrite} {ret : ℤ}
    (hentries : MapEntries perror crInTotal left text writes ret) : writes.length ≤ left := by
  induction hentries with
  | full text => exact le_rfl
  | finished hnone => exact Nat.zero_le _
  | bad hat hreads hbad => exact Nat.succ_le_succ (Nat.zero_le _)
  | last hat hreads hgood hblank => exact Nat.succ_le_succ (Nat.zero_le _)
  | more hat hreads hgood hblank hlater ih => exact Nat.succ_le_succ ih

/-- The maps after the entries, the first of them at `i`. -/
def applyFrom (crInNode nrInTotal : ℕ) :
    ℕ → List MapWrite → (ℕ → TaskCpuMap) → ℕ → TaskCpuMap
  | _, [], maps => maps
  | i, write :: writes, maps =>
      applyFrom crInNode nrInTotal (i + 1) writes
        (Function.update maps i (write.apply crInNode nrInTotal (maps i)))

section Apply

variable {i j : ℕ} {writes : List MapWrite} {maps : ℕ → TaskCpuMap}

theorem applyFrom_before (hj : j < i) :
    applyFrom crInNode nrInTotal i writes maps j = maps j := by
  induction writes generalizing i maps with
  | nil => rfl
  | cons write writes ih => rw [applyFrom, ih (by omega), Function.update_of_ne (by omega)]

theorem applyFrom_behind (hj : i + writes.length ≤ j) :
    applyFrom crInNode nrInTotal i writes maps j = maps j := by
  induction writes generalizing i maps with
  | nil => rfl
  | cons write writes ih =>
      rw [List.length_cons] at hj
      rw [applyFrom, ih (by omega), Function.update_of_ne (by omega)]

theorem applyFrom_entry {write : MapWrite} (hwrite : writes[j]? = some write) :
    applyFrom crInNode nrInTotal i writes maps (i + j) =
      write.apply crInNode nrInTotal (maps (i + j)) := by
  induction writes generalizing i j maps with
  | nil => cases hwrite
  | cons first writes ih =>
      cases j with
      | zero =>
          cases hwrite
          rw [applyFrom, applyFrom_before (by omega)]
          exact Function.update_self i _ maps
      | succ j =>
          have hindex : i + (j + 1) = i + 1 + j := by omega
          rw [applyFrom, hindex, ih hwrite, Function.update_of_ne (by omega)]

end Apply

variable {left i : ℕ} {text : List Char} {maps : ℕ → TaskCpuMap} {ret : ℤ}
  {writes : List MapWrite}

theorem toTaskCpuMapLoop_steady (left i : ℕ) (text : List Char) (maps : ℕ → TaskCpuMap) :
    Steady fun fuel =>
      toTaskCpuMapLoop perror crInTotal crInNode nrInTotal fuel left i text maps := by
  induction left generalizing i text maps with
  | zero => exact steady_some
  | succ left ih =>
      simp only [toTaskCpuMapLoop]
      split
      next => exact steady_some
      next q hq =>
        apply steady_bind (readEntry_steady _ _)
        intro write
        split
        next => exact steady_some
        next =>
          split
          next => exact steady_some
          next p hp => exact ih _ _ _

theorem not_mem_of_strchr_eq_none (hnone : strchr text char = none) :
    char ∉ text := by
  intro hmem
  rw [strchr, if_pos hmem] at hnone
  cases hnone

/-- The loop returns what the entries of the text write.  The induction is on
the maps that are left. -/
theorem toTaskCpuMapLoop_returns {result : ℤ × (ℕ → TaskCpuMap)} :
    Returns (fun fuel => toTaskCpuMapLoop perror crInTotal crInNode nrInTotal fuel left i text maps)
        result ↔
      ∃ writes ret, MapEntries perror crInTotal left text writes ret ∧
        result = (ret, applyFrom crInNode nrInTotal i writes maps) := by
  induction left generalizing i text maps with
  | zero =>
      simp only [toTaskCpuMapLoop, returns_some]
      constructor
      · rintro rfl
        exact ⟨[], 0, .full text, rfl⟩
      · rintro ⟨writes, ret, hentries, rfl⟩
        cases hentries
        rfl
  | succ left ih =>
      simp only [toTaskCpuMapLoop]
      split
      next hat =>
        rw [returns_some]
        constructor
        · rintro rfl
          exact ⟨[], 0, .finished (not_mem_of_strchr_eq_none hat), rfl⟩
        · rintro ⟨writes, ret, hentries, rfl⟩
          cases hentries with
          | finished _ => rfl
          | bad hat' _ _ => cases hat.symm.trans hat'
          | last hat' _ _ _ => cases hat.symm.trans hat'
          | more hat' _ _ _ _ => cases hat.symm.trans hat'
      next q hat =>
        refine (returns_bind (readEntry_steady _ _) ?_).trans ?_
        · intro write
          split
          next => exact steady_some
          next =>
            split
            next => exact steady_some
            next p hp => exact toTaskCpuMapLoop_steady _ _ _ _
        simp only [readEntry_returns]
        constructor
        · rintro ⟨write, hentry, hrest⟩
          split at hrest
          next hbad =>
            exact ⟨[write], -1, .bad hat hentry hbad, returns_some.mp hrest⟩
          next hgood =>
            split at hrest
            next hblank =>
              exact ⟨[write], 0, .last hat hentry hgood (not_mem_of_strchr_eq_none hblank),
                returns_some.mp hrest⟩
            next p hp =>
              obtain ⟨writes, ret, hlater, rfl⟩ := ih.mp hrest
              exact ⟨write :: writes, ret, .more hat hentry hgood hp hlater, rfl⟩
        · rintro ⟨writes, ret, hentries, rfl⟩
          cases hentries with
          | finished hnone => cases (strchr_eq_none hnone).symm.trans hat
          | @bad _ _ _ write hat' hentry hbad =>
              cases hat.symm.trans hat'
              refine ⟨write, hentry, ?_⟩
              simp only [if_pos hbad]
              exact returns_some.mpr rfl
          | @last _ _ _ write hat' hentry hgood hblank =>
              cases hat.symm.trans hat'
              refine ⟨write, hentry, ?_⟩
              simp only [if_neg hgood, strchr_eq_none hblank]
              exact returns_some.mpr rfl
          | @more _ _ _ p write writes ret hat' hentry hgood hp hlater =>
              cases hat.symm.trans hat'
              refine ⟨write, hentry, ?_⟩
              simp only [if_neg hgood, hp]
              exact ih.mpr ⟨writes, ret, hlater, rfl⟩

end Written

/-! ## Entries as they are written -/

structure MapEntry where
  tasks : List CpuRange
  onNodes : Bool
  list : List CpuRange
  util : ℕ

def nodeCpus (crInNode : ℕ) (nodes : Finset ℕ) : Finset ℕ :=
  nodes.biUnion fun node => Finset.Ico (node * crInNode) ((node + 1) * crInNode)

namespace MapEntry

def text (entry : MapEntry) : List Char :=
  rangesText entry.tasks ++ '@' :: (if entry.onNodes then 'n' else 'c') ::
    (rangesText entry.list ++ '$' :: Nat.toDigits 10 entry.util)

/-- The map that the entry stands for, with the numbers that a `cpu_set_t`
has. -/
def map (crInNode : ℕ) (entry : MapEntry) : TaskCpuMap where
  tasks := cpuSeen cpuSetBytes (rangesCpus entry.tasks)
  cpus := cpuSeen cpuSetBytes
    (if entry.onNodes then nodeCpus crInNode (rangesCpus entry.list) else rangesCpus entry.list)
  nodes := if entry.onNodes then cpuSeen cpuSetBytes (rangesCpus entry.list) else ∅
  cpuUtil := entry.util

/-- The lists are not empty, name threads and CPUs of the machine or its nodes,
and have strides below half of the CPUs. -/
structure Fits (n crInNode : ℕ) (entry : MapEntry) : Prop where
  tasks : entry.tasks ≠ []
  tasksFit : ∀ range ∈ entry.tasks, range.Fits n
  list : entry.list ≠ []
  listFits : ∀ range ∈ entry.list, range.Fits n
  nodes : entry.onNodes = true → ∀ range ∈ entry.list, range.last < n / crInNode
  util : entry.util < 2 ^ 31

end MapEntry

def entriesText : List MapEntry → List Char
  | [] => []
  | [entry] => entry.text
  | entry :: later => entry.text ++ ' ' :: entriesText later

section Rendered

variable {perror : ℤ → ℤ} {n crInNode : ℕ} {entry : MapEntry}
variable {maps : ℕ → TaskCpuMap} {entries : List MapEntry} {nodes : Finset ℕ} {before : List Char}
  {nrInTotal : ℕ}

theorem not_mem_rangesText (hdigit : char.isDigit = false) (hcomma : char ≠ ',')
    (hdash : char ≠ '-') (hcolon : char ≠ ':') (ranges : List CpuRange) :
    char ∉ rangesText ranges := by
  have hrange : ∀ range : CpuRange, char ∉ range.text := by
    intro range hmem
    have hchar := range.denotes.chars char hmem
    simp [hdigit, hdash, hcolon] at hchar
  induction ranges with
  | nil => exact List.not_mem_nil
  | cons range later ih =>
      obtain ⟨tail, htext, -, hlast, hnext⟩ := rangesText_cons range later
      rw [htext, List.mem_append, not_or]
      refine ⟨hrange range, ?_⟩
      by_cases hlater : later = []
      · rw [hlast hlater]
        exact List.not_mem_nil
      · rw [hnext hlater, List.mem_cons, not_or]
        exact ⟨hcomma, ih⟩

theorem filter_lt_eq_cpuSeen (setsize : ℕ) (set : Finset ℕ) :
    set.filter (· < 8 * setsize) = cpuSeen setsize set := by
  apply filter_congr
  intro cpu _
  omega

theorem listToMask_rangesText (perror : ℤ → ℤ) (hmin : 4 ≤ n) (hmax : n < 2 ^ 31)
    (hnonempty : ranges ≠ []) (hfits : ∀ range ∈ ranges, range.Fits n) :
    Returns (fun fuel => listToMask perror n fuel (rangesText ranges) cpuSetBytes)
      (0, cpuSeen cpuSetBytes (rangesCpus ranges)) := by
  rw [← filter_lt_eq_cpuSeen, ← empty_union (Finset.filter _ _)]
  exact ⟨_, listToMaskLoop_ranges hmin hmax hnonempty hfits (Nat.lt_succ_self _)⟩

theorem takeWhile_ne (hbefore : sep ∉ before) :
    (before ++ rest).takeWhile (· ≠ sep) = before ++ rest.takeWhile (· ≠ sep) := by
  apply List.takeWhile_append_of_pos
  intro char hmem
  apply decide_eq_true
  rintro rfl
  exact hbefore hmem

theorem cutAt_append (hbefore : sep ∉ before) :
    cutAt (before ++ sep :: rest) sep = before := by
  unfold cutAt
  rw [takeWhile_ne hbefore]
  simp

theorem cutAt_of_not_mem {text : List Char} (hnone : sep ∉ text) :
    cutAt text sep = text := by
  unfold cutAt
  rw [← List.append_nil text, takeWhile_ne hnone, List.takeWhile_nil]

def MapEntry.write (entry : MapEntry) : MapWrite where
  tasks := cpuSeen cpuSetBytes (rangesCpus entry.tasks)
  cpuUtil := some entry.util
  target :=
    if entry.onNodes then .nodes (cpuSeen cpuSetBytes (rangesCpus entry.list))
    else .cpus (cpuSeen cpuSetBytes (rangesCpus entry.list))

def MapEntry.behindAt (entry : MapEntry) : List Char :=
  (if entry.onNodes then 'n' else 'c') ::
    (rangesText entry.list ++ '$' :: Nat.toDigits 10 entry.util)

theorem MapEntry.blank_not_mem (entry : MapEntry) : ' ' ∉ entry.behindAt := by
  have hlist : ' ' ∉ rangesText entry.list :=
    not_mem_rangesText rfl (by decide) (by decide) (by decide) _
  have hutil : ' ' ∉ Nat.toDigits 10 entry.util := not_mem_toDigits _ rfl
  unfold behindAt
  split <;> simp [hlist, hutil]

theorem entryReads_write (perror : ℤ → ℤ) (hmin : 4 ≤ n) (hmax : n < 2 ^ 31)
    (hfits : entry.Fits n crInNode) :
    EntryReads perror n (rangesText entry.tasks) entry.behindAt entry.write := by
  have hlist : '$' ∉ rangesText entry.list :=
    not_mem_rangesText rfl (by decide) (by decide) (by decide) _
  have htarget : '$' ∉ (if entry.onNodes then 'n' else 'c') :: rangesText entry.list := by
    rw [List.mem_cons, not_or]
    refine ⟨?_, hlist⟩
    split <;> decide
  have htext : entry.behindAt = ((if entry.onNodes then 'n' else 'c') :: rangesText entry.list) ++
      '$' :: Nat.toDigits 10 entry.util := rfl
  have hempty : NoDigit [] := trivial
  have hnumber := (isNumber_toDigits entry.util).strtoul hempty 0
    (lt_trans hfits.util (by decide) : entry.util < ulongSize)
  rw [List.append_nil] at hnumber
  refine ⟨⟨0, listToMask_rangesText _ hmin hmax hfits.tasks hfits.tasksFit⟩, ?_, ?_⟩
  · rw [htext, strchr_append htarget, Option.map_some, List.tail_cons, hnumber,
      toInt_natCast hfits.util]
    rfl
  · have hmask := listToMask_rangesText perror hmin hmax hfits.list hfits.listFits
    rw [htext, cutAt_append htarget, MapEntry.write]
    cases entry.onNodes with
    | false => exact .cpus hmask
    | true => exact .nodes hmask

/-- The entries of a text are read one after another, as long as there are
maps.  The induction is on the entries. -/
theorem mapEntries_text (perror : ℤ → ℤ) (hmin : 4 ≤ n) (hmax : n < 2 ^ 31)
    (hfits : ∀ entry ∈ entries, entry.Fits n crInNode) (left : ℕ) :
    MapEntries perror n left (entriesText entries) ((entries.take left).map MapEntry.write) 0 := by
  induction entries generalizing left with
  | nil =>
      rw [List.take_nil, List.map_nil]
      cases left with
      | zero => exact .full _
      | succ left => exact .finished List.not_mem_nil
  | cons entry later ih =>
      cases left with
      | zero => exact .full _
      | succ left =>
          have hentry := hfits entry List.mem_cons_self
          have hat : '@' ∉ rangesText entry.tasks :=
            not_mem_rangesText rfl (by decide) (by decide) (by decide) _
          have hgood : entry.write.target ≠ .bad := by
            unfold MapEntry.write
            cases entry.onNodes with
            | false => exact MapTarget.noConfusion
            | true => exact MapTarget.noConfusion
          have hreads := entryReads_write perror hmin hmax hentry
          rw [List.take_succ_cons, List.map_cons]
          cases later with
          | nil =>
              have htext : entriesText [entry] =
                  rangesText entry.tasks ++ '@' :: entry.behindAt := rfl
              rw [htext, List.take_nil, List.map_nil]
              refine .last (strchr_append hat) ?_ hgood entry.blank_not_mem
              rw [cutAt_append hat, List.tail_cons, cutAt_of_not_mem entry.blank_not_mem]
              exact hreads
          | cons next rest =>
              have htext : entriesText (entry :: next :: rest) = rangesText entry.tasks ++
                  '@' :: (entry.behindAt ++ ' ' :: entriesText (next :: rest)) := by
                simp only [entriesText, MapEntry.text, MapEntry.behindAt, List.append_assoc,
                  List.cons_append]
              rw [htext]
              refine .more (strchr_append hat) ?_ hgood (strchr_append entry.blank_not_mem) ?_
              · rw [cutAt_append hat, List.tail_cons, cutAt_append entry.blank_not_mem]
                exact hreads
              · exact ih (fun other hother => hfits other (List.mem_cons_of_mem _ hother)) left

theorem mem_setCpus {first count : ℕ} {mask : Finset ℕ} :
    cpu ∈ (List.range count).foldl (fun mask j => cpuSetS (first + j) cpuSetBytes mask) mask ↔
      cpu ∈ mask ∨ (cpu < 8 * cpuSetBytes ∧ first ≤ cpu ∧ cpu < first + count) := by
  induction count with
  | zero =>
      constructor
      · exact .inl
      · rintro (hmem | hcpu)
        · exact hmem
        · omega
  | succ count ih =>
      rw [List.range_succ, List.foldl_append, List.foldl_cons, List.foldl_nil,
        cpuSetS_eq_union, mem_union, ih, mem_filter, mem_singleton]
      constructor
      · rintro ((hmem | hcpu) | ⟨rfl, hfits⟩)
        · exact .inl hmem
        · exact .inr (by omega)
        · exact .inr (by omega)
      · rintro (hmem | hcpu)
        · exact .inl (.inl hmem)
        · rcases Nat.lt_or_ge cpu (first + count) with hlt | hge
          · exact .inl (.inr ⟨hcpu.1, hcpu.2.1, hlt⟩)
          · exact .inr (by omega)

theorem mem_nodemaskToCpumask :
    cpu ∈ nodemaskToCpumask crInNode nrInTotal nodes ↔
      ∃ node ∈ nodes, node < nrInTotal ∧ cpu < 8 * cpuSetBytes ∧ node * crInNode ≤ cpu ∧
        cpu < (node + 1) * crInNode := by
  induction nrInTotal with
  | zero => simp [nodemaskToCpumask]
  | succ count ih =>
      unfold nodemaskToCpumask at ih ⊢
      rw [List.range_succ, List.foldl_append, List.foldl_cons, List.foldl_nil]
      split
      next hin =>
        rw [mem_setCpus, ih, ← Nat.succ_mul]
        constructor
        · rintro (⟨node, hnode, hlt, hcpu⟩ | hcpu)
          · exact ⟨node, hnode, Nat.lt_succ_of_lt hlt, hcpu⟩
          · exact ⟨count, hin, Nat.lt_succ_self count, hcpu⟩
        · rintro ⟨node, hnode, hlt, hcpu⟩
          rcases Nat.lt_succ_iff_lt_or_eq.mp hlt with hlt | rfl
          · exact .inl ⟨node, hnode, hlt, hcpu⟩
          · exact .inr hcpu
      next hout =>
        rw [ih]
        constructor
        · rintro ⟨node, hnode, hlt, hcpu⟩
          exact ⟨node, hnode, Nat.lt_succ_of_lt hlt, hcpu⟩
        · rintro ⟨node, hnode, hlt, hcpu⟩
          rcases Nat.lt_succ_iff_lt_or_eq.mp hlt with hlt | rfl
          · exact ⟨node, hnode, hlt, hcpu⟩
          · exact absurd hnode hout

theorem nodemaskToCpumask_eq (hnodes : ∀ node ∈ nodes, node < nrInTotal) :
    nodemaskToCpumask crInNode nrInTotal (cpuSeen cpuSetBytes nodes) =
      cpuSeen cpuSetBytes (nodeCpus crInNode nodes) := by
  ext cpu
  rw [mem_nodemaskToCpumask, ← filter_lt_eq_cpuSeen, ← filter_lt_eq_cpuSeen, nodeCpus]
  simp only [mem_filter, mem_biUnion, mem_Ico]
  constructor
  · rintro ⟨node, ⟨hnode, -⟩, -, hfits, hcpu⟩
    exact ⟨⟨node, hnode, hcpu⟩, hfits⟩
  · rintro ⟨⟨node, hnode, hcpu⟩, hfits⟩
    refine ⟨node, ⟨hnode, ?_⟩, hnodes node hnode, hfits, hcpu⟩
    have hpos : 0 < crInNode := by
      rcases Nat.eq_zero_or_pos crInNode with rfl | hpos
      · omega
      · exact hpos
    have hle : node ≤ node * crInNode := Nat.le_mul_of_pos_right node hpos
    omega

theorem apply_write (hfits : entry.Fits n crInNode) :
    entry.write.apply crInNode (n / crInNode) zeroMap = entry.map crInNode := by
  have hnodes := hfits.nodes
  unfold MapWrite.apply MapEntry.write MapEntry.map
  cases honNodes : entry.onNodes with
  | false => rfl
  | true =>
      have hmask : nodemaskToCpumask crInNode (n / crInNode)
          (cpuSeen cpuSetBytes (rangesCpus entry.list)) = _ :=
        nodemaskToCpumask_eq fun node hnode => rangesCpus_lt (hnodes honNodes) hnode
      simp only [if_pos, hmask]
      rfl

/-! ## The maps of a text -/

def MapEntry.Has (crInNode : ℕ) (entry : MapEntry) (id : ℤ) : Prop :=
  ∃ task ∈ (entry.map crInNode).tasks, (task : ℤ) = id

/-- The maps are those of the entries, and a lookup finds the first one. -/
structure HoldsEntries (crInNode : ℕ) (entries : List MapEntry) (maps maps' : ℕ → TaskCpuMap) :
    Prop where
  stored : ∀ i entry, i < MAX_MANAGED_MAPS → entries[i]? = some entry →
    maps' i = entry.map crInNode
  zero : ∀ i, entries.length ≤ i → i < MAX_MANAGED_MAPS → maps' i = zeroMap
  untouched : ∀ i, MAX_MANAGED_MAPS ≤ i → maps' i = maps i
  found : ∀ id i entry, -2 ^ 31 ≤ id → id < 2 ^ 31 → i < MAX_MANAGED_MAPS →
    entries[i]? = some entry → entry.Has crInNode id →
    (∀ j earlier, j < i → entries[j]? = some earlier → ¬ earlier.Has crInNode id) →
    waycaManagedThreadCpumask maps' id = some (entry.map crInNode).cpus
  missing : ∀ id, -2 ^ 31 ≤ id → id < 2 ^ 31 →
    (∀ i entry, i < MAX_MANAGED_MAPS → entries[i]? = some entry → ¬ entry.Has crInNode id) →
    waycaManagedThreadCpumask maps' id = none

theorem task_isset_iff (hlow : -2 ^ 31 ≤ id) (hhigh : id < 2 ^ 31) :
    cpuIssetS (toUlong id) cpuSetBytes (entry.map crInNode).tasks = true ↔
      entry.Has crInNode id := by
  have hbits : 8 * cpuSetBytes = 1024 := rfl
  have hulong : ulongSize = 2 ^ 64 := rfl
  rw [cpuIssetS, Bool.and_eq_true, decide_eq_true_eq, decide_eq_true_eq]
  constructor
  · rintro ⟨hfits, hmem⟩
    refine ⟨toUlong id, hmem, ?_⟩
    unfold toUlong at hfits ⊢
    rw [hulong] at hfits ⊢
    omega
  · rintro ⟨task, hmem, rfl⟩
    have hfits : task / 8 < cpuSetBytes := (mem_filter.mp hmem).2
    rw [toUlong_natCast (by omega)]
    exact ⟨hfits, hmem⟩

theorem managedThread_found {i : ℕ} (hi : i < MAX_MANAGED_MAPS)
    (hset : cpuIssetS (toUlong id) cpuSetBytes (maps i).tasks = true)
    (hearlier : ∀ j < i, ¬ cpuIssetS (toUlong id) cpuSetBytes (maps j).tasks = true) :
    waycaManagedThreadCpumask maps id = some (maps i).cpus := by
  have hfound : (List.range MAX_MANAGED_MAPS).find? (fun i =>
      cpuIssetS (toUlong id) cpuSetBytes (maps i).tasks) = some i := by
    rw [List.find?_range_eq_some]
    refine ⟨hset, List.mem_range.mpr hi, ?_⟩
    intro j hj
    rw [Bool.eq_false_of_not_eq_true (hearlier j hj)]
    rfl
  rw [waycaManagedThreadCpumask, hfound, Option.map_some]

theorem managedThread_missing (hnone : ∀ i < MAX_MANAGED_MAPS,
      ¬ cpuIssetS (toUlong id) cpuSetBytes (maps i).tasks = true) :
    waycaManagedThreadCpumask maps id = none := by
  have hfound : (List.range MAX_MANAGED_MAPS).find? (fun i =>
      cpuIssetS (toUlong id) cpuSetBytes (maps i).tasks) = none := by
    rw [List.find?_eq_none]
    intro i hi
    exact hnone i (List.mem_range.mp hi)
  rw [waycaManagedThreadCpumask, hfound, Option.map_none]

theorem holdsEntries_of_stored {maps maps' : ℕ → TaskCpuMap}
    (hstored : ∀ i entry, i < MAX_MANAGED_MAPS → entries[i]? = some entry →
      maps' i = entry.map crInNode)
    (hzero : ∀ i, entries.length ≤ i → i < MAX_MANAGED_MAPS → maps' i = zeroMap)
    (huntouched : ∀ i, MAX_MANAGED_MAPS ≤ i → maps' i = maps i) :
    HoldsEntries crInNode entries maps maps' := by
  refine ⟨hstored, hzero, huntouched, ?_, ?_⟩
  · intro id i entry hlow hhigh hi hentry hhas hearlier
    rw [← hstored i entry hi hentry]
    apply managedThread_found hi
    · rw [hstored i entry hi hentry]
      exact (task_isset_iff hlow hhigh).mpr hhas
    · intro j hj
      have hin : j < entries.length := hj.trans (List.getElem?_eq_some_iff.mp hentry).1
      have hother := List.getElem?_eq_getElem hin
      rw [hstored j _ (hj.trans hi) hother, task_isset_iff hlow hhigh]
      exact hearlier j _ hj hother
  · intro id hlow hhigh hmissing
    apply managedThread_missing
    intro i hi
    cases hentry : entries[i]? with
    | none =>
        rw [hzero i (List.getElem?_eq_none_iff.mp hentry) hi]
        simp [zeroMap, cpuIssetS]
    | some entry =>
        rw [hstored i entry hi hentry, task_isset_iff hlow hhigh]
        exact hmissing i entry hi hentry

/-- The entries of a text are read back from it. -/
theorem managed_maps_parse_back (perror : ℤ → ℤ) (hmin : 4 ≤ n) (hmax : n < 2 ^ 31)
    {entries : List MapEntry} (hfits : ∀ entry ∈ entries, entry.Fits n crInNode)
    {maps : ℕ → TaskCpuMap} (hzero : ∀ i < MAX_MANAGED_MAPS, maps i = zeroMap) :
    ∃ maps', Returns (fun fuel => toTaskCpuMap perror n crInNode (n / crInNode) fuel
        (some (entriesText entries)) maps) (0, maps') ∧
      HoldsEntries crInNode entries maps maps' := by
  have hentries := mapEntries_text perror hmin hmax hfits MAX_MANAGED_MAPS
  generalize hwrites : (entries.take MAX_MANAGED_MAPS).map MapEntry.write = writes at hentries
  have hlength : writes.length ≤ entries.length ∧ writes.length ≤ MAX_MANAGED_MAPS := by
    rw [← hwrites, List.length_map, List.length_take]
    omega
  refine ⟨applyFrom crInNode (n / crInNode) 0 writes maps,
    toTaskCpuMapLoop_returns.mpr ⟨writes, 0, hentries, rfl⟩, ?_⟩
  apply holdsEntries_of_stored
  · intro i entry hi hentry
    have hwrite : writes[i]? = some entry.write := by
      rw [← hwrites, List.getElem?_map, List.getElem?_take_of_lt hi, hentry, Option.map_some]
    have happly : applyFrom crInNode (n / crInNode) 0 writes maps (0 + i) = _ :=
      applyFrom_entry hwrite
    rw [Nat.zero_add] at happly
    rw [happly, hzero i hi, apply_write (hfits entry (List.mem_of_getElem? hentry))]
  · intro i hi hlt
    rw [applyFrom_behind (by omega), hzero i hlt]
  · intro i hi
    exact applyFrom_behind (by omega)

/-- `0-1@c4-7:2$3 5@n0$7` on a machine with two nodes of four CPUs. -/
def cpusThenNode : List MapEntry :=
  [⟨[.span 0 1], false, [.strided 4 7 2], 3⟩, ⟨[.single 5], true, [.single 0], 7⟩]

theorem managed_maps_parse_back_two_entries :
    (∀ entry ∈ cpusThenNode, entry.Fits 8 4) ∧
      ∃ maps', Returns (fun fuel => toTaskCpuMap errnoKept 8 4 2 fuel
          (some (entriesText cpusThenNode)) fun _ => zeroMap) (0, maps') ∧
        HoldsEntries 4 cpusThenNode (fun _ => zeroMap) maps' := by
  have hfits : ∀ entry ∈ cpusThenNode, entry.Fits 8 4 := by
    intro entry hentry
    rcases List.mem_pair.mp hentry with rfl | rfl
    · exact ⟨by simp, by simp [CpuRange.Fits], by simp, by simp [CpuRange.Fits], by simp,
        by norm_num⟩
    · exact ⟨by simp, by simp [CpuRange.Fits], by simp, by simp [CpuRange.Fits],
        by simp [CpuRange.last], by norm_num⟩
  exact ⟨hfits, managed_maps_parse_back errnoKept (by norm_num) (by norm_num) hfits fun _ _ => rfl⟩

/-- `0@c0-3:2$1` on four CPUs: a stride of half of the CPUs is refused. -/
def wideStride : MapEntry := ⟨[.single 0], false, [.strided 0 3 2], 1⟩

/-- `1500@c0$1` on 2048 CPUs: the task is beyond a `cpu_set_t`. -/
def highTask : MapEntry := ⟨[.single 1500], false, [.single 0], 1⟩

/-- `@c$1` on four CPUs: lists without numbers are read as 0. -/
def noTasks : MapEntry := ⟨[], false, [], 1⟩

theorem managed_maps_do_not_parse_back :
    rangesCpus wideStride.list = {0, 2} ∧
      (toTaskCpuMap errnoKept 4 2 2 10 (some wideStride.text) fun _ => zeroMap).map (fun read =>
        (read.1, (read.2 0).cpus)) = some (0, ∅) ∧
      rangesCpus highTask.tasks = {1500} ∧
      (toTaskCpuMap errnoKept 2048 4 512 10 (some highTask.text) fun _ => zeroMap).map (fun read =>
        (read.1, (read.2 0).tasks)) = some (0, ∅) ∧
      rangesCpus noTasks.tasks = ∅ ∧
      (toTaskCpuMap errnoKept 4 2 2 10 (some noTasks.text) fun _ => zeroMap).map (fun read =>
        (read.1, (read.2 0).tasks)) = some (0, {0}) := by
  decide +kernel

end Rendered

end WaycaScheduler
