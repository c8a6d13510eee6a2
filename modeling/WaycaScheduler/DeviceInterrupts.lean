import WaycaScheduler.Topology
import WaycaScheduler.Library.CText

/-!
# The interrupts of a device

A device shows its interrupts in the directory `msi_irqs`, with one file for
each number, and in the file `irq`.  `topo_parse_device_irqs` takes the numbers
of the directory and adds the number of the file unless it has it already.  The
element that it adds is left as it was allocated.
-/

namespace WaycaScheduler

open CText

/-! ## What a directory shows -/

inductive FileType where
  | regular
  | directory
  | other
deriving DecidableEq

/-- An entry as `readdir` returns it, and what `lstat` says of it if it does not
fail. -/
structure DirEntry where
  dName : List Char
  dType : FileType
  lstat : Option FileType
deriving DecidableEq

/-- The entries of the directory of a device and of its `msi_irqs`, or the error
of `opendir`, and the number in `irq`, if it can be read. -/
structure InterruptDirectory where
  entries : Except ℤ (List DirEntry)
  msiIrqs : Except ℤ (List DirEntry)
  irq : Option ℤ

def msiIrqsName : List Char := ['m', 's', 'i', '_', 'i', 'r', 'q', 's']

def irqName : List Char := ['i', 'r', 'q']

/-- The array has as many elements as `n_irqs` counts. -/
structure WaycaDeviceIrqs where
  irqNumbers : List ℕ
deriving DecidableEq

def WaycaDeviceIrqs.nIrqs (wirqs : WaycaDeviceIrqs) : ℕ := wirqs.irqNumbers.length

/-- A number as an `uint32_t`. -/
def toUint32 (x : ℤ) : ℕ := (x % 2 ^ 32).toNat

/-! ## Reading the interrupts -/

def isRegular (entry : DirEntry) : Bool := entry.dType = .regular

/-- The second walk over the directory, with the files that are left, the next
place in the array and the array. -/
def fillMsiIrqs : List DirEntry → ℕ → ℕ → List ℕ → List ℕ × ℤ
  | [], _, _, irqNumbers => (irqNumbers, 0)
  | entry :: rest, msiIrqsCount, i, irqNumbers =>
      if msiIrqsCount = 0 then (irqNumbers, 0)
      else if isRegular entry then
        let (value, endstr) := strtol entry.dName
        let errno := strtolErrno entry.dName
        let irqNumbers := irqNumbers.set i (toUint32 value)
        if endstr = entry.dName ∨ errno ≠ 0 then
          (irqNumbers, if errno ≠ 0 then -errno else -EINVAL)
        else fillMsiIrqs rest (msiIrqsCount - 1) (i + 1) irqNumbers
      else fillMsiIrqs rest msiIrqsCount i irqNumbers

/-- One pass counts the regular files, a second one reads their names. -/
def topoParseMsiIrq (dir : InterruptDirectory) (wirqs : WaycaDeviceIrqs) : WaycaDeviceIrqs × ℤ :=
  match dir.msiIrqs with
  | .error errno => (wirqs, -errno)
  | .ok entries =>
      let msiIrqsCount := entries.countP isRegular
      let (irqNumbers, ret) :=
        fillMsiIrqs entries msiIrqsCount 0 (List.replicate msiIrqsCount 0)
      (⟨irqNumbers⟩, ret)

/-- The array is grown by an element that nothing is stored in. -/
def topoParseIrq (dir : InterruptDirectory) (wirqs : WaycaDeviceIrqs) : WaycaDeviceIrqs × ℤ :=
  let irq := dir.irq.getD (-1)
  let irqNumber := if irq < 0 then 0 else toUint32 irq
  let j := wirqs.irqNumbers.findIdx (· = irqNumber)
  if j = wirqs.nIrqs then (⟨wirqs.irqNumbers ++ [0]⟩, 0) else (wirqs, 0)

/-- The search for the two sources, with what has been found and the result of
the last `lstat`. -/
def findIrqSources : List DirEntry → Bool → Bool → ℤ → Bool × Bool × ℤ
  | [], msiIrqsExist, irqFileExist, ret => (msiIrqsExist, irqFileExist, ret)
  | entry :: rest, msiIrqsExist, irqFileExist, ret =>
      if msiIrqsExist && irqFileExist then (msiIrqsExist, irqFileExist, ret)
      else
        match entry.lstat with
        | none => findIrqSources rest msiIrqsExist irqFileExist (-1)
        | some type =>
            if !msiIrqsExist && type = .directory then
              findIrqSources rest (entry.dName = msiIrqsName) irqFileExist 0
            else if !irqFileExist && entry.dName = irqName then
              findIrqSources rest msiIrqsExist true 0
            else findIrqSources rest msiIrqsExist irqFileExist 0

/-- `msi_irqs` goes before `irq` where both exist. -/
def topoParseDeviceIrqs (dir : InterruptDirectory) (wirqs : WaycaDeviceIrqs) :
    WaycaDeviceIrqs × ℤ :=
  let wirqs := { wirqs with irqNumbers := [] }
  match dir.entries with
  | .error errno => (wirqs, -errno)
  | .ok entries =>
      let (msiIrqsExist, irqFileExist, ret) := findIrqSources entries false false 0
      let (wirqs, ret) := if msiIrqsExist then topoParseMsiIrq dir wirqs else (wirqs, ret)
      if msiIrqsExist ∧ ret ≠ 0 then (wirqs, ret)
      else if irqFileExist then topoParseIrq dir wirqs
      else (wirqs, ret)

/-! ## What the directory shows -/

def regularNames (entries : List DirEntry) : List (List Char) :=
  (entries.filter isRegular).map (·.dName)

/-- `lstat` finds an entry of this name. -/
def Shown (entries : List DirEntry) (name : List Char) : Prop :=
  ∃ entry ∈ entries, entry.dName = name ∧ entry.lstat.isSome

instance (entries : List DirEntry) (name : List Char) : Decidable (Shown entries name) := by
  unfold Shown
  infer_instance

/-- What `ret` is after the last entry. -/
def lastLstat (entries : List DirEntry) (ret : ℤ) : ℤ :=
  entries.getLast?.elim ret fun entry => if entry.lstat.isSome then 0 else -1

/-- The directory shows distinct numbers in `msi_irqs`, none without the
directory, and the number in `irq` if there is such a file.  `lstat` may fail
on any entry. -/
structure ShowsIrqs (dir : InterruptDirectory) (entries : List DirEntry) (numbers : List ℕ)
    (irq : Option ℕ) : Prop where
  opened : dir.entries = .ok entries
  directory : ∀ entry ∈ entries, entry.dName = msiIrqsName →
    ∀ type ∈ entry.lstat, type = .directory
  file : ∀ entry ∈ entries, entry.dName = irqName → ∀ type ∈ entry.lstat, type = .regular
  absent : msiIrqsName ∉ entries.map (·.dName) → numbers = []
  names : msiIrqsName ∈ entries.map (·.dName) → ∃ files, dir.msiIrqs = .ok files ∧
    regularNames files = numbers.map (Nat.toDigits 10)
  nodup : numbers.Nodup
  lt : ∀ number ∈ numbers, number < 2 ^ 32
  exists_iff : irqName ∈ entries.map (·.dName) ↔ irq.isSome
  irq : ∀ number ∈ irq, dir.irq = some (number : ℤ) ∧ number < 2 ^ 31

variable {dir : InterruptDirectory} {entries : List DirEntry} {numbers : List ℕ} {irq : Option ℕ}

theorem shown_cons {entry : DirEntry} {name : List Char} :
    Shown (entry :: entries) name ↔
      (entry.dName = name ∧ entry.lstat.isSome) ∨ Shown entries name := by
  simp [Shown]

theorem Shown.named {name : List Char} (hshown : Shown entries name) :
    name ∈ entries.map (·.dName) := by
  obtain ⟨entry, hmem, rfl, -⟩ := hshown
  exact List.mem_map_of_mem hmem

theorem lastLstat_cons (entry : DirEntry) (ret : ℤ) :
    lastLstat (entry :: entries) ret =
      lastLstat entries (if entry.lstat.isSome then 0 else -1) := by
  unfold lastLstat
  rw [List.getLast?_cons]
  cases entries.getLast? with
  | none => rfl
  | some last => rfl

theorem toUint32_natCast {number : ℕ} (hnumber : number < 2 ^ 32) :
    toUint32 (number : ℤ) = number := by
  unfold toUint32
  omega

theorem findIrqSources_eq
    (hdirectory : ∀ entry ∈ entries, entry.dName = msiIrqsName →
      ∀ type ∈ entry.lstat, type = .directory)
    (hfile : ∀ entry ∈ entries, entry.dName = irqName → ∀ type ∈ entry.lstat, type = .regular)
    (msiIrqsExist irqFileExist : Bool) (ret : ℤ) :
    (findIrqSources entries msiIrqsExist irqFileExist ret).1 =
        (msiIrqsExist || decide (Shown entries msiIrqsName)) ∧
      (findIrqSources entries msiIrqsExist irqFileExist ret).2.1 =
        (irqFileExist || decide (Shown entries irqName)) ∧
      ((findIrqSources entries msiIrqsExist irqFileExist ret).1 = false →
        (findIrqSources entries msiIrqsExist irqFileExist ret).2.2 = lastLstat entries ret) := by
  induction entries generalizing msiIrqsExist irqFileExist ret with
  | nil => simp [findIrqSources, Shown, lastLstat]
  | cons entry rest ih =>
      have hrest := ih (fun other hother => hdirectory other (List.mem_cons_of_mem _ hother))
        (fun other hother => hfile other (List.mem_cons_of_mem _ hother))
      have hdirectory := hdirectory entry List.mem_cons_self
      have hfile := hfile entry List.mem_cons_self
      have hne : irqName ≠ msiIrqsName := by decide
      simp only [shown_cons, lastLstat_cons]
      unfold findIrqSources
      split
      next hboth =>
        rw [Bool.and_eq_true] at hboth
        simp [hboth.1, hboth.2]
      next =>
        cases hstat : entry.lstat with
        | none => simpa using hrest msiIrqsExist irqFileExist (-1)
        | some type =>
            by_cases hmsi : entry.dName = msiIrqsName
            · have htype := hdirectory hmsi type hstat
              cases msiIrqsExist <;>
                simpa [hmsi, hne.symm, htype] using hrest true irqFileExist 0
            by_cases hirq : entry.dName = irqName
            · have htype := hfile hirq type hstat
              cases irqFileExist <;> simpa [hirq, hne, htype] using hrest msiIrqsExist true 0
            cases msiIrqsExist with
            | true => simpa [hmsi, hirq] using hrest true irqFileExist 0
            | false => simpa [hmsi, hirq, ite_self] using hrest false irqFileExist 0

theorem fillMsiIrqs_eq (hlt : ∀ number ∈ numbers, number < 2 ^ 32)
    (hnames : regularNames entries = numbers.map (Nat.toDigits 10)) (filled : List ℕ) :
    fillMsiIrqs entries numbers.length filled.length
        (filled ++ List.replicate numbers.length 0) = (filled ++ numbers, 0) := by
  induction entries generalizing numbers filled with
  | nil =>
      have hnone : numbers = [] := List.map_eq_nil_iff.mp hnames.symm
      subst hnone
      rfl
  | cons entry rest ih =>
      cases hregular : isRegular entry with
      | false =>
          have hrest : regularNames rest = numbers.map (Nat.toDigits 10) := by
            rw [← hnames, regularNames, regularNames, List.filter_cons, hregular]
            rfl
          cases numbers with
          | nil => rfl
          | cons number later =>
              have hleft : (number :: later).length ≠ 0 := Nat.succ_ne_zero _
              unfold fillMsiIrqs
              rw [if_neg hleft, hregular]
              exact ih hlt hrest filled
      | true =>
          have hfirst : regularNames (entry :: rest) = entry.dName :: regularNames rest := by
            rw [regularNames, List.filter_cons, hregular]
            rfl
          cases numbers with
          | nil =>
              rw [hfirst] at hnames
              cases hnames
          | cons number later =>
              rw [hfirst, List.map_cons, List.cons.injEq] at hnames
              obtain ⟨hname, hrest⟩ := hnames
              have hnumber := hlt number List.mem_cons_self
              have hend : NoDigit [] := trivial
              obtain ⟨hvalue, herrno⟩ := (isNumber_toDigits number).strtol hend (by omega)
              rw [List.append_nil, ← hname] at hvalue herrno
              have hread : ([] : List Char) ≠ entry.dName := by
                rw [hname]
                exact Nat.toDigits_ne_nil.symm
              have hset : (filled ++ List.replicate (later.length + 1) 0).set filled.length number =
                  (filled ++ [number]) ++ List.replicate later.length 0 := by
                rw [List.set_append_right _ _ le_rfl, Nat.sub_self, List.replicate_succ,
                  List.set_cons_zero, List.append_assoc, List.singleton_append]
              have hleft : (number :: later).length ≠ 0 := Nat.succ_ne_zero _
              unfold fillMsiIrqs
              rw [if_neg hleft, hregular]
              simp only [hvalue, herrno, toUint32_natCast hnumber, hread, ne_eq, not_true, or_self,
                if_false, if_true, List.length_cons, Nat.add_sub_cancel, hset]
              have hbelow := fun other hother => hlt other (List.mem_cons_of_mem number hother)
              have hlater := ih hbelow hrest (filled ++ [number])
              rw [List.length_append, List.length_singleton] at hlater
              rw [hlater, List.append_assoc, List.singleton_append]

theorem topoParseMsiIrq_eq {files : List DirEntry} (hopened : dir.msiIrqs = .ok files)
    (hlt : ∀ number ∈ numbers, number < 2 ^ 32)
    (hnames : regularNames files = numbers.map (Nat.toDigits 10)) (wirqs : WaycaDeviceIrqs) :
    topoParseMsiIrq dir wirqs = (⟨numbers⟩, 0) := by
  have hcount : files.countP isRegular = numbers.length := by
    have hlength := congrArg List.length hnames
    rwa [regularNames, List.length_map, List.length_map, ← List.countP_eq_length_filter] at hlength
  have hfill := fillMsiIrqs_eq hlt hnames []
  rw [List.nil_append, List.nil_append, List.length_nil] at hfill
  unfold topoParseMsiIrq
  simp only [hopened, hcount, hfill]

theorem topoParseIrq_eq {number : ℕ} (hirq : dir.irq = some (number : ℤ)) (hlt : number < 2 ^ 31)
    (wirqs : WaycaDeviceIrqs) :
    topoParseIrq dir wirqs =
      (if number ∈ wirqs.irqNumbers then wirqs else ⟨wirqs.irqNumbers ++ [0]⟩, 0) := by
  have hnumber : toUint32 (number : ℤ) = number := toUint32_natCast (by omega)
  have hfound : (wirqs.irqNumbers.findIdx fun other => decide (other = number)) <
      wirqs.nIrqs ↔ number ∈ wirqs.irqNumbers := by
    rw [WaycaDeviceIrqs.nIrqs, List.findIdx_lt_length]
    simp
  unfold topoParseIrq
  simp only [hirq, Option.getD_some, hnumber, if_neg (Int.natCast_nonneg number).not_gt]
  split
  next hnone =>
    rw [if_neg]
    intro hmem
    exact absurd hnone (hfound.mpr hmem).ne
  next hsome =>
    rw [if_pos]
    exact hfound.mp (lt_of_le_of_ne List.findIdx_le_length hsome)

/-! ## The interrupts of a device -/

/-- The numbers of the directory, with one more element when the number of the
file is not among them. -/
def listedIrqs (numbers : List ℕ) (irq : Option ℕ) : List ℕ :=
  if ∀ number ∈ irq, number ∈ numbers then numbers else numbers ++ [0]

theorem mem_listedIrqs {number : ℕ} :
    number ∈ listedIrqs numbers irq ↔
      number ∈ numbers ∨ (number = 0 ∧ ∃ value ∈ irq, value ∉ numbers) := by
  unfold listedIrqs
  split
  next hin =>
    rw [or_iff_left]
    rintro ⟨-, value, hvalue, hout⟩
    exact hout (hin value hvalue)
  next hnew =>
    push Not at hnew
    rw [List.mem_append, List.mem_singleton, and_iff_left hnew]

theorem nodup_listedIrqs (hnodup : numbers.Nodup) :
    (listedIrqs numbers irq).Nodup ↔ ((∃ value ∈ irq, value ∉ numbers) → 0 ∉ numbers) := by
  unfold listedIrqs
  split
  next hin =>
    refine iff_of_true hnodup ?_
    rintro ⟨value, hvalue, hout⟩
    exact absurd (hin value hvalue) hout
  next hnew =>
    push Not at hnew
    rw [imp_iff_right hnew, List.nodup_append]
    simp only [hnodup, List.nodup_singleton, List.mem_singleton, forall_eq, true_and]
    exact ⟨fun hne hzero => hne 0 hzero rfl, fun hzero value hvalue heq => hzero (heq ▸ hvalue)⟩

/-- What of the two sources is found. -/
def foundNumbers (entries : List DirEntry) (numbers : List ℕ) : List ℕ :=
  if Shown entries msiIrqsName then numbers else []

def foundIrq (entries : List DirEntry) (irq : Option ℕ) : Option ℕ :=
  if Shown entries irqName then irq else none

theorem mem_foundNumbers {number : ℕ} :
    number ∈ foundNumbers entries numbers ↔ number ∈ numbers ∧ Shown entries msiIrqsName := by
  unfold foundNumbers
  split <;> simp [*]

theorem mem_foundIrq {number : ℕ} :
    number ∈ foundIrq entries irq ↔ number ∈ irq ∧ Shown entries irqName := by
  unfold foundIrq
  split <;> simp [*]

theorem listedIrqs_complete_iff (entries : List DirEntry) (irq : Option ℕ)
    (hnodup : numbers.Nodup) :
    (listedIrqs (foundNumbers entries numbers) (foundIrq entries irq)).Nodup ∧
        (listedIrqs (foundNumbers entries numbers) (foundIrq entries irq)).toFinset =
          numbers.toFinset ∪ irq.toFinset ↔
      ∀ number, number ∈ numbers ∨ number ∈ irq →
        (number ∈ numbers ∧ Shown entries msiIrqsName) ∨
          (number = 0 ∧ irq = some 0 ∧ Shown entries irqName) := by
  have hfound : (foundNumbers entries numbers).Nodup := by
    unfold foundNumbers
    split
    · exact hnodup
    · exact List.nodup_nil
  rw [nodup_listedIrqs hfound, Finset.ext_iff]
  simp only [Finset.mem_union, List.mem_toFinset, Option.mem_toFinset, mem_listedIrqs,
    mem_foundNumbers, mem_foundIrq]
  constructor
  · rintro ⟨-, hsame⟩ number hnumber
    rcases (hsame number).mpr hnumber with hin | ⟨rfl, value, ⟨hvalue, hshown⟩, hout⟩
    · exact .inl hin
    · have hzero := ((hsame value).mpr (.inr hvalue)).resolve_left hout
      rw [hzero.1] at hvalue
      exact .inr ⟨rfl, hvalue, hshown⟩
  · intro hin
    -- the number of the file is in the directory or is the zero of the new element
    have hvalue : ∀ value ∈ irq, ¬ (value ∈ numbers ∧ Shown entries msiIrqsName) → value = 0 :=
      fun value hvalue hout => ((hin value (.inr hvalue)).resolve_left hout).1
    constructor
    · rintro ⟨value, ⟨hmem, -⟩, hout⟩
      rwa [hvalue value hmem hout] at hout
    · intro number
      constructor
      · rintro (hlisted | ⟨rfl, value, ⟨hmem, -⟩, hout⟩)
        · exact .inl hlisted.1
        · rw [hvalue value hmem hout] at hmem
          exact .inr hmem
      · intro hnumber
        rcases hin number hnumber with hlisted | ⟨rfl, hirq, hshown⟩
        · exact .inl hlisted
        · by_cases hlisted : 0 ∈ numbers ∧ Shown entries msiIrqsName
          · exact .inl hlisted
          · exact .inr ⟨rfl, 0, ⟨hirq, hshown⟩, hlisted⟩

theorem ShowsIrqs.parse_eq (hshows : ShowsIrqs dir entries numbers irq) (wirqs : WaycaDeviceIrqs) :
    topoParseDeviceIrqs dir wirqs =
      (⟨listedIrqs (foundNumbers entries numbers) (foundIrq entries irq)⟩,
        if Shown entries msiIrqsName ∨ Shown entries irqName then 0 else lastLstat entries 0) := by
  obtain ⟨hmsiExist, hirqExist, hlast⟩ :=
    findIrqSources_eq hshows.directory hshows.file false false 0
  rw [Bool.false_or] at hmsiExist hirqExist
  have hmsi : (if Shown entries msiIrqsName then topoParseMsiIrq dir ⟨[]⟩
      else (⟨[]⟩, (findIrqSources entries false false 0).2.2)) =
      (⟨foundNumbers entries numbers⟩,
        if Shown entries msiIrqsName then 0 else lastLstat entries 0) := by
    unfold foundNumbers
    split
    next hshown =>
      obtain ⟨files, hopened, hnames⟩ := hshows.names hshown.named
      exact topoParseMsiIrq_eq hopened hshows.lt hnames _
    next hhidden => rw [hlast (hmsiExist.trans (decide_eq_false hhidden))]
  unfold topoParseDeviceIrqs
  simp only [hshows.opened, hmsiExist, hirqExist, decide_eq_true_eq, hmsi]
  rw [if_neg fun herror => herror.2 (if_pos herror.1)]
  by_cases hirq : Shown entries irqName
  · obtain ⟨number, hnumber⟩ := Option.isSome_iff_exists.mp (hshows.exists_iff.mp hirq.named)
    obtain ⟨hread, hlt⟩ := hshows.irq number hnumber
    have hsource : Shown entries msiIrqsName ∨ Shown entries irqName := .inr hirq
    rw [if_pos hirq, topoParseIrq_eq hread hlt, if_pos hsource, foundIrq, if_pos hirq, hnumber]
    simp only [listedIrqs, Option.mem_some_iff, forall_eq']
    split <;> rfl
  · simp [hirq, foundIrq, listedIrqs]

/-- The list is complete exactly if each number is in the directory that is
found, or is the zero that the new element holds for the file that is found.
If neither is found, the result is that of the last `lstat`. -/
theorem irq_list_complete (hshows : ShowsIrqs dir entries numbers irq) (wirqs : WaycaDeviceIrqs) :
    (((topoParseDeviceIrqs dir wirqs).2 = 0 →
        (topoParseDeviceIrqs dir wirqs).1.irqNumbers.Nodup ∧
        (topoParseDeviceIrqs dir wirqs).1.irqNumbers.toFinset =
          numbers.toFinset ∪ irq.toFinset) ↔
      (∀ number, number ∈ numbers ∨ number ∈ irq →
        (number ∈ numbers ∧ Shown entries msiIrqsName) ∨
          (number = 0 ∧ irq = some 0 ∧ Shown entries irqName)) ∨
        (¬ Shown entries msiIrqsName ∧ ¬ Shown entries irqName ∧
          ∃ entry ∈ entries.getLast?, entry.lstat = none)) ∧
    (Shown entries msiIrqsName ∨ Shown entries irqName →
      (topoParseDeviceIrqs dir wirqs).2 = 0) := by
  rw [hshows.parse_eq wirqs]
  refine ⟨?_, fun hsource => if_pos hsource⟩
  have hcomplete := listedIrqs_complete_iff entries irq hshows.nodup
  by_cases hsource : Shown entries msiIrqsName ∨ Shown entries irqName
  · have hfound : ¬ (¬ Shown entries msiIrqsName ∧ ¬ Shown entries irqName ∧
        ∃ entry ∈ entries.getLast?, entry.lstat = none) := fun hnone =>
      hsource.elim hnone.1 hnone.2.1
    rw [if_pos hsource, imp_iff_right rfl, hcomplete, or_iff_left hfound]
  · have hlast : lastLstat entries 0 = 0 ↔ ¬ ∃ entry ∈ entries.getLast?, entry.lstat = none := by
      unfold lastLstat
      cases entries.getLast? with
      | none => simp
      | some last => cases hstat : last.lstat <;> simp [hstat]
    rw [if_neg hsource, hlast, hcomplete, not_imp_comm, or_iff_not_imp_left]
    rw [not_or] at hsource
    exact imp_congr_right fun _ => ⟨fun h => ⟨hsource.1, hsource.2, h⟩, fun h => h.2.2⟩

def sharedIrqDirectory : InterruptDirectory where
  entries := .ok [⟨irqName, .regular, some .regular⟩, ⟨msiIrqsName, .directory, some .directory⟩]
  msiIrqs := .ok [⟨['.'], .directory, some .directory⟩, ⟨['4'], .regular, some .regular⟩,
    ⟨['5'], .regular, some .regular⟩]
  irq := some 5

theorem irq_list_complete_shared_irq :
    (topoParseDeviceIrqs sharedIrqDirectory ⟨[]⟩).1.irqNumbers.Nodup ∧
      (topoParseDeviceIrqs sharedIrqDirectory ⟨[]⟩).1.irqNumbers.toFinset = {4, 5} := by
  have hshows : ShowsIrqs sharedIrqDirectory
      [⟨irqName, .regular, some .regular⟩, ⟨msiIrqsName, .directory, some .directory⟩] [4, 5]
      (some 5) :=
    ⟨rfl, by decide, by decide, by decide, fun _ => ⟨_, rfl, by decide⟩, by decide, by decide,
      by decide, by decide⟩
  obtain ⟨hcomplete, hreturns⟩ := irq_list_complete hshows ⟨[]⟩
  refine hcomplete.mpr (.inl ?_) (hreturns (by decide))
  rintro number (hnumber | hnumber)
  · exact .inl ⟨hnumber, by decide⟩
  · cases hnumber
    exact .inl (by decide)

/-- A device with one interrupt in the file `irq` only. -/
def lostIrqDirectory : InterruptDirectory where
  entries := .ok [⟨irqName, .regular, some .regular⟩]
  msiIrqs := .error ENOENT
  irq := some 7

theorem irq_of_file_lost :
    ShowsIrqs lostIrqDirectory [⟨irqName, .regular, some .regular⟩] [] (some 7) ∧
      topoParseDeviceIrqs lostIrqDirectory ⟨[]⟩ = (⟨[0]⟩, 0) ∧
      (topoParseDeviceIrqs lostIrqDirectory ⟨[]⟩).1.irqNumbers.toFinset ≠
        ([] : List ℕ).toFinset ∪ (some 7).toFinset := by
  have habsent : msiIrqsName ∉
      [(⟨irqName, .regular, some .regular⟩ : DirEntry)].map (·.dName) := by decide
  refine ⟨⟨rfl, by decide, by decide, fun _ => rfl, fun hnamed => absurd hnamed habsent,
    by decide, by decide, by decide, by decide⟩, ?_, ?_⟩
  · decide
  · decide

end WaycaScheduler
