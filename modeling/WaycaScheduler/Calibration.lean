import WaycaScheduler.Library.BufferedFiles

/-!
# The calibration that can be continued

`init_dis_file`, `get_dis_breakpoint`, `WaycaPerfTest` and `StreamPerfTest` on
NUMA nodes in `tools/wayca-calibration/wayca_calibration.py`.  Latencies and
bandwidths between all pairs of objects go to a distance file each, and those of
the stream test go to rows of a CSV file as well.  With `--continue-test` the
number of lines of one of the files tells the pair to go on with.  A line says
what it was measured for and leaves the measured number out.
-/

namespace WaycaScheduler

open BufferedFiles ResumableLog Function

variable {scopeName : String}
variable {cnt : ℕ} {cache : CalibrationCacheType} {present : CalibrationCacheType → Bool}
  {contTest : Bool}

/-! ## Lines and headings -/

inductive CalibrationCacheType where
  | L1DCACHE
  | L2CACHE
  | L3CACHE
deriving DecidableEq

def CalibrationCacheType.name : CalibrationCacheType → String
  | .L1DCACHE => "L1DCACHE"
  | .L2CACHE => "L2CACHE"
  | .L3CACHE => "L3CACHE"

inductive DataType where
  | lat
  | band
deriving DecidableEq

/-- The column `mem type` of a row. -/
inductive MemType where
  | cache (type : CalibrationCacheType)
  | dram
deriving DecidableEq

/-- A line of a heading, a value of a distance file, or a row of the CSV file. -/
inductive Line where
  | text (words : String)
  | value (type : DataType) (ini tgt : ℕ)
  | row (memType : MemType) (type : DataType) (index : ℕ) (numaId : ℤ)
deriving DecidableEq

variable {line : Line} {disk : List Line}

def Line.isData : Line → Bool
  | .text _ => false
  | .value .. | .row .. => true

/-- The lines that `init_dis_file` writes. -/
def disHeading (name scopeName : String) (cnt : ℕ) : List Line :=
  [.text ("name=\"" ++ name ++ "\""), .text "6", .text (toString cnt)] ++
    (List.range cnt).map fun i => .text (scopeName ++ ":" ++ toString i)

def initDisFile (name scopeName : String) (cnt : ℕ) (tmpfile : File Line) : File Line :=
  { tmpfile with buffer := tmpfile.buffer ++ disHeading name scopeName cnt }

/-- `get_dis_breakpoint`: the file as it is left, and `ini` and `tgt`. -/
def getDisBreakpoint (name scopeName : String) (cnt : ℕ) (tmpfile : File Line) :
    File Line × ℕ × ℕ :=
  let lines : ℤ := tmpfile.disk.length - (cnt + 3)
  if lines < 0 then (initDisFile name scopeName cnt { tmpfile with pos := 0 }, 0, 0)
  else ({ tmpfile with pos := tmpfile.disk.length }, lines.toNat / cnt, lines.toNat % cnt)

/-- A distance file is opened and made ready, in the first session and when the
test is continued. -/
def prepDisFile (contTest : Bool) (name scopeName : String) (cnt : ℕ) (disk : List Line) :
    File Line × ℕ × ℕ :=
  let tmpfile : File Line := ⟨disk, 0, []⟩
  if contTest then getDisBreakpoint name scopeName cnt tmpfile
  else (initDisFile name scopeName cnt tmpfile, 0, 0)

/-! ## The pairs in the order they are measured -/

/-- The two loops over pairs: the inner one begins at `tgt` in the first row and
at 0 in the rows after it. -/
def testLoop (cnt : ℕ) : List ℕ → ℕ → List (ℕ × ℕ)
  | [], _ => []
  | i :: rest, tgt => (List.range' tgt (cnt - tgt)).map (Prod.mk i) ++ testLoop cnt rest 0

def testOrder (cnt : ℕ) (start : ℕ × ℕ) : List (ℕ × ℕ) :=
  testLoop cnt (List.range' start.1 (cnt - start.1)) start.2

def pairAt (cnt k : ℕ) : ℕ × ℕ :=
  (k / cnt, k % cnt)

/-! ## The test of a cache level with the memory benchmark -/

def waycaName (cache : CalibrationCacheType) : DataType → String
  | .lat => "WAYCA" ++ "CPU" ++ "Lat" ++ cache.name ++ "(ps)"
  | .band => "WAYCA" ++ "CPU" ++ "Band" ++ cache.name ++ "(MB)"

/-- What `WaycaPerfTest.__test_cache` does for a pair. -/
def waycaPairOps (pair : ℕ × ℕ) : List (Op DataType Line) :=
  [.write .lat (.value .lat pair.1 pair.2), .write .band (.value .band pair.1 pair.2),
    .flush .lat, .flush .band]

/-- `WaycaPerfTest.get_performance` for one cache level. -/
def waycaGetPerformance (cache : CalibrationCacheType) (cnt : ℕ) (contTest : Bool)
    (disks : DataType → List Line) : Run DataType Line :=
  let start := (prepDisFile contTest (waycaName cache .band) "core" cnt (disks .band)).2
  { files := fun type => (prepDisFile contTest (waycaName cache type) "core" cnt (disks type)).1
    todo := (testOrder cnt start).flatMap waycaPairOps ++ [.flush .lat, .flush .band] }

/-! ## The stream test on NUMA nodes -/

inductive StreamFile where
  | dis (type : DataType)
  | csv
deriving DecidableEq

def streamName : DataType → String
  | .lat => "STREAM" ++ "NUMA" ++ "Lat" ++ "(ps)"
  | .band => "STREAM" ++ "NUMA" ++ "Band" ++ "(MB)"

def Line.isRowOf (memType : MemType) : Line → Bool
  | .row type .. => type = memType
  | .text _ | .value .. => false

/-- `__get_data_lines`: the rows of a type of memory. -/
def getDataLines (memType : MemType) (csv : List Line) : ℕ :=
  csv.countP (Line.isRowOf memType)

def getCacheBreakpoint (cache : CalibrationCacheType) (csv : List Line) : ℕ :=
  getDataLines (.cache cache) csv / 2

def getMemBreakpoint (cnt : ℕ) (csv : List Line) : ℕ × ℕ :=
  pairAt cnt (getDataLines .dram csv / 2)

/-- What `StreamPerfTest.__test_cache` does for a node. -/
def streamCacheOps (cache : CalibrationCacheType) (i : ℕ) : List (Op StreamFile Line) :=
  [.write .csv (.row (.cache cache) .lat i (-1)), .write .csv (.row (.cache cache) .band i (-1)),
    .flush .csv]

def streamTestCache (cnt : ℕ) (contTest : Bool) (csv : List Line)
    (cache : CalibrationCacheType) : List (Op StreamFile Line) :=
  let start := if contTest then getCacheBreakpoint cache csv else 0
  (List.range' start (cnt - start)).flatMap (streamCacheOps cache)

/-- What `StreamPerfTest.__test_memory` does for a pair, `__write_dis_data`
first. -/
def streamPairOps (pair : ℕ × ℕ) : List (Op StreamFile Line) :=
  [.write (.dis .lat) (.value .lat pair.1 pair.2),
    .write (.dis .band) (.value .band pair.1 pair.2), .flush (.dis .lat), .flush (.dis .band),
    .write .csv (.row .dram .lat pair.1 pair.2), .write .csv (.row .dram .band pair.1 pair.2),
    .flush .csv]

def streamTestMemory (cnt : ℕ) (contTest : Bool) (csv : List Line) : List (Op StreamFile Line) :=
  let start := if contTest then getMemBreakpoint cnt csv else (0, 0)
  (testOrder cnt start).flatMap streamPairOps

def cacheLevels (present : CalibrationCacheType → Bool) : List CalibrationCacheType :=
  [.L1DCACHE, .L2CACHE, .L3CACHE].filter present

/-- `StreamPerfTest.get_performance` for the NUMA scope.  A test adds rows of its
own type of memory only, so the rows it finds when it begins are those of the
session's start. -/
def streamGetPerformance (present : CalibrationCacheType → Bool) (cnt : ℕ) (contTest : Bool)
    (disks : StreamFile → List Line) : Run StreamFile Line where
  files
    | .dis type => (prepDisFile contTest (streamName type) "numa" cnt (disks (.dis type))).1
    | .csv => ⟨disks .csv, if contTest then (disks .csv).length else 0, []⟩
  todo := (cacheLevels present).flatMap (streamTestCache cnt contTest (disks .csv)) ++
    streamTestMemory cnt contTest (disks .csv)

/-! ## What the files are to hold -/

def disFile (name scopeName : String) (cnt : ℕ) (type : DataType) : List Line :=
  disHeading name scopeName cnt ++
    (List.range (cnt * cnt)).map fun k => .value type (k / cnt) (k % cnt)

def memoryRows (cnt : ℕ) : List Line :=
  (List.range (cnt * cnt)).flatMap fun k =>
    [.row .dram .lat (k / cnt) ((k % cnt : ℕ) : ℤ), .row .dram .band (k / cnt) ((k % cnt : ℕ) : ℤ)]

def cacheRows (cnt : ℕ) (cache : CalibrationCacheType) : List Line :=
  (List.range cnt).flatMap fun i =>
    [.row (.cache cache) .lat i (-1), .row (.cache cache) .band i (-1)]

def valueCount (cnt : ℕ) (disk : List Line) : ℕ :=
  disk.length - (cnt + 3)

/-! ## Distance files -/

@[simp] theorem length_disHeading (name scopeName : String) (cnt : ℕ) :
    (disHeading name scopeName cnt).length = cnt + 3 := by
  simp [disHeading]

theorem isData_of_mem_disHeading {name : String}
    (hline : line ∈ disHeading name scopeName cnt) : line.isData = false := by
  rw [disHeading, List.mem_append, List.mem_map] at hline
  rcases hline with hline | ⟨i, -, rfl⟩
  · simp only [List.mem_cons, List.not_mem_nil, or_false] at hline
    rcases hline with rfl | rfl | rfl <;> rfl
  · rfl

@[simp] theorem filter_disHeading (name scopeName : String) (cnt : ℕ) :
    (disHeading name scopeName cnt).filter Line.isData = [] :=
  filter_eq_nil_of_heading fun _ => isData_of_mem_disHeading

theorem prepDisFile_spec {name : String}
    (hlaid : Laid Line.isData (disHeading name scopeName cnt) disk)
    (hfirst : contTest = false → disk = []) :
    Layout Line.isData (disHeading name scopeName cnt)
        (prepDisFile contTest name scopeName cnt disk).1 ∧
      (prepDisFile contTest name scopeName cnt disk).1.buffer.filter Line.isData = [] ∧
      (prepDisFile contTest name scopeName cnt disk).2 =
        pairAt cnt (disk.filter Line.isData).length := by
  have hlength := length_disHeading name scopeName cnt
  have hvalues := (hlaid.filter_eq fun _ => isData_of_mem_disHeading).1
  have hprep : prepDisFile contTest name scopeName cnt disk =
      if disk.length < cnt + 3 then (⟨disk, 0, disHeading name scopeName cnt⟩, pairAt cnt 0)
      else (⟨disk, disk.length, []⟩, pairAt cnt (disk.length - (cnt + 3))) := by
    cases contTest with
    | false => simp [hfirst rfl, prepDisFile, initDisFile, pairAt]
    | true =>
        have hnegative : ((disk.length : ℤ) - (cnt + 3) < 0) ↔ disk.length < cnt + 3 := by omega
        have htoNat : ((disk.length : ℤ) - (cnt + 3)).toNat = disk.length - (cnt + 3) := by omega
        simp [prepDisFile, getDisBreakpoint, initDisFile, pairAt, hnegative, htoNat]
  rw [hprep]
  split
  next hshort =>
    refine ⟨hlaid.layout_begun (by omega), filter_disHeading .., ?_⟩
    rw [← hvalues, Nat.sub_eq_zero_of_le (by omega)]
  next hlong =>
    refine ⟨hlaid.layout_headed (by omega), rfl, ?_⟩
    rw [← hvalues, hlength]

/-! ## The order of the pairs -/

theorem pairAt_mul_add {cnt i j : ℕ} (hj : j < cnt) : pairAt cnt (i * cnt + j) = (i, j) := by
  rw [pairAt, Nat.mul_add_mod_of_lt hj, Nat.mul_comm, Nat.mul_add_div (by omega),
    Nat.div_eq_of_lt hj, Nat.add_zero]

theorem map_row_eq (cnt i j : ℕ) : (List.range' j (cnt - j)).map (Prod.mk i) =
      (List.range' (i * cnt + j) (cnt - j)).map (pairAt cnt) := by
  rw [← List.map_add_range', List.map_map]
  refine List.map_congr_left fun column hcolumn => ?_
  rw [List.mem_range'_1] at hcolumn
  exact (pairAt_mul_add (by omega)).symm

theorem testLoop_eq {cnt j : ℕ} (hj : j < cnt) (rows i : ℕ) :
    testLoop cnt (List.range' i (rows + 1)) j =
      (List.range' (i * cnt + j) ((rows + 1) * cnt - j)).map (pairAt cnt) := by
  induction rows generalizing i j with
  | zero => simp [testLoop, map_row_eq]
  | succ rows ih =>
      have hstart : (i + 1) * cnt + 0 = i * cnt + j + (cnt - j) := by
        rw [Nat.succ_mul]
        omega
      have hcount : cnt - j + ((rows + 1) * cnt - 0) = (rows + 1 + 1) * cnt - j := by
        rw [Nat.succ_mul (rows + 1)]
        omega
      rw [List.range'_succ, testLoop, ih (by omega), map_row_eq, hstart, ← List.map_append,
        List.range'_append_1, hcount]

theorem testOrder_pairAt (hcnt : 0 < cnt) (k : ℕ) :
    testOrder cnt (pairAt cnt k) = (List.range' k (cnt * cnt - k)).map (pairAt cnt) := by
  have hk := Nat.div_add_mod' k cnt
  have hj := Nat.mod_lt k hcnt
  by_cases hrow : k / cnt < cnt
  · obtain ⟨rows, hrows⟩ := Nat.exists_eq_add_of_lt hrow
    have hleft : cnt - k / cnt = rows + 1 := by omega
    have hcount : (rows + 1) * cnt - k % cnt = cnt * cnt - k := by
      rw [← hleft, Nat.sub_mul, Nat.sub_sub, hk]
    rw [testOrder, pairAt, hleft, testLoop_eq hj, hk, hcount]
  · have hdone : cnt * cnt ≤ k :=
      (Nat.mul_le_mul_right cnt (Nat.not_lt.mp hrow)).trans (Nat.div_mul_le_self k cnt)
    rw [testOrder, pairAt, Nat.sub_eq_zero_of_le (Nat.not_lt.mp hrow), Nat.sub_eq_zero_of_le hdone]
    rfl

/-! ## The test of a cache level -/

theorem prepDisFile_disk (contTest : Bool) (name scopeName : String) (cnt : ℕ) (disk : List Line) :
    (prepDisFile contTest name scopeName cnt disk).1.disk = disk := by
  cases contTest with
  | false => rfl
  | true =>
      rw [prepDisFile, if_pos rfl, getDisBreakpoint]
      dsimp only
      split <;> rfl

theorem pending_waycaPairOps (pair : ℕ × ℕ) (rest : List (Op DataType Line)) :
    pending (fun _ => []) (waycaPairOps pair ++ rest) =
      [(.lat, .value .lat pair.1 pair.2), (.band, .value .band pair.1 pair.2)] ++
        pending (fun _ => []) rest := by
  have hflushed : ∀ lat band : List Line, update (update (update
      (update (fun _ => []) DataType.lat lat) .band band) .lat []) .band [] = fun _ => [] := by
    intro lat band
    funext type
    cases type <;> simp [update]
  simp [waycaPairOps, pending, hflushed]

def Line.number (cnt : ℕ) : Line → ℕ
  | .text _ => 0
  | .value _ ini tgt => ini * cnt + tgt
  | .row (.cache _) _ index _ => index
  | .row .dram _ index numaId => index * cnt + numaId.toNat

def waycaRecord (cnt k : ℕ) : List (DataType × Line) :=
  [(.lat, .value .lat (k / cnt) (k % cnt)), (.band, .value .band (k / cnt) (k % cnt))]

theorem nodup_waycaRecords (cnt size : ℕ) :
    ((List.range size).flatMap (waycaRecord cnt)).Nodup := by
  refine nodup_flatMap_range (fun entry => entry.2.number cnt) ?_ ?_ size
  · simp [waycaRecord]
  · simp [waycaRecord, Line.number, Nat.div_add_mod']

/-- A latency and a bandwidth for every pair, counted in the bandwidth file. -/
def waycaPlan (cnt : ℕ) : Plan DataType Line where
  record := waycaRecord cnt
  size := cnt * cnt
  driver := .band
  perRecord := 1
  perRecord_pos := Nat.one_pos
  length_driver _ := rfl
  driver_last k := ⟨[(.lat, .value .lat (k / cnt) (k % cnt))], _, rfl⟩
  nodup := nodup_waycaRecords cnt _

theorem waycaGetPerformance_disks (cache : CalibrationCacheType) (cnt : ℕ) (contTest : Bool)
    (disks : DataType → List Line) :
    (waycaGetPerformance cache cnt contTest disks).disks = disks := by
  funext type
  exact prepDisFile_disk ..

theorem waycaGetPerformance_sound {disks : DataType → List Line}
    (hlaid : ∀ type, Laid Line.isData (disHeading (waycaName cache type) "core" cnt) (disks type))
    (hfirst : contTest = false → disks = fun _ => []) :
    (waycaGetPerformance cache cnt contTest disks).Sound Line.isData
      fun type => disHeading (waycaName cache type) "core" cnt := by
  refine ⟨fun type => ?_, ?_⟩
  · exact (prepDisFile_spec (hlaid type) fun hcont => congrFun (hfirst hcont) type).1
  · intro op hop
    simp only [waycaGetPerformance, waycaPairOps, List.mem_append, List.mem_flatMap,
      List.mem_cons, List.not_mem_nil, or_false] at hop
    rcases hop with ⟨pair, -, rfl | rfl | rfl | rfl⟩ | rfl | rfl <;> trivial

/-- `WaycaPerfTest` for one cache level. -/
def waycaPerfTest (cache : CalibrationCacheType) (cnt : ℕ) : Recorder DataType Line where
  isData := Line.isData
  headings type := disHeading (waycaName cache type) "core" cnt
  start := waycaGetPerformance cache cnt
  heading_not_data _ _ := isData_of_mem_disHeading
  disks_start := waycaGetPerformance_disks cache cnt
  sound_start _ _ := waycaGetPerformance_sound

theorem isData_of_mem_waycaRecord {cnt k : ℕ} :
    ∀ entry ∈ waycaRecord cnt k, entry.2.isData = true := by
  simp [waycaRecord, Line.isData]

theorem wayca_plans (hcnt : 0 < cnt) (cache : CalibrationCacheType) :
    (waycaPerfTest cache cnt).Plans (fun _ => Line.isData) (waycaPlan cnt) := by
  refine ⟨fun _ _ hline => hline, fun contTest disks hlaid hfirst => ?_⟩
  have hspec := fun type =>
    prepDisFile_spec (hlaid type) fun hcont => congrFun (hfirst hcont) type
  have hempty : inBuffer Line.isData (waycaGetPerformance cache cnt contTest disks).files =
      fun _ => [] := by
    funext type
    exact (hspec type).2.1
  have hawaited : (waycaGetPerformance cache cnt contTest disks).awaited Line.isData =
      (waycaPlan cnt).session (Recorder.partOf (fun _ => Line.isData) disks) := by
    change pending (inBuffer Line.isData (waycaGetPerformance cache cnt contTest disks).files)
      ((testOrder cnt (prepDisFile contTest (waycaName cache .band) "core" cnt
        (disks .band)).2).flatMap waycaPairOps ++ [.flush .lat, .flush .band]) = _
    rw [hempty, (hspec .band).2.2, testOrder_pairAt hcnt, pending_flatMap pending_waycaPairOps,
      List.flatMap_map]
    rw [Plan.session, Plan.resume, show (waycaPlan cnt).perRecord = 1 from rfl, Nat.div_one]
    exact List.append_nil _
  change ((waycaGetPerformance cache cnt contTest disks).awaited Line.isData).filter _ = _
  rw [hawaited, Plan.filter_session fun k => isData_of_mem_waycaRecord, if_pos rfl]

/-- A file that was laid out is right if its values are. -/
theorem disFile_iff {name : String} {type : DataType} (hcnt : 0 < cnt)
    (hlaid : Laid Line.isData (disHeading name scopeName cnt) disk) :
    disk = disFile name scopeName cnt type ↔ disk.filter Line.isData =
        (List.range (cnt * cnt)).map fun k => .value type (k / cnt) (k % cnt) := by
  refine hlaid.eq_append_iff (fun _ => isData_of_mem_disHeading) ?_ ?_
  · intro line hline
    obtain ⟨k, -, rfl⟩ := List.mem_map.mp hline
    rfl
  · have hpairs : cnt * cnt ≠ 0 := Nat.mul_ne_zero hcnt.ne' hcnt.ne'
    simpa using hpairs

theorem valueCount_eq {name : String}
    (hlaid : Laid Line.isData (disHeading name scopeName cnt) disk) :
    valueCount cnt disk = (disk.filter Line.isData).length := by
  rw [← (hlaid.filter_eq fun _ => isData_of_mem_disHeading).1, length_disHeading, valueCount]

theorem waycaPlan_whole (cnt count : ℕ) (type : DataType) : (waycaPlan cnt).whole count type =
      (List.range count).map fun k => .value type (k / cnt) (k % cnt) := by
  rw [Plan.whole_eq_flatMap, List.map_eq_flatMap]
  cases type <;> rfl

theorem wayca_right_iff (hcnt : 0 < cnt)
    {left : List (DataType → List Line)} {final : DataType → List Line}
    (hcompletes : (waycaPerfTest cache cnt).Completes left final) :
    (∀ type, final type = disFile (waycaName cache type) "core" cnt type) ↔
      ∀ cut ∈ left, valueCount cnt (cut .lat) = valueCount cnt (cut .band) := by
  have hplans := wayca_plans hcnt cache
  have hfinal : (∀ type, final type = disFile (waycaName cache type) "core" cnt type) ↔
      Recorder.partOf (fun _ => Line.isData) final = (waycaPlan cnt).whole (cnt * cnt) := by
    rw [funext_iff]
    refine forall_congr' fun type => ?_
    rw [disFile_iff hcnt (hcompletes.laid type).1, waycaPlan_whole]
    rfl
  rw [hfinal]
  refine (hcompletes.part_iff hplans).trans (forall₂_congr fun cut hcut => ?_)
  have hvalues : ∀ type, valueCount cnt (cut type) =
      (Recorder.partOf (fun _ => Line.isData) cut type).length :=
    fun type => valueCount_eq ((hcompletes.laid type).2 cut hcut)
  have hwhole : ∀ count type, ((waycaPlan cnt).whole count type).length = count := by
    simp [waycaPlan_whole]
  rw [hvalues, hvalues]
  constructor
  · rintro ⟨count, hcount⟩
    rw [hcount, hcount, hwhole, hwhole]
  · intro heq
    refine ⟨(Recorder.partOf (fun _ => Line.isData) cut .band).length, fun type => ?_⟩
    rw [hwhole]
    cases type with
    | lat => exact heq
    | band => rfl

/-! ## The stream test -/

theorem pending_streamCacheOps (cache : CalibrationCacheType) (i : ℕ)
    (rest : List (Op StreamFile Line)) :
    pending (fun _ => []) (streamCacheOps cache i ++ rest) =
      [(.csv, .row (.cache cache) .lat i (-1)), (.csv, .row (.cache cache) .band i (-1))] ++
        pending (fun _ => []) rest := by
  simp [streamCacheOps, pending]

theorem pending_streamPairOps (pair : ℕ × ℕ) (rest : List (Op StreamFile Line)) :
    pending (fun _ => []) (streamPairOps pair ++ rest) =
      [(.dis .lat, .value .lat pair.1 pair.2), (.dis .band, .value .band pair.1 pair.2),
        (.csv, .row .dram .lat pair.1 pair.2), (.csv, .row .dram .band pair.1 pair.2)] ++
        pending (fun _ => []) rest := by
  have hflushed : ∀ lat band : List Line, update (update (update
      (update (fun _ => []) (StreamFile.dis .lat) lat) (.dis .band) band)
        (.dis .lat) []) (.dis .band) [] = fun _ => [] := by
    intro lat band
    funext file
    rcases file with (_ | _) | _ <;> simp [update]
  simp [streamPairOps, pending, hflushed]

def streamHeading (cnt : ℕ) : StreamFile → List Line
  | .dis type => disHeading (streamName type) "numa" cnt
  | .csv => []

theorem isData_of_mem_streamHeading {file : StreamFile}
    (hline : line ∈ streamHeading cnt file) : line.isData = false := by
  cases file with
  | dis type => exact isData_of_mem_disHeading hline
  | csv => simp [streamHeading] at hline

theorem streamGetPerformance_disks (present : CalibrationCacheType → Bool) (cnt : ℕ)
    (contTest : Bool) (disks : StreamFile → List Line) :
    (streamGetPerformance present cnt contTest disks).disks = disks := by
  funext file
  cases file with
  | dis type => exact prepDisFile_disk ..
  | csv => rfl

section

variable {present : CalibrationCacheType → Bool} {cnt : ℕ} {contTest : Bool}
  {disks : StreamFile → List Line}

theorem streamGetPerformance_files
    (hlaid : ∀ file, Laid Line.isData (streamHeading cnt file) (disks file))
    (hfirst : contTest = false → disks = fun _ => []) (file : StreamFile) :
    Layout Line.isData (streamHeading cnt file)
        ((streamGetPerformance present cnt contTest disks).files file) ∧
      ((streamGetPerformance present cnt contTest disks).files file).buffer.filter
        Line.isData = [] := by
  cases file with
  | dis type =>
      have hspec := prepDisFile_spec (hlaid (.dis type)) fun hcont =>
        congrFun (hfirst hcont) (.dis type)
      exact ⟨hspec.1, hspec.2.1⟩
  | csv =>
      have hpos : (if contTest then (disks .csv).length else 0) = (disks .csv).length := by
        cases contTest with
        | false => simp [hfirst rfl]
        | true => rfl
      refine ⟨?_, rfl⟩
      simp only [streamGetPerformance, hpos]
      exact (hlaid .csv).layout_headed (Nat.zero_le _)

theorem streamGetPerformance_sound
    (hlaid : ∀ file, Laid Line.isData (streamHeading cnt file) (disks file))
    (hfirst : contTest = false → disks = fun _ => []) :
    (streamGetPerformance present cnt contTest disks).Sound Line.isData (streamHeading cnt) := by
  refine ⟨fun file => (streamGetPerformance_files hlaid hfirst file).1, ?_⟩
  intro op hop
  simp only [streamGetPerformance, streamTestCache, streamTestMemory, streamCacheOps,
    streamPairOps, List.mem_append, List.mem_flatMap, List.mem_cons, List.not_mem_nil,
    or_false] at hop
  rcases hop with ⟨cache, -, i, -, rfl | rfl | rfl⟩ |
    ⟨pair, -, rfl | rfl | rfl | rfl | rfl | rfl | rfl⟩ <;> trivial

end

/-- `StreamPerfTest` for the NUMA scope. -/
def streamPerfTest (present : CalibrationCacheType → Bool) (cnt : ℕ) :
    Recorder StreamFile Line where
  isData := Line.isData
  headings := streamHeading cnt
  start := streamGetPerformance present cnt
  heading_not_data _ _ := isData_of_mem_streamHeading
  disks_start := streamGetPerformance_disks present cnt
  sound_start _ _ := streamGetPerformance_sound

def memoryRecord (cnt k : ℕ) : List (StreamFile × Line) :=
  [(.dis .lat, .value .lat (k / cnt) (k % cnt)), (.dis .band, .value .band (k / cnt) (k % cnt)),
    (.csv, .row .dram .lat (k / cnt) ((k % cnt : ℕ) : ℤ)),
    (.csv, .row .dram .band (k / cnt) ((k % cnt : ℕ) : ℤ))]

def cacheRecord (cache : CalibrationCacheType) (i : ℕ) : List (StreamFile × Line) :=
  [(.csv, .row (.cache cache) .lat i (-1)), (.csv, .row (.cache cache) .band i (-1))]

theorem nodup_memoryRecords (cnt size : ℕ) :
    ((List.range size).flatMap (memoryRecord cnt)).Nodup := by
  refine nodup_flatMap_range (fun entry => entry.2.number cnt) (by simp [memoryRecord]) ?_ size
  intro k entry hentry
  simp only [memoryRecord, List.mem_cons, List.not_mem_nil, or_false] at hentry
  rcases hentry with rfl | rfl | rfl | rfl <;> exact Nat.div_add_mod' k cnt

theorem nodup_cacheRecords (cache : CalibrationCacheType) (size : ℕ) :
    ((List.range size).flatMap (cacheRecord cache)).Nodup := by
  refine nodup_flatMap_range (fun entry => entry.2.number 0) ?_ ?_ size
  · simp [cacheRecord]
  · simp [cacheRecord, Line.number]

/-- A latency and a bandwidth for every pair of nodes, in the distance files and
in rows, counted in the rows. -/
def memoryPlan (cnt : ℕ) : Plan StreamFile Line where
  record := memoryRecord cnt
  size := cnt * cnt
  driver := .csv
  perRecord := 2
  perRecord_pos := Nat.two_pos
  length_driver _ := rfl
  driver_last k := ⟨[(.dis .lat, .value .lat (k / cnt) (k % cnt)),
    (.dis .band, .value .band (k / cnt) (k % cnt)),
    (.csv, .row .dram .lat (k / cnt) ((k % cnt : ℕ) : ℤ))], _, rfl⟩
  nodup := nodup_memoryRecords cnt _

def cachePlan (cnt : ℕ) (cache : CalibrationCacheType) : Plan StreamFile Line where
  record := cacheRecord cache
  size := cnt
  driver := .csv
  perRecord := 2
  perRecord_pos := Nat.two_pos
  length_driver _ := rfl
  driver_last i := ⟨[(.csv, .row (.cache cache) .lat i (-1))], _, rfl⟩
  nodup := nodup_cacheRecords cache _

def memoryPart : StreamFile → Line → Bool
  | .dis _, line => line.isData
  | .csv, line => line.isRowOf .dram

def cachePart (cache : CalibrationCacheType) : StreamFile → Line → Bool
  | .dis _, _ => false
  | .csv, line => line.isRowOf (.cache cache)

theorem stream_awaited {disks : StreamFile → List Line} (hcnt : 0 < cnt)
    (hlaid : ∀ file, Laid Line.isData (streamHeading cnt file) (disks file))
    (hfirst : contTest = false → disks = fun _ => []) :
    (streamGetPerformance present cnt contTest disks).awaited Line.isData =
      (cacheLevels present).flatMap (fun cache =>
        (cachePlan cnt cache).session (Recorder.partOf (cachePart cache) disks)) ++
        (memoryPlan cnt).session (Recorder.partOf memoryPart disks) := by
  have hempty : inBuffer Line.isData (streamGetPerformance present cnt contTest disks).files =
      fun _ => [] := by
    funext file
    exact (streamGetPerformance_files hlaid hfirst file).2
  have hcount : ∀ memType, (disks .csv).countP (Line.isRowOf memType) =
      ((disks .csv).filter (Line.isRowOf memType)).length :=
    fun memType => List.countP_eq_length_filter
  have hcache : ∀ cache rest,
      pending (fun _ => []) (streamTestCache cnt contTest (disks .csv) cache ++ rest) =
        (cachePlan cnt cache).session (Recorder.partOf (cachePart cache) disks) ++
          pending (fun _ => []) rest := by
    intro cache rest
    have hstart : (if contTest then getCacheBreakpoint cache (disks .csv) else 0) =
        (cachePlan cnt cache).resume (Recorder.partOf (cachePart cache) disks) := by
      cases contTest with
      | false => simp [Plan.resume, Recorder.partOf, cachePlan, hfirst rfl]
      | true => exact congrArg (· / 2) (hcount (.cache cache))
    rw [streamTestCache, hstart, pending_flatMap (pending_streamCacheOps cache)]
    rfl
  have hmemory : pending (fun _ => []) (streamTestMemory cnt contTest (disks .csv)) =
      (memoryPlan cnt).session (Recorder.partOf memoryPart disks) := by
    have hstart : (if contTest then getMemBreakpoint cnt (disks .csv) else (0, 0)) =
        pairAt cnt ((memoryPlan cnt).resume (Recorder.partOf memoryPart disks)) := by
      cases contTest with
      | false => simp [Plan.resume, Recorder.partOf, memoryPlan, hfirst rfl, pairAt]
      | true => exact congrArg (fun lines => pairAt cnt (lines / 2)) (hcount .dram)
    have hpending := pending_flatMap pending_streamPairOps
      ((List.range' ((memoryPlan cnt).resume (Recorder.partOf memoryPart disks))
        (cnt * cnt - (memoryPlan cnt).resume (Recorder.partOf memoryPart disks))).map
          (pairAt cnt)) []
    rw [List.append_nil] at hpending
    rw [streamTestMemory, hstart, testOrder_pairAt hcnt, hpending, List.flatMap_map]
    exact List.append_nil _
  rw [Run.awaited, hempty, streamGetPerformance, pending_flatMap hcache, hmemory]

theorem isData_of_isRowOf {memType : MemType} (hrow : line.isRowOf memType = true) :
    line.isData = true := by
  cases line with
  | text words => cases hrow
  | value type ini tgt => rfl
  | row type data index numaId => rfl

theorem memory_plans (hcnt : 0 < cnt) (present : CalibrationCacheType → Bool) :
    (streamPerfTest present cnt).Plans memoryPart (memoryPlan cnt) := by
  constructor
  · intro file line hpart
    cases file with
    | dis type => exact hpart
    | csv => exact isData_of_isRowOf hpart
  · intro contTest disks hlaid hfirst
    have hcaches : ∀ cache i, ∀ entry ∈ (cachePlan cnt cache).record i,
        memoryPart entry.1 entry.2 = false := by
      simp [cachePlan, cacheRecord, memoryPart, Line.isRowOf]
    have hmemory : ∀ k, ∀ entry ∈ (memoryPlan cnt).record k, memoryPart entry.1 entry.2 = true := by
      simp [memoryPlan, memoryRecord, memoryPart, Line.isRowOf, Line.isData]
    refine (congrArg _ (stream_awaited hcnt hlaid hfirst)).trans ?_
    rw [List.filter_append, List.filter_flatMap, Plan.filter_session hmemory]
    simp [Plan.filter_session (hcaches _)]

theorem flatMap_cacheLevels {α : Type*}
    (hpresent : present cache = true)
    (sessions : CalibrationCacheType → List α) :
    ((cacheLevels present).flatMap fun other =>
      if decide (other = cache) = true then sessions other else []) = sessions cache := by
  cases cache <;> simp only [cacheLevels, List.filter_cons, hpresent, if_true] <;>
    split_ifs <;> simp

theorem cache_plans (hcnt : 0 < cnt)
    (hpresent : present cache = true) :
    (streamPerfTest present cnt).Plans (cachePart cache) (cachePlan cnt cache) := by
  constructor
  · intro file line hpart
    cases file with
    | dis type => cases hpart
    | csv => exact isData_of_isRowOf hpart
  · intro contTest disks hlaid hfirst
    have hmemory : ∀ k, ∀ entry ∈ (memoryPlan cnt).record k,
        cachePart cache entry.1 entry.2 = false := by
      simp [memoryPlan, memoryRecord, cachePart, Line.isRowOf]
    have hcaches : ∀ other i, ∀ entry ∈ (cachePlan cnt other).record i,
        cachePart cache entry.1 entry.2 = decide (other = cache) := by
      simp [cachePlan, cacheRecord, cachePart, Line.isRowOf]
    refine (congrArg _ (stream_awaited hcnt hlaid hfirst)).trans ?_
    rw [List.filter_append, List.filter_flatMap, Plan.filter_session hmemory]
    simp only [Plan.filter_session (hcaches _), flatMap_cacheLevels hpresent]
    exact List.append_nil _

/-- The records of a part are whole: as many latencies as bandwidths of main
memory, in the distance files and in the rows, and pairs of rows of every cache
level. -/
def StreamAligned (present : CalibrationCacheType → Bool) (cnt : ℕ)
    (cut : StreamFile → List Line) : Prop :=
  valueCount cnt (cut (.dis .lat)) = valueCount cnt (cut (.dis .band)) ∧
    getDataLines .dram (cut .csv) = 2 * valueCount cnt (cut (.dis .lat)) ∧
    ∀ cache, present cache = true → 2 ∣ getDataLines (.cache cache) (cut .csv)

/-- The distance files and the rows of a stream test are all there, in their
order. -/
def StreamRight (present : CalibrationCacheType → Bool) (cnt : ℕ)
    (final : StreamFile → List Line) : Prop :=
  (∀ type, final (.dis type) = disFile (streamName type) "numa" cnt type) ∧
    (final .csv).filter (Line.isRowOf .dram) = memoryRows cnt ∧
    ∀ cache, present cache = true →
      (final .csv).filter (Line.isRowOf (.cache cache)) = cacheRows cnt cache

theorem memoryPlan_whole (cnt count : ℕ) : (∀ type, (memoryPlan cnt).whole count (.dis type) =
        (List.range count).map fun k => .value type (k / cnt) (k % cnt)) ∧
      (memoryPlan cnt).whole count .csv = (List.range count).flatMap fun k =>
        [.row .dram .lat (k / cnt) ((k % cnt : ℕ) : ℤ),
          .row .dram .band (k / cnt) ((k % cnt : ℕ) : ℤ)] := by
  constructor
  · intro type
    rw [Plan.whole_eq_flatMap, List.map_eq_flatMap]
    cases type <;> rfl
  · rw [Plan.whole_eq_flatMap]
    rfl

theorem cachePlan_whole (cnt count : ℕ) (cache : CalibrationCacheType) :
    (∀ type, (cachePlan cnt cache).whole count (.dis type) = []) ∧
      (cachePlan cnt cache).whole count .csv = (List.range count).flatMap fun i =>
        [.row (.cache cache) .lat i (-1), .row (.cache cache) .band i (-1)] := by
  constructor
  · intro type
    rw [Plan.whole_eq_flatMap]
    exact List.flatMap_eq_nil_iff.mpr fun i _ => rfl
  · rw [Plan.whole_eq_flatMap]
    rfl

section

variable {cnt : ℕ} {present : CalibrationCacheType → Bool} {left : List (StreamFile → List Line)}
  {final : StreamFile → List Line}

/-- The memory test is right exactly if no cut left its files at different pairs. -/
theorem memory_right_iff (hcnt : 0 < cnt)
    (hcompletes : (streamPerfTest present cnt).Completes left final) :
    ((∀ type, final (.dis type) = disFile (streamName type) "numa" cnt type) ∧
      (final .csv).filter (Line.isRowOf .dram) = memoryRows cnt) ↔
      ∀ cut ∈ left, valueCount cnt (cut (.dis .lat)) = valueCount cnt (cut (.dis .band)) ∧
        getDataLines .dram (cut .csv) = 2 * valueCount cnt (cut (.dis .lat)) := by
  have hfinal : ((∀ type, final (.dis type) = disFile (streamName type) "numa" cnt type) ∧
      (final .csv).filter (Line.isRowOf .dram) = memoryRows cnt) ↔
      Recorder.partOf memoryPart final = (memoryPlan cnt).whole (cnt * cnt) := by
    obtain ⟨hdis, hcsv⟩ := memoryPlan_whole cnt (cnt * cnt)
    rw [funext_iff]
    constructor
    · rintro ⟨hvalues, hrows⟩ file
      cases file with
      | dis type =>
          rw [hdis]
          exact (disFile_iff hcnt (hcompletes.laid (.dis type)).1).mp (hvalues type)
      | csv =>
          rw [hcsv]
          exact hrows
    · intro hall
      refine ⟨fun type => ?_, (hall .csv).trans hcsv⟩
      exact (disFile_iff hcnt (hcompletes.laid (.dis type)).1).mpr
        ((hall (.dis type)).trans (hdis type))
  rw [hfinal]
  refine (hcompletes.part_iff (memory_plans hcnt present)).trans (forall₂_congr fun cut hcut => ?_)
  have hvalues : ∀ type, valueCount cnt (cut (.dis type)) =
      (Recorder.partOf memoryPart cut (.dis type)).length :=
    fun type => valueCount_eq ((hcompletes.laid (.dis type)).2 cut hcut)
  have hrows : getDataLines .dram (cut .csv) = (Recorder.partOf memoryPart cut .csv).length :=
    List.countP_eq_length_filter
  have hdis : ∀ count type, ((memoryPlan cnt).whole count (.dis type)).length = count := by
    simp [memoryPlan_whole]
  have hcsv : ∀ count, ((memoryPlan cnt).whole count .csv).length = count * 2 :=
    Plan.length_whole_driver
  rw [hvalues, hvalues, hrows]
  constructor
  · rintro ⟨count, hcount⟩
    rw [hcount, hcount, hcount, hdis, hdis, hcsv]
    exact ⟨rfl, Nat.mul_comm ..⟩
  · rintro ⟨hsame, hdouble⟩
    refine ⟨(Recorder.partOf memoryPart cut (.dis .lat)).length, fun file => ?_⟩
    rcases file with (_ | _) | _
    · exact (hdis _ _).symm
    · exact hsame.symm.trans (hdis _ _).symm
    · rw [hdouble, hcsv, Nat.mul_comm]

theorem cache_right_iff (hcnt : 0 < cnt) {cache : CalibrationCacheType}
    (hpresent : present cache = true)
    (hcompletes : (streamPerfTest present cnt).Completes left final) :
    (final .csv).filter (Line.isRowOf (.cache cache)) = cacheRows cnt cache ↔
      ∀ cut ∈ left, 2 ∣ getDataLines (.cache cache) (cut .csv) := by
  have hnone : ∀ (disks : StreamFile → List Line) type,
      Recorder.partOf (cachePart cache) disks (.dis type) = [] :=
    fun disks type => List.filter_eq_nil_iff.mpr fun _ _ => Bool.false_ne_true
  have hfinal : (final .csv).filter (Line.isRowOf (.cache cache)) = cacheRows cnt cache ↔
      Recorder.partOf (cachePart cache) final = (cachePlan cnt cache).whole cnt := by
    obtain ⟨hdis, hcsv⟩ := cachePlan_whole cnt cnt cache
    rw [funext_iff]
    constructor
    · intro hrows file
      cases file with
      | dis type => rw [hdis, hnone]
      | csv =>
          rw [hcsv]
          exact hrows
    · exact fun hall => (hall .csv).trans hcsv
  rw [hfinal]
  refine (hcompletes.part_iff (cache_plans hcnt hpresent)).trans (forall₂_congr fun cut hcut => ?_)
  have hrows : getDataLines (.cache cache) (cut .csv) =
      (Recorder.partOf (cachePart cache) cut .csv).length :=
    List.countP_eq_length_filter
  have hcsv : ∀ count, ((cachePlan cnt cache).whole count .csv).length = count * 2 :=
    Plan.length_whole_driver
  rw [hrows]
  constructor
  · rintro ⟨count, hcount⟩
    rw [hcount, hcsv]
    exact ⟨count, Nat.mul_comm ..⟩
  · rintro ⟨count, hcount⟩
    refine ⟨count, fun file => ?_⟩
    cases file with
    | dis type => rw [hnone, (cachePlan_whole cnt count cache).1]
    | csv => rw [hcount, hcsv, Nat.mul_comm]

theorem stream_right_iff (hcnt : 0 < cnt)
    (hcompletes : (streamPerfTest present cnt).Completes left final) :
    StreamRight present cnt final ↔ ∀ cut ∈ left, StreamAligned present cnt cut := by
  have hmemory := memory_right_iff hcnt hcompletes
  have hcaches := fun cache (hpresent : present cache = true) =>
    cache_right_iff hcnt hpresent hcompletes
  constructor
  · rintro ⟨hdis, hrows, hcache⟩ cut hcut
    obtain ⟨hsame, hdouble⟩ := hmemory.mp ⟨hdis, hrows⟩ cut hcut
    exact ⟨hsame, hdouble, fun cache hpresent =>
      (hcaches cache hpresent).mp (hcache cache hpresent) cut hcut⟩
  · intro haligned
    obtain ⟨hdis, hrows⟩ := hmemory.mpr fun cut hcut =>
      ⟨(haligned cut hcut).1, (haligned cut hcut).2.1⟩
    exact ⟨hdis, hrows, fun cache hpresent =>
      (hcaches cache hpresent).mpr fun cut hcut => (haligned cut hcut).2.2 cache hpresent⟩

end

/-! ## Interrupted calibrations -/

/-- What is completed after interruptions and continued tests is right iff every
interruption came between two records. -/
theorem calibration_right_iff_aligned {cnt : ℕ} (hcnt : 0 < cnt) :
    (∀ cache left final, (waycaPerfTest cache cnt).Completes left final →
      ((∀ type, final type = disFile (waycaName cache type) "core" cnt type) ↔
        ∀ cut ∈ left, valueCount cnt (cut .lat) = valueCount cnt (cut .band))) ∧
      ∀ present left final, (streamPerfTest present cnt).Completes left final →
        (StreamRight present cnt final ↔ ∀ cut ∈ left, StreamAligned present cnt cut) :=
  ⟨fun _ _ _ => wayca_right_iff hcnt, fun _ _ _ => stream_right_iff hcnt⟩

/-- The files of two objects are right without an interruption, and with one that
comes when both files have the first record. -/
theorem calibration_right_uninterrupted :
    (∃ final, (waycaPerfTest .L1DCACHE 2).Completes [] final ∧
      ∀ type, final type = disFile (waycaName .L1DCACHE type) "core" 2 type) ∧
      (∃ cut final, (waycaPerfTest .L1DCACHE 2).Completes [cut] final ∧
        valueCount 2 (cut .lat) = 1 ∧ valueCount 2 (cut .band) = 1 ∧
        ∀ type, final type = disFile (waycaName .L1DCACHE type) "core" 2 type) ∧
      ∃ final, (streamPerfTest (fun _ => true) 2).Completes [] final ∧
        StreamRight (fun _ => true) 2 final := by
  obtain ⟨hwayca, hstream⟩ := calibration_right_iff_aligned Nat.two_pos
  have hfresh := @Recorder.History.fresh _ _ _ (waycaPerfTest .L1DCACHE 2)
  have hnew := @Recorder.History.fresh _ _ _ (streamPerfTest (fun _ => true) 2)
  obtain ⟨final, hfinal⟩ := hfresh.exists_completes
  obtain ⟨last, hlast⟩ := hnew.exists_completes
  have hcontinued := Recorder.completes_after (waycaPerfTest .L1DCACHE 2)
    (List.replicate 15 .proceed) (List.replicate 20 .proceed) rfl
  refine ⟨⟨final, hfinal, (hwayca _ _ _ hfinal).mpr (List.forall_mem_nil _)⟩,
    ⟨_, _, hcontinued, rfl, rfl, (hwayca _ _ _ hcontinued).mpr ?_⟩,
    last, hlast, (hstream _ _ _ hlast).mpr (List.forall_mem_nil _)⟩
  intro cut hcut
  rw [List.mem_singleton.mp hcut]
  rfl

/-- One object, and an interruption after the latency file is flushed and before
the bandwidth file is: when the test is continued, the latency is measured and
written a second time. -/
theorem calibration_repeats_latency :
    (∃ cut final, (waycaPerfTest .L1DCACHE 1).Completes [cut] final ∧
      valueCount 1 (cut .lat) = 1 ∧ valueCount 1 (cut .band) = 0 ∧
      valueCount 1 (final .lat) = 2 ∧
      final .lat ≠ disFile (waycaName .L1DCACHE .lat) "core" 1 .lat) ∧
      ∃ cut final, (streamPerfTest (fun _ => false) 1).Completes [cut] final ∧
        valueCount 1 (cut (.dis .lat)) = 1 ∧ valueCount 1 (cut (.dis .band)) = 0 ∧
        valueCount 1 (final (.dis .lat)) = 2 ∧ ¬ StreamRight (fun _ => false) 1 final := by
  have htwice : ∀ {name scopeName : String} {disk : List Line}, valueCount 1 disk = 2 →
      disk ≠ disFile name scopeName 1 .lat := by
    rintro name scopeName disk hvalues rfl
    simp [valueCount, disFile] at hvalues
  refine ⟨⟨_, _, Recorder.completes_after _ (List.replicate 7 .proceed)
    (List.replicate 12 .proceed) rfl, rfl, rfl, rfl, htwice rfl⟩, _, _,
    Recorder.completes_after _ (List.replicate 7 .proceed) (List.replicate 17 .proceed) rfl,
    rfl, rfl, rfl, ?_⟩
  exact fun hright => htwice rfl (hright.1 .lat)

end WaycaScheduler
