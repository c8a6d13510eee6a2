import WaycaScheduler.Library.ResumableLog
import WaycaScheduler.Library.Transition

/-!
# Files that are written through a buffer

A line is first put in the buffer of its file and gets to the disk when the file
is flushed.  A file begins with a heading, which is rewritten from the start of
the file as long as it is not complete, and goes on with data, which are only
appended.  Heading lines may get to the disk before a flush.  A run that stops
leaves what is on the disks, and the next run starts from there.
-/

namespace BufferedFiles

open Transition ResumableLog

variable {ι β : Type*} [DecidableEq ι]

/-! ## Files and runs -/

structure File (β : Type*) where
  disk : List β
  pos : ℕ
  buffer : List β

def File.sync (file : File β) (line : β) (buffer : List β) : File β :=
  { disk := file.disk.take file.pos ++ line :: file.disk.drop (file.pos + 1)
    pos := file.pos + 1
    buffer := buffer }

def File.write (file : File β) (line : β) : File β :=
  { file with buffer := file.buffer ++ [line] }

inductive Op (ι β : Type*) where
  | write (file : ι) (line : β)
  | flush (file : ι)

inductive Event (ι : Type*) where
  | proceed
  | spill (file : ι)

structure Run (ι β : Type*) where
  files : ι → File β
  todo : List (Op ι β)

namespace Run

def disks (run : Run ι β) : ι → List β :=
  fun file => (run.files file).disk

def syncs (run : Run ι β) (file : ι) (line : β) (buffer : List β) : Run ι β :=
  { run with files := Function.update run.files file ((run.files file).sync line buffer) }

/-- The next operation, a flush line by line, or a heading line that gets to the
disk on its own. -/
def step (isData : β → Bool) (run : Run ι β) : Event ι → Option (Run ι β × Unit)
  | .proceed =>
      match run.todo with
      | [] => none
      | .write file line :: rest =>
          some ({ files := Function.update run.files file ((run.files file).write line)
                  todo := rest }, ())
      | .flush file :: rest =>
          match (run.files file).buffer with
          | [] => some ({ run with todo := rest }, ())
          | line :: buffer => some (run.syncs file line buffer, ())
  | .spill file =>
      match (run.files file).buffer with
      | [] => none
      | line :: buffer => if isData line then none else some (run.syncs file line buffer, ())

def Reaches (isData : β → Bool) : Run ι β → Run ι β → Prop :=
  ReachableVia (step isData) fun _ _ => True

def after (isData : β → Bool) (run : Run ι β) : List (Event ι) → Run ι β
  | [] => run
  | event :: rest =>
      match run.step isData event with
      | none => run
      | some (next, _) => next.after isData rest

theorem Reaches.after {isData : β → Bool} {start run : Run ι β} (hreach : Reaches isData start run)
    (events : List (Event ι)) : Reaches isData start (run.after isData events) := by
  induction events generalizing run with
  | nil => exact hreach
  | cons event rest ih =>
      rw [Run.after]
      split
      next => exact hreach
      next next result hstep => exact ih (hreach.step trivial hstep)

inductive Moves (isData : β → Bool) (run : Run ι β) : Run ι β → Prop
  | write {file : ι} {line : β} {rest : List (Op ι β)}
      (htodo : run.todo = .write file line :: rest) : Moves isData run
        { files := Function.update run.files file ((run.files file).write line), todo := rest }
  | flushed {file : ι} {rest : List (Op ι β)} (htodo : run.todo = .flush file :: rest)
      (hbuffer : (run.files file).buffer = []) : Moves isData run { run with todo := rest }
  | sync {file : ι} {line : β} {buffer : List β} {rest : List (Op ι β)}
      (htodo : run.todo = .flush file :: rest)
      (hbuffer : (run.files file).buffer = line :: buffer) :
      Moves isData run (run.syncs file line buffer)
  | spill {file : ι} {line : β} {buffer : List β}
      (hbuffer : (run.files file).buffer = line :: buffer)
      (hline : isData line = false) : Moves isData run (run.syncs file line buffer)

theorem moves_of_step {isData : β → Bool} {run after : Run ι β} {event : Event ι} {result : Unit}
    (hstep : run.step isData event = some (after, result)) : Moves isData run after := by
  cases event with
  | proceed =>
      cases htodo : run.todo with
      | nil => simp [step, htodo] at hstep
      | cons op rest =>
          cases op with
          | write file line =>
              simp only [step, htodo, Option.some.injEq, Prod.mk.injEq] at hstep
              exact hstep.1 ▸ .write htodo
          | flush file =>
              cases hbuffer : (run.files file).buffer with
              | nil =>
                  simp only [step, htodo, hbuffer, Option.some.injEq, Prod.mk.injEq] at hstep
                  exact hstep.1 ▸ .flushed htodo hbuffer
              | cons line buffer =>
                  simp only [step, htodo, hbuffer, Option.some.injEq, Prod.mk.injEq] at hstep
                  exact hstep.1 ▸ .sync htodo hbuffer
  | spill file =>
      cases hbuffer : (run.files file).buffer with
      | nil => simp [step, hbuffer] at hstep
      | cons line buffer =>
          simp only [step, hbuffer] at hstep
          split at hstep
          next => cases hstep
          next hline =>
            simp only [Option.some.injEq, Prod.mk.injEq] at hstep
            exact hstep.1 ▸ .spill hbuffer (Bool.not_eq_true _ ▸ hline)

end Run

/-! ## The layout of a file -/

section Layout

variable {isData : β → Bool} {heading disk : List β} {file : File β} {line : β}
  {buffer : List β}

/-- A heading that is being rewritten, with more of it on the disk perhaps, or
a complete one that data follow. -/
inductive Layout (isData : β → Bool) (heading : List β) : File β → Prop
  | begun {before after values : List β} (reached : ℕ) (hheading : heading = before ++ after)
      (hafter : after ≠ []) (hvalues : ∀ line ∈ values, isData line = true) :
      Layout isData heading ⟨before ++ after.take reached, before.length, after ++ values⟩
  | headed {values buffer : List β} (hvalues : ∀ line ∈ values, isData line = true)
      (hbuffer : ∀ line ∈ buffer, isData line = true) :
      Layout isData heading ⟨heading ++ values, (heading ++ values).length, buffer⟩

/-- A part of the heading, or the heading with values behind it. -/
def Laid (isData : β → Bool) (heading disk : List β) : Prop :=
  (∃ reached, disk = heading.take reached) ∨
    ∃ values, (∀ line ∈ values, isData line = true) ∧ disk = heading ++ values

theorem Layout.laid (hlayout : Layout isData heading file) : Laid isData heading file.disk := by
  cases hlayout with
  | @begun before after values reached hheading hafter hvalues =>
      refine .inl ⟨before.length + reached, ?_⟩
      rw [hheading, List.take_length_add_append]
  | headed hvalues hbuffer => exact .inr ⟨_, hvalues, rfl⟩

theorem Layout.write (hlayout : Layout isData heading file) (hline : isData line = true) :
    Layout isData heading (file.write line) := by
  have hsingle : ∀ other ∈ [line], isData other = true := by simpa using hline
  cases hlayout with
  | begun reached hheading hafter hvalues =>
      rw [File.write, List.append_assoc]
      exact .begun reached hheading hafter (List.forall_mem_append.mpr ⟨hvalues, hsingle⟩)
  | headed hvalues hbuffer =>
      exact .headed hvalues (List.forall_mem_append.mpr ⟨hbuffer, hsingle⟩)

theorem filter_eq_nil_of_heading {lines : List β} (hlines : ∀ line ∈ lines, isData line = false) :
    lines.filter isData = [] :=
  List.filter_eq_nil_iff.mpr fun line hline => by simp [hlines line hline]

theorem Layout.sync
    (hlayout : Layout isData heading file) (hheading : ∀ line ∈ heading, isData line = false)
    (hbuffer : file.buffer = line :: buffer) :
    Layout isData heading (file.sync line buffer) ∧ (file.sync line buffer).disk.filter isData =
        file.disk.filter isData ++ [line].filter isData := by
  cases hlayout with
  | @begun before after values reached hsplit hafter hvalues =>
      obtain ⟨next, rest, rfl⟩ := List.exists_cons_of_ne_nil hafter
      obtain ⟨rfl, rfl⟩ : next = line ∧ rest ++ values = buffer := by simpa using hbuffer
      have hsync : (⟨before ++ (next :: rest).take reached, before.length,
          next :: rest ++ values⟩ : File β).sync next (rest ++ values) =
          ⟨before ++ [next] ++ rest.take (reached - 1), (before ++ [next]).length,
            rest ++ values⟩ := by
        cases reached with
        | zero => simp [File.sync]
        | succ reached => simp [File.sync]
      have hdone : heading = before ++ [next] ++ rest := by simp [hsplit]
      have hlayout : Layout isData heading ⟨before ++ [next] ++ rest.take (reached - 1),
          (before ++ [next]).length, rest ++ values⟩ := by
        cases rest with
        | nil =>
            have hheaded : Layout isData heading
                ⟨heading ++ [], (heading ++ []).length, values⟩ :=
              .headed (List.forall_mem_nil _) hvalues
            simpa [hdone] using hheaded
        | cons other rest => exact .begun (reached - 1) hdone (List.cons_ne_nil _ _) hvalues
      rw [hsync]
      refine ⟨hlayout, ?_⟩
      have hnone : ∀ lines : List β, lines ⊆ heading → lines.filter isData = [] :=
        fun lines hlines => filter_eq_nil_of_heading fun line hline => hheading line (hlines hline)
      rw [hnone, hnone, hnone]
      · rfl
      · simp [hsplit]
      · rw [hsplit]
        exact List.append_subset.mpr ⟨List.subset_append_left _ _,
          List.Subset.trans (List.take_subset _ _) (List.subset_append_right _ _)⟩
      · rw [hdone]
        exact List.append_subset.mpr ⟨List.subset_append_left _ _,
          List.Subset.trans (List.take_subset _ _) (List.subset_append_right _ _)⟩
  | @headed values lines hvalues hlines =>
      obtain rfl : lines = line :: buffer := hbuffer
      obtain ⟨hline, hbuffered⟩ := List.forall_mem_cons.mp hlines
      have hsync : (⟨heading ++ values, (heading ++ values).length, line :: buffer⟩ :
          File β).sync line buffer =
          ⟨heading ++ (values ++ [line]), (heading ++ (values ++ [line])).length, buffer⟩ := by
        rw [File.sync, List.take_length, List.drop_of_length_le (Nat.le_succ _)]
        simp [Nat.add_assoc]
      rw [hsync]
      refine ⟨.headed ?_ hbuffered, by simp [hline]⟩
      exact List.forall_mem_append.mpr ⟨hvalues, by simpa using hline⟩

section

variable (hlaid : Laid isData heading disk)

include hlaid

theorem Laid.layout_begun (hshort : disk.length < heading.length) :
    Layout isData heading ⟨disk, 0, heading⟩ := by
  rcases hlaid with ⟨reached, rfl⟩ | ⟨values, -, rfl⟩
  · have hne : heading ≠ [] := by
      rintro rfl
      simp at hshort
    have hbegun : Layout isData heading
        ⟨[] ++ heading.take reached, ([] : List β).length, heading ++ []⟩ :=
      .begun reached rfl hne (List.forall_mem_nil _)
    simpa using hbegun
  · rw [List.length_append] at hshort
    omega

theorem Laid.layout_headed (hlong : heading.length ≤ disk.length) :
    Layout isData heading ⟨disk, disk.length, []⟩ := by
  rcases hlaid with ⟨reached, rfl⟩ | ⟨values, hvalues, rfl⟩
  · rw [List.length_take] at hlong
    have hheaded : Layout isData heading ⟨heading ++ [], (heading ++ []).length, []⟩ :=
      .headed (List.forall_mem_nil _) (List.forall_mem_nil _)
    rw [List.take_of_length_le (by omega)]
    simpa using hheaded
  · exact .headed hvalues (List.forall_mem_nil _)

theorem Laid.filter_eq (hheading : ∀ line ∈ heading, isData line = false) :
    disk.length - heading.length = (disk.filter isData).length ∧
      (disk.filter isData ≠ [] → disk = heading ++ disk.filter isData) := by
  rcases hlaid with ⟨reached, rfl⟩ | ⟨values, hvalues, rfl⟩
  · have hnone : (heading.take reached).filter isData = [] :=
      filter_eq_nil_of_heading fun line hline => hheading line (List.mem_of_mem_take hline)
    rw [hnone]
    refine ⟨?_, fun hsome => absurd rfl hsome⟩
    rw [List.length_take, List.length_nil]
    omega
  · rw [List.filter_append, filter_eq_nil_of_heading hheading, List.filter_eq_self.mpr hvalues]
    simp

theorem Laid.eq_append_iff {values : List β} (hheading : ∀ line ∈ heading, isData line = false)
    (hvalues : ∀ line ∈ values, isData line = true) (hsome : values ≠ []) :
    disk = heading ++ values ↔ disk.filter isData = values := by
  constructor
  · rintro rfl
    rw [List.filter_append, filter_eq_nil_of_heading hheading, List.filter_eq_self.mpr hvalues,
      List.nil_append]
  · rintro rfl
    exact (hlaid.filter_eq hheading).2 hsome

end

end Layout

/-! ## What is still to get to the disk -/

/-- The lines that the flushes to come bring to the disk, in their order. -/
def pending (buffers : ι → List β) : List (Op ι β) → List (ι × β)
  | [] => []
  | .write file line :: rest =>
      pending (Function.update buffers file (buffers file ++ [line])) rest
  | .flush file :: rest =>
      (buffers file).map (Prod.mk file) ++ pending (Function.update buffers file []) rest

theorem pending_flatMap {α : Type*} {script : α → List (Op ι β)} {entries : α → List (ι × β)}
    (hscript : ∀ item rest, pending (fun _ => []) (script item ++ rest) =
      entries item ++ pending (fun _ => []) rest)
    (items : List α) (rest : List (Op ι β)) :
    pending (fun _ => []) (items.flatMap script ++ rest) =
      items.flatMap entries ++ pending (fun _ => []) rest := by
  induction items with
  | nil => rfl
  | cons item items ih =>
      rw [List.flatMap_cons, List.flatMap_cons, List.append_assoc, hscript, ih, List.append_assoc]

def Op.IsData (isData : β → Bool) : Op ι β → Prop
  | .write _ line => isData line = true
  | .flush _ => True

section

variable (isData : β → Bool) (headings : ι → List β)

def onDisk (files : ι → File β) : ι → List β :=
  fun file => (files file).disk.filter isData

def inBuffer (files : ι → File β) : ι → List β :=
  fun file => (files file).buffer.filter isData

/-- The data that the buffers and the operations to come hold. -/
def Run.awaited (run : Run ι β) : List (ι × β) :=
  pending (inBuffer isData run.files) run.todo

/-- The files are laid out well, and the operations to come write data. -/
structure Run.Sound (run : Run ι β) : Prop where
  layout : ∀ file, Layout isData (headings file) (run.files file)
  todo : ∀ op ∈ run.todo, op.IsData isData

theorem onDisk_update (files : ι → File β) (file : ι) (new : File β) :
    onDisk isData (Function.update files file new) =
      Function.update (onDisk isData files) file (new.disk.filter isData) :=
  Function.comp_update (fun file : File β => file.disk.filter isData) files file new

theorem inBuffer_update (files : ι → File β) (file : ι) (new : File β) :
    inBuffer isData (Function.update files file new) =
      Function.update (inBuffer isData files) file (new.buffer.filter isData) :=
  Function.comp_update (fun file : File β => file.buffer.filter isData) files file new

end

theorem update_append (files : ι → List β) (file : ι) (lines : List β) :
    Function.update files file (files file ++ lines) = extend files (lines.map (Prod.mk file)) := by
  funext other
  have honly : ∀ lines : List β, onChannel other (lines.map (Prod.mk file)) =
      if file = other then lines else [] := by
    intro lines
    by_cases hother : file = other <;> simp [onChannel, List.filter_map, Function.comp_def, hother]
  rw [extend, honly]
  by_cases hother : file = other
  · rw [if_pos hother, ← hother, Function.update_self]
  · rw [if_neg hother, List.append_nil, Function.update_of_ne (Ne.symm hother)]

theorem layout_update {isData : β → Bool} {headings : ι → List β} {files : ι → File β} {file : ι}
    {new : File β} (hlayout : ∀ file, Layout isData (headings file) (files file))
    (hnew : Layout isData (headings file) new) (other : ι) :
    Layout isData (headings other) (Function.update files file new other) := by
  by_cases hother : other = file
  · rw [hother, Function.update_self]
    exact hnew
  · rw [Function.update_of_ne hother]
    exact hlayout other

namespace Run

variable {isData : β → Bool} {headings : ι → List β} {run after : Run ι β} {file : ι} {line : β}
  {buffer : List β}

theorem Sound.syncs (hsound : run.Sound isData headings)
    (hheadings : ∀ file, ∀ line ∈ headings file, isData line = false)
    (hbuffer : (run.files file).buffer = line :: buffer) :
    (run.syncs file line buffer).Sound isData headings ∧
      onDisk isData (run.syncs file line buffer).files =
        extend (onDisk isData run.files) (([line].filter isData).map (Prod.mk file)) := by
  obtain ⟨hlayout, hdisk⟩ := (hsound.layout file).sync (hheadings file) hbuffer
  refine ⟨⟨layout_update hsound.layout hlayout, hsound.todo⟩, ?_⟩
  rw [Run.syncs, onDisk_update, hdisk]
  exact update_append (onDisk isData run.files) file _

/-- Every step keeps the files well laid out and brings the next of the data to
the disks, or none. -/
theorem Moves.follows (hmoves : Moves isData run after) (hsound : run.Sound isData headings)
    (hheadings : ∀ file, ∀ line ∈ headings file, isData line = false) :
    after.Sound isData headings ∧ ∃ entries, run.awaited isData = entries ++ after.awaited isData ∧
        onDisk isData after.files = extend (onDisk isData run.files) entries := by
  cases hmoves with
  | @write file line rest htodo =>
      obtain ⟨hline, hrest⟩ := List.forall_mem_cons.mp (htodo ▸ hsound.todo)
      have hdata : isData line = true := hline
      refine ⟨⟨layout_update hsound.layout ((hsound.layout file).write hline), hrest⟩, [], ?_, ?_⟩
      · rw [awaited, htodo, pending, awaited, inBuffer_update]
        simp [File.write, inBuffer, hdata]
      · rw [onDisk_update, extend_nil]
        exact Function.update_eq_self file (onDisk isData run.files)
  | @flushed file rest htodo hbuffer =>
      have hrest := (List.forall_mem_cons.mp (htodo ▸ hsound.todo)).2
      have hnone : inBuffer isData run.files file = [] := by simp [inBuffer, hbuffer]
      refine ⟨⟨hsound.layout, hrest⟩, [], ?_, (extend_nil _).symm⟩
      rw [awaited, htodo, pending, ← hnone, Function.update_eq_self, hnone]
      rfl
  | @sync file line buffer rest htodo hbuffer =>
      obtain ⟨hafter, hdata⟩ := hsound.syncs hheadings hbuffer
      refine ⟨hafter, ([line].filter isData).map (Prod.mk file), ?_, hdata⟩
      have hheld : inBuffer isData run.files file =
          [line].filter isData ++ buffer.filter isData := by
        rw [← List.filter_append, inBuffer, hbuffer]
        rfl
      have htodo' : (run.syncs file line buffer).todo = .flush file :: rest := htodo
      rw [awaited, htodo, pending, hheld, awaited, htodo', pending, Run.syncs, inBuffer_update]
      simp [File.sync]
  | @spill file line buffer hbuffer hline =>
      obtain ⟨hafter, hdata⟩ := hsound.syncs hheadings hbuffer
      refine ⟨hafter, [], ?_, by simpa [hline] using hdata⟩
      have hheld : buffer.filter isData = inBuffer isData run.files file := by
        simp [inBuffer, hbuffer, hline]
      rw [awaited, awaited, Run.syncs, inBuffer_update, File.sync, hheld, Function.update_eq_self]
      rfl

/-- The disk gains a first part of the data that was awaited. -/
theorem Reaches.follows (hreach : Reaches isData run after) (hsound : run.Sound isData headings)
    (hheadings : ∀ file, ∀ line ∈ headings file, isData line = false) :
    after.Sound isData headings ∧ ∃ entries, run.awaited isData = entries ++ after.awaited isData ∧
        onDisk isData after.files = extend (onDisk isData run.files) entries := by
  refine ReachableVia.keeps hreach (fun later => later.Sound isData headings ∧ ∃ entries,
    run.awaited isData = entries ++ later.awaited isData ∧
      onDisk isData later.files = extend (onDisk isData run.files) entries) ?_ ?_
  · exact ⟨hsound, [], rfl, (extend_nil _).symm⟩
  · rintro before event later result ⟨hbefore, entries, hawaited, hdata⟩ - hstep
    obtain ⟨hlater, more, hmore, hdisk⟩ := (moves_of_step hstep).follows hbefore hheadings
    refine ⟨hlater, entries ++ more, ?_, ?_⟩
    · rw [hawaited, hmore, List.append_assoc]
    · rw [hdisk, hdata, extend_extend]

theorem Reaches.exists_completed {start : Run ι β} (hreach : Reaches isData start run) :
    ∃ final, Reaches isData start final ∧ final.todo = [] := by
  induction htodo : run.todo generalizing run with
  | nil => exact ⟨run, hreach, htodo⟩
  | cons op rest ih =>
      cases op with
      | write file line =>
          have hnext : run.step isData .proceed = some
              ({ files := Function.update run.files file ((run.files file).write line)
                 todo := rest }, ()) := by
            simp only [step, htodo]
          exact ih (hreach.step trivial hnext) rfl
      | flush file =>
          induction hbuffer : (run.files file).buffer generalizing run with
          | nil =>
              have hnext : run.step isData .proceed = some ({ run with todo := rest }, ()) := by
                simp only [step, htodo, hbuffer]
              exact ih (hreach.step trivial hnext) rfl
          | cons line buffer ihbuffer =>
              have hnext : run.step isData .proceed = some (run.syncs file line buffer, ()) := by
                simp only [step, htodo, hbuffer]
              refine ihbuffer (hreach.step trivial hnext) htodo ?_
              simp [syncs, File.sync]

end Run

/-- A program that writes such files: how a session begins with what is on the
disks, the first time and again. -/
structure Recorder (ι β : Type*) [DecidableEq ι] where
  isData : β → Bool
  headings : ι → List β
  start : Bool → (ι → List β) → Run ι β
  heading_not_data : ∀ file, ∀ line ∈ headings file, isData line = false
  disks_start : ∀ again disks, (start again disks).disks = disks
  sound_start : ∀ again disks, (∀ file, Laid isData (headings file) (disks file)) →
    (again = false → disks = fun _ => []) → (start again disks).Sound isData headings

namespace Recorder

variable (writer : Recorder ι β)

/-- What interrupted runs leave on disk, each run starting from the last one. -/
inductive History : (ι → List β) → List (ι → List β) → Prop
  | fresh : History (fun _ => []) []
  | interrupted {disks : ι → List β} {left : List (ι → List β)} {run : Run ι β} :
      History disks left → (writer.start (!left.isEmpty) disks).Reaches writer.isData run →
      History run.disks (left ++ [run.disks])

/-- A run to the end after interrupted ones. -/
def Completes (left : List (ι → List β)) (final : ι → List β) : Prop :=
  ∃ disks run, writer.History disks left ∧
    (writer.start (!left.isEmpty) disks).Reaches writer.isData run ∧ run.todo = [] ∧
    final = run.disks

def partOf (part : ι → β → Bool) (disks : ι → List β) : ι → List β :=
  fun file => (disks file).filter (part file)

/-- The writer writes the part along the plan, from what is on disk on. -/
structure Plans (part : ι → β → Bool) (plan : Plan ι β) : Prop where
  part_data : ∀ file line, part file line = true → writer.isData line = true
  awaited : ∀ again disks, (∀ file, Laid writer.isData (writer.headings file) (disks file)) →
    (again = false → disks = fun _ => []) →
    ((writer.start again disks).awaited writer.isData).filter (fun entry => part entry.1 entry.2) =
      plan.session (partOf part disks)

variable {writer} {part : ι → β → Bool} {plan : Plan ι β} {disks final : ι → List β}
  {left : List (ι → List β)} {run : Run ι β}

theorem filter_onChannel (part : ι → β → Bool) (channel : ι) (entries : List (ι × β)) :
    (onChannel channel entries).filter (part channel) =
      onChannel channel (entries.filter fun entry => part entry.1 entry.2) := by
  rw [onChannel, onChannel, List.filter_map, List.filter_filter, List.filter_filter]
  refine congrArg (List.map Prod.snd) (List.filter_congr fun entry _ => ?_)
  by_cases hchannel : entry.1 = channel <;> simp [hchannel]

theorem partOf_extend (files : ι → List β) (entries : List (ι × β)) :
    partOf part (extend files entries) =
      extend (partOf part files) (entries.filter fun entry => part entry.1 entry.2) := by
  funext file
  simp only [partOf, extend, List.filter_append, filter_onChannel]

theorem partOf_onDisk (hplans : writer.Plans part plan) (run : Run ι β) :
    partOf part (onDisk writer.isData run.files) = partOf part run.disks := by
  funext file
  rw [partOf, onDisk, List.filter_filter]
  refine List.filter_congr fun line _ => ?_
  cases hpart : part file line with
  | false => simp
  | true => simp [hplans.part_data file line hpart]

theorem Plans.reaches (hplans : writer.Plans part plan) {again : Bool}
    (hlaid : ∀ file, Laid writer.isData (writer.headings file) (disks file))
    (hagain : again = false → disks = fun _ => [])
    (hreach : (writer.start again disks).Reaches writer.isData run) :
    ∃ written, partOf part run.disks =
        extend (partOf part disks) ((plan.session (partOf part disks)).take written) ∧
      (run.todo = [] → partOf part run.disks =
        extend (partOf part disks) (plan.session (partOf part disks))) := by
  obtain ⟨-, entries, hawaited, hdata⟩ :=
    hreach.follows (writer.sound_start again disks hlaid hagain) writer.heading_not_data
  have hpart := congrArg (partOf part) hdata
  rw [partOf_extend, partOf_onDisk hplans, partOf_onDisk hplans, writer.disks_start] at hpart
  have hsession := hplans.awaited again disks hlaid hagain
  rw [hawaited, List.filter_append] at hsession
  refine ⟨(entries.filter fun entry => part entry.1 entry.2).length, ?_, fun htodo => ?_⟩
  · rw [hpart, ← hsession, List.take_left]
  · rw [hpart, ← hsession, Run.awaited, htodo, pending, List.filter_nil, List.append_nil]

theorem laid_of_reaches {again : Bool}
    (hlaid : ∀ file, Laid writer.isData (writer.headings file) (disks file))
    (hagain : again = false → disks = fun _ => [])
    (hreach : (writer.start again disks).Reaches writer.isData run) (file : ι) :
    Laid writer.isData (writer.headings file) (run.disks file) :=
  ((hreach.follows (writer.sound_start again disks hlaid hagain)
    writer.heading_not_data).1.layout file).laid

theorem History.laid (hhistory : writer.History disks left) :
    (∀ file, Laid writer.isData (writer.headings file) (disks file)) ∧
      ((!left.isEmpty) = false → disks = fun _ => []) := by
  induction hhistory with
  | fresh => exact ⟨fun _ => .inl ⟨0, rfl⟩, fun _ => rfl⟩
  | interrupted _ hreach ih =>
      exact ⟨laid_of_reaches ih.1 ih.2 hreach, fun hfirst => by simp at hfirst⟩

theorem History.planned (hhistory : writer.History disks left) (hplans : writer.Plans part plan) :
    plan.History (partOf part disks) (left.map (partOf part)) := by
  induction hhistory with
  | fresh => exact .fresh
  | @interrupted disks left run hbefore hreach ih =>
      obtain ⟨hlaid, hagain⟩ := hbefore.laid
      obtain ⟨written, hcut, -⟩ := hplans.reaches hlaid hagain hreach
      rw [List.map_append, List.map_singleton, hcut]
      exact ih.cutOff written

/-- The part is right at the end exactly if no cut left it inside a record. -/
theorem Completes.part_iff
    (hcompletes : writer.Completes left final) (hplans : writer.Plans part plan) :
    partOf part final = plan.whole plan.size ↔ ∀ cut ∈ left, plan.Aligned (partOf part cut) := by
  obtain ⟨disks, run, hhistory, hreach, htodo, rfl⟩ := hcompletes
  obtain ⟨hlaid, hagain⟩ := hhistory.laid
  obtain ⟨-, -, hall⟩ := hplans.reaches hlaid hagain hreach
  rw [hall htodo, (hhistory.planned hplans).completes_iff, List.forall_mem_map]

theorem History.exists_completes
    (hhistory : writer.History disks left) : ∃ final, writer.Completes left final := by
  obtain ⟨run, hreach, htodo⟩ := Run.Reaches.exists_completed
    (ReachableVia.start : (writer.start (!left.isEmpty) disks).Reaches writer.isData _)
  exact ⟨run.disks, disks, run, hhistory, hreach, htodo, rfl⟩

theorem completes_after (writer : Recorder ι β) (first second : List (Event ι))
    (htodo : ((writer.start true ((writer.start false fun _ => []).after writer.isData
      first).disks).after writer.isData second).todo = []) :
    writer.Completes [((writer.start false fun _ => []).after writer.isData first).disks]
      ((writer.start true ((writer.start false fun _ => []).after writer.isData
        first).disks).after writer.isData second).disks := by
  have hfirst : writer.History _ ([] ++ _) :=
    .interrupted .fresh (Run.Reaches.after ReachableVia.start first)
  exact ⟨_, _, hfirst, Run.Reaches.after ReachableVia.start second, htodo, rfl⟩

theorem History.laid_left (hhistory : writer.History disks left) (file : ι) :
    ∀ cut ∈ left, Laid writer.isData (writer.headings file) (cut file) := by
  induction hhistory with
  | fresh => exact List.forall_mem_nil _
  | interrupted hbefore hreach ih =>
      obtain ⟨hlaid, hagain⟩ := hbefore.laid
      refine List.forall_mem_append.mpr ⟨ih, ?_⟩
      rintro cut hcut
      rw [List.mem_singleton.mp hcut]
      exact laid_of_reaches hlaid hagain hreach file

theorem Completes.laid (hcompletes : writer.Completes left final) (file : ι) :
    Laid writer.isData (writer.headings file) (final file) ∧
      ∀ cut ∈ left, Laid writer.isData (writer.headings file) (cut file) := by
  obtain ⟨disks, run, hhistory, hreach, -, rfl⟩ := hcompletes
  obtain ⟨hlaid, hagain⟩ := hhistory.laid
  exact ⟨laid_of_reaches hlaid hagain hreach file, hhistory.laid_left file⟩

end Recorder

end BufferedFiles
