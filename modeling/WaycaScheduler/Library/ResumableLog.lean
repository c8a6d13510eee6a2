import Mathlib.Data.List.Nodup
import Mathlib.Tactic

/-!
# Logs that are resumed where one channel ends

Records are written one after the other, each as a few entries on channels that
only grow.  A session counts what one channel, the driver, holds, goes on with
the record that count points at, and may be cut off after any entry.  The driver
gets the last entry of a record.
-/

namespace ResumableLog

variable {ι β : Type*} [DecidableEq ι]

/-! ## Entries and channels -/

def onChannel (channel : ι) (entries : List (ι × β)) : List β :=
  (entries.filter fun entry => entry.1 = channel).map Prod.snd

def extend (files : ι → List β) (entries : List (ι × β)) : ι → List β :=
  fun channel => files channel ++ onChannel channel entries

@[simp] theorem onChannel_nil (channel : ι) :
    onChannel channel ([] : List (ι × β)) = [] :=
  rfl

@[simp] theorem onChannel_append (channel : ι) (entries more : List (ι × β)) :
    onChannel channel (entries ++ more) = onChannel channel entries ++ onChannel channel more := by
  simp [onChannel]

@[simp] theorem onChannel_cons_self (channel : ι) (content : β) (entries : List (ι × β)) :
    onChannel channel ((channel, content) :: entries) = content :: onChannel channel entries := by
  simp [onChannel]

@[simp] theorem extend_nil (files : ι → List β) : extend files [] = files := by
  funext channel
  simp [extend]

@[simp] theorem extend_extend (files : ι → List β) (entries more : List (ι × β)) :
    extend (extend files entries) more = extend files (entries ++ more) := by
  funext channel
  simp [extend]

theorem nodup_onChannel {entries : List (ι × β)} (hnodup : entries.Nodup) (channel : ι) :
    (onChannel channel entries).Nodup := by
  refine List.Nodup.map_on ?_ (hnodup.filter _)
  intro entry hentry other hother hcontent
  have hchannel := of_decide_eq_true (List.mem_filter.mp hentry).2
  have hsame := of_decide_eq_true (List.mem_filter.mp hother).2
  exact Prod.ext (hchannel.trans hsame.symm) hcontent

omit [DecidableEq ι] in
theorem nodup_flatMap_range {record : ℕ → List (ι × β)} (number : ι × β → ℕ)
    (hnodup : ∀ index, (record index).Nodup)
    (hnumber : ∀ index, ∀ entry ∈ record index, number entry = index) (size : ℕ) :
    ((List.range size).flatMap record).Nodup := by
  refine List.nodup_flatMap.mpr ⟨fun index _ => hnodup index, ?_⟩
  refine List.nodup_range.imp ?_
  intro index other hne entry hentry hother
  exact hne ((hnumber index entry hentry).symm.trans (hnumber other entry hother))

/-! ## Plans and sessions -/

/-- Records that are written to several files, and the file that counts them. -/
structure Plan (ι β : Type*) [DecidableEq ι] where
  record : ℕ → List (ι × β)
  size : ℕ
  driver : ι
  perRecord : ℕ
  perRecord_pos : 0 < perRecord
  length_driver : ∀ index, (onChannel driver (record index)).length = perRecord
  driver_last : ∀ index, ∃ before content, record index = before ++ [(driver, content)]
  nodup : ((List.range size).flatMap record).Nodup

namespace Plan

variable (plan : Plan ι β)

def entries (first count : ℕ) : List (ι × β) :=
  (List.range' first count).flatMap plan.record

def whole (count : ℕ) : ι → List β :=
  extend (fun _ => []) (plan.entries 0 count)

def resume (files : ι → List β) : ℕ :=
  (files plan.driver).length / plan.perRecord

def session (files : ι → List β) : List (ι × β) :=
  plan.entries (plan.resume files) (plan.size - plan.resume files)

/-- Sessions that were cut off one after the other, with the channels each of
them left. -/
inductive History : (ι → List β) → List (ι → List β) → Prop
  | fresh : History (fun _ => []) []
  | cutOff {files : ι → List β} {left : List (ι → List β)} (written : ℕ) :
      History files left →
      History (extend files ((plan.session files).take written))
        (left ++ [extend files ((plan.session files).take written)])

/-- The channels hold as much as a number of whole records puts on them. -/
def Aligned (files : ι → List β) : Prop :=
  ∃ count, ∀ channel, (files channel).length = (plan.whole count channel).length

def CutInside (files : ι → List β) : Prop :=
  ∃ index entry before after, index < plan.size ∧ after ≠ [] ∧
    plan.record index = entry :: before ++ after ∧
    files = extend (plan.whole index) (entry :: before)

/-- Something was written that is not wanted where it stands. -/
def Spoilt (files : ι → List β) : Prop :=
  ∃ channel, ¬ files channel <+: plan.whole plan.size channel

variable {plan} {files : ι → List β} {left : List (ι → List β)}

theorem entries_add (first count more : ℕ) :
    plan.entries first (count + more) =
      plan.entries first count ++ plan.entries (first + count) more := by
  rw [entries, ← List.range'_append_1, List.flatMap_append]
  rfl

theorem entries_succ (first count : ℕ) :
    plan.entries first (count + 1) = plan.record first ++ plan.entries (first + 1) count := by
  simp [entries, List.range'_succ]

theorem extend_whole (index count : ℕ) :
    extend (plan.whole index) (plan.entries index count) = plan.whole (index + count) := by
  rw [whole, whole, extend_extend, entries_add, Nat.zero_add]

theorem whole_eq_flatMap (count : ℕ) (channel : ι) :
    plan.whole count channel =
      (List.range count).flatMap fun index => onChannel channel (plan.record index) := by
  have hchannel : ∀ indices : List ℕ, onChannel channel (indices.flatMap plan.record) =
      indices.flatMap fun index => onChannel channel (plan.record index) := by
    intro indices
    induction indices with
    | nil => rfl
    | cons index indices ih =>
        rw [List.flatMap_cons, List.flatMap_cons, onChannel_append, ih]
  rw [List.range_eq_range', ← hchannel]
  rfl

theorem length_whole {channel : ι} {each : ℕ}
    (heach : ∀ index, (onChannel channel (plan.record index)).length = each) (count : ℕ) :
    (plan.whole count channel).length = count * each := by
  simp [whole_eq_flatMap, List.length_flatMap, heach]

theorem length_whole_driver (count : ℕ) :
    (plan.whole count plan.driver).length = count * plan.perRecord :=
  length_whole plan.length_driver count

theorem length_driver_lt {index : ℕ} {before after : List (ι × β)} (hafter : after ≠ [])
    (hrecord : plan.record index = before ++ after) :
    (onChannel plan.driver before).length < plan.perRecord := by
  obtain ⟨others, content, hlast⟩ := plan.driver_last index
  obtain ⟨rest, entry, rfl⟩ := List.eq_nil_or_concat' after |>.resolve_left hafter
  rw [hrecord, ← List.append_assoc] at hlast
  obtain ⟨-, hentry⟩ := List.append_inj' hlast rfl
  have hdriver : entry = (plan.driver, content) := List.singleton_inj.mp hentry
  rw [← plan.length_driver index, hrecord, hdriver]
  simp

theorem resume_extend_whole (index : ℕ) {before : List (ι × β)}
    (hbefore : (onChannel plan.driver before).length < plan.perRecord) :
    plan.resume (extend (plan.whole index) before) = index := by
  rw [resume, extend, List.length_append, length_whole_driver, Nat.add_comm,
    Nat.add_mul_div_right _ _ plan.perRecord_pos, Nat.div_eq_of_lt hbefore, Nat.zero_add]

theorem resume_whole (index : ℕ) : plan.resume (plan.whole index) = index := by
  have hnone : (onChannel plan.driver ([] : List (ι × β))).length < plan.perRecord :=
    plan.perRecord_pos
  simpa only [extend_nil] using resume_extend_whole index hnone

theorem filter_session {keep : ι × β → Bool} {all : Bool}
    (hrecord : ∀ index, ∀ entry ∈ plan.record index, keep entry = all) (files : ι → List β) :
    (plan.session files).filter keep = if all then plan.session files else [] := by
  have hsession : ∀ entry ∈ plan.session files, keep entry = all := by
    intro entry hentry
    obtain ⟨index, -, hindex⟩ := List.mem_flatMap.mp hentry
    exact hrecord index entry hindex
  cases all with
  | false => exact List.filter_eq_nil_iff.mpr fun entry hentry => by simp [hsession entry hentry]
  | true => exact List.filter_eq_self.mpr hsession

/-! ## What a cut leaves -/

theorem take_entries (plan : Plan ι β) (first count written : ℕ) :
    (∃ done ≤ count, (plan.entries first count).take written = plan.entries first done) ∨
      ∃ done < count, ∃ entry before after, after ≠ [] ∧
        plan.record (first + done) = entry :: before ++ after ∧
        (plan.entries first count).take written = plan.entries first done ++ entry :: before := by
  induction count generalizing first written with
  | zero => exact .inl ⟨0, le_rfl, by simp [entries]⟩
  | succ count ih =>
      rw [entries_succ, List.take_append]
      by_cases hinside : written < (plan.record first).length
      · rw [Nat.sub_eq_zero_of_le hinside.le, List.take_zero, List.append_nil]
        cases htaken : (plan.record first).take written with
        | nil => exact .inl ⟨0, Nat.zero_le _, by simp [entries]⟩
        | cons entry before =>
            refine .inr ⟨0, Nat.succ_pos _, entry, before, (plan.record first).drop written,
              ?_, ?_, by simp [entries]⟩
            · exact List.drop_eq_nil_iff.not.mpr (Nat.not_le.mpr hinside)
            · rw [Nat.add_zero, ← htaken, List.take_append_drop]
      · rw [List.take_of_length_le (Nat.not_lt.mp hinside)]
        rcases ih (first + 1) (written - (plan.record first).length) with
          ⟨done, hdone, htaken⟩ | ⟨done, hdone, entry, before, after, hafter, hrecord, htaken⟩
        · exact .inl ⟨done + 1, Nat.succ_le_succ hdone, by rw [htaken, entries_succ]⟩
        · refine .inr ⟨done + 1, Nat.succ_lt_succ hdone, entry, before, after, hafter, ?_, ?_⟩
          · rw [← hrecord, Nat.add_right_comm, Nat.add_assoc]
          · rw [htaken, entries_succ, List.append_assoc]

theorem cut_of_whole {index : ℕ} (hindex : index ≤ plan.size) (written : ℕ) :
    (∃ count ≤ plan.size, extend (plan.whole index)
        ((plan.session (plan.whole index)).take written) = plan.whole count) ∨
      plan.CutInside (extend (plan.whole index)
        ((plan.session (plan.whole index)).take written)) := by
  rw [session, resume_whole]
  rcases plan.take_entries index (plan.size - index) written with
    ⟨done, hdone, htaken⟩ | ⟨done, hdone, entry, before, after, hafter, hrecord, htaken⟩
  · exact .inl ⟨index + done, by omega, by rw [htaken, extend_whole]⟩
  · exact .inr ⟨index + done, entry, before, after, by omega, hafter, hrecord,
      by rw [htaken, ← extend_extend, extend_whole]⟩

theorem aligned_whole (count : ℕ) : plan.Aligned (plan.whole count) := ⟨count, fun _ => rfl⟩

/-- Inside a record the channels are apart: the driver shows as many whole
records as there are, and the channel of the first entry shows more. -/
theorem CutInside.not_aligned (hcut : plan.CutInside files) : ¬ plan.Aligned files := by
  obtain ⟨index, ⟨channel, content⟩, before, after, -, hafter, hrecord, rfl⟩ := hcut
  rintro ⟨count, hlength⟩
  have hdriver := hlength plan.driver
  have hbefore := length_driver_lt hafter hrecord
  rw [extend, List.length_append, length_whole_driver, length_whole_driver] at hdriver
  have hcount : count = index := by
    have hdiv := congrArg (· / plan.perRecord) hdriver
    simpa [Nat.add_comm _ (onChannel _ _).length, Nat.add_mul_div_right _ _ plan.perRecord_pos,
      Nat.div_eq_of_lt hbefore, Nat.mul_div_cancel _ plan.perRecord_pos] using hdiv.symm
  have hfirst := hlength channel
  rw [hcount, extend, List.length_append, onChannel_cons_self] at hfirst
  simp at hfirst

/-! ## What cannot be undone -/

theorem Spoilt.extend (hspoilt : plan.Spoilt files) (entries : List (ι × β)) :
    plan.Spoilt (extend files entries) := by
  obtain ⟨channel, hchannel⟩ := hspoilt
  exact ⟨channel, fun hlater => hchannel ((List.prefix_append _ _).trans hlater)⟩

theorem CutInside.spoilt (hcut : plan.CutInside files) {written : ℕ} (hwritten : written ≠ 0) :
    plan.Spoilt (ResumableLog.extend files ((plan.session files).take written)) := by
  obtain ⟨index, ⟨channel, content⟩, before, after, hindex, hafter, hrecord, rfl⟩ := hcut
  have hresume := resume_extend_whole index (length_driver_lt hafter hrecord)
  obtain ⟨more, hmore⟩ := Nat.exists_eq_add_of_lt hindex
  obtain ⟨written, rfl⟩ := Nat.exists_eq_succ_of_ne_zero hwritten
  have hsession : plan.session (ResumableLog.extend (plan.whole index)
      ((channel, content) :: before)) =
        (channel, content) :: (before ++ after ++ plan.entries (index + 1) more) := by
    rw [session, hresume, show plan.size - index = more + 1 by omega, entries_succ, hrecord]
    rfl
  refine ⟨channel, fun hprefix => ?_⟩
  have hnodup : (plan.whole plan.size channel).Nodup := by
    have hwhole := nodup_onChannel plan.nodup channel
    rwa [List.range_eq_range'] at hwhole
  have htwice := hprefix.sublist.nodup hnodup
  rw [hsession, List.take_succ_cons, ResumableLog.extend, onChannel_cons_self,
    ResumableLog.extend, onChannel_cons_self] at htwice
  refine List.disjoint_of_nodup_append htwice ?_ (List.mem_cons_self ..)
  exact List.mem_append_right _ (List.mem_cons_self ..)

theorem Spoilt.ne_whole (hspoilt : plan.Spoilt files) : files ≠ plan.whole plan.size := by
  rintro rfl
  obtain ⟨channel, hchannel⟩ := hspoilt
  exact hchannel (List.prefix_refl _)

/-- Either every session ended between two records and the channels hold whole
records, or one did not and the channels are not mended since. -/
theorem History.cases (hhistory : plan.History files left) :
    ((∀ cut ∈ left, plan.Aligned cut) ∧ ∃ count ≤ plan.size, files = plan.whole count) ∨
      (¬ ∀ cut ∈ left, plan.Aligned cut) ∧ (plan.CutInside files ∨ plan.Spoilt files) := by
  induction hhistory with
  | fresh =>
      refine .inl ⟨fun _ hmem => absurd hmem List.not_mem_nil, 0, Nat.zero_le _, ?_⟩
      simp [whole, entries]
  | @cutOff files left written _ ih =>
      rcases ih with ⟨haligned, index, hindex, rfl⟩ | ⟨hapart, hfiles⟩
      · rcases cut_of_whole hindex written with ⟨count, hcount, hcut⟩ | hcut
        · refine .inl ⟨?_, count, hcount, hcut⟩
          intro cut hmem
          rcases List.mem_append.mp hmem with hbefore | hlast
          · exact haligned cut hbefore
          · rw [List.mem_singleton.mp hlast, hcut]
            exact aligned_whole count
        · refine .inr ⟨fun hall => ?_, .inl hcut⟩
          exact hcut.not_aligned (hall _ (List.mem_append_right _ (List.mem_singleton.mpr rfl)))
      · refine .inr ⟨fun hall => hapart fun cut hmem => hall cut (List.mem_append_left _ hmem), ?_⟩
        rcases hfiles with hinside | hspoilt
        · by_cases hwritten : written = 0
          · rw [hwritten, List.take_zero, extend_nil]
            exact .inl hinside
          · exact .inr (hinside.spoilt hwritten)
        · exact .inr (hspoilt.extend _)

/-- A session that is not cut off ends with every record in its place iff each
session before was cut off between two records. -/
theorem History.completes_iff (hhistory : plan.History files left) :
    extend files (plan.session files) = plan.whole plan.size ↔ ∀ cut ∈ left, plan.Aligned cut := by
  rcases hhistory.cases with ⟨haligned, index, hindex, rfl⟩ | ⟨hapart, hfiles⟩
  · refine iff_of_true ?_ haligned
    rw [session, resume_whole, extend_whole, Nat.add_sub_cancel' hindex]
  · refine iff_of_false ?_ hapart
    rcases hfiles with hinside | hspoilt
    · have hall := hinside.spoilt (Nat.succ_ne_zero (plan.session files).length)
      rw [List.take_of_length_le (Nat.le_succ _)] at hall
      exact hall.ne_whole
    · exact (hspoilt.extend _).ne_whole

end Plan

end ResumableLog
