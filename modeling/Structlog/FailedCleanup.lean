import Structlog.FileRing

/-!
# A file that could not be removed

The front of a full queue is taken out before its file is removed, and does not come back if
that fails: the file is then not in the queue any more, and no later rotation removes it.
`Recorded` is what is lost by that, and `Cleans` says which messages keep it.

The condition is the same for both sinks and is about one message, so the equivalence for a
run is that for a step (`recorded_step_iff`) and for the constructors.
-/

namespace Structlog

open Lib

namespace FileRing

/-- The files that have been opened and are there are in the queue. -/
def Recorded (r : FileRing) : Prop :=
  ∀ f ∈ r.opened, r.file.os.pathExists f = true → f ∈ r.queue.toList

/-- A rotation takes a file that has been opened and is there out of the queue, and cannot
remove it. -/
structure Forgets (truncate : Bool) (r : FileRing) : Prop where
  full : r.queue.full = true
  opened : r.queue.front ∈ r.opened
  there : r.file.os.pathExists r.queue.front = true
  once : r.queue.front ∉ r.queue.toList.tail
  fault : r.file.os.faults (FileHelper.openCalls truncate + 1) ≠ none

instance (truncate : Bool) (r : FileRing) : Decidable (r.Forgets truncate) :=
  decidable_of_iff (r.queue.full = true ∧ r.queue.front ∈ r.opened ∧
      r.file.os.pathExists r.queue.front = true ∧ r.queue.front ∉ r.queue.toList.tail ∧
      r.file.os.faults (FileHelper.openCalls truncate + 1) ≠ none)
    ⟨fun ⟨full, opened, there, once, fault⟩ => ⟨full, opened, there, once, fault⟩,
      fun h => ⟨h.full, h.opened, h.there, h.once, h.fault⟩⟩

variable {truncate : Bool} {filename : Bytes} {r : FileRing}

theorem recorded_formatted_iff (h : r.file.os.Clear (FileHelper.openCalls truncate + 1))
    (hname : filename ≠ []) (hwell : r.queue.WellFormed) (hitems : 1 < r.queue.maxItems)
    (hnew : filename ∉ r.opened) (hrecorded : r.Recorded) (formatted : Bytes) :
    (r.handle truncate true (some filename) (.ok formatted)).Recorded ↔
      ¬ r.Forgets truncate := by
  obtain ⟨-, -, hqueue, hopened, -, hexists⟩ := handle_formatted h hname hwell hitems formatted
  rw [Recorded, hqueue, hopened, rotated]
  constructor
  · intro hafter hforgets
    have hne : r.queue.front ≠ filename := fun heq => hnew (heq ▸ hforgets.opened)
    have hthere := (hexists r.queue.front).mpr
      ⟨.inr hforgets.there, fun hremoves => hforgets.fault hremoves.2.2⟩
    have hmem := hafter _ (List.mem_append_left _ hforgets.opened) hthere
    rw [if_pos hforgets.full, List.mem_append, List.mem_singleton] at hmem
    exact hmem.elim hforgets.once hne
  · intro hkeeps f hf hthere
    obtain ⟨hbefore, hremoves⟩ := (hexists f).mp hthere
    by_cases hcurrent : f = filename
    · rw [hcurrent]
      exact List.mem_append_right _ (List.mem_singleton_self _)
    · have hold : f ∈ r.opened := by
        rcases List.mem_append.mp hf with hf | hf
        · exact hf
        · exact absurd (List.mem_singleton.mp hf) hcurrent
      have hpath := hbefore.resolve_left hcurrent
      have hmem := hrecorded f hold hpath
      apply List.mem_append_left
      split_ifs with hfull
      · obtain ⟨rest, hcons, -⟩ := hwell.toList_replace hitems hfull filename
        by_contra hgone
        have hfront : f = r.queue.front := by
          rw [hcons] at hmem hgone
          exact (List.mem_cons.mp hmem).resolve_right hgone
        rw [hfront] at hold hpath hgone
        exact hkeeps ⟨hfull, hold, hpath, hgone, fun hclear => hremoves ⟨hfull, hfront, hclear⟩⟩
      · exact hmem

/-- A file whose message could not be formatted is in the queue only if its name was. -/
theorem recorded_unformatted_iff (h : r.file.os.Clear (FileHelper.openCalls truncate))
    (hname : filename ≠ []) (hrecorded : r.Recorded) (limited : Bool) (thrown : Thrown) :
    (r.handle truncate limited (some filename) (.error thrown)).Recorded ↔
      filename ∈ r.queue.toList := by
  obtain ⟨hqueue, hopened, -, hexists⟩ := handle_unformatted h hname limited thrown
  rw [Recorded, hqueue, hopened]
  constructor
  · intro hafter
    exact hafter filename (List.mem_append_right _ (List.mem_singleton_self _))
      ((hexists filename).mpr (.inl rfl))
  · intro hmem f hf hthere
    rcases List.mem_append.mp hf with hf | hf
    · rcases (hexists f).mp hthere with rfl | hbefore
      · exact hmem
      · exact hrecorded f hf hbefore
    · rw [List.mem_singleton.mp hf]
      exact hmem

theorem recorded_stayed_iff (truncate limited : Bool) (text : Except Thrown Bytes)
    (r : FileRing) : (r.handle truncate limited none text).Recorded ↔ r.Recorded := by
  obtain ⟨hqueue, hopened, -, hexists⟩ := handle_stayed truncate limited text r
  rw [Recorded, Recorded, hqueue, hopened]
  exact forall₂_congr fun f _ => by rw [hexists]

/-- A ring with one file that has been opened, and a new queue of the names that were found. -/
theorem recorded_first_iff (file : FileHelper) {maxFiles : UInt16} {found : List Bytes}
    (hthere : file.os.pathExists filename = true) (hlength : found.length ≤ maxFiles.toNat) :
    let queue : CircularQ Bytes := found.reverse.foldl .pushBack (.new maxFiles.toNat)
    queue.WellFormed ∧ queue.maxItems = maxFiles.toNat + 1 ∧
      (Recorded ⟨file, queue, [filename]⟩ ↔ filename ∈ found) := by
  have hbound := maxFiles.toNat_lt
  rw [← List.length_reverse] at hlength
  obtain ⟨hwell, hitems, hqueue⟩ := CircularQ.toList_filled (by unfold sizeT; omega) hlength
  refine ⟨hwell, hitems, ?_⟩
  rw [Recorded, hqueue]
  constructor
  · intro h
    exact List.mem_reverse.mp (h filename (List.mem_singleton_self _) hthere)
  · intro h f hf _
    rw [List.mem_singleton.mp hf]
    exact List.mem_reverse.mpr h

end FileRing

/-! ## Runs -/

namespace RingSink

variable {σ α : Type*} (sink : RingSink σ α)

/-- No call but that of `remove` fails in a rotation, and that comes to a new name. -/
def OpensNew (s : σ) (a : α) : Prop :=
  sink.rotates s a = true →
    sink.filename s a ≠ [] ∧ sink.filename s a ∉ (sink.ring s).opened ∧
      (sink.ring s).file.os.Clear (FileHelper.openCalls (sink.settings s).1 + 1)

/-- A message that rotates can be formatted and does not leave a file behind that cannot be
removed; or it cannot be formatted, and the name of its file is in the queue already. -/
def Cleans (s : σ) (a : α) : Prop :=
  sink.rotates s a = true →
    if (sink.text a).isOk then ¬ (sink.ring s).Forgets (sink.settings s).1
    else sink.filename s a ∈ (sink.ring s).queue.toList

/-- There is a limit, and the queue has room for as many names. -/
structure Limited (s : σ) : Prop where
  maxFiles : 0 < (sink.settings s).2
  wellFormed : (sink.ring s).queue.WellFormed
  maxItems : (sink.ring s).queue.maxItems = (sink.settings s).2.toNat + 1

variable {sink} {s : σ} {a : α}

theorem Limited.one_lt (h : sink.Limited s) : 1 < (sink.ring s).queue.maxItems := by
  have hpos : 0 < (sink.settings s).2.toNat := h.maxFiles
  rw [h.maxItems]
  omega

theorem Limited.step (h : sink.Limited s)
    (hopens : sink.rotates s a = true → sink.filename s a ≠ [] ∧
      (sink.ring s).file.os.Clear (FileHelper.openCalls (sink.settings s).1 + 1)) :
    sink.Limited (sink.step s a) := by
  obtain ⟨hring, hsettings⟩ := sink.ring_step s a
  have hqueue : (sink.ring (sink.step s a)).queue.WellFormed ∧
      (sink.ring (sink.step s a)).queue.maxItems = (sink.ring s).queue.maxItems := by
    rw [hring, rotation, decide_eq_true h.maxFiles]
    split_ifs with hrotate
    · obtain ⟨hname, hclear⟩ := hopens hrotate
      rcases sink.text a with thrown | formatted
      · obtain ⟨hsame, -⟩ := FileRing.handle_unformatted
          (fun k hk => hclear k (Nat.lt_succ_of_lt hk)) hname true thrown
        rw [hsame]
        exact ⟨h.wellFormed, rfl⟩
      · obtain ⟨hwell, hitems, -⟩ :=
          FileRing.handle_formatted hclear hname h.wellFormed h.one_lt formatted
        exact ⟨hwell, hitems⟩
    · rw [(FileRing.handle_stayed ..).1]
      exact ⟨h.wellFormed, rfl⟩
  exact ⟨hsettings ▸ h.maxFiles, hqueue.1, by rw [hqueue.2, h.maxItems, hsettings]⟩

theorem recorded_step_iff (h : sink.Limited s) (hopens : sink.OpensNew s a)
    (hrecorded : (sink.ring s).Recorded) :
    (sink.ring (sink.step s a)).Recorded ↔ sink.Cleans s a := by
  rw [(sink.ring_step s a).1, rotation, Cleans, decide_eq_true h.maxFiles]
  by_cases hrotate : sink.rotates s a = true
  · obtain ⟨hname, hnew, hclear⟩ := hopens hrotate
    rw [if_pos hrotate, imp_iff_right hrotate]
    rcases sink.text a with thrown | formatted
    · exact FileRing.recorded_unformatted_iff (fun k hk => hclear k (Nat.lt_succ_of_lt hk)) hname
        hrecorded true thrown
    · exact FileRing.recorded_formatted_iff hclear hname h.wellFormed h.one_lt hnew hrecorded
        formatted
  · rw [if_neg hrotate, FileRing.recorded_stayed_iff]
    exact iff_of_true hrecorded fun h => absurd h hrotate

theorem recorded_run_iff (h : sink.Limited s) {inputs : List α}
    (hopens : ∀ p ∈ Runs.trace sink.step s inputs, sink.OpensNew p.1 p.2) :
    ((sink.ring (Runs.run sink.step s inputs)).Recorded ∧
        ∀ p ∈ Runs.trace sink.step s inputs, (sink.ring p.1).Recorded) ↔
      (sink.ring s).Recorded ∧ ∀ p ∈ Runs.trace sink.step s inputs, sink.Cleans p.1 p.2 :=
  Runs.holds_throughout_iff (motive := fun s => (sink.ring s).Recorded)
    (fun _ _ h hopens => Limited.step h fun hrotate => ⟨(hopens hrotate).1, (hopens hrotate).2.2⟩)
    (fun _ _ h hopens hrecorded => recorded_step_iff h hopens hrecorded) h hopens

end RingSink

/-! ## The constructors -/

namespace DailyFileSink

/-- The walk over the files that are there comes by the file for a time. -/
def Finds (s : DailyFileSink) (time now : ℤ) : Prop :=
  s.filenameAt time ∈ s.initFilenames s.maxFiles.toNat now

theorem initFilenames_setQueue (s : DailyFileSink) (q : CircularQ Bytes) (n : ℕ) (now : ℤ) :
    initFilenames { s with filenamesQ := q } n now = s.initFilenames n now := by
  induction n generalizing now with
  | zero => rfl
  | succ n ih =>
      rw [initFilenames, initFilenames, ih]
      rfl

/-- A file that has been opened is there. -/
theorem opened_openFor {time now : ℤ} {s : DailyFileSink} (h : (s.openFor time now).1 = none) :
    (s.openFor time now).2.opened = s.opened ++ [s.filenameAt time] ∧
      (s.openFor time now).2.os.pathExists (s.filenameAt time) = true ∧
      (∀ time', (s.openFor time now).2.filenameAt time' = s.filenameAt time') ∧
      (s.openFor time now).2.maxFiles = s.maxFiles := by
  have hthere : (s.fileHelper.openFile (s.filenameAt time) s.truncate).1 = none →
      (s.fileHelper.openFile (s.filenameAt time) s.truncate).2.os.pathExists
        (s.filenameAt time) = true := FileHelper.pathExists_openFile
  rw [openFor, onFile] at h ⊢
  generalize s.fileHelper.openFile (s.filenameAt time) s.truncate = opened at hthere h ⊢
  rcases opened with ⟨_ | thrown, file⟩
  · exact ⟨rfl, hthere rfl, fun _ => rfl, rfl⟩
  · cases h

theorem recorded_initFilenamesQ_iff {s : DailyFileSink} (hmax : 0 < s.maxFiles) {time : ℤ}
    (hopened : s.opened = [s.filenameAt time])
    (hthere : s.os.pathExists (s.filenameAt time) = true) (now : ℤ) :
    ringSink.Limited (s.initFilenamesQ now) ∧
      ((s.initFilenamesQ now).ring.Recorded ↔ (s.initFilenamesQ now).Finds time now) := by
  obtain ⟨hwell, hitems, hrecorded⟩ := FileRing.recorded_first_iff s.fileHelper hthere
    (s.length_initFilenames s.maxFiles.toNat now)
  have hfinds : (s.initFilenamesQ now).Finds time now ↔
      s.filenameAt time ∈ s.initFilenames s.maxFiles.toNat now :=
    iff_of_eq (congrArg (s.filenameAt time ∈ ·) (s.initFilenames_setQueue _ _ now))
  refine ⟨⟨hmax, hwell, hitems⟩, ?_⟩
  rw [hfinds, initFilenamesQ, ring]
  dsimp only
  rw [hopened]
  exact hrecorded

theorem recorded_newAt_iff {fileNameCalc : Bytes → Tm → Bytes} {zone : Zone} {base : Bytes}
    {hour minute : ℤ} {truncate : Bool} {maxFiles : UInt16} {clock : ℕ → ℤ} {os : Os}
    (hmax : 0 < maxFiles)
    (hnew : (newAt fileNameCalc zone base hour minute truncate maxFiles clock os).1 = none) :
    let s := (newAt fileNameCalc zone base hour minute truncate maxFiles clock os).2
    ringSink.Limited s ∧ (s.ring.Recorded ↔ s.Finds (clock 0) (clock 2)) := by
  rw [newAt] at hnew ⊢
  split_ifs at hnew ⊢
  rcases hopen : openFor (clock 0) (clock 1)
    ⟨fileNameCalc, zone, base, hour, minute, 0, .initial os, truncate, maxFiles, .disabled, [], []⟩
    with ⟨_ | thrown, s⟩
  · obtain ⟨hopened, hthere, hname, hsame⟩ := opened_openFor (congrArg Prod.fst hopen)
    rw [hopen] at hopened hthere hname hsame
    dsimp only [Outcome.andThen] at hopened hthere hname hsame ⊢
    rw [← hname] at hopened hthere
    rw [← hsame] at hmax
    rw [if_pos hmax]
    exact recorded_initFilenamesQ_iff hmax hopened hthere (clock 2)
  · rw [hopen] at hnew
    cases hnew

end DailyFileSink

namespace HourlyFileSink

/-- The walk over the files that are there comes by the file for a time. -/
def Finds (s : HourlyFileSink) (time now : ℤ) : Prop :=
  s.filenameAt time ∈ s.initFilenames s.maxFiles.toNat now

theorem initFilenames_setQueue (s : HourlyFileSink) (q : CircularQ Bytes) (n : ℕ) (now : ℤ) :
    initFilenames { s with filenamesQ := q } n now = s.initFilenames n now := by
  induction n generalizing now with
  | zero => rfl
  | succ n ih =>
      rw [initFilenames, initFilenames, ih]
      rfl

theorem length_initFilenames (s : HourlyFileSink) (n : ℕ) (now : ℤ) :
    (s.initFilenames n now).length ≤ n := by
  induction n generalizing now with
  | zero => exact Nat.zero_le _
  | succ n ih =>
      rw [initFilenames]
      split_ifs
      · exact Nat.succ_le_succ (ih _)
      · exact Nat.zero_le _

/-- A file that has been opened is there. -/
theorem opened_openFor {time now : ℤ} {s : HourlyFileSink} (h : (s.openFor time now).1 = none) :
    (s.openFor time now).2.opened = s.opened ++ [s.filenameAt time] ∧
      (s.openFor time now).2.os.pathExists (s.filenameAt time) = true ∧
      (∀ time', (s.openFor time now).2.filenameAt time' = s.filenameAt time') ∧
      (s.openFor time now).2.maxFiles = s.maxFiles := by
  have hthere : (s.fileHelper.openFile (s.filenameAt time) s.truncate).1 = none →
      (s.fileHelper.openFile (s.filenameAt time) s.truncate).2.os.pathExists
        (s.filenameAt time) = true := FileHelper.pathExists_openFile
  rw [openFor, onFile] at h ⊢
  generalize s.fileHelper.openFile (s.filenameAt time) s.truncate = opened at hthere h ⊢
  rcases opened with ⟨_ | thrown, file⟩
  · exact ⟨rfl, hthere rfl, fun _ => rfl, rfl⟩
  · cases h

theorem recorded_initFilenamesQ_iff {s : HourlyFileSink} (hmax : 0 < s.maxFiles) {time : ℤ}
    (hopened : s.opened = [s.filenameAt time])
    (hthere : s.os.pathExists (s.filenameAt time) = true) (now : ℤ) :
    ringSink.Limited (s.initFilenamesQ now) ∧
      ((s.initFilenamesQ now).ring.Recorded ↔ (s.initFilenamesQ now).Finds time now) := by
  obtain ⟨hwell, hitems, hrecorded⟩ := FileRing.recorded_first_iff s.fileHelper hthere
    (s.length_initFilenames s.maxFiles.toNat now)
  have hfinds : (s.initFilenamesQ now).Finds time now ↔
      s.filenameAt time ∈ s.initFilenames s.maxFiles.toNat now :=
    iff_of_eq (congrArg (s.filenameAt time ∈ ·) (s.initFilenames_setQueue _ _ now))
  refine ⟨⟨hmax, hwell, hitems⟩, ?_⟩
  rw [hfinds, initFilenamesQ, ring]
  dsimp only
  rw [hopened]
  exact hrecorded

theorem recorded_new_iff {fileNameCalc : Bytes → Tm → Bytes} {zone : Zone} {base : Bytes}
    {truncate : Bool} {maxFiles : UInt16} {clock : ℕ → ℤ} {os : Os} (hmax : 0 < maxFiles)
    (hnew : (new fileNameCalc zone base truncate maxFiles clock os).1 = none) :
    let s := (new fileNameCalc zone base truncate maxFiles clock os).2
    ringSink.Limited s ∧ (s.ring.Recorded ↔ s.Finds (clock 0) (clock 2)) := by
  rw [new] at hnew ⊢
  rcases hopen : openFor (clock 0) (clock 1)
    ⟨fileNameCalc, zone, base, 0, .initial os, truncate, maxFiles, .disabled, [], []⟩
    with ⟨_ | thrown, s⟩
  · obtain ⟨hopened, hthere, hname, hsame⟩ := opened_openFor (congrArg Prod.fst hopen)
    rw [hopen] at hopened hthere hname hsame
    dsimp only [Outcome.andThen] at hopened hthere hname hsame ⊢
    rw [← hname] at hopened hthere
    rw [← hsame] at hmax
    rw [if_pos hmax]
    exact recorded_initFilenamesQ_iff hmax hopened hthere (clock 2)
  · rw [hopen] at hnew
    cases hnew

end HourlyFileSink

/-! ## Both sinks -/

/-- With a limit, and where no call but that of `remove` fails in a rotation and each comes to
a new name: every file that has been opened and is still there is in the queue throughout a
run, exactly if the constructor finds the file that it has opened and every message cleans
up. -/
theorem timed_file_sinks_recorded_iff (fileNameCalc : Bytes → Tm → Bytes) (zone : Zone)
    (base : Bytes) (hour minute : ℤ) (truncate : Bool) (maxFiles : UInt16) (hmax : 0 < maxFiles)
    (clock : ℕ → ℤ) (os : Os) (calls : List (ℤ × DailyMessage)) :
    let daily := DailyFileSink.newAt fileNameCalc zone base hour minute truncate maxFiles clock os
    let hourly := HourlyFileSink.new fileNameCalc zone base truncate maxFiles clock os
    (daily.1 = none →
      (∀ p ∈ Runs.trace DailyFileSink.stepAt daily.2 calls,
        DailyFileSink.ringSink.OpensNew p.1 p.2) →
      ((Runs.run DailyFileSink.stepAt daily.2 calls).ring.Recorded ∧
          (∀ p ∈ Runs.trace DailyFileSink.stepAt daily.2 calls, p.1.ring.Recorded) ↔
        daily.2.Finds (clock 0) (clock 2) ∧
          ∀ p ∈ Runs.trace DailyFileSink.stepAt daily.2 calls,
            DailyFileSink.ringSink.Cleans p.1 p.2)) ∧
    (hourly.1 = none →
      (∀ p ∈ Runs.trace HourlyFileSink.stepAt hourly.2 calls,
        HourlyFileSink.ringSink.OpensNew p.1 p.2) →
      ((Runs.run HourlyFileSink.stepAt hourly.2 calls).ring.Recorded ∧
          (∀ p ∈ Runs.trace HourlyFileSink.stepAt hourly.2 calls, p.1.ring.Recorded) ↔
        hourly.2.Finds (clock 0) (clock 2) ∧
          ∀ p ∈ Runs.trace HourlyFileSink.stepAt hourly.2 calls,
            HourlyFileSink.ringSink.Cleans p.1 p.2)) := by
  constructor
  · intro hnew hopens
    obtain ⟨hlimited, hstart⟩ := DailyFileSink.recorded_newAt_iff hmax hnew
    rw [← hstart]
    exact RingSink.recorded_run_iff hlimited hopens
  · intro hnew hopens
    obtain ⟨hlimited, hstart⟩ := HourlyFileSink.recorded_new_iff hmax hnew
    rw [← hstart]
    exact RingSink.recorded_run_iff hlimited hopens

/-- A system on which one call fails. -/
def failingCall (call : ℕ) : Os :=
  { Os.blank with
    faults := fun k => if k = call then some ⟨ascii "Permission denied", 0⟩ else none }

/-- Two rotations, with one file kept. -/
def twoDays : List (ℤ × DailyMessage) :=
  [(2 * dayNanos, ⟨2 * dayNanos, .ok (ascii "x")⟩),
    (3 * dayNanos, ⟨3 * dayNanos, .ok (ascii "y")⟩)]

/-- Every file can be removed. -/
theorem timed_file_sinks_recorded_twoDays :
    (Runs.run DailyFileSink.stepAt (DailyFileSink.newAt DailyFilenameCalculator.calcFilename
      (.constant 0) (ascii "d.txt") 0 0 false 1 (fun _ => dayNanos) .blank).2
        twoDays).ring.Recorded ∧
    (Runs.run HourlyFileSink.stepAt (HourlyFileSink.new HourlyFilenameCalculator.calcFilename
      (.constant 0) (ascii "d.txt") false 1 (fun _ => dayNanos) .blank).2
        twoDays).ring.Recorded := by
  obtain ⟨hdaily, -⟩ := timed_file_sinks_recorded_iff DailyFilenameCalculator.calcFilename
    (.constant 0) (ascii "d.txt") 0 0 false 1 (by decide) (fun _ => dayNanos)
    .blank twoDays
  obtain ⟨-, hhourly⟩ := timed_file_sinks_recorded_iff HourlyFilenameCalculator.calcFilename
    (.constant 0) (ascii "d.txt") 0 0 false 1 (by decide) (fun _ => dayNanos)
    .blank twoDays
  unfold RingSink.OpensNew Os.Clear RingSink.Cleans DailyFileSink.Finds at hdaily
  unfold RingSink.OpensNew Os.Clear RingSink.Cleans HourlyFileSink.Finds at hhourly
  exact ⟨((hdaily (by decide) (by decide)).mpr (by decide)).1,
    ((hhourly (by decide) (by decide)).mpr (by decide)).1⟩

/-- The first file cannot be removed, and no rotation tries it again. -/
theorem timed_file_sinks_forget :
    let daily := DailyFileSink.newAt DailyFilenameCalculator.calcFilename (.constant 0)
      (ascii "d.txt") 0 0 false 1 (fun _ => dayNanos) (failingCall 3)
    let hourly := HourlyFileSink.new HourlyFilenameCalculator.calcFilename (.constant 0)
      (ascii "d.txt") false 1 (fun _ => dayNanos) (failingCall 3)
    (daily.1 = none ∧
        (∀ p ∈ Runs.trace DailyFileSink.stepAt daily.2 twoDays,
          DailyFileSink.ringSink.OpensNew p.1 p.2) ∧
        ¬ (Runs.run DailyFileSink.stepAt daily.2 twoDays).ring.Recorded) ∧
      hourly.1 = none ∧
        (∀ p ∈ Runs.trace HourlyFileSink.stepAt hourly.2 twoDays,
          HourlyFileSink.ringSink.OpensNew p.1 p.2) ∧
        ¬ (Runs.run HourlyFileSink.stepAt hourly.2 twoDays).ring.Recorded := by
  unfold RingSink.OpensNew Os.Clear FileRing.Recorded
  decide

end Structlog
