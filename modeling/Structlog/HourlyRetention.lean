import Structlog.FailedCleanup
import Structlog.HourlyFiles

/-!
# The files that the hourly sink keeps

With a limit on the files, the queue holds the names of the last hours in order, the last one
that of the open file; the files in it are on disk, and the others that were opened are not
(`Retained`).

A rotation keeps this if it comes to a later hour and its message can be formatted
(`retained_formatted_iff`, `retained_unformatted_iff`).  The hour is a later one unless the
clock is before the epoch, where `to_time_t` rounds up.  The same rounding makes the walk of
the constructor come by an hour twice, in the last second of an hour and where it crosses the
epoch (`SoundStart`).
-/

namespace Structlog

open Lib

namespace FileRing

/-- The queue holds at most `maxFiles` names, in the order of their hours and with that of the
open file last.  The files in it are there, and the other ones that were opened are not. -/
structure Retained (name : ℤ → Bytes) (maxFiles : ℕ) (r : FileRing) : Prop where
  atMost : r.queue.toList.length ≤ maxFiles
  ordered : ∃ hours : List ℤ, hours.Pairwise (· < ·) ∧ r.queue.toList = hours.map name
  current : r.queue.toList.getLast? = some r.file.filename
  removed : ∀ f ∈ r.opened, f ∉ r.queue.toList → r.file.os.pathExists f = false
  kept : ∀ f ∈ r.queue.toList, r.file.os.pathExists f = true

variable {name : ℤ → Bytes} {maxFiles : ℕ} {r : FileRing}

/-- The hours in the queue, of which that of the open file is the last. -/
theorem Retained.exists_hours (h : r.Retained name maxFiles) (hname : Function.Injective name)
    {hour : ℤ} (hcurrent : r.file.filename = name hour) :
    ∃ hours : List ℤ, hours.Pairwise (· < ·) ∧ r.queue.toList = hours.map name ∧
      hour ∈ hours ∧ ∀ earlier ∈ hours, earlier ≤ hour := by
  obtain ⟨hours, hsorted, hqueue⟩ := h.ordered
  have hlast := h.current
  rw [hqueue, List.getLast?_map, hcurrent, Option.map_eq_some_iff] at hlast
  obtain ⟨last, hgetLast, hsame⟩ := hlast
  obtain rfl := hname hsame
  obtain ⟨before, rfl⟩ := List.getLast?_eq_some_iff.mp hgetLast
  refine ⟨_, hsorted, hqueue, List.mem_append_right _ (List.mem_singleton_self _), ?_⟩
  intro earlier hearlier
  obtain ⟨-, -, hbefore⟩ := List.pairwise_append.mp hsorted
  rcases List.mem_append.mp hearlier with hmem | hmem
  · exact (hbefore earlier hmem _ (List.mem_singleton_self _)).le
  · exact (List.mem_singleton.mp hmem).le

theorem Retained.nodup (h : r.Retained name maxFiles) (hname : Function.Injective name) :
    r.queue.toList.Nodup := by
  obtain ⟨hours, hsorted, hqueue⟩ := h.ordered
  rw [hqueue]
  exact (hsorted.imp ne_of_lt).map _ fun _ _ hne heq => hne (hname heq)

/-- Names of the last hours, with that of a later hour behind them. -/
theorem exists_hours_concat {hours : List ℤ} (hsorted : hours.Pairwise (· < ·)) {left : List Bytes}
    (hsuffix : left <:+ hours.map name) {new : ℤ} (hlater : ∀ earlier ∈ hours, earlier < new) :
    ∃ hours' : List ℤ, hours'.Pairwise (· < ·) ∧ left ++ [name new] = hours'.map name := by
  obtain ⟨front, hfront⟩ := hsuffix
  obtain ⟨first, kept, rfl, -, rfl⟩ := List.append_eq_map_iff.mp hfront
  refine ⟨kept ++ [new], ?_, by rw [List.map_append, List.map_singleton]⟩
  obtain ⟨-, hkept, -⟩ := List.pairwise_append.mp hsorted
  refine List.pairwise_append.mpr ⟨hkept, List.pairwise_singleton _ _, ?_⟩
  intro earlier hin last hlast
  rw [List.mem_singleton.mp hlast]
  exact hlater earlier (List.mem_append_right _ hin)

/-- A rotation takes out the front of a full queue. -/
theorem exists_rotated (filename : Bytes) (hwell : r.queue.WellFormed)
    (hitems : r.queue.maxItems = maxFiles + 1) (hmax : 0 < maxFiles)
    (hnodup : r.queue.toList.Nodup) :
    ∃ left, r.rotated filename = left ++ [filename] ∧ left <:+ r.queue.toList ∧
      left.length < maxFiles ∧
      ∀ f ∈ r.queue.toList, f ∈ left ↔ ¬ (r.queue.full = true ∧ f = r.queue.front) := by
  by_cases hfull : r.queue.full = true
  · obtain ⟨rest, hcons, -⟩ := hwell.toList_replace (by omega) hfull filename
    have hlength := hwell.full_iff.mp hfull
    rw [hcons] at hnodup hlength
    refine ⟨rest, ?_, ?_, ?_, fun f hf => ?_⟩
    · rw [rotated, if_pos hfull, hcons]
      rfl
    · exact hcons ▸ List.suffix_cons _ rest
    · rw [List.length_cons] at hlength
      omega
    · rw [hcons, List.mem_cons] at hf
      constructor
      · rintro hrest ⟨-, rfl⟩
        exact (List.nodup_cons.mp hnodup).1 hrest
      · intro hother
        exact hf.resolve_left fun hfront => hother ⟨hfull, hfront⟩
  · refine ⟨r.queue.toList, ?_, List.suffix_rfl, ?_, fun f hf => ?_⟩
    · rw [rotated, if_neg hfull]
    · have hle := hwell.length_le
      have hlength := mt hwell.full_iff.mpr hfull
      omega
    · exact iff_of_true hf fun hboth => hfull hboth.1

variable {truncate : Bool} {hour new : ℤ}

/-- A rotation with a message that can be formatted keeps this if it comes to a later hour.
If not, the name would be in the queue twice, or its file would be removed. -/
theorem retained_formatted_iff (hquiet : r.file.os.Quiet) (hname : Function.Injective name)
    (hnonempty : name new ≠ []) (hwell : r.queue.WellFormed)
    (hitems : r.queue.maxItems = maxFiles + 1) (hmax : 0 < maxFiles)
    (hcurrent : r.file.filename = name hour) (hlater : hour ≤ new)
    (hopened : ∀ f ∈ r.opened, ∃ earlier ≤ hour, f = name earlier)
    (h : r.Retained name maxFiles) (formatted : Bytes) :
    (r.handle truncate true (some (name new)) (.ok formatted)).Retained name maxFiles ↔
      new ≠ hour := by
  have hclear : r.file.os.Clear (FileHelper.openCalls truncate + 1) := fun k _ => hquiet k
  obtain ⟨-, -, hqueue, hopened', hfilename, hexists⟩ :=
    handle_formatted hclear hnonempty hwell (by omega) formatted
  obtain ⟨hours, hsorted, hbefore, hmem, hle⟩ := h.exists_hours hname hcurrent
  obtain ⟨left, hleft, hsuffix, hlength, hkept⟩ :=
    exists_rotated (name new) hwell hitems hmax (h.nodup hname)
  have hremoves (f : Bytes) : r.Removes truncate f ↔ r.queue.full = true ∧ f = r.queue.front := by
    rw [Removes, hquiet]
    tauto
  rw [hleft] at hqueue
  constructor
  -- As the file is still there, its name has stayed in the queue, and is now in it twice.
  · rintro hafter rfl
    have hthere := (hexists (name new)).mp (hafter.kept _ (by
      rw [hqueue]
      exact List.mem_append_right _ (List.mem_singleton_self _)))
    rw [hremoves] at hthere
    have hmemLeft : name new ∈ left :=
      (hkept _ (by rw [hbefore]; exact List.mem_map_of_mem hmem)).mpr hthere.2
    have hnodup := hafter.nodup hname
    rw [hqueue] at hnodup
    exact List.disjoint_of_nodup_append hnodup hmemLeft (List.mem_singleton_self _)
  · intro hne
    -- A later hour has a name that no file opened so far has.
    have hearlier : ∀ earlier ≤ hour, name earlier ≠ name new := fun earlier hle heq => by
      have := hname heq
      omega
    refine ⟨?_, ?_, ?_, ?_, ?_⟩
    · rw [hqueue, List.length_append, List.length_singleton]
      exact hlength
    · have hlater' : ∀ earlier ∈ hours, earlier < new := fun earlier hin =>
        lt_of_le_of_ne ((hle earlier hin).trans hlater) fun heq =>
          hearlier earlier (hle earlier hin) (congrArg name heq)
      rw [hqueue]
      exact exists_hours_concat hsorted (hbefore ▸ hsuffix) hlater'
    · rw [hqueue, List.getLast?_concat, hfilename]
    · intro f hf hout
      rw [hqueue, List.mem_append, not_or, List.mem_singleton] at hout
      rw [hopened', List.mem_append, List.mem_singleton] at hf
      have hold := hf.resolve_right hout.2
      by_contra hthere
      obtain ⟨hpath, hstays⟩ := (hexists f).mp (Bool.not_eq_false _ ▸ hthere)
      rw [hremoves] at hstays
      have hnot : f ∉ r.queue.toList := fun hin => hout.1 ((hkept f hin).mpr hstays)
      exact absurd (hpath.resolve_left hout.2) (by rw [h.removed f hold hnot]; exact
        Bool.false_ne_true)
    · intro f hf
      rw [hqueue, List.mem_append, List.mem_singleton] at hf
      rw [hexists, hremoves]
      rcases hf with hf | rfl
      · exact ⟨.inr (h.kept f (hsuffix.subset hf)), (hkept f (hsuffix.subset hf)).mp hf⟩
      · refine ⟨.inl rfl, fun hboth => ?_⟩
        obtain ⟨rest, hcons, -⟩ := hwell.toList_replace (by omega) hboth.1 (name new)
        have hfront : r.queue.front ∈ hours.map name := by
          rw [← hbefore, hcons]
          exact List.mem_cons_self
        obtain ⟨earlier, hin, heq⟩ := List.mem_map.mp hfront
        exact hearlier earlier (hle earlier hin) (heq.trans hboth.2.symm)

/-- If the message cannot be formatted, the name of the file is not put into the queue. -/
theorem retained_unformatted_iff (hquiet : r.file.os.Quiet) (hname : Function.Injective name)
    (hnonempty : name new ≠ []) (hcurrent : r.file.filename = name hour)
    (h : r.Retained name maxFiles) (limited : Bool) (thrown : Thrown) :
    (r.handle truncate limited (some (name new)) (.error thrown)).Retained name maxFiles ↔
      new = hour := by
  have hclear : r.file.os.Clear (FileHelper.openCalls truncate) := fun k _ => hquiet k
  obtain ⟨hqueue, hopened, hfilename, hexists⟩ :=
    handle_unformatted hclear hnonempty limited thrown
  constructor
  · intro hafter
    have hlast := hafter.current
    rw [hqueue, h.current, hfilename, hcurrent] at hlast
    exact (hname (Option.some.inj hlast)).symm
  · rintro rfl
    have hmem : name new ∈ r.queue.toList := by
      rw [← hcurrent]
      exact List.mem_of_getLast? h.current
    refine ⟨?_, ?_, ?_, ?_, ?_⟩
    · rw [hqueue]
      exact h.atMost
    · rw [hqueue]
      exact h.ordered
    · rw [hqueue, hfilename, ← hcurrent]
      exact h.current
    · intro f hf hout
      rw [hqueue] at hout
      rw [hopened, List.mem_append, List.mem_singleton] at hf
      have hne : f ≠ name new := fun heq => hout (heq ▸ hmem)
      have hbefore := h.removed f (hf.resolve_right hne) hout
      rw [Bool.eq_false_iff, ne_eq, hexists]
      rintro (heq | hthere)
      · exact hne heq
      · exact Bool.false_ne_true (hbefore.symm.trans hthere)
    · intro f hf
      rw [hqueue] at hf
      exact (hexists f).mpr (.inr (h.kept f hf))

theorem retained_stayed (truncate limited : Bool) (text : Except Thrown Bytes)
    (h : r.Retained name maxFiles) :
    (r.handle truncate limited none text).Retained name maxFiles := by
  obtain ⟨hqueue, hopened, hfilename, hexists⟩ := handle_stayed truncate limited text r
  refine ⟨?_, ?_, ?_, ?_, ?_⟩
  · exact hqueue ▸ h.atMost
  · exact hqueue ▸ h.ordered
  · rw [hqueue, hfilename]
    exact h.current
  · intro f hf hout
    rw [hqueue] at hout
    rw [hopened] at hf
    rw [hexists]
    exact h.removed f hf hout
  · intro f hf
    rw [hqueue] at hf
    rw [hexists]
    exact h.kept f hf

end FileRing

/-! ## The sink -/

namespace HourlyFileSink

open HourlyFilenameCalculator

/-- What the queue is for. -/
def Retained (s : HourlyFileSink) : Prop :=
  s.ring.Retained (hourFilename s.baseFilename) s.maxFiles.toNat

theorem Retained.pathExists {s : HourlyFileSink} (h : s.Retained) {f : Bytes}
    (hf : f ∈ s.opened) (hout : f ∉ s.filenamesQ.toList) : s.os.pathExists f = false :=
  FileRing.Retained.removed h f hf hout

theorem Retained.nodup {s : HourlyFileSink} (h : s.Retained) : s.filenamesQ.toList.Nodup :=
  FileRing.Retained.nodup h (hourFilename_injective s.baseFilename)

/-- A message that rotates can be formatted exactly if it brings another file. -/
def Sound (s : HourlyFileSink) (msg : DailyMessage) : Prop :=
  s.shouldRotate msg = true →
    (msg.text.isOk = true ↔ s.filenameAt msg.time ≠ s.fileHelper.filename)

instance (s : HourlyFileSink) (msg : DailyMessage) : Decidable (s.Sound msg) :=
  inferInstanceAs (Decidable (_ → _))

/-- The hour that the walk of the constructor comes to at step `k`. -/
def walkHour (offset now : ℤ) (k : ℕ) : ℤ := localHour offset (now - k * hourNanos)

/-- The clock is read in the hour of the message. -/
def Prompt (offset : ℤ) (s : HourlyFileSink) (call : ℤ × DailyMessage) : Prop :=
  s.shouldRotate call.2 = true → localHour offset call.1 = localHour offset call.2.time

instance (offset : ℤ) (s : HourlyFileSink) (call : ℤ × DailyMessage) :
    Decidable (s.Prompt offset call) :=
  inferInstanceAs (Decidable (_ → _))

/-- A start after which the queue is in order: as far as the constructor finds files, it comes
by no hour twice. -/
def SoundStart (offset : ℤ) (maxFiles : ℕ) (found : ℤ → Prop) (now : ℤ) : Prop :=
  ∀ k < maxFiles - 1, (∀ j ≤ k, found (walkHour offset now j)) →
    walkHour offset now (k + 1) ≠ walkHour offset now k

instance (offset : ℤ) (maxFiles : ℕ) (found : ℤ → Prop) [DecidablePred found] (now : ℤ) :
    Decidable (SoundStart offset maxFiles found now) :=
  inferInstanceAs (Decidable (∀ k < maxFiles - 1, _))

/-! ## Hours -/

theorem localHour_full (offset hour : ℤ) :
    localHour offset (fromTimeT (3600 * hour - offset)) = hour := by
  have hseconds : toTimeT (fromTimeT (3600 * hour - offset)) = 3600 * hour - offset := by
    unfold toTimeT fromTimeT
    exact Int.mul_tdiv_cancel _ (by decide)
  rw [localHour, hseconds]
  omega

/-- At a rotation point the hour is not an earlier one. -/
theorem localHour_le_of_rotationAfter_le {offset reading time : ℤ}
    (h : rotationAfter offset reading ≤ time) :
    localHour offset reading ≤ localHour offset time := by
  have hbegun : fromTimeT (3600 * localHour offset reading - offset) ≤ time := by
    refine le_trans ?_ h
    rw [rotationAfter]
    split_ifs
    · exact le_rfl
    · exact le_add_of_nonneg_right (by decide)
  have hmono := localHour_mono offset hbegun
  rwa [localHour_full] at hmono

/-- From the epoch on it is a later one. -/
theorem localHour_lt_of_rotationAfter_le {offset reading time : ℤ} (hreading : 0 ≤ reading)
    (h : rotationAfter offset reading ≤ time) :
    localHour offset reading < localHour offset time := by
  have hdown := Int.mul_tdiv_add_tmod reading nanos
  have hrest := Int.tmod_nonneg nanos hreading
  have hend : rotationAfter offset reading =
      fromTimeT (3600 * (localHour offset reading + 1) - offset) := by
    have hbegun : ¬ reading < fromTimeT (3600 * localHour offset reading - offset) := by
      unfold localHour fromTimeT toTimeT nanos at *
      omega
    rw [rotationAfter, if_neg hbegun]
    unfold fromTimeT hourNanos nanos
    omega
  have hmono := localHour_mono offset (hend ▸ h)
  rw [localHour_full] at hmono
  omega

theorem localHour_sub_hourNanos (offset : ℤ) {time : ℤ} (h : hourNanos ≤ time) :
    localHour offset (time - hourNanos) = localHour offset time - 1 := by
  have hhour : 0 ≤ hourNanos := by decide
  unfold localHour toTimeT
  rw [Int.tdiv_eq_ediv_of_nonneg (by omega), Int.tdiv_eq_ediv_of_nonneg (by omega)]
  unfold hourNanos nanos at *
  omega

/-- As many hours after the epoch as there may be files, every start is sound. -/
theorem soundStart_of_le (offset : ℤ) {maxFiles : ℕ} {now : ℤ} (h : maxFiles * hourNanos ≤ now)
    (found : ℤ → Prop) : SoundStart offset maxFiles found now := by
  intro k hk _
  have hroom : hourNanos ≤ now - k * hourNanos := by
    have hlt : k + 1 ≤ maxFiles := by omega
    unfold hourNanos nanos at *
    omega
  have hprev := localHour_sub_hourNanos offset hroom
  rw [walkHour, walkHour, Nat.cast_succ, add_one_mul, ← sub_sub, hprev]
  omega

/-! ## Steps -/

/-- The rotation point is that after an hour of which the file is, and no file of a later one
has been opened. -/
structure Framed (offset : ℤ) (base : Bytes) (s : HourlyFileSink) : Prop where
  limited : ringSink.Limited s
  exists_current : ∃ fileTime reading, Current offset base fileTime reading s ∧
    localHour offset reading = localHour offset fileTime ∧
    ∀ f ∈ s.opened, ∃ earlier ≤ localHour offset fileTime, f = hourFilename base earlier

variable {offset : ℤ} {base : Bytes} {fileTime reading : ℤ} {s : HourlyFileSink}

theorem Current.rotates_iff (h : Current offset base fileTime reading s) (msg : DailyMessage) :
    s.shouldRotate msg = true ↔ rotationAfter offset reading ≤ msg.time := by
  rw [shouldRotate, h.rotationTp, decide_eq_true_eq]

/-- After a reading that is not before the epoch, a message that rotates needs only to be
formatted. -/
theorem Current.sound_iff (h : Current offset base fileTime reading s) (hreading : 0 ≤ reading)
    (hsame : localHour offset reading = localHour offset fileTime) (msg : DailyMessage) :
    s.Sound msg ↔ (s.shouldRotate msg = true → msg.text.isOk = true) := by
  refine forall_congr' fun hrotate => iff_of_eq (propext ?_)
  have hlater := localHour_lt_of_rotationAfter_le hreading ((h.rotates_iff msg).mp hrotate)
  have hother : s.filenameAt msg.time ≠ s.fileHelper.filename := by
    rw [h.filenameAt, h.filename, calcFilename_localtime, calcFilename_localtime,
      (hourFilename_injective base).ne_iff]
    omega
  rw [iff_true_right hother]

theorem Framed.step (h : Framed offset base s) {call : ℤ × DailyMessage}
    (hprompt : s.Prompt offset call) :
    Framed offset base (s.stepAt call) := by
  obtain ⟨fileTime, reading, hcurrent, hsame, hopened⟩ := h.exists_current
  have hname : ringSink.filename s call = hourFilename base (localHour offset call.2.time) :=
    (hcurrent.filenameAt call.2.time).trans (calcFilename_localtime base offset call.2.time)
  have hne : ringSink.filename s call ≠ [] := hname ▸ hourFilename_ne_nil base _
  have hquiet : s.ring.file.os.Quiet := hcurrent.quiet
  refine ⟨h.limited.step fun _ => ⟨hne, fun k _ => hquiet k⟩, ?_⟩
  have hring : (s.stepAt call).opened = (s.ring.handle s.truncate (0 < s.maxFiles)
      (ringSink.rotation s call) call.2.text).opened :=
    congrArg FileRing.opened (ringSink.ring_step s call).1
  have hrotates : ringSink.rotates s call = true ↔ rotationAfter offset reading ≤ call.2.time :=
    hcurrent.rotates_iff call.2
  by_cases hrotate : rotationAfter offset reading ≤ call.2.time
  · have hlater := hsame ▸ localHour_le_of_rotationAfter_le hrotate
    refine ⟨call.2.time, call.1, (hcurrent.step_rotated call.1 hrotate).1,
      hprompt (hrotates.mpr hrotate), ?_⟩
    have hadded : (s.stepAt call).opened = s.opened ++ [ringSink.filename s call] := by
      have hrotation : ringSink.rotation s call = some (ringSink.filename s call) :=
        if_pos (hrotates.mpr hrotate)
      rw [hring, hrotation]
      rcases call.2.text with thrown | formatted
      · exact (FileRing.handle_unformatted (fun k _ => hquiet k) hne _ thrown).2.1
      · have hlimited : decide (0 < s.maxFiles) = true := decide_eq_true h.limited.maxFiles
        rw [hlimited]
        exact (FileRing.handle_formatted (fun k _ => hquiet k) hne h.limited.wellFormed
          h.limited.one_lt formatted).2.2.2.1
    intro f hf
    rw [hadded, hname, List.mem_append, List.mem_singleton] at hf
    rcases hf with hf | hf
    · obtain ⟨earlier, hle, heq⟩ := hopened f hf
      exact ⟨earlier, hle.trans hlater, heq⟩
    · exact ⟨_, le_rfl, hf⟩
  · have hrotation : ringSink.rotation s call = none :=
      if_neg (mt hrotates.mp hrotate)
    rw [hrotation, (FileRing.handle_stayed ..).2.1] at hring
    refine ⟨fileTime, reading, (hcurrent.step_stayed call.1 hrotate).1, hsame, ?_⟩
    rw [hring]
    exact hopened

/-- A step keeps the files exactly if it is sound. -/
theorem retained_step_iff (h : Framed offset base s) (call : ℤ × DailyMessage)
    (hretained : s.Retained) : (s.stepAt call).Retained ↔ s.Sound call.2 := by
  obtain ⟨fileTime, reading, hcurrent, hsame, hopened⟩ := h.exists_current
  obtain ⟨hring, hsettings⟩ := ringSink.ring_step s call
  have hring : (s.stepAt call).ring = s.ring.handle s.truncate (0 < s.maxFiles)
      (ringSink.rotation s call) call.2.text := hring
  have hmaxFiles : (s.stepAt call).maxFiles = s.maxFiles := congrArg Prod.snd hsettings
  have hbase : (s.stepAt call).baseFilename = s.baseFilename := by
    by_cases hrotate : rotationAfter offset reading ≤ call.2.time
    · exact (hcurrent.step_rotated call.1 hrotate).1.baseFilename.trans hcurrent.baseFilename.symm
    · exact (hcurrent.step_stayed call.1 hrotate).1.baseFilename.trans hcurrent.baseFilename.symm
  have hname : s.filenameAt call.2.time = hourFilename base (localHour offset call.2.time) :=
    (hcurrent.filenameAt call.2.time).trans (calcFilename_localtime base offset call.2.time)
  have hfilename : s.fileHelper.filename = hourFilename base (localHour offset fileTime) :=
    hcurrent.filename.trans (calcFilename_localtime base offset fileTime)
  have hmax : 0 < s.maxFiles.toNat := h.limited.maxFiles
  have hitems : s.ring.queue.maxItems = s.maxFiles.toNat + 1 := h.limited.maxItems
  have hquiet : s.ring.file.os.Quiet := hcurrent.quiet
  have hlimited : decide (0 < s.maxFiles) = true := decide_eq_true h.limited.maxFiles
  rw [Retained, hring, hmaxFiles, hbase, hlimited, Sound, hname, hfilename,
    (hourFilename_injective base).ne_iff]
  rw [Retained, hcurrent.baseFilename] at *
  by_cases hrotate : s.shouldRotate call.2 = true
  · have hrotation : ringSink.rotation s call =
        some (hourFilename base (localHour offset call.2.time)) :=
      (if_pos hrotate).trans (congrArg some hname)
    have hlater := hsame ▸ localHour_le_of_rotationAfter_le
      ((hcurrent.rotates_iff call.2).mp hrotate)
    rw [hrotation, imp_iff_right hrotate]
    rcases call.2.text with thrown | formatted
    · rw [FileRing.retained_unformatted_iff hquiet (hourFilename_injective base)
        (hourFilename_ne_nil base _) hfilename hretained]
      simp [Except.isOk, Except.toBool]
    · rw [FileRing.retained_formatted_iff hquiet (hourFilename_injective base)
        (hourFilename_ne_nil base _) h.limited.wellFormed hitems hmax hfilename hlater hopened
        hretained]
      simp [Except.isOk, Except.toBool]
  · have hrotation : ringSink.rotation s call = none := if_neg hrotate
    rw [hrotation]
    exact iff_of_true (FileRing.retained_stayed _ _ _ hretained) fun hcome => absurd hcome hrotate

/-! ## The constructor -/

theorem walkHour_le (offset now : ℤ) {k k' : ℕ} (hle : k ≤ k') :
    walkHour offset now k' ≤ walkHour offset now k := by
  refine localHour_mono offset ?_
  have hnonneg : (0 : ℤ) ≤ hourNanos := by decide
  have hsteps := Int.mul_le_mul_of_nonneg_right (Int.ofNat_le.mpr hle) hnonneg
  omega

/-- The walk goes on up to the first hour that has no file. -/
theorem exists_initFilenames (h : Configured offset base s) (n : ℕ) (now : ℤ) :
    ∃ m ≤ n, s.initFilenames n now = (List.range m).map (hourFilename base ∘ walkHour offset now) ∧
      (∀ k < m, s.os.pathExists (hourFilename base (walkHour offset now k)) = true) ∧
      (m < n → s.os.pathExists (hourFilename base (walkHour offset now m)) = false) := by
  induction n generalizing now with
  | zero => exact ⟨0, le_rfl, rfl, fun k hk => absurd hk (Nat.not_lt_zero k),
      fun hlt => absurd hlt (Nat.not_lt_zero 0)⟩
  | succ n ih =>
      have hfirst : walkHour offset now 0 = localHour offset now := by
        rw [walkHour, Nat.cast_zero, zero_mul, sub_zero]
      have hlater (k : ℕ) : walkHour offset (now - hourNanos) k = walkHour offset now (k + 1) := by
        rw [walkHour, walkHour, Nat.cast_succ, add_one_mul]
        congr 1
        omega
      rw [initFilenames, h.filenameAt, calcFilename_localtime, ← hfirst]
      split_ifs with hthere
      · obtain ⟨m, hle, hnames, hfound, hend⟩ := ih (now - hourNanos)
        simp only [hlater] at hfound hend
        refine ⟨m + 1, Nat.succ_le_succ hle, ?_, fun k hk => ?_, fun hlt => ?_⟩
        · rw [hnames, List.range_succ_eq_map, List.map_cons, List.map_map]
          congr 2
          funext k
          exact congrArg (hourFilename base) (hlater k)
        · cases k with
          | zero => exact hthere
          | succ k => exact hfound k (Nat.lt_of_succ_lt_succ hk)
        · exact hend (Nat.lt_of_succ_lt_succ hlt)
      · exact ⟨0, Nat.zero_le _, rfl, fun k hk => absurd hk (Nat.not_lt_zero k),
          fun _ => Bool.eq_false_iff.mpr hthere⟩

/-- The hours of a walk are in order exactly if no two in a row are the same. -/
theorem pairwise_walkHour_iff (offset now : ℤ) (m : ℕ) :
    ((List.range m).map (walkHour offset now)).Pairwise (· > ·) ↔
      ∀ k, k + 1 < m → walkHour offset now (k + 1) ≠ walkHour offset now k := by
  rw [List.pairwise_map]
  constructor
  · intro hpairwise k hk heq
    have hlt := List.pairwise_iff_getElem.mp hpairwise k (k + 1) (by simp; omega) (by simp; omega)
      (Nat.lt_succ_self k)
    rw [List.getElem_range, List.getElem_range] at hlt
    omega
  · intro hne
    refine List.pairwise_lt_range.imp_of_mem fun {k k'} _ hk' hlt => ?_
    have hstep := hne k (lt_of_le_of_lt hlt (List.mem_range.mp hk'))
    calc walkHour offset now k'
        ≤ walkHour offset now (k + 1) := walkHour_le offset now hlt
      _ < walkHour offset now k :=
          lt_of_le_of_ne (walkHour_le offset now (Nat.le_succ k)) hstep

/-- Up to where the walk ends or there is no more room, it comes by no hour twice. -/
theorem soundStart_iff {offset now : ℤ} {n m : ℕ} {found : ℤ → Prop} (hle : m ≤ n)
    (hfound : ∀ k < m, found (walkHour offset now k))
    (hend : m < n → ¬ found (walkHour offset now m)) :
    SoundStart offset n found now ↔
      ∀ k, k + 1 < m → walkHour offset now (k + 1) ≠ walkHour offset now k := by
  constructor
  · intro hsound k hk
    exact hsound k (by omega) fun j hj => hfound j (by omega)
  · intro hne k hk hwalk heq
    have hlt : k < m := by
      by_contra hge
      exact hend (by omega) (hwalk m (by omega))
    rcases Nat.lt_or_ge (k + 1) m with hk' | hk'
    · exact hne k hk' heq
    · have hlast : m = k + 1 := by omega
      have hmissing := hend (by omega)
      rw [hlast, heq] at hmissing
      exact hmissing (hfound k hlt)

/-- The names found at the start are put into the queue in the order of their hours. -/
theorem retained_initFilenamesQ_iff (h : Configured offset base s) (hmax : 0 < s.maxFiles)
    (now : ℤ) (hopened : s.opened = [s.fileHelper.filename])
    (hfilename : s.fileHelper.filename = hourFilename base (localHour offset now))
    (hthere : s.os.pathExists s.fileHelper.filename = true) :
    (s.initFilenamesQ now).Retained ↔ SoundStart offset s.maxFiles.toNat
      (fun hour => s.os.pathExists (hourFilename base hour) = true) now := by
  have hpos : 0 < s.maxFiles.toNat := hmax
  have hbound := s.maxFiles.toNat_lt
  have hfirst : walkHour offset now 0 = localHour offset now := by
    rw [walkHour, Nat.cast_zero, zero_mul, sub_zero]
  obtain ⟨m, hle, hnames, hfound, hend⟩ := exists_initFilenames h s.maxFiles.toNat now
  have hsome : 0 < m := by
    by_contra hzero
    obtain rfl : m = 0 := by omega
    have hmissing := hend hpos
    rw [hfirst, ← hfilename, hthere] at hmissing
    exact Bool.false_ne_true hmissing.symm
  have hlength := s.length_initFilenames s.maxFiles.toNat now
  rw [← List.length_reverse] at hlength
  obtain ⟨-, -, hqueue⟩ := CircularQ.toList_filled (by unfold sizeT; omega) hlength
  have hlist := hqueue.trans (by rw [hnames, ← List.map_map, ← List.map_reverse])
  rw [soundStart_iff hle hfound fun hlt => by rw [hend hlt]; exact Bool.false_ne_true,
    ← pairwise_walkHour_iff, ← List.pairwise_reverse]
  have hring : (s.initFilenamesQ now).ring = ⟨s.fileHelper, (s.initFilenames s.maxFiles.toNat
      now).reverse.foldl .pushBack (.new s.maxFiles.toNat), s.opened⟩ := rfl
  have hsettings : (s.initFilenamesQ now).baseFilename = base ∧
      (s.initFilenamesQ now).maxFiles = s.maxFiles := ⟨h.baseFilename, rfl⟩
  rw [Retained, hring, hsettings.1, hsettings.2]
  constructor
  -- The names in the queue are those of the walk in its order, and a name tells its hour.
  · intro hretained
    obtain ⟨hours, hsorted, hsame⟩ := hretained.ordered
    dsimp only at hsame
    rw [hlist] at hsame
    rwa [List.map_injective_iff.mpr (hourFilename_injective base) hsame]
  · intro hsorted
    have hmem (f : Bytes) : f ∈ ((List.range m).map (walkHour offset now)).reverse.map
        (hourFilename base) ↔ ∃ k < m, hourFilename base (walkHour offset now k) = f := by
      simp only [List.mem_map, List.mem_reverse, List.mem_range, exists_exists_and_eq_and]
    refine ⟨?_, ⟨_, hsorted, hlist⟩, ?_, ?_, ?_⟩ <;> dsimp only <;> rw [hlist]
    · rw [List.length_map, List.length_reverse, List.length_map, List.length_range]
      exact hle
    · obtain ⟨m, rfl⟩ := Nat.exists_eq_succ_of_ne_zero hsome.ne'
      rw [List.range_succ_eq_map, List.map_cons, List.reverse_cons, List.map_append,
        List.map_singleton, List.getLast?_concat, hfirst, hfilename]
    · intro f hf hout
      rw [hopened, List.mem_singleton] at hf
      exact absurd ((hmem f).mpr ⟨0, hsome, by rw [hfirst, hf, hfilename]⟩) hout
    · intro f hf
      obtain ⟨k, hk, rfl⟩ := (hmem f).mp hf
      exact hfound k hk

/-- The file that has been opened is there besides those that were. -/
theorem Configured.opened_openFor (h : Configured offset base s) (time now : ℤ) :
    (s.openFor time now).2.opened = s.opened ++ [hourFilename base (localHour offset time)] ∧
      (s.openFor time now).2.maxFiles = s.maxFiles ∧
      ∀ f, (s.openFor time now).2.os.pathExists f = true ↔
        f = hourFilename base (localHour offset time) ∨ s.os.pathExists f = true := by
  have hname : s.filenameAt time = hourFilename base (localHour offset time) :=
    (h.filenameAt time).trans (calcFilename_localtime base offset time)
  have hne : s.filenameAt time ≠ [] := hname ▸ hourFilename_ne_nil base _
  have hclear : s.ring.file.os.Clear (FileHelper.openCalls s.truncate) := fun k _ => h.quiet k
  obtain ⟨fp, os, hopen, -, hexists⟩ := FileRing.openNew_clear hclear hne
  obtain ⟨hrotate, hsettings⟩ := ringSink.ring_rotate (now, ⟨time, .ok []⟩) s
  have hring : (s.openFor time now).2.ring = _ := congrArg Prod.snd (hrotate.symm.trans hopen)
  have hos : (s.openFor time now).2.os = os := congrArg (fun r => r.file.os) hring
  rw [hname] at hring hexists
  refine ⟨congrArg FileRing.opened hring, congrArg Prod.snd hsettings, fun f => ?_⟩
  rw [hos]
  exact hexists f

/-- The constructor keeps the files exactly if the start is sound. -/
theorem retained_new_iff (offset : ℤ) (base : Bytes) (truncate : Bool) {maxFiles : UInt16}
    (hmax : 0 < maxFiles) {clock : ℕ → ℤ}
    (hfirst : localHour offset (clock 1) = localHour offset (clock 0))
    (hlast : localHour offset (clock 2) = localHour offset (clock 0)) {os : Os}
    (hquiet : os.Quiet) :
    let sink := new calcFilename (.constant offset) base truncate maxFiles clock os
    sink.1 = none ∧ Framed offset base sink.2 ∧ (sink.2.Retained ↔
      SoundStart offset maxFiles.toNat (fun hour => hour = localHour offset (clock 0) ∨
        os.pathExists (hourFilename base hour) = true) (clock 2)) := by
  obtain ⟨hok, hcurrent, -⟩ := current_new offset base truncate maxFiles clock hquiet
  obtain ⟨hlimited, -⟩ := recorded_new_iff hmax hok
  obtain ⟨s, hconfig, hos, hmaxFiles, hnone, -, hnew⟩ :=
    exists_new offset base truncate maxFiles clock hquiet
  obtain ⟨-, hopen, -⟩ := hconfig.openFor (clock 0) (clock 1)
  obtain ⟨hopened, hsame, hexists⟩ := hconfig.opened_openFor (clock 0) (clock 1)
  have hfilename := hopen.filename.trans (calcFilename_localtime base offset (clock 0))
  rw [hnone, List.nil_append] at hopened
  rw [hmaxFiles] at hsame
  rw [if_pos (hsame ▸ hmax)] at hnew
  have hretained := retained_initFilenamesQ_iff hopen.toConfigured (hsame ▸ hmax) (clock 2)
    (by rw [hopened, hfilename]) (by rw [hlast, hfilename])
    ((hexists _).mpr (.inl hfilename))
  rw [hnew] at hlimited ⊢
  have hframed : Framed offset base
      ((s.openFor (clock 0) (clock 1)).2.initFilenamesQ (clock 2)) := by
    refine ⟨hlimited, clock 0, clock 1, { hopen with }, hfirst, fun f hf => ⟨_, le_rfl, ?_⟩⟩
    have hf : f ∈ (s.openFor (clock 0) (clock 1)).2.opened := hf
    rw [hopened] at hf
    exact List.mem_singleton.mp hf
  refine ⟨rfl, hframed, hretained.trans (iff_of_eq ?_)⟩
  rw [hsame]
  congr 1
  funext hour
  rw [hexists, hos, (hourFilename_injective base).eq_iff]

end HourlyFileSink

open HourlyFileSink

/-- With a limit and where the clock is read in the hour of the message, the queue holds the
names of the last hours in order up to the open file, and the other files that were opened are
gone, throughout a run exactly if the constructor comes by no hour twice and every message that
rotates can be formatted, or comes to the hour of the open file and cannot. -/
theorem hourly_file_sink_retains_iff (offset : ℤ) (base : Bytes) (truncate : Bool)
    (maxFiles : UInt16) (hmax : 0 < maxFiles) (clock : ℕ → ℤ)
    (hfirst : localHour offset (clock 1) = localHour offset (clock 0))
    (hlast : localHour offset (clock 2) = localHour offset (clock 0)) {os : Os}
    (hquiet : os.Quiet) (calls : List (ℤ × DailyMessage)) :
    let sink := HourlyFileSink.new HourlyFilenameCalculator.calcFilename (.constant offset) base
      truncate maxFiles clock os
    sink.1 = none ∧
      ((∀ p ∈ Runs.trace stepAt sink.2 calls, p.1.Prompt offset p.2) →
        ((Runs.run stepAt sink.2 calls).Retained ∧
            (∀ p ∈ Runs.trace stepAt sink.2 calls, p.1.Retained) ↔
          SoundStart offset maxFiles.toNat (fun hour => hour = localHour offset (clock 0) ∨
              os.pathExists (HourlyFilenameCalculator.hourFilename base hour) = true) (clock 2) ∧
            ∀ p ∈ Runs.trace stepAt sink.2 calls, p.1.Sound p.2.2)) := by
  obtain ⟨hok, hframed, hstart⟩ := retained_new_iff offset base truncate hmax hfirst hlast hquiet
  refine ⟨hok, fun hprompt => ?_⟩
  rw [← hstart]
  exact Runs.holds_throughout_iff (motive := Retained) (fun _ _ h hprompt => h.step hprompt)
    (fun _ call h _ hretained => retained_step_iff h call hretained) hframed hprompt

/-- Messages at 11:00 and at 13:00. -/
def withGap (first : Except Thrown Bytes) : List (ℤ × DailyMessage) :=
  [(11 * hourNanos, ⟨11 * hourNanos, first⟩),
    (13 * hourNanos + 1, ⟨13 * hourNanos, .ok (ascii "y")⟩)]

theorem hourly_file_sink_retains_gap :
    (Runs.run stepAt (HourlyFileSink.new HourlyFilenameCalculator.calcFilename (.constant 0)
      (ascii "h.txt") false 2 (fun _ => 10 * hourNanos) .blank).2
        (withGap (.ok (ascii "x")))).Retained := by
  obtain ⟨-, hiff⟩ := hourly_file_sink_retains_iff 0 (ascii "h.txt") false 2
    (by decide) (fun _ => 10 * hourNanos) rfl rfl Os.quiet_blank
    (withGap (.ok (ascii "x")))
  exact ((hiff (by decide)).mpr ⟨soundStart_of_le 0 (by decide) _, by decide⟩).1

/-- If the first message of an hour cannot be formatted, its file is not put into the queue,
and stays when later ones are removed.  A start in the last second of the hour after the epoch
puts the name of its file into the queue twice. -/
theorem hourly_file_sink_leaves_file :
    let clock := fun _ => 10 * hourNanos
    let calls := withGap (.error (.std (ascii "invalid UTF-8")))
    let sink := HourlyFileSink.new HourlyFilenameCalculator.calcFilename (.constant 0)
      (ascii "h.txt") false 1 clock .blank
    let s := Runs.run stepAt sink.2 calls
    let early := HourlyFileSink.new HourlyFilenameCalculator.calcFilename (.constant 0)
      (ascii "h.txt") false 2 (fun _ => 3599 * nanos + 500000000) .blank
    (calls.Pairwise fun call call' => call.2.time ≤ call'.2.time) ∧
      (∀ call ∈ calls, localHour 0 call.1 = localHour 0 call.2.time) ∧ sink.1 = none ∧
      s.opened = [ascii "h_1970-01-01_10.txt", ascii "h_1970-01-01_11.txt",
        ascii "h_1970-01-01_13.txt"] ∧
      s.filenamesQ.toList = [ascii "h_1970-01-01_13.txt"] ∧
      s.os.pathExists (ascii "h_1970-01-01_11.txt") = true ∧ ¬ s.Retained ∧
      early.1 = none ∧
      early.2.filenamesQ.toList = [ascii "h_1970-01-01_00.txt", ascii "h_1970-01-01_00.txt"] ∧
      ¬ early.2.Retained := by
  intro clock calls sink s early
  have hthere : s.os.pathExists (ascii "h_1970-01-01_11.txt") = true := by decide
  have htwice : early.2.filenamesQ.toList =
      [ascii "h_1970-01-01_00.txt", ascii "h_1970-01-01_00.txt"] := by decide
  refine ⟨by decide, by decide, by decide, by decide, by decide, hthere, fun h => ?_,
    by decide, htwice, fun h => ?_⟩
  · have hgone := h.pathExists (f := ascii "h_1970-01-01_11.txt") (by decide) (by decide)
    rw [hthere] at hgone
    cases hgone
  · have hnodup := h.nodup
    rw [htwice] at hnodup
    exact absurd rfl (List.pairwise_pair.mp hnodup)

end Structlog
