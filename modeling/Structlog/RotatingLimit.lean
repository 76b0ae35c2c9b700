import Structlog.RotatingOpen

/-!
# The size limit of `rotating_file_sink`

Whatever calls fail, no file becomes larger than `max_size`.  All calls but `fwrite` only make
files shorter, and give the base name to no file but an empty one (`Recedes`).  So it is
enough that the counter is never below the length of the file that is written (`Limited`):
the counter has the message before the file has it, and is at zero or at the length of the
message where the file is empty.

A counter that is too high, as after a rotation on opening, makes files shorter than they
might be.
-/

namespace Structlog

open Lib
open FileSystem (Recedes)

namespace FileHelper

/-- What a helper that had no file does with its own: nothing, or it opens it without
content. -/
structure Emptied (file file' : FileHelper) : Prop where
  filename : file'.filename = file.filename
  recedes : Recedes file.filename file.os.fs file'.os.fs
  onName : file'.OnName file.filename true

theorem emptied_setOs {file : FileHelper} (hclosed : file.fd = none) {os : Os}
    (h : Recedes file.filename file.os.fs os.fs) : file.Emptied { file with os } where
  filename := rfl
  recedes := h
  onName fp hfp := by
    rw [hclosed] at hfp
    cases hfp

theorem Emptied.trans {file file' file'' : FileHelper} (h : file.Emptied file')
    (h' : file'.Emptied file'') : file.Emptied file'' where
  filename := h'.filename.trans h.filename
  recedes := by
    have hrest := h'.recedes
    rw [h.filename] at hrest
    exact h.recedes.trans hrest
  onName := by
    have hname := h'.onName
    rwa [h.filename] at hname

theorem emptied_reopen {file : FileHelper} (hclosed : file.fd = none) :
    file.Emptied (file.reopen true).2 := by
  unfold reopen
  split_ifs
  · exact emptied_setOs hclosed (.refl file.filename file.os.fs)
  · obtain ⟨hrecedes, hname, hfilename⟩ :=
      openFile_recedes file.filename file.filename true file
    exact ⟨hfilename, hrecedes, hname⟩

end FileHelper

namespace RotatingFileSink

/-! ## Rotation -/

theorem fileHelper_renamingFailed (src target : Bytes) (s : RotatingFileSink) :
    (s.renamingFailed src target).2.fileHelper = (s.fileHelper.reopen true).2 := by
  rw [renamingFailed, onFile]
  rcases s.fileHelper.reopen true with ⟨_ | _, file⟩ <;> rfl

/-- A file is renamed to one of the older names. -/
theorem emptied_renameFile {s : RotatingFileSink} (hclosed : s.fileHelper.fd = none)
    (hname : s.fileHelper.filename = s.baseFilename) (src : Bytes) (i : ℕ) :
    s.fileHelper.Emptied
      (s.renameFile src (calcFilename s.baseFilename (i + 1))).2.fileHelper := by
  have hbase : calcFilename s.baseFilename 0 = s.baseFilename := rfl
  have hdst : s.fileHelper.filename ≠ calcFilename s.baseFilename (i + 1) := fun h =>
    absurd (calcFilename_injective s.baseFilename (h.symm.trans (hname.trans hbase.symm)))
      (Nat.succ_ne_zero i)
  exact FileHelper.emptied_setOs hclosed
    ((s.os.recedes_remove _ _).trans (Os.recedes_rename hdst src _))

theorem emptied_rotateLoop (n : ℕ) {s : RotatingFileSink} (hclosed : s.fileHelper.fd = none)
    (hname : s.fileHelper.filename = s.baseFilename) :
    s.fileHelper.Emptied (rotateLoop n s).2.fileHelper := by
  induction n generalizing s with
  | zero => exact FileHelper.emptied_setOs hclosed (.refl _ _)
  | succ n ih =>
      have hrename := emptied_renameFile hclosed hname (calcFilename s.baseFilename n) n
      rw [rotateLoop]
      split_ifs
      · dsimp only
        rcases hfirst : s.renameFile (calcFilename s.baseFilename n)
          (calcFilename s.baseFilename (n + 1)) with ⟨renamed, s₁⟩
        have hs₁ : s₁.fileHelper.fd = none ∧ s₁.fileHelper.filename = s₁.baseFilename ∧
            s₁.baseFilename = s.baseFilename := by
          obtain ⟨-, rfl⟩ := Prod.mk.inj hfirst
          exact ⟨hclosed, hname, rfl⟩
        obtain ⟨hclosed₁, hname₁, hbase₁⟩ := hs₁
        rw [hfirst] at hrename
        cases renamed with
        | true => exact hrename.trans (ih hclosed₁ hname₁)
        | false =>
            -- the second attempt
            have hagain := emptied_renameFile hclosed₁ hname₁ (calcFilename s.baseFilename n) n
            rw [hbase₁] at hagain
            dsimp only
            rcases hsecond : s₁.renameFile (calcFilename s.baseFilename n)
              (calcFilename s.baseFilename (n + 1)) with ⟨renamed, s₂⟩
            have hs₂ : s₂.fileHelper.fd = none ∧ s₂.fileHelper.filename = s₂.baseFilename := by
              obtain ⟨-, rfl⟩ := Prod.mk.inj hsecond
              exact ⟨hclosed₁, hname₁⟩
            rw [hsecond] at hagain
            cases renamed with
            | true => exact (hrename.trans hagain).trans (ih hs₂.1 hs₂.2)
            | false =>
                dsimp only
                rw [fileHelper_renamingFailed]
                exact (hrename.trans hagain).trans (FileHelper.emptied_reopen hs₂.1)
      · exact ih hclosed hname

theorem emptied_rotate {s : RotatingFileSink} (hname : s.fileHelper.filename = s.baseFilename) :
    s.fileHelper.close.Emptied s.rotate.2.fileHelper := by
  have hloop := emptied_rotateLoop s.maxFiles
    (s := { s with fileHelper := s.fileHelper.close }) rfl hname
  have hcases := rotateLoop_cases (s := { s with fileHelper := s.fileHelper.close })
    s.maxFiles rfl
  rw [rotate]
  rcases hcases with ⟨os, hend⟩ | ⟨thrown, s', hend, -⟩
  · rw [hend] at hloop ⊢
    exact hloop.trans (FileHelper.emptied_reopen rfl)
  · rw [hend] at hloop ⊢
    exact hloop

/-! ## The limit -/

/-- The base file is within the limit, and the counter is where `c` puts it against the
length of the file that is written and the limit. -/
structure Counted (c : ℕ → ℕ → Prop) (base : Bytes) (maxSize : ℕ) (s : RotatingFileSink) :
    Prop where
  base_eq : s.baseFilename = base
  maxSize_eq : s.maxSize = maxSize
  filename : s.fileHelper.filename = base
  baseFile : ∀ ino, s.os.fs.dir base = some ino → (s.os.fs.data ino).length ≤ maxSize
  stream : ∀ fp, s.fileHelper.fd = some fp → c (s.os.fs.data fp).length s.currentSize

/-- The counter is not below the length of the file that is written, and not above the
limit. -/
abbrev Limited (base : Bytes) (maxSize : ℕ) : RotatingFileSink → Prop :=
  Counted (fun length counter => length ≤ counter ∧ counter ≤ maxSize) base maxSize

/-- A message is in the counter and not in the file yet. -/
abbrev Ahead (base : Bytes) (maxSize : ℕ) (formatted : Bytes) : RotatingFileSink → Prop :=
  Counted (fun length counter => length + formatted.length ≤ counter ∧ counter ≤ maxSize) base
    maxSize

/-- No file has grown but within the limit. -/
def Within (maxSize : ℕ) (os os' : Os) : Prop :=
  ∀ ino, (os'.fs.data ino).length ≤ max (os.fs.data ino).length maxSize

variable {base : Bytes} {maxSize : ℕ} {s : RotatingFileSink}

theorem within_of_recedes {os os' : Os} (h : Recedes base os.fs os'.fs) (maxSize : ℕ) :
    Within maxSize os os' := fun ino => (h.data ino).trans (le_max_left _ _)

theorem Ahead.write {formatted : Bytes} (h : Ahead base maxSize formatted s) :
    Limited base maxSize (s.onFile (FileHelper.write formatted)).2 ∧
      Within maxSize s.os (s.onFile (FileHelper.write formatted)).2.os := by
  obtain ⟨taken, htaken, hfilename, hfs⟩ := FileHelper.write_appends formatted s.fileHelper
  have hfd := (FileHelper.write_fd formatted s.fileHelper).1
  have hstream := h.stream
  have hbaseFile := h.baseFile
  rw [onFile]
  dsimp only [Outcome.within, RotatingFileSink.os] at hstream hbaseFile ⊢
  cases hopen : s.fileHelper.fd with
  | none =>
      rw [hopen] at hfs
      rw [Within, hfs]
      refine ⟨⟨h.base_eq, h.maxSize_eq, hfilename.trans h.filename, ?_, ?_⟩,
        fun ino => le_max_left _ _⟩
      · rw [hfs]
        exact hbaseFile
      · intro fp hfp
        exact absurd (hfp.symm.trans (hfd.trans hopen)) (Option.some_ne_none _)
  | some fp =>
      rw [hopen] at hfs
      dsimp only at hfs
      -- What has been taken of the text goes to the open file, and nowhere else.
      obtain ⟨hlength, hcounter⟩ := hstream fp hopen
      have hdata (ino : ℕ) : ((s.fileHelper.write formatted).2.os.fs.data ino).length =
          if ino = fp then (s.fileHelper.os.fs.data fp).length + taken.length
          else (s.fileHelper.os.fs.data ino).length := by
        rw [hfs, FileSystem.append, FileSystem.setData]
        dsimp only
        rw [Function.update_apply]
        split_ifs
        · exact List.length_append
        · rfl
      refine ⟨⟨h.base_eq, h.maxSize_eq, hfilename.trans h.filename, ?_, ?_⟩, fun ino => ?_⟩
      · intro ino hino
        rw [hfs] at hino
        have hbefore := hbaseFile ino hino
        rw [hdata]
        split_ifs
        · omega
        · exact hbefore
      · intro fp' hfp'
        obtain rfl := Option.some.inj (hfp'.symm.trans (hfd.trans hopen))
        dsimp only
        rw [hdata, if_pos rfl]
        omega
      · rw [hdata]
        split_ifs
        · exact le_max_of_le_right (by omega)
        · exact le_max_left _ _

/-- A sink whose file is without content after a rotation, or not open. -/
theorem counted_of_emptied (hbase : s.baseFilename = base) (hmax : s.maxSize = maxSize)
    (hfilename : s.fileHelper.filename = base)
    (hbaseFile : ∀ ino, s.os.fs.dir base = some ino → (s.os.fs.data ino).length ≤ maxSize)
    {file : FileHelper} (h : s.fileHelper.close.Emptied file) {c : ℕ → ℕ → Prop} {counter : ℕ}
    (hcounter : file.fd ≠ none → c 0 counter) :
    Counted c base maxSize { s with fileHelper := file, currentSize := counter } where
  base_eq := hbase
  maxSize_eq := hmax
  filename := h.filename.trans hfilename
  baseFile ino hino := by
    have hrecedes := h.recedes
    have hclose : s.fileHelper.close.filename = base := hfilename
    rw [hclose] at hrecedes
    rcases hrecedes.dir ino hino with hbefore | hempty
    · exact (hrecedes.data ino).trans (hbaseFile ino hbefore)
    · exact (congrArg List.length hempty).trans_le (Nat.zero_le _)
  stream fp hfp := by
    have hempty := (h.onName fp hfp).2 rfl
    dsimp only [RotatingFileSink.os]
    rw [hempty]
    exact hcounter (by rw [show file.fd = some fp from hfp]; exact Option.some_ne_none _)

theorem Within.trans {os os' os'' : Os} (h : Within maxSize os os') (h' : Within maxSize os' os'') :
    Within maxSize os os'' := fun ino =>
  (h' ino).trans (max_le (h ino) (le_max_right _ _))

/-- The step.  A sum of two lengths within the limit does not wrap around. -/
theorem Limited.step (h : Limited base maxSize s) (hmax : maxSize < 2 ^ 63)
    {text : Except Thrown Bytes} (htext : ∀ formatted, text = .ok formatted →
      formatted.length ≤ maxSize) :
    Limited base maxSize (s.step text) ∧ Within maxSize s.os (s.step text).os := by
  cases text with
  | error thrown => exact ⟨h, fun ino => le_max_left _ _⟩
  | ok formatted =>
      have hformatted := htext formatted rfl
      have hname := h.filename.trans h.base_eq.symm
      rw [RotatingFileSink.step, sinkIt]
      dsimp only
      generalize hcount : (s.currentSize + formatted.length) % sizeT = count
      split_ifs with hfull
      -- After a rotation the file is empty, whether the rotation succeeded or not.
      · have hrotated := rotate_rotated { s with currentSize := count }
        have hemptied := emptied_rotate (s := { s with currentSize := count }) hname
        have hbase : s.fileHelper.close.filename = base := h.filename
        generalize RotatingFileSink.rotate _ = o at hrotated hemptied
        have hwithin : Within maxSize s.os o.2.os :=
          within_of_recedes (hbase ▸ hemptied.recedes : Recedes base s.os.fs o.2.os.fs) maxSize
        cases hrotated with
        | opened file hfd hnull =>
            have hahead : Ahead base maxSize formatted
                { s with fileHelper := file, currentSize := formatted.length } :=
              counted_of_emptied h.base_eq h.maxSize_eq h.filename h.baseFile hemptied
                fun _ => ⟨(Nat.zero_add _).le, hformatted⟩
            obtain ⟨hlimited, hwritten⟩ := hahead.write
            exact ⟨hlimited, hwithin.trans hwritten⟩
        | closed thrown file hfd hnull =>
            exact ⟨counted_of_emptied h.base_eq h.maxSize_eq h.filename h.baseFile hemptied
              fun hopen => absurd hfd hopen, hwithin⟩
        | restarted thrown file hfd hnull =>
            exact ⟨counted_of_emptied h.base_eq h.maxSize_eq h.filename h.baseFile hemptied
              fun _ => ⟨le_rfl, Nat.zero_le _⟩, hwithin⟩
      · have hahead : Ahead base maxSize formatted { s with currentSize := count } := by
          refine ⟨h.base_eq, h.maxSize_eq, h.filename, h.baseFile, fun fp hfp => ?_⟩
          obtain ⟨hlength, hcounter⟩ := h.stream fp hfp
          -- Without one the sum is within the limit, and the counter is not below the length.
          have hroom : (s.currentSize + formatted.length) % sizeT =
              s.currentSize + formatted.length := by
            apply Nat.mod_eq_of_lt
            rw [sizeT]
            omega
          have hlimit := h.maxSize_eq
          change (s.os.fs.data fp).length + formatted.length ≤ count ∧ count ≤ maxSize
          omega
        rw [Outcome.andThen_returned rfl]
        exact hahead.write

/-- The run: the files there are at any time within it. -/
theorem Limited.run (h : Limited base maxSize s) (hmax : maxSize < 2 ^ 63)
    {msgs : List (Except Thrown Bytes)} (hmsgs : ∀ formatted ∈ texts msgs,
      formatted.length ≤ maxSize) :
    Limited base maxSize (Runs.run RotatingFileSink.step s msgs) ∧
      Within maxSize s.os (Runs.run RotatingFileSink.step s msgs).os := by
  induction msgs generalizing s with
  | nil => exact ⟨h, fun ino => le_max_left _ _⟩
  | cons text rest ih =>
      have htext (formatted : Bytes) (hok : text = .ok formatted) :
          formatted.length ≤ maxSize := by
        rw [hok] at hmsgs
        exact hmsgs formatted List.mem_cons_self
      have hrest (formatted : Bytes) (hmem : formatted ∈ texts rest) :
          formatted.length ≤ maxSize := by
        refine hmsgs formatted ?_
        obtain ⟨x, hx, hok⟩ := List.mem_filterMap.mp hmem
        exact List.mem_filterMap.mpr ⟨x, List.mem_cons_of_mem _ hx, hok⟩
      obtain ⟨hnext, hwithin⟩ := h.step hmax htext
      obtain ⟨hlimited, hrun⟩ := ih hnext hrest
      exact ⟨hlimited, hwithin.trans hrun⟩

/-! ## The constructor -/

theorem limited_takeSize {rotateOnOpen : Bool} (hmax : maxSize < 2 ^ 63)
    (h : Counted (fun length _ => length ≤ maxSize) base maxSize s)
    (hnew : (takeSize rotateOnOpen s).1 = none) :
    Limited base maxSize (takeSize rotateOnOpen s).2 ∧
      Within maxSize s.os (takeSize rotateOnOpen s).2.os := by
  cases hfd : s.fileHelper.fd with
  | none =>
      simp only [takeSize, FileHelper.size, hfd] at hnew
      cases hnew
  | some fp =>
      have hlength : (s.fileHelper.os.fs.data fp).length ≤ maxSize := h.stream fp hfd
      cases hfault : s.os.faults 0 with
      | some fault =>
          simp only [takeSize, FileHelper.size, hfd, Os.filesize, hfault] at hnew
          cases hnew
      | none =>
          have hroom : (s.fileHelper.os.fs.data fp).length % sizeT =
              (s.fileHelper.os.fs.data fp).length := by
            apply Nat.mod_eq_of_lt
            rw [sizeT]
            omega
          -- The length fits into `size_t`, so that the counter is the length itself.
          have htake : takeSize rotateOnOpen s =
              let s' := { s with
                fileHelper := { s.fileHelper with os := s.os.next }
                currentSize := (s.fileHelper.os.fs.data fp).length }
              if rotateOnOpen ∧ 0 < s'.currentSize then s'.rotate else (none, s') := by
            simp only [takeSize, FileHelper.size, hfd, Os.filesize, hfault, hroom]
          have hlimited : Limited base maxSize { s with
              fileHelper := { s.fileHelper with os := s.os.next }
              currentSize := (s.fileHelper.os.fs.data fp).length } := by
            refine ⟨h.base_eq, h.maxSize_eq, h.filename, h.baseFile, fun fp' hfp' => ?_⟩
            obtain rfl := Option.some.inj (hfd.symm.trans hfp')
            exact ⟨le_rfl, hlength⟩
          rw [htake] at hnew ⊢
          dsimp only at hnew ⊢
          split_ifs at hnew ⊢
          · have hrotated := rotate_rotated { s with
              fileHelper := { s.fileHelper with os := s.os.next }
              currentSize := (s.fileHelper.os.fs.data fp).length }
            have hemptied := emptied_rotate (hlimited.filename.trans hlimited.base_eq.symm)
            generalize RotatingFileSink.rotate _ = o at hrotated hemptied hnew ⊢
            have hbase : s.fileHelper.close.filename = base := h.filename
            have hrecedes : Recedes base s.os.fs o.2.os.fs := hbase ▸ hemptied.recedes
            refine ⟨?_, within_of_recedes hrecedes maxSize⟩
            cases hrotated with
            | opened file hfd' hnull =>
                exact counted_of_emptied
                  (s := { s with fileHelper := { s.fileHelper with os := s.os.next } }) h.base_eq
                  h.maxSize_eq h.filename hlimited.baseFile hemptied
                  fun _ => ⟨Nat.zero_le _, hlength⟩
            | closed | restarted => cases hnew
          · exact ⟨hlimited, fun ino => le_max_left _ _⟩

theorem limited_new {maxFiles : ℕ} {rotateOnOpen : Bool} {os : Os} (hmax : maxSize < 2 ^ 63)
    (hnew : (new base maxSize maxFiles rotateOnOpen os).1 = none)
    (hfound : ((os.content base).getD []).length ≤ maxSize) :
    Limited base maxSize (new base maxSize maxFiles rotateOnOpen os).2 ∧
      Within maxSize os (new base maxSize maxFiles rotateOnOpen os).2.os := by
  have hbase : calcFilename base 0 = base := rfl
  obtain ⟨hrecedes, hname, hfilename⟩ :=
    FileHelper.openFile_recedes base base false (FileHelper.initial os)
  rw [new, onFile, hbase] at hnew ⊢
  dsimp only at hnew ⊢
  rcases hopen : (FileHelper.initial os).openFile base false with ⟨_ | thrown, file⟩ <;>
    rw [hopen] at hrecedes hname hfilename hnew
  · have hbaseFile (ino : ℕ) (hino : file.os.fs.dir base = some ino) :
        (file.os.fs.data ino).length ≤ maxSize := by
      rcases hrecedes.dir ino hino with hbefore | hempty
      · have hstart : os.fs.dir base = some ino := hbefore
        rw [Os.content, FileSystem.content, hstart] at hfound
        exact (hrecedes.data ino).trans hfound
      · exact (congrArg List.length hempty).trans_le (Nat.zero_le _)
    have hopened : Counted (fun length _ => length ≤ maxSize) base maxSize
        ⟨base, maxSize, maxFiles, 0, file⟩ :=
      ⟨rfl, rfl, hfilename, hbaseFile, fun fp hfp => hbaseFile fp (hname fp hfp).1⟩
    obtain ⟨hlimited, hwithin⟩ := limited_takeSize hmax hopened hnew
    have hfirst : Within maxSize os file.os := within_of_recedes hrecedes maxSize
    exact ⟨hlimited, hfirst.trans hwithin⟩
  · cases hnew

/-- The file is within the limit.  With one of `2 ^ 63` or more every file is that there can
be, an `off_t` being signed. -/
def Fits (maxSize : ℕ) (file : Bytes) : Prop :=
  maxSize < 2 ^ 63 ∨ file.length < 2 ^ 63 → file.length ≤ maxSize

/-- Whatever calls fail in the constructor and in a run, a file that has the base name before
the constructor, or before or after a call, is within the limit from then on. -/
theorem rotating_file_sink_limited (base : Bytes) (maxSize maxFiles : ℕ) (rotateOnOpen : Bool)
    (os : Os)
    (hnew : (new base maxSize maxFiles rotateOnOpen os).1 = none)
    (hfound : ((os.content base).getD []).length ≤ maxSize) (msgs : List (Except Thrown Bytes))
    (hmsgs : ∀ formatted ∈ texts msgs, formatted.length ≤ maxSize) :
    let s := (new base maxSize maxFiles rotateOnOpen os).2
    (∀ ino, os.fs.dir base = some ino →
        Fits maxSize ((Runs.run step s msgs).os.fs.data ino)) ∧
      ∀ early late, msgs = early ++ late →
        ∀ ino, (Runs.run step s early).os.fs.dir base = some ino →
          Fits maxSize ((Runs.run step s msgs).os.fs.data ino) := by
  intro s
  rcases Nat.lt_or_ge maxSize (2 ^ 63) with hmax | hlarge
  · obtain ⟨hlimited, hopened⟩ := limited_new hmax hnew hfound
    refine ⟨fun ino hino _ => ?_, ?_⟩
    · obtain ⟨-, hrun⟩ := hlimited.run hmax hmsgs
      have hbefore : (os.fs.data ino).length ≤ maxSize := by
        rw [Os.content, FileSystem.content, hino] at hfound
        exact hfound
      exact ((hopened.trans hrun) ino).trans (max_le hbefore le_rfl)
    · rintro early late rfl ino hino -
      have htexts : texts (early ++ late) = texts early ++ texts late := List.filterMap_append
      rw [htexts, List.forall_mem_append] at hmsgs
      obtain ⟨hmiddle, -⟩ := hlimited.run hmax hmsgs.1
      obtain ⟨-, hrun⟩ := hmiddle.run hmax hmsgs.2
      have hsplit : Runs.run RotatingFileSink.step s (early ++ late) =
          Runs.run RotatingFileSink.step (Runs.run RotatingFileSink.step s early) late :=
        List.foldl_append ..
      rw [hsplit]
      exact (hrun ino).trans (max_le (hmiddle.baseFile ino hino) le_rfl)
  · have hfits (file : Bytes) : Fits maxSize file := fun h => by omega
    exact ⟨fun ino _ => hfits _, fun _ _ _ ino _ => hfits _⟩

/-- Three bytes are there; a `rename` will fail, and a `write` after one byte. -/
def faultyBytes : Os :=
  { threeBytes with
    faults := fun k => if k = 3 ∨ k = 8 then some ⟨ascii "Input/output error", 1⟩ else none }

/-- The file that was there, renamed, and the one that is written now. -/
theorem rotating_file_sink_limited_faults :
    let s := Runs.run step (new (ascii "log.txt") 4 1 false faultyBytes).2
      [.ok (ascii "ab"), .ok (ascii "cd")]
    s.os.fs.data 1 = ascii "acd" ∧ Fits 4 (s.os.fs.data 0) ∧ Fits 4 (s.os.fs.data 1) := by
  obtain ⟨hfound, hrun⟩ := rotating_file_sink_limited (ascii "log.txt") 4 1 false faultyBytes
    (by decide) (by decide) [.ok (ascii "ab"), .ok (ascii "cd")] (by decide)
  refine ⟨by decide, hfound 0 (by decide), ?_⟩
  exact hrun [.ok (ascii "ab"), .ok (ascii "cd")] [] rfl 1 (by decide)

end RotatingFileSink

end Structlog
