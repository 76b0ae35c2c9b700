import Structlog.DailyFileSink

/-!
# `hourly_file_sink`

The hourly sink is the daily one with another name for its files, the hour in place of
a time of day for the rotation, and steps of an hour.  It takes the same messages.
-/

namespace Structlog

open Lib

/-- `hourly_filename_calculator::calc_filename`. -/
def HourlyFilenameCalculator.calcFilename (filename : Bytes) (nowTm : Tm) : Bytes :=
  let (basename, ext) := FileHelper.splitByExtension filename
  basename ++ ascii "_" ++ zeroPaddedInt 4 (nowTm.year + 1900) ++ ascii "-" ++
    zeroPaddedInt 2 (nowTm.mon + 1) ++ ascii "-" ++ zeroPaddedInt 2 nowTm.mday ++ ascii "_" ++
    zeroPaddedInt 2 nowTm.hour ++ ext

def hourNanos : ℤ := 3600 * nanos

structure HourlyFileSink where
  /-- `FileNameCalc::calc_filename`. -/
  fileNameCalc : Bytes → Tm → Bytes
  zone : Zone
  baseFilename : Bytes
  rotationTp : ℤ
  fileHelper : FileHelper
  truncate : Bool
  maxFiles : UInt16
  filenamesQ : CircularQ Bytes
  /-- The names of the files that have been opened, in order. -/
  opened : List Bytes
  /-- What has been written, and the name of the file it was written into. -/
  written : List (Bytes × Bytes)

namespace HourlyFileSink

abbrev os (s : HourlyFileSink) : Os := s.fileHelper.os

def onFile (act : FileHelper → Outcome FileHelper) (s : HourlyFileSink) :
    Outcome HourlyFileSink :=
  (act s.fileHelper).within fun fileHelper => { s with fileHelper }

/-- `FileNameCalc::calc_filename(base_filename_, now_tm(time))`. -/
def filenameAt (s : HourlyFileSink) (time : ℤ) : Bytes :=
  s.fileNameCalc s.baseFilename (s.zone.localtime (toTimeT time))

/-- `next_rotation_tp_`, when the clock says `now`. -/
def nextRotationTp (now : ℤ) (s : HourlyFileSink) : ℤ :=
  let date := s.zone.localtime (toTimeT now)
  let date := { date with min := 0, sec := 0 }
  let rotationTime := fromTimeT (s.zone.mktime date)
  if now < rotationTime then rotationTime else rotationTime + hourNanos

/-- Open the file for `time` and set the rotation point. -/
def openFor (time now : ℤ) (s : HourlyFileSink) : Outcome HourlyFileSink :=
  let filename := s.filenameAt time
  (s.onFile fun file => file.openFile filename s.truncate).andThen fun s =>
    (none, { s with rotationTp := s.nextRotationTp now, opened := s.opened ++ [filename] })

/-- The loop in `init_filenames_q_`, with room for `n` more names. -/
def initFilenames (s : HourlyFileSink) : ℕ → ℤ → List Bytes
  | 0, _ => []
  | n + 1, now =>
      let filename := s.filenameAt now
      if s.os.pathExists filename then filename :: initFilenames s n (now - hourNanos) else []

/-- `init_filenames_q_`. -/
def initFilenamesQ (now : ℤ) (s : HourlyFileSink) : HourlyFileSink :=
  let filenames := s.initFilenames s.maxFiles.toNat now
  { s with filenamesQ := filenames.reverse.foldl .pushBack (.new s.maxFiles.toNat) }

/-- The constructor, which reads the clock for the name of the file, for the rotation
point and for the files that are there.  Where it throws there is no sink. -/
def new (fileNameCalc : Bytes → Tm → Bytes) (zone : Zone) (baseFilename : Bytes)
    (truncate : Bool) (maxFiles : UInt16) (clock : ℕ → ℤ) (os : Os) : Outcome HourlyFileSink :=
  let s : HourlyFileSink :=
    { fileNameCalc
      zone
      baseFilename
      rotationTp := 0
      fileHelper := .initial os
      truncate
      maxFiles
      filenamesQ := .disabled
      opened := []
      written := [] }
  (s.openFor (clock 0) (clock 1)).andThen fun s =>
    (none, if 0 < s.maxFiles then s.initFilenamesQ (clock 2) else s)

/-- `delete_old_`. -/
def deleteOld (s : HourlyFileSink) : Outcome HourlyFileSink :=
  let currentFile := s.fileHelper.filename
  if s.filenamesQ.full then
    let oldFilename := s.filenamesQ.front
    let (ok, os) := s.os.removeIfExists oldFilename
    let s := { s with
      fileHelper := { s.fileHelper with os }
      filenamesQ := s.filenamesQ.popFront.pushBack currentFile }
    if ok then (none, s)
    else (some (os.spdlogEx (ascii "Failed removing hourly file " ++ oldFilename)), s)
  else (none, { s with filenamesQ := s.filenamesQ.pushBack currentFile })

/-- `file_helper_.write(formatted)`. -/
def write (formatted : Bytes) (s : HourlyFileSink) : Outcome HourlyFileSink :=
  (s.onFile fun file => file.write formatted).andThen fun s =>
    (none, { s with written := s.written ++ [(s.fileHelper.filename, formatted)] })

def shouldRotate (s : HourlyFileSink) (msg : DailyMessage) : Bool := s.rotationTp ≤ msg.time

/-- `sink_it_`, when the clock says `now`. -/
def sinkIt (now : ℤ) (msg : DailyMessage) (s : HourlyFileSink) : Outcome HourlyFileSink :=
  (if s.shouldRotate msg then s.openFor msg.time now else (none, s)).andThen fun s' =>
    match msg.text with
    | .error thrown => (some thrown, s')
    | .ok formatted =>
        (s'.write formatted).andThen fun s' =>
          if s.shouldRotate msg ∧ 0 < s'.maxFiles then s'.deleteOld else (none, s')

end HourlyFileSink

end Structlog
