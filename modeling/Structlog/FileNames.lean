import Mathlib.Data.List.DropRight
import Structlog.RotatingFileSink

/-!
# Directory, name and extension

A path is its folder, up to the last separator and with it, and the last component.
`split_by_extension` finds the last dot of the whole path, and compares indices to see
whether it is inside that component (`splitByExtension_stem`, `splitByExtension_whole`).
The names of the rotated files differ from the path in the last component only, so they
are in the same directory.
-/

namespace Structlog

open Lib

/-- The separator of `folder_seps_filename`. -/
def folderSep : UInt8 := charByte '/'

def dot : UInt8 := charByte '.'

/-- `os::dir_name`. -/
def Os.dirName (path : Bytes) : Bytes :=
  match rfind folderSep path with
  | some pos => path.take pos
  | none => []

/-! ## The last component -/

/-- What comes behind the last separator. -/
def lastComponent (path : Bytes) : Bytes := path.rtakeWhile (· ≠ folderSep)

/-- Nothing, or a directory with a separator behind it. -/
def IsFolder (folder : Bytes) : Prop := folder = [] ∨ ∃ dir, folder = dir ++ [folderSep]

theorem exists_folder (path : Bytes) :
    ∃ folder, IsFolder folder ∧ path = folder ++ lastComponent path ∧
      folderSep ∉ lastComponent path := by
  refine ⟨path.rdropWhile (· ≠ folderSep), ?_, List.rdropWhile_append_rtakeWhile.symm, ?_⟩
  · by_cases hnil : path.rdropWhile (· ≠ folderSep) = []
    · exact .inl hnil
    · right
      have hlast := List.rdropWhile_last_not _ _ hnil
      rw [decide_eq_true_eq, not_not] at hlast
      exact ⟨_, (List.dropLast_append_getLast hnil).symm.trans (by rw [hlast])⟩
  · intro hmem
    have hother := List.mem_rtakeWhile_imp (p := fun b => decide (b ≠ folderSep)) hmem
    exact of_decide_eq_true hother rfl

theorem dirName_append {folder name : Bytes} (hfolder : IsFolder folder)
    (hname : folderSep ∉ name) : Os.dirName (folder ++ name) = folder.dropLast := by
  rcases hfolder with rfl | ⟨dir, rfl⟩
  · rw [List.nil_append, Os.dirName, rfind_eq_none hname]
    rfl
  · rw [List.append_assoc, List.singleton_append, Os.dirName, rfind_append_cons dir hname]
    dsimp only
    rw [List.take_left, List.dropLast_concat]

/-! ## The extension -/

/-- A dot with something before it and behind it, and no other dot behind it. -/
structure HasExtension (name stem tail : Bytes) : Prop where
  split : name = stem ++ dot :: tail
  last : dot ∉ tail
  stem_ne_nil : stem ≠ []
  tail_ne_nil : tail ≠ []

theorem rfind_folder {folder name : Bytes} (hfolder : IsFolder folder)
    (hname : folderSep ∉ name) :
    rfind folderSep (folder ++ name) = if folder = [] then none else some (folder.length - 1) := by
  rcases hfolder with rfl | ⟨dir, rfl⟩
  · rw [List.nil_append, rfind_eq_none hname, if_pos rfl]
  · rw [List.append_assoc, List.singleton_append, rfind_append_cons dir hname, if_neg (by simp),
      List.length_append, List.length_singleton, Nat.add_sub_cancel]

theorem splitByExtension_stem {folder name stem tail : Bytes} (hfolder : IsFolder folder)
    (hname : folderSep ∉ name) (h : HasExtension name stem tail) :
    FileHelper.splitByExtension (folder ++ name) = (folder ++ stem, dot :: tail) := by
  have hstem := List.length_pos_iff.mpr h.stem_ne_nil
  have htail := List.length_pos_iff.mpr h.tail_ne_nil
  have hpath : folder ++ name = (folder ++ stem) ++ dot :: tail := by
    rw [h.split, List.append_assoc]
  have hdot : rfind (charByte '.') (folder ++ name) = some (folder ++ stem).length := by
    rw [hpath]
    exact rfind_append_cons _ h.last
  have hsep := rfind_folder hfolder hname
  rw [FileHelper.splitByExtension, hdot]
  dsimp only
  rw [if_neg, show rfind (charByte '/') (folder ++ name) = _ from hsep]
  · have hsplit : ((folder ++ name).take (folder ++ stem).length,
        (folder ++ name).drop (folder ++ stem).length) = (folder ++ stem, dot :: tail) := by
      rw [hpath, List.take_left, List.drop_left]
    by_cases hnil : folder = []
    · rw [if_pos hnil]
      exact hsplit
    · have hpos := List.length_pos_iff.mpr hnil
      rw [if_neg hnil]
      dsimp only
      rw [if_neg, hsplit]
      rw [List.length_append]
      omega
  · rw [hpath]
    simp only [List.length_append, List.length_cons]
    omega

theorem splitByExtension_whole {folder name : Bytes} (hfolder : IsFolder folder)
    (hname : folderSep ∉ name) (h : ∀ stem tail, ¬ HasExtension name stem tail) :
    FileHelper.splitByExtension (folder ++ name) = (folder ++ name, []) := by
  have hsep := rfind_folder hfolder hname
  by_cases hdot : dot ∈ folder ++ name
  · obtain ⟨before, tail, hpath, htail⟩ := exists_last_of_mem hdot
    have hindex : rfind (charByte '.') (folder ++ name) = some before.length := by
      rw [hpath]
      exact rfind_append_cons before htail
    rw [FileHelper.splitByExtension, hindex]
    dsimp only
    split_ifs with hends
    · rfl
    · rw [hpath, List.length_append, List.length_cons] at hends
      rw [show rfind (charByte '/') (folder ++ name) = _ from hsep]
      -- A dot behind the folder would be one that makes an extension.
      have hbefore : before.length ≤ folder.length ∧ folder ≠ [] := by
        by_contra houtside
        rcases List.append_eq_append_iff.mp hpath with ⟨stem, rfl, hsplit⟩ | ⟨more, hmore, -⟩
        · refine h stem tail ⟨hsplit, htail, ?_, ?_⟩
          · rintro rfl
            rw [List.append_nil] at hends houtside
            have hnil : folder ≠ [] := fun hnil => hends (.inl (by rw [hnil]; rfl))
            exact houtside ⟨le_rfl, hnil⟩
          · rintro rfl
            exact hends (.inr rfl)
        · have hnil : folder ≠ [] := by
            rintro rfl
            have hbefore : before = [] := (List.append_eq_nil_iff.mp hmore.symm).1
            exact hends (.inl (by rw [hbefore]; rfl))
          refine houtside ⟨?_, hnil⟩
          rw [hmore, List.length_append]
          exact Nat.le_add_right _ _
      rw [if_neg hbefore.2]
      dsimp only
      rw [if_pos (Nat.sub_le_sub_right hbefore.1 1)]
  · rw [FileHelper.splitByExtension, show rfind (charByte '.') (folder ++ name) = none from
      rfind_eq_none hdot]

/-! ## Names with an index -/

theorem folderSep_not_mem_decimal (n : ℕ) : folderSep ∉ decimal n := by
  intro hmem
  have hbounds := mem_decimal_bounds hmem
  have hsep : folderSep.toNat = 47 := rfl
  omega

/-- The index stands in the last component. -/
theorem calcFilename_component {folder stem ext : Bytes} {path : Bytes}
    (hsplit : FileHelper.splitByExtension path = (folder ++ stem, ext)) {index : ℕ}
    (hindex : index ≠ 0) :
    RotatingFileSink.calcFilename path index =
      folder ++ (stem ++ ascii "." ++ decimal index ++ ext) := by
  rw [RotatingFileSink.calcFilename, if_neg hindex, hsplit]
  simp only [List.append_assoc]

theorem dirName_calcFilename {folder name stem ext : Bytes} (hfolder : IsFolder folder)
    (hname : folderSep ∉ name) (hparts : name = stem ++ ext)
    (hsplit : FileHelper.splitByExtension (folder ++ name) = (folder ++ stem, ext)) (index : ℕ) :
    Os.dirName (RotatingFileSink.calcFilename (folder ++ name) index) =
      Os.dirName (folder ++ name) := by
  by_cases hindex : index = 0
  · rw [RotatingFileSink.calcFilename, if_pos hindex]
  · have hother : folderSep ∉ stem ++ ascii "." ++ decimal index ++ ext := by
      rw [hparts, List.mem_append, not_or] at hname
      simp only [List.mem_append, not_or]
      exact ⟨⟨⟨hname.1, by decide⟩, folderSep_not_mem_decimal index⟩, hname.2⟩
    rw [calcFilename_component hsplit hindex, dirName_append hfolder hother,
      dirName_append hfolder hname]

theorem calcFilename_between (path : Bytes) (index : ℕ) :
    (FileHelper.splitByExtension path).1 <+: RotatingFileSink.calcFilename path index ∧
      (FileHelper.splitByExtension path).2 <:+ RotatingFileSink.calcFilename path index := by
  by_cases hindex : index = 0
  · have happend := FileHelper.splitByExtension_append path
    rw [RotatingFileSink.calcFilename, if_pos hindex]
    exact ⟨⟨_, happend⟩, ⟨_, happend⟩⟩
  · rw [RotatingFileSink.calcFilename, if_neg hindex]
    dsimp only
    refine ⟨?_, List.suffix_append _ _⟩
    rw [List.append_assoc, List.append_assoc]
    exact List.prefix_append _ _

/-- Nothing of a name is lost.  There is an extension exactly if the last component has a dot
inside, and then it begins at the last one; and the names of the rotated files differ, and
have the directory, the base and the extension of the path. -/
theorem file_names_split (path : Bytes) :
    let base := (FileHelper.splitByExtension path).1
    let ext := (FileHelper.splitByExtension path).2
    base ++ ext = path ∧
      (ext ≠ [] ↔ ∃ stem tail, HasExtension (lastComponent path) stem tail) ∧
      (∀ stem tail, HasExtension (lastComponent path) stem tail →
        ext = dot :: tail ∧ dot ∉ tail ∧ folderSep ∉ ext) ∧
      Function.Injective (RotatingFileSink.calcFilename path) ∧
      ∀ index, Os.dirName (RotatingFileSink.calcFilename path index) = Os.dirName path ∧
        base <+: RotatingFileSink.calcFilename path index ∧
        ext <:+ RotatingFileSink.calcFilename path index := by
  intro base ext
  obtain ⟨folder, hfolder, hpath, hname⟩ := exists_folder path
  have hextension {stem tail : Bytes} (h : HasExtension (lastComponent path) stem tail) :
      FileHelper.splitByExtension path = (folder ++ stem, dot :: tail) := by
    have hsplit := splitByExtension_stem hfolder hname h
    rwa [← hpath] at hsplit
  refine ⟨FileHelper.splitByExtension_append path, ⟨fun hne => ?_, ?_⟩, fun stem tail h => ?_,
    RotatingFileSink.calcFilename_injective path,
    fun index => ⟨?_, calcFilename_between path index⟩⟩
  · by_contra hnone
    push Not at hnone
    have hwhole := splitByExtension_whole hfolder hname hnone
    rw [← hpath] at hwhole
    exact hne (congrArg Prod.snd hwhole)
  · rintro ⟨stem, tail, h⟩
    have hext : ext = dot :: tail := congrArg Prod.snd (hextension h)
    rw [hext]
    exact List.cons_ne_nil _ _
  · have hext : ext = dot :: tail := congrArg Prod.snd (hextension h)
    refine ⟨hext, h.last, fun hmem => hname ?_⟩
    rw [h.split]
    exact List.mem_append_right _ (hext ▸ hmem)
  · rw [hpath]
    by_cases hnone : ∃ stem tail, HasExtension (lastComponent path) stem tail
    · obtain ⟨stem, tail, h⟩ := hnone
      exact dirName_calcFilename hfolder hname h.split (splitByExtension_stem hfolder hname h) index
    · push Not at hnone
      have hwhole := splitByExtension_whole hfolder hname hnone
      exact dirName_calcFilename hfolder hname (List.append_nil _).symm hwhole index

end Structlog
