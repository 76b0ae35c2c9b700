import Mathlib.Data.Nat.Notation
import Mathlib.Logic.Function.Basic
import Mathlib.Tactic.SplitIfs

/-!
# A file system with inodes

Names refer to inodes and inodes hold bytes.  A name refers to at most one inode
and, there being no links, an inode has at most one name; an inode that has not
been given out has no name.  These are fields of the structure.

An open file is an inode, so that it can be written to after its name is gone or
refers to something else.  `content` is what is found under a name.  The lemmas
say what each operation does to the content of every name: of the operations on
an inode only the name of that inode sees anything.  Of the operations only `append` makes a
file longer (`Recedes`).
-/

namespace Structlog.Lib

/-- Names are taken from `ν` and files hold lists of `β`. -/
structure FileSystem (ν β : Type*) where
  dir : ν → Option ℕ
  data : ℕ → List β
  next : ℕ
  fresh : ∀ name ino, dir name = some ino → ino < next
  injective : ∀ name name' ino, dir name = some ino → dir name' = some ino → name = name'

namespace FileSystem

variable {ν β : Type*} [DecidableEq ν]

def empty : FileSystem ν β where
  dir _ := none
  data _ := []
  next := 0
  fresh := by simp
  injective := by simp

/-- What is found under a name. -/
def content (fs : FileSystem ν β) (name : ν) : Option (List β) := (fs.dir name).map fs.data

/-- The inode of a file, which is made if it is not there. -/
def openName (fs : FileSystem ν β) (name : ν) : ℕ × FileSystem ν β :=
  match fs.dir name with
  | some ino => (ino, fs)
  | none =>
      (fs.next,
        { dir := Function.update fs.dir name (some fs.next)
          data := Function.update fs.data fs.next []
          next := fs.next + 1
          fresh := fun other ino hother => by
            rw [Function.update_apply] at hother
            split_ifs at hother
            · obtain rfl := Option.some.inj hother
              exact Nat.lt_succ_self _
            · exact Nat.lt_succ_of_lt (fs.fresh other ino hother)
          injective := fun a b ino ha hb => by
            rw [Function.update_apply] at ha hb
            split_ifs at ha hb with hna hnb hnb
            · rw [hna, hnb]
            · obtain rfl := Option.some.inj ha
              exact absurd (fs.fresh b _ hb) (Nat.lt_irrefl _)
            · obtain rfl := Option.some.inj hb
              exact absurd (fs.fresh a _ ha) (Nat.lt_irrefl _)
            · exact fs.injective a b ino ha hb })

/-- Replace what an inode holds. -/
def setData (fs : FileSystem ν β) (ino : ℕ) (bytes : List β) : FileSystem ν β :=
  { fs with data := Function.update fs.data ino bytes }

/-- Write at the end. -/
def append (fs : FileSystem ν β) (ino : ℕ) (bytes : List β) : FileSystem ν β :=
  fs.setData ino (fs.data ino ++ bytes)

def remove (fs : FileSystem ν β) (name : ν) : FileSystem ν β :=
  { fs with
    dir := Function.update fs.dir name none
    fresh := fun other ino hother => by
      rw [Function.update_apply] at hother
      split_ifs at hother
      exact fs.fresh other ino hother
    injective := fun a b ino ha hb => by
      rw [Function.update_apply] at ha hb
      split_ifs at ha hb
      exact fs.injective a b ino ha hb }

/-- Give the file `src` the name `dst`, whatever had that name before. -/
def rename (fs : FileSystem ν β) (src dst : ν) : FileSystem ν β :=
  if src = dst then fs
  else
    { fs with
      dir := Function.update (Function.update fs.dir dst (fs.dir src)) src none
      fresh := fun other ino hother => by
        simp only [Function.update_apply] at hother
        split_ifs at hother
        · exact fs.fresh src ino hother
        · exact fs.fresh other ino hother
      injective := fun a b ino ha hb => by
        simp only [Function.update_apply] at ha hb
        split_ifs at ha hb with has had hbs hbd hbs hbd
        · rw [had, hbd]
        · exact absurd (fs.injective src b ino ha hb) (Ne.symm hbs)
        · exact absurd (fs.injective a src ino ha hb) has
        · exact fs.injective a b ino ha hb }

variable {fs : FileSystem ν β}

theorem dir_openName (fs : FileSystem ν β) (name : ν) :
    (fs.openName name).2.dir name = some (fs.openName name).1 := by
  unfold openName
  split
  · assumption
  · simp

theorem content_openName (fs : FileSystem ν β) (name other : ν) :
    (fs.openName name).2.content other =
      if other = name then some ((fs.content name).getD []) else fs.content other := by
  unfold openName content
  split
  · next ino hino =>
      split_ifs with heq
      · simp [heq, hino]
      · rfl
  · next hnone =>
      by_cases heq : other = name
      · simp [heq, hnone]
      · simp only [Function.update_apply, if_neg heq, hnone]
        cases hother : fs.dir other with
        | none => rfl
        | some ino => simp [Nat.ne_of_lt (fs.fresh other ino hother)]

/-- An open file that has a name is seen under that name only. -/
theorem content_setData {name : ν} {ino : ℕ} (h : fs.dir name = some ino) (bytes : List β)
    (other : ν) :
    (fs.setData ino bytes).content other =
      if other = name then some bytes else fs.content other := by
  unfold setData content
  by_cases heq : other = name
  · simp [heq, h]
  · rw [if_neg heq]
    cases hother : fs.dir other with
    | none => simp
    | some ino' =>
        have hne : ino' ≠ ino := fun hsame => heq (fs.injective other name ino (hsame ▸ hother) h)
        simp [hne]

theorem content_append {name : ν} {ino : ℕ} (h : fs.dir name = some ino) (bytes : List β)
    (other : ν) :
    (fs.append ino bytes).content other =
      if other = name then (fs.content name).map (· ++ bytes) else fs.content other := by
  rw [append, content_setData h]
  simp [content, h]

theorem content_remove (fs : FileSystem ν β) (name other : ν) :
    (fs.remove name).content other = if other = name then none else fs.content other := by
  unfold remove content
  by_cases heq : other = name
  · simp [heq]
  · simp [heq]

theorem content_rename {src dst : ν} (h : src ≠ dst) (fs : FileSystem ν β) (other : ν) :
    (fs.rename src dst).content other =
      if other = src then none else if other = dst then fs.content src else fs.content other := by
  unfold rename content
  simp only [if_neg h, Function.update_apply]
  split_ifs <;> rfl

/-! ## Operations that write nothing -/

/-- No file is longer than before, and the one with the name had it before or is empty. -/
structure Recedes (name : ν) (fs fs' : FileSystem ν β) : Prop where
  data : ∀ ino, (fs'.data ino).length ≤ (fs.data ino).length
  dir : ∀ ino, fs'.dir name = some ino → fs.dir name = some ino ∨ fs'.data ino = []

namespace Recedes

variable {name : ν} {fs' fs'' : FileSystem ν β}

omit [DecidableEq ν] in
theorem refl (name : ν) (fs : FileSystem ν β) : Recedes name fs fs :=
  ⟨fun _ => Nat.le_refl _, fun _ h => .inl h⟩

omit [DecidableEq ν] in
theorem trans (h : Recedes name fs fs') (h' : Recedes name fs' fs'') : Recedes name fs fs'' where
  data ino := Nat.le_trans (h'.data ino) (h.data ino)
  dir ino hino := by
    rcases h'.dir ino hino with hbefore | hempty
    · rcases h.dir ino hbefore with hstart | hempty
      · exact .inl hstart
      · have hle := h'.data ino
        rw [hempty] at hle
        exact .inr (List.length_eq_zero_iff.mp (Nat.le_zero.mp hle))
    · exact .inr hempty

theorem openName (name : ν) (fs : FileSystem ν β) (other : ν) :
    Recedes name fs (fs.openName other).2 := by
  unfold FileSystem.openName
  split
  · exact refl name fs
  · refine ⟨fun ino => ?_, fun ino hino => ?_⟩
    · dsimp only
      rw [Function.update_apply]
      split_ifs
      · exact Nat.zero_le _
      · exact Nat.le_refl _
    · dsimp only at hino ⊢
      rw [Function.update_apply] at hino
      split_ifs at hino
      · obtain rfl := Option.some.inj hino
        exact .inr (Function.update_self ..)
      · exact .inl hino

omit [DecidableEq ν] in
theorem setData_nil (name : ν) (fs : FileSystem ν β) (ino : ℕ) :
    Recedes name fs (fs.setData ino []) := by
  refine ⟨fun other => ?_, fun _ h => .inl h⟩
  rw [FileSystem.setData]
  dsimp only
  rw [Function.update_apply]
  split_ifs
  · exact Nat.zero_le _
  · exact Nat.le_refl _

theorem remove (name : ν) (fs : FileSystem ν β) (other : ν) :
    Recedes name fs (fs.remove other) := by
  refine ⟨fun _ => Nat.le_refl _, fun ino hino => .inl ?_⟩
  rw [FileSystem.remove] at hino
  dsimp only at hino
  rw [Function.update_apply] at hino
  split_ifs at hino
  exact hino

theorem rename {src dst : ν} (hdst : name ≠ dst) (fs : FileSystem ν β) :
    Recedes name fs (fs.rename src dst) := by
  refine ⟨fun ino => ?_, fun ino hino => .inl ?_⟩
  · unfold FileSystem.rename
    split_ifs <;> exact Nat.le_refl _
  · unfold FileSystem.rename at hino
    split_ifs at hino
    · exact hino
    · dsimp only at hino
      rw [Function.update_apply, Function.update_of_ne hdst] at hino
      split_ifs at hino
      exact hino

end Recedes

end FileSystem

end Structlog.Lib
