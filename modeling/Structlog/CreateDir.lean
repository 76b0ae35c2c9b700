import Mathlib.Data.Stream.Defs
import Structlog.FileNames
import Structlog.Lib.DirTree

/-!
# `create_dir`

The loop goes from separator to separator, and makes a directory of what is before each of them
if there is none yet.  Paths are looked up as the system does it: a separator more makes no
difference.  So what is before a separator leads to a directory on the way to that of the path
(`resolve_append`), and a separator at the end, behind which the loop does not look, is none
that matters.

The loop keeps that the directories up to where it is are there (`createDirLoop_spec`).
-/

namespace Structlog

open Lib

/-- `find_first_of`, for one character. -/
def findFirstOf (c : UInt8) (offset : ℕ) (str : Bytes) : Option ℕ :=
  ((str.drop offset).idxOf? c).map (offset + ·)

/-- The directories there are, and the calls of `mkdir`. -/
structure Directories where
  tree : DirTree Bytes
  /-- The working directory. -/
  cwd : List Bytes
  /-- The calls to come: whether the system refuses a directory that could be made. -/
  refusals : Stream' Bool
  /-- The calls that have been made, and whether they have returned `0`. -/
  mkdirs : List (Bytes × Bool)

/-- The names in a path. -/
def components (path : Bytes) : List Bytes := (path.splitOn folderSep).filter (· ≠ [])

namespace Directories

/-- The directory that a path leads to. -/
def resolve (path : Bytes) (d : Directories) : List Bytes :=
  (if path.head? = some folderSep then [] else d.cwd) ++ components path

/-- `path_exists`; the empty path leads nowhere. -/
def pathExists (path : Bytes) (d : Directories) : Bool :=
  decide (path ≠ []) && d.tree.has (d.resolve path)

/-- `mkdir_`. -/
def mkdir (path : Bytes) (d : Directories) : Bool × Directories :=
  let dir := d.resolve path
  let d' := { d with refusals := d.refusals.tail }
  if h : d.tree.has dir.dropLast = true then
    if path = [] ∨ d.tree.has dir = true ∨ d.refusals.head = true then
      (false, { d' with mkdirs := d.mkdirs ++ [(path, false)] })
    else (true, { d' with tree := d.tree.insert dir h, mkdirs := d.mkdirs ++ [(path, true)] })
  else (false, { d' with mkdirs := d.mkdirs ++ [(path, false)] })

/-- `subdir.empty() || path_exists(subdir) || mkdir_(subdir)`. -/
def ensure (subdir : Bytes) (d : Directories) : Bool × Directories :=
  if subdir = [] ∨ d.pathExists subdir = true then (true, d) else d.mkdir subdir

/-- The end of the token from `searchOffset` on. -/
def tokenPos (path : Bytes) (searchOffset : ℕ) : ℕ :=
  (findFirstOf folderSep searchOffset path).getD path.length

theorem le_tokenPos_or (path : Bytes) (searchOffset : ℕ) :
    searchOffset ≤ tokenPos path searchOffset ∨ tokenPos path searchOffset = path.length := by
  rw [tokenPos, findFirstOf]
  cases (path.drop searchOffset).idxOf? folderSep with
  | none => exact .inr rfl
  | some i => exact .inl (Nat.le_add_right searchOffset i)

/-- The loop of `create_dir`. -/
def createDirLoop (path : Bytes) (searchOffset : ℕ) (d : Directories) : Bool × Directories :=
  let pos := tokenPos path searchOffset
  match d.ensure (path.take pos) with
  | (false, d) => (false, d)
  | (true, d) =>
      if pos + 1 < path.length then createDirLoop path (pos + 1) d else (true, d)
termination_by path.length - searchOffset
decreasing_by
  have := le_tokenPos_or path searchOffset
  omega

def createDir (path : Bytes) (d : Directories) : Bool × Directories :=
  if d.pathExists path = true then (true, d)
  else if path = [] then (false, d)
  else createDirLoop path 0 d

/-! ## Paths -/

theorem components_append (before after : Bytes) :
    components (before ++ folderSep :: after) = components before ++ components after := by
  rw [components, List.splitOn_append_cons_self, List.filter_append]
  rfl

/-- What is before a separator leads to a directory on the way. -/
theorem resolve_append {before : Bytes} (h : before ≠ []) (after : Bytes) (d : Directories) :
    d.resolve (before ++ folderSep :: after) = d.resolve before ++ components after := by
  rw [resolve, resolve, List.head?_append_of_ne_nil _ h, components_append, List.append_assoc]

/-- A separator at the end makes no difference, nor does it alone lead anywhere but to the root. -/
theorem pathExists_append_sep {path : Bytes} {d : Directories}
    (h : path = [] ∨ d.pathExists path = true) : d.pathExists (path ++ [folderSep]) = true := by
  have hnil : path ++ [folderSep] ≠ [] :=
    List.append_ne_nil_of_right_ne_nil _ (List.cons_ne_nil _ _)
  rw [pathExists, decide_eq_true hnil, Bool.true_and]
  rcases h with rfl | hexists
  · exact d.tree.has_root
  · rw [pathExists, Bool.and_eq_true, decide_eq_true_iff] at hexists
    rw [resolve_append hexists.1, show components [] = [] from rfl, List.append_nil]
    exact hexists.2

/-- What is before a separator of a path, or the whole path. -/
def IsPart (part path : Bytes) : Prop := part = path ∨ ∃ after, path = part ++ folderSep :: after

/-- The ends of these parts. -/
def IsEnd (path : Bytes) (pos : ℕ) : Prop := pos = path.length ∨ path[pos]? = some folderSep

theorem IsEnd.le {path : Bytes} {pos : ℕ} (h : IsEnd path pos) : pos ≤ path.length := by
  rcases h with rfl | hsep
  · exact le_rfl
  · exact (List.getElem?_eq_some_iff.mp hsep).1.le

theorem isPart_iff {part path : Bytes} :
    IsPart part path ↔ ∃ pos, IsEnd path pos ∧ part = path.take pos := by
  constructor
  · rintro (rfl | ⟨after, rfl⟩)
    · exact ⟨_, .inl rfl, List.take_length.symm⟩
    · refine ⟨part.length, .inr ?_, List.take_left.symm⟩
      rw [List.getElem?_append_right le_rfl, Nat.sub_self]
      rfl
  · rintro ⟨pos, rfl | hsep, rfl⟩
    · exact .inl List.take_length
    · obtain ⟨hlt, hget⟩ := List.getElem?_eq_some_iff.mp hsep
      refine .inr ⟨path.drop (pos + 1), ?_⟩
      rw [← hget, ← List.drop_eq_getElem_cons hlt, List.take_append_drop]

/-- The parts of a path that exists do. -/
theorem pathExists_of_isPart {part path : Bytes} {d : Directories}
    (h : d.pathExists path = true) (hpart : IsPart part path) (hne : part ≠ []) :
    d.pathExists part = true := by
  rw [pathExists, Bool.and_eq_true] at h
  rw [pathExists, decide_eq_true hne, Bool.true_and]
  rcases hpart with rfl | ⟨after, rfl⟩
  · exact h.2
  · rw [resolve_append hne] at h
    exact d.tree.has_of_append h.2

theorem tokenPos_spec {path : Bytes} {searchOffset : ℕ} (h : searchOffset ≤ path.length) :
    searchOffset ≤ tokenPos path searchOffset ∧ IsEnd path (tokenPos path searchOffset) ∧
      ∀ pos, searchOffset ≤ pos → pos < tokenPos path searchOffset → ¬ IsEnd path pos := by
  have hdrop i : (path.drop searchOffset)[i]? = path[searchOffset + i]? := List.getElem?_drop
  rw [tokenPos, findFirstOf]
  cases hfound : (path.drop searchOffset).idxOf? folderSep with
  | none =>
      refine ⟨h, .inl rfl, ?_⟩
      rintro pos hle hlt (rfl | hsep)
      · exact Nat.lt_irrefl _ hlt
      · have hmem : folderSep ∈ path.drop searchOffset := by
          apply List.mem_of_getElem? (i := pos - searchOffset)
          rw [hdrop, Nat.add_sub_cancel' hle, hsep]
        exact List.idxOf?_eq_none_iff.mp hfound hmem
  | some i =>
      obtain ⟨hlt, hget, hbefore⟩ := List.idxOf?_eq_some_iff.mp hfound
      have hsep : path[searchOffset + i]? = some folderSep := by
        rw [← hdrop, List.getElem?_eq_getElem hlt, hget]
      refine ⟨Nat.le_add_right _ _, .inr hsep, ?_⟩
      rintro pos hle hpos (rfl | hother)
      · rw [List.length_drop] at hlt
        exact absurd hpos (by simp; omega)
      · have hless : pos - searchOffset < i := by
          simp at hpos
          omega
        have hget' := hdrop (pos - searchOffset)
        rw [Nat.add_sub_cancel' hle, hother, List.getElem?_eq_getElem (hless.trans hlt)] at hget'
        exact hbefore _ hless (Option.some.inj hget')

/-! ## The calls of `mkdir` -/

/-- By calls of `mkdir` on parts of the path from `start` on, one behind the other, nothing else
has been done than to make these directories. -/
structure Grown (path : Bytes) (start : ℕ) (calls : List (Bytes × Bool)) (d d' : Directories) :
    Prop where
  mkdirs : d'.mkdirs = d.mkdirs ++ calls
  parts : ∀ call ∈ calls, call.1 ≠ [] ∧
    ∃ pos, start ≤ pos ∧ IsEnd path pos ∧ call.1 = path.take pos
  ordered : calls.Pairwise fun call later => call.1.length < later.1.length
  cwd : d'.cwd = d.cwd
  tree : ∀ dir, d'.tree.has dir = true ↔
    d.tree.has dir = true ∨ ∃ call ∈ calls, call.2 = true ∧ d.resolve call.1 = dir

theorem resolve_of_cwd {d d' : Directories} (h : d'.cwd = d.cwd) (path : Bytes) :
    d'.resolve path = d.resolve path := by
  rw [resolve, resolve, h]

theorem Grown.refl (path : Bytes) (start : ℕ) (d : Directories) : Grown path start [] d d where
  mkdirs := (List.append_nil _).symm
  parts _ hcall := absurd hcall List.not_mem_nil
  ordered := List.Pairwise.nil
  cwd := rfl
  tree dir := by
    refine (or_iff_left ?_).symm
    rintro ⟨call, hcall, -⟩
    exact List.not_mem_nil hcall

theorem Grown.pathExists {path part : Bytes} {start : ℕ} {calls : List (Bytes × Bool)}
    {d d' : Directories} (h : Grown path start calls d d') (hexists : d.pathExists part = true) :
    d'.pathExists part = true := by
  rw [Directories.pathExists, Bool.and_eq_true] at hexists ⊢
  rw [resolve_of_cwd h.cwd]
  exact ⟨hexists.1, (h.tree _).mpr (.inl hexists.2)⟩

theorem Grown.mono {path : Bytes} {start pos : ℕ} {calls : List (Bytes × Bool)}
    {d d' : Directories} (h : Grown path pos calls d d') (hle : start ≤ pos) :
    Grown path start calls d d' where
  mkdirs := h.mkdirs
  parts call hcall := by
    obtain ⟨hne, other, hother, hpart⟩ := h.parts call hcall
    exact ⟨hne, other, hle.trans hother, hpart⟩
  ordered := h.ordered
  cwd := h.cwd
  tree := h.tree

/-- One call, and then others further on. -/
theorem Grown.trans {path : Bytes} {start pos : ℕ} {calls later : List (Bytes × Bool)}
    {d d₁ d₂ : Directories} (h : Grown path start calls d d₁) (hle : start ≤ pos)
    (hcalls : ∀ call ∈ calls, call.1.length < pos) (hlater : Grown path pos later d₁ d₂) :
    Grown path start (calls ++ later) d d₂ where
  mkdirs := by rw [hlater.mkdirs, h.mkdirs, List.append_assoc]
  parts call hcall := by
    rcases List.mem_append.mp hcall with hfirst | hnext
    · exact h.parts call hfirst
    · obtain ⟨hne, other, hother, hend, hpart⟩ := hlater.parts call hnext
      exact ⟨hne, other, hle.trans hother, hend, hpart⟩
  ordered := by
    refine List.pairwise_append.mpr ⟨h.ordered, hlater.ordered, ?_⟩
    intro call hcall next hnext
    obtain ⟨-, other, hother, hend, hpart⟩ := hlater.parts next hnext
    rw [hpart, List.length_take_of_le hend.le]
    exact (hcalls call hcall).trans_le hother
  cwd := hlater.cwd.trans h.cwd
  tree dir := by
    rw [hlater.tree, h.tree, or_assoc]
    refine or_congr_right ?_
    simp only [resolve_of_cwd h.cwd, List.mem_append, or_and_right, exists_or]

theorem mkdir_spec (path : Bytes) (d : Directories) :
    let r := d.mkdir path
    r.2.mkdirs = d.mkdirs ++ [(path, r.1)] ∧ r.2.cwd = d.cwd ∧
      ∀ dir, r.2.tree.has dir = true ↔
        d.tree.has dir = true ∨ (r.1 = true ∧ d.resolve path = dir) := by
  have hfalse (b : Bool) (dir : List Bytes) :
      b = true ↔ b = true ∨ (False ∧ d.resolve path = dir) := by
    rw [false_and, or_false]
  rw [mkdir]
  dsimp only
  split_ifs with hparent hrefused
  · exact ⟨rfl, rfl, fun dir => hfalse _ dir⟩
  · refine ⟨rfl, rfl, fun dir => ?_⟩
    rw [DirTree.has_insert, or_comm, eq_comm (a := dir)]
    exact or_congr_right (and_iff_right rfl).symm
  · exact ⟨rfl, rfl, fun dir => hfalse _ dir⟩

/-- At the end of a part it is there already, or `mkdir` is called for it. -/
theorem ensure_spec {path : Bytes} {pos : ℕ} (h : IsEnd path pos) (d : Directories) :
    ∃ calls, Grown path pos calls d (d.ensure (path.take pos)).2 ∧
      (∀ call ∈ calls, call.1.length = pos) ∧
      ((d.ensure (path.take pos)).1 = true →
        path.take pos = [] ∨ (d.ensure (path.take pos)).2.pathExists (path.take pos) = true) ∧
      ((d.ensure (path.take pos)).1 = false → ∃ call ∈ calls, call.2 = false) := by
  by_cases hthere : path.take pos = [] ∨ d.pathExists (path.take pos) = true
  · rw [ensure, if_pos hthere]
    refine ⟨[], .refl path pos d, fun call hcall => absurd hcall List.not_mem_nil,
      fun _ => hthere, fun hfailed => Bool.noConfusion hfailed⟩
  · obtain ⟨hmkdirs, hcwd, htree⟩ := mkdir_spec (path.take pos) d
    have hne : path.take pos ≠ [] := fun hnil => hthere (.inl hnil)
    rw [ensure, if_neg hthere]
    refine ⟨[(path.take pos, (d.mkdir (path.take pos)).1)], ?_, ?_, ?_, ?_⟩
    · constructor
      case mkdirs => exact hmkdirs
      case parts =>
        intro call hcall
        rw [List.mem_singleton.mp hcall]
        exact ⟨hne, pos, le_rfl, h, rfl⟩
      case ordered => exact List.pairwise_singleton _ _
      case cwd => exact hcwd
      case tree =>
        intro dir
        rw [htree]
        simp only [List.mem_singleton, exists_eq_left]
    · intro call hcall
      rw [List.mem_singleton.mp hcall]
      exact List.length_take_of_le h.le
    · intro hmade
      right
      rw [pathExists, decide_eq_true hne, Bool.true_and, resolve_of_cwd hcwd]
      exact (htree _).mpr (.inr ⟨hmade, rfl⟩)
    · intro hfailed
      exact ⟨_, List.mem_singleton_self _, hfailed⟩

/-! ## The loop -/

/-- A turn of the loop: the parts are there up to where the next one starts. -/
theorem ensure_token {path : Bytes} {start : ℕ} (hstart : start < path.length) {d : Directories}
    (hbefore : ∀ pos, 0 < pos → pos < start → IsEnd path pos →
      d.pathExists (path.take pos) = true) :
    let r := d.ensure (path.take (tokenPos path start))
    ∃ calls, Grown path start calls d r.2 ∧
      (∀ call ∈ calls, call.1.length < tokenPos path start + 1) ∧
      (r.1 = true → ∀ pos, 0 < pos → pos < tokenPos path start + 1 → IsEnd path pos →
        r.2.pathExists (path.take pos) = true) ∧
      (r.1 = false → ∃ call ∈ calls, call.2 = false) := by
  obtain ⟨hle, hend, hbetween⟩ := tokenPos_spec hstart.le
  obtain ⟨calls, hgrown, hlength, hthere, hfailed⟩ := ensure_spec hend d
  refine ⟨calls, hgrown.mono hle, fun call hcall => ?_, ?_, hfailed⟩
  · rw [hlength call hcall]
    exact Nat.lt_succ_self _
  · intro hmade pos hpos hlt hpart
    rcases Nat.lt_or_ge pos start with hearlier | hlater
    · exact hgrown.pathExists (hbefore pos hpos hearlier hpart)
    · have heq : pos = tokenPos path start := by
        by_contra hne
        exact hbetween pos hlater (by omega) hpart
      rw [heq]
      refine (hthere hmade).resolve_left fun hnil => ?_
      have hzero := congrArg List.length hnil
      rw [List.length_take_of_le hend.le, List.length_nil] at hzero
      omega

/-- What the loop has done at its end: all parts of the path are there, or a call of `mkdir` has
failed. -/
structure Done (path : Bytes) (start : ℕ) (d : Directories) (r : Bool × Directories) : Prop where
  calls : ∃ calls, Grown path start calls d r.2 ∧ (r.1 = false → ∃ call ∈ calls, call.2 = false)
  parts : r.1 = true → ∀ pos, 0 < pos → IsEnd path pos → r.2.pathExists (path.take pos) = true

/-- Where the loop stops, there is at most a separator behind the last token. -/
theorem pathExists_end {path : Bytes} {last : ℕ} (hlast : IsEnd path last)
    (hstop : ¬ last + 1 < path.length) {d : Directories}
    (hthere : ∀ pos, 0 < pos → pos < last + 1 → IsEnd path pos →
      d.pathExists (path.take pos) = true) {pos : ℕ} (hpos : 0 < pos) (hend : IsEnd path pos) :
    d.pathExists (path.take pos) = true := by
  have hle := hend.le
  by_cases hlt : pos < last + 1
  · exact hthere pos hpos hlt hend
  · -- the path ends with a separator
    have heq : pos = last + 1 := by omega
    have hsep : path[last]? = some folderSep := hlast.resolve_left (by omega)
    have htake : path.take (last + 1) = path.take last ++ [folderSep] := by
      rw [List.take_add_one, hsep]
      rfl
    rw [heq, htake]
    apply pathExists_append_sep
    rcases Nat.eq_zero_or_pos last with rfl | hlastpos
    · exact .inl rfl
    · exact .inr (hthere last hlastpos (Nat.lt_succ_self last) hlast)

theorem createDirLoop_spec {path : Bytes} {start : ℕ} (hstart : start < path.length)
    {d : Directories}
    (hbefore : ∀ pos, 0 < pos → pos < start → IsEnd path pos →
      d.pathExists (path.take pos) = true) :
    Done path start d (createDirLoop path start d) := by
  -- `hbefore` is the invariant: what is behind the loop is there
  fun_induction createDirLoop path start d with
  | case1 start d pos d' hensure =>
      obtain ⟨calls, hgrown, -, -, hfailed⟩ := ensure_token hstart hbefore
      rw [hensure] at hgrown hfailed
      exact ⟨⟨calls, hgrown, hfailed⟩, fun hmade => Bool.noConfusion hmade⟩
  | case2 start d pos d' hensure hmore ih =>
      obtain ⟨calls, hgrown, hlength, hthere, -⟩ := ensure_token hstart hbefore
      rw [hensure] at hgrown hthere
      obtain ⟨⟨later, hlater, hfailed⟩, hparts⟩ := ih hmore (hthere rfl)
      have hle : start ≤ pos + 1 := Nat.le_succ_of_le (tokenPos_spec hstart.le).1
      refine ⟨⟨calls ++ later, hgrown.trans hle hlength hlater, fun hfalse => ?_⟩, hparts⟩
      obtain ⟨call, hcall, hfailed⟩ := hfailed hfalse
      exact ⟨call, List.mem_append_right _ hcall, hfailed⟩
  | case3 start d pos d' hensure hstop =>
      obtain ⟨calls, hgrown, -, hthere, hfailed⟩ := ensure_token hstart hbefore
      rw [hensure] at hgrown hthere hfailed
      refine ⟨⟨calls, hgrown, hfailed⟩, fun _ other hother hend => ?_⟩
      exact pathExists_end (tokenPos_spec hstart.le).2.1 hstop (hthere rfl) hother hend

/-! ## `create_dir` -/

/-- If it returns true, the path and all its parts exist; if it returns false, the path is empty
or a call of `mkdir` has failed.  The calls are for parts of the path, a shorter one before a
longer one, and all that has changed is that the directories they made are there. -/
theorem create_dir_chain (path : Bytes) (d : Directories) :
    let r := d.createDir path
    ∃ calls, r.2.mkdirs = d.mkdirs ++ calls ∧
      (r.1 = true → r.2.pathExists path = true ∧
        ∀ part, IsPart part path → part ≠ [] → r.2.pathExists part = true) ∧
      (r.1 = false → path = [] ∨ ∃ call ∈ calls, call.2 = false) ∧
      (∀ call ∈ calls, IsPart call.1 path ∧ call.1 ≠ []) ∧
      (calls.Pairwise fun call later => call.1.length < later.1.length) ∧
      ∀ dir, r.2.tree.has dir = true ↔
        d.tree.has dir = true ∨ ∃ call ∈ calls, call.2 = true ∧ d.resolve call.1 = dir := by
  have hunchanged := Grown.refl path 0 d
  dsimp only
  rw [createDir]
  split_ifs with hexists hempty
  · refine ⟨[], hunchanged.mkdirs, fun _ => ⟨hexists, fun part hpart hne => ?_⟩,
      False.elim, List.forall_mem_nil _, .nil, hunchanged.tree⟩
    exact pathExists_of_isPart hexists hpart hne
  · exact ⟨[], hunchanged.mkdirs, False.elim, fun _ => .inl hempty,
      List.forall_mem_nil _, .nil, hunchanged.tree⟩
  · have hpos : 0 < path.length := List.length_pos_iff.mpr hempty
    obtain ⟨⟨calls, hgrown, hfailed⟩, hparts⟩ := createDirLoop_spec hpos (d := d)
      fun pos _ hlt => absurd hlt (Nat.not_lt_zero pos)
    refine ⟨calls, hgrown.mkdirs, fun hmade => ?_, fun hfalse => .inr (hfailed hfalse), ?_,
      hgrown.ordered, hgrown.tree⟩
    · have hthere part (hpart : IsPart part path) (hne : part ≠ []) :
          (createDirLoop path 0 d).2.pathExists part = true := by
        obtain ⟨pos, hend, rfl⟩ := isPart_iff.mp hpart
        refine hparts hmade pos (Nat.pos_of_ne_zero ?_) hend
        rintro rfl
        exact hne rfl
      exact ⟨hthere path (.inl rfl) hempty, hthere⟩
    · intro call hcall
      obtain ⟨hne, pos, -, hend, hpart⟩ := hgrown.parts call hcall
      exact ⟨isPart_iff.mpr ⟨pos, hend, hpart⟩, hne⟩

end Directories

end Structlog
