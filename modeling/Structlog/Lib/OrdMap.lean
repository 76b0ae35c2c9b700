import Mathlib.Order.Defs.LinearOrder
import Mathlib.Data.List.Nodup
import Mathlib.Data.List.Induction
import Mathlib.Data.List.Sort
import Mathlib.Tactic.SplitIfs
import Mathlib.Tactic.Order

/-!
# Ordered finite maps

A finite map is a list of entries with strictly increasing keys.  `OrdMap`
carries the order as a field, so a map with a repeated or misplaced key cannot
be built.  The two list operations below it, `insertEntry` and `List.lookup`,
are also meaningful on lists that are not sorted; their laws are stated there,
and the map inherits them.

The last section is about writing a list of entries into a map one after the
other: what is read back is the last entry written under the key, or the old
value where no entry has it.
-/

namespace Structlog.Lib

variable {κ ν : Type*} [LinearOrder κ]

/-! ## Entries -/

/-- Write `v` under `k`, keeping the entries in key order. -/
def insertEntry (k : κ) (v : ν) : List (κ × ν) → List (κ × ν)
  | [] => [(k, v)]
  | (k', v') :: rest =>
      if k < k' then (k, v) :: (k', v') :: rest
      else if k = k' then (k, v) :: rest
      else (k', v') :: insertEntry k v rest

/-- What stands under `k`. -/
def lookupEntry (k : κ) (entries : List (κ × ν)) : Option ν := entries.lookup k

theorem lookup_cons_ite (j k : κ) (v : ν) (entries : List (κ × ν)) :
    ((k, v) :: entries).lookup j = if j = k then some v else entries.lookup j := by
  by_cases h : j = k
  · simp [h]
  · simp [List.lookup_cons, h, beq_eq_false_iff_ne.mpr h]

theorem lookup_insertEntry (j k : κ) (v : ν) (entries : List (κ × ν)) :
    (insertEntry k v entries).lookup j = if j = k then some v else entries.lookup j := by
  induction entries with
  | nil => simp [insertEntry, lookup_cons_ite]
  | cons head rest ih =>
      obtain ⟨k', v'⟩ := head
      unfold insertEntry
      by_cases hlt : k < k'
      · simp only [if_pos hlt, lookup_cons_ite]
      · by_cases heq : k = k'
        · subst heq
          simp only [if_neg hlt, if_true, lookup_cons_ite]
          split_ifs <;> rfl
        · simp only [if_neg hlt, if_neg heq, lookup_cons_ite, ih]
          split_ifs with hj hk
          · exact absurd (hk.symm.trans hj) heq
          · rfl
          · rfl
          · rfl

theorem mem_keys_insertEntry {j k : κ} {v : ν} {entries : List (κ × ν)} :
    j ∈ (insertEntry k v entries).map Prod.fst ↔ j = k ∨ j ∈ entries.map Prod.fst := by
  induction entries with
  | nil => simp [insertEntry]
  | cons head rest ih =>
      obtain ⟨k', v'⟩ := head
      unfold insertEntry
      split_ifs with hlt heq
      · simp
      · subst heq
        simp
      · simp only [List.map_cons, List.mem_cons, ih]
        tauto

/-- Change what stands under `k`. -/
def modifyEntry (k : κ) (f : ν → ν) (entries : List (κ × ν)) : List (κ × ν) :=
  entries.map fun entry => if entry.1 = k then (entry.1, f entry.2) else entry

theorem lookup_modifyEntry (j k : κ) (f : ν → ν) (entries : List (κ × ν)) :
    (modifyEntry k f entries).lookup j =
      if j = k then (entries.lookup k).map f else entries.lookup j := by
  induction entries with
  | nil => simp [modifyEntry]
  | cons head rest ih =>
      obtain ⟨k', v'⟩ := head
      rw [modifyEntry, List.map_cons, ← modifyEntry]
      by_cases hk : k' = k
      · subst hk
        simp only [if_true, lookup_cons_ite, ih]
        split_ifs <;> rfl
      · simp only [if_neg hk, lookup_cons_ite, ih, if_neg (Ne.symm hk)]
        split_ifs with hj hj'
        · exact absurd (hj.symm.trans hj') hk
        · rfl
        · rfl
        · rfl

theorem keys_modifyEntry (k : κ) (f : ν → ν) (entries : List (κ × ν)) :
    (modifyEntry k f entries).map Prod.fst = entries.map Prod.fst := by
  rw [modifyEntry, List.map_map]
  refine List.map_congr_left fun entry _ => ?_
  rw [Function.comp_apply]
  split_ifs <;> rfl

/-- Keys in strictly increasing order. -/
def SortedKeys (entries : List (κ × ν)) : Prop :=
  (entries.map Prod.fst).Pairwise (· < ·)

theorem SortedKeys.insertEntry {k : κ} {v : ν} {entries : List (κ × ν)}
    (hsorted : SortedKeys entries) : SortedKeys (insertEntry k v entries) := by
  induction entries with
  | nil => simp [SortedKeys, Lib.insertEntry]
  | cons head rest ih =>
      obtain ⟨k', v'⟩ := head
      obtain ⟨hhead, hrest⟩ := List.pairwise_cons.mp hsorted
      unfold Lib.insertEntry
      split_ifs with hlt heq
      · refine List.pairwise_cons.mpr ⟨?_, hsorted⟩
        intro j hj
        rcases List.mem_cons.mp hj with rfl | hj
        · exact hlt
        · exact hlt.trans (hhead j hj)
      · subst heq
        exact List.pairwise_cons.mpr ⟨hhead, hrest⟩
      · refine List.pairwise_cons.mpr ⟨?_, ih hrest⟩
        intro j hj
        rcases mem_keys_insertEntry.mp hj with rfl | hj
        · exact lt_of_le_of_ne (not_lt.mp hlt) (Ne.symm heq)
        · exact hhead j hj

/-- With increasing keys an entry is what is found under its key. -/
theorem SortedKeys.lookup_eq_some_iff {k : κ} {v : ν} {entries : List (κ × ν)}
    (hsorted : SortedKeys entries) : entries.lookup k = some v ↔ (k, v) ∈ entries := by
  induction entries with
  | nil => simp
  | cons head rest ih =>
      obtain ⟨k', v'⟩ := head
      obtain ⟨hhead, hrest⟩ := List.pairwise_cons.mp hsorted
      rw [lookup_cons_ite, List.mem_cons]
      by_cases hk : k = k'
      · subst hk
        have habsent : (k, v) ∉ rest := by
          intro hmem
          exact lt_irrefl k (hhead k (List.mem_map_of_mem hmem))
        simp [habsent, eq_comm]
      · simp [hk, ih hrest]

/-! ## The map -/

/-- A finite map whose entries stand in strictly increasing key order. -/
structure OrdMap (κ ν : Type*) [LinearOrder κ] where
  entries : List (κ × ν)
  sorted : SortedKeys entries

namespace OrdMap

def empty : OrdMap κ ν := ⟨[], List.Pairwise.nil⟩

def lookup (k : κ) (m : OrdMap κ ν) : Option ν := m.entries.lookup k

def insert (k : κ) (v : ν) (m : OrdMap κ ν) : OrdMap κ ν :=
  ⟨insertEntry k v m.entries, m.sorted.insertEntry⟩

/-- Write `entries` one after the other. -/
def insertAll (m : OrdMap κ ν) (entries : List (κ × ν)) : OrdMap κ ν :=
  entries.foldl (fun current entry => current.insert entry.1 entry.2) m

/-- Remove the entry under `k`, if there is one. -/
def erase (k : κ) (m : OrdMap κ ν) : OrdMap κ ν :=
  ⟨m.entries.filter fun entry => entry.1 ≠ k,
    m.sorted.sublist (List.filter_sublist.map Prod.fst)⟩

/-- Change the value under `k`, if there is one. -/
def modify (k : κ) (f : ν → ν) (m : OrdMap κ ν) : OrdMap κ ν :=
  ⟨modifyEntry k f m.entries, by rw [SortedKeys, keys_modifyEntry]; exact m.sorted⟩

@[simp] theorem lookup_empty (k : κ) : (empty : OrdMap κ ν).lookup k = none := rfl

theorem mem_entries_iff {k : κ} {v : ν} (m : OrdMap κ ν) :
    (k, v) ∈ m.entries ↔ m.lookup k = some v :=
  m.sorted.lookup_eq_some_iff.symm

@[simp] theorem lookup_insert (j k : κ) (v : ν) (m : OrdMap κ ν) :
    (m.insert k v).lookup j = if j = k then some v else m.lookup j :=
  lookup_insertEntry j k v m.entries

theorem lookup_modify (j k : κ) (f : ν → ν) (m : OrdMap κ ν) :
    (m.modify k f).lookup j = if j = k then (m.lookup k).map f else m.lookup j :=
  lookup_modifyEntry j k f m.entries

theorem lookup_erase (j k : κ) (m : OrdMap κ ν) :
    (m.erase k).lookup j = if j = k then none else m.lookup j := by
  apply Option.ext
  intro v
  rw [← mem_entries_iff, erase, List.mem_filter, mem_entries_iff]
  by_cases h : j = k <;> simp [h]

/-- A map is what is found under its keys. -/
theorem ext_lookup {m m' : OrdMap κ ν} (h : ∀ k, m.lookup k = m'.lookup k) : m = m' := by
  have hmem (entry : κ × ν) : entry ∈ m.entries ↔ entry ∈ m'.entries := by
    obtain ⟨k, v⟩ := entry
    rw [mem_entries_iff, mem_entries_iff, h]
  have hirrefl : Std.Irrefl fun a b : κ × ν => a.1 < b.1 := ⟨fun a => lt_irrefl a.1⟩
  have hantisymm : Std.Antisymm fun a b : κ × ν => a.1 < b.1 :=
    ⟨fun a b hab hba => absurd hba hab.asymm⟩
  have hentries : m.entries = m'.entries :=
    (List.pairwise_map.mp m.sorted).eq_of_mem_iff (List.pairwise_map.mp m'.sorted) hmem
  cases m
  cases m'
  cases hentries
  rfl

@[simp] theorem modify_insert (m : OrdMap κ ν) (k : κ) (v : ν) (f : ν → ν) :
    (m.insert k v).modify k f = m.insert k (f v) := by
  apply ext_lookup
  intro j
  simp only [lookup_modify, lookup_insert]
  split_ifs <;> rfl

/-- Writing `v` under a key that is there. -/
theorem modify_of_isSome {m : OrdMap κ ν} {k : κ} (h : (m.lookup k).isSome = true) (v : ν) :
    m.modify k (fun _ => v) = m.insert k v := by
  obtain ⟨w, hw⟩ := Option.isSome_iff_exists.mp h
  apply ext_lookup
  intro j
  rw [lookup_modify, lookup_insert, hw]
  rfl

/-- Entries under different keys that `f` tells apart. -/
theorem nodup_map_entries {β : Type*} (m : OrdMap κ ν) (f : ν → β)
    (h : ∀ k k' v v', m.lookup k = some v → m.lookup k' = some v' → f v = f v' → k = k') :
    (m.entries.map fun entry => f entry.2).Nodup := by
  have hkeys : (m.entries.map Prod.fst).Nodup := m.sorted.imp ne_of_lt
  apply List.Nodup.map_on _ hkeys.of_map
  rintro ⟨k, v⟩ hmem ⟨k', v'⟩ hmem' hsame
  obtain rfl := h k k' v v' (m.mem_entries_iff.mp hmem) (m.mem_entries_iff.mp hmem') hsame
  have hv := (m.mem_entries_iff.mp hmem).symm.trans (m.mem_entries_iff.mp hmem')
  rw [Option.some.inj hv]

@[simp] theorem insertAll_nil (m : OrdMap κ ν) : m.insertAll [] = m := rfl

@[simp] theorem insertAll_cons (m : OrdMap κ ν) (entry : κ × ν) (rest : List (κ × ν)) :
    m.insertAll (entry :: rest) = (m.insert entry.1 entry.2).insertAll rest := rfl

theorem insertAll_append (m : OrdMap κ ν) (first second : List (κ × ν)) :
    m.insertAll (first ++ second) = (m.insertAll first).insertAll second := by
  simp [insertAll]

/-- The last value that `entries` write under `k`. -/
def lastValue (k : κ) (entries : List (κ × ν)) : Option ν := entries.reverse.lookup k

theorem lastValue_append (k : κ) (first second : List (κ × ν)) :
    lastValue k (first ++ second) = (lastValue k second).or (lastValue k first) := by
  simp [lastValue, List.lookup_append]

theorem lastValue_singleton (k : κ) (entry : κ × ν) :
    lastValue k [entry] = if k = entry.1 then some entry.2 else none := lookup_cons_ite ..

theorem mem_of_lastValue {k : κ} {v : ν} {entries : List (κ × ν)}
    (h : lastValue k entries = some v) : (k, v) ∈ entries := by
  obtain ⟨before, after, hsplit, -⟩ := List.lookup_eq_some_iff.mp h
  rw [← List.mem_reverse, hsplit]
  exact List.mem_append_right _ List.mem_cons_self

theorem isSome_lastValue {k : κ} {entries : List (κ × ν)} :
    (lastValue k entries).isSome = true ↔ k ∈ entries.map Prod.fst := by
  simp [lastValue, List.lookup_isSome_iff]

theorem lastValue_map {ν' : Type*} (f : ν → ν') (k : κ) (entries : List (κ × ν)) :
    lastValue k (entries.map fun entry => (entry.1, f entry.2)) = (lastValue k entries).map f := by
  induction entries with
  | nil => rfl
  | cons entry rest ih =>
      rw [List.map_cons, ← List.singleton_append, lastValue_append, ih, lastValue_singleton,
        ← List.singleton_append, lastValue_append, lastValue_singleton]
      cases lastValue k rest with
      | some v => rfl
      | none => split_ifs <;> rfl

/-- With different keys an entry is the last one under its key, in any order. -/
theorem lastValue_eq_some_iff {k : κ} {v : ν} {entries : List (κ × ν)}
    (hkeys : (entries.map Prod.fst).Nodup) : lastValue k entries = some v ↔ (k, v) ∈ entries := by
  induction entries using List.reverseRecOn with
  | nil => simp [lastValue]
  | append_singleton entries entry ih =>
      obtain ⟨k', v'⟩ := entry
      rw [List.map_append] at hkeys
      obtain ⟨hkeys, -, hlast⟩ := List.nodup_append.mp hkeys
      rw [lastValue, List.reverse_append, List.reverse_singleton, List.singleton_append,
        lookup_cons_ite, ← lastValue, List.mem_append, List.mem_singleton, Prod.mk.injEq]
      by_cases hk : k = k'
      · subst hk
        have habsent : (k, v) ∉ entries := by
          intro hmem
          exact hlast k (List.mem_map_of_mem hmem) k (List.mem_singleton_self k) rfl
        simp [habsent, eq_comm]
      · simp [hk, ih hkeys]

/-- Of several lists of entries the last one with the key decides. -/
theorem lastValue_flatMap {α : Type*} (k : κ) (f : α → List (κ × ν)) (xs : List α) :
    lastValue k (xs.flatMap f) = xs.reverse.findSome? fun x => lastValue k (f x) := by
  induction xs with
  | nil => rfl
  | cons x rest ih =>
      rw [List.flatMap_cons, lastValue_append, ih, List.reverse_cons, List.findSome?_append]
      simp

/-- After writing `entries`, a key holds the last value written under it, or
its old value when none was. -/
theorem lookup_insertAll (k : κ) (entries : List (κ × ν)) (m : OrdMap κ ν) :
    (m.insertAll entries).lookup k = (lastValue k entries).or (m.lookup k) := by
  induction entries generalizing m with
  | nil => simp [lastValue]
  | cons entry rest ih =>
      obtain ⟨k', v'⟩ := entry
      rw [insertAll_cons, ih, lookup_insert, ← List.singleton_append, lastValue_append,
        lastValue_singleton, Option.or_assoc]
      by_cases h : k = k' <;> simp [h]

/-- The entries that are the last ones under their keys. -/
def lastEntries : List (κ × ν) → List (κ × ν)
  | [] => []
  | entry :: rest =>
      if entry.1 ∈ rest.map Prod.fst then lastEntries rest else entry :: lastEntries rest

theorem mem_lastEntries {k : κ} {v : ν} {entries : List (κ × ν)} :
    (k, v) ∈ lastEntries entries ↔ lastValue k entries = some v := by
  induction entries with
  | nil => simp [lastEntries, lastValue]
  | cons entry rest ih =>
      obtain ⟨k', v'⟩ := entry
      have hlast : lastValue k ((k', v') :: rest) =
          (lastValue k rest).or (if k = k' then some v' else none) := by
        rw [← List.singleton_append, lastValue_append, lastValue_singleton]
      have hwritten : (lastValue k rest).isSome = true ↔ k ∈ rest.map Prod.fst := isSome_lastValue
      rw [hlast, lastEntries]
      by_cases hrepeated : k' ∈ rest.map Prod.fst
      · rw [if_pos hrepeated, ih]
        by_cases hk : k = k'
        · -- the entry is replaced by a later one
          obtain ⟨v'', hv''⟩ := Option.isSome_iff_exists.mp (hwritten.mpr (hk ▸ hrepeated))
          rw [hv'', Option.some_or]
        · rw [if_neg hk, Option.or_none]
      · rw [if_neg hrepeated, List.mem_cons, ih, Prod.mk.injEq]
        by_cases hk : k = k'
        · have hnone : lastValue k rest = none := by
            rw [← Option.not_isSome_iff_eq_none, hwritten, hk]
            exact hrepeated
          rw [hnone, Option.none_or, if_pos hk]
          simp [hk, eq_comm]
        · simp [hk]

theorem nodup_lastEntries (entries : List (κ × ν)) : (lastEntries entries).Nodup := by
  induction entries with
  | nil => exact List.nodup_nil
  | cons entry rest ih =>
      rw [lastEntries]
      split_ifs with hrepeated
      · exact ih
      · refine List.nodup_cons.mpr ⟨fun hmem => hrepeated ?_, ih⟩
        exact List.mem_map_of_mem (mem_of_lastValue (mem_lastEntries.mp hmem))

/-- Written into an empty map, entries leave the last ones under their keys. -/
theorem perm_lastEntries (entries : List (κ × ν)) :
    (empty.insertAll entries).entries.Perm (lastEntries entries) := by
  have hkeys : ((empty.insertAll entries).entries.map Prod.fst).Nodup :=
    (empty.insertAll entries).sorted.imp ne_of_lt
  refine (List.perm_ext_iff_of_nodup hkeys.of_map (nodup_lastEntries entries)).mpr ?_
  rintro ⟨k, v⟩
  rw [mem_lastEntries, mem_entries_iff, lookup_insertAll, lookup_empty, Option.or_none]

/-- A map is made by writing its entries. -/
theorem insertAll_entries (m : OrdMap κ ν) : empty.insertAll m.entries = m := by
  apply ext_lookup
  intro k
  apply Option.ext
  intro v
  rw [lookup_insertAll, lookup_empty, Option.or_none,
    lastValue_eq_some_iff (m.sorted.imp ne_of_lt), mem_entries_iff]

end OrdMap

end Structlog.Lib
