import Structlog.JsonSoundness

/-!
# The value that a parse builds

`treeValue` is what a text means: an array of the values of its elements, and an object
with the members written one after the other, so that of members with one key the last
one stays.  The handler writes the same through its pointers (`handle_tree`).

A pointer is kept while the value it points to grows.  `Place` says what it is good for:
the value at the pointer is a part of the root, and what is written there takes its place.
-/

namespace Structlog.Json

open Lib Lib.JsonSyntax Lexer

/-! ## The value of a tree -/

/-- The value of an event, if it is one of a value. -/
def eventValue : SaxEvent → Option Json
  | .null => some .null
  | .boolean b => some (.boolean b)
  | .numberInteger n => some (.integer n)
  | .numberUnsigned n => some (.integer n)
  | .numberFloat x _ => some (.float x)
  | .string s => some (.string s)
  | _ => none

mutual

/-- What the text of a tree means; nothing, if a number of it is not finite. -/
def treeValue (config : LexerConfig) : Tree → Option Json
  | .null => some .null
  | .boolean b => some (.boolean b)
  | .number text => (numberEvent config text).bind eventValue
  | .string s => some (.string s)
  | .array elements => (elementValues config elements).map .array
  | .object members =>
      (memberValues config members).map fun entries =>
        .object (OrdMap.empty.insertAll entries).entries

def elementValues (config : LexerConfig) : List Tree → Option (List Json)
  | [] => some []
  | element :: rest => do return (← treeValue config element) :: (← elementValues config rest)

def memberValues (config : LexerConfig) : List (Bytes × Tree) → Option (List (Bytes × Json))
  | [] => some []
  | (key, value) :: rest => do
      return (key, ← treeValue config value) :: (← memberValues config rest)

end

theorem eventValue_numberEvent {config : LexerConfig} {text : Bytes} {e : SaxEvent}
    (h : numberEvent config text = some e) : ∃ v, eventValue e = some v := by
  unfold numberEvent at h
  split_ifs at h
  · obtain rfl := Option.some.inj h
    exact ⟨_, rfl⟩
  · obtain rfl := Option.some.inj h
    exact ⟨_, rfl⟩
  · obtain ⟨x, -, rfl⟩ := Option.map_eq_some_iff.mp h
    exact ⟨_, rfl⟩

/-! ## Pointers -/

theorem at?_append (path path' : Path) (j : Json) :
    at? (path ++ path') j = at? path j >>= at? path' := by
  induction path generalizing j with
  | nil => rfl
  | cons step path ih =>
      cases step with
      | index i =>
          cases j with
          | array elements => cases h : elements[i]? <;> simp [at?, h, ih]
          | _ => rfl
      | member key =>
          cases j with
          | object members => cases h : lookupEntry key members <;> simp [at?, h, ih]
          | _ => rfl

theorem modifyAt_append (path path' : Path) (f : Json → Json) (j : Json) :
    modifyAt (path ++ path') f j = modifyAt path (modifyAt path' f) j := by
  induction path generalizing j with
  | nil => rfl
  | cons step path ih =>
      have hih : modifyAt (path ++ path') f = modifyAt path (modifyAt path' f) := funext ih
      cases step <;> cases j <;> simp [modifyAt, hih]

/-- A pointer into the root that `place v` is while `v` stands at the pointer. -/
structure Place (pointer : Path) (place : Json → Json) : Prop where
  found : ∀ v, at? pointer (place v) = some v
  written : ∀ f v, modifyAt pointer f (place v) = place (f v)

theorem place_root : Place [] id := ⟨fun _ => rfl, fun _ _ => rfl⟩

variable {pointer : Path} {place : Json → Json}

/-- The next element of an array that has a place. -/
theorem Place.element (h : Place pointer place) (elements : List Json) :
    Place (pointer ++ [.index elements.length]) fun v => place (.array (elements ++ [v])) where
  found v := by simp [at?_append, h.found, at?]
  written f v := by
    rw [modifyAt_append, h.written]
    -- the new element is the last one
    have hmodify : (elements ++ [v]).modify elements.length f = elements ++ [f v] := by
      rw [List.modify_eq_take_cons_drop (by simp)]
      simp
    exact congrArg (fun elements => place (.array elements)) hmodify

/-- A member of an object that has a place. -/
theorem Place.member (h : Place pointer place) (members : OrdMap Bytes Json) (key : Bytes) :
    Place (pointer ++ [.member key]) fun v => place (.object (members.insert key v).entries) where
  found v := by
    have hlookup : (members.insert key v).lookup key = some v := by simp
    rw [at?_append, h.found]
    exact (congrArg (· >>= at? []) hlookup)
  written f v := by
    have hentries : modifyEntry key f (members.insert key v).entries =
        (members.insert key (f v)).entries :=
      congrArg OrdMap.entries (members.modify_insert key v f)
    rw [modifyAt_append, h.written]
    exact congrArg (fun entries => place (.object entries)) hentries

/-! ## Events -/

namespace Dom

variable {dom : Dom}

/-- The next value gets the place. -/
structure Takes (dom : Dom) (pointer : Path) (place : Json → Json) : Prop extends
    Place pointer place where
  handleValue : ∀ v, dom.handleValue v = (pointer, { dom with root := place v })

theorem takes_new : Takes new [] id := ⟨place_root, fun _ => rfl⟩

/-- In an array. -/
theorem takes_element (h : Place pointer place) {stack : List Path}
    (hstack : dom.refStack = pointer :: stack) {elements : List Json}
    (hroot : dom.root = place (.array elements)) :
    Takes dom (pointer ++ [.index elements.length]) fun v => place (.array (elements ++ [v])) where
  toPlace := h.element elements
  handleValue v := by
    have hback : at? pointer dom.root = some (.array elements) := by rw [hroot, h.found]
    rw [Dom.handleValue, hstack]
    simp only [hback]
    rw [hroot, h.written]

/-- `operator[]` leaves an object with the key. -/
theorem withMember_entries (members : OrdMap Bytes Json) (key : Bytes) :
    ∃ members' : OrdMap Bytes Json,
      withMember key (.object members.entries) = .object members'.entries ∧
      ∀ v, members'.modify key (fun _ => v) = members.insert key v := by
  -- a repeated key keeps its member until the value is written
  by_cases hkey : (members.lookup key).isSome = true
  · refine ⟨members, ?_, OrdMap.modify_of_isSome hkey⟩
    exact congrArg Json.object (if_pos hkey)
  · refine ⟨members.insert key .null, ?_, fun v => ?_⟩
    · exact congrArg Json.object (if_neg hkey)
    · rw [OrdMap.modify_insert]

theorem key_root (h : Place pointer place) {stack : List Path}
    (hstack : dom.refStack = pointer :: stack) {j : Json} (hroot : dom.root = place j)
    (key : Bytes) : dom.key key = { dom with
      root := place (withMember key j), objectElement := some (pointer ++ [.member key]) } := by
  simp only [Dom.key, hstack, hroot, List.head?_cons, Option.getD_some, h.written]

/-- In an object, behind a key. -/
theorem takes_member (h : Place pointer place) {stack : List Path}
    (hstack : dom.refStack = pointer :: stack) (members : OrdMap Bytes Json)
    (hroot : dom.root = place (.object members.entries)) (key : Bytes) :
    Takes (dom.key key) (pointer ++ [.member key])
      fun v => place (.object (members.insert key v).entries) where
  toPlace := h.member members key
  handleValue v := by
    obtain ⟨members', hmembers', hwrite⟩ := withMember_entries members key
    have hback : at? pointer (place (.object members'.entries)) = some (.object members'.entries) :=
      h.found _
    have hvalue : modifyAt [.member key] (fun _ => v) (.object members'.entries) =
        .object (members.insert key v).entries :=
      congrArg (fun written : OrdMap Bytes Json => Json.object written.entries) (hwrite v)
    rw [key_root h hstack hroot, hmembers', Dom.handleValue, hstack]
    simp only [hback, Option.getD_some, modifyAt_append, h.written, hvalue]

variable {config : LexerConfig} (allowExceptions : Bool)

/-- A value without parts. -/
theorem handle_scalar (h : Takes dom pointer place) {e : SaxEvent} {v : Json}
    (hv : eventValue e = some v) : dom.handle e = { dom with root := place v } := by
  have hvalue (v : Json) : (dom.handleValue v).2 = { dom with root := place v } := by
    rw [h.handleValue]
  cases e <;> cases hv <;> exact hvalue _

theorem start_eq (h : Takes dom pointer place) (v : Json) :
    dom.start v = { dom with root := place v, refStack := pointer :: dom.refStack } := by
  rw [start, h.handleValue]

mutual

/-- The events of a tree put its value where the next value goes. -/
theorem run_tree :
    (t : Tree) → {es : List SaxEvent} → {v : Json} → treeEvents config t = some es →
      treeValue config t = some v → ∀ {dom pointer place}, Takes dom pointer place →
      ∃ element, (sax allowExceptions).run es dom =
        { dom with root := place v, objectElement := element }
  | .null, es, v, hes, hv, dom, pointer, place, h => by
      obtain rfl := Option.some.inj hes
      exact ⟨dom.objectElement, @handle_scalar pointer place dom h .null v hv⟩
  | .boolean b, es, v, hes, hv, dom, pointer, place, h => by
      obtain rfl := Option.some.inj hes
      exact ⟨dom.objectElement, @handle_scalar pointer place dom h (.boolean b) v hv⟩
  | .string s, es, v, hes, hv, dom, pointer, place, h => by
      obtain rfl := Option.some.inj hes
      exact ⟨dom.objectElement, @handle_scalar pointer place dom h (.string s) v hv⟩
  | .number text, es, v, hes, hv, dom, pointer, place, h => by
      obtain ⟨e, he, rfl⟩ := Option.map_eq_some_iff.mp hes
      rw [treeValue, he] at hv
      exact ⟨dom.objectElement, handle_scalar h hv⟩
  | .array elements, es, v, hes, hv, dom, pointer, place, h => by
      obtain ⟨inner, hinner, rfl⟩ : ∃ inner, elementsEvents config elements = some inner ∧
          .startArray :: (inner ++ [.endArray]) = es := by
        simpa [treeEvents, Option.bind_eq_some_iff] using hes
      -- inside the brackets the array itself is the back of the stack
      obtain ⟨values, hvalues, rfl⟩ := Option.map_eq_some_iff.mp hv
      obtain ⟨element, hrun⟩ := @run_elements elements inner values hinner hvalues
        (dom.start (.array [])) pointer place dom.refStack [] h.toPlace
        (by rw [start_eq h]) (by rw [start_eq h])
      refine ⟨element, ?_⟩
      rw [Sax.run_cons, Sax.run_append]
      exact (congrArg (fun dom : Dom => dom.finish) hrun).trans (by rw [start_eq h]; rfl)
  | .object members, es, v, hes, hv, dom, pointer, place, h => by
      obtain ⟨inner, hinner, rfl⟩ : ∃ inner, membersEvents config members = some inner ∧
          .startObject :: (inner ++ [.endObject]) = es := by
        simpa [treeEvents, Option.bind_eq_some_iff] using hes
      obtain ⟨entries, hentries, rfl⟩ := Option.map_eq_some_iff.mp hv
      obtain ⟨element, hrun⟩ := @run_members members inner entries hinner hentries
        (dom.start (.object [])) pointer place dom.refStack OrdMap.empty h.toPlace
        (by rw [start_eq h]) (by rw [start_eq h]; rfl)
      refine ⟨element, ?_⟩
      rw [Sax.run_cons, Sax.run_append]
      exact (congrArg (fun dom : Dom => dom.finish) hrun).trans (by rw [start_eq h]; rfl)

/-- The same of the elements of an array that has some already. -/
theorem run_elements :
    (elements : List Tree) → {es : List SaxEvent} → {values : List Json} →
      elementsEvents config elements = some es → elementValues config elements = some values →
      ∀ {dom : Dom} {pointer place} {stack : List Path} {done : List Json}, Place pointer place →
      dom.refStack = pointer :: stack → dom.root = place (.array done) →
      ∃ element, (sax allowExceptions).run es dom =
        { dom with root := place (.array (done ++ values)), objectElement := element }
  | [], es, values, hes, hvalues, dom, pointer, place, stack, done, h, hstack, hroot => by
      obtain rfl := Option.some.inj hes
      obtain rfl := Option.some.inj hvalues
      refine ⟨dom.objectElement, ?_⟩
      rw [List.append_nil, ← hroot]
      rfl
  | first :: rest, es, values, hes, hvalues, dom, pointer, place, stack, done, h, hstack,
      hroot => by
      obtain ⟨es₁, hes₁, es₂, hes₂, rfl⟩ : ∃ es₁, treeEvents config first = some es₁ ∧
          ∃ es₂, elementsEvents config rest = some es₂ ∧ es₁ ++ es₂ = es := by
        simpa [elementsEvents, Option.bind_eq_some_iff] using hes
      obtain ⟨v, hv, more, hmore, rfl⟩ : ∃ v, treeValue config first = some v ∧
          ∃ more, elementValues config rest = some more ∧ v :: more = values := by
        simpa [elementValues, Option.bind_eq_some_iff] using hvalues
      -- `objectElement` may be any pointer here: an array does not look at it
      obtain ⟨element₁, hrun₁⟩ := run_tree first hes₁ hv (takes_element h hstack hroot)
      obtain ⟨element₂, hrun₂⟩ := @run_elements rest es₂ more hes₂ hmore
        { dom with root := place (.array (done ++ [v])), objectElement := element₁ } pointer place
        stack (done ++ [v]) h hstack rfl
      refine ⟨element₂, ?_⟩
      rw [Sax.run_append, hrun₁, hrun₂, List.append_assoc]
      rfl

/-- The same of the members of an object that has some already. -/
theorem run_members :
    (members : List (Bytes × Tree)) → {es : List SaxEvent} → {entries : List (Bytes × Json)} →
      membersEvents config members = some es → memberValues config members = some entries →
      ∀ {dom : Dom} {pointer place} {stack : List Path} {done : OrdMap Bytes Json},
      Place pointer place → dom.refStack = pointer :: stack →
      dom.root = place (.object done.entries) →
      ∃ element, (sax allowExceptions).run es dom = { dom with
        root := place (.object (done.insertAll entries).entries), objectElement := element }
  | [], es, entries, hes, hentries, dom, pointer, place, stack, done, h, hstack, hroot => by
      obtain rfl := Option.some.inj hes
      obtain rfl := Option.some.inj hentries
      refine ⟨dom.objectElement, ?_⟩
      rw [OrdMap.insertAll_nil, ← hroot]
      rfl
  | (key, value) :: rest, es, entries, hes, hentries, dom, pointer, place, stack, done, h, hstack,
      hroot => by
      obtain ⟨es₁, hes₁, es₂, hes₂, rfl⟩ : ∃ es₁, treeEvents config value = some es₁ ∧
          ∃ es₂, membersEvents config rest = some es₂ ∧ .key key :: (es₁ ++ es₂) = es := by
        simpa [membersEvents, Option.bind_eq_some_iff] using hes
      obtain ⟨v, hv, more, hmore, rfl⟩ : ∃ v, treeValue config value = some v ∧
          ∃ more, memberValues config rest = some more ∧ (key, v) :: more = entries := by
        simpa [memberValues, Option.bind_eq_some_iff] using hentries
      -- the key is inserted before its value is read, and the value then written over null
      have hkey := key_root h hstack hroot key
      obtain ⟨element₁, hrun₁⟩ := run_tree value hes₁ hv (takes_member h hstack done hroot key)
      obtain ⟨element₂, hrun₂⟩ := @run_members rest es₂ more hes₂ hmore
        { dom.key key with
          root := place (.object (done.insert key v).entries), objectElement := element₁ } pointer
        place stack (done.insert key v) h (by rw [hkey]; exact hstack) rfl
      refine ⟨element₂, ?_⟩
      rw [Sax.run_cons, Sax.run_append]
      refine (congrArg ((sax allowExceptions).run es₂) hrun₁).trans (hrun₂.trans ?_)
      rw [hkey]
      rfl

end

end Dom

end Structlog.Json
