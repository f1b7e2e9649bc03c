import Phrasebook.Proofs.Checked.Alternative
import Phrasebook.Proofs.Checked.Line
import Phrasebook.Proofs.Source.Reading

/-!
# The stack of open frames

Everything that is open in a source, a preamble, a header or a list, is a frame on one stack, the
innermost one at its end.  An item looks at the end of the stack and at the newest alternative
there, both at an index that is one less than a length.

`Checked.parse` reads a source in this way, with checked accesses throughout, and at each item,
after dedenting, it asserts what makes the indices good (`Checked.Sound`).  For every source it ends
as `Book.parse` does, so no access and no assertion ever fails (`Checked.run_parse`).  The proof
goes line by line: the stack shows what the draft knows (`Checked.Mirrors`), and each step keeps
that.
-/

namespace Phrasebook

namespace Checked

/-- Something that is open: a preamble, a header or a list. -/
structure Frame where
  name : String
  /-- The line of the header, or of the first item of a nested list. -/
  line : Nat
  /-- The indentation of the items, once there is one. -/
  level : Option Nat
  /-- The alternatives in their order. -/
  alternatives : List OpenAlternative := []
  preamble : Bool := false

/-- What is known after some lines of a source. -/
structure State where
  book : Book := {}
  /-- The headers so far. -/
  headers : NameSet := ∅
  /-- What is open, the innermost frame last. -/
  frames : List Frame := []

/-! ## Closing frames -/

/-- A book with the rule that a frame becomes. -/
def Frame.close (f : Frame) (book : Book) : Except ParseError Book :=
  if f.preamble then .ok book
  else if f.alternatives = [] then .error ⟨f.line, 1, .noAlternatives f.name⟩
  else if 0 < Choice.total (f.alternatives.map (·.alternative.weight)) then
    (f.alternatives.mapM OpenAlternative.finish).map fun alternatives =>
      book.insert ⟨f.name, alternatives⟩
  else .error ⟨f.line, 1, .noPositiveWeight f.name⟩

/-- A book with the rules that all frames become, the last one first. -/
def closeAll (book : Book) (frames : List Frame) : Except ParseError Book :=
  frames.foldrM Frame.close book

/-- Closes the frames that an indentation dedents out of. -/
def dedent (line indent : Nat) (book : Book) (frames : List Frame) :
    Checked ParseError (Book × List Frame) :=
  match _ : frames.getLast? with
  | none => return (book, frames)
  | some top =>
    match top.level with
    | none => return (book, frames)
    | some level =>
      if indent < level then
        if frames.length = 1 then throw ⟨line, indent + 1, .inconsistentIndentation⟩
        else do
          let book ← plain (top.close book)
          dedent line indent book frames.dropLast
      else return (book, frames)
termination_by frames.length
decreasing_by
  next htop _ =>
    have hne : frames ≠ [] := by
      rintro rfl
      cases htop
    rw [List.length_dropLast]
    exact Nat.sub_one_lt (mt List.length_eq_zero_iff.mp hne)

/-! ## Items -/

/-- What makes the accesses of an item good: there is a frame, a list with an indentation has an
alternative, only the first frame can be the preamble or lack an indentation, and indentations grow
from frame to frame. -/
structure Sound (frames : List Frame) : Prop where
  isOpen : frames ≠ []
  filled : ∀ f ∈ frames, f.preamble = false → f.level ≠ none → f.alternatives ≠ []
  above : ∀ f ∈ frames.tail, f.preamble = false ∧ f.level ≠ none
  increasing : (frames.filterMap Frame.level).Pairwise (· < ·)

instance (frames : List Frame) : Decidable (Sound frames) :=
  decidable_of_iff
    (frames ≠ [] ∧ (∀ f ∈ frames, f.preamble = false → f.level ≠ none → f.alternatives ≠ []) ∧
      (∀ f ∈ frames.tail, f.preamble = false ∧ f.level ≠ none) ∧
      (frames.filterMap Frame.level).Pairwise (· < ·))
    ⟨fun ⟨isOpen, filled, above, increasing⟩ => ⟨isOpen, filled, above, increasing⟩,
      fun h => ⟨h.isOpen, h.filled, h.above, h.increasing⟩⟩

/-- Opens the frame that an item goes to: the innermost one, which takes the indentation of its
first item, or a new one nested below the newest alternative. -/
def enter (line indent : Nat) (frames : List Frame) : Checked ParseError (List Frame) := do
  let (top, frame) ← last frames
  match frame.level with
  | none => return frames.set top { frame with level := some indent }
  | some level =>
    if indent = level then return frames
    else if frame.preamble then throw ⟨line, indent + 1, .nestedPreamble⟩
    else
      let (newest, owner) ← last frame.alternatives
      if owner.nested.isSome then throw ⟨line, indent + 1, .inconsistentIndentation⟩
      else
        let name := nestedRuleName frame.name newest
        let alternatives := frame.alternatives.set newest { owner with nested := some name }
        return frames.set top { frame with alternatives } ++ [{ name, line, level := some indent }]

/-- A frame with one alternative more. -/
def Frame.push (f : Frame) (a : OpenAlternative) : Frame :=
  { f with alternatives := f.alternatives ++ [a] }

namespace State

/-- Reads the text of an item into the innermost frame. -/
def addToTop (s : State) (line indent : Nat) (text : List Char) : Checked ParseError State :=
  let column := indent + Draft.itemOffset
  match s.frames.getLast? with
  | none => throw ⟨line, indent + 1, .inconsistentIndentation⟩
  | some frame =>
    if frame.preamble then
      match s.book.preamble.addEntry text with
      | .error fault => throw ⟨line, column, .setting fault⟩
      | .ok preamble => return { s with book := { s.book with preamble } }
    else do
      let a ← alternative line column text
      let frame := frame.push { alternative := a, line, column }
      return { s with frames := s.frames.dropLast ++ [frame] }

/-- One item more.  The stack is asserted to be sound once it is dedented. -/
def addItem (s : State) (line indent : Nat) (text : List Char) : Checked ParseError State :=
  if s.frames = [] then throw ⟨line, indent + 1, .outsideRule⟩
  else do
    let (book, frames) ← dedent line indent s.book s.frames
    assert (Sound frames)
    let frames ← enter line indent frames
    addToTop { s with book, frames } line indent text

/-- The header of a block more. -/
def addHeader (s : State) (line indent : Nat) (content : List Char) : Checked ParseError State := do
  let name ← plain (headerName line indent content)
  if s.headers.contains name then throw ⟨line, 1, .duplicateRule name⟩
  else
    let book ← plain (closeAll s.book s.frames)
    return { book, headers := s.headers.insert name
             frames := [{ name, line, level := none, preamble := name = preambleName }] }

/-- One line more. -/
def addLine (s : State) (number : Nat) (raw : List Char) : Checked ParseError State := do
  match ← line number raw with
  | none => return s
  | some (indent, .item text) => s.addItem number indent text
  | some (indent, .header content) => s.addHeader number indent content

/-- More lines, the first of which has a given number. -/
def addLines (s : State) (number : Nat) : List (List Char) → Checked ParseError State
  | [] => return s
  | raw :: rest => do
    let s ← s.addLine number raw
    s.addLines (number + 1) rest

end State

/-- Reads the source text of a book with checked accesses. -/
def parse (source : String) : Checked ParseError Book := do
  let s ← State.addLines {} 1 (Text.splitOn '\n' source.toList)
  plain (closeAll s.book s.frames)

/-! ## The frames of a draft -/

/-- A list as a frame. -/
def ofList (l : OpenList) : Frame :=
  { name := l.name, line := l.line, level := some l.level, alternatives := l.alternatives }

/-- The frames of a list and the lists that it is nested in. -/
def ofLists (inner : OpenList) (outer : List OpenList) : List Frame :=
  (outer.map ofList).reverse ++ [ofList inner]

/-- The frames that are open where an item would go. -/
inductive Shows : Place → List Frame → Prop
  | outside : Shows .outside []
  | preamble (line : Nat) (level : Option Nat) :
    Shows (.preamble level) [{ name := preambleName, line, level, preamble := true }]
  | header (name : String) (line : Nat) : Shows (.header name line) [{ name, line, level := none }]
  | list {inner : OpenList} {outer : List OpenList} {frames : List Frame}
    (h : frames = ofLists inner outer) : Shows (.list inner outer) frames

/-- The stack knows what the draft knows. -/
structure Mirrors (s : State) (d : Draft) : Prop where
  book : s.book = d.book
  headers : s.headers = d.headers
  frames : Shows d.place s.frames

theorem ofLists_cons (inner next : OpenList) (outer : List OpenList) :
    ofLists inner (next :: outer) = ofLists next outer ++ [ofList inner] := by
  rw [ofLists, List.map_cons, List.reverse_cons]
  rfl

theorem ofLists_ne_nil (inner : OpenList) (outer : List OpenList) : ofLists inner outer ≠ [] :=
  List.append_ne_nil_of_right_ne_nil _ (List.cons_ne_nil _ _)

theorem alternatives_eq (l : OpenList) : l.alternatives = l.older.reverse ++ [l.newest] :=
  List.reverse_cons

theorem alternatives_ne_nil (l : OpenList) : l.alternatives ≠ [] := by
  rw [alternatives_eq]
  exact List.append_ne_nil_of_right_ne_nil _ (List.cons_ne_nil _ _)

theorem close_ofList (l : OpenList) (book : Book) : (ofList l).close book = l.close book := by
  unfold Frame.close OpenList.close OpenList.finish ofList
  rw [if_neg Bool.false_ne_true, if_neg (alternatives_ne_nil l)]
  dsimp only
  split
  · cases l.alternatives.mapM OpenAlternative.finish <;> rfl
  · rfl

theorem closeAll_concat (book : Book) (frames : List Frame) (f : Frame) :
    closeAll book (frames ++ [f]) = (f.close book).bind fun book => closeAll book frames := by
  unfold closeAll
  rw [List.foldrM_append, List.foldrM_cons, List.foldrM_nil]
  rfl

theorem closeAll_ofLists (book : Book) (inner : OpenList) (outer : List OpenList) :
    closeAll book (ofLists inner outer) = Phrasebook.closeAll book (inner :: outer) := by
  induction outer generalizing inner book with
  | nil =>
      rw [ofLists, closeAll_concat, close_ofList]
      rfl
  | cons next outer ih =>
      rw [ofLists_cons, closeAll_concat, close_ofList]
      simp only [ih]
      rfl

/-- All that is open closes to the same book. -/
theorem Shows.closeAll {p : Place} {frames : List Frame} (h : Shows p frames) (book : Book) :
    closeAll book frames = p.close book := by
  cases h with
  | outside => rfl
  | preamble line level => rfl
  | header name line => rfl
  | list h => exact h ▸ closeAll_ofLists book _ _

/-! ## The frames at an item -/

variable {line indent : Nat} {book : Book} {top : Frame}

/-- A frame that an item does not dedent out of stays open, and those below it do as well. -/
theorem answers_dedent_of_le (init : List Frame)
    (h : ∀ level, top.level = some level → level ≤ indent) :
    (dedent line indent book (init ++ [top])).Answers (.ok (book, init ++ [top])) := by
  unfold dedent
  rw [List.getLast?_concat]
  dsimp only
  split
  · exact answers_pure _
  · next level hlevel =>
      rw [if_neg (Nat.not_lt_of_le (h level hlevel))]
      exact answers_pure _

theorem dedent_of_lt {init : List Frame} {level : Nat} (hlevel : top.level = some level)
    (hlt : indent < level) :
    dedent line indent book (init ++ [top]) =
      if init = [] then throw ⟨line, indent + 1, .inconsistentIndentation⟩
      else plain (top.close book) >>= fun book => dedent line indent book init := by
  rw [dedent, List.getLast?_concat]
  dsimp only
  rw [hlevel]
  dsimp only
  rw [if_pos hlt, List.dropLast_concat]
  simp

theorem answers_dedent_ofLists_of_le {inner : OpenList} (h : inner.level ≤ indent)
    (outer : List OpenList) :
    (dedent line indent book (ofLists inner outer)).Answers (.ok (book, ofLists inner outer)) :=
  answers_dedent_of_le _ fun level hlevel => by
    obtain rfl := Option.some.inj hlevel
    exact h

theorem answers_dedent_ofLists (line indent : Nat) (book : Book) (inner : OpenList)
    (outer : List OpenList) :
    (dedent line indent book (ofLists inner outer)).Answers
      ((Phrasebook.dedent line indent book inner outer).map fun (book, inner, outer) =>
        (book, ofLists inner outer)) := by
  have hlevel : ∀ l, (ofList l).level = some l.level := fun _ => rfl
  induction outer generalizing inner book with
  | nil =>
      rw [Phrasebook.dedent]
      split
      · next hlt =>
          rw [ofLists, dedent_of_lt (hlevel inner) hlt]
          exact answers_throw _
      · next hle => exact answers_dedent_ofLists_of_le (Nat.le_of_not_lt hle) []
  | cons next outer ih =>
      rw [Phrasebook.dedent]
      split
      · next hlt =>
          rw [ofLists_cons, dedent_of_lt (hlevel inner) hlt, if_neg (ofLists_ne_nil next outer),
            close_ofList]
          cases hclose : inner.close book with
          | error e => exact answers_throw e
          | ok book' => exact (answers_plain (.ok book')).bind_ok (ih book' next)
      · next hle => exact answers_dedent_ofLists_of_le (Nat.le_of_not_lt hle) _

theorem sound_singleton {f : Frame} (h : f.preamble = true ∨ f.level = none) : Sound [f] where
  isOpen := List.cons_ne_nil _ _
  filled g hg hpreamble hlevel := by
    obtain rfl := List.mem_singleton.mp hg
    rcases h with h | h
    · rw [h] at hpreamble
      cases hpreamble
    · exact absurd h hlevel
  above g hg := by cases hg
  increasing := by
    rw [List.filterMap_cons]
    split
    · exact List.Pairwise.nil
    · exact List.pairwise_singleton _ _

/-- Indentations fall from the innermost list outwards. -/
theorem pairwise_levels {level : Nat} {outer : List OpenList} (h : OpenList.Stacked level outer) :
    (level :: outer.map (·.level)).Pairwise (· > ·) := by
  apply List.IsChain.pairwise
  induction outer generalizing level with
  | nil => exact List.IsChain.singleton level
  | cons next outer ih =>
      obtain ⟨hlt, -, hstacked⟩ := h
      exact List.isChain_cons_cons.mpr ⟨hlt, ih hstacked⟩

/-- The frames of nested lists are sound. -/
theorem sound_ofLists {inner : OpenList} {outer : List OpenList}
    (h : OpenList.Stacked inner.level outer) : Sound (ofLists inner outer) := by
  have hreverse : ofLists inner outer = ((inner :: outer).map ofList).reverse := by
    rw [List.map_cons, List.reverse_cons]
    rfl
  have hlist : ∀ f ∈ ofLists inner outer, ∃ l, ofList l = f := by
    intro f hf
    rw [hreverse, List.mem_reverse] at hf
    obtain ⟨l, -, hl⟩ := List.mem_map.mp hf
    exact ⟨l, hl⟩
  refine ⟨ofLists_ne_nil inner outer, ?_, ?_, ?_⟩
  · intro f hf _ _
    obtain ⟨l, rfl⟩ := hlist f hf
    exact alternatives_ne_nil l
  · intro f hf
    obtain ⟨l, rfl⟩ := hlist f (List.mem_of_mem_tail hf)
    exact ⟨rfl, Option.some_ne_none _⟩
  · rw [hreverse, List.filterMap_reverse, List.pairwise_reverse, List.filterMap_map]
    have hlevels : (inner :: outer).filterMap (Frame.level ∘ ofList) =
        (inner :: outer).map (·.level) :=
      congrFun List.filterMap_eq_map (inner :: outer)
    rw [hlevels]
    exact pairwise_levels h

theorem answers_enter_first (init : List Frame) (h : top.level = none) :
    (enter line indent (init ++ [top])).Answers
      (.ok (init ++ [{ top with level := some indent }])) := by
  refine (answers_last init top).bind_ok ?_
  dsimp only
  rw [h, List.set_append_right _ _ (Nat.le_refl _), Nat.sub_self]
  exact answers_pure _

theorem answers_enter_preamble (init : List Frame) {level : Nat} (h : top.level = some level)
    (hpreamble : top.preamble = true) :
    (enter line indent (init ++ [top])).Answers
      (if indent = level then .ok (init ++ [top])
       else .error ⟨line, indent + 1, .nestedPreamble⟩) := by
  refine (answers_last init top).bind_ok ?_
  dsimp only
  rw [h]
  dsimp only
  split
  · exact answers_pure _
  · exact answers_throw _

theorem answers_enter_ofLists (line indent : Nat) (inner : OpenList) (outer : List OpenList) :
    (enter line indent (ofLists inner outer)).Answers
      (if indent = inner.level then .ok (ofLists inner outer)
       else if inner.newest.nested.isSome then .error ⟨line, indent + 1, .inconsistentIndentation⟩
       else .ok (ofLists inner.own outer ++
        [{ name := inner.nestedName, line, level := some indent }])) := by
  refine (answers_last _ (ofList inner)).bind_ok ?_
  dsimp only [ofList]
  split
  · exact answers_pure _
  · rw [if_neg Bool.false_ne_true, alternatives_eq]
    refine (answers_last _ inner.newest).bind_ok ?_
    dsimp only
    split
    · exact answers_throw _
    · have hown : ofLists inner.own outer = (outer.map ofList).reverse ++
          [{ ofList inner with
              alternatives := inner.older.reverse ++ [inner.own.newest] }] := by
        rw [ofLists, ofList, alternatives_eq]
        rfl
      rw [hown, ofLists, List.set_append_right _ _ (Nat.le_refl _),
        List.set_append_right _ _ (Nat.le_refl _), Nat.sub_self, Nat.sub_self, List.length_reverse]
      exact answers_pure _

/-- The open lists stay nested whatever a line holds. -/
theorem nested_of_addLine_eq_ok {d d' : Draft} {number : Nat} {raw : List Char}
    (hnested : d.Nested) (hadd : d.addLine number raw = .ok d') : d'.Nested := by
  cases hraw : SourceLine.ofRaw? raw with
  | none =>
      rw [Draft.addLine_of_insignificant d hraw number] at hadd
      exact Except.ok.inj hadd ▸ hnested
  | some line => exact Draft.nested_of_addLine hnested hraw hadd

/-! ## Step by step -/

variable {s : State} {d : Draft} {number : Nat} {text content raw : List Char}

theorem answers_addToTop (s : State) (init : List Frame) (hpreamble : top.preamble = false) :
    ({ s with frames := init ++ [top] }.addToTop line indent text).Answers
      ((Draft.readAlternative line indent text).map fun a =>
        { s with frames := init ++ [top.push a] }) := by
  unfold State.addToTop Draft.readAlternative
  dsimp only
  rw [List.getLast?_concat, List.dropLast_concat]
  dsimp only
  rw [if_neg (Bool.eq_false_iff.mp hpreamble)]
  have halternative := answers_alternative line (indent + Draft.itemOffset) text
  cases hparse : Alternative.parse line (indent + Draft.itemOffset) text with
  | error e =>
      rw [hparse] at halternative
      exact halternative.bind_error
  | ok a =>
      rw [hparse] at halternative
      exact halternative.bind_ok (answers_pure _)

theorem follows_addEntry (hbook : s.book = d.book) (hheaders : s.headers = d.headers)
    {start : Nat} (hframes : s.frames =
      [{ name := preambleName, line := start, level := some indent, preamble := true }]) :
    (s.addToTop line indent text).Follows Mirrors (d.addEntry line indent text) := by
  unfold State.addToTop Draft.addEntry
  rw [hframes, hbook]
  dsimp only [List.getLast?_singleton]
  rw [if_pos rfl]
  cases d.book.preamble.addEntry text with
  | error fault => exact answers_throw _
  | ok preamble => exact ⟨_, answers_pure _, rfl, hheaders, Shows.preamble start (some indent)⟩

/-- An alternative that is read goes to the list in the innermost frame. -/
theorem follows_readAlternative (init : List Frame) (hbook : s.book = d.book)
    (hheaders : s.headers = d.headers) (hpreamble : top.preamble = false)
    {place : OpenAlternative → Place}
    (hplace : ∀ a, Shows (place a) (init ++ [top.push a])) :
    ({ s with frames := init ++ [top] }.addToTop line indent text).Follows Mirrors
      ((Draft.readAlternative line indent text).map fun a => { d with place := place a }) := by
  have htop : ({ s with frames := init ++ [top] }.addToTop line indent text).Answers _ :=
    answers_addToTop s init hpreamble
  cases hread : Draft.readAlternative line indent text with
  | error e =>
      rw [hread] at htop
      exact htop
  | ok a =>
      rw [hread] at htop
      exact ⟨_, htop, hbook, hheaders, hplace a⟩

/-- A list with one alternative more is a frame with one more. -/
theorem ofList_push (l : OpenList) (a : OpenAlternative) :
    ofList (l.push a) = (ofList l).push a := by
  unfold ofList Frame.push
  rw [alternatives_eq, alternatives_eq, OpenList.push, List.reverse_cons]

/-- The first alternative of a list gives its frame. -/
theorem ofList_first (name : String) (line level : Nat) (a : OpenAlternative) :
    ofList ⟨name, line, level, a, []⟩ = ({ name, line, level := some level } : Frame).push a :=
  rfl

theorem follows_addToList (hbook : s.book = d.book) (hheaders : s.headers = d.headers)
    (inner : OpenList) (outer : List OpenList) :
    (enter line indent (ofLists inner outer) >>= fun frames =>
      { s with frames }.addToTop line indent text).Follows Mirrors
      (d.addToList line indent text inner outer) := by
  have henter := answers_enter_ofLists line indent inner outer
  unfold Draft.addToList
  split
  · next hat =>
      rw [if_pos hat] at henter
      refine henter.bind_ok_follows (follows_readAlternative _ hbook hheaders rfl fun a => ?_)
      rw [← ofList_push]
      exact Shows.list rfl
  · next hat =>
      rw [if_neg hat] at henter
      split
      · next howned =>
          rw [if_pos howned] at henter
          exact henter.bind_error
      · next howned =>
          rw [if_neg howned] at henter
          refine henter.bind_ok_follows (follows_readAlternative _ hbook hheaders rfl fun a => ?_)
          rw [← ofList_first, ← ofLists_cons]
          exact Shows.list rfl

/-- An item goes to the frames that are open after dedenting. -/
theorem follows_addItem_of_dedent {w : Except ParseError Draft} {frames : List Frame}
    (hopen : s.frames ≠ [])
    (hdedent : (dedent line indent s.book s.frames).Answers (.ok (book, frames)))
    (hsound : Sound frames)
    (hitem : (enter line indent frames >>= fun frames =>
      { s with book, frames }.addToTop line indent text).Follows Mirrors w) :
    (s.addItem line indent text).Follows Mirrors w := by
  unfold State.addItem
  rw [if_neg hopen]
  exact hdedent.bind_ok_follows ((answers_assert hsound).bind_ok_follows hitem)

theorem answers_addItem_of_dedent {e : ParseError} (hopen : s.frames ≠ [])
    (hdedent : (dedent line indent s.book s.frames).Answers (.error e)) :
    (s.addItem line indent text).Answers (.error e) := by
  unfold State.addItem
  rw [if_neg hopen]
  exact hdedent.bind_error

/-- The first item below a header gives its frame an indentation. -/
theorem follows_addItem_first {w : Except ParseError Draft} (hframes : s.frames = [top])
    (hlevel : top.level = none)
    (hitem : ({ s with frames := [{ top with level := some indent }] }.addToTop line indent
      text).Follows Mirrors w) :
    (s.addItem line indent text).Follows Mirrors w := by
  have hdedent : (dedent line indent s.book [top]).Answers (.ok (s.book, [top])) :=
    answers_dedent_of_le [] fun level h => by
      rw [hlevel] at h
      cases h
  rw [← hframes] at hdedent
  have hopen : s.frames ≠ [] := hframes ▸ List.cons_ne_nil _ _
  refine follows_addItem_of_dedent hopen hdedent ?_ ?_
  · exact hframes ▸ sound_singleton (Or.inr hlevel)
  · rw [hframes]
    exact (answers_enter_first [] hlevel).bind_ok_follows hitem

/-- An item in a preamble that has entries goes there, if it is indented as they are. -/
theorem follows_addItem_preamble (hbook : s.book = d.book) (hheaders : s.headers = d.headers)
    {start level : Nat} (hframes : s.frames =
      [{ name := preambleName, line := start, level := some level, preamble := true }]) :
    (s.addItem line indent text).Follows Mirrors
      (if indent < level then .error ⟨line, indent + 1, .inconsistentIndentation⟩
       else if indent = level then d.addEntry line indent text
       else .error ⟨line, indent + 1, .nestedPreamble⟩) := by
  have hopen : s.frames ≠ [] := hframes ▸ List.cons_ne_nil _ _
  split
  · next hlt =>
      refine answers_addItem_of_dedent hopen ?_
      rw [hframes, ← List.nil_append [_], dedent_of_lt rfl hlt, if_pos rfl]
      exact answers_throw _
  · next hle =>
      have hdedent : (dedent line indent s.book s.frames).Answers (.ok (s.book, s.frames)) := by
        rw [hframes]
        refine answers_dedent_of_le [] fun level' hlevel => ?_
        obtain rfl := Option.some.inj hlevel
        exact Nat.le_of_not_lt hle
      have henter : (enter line indent s.frames).Answers
          (if indent = level then .ok s.frames
           else .error ⟨line, indent + 1, .nestedPreamble⟩) := by
        rw [hframes]
        exact answers_enter_preamble [] rfl rfl
      refine follows_addItem_of_dedent hopen hdedent (hframes ▸ sound_singleton (Or.inl rfl)) ?_
      split
      · next hat =>
          obtain rfl := hat
          rw [if_pos rfl] at henter
          exact henter.bind_ok_follows (follows_addEntry hbook hheaders hframes)
      · next hat =>
          rw [if_neg hat] at henter
          exact henter.bind_error

theorem follows_addItem_list {inner : OpenList} {outer : List OpenList}
    (hbook : s.book = d.book) (hheaders : s.headers = d.headers)
    (hframes : s.frames = ofLists inner outer) (hstacked : OpenList.Stacked inner.level outer) :
    (s.addItem line indent text).Follows Mirrors
      ((Phrasebook.dedent line indent d.book inner outer).bind fun (book, inner, outer) =>
        Draft.addToList { d with book } line indent text inner outer) := by
  have hopen : s.frames ≠ [] := hframes ▸ ofLists_ne_nil inner outer
  have hanswers := answers_dedent_ofLists line indent d.book inner outer
  rw [← hframes, ← hbook] at hanswers
  cases hdedent : Phrasebook.dedent line indent d.book inner outer with
  | error e =>
      rw [hbook, hdedent, ← hbook] at hanswers
      exact answers_addItem_of_dedent hopen hanswers
  | ok lists =>
      obtain ⟨book, inner', outer'⟩ := lists
      rw [hbook, hdedent, ← hbook] at hanswers
      have hsound := sound_ofLists (OpenList.stacked_of_dedent hstacked hdedent).1
      refine follows_addItem_of_dedent hopen hanswers hsound ?_
      exact follows_addToList (s := { s with book }) (d := { d with book }) rfl hheaders
        inner' outer'

theorem follows_addItem (h : Mirrors s d) (hnested : d.Nested) :
    (s.addItem line indent text).Follows Mirrors (d.addItem line indent text) := by
  obtain ⟨book, headers, frames⟩ := s
  obtain ⟨book', headers', place⟩ := d
  obtain ⟨rfl, rfl, hframes⟩ := h
  unfold Draft.addItem
  cases hframes with
  | outside => exact answers_throw _
  | preamble start level =>
      cases level with
      | none => exact follows_addItem_first rfl rfl (follows_addEntry rfl rfl rfl)
      | some level => exact follows_addItem_preamble rfl rfl rfl
  | header name start =>
      refine follows_addItem_first rfl rfl ?_
      refine follows_readAlternative [] rfl rfl rfl fun a => ?_
      rw [← ofList_first]
      exact Shows.list rfl
  | list heq => exact follows_addItem_list rfl rfl heq hnested

theorem follows_addHeader (h : Mirrors s d) :
    (s.addHeader line indent content).Follows Mirrors (d.addHeader line indent content) := by
  unfold State.addHeader Draft.addHeader
  refine (answers_plain _).bind_follows fun name _ => ?_
  rw [h.headers]
  split
  · exact answers_throw _
  · rw [h.frames.closeAll, h.book]
    cases hclose : d.place.close d.book with
    | error e => exact answers_throw e
    | ok book =>
        refine ⟨_, answers_pure _, rfl, rfl, ?_⟩
        dsimp only
        split
        · next hname =>
            rw [hname, decide_eq_true rfl]
            exact Shows.preamble line none
        · next hname =>
            rw [decide_eq_false hname]
            exact Shows.header name line

/-- What one line does to the draft it does to the stack. -/
theorem follows_addLine (h : Mirrors s d) (hnested : d.Nested) :
    (s.addLine number raw).Follows Mirrors (d.addLine number raw) := by
  refine (answers_line number raw).bind_follows fun read _ => ?_
  match read with
  | none => exact ⟨s, answers_pure s, h⟩
  | some (indent, .item text) => exact follows_addItem h hnested
  | some (indent, .header content) => exact follows_addHeader h

theorem follows_addLines (h : Mirrors s d) (hnested : d.Nested) (raws : List (List Char)) :
    (s.addLines number raws).Follows Mirrors (d.addLines number raws) := by
  -- The lists of the draft stay nested from line to line, and so the next item finds a sound stack.
  induction raws generalizing s d number with
  | nil => exact ⟨s, answers_pure s, h⟩
  | cons raw rest ih =>
      exact (follows_addLine h hnested).bind fun s' d' hd' h' =>
        ih h' (nested_of_addLine_eq_ok hnested hd')

/-- Every source is read without a failing access, from the first line to the last one or to the
fault that is reported, and at each item the stack is sound. -/
theorem run_parse (source : String) : (parse source).run = some (Book.parse source) := by
  have hstart : Mirrors {} {} := ⟨rfl, rfl, Shows.outside⟩
  have hparse : (parse source).Follows Eq (Book.parse source) := by
    refine (follows_addLines hstart trivial _).bind fun s d _ h => ?_
    rw [h.frames.closeAll, h.book]
    exact answers_iff_follows.mp (answers_plain _)
  exact answers_iff_follows.mpr hparse

end Checked

end Phrasebook
