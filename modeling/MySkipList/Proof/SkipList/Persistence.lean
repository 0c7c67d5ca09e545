import MySkipList.Construction.Persistence
import MySkipList.Proof.SkipList.Structure

namespace MySkipList

open Foundation

section Walk
variable {K V : Type} [LinearOrder K] [LinearOrder V]

def Entry.pair (entry : Entry K V) : K × V := (entry.ele, entry.score)

omit [LinearOrder K] [LinearOrder V] in
/-- The walk over one level visits the towers that reach above it. -/
theorem Linked.walkLevel {heap : Heap (SkipListNode K V)} {towers : List (Tower K V)} (linked : Linked heap towers)
    (level fuel : Nat) (enough : towers.length < fuel) :
    SkipList.walkLevel heap level fuel ((firstAbove Tower.height level towers).map Tower.ref) =
      .ok ((towers.filter fun tower => level < tower.height).map fun tower => (tower.ele, tower.score)) := by
  induction towers generalizing fuel with
  | nil =>
      obtain ⟨fuel, rfl⟩ : ∃ rest, fuel = rest + 1 := ⟨fuel - 1, by omega⟩
      rfl
  | cons tower rest ih =>
      rw [List.length_cons] at enough
      have later := linked.tail [tower] rest
      by_cases tall : level < tower.height
      · obtain ⟨fuel, rfl⟩ : ∃ rest, fuel = rest + 1 := ⟨fuel - 1, by omega⟩
        obtain ⟨node, stored, links⟩ := linked [] tower rest rfl
        rw [firstAbove_cons, if_pos tall, Option.map_some, SkipList.walkLevel, Heap.read_of_live stored.live,
          Exec.ok_bind, loadForward_of_stores stored tall, Exec.ok_bind, links level tall,
          ih later fuel (by omega), List.filter_cons_of_pos (by simpa using tall), List.map_cons, stored.ele,
          stored.score]
        rfl
      · rw [firstAbove_cons, if_neg tall, ih later fuel (by omega), List.filter_cons_of_neg (by simpa using tall)]

namespace SkipList
variable {list : SkipList K V} {head : Tower K V} {towers : List (Tower K V)} {view : View K V}

theorem Represents.walkLevel (rep : list.Represents head towers) {level : Nat} (inside : level < list.maxLevel) :
    (do
      let node ← loadForward list.heap list.header level
      SkipList.walkLevel list.heap level list.turns node) =
      .ok ((towers.filter fun tower => level < tower.height).map fun tower => (tower.ele, tower.score)) := by
  have tall : level < head.height := rep.headHeight.symm ▸ inside
  obtain ⟨node, stored, links⟩ := rep.linked [] head towers rfl
  rw [← rep.headRef, loadForward_of_stores stored tall, Exec.ok_bind, links level tall]
  exact (rep.linked.tail [head] towers).walkLevel level list.turns rep.length_lt_turns

/-- The members of the list are the entries of its view. -/
theorem Shows.members (shown : list.Shows head towers view) :
    list.members = .ok (view.entries.map Entry.pair) := by
  have walked := shown.represents.walkLevel shown.represents.positive
  rw [List.filter_eq_self.mpr fun tower member => by simpa using (shown.represents.heights tower member).1] at walked
  rw [SkipList.members, walked, ← shown.entries, List.map_map]
  rfl

/-- The order of the members compares the score first and the element second. -/
def MemberBefore (first second : K × V) : Prop := toLex (first.2, first.1) < toLex (second.2, second.1)

theorem precedes_iff {entry : Entry K V} {ele : K} {score : V} :
    entry.Precedes ele score ↔ MemberBefore entry.pair (ele, score) := by
  rw [MemberBefore, Prod.Lex.toLex_lt_toLex, Entry.Precedes, eq_comm (a := score)]
  rfl

/-- The members are strictly increasing. -/
theorem Shows.sorted (shown : list.Shows head towers view) :
    (view.entries.map Entry.pair).Pairwise MemberBefore := by
  rw [← shown.entries, List.map_map, List.pairwise_map]
  refine shown.represents.sorted.imp ?_
  intro first second before
  rw [MemberBefore, Prod.Lex.toLex_lt_toLex]
  exact before

/-- `DisplayList` returns. -/
theorem Represents.displayList (rep : list.Represents head towers) : ∃ printed, list.displayList = .ok printed := by
  have printable (levels : List Nat) (inside : ∀ level ∈ levels, level < list.maxLevel) :
      ∃ printed, levels.mapM (fun level => do
        let node ← loadForward list.heap list.header level
        SkipList.walkLevel list.heap level list.turns node) = .ok printed := by
    induction levels with
    | nil => exact ⟨[], rfl⟩
    | cons level rest ih =>
        obtain ⟨printed, returned⟩ := ih fun other member => inside other (List.mem_cons_of_mem level member)
        exact ⟨_ :: printed, by rw [List.mapM_cons, rep.walkLevel (inside level (by simp)), returned]; rfl⟩
  exact printable (List.range list.maxLevel) fun level member => List.mem_range.mp member

end SkipList

end Walk

namespace SkipList

/-- A token is not empty and has no white space. -/
def Token (text : Str) : Prop := text ≠ [] ∧ text.any isSpace = false

/-- The operation inserts a token or deletes an element. -/
def TokenOperation : Operation Str CInt → Prop
  | .insertElement ele _ _ => Token ele
  | .deleteElement _ => True
  | .searchElement _ => False
  | .setMaxMemory _ => False

section Loading
variable {list : SkipList Str CInt} {head : Tower Str CInt} {towers : List (Tower Str CInt)} {view : View Str CInt}

/-- A line splits at its first delimiter. -/
theorem getObjectFromString_line {ele : Str} (plain : delimiter ∉ ele) (score : CInt) (key val : Str) :
    getObjectFromString (ele ++ [delimiter] ++ decimal score.val) key val = (ele, decimal score.val) := by
  have differs : ∀ byte ∈ ele, decide (byte ≠ delimiter) = true := by
    intro byte member
    exact decide_eq_true fun same => plain (same ▸ member)
  have valid : isValidString (ele ++ [delimiter] ++ decimal score.val) = true := by
    simp [isValidString]
  rw [getObjectFromString, if_pos valid, List.append_assoc, List.takeWhile_append_of_pos differs,
    List.dropWhile_append_of_pos differs]
  simp

/-- The key of a line has no delimiter unless the key before it has one. -/
theorem getObjectFromString_plain (text : Str) {key : Str} (plain : delimiter ∉ key) (val : Str) :
    delimiter ∉ (getObjectFromString text key val).1 := by
  rw [getObjectFromString]
  split
  · intro member
    have differs := List.mem_takeWhile_imp member
    simp at differs
  · exact plain

/-- The load always returns, and it inserts only elements without the delimiter. -/
theorem Shows.loadLines_plain (shown : list.Shows head towers view) (coherent : view.Coherent)
    (plain : ∀ entry ∈ view.entries, delimiter ∉ entry.ele) (draws : Nat → List Nat) (read : List Str)
    {key : Str} (clean : delimiter ∉ key) (val : Str) :
    ∃ final rest last, SkipList.loadLines draws read key val list = .ok final ∧ final.Shows head rest last ∧
      ∀ entry ∈ last.entries, delimiter ∉ entry.ele := by
  induction read generalizing list towers view key val with
  | nil => exact ⟨list, towers, view, rfl, shown, plain⟩
  | cons line read ih =>
      have cleanKey := getObjectFromString_plain line clean val
      rw [SkipList.loadLines]
      dsimp only
      generalize getObjectFromString line key val = parsed at cleanKey
      split
      · exact ih shown coherent plain cleanKey parsed.2
      · cases stoi parsed.2 with
        | none => exact ih shown coherent plain cleanKey parsed.2
        | some value =>
            obtain ⟨next, between, inserted, still, edited⟩ :=
              shown.insertElement coherent.toTracked parsed.1 value (draws read.length)
            have kept := coherent.operate Subtype.val list.maxLevel (.insertElement parsed.1 value (draws read.length))
            dsimp only
            rw [inserted, Exec.ok_bind]
            refine ih still kept ?_ cleanKey parsed.2
            intro entry member
            rcases View.mem_insertElement member with old | new
            · exact plain entry old
            · rw [new]
              exact cleanKey

/-- The load of increasing members without the delimiter appends them. -/
theorem Shows.loadLines_members (shown : list.Shows head towers view) (coherent : view.Coherent)
    (unbounded : view.capacity = 0) (idle : view.queued = []) (draws : Nat → List Nat)
    (stored : List (Str × CInt)) (plain : ∀ pair ∈ stored, delimiter ∉ pair.1 ∧ pair.1 ≠ [])
    (sorted : (view.entries.map Entry.pair ++ stored).Pairwise MemberBefore)
    (distinct : ((view.entries.map Entry.pair ++ stored).map Prod.fst).Nodup) (key val : Str) :
    ∃ final rest last, SkipList.loadLines draws
        (stored.map fun pair => pair.1 ++ [delimiter] ++ decimal pair.2.val) key val list = .ok final ∧
      final.Shows head rest last ∧ last.entries.map Entry.pair = view.entries.map Entry.pair ++ stored := by
  induction stored generalizing list towers view key val with
  | nil => exact ⟨list, towers, view, rfl, shown, by simp⟩
  | cons pair stored ih =>
      obtain ⟨ele, score⟩ := pair
      obtain ⟨clean, nonempty⟩ := plain (ele, score) (by simp)
      have absent : ele ∉ view.entries.map Entry.ele := by
        rw [List.map_append, List.map_cons, List.nodup_middle, List.nodup_cons, List.map_map] at distinct
        exact fun member => distinct.1 (List.mem_append_left _ member)
      obtain ⟨next, between, inserted, still, _⟩ :=
        shown.insertElement coherent.toTracked ele score (draws stored.length)
      have kept := coherent.operate Subtype.val list.maxLevel (.insertElement ele score (draws stored.length))
      have fresh : (view.insertElement ⟨ele, score, getRandomLevel list.maxLevel (draws stored.length)⟩).2 =
          view.insertFresh ⟨ele, score, getRandomLevel list.maxLevel (draws stored.length)⟩ := by
        simp only [View.insertElement, View.find_none.mpr absent]
      rw [View.operate] at kept
      rw [fresh] at still kept
      obtain ⟨entries, stillIdle, stillUnbounded⟩ :=
        insertFresh_unbounded unbounded idle ⟨ele, score, getRandomLevel list.maxLevel (draws stored.length)⟩
      -- Every stored entry precedes the new one, so it goes to the end.
      have last : ∀ entry ∈ view.entries, decide (entry.Precedes ele score) = true := by
        intro entry member
        rw [decide_eq_true_iff, precedes_iff]
        exact (List.pairwise_append.mp sorted).2.2 entry.pair (List.mem_map_of_mem member) (ele, score) (by simp)
      have appended : ((view.insertFresh ⟨ele, score, getRandomLevel list.maxLevel (draws stored.length)⟩).entries.map
          Entry.pair) = view.entries.map Entry.pair ++ [(ele, score)] := by
        rw [entries, Edit.apply, entriesBefore, entriesAfter, List.takeWhile_eq_self_iff.mpr last,
          List.dropWhile_eq_nil_iff.mpr last, List.map_append]
        rfl
      have whole : view.entries.map Entry.pair ++ (ele, score) :: stored =
          (view.insertFresh ⟨ele, score, getRandomLevel list.maxLevel (draws stored.length)⟩).entries.map Entry.pair ++
            stored := by
        rw [appended, List.append_assoc, List.singleton_append]
      obtain ⟨final, rest, loaded, returned, finalShown, result⟩ := ih still kept stillUnbounded stillIdle
        (fun pair member => plain pair (List.mem_cons_of_mem _ member)) (whole ▸ sorted) (whole ▸ distinct)
        ele (decimal score.val)
      refine ⟨final, rest, loaded, ?_, finalShown, by rw [result, whole]⟩
      rw [List.map_cons, SkipList.loadLines, getObjectFromString_line clean score key val]
      dsimp only
      rw [if_neg (by simp [nonempty, decimal_nonempty]), stoi_decimal]
      dsimp only
      rw [List.length_map, inserted, Exec.ok_bind]
      exact returned

theorem tokenOperation_entries (maxLevel : Nat) (maxCapacity : Int) {operations : List (Operation Str CInt)}
    (tokens : ∀ operation ∈ operations, TokenOperation operation) :
    ∀ entry ∈ (historyView Subtype.val maxLevel maxCapacity operations).entries, Token entry.ele := by
  have step (view : View Str CInt) (valid : ∀ entry ∈ view.entries, Token entry.ele)
      (operations : List (Operation Str CInt)) (tokens : ∀ operation ∈ operations, TokenOperation operation) :
      ∀ entry ∈ (abstractRun (View.operate Subtype.val maxLevel) view operations).2.entries, Token entry.ele := by
    induction operations generalizing view with
    | nil => exact valid
    | cons operation operations ih =>
        refine ih _ ?_ fun other member => tokens other (List.mem_cons_of_mem operation member)
        have here := tokens operation (by simp)
        intro entry member
        cases operation with
        | insertElement ele score draws =>
            rcases View.mem_insertElement member with old | new
            · exact valid entry old
            · rw [new]
              exact here
        | deleteElement ele => exact valid entry (View.mem_unlink.mp member).1
        | searchElement ele => exact absurd here id
        | setMaxMemory maxMemory => exact absurd here id
  exact step _ (by simp [newView]) operations tokens

/-- A dump that is loaded into a fresh unbounded list restores the members exactly when none of them
contains the delimiter. -/
theorem loadFile_dumpFile_iff (maxLevel : Nat) (positive : 0 < maxLevel) (maxCapacity : Int)
    (uninitialized other : CInt) (operations : List (Operation Str CInt))
    (tokens : ∀ operation ∈ operations, TokenOperation operation) (draws : Nat → List Nat) :
    ∃ outputs list file loaded stored restored,
      history Subtype.val maxLevel maxCapacity uninitialized operations = .ok (outputs, list) ∧
        list.members = .ok stored ∧ list.dumpFile = .ok file ∧ list.save = .ok file ∧
        (do
          let fresh ← new maxLevel 0 other
          fresh.loadFile draws file) = .ok loaded ∧
        loaded.members = .ok restored ∧ (restored = stored ↔ ∀ pair ∈ stored, delimiter ∉ pair.1) := by
  obtain ⟨outputs, list, head, towers, reached, _, shown, coherent⟩ :=
    history_shows (K := Str) Subtype.val maxLevel positive maxCapacity uninitialized operations
  have valid := tokenOperation_entries maxLevel maxCapacity tokens
  generalize historyView Subtype.val maxLevel maxCapacity operations = view at shown coherent valid
  obtain ⟨fresh, constructed, _, freshShown⟩ := new_shows (K := Str) positive 0 other
  have members := shown.members
  generalize storedEq : view.entries.map Entry.pair = stored at members
  have saved : list.save = .ok (stored.flatMap fun pair => dumpLine pair.1 pair.2) := by
    rw [save, members]
    rfl
  have unbroken : ∀ line ∈ stored.map (fun pair => pair.1 ++ [delimiter] ++ decimal pair.2.val), newline ∉ line := by
    intro line member
    obtain ⟨pair, present, rfl⟩ := List.mem_map.mp member
    rw [← storedEq] at present
    obtain ⟨entry, inside, rfl⟩ := List.mem_map.mp present
    have token := (valid entry inside).2
    simp only [List.mem_append, List.mem_singleton, not_or]
    refine ⟨⟨fun broken => ?_, by decide⟩, fun broken => (decimal_bytes _ _ broken).2 rfl⟩
    have space := List.any_eq_false.mp token newline broken
    exact absurd rfl space
  have read : lines (stored.flatMap fun pair => dumpLine pair.1 pair.2) =
      stored.map fun pair => pair.1 ++ [delimiter] ++ decimal pair.2.val := by
    have flat := lines_flatMap _ unbroken
    rw [List.flatMap_map] at flat
    exact flat
  by_cases plain : ∀ pair ∈ stored, delimiter ∉ pair.1
  · obtain ⟨loaded, rest, last, returned, lastShown, result⟩ :=
      freshShown.loadLines_members (newView_coherent 0) rfl rfl draws stored
        (by
          intro pair member
          refine ⟨plain pair member, ?_⟩
          rw [← storedEq] at member
          obtain ⟨entry, inside, rfl⟩ := List.mem_map.mp member
          exact (valid entry inside).1)
        (by
          rw [← storedEq]
          exact shown.sorted)
        (by
          rw [← storedEq]
          simpa [newView, Function.comp_def, Entry.pair] using shown.distinct) [] []
    refine ⟨outputs, list, _, loaded, stored, stored, reached, members, saved, saved, ?_, ?_, by simpa using plain⟩
    · rw [constructed, Exec.ok_bind, loadFile, read, returned]
    · rw [lastShown.members, result]
      rfl
  · obtain ⟨loaded, rest, last, returned, lastShown, clean⟩ :=
      freshShown.loadLines_plain (newView_coherent 0) (by simp [newView]) draws
        (stored.map fun pair => pair.1 ++ [delimiter] ++ decimal pair.2.val) (by simp : delimiter ∉ ([] : Str)) []
    refine ⟨outputs, list, _, loaded, stored, last.entries.map Entry.pair, reached, members, saved, saved, ?_,
      lastShown.members, ?_⟩
    · rw [constructed, Exec.ok_bind, loadFile, read, returned]
    · refine iff_of_false ?_ plain
      rintro same
      apply plain
      rw [← same]
      intro pair member
      obtain ⟨entry, inside, rfl⟩ := List.mem_map.mp member
      exact clean entry inside

theorem loadFile_dumpFile_iff_negative :
    ∃ outputs list file loaded stored restored,
      history Subtype.val 6 0 ⟨0, by decide⟩
          [.insertElement (bytes "Jobs") ⟨3, by decide⟩ [0], .insertElement (bytes "Steven") ⟨-1, by decide⟩ [],
            .deleteElement (bytes "Justin")] = .ok (outputs, list) ∧
        list.members = .ok stored ∧ list.dumpFile = .ok file ∧ list.save = .ok file ∧
        (do
          let fresh ← new (K := Str) (V := CInt) 6 0 ⟨0, by decide⟩
          fresh.loadFile (fun _ => []) file) = .ok loaded ∧
        loaded.members = .ok restored ∧ (restored = stored ↔ ∀ pair ∈ stored, delimiter ∉ pair.1) :=
  loadFile_dumpFile_iff 6 (by decide) 0 _ _ _ (by
    intro operation member
    fin_cases member
    · exact ⟨by decide, by decide⟩
    · exact ⟨by decide, by decide⟩
    · trivial) _

/-- A member with the delimiter comes back under another name and with another score. -/
theorem load_of_delimited_member :
    ∃ outputs list file loaded,
      history Subtype.val 6 0 ⟨0, by decide⟩ [.insertElement (bytes "a:1") ⟨5, by decide⟩ []] =
          .ok (outputs, list) ∧
        list.members = .ok [(bytes "a:1", ⟨5, by decide⟩)] ∧ list.dumpFile = .ok file ∧
        (do
          let fresh ← new (K := Str) (V := CInt) 6 0 ⟨0, by decide⟩
          fresh.loadFile (fun _ => []) file) = .ok loaded ∧
        loaded.members = .ok [(bytes "a", ⟨1, by decide⟩)] :=
  ⟨_, _, _, _, rfl, rfl, rfl, rfl, rfl⟩

end Loading

end SkipList

end MySkipList
