import Mathlib.Data.List.Basic
import Mathlib.Tactic.FinCases
import Y86Toolkit.CommandLine.Directory
import Y86Toolkit.Proofs.Fallible
import Y86Toolkit.Proofs.Texts

/-!
Paths and the files of the directory. Dots apart, only the first name on a path is
looked up in the directory itself: nothing that is found there leads further. So a
file that changes matters to those paths alone that have its name in front
(`read_same`), and a text is read back at the path to which it was written
(`write_here`). Paths that differ in their ending alone lead to names that do
(`read_ending`).
-/

namespace Y86Toolkit.Paths
open CommandLine CommandLine.Directory Fallible

variable {d after : Directory} {place : Place} {path name piece text : String} {closed : Bool}

/-- What stands between the slashes of a path. -/
def pieces (path : String) : List String := (Text.pieces '/' path.toList).map String.ofList

/-- Where a path starts. -/
def start (path : String) : Place := if (pieces path).head? = some "" then .root else .here

/-- The names on a path. -/
def names (path : String) : List String := (pieces path).filter (· ≠ "")

/-- The name on a path that is looked up in the directory, if there is one. -/
def firstName? (path : String) : Option String :=
  if start path = .here then (names path).find? (· ≠ ".") else none

/-- The same files but for one with this name. -/
def SameBut (name : String) (d after : Directory) : Prop :=
  ∀ other, other ≠ name → after.contents? other = d.contents? other

/-! ## Looking up -/

theorem lookUp_eq_ok {entry : Option Entry} :
    d.lookUp place name = .ok entry ↔ name.utf8ByteSize ≤ maxNameSize ∧ d.entry? place name = entry := by
  rw [lookUp, ← Nat.not_lt]
  split <;> simp_all

/-- No name stands for the directory, and in it none stands for another one. -/
theorem entry_directory {inside : Place} (found : d.entry? place name = some (.directory inside)) :
    place ≠ .here ∧ inside ≠ .here := by
  unfold entry? at found
  split at found
  · simp at found
  · cases found
    exact ⟨nofun, nofun⟩
  · cases found
    exact ⟨nofun, nofun⟩
  · cases found
  · cases found

/-- A file is found in the directory, and nowhere else. -/
theorem entry_file {bytes : ByteArray} (found : d.entry? place name = some (.file bytes)) :
    place = .here ∧ d.contents? name = some bytes := by
  unfold entry? at found
  split at found <;> simp_all

theorem entry_null (found : d.entry? place name = some .null) : name = "null" := by
  unfold entry? at found
  split at found <;> simp_all

/-- A name stands for the same unless it is that of the file that changed. -/
theorem lookUp_same (same : SameBut name d after) (apart : place = .here → piece ≠ name) :
    after.lookUp place piece = d.lookUp place piece := by
  have entry : after.entry? place piece = d.entry? place piece := by
    cases place with
    | here => rw [entry_here, entry_here, same piece (apart rfl)]
    | elsewhere | root | devices =>
      unfold entry?
      split <;> simp_all
  rw [lookUp, lookUp, entry]

/-! ## Following pieces -/

theorem enter_dot (d : Directory) (place : Place) : d.enter place "." = .ok place := if_pos rfl

/-- Only a dot leads to the directory, and only from there. -/
theorem enter_here (entered : d.enter place piece = .ok .here) : place = .here ∧ piece = "." := by
  unfold enter at entered
  split at entered
  · rename_i dot
    exact ⟨Except.ok.inj entered, dot⟩
  · split at entered
    · cases place <;> simp [Place.parent] at entered
    · obtain ⟨entry, found, entered⟩ := bind_eq_ok.mp entered
      split at entered
      · rename_i inside
        have nowhere := (entry_directory (lookUp_eq_ok.mp found).2).2
        exact absurd (pure_eq_ok.mp entered) nowhere
      · cases entered
      · cases entered

theorem enter_same (same : SameBut name d after) (apart : place = .here → piece ≠ "." → piece ≠ name) :
    after.enter place piece = d.enter place piece := by
  by_cases dot : piece = "."
  · rw [dot, enter_dot, enter_dot]
  · rw [enter, enter, lookUp_same same fun here => apart here dot]

/-- Dots lead nowhere else. -/
theorem walk_dots (d : Directory) (place : Place) {pieces : List String}
    (dots : ∀ piece ∈ pieces, piece = ".") : pieces.foldlM d.enter place = .ok place := by
  induction pieces with
  | nil => rfl
  | cons piece rest ih =>
    obtain ⟨rfl, others⟩ := List.forall_mem_cons.mp dots
    rw [List.foldlM_cons, enter_dot]
    exact ih others

theorem walk_here {pieces : List String} (walked : pieces.foldlM d.enter place = .ok .here) :
    place = .here ∧ ∀ piece ∈ pieces, piece = "." := by
  induction pieces generalizing place with
  | nil => exact ⟨pure_eq_ok.mp walked, fun piece held => absurd held List.not_mem_nil⟩
  | cons piece rest ih =>
    obtain ⟨next, entered, walked⟩ := bind_eq_ok.mp walked
    obtain ⟨rfl, dots⟩ := ih walked
    obtain ⟨rfl, rfl⟩ := enter_here entered
    exact ⟨rfl, List.forall_mem_cons.mpr ⟨rfl, dots⟩⟩

/-- A path is followed alike when the first name that is looked up in the directory
is not that of the file that changed. -/
theorem walk_same (same : SameBut name d after) {pieces : List String}
    (apart : place = .here → pieces.find? (· ≠ ".") ≠ some name) :
    pieces.foldlM after.enter place = pieces.foldlM d.enter place := by
  induction pieces generalizing place with
  | nil => rfl
  | cons piece rest ih =>
    -- A dot leaves the first name to the rest; behind that name the files do not count.
    have entered : after.enter place piece = d.enter place piece :=
      enter_same same fun here other => by simpa [other] using apart here
    rw [List.foldlM_cons, List.foldlM_cons, entered]
    cases next : d.enter place piece with
    | error cause => rfl
    | ok inside =>
      refine ih ?_
      rintro rfl
      obtain ⟨rfl, rfl⟩ := enter_here next
      simpa using apart rfl

/-! ## Reading -/

theorem locate_eq (d : Directory) (path : String) :
    d.locate path =
      if path = "" then .error .missing
      else if maxPathSize < path.utf8ByteSize then .error .nameTooLong
      else
        match (names path).getLast? with
        | none => .ok .directory
        | some last => do
          let place ← (names path).dropLast.foldlM d.enter (start path)
          if last = "." ∨ last = ".." then return .directory
          else return .entry place last ((pieces path).getLast? = some "") := rfl

/-- A path leads to the same place in directories in which it is followed alike. -/
theorem locate_congr (walked : (names path).dropLast.foldlM after.enter (start path) =
    (names path).dropLast.foldlM d.enter (start path)) : after.locate path = d.locate path := by
  rw [locate_eq, locate_eq, walked]

/-- What is in front of the name to which a path leads was followed before it. -/
theorem locate_entry (located : d.locate path = .ok (.entry place name closed)) :
    ∃ front, names path = front ++ [name] ∧ front.foldlM d.enter (start path) = .ok place ∧ name ≠ "." := by
  rw [locate_eq] at located
  split at located
  · cases located
  split at located
  · cases located
  split at located
  · cases located
  · rename_i last isLast
    obtain ⟨inside, walked, located⟩ := bind_eq_ok.mp located
    split at located
    · cases located
    · rename_i proper
      cases located
      have whole : (names path).dropLast ++ [name] = names path := List.dropLast_append_getLast? name isLast
      exact ⟨(names path).dropLast, whole.symm, walked, fun dot => proper (.inl dot)⟩

/-- In front of a name in the directory there are only dots. -/
theorem locate_here (located : d.locate path = .ok (.entry .here name closed)) :
    (∀ piece ∈ (names path).dropLast, piece = ".") ∧ firstName? path = some name := by
  obtain ⟨front, whole, walked, proper⟩ := locate_entry located
  obtain ⟨here, dots⟩ := walk_here walked
  refine ⟨by rwa [whole, List.dropLast_concat], ?_⟩
  have passed : front.find? (· ≠ ".") = none :=
    List.find?_eq_none.mpr fun piece held => by simp [dots piece held]
  rw [firstName?, if_pos here, whole, List.find?_append, passed]
  simp [proper]

/-- A name in the directory is found at its path whatever the files are. -/
theorem locate_anywhere (located : d.locate path = .ok (.entry .here name closed))
    (after : Directory) : after.locate path = .ok (.entry .here name closed) := by
  have dots := (locate_here located).1
  rw [← located]
  exact locate_congr ((walk_dots after _ dots).trans (walk_dots d _ dots).symm)

theorem locate_same (same : SameBut name d after) (apart : firstName? path ≠ some name) :
    after.locate path = d.locate path := by
  refine locate_congr (walk_same same fun here first => apart ?_)
  rw [firstName?, if_pos here]
  exact (List.dropLast_prefix (names path)).find?_eq_some first

/-- **A file that changes matters only to paths that have its name in front.** -/
theorem read_same (same : SameBut name d after) (apart : firstName? path ≠ some name) :
    after.read path = d.read path := by
  rw [Directory.read, Directory.read, locate_same same apart]
  cases located : d.locate path with
  | error cause => rfl
  | ok target =>
    cases target with
    | directory => rfl
    | entry place last closed =>
      have looked : after.lookUp place last = d.lookUp place last := by
        refine lookUp_same same ?_
        rintro rfl rfl
        exact apart (locate_here located).2
      simp only [bind, Except.bind, looked]

theorem short_of_read (held : d.read path = .ok text) : path.utf8ByteSize ≤ maxPathSize := by
  refine Nat.le_of_not_lt fun long => ?_
  rw [Directory.read, locate_eq, if_pos long] at held
  split at held <;> cases held

/-- What is read is a file of the directory, or the empty device. -/
theorem here_of_read (held : d.read path = .ok text)
    (located : d.locate path = .ok (.entry place name closed)) (proper : name ≠ "null") :
    place = .here ∧ name.utf8ByteSize ≤ maxNameSize := by
  obtain ⟨target, led, held⟩ := bind_eq_ok.mp held
  cases located.symm.trans led
  obtain ⟨entry, found, held⟩ := bind_eq_ok.mp held
  obtain ⟨short, found⟩ := lookUp_eq_ok.mp found
  refine ⟨?_, short⟩
  split at held
  · cases held
  · cases held
  · exact (entry_file found).1
  · exact absurd (entry_null found) proper

/-! ## Writing -/

/-- **A text is read back at the path to which it was written**, and no other file
has changed. -/
theorem write_here (located : d.locate path = .ok (.entry .here name false))
    (short : name.utf8ByteSize ≤ maxNameSize) (text : String) :
    ∃ after, d.write path text = .ok after ∧ after.read path = .ok text ∧ SameBut name d after := by
  have looked : d.lookUp .here name = .ok ((d.contents? name).map .file) :=
    lookUp_eq_ok.mpr ⟨short, entry_here d name⟩
  have written : d.write path text = .ok ⟨d.files.insert name text.toUTF8⟩ := by
    rw [Directory.write, located]
    simp only [bind, Except.bind, looked]
    cases d.contents? name <;> rfl
  have contents := contents_write located written
  refine ⟨_, written, ?_, fun other apart => (contents other).trans (if_neg apart)⟩
  have found : Directory.lookUp ⟨d.files.insert name text.toUTF8⟩ .here name =
      .ok (some (.file text.toUTF8)) := by
    refine lookUp_eq_ok.mpr ⟨short, ?_⟩
    rw [entry_here, contents name, if_pos rfl, Option.map_some]
  rw [Directory.read, locate_anywhere located]
  simp only [bind, Except.bind, found, Bool.false_eq_true, if_false]
  exact decodeText_toUTF8 text

/-! ## Endings -/

/-- What can stand at the end of a path. A name that ends with it is that of a file. -/
structure Ending (ending : String) : Prop where
  whole : '/' ∉ ending.toList
  dotted : '.' ∈ ending.toList
  solid : ∃ c ∈ ending.toList, c ≠ '.'

theorem Ending.proper {ending : String} (isEnding : Ending ending) (last : String) :
    last ++ ending ∉ ["", ".", "..", "null"] := by
  obtain ⟨c, held, other⟩ := isEnding.solid
  have dotted : '.' ∈ (last ++ ending).toList := by simp [isEnding.dotted]
  have solid : ∃ c ∈ (last ++ ending).toList, c ≠ '.' := ⟨c, by simp [held], other⟩
  generalize last ++ ending = whole at dotted solid
  intro listed
  fin_cases listed <;> simp at dotted solid

theorem Ending.not_null {ending : String} (isEnding : Ending ending) (last : String) :
    last ++ ending ≠ "null" :=
  fun null => isEnding.proper last (by simp [null])

theorem pieces_ending (stem : String) :
    ∃ front last, ∀ ending, Ending ending → pieces (stem ++ ending) = front ++ [last ++ ending] := by
  obtain ⟨front, last, split⟩ := @Texts.exists_pieces_append '/' stem.toList
  refine ⟨front.map String.ofList, String.ofList last, fun ending isEnding => ?_⟩
  rw [pieces, String.toList_append, split _ isEnding.whole]
  simp [String.ofList_append]

/-- Where a path leads whose last name is one that a file can have. -/
theorem locate_pieces {front : List String} {last : String} (split : pieces path = front ++ [last])
    (proper : last ∉ ["", ".", "..", "null"]) (short : path.utf8ByteSize ≤ maxPathSize) :
    d.locate path = do
      let place ← (front.filter (· ≠ "")).foldlM d.enter (if front.head? = some "" then .root else .here)
      return .entry place last false := by
  simp only [List.mem_cons, List.not_mem_nil, not_or, or_false] at proper
  obtain ⟨full, notDot, notDots, -⟩ := proper
  have written : path ≠ "" := by
    rintro rfl
    have alone : [""] = front ++ [last] := split
    exact full (by simpa using (congrArg List.getLast? alone).symm)
  have whole : names path = front.filter (· ≠ "") ++ [last] := by simp [names, split, full]
  have begins : start path = if front.head? = some "" then .root else .here := by
    cases front <;> simp [start, split, full]
  rw [locate_eq, if_neg written, if_neg (Nat.not_lt.mpr short), whole, begins, split]
  simp [full, notDot, notDots]

/-- **Paths that differ in their ending alone lead to names that do.** What was read
at the one is a file of the directory, and it has a name for the other one beside it. -/
theorem read_ending {stem ending other : String} (held : d.read (stem ++ ending) = .ok text)
    (isEnding : Ending ending) (isOther : Ending other) (alike : other.utf8ByteSize = ending.utf8ByteSize) :
    ∃ last, d.locate (stem ++ ending) = .ok (.entry .here (last ++ ending) false) ∧
      d.locate (stem ++ other) = .ok (.entry .here (last ++ other) false) ∧
      (last ++ ending).utf8ByteSize ≤ maxNameSize := by
  obtain ⟨front, last, split⟩ := pieces_ending stem
  have short : (stem ++ ending).utf8ByteSize ≤ maxPathSize := short_of_read held
  have otherShort : (stem ++ other).utf8ByteSize ≤ maxPathSize := by
    rwa [String.utf8ByteSize_append, alike, ← String.utf8ByteSize_append]
  -- What stands in front of the two endings is the same, and is followed alike.
  have located := locate_pieces (d := d) (split ending isEnding) (isEnding.proper last) short
  have otherLocated := locate_pieces (d := d) (split other isOther) (isOther.proper last) otherShort
  cases walked : (front.filter (· ≠ "")).foldlM d.enter (if front.head? = some "" then .root else .here) with
  | error cause =>
    rw [walked] at located
    rw [Directory.read, located] at held
    cases held
  | ok place =>
    rw [walked] at located otherLocated
    obtain ⟨rfl, fits⟩ := here_of_read held located (isEnding.not_null last)
    exact ⟨last, located, otherLocated, fits⟩

end Y86Toolkit.Paths
