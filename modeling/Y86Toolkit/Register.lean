import Y86Toolkit.Word

/-!
The fifteen general-purpose registers and the file that holds their values.
Reading a register after a write gives the value written there and leaves every
other register as it was (`get_set`).
-/

namespace Y86Toolkit

/-- A general-purpose register. -/
inductive Register where
  | rax | rcx | rdx | rbx | rsp | rbp | rsi | rdi | r8 | r9 | r10 | r11 | r12 | r13 | r14
  deriving DecidableEq, Repr

namespace Register

/-- Every register, in the order of its number. -/
def all : List Register :=
  [rax, rcx, rdx, rbx, rsp, rbp, rsi, rdi, r8, r9, r10, r11, r12, r13, r14]

/-- The number that stands for a register in an encoded instruction. -/
def index : Register → Fin 15
  | rax => 0 | rcx => 1 | rdx => 2 | rbx => 3 | rsp => 4 | rbp => 5 | rsi => 6 | rdi => 7
  | r8 => 8 | r9 => 9 | r10 => 10 | r11 => 11 | r12 => 12 | r13 => 13 | r14 => 14

/-- The register with a number; fifteen and above name none. -/
def ofNumber? (n : Nat) : Option Register := all[n]?

theorem ofNumber?_index (r : Register) : ofNumber? r.index = some r := by
  cases r <;> rfl

theorem ofNumber?_eq_some {n : Nat} {r : Register} (found : ofNumber? n = some r) :
    n = r.index := by
  rcases Nat.lt_or_ge n 15 with below | above
  · exact (show ∀ k : Fin 15, ∀ s, ofNumber? k = some s → k.val = s.index by decide) ⟨n, below⟩ r found
  · rw [ofNumber?, List.getElem?_eq_none (by simpa [all] using above)] at found
    contradiction

/-- Two registers with one number are the same register. -/
theorem index_inj {r s : Register} : r.index = s.index ↔ r = s := by
  constructor
  · intro same
    apply Option.some.inj
    rw [← ofNumber?_index r, ← ofNumber?_index s, same]
  · exact congrArg index

/-- The name in assembly text, with its sigil. -/
def name : Register → String
  | rax => "%rax" | rcx => "%rcx" | rdx => "%rdx" | rbx => "%rbx" | rsp => "%rsp"
  | rbp => "%rbp" | rsi => "%rsi" | rdi => "%rdi" | r8 => "%r8" | r9 => "%r9"
  | r10 => "%r10" | r11 => "%r11" | r12 => "%r12" | r13 => "%r13" | r14 => "%r14"

/-- Looks a name up; the case of ASCII letters does not matter. -/
def ofName? (text : String) : Option Register :=
  all.find? fun r => r.name.toList == text.toList.map Char.toLower

end Register

/-- The values of all registers, by number. -/
structure RegisterFile where
  values : Vector Word 15
  deriving DecidableEq, Repr

namespace RegisterFile

/-- Every register holds zero. -/
def zero : RegisterFile := ⟨Vector.replicate 15 0⟩

/-- The value of a register. -/
def get (file : RegisterFile) (r : Register) : Word := file.values[r.index]

/-- The file with a new value in one register. -/
def set (file : RegisterFile) (r : Register) (value : Word) : RegisterFile :=
  ⟨file.values.set r.index value⟩

theorem get_set (file : RegisterFile) (r s : Register) (value : Word) :
    (file.set r value).get s = if r = s then value else file.get s := by
  by_cases same : r = s
  · subst same
    simp [get, set]
  · have apart : (r.index : Nat) ≠ s.index := fun equal => same (Register.index_inj.mp (Fin.ext equal))
    simp [get, set, same, apart]

/-- Two files are equal when every register holds the same value in both. -/
theorem ext_get {a b : RegisterFile} (agree : ∀ r, a.get r = b.get r) : a = b := by
  have values : a.values = b.values := by
    apply Vector.ext
    intro i below
    obtain ⟨r, number⟩ := (show ∀ k : Fin 15, ∃ r : Register, r.index = k by
      intro k; refine ⟨Register.all.get ⟨k.val, k.isLt⟩, ?_⟩; revert k; decide) ⟨i, below⟩
    have here := agree r
    simpa [get, number] using here
  cases a
  cases b
  simpa using values

end RegisterFile

end Y86Toolkit
