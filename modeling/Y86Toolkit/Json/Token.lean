import Y86Toolkit.Json.Value
import Y86Toolkit.Text.Numeral

/-!
The tokens of JSON text: punctuation, quoted strings, and words, which are the
maximal runs of other characters that hold no white space. A word is a literal
name or a number, or the text is refused. Tokens are found by one pass over the
characters that carries a small state.
-/

namespace Y86Toolkit.Json

/-- A token. -/
inductive Token where
  | openArray | closeArray | openObject | closeObject | comma | colon
  /-- A value that is neither an array nor an object. -/
  | scalar (value : Value)
  deriving Repr

namespace Token

/-- The token that a character is by itself. -/
def punctuation? : Char → Option Token
  | '[' => some openArray
  | ']' => some closeArray
  | '\x7b' => some openObject
  | '\x7d' => some closeObject
  | ',' => some comma
  | ':' => some colon
  | _ => none

/-- The four characters that may stand between tokens. -/
def isSpace (c : Char) : Bool := c == ' ' || c == '\t' || c == '\n' || c == '\r'

/-! ## Words -/

/-- The digits at the start of a text, of which there must be one, and what
follows them. -/
def digits? (cs : List Char) : Option (List Char × List Char) :=
  match cs.span Char.isDigit with
  | ([], _) => none
  | found => some found

/-- Drops a fraction, if there is one. -/
def skipFraction? : List Char → Option (List Char)
  | '.' :: rest => (digits? rest).map Prod.snd
  | cs => some cs

/-- Drops an exponent, if there is one. -/
def skipExponent? : List Char → Option (List Char)
  | 'e' :: '+' :: rest | 'e' :: '-' :: rest | 'E' :: '+' :: rest | 'E' :: '-' :: rest
  | 'e' :: rest | 'E' :: rest => (digits? rest).map Prod.snd
  | cs => some cs

/-- Reads a number without its sign: digits, with no zero in front of others, a
fraction and an exponent. The result tells the digits if there is nothing
else. -/
def unsigned? (word : List Char) : Option (Option (List Char)) := do
  let (whole, rest) ← digits? word
  if whole.length ≠ 1 ∧ whole.head? = some '0' then none
  let rest' ← skipFraction? rest
  let [] ← skipExponent? rest' | none
  return if rest.isEmpty then some whole else none

/-- Reads a number. -/
def number? (word : List Char) : Option Number :=
  match word with
  | '-' :: rest => (unsigned? rest).map fun _ => .decimal (String.ofList word)
  | _ =>
    (unsigned? word).map fun
      | some digits => .natural (Nat.ofDigitChars 10 digits 0)
      | none => .decimal (String.ofList word)

/-- The value that a word stands for. -/
def word? (word : List Char) : Option Value :=
  match String.ofList word with
  | "null" => some .null
  | "true" => some (.bool true)
  | "false" => some (.bool false)
  | _ => (number? word).map .number

/-! ## Strings -/

/-- The character that an escape of one letter stands for. -/
def escaped? : Char → Option Char
  | '"' => some '"'
  | '\\' => some '\\'
  | '/' => some '/'
  | 'b' => some '\x08'
  | 'f' => some '\x0c'
  | 'n' => some '\n'
  | 'r' => some '\r'
  | 't' => some '\t'
  | _ => none

/-- Joins the numbers of a string's characters to a text. Two halves of a
surrogate pair in a row are one character; a half alone is none. -/
def textOfUnits : List Nat → Quoted := go []
where
  /-- The characters already found are kept in reverse. -/
  go (done : List Char) : List Nat → Quoted
    | [] => some (String.ofList done.reverse)
    | [unit] => if isSurrogate unit then none else go (Char.ofNat unit :: done) []
    | unit :: next :: rest =>
      if isHigh unit then
        if isLow next then
          go (Char.ofNat (0x10000 + (unit - 0xD800) * 0x400 + (next - 0xDC00)) :: done) rest
        else none
      else if isLow unit then none
      else go (Char.ofNat unit :: done) (next :: rest)
  /-- The first half of a pair. -/
  isHigh (unit : Nat) : Bool := 0xD800 ≤ unit && unit < 0xDC00
  /-- The second half of a pair. -/
  isLow (unit : Nat) : Bool := 0xDC00 ≤ unit && unit < 0xE000
  /-- Either half. -/
  isSurrogate (unit : Nat) : Bool := isHigh unit || isLow unit

/-! ## Scanning -/

/-- What the scanner is in the middle of. Everything is kept in reverse. -/
inductive Mode where
  | between
  | word (read : List Char)
  /-- A string, with the numbers of its characters. -/
  | quoted (units : List Nat)
  /-- A string, behind a backslash. -/
  | escape (units : List Nat)
  /-- A string, in an escape by number, with the digits so far. -/
  | unicode (units : List Nat) (read : List Char)
  deriving Repr

/-- The state of the scanner. -/
structure Scan where
  /-- The tokens already found, in reverse. -/
  found : List Token := []
  mode : Mode := .between

namespace Scan

/-- The scanner behind one more token. -/
def push (scan : Scan) (token : Token) : Scan := ⟨token :: scan.found, .between⟩

/-- Takes a character that stands between tokens. -/
def between (found : List Token) (c : Char) : Scan :=
  match punctuation? c with
  | some token => ⟨token :: found, .between⟩
  | none =>
    if isSpace c then ⟨found, .between⟩
    else if c = '"' then ⟨found, .quoted []⟩
    else ⟨found, .word [c]⟩

/-- Whether a character ends a word. -/
def endsWord (c : Char) : Bool := (punctuation? c).isSome || isSpace c || c == '"'

/-- Takes one character. -/
def step (scan : Scan) (c : Char) : Option Scan :=
  match scan.mode with
  | .between => some (between scan.found c)
  | .word read =>
    if endsWord c then
      (word? read.reverse).map fun value => between (.scalar value :: scan.found) c
    else some { scan with mode := .word (c :: read) }
  | .quoted units =>
    if c = '"' then some (scan.push (.scalar (.string (textOfUnits units.reverse))))
    else if c = '\\' then some { scan with mode := .escape units }
    else if c.toNat < 0x20 then none
    else some { scan with mode := .quoted (c.toNat :: units) }
  | .escape units =>
    if c = 'u' then some { scan with mode := .unicode units [] }
    else (escaped? c).map fun d => { scan with mode := .quoted (d.toNat :: units) }
  | .unicode units read =>
    match read, Numeral.digitValue? 16 c with
    | _, none => none
    | [_, _, _], some _ =>
      match Numeral.readDigits 16 0x10000 0 (c :: read).reverse with
      | .ok unit => some { scan with mode := .quoted (unit :: units) }
      | .error _ => none
    | _, some _ => some { scan with mode := .unicode units (c :: read) }

/-- The tokens, at the end of the text. -/
def finish (scan : Scan) : Option (List Token) :=
  match scan.mode with
  | .between => some scan.found.reverse
  | .word read => (word? read.reverse).map fun value => (.scalar value :: scan.found).reverse
  | _ => none

end Scan

/-- The tokens of a text. -/
def scan? (cs : List Char) : Option (List Token) := do
  let scan ← cs.foldlM Scan.step {}
  scan.finish

end Token

end Y86Toolkit.Json
