/-
  Reading JSON text, one character at a time.

  The reader is a machine: a state, and a step for each character.  The state holds the arrays and
  objects that are still open and what is being read inside the innermost one.  A text that has not
  been refused is the beginning of some longer text that is JSON, so a text that ends too early and
  a text that went wrong are told apart by the last state alone (`State.finish`).

  Arrays and objects nest at most 127 deep.  Of two fields with one name the later value counts.
-/
import FrameScript.Json.Value

namespace FrameScript.Json

/-- Why a text is not a JSON value. -/
inductive ReadError where
  /-- The text ended inside, or instead of, a value. -/
  | incomplete
  /-- A character that cannot stand where it stands, or a number beyond the largest double. -/
  | malformed
deriving Repr, DecidableEq

/-- One sentence for people. -/
def ReadError.message : ReadError → String
  | .incomplete => "the text ends before its value does"
  | .malformed => "the text is not JSON"

/-- The depth to which arrays and objects may nest. -/
def maxDepth : Nat := 127

/-- What one step of a part of the machine comes to. -/
inductive Progress (σ α : Type) where
  | going (s : σ)
  | finished (a : α)
  | refused

/-! ## Quoted text -/

/-- Where the reader stands inside an escape. -/
inductive Escape where
  /-- In no escape. -/
  | none
  /-- After the backslash. -/
  | mark
  /-- Inside the digits of `\u`, last one first; `high` is the first half of a surrogate pair. -/
  | code (high : Option Nat) (digits : List Char)
  /-- After the first half of a surrogate pair. -/
  | second (high : Nat)
  /-- After the first half and the backslash of the second. -/
  | secondMark (high : Nat)
deriving Repr, DecidableEq

/-- A text of which the closing quote has not been met; the last character comes first. -/
structure Quoted where
  chars : List Char := []
  escape : Escape := .none
deriving Repr, DecidableEq

/-- The value of a hexadecimal digit of either case. -/
def hexDigit? (c : Char) : Option Nat :=
  if '0' ≤ c ∧ c ≤ '9' then some (c.toNat - '0'.toNat)
  else if 'a' ≤ c ∧ c ≤ 'f' then some (c.toNat - 'a'.toNat + 10)
  else if 'A' ≤ c ∧ c ≤ 'F' then some (c.toNat - 'A'.toNat + 10)
  else none

/-- The value of exactly four hexadecimal digits. -/
def hexCode? (cs : List Char) : Option Nat := do
  guard (cs.length = 4)
  let ds ← cs.mapM hexDigit?
  return ds.foldl (fun n d => 16 * n + d) 0

/-- How many bytes some characters take. -/
def byteCount (cs : List Char) : Nat := cs.foldl (fun n c => n + c.utf8Size) 0

/-- The code is the first half of a surrogate pair. -/
def isHighHalf (n : Nat) : Bool := 0xd800 ≤ n && n ≤ 0xdbff

/-- The code is the second half of a surrogate pair. -/
def isLowHalf (n : Nat) : Bool := 0xdc00 ≤ n && n ≤ 0xdfff

namespace Quoted

/-- Add a character and leave the escape. -/
def push (q : Quoted) (c : Char) : Quoted := ⟨c :: q.chars, .none⟩

/-- The character a one-letter escape stands for. -/
def letter? : Char → Option Char
  | '"' => some '"'
  | '\\' => some '\\'
  | '/' => some '/'
  | 'b' => some '\x08'
  | 'f' => some '\x0c'
  | 'n' => some '\n'
  | 'r' => some '\r'
  | 't' => some '\t'
  | _ => none

/-- A complete code.  A surrogate half counts only as part of a pair. -/
def pushCode (q : Quoted) (high : Option Nat) (code : Nat) : Progress Quoted String :=
  match high with
  | none =>
    if isLowHalf code then .refused
    else if isHighHalf code then .going { q with escape := .second code }
    else .going (q.push (Char.ofNat code))
  | some h =>
    if isLowHalf code then
      .going (q.push (Char.ofNat (0x10000 + (h - 0xd800) * 0x400 + (code - 0xdc00))))
    else .refused

/-- One character of a quoted text.  The four bytes after `\u` are judged together, once all of
them are there. -/
def step (q : Quoted) (c : Char) : Progress Quoted String :=
  match q.escape with
  | .none =>
    if c = '"' then .finished (String.ofList q.chars.reverse)
    else if c = '\\' then .going { q with escape := .mark }
    else if c.toNat < 0x20 then .refused
    else .going (q.push c)
  | .mark =>
    if c = 'u' then .going { q with escape := .code none [] }
    else match letter? c with
      | some d => .going (q.push d)
      | none => .refused
  | .code high digits =>
    let digits := c :: digits
    if byteCount digits < 4 then .going { q with escape := .code high digits }
    else match hexCode? digits.reverse with
      | some code => q.pushCode high code
      | none => .refused
  | .second high => if c = '\\' then .going { q with escape := .secondMark high } else .refused
  | .secondMark high =>
    if c = 'u' then .going { q with escape := .code (some high) [] } else .refused

end Quoted

/-! ## Numbers -/

/-- Which part of a number literal has been met last. -/
inductive Phase where
  | sign | zero | whole | point | fraction | mark | markSign | exponent
deriving Repr, DecidableEq

/-- A number literal so far: `digits * 10 ^ (±exponent - places)` with a sign. -/
structure Numeral where
  phase : Phase
  negative : Bool := false
  digits : Nat := 0
  /-- How many of the digits stand behind the point. -/
  places : Nat := 0
  exponentNegative : Bool := false
  exponent : Nat := 0
deriving Repr, DecidableEq

/-- The value of a decimal digit. -/
def digit? (c : Char) : Option Nat :=
  if c.isDigit then some (c.toNat - '0'.toNat) else none

namespace Numeral

/-- The literal may end here. -/
def complete (n : Numeral) : Bool :=
  match n.phase with
  | .zero | .whole | .fraction | .exponent => true
  | .sign | .point | .mark | .markSign => false

/-- The first digit of a literal: a zero stands alone. -/
def first (n : Numeral) (d : Nat) : Numeral :=
  { n with phase := if d = 0 then .zero else .whole, digits := d }

/-- The literal with one more character, if the character belongs to it. -/
def step? (n : Numeral) (c : Char) : Option Numeral :=
  let isMark := c = 'e' ∨ c = 'E'
  let fractional := (digit? c).map fun d =>
    { n with phase := .fraction, digits := 10 * n.digits + d, places := n.places + 1 }
  let exponential := (digit? c).map fun d =>
    { n with phase := .exponent, exponent := 10 * n.exponent + d }
  match n.phase with
  | .sign => (digit? c).map n.first
  | .zero =>
    if c = '.' then some { n with phase := .point }
    else if isMark then some { n with phase := .mark }
    else none
  | .whole =>
    if c = '.' then some { n with phase := .point }
    else if isMark then some { n with phase := .mark }
    else (digit? c).map fun d => { n with digits := 10 * n.digits + d }
  | .point => fractional
  | .fraction => if isMark then some { n with phase := .mark } else fractional
  | .mark =>
    if c = '+' then some { n with phase := .markSign }
    else if c = '-' then some { n with phase := .markSign, exponentNegative := true }
    else exponential
  | .markSign => exponential
  | .exponent => exponential

/-- The literal has neither point nor exponent. -/
def isWhole (n : Numeral) : Bool :=
  match n.phase with
  | .zero | .whole => true
  | _ => false

/-- The number of a literal that may end.  A whole literal that fits in 64 bits is an integer;
minus zero and all others are doubles, and none beyond the largest double is a number. -/
def number? (n : Numeral) : Option Number :=
  if !n.complete then none
  else if n.isWhole && !n.negative && n.digits < 0x10000000000000000 then some (.integer n.digits)
  else if n.isWhole && n.negative && 0 < n.digits && n.digits ≤ 0x8000000000000000 then
    some (.integer (-n.digits))
  else
    let scale : Int := (if n.exponentNegative then -(n.exponent : Int) else n.exponent) - n.places
    let x := Binary64.ofDecimal n.negative n.digits scale
    if x.isFinite then some (.double x) else none

end Numeral

/-! ## The machine -/

/-- An array or object of which the closing bracket has not been met. -/
inductive Container where
  /-- The items so far, the last one first. -/
  | array (items : List Value)
  /-- The fields so far, and the name of the field whose value is read next. -/
  | object (fields : Fields) (name : String)
deriving Repr

/-- What the reader expects or has begun inside the innermost container. -/
inductive Mode where
  /-- A value comes next; `closable` if the array may end instead. -/
  | value (closable : Bool)
  /-- A field name comes next; `closable` if the object may end instead. -/
  | name (closable : Bool)
  | nameText (q : Quoted)
  | colon
  | text (q : Quoted)
  | number (n : Numeral)
  /-- Inside a word: its next character, those after it, and what the word means. -/
  | word (next : Char) (rest : List Char) (meaning : Value)
  /-- A value has been read and not yet been put into its container. -/
  | complete (v : Value)
  | refused
deriving Repr

/-- The open containers, innermost first, and the mode inside the innermost. -/
structure State where
  enclosing : List Container
  mode : Mode
deriving Repr

/-- The four characters that may stand between the parts of a value. -/
def isBlank (c : Char) : Bool := c = ' ' || c = '\n' || c = '\t' || c = '\r'

namespace State

/-- Before the first character. -/
def start : State := ⟨[], .value false⟩

def refuse (s : State) : State := { s with mode := .refused }

/-- Open a container, unless as many are open as may be. -/
def enter (s : State) (c : Container) (mode : Mode) : State :=
  if s.enclosing.length < maxDepth then ⟨c :: s.enclosing, mode⟩ else s.refuse

/-- The first character of a value. -/
def beginValue (s : State) (closable : Bool) (c : Char) : State :=
  if c = '[' then s.enter (.array []) (.value true)
  else if c = '\x7b' then s.enter (.object [] "") (.name true)
  else if c = '"' then { s with mode := .text {} }
  else if c = '-' then { s with mode := .number { phase := .sign, negative := true } }
  else if c = 't' then { s with mode := .word 'r' ['u', 'e'] (.bool true) }
  else if c = 'f' then { s with mode := .word 'a' ['l', 's', 'e'] (.bool false) }
  else if c = 'n' then { s with mode := .word 'u' ['l', 'l'] .null }
  else match digit? c with
    | some d => { s with mode := .number (Numeral.first { phase := .sign } d) }
    | none =>
      match s.enclosing with
      | .array _ :: rest =>
        if closable && c = ']' then ⟨rest, .complete (.array [])⟩ else s.refuse
      | _ => s.refuse

/-- The first character of a field, or the end of an empty object. -/
def beginName (s : State) (closable : Bool) (c : Char) : State :=
  if c = '"' then { s with mode := .nameText {} }
  else match s.enclosing with
    | .object fields _ :: rest =>
      if closable && c = '\x7d' then ⟨rest, .complete (.object fields)⟩ else s.refuse
    | _ => s.refuse

/-- The character after a value: it puts the value into its container. -/
def afterValue (s : State) (v : Value) (c : Char) : State :=
  if isBlank c then { s with mode := .complete v }
  else match s.enclosing with
    | .array items :: rest =>
      if c = ',' then ⟨.array (v :: items) :: rest, .value false⟩
      else if c = ']' then ⟨rest, .complete (.array (v :: items).reverse)⟩
      else s.refuse
    | .object fields name :: rest =>
      if c = ',' then ⟨.object (fields.put name v) "" :: rest, .name false⟩
      else if c = '\x7d' then ⟨rest, .complete (.object (fields.put name v))⟩
      else s.refuse
    | [] => s.refuse

/-- The name of the field whose value is read next. -/
def setName (s : State) (name : String) : State :=
  match s.enclosing with
  | .object fields _ :: rest => ⟨.object fields name :: rest, .colon⟩
  | _ => s.refuse

/-- One character. -/
def step (s : State) (c : Char) : State :=
  match s.mode with
  | .refused => s
  | .value closable => if isBlank c then s else s.beginValue closable c
  | .name closable => if isBlank c then s else s.beginName closable c
  | .nameText q =>
    match q.step c with
    | .going q => { s with mode := .nameText q }
    | .finished name => s.setName name
    | .refused => s.refuse
  | .colon =>
    if isBlank c then s else if c = ':' then { s with mode := .value false } else s.refuse
  | .text q =>
    match q.step c with
    | .going q => { s with mode := .text q }
    | .finished text => { s with mode := .complete (.string text) }
    | .refused => s.refuse
  | .number n =>
    match n.step? c with
    | some n => { s with mode := .number n }
    | none =>
      match n.number? with
      | some number => s.afterValue (.number number) c
      | none => s.refuse
  | .word next rest v =>
    if c = next then
      match rest with
      | [] => { s with mode := .complete v }
      | d :: rest => { s with mode := .word d rest v }
    else s.refuse
  | .complete v => s.afterValue v c

/-- The value of a text that has come to its end. -/
def finish (s : State) : Except ReadError Value :=
  match s.mode with
  | .refused => .error .malformed
  | .complete v => if s.enclosing.isEmpty then .ok v else .error .incomplete
  | .number n =>
    match n.number? with
    | some number => if s.enclosing.isEmpty then .ok (.number number) else .error .incomplete
    | none => if n.complete then .error .malformed else .error .incomplete
  | _ => .error .incomplete

end State

/-- The value that a text stands for. -/
def read (text : String) : Except ReadError Value :=
  (text.toList.foldl State.step State.start).finish

/-- Nothing that follows can mend a refused text. -/
theorem State.foldl_step_refused (s : State) (h : s.mode = .refused) (cs : List Char) :
    cs.foldl State.step s = s := by
  induction cs with
  | nil => rfl
  | cons c cs ih => rw [List.foldl_cons]; simpa [step, h] using ih

end FrameScript.Json
