/-
  Arguments of a program.

  An option is written `--name value`, `--name=value`, or by its letter as `-n value`, `-nvalue` or
  `-n=value`; a flag is `--name`.  All else is an input, and so is everything after `--`.  A value
  in an argument of its own may not look like an option.  Options and flags come at most once.
-/

namespace FrameScript.CommandLine

/-- The options of a program. -/
structure Spec where
  /-- The names of options that take a value. -/
  valued : List String
  flags : List String
  /-- Letters that stand for options with a value. -/
  letters : List (Char × String)

/-- An argument, understood. -/
inductive Item where
  | input (text : String)
  | flag (name : String)
  | value (name text : String)
deriving Repr, DecidableEq

/-- What an argument is by itself. -/
inductive Shape where
  | item (i : Item)
  /-- An option whose value is the next argument. -/
  | awaiting (name : String)
  | unknown
deriving Repr, DecidableEq

namespace Spec

/-- An argument that opens with two dashes, without them. -/
def long (spec : Spec) (cs : List Char) : Shape :=
  let name := String.ofList (cs.takeWhile (· ≠ '='))
  match cs.dropWhile (· ≠ '=') with
  | [] =>
    if spec.flags.contains name then .item (.flag name)
    else if spec.valued.contains name then .awaiting name
    else .unknown
  | _ :: text =>
    if spec.valued.contains name then .item (.value name (String.ofList text)) else .unknown

/-- An argument that opens with one dash, without it. -/
def short (spec : Spec) : List Char → Shape
  | [] => .item (.input "-")
  | letter :: rest =>
    match spec.letters.lookup letter with
    | none => .unknown
    | some name =>
      match rest with
      | [] => .awaiting name
      | '=' :: text => .item (.value name (String.ofList text))
      | text => .item (.value name (String.ofList text))

def shape (spec : Spec) (argument : String) : Shape :=
  match argument.toList with
  | '-' :: '-' :: cs => spec.long cs
  | '-' :: cs => spec.short cs
  | _ => .item (.input argument)

/-- An argument that cannot be a value: it opens with a dash and is more than that. -/
def looksLikeOption (argument : String) : Bool :=
  match argument.toList with
  | '-' :: _ :: _ => true
  | _ => false

/-- The arguments in order, if all of them are understood. -/
def items? (spec : Spec) : List String → Option (List Item)
  | [] => some []
  | argument :: rest =>
    if argument = "--" then some (rest.map .input)
    else match spec.shape argument, rest with
      | .item i, rest => (spec.items? rest).map (i :: ·)
      | .awaiting name, text :: rest =>
        if looksLikeOption text then none
        else (spec.items? rest).map (.value name text :: ·)
      | .awaiting _, [] => none
      | .unknown, _ => none

end Spec

/-- The inputs among some items. -/
def inputs (items : List Item) : List String :=
  items.filterMap fun
    | .input text => some text
    | _ => none

/-- Whether a flag is given; none if it is given twice. -/
def flag? (items : List Item) (name : String) : Option Bool :=
  match items.filter (· = .flag name) with
  | [] => some false
  | [_] => some true
  | _ => none

/-- The value of an option, if it is given; none if it is given twice. -/
def value? (items : List Item) (name : String) : Option (Option String) :=
  let texts := items.filterMap fun
    | .value n text => if n = name then some text else none
    | _ => none
  match texts with
  | [] => some none
  | [text] => some (some text)
  | _ => none

end FrameScript.CommandLine
