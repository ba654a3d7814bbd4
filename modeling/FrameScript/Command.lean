/-
  Commands, the target language of lowering.

  A script is a list of commands, one a line.  References to registers are tagged with the active
  call frame; where no frame is active the tag is left out.
-/
import FrameScript.Decimal.Layout

namespace FrameScript

/-- An operator between two registers. -/
inductive Op where
  | assign | add | sub | mul | div | rem
deriving Repr, DecidableEq

def Op.symbol : Op → String
  | .assign => "="
  | .add => "+="
  | .sub => "-="
  | .mul => "*="
  | .div => "/="
  | .rem => "%="

/-- The tag of the active call frame, if one is active. -/
abbrev Frame := Option String

/-- A command. -/
inductive Command where
  | declare (register : String)
  /-- Store a literal. -/
  | set (frame : Frame) (register value : String)
  /-- `lhs op rhs` between two registers of one frame. -/
  | operation (frame : Frame) (lhs : String) (op : Op) (rhs : String)
  /-- Run another script. -/
  | invoke (path : String)
  | summon (tag : String)
  | kill (tag : String)
deriving Repr, DecidableEq

/-- A register reference in a frame. -/
def Frame.tag (frame : Frame) (register : String) : String :=
  match frame with
  | some tag => tag ++ " " ++ register
  | none => register

/-- The line of a command. -/
def Command.text : Command → String
  | .declare register => "declare-register " ++ register
  | .set frame register value => "set " ++ frame.tag register ++ " " ++ value
  | .operation frame lhs op rhs =>
    "operation " ++ frame.tag lhs ++ " " ++ op.symbol ++ " " ++ frame.tag rhs
  | .invoke path => "invoke " ++ path
  | .summon tag => "frame-summon " ++ tag
  | .kill tag => "frame-kill " ++ tag

/-- The text of a script, each command on a line. -/
def render : List Command → String
  | [] => ""
  | c :: rest => c.text ++ "\n" ++ render rest

@[simp] theorem render_nil : render [] = "" := rfl

@[simp] theorem render_cons (c : Command) (rest : List Command) :
    render (c :: rest) = c.text ++ "\n" ++ render rest := rfl

theorem render_append (a b : List Command) : render (a ++ b) = render a ++ render b := by
  induction a with
  | nil => simp
  | cons c rest ih => simp [ih, String.append_assoc]

namespace Frame

def summon (frame : Frame) : Option Command := frame.map .summon

def kill (frame : Frame) : Option Command := frame.map .kill

/-- A script body between the commands that open and close its frame; without an active frame the
body alone. -/
def bracket (frame : Frame) (body : List Command) : List Command :=
  frame.summon.toList ++ body ++ frame.kill.toList

end Frame

/-- Numbers in commands are written positionally, whole ones without a point. -/
def literalLayout : Decimal.Layout where
  positional _ := true
  pointOnWhole := false
  tie := .awayFromZero
  nan := "NaN"
  infinite negative := if negative then "-inf" else "inf"

/-- The text of a number literal as `set` takes it. -/
def literalText (x : Binary64) : String := literalLayout.write x

end FrameScript
