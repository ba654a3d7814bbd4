/-
  Scripts can be read back.

  A command becomes a line and a script a text, and nothing in the text says where a name ends or
  whether the first word behind a verb is a frame or a register.  The file gives a reader,
  `readScript?`, in three steps:

  1. a text is cut into lines, and a line into words (`pieces`); this undoes the joining as long as no
     name holds a space or a line feed;
  2. the words of a line give back the command (`Command.ofWords?`).  A frame is told by the NUMBER
     of words: `set` has three with a frame and two without, `operation` five and three.  What the
     words look like does not matter, so a register may be named `set` and a frame `+=`;
  3. all lines together give back the script (`readScript_render`).

  Hence two scripts with the same text are the same script (`render_eq_iff`).
-/
import FrameScript.Command

namespace FrameScript

/-! ## Words -/

/-- The text has neither a space nor a line feed in it. -/
def Unbroken (text : String) : Prop := ' ' ∉ text.toList ∧ '\n' ∉ text.toList

instance (text : String) : Decidable (Unbroken text) := inferInstanceAs (Decidable (_ ∧ _))

/-- What stands between the separators of a text. -/
def pieces (separator : Char) (text : String) : List String :=
  (text.split separator).toList.map (·.copy)

/-- Joining is undone where no piece holds the separator. -/
theorem pieces_intercalate {c : Char} {parts : List String} (hne : parts ≠ [])
    (h : ∀ part ∈ parts, c ∉ part.toList) :
    pieces c ((String.singleton c).intercalate parts) = parts := by
  rw [pieces, String.toList_split_intercalate h, if_neg hne]

/-- A character in a joined text is the separator, or stands in a part. -/
theorem mem_intercalate {c separator : Char} {parts : List String}
    (h : c ∈ ((String.singleton separator).intercalate parts).toList) :
    c = separator ∨ ∃ part ∈ parts, c ∈ part.toList := by
  induction parts with
  | nil => exact absurd h List.not_mem_nil
  | cons first rest ih =>
    cases rest with
    | nil => exact .inr ⟨first, List.mem_cons_self, by simpa using h⟩
    | cons second others =>
      rw [String.intercalate_cons_cons, String.toList_append, String.toList_append,
        String.toList_singleton, List.mem_append, List.mem_append, List.mem_singleton] at h
      rcases h with (h | h) | h
      · exact .inr ⟨first, List.mem_cons_self, h⟩
      · exact .inl h
      · obtain hsep | ⟨part, hpart, hc⟩ := ih h
        · exact .inl hsep
        · exact .inr ⟨part, List.mem_cons_of_mem _ hpart, hc⟩

/-! ## Lines -/

namespace Op

/-- The operator with a symbol. -/
def ofSymbol? : String → Option Op
  | "=" => some .assign
  | "+=" => some .add
  | "-=" => some .sub
  | "*=" => some .mul
  | "/=" => some .div
  | "%=" => some .rem
  | _ => none

@[simp] theorem ofSymbol_symbol (op : Op) : ofSymbol? op.symbol = some op := by
  cases op <;> rfl

theorem unbroken_symbol (op : Op) : Unbroken op.symbol := by
  cases op <;> decide

end Op

namespace Command

/-- The names, frames, values, paths and tags of a command. -/
def strings : Command → List String
  | .declare register => [register]
  | .set frame register value => frame.toList ++ [register, value]
  | .operation frame lhs _ rhs => frame.toList ++ [lhs, rhs]
  | .invoke path => [path]
  | .summon tag => [tag]
  | .kill tag => [tag]

/-- The words of the line of a command. -/
def words : Command → List String
  | .declare register => ["declare-register", register]
  | .set none register value => ["set", register, value]
  | .set (some tag) register value => ["set", tag, register, value]
  | .operation none lhs op rhs => ["operation", lhs, op.symbol, rhs]
  | .operation (some tag) lhs op rhs => ["operation", tag, lhs, op.symbol, tag, rhs]
  | .invoke path => ["invoke", path]
  | .summon tag => ["frame-summon", tag]
  | .kill tag => ["frame-kill", tag]

/-- The command with some words. -/
def ofWords? : List String → Option Command
  | ["declare-register", register] => some (.declare register)
  | ["set", register, value] => some (.set none register value)
  | ["set", tag, register, value] => some (.set (some tag) register value)
  | ["operation", lhs, symbol, rhs] => (Op.ofSymbol? symbol).map (.operation none lhs · rhs)
  | ["operation", tag, lhs, symbol, tag', rhs] =>
    if tag = tag' then (Op.ofSymbol? symbol).map (.operation (some tag) lhs · rhs) else none
  | ["invoke", path] => some (.invoke path)
  | ["frame-summon", tag] => some (.summon tag)
  | ["frame-kill", tag] => some (.kill tag)
  | _ => none

/-- The words give back the command, whatever they look like. -/
theorem ofWords_words (c : Command) : ofWords? c.words = some c := by
  cases c with
  | set frame register value => cases frame <;> rfl
  | operation frame lhs op rhs =>
    cases frame with
    | none => exact congrArg (Option.map _) (Op.ofSymbol_symbol op)
    | some tag => exact (if_pos rfl).trans (congrArg (Option.map _) (Op.ofSymbol_symbol op))
  | _ => rfl

theorem words_ne_nil (c : Command) : c.words ≠ [] := by
  cases c with
  | set frame register value => cases frame <;> exact List.cons_ne_nil _ _
  | operation frame lhs op rhs => cases frame <;> exact List.cons_ne_nil _ _
  | _ => exact List.cons_ne_nil _ _

/-- The line of a command is its words with spaces between them. -/
theorem text_eq_words (c : Command) : c.text = (String.singleton ' ').intercalate c.words := by
  have hjoin : ∀ (first second : String) (rest : List String),
      (String.singleton ' ').intercalate (first :: second :: rest) =
        first ++ " " ++ (String.singleton ' ').intercalate (second :: rest) :=
    fun first second rest => String.intercalate_cons_cons
  -- verbs are written with their spaces
  cases c with
  | set frame register value =>
    cases frame with
    | none =>
      show "set " ++ register ++ " " ++ value = _
      simp only [words, hjoin, String.intercalate_singleton, String.append_assoc]
      rfl
    | some tag =>
      show "set " ++ (tag ++ " " ++ register) ++ " " ++ value = _
      simp only [words, hjoin, String.intercalate_singleton, String.append_assoc]
      rfl
  | operation frame lhs op rhs =>
    cases frame with
    | none =>
      show "operation " ++ lhs ++ " " ++ op.symbol ++ " " ++ rhs = _
      simp only [words, hjoin, String.intercalate_singleton, String.append_assoc]
      rfl
    | some tag =>
      show "operation " ++ (tag ++ " " ++ lhs) ++ " " ++ op.symbol ++ " " ++ (tag ++ " " ++ rhs) = _
      simp only [words, hjoin, String.intercalate_singleton, String.append_assoc]
      rfl
  | _ =>
    simp only [words, hjoin, String.intercalate_singleton]
    rfl

/-- A word of a line is a verb, an operator or one of the strings of the command. -/
theorem unbroken_words {c : Command} (h : ∀ text ∈ c.strings, Unbroken text) :
    ∀ word ∈ c.words, Unbroken word := by
  -- most lines are a verb and then just the strings
  have hverb : ∀ {verb : String}, Unbroken verb → ∀ word ∈ verb :: c.strings, Unbroken word :=
    fun hv => List.forall_mem_cons.mpr ⟨hv, h⟩
  cases c with
  | set frame register value => cases frame <;> exact hverb (by decide)
  | operation frame lhs op rhs =>
    cases frame with
    | none =>
      obtain ⟨hlhs, hrhs⟩ := List.forall_mem_cons.mp h
      exact List.forall_mem_cons.mpr ⟨by decide, List.forall_mem_cons.mpr
        ⟨hlhs, List.forall_mem_cons.mpr ⟨op.unbroken_symbol, hrhs⟩⟩⟩
    | some tag =>
      obtain ⟨htag, hboth⟩ := List.forall_mem_cons.mp h
      obtain ⟨hlhs, hrhs⟩ := List.forall_mem_cons.mp hboth
      exact List.forall_mem_cons.mpr ⟨by decide, List.forall_mem_cons.mpr ⟨htag,
        List.forall_mem_cons.mpr ⟨hlhs, List.forall_mem_cons.mpr ⟨op.unbroken_symbol,
          List.forall_mem_cons.mpr ⟨htag, hrhs⟩⟩⟩⟩⟩
  | _ => exact hverb (by decide)

/-- The command that a line says. -/
def ofLine? (line : String) : Option Command := ofWords? (pieces ' ' line)

theorem ofLine_text {c : Command} (h : ∀ text ∈ c.strings, Unbroken text) :
    ofLine? c.text = some c := by
  have hwords : pieces ' ' c.text = c.words := by
    rw [text_eq_words]
    exact pieces_intercalate c.words_ne_nil fun word hword => (unbroken_words h word hword).1
  rw [ofLine?, hwords, ofWords_words]

/-- The line of a command is one line. -/
theorem line_feed_notMem_text {c : Command} (h : ∀ text ∈ c.strings, Unbroken text) :
    '\n' ∉ c.text.toList := by
  intro hin
  rw [text_eq_words] at hin
  obtain hspace | ⟨word, hword, hin⟩ := mem_intercalate hin
  · exact absurd hspace (by decide)
  · exact (unbroken_words h word hword).2 hin

end Command

/-! ## Scripts -/

/-- The commands that a text says.  Every line has to end, so the last piece is empty. -/
def readScript? (text : String) : Option (List Command) :=
  match (pieces '\n' text).reverse with
  | "" :: lines => lines.reverse.mapM Command.ofLine?
  | _ => none

/-- A script joins its lines with an empty one at the end. -/
theorem render_eq_lines (commands : List Command) :
    render commands = (String.singleton '\n').intercalate (commands.map (·.text) ++ [""]) := by
  induction commands with
  | nil => rfl
  | cons c rest ih =>
    have hne : rest.map (·.text) ++ [""] ≠ [] := List.append_ne_nil_of_right_ne_nil _ (List.cons_ne_nil _ _)
    rw [render_cons, ih, List.map_cons, List.cons_append, String.intercalate_cons_of_ne_nil hne]
    rfl

/-- Lines of commands are read back one by one. -/
theorem ofLine_texts {commands : List Command}
    (h : ∀ c ∈ commands, ∀ text ∈ c.strings, Unbroken text) :
    (commands.map (·.text)).mapM Command.ofLine? = some commands := by
  induction commands with
  | nil => rfl
  | cons c rest ih =>
    have hfirst := Command.ofLine_text (h c List.mem_cons_self)
    have hrest := ih fun d hd => h d (List.mem_cons_of_mem c hd)
    rw [List.map_cons, List.mapM_cons, hfirst, hrest]
    rfl

/-- **A script is read back from its text.** -/
theorem readScript_render {commands : List Command}
    (h : ∀ c ∈ commands, ∀ text ∈ c.strings, Unbroken text) :
    readScript? (render commands) = some commands := by
  have hlines : pieces '\n' (render commands) = commands.map (·.text) ++ [""] := by
    rw [render_eq_lines]
    refine pieces_intercalate (List.append_ne_nil_of_right_ne_nil _ (List.cons_ne_nil _ _)) ?_
    intro line hline
    rcases List.mem_append.mp hline with hline | hline
    · obtain ⟨c, hc, rfl⟩ := List.mem_map.mp hline
      exact Command.line_feed_notMem_text (h c hc)
    · rw [List.mem_singleton.mp hline]
      exact List.not_mem_nil
  rw [readScript?, hlines, List.reverse_append]
  show (commands.map (·.text)).reverse.reverse.mapM Command.ofLine? = _
  rw [List.reverse_reverse, ofLine_texts h]

/-- **A text is the text of one script at most.**  Frames may be present and absent in any mixture, and
names may look like verbs, operators or frames; only spaces and line feeds are kept out of them. -/
theorem render_eq_iff {a b : List Command} (ha : ∀ c ∈ a, ∀ text ∈ c.strings, Unbroken text)
    (hb : ∀ c ∈ b, ∀ text ∈ c.strings, Unbroken text) : render a = render b ↔ a = b := by
  refine ⟨fun h => ?_, congrArg render⟩
  have hread := readScript_render ha
  rw [h, readScript_render hb] at hread
  exact (Option.some.inj hread).symm

/-! Two scripts of the same verbs and nearly the same words, with the frames in other places. -/

/-- A register that is called `set`, and a frame that is called `+=`. -/
def framedSecond : List Command :=
  [.set none "set" "+=", .operation (some "+=") "x" .add "x", .invoke "x"]

def framedFirst : List Command :=
  [.set (some "set") "+=" "x", .operation none "+=" .add "x", .invoke "x"]

theorem render_eq_iff_framed :
    (∀ c ∈ framedSecond, ∀ text ∈ c.strings, Unbroken text) ∧
    (∀ c ∈ framedFirst, ∀ text ∈ c.strings, Unbroken text) ∧
    render framedSecond ≠ render framedFirst := by
  have hsecond : ∀ c ∈ framedSecond, ∀ text ∈ c.strings, Unbroken text := by decide +kernel
  have hfirst : ∀ c ∈ framedFirst, ∀ text ∈ c.strings, Unbroken text := by decide +kernel
  exact ⟨hsecond, hfirst, (not_congr (render_eq_iff hsecond hfirst)).mpr (by decide)⟩

end FrameScript
