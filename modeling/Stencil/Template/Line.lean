import Stencil.Template.Tag

/-!
The lines of a template.

A source is cut into lines at every line break. A line's level is half the number of its leading
spaces; what it says is decided by its first characters: a comment, the document type, literal text,
a directive, or a tag. Blank lines, comments and lines that say nothing are dropped.
-/

namespace Stencil

inductive DirectiveKind where
  | ifCase
  | elseIf
  | otherwise
  | forLoop
  | foreachLoop
  | includeFile
  /-- A directive without a meaning of its own. -/
  | custom (name : String)

/-- What a line says. -/
inductive Content where
  | doctype
  /-- Literal text without markers. -/
  | text (s : String)
  | tag (t : Tag)
  | directive (kind : DirectiveKind) (args : String)

/-- Whether the deeper lines that follow belong to the line. -/
def Content.opensBlock : Content → Bool
  | tag t => t.opensBlock
  | directive .. => true
  | doctype | text _ => false

structure Line where
  level : Nat
  content : Content

namespace DirectiveKind

def keywords : List (String × DirectiveKind) :=
  [("if", ifCase), ("elseif", elseIf), ("else", otherwise), ("for", forLoop),
   ("foreach", foreachLoop), ("include", includeFile)]

/-- The kind with a name in lower case. -/
def ofName (name : String) : DirectiveKind := (keywords.lookup name).getD (custom name)

def name : DirectiveKind → String
  | ifCase => "if"
  | elseIf => "elseif"
  | otherwise => "else"
  | forLoop => "for"
  | foreachLoop => "foreach"
  | includeFile => "include"
  | custom name => name

def isCustom : DirectiveKind → Bool
  | custom _ => true
  | _ => false

end DirectiveKind

def directive (kind : DirectiveKind) (args : List Char) : Content :=
  .directive kind (String.ofList (trim args))

/-- The directive whose keyword starts the line. -/
def keywordDirective? (line : List Char) : Option Content :=
  DirectiveKind.keywords.findSome? fun (word, kind) =>
    (dropWord? word.toList line).map (directive kind)

/-- What a line without surrounding white space says, if anything. -/
def classify (line : List Char) : Option Content :=
  match line with
  | '/' :: '/' :: _ => none
  | '|' :: rest => some (.text (String.ofList (trimStart rest)))
  | '@' :: rest =>
    match splitName rest with
    | ([], _) => none
    | (name, args) => some (directive (.ofName (String.ofList (lowerAscii name))) args)
  | _ =>
    if (dropWord? "doctype".toList line).isSome then some .doctype
    else
      match keywordDirective? line with
      | some content => some content
      | none => (Tag.ofLine? line).map .tag

/-- The lines of a source; `line` is the present one backwards. -/
def splitLinesFrom (line : List Char) : List Char → List (List Char)
  | [] => [line.reverse]
  | '\r' :: '\n' :: cs => line.reverse :: splitLinesFrom [] cs
  | c :: cs =>
    if c == '\n' || c == '\r' then line.reverse :: splitLinesFrom [] cs
    else splitLinesFrom (c :: line) cs

/-- A carriage return and the line feed after it are one line break, and so is each alone. -/
def splitLines (source : List Char) : List (List Char) := splitLinesFrom [] source

def levelOf (raw : List Char) : Nat := (raw.takeWhile (· == ' ')).length / 2

def Line.ofText? (raw : List Char) : Option Line :=
  match trim raw with
  | [] => none
  | line => (classify line).map fun content => ⟨levelOf raw, content⟩

def linesOf (source : List Char) : List Line := (splitLines source).filterMap Line.ofText?

theorem infix_of_mem_splitLinesFrom {line s raw : List Char} (h : raw ∈ splitLinesFrom line s) :
    raw <:+: line.reverse ++ s := by
  fun_induction splitLinesFrom line s with
  | case1 line =>
    rw [List.mem_singleton] at h
    rw [h]
    exact (List.prefix_append _ _).isInfix
  | case2 line cs ih =>
    rcases List.mem_cons.mp h with rfl | h
    · exact (List.prefix_append _ _).isInfix
    · have htail : cs <:+ line.reverse ++ '\r' :: '\n' :: cs :=
        ((List.suffix_cons _ _).trans (List.suffix_cons _ _)).trans (List.suffix_append _ _)
      exact (ih h).trans htail.isInfix
  | case3 line c cs _ _ ih =>
    rcases List.mem_cons.mp h with rfl | h
    · exact (List.prefix_append _ _).isInfix
    · have htail : cs <:+ line.reverse ++ c :: cs :=
        (List.suffix_cons _ _).trans (List.suffix_append _ _)
      exact (ih h).trans htail.isInfix
  | case4 line c cs _ _ ih =>
    have := ih h
    rwa [List.reverse_cons, List.append_assoc, List.singleton_append] at this

/-- Each line stands in the source as it is. -/
theorem infix_of_mem_splitLines {source raw : List Char} (h : raw ∈ splitLines source) :
    raw <:+: source :=
  infix_of_mem_splitLinesFrom h

end Stencil
