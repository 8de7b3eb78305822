/-
Reading template markup.

The reader goes over the text once and remembers the open elements, each with
the nodes read before it.  A closing tag must close the innermost one.  Text
that is blank from end to end is layout and makes no node.  When the text has
been read, the structural directives in the tree are folded.
-/
import AttributeCss.Markup.Folding
import AttributeCss.Markup.Lexeme

namespace AttributeCss.Markup

/-- An element whose closing tag has not been read. -/
structure OpenElement where
  tag : Text
  attributes : List Attribute
  /-- The nodes before the element. -/
  earlier : List Node
  /-- The text from its opening tag on. -/
  start : Text

/-- The nodes with one more, unless it is blank text. -/
def keep (done : List Node) : Node → List Node
  | .text t => if Text.allBlank t then done else done ++ [.text t]
  | n => done ++ [n]

/-- Where the outermost open element starts, or where reading stands if none is open. -/
def outermost (opened : List OpenElement) (s : Text) : Text :=
  (opened.getLast?.map OpenElement.start).getD s

/-- An opening tag that starts an element with contents. -/
def Opening.hasContents (o : Opening) : Bool := !o.closed && !isVoid o.tag

/-- Reads nodes inside the open elements, innermost first, behind the nodes already read. -/
def readNodes (opened : List OpenElement) (done : List Node) (s : Text) :
    Except Fault (List Node) :=
  match s with
  | [] =>
      match opened with
      | [] => .ok done
      | _ :: _ => .error (.expected "closing tag" [])
  | '<' :: '/' :: r =>
      match opened with
      | [] => .error (.stray ('<' :: '/' :: r))
      | o :: outer =>
          match h : readClosing o.tag ('<' :: '/' :: r) r with
          | .error e => .error e
          | .ok rest =>
              have : rest.length < r.length + 1 + 1 :=
                Nat.lt_trans (length_of_readClosing h) (by omega)
              readNodes outer (o.earlier ++ [.element o.tag o.attributes done]) rest
  | c :: r =>
      match h : readLexeme (outermost opened (c :: r)) c r with
      | .error e => .error e
      | .ok (.leaf n, rest) =>
          have : rest.length < r.length + 1 := length_of_readLexeme h
          readNodes opened (keep done n) rest
      | .ok (.opening o, rest) =>
          have : rest.length < r.length + 1 := length_of_readLexeme h
          if o.hasContents then
            readNodes (⟨o.tag, o.attributes, done, c :: r⟩ :: opened) [] rest
          else readNodes opened (done ++ [.element o.tag o.attributes []]) rest
termination_by s.length

/-- The nodes of a source as they are written, without folding. -/
def readFlat (s : Text) : Except Fault (List Node) := readNodes [] [] s

/-- The template of a source, or where and why it cannot be read. -/
def read (source : Text) : Except Error (List Node) :=
  match readFlat source with
  | .ok nodes => .ok (fold nodes)
  | .error fault => .error (fault.locate source)

end AttributeCss.Markup
