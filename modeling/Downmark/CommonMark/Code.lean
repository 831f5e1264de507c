import Downmark.Node.Basic
import Downmark.Text.Classes
import Downmark.Failure
/-!
Code: fences that no code can close, code spans that no backtick can end, and the language that a
code block names.
-/

set_option autoImplicit false

namespace Downmark.Code

/-- The lengths of the longest runs of a character, in order. -/
def runs (c : Char) (s : Chars) : List Nat :=
  let push := fun (n : Nat) (rest : List Nat) => if n == 0 then rest else n :: rest
  let found := s.foldr (fun x (acc : Nat × List Nat) =>
    if x == c then (acc.1 + 1, acc.2) else (0, push acc.1 acc.2)) (0, [])
  push found.1 found.2

/-- The least length of a fence. -/
def minFence : Nat := 3

/-- The length of a fence: more than any run of its character in the code. A closing fence may be
indented, so runs anywhere count. -/
def fenceLength (c : Char) (code : Chars) : Nat :=
  let longest := (runs c code).foldl max 0
  if longest < minFence then minFence else longest + 1

/-- A fence around some code. -/
def fenceFor (c : Char) (code : Chars) : Chars := List.replicate (fenceLength c code) c

/-- The text with a space for every line ending. -/
def flattenLines : Chars → Chars
  | '\r' :: '\n' :: s => ' ' :: flattenLines s
  | c :: s => (if c == '\n' || c == '\r' then ' ' else c) :: flattenLines s
  | [] => []

/-- Whether a span needs a space inside of its delimiters: a backtick at an end, or spaces at both
ends around something else, would be read as part of the delimiters. -/
def needsPadding (s : Chars) : Bool :=
  s.head? == some '`' || s.getLast? == some '`'
    || (s.head? == some ' ' && s.getLast? == some ' ' && s.any (· != ' '))

/-- The least number of backticks that no run in the text has. -/
def spanLength (s : Chars) : Nat :=
  let taken := runs '`' s
  (((List.range (taken.length + 1)).map (· + 1)).find? fun n => !taken.contains n).getD 1

/-- A code span. Empty code leaves nothing. -/
def span (code : Chars) : Chars :=
  if code.isEmpty then []
  else
    let s := flattenLines code
    let delimiter := List.replicate (spanLength s) '`'
    let padding := if needsPadding s then [' '] else []
    delimiter ++ padding ++ s ++ padding ++ delimiter

/-- A final newline, or two of them, removed. -/
def dropFinalNewlines (s : Chars) : Chars :=
  match s.reverse with
  | '\n' :: '\n' :: rest => rest.reverse
  | '\n' :: rest => rest.reverse
  | _ => s

/-- Whether an element is preformatted text with a single code element and nothing else to see. -/
def isBlock {μ : Type} (n : Node μ) : Bool :=
  n.isNamed "pre" &&
    match Node.significant n.kids with
    | [child] => child.isNamed "code"
    | _ => false

/-- The code element of a code block. -/
def codeElement {μ : Type} (n : Node μ) : Except Failure (Node μ) :=
  match n.find? "code" with
  | some code => .ok code
  | none => .error .missingCode

/-- The code of a code block. -/
def blockText {μ : Type} (n : Node μ) : Except Failure Chars := do
  let code ← codeElement n
  pure (dropFinalNewlines code.textContent)

/-- The longest run of a class at the start of a text, if there is one. -/
def runOf? (p : Char → Bool) (s : Chars) : Option Chars :=
  match s.takeWhile p with
  | [] => none
  | found => some found

/-- What `read` finds after the first `key` where it finds something. -/
def search (key : Chars) (read : Chars → Option Chars) : Chars → Option Chars
  | [] => none
  | c :: s =>
    match (Text.strip? key (c :: s)).bind read with
    | some found => some found
    | none => search key read s

/-- The language that a class names. -/
def classLanguage? (s : Chars) : Option Chars :=
  let word := runOf? fun c => !Text.isBlank c
  (search "language-".toList word s).orElse fun _ =>
    (search "lang-".toList word s).orElse fun _ =>
      search "brush:".toList (fun rest => runOf? Text.isWord (rest.dropWhile Text.isBlank)) s

/-- The language that an element names, in an attribute of its own or by its class. -/
def elementLanguage? {μ : Type} (n : Node μ) : Option Chars :=
  match n.attr "data-lang" with
  | [] => classLanguage? (n.attr "class")
  | name => some name

/-- The language that a code block names, the code element being asked first. -/
def language {μ : Type} (n : Node μ) : Except Failure Chars := do
  let code ← codeElement n
  pure (((elementLanguage? code).orElse fun _ => elementLanguage? n).getD [])

/-- A fenced code block. -/
def fenced (c : Char) (info code : Chars) : Chars :=
  let fence := fenceFor c code
  fence ++ info ++ '\n' :: code ++ '\n' :: fence

/-- An indented code block. -/
def indented (code : Chars) : Chars :=
  Text.unlines ((Text.lines code).map fun line => Text.spaces 4 ++ line)

end Downmark.Code
