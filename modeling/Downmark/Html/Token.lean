import Downmark.Html.CharRef
import Downmark.Text.Case
import Downmark.Text.Blank
/-!
HTML as a sequence of tokens: pieces of text, tags, comments and declarations.

A text is read twice. The first reading stops where more input might still change the meaning; the
second takes what is left as final.
-/

set_option autoImplicit false

namespace Downmark.Html

inductive Token where
  | text (s : Chars)
  | startTag (name : String) (attrs : List (String × Chars)) (selfClosed : Bool)
  | endTag (name : String)
  | comment (data : Chars)
  | cdata (data : Chars)
  /-- A declaration or a processing instruction, which no reader sees. -/
  | declaration
deriving Repr

/-- What a piece of markup turned out to be. -/
inductive Read where
  /-- A token, and how many characters it takes. -/
  | token (t : Token) (length : Nat)
  /-- Markup without an effect of its own. -/
  | nothing (length : Nat)
  /-- More input is needed. -/
  | incomplete

/-- How far the first occurrence of a text lies, counted to its end. -/
def endOf? (part : Chars) (s : Chars) : Option Nat :=
  match s with
  | [] => none
  | c :: rest =>
    if Text.startsWith part (c :: rest) then some part.length else (endOf? part rest).map (· + 1)

/-- Characters that end the name of a tag. -/
def endsName (c : Char) : Bool :=
  ['\t', '\n', '\r', '\x0c', ' ', '/', '>', '\x00'].contains c

def lowerText (s : Chars) : String := String.ofList (Text.lower s)

/-- Skips white space, and slashes that no closing bracket follows. -/
def skipBetween : Chars → Chars
  | '/' :: '>' :: s => '/' :: '>' :: s
  | '/' :: s => skipBetween s
  | c :: s => if Text.isBlank c then skipBetween s else c :: s
  | [] => []

/-- Whether an attribute name may start after a character. -/
def mayPrecedeName (c : Char) : Bool := c == '\'' || c == '"' || c == '/' || Text.isBlank c

/-- A character of a value without quotes. -/
def isBare (c : Char) : Bool := c != '>' && !Text.isBlank c

/-- The value after an equals sign: the value and the rest, or nothing if a quote is never closed
and no other reading is left. -/
def attributeValue? (s : Chars) : Option (Chars × Chars) :=
  match s.dropWhile (· == '=') with
  | [] => if s.isEmpty then none else some ([], [])
  | after =>
    if after.length == s.length then none
    else
      let rest := after.dropWhile Text.isBlank
      match rest with
      | quote :: body =>
        if quote == '"' || quote == '\'' then
          if body.contains quote then
            some (body.takeWhile (· != quote), (body.dropWhile (· != quote)).drop 1)
          else if rest.length < after.length then some ([], after)
          else if 2 ≤ s.length - after.length then
            some ('=' :: after.takeWhile isBare, after.dropWhile isBare)
          else none
        else some (rest.takeWhile isBare, rest.dropWhile isBare)
      | [] => some ([], [])

/-- The last character of a text, a space if there is none. -/
def lastOf (s : Chars) : Char := s.getLast?.getD ' '

/-- The attributes of a start tag from the place after the name or after another attribute, and what
follows them. The character before that place is given. -/
def attributes : Nat → Char → Chars → List (String × Chars) × Chars
  | 0, _, s => ([], s)
  | fuel + 1, last, s =>
    let rest := skipBetween s
    let last := if rest.length < s.length then ' ' else last
    match rest with
    | c :: more =>
      if c == '>' || c == '/' || !mayPrecedeName last then ([], rest)
      else
        let inName := fun x => !Text.isBlank x && x != '/' && x != '=' && x != '>'
        let name := lowerText (c :: more.takeWhile inName)
        let after := more.dropWhile inName
        match attributeValue? (after.dropWhile Text.isBlank) with
        | some (v, next) =>
          let (found, final) := attributes fuel (lastOf (s.take (s.length - next.length))) next
          ((name, value v) :: found, final)
        | none =>
          let (found, final) := attributes fuel (lastOf (c :: more.takeWhile inName)) after
          ((name, []) :: found, final)
    | [] => ([], [])

/-- A start tag, given what follows its opening bracket. -/
def startTag (s : Chars) : Read :=
  let name := s.takeWhile fun c => !endsName c
  let (attrs, rest) := attributes (s.length + 1) 'x' (s.dropWhile fun c => !endsName c)
  let used := s.length - rest.length + 1
  match rest with
  | '>' :: _ => .token (.startTag (lowerText name) attrs false) (used + 1)
  | '/' :: '>' :: _ => .token (.startTag (lowerText name) attrs true) (used + 2)
  | [] => .incomplete
  | c :: _ =>
    if Text.isAsciiLetter c || c == '=' || c == '/' then .incomplete
    else .token (.text ('<' :: s.take (used - 1))) used

/-- The length of the markup up to the next closing bracket. -/
def toBracket (s : Chars) : Option Nat := endOf? ['>'] s

/-- Markup that is read as a comment by default, given what follows its first two characters. -/
def looseComment (s : Chars) : Read :=
  match toBracket s with
  | some n => .token (.comment (s.take (n - 1))) (n + 2)
  | none => .incomplete

/-- An end tag, given what follows its first two characters. -/
def endTag (s : Chars) : Read :=
  match toBracket s with
  | none => .incomplete
  | some _ =>
    match s.dropWhile Text.isBlank with
    | c :: rest =>
      let isPlain := fun x =>
        Text.isAsciiLetter x || Text.isAsciiDigit x || x == '-' || x == '.' || x == ':' || x == '_'
      let after := (rest.dropWhile isPlain).dropWhile Text.isBlank
      if Text.isAsciiLetter c && after.head? == some '>' then
        .token (.endTag (lowerText (c :: rest.takeWhile isPlain))) (s.length - after.length + 3)
      else match s with
        | '>' :: _ => .nothing 3
        | d :: _ =>
          if Text.isAsciiLetter d then
            let name := s.takeWhile fun x => !endsName x
            let rest := skipBetween (s.dropWhile fun x => !endsName x)
            match toBracket rest with
            | some n => .token (.endTag (lowerText name)) (s.length - rest.length + n + 2)
            | none => .nothing 0
          else looseComment s
        | [] => .incomplete
    | [] => looseComment s

/-- What follows some closers, with white space between them, in a text that begins with them. -/
def afterClosers? : Chars → Chars → Option Chars
  | [], rest => some rest
  | _ :: _, [] => none
  | c :: more, x :: rest =>
    if x != c then none
    else if more.isEmpty then some rest
    else afterClosers? more (rest.dropWhile Text.isBlank)

/-- The first place where some closers stand, `before` being the text ahead of it in reverse: the
text before the closers and the length up to their end. -/
def closingFrom? (closers before : Chars) : Chars → Option (Chars × Nat)
  | [] => none
  | c :: rest =>
    match afterClosers? closers (c :: rest) with
    | some after => some (before.reverse, before.length + (rest.length + 1 - after.length))
    | none => closingFrom? closers (c :: before) rest

/-- The first place where some closers, with white space between them, stand in a text. -/
def closing? (closers s : Chars) : Option (Chars × Nat) := closingFrom? closers [] s

/-- The rest of a comment, `before` being what was read of it in reverse. -/
def commentFrom (before : Chars) : Chars → Read
  | '-' :: '-' :: rest =>
    match rest.dropWhile Text.isBlank with
    | '>' :: after =>
      .token (.comment before.reverse) (4 + before.length + 2 + (rest.length - after.length))
    | _ => commentFrom ('-' :: before) ('-' :: rest)
  | c :: rest => commentFrom (c :: before) rest
  | [] => .incomplete

/-- A comment, given what follows its opening mark of four characters. Its end may have white space
before the closing bracket. -/
def comment (s : Chars) : Read := commentFrom [] s

/-- A marked section, given what follows its opening mark of three characters. -/
def markedSection (s : Chars) : Read :=
  let isSectionChar := fun x =>
    Text.isAsciiLetter x || Text.isAsciiDigit x || x == '-' || x == '.' || x == '_'
  let name := lowerText (s.takeWhile isSectionChar)
  let closers := if ["if", "else", "endif"].contains name then [']', '>'] else [']', ']', '>']
  match closing? closers s with
  | none => .incomplete
  | some (data, n) =>
    match Text.strip? "cdata[".toList (Text.lower (data.take 6)) with
    | some _ => .token (.cdata (data.drop 6)) (n + 3)
    | none => .token .declaration (n + 3)

/-- A declaration, given what follows its first two characters. -/
def declaration (s : Chars) : Read :=
  match s with
  | '-' :: '-' :: rest => comment rest
  | '[' :: rest => markedSection rest
  | _ =>
    if Text.lower (s.take 7) == "doctype".toList then
      match toBracket (s.drop 7) with
      | some n => .token .declaration (n + 9)
      | none => .incomplete
    else looseComment s

/-- A processing instruction, given what follows its first two characters. -/
def instruction (s : Chars) : Read :=
  match toBracket s with
  | some n => .token .declaration (n + 2)
  | none => .incomplete

/-- What a text means that begins with an opening bracket. -/
def markup (s : Chars) : Read :=
  match s with
  | _ :: '/' :: rest => endTag rest
  | _ :: '!' :: rest => declaration rest
  | _ :: '?' :: rest => instruction rest
  | _ :: c :: rest => if Text.isAsciiLetter c then startTag (c :: rest) else .token (.text ['<']) 1
  | _ => .incomplete

/-- What a text means that begins with an ampersand and goes on with a number sign. -/
def numericReference (s : Chars) : Read :=
  let read := fun (start : Nat) (digits : Chars) (number : Nat) (rest : Chars) =>
    match digits, rest with
    | [], _ => Read.incomplete
    | _, [] => .incomplete
    | _, c :: _ =>
      if Text.isHexDigit c then .incomplete
      else .token (.text [numericChar number]) (start + digits.length + (if c == ';' then 1 else 0))
  let hex := fun (rest : Chars) =>
    let digits := rest.takeWhile Text.isHexDigit
    read 3 digits (hexNumber digits) (rest.dropWhile Text.isHexDigit)
  match s with
  | _ :: _ :: 'x' :: rest => hex rest
  | _ :: _ :: 'X' :: rest => hex rest
  | _ :: _ :: rest =>
    let digits := rest.takeWhile Text.isAsciiDigit
    read 2 digits (decNumber digits) (rest.dropWhile Text.isAsciiDigit)
  | _ => .incomplete

/-- What a text means that begins with an ampersand and a letter. A name ends before the first
character that cannot be part of it; at the end of the input, before its last mark. -/
def namedReference (s : Chars) : Read :=
  let isPart := fun c => Text.isAsciiLetter c || Text.isAsciiDigit c || c == '-' || c == '.'
  let all := (s.drop 1).takeWhile isPart
  let read := fun (name : Chars) (closed : Bool) =>
    let text := match namedChar? name with
      | some c => [c]
      | none => '&' :: name
    Read.token (.text text) (1 + name.length + (if closed then 1 else 0))
  match (s.drop 1).dropWhile isPart with
  | c :: _ => read all (c == ';')
  | [] =>
    let name := Text.trimEnd (fun c => c != '-' && c != '.') all
    match name.reverse with
    | _ :: shorter => read shorter.reverse false
    | [] => .incomplete

/-- Where raw text of an element ends: at its end tag. -/
def rawLength (name : Chars) : Chars → Option Nat
  | [] => none
  | c :: s =>
    let isEnd :=
      match Text.strip? ['<', '/'] (c :: s) with
      | some rest =>
        let rest := rest.dropWhile Text.isBlank
        Text.lower (rest.take name.length) == name
          && ((rest.drop name.length).dropWhile Text.isBlank).head? == some '>'
      | none => false
    if isEnd then some 0 else (rawLength name s).map (· + 1)

/-- How one reading of a text ended. -/
structure Reading where
  tokens : List Token
  /-- The element whose raw text was being read. -/
  raw : Option String
  rest : Chars

/-- A token in front of a reading. -/
def Reading.push (t : Token) (r : Reading) : Reading := { r with tokens := t :: r.tokens }

/-- A piece of text in front of a reading, if there is any. -/
def Reading.pushText (s : Chars) (r : Reading) : Reading :=
  if s.isEmpty then r else r.push (.text s)

/-- The end of a reading: the last one takes all that is left as text. -/
def stop (final : Bool) (s : Chars) : Reading :=
  if final then Reading.pushText s ⟨[], none, []⟩ else ⟨[], none, s⟩

/-- How much of unfinished markup is taken as text at the end of the input. -/
def unfinished (s : Chars) : Nat :=
  match endOf? ['>'] (s.drop 1) with
  | some n => n + 1
  | none =>
    match endOf? ['<'] (s.drop 1) with
    | some n => n
    | none => 1

/-- One reading of a text, by at most `fuel` steps. -/
def scan (final : Bool) : Nat → Option String → Chars → Reading
  | 0, raw, s => ⟨[], raw, s⟩
  | fuel + 1, some name, s =>
    match rawLength name.toList s with
    | none => ⟨[], some name, s⟩
    | some n =>
      let body := s.drop n
      match endTag (body.drop 2) with
      | .token t length =>
        Reading.pushText (s.take n) ((scan final fuel none (body.drop length)).push t)
      | _ => ⟨[], some name, s⟩
  | fuel + 1, none, s =>
    let isPlain := fun c => c != '<' && c != '&'
    let plain := s.takeWhile isPlain
    Reading.pushText plain <|
      match s.dropWhile isPlain with
      | [] => ⟨[], none, []⟩
      | '<' :: more =>
        let body := '<' :: more
        match markup body with
        | .token (.startTag tag attrs selfClosed) length =>
          let raw := if !selfClosed && rawNames.contains tag then some tag else none
          (scan final fuel raw (body.drop length)).push (.startTag tag attrs selfClosed)
        | .token t length => (scan final fuel none (body.drop length)).push t
        | .nothing length => scan final fuel none (body.drop length)
        | .incomplete =>
          if more.isEmpty || !final then stop final body
          else
            let n := unfinished body
            (scan final fuel none (body.drop n)).push (.text (body.take n))
      | _ :: '#' :: more =>
        let body := '&' :: '#' :: more
        match numericReference body with
        | .token t length => (scan final fuel none (body.drop length)).push t
        | _ =>
          if more.contains ';' then (stop final more).push (.text ['&', '#'])
          else stop final body
      | _ :: c :: more =>
        let body := '&' :: c :: more
        if Text.isAsciiLetter c then
          match namedReference body with
          | .token t length => (scan final fuel none (body.drop length)).push t
          | _ => stop final (if final && more.isEmpty then [c] else body)
        else (scan final fuel none (c :: more)).push (.text ['&'])
      | [_] => stop final ['&']

/-- The tokens of a text. -/
def tokens (s : Chars) : List Token :=
  let first := scan false (s.length + 1) none s
  let second := scan true (first.rest.length + 1) first.raw first.rest
  first.tokens ++ second.tokens

end Downmark.Html
