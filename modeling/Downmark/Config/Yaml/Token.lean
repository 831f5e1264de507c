import Downmark.Config.Yaml.Text
import Downmark.Text.Integer
/-!
The tokens of a YAML text. Blocks, which the text marks by indentation, open and close by tokens of
their own, and so do the keys of mappings, which are known for keys only when their colon is found.
-/

set_option autoImplicit false

namespace Downmark.Yaml

/-- What a directive says. -/
inductive Directive where
  | version (major : Nat)
  /-- Tags that begin with `handle` go on from `stem`. -/
  | tags (handle stem : Chars)
  | other
deriving DecidableEq, Repr

inductive Token where
  | directive (d : Directive)
  | documentStart
  | documentStop
  | blockSequence
  | blockMapping
  | blockEnd
  | flowSequence
  | flowSequenceEnd
  | flowMapping
  | flowMappingEnd
  /-- The dash before an item of a block. -/
  | item
  /-- The comma after an item of a flow collection. -/
  | comma
  | key
  | value
  | alias (name : Chars)
  | anchor (name : Chars)
  /-- A tag: the handle that it begins with, if it has one, and the rest. -/
  | tag (handle : Option Chars) (suffix : Chars)
  | scalar (text : Chars) (isPlain : Bool)
  /-- Nothing can be read from here on. -/
  | fault (why : ReadError)
deriving DecidableEq, Repr

/-! Names, tags and directives -/

/-- The name of an anchor or an alias, from its mark. -/
def anchorName (p : Place) : Reading (Chars × Place) :=
  let q := p.next
  let name := q.run isNameChar
  let r := q.skip name.length
  let ends := fun c => isSpace c || ['?', ':', ',', ']', '\x7d', '%', '@', '`'].contains c
  if name.isEmpty || !endsOr ends r.rest then .error .malformed else .ok (name, r)

def isUriChar (c : Char) : Bool :=
  Text.isAsciiLetter c || Text.isAsciiDigit c || "-;/?:@&=+$,_.!~*'()[]".toList.contains c

/-- Bytes written as percent signs with two hexadecimal digits. -/
def uriBytes : Nat → Place → Reading (List UInt8 × Place)
  | 0, _ => .error .malformed
  | fuel + 1, p =>
    match p.rest with
    | '%' :: a :: b :: _ =>
      if Text.isHexDigit a && Text.isHexDigit b then do
        let (more, q) ← uriBytes fuel (p.skip 3)
        pure (UInt8.ofNat (16 * Text.hexValue a + Text.hexValue b) :: more, q)
      else .error .malformed
    | '%' :: _ => .error .malformed
    | _ => .ok ([], p)

/-- The characters of a tag or of the beginning of tags. -/
def uriFrom : Nat → Place → Reading (Chars × Place)
  | 0, _ => .error .malformed
  | fuel + 1, p =>
    match p.rest with
    | '%' :: _ => do
      let (bytes, q) ← uriBytes (p.rest.length + 1) p
      let decoded ← demand (String.fromUTF8? ⟨bytes.toArray⟩)
      let (more, q) ← uriFrom fuel q
      pure (decoded.toList ++ more, q)
    | c :: _ =>
      if isUriChar c then do
        let (more, q) ← uriFrom fuel p.next
        pure (c :: more, q)
      else .ok ([], p)
    | [] => .ok ([], p)

/-- The characters of a tag, of which there is at least one. -/
def uri (p : Place) : Reading (Chars × Place) := do
  let (found, q) ← uriFrom (p.rest.length + 1) p
  if q.index == p.index then .error .malformed else pure (found, q)

/-- The handle that a tag begins with, between exclamation marks. -/
def tagHandle (p : Place) : Reading (Chars × Place) :=
  match p.rest with
  | '!' :: rest =>
    if rest.head? == some ' ' then .ok (['!'], p.next)
    else
      let name := rest.takeWhile isNameChar
      match rest.drop name.length with
      | '!' :: _ => .ok ('!' :: name ++ ['!'], p.skip (name.length + 2))
      | _ => .error .malformed
  | _ => .error .malformed

/-- Whether a tag ends here. -/
def isTagEnd (p : Place) : Bool := endsOr (fun c => c == ' ' || isBreak c) p.rest

/-- A tag, from its exclamation mark. -/
def tag (p : Place) : Reading (Token × Place) := do
  let (found, q) ← match p.next.rest with
    | '<' :: _ => do
      let (suffix, q) ← uri (p.skip 2)
      match q.rest with
      | '>' :: _ => pure (Token.tag none suffix, q.next)
      | _ => .error .malformed
    | rest =>
      if endsOr isSpace rest then pure (Token.tag none ['!'], p.next)
      else
        let word := rest.takeWhile fun c => c != ' ' && !isBreak c
        let (handle, q) ← if word.contains '!' then tagHandle p else pure (['!'], p.next)
        let (suffix, q) ← uri q
        pure (Token.tag (some handle) suffix, q)
  if isTagEnd q then pure (found, q) else .error .malformed

/-- A number in a directive. -/
def directiveNumber (p : Place) : Reading (Nat × Place) :=
  match p.run Text.isAsciiDigit with
  | [] => .error .malformed
  | ds =>
    if Text.maxIntegerDigits < ds.length then .error .badNumber
    else .ok (ds.foldl (fun n c => 10 * n + (c.toNat - '0'.toNat)) 0, p.skip ds.length)

/-- A directive, from its percent sign. -/
def directive (p : Place) : Reading (Directive × Place) := do
  let p := p.next
  let name := p.run isNameChar
  let q := p.skip name.length
  if name.isEmpty || !isTagEnd q then .error .malformed
  else
    let (found, q) ←
      if name == "YAML".toList then do
        let (major, q) ← directiveNumber (q.skipWhile (· == ' '))
        let q ← demand ((Text.strip? ['.'] q.rest).map fun _ => q.next)
        let (_, q) ← directiveNumber q
        if isTagEnd q then pure (Directive.version major, q) else .error .malformed
      else if name == "TAG".toList then do
        let (handle, q) ← tagHandle (q.skipWhile (· == ' '))
        if q.rest.head? == some ' ' then
          let (stem, q) ← uri (q.skipWhile (· == ' '))
          if isTagEnd q then pure (Directive.tags handle stem, q) else .error .malformed
        else .error .malformed
      else pure (Directive.other, q.skipWhile fun c => !isBreak c)
    let q ← q.endLine
    pure (found, q)

/-! The tokens of a text -/

/-- A place where a token stands that may turn out to be a key. -/
structure KeyPlace where
  /-- Tokens before the one that may be a key. -/
  number : Nat
  /-- Whether nothing but a key may stand there. -/
  isRequired : Bool
  index : Nat
  line : Nat
  column : Nat

/-- A text that is being cut into tokens. -/
structure Scanner where
  place : Place
  /-- The first column inside of the block that is open; none is open at zero. -/
  level : Nat := 0
  /-- The levels of the blocks around it. -/
  outerLevels : List Nat := []
  /-- Whether a key may stand here. -/
  canKey : Bool := true
  /-- What may turn out to be a key, of the innermost flow collection or of the blocks. -/
  keyPlace : Option KeyPlace := none
  /-- The same for the flow collections and blocks around it. -/
  outerKeyPlaces : List (Option KeyPlace) := []
  /-- The tokens so far, the last one first. -/
  tokens : List Token := []
  count : Nat := 0

/-- The most characters that a key takes. -/
def maxKeyLength : Nat := 1024

namespace Scanner

def inFlow (s : Scanner) : Bool := !s.outerKeyPlaces.isEmpty

def emit (t : Token) (s : Scanner) : Scanner :=
  { s with tokens := t :: s.tokens, count := s.count + 1 }

/-- Puts tokens before the one with a number. -/
def emitAt (number : Nat) (ts : List Token) (s : Scanner) : Scanner :=
  let after := s.tokens.take (s.count - number)
  { s with tokens := after ++ ts.reverse ++ s.tokens.drop (s.count - number)
           count := s.count + ts.length }

/-- Whether a place is too far behind for a key: a key is short and has its colon in its line. -/
def isStale (p : Place) (k : KeyPlace) : Bool :=
  k.line != p.line || maxKeyLength < p.index - k.index

/-- Forgets places that are too far behind for keys. -/
def dropStale (s : Scanner) : Reading Scanner :=
  let all := s.keyPlace :: s.outerKeyPlaces
  if all.any fun k => k.any fun k => k.isRequired && isStale s.place k then .error .malformed
  else
    let keep := fun (k : Option KeyPlace) => k.filter fun k => !isStale s.place k
    .ok { s with keyPlace := keep s.keyPlace, outerKeyPlaces := s.outerKeyPlaces.map keep }

/-- Gives up what might have been a key. -/
def dropKey (s : Scanner) : Reading Scanner :=
  if s.keyPlace.any KeyPlace.isRequired then .error .malformed else .ok { s with keyPlace := none }

/-- Remembers that the next token may be a key. -/
def saveKey (s : Scanner) : Reading Scanner :=
  if !s.canKey then .ok s
  else do
    let s ← s.dropKey
    let k : KeyPlace := {
      number := s.count
      isRequired := !s.inFlow && s.level == s.place.column + 1
      index := s.place.index
      line := s.place.line
      column := s.place.column }
    pure { s with keyPlace := some k }

/-- Closes the blocks to which the column before `level` does not belong. -/
def closeBlocks (level : Nat) : List Nat → Scanner → Scanner
  | [], s => s
  | outer :: rest, s =>
    if level < s.level then
      closeBlocks level rest ({ s with level := outer, outerLevels := rest }.emit .blockEnd)
    else s

/-- Closes the blocks that the indentation ends. -/
def unwind (level : Nat) (s : Scanner) : Scanner :=
  if s.inFlow then s else closeBlocks level s.outerLevels s

/-- Opens a block at a column, if it is deeper than the one that is open. -/
def indents (column : Nat) (s : Scanner) : Bool := s.level ≤ column

def indent (column : Nat) (s : Scanner) : Scanner :=
  { s with outerLevels := s.level :: s.outerLevels, level := column + 1 }

/-- Takes a mark of some characters. -/
def mark (length : Nat) (t : Token) (s : Scanner) : Scanner :=
  { s with place := s.place.skip length }.emit t

/-- Skips white space, comments and the ends of lines, after which a key may stand in a block. -/
def toToken : Nat → Scanner → Scanner
  | 0, s => s
  | fuel + 1, s =>
    let p := (s.place.skipWhile (· == ' ')).skipComment
    match p.lineBreak? with
    | none => { s with place := p }
    | some (_, q) => toToken fuel { s with place := q, canKey := s.canKey || !s.inFlow }

/-- A mark that opens or closes a document, or a directive: all blocks end before it. -/
def outOfBlocks (s : Scanner) : Reading Scanner := do
  let s ← (s.unwind 0).dropKey
  pure { s with canKey := false }

/-- Opens a flow collection. -/
def openFlow (t : Token) (s : Scanner) : Reading Scanner := do
  let s ← s.saveKey
  pure ({ s with outerKeyPlaces := s.keyPlace :: s.outerKeyPlaces, keyPlace := none
                 canKey := true }.mark 1 t)

/-- Closes a flow collection. -/
def closeFlow (t : Token) (s : Scanner) : Reading Scanner :=
  match s.outerKeyPlaces with
  | [] => .error .malformed
  | outer :: rest =>
    .ok ({ s with keyPlace := outer, outerKeyPlaces := rest, canKey := false }.mark 1 t)

/-- A comma. -/
def comma (s : Scanner) : Reading Scanner := do
  let s ← s.dropKey
  pure ({ s with canKey := true }.mark 1 .comma)

/-- A dash or a question mark, which may open a block. -/
def opening (block t : Token) (keyAfter : Bool) (s : Scanner) : Reading Scanner :=
  let column := s.place.column
  if !s.inFlow && !s.canKey then .error .malformed
  else do
    let s := if !s.inFlow && s.indents column then (s.indent column).emit block else s
    let s ← s.dropKey
    pure ({ s with canKey := keyAfter }.mark 1 t)

/-- A colon. What was remembered as a possible key is one, and opens a block if it stands deeper
than the block that is open. -/
def colon (s : Scanner) : Reading Scanner :=
  match s.keyPlace with
  | some k =>
    let s := { s with keyPlace := none, canKey := false }
    let s := if !s.inFlow && s.indents k.column then
        (s.indent k.column).emitAt k.number [.blockMapping, .key]
      else s.emitAt k.number [.key]
    .ok (s.mark 1 .value)
  | none => s.opening .blockMapping .value (!s.inFlow)

/-- A scalar or a name, which may be a key. -/
def content (found : Reading (Token × Place)) (s : Scanner) : Reading Scanner := do
  let s ← s.saveKey
  let (t, place) ← found
  pure ({ s with place, canKey := false }.emit t)

/-- A plain scalar. After it a key may stand if a line ended behind it. -/
def plainScalar (s : Scanner) : Reading Scanner := do
  let s ← s.saveKey
  let (text, place, broken) := plain s.inFlow s.level s.place
  pure ({ s with place, canKey := broken }.emit (.scalar text true))

/-- A scalar as a block of lines. -/
def blockScalar (s : Scanner) : Reading Scanner := do
  let s ← s.dropKey
  let (text, place) ← block s.level s.place
  pure ({ s with place, canKey := true }.emit (.scalar text false))

/-- Whether a plain scalar may begin here. -/
def canBeginPlain (inFlow : Bool) (s : Chars) : Bool :=
  match s with
  | [] => false
  | c :: rest =>
    if c == '-' then !endsOr isSpace rest
    else if c == '?' || c == ':' then !inFlow && !endsOr isSpace rest
    else !isSpace c && !isFlowMark c
      && ['#', '&', '*', '!', '|', '>', '\'', '"', '%', '@', '`'].all (· != c)

/-- Reads the tokens that begin with a character, at a place with no white space. -/
def token (c : Char) (s : Scanner) : Reading Scanner :=
  let p := s.place
  let isMark := s.inFlow || endsOr isSpace p.next.rest
  if c == '%' && p.column == 0 then do
    let s ← s.outOfBlocks
    let (d, place) ← directive p
    pure ({ s with place }.emit (.directive d))
  else if p.column == 0 && p.isTriple '-' then do
    let s ← s.outOfBlocks
    pure (s.mark 3 .documentStart)
  else if p.column == 0 && p.isTriple '.' then do
    let s ← s.outOfBlocks
    pure (s.mark 3 .documentStop)
  else if c == '[' then s.openFlow .flowSequence
  else if c == '\x7b' then s.openFlow .flowMapping
  else if c == ']' then s.closeFlow .flowSequenceEnd
  else if c == '\x7d' then s.closeFlow .flowMappingEnd
  else if c == ',' then s.comma
  else if c == '-' && endsOr isSpace p.next.rest then s.opening .blockSequence .item true
  else if c == '?' && isMark then s.opening .blockMapping .key (!s.inFlow)
  else if c == ':' && isMark then s.colon
  else if c == '*' then s.content ((anchorName p).map fun found => (.alias found.1, found.2))
  else if c == '&' then s.content ((anchorName p).map fun found => (.anchor found.1, found.2))
  else if c == '!' then s.content (tag p)
  else if (c == '|' || c == '>') && !s.inFlow then s.blockScalar
  else if c == '\'' || c == '"' then
    s.content ((quoted p).map fun found => (.scalar found.1 false, found.2))
  else if canBeginPlain s.inFlow p.rest then s.plainScalar
  else .error .malformed

/-- Cuts a text into tokens. -/
def run : Nat → Scanner → List Token
  | 0, s => s.tokens.reverse
  | fuel + 1, s =>
    let s := s.toToken (s.place.rest.length + 1)
    match s.dropStale with
    | .error why => (Token.fault why :: s.tokens).reverse
    | .ok s =>
      match s.place.rest with
      | [] =>
        match (s.unwind 0).dropKey with
        | .error why => (Token.fault why :: s.tokens).reverse
        | .ok s => s.tokens.reverse
      | c :: _ =>
        let s := s.unwind (s.place.column + 1)
        match s.token c with
        | .error why => (Token.fault why :: s.tokens).reverse
        | .ok s => run fuel s

end Scanner

/-- The tokens of a text, the last of which may be a fault. -/
def tokens (s : Chars) : List Token :=
  let place : Place := { rest := s }
  let place := if s.head? == some '\ufeff' then place.next else place
  { place : Scanner }.run (s.length + 1)

end Downmark.Yaml
