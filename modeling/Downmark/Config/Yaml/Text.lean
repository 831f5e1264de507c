import Downmark.Config.Yaml.Place
/-!
The texts of YAML scalars: plain, between quotes, and as blocks of lines.

Each reader starts where the scalar starts and gives its text and the place behind it.
-/

set_option autoImplicit false

namespace Downmark.Yaml

/-! Plain scalars -/

/-- What belongs to a plain scalar before the next white space: everything up to a colon with white
space behind it and, in a flow collection, up to a mark of that collection. -/
def plainRun (inFlow : Bool) : Chars → Chars
  | [] => []
  | c :: s =>
    if isSpace c then []
    else if c == ':' && endsOr (fun d => isSpace d || (inFlow && isFlowMark d)) s then []
    else if inFlow && (isFlowMark c || c == '?') then []
    else c :: plainRun inFlow s

/-- Empty lines and indentation. The result says whether a document mark ended them. -/
def blankLines : Nat → Place → Chars × Place × Bool
  | 0, p => ([], p, false)
  | fuel + 1, p =>
    let q := p.skipWhile (· == ' ')
    match q.lineBreak? with
    | none => ([], q, false)
    | some (b, r) =>
      if r.isDocumentMark then ([b], r, true)
      else
        let (more, r, marked) := blankLines fuel r
        (b :: more, r, marked)

/-- The white space inside of a plain scalar: what it counts as, the place behind it, and whether a
line ended in it. None counts where a document begins or ends. -/
def plainGap (p : Place) : Chars × Place × Bool :=
  let q := p.skipWhile (· == ' ')
  match q.lineBreak? with
  | none => (p.run (· == ' '), q, false)
  | some (b, r) =>
    if r.isDocumentMark then ([], r, true)
    else
      let (more, r, marked) := blankLines (r.rest.length + 1) r
      (if marked then [] else folded b more, r, true)

/-- The rest of a plain scalar after some white space. `read` is the text so far, last character
first; lines that do not reach the column `level` do not belong to it. -/
def plainFrom (inFlow : Bool) (level : Nat) :
    Nat → Chars → Chars → Place → Bool → Chars × Place × Bool
  | 0, _, read, p, broken => (read.reverse, p, broken)
  | fuel + 1, gap, read, p, broken =>
    match p.rest, plainRun inFlow p.rest with
    | '#' :: _, _ => (read.reverse, p, broken)
    | _, [] => (read.reverse, p, broken)
    | _, run =>
      let read := run.reverse ++ (gap.reverse ++ read)
      let (gap, q, broken) := plainGap (p.skip run.length)
      if gap.isEmpty || (!inFlow && q.column < level) then (read.reverse, q, broken)
      else plainFrom inFlow level fuel gap read q broken

/-- A plain scalar: its text, the place behind it and the white space after it, and whether a line
ended in that white space. -/
def plain (inFlow : Bool) (level : Nat) (p : Place) : Chars × Place × Bool :=
  plainFrom inFlow level (p.rest.length + 1) [] [] p false

/-! Quoted scalars -/

/-- The ends of lines and the indentation inside of a quoted scalar, from where a line begins. -/
def quotedBreaks : Nat → Place → Reading (Chars × Place)
  | 0, _ => .error .malformed
  | fuel + 1, p =>
    if p.isDocumentMark then .error .malformed
    else
      let q := p.skipWhile Text.isGap
      match q.lineBreak? with
      | none => .ok ([], q)
      | some (b, r) => do
        let (more, r) ← quotedBreaks fuel r
        pure (b :: more, r)

/-- The white space inside of a quoted scalar: what it counts as, and the place behind it. -/
def quotedGap (p : Place) : Reading (Chars × Place) :=
  let q := p.skipWhile Text.isGap
  match q.lineBreak? with
  | none => .ok (p.run Text.isGap, q)
  | some (b, r) => do
    let (more, r) ← quotedBreaks (r.rest.length + 1) r
    pure (folded b more, r)

/-- What a single character after a backslash stands for. -/
def escapes : List (Char × Char) :=
  [('0', '\x00'), ('a', '\x07'), ('b', '\x08'), ('t', '\t'), ('\t', '\t'), ('n', '\n'),
   ('v', '\x0b'), ('f', '\x0c'), ('r', '\r'), ('e', '\x1b'), (' ', ' '), ('"', '"'), ('\\', '\\'),
   ('/', '/'), ('N', '\u0085'), ('_', '\u00a0'), ('L', '\u2028'), ('P', '\u2029')]

/-- How many hexadecimal digits follow a letter after a backslash. -/
def escapeWidths : List (Char × Nat) := [('x', 2), ('u', 4), ('U', 8)]

/-- The character with a number; half of a pair is shown by the replacement character. Numbers of
more than 31 bits are a fault of their own. -/
def character (n : Nat) : Reading Char :=
  if n.isValidChar then .ok (Char.ofNat n)
  else if n < 0x110000 then .ok '\ufffd'
  else if n < 0x80000000 then .error .badNumber
  else .error .tooLarge

/-- What an escape counts as, from the place behind its backslash. The end of a line is escaped
together with the indentation of the next one. -/
def escape (p : Place) : Reading (Chars × Place) :=
  match p.rest with
  | [] => .error .malformed
  | c :: rest =>
    match escapes.lookup c, escapeWidths.lookup c with
    | some d, _ => .ok ([d], p.next)
    | none, some width =>
      let digits := rest.take width
      if digits.length == width && digits.all Text.isHexDigit then do
        let d ← character (digits.foldl (fun n d => 16 * n + Text.hexValue d) 0)
        pure ([d], p.skip (width + 1))
      else .error .malformed
    | none, none =>
      match p.lineBreak? with
      | some (_, r) => quotedBreaks (r.rest.length + 1) r
      | none => .error .malformed

/-- The rest of a scalar between single quotes; `read` is the text so far, last character first. -/
def singleFrom : Nat → Chars → Place → Reading (Chars × Place)
  | 0, _, _ => .error .malformed
  | fuel + 1, read, p =>
    match p.rest with
    | [] => .error .malformed
    | '\'' :: '\'' :: _ => singleFrom fuel ('\'' :: read) (p.skip 2)
    | '\'' :: _ => .ok (read.reverse, p.next)
    | c :: _ =>
      if isSpace c then do
        let (gap, q) ← quotedGap p
        singleFrom fuel (gap.reverse ++ read) q
      else singleFrom fuel (c :: read) p.next

/-- The rest of a scalar between double quotes; `read` is the text so far, last character first. -/
def doubleFrom : Nat → Chars → Place → Reading (Chars × Place)
  | 0, _, _ => .error .malformed
  | fuel + 1, read, p =>
    match p.rest with
    | [] => .error .malformed
    | '"' :: _ => .ok (read.reverse, p.next)
    | '\\' :: _ => do
      let (found, q) ← escape p.next
      doubleFrom fuel (found.reverse ++ read) q
    | c :: _ =>
      if isSpace c then do
        let (gap, q) ← quotedGap p
        doubleFrom fuel (gap.reverse ++ read) q
      else doubleFrom fuel (c :: read) p.next

/-- A scalar between quotes, from its opening quote. -/
def quoted (p : Place) : Reading (Chars × Place) :=
  match p.rest with
  | '\'' :: _ => singleFrom (p.rest.length + 1) [] p.next
  | _ => doubleFrom (p.rest.length + 1) [] p.next

/-! Scalars as blocks of lines -/

/-- What happens to the ends of lines at the end of a block. -/
inductive Chomping where
  /-- All are dropped. -/
  | strip
  /-- One is kept. -/
  | clip
  /-- All are kept. -/
  | keep
deriving DecidableEq

def chomping? (s : Chars) : Option Chomping :=
  match s with
  | '+' :: _ => some .keep
  | '-' :: _ => some .strip
  | _ => none

/-- A digit for the indentation of a block, which is not zero. -/
def increment? (s : Chars) : Reading (Option Nat) :=
  match s with
  | c :: _ =>
    if !Text.isAsciiDigit c then .ok none
    else if c == '0' then .error .malformed
    else .ok (some (c.toNat - '0'.toNat))
  | [] => .ok none

/-- What stands behind the mark of a block: chomping and indentation, in any order. -/
def blockHeader (p : Place) : Reading (Chomping × Option Nat × Place) := do
  let (chomping, increment, q) ← match chomping? p.rest with
    | some chomping => do
      let increment ← increment? p.next.rest
      pure (chomping, increment, if increment.isSome then p.skip 2 else p.next)
    | none => do
      let increment ← increment? p.rest
      let q := if increment.isSome then p.next else p
      match increment, chomping? q.rest with
      | some _, some chomping => pure (chomping, increment, q.next)
      | _, _ => pure (.clip, increment, q)
  if endsOr (fun c => c == ' ' || isBreak c) q.rest then do
    let q ← q.endLine
    pure (chomping, increment, q)
  else .error .malformed

/-- Empty lines at the head of a block without a fixed indentation: the ends of lines, the place
behind them, and the largest indentation seen. -/
def leadingBreaks : Nat → Place → Nat → Chars × Place × Nat
  | 0, p, deepest => ([], p, deepest)
  | fuel + 1, p, deepest =>
    let q := p.skipWhile (· == ' ')
    let deepest := max deepest q.column
    match q.lineBreak? with
    | none => ([], q, deepest)
    | some (b, r) =>
      let (more, r, deepest) := leadingBreaks fuel r deepest
      (b :: more, r, deepest)

/-- The place behind the indentation of a line, which ends at the column `level`. -/
def skipIndent (level : Nat) (p : Place) : Place :=
  p.skip (min (level - p.column) (p.run (· == ' ')).length)

/-- Empty lines inside of a block, and the indentation of the line after them. -/
def innerBreaks (level : Nat) : Nat → Place → Chars × Place
  | 0, p => ([], p)
  | fuel + 1, p =>
    let q := skipIndent level p
    match q.lineBreak? with
    | none => ([], q)
    | some (b, r) =>
      let (more, r) := innerBreaks level fuel r
      (b :: more, r)

/-- The end of a block: the end of its last line and the empty lines after it. -/
def chomped (chomping : Chomping) (lineEnd breaks : Chars) : Chars :=
  match chomping with
  | .strip => []
  | .clip => lineEnd
  | .keep => lineEnd ++ breaks

/-- The lines of a block. In a folded one a single end of a line between two lines that begin with
no white space is a space, and of more ends the first is dropped. `read` is the text so far, last
character first; `breaks` are the empty lines before this place. -/
def blockFrom (isFolded : Bool) (chomping : Chomping) (level : Nat) :
    Nat → Chars → Chars → Chars → Place → Chars × Place
  | 0, read, _, _, p => (read.reverse, p)
  | fuel + 1, read, lineEnd, breaks, p =>
    if p.column != level || p.rest.isEmpty then
      (read.reverse ++ chomped chomping lineEnd breaks, p)
    else
      let line := p.run fun c => !isBreak c
      let read := line.reverse ++ (breaks.reverse ++ read)
      let q := p.skip line.length
      let (lineEnd, q) : Chars × Place := match q.lineBreak? with
        | some (b, r) => ([b], r)
        | none => ([], q)
      let (breaks, q) := innerBreaks level (q.rest.length + 1) q
      if q.column != level || q.rest.isEmpty then
        (read.reverse ++ chomped chomping lineEnd breaks, q)
      else
        let isFlush := fun (s : Chars) => !(s.head?.any Text.isGap)
        let joint : Chars :=
          if isFolded && lineEnd == ['\n'] && isFlush line && isFlush q.rest then
            (if breaks.isEmpty then [' '] else [])
          else lineEnd
        blockFrom isFolded chomping level fuel (joint.reverse ++ read) lineEnd breaks q

/-- A scalar as a block of lines, from its mark. Its lines reach at least the column `level`. -/
def block (level : Nat) (p : Place) : Reading (Chars × Place) := do
  let isFolded := p.rest.head? == some '>'
  let (chomping, increment, p) ← blockHeader p.next
  let least := max level 1
  let fuel := p.rest.length + 1
  let (breaks, p, level) := match increment with
    | none =>
      let (breaks, p, deepest) := leadingBreaks fuel p 0
      (breaks, p, max least deepest)
    | some n =>
      let level := least + n - 1
      let (breaks, p) := innerBreaks level fuel p
      (breaks, p, level)
  pure (blockFrom isFolded chomping level fuel [] [] breaks p)

end Downmark.Yaml
