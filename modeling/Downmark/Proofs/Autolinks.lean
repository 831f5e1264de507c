import Downmark.Proofs.Pipes
/-!
Autolinks in escaped text: an angle bracket that is not shielded, with an address behind it that is closed
by another one. An address is a scheme with a target, or a mailbox at a host. Main statement: escaped text
has an autolink exactly if the text has a mailbox at a host between angle brackets, written with nothing
that is escaped everywhere, whose first character opens no tag.
-/

set_option autoImplicit false

namespace Downmark.Escape

def isAlphanumeric (c : Char) : Bool := Text.isAsciiLetter c || Text.isAsciiDigit c

/-- What the name of a mailbox is made of. -/
def isMailbox (c : Char) : Bool :=
  isAlphanumeric c || ['.', '!', '#', '$', '%', '&', '\x27', '*', '+', '/', '=', '?', '^', '_', '`', '\x7b', '|',
    '\x7d', '~', '-'].contains c

/-- A part of the name of a host. -/
structure IsLabel (s : Chars) : Prop where
  some : s ≠ []
  made : ∀ c ∈ s, isAlphanumeric c ∨ c = '-'
  first : s.head? ≠ Option.some '-'
  last : s.getLast? ≠ Option.some '-'

/-- The name of a host: one label or more, with periods between them. -/
inductive IsHost : Chars → Prop where
  | last (label : Chars) (own : IsLabel label) : IsHost label
  | more (label rest : Chars) (own : IsLabel label) (later : IsHost rest) : IsHost (label ++ '.' :: rest)

/-- The name of a mailbox at a host, and the closing bracket. -/
structure Mail (mailbox host : Chars) : Prop where
  some : mailbox ≠ []
  made : ∀ c ∈ mailbox, isMailbox c
  host : IsHost host

/-- What makes an angle bracket before it an autolink. -/
inductive Autolink : Chars → Prop where
  | target (first : Char) (scheme target rest : Chars) (letter : Text.isAsciiLetter first)
      (more : ∀ c ∈ scheme, isAlphanumeric c ∨ c = '+' ∨ c = '.' ∨ c = '-')
      (plain : ∀ c ∈ target, c ≠ ' ' ∧ c ≠ '<' ∧ c ≠ '>') :
      Autolink (first :: scheme ++ ':' :: target ++ '>' :: rest)
  | mail (mailbox host rest : Chars) (address : Mail mailbox host) : Autolink (mailbox ++ '@' :: (host ++ '>' :: rest))

/-- A mailbox at a host, closed by a bracket, of which nothing is escaped. -/
def Overlooked (s : Chars) : Prop :=
  ∃ mailbox host rest, s = mailbox ++ '@' :: (host ++ '>' :: rest) ∧ Mail mailbox host ∧
    opensTag mailbox = false ∧ ∀ c ∈ mailbox, c ∉ inlineSpecial

-- A reference ends before anything that is not part of it.
theorem reference_run (s : Chars) (opens : opensReference s = true) :
    ∃ run rest, s = run ++ ';' :: rest ∧ '@' ∉ run := by
  have away (p : Char → Bool) (run : Chars) (all : ∀ c ∈ run, p c) (outside : p '@' = false) : '@' ∉ run :=
    fun member => by
      have inside := all '@' member
      rw [outside] at inside
      cases inside
  cases (opens_reference_iff s).mp opens with
  | decimal digits rest _ all =>
      have free := away Text.isAsciiDigit digits all (by decide)
      exact ⟨'#' :: digits, rest, rfl, by simp [free]⟩
  | hex x digits rest sign _ all =>
      have free := away Text.isHexDigit digits all (by decide)
      have other : '@' ≠ x := by rcases sign with rfl | rfl <;> decide
      exact ⟨'#' :: x :: digits, rest, rfl, by simp [free, other]⟩
  | name word rest _ all => exact ⟨word, rest, rfl, away Text.isWord word all (by decide)⟩

theorem no_reference (mailbox rest : Chars) (free : ';' ∉ mailbox) :
    opensReference (mailbox ++ '@' :: rest) = false := by
  cases opens : opensReference (mailbox ++ '@' :: rest) with
  | false => rfl
  | true =>
      obtain ⟨run, tail, same, clear⟩ := reference_run _ opens
      rcases List.append_eq_append_iff.mp same with ⟨between, rfl, split⟩ | ⟨between, rfl, split⟩
      · cases between with
        | nil => cases split
        | cons c between =>
            obtain ⟨rfl, -⟩ := List.cons.inj split
            exact absurd (by simp) clear
      · cases between with
        | nil => cases split
        | cons c between =>
            obtain ⟨rfl, -⟩ := List.cons.inj split
            exact absurd (by simp) free

theorem class_apart (p : Char → Bool) (c d : Char) (inside : p c = true) (outside : p d = false) : c ≠ d := by
  rintro rfl
  rw [inside] at outside
  cases outside

theorem mailbox_plain (c : Char) (made : isMailbox c) : c ≠ '\\' ∧ c ≠ '\n' ∧ c ≠ '<' ∧ c ≠ ';' :=
  ⟨class_apart isMailbox c _ made (by decide), class_apart isMailbox c _ made (by decide),
    class_apart isMailbox c _ made (by decide), class_apart isMailbox c _ made (by decide)⟩

def isHostPart (c : Char) : Bool := isAlphanumeric c || c == '-' || c == '.'

theorem host_made (host : Chars) (named : IsHost host) (c : Char) (member : c ∈ host) : isHostPart c := by
  have inside (label : Chars) (own : IsLabel label) (part : c ∈ label) : isHostPart c := by
    rcases own.made c part with letter | rfl
    · simp [isHostPart, letter]
    · decide
  induction named with
  | last label own => exact inside label own member
  | more label rest own later ih =>
      rcases List.mem_append.mp member with part | behind
      · exact inside label own part
      · rcases List.mem_cons.mp behind with rfl | further
        · decide
        · exact ih further

theorem host_plain (c : Char) (made : isHostPart c) :
    c ∉ inlineSpecial ∧ c ≠ '\\' ∧ c ≠ '\n' ∧ c ≠ '<' ∧ c ≠ '&' := by
  refine ⟨fun listed => ?_, class_apart isHostPart c _ made (by decide), class_apart isHostPart c _ made (by decide),
    class_apart isHostPart c _ made (by decide), class_apart isHostPart c _ made (by decide)⟩
  have none : inlineSpecial.all (fun d => !isHostPart d) = true := by decide
  simpa [made] using List.all_eq_true.mp none c listed

theorem tag_head (s rest : Chars) (some : s ≠ []) : opensTag (s ++ rest) = opensTag s := by
  cases s with
  | nil => exact absurd rfl some
  | cons c s => rfl

section

variable (s w : Chars)

theorem plain_unslashed (c : Char) (common : c ∉ inlineSpecial) : c ≠ '\\' := by
  rintro rfl
  exact common (by decide)

-- A character that stands in a spelled text without a shield is one of the text that it spells.
theorem spelled_unshielded (start : Bool) (spelled : Spelled inlineSpecial start s w) (before : Chars)
    (c : Char) (after : Chars) (place : w = before ++ c :: after) (other : c ≠ '\\') (bare : ¬ Shielded before) :
    ∃ front rest flag, s = front ++ c :: rest ∧ opensMarkup c after = false ∧
      Spelled inlineSpecial (numbering flag c) rest after := by
  induction spelled generalizing before with
  | nil => simp at place
  | plain start d s w common closed rest ih =>
      cases before with
      | nil =>
          obtain ⟨rfl, rfl⟩ := List.cons.inj place
          exact ⟨[], s, start, rfl, closed, rest⟩
      | cons x before =>
          obtain ⟨rfl, tail⟩ := List.cons.inj place
          rw [shielded_past before d (plain_unslashed d common)] at bare
          obtain ⟨front, more, flag, split, found⟩ := ih before tail bare
          exact ⟨d :: front, more, flag, congrArg (d :: ·) split, found⟩
  | slashed start d s w _ rest ih =>
      match before with
      | [] => exact absurd (List.cons.inj place).1.symm other
      | [x] =>
          obtain ⟨rfl, -⟩ := List.cons.inj place
          exact absurd ((shielded_last [] '\\').mpr ⟨rfl, shielded_nil⟩) bare
      | x :: y :: before =>
          obtain ⟨rfl, next⟩ := List.cons.inj place
          obtain ⟨rfl, tail⟩ := List.cons.inj next
          rw [shielded_pair] at bare
          obtain ⟨front, more, flag, split, found⟩ := ih before tail bare
          exact ⟨d :: front, more, flag, congrArg (d :: ·) split, found⟩

-- The other way round: what a text begins with is spelled so that it leaves no shield.
theorem spelled_split (start : Bool) (front rest : Chars) (spelled : Spelled inlineSpecial start (front ++ rest) w) :
    ∃ before after flag, w = before ++ after ∧ ¬ Shielded before ∧ Spelled inlineSpecial flag rest after := by
  induction front generalizing start w with
  | nil => exact ⟨[], w, start, rfl, shielded_nil, spelled⟩
  | cons c front ih =>
      cases spelled with
      | plain _ _ _ w common _ later =>
          obtain ⟨before, after, flag, rfl, bare, found⟩ := ih w _ later
          exact ⟨c :: before, after, flag, rfl,
            by rwa [shielded_past before c (plain_unslashed c common)], found⟩
      | slashed _ _ _ w _ later =>
          obtain ⟨before, after, flag, rfl, bare, found⟩ := ih w _ later
          exact ⟨'\\' :: c :: before, after, flag, rfl, by rwa [shielded_pair], found⟩

end

theorem numbering_inside (c : Char) (inside : c ≠ '\n') : numbering false c = false := by
  simpa [numbering] using inside

-- Within a line a character that opens nothing is written as it is.
theorem spelled_plain (c : Char) (s w : Chars) (spelled : Spelled inlineSpecial false (c :: s) w)
    (common : c ∉ inlineSpecial) (inside : c ≠ '\n')
    (closed : ∀ v, Spelled inlineSpecial false s v → opensMarkup c v = false) :
    ∃ v, w = c :: v ∧ Spelled inlineSpecial false s v := by
  cases spelled with
  | plain _ _ _ v _ _ rest => exact ⟨v, rfl, by rwa [numbering_inside c inside] at rest⟩
  | slashed _ _ _ v reason rest =>
      rcases reason with listed | opens | ⟨started, -⟩
      · exact absurd listed common
      · rw [closed v rest] at opens
        cases opens
      · cases started

theorem spelled_host (host rest w : Chars) (spelled : Spelled inlineSpecial false (host ++ rest) w)
    (plain : ∀ c ∈ host, c ∉ inlineSpecial ∧ c ≠ '\n' ∧ c ≠ '<' ∧ c ≠ '&') :
    ∃ v, w = host ++ v ∧ Spelled inlineSpecial false rest v := by
  induction host generalizing w with
  | nil => exact ⟨w, rfl, spelled⟩
  | cons c host ih =>
      obtain ⟨common, inside, angle, amp⟩ := plain c List.mem_cons_self
      obtain ⟨v, rfl, later⟩ := spelled_plain c _ w spelled common inside fun v _ => by
        simp [opensMarkup, angle, amp]
      obtain ⟨u, rfl, found⟩ := ih v later fun d member => plain d (List.mem_cons_of_mem c member)
      exact ⟨u, rfl, found⟩

-- Up to the sign of the address, no ampersand opens a reference.
theorem spelled_mailbox (mailbox rest w : Chars) (spelled : Spelled inlineSpecial false (mailbox ++ '@' :: rest) w)
    (plain : ∀ c ∈ mailbox, c ∉ inlineSpecial ∧ c ≠ '\n' ∧ c ≠ '<' ∧ c ≠ ';') :
    ∃ v, w = mailbox ++ '@' :: v ∧ Spelled inlineSpecial false rest v := by
  induction mailbox generalizing w with
  | nil =>
      obtain ⟨v, rfl, found⟩ := spelled_host ['@'] rest w spelled (List.forall_mem_singleton.mpr (by decide))
      exact ⟨v, rfl, found⟩
  | cons c mailbox ih =>
      have later : ∀ d ∈ mailbox, d ∉ inlineSpecial ∧ d ≠ '\n' ∧ d ≠ '<' ∧ d ≠ ';' :=
        fun d member => plain d (List.mem_cons_of_mem c member)
      obtain ⟨common, inside, angle, -⟩ := plain c List.mem_cons_self
      obtain ⟨v, rfl, behind⟩ := spelled_plain c _ w spelled common inside fun v next => by
        obtain ⟨u, rfl, -⟩ := ih v next later
        have free : ';' ∉ mailbox := fun member => (later ';' member).2.2.2 rfl
        simp [opensMarkup, angle, no_reference mailbox u free]
      obtain ⟨u, rfl, found⟩ := ih v behind later
      exact ⟨u, rfl, found⟩

-- What is written without a backslash is what the text has there.
theorem spelled_written (front tail s : Chars) (spelled : Spelled inlineSpecial false s (front ++ tail))
    (plain : ∀ c ∈ front, c ≠ '\\' ∧ c ≠ '\n') :
    ∃ rest, s = front ++ rest ∧ (∀ c ∈ front, c ∉ inlineSpecial) ∧ Spelled inlineSpecial false rest tail := by
  induction front generalizing s with
  | nil => exact ⟨s, rfl, by simp, spelled⟩
  | cons c front ih =>
      obtain ⟨unslashed, inside⟩ := plain c List.mem_cons_self
      obtain ⟨t, rfl, common, later⟩ := spelled_common inlineSpecial false s c _ spelled unslashed
      rw [numbering_inside c inside] at later
      obtain ⟨rest, rfl, others, found⟩ := ih t later fun d member => plain d (List.mem_cons_of_mem c member)
      exact ⟨rest, rfl, List.forall_mem_cons.mpr ⟨common, others⟩, found⟩

section

variable (s ahead : Chars)

theorem mail_overlooked (rest : Chars) (autolink : Autolink rest) (closed : opensTag rest = false) (t : Chars)
    (spelled : Spelled inlineSpecial false t rest) : Overlooked t := by
  cases autolink with
  | target first scheme target tail letter more plain => simp [opensTag, letter] at closed
  | mail mailbox host tail address =>
      rw [tag_head mailbox _ address.some] at closed
      obtain ⟨behind, rfl, common, later⟩ := spelled_written mailbox _ t spelled fun c member =>
        ⟨(mailbox_plain c (address.made c member)).1, (mailbox_plain c (address.made c member)).2.1⟩
      have signs : ∀ c ∈ '@' :: host ++ ['>'], c ≠ '\\' ∧ c ≠ '\n' := by
        simp only [List.cons_append, List.forall_mem_cons, List.forall_mem_append]
        refine ⟨by decide, fun c member => ?_, by decide, by simp⟩
        have plain := host_plain c (host_made host address.host c member)
        exact ⟨plain.2.1, plain.2.2.1⟩
      obtain ⟨rest, rfl, -, -⟩ := spelled_written ('@' :: host ++ ['>']) tail behind (by simpa using later) signs
      exact ⟨mailbox, host, rest, by simp, address, closed, common⟩

theorem overlooked_written (t w : Chars) (overlooked : Overlooked t) (spelled : Spelled inlineSpecial false t w) :
    Autolink w ∧ opensTag w = false := by
  obtain ⟨mailbox, host, rest, rfl, address, closed, common⟩ := overlooked
  obtain ⟨v, rfl, behind⟩ := spelled_mailbox mailbox _ w spelled fun c member =>
    ⟨common c member, (mailbox_plain c (address.made c member)).2⟩
  obtain ⟨u, rfl, last⟩ := spelled_host host _ v behind fun c member => by
    obtain ⟨plain, -, others⟩ := host_plain c (host_made host address.host c member)
    exact ⟨plain, others⟩
  obtain ⟨tail, rfl, -⟩ := spelled_host ['>'] rest u last (List.forall_mem_singleton.mpr (by decide))
  exact ⟨.mail mailbox host tail address, by rw [tag_head mailbox _ address.some, closed]⟩

/-- In escaped text no bracket without a shield opens a tag, and one of them is an autolink exactly if the text has
a mailbox at a host between brackets that is spelled with nothing that is escaped everywhere and begins with no letter,
slash, exclamation or question mark. -/
theorem autolinks_written_iff :
    (∀ before after, markdown s ahead = before ++ '<' :: after → ¬ Shielded before → opensTag after = false) ∧
    ((∃ before after, markdown s ahead = before ++ '<' :: after ∧ ¬ Shielded before ∧ Autolink after) ↔
      ∃ before after, s = before ++ '<' :: after ∧ Overlooked after) := by
  have spelled := markdown_spelled s ahead
  have inside (flag : Bool) : numbering flag '<' = false := by
    cases flag <;> decide
  have source (before after : Chars) (place : markdown s ahead = before ++ '<' :: after) (bare : ¬ Shielded before) :
      ∃ front rest, s = front ++ '<' :: rest ∧ opensTag after = false ∧ Spelled inlineSpecial false rest after := by
    obtain ⟨front, rest, flag, split, closed, behind⟩ :=
      spelled_unshielded s _ true spelled before '<' after place (by decide) bare
    rw [inside] at behind
    exact ⟨front, rest, split, by simpa [opensMarkup] using closed, behind⟩
  refine ⟨fun before after place bare => ?_, ?_, ?_⟩
  · obtain ⟨front, rest, -, closed, -⟩ := source before after place bare
    exact closed
  · rintro ⟨before, after, place, bare, autolink⟩
    obtain ⟨front, rest, split, closed, behind⟩ := source before after place bare
    exact ⟨front, rest, split, mail_overlooked after autolink closed rest behind⟩
  · rintro ⟨front, rest, rfl, overlooked⟩
    obtain ⟨before, after, flag, split, bare, found⟩ := spelled_split _ true front ('<' :: rest) spelled
    cases found with
    | plain _ _ _ w common closed behind =>
        rw [inside] at behind
        exact ⟨before, w, split, bare, (overlooked_written rest w overlooked behind).1⟩
    | slashed _ _ _ w reason behind =>
        have closed := (overlooked_written rest w overlooked behind).2
        rcases reason with listed | opens | ⟨-, listed⟩
        · exact absurd listed (by decide)
        · simp [opensMarkup, closed] at opens
        · exact absurd listed (by decide)

end

theorem numeric_mailbox_linked : ¬ ∀ s ahead : Chars, ¬ ∃ before after, markdown s ahead = before ++ '<' :: after ∧
    ¬ Shielded before ∧ Autolink after := by
  intro claimed
  have written : markdown "<1@a>".toList [] = [] ++ '<' :: "1@a>".toList := by decide
  have host : IsHost ['a'] := .last ['a'] ⟨by decide, List.forall_mem_singleton.mpr (by decide), by decide, by decide⟩
  exact claimed "<1@a>".toList [] ⟨[], "1@a>".toList, written, shielded_nil,
    .mail ['1'] ['a'] [] ⟨by decide, List.forall_mem_singleton.mpr (by decide), host⟩⟩

end Downmark.Escape
