import Downmark.CommonMark.Link
import Downmark.Proofs.Scanned
/-!
Reading the targets of links and images, and the texts of images. A destination stands in angle brackets on one line,
or holds no spaces and controls, and no parentheses but in pairs or after backslashes; a title ends at the first quote
that no backslash stands before, and the text of an image at the bracket that closes it. Main statement: under just
which conditions the targets, definitions and texts that are written are read back unchanged.
-/

set_option autoImplicit false

namespace Downmark.Link

open Escape

def isControl (c : Char) : Bool := c.toNat < 32 || c.toNat == 127

def inAngles (c : Char) : Role :=
  if c == '>' then .closes else if c == '<' || c == '\n' || c == '\r' then .stops else .plain

def inParens (c : Char) : Role :=
  if c == '(' then .opens else if c == ')' then .closes else if c == ' ' || isControl c then .stops else .plain

def inQuotes (c : Char) : Role := if c == '"' then .closes else .plain

def inBrackets (c : Char) : Role := if c == '[' then .opens else if c == ']' then .closes else .plain

/-- The destination that a text begins with, and what comes after it. -/
def destination? : Chars → Option (Chars × Chars)
  | '<' :: s =>
    match scan inAngles 0 s with
    | some (url, '>' :: rest) => some (url, rest)
    | _ => none
  | s => scan inParens 0 s

/-- The title after a destination, if there is one, and what comes after it. -/
def titled? : Chars → Option (Option Chars × Chars)
  | ' ' :: '"' :: s =>
    match scan inQuotes 0 s with
    | some (title, '"' :: rest) => some (some title, rest)
    | _ => none
  | s => some (none, s)

/-- The target in parentheses that a text begins with, and what comes after it. -/
def target? : Chars → Option ((Chars × Option Chars) × Chars)
  | '(' :: s =>
    (destination? s).bind fun (url, s) => (titled? s).bind fun (title, s) =>
      match s with
      | ')' :: rest => some ((url, title), rest)
      | _ => none
  | _ => none

/-- The target that a line defines a label to lead to. -/
def definition? (label line : Chars) : Option (Chars × Option Chars) :=
  (Text.strip? ('[' :: label ++ [']', ':', ' ']) line).bind fun s => (destination? s).bind fun (url, s) =>
    (titled? s).bind fun (title, s) => if s.isEmpty then some (url, title) else none

/-- A destination of which nothing is lost where a backslash is put before some characters; `closed` tells that a
parenthesis comes right after it. -/
def KeptDestination (special : Chars) (url : Chars) (closed : Bool) : Prop :=
  if ' ' ∈ url then Faithful inAngles special url ∧ url.getLast? ≠ some '\\'
  else url.head? ≠ some '<' ∧ Faithful inParens special url ∧ (closed = true → url.getLast? ≠ some '\\')

def KeptTitle (title : Option Chars) : Prop :=
  ∀ text ∈ title, Faithful inQuotes ['"'] text ∧ text.getLast? ≠ some '\\'

theorem plain_destination (s : Chars) (first : s.head? ≠ some '<') : destination? s = scan inParens 0 s := by
  rw [destination?]
  rintro t rfl
  exact first rfl

section

variable (special : Chars) (punctuated : ∀ c ∈ special, isPunctuation c = true) (unslashed : '\\' ∉ special)
variable (url tail after : Chars)

include punctuated unslashed

theorem destination_angled :
    destination? ('<' :: (Text.backslash special url ++ '>' :: tail)) = some (url, after) ↔
      after = tail ∧ Faithful inAngles special url ∧ url.getLast? ≠ some '\\' := by
  rw [← scan_closed inAngles rfl special punctuated unslashed url tail after '>' rfl rfl (by decide), destination?]
  split
  · rename_i found
    rw [found]
    simp
  · rename_i other
    refine ⟨nofun, fun found => absurd found (other _ _)⟩

theorem destination_plain (first : url.head? ≠ some '<') (ends : Ends inParens tail) :
    destination? (Text.backslash special url ++ tail) = some (url, after) ↔
      after = tail ∧ Faithful inParens special url ∧
        (url.getLast? = some '\\' → tail.head?.any isPunctuation = false) := by
  have written := scan_written inParens rfl special punctuated unslashed url tail ends
  have stop : tail.head? ≠ some '\\' := fun slash => (ends _ slash).1 rfl
  have open_ : (Text.backslash special url ++ tail).head? ≠ some '<' := by
    cases url with
    | nil => exact fun angle => nomatch (ends _ angle).2
    | cons c url =>
        by_cases listed : c ∈ special
        · rw [backslash_special special c url listed]
          simp
        · rw [backslash_other special c url listed]
          exact first
  rw [plain_destination _ open_]
  constructor
  · intro found
    obtain ⟨rfl, -⟩ := scan_rest inParens rfl special 0 url tail after stop found
    exact ⟨rfl, written.mp found⟩
  · rintro ⟨rfl, kept⟩
    exact written.mpr kept

end

-- A destination that only looks as if it stood in angle brackets is not read as what it is.
theorem destination_misread (special u tail after : Chars)
    (next : ∀ c ∈ tail.head?, c = ' ' ∨ c = ')') :
    destination? ('<' :: (Text.backslash special u ++ tail)) ≠ some ('<' :: u, after) := by
  intro found
  rw [destination?] at found
  split at found
  · rename_i url rest read
    cases found
    obtain ⟨⟨consumed, whole, reads⟩, -⟩ := scan_reads inAngles rfl 0 _ _ _ read
    have same (c : Char) (common : c ≠ '\\') : consumed.count c = ('<' :: u).count c := by
      rw [← count_unescape c common, reads]
    have angles := same '<' (by decide)
    rw [List.count_cons_self] at angles
    rcases List.append_eq_append_iff.mp whole with ⟨x, longer, rest⟩ | ⟨x, longer, -⟩
    · cases x with
      | nil =>
          rw [longer, List.append_nil, count_backslash special '<' (by decide)] at angles
          omega
      | cons h x =>
          have common : h ≠ '\\' ∧ h ≠ '<' := by
            rcases next h (by rw [rest]; rfl) with rfl | rfl <;> decide
          have count := same h common.1
          rw [longer, List.count_append, count_backslash special h common.1, List.count_cons_self,
            List.count_cons_of_ne (Ne.symm common.2)] at count
          omega
    · have fewer := congrArg (List.count '<') longer
      rw [List.count_append, count_backslash special '<' (by decide)] at fewer
      omega
  · cases found

theorem space_written (special url : Chars) : (Text.backslash special url).contains ' ' = true ↔ ' ' ∈ url := by
  rw [List.contains_iff_mem, ← List.count_pos_iff, count_backslash special ' ' (by decide), List.count_pos_iff]

/-- What is read of a destination as it is written: a space or a parenthesis comes right after it, or nothing. -/
theorem destination_read (special : Chars) (parens : special ⊆ ['(', ')']) (url tail after : Chars)
    (next : ∀ c ∈ tail.head?, c = ' ' ∨ c = ')') :
    destination? ((if ' ' ∈ url then '<' :: Text.backslash special url ++ ['>'] else Text.backslash special url) ++
      tail) = some (url, after) ↔ after = tail ∧ KeptDestination special url (tail.head? == some ')') := by
  have punctuated : ∀ c ∈ special, isPunctuation c = true := fun c listed =>
    List.all_eq_true.mp (show ['(', ')'].all isPunctuation = true from rfl) c (parens listed)
  have unslashed : '\\' ∉ special := fun listed => absurd (parens listed) (by decide)
  unfold KeptDestination
  by_cases spaced : ' ' ∈ url
  · rw [if_pos spaced, if_pos spaced, List.append_assoc]
    exact destination_angled special punctuated unslashed url tail after
  · rw [if_neg spaced, if_neg spaced]
    by_cases first : url.head? = some '<'
    · obtain ⟨u, rfl⟩ := List.head?_eq_some_iff.mp first
      rw [backslash_other special '<' u fun listed => absurd (parens listed) (by decide)]
      exact ⟨fun read => absurd read (destination_misread special u tail after next), fun kept => absurd first kept.2.1⟩
    · have ends : Ends inParens tail := by
        intro c member
        rcases next c member with rfl | rfl <;> exact ⟨by decide, rfl⟩
      have closed : tail.head?.any isPunctuation = (tail.head? == some ')') := by
        cases found : tail.head? with
        | none => rfl
        | some c => rcases next c found with rfl | rfl <;> rfl
      rw [destination_plain special punctuated unslashed url tail after first ends, closed]
      cases tail.head? == some ')' <;> simp [first]

theorem untitled (s : Chars) (next : s.head? ≠ some ' ') : titled? s = some (none, s) := by
  rw [titled?]
  rintro t rfl
  exact next rfl

theorem titled_read (title : Option Chars) (given : title ≠ some []) (more after : Chars)
    (next : more.head? ≠ some ' ') :
    titled? (Reference.titleSuffix title ++ more) = some (title, after) ↔ after = more ∧ KeptTitle title := by
  cases title with
  | none =>
      rw [show Reference.titleSuffix none ++ more = more from rfl, untitled more next]
      simp [KeptTitle, eq_comm]
  | some text =>
      have written : Reference.titleSuffix (some text) = ' ' :: '"' :: (Text.backslash ['"'] text ++ ['"']) := by
        have quotes : Text.replaceChar '"' ['\\', '"'] text = Text.backslash ['"'] text := by
          refine List.flatMap_congr fun c _ => ?_
          by_cases quote : c = '"' <;> simp [quote]
        cases text with
        | nil => exact absurd rfl given
        | cons c text => exact congrArg (fun w => ' ' :: '"' :: (w ++ ['"'])) quotes
      have kept : KeptTitle (some text) ↔ Faithful inQuotes ['"'] text ∧ text.getLast? ≠ some '\\' := by
        simp [KeptTitle]
      rw [written, kept, ← scan_closed inQuotes rfl ['"'] (List.all_eq_true.mp rfl) (by decide) text more after '"' rfl
        rfl (by decide), List.cons_append, List.cons_append, List.append_assoc, titled?]
      split
      · rename_i found
        rw [show ['"'] ++ more = '"' :: more from rfl] at found
        rw [found]
        simp
      · rename_i other
        exact ⟨nofun, fun found => absurd found (other _ _)⟩

theorem given_title {μ : Type} (n : Node μ) : title? n ≠ some [] := by
  unfold title?
  split
  · nofun
  · rename_i some
    exact fun empty => some (Option.some.inj empty)

theorem destination_written (url : Chars) : destination url =
    if ' ' ∈ url then '<' :: Text.backslash ['(', ')'] url ++ ['>'] else Text.backslash ['(', ')'] url := by
  unfold destination
  simp only [space_written]

theorem suffix_next (title : Option Chars) (more : Chars) (next : ∀ c ∈ more.head?, c = ')') :
    (∀ c ∈ (Reference.titleSuffix title ++ more).head?, c = ' ' ∨ c = ')') ∧ more.head? ≠ some ' ' := by
  refine ⟨fun c first => ?_, fun space => absurd (next _ space) (by decide)⟩
  rcases title with - | ⟨- | ⟨d, text⟩⟩
  · exact .inr (next c first)
  · exact .inr (next c first)
  · exact .inl (Option.some.inj first).symm

-- Destination and title, whatever has to come after them.
theorem address_read {β : Type} (special : Chars) (parens : special ⊆ ['(', ')']) (url more : Chars)
    (title : Option Chars) (given : title ≠ some []) (last : ∀ c ∈ more.head?, c = ')')
    (finish : Chars → Option Chars → Chars → Option β) (b : β)
    (finished : ∀ u t s, finish u t s = some b ↔ u = url ∧ t = title ∧ s = more) :
    ((destination? ((if ' ' ∈ url then '<' :: Text.backslash special url ++ ['>'] else Text.backslash special url) ++
      (Reference.titleSuffix title ++ more))).bind fun (u, s) => (titled? s).bind fun (t, s) => finish u t s) = some b ↔
      KeptDestination special url ((Reference.titleSuffix title ++ more).head? == some ')') ∧ KeptTitle title := by
  obtain ⟨next, ended⟩ := suffix_next title more last
  have read := destination_read special parens url (Reference.titleSuffix title ++ more)
  simp only [Option.bind_eq_some_iff, Prod.exists]
  constructor
  · rintro ⟨u, after, found, t, later, suffix, ends⟩
    obtain ⟨rfl, rfl, rfl⟩ := (finished u t later).mp ends
    obtain ⟨rfl, destination⟩ := (read after next).mp found
    obtain ⟨-, kept⟩ := (titled_read t given _ _ ended).mp suffix
    exact ⟨destination, kept⟩
  · rintro ⟨destination, kept⟩
    have titled := (titled_read title given more more ended).mpr ⟨rfl, kept⟩
    exact ⟨url, _, (read _ next).mpr ⟨rfl, destination⟩, title, more, titled, (finished _ _ _).mpr ⟨rfl, rfl, rfl⟩⟩

theorem target_read (url : Chars) (title : Option Chars) (given : title ≠ some []) (rest : Chars) :
    target? (target url title ++ rest) = some ((url, title), rest) ↔
      KeptDestination ['(', ')'] url title.isNone ∧ KeptTitle title := by
  have closed : ((Reference.titleSuffix title ++ ')' :: rest).head? == some ')') = title.isNone := by
    rcases title with - | ⟨- | ⟨d, text⟩⟩
    · rfl
    · exact absurd rfl given
    · rfl
  have shape : target url title ++ rest = '(' :: (destination url ++ (Reference.titleSuffix title ++ ')' :: rest)) := by
    simp [target]
  rw [shape, destination_written, target?, ← closed]
  refine address_read ['(', ')'] (fun _ listed => listed) url (')' :: rest) title given (by simp)
    (fun u t s => match s with
      | ')' :: rest => some ((u, t), rest)
      | _ => none) _ fun u t s => ?_
  split
  · simp [and_assoc]
  · rename_i other
    exact iff_of_false (by simp) fun same => other rest same.2.2

theorem backslash_nothing (s : Chars) : Text.backslash [] s = s := by
  induction s with
  | nil => rfl
  | cons c s ih => rw [backslash_other [] c s (by simp), ih]

theorem definition_read (label url : Chars) (led : url ≠ []) (title : Option Chars) (given : title ≠ some []) :
    definition? label (Reference.Link.toMarkdown { label, url, title }) = some (url, title) ↔
      KeptDestination [] url false ∧ KeptTitle title := by
  have closed : ((Reference.titleSuffix title ++ []).head? == some ')') = false := by
    rcases title with - | ⟨- | ⟨d, text⟩⟩ <;> rfl
  have shape : Reference.Link.toMarkdown { label, url, title } = ('[' :: label ++ [']', ':', ' ']) ++
      ((if ' ' ∈ url then '<' :: Text.backslash [] url ++ ['>'] else Text.backslash [] url) ++
        (Reference.titleSuffix title ++ [])) := by
    simp [Reference.Link.toMarkdown, backslash_nothing, led]
  rw [shape, definition?, Text.strip_append, Option.bind_some, ← closed]
  refine address_read [] (List.nil_subset _) url [] title given (by simp)
    (fun u t s => if s.isEmpty then some (u, t) else none) _ fun u t s => ?_
  cases s <;> simp

theorem image_text_read {μ : Type} (n : Node μ) (rest : Chars) :
    scan inBrackets 0 (imageText n ++ ']' :: rest) = some (clean (n.attr "alt"), ']' :: rest) ↔
      Faithful inBrackets ['[', ']'] (clean (n.attr "alt")) ∧ (clean (n.attr "alt")).getLast? ≠ some '\\' := by
  rw [imageText, scan_closed inBrackets rfl ['[', ']'] (List.all_eq_true.mp rfl) (by decide) _ rest rest ']' rfl rfl
    (by decide)]
  exact and_iff_right rfl

theorem link_targets_read_back {μ : Type} (n : Node μ) (url label rest : Chars) (led : url ≠ []) :
    (target? (target url (title? n) ++ rest) = some ((url, title? n), rest) ↔
      KeptDestination ['(', ')'] url (title? n).isNone ∧ KeptTitle (title? n)) ∧
    (definition? label (Reference.Link.toMarkdown { label, url, title := title? n }) = some (url, title? n) ↔
      KeptDestination [] url false ∧ KeptTitle (title? n)) ∧
    (scan inBrackets 0 (imageText n ++ ']' :: rest) = some (clean (n.attr "alt"), ']' :: rest) ↔
      Faithful inBrackets ['[', ']'] (clean (n.attr "alt")) ∧ (clean (n.attr "alt")).getLast? ≠ some '\\') :=
  ⟨target_read url (title? n) (given_title n) rest, definition_read label url led (title? n) (given_title n),
    image_text_read n rest⟩

def quotedImage : Tree :=
  .element () "img" [("title", "say \"hi\"".toList), ("alt", "[b] (c)".toList)] []

theorem quoted_image_read_back : "a (b".toList ≠ [] ∧
    target? (target "a (b".toList (title? quotedImage) ++ ['!']) = some (("a (b".toList, title? quotedImage), ['!']) ∧
    definition? ['1'] (Reference.Link.toMarkdown { label := ['1'], url := "a (b".toList, title := title? quotedImage }) =
      some ("a (b".toList, title? quotedImage) ∧
    scan inBrackets 0 (imageText quotedImage ++ ']' :: ['!']) = some ("[b] (c)".toList, ']' :: ['!']) := by
  have led : "a (b".toList ≠ [] := by decide
  obtain ⟨target, defined, text⟩ := link_targets_read_back quotedImage "a (b".toList ['1'] ['!'] led
  have title : KeptTitle (title? quotedImage) := by
    intro t member
    cases member
    exact ⟨unslashed_faithful inQuotes ['"'] _ (by decide) rfl, by decide⟩
  have placed (special : Chars) (closed : Bool) : KeptDestination special "a (b".toList closed := by
    rw [KeptDestination, if_pos (by decide)]
    refine ⟨unslashed_faithful inAngles special _ (by decide) ?_, by decide⟩
    simp [inAngles]
  have alt : Faithful inBrackets ['[', ']'] (clean (quotedImage.attr "alt")) :=
    unslashed_faithful inBrackets ['[', ']'] _ (by decide) rfl
  exact ⟨led, target.mpr ⟨placed _ _, title⟩, defined.mpr ⟨placed _ _, title⟩, text.mpr ⟨alt, by decide⟩⟩

-- The backslash at the end of the title takes its meaning from the quote after it.
theorem slashed_title_unread : ¬ ∀ (n : Tree) (url label rest : Chars), url ≠ [] →
    target? (target url (title? n) ++ rest) = some ((url, title? n), rest) ∧
    definition? label (Reference.Link.toMarkdown { label, url, title := title? n }) = some (url, title? n) ∧
    scan inBrackets 0 (imageText n ++ ']' :: rest) = some (clean (n.attr "alt"), ']' :: rest) := by
  intro always
  have read := (always (.element () "a" [("title", ['a', '\\'])] []) ['u'] [] [] (by decide)).1
  exact absurd read (by decide)

end Downmark.Link
