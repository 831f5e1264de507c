import Downmark.Proofs.Exposed
/-!
Markup across texts: each of several texts is escaped by itself, so an angle bracket or an ampersand at the
end of one may open markup with what comes after it. Main statement: this is the only way in which texts
that are written one after the other expose markup.
-/

set_option autoImplicit false

namespace Downmark.Escape

-- The rest of the text is written as it is if it has no underscore.
def Crossing (s next : Chars) : Prop :=
  ∃ u c v, s = u ++ c :: v ∧ '_' ∉ v ∧ ¬ OpensMarkup c v ∧ OpensMarkup c (v ++ next)

def Crosses (texts : List Chars) : Prop :=
  ∃ front s back, texts = front ++ s :: back ∧ Crossing s (back.map fun t => markdown t []).flatten

theorem spelled_unslashed (special : Chars) (start : Bool) (s w : Chars) (spelled : Spelled special start s w)
    (unslashed : '\\' ∉ w) : w = s ∧ ∀ c ∈ s, c ∉ special := by
  induction spelled with
  | nil => exact ⟨rfl, by simp⟩
  | plain start c s w common _ _ ih =>
      obtain ⟨rfl, rest⟩ := ih (fun member => unslashed (List.mem_cons_of_mem c member))
      refine ⟨rfl, ?_⟩
      intro d member
      rcases List.mem_cons.mp member with rfl | later
      · exact common
      · exact rest d later
  | slashed => exact absurd List.mem_cons_self unslashed

def isName (c : Char) : Bool := Text.isWord c || c == '#'

theorem name_closed (c : Char) (s : Chars) (name : isName c) : opensMarkup c s = false ∧ c ≠ '\n' ∧ c ≠ '\\' := by
  have other (d : Char) (outside : isName d = false) : c ≠ d := by
    intro same
    rw [same, outside] at name
    cases name
  refine ⟨?_, other '\n' (by decide), other '\\' (by decide)⟩
  cases opens : opensMarkup c s with
  | false => rfl
  | true =>
      rcases opens_markup_char c s opens with same | same
      · exact absurd same (other '<' (by decide))
      · exact absurd same (other '&' (by decide))

theorem spelled_name (s w : Chars) (spelled : Spelled inlineSpecial false s w) (all : ∀ c ∈ s, isName c)
    (free : '_' ∉ s) : w = s := by
  generalize begin_ : false = start at spelled
  induction spelled with
  | nil => rfl
  | plain start c s w _ _ _ ih =>
      obtain ⟨-, newline, -⟩ := name_closed c w (all c List.mem_cons_self)
      have after : false = numbering start c := by simp [numbering, ← begin_, newline]
      rw [ih (fun d member => all d (List.mem_cons_of_mem c member))
        (fun member => free (List.mem_cons_of_mem c member)) after]
  | slashed start c s w reason _ _ =>
      have name := all c List.mem_cons_self
      obtain ⟨closed, -, -⟩ := name_closed c w name
      have plain : c ∉ inlineSpecial := by
        intro listed
        have others : inlineSpecial.all (fun d => !isName d || d == '_') = true := by decide
        have underscore : c = '_' := by simpa [name] using List.all_eq_true.mp others c listed
        exact free (underscore ▸ List.mem_cons_self)
      rcases reason with listed | opens | ⟨start, -⟩
      · exact absurd listed plain
      · rw [closed] at opens
        cases opens
      · rw [← begin_] at start
        cases start

theorem opens_reference_shape (t : Chars) (opens : OpensMarkup '&' t) :
    ∃ name rest, t = name ++ ';' :: rest ∧ (∀ c ∈ name, isName c) ∧
      ∀ other, OpensMarkup '&' (name ++ ';' :: other) := by
  have word (c : Char) (part : Text.isWord c) : isName c := by simp [isName, part]
  cases opens with
  | decimal digits rest some all =>
      refine ⟨'#' :: digits, rest, rfl, ?_, fun other => .decimal digits other some all⟩
      intro c member
      rcases List.mem_cons.mp member with rfl | later
      · rfl
      · exact word c (digit_word c (all c later))
  | hex x digits rest sign some all =>
      refine ⟨'#' :: x :: digits, rest, rfl, ?_, fun other => .hex x digits other sign some all⟩
      intro c member
      rcases List.mem_cons.mp member with rfl | next
      · rfl
      · rcases List.mem_cons.mp next with rfl | later
        · rcases sign with rfl | rfl <;> decide
        · exact word c (hex_word c (all c later))
  | name name rest some all =>
      exact ⟨name, rest, rfl, fun c member => word c (all c member), fun other => .name name other some all⟩

theorem unfinished_name (c : Char) (v next : Chars) (closed : ¬ OpensMarkup c v)
    (opens : OpensMarkup c (v ++ next)) : ∀ d ∈ v, isName d := by
  have known : c = '<' ∨ c = '&' := opens_markup_char c _ ((opens_markup_iff c _).mpr opens)
  rcases known with rfl | rfl
  · cases v with
    | nil => simp
    | cons d v =>
        have here : opensTag (d :: v ++ next) = opensTag (d :: v) := rfl
        rw [← opens_tag_iff, here, opens_tag_iff] at opens
        exact absurd opens closed
  · obtain ⟨name, rest, shape, all, finished⟩ := opens_reference_shape _ opens
    rcases List.append_eq_append_iff.mp shape with ⟨more, whole, -⟩ | ⟨more, whole, later⟩
    · intro d member
      exact all d (whole ▸ List.mem_append_left more member)
    · cases more with
      | nil =>
          rw [List.append_nil] at whole
          exact whole ▸ all
      | cons e more =>
          obtain ⟨rfl, -⟩ := List.cons.inj later
          exact absurd (whole ▸ finished more) closed

-- What decides is the same whether the rest of the text is taken as it is or as it is written.
theorem opens_across (c : Char) (s w next : Chars) (spelled : Spelled inlineSpecial false s w) :
    (¬ OpensMarkup c w ∧ OpensMarkup c (w ++ next)) ↔ '_' ∉ s ∧ ¬ OpensMarkup c s ∧ OpensMarkup c (s ++ next) := by
  constructor
  · rintro ⟨closed, opens⟩
    have all := unfinished_name c w next closed opens
    have unslashed : '\\' ∉ w := fun member => absurd (all '\\' member) (by decide)
    obtain ⟨rfl, plain⟩ := spelled_unslashed inlineSpecial false s w spelled unslashed
    exact ⟨fun member => plain '_' member (by decide), closed, opens⟩
  · rintro ⟨free, closed, opens⟩
    rw [spelled_name s w spelled (unfinished_name c s next closed opens) free]
    exact ⟨closed, opens⟩

theorem crossing_cons (c : Char) (s next : Chars) :
    Crossing (c :: s) next ↔ ('_' ∉ s ∧ ¬ OpensMarkup c s ∧ OpensMarkup c (s ++ next)) ∨ Crossing s next := by
  constructor
  · rintro ⟨u, d, v, place, free, closed, opens⟩
    cases u with
    | nil =>
        obtain ⟨rfl, rfl⟩ := List.cons.inj place
        exact .inl ⟨free, closed, opens⟩
    | cons e u =>
        obtain ⟨-, rest⟩ := List.cons.inj place
        exact .inr ⟨u, d, v, rest, free, closed, opens⟩
  · rintro (⟨free, closed, opens⟩ | ⟨u, d, v, rfl, free, closed, opens⟩)
    · exact ⟨[], c, s, rfl, free, closed, opens⟩
    · exact ⟨c :: u, d, v, rfl, free, closed, opens⟩

theorem exposed_spelled (start : Bool) (s w next : Chars) (spelled : Spelled inlineSpecial start s w) :
    exposedFrom false (w ++ next) = true ↔ Crossing s next ∨ exposedFrom false next = true := by
  induction spelled with
  | nil =>
      have none : ¬ Crossing [] next := by
        rintro ⟨u, c, v, place, -⟩
        simp at place
      simp [none]
  | plain start c s w common closed rest ih =>
      have even : (c == '\\') = false := by
        simpa using fun same : c = '\\' => common (same ▸ by decide)
      have shut : ¬ OpensMarkup c w := by simp [← opens_markup_iff, closed]
      have here : opensMarkup c (w ++ next) = true ↔ '_' ∉ s ∧ ¬ OpensMarkup c s ∧ OpensMarkup c (s ++ next) := by
        by_cases opener : c = '<' ∨ c = '&'
        · have after : numbering start c = false := by
            have angle : Text.isDecimal '<' = false := by decide
            have ampersand : Text.isDecimal '&' = false := by decide
            rcases opener with rfl | rfl <;> simp [numbering, angle, ampersand]
          rw [after] at rest
          rw [← opens_across c s w next rest, opens_markup_iff]
          simp [shut]
        · have never (t : Chars) : ¬ OpensMarkup c t := by
            intro opens
            exact opener (opens_markup_char c t ((opens_markup_iff c t).mpr opens))
          simp [opens_markup_iff, never]
      rw [crossing_cons, or_assoc, ← ih, ← here, List.cons_append, exposedFrom, even]
      simp
  | slashed start c s w reason rest ih =>
      have never : ¬ ('_' ∉ s ∧ ¬ OpensMarkup c s ∧ OpensMarkup c (s ++ next)) := by
        intro across
        have open_ := ((opens_across c s w next rest).mpr across)
        have known : c = '<' ∨ c = '&' := opens_markup_char c _ ((opens_markup_iff c _).mpr across.2.2)
        rcases reason with listed | opens | ⟨-, listed⟩
        · rcases known with rfl | rfl <;> exact absurd listed (by decide)
        · exact open_.1 ((opens_markup_iff c w).mp opens)
        · rcases known with rfl | rfl <;> exact absurd listed (by decide)
      have skipped : exposedFrom false ('\\' :: c :: (w ++ next)) = exposedFrom false (w ++ next) := by
        simp [exposedFrom, opensMarkup]
      rw [List.cons_append, List.cons_append, skipped, ih, crossing_cons]
      simp [never]

inductive Written : List Chars → List Chars → Prop where
  | nil : Written [] []
  | cons (s ahead : Chars) (texts ws : List Chars) (rest : Written texts ws) :
      Written (s :: texts) (markdown s ahead :: ws)

theorem written_append (a b v w : List Chars) (first : Written a v) (later : Written b w) :
    Written (a ++ b) (v ++ w) := by
  induction first with
  | nil => exact later
  | cons s ahead texts ws _ ih => exact .cons s ahead _ _ ih

theorem written_empty (s ahead : Chars) : markdown s ahead = [] ↔ s = [] := by
  have last := spelled_last inlineSpecial true s _ (markdown_spelled s ahead)
  rw [← List.getLast?_eq_none_iff, last, List.getLast?_eq_none_iff]

theorem written_last (texts ws : List Chars) (written : Written texts ws) :
    ws.flatten.getLast? = texts.flatten.getLast? := by
  induction written with
  | nil => rfl
  | cons s ahead texts ws _ ih =>
      simp [List.getLast?_append, ih, spelled_last inlineSpecial true s _ (markdown_spelled s ahead)]

theorem written_head (texts ws : List Chars) (written : Written texts ws) :
    ws.flatten.head?.any Text.isGap = texts.flatten.head?.any Text.isGap := by
  induction written with
  | nil => rfl
  | cons s ahead texts ws _ ih =>
      have head := spelled_head true s _ (markdown_spelled s ahead)
      have empty := written_empty s ahead
      rw [List.flatten_cons, List.flatten_cons]
      cases s with
      | nil => simpa [empty.mpr rfl] using ih
      | cons c s =>
          cases shape : markdown (c :: s) ahead with
          | nil => cases empty.mp shape
          | cons d w => simpa [shape] using head

-- What stands ahead decides about a leading period only, and neither it nor a backslash tells anything.
theorem telling_markdown (s ahead next other : Chars) (same : telling next = telling other) :
    telling (markdown s ahead ++ next) = telling (markdown s [] ++ other) := by
  have plain : markdown s [] = onLines escapeLine (escapeHtml (Text.backslash inlineSpecial s)) := rfl
  rw [plain, markdown, escapeSplitMarker]
  generalize onLines escapeLine (escapeHtml (Text.backslash inlineSpecial s)) = written
  split
  · rename_i found
    obtain ⟨rest, rfl⟩ := marker_end_period written ((Bool.and_eq_true _ _).mp found).2
    rw [List.cons_append, telling_stop '\\' _ (by decide), List.cons_append, telling_stop '.' _ (by decide)]
  · exact telling_append written next other same

theorem telling_written (texts ws : List Chars) (written : Written texts ws) :
    telling ws.flatten = telling (texts.map fun t => markdown t []).flatten := by
  induction written with
  | nil => rfl
  | cons s ahead texts ws _ ih =>
      rw [List.map_cons, List.flatten_cons, List.flatten_cons]
      exact telling_markdown s ahead _ _ ih

theorem crossing_telling (s next other : Chars) (same : telling next = telling other) :
    Crossing s next ↔ Crossing s other := by
  have opens (c : Char) (v : Chars) : OpensMarkup c (v ++ next) ↔ OpensMarkup c (v ++ other) := by
    rw [← opens_markup_iff, ← opens_markup_iff, opens_markup_telling c _ _ (telling_append v next other same)]
  simp [Crossing, opens]

theorem crosses_cons (s : Chars) (texts : List Chars) :
    Crosses (s :: texts) ↔ Crossing s (texts.map fun t => markdown t []).flatten ∨ Crosses texts := by
  constructor
  · rintro ⟨front, t, back, place, crossing⟩
    cases front with
    | nil =>
        obtain ⟨rfl, rfl⟩ := List.cons.inj place
        exact .inl crossing
    | cons u front =>
        obtain ⟨-, rest⟩ := List.cons.inj place
        exact .inr ⟨front, t, back, rest, crossing⟩
  · rintro (crossing | ⟨front, t, back, rfl, crossing⟩)
    · exact ⟨[], s, texts, rfl, crossing⟩
    · exact ⟨s :: front, t, back, rfl, crossing⟩

theorem written_exposes (texts ws : List Chars) (written : Written texts ws) :
    exposedFrom false ws.flatten = true ↔ Crosses texts := by
  induction written with
  | nil =>
      have none : ¬ Crosses [] := by
        rintro ⟨front, s, back, place, -⟩
        simp at place
      simpa [exposedFrom] using none
  | cons s ahead texts ws rest ih =>
      rw [List.flatten_cons, exposed_spelled true s _ _ (markdown_spelled s ahead), crosses_cons, ih,
        crossing_telling s _ _ (telling_written texts ws rest)]

end Downmark.Escape
