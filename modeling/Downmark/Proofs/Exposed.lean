import Downmark.Proofs.Shielded
import Downmark.Proofs.Alike
import Downmark.Render.Walk
/-!
Markup that a text exposes: an angle bracket or an ampersand that opens markup and is not shielded. Going
through a text from the left, one bit is all there is to remember. Main statements: texts that are alike
expose the same, and so does a text that is trimmed.
-/

set_option autoImplicit false

namespace Downmark.Escape

def Exposed (s : Chars) : Prop :=
  ∃ before c after, s = before ++ c :: after ∧ OpensMarkup c after ∧ ¬ Shielded before

-- The flag tells that an odd number of backslashes stands right before the text.
def exposedFrom (odd : Bool) : Chars → Bool
  | [] => false
  | c :: s => (!odd && opensMarkup c s) || exposedFrom (c == '\\' && !odd) s

theorem exposed_from_iff (odd : Bool) (ahead s : Chars) (parity : odd = true ↔ Shielded ahead) :
    exposedFrom odd s = true ↔
      ∃ before c after, s = before ++ c :: after ∧ OpensMarkup c after ∧ ¬ Shielded (ahead ++ before) := by
  induction s generalizing odd ahead with
  | nil => simp [exposedFrom]
  | cons d s ih =>
      have next : (d == '\\' && !odd) = true ↔ Shielded (ahead ++ [d]) := by
        rw [shielded_last, ← parity]
        simp
      have later := ih (d == '\\' && !odd) (ahead ++ [d]) next
      constructor
      · intro exposed
        rcases (Bool.or_eq_true _ _).mp exposed with here | there
        · obtain ⟨even, opens⟩ := (Bool.and_eq_true _ _).mp here
          refine ⟨[], d, s, rfl, (opens_markup_iff d s).mp opens, ?_⟩
          rw [List.append_nil, ← parity]
          simpa using even
        · obtain ⟨before, c, after, rfl, opens, bare⟩ := later.mp there
          exact ⟨d :: before, c, after, rfl, opens, by simpa using bare⟩
      · rintro ⟨before, c, after, place, opens, bare⟩
        rw [exposedFrom, Bool.or_eq_true]
        cases before with
        | nil =>
            obtain ⟨rfl, rfl⟩ := List.cons.inj place
            rw [List.append_nil, ← parity] at bare
            exact .inl (by simp [bare, (opens_markup_iff d s).mpr opens])
        | cons e before =>
            obtain ⟨rfl, rest⟩ := List.cons.inj place
            exact .inr (later.mpr ⟨before, c, after, rest, opens, by simpa using bare⟩)

theorem exposed_iff (s : Chars) : exposedFrom false s = true ↔ Exposed s :=
  exposed_from_iff false [] s (iff_of_false (by simp) shielded_nil)

-- A character that neither opens or shields anything nor tells what something before it opens.
def Quiet (c : Char) : Prop := isTelling c = false ∧ c ≠ '<' ∧ c ≠ '&' ∧ c ≠ '\\'

instance (c : Char) : Decidable (Quiet c) := by
  unfold Quiet
  infer_instance

theorem quiet_closed (c : Char) (s : Chars) (quiet : Quiet c) : opensMarkup c s = false := by
  cases opens : opensMarkup c s with
  | false => rfl
  | true =>
      rcases opens_markup_char c s opens with same | same
      · exact absurd same quiet.2.1
      · exact absurd same quiet.2.2.1

theorem exposed_quiet (odd : Bool) (c : Char) (s : Chars) (quiet : Quiet c) :
    exposedFrom odd (c :: s) = exposedFrom false s := by
  have even : (c == '\\') = false := by simpa using quiet.2.2.2
  rw [exposedFrom, quiet_closed c s quiet, even, Bool.and_false, Bool.false_or, Bool.false_and]

theorem exposed_trim_start (p : Char → Bool) (s : Chars) (quiet : ∀ c, p c → Quiet c) :
    exposedFrom false (Text.trimStart p s) = exposedFrom false s := by
  induction s with
  | nil => rfl
  | cons c s ih =>
      by_cases dropped : p c
      · rw [exposed_quiet false c s (quiet c dropped), ← ih]
        simp [Text.trimStart, dropped]
      · simp [Text.trimStart, dropped]

theorem telling_quiet (s t : Chars) (quiet : ∀ c ∈ t, Quiet c) : telling (s ++ t) = telling s := by
  have silent : telling t = telling [] := by
    cases t with
    | nil => rfl
    | cons c t => exact telling_stop c t (quiet c List.mem_cons_self).1
  have same := telling_append s t [] silent
  rwa [List.append_nil] at same

theorem quiet_hidden (odd : Bool) (t : Chars) (quiet : ∀ c ∈ t, Quiet c) : exposedFrom odd t = false := by
  induction t generalizing odd with
  | nil => rfl
  | cons c t ih =>
      rw [exposed_quiet odd c t (quiet c (List.mem_cons_self))]
      exact ih false (fun d member => quiet d (List.mem_cons_of_mem c member))

theorem exposed_append_quiet (odd : Bool) (s t : Chars) (quiet : ∀ c ∈ t, Quiet c) :
    exposedFrom odd (s ++ t) = exposedFrom odd s := by
  induction s generalizing odd with
  | nil => exact quiet_hidden odd t quiet
  | cons c s ih =>
      rw [List.cons_append, exposedFrom, exposedFrom, ih, opens_markup_telling c _ _ (telling_quiet s t quiet)]

theorem exposed_trim_end (p : Char → Bool) (odd : Bool) (s : Chars) (quiet : ∀ c, p c → Quiet c) :
    exposedFrom odd (Text.trimEnd p s) = exposedFrom odd s := by
  have trailing : ∀ c ∈ Text.ending p s, Quiet c := fun c member => quiet c (Text.ending_all p s c member)
  rw [← exposed_append_quiet odd _ _ trailing, Text.trim_end_ending]

theorem blank_quiet (c : Char) (blank : Text.isBlank c) : Quiet c := by
  let codes : List Nat := [9, 10, 11, 12, 13, 28, 29, 30, 31, 32, 0x85, 0xa0, 0x1680, 0x2000, 0x2001, 0x2002, 0x2003,
    0x2004, 0x2005, 0x2006, 0x2007, 0x2008, 0x2009, 0x200a, 0x2028, 0x2029, 0x202f, 0x205f, 0x3000]
  have known : c.toNat ∈ codes := by
    simp only [Text.isBlank, Bool.or_eq_true, Bool.and_eq_true, decide_eq_true_eq, beq_iff_eq] at blank
    simp only [codes, List.mem_cons, List.not_mem_nil, or_false]
    omega
  have all : ∀ n ∈ codes, Quiet (Char.ofNat n) := by decide +kernel
  have quiet := all c.toNat known
  rwa [Char.ofNat_toNat] at quiet

theorem collapsible_quiet (c : Char) (blank : Whitespace.isCollapsible c) : Quiet c := by
  have listed : c = ' ' ∨ c = '\r' ∨ c = '\n' ∨ c = '\t' := by
    simpa [Whitespace.isCollapsible, or_assoc] using blank
  rcases listed with rfl | rfl | rfl | rfl <;> decide

theorem telling_squeeze (s : Chars) : telling (Whitespace.squeezeFrom false s) = telling s := by
  induction s with
  | nil => rfl
  | cons c s ih =>
      by_cases blank : Whitespace.isCollapsible c
      · rw [Whitespace.squeeze_from_blank false c s blank, telling_stop c s (collapsible_quiet c blank).1]
        exact telling_stop ' ' _ (by decide)
      · rw [Whitespace.squeeze_from_solid false c s (by simpa using blank)]
        exact telling_same c _ _ ih

-- A space that is dropped follows white space, so no backslash stands before it.
theorem exposed_squeeze (odd inRun : Bool) (s : Chars) (even : inRun = true → odd = false) :
    exposedFrom odd (Whitespace.squeezeFrom inRun s) = exposedFrom odd s := by
  induction s generalizing odd inRun with
  | nil => rfl
  | cons c s ih =>
      by_cases blank : Whitespace.isCollapsible c
      · have quiet := collapsible_quiet c blank
        rw [Whitespace.squeeze_from_blank inRun c s blank, exposed_quiet odd c s quiet]
        cases inRun with
        | false =>
            have space : Quiet ' ' := by decide
            simpa [exposed_quiet odd ' ' _ space] using ih false true (fun _ => rfl)
        | true =>
            obtain rfl := even rfl
            exact ih false true (fun _ => rfl)
      · rw [Whitespace.squeeze_from_solid inRun c s (by simpa using blank), exposedFrom, exposedFrom,
          ih _ false (fun run => by cases run), opens_markup_telling c _ _ (telling_squeeze s)]

theorem exposed_alike (a b : Chars) (same : Whitespace.Alike a b) : exposedFrom false a = exposedFrom false b := by
  rw [← exposed_squeeze false false a (fun run => by cases run),
    ← exposed_squeeze false false b (fun run => by cases run), show Whitespace.squeezeFrom false a = _ from same]
  rfl

theorem exposed_prepend_quiet (t s : Chars) (quiet : ∀ c ∈ t, Quiet c) :
    exposedFrom false (t ++ s) = exposedFrom false s := by
  induction t with
  | nil => rfl
  | cons c t ih =>
      rw [List.cons_append, exposed_quiet false c _ (quiet c List.mem_cons_self)]
      exact ih (fun d member => quiet d (List.mem_cons_of_mem c member))

theorem newline_quiet (c : Char) (newline : Text.isNewline c) : Quiet c := by
  obtain rfl : c = '\n' := by simpa [Text.isNewline] using newline
  decide

theorem line_start_quiet (c : Char) (found : Render.isLineStart c) : Quiet c := by
  apply collapsible_quiet c
  have listed : (c = '\t' ∨ c = '\r') ∨ c = '\n' := by simpa [Render.isLineStart] using found
  rcases listed with (rfl | rfl) | rfl <;> rfl

theorem exposed_join (next : Chars) : exposedFrom false (join [] next) = exposedFrom false next := by
  have newlines (n : Nat) : ∀ c ∈ List.replicate n '\n', Quiet c :=
    fun c member => newline_quiet c (by simp [Text.isNewline, List.eq_of_mem_replicate member])
  unfold join
  rw [exposed_prepend_quiet]
  · exact exposed_trim_start Text.isNewline next newline_quiet
  · simpa [Text.trimEnd] using newlines _

theorem exposed_apart (s : Chars) : exposedFrom false (Block.apart s) = exposedFrom false s := by
  have newline : Quiet '\n' := by decide
  rw [Block.apart, List.cons_append, List.cons_append, exposed_quiet _ _ _ newline, exposed_quiet _ _ _ newline]
  exact exposed_append_quiet false s _ (by simpa using newline)

theorem exposed_finish (output : Chars) :
    exposedFrom false (Text.trimEnd Text.isBlank (Text.trimStart Render.isLineStart output)) =
      exposedFrom false output := by
  rw [exposed_trim_end Text.isBlank false _ blank_quiet,
    exposed_trim_start Render.isLineStart output line_start_quiet]

end Downmark.Escape
