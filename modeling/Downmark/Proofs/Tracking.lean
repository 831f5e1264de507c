import Downmark.Proofs.NumberedTable
/-!
Two renderings side by side: one asks for the numbers of targets, and the other one knows them. Main statement:
they stay together from one step to the next, and inside of an element.
-/

set_option autoImplicit false

namespace Downmark.Render

-- Both write the same, something good, and the targets asked for are in order. A failure has its reason in both.
def Tracks (ts : List Target) (asking knowing : Rendering Chars) (own : List Target) (good : Chars → Prop)
    (endless : Prop) : Prop :=
  ∀ seen s s', s.references = .ofTargets seen → Alike s s' → seen ++ own <+: ts →
    (∃ written, asking s = .ok written { s with references := .ofTargets (seen ++ own) } ∧
      knowing s' = .ok written s' ∧ good written) ∨
    (∃ t t', asking s = .error .tooManyDigits t ∧ knowing s' = .error .tooManyDigits t') ∧ endless

theorem opened_references (o : Options) (site : Site) (s : State) (references : Reference.Collector) :
    (opened o site s).references = s.references ∧
      opened o site { s with references } = { opened o site s with references } := by
  rcases counted_tag site.tag with tag | tag | tag | tag | tag | tag | ⟨ul, ol, li, quote, code, pre⟩
  · simp [opened, tag]
  · simp [opened, tag]
  · simp [opened, tag]
  · simp [opened, tag]
  · simp [opened, tag]
  · cases asked : o.preformattedCode <;> simp [opened, tag, asked]
  · simp [opened]

theorem leave_references (o : Options) (site : Site) (s u : State) (left : leave o site s = .ok () u) :
    u.references = s.references := by
  have shut (left : outdent s = .ok () u) : u.references = s.references := by
    obtain ⟨v, w, got, rest⟩ := (bind_ok_iff _ _ _ _ _).mp left
    cases got
    cases open_ : s.indents with
    | nil =>
        rw [open_] at rest
        cases rest
    | cons indent rest_ =>
        rw [open_] at rest
        cases rest
        rfl
  rcases counted_tag site.tag with tag | tag | tag | tag | tag | tag | ⟨ul, ol, li, quote, code, pre⟩
  · simp only [leave, tag] at left
    cases left
    rfl
  · simp only [leave, tag] at left
    cases left
    rfl
  · simp only [leave, tag] at left
    exact shut left
  · simp only [leave, tag] at left
    exact shut left
  · simp only [leave, tag] at left
    cases left
    rfl
  · simp only [leave, tag] at left
    split at left <;> cases left <;> rfl
  · simp only [leave] at left
    cases left
    rfl

theorem enter_references (o : Options) (site : Site) (s u : State) (entered : enter o site s = .ok () u) :
    u.references = s.references := by
  rw [enter_eq] at entered
  split at entered
  · cases entered
  · cases entered
    exact (opened_references o site s s.references).1

section

variable {ts : List Target} {asking knowing : Rendering Chars} {own others : List Target} {good better : Chars → Prop}
  {endless later : Prop}

theorem tracks_weaken (tracks : Tracks ts asking knowing own better endless)
    (enough : ∀ written, better written → good written) (weaker : endless → later) :
    Tracks ts asking knowing own good later := by
  intro seen s s' known alike first
  rcases tracks seen s s' known alike first with ⟨written, asked, knew, fine⟩ | ⟨failed, why⟩
  · exact .inl ⟨written, asked, knew, enough written fine⟩
  · exact .inr ⟨failed, weaker why⟩

-- Work that asks for nothing.
theorem tracks_told
    (told : ∀ s s', Alike s s' → ∃ written, asking s = .ok written s ∧ knowing s' = .ok written s' ∧ good written) :
    Tracks ts asking knowing [] good endless := by
  intro seen s s' known alike _
  obtain ⟨written, asked, knew, fine⟩ := told s s' alike
  refine .inl ⟨written, ?_, knew, fine⟩
  rw [asked, List.append_nil, ← known]

theorem tracks_pure (written : Chars) (fine : good written) :
    Tracks ts (pure written) (pure written) [] good endless :=
  tracks_told fun _ _ _ => ⟨written, rfl, rfl, fine⟩

theorem tracks_bind {askNext knowNext : Chars → Rendering Chars} (first : Tracks ts asking knowing own good endless)
    (next : ∀ written, good written → Tracks ts (askNext written) (knowNext written) others better later) :
    Tracks ts (asking >>= askNext) (knowing >>= knowNext) (own ++ others) better (endless ∨ later) := by
  intro seen s s' known alike whole
  have start : seen ++ own <+: ts := List.IsPrefix.trans ⟨others, by simp⟩ whole
  rcases first seen s s' known alike start with ⟨written, asked, knew, fine⟩ | ⟨⟨t, t', asked, knew⟩, why⟩
  · have rest := next written fine (seen ++ own) { s with references := .ofTargets (seen ++ own) } s' rfl
      ⟨alike.code, alike.preformatted⟩ (by simpa using whole)
    rw [bind_of_ok _ _ s _ written asked, bind_of_ok _ _ s' _ written knew, ← List.append_assoc]
    rcases rest with done | ⟨failed, why⟩
    · exact .inl done
    · exact .inr ⟨failed, .inr why⟩
  · exact .inr ⟨⟨t, t', bind_of_error _ _ s t _ asked, bind_of_error _ _ s' t' _ knew⟩, .inl why⟩

theorem tracks_map (f : Chars → Chars) (first : Tracks ts asking knowing own good endless)
    (fine : ∀ written, good written → better (f written)) :
    Tracks ts (asking >>= fun written => pure (f written)) (knowing >>= fun written => pure (f written)) own better
      endless := by
  have next (written : Chars) (kept : good written) :
      Tracks ts (pure (f written)) (pure (f written)) [] better False := tracks_pure (f written) (fine written kept)
  have both := tracks_bind first next
  rw [List.append_nil] at both
  exact tracks_weaken both (fun _ kept => kept) (by simp)

theorem tracks_get {askNext knowNext : State → Rendering Chars}
    (next : ∀ s s', Alike s s' → Tracks ts (askNext s) (knowNext s') own good endless) :
    Tracks ts (get >>= askNext) (get >>= knowNext) own good endless := by
  intro seen s s' known alike whole
  exact next s s' alike seen s s' known alike whole

theorem tracks_inside (o : Options) (site : Site) (tracks : Tracks ts asking knowing own good endless) :
    Tracks ts (do enter o site; let a ← asking; leave o site; pure a)
      (do enter o site; let a ← knowing; leave o site; pure a) own good
      (needsEndlessMarker site = true ∨ endless) := by
  intro seen s s' known alike whole
  by_cases long : needsEndlessMarker site
  · have refused (s : State) : enter o site s = .error .tooManyDigits s := by rw [enter_eq, if_pos long]
    exact .inr ⟨⟨s, s', bind_of_error _ _ s s _ (refused s), bind_of_error _ _ s' s' _ (refused s')⟩, .inl long⟩
  · have entering (s : State) : enter o site s = .ok () (opened o site s) := by rw [enter_eq, if_neg long]
    rw [bind_of_ok _ _ s _ () (entering s), bind_of_ok _ _ s' _ () (entering s')]
    have inside := tracks seen (opened o site s) (opened o site s')
      ((opened_references o site s s.references).1.trans known) (opened_alike o site s s' alike) whole
    rcases inside with ⟨written, asked, knew, fine⟩ | ⟨⟨t, t', asked, knew⟩, why⟩
    · rw [← (opened_references o site s _).2] at asked
      rw [bind_of_ok _ _ _ _ written asked, bind_of_ok _ _ _ _ written knew,
        bind_of_ok _ _ _ _ () (leave_opened o site _), bind_of_ok _ _ _ _ () (leave_opened o site s')]
      exact .inl ⟨written, rfl, rfl, fine⟩
    · exact .inr ⟨⟨t, t', bind_of_error _ _ _ t _ asked, bind_of_error _ _ _ t' _ knew⟩, .inr why⟩

end

theorem ask_numbers (seen : List Target) (s : State) (known : s.references = .ofTargets seen) (t : Target) :
    Link.ask [] (fun references => references.addNumbered t.1 t.2) s =
      .ok (numberOf (seen ++ [t]) t) { s with references := .ofTargets (seen ++ [t]) } := by
  obtain ⟨added, answered, label, fresh⟩ := Reference.Collector.add_numbered seen t
  refine (bind_ok_iff _ _ _ _ _).mpr ⟨s, s, rfl, ?_⟩
  dsimp only
  rw [known, answered, ← label]
  cases added with
  | renamed other => exact absurd rfl (fresh other)
  | reused | asAsked => rfl

theorem reference_tracks (ts : List Target) (text : Chars) (t : Target) (write : Chars → Chars) (good : Chars → Prop)
    (fine : good (write (suffix (numberOf ts) t))) :
    Tracks ts (Link.referenceSuffix text t.1 t.2 .full >>= fun rest => pure (write rest))
      (pure (write (suffix (numberOf ts) t))) [t] good False := by
  intro seen s s' known _ whole
  obtain ⟨more, whole⟩ := whole
  have number : numberOf ts t = numberOf (seen ++ [t]) t := by
    rw [← whole, number_kept (seen ++ [t]) more t (by simp)]
  have asked : Link.referenceSuffix text t.1 t.2 .full s =
      .ok (suffix (numberOf ts) t) { s with references := .ofTargets (seen ++ [t]) } := by
    unfold Link.referenceSuffix
    rw [if_pos (by simp), bind_of_ok _ _ s _ _ (ask_numbers seen s known t), ← number]
    rfl
  exact .inl ⟨_, bind_of_ok _ _ s _ _ asked, rfl, fine⟩

end Downmark.Render
