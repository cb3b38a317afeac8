import SchemaClasses.Proofs.Output.Filling

set_option autoImplicit false

/-!
Rendering against the substitution of all values at once. The values go in one after the other, so a later
placeholder is also filled in where an earlier value has brought it about, and just then the two differ
(`simultaneous_iff`).
-/

namespace SchemaClasses

namespace Part

variable {p q : Placeholder} {found kept : List Part} {values : Placeholder → Text}

/-- The second parts are the first ones, with some of the placeholders as signs only. -/
inductive Forgets : List Part → List Part → Prop where
  | nil : Forgets [] []
  | same (part : Part) {found kept : List Part} (later : Forgets found kept) :
      Forgets (part :: found) (part :: kept)
  | spelled (p : Placeholder) {found kept : List Part} (later : Forgets found kept) :
      Forgets (hole p :: found) (p.text.map sign ++ kept)

theorem exists_signs {s rest : Text} {parts : List Part} (same : source parts = s ++ rest)
    (passed : ∀ p : Placeholder, ¬ Text.StartsWithin p.text s rest) :
    ∃ later, parts = s.map sign ++ later ∧ source later = rest := by
  induction s generalizing parts with
  | nil => exact ⟨parts, rfl, same⟩
  | cons c s ih =>
    rcases parts with _ | ⟨d | q, parts⟩
    · cases same
    · obtain ⟨rfl, next⟩ := List.cons.inj same
      obtain ⟨later, rfl, source⟩ := ih next fun p within => passed p (within.cons d)
      exact ⟨later, rfl, source⟩
    · have starts : q.text <+: c :: s ++ rest := same ▸ List.prefix_append _ _
      exact absurd ⟨c :: s, List.suffix_rfl, by simp, starts⟩ (passed q)

theorem forgets_cut {s : Text} {parts : List Part} (same : source parts = s) :
    Forgets (cut s) parts := by
  induction s using Text.placeholder_induction generalizing parts with
  | nil =>
    rcases parts with _ | ⟨c | q, parts⟩
    · exact .nil
    · cases same
    · exact absurd (List.append_eq_nil_iff.mp same).1 q.text_ne_nil
  | hole p rest ih =>
    rw [cut_append]
    rcases parts with _ | ⟨c | q, parts⟩
    · exact absurd (List.append_eq_nil_iff.mp same.symm).1 p.text_ne_nil
    · obtain ⟨d, tail, split⟩ := List.exists_cons_of_ne_nil p.text_ne_nil
      rw [split, List.cons_append] at same
      obtain ⟨rfl, next⟩ := List.cons.inj same
      obtain ⟨later, rfl, source⟩ := exists_signs next fun q => Placeholder.passed_within split rest
      have spelled := Forgets.spelled p (ih source)
      rwa [split] at spelled
    · have starts : q.text <+: p.text ++ rest := same ▸ List.prefix_append _ _
      obtain ⟨-, rfl⟩ := Placeholder.eq_of_starts List.suffix_rfl p.text_ne_nil starts
      exact .same _ (ih (List.append_cancel_left same))
  | sign c rest none ih =>
    rw [cut_cons none]
    rcases parts with _ | ⟨d | q, parts⟩
    · cases same
    · obtain ⟨rfl, next⟩ := List.cons.inj same
      exact .same _ (ih next)
    · exact absurd (same ▸ List.prefix_append _ _) (none q)

theorem Forgets.count_le (forgets : Forgets found kept) (p : Placeholder) :
    kept.count (hole p) ≤ found.count (hole p) := by
  induction forgets with
  | nil => exact Nat.le_refl 0
  | same part later ih =>
    rw [List.count_cons, List.count_cons]
    omega
  | spelled q later ih =>
    rw [List.count_append, count_map_sign, List.count_cons]
    omega

/-- No placeholder but this one is forgotten, unless its value is its own spelling. -/
def OnlyForgets (p : Placeholder) (values : Placeholder → Text) (found kept : List Part) : Prop :=
  ∀ q ≠ p, values q = q.text ∨ found.count (hole q) = kept.count (hole q)

theorem OnlyForgets.later {part : Part}
    (only : OnlyForgets p values (part :: found) (part :: kept)) : OnlyForgets p values found kept :=
  fun q other => (only q other).imp_right fun same => by
    rw [List.count_cons, List.count_cons] at same
    exact Nat.add_right_cancel same

theorem OnlyForgets.spelled (forgets : Forgets found kept)
    (only : OnlyForgets p values (hole q :: found) (q.text.map sign ++ kept)) :
    (q ≠ p → values q = q.text) ∧ OnlyForgets p values found kept := by
  have less := forgets.count_le q
  have spelled (other : q ≠ p) : values q = q.text := by
    refine (only q other).resolve_right fun same => ?_
    rw [List.count_cons_self, List.count_append, count_map_sign] at same
    omega
  refine ⟨spelled, fun r other => ?_⟩
  by_cases here : r = q
  · exact .inl (here ▸ spelled (here ▸ other))
  · refine (only r other).imp_right fun same => ?_
    rwa [List.count_cons_of_ne (by simp [Ne.symm here]), List.count_append, count_map_sign,
      Nat.zero_add] at same

theorem Forgets.exists_lengths (forgets : Forgets found kept)
    (only : OnlyForgets p values found kept) :
    ∃ forgotten, found.count (hole p) = kept.count (hole p) + forgotten ∧
      (write values found).length + forgotten * p.text.length =
        (write values kept).length + forgotten * (values p).length := by
  induction forgets with
  | nil => exact ⟨0, rfl, by simp⟩
  | same part later ih =>
    obtain ⟨forgotten, counts, lengths⟩ := ih only.later
    refine ⟨forgotten, ?_, ?_⟩
    · rw [List.count_cons, List.count_cons, counts]
      omega
    · rw [write_cons, write_cons, List.length_append, List.length_append]
      omega
  | spelled q later ih =>
    obtain ⟨spelled, rest⟩ := only.spelled later
    obtain ⟨forgotten, counts, lengths⟩ := ih rest
    rw [List.count_append, count_map_sign, write_cons, write_append, write_signs, List.length_append,
      List.length_append, text]
    by_cases here : q = p
    · refine ⟨forgotten + 1, ?_, ?_⟩
      · rw [here, List.count_cons_self, counts]
        omega
      · rw [here, Nat.succ_mul, Nat.succ_mul]
        omega
    · refine ⟨forgotten, ?_, ?_⟩
      · rw [List.count_cons_of_ne (by simp [here]), counts]
        omega
      · rw [spelled here]
        omega

theorem Forgets.count_eq_or (forgets : Forgets found kept) (only : OnlyForgets p values found kept)
    (length : (values p).length = p.text.length) (same : write values found = write values kept) :
    found.count (hole p) = kept.count (hole p) ∨ values p = p.text := by
  induction forgets with
  | nil => exact .inl rfl
  | same part later ih =>
    rw [write_cons, write_cons] at same
    refine (ih only.later (List.append_cancel_left same)).imp_left fun counts => ?_
    rw [List.count_cons, List.count_cons, counts]
  | spelled q later ih =>
    obtain ⟨spelled, rest⟩ := only.spelled later
    rw [write_cons, write_append, write_signs, text] at same
    by_cases here : q = p
    · exact .inr (List.append_inj_left (here ▸ same) length)
    · rw [spelled here] at same
      refine (ih rest (List.append_cancel_left same)).imp_left fun counts => ?_
      rw [List.count_cons_of_ne (by simp [here]), List.count_append, count_map_sign, counts, Nat.zero_add]

theorem Forgets.write_eq (forgets : Forgets found kept) (only : OnlyForgets p values found kept)
    (same : write values found = write values kept) :
    values p = p.text ∨ found.count (hole p) = kept.count (hole p) := by
  obtain ⟨forgotten, counts, lengths⟩ := forgets.exists_lengths only
  rw [same, Nat.add_left_cancel_iff] at lengths
  rcases Nat.eq_zero_or_pos forgotten with none | some
  · exact .inr (by omega)
  · exact (forgets.count_eq_or only (Nat.eq_of_mul_eq_mul_left some lengths).symm same).symm

end Part

namespace Template

open SchemaClasses.Part

def values (namespaceName : Text) (block : ClassBlock) : Placeholder → Text
  | .namespaceName => namespaceName
  | .className => block.name
  | .properties => block.properties.flatMap assignment

def substitute (template : Template) (namespaceName : Text) (block : ClassBlock) : Text :=
  write (values namespaceName block) (cut template.text)

def withNamespace (template : Template) (namespaceName : Text) : Text :=
  fill .namespaceName namespaceName template.text

def withName (template : Template) (namespaceName name : Text) : Text :=
  fill .className name (template.withNamespace namespaceName)

/-- A text has a placeholder as often as the template, so that no value has brought it about. -/
def Keeps (template : Template) (p : Placeholder) (text : Text) : Prop :=
  Text.occurrences p.text text = Text.occurrences p.text template.text

theorem render_eq (template : Template) (namespaceName : Text) (block : ClassBlock) :
    template.render namespaceName block =
      fill .properties (block.properties.flatMap assignment)
        (template.withName namespaceName block.name) := rfl

def named (template : Template) (namespaceName name : Text) : List Part :=
  inserted .className name (inserted .namespaceName namespaceName (cut template.text))

theorem write_named (template : Template) (namespaceName : Text) (block : ClassBlock) :
    source (inserted .properties (block.properties.flatMap assignment)
      (template.named namespaceName block.name)) = template.substitute namespaceName block := by
  rw [named, source, write_inserted, write_inserted, write_inserted, substitute]
  congr 1
  funext p
  cases p <;> rfl

theorem count_named (template : Template) (namespaceName name : Text) {p : Placeholder}
    (noName : p ≠ .className) (other : p ≠ .namespaceName) :
    (template.named namespaceName name).count (hole p) = Text.occurrences p.text template.text := by
  rw [named, count_inserted noName, count_inserted other, occurrences_text]

variable {template : Template} {namespaceName name : Text}

theorem withNamespace_eq (template : Template) (namespaceName : Text) :
    template.withNamespace namespaceName =
      source (inserted .namespaceName namespaceName (cut template.text)) := fill_eq _ _ _

theorem keeps_className_iff : template.Keeps .className (template.withNamespace namespaceName) ↔
    accidents .className (inserted .namespaceName namespaceName (cut template.text)) = 0 := by
  rw [Keeps, withNamespace_eq, occurrences_source, count_inserted (by decide), occurrences_text]
  omega

theorem keeps_properties_iff
    (same : template.withName namespaceName name = source (template.named namespaceName name)) :
    template.Keeps .properties (template.withName namespaceName name) ↔
      accidents .properties (template.named namespaceName name) = 0 := by
  rw [Keeps, same, occurrences_source, count_named _ _ _ (by decide) (by decide)]
  omega

theorem withName_eq (kept : name = Placeholder.className.text ∨
      template.Keeps .className (template.withNamespace namespaceName)) :
    template.withName namespaceName name = source (template.named namespaceName name) := by
  rcases kept with rfl | kept
  · rw [named, source_inserted_text, withName, fill_eq, source_inserted_text, source_cut, withNamespace_eq]
  · rw [withName, withNamespace_eq, fill_source name (keeps_className_iff.mp kept), named]

theorem render_eq_substitute {block : ClassBlock} (first : block.name = Placeholder.className.text ∨
      template.Keeps .className (template.withNamespace namespaceName))
    (second : template.Keeps .properties (template.withName namespaceName block.name)) :
    template.render namespaceName block = template.substitute namespaceName block := by
  have parts := withName_eq first
  rw [render_eq, parts, fill_source _ ((keeps_properties_iff parts).mp second), write_named]

theorem length_assignments : (List.flatMap assignment []).length = 0 ∧
    ([[]].flatMap assignment).length = 10 ∧
    (["Id".toList].flatMap assignment).length = Placeholder.properties.text.length := by decide

theorem keeps_properties (simultaneous : ∀ properties, template.render namespaceName ⟨name, properties, 0⟩ =
      template.substitute namespaceName ⟨name, properties, 0⟩) :
    template.Keeps .properties (template.withName namespaceName name) := by
  have counts : (template.named namespaceName name).count (hole .properties) = _ :=
    count_named _ _ _ (by decide) (by decide)
  -- The length of the result goes with the length of the assignments, as often as these are written.
  have lengths (properties : List Text) :=
    And.intro (length_fill .properties (properties.flatMap assignment) (template.withName namespaceName name))
      (length_inserted .properties (properties.flatMap assignment) (template.named namespaceName name))
  have equal (properties : List Text) := congrArg List.length (simultaneous properties)
  simp only [render_eq, ← write_named] at equal
  obtain ⟨empty, unnamed, -⟩ := length_assignments
  have first := lengths []
  have second := lengths [[]]
  rw [equal, counts, empty] at first
  rw [equal, counts, unnamed] at second
  rw [Keeps]
  omega

theorem keeps_className (simultaneous : template.render namespaceName ⟨name, [], 0⟩ =
      template.substitute namespaceName ⟨name, [], 0⟩)
    (kept : template.Keeps .properties (template.withName namespaceName name)) :
    name = Placeholder.className.text ∨
      template.Keeps .className (template.withNamespace namespaceName) := by
  let found := cut (template.withNamespace namespaceName)
  let meant := inserted .namespaceName namespaceName (cut template.text)
  have forgets : Forgets found meant := forgets_cut (withNamespace_eq _ _).symm
  have cutName : template.withName namespaceName name = source (inserted .className name found) :=
    fill_eq _ _ _
  have less := forgets.count_le .properties
  have meantCount (p : Placeholder) (other : p ≠ .namespaceName) :
      meant.count (hole p) = Text.occurrences p.text template.text := by
    rw [count_inserted other, occurrences_text]
  rw [Keeps, cutName, occurrences_source, count_inserted (by decide)] at kept
  have properties := meantCount .properties (by decide)
  have none : accidents .properties (inserted .className name found) = 0 := by omega
  rw [render_eq, ← write_named, cutName, fill_source _ none, named, source, source, write_inserted,
    write_inserted, write_inserted, write_inserted] at simultaneous
  have only : OnlyForgets .className
      (Function.update (Function.update Placeholder.text .properties ([].flatMap assignment)) .className name)
      found meant := by
    intro q other
    cases q with
    | namespaceName => exact .inl rfl
    | className => exact absurd rfl other
    | properties => exact .inr (by omega)
  refine (forgets.write_eq only simultaneous).imp_right fun same => ?_
  rw [Keeps, occurrences_text, same, meantCount _ (by decide)]

theorem absent_of_length_eq {p : Placeholder} {first second s : Text}
    (other : first.length ≠ second.length)
    (same : (fill p first s).length = (fill p second s).length) : Text.contains p.text s = false := by
  have one := length_fill p first s
  have two := length_fill p second s
  rw [same, two, Nat.add_left_cancel_iff] at one
  rw [← Text.occurrences_eq_zero_iff p.text_ne_nil]
  by_contra some
  exact other (Nat.eq_of_mul_eq_mul_left (Nat.pos_of_ne_zero some) one).symm

theorem length_fill_of_length {p : Placeholder} {value : Text} (same : value.length = p.text.length)
    (s : Text) : (fill p value s).length = s.length := by
  have lengths := length_fill p value s
  rw [same] at lengths
  exact Nat.add_right_cancel lengths

/-- Rendering is simultaneous just if no value brings a later placeholder about. A value has no influence just
if its placeholder is not in the text when its turn comes. -/
theorem simultaneous_iff (template : Template) (namespaceName name : Text) :
    ((∀ properties line, template.render namespaceName ⟨name, properties, line⟩ =
        template.substitute namespaceName ⟨name, properties, line⟩) ↔
      (name = Placeholder.className.text ∨
          template.Keeps .className (template.withNamespace namespaceName)) ∧
        template.Keeps .properties (template.withName namespaceName name)) ∧
    (.namespaceName ∈ template.missing ↔
      ∀ block first second, template.render first block = template.render second block) ∧
    (Text.contains Placeholder.className.text (template.withNamespace namespaceName) = false ↔
      ∀ properties line first second, template.render namespaceName ⟨first, properties, line⟩ =
        template.render namespaceName ⟨second, properties, line⟩) ∧
    (Text.contains Placeholder.properties.text (template.withName namespaceName name) = false ↔
      ∀ line first second, template.render namespaceName ⟨name, first, line⟩ =
        template.render namespaceName ⟨name, second, line⟩) := by
  have missing_iff : .namespaceName ∈ template.missing ↔
      Text.contains Placeholder.namespaceName.text template.text = false := by
    simp [missing, Placeholder.all]
  obtain ⟨empty, unnamed, short⟩ := length_assignments
  have assigned := length_fill_of_length short
  refine ⟨⟨fun same => ?_, fun ⟨first, second⟩ properties line => render_eq_substitute first second⟩,
    missing_iff.trans ⟨fun absent block first second => ?_, fun fixed => ?_⟩,
    ⟨fun absent properties line first second => ?_, fun fixed => ?_⟩,
    ⟨fun absent line first second => ?_, fun fixed => ?_⟩⟩
  · have kept := keeps_properties fun properties => same properties 0
    exact ⟨keeps_className (same [] 0) kept, kept⟩
  · simp only [render_eq, withName, withNamespace, fill_of_absent absent]
  · have equal := congrArg List.length (fixed ⟨Placeholder.className.text, ["Id".toList], 0⟩ [] ['x'])
    rw [render_eq, render_eq, assigned, assigned, withName, withName, length_fill_of_length rfl,
      length_fill_of_length rfl] at equal
    exact absent_of_length_eq (by decide) equal
  · simp only [render_eq, withName, fill_of_absent absent]
  · have equal := congrArg List.length (fixed ["Id".toList] 0 [] ['x'])
    rw [render_eq, render_eq, assigned, assigned] at equal
    exact absent_of_length_eq (by decide) equal
  · simp only [render_eq, fill_of_absent absent]
  · have equal := congrArg List.length (fixed 0 [] [[]])
    exact absent_of_length_eq (by rw [empty, unnamed]; decide) equal

theorem name_in_place_of_namespace :
    let template : Template := ⟨Placeholder.namespaceName.text⟩
    let namespaceName := Placeholder.className.text
    let block : ClassBlock := ⟨"Widget".toList, [], 1⟩
    template.missing = [.className, .properties] ∧
    template.substitute namespaceName block = namespaceName ∧
    template.render namespaceName block = "Widget".toList ∧
    ¬ ∀ (template : Template) (namespaceName : Text) (block : ClassBlock),
      template.render namespaceName block = template.substitute namespaceName block := by
  intro template namespaceName block
  have rendered : template.render namespaceName block = "Widget".toList := by decide
  have substituted : template.substitute namespaceName block = namespaceName := by decide
  refine ⟨by decide, substituted, rendered, fun simultaneous => ?_⟩
  have same := simultaneous template namespaceName block
  rw [rendered, substituted] at same
  exact absurd same (by decide)

end Template

end SchemaClasses
