import Mathlib.Data.List.DropRight
import ReleaseSeal.Proofs.Json.FieldOrder
import ReleaseSeal.Proofs.Json.Scalars

/-!
# Values that were written are read back

A value without reals is read back from its text in any layout, since the layouts differ in nothing but
white space between tokens. What is shown of the text of a part is that it is read as that part whatever
follows it, as long as it does not continue a number.

## Key results

- `items?_intercalate`, `fields?_intercalate`: the parts of a container are read back
- `readsAs_renderAt`: so is a value that stands in a text
- `parse?_write`: and the text of a value
- `parse?_render`: with its fields in order it is read as the same value
-/

namespace ReleaseSeal.Json

/-- No number in a value is a real. -/
inductive IsExact : Json → Prop where
  | null : IsExact null
  | bool (b : Bool) : IsExact (bool b)
  | int (n : Int) : IsExact (int n)
  | text (s : String) : IsExact (text s)
  | array {items : List Json} (hitems : ∀ item ∈ items, IsExact item) : IsExact (array items)
  | object {fields : List (String × Json)} (hfields : ∀ field ∈ fields, IsExact field.2) :
      IsExact (object fields)

/-- A layout indents by white space. -/
def Style.IsBlank : Style → Prop
  | inline => True
  | indented unit => ∀ c ∈ unit, isSpace c = true

/-- A text is read as a value, whatever follows. -/
def ReadsAs (cs : List Char) (v : Json) : Prop :=
  ∀ fuel rest, cs.length ≤ fuel → EndsNumber rest → value? fuel (cs ++ rest) = some (v, rest)

/-- A text is read as a field: its name between quotes, and its value. -/
def ReadsAsField (cs : List Char) (field : String × Json) : Prop :=
  ∃ valueText, cs = quotedText field.1 ++ ':' :: ' ' :: valueText ∧ ReadsAs valueText field.2

theorem IsExact.sorted {v : Json} (h : v.IsExact) : v.sorted.IsExact := by
  induction h with
  | null => exact .null
  | bool b => exact .bool b
  | int n => exact .int n
  | text s => exact .text s
  | array _ ih =>
    rw [sorted_array]
    exact .array (List.forall_mem_map.mpr ih)
  | object _ ih =>
    rw [sorted_object]
    refine .object ?_
    intro field hfield
    obtain ⟨field, hmem, rfl⟩ := mem_sortFields_map.mp hfield
    rw [sortedField_eq]
    exact ih field hmem

variable {fuel level : Nat} {c : Char} {cs blank rest tail : List Char} {v : Json}
  {item : Json} {items : List Json} {field : String × Json} {fields : List (String × Json)}
  {texts : List (List Char)} {style : Style}

/-! ## White space -/

theorem isSpace_iff : isSpace c = true ↔ c = ' ' ∨ c = '\t' ∨ c = '\n' ∨ c = '\r' := by
  simp [isSpace, or_assoc]

theorem skip_append (hblank : ∀ c ∈ blank, isSpace c = true) : skip (blank ++ cs) = skip cs :=
  List.dropWhile_append_of_pos hblank

theorem skip_cons (h : isSpace c = false) : skip (c :: cs) = c :: cs := by
  rw [skip, List.dropWhile_cons_of_neg (by simp [h])]

theorem skip_skip (cs : List Char) : skip (skip cs) = skip cs :=
  List.dropWhile_idempotent _ _

theorem value?_skip (fuel : Nat) (cs : List Char) : value? fuel (skip cs) = value? fuel cs := by
  cases fuel with
  | zero => rfl
  | succ fuel => rw [value?, value?, skip_skip]

theorem items?_skip (fuel : Nat) (acc : List Json) (cs : List Char) :
    items? fuel acc (skip cs) = items? fuel acc cs := by
  cases fuel with
  | zero => rfl
  | succ fuel => rw [items?, items?, value?_skip]

theorem fields?_skip (fuel : Nat) (acc : List (String × Json)) (cs : List Char) :
    fields? fuel acc (skip cs) = fields? fuel acc cs := by
  cases fuel with
  | zero => rfl
  | succ fuel => rw [fields?, fields?, skip_skip]

/-- White space in front of what ends a number ends it as well. -/
theorem endsNumber_append (hblank : ∀ c ∈ blank, isSpace c = true) (hcs : EndsNumber cs) :
    EndsNumber (blank ++ cs) := by
  cases blank with
  | nil => exact hcs
  | cons c blank =>
    intro first hfirst
    obtain rfl : c = first := by simpa using hfirst
    obtain rfl | rfl | rfl | rfl := isSpace_iff.mp (hblank c List.mem_cons_self) <;> decide

theorem endsNumber_cons (hc : c = ',' ∨ c = ']' ∨ c = '\x7d') : EndsNumber (c :: rest) := by
  intro first hfirst
  obtain rfl : c = first := by simpa using hfirst
  obtain rfl | rfl | rfl := hc <;> decide

/-! ## Texts, numbers and words -/

theorem quotedText_append (s : String) :
    quotedText s ++ rest = '"' :: (s.toList.flatMap escapedChar ++ '"' :: rest) := by
  simp [quotedText]

/-- A quoted text is read behind its first quote. -/
theorem textFrom_quotedText (s : String) (hcs : cs = s.toList.flatMap escapedChar ++ '"' :: rest) :
    textFrom (cs.length + 1) [] cs = some (s.toList, rest) := by
  have hfuel : (s.toList.flatMap escapedChar).length < cs.length + 1 := by
    rw [hcs, List.length_append]
    omega
  have hread := @textFrom_flatMap_escapedChar rest s.toList _ [] hfuel
  rwa [← hcs, List.reverse_nil, List.nil_append] at hread

theorem readsAs_quotedText (s : String) : ReadsAs (quotedText s) (text s) := by
  intro fuel rest hfuel _
  obtain _ | fuel := fuel
  · cases hfuel
  · simp only [quotedText_append, value?, skip_cons (c := '"') rfl, textFrom_quotedText s rfl,
      Option.map_some, String.ofList_toList]

/-- A sign or a digit starts a number. -/
theorem value?_number (hc : c = '-' ∨ c.isDigit = true) :
    value? (fuel + 1) (c :: cs) = number? (c :: cs) := by
  have hspace : isSpace c = false := by
    rw [Bool.eq_false_iff]
    intro hspace
    obtain rfl | rfl | rfl | rfl := isSpace_iff.mp hspace <;> exact absurd hc (by decide)
  rw [value?, skip_cons hspace]
  split
  case h_8 => rfl
  all_goals
    -- what else there is starts in another way
    rename_i heq
    cases heq
    try exact absurd hc (by decide)

theorem readsAs_toString (n : Int) : ReadsAs (toString n).toList (int n) := by
  intro fuel rest hfuel hrest
  have hfirst : ∃ c cs, (toString n).toList = c :: cs ∧ (c = '-' ∨ c.isDigit = true) := by
    rw [toList_toString]
    split
    · exact ⟨_, _, rfl, .inl rfl⟩
    · obtain ⟨c, cs, hcs, hdigit⟩ := exists_toDigits n.natAbs
      exact ⟨c, cs, hcs, .inr hdigit⟩
  obtain ⟨c, cs, hcs, hc⟩ := hfirst
  have hnumber := number?_toString n hrest
  rw [hcs] at hnumber hfuel ⊢
  obtain _ | fuel := fuel
  · cases hfuel
  · rw [List.cons_append, value?_number hc]
    exact hnumber

theorem readsAs_null : ReadsAs ['n', 'u', 'l', 'l'] null := by
  intro fuel rest hfuel _
  cases fuel with
  | zero => cases hfuel
  | succ fuel => rfl

theorem readsAs_true : ReadsAs ['t', 'r', 'u', 'e'] (bool true) := by
  intro fuel rest hfuel _
  cases fuel with
  | zero => cases hfuel
  | succ fuel => rfl

theorem readsAs_false : ReadsAs ['f', 'a', 'l', 's', 'e'] (bool false) := by
  intro fuel rest hfuel _
  cases fuel with
  | zero => cases hfuel
  | succ fuel => rfl

/-! ## Containers -/

theorem value?_array {r} (h : items? fuel [] cs = some r) : value? (fuel + 1) ('[' :: cs) = some r := by
  simp only [value?, skip_cons (c := '[') rfl]
  rw [← items?_skip] at h
  split
  · rename_i rest hend
    rw [hend] at h
    -- a closing bracket starts no item
    cases fuel with
    | zero => cases h
    | succ fuel =>
      have hvalue : value? fuel (']' :: rest) = none := by
        cases fuel with
        | zero => rfl
        | succ fuel => rfl
      rw [items?, hvalue] at h
      cases h
  · exact h

theorem value?_object {r} (h : fields? fuel [] cs = some r) :
    value? (fuel + 1) ('\x7b' :: cs) = some r := by
  simp only [value?, skip_cons (c := '\x7b') rfl]
  rw [← fields?_skip] at h
  split
  · rename_i rest hend
    rw [hend] at h
    -- a closing brace starts no name
    cases fuel with
    | zero => cases h
    | succ fuel => cases h
  · exact h

/-- An item is read, and behind a comma the next. -/
theorem items?_comma (hitem : ReadsAs cs item) (hfuel : cs.length ≤ fuel) (hrest : EndsNumber rest)
    (hskip : skip rest = ',' :: tail) (acc : List Json) :
    items? (fuel + 1) acc (cs ++ rest) = items? fuel (item :: acc) tail := by
  simp only [items?, hitem fuel rest hfuel hrest, hskip]

/-- The last item is read. -/
theorem items?_bracket (hitem : ReadsAs cs item) (hfuel : cs.length ≤ fuel) (hrest : EndsNumber rest)
    (hskip : skip rest = ']' :: tail) (acc : List Json) :
    items? (fuel + 1) acc (cs ++ rest) = some (array (acc.reverse ++ [item]), tail) := by
  simp only [items?, hitem fuel rest hfuel hrest, hskip, List.reverse_cons]

theorem setField_of_not_mem {value : Json} {name : String} (h : name ∉ fields.map (·.1)) :
    setField fields name value = fields ++ [(name, value)] := by
  induction fields with
  | nil => rfl
  | cons first fields ih =>
    obtain ⟨other, value⟩ := first
    rw [List.map_cons, List.mem_cons, not_or] at h
    rw [setField, if_neg (Ne.symm h.1), ih h.2, List.cons_append]

/-- The name of a field is read, and its value. -/
theorem fields?_append (hfield : ReadsAsField cs field) (hfuel : cs.length ≤ fuel)
    (hrest : EndsNumber rest) :
    ∃ named, cs ++ rest = '"' :: named ∧ ∃ behind,
      textFrom (named.length + 1) [] named = some (field.1.toList, ':' :: behind) ∧
        value? fuel behind = some (field.2, rest) := by
  obtain ⟨valueText, rfl, hvalue⟩ := hfield
  have hvalueFuel : valueText.length ≤ fuel := by
    simp only [List.length_append, List.length_cons] at hfuel
    omega
  have hread : value? fuel (' ' :: (valueText ++ rest)) = some (field.2, rest) := by
    rw [← value?_skip, ← List.singleton_append, skip_append (by simp [isSpace]), value?_skip]
    exact hvalue fuel rest hvalueFuel hrest
  rw [List.append_assoc, quotedText_append]
  exact ⟨_, rfl, _, textFrom_quotedText field.1 rfl, hread⟩

/-- A field is read, and behind a comma the next. -/
theorem fields?_comma (hfield : ReadsAsField cs field) (hfuel : cs.length ≤ fuel)
    (hrest : EndsNumber rest) (hskip : skip rest = ',' :: tail) {acc : List (String × Json)}
    (hnew : field.1 ∉ acc.map (·.1)) :
    fields? (fuel + 1) acc (cs ++ rest) = fields? fuel (acc ++ [field]) tail := by
  obtain ⟨named, hcs, behind, hname, hvalue⟩ := fields?_append hfield hfuel hrest
  simp only [hcs, fields?, skip_cons (c := '"') rfl, skip_cons (c := ':') rfl, hname, hvalue, hskip,
    String.ofList_toList, setField_of_not_mem hnew]

/-- The last field is read. -/
theorem fields?_brace (hfield : ReadsAsField cs field) (hfuel : cs.length ≤ fuel)
    (hrest : EndsNumber rest) (hskip : skip rest = '\x7d' :: tail) {acc : List (String × Json)}
    (hnew : field.1 ∉ acc.map (·.1)) :
    fields? (fuel + 1) acc (cs ++ rest) = some (object (acc ++ [field]), tail) := by
  obtain ⟨named, hcs, behind, hname, hvalue⟩ := fields?_append hfield hfuel hrest
  simp only [hcs, fields?, skip_cons (c := '"') rfl, skip_cons (c := ':') rfl, hname, hvalue, hskip,
    String.ofList_toList, setField_of_not_mem hnew]

/-- The items of an array are read back. -/
theorem items?_intercalate {between behind : List Char}
    (hbetween : ∀ c ∈ between, isSpace c = true) (hbehind : ∀ c ∈ behind, isSpace c = true)
    (hitems : List.Forall₂ ReadsAs texts items) (hne : texts ≠ []) (acc : List Json)
    (hfuel : ((',' :: between).intercalate texts).length < fuel) :
    items? fuel acc ((',' :: between).intercalate texts ++ (behind ++ ']' :: rest)) =
      some (array (acc.reverse ++ items), rest) := by
  -- each step of the reader takes an item, and the characters of the item pay for it
  induction hitems generalizing fuel acc with
  | nil => exact absurd rfl hne
  | @cons text item texts items hitem hitems ih =>
    obtain _ | fuel := fuel
    · cases hfuel
    cases hitems with
    | nil =>
      rw [List.intercalate_singleton] at hfuel ⊢
      apply items?_bracket hitem (Nat.le_of_lt_succ hfuel)
        (endsNumber_append hbehind (endsNumber_cons (by simp)))
      rw [skip_append hbehind, skip_cons rfl]
    | cons hnext hitems =>
      rw [List.intercalate_cons_cons] at hfuel ⊢
      simp only [List.length_append, List.length_cons] at hfuel
      simp only [List.append_assoc, List.cons_append]
      rw [items?_comma hitem (by omega) (endsNumber_cons (by simp)) (skip_cons rfl), ← items?_skip,
        skip_append hbetween, items?_skip, ih (by simp) _ (by omega), List.reverse_cons,
        List.append_assoc, List.singleton_append]

/-- The fields of an object are read back. -/
theorem fields?_intercalate {between behind : List Char}
    (hbetween : ∀ c ∈ between, isSpace c = true) (hbehind : ∀ c ∈ behind, isSpace c = true)
    (hfields : List.Forall₂ ReadsAsField texts fields) (hne : texts ≠ []) (acc : List (String × Json))
    (hnames : ((acc ++ fields).map (·.1)).Nodup)
    (hfuel : ((',' :: between).intercalate texts).length < fuel) :
    fields? fuel acc ((',' :: between).intercalate texts ++ (behind ++ '\x7d' :: rest)) =
      some (object (acc ++ fields), rest) := by
  induction hfields generalizing fuel acc with
  | nil => exact absurd rfl hne
  | @cons text field texts fields hfield hfields ih =>
    obtain _ | fuel := fuel
    · cases hfuel
    have hnew : field.1 ∉ acc.map (·.1) := by
      rw [List.map_append, List.nodup_append] at hnames
      intro hmem
      exact hnames.2.2 field.1 hmem field.1 (by simp) rfl
    cases hfields with
    | nil =>
      rw [List.intercalate_singleton] at hfuel ⊢
      apply fields?_brace hfield (Nat.le_of_lt_succ hfuel)
        (endsNumber_append hbehind (endsNumber_cons (by simp))) _ hnew
      rw [skip_append hbehind, skip_cons rfl]
    | cons hnext hfields =>
      rw [List.intercalate_cons_cons] at hfuel ⊢
      simp only [List.length_append, List.length_cons] at hfuel
      simp only [List.append_assoc, List.cons_append]
      rw [fields?_comma hfield (by omega) (endsNumber_cons (by simp)) (skip_cons rfl) hnew,
        ← fields?_skip, skip_append hbetween, fields?_skip, ih (by simp) _ (by simpa using hnames)
          (by omega), List.append_assoc, List.singleton_append]

/-! ## Layouts -/

theorem isSpace_lineBreak (h : style.IsBlank) (level : Nat) :
    ∀ c ∈ style.lineBreak level, isSpace c = true := by
  cases style with
  | inline => simp [Style.lineBreak]
  | indented unit =>
    rw [Style.lineBreak, List.forall_mem_cons]
    refine ⟨rfl, fun c hc => ?_⟩
    obtain ⟨line, hline, hc⟩ := List.mem_flatten.mp hc
    rw [List.eq_of_mem_replicate hline] at hc
    exact h c hc

/-- Items are separated by a comma and white space. -/
theorem exists_separator (h : style.IsBlank) (level : Nat) :
    ∃ between, style.separator level = ',' :: between ∧ ∀ c ∈ between, isSpace c = true := by
  cases style with
  | inline => exact ⟨[' '], rfl, by simp [isSpace]⟩
  | indented unit => exact ⟨_, rfl, isSpace_lineBreak h level⟩

/-- A container that is not empty, up to its closing bracket. -/
theorem enclose_append {opening closing : Char} (hne : texts ≠ []) :
    style.enclose level opening closing texts ++ rest =
      opening :: (style.lineBreak (level + 1) ++ ((style.separator (level + 1)).intercalate texts ++
        (style.lineBreak level ++ closing :: rest))) := by
  cases texts with
  | nil => exact absurd rfl hne
  | cons text texts => simp [Style.enclose]

theorem not_length_enclose_le_zero {opening closing : Char} :
    ¬(style.enclose level opening closing texts).length ≤ 0 := by
  cases texts <;> simp [Style.enclose]

theorem length_intercalate_lt {opening closing : Char} (hne : texts ≠ [])
    (hfuel : (style.enclose level opening closing texts).length ≤ fuel + 1) :
    ((style.separator (level + 1)).intercalate texts).length < fuel := by
  have henclose : style.enclose level opening closing texts ++ [] = _ := enclose_append hne
  have hlength := congrArg List.length henclose
  simp only [List.append_nil, List.length_append, List.length_cons] at hlength
  omega

/-- A container is read back by what reads its parts, in any layout. -/
theorem readsAs_enclose {opening closing : Char} {parts? : Nat → List Char → Option (Json × List Char)}
    (hstyle : style.IsBlank) (hskip : ∀ fuel cs, parts? fuel (skip cs) = parts? fuel cs)
    (hopening : ∀ fuel cs r, parts? fuel cs = some r → value? (fuel + 1) (opening :: cs) = some r)
    (hempty : texts = [] → ∀ fuel rest, value? (fuel + 1) (opening :: closing :: rest) = some (v, rest))
    (hparts : texts ≠ [] → ∀ fuel rest between behind, (∀ c ∈ between, isSpace c = true) →
      (∀ c ∈ behind, isSpace c = true) → ((',' :: between).intercalate texts).length < fuel →
      parts? fuel ((',' :: between).intercalate texts ++ (behind ++ closing :: rest)) = some (v, rest)) :
    ReadsAs (style.enclose level opening closing texts) v := by
  intro fuel rest hfuel _
  cases fuel with
  | zero => exact absurd hfuel not_length_enclose_le_zero
  | succ fuel =>
    by_cases hne : texts = []
    · subst hne
      exact hempty rfl fuel rest
    · obtain ⟨between, hseparator, hbetween⟩ := exists_separator hstyle (level + 1)
      have hlength := length_intercalate_lt hne hfuel
      rw [hseparator] at hlength
      rw [enclose_append hne, hseparator]
      apply hopening
      rw [← hskip, skip_append (isSpace_lineBreak hstyle _), hskip]
      exact hparts hne fuel rest between _ hbetween (isSpace_lineBreak hstyle _) hlength

theorem readsAs_array (hstyle : style.IsBlank) (hitems : List.Forall₂ ReadsAs texts items) :
    ReadsAs (style.enclose level '[' ']' texts) (array items) := by
  apply readsAs_enclose hstyle (fun fuel => items?_skip fuel []) fun _ _ _ => value?_array
  · rintro rfl fuel rest
    cases hitems
    simp [value?, skip_cons (c := '[') rfl, skip_cons (c := ']') rfl]
  · intro hne fuel rest between behind hbetween hbehind hlength
    exact items?_intercalate hbetween hbehind hitems hne [] hlength

theorem readsAs_object (hstyle : style.IsBlank) (hfields : List.Forall₂ ReadsAsField texts fields)
    (hnames : (fields.map (·.1)).Nodup) :
    ReadsAs (style.enclose level '\x7b' '\x7d' texts) (object fields) := by
  apply readsAs_enclose hstyle (fun fuel => fields?_skip fuel []) fun _ _ _ => value?_object
  · rintro rfl fuel rest
    cases hfields
    simp [value?, skip_cons (c := '\x7b') rfl, skip_cons (c := '\x7d') rfl]
  · intro hne fuel rest between behind hbetween hbehind hlength
    exact fields?_intercalate hbetween hbehind hfields hne [] hnames hlength

/-! ## Values -/

theorem renderItems_eq_map (items : List Json) :
    renderItems style level items = items.map (renderAt style level) := by
  induction items with
  | nil => rfl
  | cons item items ih => rw [renderItems, ih, List.map_cons]

theorem renderFields_eq_map (fields : List (String × Json)) :
    renderFields style level fields = fields.map (renderField style level) := by
  induction fields with
  | nil => rfl
  | cons field fields ih => rw [renderFields, ih, List.map_cons]

/-- A value that stands in a text is read back. -/
theorem readsAs_renderAt (hstyle : style.IsBlank) (hexact : v.IsExact) (hdistinct : v.IsDistinct)
    (level : Nat) : ReadsAs (renderAt style level v) v := by
  induction hexact generalizing level with
  | null => exact readsAs_null
  | bool b =>
    cases b with
    | true => exact readsAs_true
    | false => exact readsAs_false
  | int n =>
    rw [renderAt]
    exact readsAs_toString n
  | text s =>
    rw [renderAt]
    exact readsAs_quotedText s
  | array _ ih =>
    rw [renderAt, renderItems_eq_map]
    apply readsAs_array hstyle
    rw [List.forall₂_map_left_iff, List.forall₂_same]
    intro item hitem
    exact ih item hitem (hdistinct.of_mem_array item hitem) (level + 1)
  | object _ ih =>
    rw [renderAt, renderFields_eq_map]
    refine readsAs_object hstyle ?_ hdistinct.names
    rw [List.forall₂_map_left_iff, List.forall₂_same]
    rintro ⟨name, value⟩ hfield
    exact ⟨_, rfl, ih _ hfield (hdistinct.of_mem_object _ hfield) (level + 1)⟩

/-- The text of a value is read as that value. -/
theorem parse?_write (hstyle : style.IsBlank) (hexact : v.IsExact) (hdistinct : v.IsDistinct) :
    parse? (write style v) = some v := by
  have hread := readsAs_renderAt hstyle hexact hdistinct 0
    (2 * (renderAt style 0 v).length + 2) [] (by omega) (by simp [EndsNumber])
  rw [List.append_nil] at hread
  simp [parse?, write, hread, skip]

/-- With its fields in order, it is read as the same value. -/
theorem parse?_render (hstyle : style.IsBlank) (hexact : v.IsExact) (hdistinct : v.IsDistinct) :
    parse? (render style v) = some v.sorted := by
  exact parse?_write hstyle hexact.sorted hdistinct.sorted

end ReleaseSeal.Json
