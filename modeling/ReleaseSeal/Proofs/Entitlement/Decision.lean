import Mathlib.Data.List.Forall2
import Mathlib.Data.Set.List
import Mathlib.Order.Bounds.Basic
import ReleaseSeal.Proofs.Entitlement.Policy
import ReleaseSeal.Proofs.Text.Blank

/-!
# The decision of the policy check

The known entitlements that a dictionary declares are looked at in the order of their keys, in two
passes: the first one looks for a forbidden key, the second one for a key without a usage description.
So the check has one of four answers, by what is among the declared keys and whatever their order in the
dictionary is: the sandbox is missing, the least forbidden key is refused, the least key without a
description is refused, or each key that needs a description is permitted with its own.

## Key results

- `HasTextKeys.exists_known`: the known entitlements that are looked at, in order
- `permissions_of_forbidden` / `permissions_of_unexplained` / `permissions_of_explained`: what the two
  passes over them answer
- `check_decides`: when the check has which answer, and what the answer depends on
-/

namespace ReleaseSeal.Entitlement

open Plist (Dict Value)

/-! ## Usage descriptions -/

/-- A usage description stands under a property: a text that is not all white space. -/
def Describes (usage : Dict) (property s : String) : Prop :=
  Dict.getText? usage property = some (.text s) ∧ ∃ c ∈ s.toList, Text.isBlank c = false

/-- The first usage description under some properties, without white space at its ends. -/
def Justifies (usage : Dict) (properties : List String) (justification : String) : Prop :=
  ∃ before property after s, properties = before ++ property :: after ∧
    (∀ earlier ∈ before, ∀ t, ¬Describes usage earlier t) ∧ Describes usage property s ∧
    Text.IsTrimmed Text.isBlank s.toList justification.toList

/-- The usage description under one property, without white space at its ends. -/
def description? (usage : Dict) (property : String) : Option String :=
  match Dict.getText? usage property with
  | some (.text s) => if Text.strip s = "" then none else some (Text.strip s)
  | _ => none

variable {d usage : Dict} {entries : List Entry} {properties : List String}

theorem description?_eq_some_iff {property justification : String} :
    description? usage property = some justification ↔
      ∃ s, Describes usage property s ∧ justification = Text.strip s := by
  have hvisible (s : String) : (∃ c ∈ s.toList, Text.isBlank c = false) ↔ Text.strip s ≠ "" := by
    simp [Text.strip_eq_empty_iff]
  unfold description? Describes
  simp only [hvisible]
  constructor
  · intro h
    split at h
    · rename_i s hs
      split at h
      · exact nomatch h
      · rename_i hne
        exact ⟨s, ⟨hs, hne⟩, (Option.some.inj h).symm⟩
    · exact nomatch h
  · rintro ⟨s, ⟨hs, hne⟩, rfl⟩
    rw [hs]
    exact if_neg hne

theorem description?_eq_none_iff {property : String} :
    description? usage property = none ↔ ∀ s, ¬Describes usage property s := by
  rw [Option.eq_none_iff_forall_ne_some]
  constructor
  · intro h s hs
    exact h _ (description?_eq_some_iff.mpr ⟨s, hs, rfl⟩)
  · intro h justification hsome
    obtain ⟨s, hs, -⟩ := description?_eq_some_iff.mp hsome
    exact h s hs

theorem justification?_eq_findSome? :
    justification? usage properties = properties.findSome? (description? usage) :=
  rfl

/-- The justification is the first description without white space at its ends. -/
theorem justification?_eq_some_iff {justification : String} :
    justification? usage properties = some justification ↔
      Justifies usage properties justification := by
  have htrimmed (s : String) :
      justification = Text.strip s ↔ Text.IsTrimmed Text.isBlank s.toList justification.toList := by
    rw [Text.strip, ← String.toList_inj, String.toList_ofList]
    exact ⟨fun h => h ▸ Text.isTrimmed_trimList .., Text.IsTrimmed.eq_trimList⟩
  simp only [justification?_eq_findSome?, List.findSome?_eq_some_iff, description?_eq_some_iff,
    description?_eq_none_iff, htrimmed]
  constructor
  · rintro ⟨before, property, after, hsplit, ⟨s, hs, hstrip⟩, hbefore⟩
    exact ⟨before, property, after, s, hsplit, hbefore, hs, hstrip⟩
  · rintro ⟨before, property, after, s, hsplit, hbefore, hs, hstrip⟩
    exact ⟨before, property, after, hsplit, ⟨s, hs, hstrip⟩, hbefore⟩

/-- A justification is not empty: something is left of a text that is not all white space. -/
theorem Justifies.ne_empty {justification : String} (h : Justifies usage properties justification) :
    justification ≠ "" := by
  obtain ⟨-, -, -, s, -, -, ⟨-, c, hc, hvisible⟩, htrimmed⟩ := h
  rintro rfl
  rw [htrimmed.eq_nil_iff.mp String.toList_empty c hc] at hvisible
  exact nomatch hvisible

theorem justification?_eq_none_iff :
    justification? usage properties = none ↔
      ∀ property ∈ properties, ∀ s, ¬Describes usage property s := by
  rw [justification?_eq_findSome?, List.findSome?_eq_none_iff]
  exact forall₂_congr fun property _ => description?_eq_none_iff

/-- Descriptions are looked for under the properties only. -/
theorem justification?_congr {usage' : Dict}
    (h : ∀ property ∈ properties, Dict.getText? usage' property = Dict.getText? usage property) :
    justification? usage' properties = justification? usage properties := by
  simp only [justification?_eq_findSome?]
  induction properties with
  | nil => rfl
  | cons property properties ih =>
    obtain ⟨hfirst, hrest⟩ := List.forall_mem_cons.mp h
    rw [List.findSome?_cons, List.findSome?_cons, ih hrest, description?, description?, hfirst]

/-! ## Declared keys by their rules -/

/-- The rule of a key, if it is known. -/
def Catalogue.rule? (k : String) : Option Rule :=
  (Catalogue.find? k).map Entry.rule

/-- The sandbox is required, but not declared true. -/
def LacksSandbox (d : Dict) (requireSandbox : Bool) : Prop :=
  requireSandbox = true ∧ Dict.getText? d appSandbox ≠ some (.bool true)

/-- The declared keys that are forbidden. -/
def forbiddenKeys (d : Dict) : Set String :=
  {k | Declares d k ∧ Catalogue.rule? k = some .forbidden}

/-- The declared keys that need a usage description. -/
def explainedKeys (d : Dict) : Set String :=
  {k | Declares d k ∧ ∃ properties, Catalogue.rule? k = some (.explained properties)}

/-- The declared keys that need a usage description and have none. -/
def unexplainedKeys (d usage : Dict) : Set String :=
  {k | Declares d k ∧ ∃ properties, Catalogue.rule? k = some (.explained properties) ∧
    ∀ property ∈ properties, ∀ s, ¬Describes usage property s}

/-- What is permitted: each declared key that needs a usage description, in ascending order and with
    the first description under one of its properties. -/
structure Grants (d usage : Dict) (ps : List Permission) : Prop where
  sorted : ps.Pairwise fun p q => p.key < q.key
  mem_keys_iff : ∀ k, k ∈ ps.map Permission.key ↔ k ∈ explainedKeys d
  justified : ∀ p ∈ ps, ∃ properties, Catalogue.rule? p.key = some (.explained properties) ∧
    Justifies usage properties p.justification ∧ p.justification ≠ ""

/-- The answers of the check, by what is declared and described. -/
inductive Answers (d usage : Dict) (requireSandbox : Bool) :
    Except CheckError (List Permission) → Prop
  | sandboxRequired : LacksSandbox d requireSandbox →
      Answers d usage requireSandbox (.error (.violation (.sandboxRequired appSandbox)))
  | forbidden {k : String} : ¬LacksSandbox d requireSandbox → IsLeast (forbiddenKeys d) k →
      Answers d usage requireSandbox (.error (.violation (.forbidden k)))
  | unexplained {k : String} {properties : List String} : ¬LacksSandbox d requireSandbox →
      forbiddenKeys d = ∅ → IsLeast (unexplainedKeys d usage) k →
      Catalogue.rule? k = some (.explained properties) →
      Answers d usage requireSandbox (.error (.violation (.missingJustification k properties)))
  | granted {ps : List Permission} : ¬LacksSandbox d requireSandbox → forbiddenKeys d = ∅ →
      unexplainedKeys d usage = ∅ → Grants d usage ps → Answers d usage requireSandbox (.ok ps)

/-! ## The entitlements that are looked at -/

/-- Two lists in strictly ascending order of a key are equal if they have the same items. -/
theorem eq_of_sorted_of_mem_iff {α : Type} {key : α → String} {xs ys : List α}
    (hxs : xs.Pairwise fun a b => key a < key b) (hys : ys.Pairwise fun a b => key a < key b)
    (h : ∀ a, a ∈ xs ↔ a ∈ ys) : xs = ys := by
  have hnodup {zs : List α} (hzs : zs.Pairwise fun a b => key a < key b) : zs.Nodup := by
    refine hzs.imp ?_
    rintro a _ hlt rfl
    exact lt_irrefl _ hlt
  exact List.Perm.eq_of_pairwise (fun a b _ _ hlt hlt' => absurd hlt' (lt_asymm hlt)) hxs hys
    ((List.perm_ext_iff_of_nodup (hnodup hxs) (hnodup hys)).mpr h)

/-- The known entitlements that a dictionary declares, in the order of their keys. -/
structure IsKnownOf (d : Dict) (entries : List Entry) : Prop where
  sorted : entries.Pairwise fun e e' => e.key < e'.key
  mem_iff : ∀ e, e ∈ entries ↔ Declares d e.key ∧ Catalogue.find? e.key = some e

/-- The known entitlements that are looked at are those that are declared, in order. -/
theorem HasTextKeys.exists_known (h : HasTextKeys d) :
    ∃ keys, declaredKeys? d = some keys ∧ IsKnownOf d (known keys) := by
  obtain ⟨keys, hkeys, hmem⟩ := h.exists_declaredKeys?
  refine ⟨keys, hkeys, ?_, fun e => mem_known_iff hmem⟩
  -- the declared keys are distinct texts
  have hdistinct : ((d.filter fun pair => isDeclared pair.2).map (·.1)).Nodup :=
    h.distinct.sublist (List.filter_sublist.map _)
  have htext : (d.filter fun pair => isDeclared pair.2).map (·.1) ∈ Set.range (List.map Value.text) := by
    rw [Set.range_list_map]
    intro key hkey
    obtain ⟨pair, hpair, rfl⟩ := List.mem_map.mp hkey
    obtain ⟨k, hk⟩ := h.text pair (List.mem_filter.mp hpair).1
    exact ⟨k, hk.symm⟩
  obtain ⟨names, hnames⟩ := htext
  rw [← hnames] at hdistinct
  obtain ⟨sorted, hsorted, hpairwise, -⟩ := Plist.pairwise_inKeyOrder_text hdistinct.of_map
  obtain rfl : keys = sorted.map Value.text := by
    rw [declaredKeys?, ← hnames, Plist.sortKeys?, hsorted] at hkeys
    split at hkeys
    · exact (Option.some.inj hkeys).symm
    · cases hkeys
  have hknown : known (sorted.map Value.text) = sorted.filterMap Catalogue.find? := by
    simp [known, List.filterMap_map, textOf?]
  rw [hknown]
  refine hpairwise.filterMap _ fun k k' hlt e he e' he' => ?_
  rwa [Catalogue.key_of_find? he, Catalogue.key_of_find? he']

namespace IsKnownOf

/-- The entitlements with a rule have the declared keys with that rule. -/
theorem exists_rule_iff (h : IsKnownOf d entries) {k : String} {r : Rule} :
    (∃ e ∈ entries, e.key = k ∧ e.rule = r) ↔ Declares d k ∧ Catalogue.rule? k = some r := by
  simp only [h.mem_iff, Catalogue.rule?, Option.map_eq_some_iff]
  constructor
  · rintro ⟨e, ⟨hdeclares, hfind⟩, rfl, rfl⟩
    exact ⟨hdeclares, e, hfind, rfl⟩
  · rintro ⟨hdeclares, e, hfind, rfl⟩
    obtain rfl := Catalogue.key_of_find? hfind
    exact ⟨e, ⟨hdeclares, hfind⟩, rfl, rfl⟩

/-- If a pass stops at an entitlement, its key is the least of those that are not passed over. -/
theorem le_of_split (h : IsKnownOf d entries) {before after : List Entry} {e e' : Entry}
    (hsplit : entries = before ++ e :: after) (he' : e' ∈ entries) (hbefore : e' ∉ before) :
    e.key ≤ e'.key := by
  have hsorted := h.sorted
  rw [hsplit, List.pairwise_append, List.pairwise_cons] at hsorted
  rw [hsplit, List.mem_append, List.mem_cons] at he'
  obtain rfl | hafter := he'.resolve_left hbefore
  · exact le_refl _
  · exact le_of_lt (hsorted.2.1.1 e' hafter)

/-- There is one list of the known entitlements that are declared, whatever else is. -/
theorem unique {d' : Dict} {entries' : List Entry} (h : IsKnownOf d entries)
    (h' : IsKnownOf d' entries')
    (hsame : ∀ k, (Catalogue.find? k).isSome → (Declares d' k ↔ Declares d k)) :
    entries' = entries := by
  refine eq_of_sorted_of_mem_iff h'.sorted h.sorted fun e => ?_
  rw [h'.mem_iff, h.mem_iff]
  refine and_congr_left fun hfind => hsame e.key ?_
  rw [hfind]
  rfl

end IsKnownOf

/-! ## The two passes -/

/-- The first pass refuses the least forbidden key. -/
theorem permissions_of_forbidden (h : IsKnownOf d entries) (hsome : (forbiddenKeys d).Nonempty) :
    ∃ k, IsLeast (forbiddenKeys d) k ∧ permissions usage entries = .error (.forbidden k) := by
  obtain ⟨k, hk⟩ := hsome
  obtain ⟨e, he, rfl, hrule⟩ := h.exists_rule_iff.mpr hk
  have hfound : (entries.find? fun e => e.rule = .forbidden).isSome :=
    List.find?_isSome.mpr ⟨e, he, decide_eq_true hrule⟩
  obtain ⟨first, hfirst⟩ := Option.isSome_iff_exists.mp hfound
  refine ⟨first.key, ⟨?_, fun k' hk' => ?_⟩, by rw [permissions, hfirst]⟩
  · have hforbidden := List.find?_some hfirst
    exact h.exists_rule_iff.mp
      ⟨first, List.mem_of_find?_eq_some hfirst, rfl, of_decide_eq_true hforbidden⟩
  · obtain ⟨-, before, after, hsplit, hbefore⟩ := List.find?_eq_some_iff_append.mp hfirst
    obtain ⟨e', he', rfl, hrule'⟩ := h.exists_rule_iff.mpr hk'
    refine h.le_of_split hsplit he' fun hmem => ?_
    have hno := hbefore e' hmem
    simp [hrule'] at hno

/-- Without a forbidden key the second pass is what counts. -/
theorem permissions_eq_mapM (h : IsKnownOf d entries) (hnone : forbiddenKeys d = ∅) :
    permissions usage entries =
      (entries.mapM (permission usage)).map fun permissions => permissions.filterMap id := by
  have hfind : (entries.find? fun e => e.rule = .forbidden) = none := by
    rw [List.find?_eq_none]
    intro e he hforbidden
    have hmem : e.key ∈ forbiddenKeys d :=
      h.exists_rule_iff.mp ⟨e, he, rfl, of_decide_eq_true hforbidden⟩
    rw [hnone] at hmem
    exact hmem
  rw [permissions, hfind]

/-- An entitlement is refused in the second pass exactly if it needs a description and has none. -/
theorem permission_eq_error_iff {e : Entry} {v : Violation} :
    permission usage e = .error v ↔ ∃ properties, e.rule = .explained properties ∧
      (∀ property ∈ properties, ∀ s, ¬Describes usage property s) ∧
      v = .missingJustification e.key properties := by
  unfold permission
  cases hrule : e.rule with
  | explained properties =>
    simp only [Rule.explained.injEq, exists_eq_left', ← justification?_eq_none_iff]
    cases justification? usage properties with
    | some justification => simp
    | none => simp [eq_comm]
  | forbidden | unrestricted => simp

/-- Without a forbidden key the second pass refuses the least key without a description. -/
theorem permissions_of_unexplained (h : IsKnownOf d entries) (hnone : forbiddenKeys d = ∅)
    (hsome : (unexplainedKeys d usage).Nonempty) :
    ∃ k properties, IsLeast (unexplainedKeys d usage) k ∧
      Catalogue.rule? k = some (.explained properties) ∧
      permissions usage entries = .error (.missingJustification k properties) := by
  have hrefused {e : Entry} {v : Violation} (he : e ∈ entries)
      (hv : permission usage e = .error v) : e.key ∈ unexplainedKeys d usage := by
    obtain ⟨properties, hentry, hunexplained, -⟩ := permission_eq_error_iff.mp hv
    obtain ⟨hdeclares, hrule⟩ := h.exists_rule_iff.mp ⟨e, he, rfl, hentry⟩
    exact ⟨hdeclares, properties, hrule, hunexplained⟩
  have hunexplained {k : String} (hk : k ∈ unexplainedKeys d usage) :
      ∃ e ∈ entries, e.key = k ∧ ∃ v, permission usage e = .error v := by
    obtain ⟨hdeclares, properties, hrule, hnot⟩ := hk
    obtain ⟨e, he, rfl, hentry⟩ := h.exists_rule_iff.mpr ⟨hdeclares, hrule⟩
    exact ⟨e, he, rfl, _, permission_eq_error_iff.mpr ⟨properties, hentry, hnot, rfl⟩⟩
  rw [permissions_eq_mapM h hnone]
  cases hpass : entries.mapM (permission usage) with
  | ok found =>
    obtain ⟨k, hk⟩ := hsome
    obtain ⟨e, he, -, v, hv⟩ := hunexplained hk
    obtain ⟨o, ho⟩ := exists_mapM_eq_ok.mp ⟨found, hpass⟩ e he
    exact nomatch ho.symm.trans hv
  | error v =>
    obtain ⟨before, e, after, hsplit, hbefore, hv⟩ := mapM_eq_error.mp hpass
    have he : e ∈ entries := by simp [hsplit]
    obtain ⟨properties, hentry, -, rfl⟩ := permission_eq_error_iff.mp hv
    refine ⟨e.key, properties, ⟨hrefused he hv, fun k' hk' => ?_⟩,
      (h.exists_rule_iff.mp ⟨e, he, rfl, hentry⟩).2, rfl⟩
    -- a refused entitlement is not passed over
    obtain ⟨e', he', rfl, v', hv'⟩ := hunexplained hk'
    refine h.le_of_split hsplit he' fun hmem => ?_
    obtain ⟨o, ho⟩ := hbefore e' hmem
    exact nomatch ho.symm.trans hv'

/-- What is permitted for an entitlement that may be declared. -/
def grant? (usage : Dict) (e : Entry) : Option Permission :=
  match e.rule with
  | .explained properties =>
    (justification? usage properties).map fun justification => { key := e.key, justification }
  | .forbidden | .unrestricted => none

theorem permission_eq_ok_grant? {e : Entry} (h : ∀ v, permission usage e ≠ .error v) :
    permission usage e = .ok (grant? usage e) := by
  unfold permission at h ⊢
  unfold grant?
  cases hrule : e.rule with
  | explained properties =>
    simp only [hrule] at h ⊢
    cases hjustification : justification? usage properties with
    | some justification => rfl
    | none => simp [hjustification] at h
  | forbidden | unrestricted => rfl

theorem grant?_eq_some {e : Entry} {p : Permission} (h : grant? usage e = some p) :
    p.key = e.key ∧ ∃ properties, e.rule = .explained properties ∧
      Justifies usage properties p.justification := by
  unfold grant? at h
  split at h
  · rename_i properties hrule
    obtain ⟨justification, hjustification, rfl⟩ := Option.map_eq_some_iff.mp h
    exact ⟨rfl, properties, hrule, justification?_eq_some_iff.mp hjustification⟩
  · exact nomatch h
  · exact nomatch h

/-- An entitlement that needs a description and is not refused has one. -/
theorem exists_grant? {e : Entry} (hrule : e.rule = .explained properties)
    (h : permission usage e = .ok (grant? usage e)) : ∃ p, grant? usage e = some p := by
  simp only [permission, grant?, hrule] at h ⊢
  cases hjustification : justification? usage properties with
  | some justification => exact ⟨_, rfl⟩
  | none => simp [hjustification] at h

/-- What is permitted for the entitlements that are looked at. -/
theorem IsKnownOf.grants (h : IsKnownOf d entries)
    (hgrant : ∀ e ∈ entries, permission usage e = .ok (grant? usage e)) :
    Grants d usage (entries.filterMap (grant? usage)) where
  sorted := by
    refine h.sorted.filterMap _ fun e e' hlt p hp p' hp' => ?_
    rwa [(grant?_eq_some hp).1, (grant?_eq_some hp').1]
  mem_keys_iff k := by
    constructor
    · intro hk
      obtain ⟨p, hp, rfl⟩ := List.mem_map.mp hk
      obtain ⟨e, he, hp⟩ := List.mem_filterMap.mp hp
      obtain ⟨hkey, properties, hentry, -⟩ := grant?_eq_some hp
      obtain ⟨hdeclares, hrule⟩ := h.exists_rule_iff.mp ⟨e, he, hkey.symm, hentry⟩
      exact ⟨hdeclares, properties, hrule⟩
    · rintro ⟨hdeclares, properties, hrule⟩
      obtain ⟨e, he, rfl, hentry⟩ := h.exists_rule_iff.mpr ⟨hdeclares, hrule⟩
      obtain ⟨p, hp⟩ := exists_grant? hentry (hgrant e he)
      exact List.mem_map.mpr ⟨p, List.mem_filterMap.mpr ⟨e, he, hp⟩, (grant?_eq_some hp).1⟩
  justified p hp := by
    obtain ⟨e, he, hp⟩ := List.mem_filterMap.mp hp
    obtain ⟨hkey, properties, hentry, hjustifies⟩ := grant?_eq_some hp
    exact ⟨properties, (h.exists_rule_iff.mp ⟨e, he, hkey.symm, hentry⟩).2, hjustifies,
      hjustifies.ne_empty⟩

/-- Without a key to refuse each key that needs a description is permitted. -/
theorem permissions_of_explained (h : IsKnownOf d entries) (hnone : forbiddenKeys d = ∅)
    (hall : unexplainedKeys d usage = ∅) :
    ∃ ps, Grants d usage ps ∧ permissions usage entries = .ok ps := by
  have hgrant (e : Entry) (he : e ∈ entries) : permission usage e = .ok (grant? usage e) := by
    refine permission_eq_ok_grant? fun v hv => ?_
    obtain ⟨properties, hentry, hunexplained, -⟩ := permission_eq_error_iff.mp hv
    obtain ⟨hdeclares, hrule⟩ := h.exists_rule_iff.mp ⟨e, he, rfl, hentry⟩
    exact Set.eq_empty_iff_forall_notMem.mp hall e.key ⟨hdeclares, properties, hrule, hunexplained⟩
  have hpass : entries.mapM (permission usage) = .ok (entries.map (grant? usage)) := by
    rw [mapM_eq_ok, List.forall₂_map_right_iff, List.forall₂_same]
    exact hgrant
  refine ⟨entries.filterMap (grant? usage), h.grants hgrant, ?_⟩
  rw [permissions_eq_mapM h hnone, hpass]
  simp [Except.map, List.filterMap_map]

/-! ## The check -/

/-- What the check answers. -/
theorem answers_check (h : HasTextKeys d) (requireSandbox : Bool) :
    Answers d usage requireSandbox (check d usage requireSandbox) := by
  obtain ⟨keys, hkeys, hknown⟩ := h.exists_known
  have hlacks : (requireSandbox && !isSandboxed d) = true ↔ LacksSandbox d requireSandbox := by
    simp [LacksSandbox, ← isSandboxed_iff]
  by_cases hsandbox : LacksSandbox d requireSandbox
  · rw [check, if_pos (hlacks.mpr hsandbox)]
    exact .sandboxRequired hsandbox
  · have hcheck : check d usage requireSandbox =
        (permissions usage (known keys)).mapError .violation := by
      rw [check, if_neg (mt hlacks.mp hsandbox), hkeys]
    rw [hcheck]
    -- a forbidden key is refused first, then one without a description
    obtain hnone | hforbidden := (forbiddenKeys d).eq_empty_or_nonempty
    · obtain hall | hunexplained := (unexplainedKeys d usage).eq_empty_or_nonempty
      · obtain ⟨ps, hgrants, hps⟩ := permissions_of_explained hknown hnone hall
        rw [hps]
        exact .granted hsandbox hnone hall hgrants
      · obtain ⟨k, properties, hleast, hrule, hk⟩ :=
          permissions_of_unexplained hknown hnone hunexplained
        rw [hk]
        exact .unexplained hsandbox hnone hleast hrule
    · obtain ⟨k, hleast, hk⟩ := @permissions_of_forbidden d usage _ hknown hforbidden
      rw [hk]
      exact .forbidden hsandbox hleast

/-- One list is permitted. -/
theorem Grants.unique {ps ps' : List Permission} (h : Grants d usage ps) (h' : Grants d usage ps') :
    ps = ps' := by
  have hsub {ps ps' : List Permission} (h : Grants d usage ps) (h' : Grants d usage ps')
      {p : Permission} (hp : p ∈ ps) : p ∈ ps' := by
    obtain ⟨p', hp', hkey⟩ := List.mem_map.mp
      ((h'.mem_keys_iff p.key).mpr ((h.mem_keys_iff p.key).mp (List.mem_map_of_mem hp)))
    -- the same properties give the same justification
    obtain ⟨properties, hrule, hjustifies, -⟩ := h.justified p hp
    obtain ⟨properties', hrule', hjustifies', -⟩ := h'.justified p' hp'
    rw [hkey, hrule, Option.some.injEq, Rule.explained.injEq] at hrule'
    subst hrule'
    rw [← justification?_eq_some_iff] at hjustifies hjustifies'
    have hsame : p'.justification = p.justification :=
      Option.some.inj (hjustifies'.symm.trans hjustifies)
    cases p
    cases p'
    cases hkey
    cases hsame
    exact hp'
  exact eq_of_sorted_of_mem_iff h.sorted h'.sorted fun p => ⟨hsub h h', hsub h' h⟩

/-- The check has one answer. -/
theorem Answers.unique {requireSandbox : Bool} {answer answer' : Except CheckError (List Permission)}
    (h : Answers d usage requireSandbox answer) (h' : Answers d usage requireSandbox answer') :
    answer = answer' := by
  cases h with
  | sandboxRequired hlacks =>
    cases h' with
    | sandboxRequired _ => rfl
    | forbidden hno _ | unexplained hno _ _ _ | granted hno _ _ _ => exact absurd hlacks hno
  | forbidden hno hleast =>
    cases h' with
    | sandboxRequired hlacks => exact absurd hlacks hno
    | forbidden _ hleast' => rw [hleast.unique hleast']
    | unexplained _ hnone _ _ | granted _ hnone _ _ => exact absurd hleast.1 (by simp [hnone])
  | unexplained hno hnone hleast hrule =>
    cases h' with
    | sandboxRequired hlacks => exact absurd hlacks hno
    | forbidden _ hleast' => exact absurd hleast'.1 (by simp [hnone])
    | unexplained _ _ hleast' hrule' =>
      obtain rfl := hleast.unique hleast'
      rw [hrule, Option.some.injEq, Rule.explained.injEq] at hrule'
      rw [hrule']
    | granted _ _ hall _ => exact absurd hleast.1 (by simp [hall])
  | granted hno hnone hall hgrants =>
    cases h' with
    | sandboxRequired hlacks => exact absurd hlacks hno
    | forbidden _ hleast' => exact absurd hleast'.1 (by simp [hnone])
    | unexplained _ _ hleast' _ => exact absurd hleast'.1 (by simp [hall])
    | granted _ _ _ hgrants' => rw [hgrants.unique hgrants']

/-- Which of its four forms an answer has. -/
theorem Answers.form_iff {requireSandbox : Bool} {answer : Except CheckError (List Permission)}
    (h : Answers d usage requireSandbox answer) :
    ((∃ k, answer = .error (.violation (.sandboxRequired k))) ↔ LacksSandbox d requireSandbox) ∧
    ((∃ k, answer = .error (.violation (.forbidden k))) ↔
      ¬LacksSandbox d requireSandbox ∧ (forbiddenKeys d).Nonempty) ∧
    ((∃ k properties, answer = .error (.violation (.missingJustification k properties))) ↔
      ¬LacksSandbox d requireSandbox ∧ forbiddenKeys d = ∅ ∧ (unexplainedKeys d usage).Nonempty) ∧
    ((∃ ps, answer = .ok ps) ↔
      ¬LacksSandbox d requireSandbox ∧ forbiddenKeys d = ∅ ∧ unexplainedKeys d usage = ∅) := by
  cases h with
  | sandboxRequired hlacks => simp [hlacks]
  | forbidden hno hleast => simp [hno, hleast.nonempty, hleast.nonempty.ne_empty]
  | unexplained hno hnone hleast _ =>
    simp [hno, hnone, hleast.nonempty, hleast.nonempty.ne_empty]
  | granted hno hnone hall _ => simp [hno, hnone, hall]

/-! ## What the answer depends on -/

/-- The order of a dictionary with text keys does not matter. -/
theorem HasTextKeys.perm {d' : Dict} (h : HasTextKeys d) (hperm : d'.Perm d) : HasTextKeys d' where
  text pair hpair := h.text pair (hperm.mem_iff.mp hpair)
  distinct := (hperm.map _).nodup_iff.mpr h.distinct

theorem HasTextKeys.getText?_perm {d' : Dict} (h : HasTextKeys d) (hperm : d'.Perm d) (k : String) :
    Dict.getText? d' k = Dict.getText? d k := by
  ext v
  rw [(h.perm hperm).getText?_eq_some_iff, h.getText?_eq_some_iff, hperm.mem_iff]

/-- The check looks at what is declared under known keys, whether the sandbox is declared true, and what
    stands under the properties of declared keys. -/
theorem check_congr {d' usage' : Dict} {requireSandbox : Bool} (h : HasTextKeys d)
    (h' : HasTextKeys d')
    (hvalues : ∀ k, (Catalogue.find? k).isSome → Dict.getText? d' k = Dict.getText? d k)
    (husage : ∀ k properties, Declares d k → Catalogue.rule? k = some (.explained properties) →
      ∀ property ∈ properties, Dict.getText? usage' property = Dict.getText? usage property) :
    check d' usage' requireSandbox = check d usage requireSandbox := by
  obtain ⟨keys, hkeys, hknown⟩ := h.exists_known
  obtain ⟨keys', hkeys', hknown'⟩ := h'.exists_known
  have hentries : known keys' = known keys := by
    refine hknown.unique hknown' fun k hk => ?_
    rw [Declares, Declares, hvalues k hk]
  have hsandbox : isSandboxed d' = isSandboxed d := by
    rw [isSandboxed, isSandboxed, hvalues appSandbox (by decide)]
  have hpermission (e : Entry) (he : e ∈ known keys) : permission usage' e = permission usage e := by
    unfold permission
    cases hentry : e.rule with
    | explained properties =>
      obtain ⟨hdeclares, hrule⟩ := hknown.exists_rule_iff.mp ⟨e, he, rfl, hentry⟩
      simp only [justification?_congr (husage e.key properties hdeclares hrule)]
    | forbidden | unrestricted => rfl
  have hpermissions : permissions usage' (known keys) = permissions usage (known keys) := by
    rw [permissions, permissions, mapM_congr hpermission]
  simp only [check, hsandbox, hkeys', hkeys, hentries, hpermissions]

/-- The check refuses a missing sandbox, else the least declared key that is forbidden, else the least
    one that needs a usage description and has none, else it permits each declared key that needs a
    description with its own; there is no other answer. The order of the dictionary does not matter, nor
    what it holds under unknown keys, nor any usage description but those of declared keys. -/
theorem check_decides (h : HasTextKeys d) (requireSandbox : Bool) :
    ((∃ k, check d usage requireSandbox = .error (.violation (.sandboxRequired k))) ↔
      LacksSandbox d requireSandbox) ∧
    ((∃ k, check d usage requireSandbox = .error (.violation (.forbidden k))) ↔
      ¬LacksSandbox d requireSandbox ∧ (forbiddenKeys d).Nonempty) ∧
    ((∃ k properties,
        check d usage requireSandbox = .error (.violation (.missingJustification k properties))) ↔
      ¬LacksSandbox d requireSandbox ∧ forbiddenKeys d = ∅ ∧ (unexplainedKeys d usage).Nonempty) ∧
    ((∃ ps, check d usage requireSandbox = .ok ps) ↔
      ¬LacksSandbox d requireSandbox ∧ forbiddenKeys d = ∅ ∧ unexplainedKeys d usage = ∅) ∧
    (∀ answer, check d usage requireSandbox = answer ↔ Answers d usage requireSandbox answer) ∧
    (∀ d' : Dict, d'.Perm d → check d' usage requireSandbox = check d usage requireSandbox) ∧
    ∀ d' usage', HasTextKeys d' →
      (∀ k, (Catalogue.find? k).isSome → Dict.getText? d' k = Dict.getText? d k) →
      (∀ k properties, Declares d k → Catalogue.rule? k = some (.explained properties) →
        ∀ property ∈ properties, Dict.getText? usage' property = Dict.getText? usage property) →
      check d' usage' requireSandbox = check d usage requireSandbox := by
  have hanswers := @answers_check d usage h requireSandbox
  obtain ⟨hlacks, hforbidden, hunexplained, hgranted⟩ := hanswers.form_iff
  refine ⟨hlacks, hforbidden, hunexplained, hgranted, fun answer => ?_, fun d' hperm => ?_,
    fun d' usage' h' => check_congr h h'⟩
  · exact ⟨fun hcheck => hcheck ▸ hanswers, hanswers.unique⟩
  · exact check_congr h (h.perm hperm) (fun k _ => h.getText?_perm hperm k) fun _ _ _ _ _ _ => rfl

/-- A forbidden key is refused though a key without a description is less. -/
theorem check_decides_forbidden_before_unexplained :
    let camera := securityDomain ++ "device.camera"
    let files := securityDomain ++ "files.all"
    let d : Dict := [(.text files, .bool true), (.text camera, .array []), (.text appSandbox, .bool true)]
    HasTextKeys d ∧ camera ∈ unexplainedKeys d [] ∧ camera < files ∧
      check d [] true = .error (.violation (.forbidden files)) := by
  intro camera files d
  have htext : HasTextKeys d :=
    { text := by simp [d]
      distinct := by simp [d, files, camera, appSandbox] }
  have hcamera : camera ∈ unexplainedKeys d [] :=
    ⟨⟨.array [], rfl, rfl⟩, [camera], rfl, fun _ _ _ hno => nomatch hno.1⟩
  have hfiles : files ∈ forbiddenKeys d := ⟨⟨.bool true, rfl, rfl⟩, rfl⟩
  have hlacks : ¬LacksSandbox d true := fun hno => hno.2 rfl
  obtain ⟨-, hforbidden, -, -, hanswer, -⟩ := @check_decides d [] htext true
  obtain ⟨k, hk⟩ := hforbidden.mpr ⟨hlacks, files, hfiles⟩
  -- no other declared key is forbidden
  have hkey : k = files := by
    obtain _ | ⟨-, ⟨⟨v, hv, -⟩, hrule⟩, -⟩ := (hanswer _).mp hk
    have hmem := htext.getText?_eq_some_iff.mp hv
    simp only [d, List.mem_cons, Prod.mk.injEq, Value.text.injEq, List.not_mem_nil, or_false] at hmem
    obtain ⟨rfl, -⟩ | ⟨rfl, -⟩ | ⟨rfl, -⟩ := hmem
    · rfl
    · exact absurd hrule (by decide)
    · exact absurd hrule (by decide)
  exact ⟨htext, hcamera, by decide, hkey ▸ hk⟩

end ReleaseSeal.Entitlement
