import ReleaseSeal.MachO.Entitlements
import ReleaseSeal.Proofs.Entitlement.Policy

/-!
# Merged entitlements and the policy

Of a key that several slices hold, the merged dictionary has the first slice's value. So the check of
the merged entitlements says something of a slice only where the first value declares the key as the
slice does. A key that a slice declares is *masked* if the first slice that holds it does not declare
it; keys that are not masked are checked for every slice. The sandbox is required of the first slice
that holds its key. The other way round nothing is lost: what the merged dictionary declares, the slice
that its value comes from declares too, so a check that every slice passes is passed by all of them
together.

## Key results

- `getText?_merge`: a merged key has the first slice's value
- `HasTextKeys.merge`: merging keeps dictionaries with text keys
- `check_slices_of_check_merge`: what a passed check of the merged entitlements says of the slices
- `check_merge_of_check_slices`: what the checks of the slices say of the merged entitlements
-/

namespace ReleaseSeal.Entitlement

open Plist (Dict Value)
open Entitlements (merge mergeInto)

/-- The value of a key in the first slice that holds it. -/
def firstValue? (slices : List Entitlements) (k : String) : Option Value :=
  slices.findSome? fun e => Dict.getText? e.values k

/-- The first slice that holds a key does not declare it. -/
def IsMasked (slices : List Entitlements) (k : String) : Prop :=
  ∃ v, firstValue? slices k = some v ∧ isDeclared v = false

/-! ## Merging -/

/-- Of two dictionaries one after the other the first one counts. -/
theorem getText?_append (d rest : Dict) (k : String) :
    Dict.getText? (d ++ rest) k = (Dict.getText? d k).or (Dict.getText? rest k) := by
  rw [Dict.getText?, Dict.get?, List.find?_append, Option.map_or]
  rfl

theorem getText?_cons (pair : Value × Value) (d : Dict) (k : String) :
    Dict.getText? (pair :: d) k =
      if pair.1.sameKey (.text k) then some pair.2 else Dict.getText? d k := by
  rw [Dict.getText?, Dict.get?, List.find?_cons]
  split
  · rename_i hsame
    rw [if_pos hsame, Option.map_some]
  · rename_i hdiff
    rw [if_neg (Bool.eq_false_iff.mp hdiff)]
    rfl

/-- A dictionary is merged into another behind the values that are there. -/
theorem getText?_mergeInto (merged values : Dict) (k : String) :
    Dict.getText? (mergeInto merged values) k =
      (Dict.getText? merged k).or (Dict.getText? values k) := by
  induction values generalizing merged with
  | nil => exact (Option.or_none).symm
  | cons pair values ih =>
    rw [mergeInto, List.foldl_cons, ← mergeInto, ih, getText?_cons]
    by_cases hkey : pair.1.sameKey (.text k) = true
    · rw [if_pos hkey, sameKey_text_iff.mp hkey, ← Dict.getText?]
      cases hfound : Dict.getText? merged k with
      | some v => rw [Option.isSome_some, if_pos rfl, hfound, Option.some_or, Option.some_or]
      | none =>
        -- the key is new, so that the pair is added at the end
        rw [Option.isSome_none, if_neg Bool.false_ne_true, getText?_append, hfound, getText?_cons, if_pos hkey]
        rfl
    · -- a pair with another key changes nothing, whether it is added or not
      rw [if_neg hkey]
      split
      · rfl
      · rw [getText?_append, getText?_cons, if_neg hkey]
        simp only [Dict.getText?, Dict.get?, List.find?_nil, Option.map_none, Option.or_none]

/-- A merged key has the value of the first slice that holds it. -/
theorem getText?_merge (slices : List Entitlements) (k : String) :
    Dict.getText? (merge slices).values k = firstValue? slices k := by
  -- with what earlier slices have given, for the induction
  have hfold (merged : Dict) :
      Dict.getText? (slices.foldl (fun merged e => mergeInto merged e.values) merged) k =
        (Dict.getText? merged k).or (firstValue? slices k) := by
    induction slices generalizing merged with
    | nil => exact (Option.or_none).symm
    | cons e slices ih =>
      -- the slice comes behind what there is, and in front of the slices that follow
      rw [List.foldl_cons, ih, getText?_mergeInto, Option.or_assoc, firstValue?, firstValue?,
        List.findSome?_cons]
      cases Dict.getText? e.values k <;> rfl
  exact hfold []

theorem hasTextKeys_nil : HasTextKeys [] where
  text _ hpair := absurd hpair List.not_mem_nil
  distinct := List.nodup_nil

/-- Merging adds no key twice. -/
private theorem HasTextKeys.mergeInto {merged values : Dict} (hmerged : HasTextKeys merged)
    (hvalues : ∀ pair ∈ values, ∃ k, pair.1 = .text k) :
    HasTextKeys (Entitlements.mergeInto merged values) := by
  induction values generalizing merged with
  | nil => exact hmerged
  | cons pair values ih =>
    rw [Entitlements.mergeInto, List.foldl_cons, ← Entitlements.mergeInto]
    rw [List.forall_mem_cons] at hvalues
    refine ih ?_ hvalues.2
    split
    · exact hmerged
    · rename_i hnew
      constructor
      · intro other hother
        obtain hother | hother := List.mem_append.mp hother
        · exact hmerged.text other hother
        · rw [List.mem_singleton.mp hother]
          exact hvalues.1
      · rw [List.map_append, List.nodup_append]
        refine ⟨hmerged.distinct, List.nodup_singleton _, fun key hkey key' hkey' heq => hnew ?_⟩
        -- a key that is there already would have been found
        obtain ⟨k, hk⟩ := hvalues.1
        obtain ⟨⟨key, v⟩, hmem, rfl⟩ := List.mem_map.mp hkey
        rw [List.map_singleton, List.mem_singleton] at hkey'
        rw [show key = .text k from heq.trans (hkey'.trans hk)] at hmem
        rw [hk, ← Dict.getText?, hmerged.getText?_eq_some_iff.mpr hmem]
        rfl

/-- Merging slices with text keys gives a dictionary with text keys. -/
theorem HasTextKeys.merge {slices : List Entitlements} (h : ∀ e ∈ slices, HasTextKeys e.values) :
    HasTextKeys (Entitlements.merge slices).values := by
  have hfold (merged : Dict) (hmerged : HasTextKeys merged) :
      HasTextKeys (slices.foldl (fun merged e => Entitlements.mergeInto merged e.values) merged) := by
    induction slices generalizing merged with
    | nil => exact hmerged
    | cons e slices ih =>
      rw [List.forall_mem_cons] at h
      exact ih h.2 _ (hmerged.mergeInto h.1.text)
  exact hfold [] hasTextKeys_nil

/-- What a slice declares is declared in the merged dictionary too, unless it is masked. -/
theorem declares_merge {slices : List Entitlements} {e : Entitlements} {k : String}
    (he : e ∈ slices) (h : Declares e.values k) (hmask : ¬IsMasked slices k) :
    Declares (merge slices).values k := by
  obtain ⟨v, hv, _⟩ := h
  rw [Declares, getText?_merge]
  cases hfirst : firstValue? slices k with
  | none =>
    rw [firstValue?, List.findSome?_eq_none_iff] at hfirst
    simp [hfirst e he] at hv
  | some w =>
    refine ⟨w, rfl, ?_⟩
    cases hw : isDeclared w with
    | true => rfl
    | false => exact absurd ⟨w, hfirst, hw⟩ hmask

/-- Where slices hold only values that declare their keys, none is masked. -/
theorem not_isMasked {slices : List Entitlements}
    (h : ∀ e ∈ slices, ∀ pair ∈ e.values, isDeclared pair.2 = true) (k : String) :
    ¬IsMasked slices k := by
  rintro ⟨v, hfirst, hundeclared⟩
  obtain ⟨e, he, hv⟩ := List.exists_of_findSome?_eq_some hfirst
  rw [h e he _ (mem_of_getText? hv)] at hundeclared
  exact nomatch hundeclared

/-! ## The check of the slices -/

/-- What a passed check of the merged entitlements says of the slices. A known key that a slice
    declares and that is not masked is satisfied, and its permission is listed. So a slice without
    masked keys passes the check but for the sandbox, and with it exactly if it declares the sandbox
    itself where it is required; whatever it is granted then is listed. Where the sandbox is
    required, the first slice that holds its key declares it true. -/
theorem check_slices_of_check_merge {slices : List Entitlements} {usage : Dict}
    {requireSandbox : Bool} {ps : List Permission} (htext : ∀ e ∈ slices, HasTextKeys e.values)
    (hcheck : check (merge slices).values usage requireSandbox = .ok ps) :
    (∀ e ∈ slices, ∀ entry, Declares e.values entry.key → ¬IsMasked slices entry.key →
      Catalogue.find? entry.key = some entry →
        Satisfied usage entry ∧ ∀ p, permission usage entry = .ok (some p) → p ∈ ps) ∧
    (∀ e ∈ slices, (∀ k, Declares e.values k → ¬IsMasked slices k) →
      (∃ qs, check e.values usage false = .ok qs) ∧
      ((∃ qs, check e.values usage requireSandbox = .ok qs) ↔
        (requireSandbox = true → isSandboxed e.values = true)) ∧
      ∀ required qs, check e.values usage required = .ok qs → ∀ q ∈ qs, q ∈ ps) ∧
    (requireSandbox = true → firstValue? slices appSandbox = some (.bool true)) := by
  have hmerged := HasTextKeys.merge htext
  obtain ⟨hsandbox, hall⟩ := (check_isOk_iff hmerged).mp ⟨ps, hcheck⟩
  have hkey : ∀ e ∈ slices, ∀ entry, Declares e.values entry.key → ¬IsMasked slices entry.key →
      Catalogue.find? entry.key = some entry →
        Satisfied usage entry ∧ ∀ p, permission usage entry = .ok (some p) → p ∈ ps := by
    intro e he entry hdeclares hmask hfind
    have hdeclared := declares_merge he hdeclares hmask
    exact ⟨hall entry hdeclared hfind,
      fun p hp => (mem_of_check_eq_ok hmerged hcheck).mpr ⟨entry, ⟨hdeclared, hfind⟩, hp⟩⟩
  refine ⟨hkey, fun e he hmask => ?_, fun hrequired => ?_⟩
  · -- the slice is checked for its own keys, which are all satisfied
    have hslice : ∀ entry, Declares e.values entry.key → Catalogue.find? entry.key = some entry →
        Satisfied usage entry :=
      fun entry hdeclares hfind => (hkey e he entry hdeclares (hmask _ hdeclares) hfind).1
    refine ⟨(check_isOk_iff (htext e he)).mpr ⟨nofun, hslice⟩, ?_, ?_⟩
    · rw [check_isOk_iff (htext e he)]
      exact ⟨And.left, fun hown => ⟨hown, hslice⟩⟩
    · intro required qs hqs q hq
      obtain ⟨entry, ⟨hdeclares, hfind⟩, hq⟩ := (mem_of_check_eq_ok (htext e he) hqs).mp hq
      exact (hkey e he entry hdeclares (hmask _ hdeclares) hfind).2 q hq
  · rw [← getText?_merge]
    exact isSandboxed_iff.mp (hsandbox hrequired)

/-- A slice that gives one security entitlement a truth value. -/
def sliceWith (name : String) (value : Bool) : Entitlements :=
  { values := [(.text (securityDomain ++ name), .bool value)], arch := none }

private theorem hasTextKeys_sliceWith (name : String) (value : Bool) :
    HasTextKeys (sliceWith name value).values where
  text pair hpair := by
    rw [List.mem_singleton.mp hpair]
    exact ⟨_, rfl⟩
  distinct := List.nodup_singleton _

private theorem declaredKeys?_sliceWith (name : String) (value : Bool) :
    declaredKeys? (sliceWith name value).values =
      some (if value then [.text (securityDomain ++ name)] else []) := by
  cases value <;> simp [declaredKeys?, sliceWith, isDeclared, Plist.sortKeys?, Plist.canOrder,
    Plist.inKeyOrder, Value.isUnplaced, Value.key?]

/-- The sandbox in one slice and an explained entitlement in the next one: the check of the merged
    entitlements satisfies the explained one, but the slice that has it passes alone only where the
    sandbox is not required. -/
theorem check_slices_of_sandbox_and_client :
    let slices := [sliceWith "app-sandbox" true, sliceWith "network.client" true]
    let client := sliceWith "network.client" true
    let key := securityDomain ++ "network.client"
    let usage : Dict := [(.text key, .text "Looks for updates")]
    let ps : List Permission := [{ key, justification := "Looks for updates" }]
    (∀ e ∈ slices, HasTextKeys e.values) ∧ check (merge slices).values usage true = .ok ps ∧
      Satisfied usage (Catalogue.explained "network.client" [.network]) ∧
      (∃ qs, check client.values usage false = .ok qs) ∧
      (¬∃ qs, check client.values usage true = .ok qs) ∧
      firstValue? slices appSandbox = some (.bool true) := by
  intro slices client key usage ps
  have htext : ∀ e ∈ slices, HasTextKeys e.values := by
    simp only [slices, List.forall_mem_cons, hasTextKeys_sliceWith, List.not_mem_nil, false_imp_iff,
      implies_true, and_self]
  have hmask (k : String) : ¬IsMasked slices k := by
    refine not_isMasked ?_ k
    decide
  have hkeys : declaredKeys? (merge slices).values = some [.text appSandbox, .text key] := by
    have hdeclared : ((merge slices).values.filter fun pair => isDeclared pair.2).map (·.1) =
        [.text appSandbox, .text key] := rfl
    rw [declaredKeys?, hdeclared]
    have hsorted : [Value.text appSandbox, .text key].mergeSort (fun a b => Value.keyLe a b) =
        [.text appSandbox, .text key] := by
      apply List.mergeSort_of_pairwise
      decide
    exact congrArg some hsorted
  have hcheck : check (merge slices).values usage true = .ok ps := by
    rw [check, hkeys]
    decide
  have hclient : client ∈ slices := List.mem_cons_of_mem _ List.mem_cons_self
  obtain ⟨hsatisfied, hpasses, hsandbox⟩ := check_slices_of_check_merge htext hcheck
  obtain ⟨hfree, hrequired, -⟩ := hpasses client hclient fun k _ => hmask k
  refine ⟨htext, hcheck, ?_, hfree, ?_, hsandbox rfl⟩
  · have hdeclares : Declares client.values key := ⟨.bool true, rfl, rfl⟩
    exact (hsatisfied client hclient (Catalogue.explained "network.client" [.network])
      hdeclares (hmask _) (by decide)).1
  · rw [hrequired]
    decide

/-- The check of the merged entitlements has an answer, but that of a later slice has none: where the
    first slice gives a forbidden entitlement the value false and the later one gives it true, and
    where only the first slice declares the required sandbox. -/
theorem check_merge_passes_refused_slice :
    let hidden := [sliceWith "files.all" false, sliceWith "files.all" true]
    let sandboxedFirst := [sliceWith "app-sandbox" true, { values := [], arch := none }]
    (∀ e ∈ hidden, HasTextKeys e.values) ∧ check (merge hidden).values [] false = .ok [] ∧
      check (sliceWith "files.all" true).values [] false =
        .error (.violation (.forbidden (securityDomain ++ "files.all"))) ∧
    (∀ e ∈ sandboxedFirst, HasTextKeys e.values) ∧
      check (merge sandboxedFirst).values [] true = .ok [] ∧
      check [] [] true = .error (.violation (.sandboxRequired appSandbox)) := by
  intro hidden sandboxedFirst
  refine ⟨?_, ?_, ?_, ?_, ?_, ?_⟩
  · simp only [hidden, List.forall_mem_cons, hasTextKeys_sliceWith, List.not_mem_nil, false_imp_iff,
      implies_true, and_self]
  · rw [show (merge hidden).values = (sliceWith "files.all" false).values from rfl, check,
      declaredKeys?_sliceWith]
    decide
  · rw [check, declaredKeys?_sliceWith]
    decide
  · simp only [sandboxedFirst, List.forall_mem_cons, hasTextKeys_sliceWith, hasTextKeys_nil,
      List.not_mem_nil, false_imp_iff, implies_true, and_self]
  · rw [show (merge sandboxedFirst).values = (sliceWith "app-sandbox" true).values from rfl, check,
      declaredKeys?_sliceWith]
    decide
  · decide

/-! ## The check of the merged entitlements -/

/-- A key that is not found is not there. -/
theorem HasTextKeys.getText?_eq_none_iff {d : Dict} (h : HasTextKeys d) {k : String} :
    Dict.getText? d k = none ↔ Value.text k ∉ d.map (·.1) := by
  rw [Option.eq_none_iff_forall_ne_some, List.mem_map]
  simp only [ne_eq, h.getText?_eq_some_iff]
  constructor
  · intro hno ⟨⟨key, v⟩, hmem, hkey⟩
    exact hno v (hkey ▸ hmem)
  · intro hno v hmem
    exact hno ⟨_, hmem, rfl⟩

/-- A pair of the merged dictionary comes from the first slice that holds its key. -/
theorem mem_merge_iff {slices : List Entitlements} (h : ∀ e ∈ slices, HasTextKeys e.values)
    {k : String} {v : Value} :
    (.text k, v) ∈ (merge slices).values ↔ ∃ before e after, slices = before ++ e :: after ∧
      (∀ earlier ∈ before, Value.text k ∉ earlier.values.map (·.1)) ∧ (.text k, v) ∈ e.values := by
  rw [← (HasTextKeys.merge h).getText?_eq_some_iff, getText?_merge, firstValue?,
    List.findSome?_eq_some_iff]
  constructor
  · intro ⟨before, e, after, hsplit, hfound, hbefore⟩
    subst hsplit
    refine ⟨before, e, after, rfl, fun earlier hearlier => ?_, mem_of_getText? hfound⟩
    exact (h earlier (by simp [hearlier])).getText?_eq_none_iff.mp (hbefore earlier hearlier)
  · intro ⟨before, e, after, hsplit, hbefore, hmem⟩
    subst hsplit
    refine ⟨before, e, after, rfl, (h e (by simp)).getText?_eq_some_iff.mpr hmem,
      fun earlier hearlier => ?_⟩
    exact (h earlier (by simp [hearlier])).getText?_eq_none_iff.mpr (hbefore earlier hearlier)

/-- The merged dictionary holds the keys that some slice holds. -/
theorem key_mem_merge_iff {slices : List Entitlements} (h : ∀ e ∈ slices, HasTextKeys e.values)
    {k : String} :
    Value.text k ∈ (merge slices).values.map (·.1) ↔
      ∃ e ∈ slices, Value.text k ∈ e.values.map (·.1) := by
  apply not_iff_not.mp
  rw [← (HasTextKeys.merge h).getText?_eq_none_iff, getText?_merge, firstValue?,
    List.findSome?_eq_none_iff]
  simp only [not_exists, not_and]
  exact forall₂_congr fun e he => (h e he).getText?_eq_none_iff

/-- What is declared in the merged dictionary is declared by the slice that its value comes from. -/
theorem declares_of_declares_merge {slices : List Entitlements} {k : String}
    (h : Declares (merge slices).values k) : ∃ e ∈ slices, Declares e.values k := by
  obtain ⟨v, hv, hdeclared⟩ := h
  rw [getText?_merge] at hv
  obtain ⟨e, he, hfound⟩ := List.exists_of_findSome?_eq_some hv
  exact ⟨e, he, v, hfound, hdeclared⟩

/-- Merging rejects nothing that every slice passes. The merged dictionary holds the keys of the slices,
    each once and with the value of the first slice that holds it; where every slice passes the check,
    the merged dictionary passes it too, and whatever it is granted one of the slices is granted. -/
theorem check_merge_of_check_slices {slices : List Entitlements} (hne : slices ≠ [])
    (htext : ∀ e ∈ slices, HasTextKeys e.values) (usage : Dict) (requireSandbox : Bool) :
    HasTextKeys (merge slices).values ∧
    (∀ k, Value.text k ∈ (merge slices).values.map (·.1) ↔
      ∃ e ∈ slices, Value.text k ∈ e.values.map (·.1)) ∧
    (∀ k v, (.text k, v) ∈ (merge slices).values ↔ ∃ before e after, slices = before ++ e :: after ∧
      (∀ earlier ∈ before, Value.text k ∉ earlier.values.map (·.1)) ∧ (.text k, v) ∈ e.values) ∧
    ((∀ e ∈ slices, ∃ qs, check e.values usage requireSandbox = .ok qs) →
      ∃ ps, check (merge slices).values usage requireSandbox = .ok ps ∧
        ∀ p ∈ ps, ∃ e ∈ slices, ∃ qs, check e.values usage requireSandbox = .ok qs ∧ p ∈ qs) := by
  have hmerged := HasTextKeys.merge htext
  refine ⟨hmerged, fun k => key_mem_merge_iff htext, fun k v => mem_merge_iff htext, fun hall => ?_⟩
  -- the first slice declares the sandbox where it is required, and its value counts
  have hsandbox : requireSandbox = true → isSandboxed (merge slices).values = true := by
    intro hrequired
    obtain ⟨first, rest, rfl⟩ := List.exists_cons_of_ne_nil hne
    have hfirst := ((check_isOk_iff (htext first (by simp))).mp (hall first (by simp))).1 hrequired
    rw [isSandboxed_iff] at hfirst ⊢
    rw [getText?_merge, firstValue?, List.findSome?_cons, hfirst]
  have hsatisfied : ∀ entry, Declares (merge slices).values entry.key →
      Catalogue.find? entry.key = some entry → Satisfied usage entry := by
    intro entry hdeclares hfind
    obtain ⟨e, he, hslice⟩ := declares_of_declares_merge hdeclares
    exact ((check_isOk_iff (htext e he)).mp (hall e he)).2 entry hslice hfind
  obtain ⟨ps, hps⟩ := (check_isOk_iff hmerged).mpr ⟨hsandbox, hsatisfied⟩
  refine ⟨ps, hps, fun p hp => ?_⟩
  -- the slice that declares the key of a permission is granted the same one
  obtain ⟨entry, ⟨hdeclares, hfind⟩, hpermission⟩ := (mem_of_check_eq_ok hmerged hps).mp hp
  obtain ⟨e, he, hslice⟩ := declares_of_declares_merge hdeclares
  obtain ⟨qs, hqs⟩ := hall e he
  exact ⟨e, he, qs, hqs, (mem_of_check_eq_ok (htext e he) hqs).mpr ⟨entry, ⟨hslice, hfind⟩, hpermission⟩⟩

/-- A slice that declares the sandbox and gives another security entitlement a truth value. -/
def sandboxedWith (name : String) (value : Bool) : Entitlements :=
  { values := [(.text appSandbox, .bool true), (.text (securityDomain ++ name), .bool value)],
    arch := none }

/-- The first slice declares an entitlement and has a usage description for it, the second one refuses
    it: both pass the check, and so do both together, with the value of the first one. -/
theorem check_merge_of_declared_first :
    let slices := [sandboxedWith "network.client" true, sandboxedWith "network.client" false]
    let key := securityDomain ++ "network.client"
    let usage : Dict := [(.text key, .text "Looks for updates")]
    (∀ e ∈ slices, HasTextKeys e.values) ∧
      (∀ e ∈ slices, ∃ qs, check e.values usage true = .ok qs) ∧
      (.text key, .bool true) ∈ (merge slices).values ∧
      ∃ ps, check (merge slices).values usage true = .ok ps ∧
        ∀ p ∈ ps, ∃ e ∈ slices, ∃ qs, check e.values usage true = .ok qs ∧ p ∈ qs := by
  intro slices key usage
  have htext : ∀ e ∈ slices, HasTextKeys e.values := by
    simp only [slices, List.forall_mem_cons, List.not_mem_nil, false_imp_iff, implies_true, and_true]
    constructor <;>
      exact { text := by simp [sandboxedWith]
              distinct := by simp [sandboxedWith, appSandbox] }
  have hfirst : check (sandboxedWith "network.client" true).values usage true =
      .ok [{ key, justification := "Looks for updates" }] := by
    -- the two declared keys are in order
    have hsorted : [Value.text appSandbox, .text key].mergeSort (fun a b => Value.keyLe a b) =
        [.text appSandbox, .text key] := by
      apply List.mergeSort_of_pairwise
      decide
    have hkeys : declaredKeys? (sandboxedWith "network.client" true).values =
        some [.text appSandbox, .text key] :=
      congrArg some hsorted
    rw [check, hkeys]
    decide
  have hsecond : check (sandboxedWith "network.client" false).values usage true = .ok [] := by
    decide +kernel
  have hall : ∀ e ∈ slices, ∃ qs, check e.values usage true = .ok qs := by
    simp only [slices, List.forall_mem_cons, List.not_mem_nil, false_imp_iff, implies_true, and_true]
    exact ⟨⟨_, hfirst⟩, ⟨_, hsecond⟩⟩
  obtain ⟨-, -, hvalue, hpasses⟩ :=
    check_merge_of_check_slices (List.cons_ne_nil _ _) htext usage true
  refine ⟨htext, hall, ?_, hpasses hall⟩
  exact (hvalue key (.bool true)).mpr ⟨[], _, _, rfl, by simp, by simp [sandboxedWith, key]⟩

end ReleaseSeal.Entitlement
