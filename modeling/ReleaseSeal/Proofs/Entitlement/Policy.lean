import Mathlib.Data.List.Nodup
import ReleaseSeal.Entitlement.Policy
import ReleaseSeal.Proofs.Outcome
import ReleaseSeal.Proofs.Plist.KeyOrder

/-!
# What the policy check decides

On a dictionary whose keys are texts, the check has an answer exactly if the sandbox is declared where
it is required and every declared key that is known is satisfied: it is not forbidden, and what it
needs is described. The order in which the keys are looked at only decides which refusal is named.

## Key results

- `mem_known_iff`: the known entitlements that are looked at are the declared ones
- `check_isOk_iff`: when the check has an answer
- `mem_of_check_eq_ok`: which permissions the answer lists
-/

namespace ReleaseSeal.Entitlement

open Plist (Dict Value Key)

/-- The keys of a dictionary are texts, each there once. -/
structure HasTextKeys (d : Dict) : Prop where
  text : ∀ pair ∈ d, ∃ k, pair.1 = .text k
  distinct : (d.map (·.1)).Nodup

/-- A dictionary declares the entitlement of a key. -/
def Declares (d : Dict) (k : String) : Prop :=
  ∃ v, Dict.getText? d k = some v ∧ isDeclared v = true

/-- A known entitlement may be declared: it is not forbidden, and if it needs a usage description
    there is one. -/
def Satisfied (usage : Dict) (e : Entry) : Prop :=
  e.rule ≠ .forbidden ∧ ∃ p, permission usage e = .ok p

/-! ## Dictionaries with text keys -/

/-- Only a text is the same key as a text. -/
theorem sameKey_text_iff {v : Value} {k : String} : v.sameKey (.text k) = true ↔ v = .text k := by
  cases v with
  | text s => simp
  | real x =>
    -- a real is the key of a number, or of what is not one
    have hne : Key.ofReal x ≠ .text k := by
      rw [Key.ofReal]
      split
      · exact nofun
      · split <;> exact nofun
    simp [Value.sameKey, Value.key?, hne]
  | _ => simp [Value.sameKey, Value.key?]

/-- A value that is found under a text is stored under it. -/
theorem mem_of_getText? {d : Dict} {k : String} {v : Value} (h : Dict.getText? d k = some v) :
    (.text k, v) ∈ d := by
  rw [Dict.getText?, Dict.get?, Option.map_eq_some_iff] at h
  obtain ⟨pair, hfind, rfl⟩ := h
  have hsame := List.find?_some hfind
  rw [← sameKey_text_iff.mp hsame]
  exact List.mem_of_find?_eq_some hfind

/-- If every key is there once, a value that is stored under a text is the one that is found. -/
theorem HasTextKeys.getText?_eq_some_iff {d : Dict} (h : HasTextKeys d) {k : String} {v : Value} :
    Dict.getText? d k = some v ↔ (.text k, v) ∈ d := by
  refine ⟨mem_of_getText?, fun hmem => ?_⟩
  cases hfound : Dict.getText? d k with
  | none =>
    rw [Dict.getText?, Dict.get?, Option.map_eq_none_iff, List.find?_eq_none] at hfound
    exact absurd (sameKey_text_iff.mpr rfl) (hfound _ hmem)
  | some w =>
    -- two pairs with one key are the same pair
    have hpair := List.inj_on_of_nodup_map h.distinct hmem (mem_of_getText? hfound) rfl
    rw [(Prod.mk.inj hpair).2]

theorem HasTextKeys.declares_iff {d : Dict} (h : HasTextKeys d) {k : String} :
    Declares d k ↔ ∃ v, (.text k, v) ∈ d ∧ isDeclared v = true := by
  simp only [Declares, h.getText?_eq_some_iff]

theorem isSandboxed_iff {d : Dict} :
    isSandboxed d = true ↔ Dict.getText? d appSandbox = some (.bool true) := by
  rw [isSandboxed]
  split
  · rename_i b h
    rw [h, Option.some.injEq, Value.bool.injEq]
  · rename_i h
    exact ⟨fun hno => (nomatch hno), fun hyes => absurd hyes (h true)⟩

/-! ## The keys that are looked at -/

/-- Texts can be ordered, and ordering them loses none. -/
private theorem exists_sortKeys? {keys : List Value} (h : ∀ key ∈ keys, ∃ k, key = .text k) :
    ∃ sorted, Plist.sortKeys? keys = some sorted ∧ sorted.Perm keys := by
  refine ⟨_, ?_, Plist.inKeyOrder_perm id keys⟩
  rw [Plist.sortKeys?, if_pos (Plist.canOrder_of_text h)]

/-- The declared keys of a dictionary with text keys. -/
theorem HasTextKeys.exists_declaredKeys? {d : Dict} (h : HasTextKeys d) :
    ∃ keys, declaredKeys? d = some keys ∧
      ∀ key, key ∈ keys ↔ ∃ k, key = .text k ∧ Declares d k := by
  have htext : ∀ key ∈ (d.filter fun pair => isDeclared pair.2).map (·.1), ∃ k, key = .text k := by
    intro key hkey
    obtain ⟨pair, hpair, rfl⟩ := List.mem_map.mp hkey
    exact h.text pair (List.mem_filter.mp hpair).1
  obtain ⟨keys, hkeys, hperm⟩ := exists_sortKeys? htext
  refine ⟨keys, hkeys, fun key => ?_⟩
  rw [hperm.mem_iff]
  constructor
  · intro hkey
    obtain ⟨k, rfl⟩ := htext key hkey
    obtain ⟨⟨key, v⟩, hpair, rfl⟩ := List.mem_map.mp hkey
    obtain ⟨hmem, hdeclared⟩ := List.mem_filter.mp hpair
    exact ⟨k, rfl, h.declares_iff.mpr ⟨v, hmem, hdeclared⟩⟩
  · rintro ⟨k, rfl, hdeclares⟩
    obtain ⟨v, hmem, hdeclared⟩ := h.declares_iff.mp hdeclares
    exact List.mem_map.mpr ⟨_, List.mem_filter.mpr ⟨hmem, hdeclared⟩, rfl⟩

/-- The entitlement that is known under a key has that key. -/
theorem Catalogue.key_of_find? {k : String} {e : Entry} (h : Catalogue.find? k = some e) :
    e.key = k := by
  have hkey := List.find?_some h
  exact beq_iff_eq.mp hkey

/-- The known entitlements that are looked at are the declared ones. -/
theorem mem_known_iff {d : Dict} {keys : List Value}
    (hkeys : ∀ key, key ∈ keys ↔ ∃ k, key = .text k ∧ Declares d k) {e : Entry} :
    e ∈ known keys ↔ Declares d e.key ∧ Catalogue.find? e.key = some e := by
  simp only [known, List.mem_filterMap, Option.bind_eq_some_iff]
  constructor
  · rintro ⟨key, hkey, k, htext, hfind⟩
    obtain ⟨k', rfl, hdeclares⟩ := (hkeys key).mp hkey
    obtain rfl : k' = k := Option.some.inj htext
    rw [Catalogue.key_of_find? hfind]
    exact ⟨hdeclares, hfind⟩
  · rintro ⟨hdeclares, hfind⟩
    exact ⟨.text e.key, (hkeys _).mpr ⟨e.key, rfl, hdeclares⟩, e.key, rfl, hfind⟩

/-! ## The check -/

/-- There are permissions for known entitlements exactly if each of them is satisfied. -/
private theorem exists_permissions {usage : Dict} {entries : List Entry} :
    (∃ ps, permissions usage entries = .ok ps) ↔ ∀ e ∈ entries, Satisfied usage e := by
  rw [permissions]
  split
  · -- a forbidden entitlement is not satisfied, and comes first
    rename_i e hfind
    have hfound := List.find?_some hfind
    have hforbidden : e.rule = .forbidden := of_decide_eq_true hfound
    refine ⟨fun ⟨_, h⟩ => (nomatch h), fun h => ?_⟩
    exact absurd hforbidden (h e (List.mem_of_find?_eq_some hfind)).1
  · rename_i hfind
    rw [List.find?_eq_none] at hfind
    simp only [map_eq_ok, Satisfied]
    constructor
    · rintro ⟨_, ps, hps, _⟩ e he
      exact ⟨fun hno => hfind e he (decide_eq_true hno), exists_mapM_eq_ok.mp ⟨ps, hps⟩ e he⟩
    · intro h
      obtain ⟨ps, hps⟩ := exists_mapM_eq_ok.mpr fun e he => (h e he).2
      exact ⟨_, ps, hps, rfl⟩

/-- The permissions for known entitlements are those that each of them yields. -/
private theorem mem_permissions {usage : Dict} {entries : List Entry} {ps : List Permission}
    (h : permissions usage entries = .ok ps) {p : Permission} :
    p ∈ ps ↔ ∃ e ∈ entries, permission usage e = .ok (some p) := by
  rw [permissions] at h
  split at h
  · exact nomatch h
  · clear * - h
    obtain ⟨os, hos, rfl⟩ := map_eq_ok.mp h
    rw [mapM_eq_ok] at hos
    clear h
    simp only [List.mem_filterMap, id, exists_eq_right]
    -- entitlement by entitlement, along the permissions that each yields
    induction hos with
    | nil => simp
    | cons hx _ ih =>
      rw [List.mem_cons, ih, List.exists_mem_cons_iff, hx, Except.ok.injEq]
      exact or_congr_left eq_comm

/-- The check has an answer exactly if the sandbox is declared where it is required, and every known
    entitlement that is declared is satisfied. -/
theorem check_isOk_iff {d usage : Dict} {requireSandbox : Bool} (h : HasTextKeys d) :
    (∃ ps, check d usage requireSandbox = .ok ps) ↔
      (requireSandbox = true → isSandboxed d = true) ∧
        ∀ e, Declares d e.key → Catalogue.find? e.key = some e → Satisfied usage e := by
  obtain ⟨keys, hkeys, hmem⟩ := h.exists_declaredKeys?
  rw [check]
  split
  · -- the sandbox is required and not declared
    rename_i hsandbox
    rw [Bool.and_eq_true, Bool.not_eq_true'] at hsandbox
    refine ⟨fun ⟨_, hno⟩ => (nomatch hno), fun ⟨hrequired, _⟩ => ?_⟩
    rw [hrequired hsandbox.1] at hsandbox
    exact nomatch hsandbox.2
  · rename_i hsandbox
    rw [Bool.and_eq_true, Bool.not_eq_true', not_and, Bool.not_eq_false] at hsandbox
    simp only [hkeys, mapError_eq_ok, exists_permissions, mem_known_iff hmem, and_imp]
    exact ⟨fun hall => ⟨hsandbox, hall⟩, fun hall => hall.2⟩

/-- The answer lists the permissions of the known entitlements that are declared. -/
theorem mem_of_check_eq_ok {d usage : Dict} {requireSandbox : Bool} {ps : List Permission}
    (h : HasTextKeys d) (hcheck : check d usage requireSandbox = .ok ps) {p : Permission} :
    p ∈ ps ↔ ∃ e, (Declares d e.key ∧ Catalogue.find? e.key = some e) ∧
      permission usage e = .ok (some p) := by
  obtain ⟨keys, hkeys, hmem⟩ := h.exists_declaredKeys?
  rw [check] at hcheck
  split at hcheck
  · exact nomatch hcheck
  · simp only [hkeys, mapError_eq_ok] at hcheck
    simp only [mem_permissions hcheck, mem_known_iff hmem]

end ReleaseSeal.Entitlement
