import ReleaseSeal.Proofs.Bundle.Layout
import ReleaseSeal.Proofs.Compare.Archives
import ReleaseSeal.Proofs.MachO.Faults

/-!
# How a comparison fails

A comparison ends at the first mismatch, or where something that it needs cannot be had. If the payloads
can be read and the information raises no fault, what it needs are the payloads without their signatures:
two payloads look like binaries by their headers, but whether their signatures can be taken off is told
by the load commands behind them. So a comparison fails with a mismatch, or with the fault of a binary
that cannot be walked through, and the latter exactly at a pair of two such payloads.

## Key results

- `judge_eq_error_iff`: when a pair of entries has no verdict
- `compareArchives_eq_error_iff`: all the ways in which a comparison fails
- `compareArchives_fails_at_mismatch_or_binary`: those that are left for readable archives
- `compareArchives_truncated_binary`: two payloads that end behind their headers
-/

namespace ReleaseSeal.Compare

open Archive (Entry)

variable {o : Options} {t u : Entry} {pair : Entry × Entry} {failure : Failure}

/-! ## One pair -/

/-- The signatures should be taken off two payloads, and that fails with the first that it fails on. -/
def Stripper.FailsOn (s : Stripper) (x y : ByteArray) (failure : Failure) : Prop :=
  s.applies x y = true ∧
    (s.strip x = .error failure ∨ ∃ x', s.strip x = .ok x' ∧ s.strip y = .error failure)

/-- The payloads of two entries are looked at, but their signatures cannot be taken off. -/
def FailsToStrip (s : Stripper) (t u : Entry) (failure : Failure) : Prop :=
  ¬RecordedSame t u ∧ Bundle.Category.ofPath? t.path = none ∧
    ∃ x y, t.read = .ok x ∧ u.read = .ok y ∧ s.FailsOn x y failure

/-- A pair ends a comparison: it has no verdict, or it is a mismatch. -/
def Ends (o : Options) (main? : Option String) (pair : Entry × Entry) (failure : Failure) : Prop :=
  ¬AreDirs pair ∧
    (judge pair.1 pair.2 (main? == some pair.1.path) o = .error failure ∨
      ∃ path reason, judge pair.1 pair.2 (main? == some pair.1.path) o = .ok (.fatal path reason) ∧
        failure = .mismatch reason)

/-- Two payloads have no verdict exactly if their signatures cannot be taken off. -/
theorem judgePayloads_eq_error_iff {path : String} {isMain : Bool} {x y : ByteArray} :
    judgePayloads path isMain o x y = .error failure ↔ o.stripper.FailsOn x y failure := by
  unfold judgePayloads Stripper.FailsOn
  by_cases happlies : o.stripper.applies x y = true
  · simp only [happlies, if_true, true_and, bind_eq_error]
    constructor
    · intro h
      obtain hx | ⟨x', hx, hy | ⟨y', -, hverdict⟩⟩ := h
      · exact .inl hx
      · exact .inr ⟨x', hx, hy⟩
      · -- equal or not, what is left of them has a verdict
        split at hverdict <;> cases hverdict
    · intro h
      obtain hx | ⟨x', hx, hy⟩ := h
      · exact .inl hx
      · exact .inr ⟨x', hx, .inl hy⟩
  · simp only [happlies, Bool.false_eq_true, if_false, false_and, iff_false]
    intro h
    cases h

/-- Two entries have no verdict exactly if their payloads are looked at, and one of them cannot be read, or
    the two have none. -/
theorem judge_eq_error_iff {isMain : Bool} :
    judge t u isMain o = .error failure ↔
      ¬RecordedSame t u ∧ Bundle.Category.ofPath? t.path = none ∧
        ((∃ e, t.read = .error e ∧ failure = .archive e) ∨
          ∃ x, t.read = .ok x ∧
            ((∃ e, u.read = .error e ∧ failure = .archive e) ∨
              ∃ y, u.read = .ok y ∧ o.stripper.FailsOn x y failure)) := by
  unfold judge RecordedSame
  by_cases hsame : t.checksum = u.checksum ∧ t.size = u.size
  · simp [hsame]
  · simp only [hsame, if_false, not_false_eq_true, true_and]
    cases Bundle.Category.ofPath? t.path with
    | some category => simp
    | none =>
      simp only [bind_eq_error, mapError_eq_error, mapError_eq_ok, judgePayloads_eq_error_iff, true_and]

/-- Entries with readable payloads have no verdict exactly if their signatures cannot be taken off. -/
theorem judge_eq_error_iff_of_readable {isMain : Bool} (ht : ∃ x, t.read = .ok x)
    (hu : ∃ y, u.read = .ok y) :
    judge t u isMain o = .error failure ↔ FailsToStrip o.stripper t u failure := by
  obtain ⟨x, hx⟩ := ht
  obtain ⟨y, hy⟩ := hu
  simp [judge_eq_error_iff, FailsToStrip, hx, hy]

/-- Entries have no verdict because a payload cannot be read, or because signatures cannot be taken
    off. -/
theorem judge_eq_error {isMain : Bool} (h : judge t u isMain o = .error failure) :
    (∃ e, failure = .archive e ∧ (t.read = .error e ∨ u.read = .error e)) ∨
      FailsToStrip o.stripper t u failure := by
  obtain ⟨hsame, hcategory, ⟨e, hread, rfl⟩ | ⟨x, hx, ⟨e, hread, rfl⟩ | ⟨y, hy, hfails⟩⟩⟩ :=
    judge_eq_error_iff.mp h
  · exact .inl ⟨e, rfl, .inl hread⟩
  · exact .inl ⟨e, rfl, .inr hread⟩
  · exact .inr ⟨hsame, hcategory, x, y, hx, hy, hfails⟩

/-- A mismatch is one of the content on the path of the two entries. -/
theorem eq_content_of_judge_eq_fatal {isMain : Bool} {path : String} {reason : Mismatch}
    (h : judge t u isMain o = .ok (.fatal path reason)) :
    path = t.path ∧ ∃ summary, reason = .content t.path summary (o.permittedIn isMain) := by
  obtain ⟨-, hno⟩ | ⟨-, category, -, hno⟩ | ⟨-, -, x, y, -, -, hpayloads⟩ := judge_eq_ok_iff.mp h
  · cases hno
  · cases hno
  · obtain ⟨x', y', -, ⟨-, -, hno⟩ | ⟨-, hcontent⟩⟩ := judgePayloads_eq_ok_iff.mp hpayloads
    · cases hno
    · simp only [judgeContent] at hcontent
      split at hcontent
      · cases hcontent
      · cases hcontent
        exact ⟨rfl, _, rfl⟩

/-- Where signatures can be taken off, readable entries have a verdict: that a main executable or another
    file differs is a mismatch of its content, on its path. -/
theorem exists_judge_of_not_failsToStrip {isMain : Bool} (ht : ∃ x, t.read = .ok x)
    (hu : ∃ y, u.read = .ok y) (hstrip : ∀ failure, ¬FailsToStrip o.stripper t u failure) :
    ∃ v, judge t u isMain o = .ok v ∧ v.path = t.path ∧ ∀ path reason, v = .fatal path reason →
      path = t.path ∧ ∃ summary, reason = .content t.path summary (o.permittedIn isMain) := by
  cases hjudge : judge t u isMain o with
  | error failure => exact absurd ((judge_eq_error_iff_of_readable ht hu).mp hjudge) (hstrip failure)
  | ok v =>
    refine ⟨v, rfl, judge_path hjudge, ?_⟩
    intro path reason hv
    subst hv
    exact eq_content_of_judge_eq_fatal hjudge

theorem addPair_eq_error_iff {c : Comparison} :
    c.addPair o pair = .error failure ↔ Ends o c.mainExecutable pair failure := by
  obtain ⟨t, u⟩ := pair
  simp only [Comparison.addPair, Ends, AreDirs, Bool.and_eq_true]
  by_cases hdirs : t.isDir = true ∧ u.isDir = true
  · simp only [hdirs, and_self, if_true, not_true, false_and, iff_false]
    intro h
    cases h
  · simp only [hdirs, if_false, not_false_eq_true, true_and]
    cases judge t u (c.mainExecutable == some t.path) o with
    | error failure' =>
      show Except.error failure' = Except.error failure ↔ _
      simp
    | ok v =>
      cases v with
      | fatal path reason =>
        show Except.error (Failure.mismatch reason) = Except.error failure ↔ _
        simp [eq_comm]
      | identical path =>
        show Except.ok _ = Except.error failure ↔ _
        simp
      | tolerated path count category =>
        show Except.ok _ = Except.error failure ↔ _
        simp

/-! ## The whole comparison -/

/-- A run through pairs ends at a pair exactly if every pair in front of it is accepted. -/
theorem foldlM_addPair_eq_error_iff {pairs : List (Entry × Entry)} {c : Comparison} :
    pairs.foldlM (Comparison.addPair o) c = .error failure ↔
      ∃ before pair after, pairs = before ++ pair :: after ∧
        (∀ p ∈ before, ¬AreDirs p → ∃ v, Accepts o c.mainExecutable p v) ∧
        Ends o c.mainExecutable pair failure := by
  rw [foldlM_eq_error]
  constructor
  · intro h
    obtain ⟨before, pair, after, c', rfl, hrun, hpair⟩ := h
    have hends := addPair_eq_error_iff.mp hpair
    -- the run has not changed which entry is the main executable
    rw [(foldlM_addPair_eq_ok hrun).1] at hends
    exact ⟨before, pair, after, rfl, exists_foldlM_addPair_iff.mp ⟨c', hrun⟩, hends⟩
  · intro h
    obtain ⟨before, pair, after, rfl, hbefore, hends⟩ := h
    obtain ⟨c', hrun⟩ := exists_foldlM_addPair_iff.mpr hbefore
    rw [← (foldlM_addPair_eq_ok hrun).1] at hends
    exact ⟨before, pair, after, c', rfl, hrun, addPair_eq_error_iff.mpr hends⟩

/-- How a comparison fails: the archives have no common root, the layout is not found, a pair ends it, or
    the pairing does not end well. -/
theorem compareArchives_eq_error_iff [Host] {trusted untrusted : List Entry} :
    compareArchives trusted untrusted o = .error failure ↔
      (∃ m, commonRoot o.suffix trusted untrusted = .error m ∧ failure = .mismatch m) ∨
      ∃ root, commonRoot o.suffix trusted untrusted = .ok root ∧
        (Bundle.Layout.find trusted root o.suffix = .error failure ∨
          ∃ layout, Bundle.Layout.find trusted root o.suffix = .ok layout ∧
            ((Pairing.of trusted untrusted o.pairBy).pairs.foldlM (Comparison.addPair o)
                (.start root layout) = .error failure ∨
              ∃ c m, (Pairing.of trusted untrusted o.pairBy).pairs.foldlM (Comparison.addPair o)
                  (.start root layout) = .ok c ∧
                (Pairing.of trusted untrusted o.pairBy).stop = some m ∧ failure = .mismatch m)) := by
  simp only [compareArchives, bind_eq_error, mapError_eq_error, mapError_eq_ok]
  constructor
  · intro h
    obtain hroot | ⟨root, hroot, hlayout | ⟨layout, hlayout, hrun | ⟨c, hrun, hend⟩⟩⟩ := h
    · exact .inl hroot
    · exact .inr ⟨root, hroot, .inl hlayout⟩
    · exact .inr ⟨root, hroot, .inr ⟨layout, hlayout, .inl hrun⟩⟩
    · split at hend
      · rename_i m hstop
        cases hend
        exact .inr ⟨root, hroot, .inr ⟨layout, hlayout, .inr ⟨c, m, hrun, hstop, rfl⟩⟩⟩
      · cases hend
  · intro h
    obtain hroot | ⟨root, hroot, hlayout | ⟨layout, hlayout, hrun | ⟨c, m, hrun, hstop, rfl⟩⟩⟩ := h
    · exact .inl hroot
    · exact .inr ⟨root, hroot, .inl hlayout⟩
    · exact .inr ⟨root, hroot, .inr ⟨layout, hlayout, .inl hrun⟩⟩
    · exact .inr ⟨root, hroot, .inr ⟨layout, hlayout, .inr ⟨c, hrun, by rw [hstop]; rfl⟩⟩⟩

/-- Taking signatures off fails with a failure that is reported, unless a tool takes them off. -/
theorem Stripper.exists_tool_of_strip {s : Stripper} {bytes : ByteArray}
    (h : s.strip bytes = .error failure) (hno : failure.isReported = false) :
    ∃ unsign fault, s = .tool unsign ∧ unsign bytes = .error fault ∧ failure = .ofTool fault := by
  cases s with
  | none => cases h
  | builtin =>
    obtain ⟨e, he, rfl⟩ := mapError_eq_error.mp h
    have htyped : (Failure.binary e).isReported = true := MachO.stripSignatures_isTyped he
    rw [htyped] at hno
    cases hno
  | tool unsign =>
    obtain ⟨fault, hfault, rfl⟩ := mapError_eq_error.mp h
    exact ⟨unsign, fault, rfl, hfault, rfl⟩

/-- If a comparison fails with what is not reported, a payload cannot be read, the information of the
    trusted bundle raises a fault, or a tool fails on a payload. -/
theorem compareArchives_eq_unreported [Host] {trusted untrusted : List Entry}
    (h : compareArchives trusted untrusted o = .error failure) (hno : failure.isReported = false) :
    (∃ e, failure = .archive e ∧ ∃ entry ∈ trusted ++ untrusted, entry.read = .error e) ∨
      (∃ fault, failure = .faultyInformation fault ∧ ∃ entry ∈ trusted, ∃ payload,
        entry.read = .ok payload ∧ Plist.decode payload = .error (.fault fault)) ∨
      ∃ unsign fault, o.stripper = .tool unsign ∧ failure = .ofTool fault ∧
        ∃ entry ∈ trusted ++ untrusted, ∃ payload, entry.read = .ok payload ∧
          unsign payload = .error fault := by
  obtain ⟨m, -, rfl⟩ | ⟨root, -, hlayout | ⟨layout, -, hrun | ⟨c, m, -, -, rfl⟩⟩⟩ :=
    compareArchives_eq_error_iff.mp h
  · cases hno
  · obtain hinfo | ⟨info, -, hfind⟩ := bind_eq_error.mp hlayout
    · obtain ⟨e, he, -, ⟨fault, hread, rfl⟩ | ⟨payload, fault, hread, hdecode, rfl⟩⟩ :=
        Bundle.findInfo_eq_error hinfo
      · exact .inl ⟨fault, rfl, e, List.mem_append_left _ he, hread⟩
      · exact .inr (.inl ⟨fault, rfl, e, he, payload, hread, hdecode⟩)
    · cases hfind
  · obtain ⟨before, ⟨t, u⟩, after, hpairs, -, -, hfails | ⟨path, m, -, rfl⟩⟩ :=
      foldlM_addPair_eq_error_iff.mp hrun
    · -- a pair cannot be judged: a payload is not read, or not stripped
      have hmem := Pairing.mem_of_mem_pairs (hpairs ▸ List.mem_append_right _ List.mem_cons_self)
      obtain ⟨e, rfl, hread | hread⟩ | ⟨-, -, x, y, hx, hy, -, hstrip⟩ := judge_eq_error hfails
      · exact .inl ⟨e, rfl, t, List.mem_append_left _ hmem.1, hread⟩
      · exact .inl ⟨e, rfl, u, List.mem_append_right _ hmem.2.1, hread⟩
      · obtain hx' | ⟨x', -, hy'⟩ := hstrip
        · obtain ⟨unsign, fault, htool, hfault, rfl⟩ := Stripper.exists_tool_of_strip hx' hno
          exact .inr (.inr ⟨unsign, fault, htool, rfl, t, List.mem_append_left _ hmem.1, x, hx, hfault⟩)
        · obtain ⟨unsign, fault, htool, hfault, rfl⟩ := Stripper.exists_tool_of_strip hy' hno
          exact .inr (.inr
            ⟨unsign, fault, htool, rfl, u, List.mem_append_right _ hmem.2.1, y, hy, hfault⟩)
    · cases hno
  · cases hno

/-- Nothing is taken off, or by this library: then the fault is one of a binary, and it has a class. -/
theorem Stripper.FailsOn.eq_binary {s : Stripper} {x y : ByteArray}
    (hstripper : s = .none ∨ s = .builtin) (h : s.FailsOn x y failure) :
    ∃ e, failure = .binary e ∧ e.IsTyped := by
  obtain ⟨happlies, hfails⟩ := h
  obtain rfl | rfl := hstripper
  · cases happlies
  · obtain ⟨z, hz⟩ : ∃ z, (MachO.stripSignatures z).mapError Failure.binary = .error failure := by
      obtain hx | ⟨x', -, hy⟩ := hfails
      · exact ⟨x, hx⟩
      · exact ⟨y, hy⟩
    obtain ⟨e, he, rfl⟩ := mapError_eq_error.mp hz
    exact ⟨e, rfl, MachO.stripSignatures_isTyped he⟩

/-- A comparison comes to a pair: the archives have a common root, the layout is found, and every pair in
    front of this one is accepted. -/
def ComesTo [Host] (o : Options) (trusted untrusted : List Entry) (pair : Entry × Entry) : Prop :=
  ∃ root layout before after, commonRoot o.suffix trusted untrusted = .ok root ∧
    Bundle.Layout.find trusted root o.suffix = .ok layout ∧
    (Pairing.of trusted untrusted o.pairBy).pairs = before ++ pair :: after ∧
    (∀ p ∈ before, ¬AreDirs p → ∃ v, Accepts o layout.executable p v) ∧ ¬AreDirs pair

/-- A comparison of readable archives that does not fail with a mismatch fails exactly if it comes to two
    payloads whose signatures cannot be taken off. -/
theorem compareArchives_eq_error_iff_of_readable [Host] {trusted untrusted : List Entry}
    (hread : ∀ e ∈ trusted ++ untrusted, ∃ payload, e.read = .ok payload)
    (hlayout : ∀ root, commonRoot o.suffix trusted untrusted = .ok root →
      ∃ layout, Bundle.Layout.find trusted root o.suffix = .ok layout)
    (hno : ∀ m, failure ≠ .mismatch m) :
    compareArchives trusted untrusted o = .error failure ↔
      ∃ t u, ComesTo o trusted untrusted (t, u) ∧ FailsToStrip o.stripper t u failure := by
  -- a pair that a comparison comes to has readable payloads
  have hjudge {before after : List (Entry × Entry)} {t u : Entry} {isMain : Bool}
      (hpairs : (Pairing.of trusted untrusted o.pairBy).pairs = before ++ (t, u) :: after) :
      judge t u isMain o = .error failure ↔ FailsToStrip o.stripper t u failure := by
    have hmem := Pairing.mem_of_mem_pairs (hpairs ▸ List.mem_append_right _ List.mem_cons_self)
    exact judge_eq_error_iff_of_readable (hread t (List.mem_append_left _ hmem.1))
      (hread u (List.mem_append_right _ hmem.2.1))
  rw [compareArchives_eq_error_iff]
  constructor
  · intro h
    obtain ⟨m, -, hm⟩ | ⟨root, hroot, hfault | ⟨layout, hfound, hrun | ⟨c, m, -, -, hm⟩⟩⟩ := h
    · exact absurd hm (hno m)
    · obtain ⟨layout, hfound⟩ := hlayout root hroot
      rw [hfound] at hfault
      cases hfault
    · obtain ⟨before, ⟨t, u⟩, after, hpairs, hbefore, hdirs, hfails | ⟨path, m, -, hm⟩⟩ :=
        foldlM_addPair_eq_error_iff.mp hrun
      · exact ⟨t, u, ⟨root, layout, before, after, hroot, hfound, hpairs, hbefore, hdirs⟩,
          (hjudge hpairs).mp hfails⟩
      · exact absurd hm (hno m)
    · exact absurd hm (hno m)
  · intro h
    obtain ⟨t, u, ⟨root, layout, before, after, hroot, hfound, hpairs, hbefore, hdirs⟩, hfails⟩ := h
    refine .inr ⟨root, hroot, .inr ⟨layout, hfound, .inl ?_⟩⟩
    exact foldlM_addPair_eq_error_iff.mpr
      ⟨before, (t, u), after, hpairs, hbefore, hdirs, .inl ((hjudge hpairs).mpr hfails)⟩

/-- Where all payloads can be read, the information of a common root raises no fault, and signatures are
    taken off by this library if at all: a comparison that fails does so with a mismatch, or with a typed
    fault of a binary. It fails with such a fault exactly if, in front of any mismatch, it comes to two
    payloads that look like binaries but whose signatures cannot be taken off. Any other two entries have
    a verdict, which is a mismatch of the content on their path if it is a mismatch. -/
theorem compareArchives_fails_at_mismatch_or_binary [Host] {trusted untrusted : List Entry} {o : Options}
    (hread : ∀ e ∈ trusted ++ untrusted, ∃ payload, e.read = .ok payload)
    (hdecode : ∀ root, commonRoot o.suffix trusted untrusted = .ok root →
      ∀ e, Bundle.entryOfInfo? trusted root = some e → ∀ payload, e.read = .ok payload →
        ∀ fault, Plist.decode payload ≠ .error (.fault fault))
    (hstripper : o.stripper = .none ∨ o.stripper = .builtin) :
    (∀ failure, compareArchives trusted untrusted o = .error failure →
      (∃ m, failure = .mismatch m) ∨ ∃ e, failure = .binary e ∧ e.IsTyped) ∧
    (∀ e, compareArchives trusted untrusted o = .error (.binary e) ↔
      ∃ t u, ComesTo o trusted untrusted (t, u) ∧ FailsToStrip o.stripper t u (.binary e)) ∧
    (∀ t ∈ trusted, ∀ u ∈ untrusted, (∀ e, ¬FailsToStrip o.stripper t u (.binary e)) → ∀ isMain,
      ∃ v, judge t u isMain o = .ok v ∧ v.path = t.path ∧ ∀ path reason, v = .fatal path reason →
        path = t.path ∧ ∃ summary, reason = .content t.path summary (o.permittedIn isMain)) := by
  have htrusted : ∀ t ∈ trusted, ∃ x, t.read = .ok x :=
    fun t ht => hread t (List.mem_append_left _ ht)
  -- the information has no faulty value, so that each root has a layout
  have hlayout (root : String) (hroot : commonRoot o.suffix trusted untrusted = .ok root) :
      ∃ layout, Bundle.Layout.find trusted root o.suffix = .ok layout :=
    Bundle.Layout.exists_find htrusted (hdecode root hroot)
  have hbinary {t u : Entry} {failure : Failure} (h : FailsToStrip o.stripper t u failure) :
      ∃ e, failure = .binary e ∧ e.IsTyped := by
    obtain ⟨-, -, x, y, -, -, hfails⟩ := h
    exact hfails.eq_binary hstripper
  refine ⟨?only, ?exactly, ?others⟩
  case only =>
    intro failure h
    by_cases hm : ∃ m, failure = .mismatch m
    · exact .inl hm
    · have hiff := compareArchives_eq_error_iff_of_readable hread hlayout
        (fun m heq => hm ⟨m, heq⟩)
      obtain ⟨t, u, -, hfails⟩ := hiff.mp h
      exact .inr (hbinary hfails)
  case exactly =>
    intro e
    apply compareArchives_eq_error_iff_of_readable hread hlayout
    intro m hno
    cases hno
  case others =>
    -- a pair that is not stripped in vain is judged, whatever becomes of the others
    intro t ht u hu hstrip isMain
    apply exists_judge_of_not_failsToStrip (htrusted t ht) (hread u (List.mem_append_right _ hu))
    intro failure hfails
    obtain ⟨e, rfl, -⟩ := hbinary hfails
    exact hstrip e hfails

/-! ## Binaries that cannot be walked through -/

/-- A comparison of archives that have one entry each, of the same path, comes to the pair of them. -/
theorem comesTo_singleton [Host] {t u : Entry} {o : Options} {root : String} {layout : Bundle.Layout}
    (hpath : t.path = u.path) (hroot : Bundle.root? o.suffix [t.path] = some root)
    (hlayout : Bundle.Layout.find [t] root o.suffix = .ok layout) (hdirs : ¬AreDirs (t, u)) :
    ComesTo o [t] [u] (t, u) := by
  refine ⟨root, layout, [], [], ?_, hlayout, ?_, by simp, hdirs⟩
  · exact commonRoot_eq_ok_iff.mpr ⟨rfl, hroot, by rwa [hpath] at hroot⟩
  · rw [Pairing.of_singleton hpath]
    rfl

theorem exists_read_fileWith {path path' : String} {checksum checksum' : Int} {x y : ByteArray} :
    ∀ e ∈ [fileWith path checksum x] ++ [fileWith path' checksum' y], ∃ payload, e.read = .ok payload := by
  intro e he
  obtain rfl | rfl := by simpa using he
  · exact ⟨x, rfl⟩
  · exact ⟨y, rfl⟩

/-- Two fat binaries whose only slice lies beyond the file: the header is read, and the slice is not. -/
theorem compareArchives_fails_at_missing_slice :
    let t := fileWith "A.app/a" 1 ⟨#[0xca, 0xfe, 0xba, 0xbe, 0, 0, 0, 1, 0, 0, 0, 7, 0, 0, 0, 3,
      0, 0, 0, 28, 0, 0, 0, 1, 0, 0, 0, 0]⟩
    let u := fileWith "A.app/a" 2 ⟨#[0xca, 0xfe, 0xba, 0xbe, 0, 0, 0, 1, 0, 0, 0, 7, 0, 0, 0, 3,
      0, 0, 0, 28, 0, 0, 0, 2, 0, 0, 0, 0]⟩
    let o := { Options.standard with stripper := .builtin }
    (∀ e ∈ [t] ++ [u], ∃ payload, e.read = .ok payload) ∧
      (∀ root, commonRoot o.suffix [t] [u] = .ok root → ∀ e, Bundle.entryOfInfo? [t] root = some e →
        ∀ payload, e.read = .ok payload → ∀ fault, Plist.decode payload ≠ .error (.fault fault)) ∧
      o.stripper = .builtin ∧
      compareArchives [t] [u] o = .error (.binary (.rangeOutOfBounds 28 1 28)) := by
  intro t u o
  have hread : ∀ e ∈ [t] ++ [u], ∃ payload, e.read = .ok payload := exists_read_fileWith
  have hdecode : ∀ root, commonRoot o.suffix [t] [u] = .ok root →
      ∀ e, Bundle.entryOfInfo? [t] root = some e → ∀ payload, e.read = .ok payload →
        ∀ fault, Plist.decode payload ≠ .error (.fault fault) := by
    intro root _ e he payload hpayload fault hfault
    obtain rfl := List.mem_singleton.mp (Bundle.mem_of_entryOfInfo? he).1
    cases hpayload
    cases hfault
  have hroot : Bundle.root? o.suffix [t.path] = some "A.app" := by decide +kernel
  have hlayout : Bundle.Layout.find [t] "A.app" o.suffix = .ok { executable := none, info := none } :=
    rfl
  obtain ⟨-, hexactly, -⟩ :=
    compareArchives_fails_at_mismatch_or_binary (o := o) hread hdecode (.inr rfl)
  refine ⟨hread, hdecode, rfl, (hexactly _).mpr ⟨t, u, ?_, ?_⟩⟩
  · exact comesTo_singleton rfl hroot hlayout (by decide)
  · exact ⟨by unfold RecordedSame; decide, by decide, _, _, rfl, rfl, by decide +kernel, .inl rfl⟩

/-- Two thin binaries that end behind their headers, where a load command is declared, and differ in the
    last byte: the comparison neither has a result nor fails with a mismatch. -/
theorem compareArchives_truncated_binary :
    let t := fileWith "A.app/a" 1 ⟨#[0xfe, 0xed, 0xfa, 0xce, 0, 0, 0, 18, 0, 0, 0, 0, 0, 0, 0, 2,
      0, 0, 0, 1, 0, 0, 0, 0, 0, 0, 0, 0]⟩
    let u := fileWith "A.app/a" 2 ⟨#[0xfe, 0xed, 0xfa, 0xce, 0, 0, 0, 18, 0, 0, 0, 0, 0, 0, 0, 2,
      0, 0, 0, 1, 0, 0, 0, 0, 0, 0, 0, 1]⟩
    let o := { Options.standard with stripper := .builtin }
    (∀ e ∈ [t] ++ [u], ∃ payload, e.read = .ok payload) ∧
      (∀ e ∈ [t], ∀ payload, e.read = .ok payload → Plist.decode payload = .error .malformed) ∧
      compareArchives [t] [u] o = .error (.binary (.insufficient "load command header" 8 28 0)) ∧
      ¬((∃ c, compareArchives [t] [u] o = .ok c) ∨
        ∃ m, compareArchives [t] [u] o = .error (.mismatch m)) := by
  intro t u o
  have hread : ∀ e ∈ [t] ++ [u], ∃ payload, e.read = .ok payload := exists_read_fileWith
  have hmalformed : ∀ e ∈ [t], ∀ payload, e.read = .ok payload →
      Plist.decode payload = .error .malformed := by
    intro e he payload hpayload
    obtain rfl := List.mem_singleton.mp he
    cases hpayload
    rfl
  have hfound (root : String) : ∃ layout, Bundle.Layout.find [t] root o.suffix = .ok layout := by
    apply Bundle.Layout.exists_find (fun e he => hread e (List.mem_append_left _ he))
    intro e he payload hpayload fault hfault
    rw [hmalformed e (Bundle.mem_of_entryOfInfo? he).1 payload hpayload] at hfault
    cases hfault
  have hroot : Bundle.root? o.suffix [t.path] = some "A.app" := by decide +kernel
  have hlayout : Bundle.Layout.find [t] "A.app" o.suffix = .ok { executable := none, info := none } :=
    rfl
  have hfails : compareArchives [t] [u] o =
      .error (.binary (.insufficient "load command header" 8 28 0)) := by
    -- the only pair fails at the load command for which there is no room
    rw [compareArchives_eq_error_iff_of_readable hread (fun root _ => hfound root)
      (by intro m hno; cases hno)]
    refine ⟨t, u, comesTo_singleton rfl hroot hlayout (by decide), ?_⟩
    exact ⟨by unfold RecordedSame; decide, by decide, _, _, rfl, rfl, by decide +kernel, .inl rfl⟩
  refine ⟨hread, hmalformed, hfails, ?_⟩
  rw [hfails]
  simp

end ReleaseSeal.Compare
