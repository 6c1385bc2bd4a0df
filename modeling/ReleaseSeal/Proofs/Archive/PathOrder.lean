import Mathlib.Data.List.Lex
import ReleaseSeal.Proofs.Archive.Folder
import ReleaseSeal.Proofs.Text.Listing

/-!
# The order of paths in a listing

A directory that is listed as an archive comes name by name, the files in front of the directories. This
is the order of the paths as texts only if it is so in each directory of the tree: a file may have a name
that comes behind that of a directory, and the slash behind the name of a directory comes behind some
characters that names have, such as a blank, a hyphen or a period.

## Key results

- `append_le_append_iff`: texts that part are ordered where they part
- `pairwise_treeEntries_iff`: when the paths of a tree ascend
- `entries_folder_ascend_iff`: when those of a listing do
- `entries_folder_not_ascending`: two listings whose paths do not
-/

namespace ReleaseSeal.Archive

open Files (Node Volume IsName)

variable {fetch : String → Except Error ByteArray} {path : String} {children : List (String × Node)}
  {child child' : String × Node} {tree : Node}

/-! ## Texts that part -/

section

variable {p q x y : List Char}

theorem append_lt_append_left_iff : p ++ x < p ++ y ↔ x < y := by
  induction p with
  | nil => simp
  | cons c p ih => simp [ih]

/-- Where two texts part, what follows makes no difference to their order. -/
theorem append_lt_append_iff (hp : ¬p <+: q) (hq : ¬q <+: p) : p ++ x < q ++ y ↔ p < q := by
  induction p generalizing q with
  | nil => exact absurd List.nil_prefix hp
  | cons c p ih =>
    cases q with
    | nil => exact absurd List.nil_prefix hq
    | cons d q =>
      rw [List.cons_append, List.cons_append, List.cons_lt_cons_iff, List.cons_lt_cons_iff]
      by_cases hcd : c = d
      · subst hcd
        rw [List.prefix_cons_inj] at hp hq
        rw [ih hp hq]
      · simp [hcd]

end

/-- The order of two texts that part is that of their continuations. -/
theorem append_le_append_iff {a b rest rest' : String} (ha : ¬a.toList <+: b.toList)
    (hb : ¬b.toList <+: a.toList) : a ++ rest ≤ b ++ rest' ↔ a ≤ b := by
  rw [← not_lt, ← not_lt, String.lt_iff_toList_lt, String.lt_iff_toList_lt, String.toList_append,
    String.toList_append, append_lt_append_iff hb ha]

/-- What two texts start with makes no difference to their order. -/
theorem append_le_append_left_iff {a b : String} : path ++ a ≤ path ++ b ↔ a ≤ b := by
  rw [← not_lt, ← not_lt, String.lt_iff_toList_lt, String.lt_iff_toList_lt, String.toList_append,
    String.toList_append, append_lt_append_left_iff]

theorem le_append (a rest : String) : a ≤ a ++ rest := by
  have hle : a ++ "" ≤ a ++ rest := by
    rw [append_le_append_left_iff, ← not_lt, String.lt_iff_toList_lt, String.toList_empty]
    exact List.not_lt_nil _
  rwa [String.append_empty] at hle

/-! ## The paths of one child -/

/-- What the paths of a child and of everything below it start with. -/
def leadOf : String × Node → String
  | (name, .file _) => name
  | (name, .dir _) => name ++ "/"

theorem leadOf_file (h : child.2.isDir = false) : leadOf child = child.1 := by
  obtain ⟨name, node⟩ := child
  cases node with
  | file bytes => rfl
  | dir inner => cases h

theorem leadOf_dir (h : child.2.isDir = true) : leadOf child = child.1 ++ "/" := by
  obtain ⟨name, node⟩ := child
  cases node with
  | file bytes => cases h
  | dir inner => rfl

/-- The entries of a child of the directory at a path: its own, and those below it. -/
def entriesOf (fetch : String → Except Error ByteArray) (path : String) (child : String × Node) :
    List Entry :=
  entryUnder fetch path ([child.1], child.2) ::
    treeEntries fetch (path ++ child.1 ++ "/") child.2

theorem path_entryUnder_singleton :
    (entryUnder fetch path ([child.1], child.2)).path = path ++ leadOf child := by
  obtain ⟨name, node⟩ := child
  cases node with
  | file bytes => simp [entryUnder, Entry.ofFile, leadOf]
  | dir inner => simp [entryUnder, Entry.ofDir, leadOf, String.append_assoc]

/-- A path below a directory continues the path of the directory. -/
theorem exists_path_of_mem_treeEntries {e : Entry} (he : e ∈ treeEntries fetch path tree) :
    ∃ rest, e.path = path ++ rest := by
  obtain ⟨⟨names, node⟩, -, rfl⟩ := List.mem_map.mp he
  cases node with
  | file bytes => exact ⟨_, rfl⟩
  | dir inner => exact ⟨_, String.append_assoc⟩

/-- The paths of a child start with its lead; that of a file is no longer than this. -/
theorem exists_path_of_mem_entriesOf {e : Entry} (he : e ∈ entriesOf fetch path child) :
    ∃ rest, e.path = path ++ (leadOf child ++ rest) ∧ (child.2.isDir = false → rest = "") := by
  obtain hfirst | hbelow := List.mem_cons.mp he
  · refine ⟨"", ?_, fun _ => rfl⟩
    rw [hfirst, path_entryUnder_singleton, String.append_empty]
  · obtain ⟨rest, hrest⟩ := exists_path_of_mem_treeEntries hbelow
    obtain ⟨name, node⟩ := child
    cases node with
    | file bytes =>
      -- there is nothing below a file
      rw [treeEntries_file] at hbelow
      cases hbelow
    | dir inner =>
      refine ⟨rest, by simp [hrest, leadOf, String.append_assoc], ?_⟩
      intro hfile
      cases hfile

/-- The entry of a child is in front of those below it. -/
theorem pairwise_entriesOf_iff :
    (entriesOf fetch path child).Pairwise (fun e e' => e.path ≤ e'.path) ↔
      (treeEntries fetch (path ++ child.1 ++ "/") child.2).Pairwise fun e e' => e.path ≤ e'.path := by
  rw [entriesOf, List.pairwise_cons]
  constructor
  · exact And.right
  · intro hbelow
    refine ⟨?_, hbelow⟩
    intro e he
    obtain ⟨rest, hrest, -⟩ := exists_path_of_mem_entriesOf (List.mem_cons_of_mem _ he)
    rw [path_entryUnder_singleton, hrest, append_le_append_left_iff]
    exact le_append _ _

/-! ## The paths of two children -/

/-- Two names with a slash behind each part, or are the same. -/
theorem eq_of_slash_isPrefix {a b : String} (hb : '/' ∉ b.toList)
    (h : (a ++ "/").toList <+: (b ++ "/").toList) : a = b := by
  obtain ⟨rest, hrest⟩ := h
  have hsplit : b.toList ++ '/' :: [] = a.toList ++ '/' :: rest := by simpa using hrest.symm
  exact String.toList_inj.mp ((List.append_cons_inj_of_notMem hb List.not_mem_nil).mp hsplit).1.symm

/-- All paths of a child are in front of all paths of another one behind it in the listing exactly if its
    lead is in front of the other's. -/
theorem forall_entriesOf_le_iff
    (hname : IsName child.1) (hname' : IsName child'.1) (hne : child.1 ≠ child'.1)
    (hdir : child.2.isDir = true → child'.2.isDir = true) :
    (∀ e ∈ entriesOf fetch path child, ∀ e' ∈ entriesOf fetch path child', e.path ≤ e'.path) ↔
      leadOf child ≤ leadOf child' := by
  constructor
  · intro hall
    have hfirst := hall _ List.mem_cons_self _ List.mem_cons_self
    rwa [path_entryUnder_singleton, path_entryUnder_singleton, append_le_append_left_iff] at hfirst
  · intro hlead e he e' he'
    obtain ⟨rest, hrest, hfile⟩ := exists_path_of_mem_entriesOf he
    obtain ⟨rest', hrest', hfile'⟩ := exists_path_of_mem_entriesOf he'
    rw [hrest, hrest', append_le_append_left_iff]
    obtain ⟨name, node⟩ := child
    obtain ⟨name', node'⟩ := child'
    cases node with
    | file bytes =>
      rw [hfile rfl, String.append_empty]
      exact hlead.trans (le_append _ _)
    | dir inner =>
      cases node' with
      | file bytes' => exact absurd (hdir rfl) Bool.false_ne_true
      | dir inner' =>
        -- behind the slashes the two have parted
        have hparted {a b : String} (hb : IsName b) (hab : a ≠ b) :
            ¬(a ++ "/").toList <+: (b ++ "/").toList :=
          fun hprefix => hab (eq_of_slash_isPrefix hb.no_slash hprefix)
        exact (append_le_append_iff (hparted hname' hne)
          (hparted hname hne.symm)).mpr hlead

/-! ## The paths of a tree -/

/-- The children of a directory, files in front of directories and otherwise by name, are in the order of
    their paths: each file comes in front of each directory with its slash, and directories in the order
    of their names are still in order with their slashes. -/
structure KeepsOrder (children : List (String × Node)) : Prop where
  file_dir : ∀ a ∈ children, ∀ b ∈ children, a.2.isDir = false → b.2.isDir = true → a.1 ≤ b.1 ++ "/"
  dir_dir : ∀ a ∈ children, ∀ b ∈ children, a.2.isDir = true → b.2.isDir = true → a.1 < b.1 →
    a.1 ++ "/" ≤ b.1 ++ "/"

theorem KeepsOrder.filter (h : KeepsOrder children) (p : String × Node → Bool) :
    KeepsOrder (children.filter p) where
  file_dir a ha b hb := h.file_dir a (List.mem_of_mem_filter ha) b (List.mem_of_mem_filter hb)
  dir_dir a ha b hb := h.dir_dir a (List.mem_of_mem_filter ha) b (List.mem_of_mem_filter hb)

/-- What is below the children makes no difference to the order. -/
theorem keepsOrder_reachableAmong_iff {location : String} :
    KeepsOrder (reachableAmong location children) ↔ KeepsOrder (children.filter (opens location)) := by
  rw [reachableAmong_eq]
  constructor
  · intro h
    obtain ⟨hcross, hdirs⟩ := h
    simp only [List.forall_mem_map, isDir_reachable] at hcross hdirs
    exact { file_dir := hcross, dir_dir := hdirs }
  · intro h
    refine { file_dir := ?_, dir_dir := ?_ }
    · simp only [List.forall_mem_map, isDir_reachable]
      exact h.file_dir
    · simp only [List.forall_mem_map, isDir_reachable]
      exact h.dir_dir

/-- Sorting by distinct names sorts by something else exactly if that has the same order. -/
theorem pairwise_inNameOrder_iff {α : Type} {items : List (String × α)}
    {R : String × α → String × α → Prop} (h : (items.map (·.1)).Nodup) :
    (inNameOrder items).Pairwise R ↔ ∀ a ∈ items, ∀ b ∈ items, a.1 < b.1 → R a b := by
  have hnames : (inNameOrder items).Pairwise fun a b => a.1 < b.1 := Text.pairwise_name_lt_mergeSort h
  have hmem (a : String × α) : a ∈ inNameOrder items ↔ a ∈ items := (perm_inNameOrder items).mem_iff
  constructor
  · intro hR a ha b hb hab
    have hforward := hR.imp fun {c d} hcd => show c.1 < d.1 → R c d from fun _ => hcd
    have hbackward := hnames.imp fun {c d} hcd => show d.1 < c.1 → R d c from
      fun hdc => absurd hdc hcd.not_gt
    exact List.Pairwise.forall_of_forall_of_flip (fun c _ hcc => absurd hcc (lt_irrefl _)) hforward
      hbackward ((hmem a).mpr ha) ((hmem b).mpr hb) hab
  · intro hall
    exact hnames.imp_of_mem fun ha hb hab => hall _ ((hmem _).mp ha) _ ((hmem _).mp hb) hab

/-- In a listing names differ, and behind a directory there are directories. -/
theorem pairwise_listed (h : (Node.dir children).WellNamed) :
    (listed children).Pairwise fun a b => a.1 ≠ b.1 ∧ (a.2.isDir = true → b.2.isDir = true) := by
  have hnames : ((listed children).map (·.1)).Nodup :=
    ((perm_listed children).map _).nodup_iff.mpr h.distinct
  refine (List.pairwise_map.mp hnames).and ?_
  have hfile {a : String × Node} (ha : a ∈ inNameOrder (children.filter fun child => !child.2.isDir)) :
      ¬a.2.isDir = true := by
    simpa using (List.mem_filter.mp ((perm_inNameOrder _).mem_iff.mp ha)).2
  have hdir {a : String × Node} (ha : a ∈ inNameOrder (children.filter fun child => child.2.isDir)) :
      a.2.isDir = true :=
    (List.mem_filter.mp ((perm_inNameOrder _).mem_iff.mp ha)).2
  rw [listed, List.pairwise_append]
  refine ⟨?_, ?_, ?_⟩
  · exact List.pairwise_of_forall_mem_list fun a ha b _ hno => absurd hno (hfile ha)
  · exact List.pairwise_of_forall_mem_list fun a _ b hb _ => hdir hb
  · exact fun a _ b hb _ => hdir hb

/-- The leads of the children ascend as they are listed exactly if the directory keeps the order. -/
theorem pairwise_lead_listed_iff (h : (Node.dir children).WellNamed) :
    (listed children).Pairwise (fun a b => leadOf a ≤ leadOf b) ↔ KeepsOrder children := by
  have hnodup (p : String × Node → Bool) : ((children.filter p).map (·.1)).Nodup :=
    h.distinct.sublist (List.filter_sublist.map _)
  rw [listed, List.pairwise_append, pairwise_inNameOrder_iff (hnodup _),
    pairwise_inNameOrder_iff (hnodup _)]
  simp only [(perm_inNameOrder _).mem_iff, List.mem_filter, Bool.not_eq_true']
  constructor
  · rintro ⟨-, hdirs, hcross⟩
    refine { file_dir := ?_, dir_dir := ?_ }
    · intro a ha b hb hfile hdir
      have hle := hcross a ⟨ha, hfile⟩ b ⟨hb, hdir⟩
      rwa [leadOf_file hfile, leadOf_dir hdir] at hle
    · intro a ha b hb hdir hdir' hlt
      have hle := hdirs a ⟨ha, hdir⟩ b ⟨hb, hdir'⟩ hlt
      rwa [leadOf_dir hdir, leadOf_dir hdir'] at hle
  · intro hkeeps
    refine ⟨?_, ?_, ?_⟩
    · rintro a ⟨-, hfile⟩ b ⟨-, hfile'⟩ hlt
      rw [leadOf_file hfile, leadOf_file hfile']
      exact hlt.le
    · rintro a ⟨ha, hdir⟩ b ⟨hb, hdir'⟩ hlt
      rw [leadOf_dir hdir, leadOf_dir hdir']
      exact hkeeps.dir_dir a ha b hb hdir hdir' hlt
    · rintro a ⟨ha, hfile⟩ b ⟨hb, hdir⟩
      rw [leadOf_file hfile, leadOf_dir hdir]
      exact hkeeps.file_dir a ha b hb hfile hdir

/-- The paths of a tree ascend exactly if each directory in it keeps the order. -/
theorem pairwise_treeEntries_iff (h : tree.WellNamed) :
    (treeEntries fetch path tree).Pairwise (fun e e' => e.path ≤ e'.path) ↔
      ∀ names children, tree.At names (.dir children) → KeepsOrder children := by
  induction h generalizing path with
  | file bytes => simp [treeEntries_file, Files.Node.at_file_iff]
  | @dir children hnames hdistinct hbelow ih =>
    have hdir : (Node.dir children).WellNamed := .dir hnames hdistinct hbelow
    have hlisted {child : String × Node} : child ∈ listed children ↔ child ∈ children :=
      (perm_listed children).mem_iff
    -- within a child, the order is a matter of what is below it
    have hwithin : (∀ child ∈ listed children,
        (entriesOf fetch path child).Pairwise fun e e' => e.path ≤ e'.path) ↔
          ∀ child ∈ children, ∀ names inner, child.2.At names (.dir inner) → KeepsOrder inner := by
      simp only [hlisted]
      refine forall₂_congr fun child hchild => ?_
      rw [pairwise_entriesOf_iff, ih child hchild]
    -- between children, it is a matter of their leads
    have hbetween : (listed children).Pairwise (fun child child' =>
        ∀ e ∈ entriesOf fetch path child, ∀ e' ∈ entriesOf fetch path child', e.path ≤ e'.path) ↔
          KeepsOrder children := by
      rw [← pairwise_lead_listed_iff hdir]
      have hpair {child child' : String × Node} (hchild : child ∈ listed children)
          (hchild' : child' ∈ listed children)
          (hapart : child.1 ≠ child'.1 ∧ (child.2.isDir = true → child'.2.isDir = true)) :
          (∀ e ∈ entriesOf fetch path child, ∀ e' ∈ entriesOf fetch path child', e.path ≤ e'.path) ↔
            leadOf child ≤ leadOf child' :=
        forall_entriesOf_le_iff (hnames _ (hlisted.mp hchild)) (hnames _ (hlisted.mp hchild')) hapart.1
          hapart.2
      have hlist := pairwise_listed hdir
      constructor
      · intro hall
        exact (hlist.and hall).imp_of_mem fun ha hb hab => (hpair ha hb hab.1).mp hab.2
      · intro hleads
        exact (hlist.and hleads).imp_of_mem fun ha hb hab => (hpair ha hb hab.1).mpr hab.2
    have hsplit : treeEntries fetch path (.dir children) =
        (listed children).flatMap (entriesOf fetch path) := treeEntries_dir
    rw [hsplit, List.pairwise_flatMap, hwithin, hbetween]
    constructor
    · rintro ⟨hinner, hkeeps⟩ names inner hat
      cases hat with
      | top => exact hkeeps
      | inside hmem hrest => exact hinner _ hmem _ _ hrest
    · intro hall
      refine ⟨?_, hall [] children (.top _)⟩
      intro child hchild names inner hat
      exact hall (child.1 :: names) inner (.inside hchild hat)

/-! ## Listings -/

/-- A directory is listed as an archive exactly if this meets no fault, and the paths ascend then exactly if
    each directory in it whose path is not too long keeps the order, but for the directories in it whose
    paths are, which are not listed. -/
theorem entries_folder_ascend_iff [Host] {v : Volume} {root : String} (htree : tree.WellNamed)
    (hroot : v.lookup root = .ok tree) :
    ((∃ entries, (Source.folder v root).entries = .ok entries) ↔ Listable root 0 tree) ∧
      ∀ entries, (Source.folder v root).entries = .ok entries →
        ((entries.map Entry.path).Pairwise (· ≤ ·) ↔
          ∀ names children, tree.At names (.dir children) →
            Files.fits (names.foldl Files.join root) = true →
              KeepsOrder (children.filter (opens (names.foldl Files.join root)))) := by
  have hfits : Files.fits root = true := (Files.Volume.lookup_eq_ok_iff.mp hroot).2.2.1
  constructor
  · constructor
    · intro hlisted
      obtain ⟨entries, hentries⟩ := hlisted
      exact ((entries_folder_eq_ok_iff htree hroot).mp hentries).1
    · intro hlist
      exact ⟨_, (entries_folder_eq_ok_iff htree hroot).mpr ⟨hlist, rfl⟩⟩
  · intro entries hentries
    obtain ⟨-, rfl⟩ := (entries_folder_eq_ok_iff htree hroot).mp hentries
    rw [List.pairwise_map, pairwise_treeEntries_iff (reachable_wellNamed htree)]
    constructor
    · intro hkeeps names children hat hshort
      rw [← keepsOrder_reachableAmong_iff]
      exact hkeeps names _ ((at_reachable_dir_iff htree hfits).mpr ⟨children, hat, hshort, rfl⟩)
    · intro hkeeps names children hat
      obtain ⟨children', hat', hshort, rfl⟩ := (at_reachable_dir_iff htree hfits).mp hat
      exact keepsOrder_reachableAmong_iff.mpr (hkeeps names children' hat' hshort)

/-- The directories of the nested tree keep the order, the one without content too. -/
theorem entries_folder_ascend_nest :
    ∃ entries, (Source.folder { root := nest, workingDirectory := [] } "/").entries = .ok entries ∧
      (entries.map Entry.path).Pairwise (· ≤ ·) := by
  have hroot : (Volume.mk nest []).lookup "/" = .ok nest := rfl
  have hentries := entries_folder_eq_ok wellNamed_nest hroot fits_nest fun _ _ _ _ => rfl
  refine ⟨_, hentries, ((entries_folder_ascend_iff wellNamed_nest hroot).2 _ hentries).mpr ?_⟩
  intro names children hat _
  apply KeepsOrder.filter
  cases hat with
  | top => exact { file_dir := by decide, dir_dir := by decide }
  | inside hmem hat =>
    simp only [List.mem_cons, Prod.mk.injEq, List.not_mem_nil, or_false] at hmem
    obtain ⟨rfl, rfl⟩ | ⟨rfl, rfl⟩ := hmem
    · cases hat with
      | top => exact { file_dir := by decide, dir_dir := by decide }
      | inside hmem hat =>
        simp only [List.mem_cons, Prod.mk.injEq, List.not_mem_nil, or_false] at hmem
        obtain ⟨rfl, rfl⟩ | ⟨rfl, rfl⟩ := hmem
        · cases hat
        · cases hat with
          | top => exact { file_dir := by decide, dir_dir := by decide }
          | inside hmem => cases hmem
    · cases hat

/-- What is in the order of its names stays as it is. -/
theorem inNameOrder_eq_self {α : Type} {items : List (String × α)}
    (h : items.Pairwise fun a b => a.1 ≤ b.1) : inNameOrder items = items :=
  Text.mergeSort_name_eq_self h

theorem treeEntries_empty (fetch : String → Except Error ByteArray) (path : String) :
    treeEntries fetch path (.dir []) = [] := by
  rw [treeEntries_dir, listed, inNameOrder_eq_self (by decide), inNameOrder_eq_self (by decide)]
  rfl

/-- A file whose name comes behind that of a directory. -/
def fileBehindDir : Node :=
  .dir [("a", .dir []), ("b", .file ByteArray.empty)]

theorem paths_fileBehindDir (fetch : String → Except Error ByteArray) :
    (treeEntries fetch "" fileBehindDir).map Entry.path = ["b", "a/"] := by
  have hlisted : listed [("a", .dir []), ("b", .file ByteArray.empty)] =
      [("b", .file ByteArray.empty), ("a", .dir [])] := by
    rw [listed, inNameOrder_eq_self (by decide), inNameOrder_eq_self (by decide)]
    rfl
  rw [fileBehindDir, treeEntries_dir, hlisted]
  simp only [List.flatMap_cons, treeEntries_empty, treeEntries_file]
  rfl

/-- Two directories, where the name of one is that of the other with a hyphen behind it. -/
def hyphenated : Node :=
  .dir [("a", .dir []), ("a-", .dir [])]

theorem paths_hyphenated (fetch : String → Except Error ByteArray) :
    (treeEntries fetch "" hyphenated).map Entry.path = ["a/", "a-/"] := by
  have hlisted : listed [("a", .dir []), ("a-", .dir [])] = [("a", .dir []), ("a-", .dir [])] := by
    rw [listed, inNameOrder_eq_self (by decide), inNameOrder_eq_self (by decide)]
    rfl
  rw [hyphenated, treeEntries_dir, hlisted]
  simp only [List.flatMap_cons, treeEntries_empty]
  rfl

/-- A directory at the top of a volume, two names deep, is listed as its tree. -/
theorem entries_folder_flat [Host] {children : List (String × Node)} (htree : (Node.dir children).WellNamed)
    (hroom : ∀ depth, Host.roomToDescend depth = true)
    (hflat : ∀ child ∈ children, child.2 = .dir [] ∨ ∃ bytes, child.2 = .file bytes)
    (hpaths : ∀ child ∈ children, Files.fits (Files.join "/" child.1) = true) :
    ∃ fetch, (Source.folder { root := .dir children, workingDirectory := [] } "/").entries =
      .ok (treeEntries fetch "" (.dir children)) := by
  refine ⟨_, entries_folder_eq_ok htree rfl ?_ fun names _ _ _ => hroom names.length⟩
  rw [Node.forall_at_dir_iff]
  refine ⟨by decide +kernel, fun child hmem => ?_⟩
  have hchild := hpaths child hmem
  obtain hempty | ⟨bytes, hfile⟩ := hflat child hmem
  · rw [hempty, Node.forall_at_dir_iff]
    exact ⟨hchild, fun _ hno => absurd hno List.not_mem_nil⟩
  · rw [hfile, Node.forall_at_file_iff]
    exact hchild

/-- Neither of two small directories is listed in the order of the paths. -/
theorem entries_folder_not_ascending :
    (∃ entries, (Source.folder { root := fileBehindDir, workingDirectory := [] } "/").entries =
        .ok entries ∧
      entries.map Entry.path = ["b", "a/"] ∧ ¬(entries.map Entry.path).Pairwise (· ≤ ·)) ∧
      ∃ entries, (Source.folder { root := hyphenated, workingDirectory := [] } "/").entries =
          .ok entries ∧
        entries.map Entry.path = ["a/", "a-/"] ∧ ¬(entries.map Entry.path).Pairwise (· ≤ ·) := by
  have hempty : Node.WellNamed (.dir []) := .dir (by simp) (by simp) (by simp)
  have hbehind : fileBehindDir.WellNamed := by
    refine .dir (by decide +kernel) (by decide) ?_
    simp only [List.forall_mem_cons]
    exact ⟨hempty, .file _, by simp⟩
  have hhyphenated : hyphenated.WellNamed := by
    refine .dir (by decide +kernel) (by decide) ?_
    simp only [List.forall_mem_cons]
    exact ⟨hempty, hempty, by simp⟩
  obtain ⟨fetch, hentries⟩ := entries_folder_flat hbehind (fun _ => rfl) (by simp) (by decide +kernel)
  obtain ⟨fetch', hentries'⟩ := entries_folder_flat hhyphenated (fun _ => rfl) (by simp) (by decide +kernel)
  refine ⟨⟨_, hentries, paths_fileBehindDir _, ?_⟩, ⟨_, hentries', paths_hyphenated _, ?_⟩⟩
  · rw [← fileBehindDir, paths_fileBehindDir]
    decide
  · rw [← hyphenated, paths_hyphenated]
    decide

end ReleaseSeal.Archive
