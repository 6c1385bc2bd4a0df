import ReleaseSeal.Archive.Source
import ReleaseSeal.Proofs.Archive.Crc32
import ReleaseSeal.Proofs.Files.Tree

/-!
# The entries of a directory tree

Listed as an archive, a directory has one entry for each node below it, whose path is spelled out from
the names on the way to the node. The listing goes down with a path that grows at its end, while a
position is made up from its start; the two meet in `entryUnder`. It comes to the nodes whose paths are
short enough, and to nothing if it meets a fault on the way.

## Key results

- `isWalk_places`: the order in which the nodes of a tree are listed is a walk of it
- `entries_folder_eq_ok_iff`: when a directory is listed, and as which entries
- `at_reachable_dir_iff`: to which directories the listing comes
- `entries_folder_describe_tree`: each entry describes its node, and reads as its file
- `entries_folder_buried_ne_ok`: a tree that is not listed, for its paths are too long
-/

namespace ReleaseSeal.Archive

open Files (Node Volume)
open Files.Node (placesOf isWalk_file isWalk_dir)

variable {fetch : String → Except Error ByteArray} {path : String} {children : List (String × Node)}
  {names : List String} {node tree : Node} {bytes : ByteArray}

/-! ## The order of the entries -/

/-- What comes with the names makes no difference to the order. -/
theorem inNameOrder_map {α β : Type} (items : List (String × α)) (f : String × α → β) :
    inNameOrder (items.map fun item => (item.1, f item)) =
      (inNameOrder items).map fun item => (item.1, f item) := by
  symm
  apply List.map_mergeSort
  intro a _ b _
  rfl

theorem perm_inNameOrder {α : Type} (items : List (String × α)) : (inNameOrder items).Perm items :=
  List.mergeSort_perm ..

/-- The children of a directory in the order in which they are listed: the files, then the directories. -/
def listed (children : List (String × Node)) : List (String × Node) :=
  inNameOrder (children.filter fun child => !child.2.isDir) ++
    inNameOrder (children.filter fun child => child.2.isDir)

theorem perm_listed (children : List (String × Node)) : (listed children).Perm children := by
  have hsorted := (perm_inNameOrder (children.filter fun child => !child.2.isDir)).append
    (perm_inNameOrder (children.filter fun child => child.2.isDir))
  refine hsorted.trans ?_
  have hsplit := List.filter_append_perm (fun child : String × Node => !child.2.isDir) children
  simpa using hsplit

/-- The entry of a node at a position below the directory of a path. -/
def entryUnder (fetch : String → Except Error ByteArray) (path : String) :
    List String × Node → Entry
  | (names, .file bytes) => Entry.ofFile fetch (path ++ "/".intercalate names) bytes
  | (names, .dir _) => Entry.ofDir (path ++ "/".intercalate names ++ "/")

/-- Files that were picked from children are in the order that the children have. -/
theorem map_inNameOrder_filterMap {β : Type} {pick : String × Node → Option (String × ByteArray)}
    {f : String × ByteArray → β} {g : String × Node → β}
    (hfile : ∀ name bytes, pick (name, .file bytes) = some (name, bytes))
    (hdir : ∀ name inner, pick (name, .dir inner) = none)
    (hsame : ∀ name bytes, f (name, bytes) = g (name, .file bytes)) :
    (inNameOrder (children.filterMap pick)).map f =
      (inNameOrder (children.filter fun child => !child.2.isDir)).map g := by
  have hpicked : (children.filterMap pick).map (fun file => (file.1, Node.file file.2)) =
      children.filter fun child => !child.2.isDir := by
    induction children with
    | nil => rfl
    | cons child children ih =>
      obtain ⟨name, node⟩ := child
      cases node with
      | file bytes =>
        rw [List.filterMap_cons_some (hfile name bytes), List.map_cons, ih]
        rfl
      | dir inner =>
        rw [List.filterMap_cons_none (hdir name inner), ih]
        rfl
  rw [← hpicked, inNameOrder_map, List.map_map]
  apply List.map_congr_left
  intro file _
  exact hsame file.1 file.2

/-! ## The nodes of a tree in order -/

mutual

/-- The nodes of a tree with their positions, in the order in which they are listed. -/
def places : Node → List (List String × Node)
  | .file _ => []
  | .dir children =>
    (inNameOrder (children.filter fun child => !child.2.isDir)).map (fun child => ([child.1], child.2)) ++
      (inNameOrder (placesAmong children)).flatMap (·.2)

/-- The directories among some children, each with the nodes of its tree. -/
def placesAmong : List (String × Node) → List (String × List (List String × Node))
  | [] => []
  | child :: rest => placesUnder child ++ placesAmong rest

/-- A child with the nodes of its tree if it is a directory. -/
def placesUnder : String × Node → List (String × List (List String × Node))
  | (_, .file _) => []
  | (name, .dir children) => [(name, placesOf (name, .dir children) (places (.dir children)))]

end

theorem placesAmong_eq :
    placesAmong children = (children.filter fun child => child.2.isDir).map fun child =>
      (child.1, placesOf child (places child.2)) := by
  induction children with
  | nil => rfl
  | cons child children ih =>
    obtain ⟨name, node⟩ := child
    cases node with
    | file bytes => simp [placesAmong, placesUnder, ih]
    | dir inner => simp [placesAmong, placesUnder, ih, List.filter_cons]

/-- A directory is listed child by child: the child itself, and what is below it. -/
theorem places_dir :
    places (.dir children) = (listed children).flatMap fun child => placesOf child (places child.2) := by
  have hfiles : (inNameOrder (children.filter fun child => !child.2.isDir)).map
      (fun child => ([child.1], child.2)) =
        (inNameOrder (children.filter fun child => !child.2.isDir)).flatMap fun child =>
          placesOf child (places child.2) := by
    rw [List.map_eq_flatMap]
    apply List.flatMap_congr
    intro child hchild
    -- there is nothing below a file
    have hfile := (List.mem_filter.mp ((perm_inNameOrder _).mem_iff.mp hchild)).2
    obtain ⟨name, node⟩ := child
    cases node with
    | file bytes => simp [places, placesOf]
    | dir inner => cases hfile
  rw [places, listed, List.flatMap_append, hfiles, placesAmong_eq, inNameOrder_map, List.flatMap_map]

theorem isWalk_places (h : tree.WellNamed) : tree.IsWalk (places tree) := by
  induction h with
  | file bytes =>
    rw [places]
    exact isWalk_file bytes
  | @dir children hnames hdistinct hbelow ih =>
    rw [places_dir]
    exact isWalk_dir (.dir hnames hdistinct hbelow) (perm_listed children) ih

theorem ne_nil_of_mem_places {place : List String × Node} (h : place ∈ places tree) :
    place.1 ≠ [] := by
  cases tree with
  | file bytes =>
    rw [places] at h
    cases h
  | dir children =>
    rw [places_dir, List.mem_flatMap] at h
    obtain ⟨child, -, hplace⟩ := h
    obtain hself | hbelow := List.mem_cons.mp hplace
    · subst hself
      exact List.cons_ne_nil _ _
    · obtain ⟨p, -, hp⟩ := List.mem_map.mp hbelow
      subst hp
      exact List.cons_ne_nil _ _

/-! ## The entries of a tree -/

/-- The entries of the nodes of a tree below the directory of a path. -/
def treeEntries (fetch : String → Except Error ByteArray) (path : String) (tree : Node) : List Entry :=
  (places tree).map (entryUnder fetch path)

theorem entryUnder_cons {name : String} (hne : names ≠ []) :
    entryUnder fetch path (name :: names, node) =
      entryUnder fetch (path ++ name ++ "/") (names, node) := by
  have hpath : path ++ "/".intercalate (name :: names) =
      path ++ name ++ "/" ++ "/".intercalate names := by
    obtain ⟨next, rest, rfl⟩ := List.exists_cons_of_ne_nil hne
    simp only [String.intercalate_cons_cons, String.append_assoc]
  cases node with
  | file bytes => rw [entryUnder, entryUnder, hpath]
  | dir inner => rw [entryUnder, entryUnder, hpath]

theorem map_entryUnder_placesOf (child : String × Node) :
    (placesOf child (places child.2)).map (entryUnder fetch path) =
      entryUnder fetch path ([child.1], child.2) ::
        treeEntries fetch (path ++ child.1 ++ "/") child.2 := by
  rw [placesOf, List.map_cons, List.map_map, treeEntries]
  congr 1
  apply List.map_congr_left
  intro place hplace
  exact entryUnder_cons (ne_nil_of_mem_places hplace)

theorem treeEntries_file : treeEntries fetch path (.file bytes) = [] := by
  rw [treeEntries, places, List.map_nil]

/-- The entries of a directory, child by child. -/
theorem treeEntries_dir :
    treeEntries fetch path (.dir children) = (listed children).flatMap fun child =>
      entryUnder fetch path ([child.1], child.2) ::
        treeEntries fetch (path ++ child.1 ++ "/") child.2 := by
  rw [treeEntries, places_dir, List.map_flatMap]
  apply List.flatMap_congr
  intro child _
  exact map_entryUnder_placesOf child

/-- The entries of a directory: those of the files, then those of the directories. -/
theorem treeEntries_dir_append :
    treeEntries fetch path (.dir children) =
      ((inNameOrder (children.filter fun child => !child.2.isDir)).map fun child =>
        entryUnder fetch path ([child.1], child.2)) ++
      ((inNameOrder (children.filter fun child => child.2.isDir)).flatMap fun child =>
        entryUnder fetch path ([child.1], child.2) ::
          treeEntries fetch (path ++ child.1 ++ "/") child.2) := by
  rw [treeEntries, places, List.map_append, List.map_map, placesAmong_eq, inNameOrder_map,
    List.flatMap_map, List.map_flatMap]
  congr 1
  apply List.flatMap_congr
  intro child _
  exact map_entryUnder_placesOf child

/-! ## What can be listed -/

/-- A child that is a directory can be opened if its path is not too long. -/
def opens (location : String) (child : String × Node) : Bool :=
  !child.2.isDir || Files.fits (Files.join location child.1)

mutual

/-- The part of a tree at a location that a listing comes to: a directory whose path is too long is left
    out, with everything below it. -/
def reachable (location : String) : Node → Node
  | .file bytes => .file bytes
  | .dir children => .dir (reachableAmong location children)

/-- The part of some children that a listing comes to. -/
def reachableAmong (location : String) : List (String × Node) → List (String × Node)
  | [] => []
  | child :: rest => reachableUnder location child ++ reachableAmong location rest

/-- The part of a child that a listing comes to. -/
def reachableUnder (location : String) : String × Node → List (String × Node)
  | (name, node) =>
    if opens location (name, node) then [(name, reachable (Files.join location name) node)] else []

end

theorem reachableAmong_eq (location : String) (children : List (String × Node)) :
    reachableAmong location children = (children.filter (opens location)).map fun child =>
      (child.1, reachable (Files.join location child.1) child.2) := by
  induction children with
  | nil => rfl
  | cons child children ih =>
    rw [reachableAmong, ih, reachableUnder, List.filter_cons]
    split <;> rfl

theorem isDir_reachable (location : String) (node : Node) :
    (reachable location node).isDir = node.isDir := by
  cases node <;> rfl

theorem reachable_wellNamed {location : String} (h : tree.WellNamed) :
    (reachable location tree).WellNamed := by
  induction h generalizing location with
  | file bytes => exact .file bytes
  | @dir children hnames hdistinct _ ih =>
    have hsub : (children.filter (opens location)).Sublist children := List.filter_sublist
    rw [reachable, reachableAmong_eq]
    refine .dir ?_ ?_ ?_
    · rw [List.forall_mem_map]
      exact fun child hchild => hnames child (hsub.subset hchild)
    · rw [List.map_map]
      exact hdistinct.sublist (hsub.map _)
    · rw [List.forall_mem_map]
      exact fun child hchild => ih child (hsub.subset hchild)

/-- Listing a directory at a location, so many levels below the listed one, meets no fault: the paths of
    the files that it comes to are not too long, and there is stack to go on where there are directories. -/
inductive Listable [Host] : String → Nat → Node → Prop
  | file {location : String} {depth : Nat} (bytes : ByteArray) : Listable location depth (.file bytes)
  | dir {location : String} {depth : Nat} {children : List (String × Node)}
      (files : ∀ child ∈ children, child.2.isDir = false →
        Files.fits (Files.join location child.1) = true)
      (room : (∃ child ∈ children, child.2.isDir = true) → Host.roomToDescend depth = true)
      (below : ∀ child ∈ children, opens location child = true →
        Listable (Files.join location child.1) (depth + 1) child.2) :
      Listable location depth (.dir children)

theorem fileEntries_eq {location : String} :
    fileEntries fetch location path children =
      (inNameOrder (children.filter fun child => !child.2.isDir)).map fun child =>
        if Files.fits (Files.join location child.1) then
          .ok (entryUnder fetch path ([child.1], child.2))
        else .error (.pathTooLong (Files.join location child.1)) := by
  unfold fileEntries
  apply map_inNameOrder_filterMap
  · intro name bytes
    rfl
  · intro name inner
    rfl
  · intro name bytes
    simp [entryUnder]

theorem subtrees_eq [Host] {location : String} {depth : Nat} :
    subtrees fetch location path depth children =
      (children.filter fun child => child.2.isDir && opens location child).map fun child =>
        (child.1, .ok (entryUnder fetch path ([child.1], child.2)) ::
          entriesBelow fetch (Files.join location child.1) (path ++ child.1 ++ "/") depth child.2) := by
  induction children with
  | nil => rfl
  | cons child children ih =>
    obtain ⟨name, node⟩ := child
    cases node with
    | file bytes => simp [subtrees, subtree, ih]
    | dir inner =>
      rw [subtrees, subtree, ih, List.filter_cons]
      by_cases hfits : Files.fits (Files.join location name) = true
      · simp [opens, hfits, entryUnder]
      · simp [opens, hfits]

/-- What is listed of the files of a directory is left as it is in its reachable part. -/
theorem filter_files_reachable (location : String) :
    ((reachableAmong location children).filter fun child => !child.2.isDir) =
      children.filter fun child => !child.2.isDir := by
  induction children with
  | nil => rfl
  | cons child children ih =>
    obtain ⟨name, node⟩ := child
    cases node with
    | file bytes => simp [reachableAmong, reachableUnder, opens, reachable, ih]
    | dir inner =>
      rw [reachableAmong, reachableUnder, List.filter_append, ih]
      split <;> simp [isDir_reachable]

theorem filter_dirs_reachable (location : String) :
    ((reachableAmong location children).filter fun child => child.2.isDir) =
      (children.filter fun child => child.2.isDir && opens location child).map fun child =>
        (child.1, reachable (Files.join location child.1) child.2) := by
  rw [reachableAmong_eq, List.filter_map, List.filter_filter]
  congr 1
  apply List.filter_congr
  intro child _
  simp [isDir_reachable]

/-- What can be listed comes out as the entries of its reachable part. -/
theorem entriesBelow_eq [Host] {location : String} {depth : Nat} (h : Listable location depth tree) :
    entriesBelow fetch location path depth tree =
      (treeEntries fetch path (reachable location tree)).map .ok := by
  induction h generalizing path with
  | file bytes => rw [entriesBelow, reachable, treeEntries_file, List.map_nil]
  | @dir location depth children hfiles hroom _ ih =>
    rw [entriesBelow, reachable, treeEntries_dir_append, List.map_append]
    congr 1
    · -- the paths of the files are short enough
      rw [fileEntries_eq, filter_files_reachable, List.map_map]
      apply List.map_congr_left
      intro child hchild
      obtain ⟨hmem, hfile⟩ := List.mem_filter.mp ((perm_inNameOrder _).mem_iff.mp hchild)
      rw [if_pos (hfiles child hmem (by simpa using hfile))]
      rfl
    · -- there is stack to go on, and each directory is listed as the part that is reached
      have hdescend : (children.any (·.2.isDir) && !Host.roomToDescend depth) = false := by
        rw [Bool.and_eq_false_iff, Bool.not_eq_false']
        by_cases hany : ∃ child ∈ children, child.2.isDir = true
        · exact .inr (hroom hany)
        · exact .inl (by simpa using hany)
      rw [hdescend, if_neg Bool.false_ne_true, subtrees_eq, inNameOrder_map, List.flatMap_map,
        filter_dirs_reachable, inNameOrder_map, List.flatMap_map, List.map_flatMap]
      apply List.flatMap_congr
      intro child hchild
      obtain ⟨hmem, hopens⟩ := List.mem_filter.mp ((perm_inNameOrder _).mem_iff.mp hchild)
      rw [Bool.and_eq_true] at hopens
      obtain ⟨name, node⟩ := child
      cases node with
      | file bytes => exact absurd hopens.1 Bool.false_ne_true
      | dir inner =>
        have hbelow := @ih (name, .dir inner) hmem hopens.2 (path ++ name ++ "/")
        simp only [hbelow, List.map_cons]
        rfl

/-- Where a listing meets a fault, an item of it is one. -/
theorem listable_iff [Host] {location : String} {depth : Nat} (h : tree.WellNamed) :
    Listable location depth tree ↔
      ∀ item ∈ entriesBelow fetch location path depth tree, ∃ e, item = .ok e := by
  constructor
  · intro hlist item hitem
    rw [entriesBelow_eq hlist, List.mem_map] at hitem
    obtain ⟨e, -, he⟩ := hitem
    exact ⟨e, he.symm⟩
  · induction h generalizing location path depth with
    | file bytes => exact fun _ => .file bytes
    | @dir children hnames hdistinct hbelow ih =>
      intro hall
      rw [entriesBelow] at hall
      -- without stack to go on, the listing holds an item that fails
      have hdescend : (children.any (·.2.isDir) && !Host.roomToDescend depth) = false := by
        by_contra hno
        rw [Bool.not_eq_false] at hno
        rw [hno, if_pos rfl] at hall
        obtain ⟨e, he⟩ := hall (.error .tooDeep) (by simp)
        cases he
      rw [hdescend, if_neg Bool.false_ne_true] at hall
      refine .dir ?_ ?_ ?_
      · intro child hmem hfile
        -- a file whose path is too long is an item that fails
        by_contra hlong
        have hlisted : child ∈ inNameOrder (children.filter fun child => !child.2.isDir) :=
          (perm_inNameOrder _).mem_iff.mpr (List.mem_filter.mpr ⟨hmem, by simp [hfile]⟩)
        rw [fileEntries_eq] at hall
        obtain ⟨e, he⟩ := hall _ (List.mem_append_left _ (List.mem_map.mpr ⟨child, hlisted, rfl⟩))
        rw [if_neg hlong] at he
        cases he
      · intro hany
        rw [Bool.and_eq_false_iff, Bool.not_eq_false'] at hdescend
        exact hdescend.resolve_left (by simpa using hany)
      · intro child hmem hopens
        by_cases hdir : child.2.isDir = true
        · -- what is listed below the child is listed with it
          apply @ih child hmem (path ++ child.1 ++ "/") _ _
          intro item hitem
          apply hall
          rw [subtrees_eq, inNameOrder_map, List.flatMap_map]
          refine List.mem_append_right _ (List.mem_flatMap.mpr ⟨child, ?_, ?_⟩)
          · exact (perm_inNameOrder _).mem_iff.mpr (List.mem_filter.mpr ⟨hmem, by simp [hdir, hopens]⟩)
          · exact List.mem_cons_of_mem _ hitem
        · obtain ⟨name, node⟩ := child
          cases node with
          | file bytes => exact .file bytes
          | dir inner => exact absurd rfl hdir

/-! ## Paths -/

/-- A path tells the names that it is made of. -/
theorem filter_segmentsOf_path (hne : names ≠ []) (hnames : ∀ name ∈ names, Files.IsName name) :
    (Files.segmentsOf (entryUnder fetch "" (names, node)).path).filter (· ≠ "") = names := by
  have hsegments : Files.segmentsOf ("/".intercalate names) = names :=
    Files.segmentsOf_intercalate hne fun name hname => (hnames name hname).no_slash
  have hfilter : names.filter (· ≠ "") = names := by
    rw [List.filter_eq_self]
    intro name hname
    simpa using (hnames name hname).ne_empty
  cases node with
  | file bytes =>
    show (Files.segmentsOf ("" ++ "/".intercalate names)).filter (· ≠ "") = names
    rw [String.empty_append, hsegments, hfilter]
  | dir children =>
    -- behind the slash at the end there is one more segment, which is empty
    have hchars : ("/".intercalate names ++ "/").toList = ("/".intercalate names).toList ++ '/' :: [] := by
      simp
    have hlast : Files.segmentsOf ("/".intercalate names ++ "/") = names ++ [""] := by
      rw [Files.segmentsOf] at hsegments ⊢
      rw [hchars, Text.splitOn_append, List.map_append, hsegments]
      rfl
    show (Files.segmentsOf ("" ++ "/".intercalate names ++ "/")).filter (· ≠ "") = names
    rw [String.empty_append, hlast, List.filter_append, hfilter]
    simp

/-! ## Listings -/

section

variable {v : Volume} {root location : String} {depth : Nat}

/-- A directory is listed exactly if this meets no fault, and then as the part of its tree that the listing
    comes to. -/
theorem entries_folder_eq_ok_iff [Host] (htree : tree.WellNamed) (hroot : v.lookup root = .ok tree)
    {entries : List Entry} :
    (Source.folder v root).entries = .ok entries ↔ Listable root 0 tree ∧
      entries = treeEntries (Source.readFolder v root) "" (reachable root tree) := by
  have hitems : (Source.folder v root).entries =
      (entriesBelow (Source.readFolder v root) root "" 0 tree).mapM id := by
    rw [Source.entries, hroot]
  rw [hitems, mapM_id_eq_ok]
  constructor
  · intro hok
    have hlist : Listable root 0 tree := by
      rw [listable_iff htree, hok, List.forall_mem_map]
      exact fun e _ => ⟨e, rfl⟩
    rw [entriesBelow_eq hlist, List.map_inj_right fun _ _ => Except.ok.inj] at hok
    exact ⟨hlist, hok.symm⟩
  · intro ⟨hlist, hentries⟩
    rw [entriesBelow_eq hlist, hentries]

theorem Listable.fits_of_mem [Host] {child : String × Node} (h : Listable location depth (.dir children))
    (hmem : child ∈ children) (hfile : child.2.isDir = false) :
    Files.fits (Files.join location child.1) = true := by
  cases h with
  | dir hfiles _ _ => exact hfiles child hmem hfile

theorem Listable.of_mem [Host] {child : String × Node} (h : Listable location depth (.dir children))
    (hmem : child ∈ children) (hopens : opens location child = true) :
    Listable (Files.join location child.1) (depth + 1) child.2 := by
  cases h with
  | dir _ _ hbelow => exact hbelow child hmem hopens

/-- The path of a file that is listed is not too long, if that of its directory is not. -/
theorem Listable.fits_file [Host] {name : String} (h : Listable location depth tree)
    (hat : tree.At (names ++ [name]) (.file bytes)) (hslash : ∀ name ∈ names, '/' ∉ name.toList)
    (hdirectory : Files.fits (names.foldl Files.join location) = true) :
    Files.fits ((names ++ [name]).foldl Files.join location) = true := by
  induction names generalizing location depth tree with
  | nil =>
    cases tree with
    | file bytes' => exact absurd (Node.at_file_iff.mp hat).1 (List.cons_ne_nil _ _)
    | dir children =>
      obtain ⟨name', child, rest, hnames, hmem, hrest⟩ := (Node.at_dir_iff (List.cons_ne_nil _ _)).mp hat
      obtain ⟨rfl, rfl⟩ := List.cons.inj hnames
      have hfile : child.isDir = false := by rw [← Node.at_nil_iff.mp hrest, Node.isDir_file]
      have hfits := h.fits_of_mem hmem hfile
      exact hfits
  | cons next names ih =>
    cases tree with
    | file bytes' => exact absurd (Node.at_file_iff.mp hat).1 (List.cons_ne_nil _ _)
    | dir children =>
      obtain ⟨name', child, rest, hnames, hmem, hrest⟩ := (Node.at_dir_iff (List.cons_ne_nil _ _)).mp hat
      obtain ⟨rfl, rfl⟩ := List.cons.inj hnames
      rw [List.forall_mem_cons] at hslash
      have hopens : opens location (next, child) = true := by
        have hfits := Files.fits_of_fits_foldl_join hslash.2 hdirectory
        rw [opens, hfits, Bool.or_true]
      exact ih (h.of_mem hmem hopens) hrest hslash.2 hdirectory

/-- A tree meets no fault if none of its paths is too long and the stack has room as deep as it nests. -/
theorem Listable.of_at [Host] (htree : tree.WellNamed)
    (hpaths : ∀ names node, tree.At names node → Files.fits (names.foldl Files.join location) = true)
    (hroom : ∀ names children, tree.At names (.dir children) →
      (∃ child ∈ children, child.2.isDir = true) → Host.roomToDescend (depth + names.length) = true) :
    Listable location depth tree := by
  induction htree generalizing location depth with
  | file bytes => exact .file bytes
  | @dir children _ _ _ ih =>
    have hinside {child : String × Node} (hmem : child ∈ children) {names : List String} {node : Node}
        (hat : child.2.At names node) : (Node.dir children).At (child.1 :: names) node :=
      .inside hmem hat
    refine .dir ?_ (hroom [] children (.top _)) ?_
    · exact fun child hmem _ => hpaths _ _ (hinside hmem (.top _))
    · intro child hmem _
      apply ih child hmem
      · exact fun names node hat => hpaths _ _ (hinside hmem hat)
      · intro names inner hat hany
        have hdeeper := hroom _ _ (hinside hmem hat) hany
        rwa [List.length_cons, ← Nat.add_assoc, Nat.add_right_comm] at hdeeper

/-- If none of its paths is too long, a listing comes to all of a tree. -/
theorem reachable_eq_self (htree : tree.WellNamed)
    (hpaths : ∀ names node, tree.At names node → Files.fits (names.foldl Files.join location) = true) :
    reachable location tree = tree := by
  induction htree generalizing location with
  | file bytes => rfl
  | @dir children _ _ _ ih =>
    have hinside {child : String × Node} (hmem : child ∈ children) {names : List String} {node : Node}
        (hat : child.2.At names node) : (Node.dir children).At (child.1 :: names) node :=
      .inside hmem hat
    have hopens : children.filter (opens location) = children := by
      rw [List.filter_eq_self]
      intro child hmem
      have hfits : Files.fits (Files.join location child.1) = true :=
        hpaths _ _ (hinside hmem (.top _))
      rw [opens, hfits, Bool.or_true]
    have hsame : ∀ child ∈ children,
        (child.1, reachable (Files.join location child.1) child.2) = id child := by
      intro child hmem
      rw [ih child hmem fun names node hat => hpaths (child.1 :: names) node (hinside hmem hat)]
      rfl
    rw [reachable, reachableAmong_eq, hopens, List.map_congr_left hsame, List.map_id]

/-- The directories that a listing comes to are those whose paths are not too long, each without what is
    too far below it. -/
theorem at_reachable_dir_iff (htree : tree.WellNamed) (hfits : Files.fits location = true)
    {inner : List (String × Node)} :
    (reachable location tree).At names (.dir inner) ↔
      ∃ inner', tree.At names (.dir inner') ∧ Files.fits (names.foldl Files.join location) = true ∧
        inner = reachableAmong (names.foldl Files.join location) inner' := by
  induction names generalizing location tree with
  | nil =>
    -- the way ends where it starts
    rw [Node.at_nil_iff]
    cases tree with
    | file bytes => simp [reachable, Node.at_nil_iff]
    | dir children => simp [reachable, Node.at_nil_iff, hfits]
  | cons name names ih =>
    cases tree with
    | file bytes => simp [reachable, Node.at_file_iff]
    | dir children =>
      simp only [reachable, Node.at_dir_iff (List.cons_ne_nil name names), List.foldl_cons]
      rw [reachableAmong_eq location children]
      constructor
      · intro hat
        obtain ⟨name', child, rest, hnames, hmem, hrest⟩ := hat
        obtain ⟨rfl, rfl⟩ := List.cons.inj hnames
        obtain ⟨⟨name'', child'⟩, hfilter, hpair⟩ := List.mem_map.mp hmem
        obtain ⟨rfl, rfl⟩ := Prod.mk.inj hpair
        obtain ⟨hmem', hopens⟩ := List.mem_filter.mp hfilter
        cases child' with
        | file bytes =>
          rw [reachable, Node.at_file_iff] at hrest
          cases hrest.2
        | dir children' =>
          obtain ⟨inner', hat, hshort, hinner⟩ := (ih (htree.of_mem hmem') hopens).mp hrest
          exact ⟨inner', ⟨_, _, _, rfl, hmem', hat⟩, hshort, hinner⟩
      · intro hat
        obtain ⟨inner', ⟨name', child, rest, hnames, hmem, hrest⟩, hshort, hinner⟩ := hat
        obtain ⟨rfl, rfl⟩ := List.cons.inj hnames
        have hslash := fun name hmem' => (hrest.isName (htree.of_mem hmem) name hmem').no_slash
        have hfits' : Files.fits (Files.join location name) = true :=
          Files.fits_of_fits_foldl_join hslash hshort
        have hopens : opens location (name, child) = true := by
          rw [opens, hfits', Bool.or_true]
        exact ⟨_, _, _, rfl, List.mem_map_of_mem (List.mem_filter.mpr ⟨hmem, hopens⟩),
          (ih (htree.of_mem hmem) hfits').mpr ⟨inner', hrest, hshort, hinner⟩⟩

/-- A directory none of whose paths is too long is listed as all of its tree, if the stack has room as deep
    as it nests. -/
theorem entries_folder_eq_ok [Host] (htree : tree.WellNamed) (hroot : v.lookup root = .ok tree)
    (hpaths : ∀ names node, tree.At names node → Files.fits (names.foldl Files.join root) = true)
    (hroom : ∀ names children, tree.At names (.dir children) →
      (∃ child ∈ children, child.2.isDir = true) → Host.roomToDescend names.length = true) :
    (Source.folder v root).entries = .ok (treeEntries (Source.readFolder v root) "" tree) := by
  have hlist : Listable root 0 tree :=
    .of_at htree hpaths fun names children hat hany => by simpa using hroom names children hat hany
  rw [entries_folder_eq_ok_iff htree hroot, reachable_eq_self htree hpaths]
  exact ⟨hlist, rfl⟩

end

/-! ## What the entries tell -/

/-- An entry describes a file at a position below the root of a directory: it has the file's path, size and
    checksum, in however many chunks that is taken, and its bytes are read through it or by its path. -/
structure Entry.DescribesFile [Host] (v : Volume) (root : String) (e : Entry) (names : List String)
    (bytes : ByteArray) : Prop where
  path_eq : e.path = "/".intercalate names
  size_eq : e.size = bytes.size
  checksum_eq : e.checksum = (crc32 bytes).toNat
  chunks_eq : ∀ chunks : List ByteArray,
    chunks.flatMap (fun chunk => chunk.data.toList) = bytes.data.toList →
      e.checksum = (chunks.foldl crc32Onto 0).toNat
  is_file : e.isDir = false
  read_eq : e.read = .ok bytes
  source_read_eq : (Source.folder v root).read e.path = .ok bytes

/-- An entry describes a directory at a position. -/
structure Entry.DescribesDir (e : Entry) (names : List String) : Prop where
  path_eq : e.path = "/".intercalate names ++ "/"
  size_eq : e.size = 0
  checksum_eq : e.checksum = 0
  is_dir : e.isDir = true

/-- An entry describes what stands at a position. -/
def Entry.Describes [Host] (v : Volume) (root : String) (e : Entry) : List String × Node → Prop
  | (names, .file bytes) => e.DescribesFile v root names bytes
  | (names, .dir _) => e.DescribesDir names

variable {v : Volume} {root : String}

theorem readFolder_eq_ok (hroot : v.lookup root = .ok tree) (htree : tree.WellNamed)
    (hat : tree.At names (.file bytes)) (hne : names ≠ [])
    (hfits : Files.fits (names.foldl Files.join root) = true) :
    Source.readFolder v root ("/".intercalate names) = .ok bytes := by
  have hsegments : Files.segmentsOf ("/".intercalate names) = names :=
    Files.segmentsOf_intercalate hne fun name hname => (hat.isName htree name hname).no_slash
  have hread : v.readFile (names.foldl Files.join root) = .ok bytes :=
    Volume.readFile_eq_ok_iff.mpr (Volume.lookup_foldl_join hroot htree hat hfits)
  rw [Source.readFolder, hsegments]
  exact mapError_eq_ok.mpr hread

theorem describes_entryUnder [Host] (hroot : v.lookup root = .ok tree) (htree : tree.WellNamed)
    (hat : tree.At names node) (hne : names ≠ [])
    (hfits : Files.fits (names.foldl Files.join root) = true) :
    (entryUnder (Source.readFolder v root) "" (names, node)).Describes v root (names, node) := by
  cases node with
  | file bytes =>
    have hread := readFolder_eq_ok hroot htree hat hne hfits
    rw [entryUnder, String.empty_append]
    exact { path_eq := rfl, size_eq := rfl, checksum_eq := rfl,
            chunks_eq := fun chunks hchunks => by rw [foldl_crc32Onto hchunks]; rfl
            is_file := rfl, read_eq := hread, source_read_eq := hread }
  | dir children =>
    rw [entryUnder, String.empty_append]
    exact { path_eq := rfl, size_eq := rfl, checksum_eq := rfl, is_dir := rfl }

/-- The names on the way can be told from a path, and they are distinct. -/
theorem nodup_path_treeEntries (htree : tree.WellNamed) :
    ((treeEntries fetch "" tree).map Entry.path).Nodup := by
  have hwalk := isWalk_places htree
  apply List.Nodup.of_map fun path => (Files.segmentsOf path).filter (· ≠ "")
  have hnames : ((places tree).map fun place => (Files.segmentsOf
      (entryUnder fetch "" place).path).filter (· ≠ "")) = (places tree).map (·.1) := by
    apply List.map_congr_left
    intro place hmem
    obtain ⟨hne, hat⟩ := (hwalk.mem_iff place.1 place.2).mp hmem
    exact filter_segmentsOf_path hne (hat.isName htree)
  rw [treeEntries, List.map_map, List.map_map]
  exact hnames ▸ hwalk.nodup

/-- A directory that is listed as an archive. If its path leads to a tree none of whose paths is too long, and
    the stack has room as deep as the tree nests, the entries describe the files and directories in the
    tree but for the top, one entry for each and in the order of a walk, so that each directory stands in
    front of everything below it, and no two of them have the same path. -/
theorem entries_folder_describe_tree [Host] (htree : tree.WellNamed) (hroot : v.lookup root = .ok tree)
    (hpaths : ∀ names node, tree.At names node → Files.fits (names.foldl Files.join root) = true)
    (hroom : ∀ names children, tree.At names (.dir children) →
      (∃ child ∈ children, child.2.isDir = true) → Host.roomToDescend names.length = true) :
    ∃ places entries, tree.IsWalk places ∧ (Source.folder v root).entries = .ok entries ∧
      List.Forall₂ (Entry.Describes v root) entries places ∧ (entries.map Entry.path).Nodup := by
  have hwalk := isWalk_places htree
  refine ⟨places tree, _, hwalk, entries_folder_eq_ok htree hroot hpaths hroom, ?_,
    nodup_path_treeEntries htree⟩
  rw [treeEntries, List.forall₂_map_left_iff, List.forall₂_same]
  intro place hmem
  obtain ⟨hne, hat⟩ := (hwalk.mem_iff place.1 place.2).mp hmem
  exact describes_entryUnder hroot htree hat hne (hpaths _ _ hat)

/-- A file two levels down, beside a directory without content, and a file at the top. -/
def nest : Node :=
  .dir [("b", .dir [("c", .file ⟨#[1, 2]⟩), ("d", .dir [])]), ("a", .file ⟨#[3]⟩)]

theorem wellNamed_nest : nest.WellNamed := by
  have hlow : Node.WellNamed (.dir [("c", .file ⟨#[1, 2]⟩), ("d", .dir [])]) := by
    refine .dir (by decide +kernel) (by decide) ?_
    simp only [List.forall_mem_cons]
    exact ⟨.file _, .dir (by simp) (by simp) (by simp), by simp⟩
  refine .dir (by decide +kernel) (by decide) ?_
  simp only [List.forall_mem_cons]
  exact ⟨hlow, .file _, by simp⟩

theorem fits_nest : ∀ names node, nest.At names node →
    Files.fits (names.foldl Files.join "/") = true := by
  simp only [nest, Node.forall_at_dir_iff, Node.forall_at_file_iff, List.forall_mem_cons,
    List.not_mem_nil, false_implies, implies_true, and_true]
  decide +kernel

theorem entries_folder_describe_nest :
    ∃ places entries, nest.IsWalk places ∧ (["b", "c"], .file ⟨#[1, 2]⟩) ∈ places ∧
      (Source.folder { root := nest, workingDirectory := [] } "/").entries = .ok entries ∧
      List.Forall₂ (Entry.Describes { root := nest, workingDirectory := [] } "/") entries places ∧
      (entries.map Entry.path).Nodup := by
  have hroot : (Volume.mk nest []).lookup "/" = .ok nest := rfl
  obtain ⟨places, entries, hwalk, hentries⟩ :=
    entries_folder_describe_tree wellNamed_nest hroot fits_nest fun _ _ _ _ => rfl
  have hmem : (["b", "c"], .file ⟨#[1, 2]⟩) ∈ places := by
    rw [hwalk.mem_iff]
    exact ⟨by simp, .inside List.mem_cons_self (.inside List.mem_cons_self (.top _))⟩
  exact ⟨places, entries, hwalk, hmem, hentries⟩

/-- A file so many directories down, all under one name. -/
def buried (name : String) : Nat → Node
  | 0 => .file ByteArray.empty
  | levels + 1 => .dir [(name, buried name levels)]

theorem wellNamed_buried {name : String} (hname : Files.IsName name) (levels : Nat) :
    (buried name levels).WellNamed := by
  induction levels with
  | zero => exact .file _
  | succ levels ih => exact .dir (by simpa using hname) (by simp) (by simpa using ih)

theorem at_buried (name : String) (levels : Nat) :
    (buried name levels).At (List.replicate levels name) (.file ByteArray.empty) := by
  induction levels with
  | zero => exact .top _
  | succ levels ih => exact .inside List.mem_cons_self ih

/-- A name of this many letters. -/
def longName : String := String.ofList (List.replicate 250 'a')

/-- Below directories of long names a path becomes too long, and the tree is not listed. -/
theorem entries_folder_buried_ne_ok :
    (buried longName 17).WellNamed ∧ (Volume.mk (buried longName 17) []).lookup "/" = .ok (buried longName 17) ∧
      ∀ entries, (Source.folder { root := buried longName 17, workingDirectory := [] } "/").entries ≠
        .ok entries := by
  have hname : Files.IsName longName := by decide +kernel
  have hsize : longName.utf8ByteSize = 250 := by decide +kernel
  have hroot : (Volume.mk (buried longName 17) []).lookup "/" = .ok (buried longName 17) := rfl
  refine ⟨wellNamed_buried hname 17, hroot, fun entries hentries => ?_⟩
  obtain ⟨hlist, -⟩ := (entries_folder_eq_ok_iff (wellNamed_buried hname 17) hroot).mp hentries
  have hslash (levels : Nat) : ∀ name ∈ List.replicate levels longName, '/' ∉ name.toList := by
    intro name hmem
    exact List.eq_of_mem_replicate hmem ▸ hname.no_slash
  have hbounds (levels : Nat) := Files.size_foldl_join_bounds "/" (hslash levels)
  -- the directory of the file has a path, but the file has none
  have hat : (buried longName 17).At (List.replicate 16 longName ++ [longName]) (.file ByteArray.empty) :=
    at_buried longName 17
  have hfile := hlist.fits_file hat (hslash 16)
  have hshort : Files.fits ((List.replicate 16 longName).foldl Files.join "/") = true := by
    have hsum : ((List.replicate 16 longName).map String.utf8ByteSize).sum = 4000 := by
      rw [List.map_replicate, hsize]
      rfl
    rw [Files.fits_iff]
    have hupper := (hbounds 16).2
    rw [hsum, List.length_replicate] at hupper
    exact Nat.lt_of_le_of_lt hupper (by decide)
  have hlong := hfile hshort
  have hsum : ((List.replicate 17 longName).map String.utf8ByteSize).sum = 4250 := by
    rw [List.map_replicate, hsize]
    rfl
  have hlower := (hbounds 17).1
  rw [hsum] at hlower
  rw [Files.fits_iff] at hlong
  exact absurd (Nat.lt_of_le_of_lt hlower hlong) (by decide)

end ReleaseSeal.Archive
