import Mathlib.Algebra.Ring.Nat
import Mathlib.Data.List.Nodup
import ReleaseSeal.Files.Volume
import ReleaseSeal.Proofs.Outcome
import ReleaseSeal.Proofs.Text.Listing
import ReleaseSeal.Proofs.Text.Segments

/-!
# Positions in a file tree

Where a node stands in a tree is told by the names on the way to it. In a tree as file systems hold it,
with the entries of a directory under distinct names that are no steps of a path themselves, following
these names leads to the node and to no other, wherever the tree itself is reached.

## Key results

- `At.unique`: there is one node at a position
- `isWalk_dir`: the nodes of a directory in an order, from those of its entries
- `lookup_foldl_join`: behind the path of a tree, the names on the way lead to the node
- `wellNamed_of_lookup`: what is reached in a tree with such names has such names
-/

namespace ReleaseSeal.Files

/-- A name that a file system allows for an entry of a directory. -/
structure IsName (name : String) : Prop where
  ne_empty : name ≠ ""
  ne_dot : name ≠ "."
  ne_dots : name ≠ ".."
  no_slash : '/' ∉ name.toList
  no_null : '\x00' ∉ name.toList
  size_le : name.utf8ByteSize ≤ Node.maxNameSize

theorem isName_iff {name : String} :
    IsName name ↔ name ≠ "" ∧ name ≠ "." ∧ name ≠ ".." ∧ '/' ∉ name.toList ∧ '\x00' ∉ name.toList ∧
      name.utf8ByteSize ≤ Node.maxNameSize := by
  constructor
  · intro h
    exact ⟨h.ne_empty, h.ne_dot, h.ne_dots, h.no_slash, h.no_null, h.size_le⟩
  · intro ⟨hempty, hdot, hdots, hslash, hnull, hsize⟩
    exact { ne_empty := hempty, ne_dot := hdot, ne_dots := hdots, no_slash := hslash, no_null := hnull,
            size_le := hsize }

instance (name : String) : Decidable (IsName name) :=
  decidable_of_iff _ isName_iff.symm

namespace Node

/-- A tree as a file system holds it: the entries of each directory have distinct names, which the file
    system allows. -/
inductive WellNamed : Node → Prop
  | file (bytes : ByteArray) : WellNamed (.file bytes)
  | dir {children : List (String × Node)} (names : ∀ child ∈ children, IsName child.1)
      (distinct : (children.map (·.1)).Nodup) (below : ∀ child ∈ children, WellNamed child.2) :
      WellNamed (.dir children)

/-- Where a node stands in a tree: the names on the way from the top to it. -/
inductive At : Node → List String → Node → Prop
  | top (tree : Node) : At tree [] tree
  | inside {children : List (String × Node)} {name : String} {child node : Node} {names : List String}
      (mem : (name, child) ∈ children) (rest : At child names node) :
      At (.dir children) (name :: names) node

variable {tree node child : Node} {children : List (String × Node)} {name : String}
  {names : List String}

theorem WellNamed.isName (h : WellNamed (.dir children)) (hmem : (name, child) ∈ children) :
    IsName name := by
  cases h with
  | dir hnames _ _ => exact hnames _ hmem

theorem WellNamed.distinct (h : WellNamed (.dir children)) : (children.map (·.1)).Nodup := by
  cases h with
  | dir _ hdistinct _ => exact hdistinct

theorem WellNamed.of_mem (h : WellNamed (.dir children)) (hmem : (name, child) ∈ children) :
    WellNamed child := by
  cases h with
  | dir _ _ hbelow => exact hbelow _ hmem

/-- One entry of a directory has a name. -/
theorem WellNamed.eq_of_mem {child' : Node} (h : WellNamed (.dir children))
    (hmem : (name, child) ∈ children) (hmem' : (name, child') ∈ children) : child = child' := by
  have hpair := List.inj_on_of_nodup_map h.distinct hmem hmem' rfl
  exact (Prod.mk.inj hpair).2

theorem WellNamed.lookup_eq_some (h : WellNamed (.dir children)) (hmem : (name, child) ∈ children) :
    children.lookup name = some child :=
  (Text.lookup_eq_some_iff_mem h.distinct).mpr hmem

/-! ## One node at a position -/

/-- The names on the way to a node are allowed ones. -/
theorem At.isName (hat : At tree names node) (h : WellNamed tree) : ∀ name ∈ names, IsName name := by
  induction hat with
  | top tree => simp
  | inside hmem _ ih =>
    rw [List.forall_mem_cons]
    exact ⟨h.isName hmem, ih (h.of_mem hmem)⟩

theorem At.unique {node' : Node} (hat : At tree names node) (h : WellNamed tree)
    (hat' : At tree names node') : node = node' := by
  induction hat with
  | top tree =>
    cases hat'
    rfl
  | inside hmem _ ih =>
    cases hat' with
    | inside hmem' hrest' =>
      obtain rfl := h.eq_of_mem hmem hmem'
      exact ih (h.of_mem hmem) hrest'

/-- What stands in a directory stands there under the name of an entry, or below it. -/
theorem at_dir_iff (hne : names ≠ []) :
    At (.dir children) names node ↔
      ∃ name child rest, names = name :: rest ∧ (name, child) ∈ children ∧ At child rest node := by
  constructor
  · intro hat
    cases hat with
    | top => exact absurd rfl hne
    | inside hmem hrest => exact ⟨_, _, _, rfl, hmem, hrest⟩
  · intro ⟨name, child, rest, hnames, hmem, hrest⟩
    subst hnames
    exact .inside hmem hrest

/-- In a directory there are the directory itself and what its entries hold. -/
theorem forall_at_dir_iff {P : List String → Node → Prop} :
    (∀ names node, At (.dir children) names node → P names node) ↔
      P [] (.dir children) ∧
        ∀ child ∈ children, ∀ names node, At child.2 names node → P (child.1 :: names) node := by
  constructor
  · intro hall
    exact ⟨hall _ _ (.top _), fun child hmem names node hat => hall _ _ (.inside hmem hat)⟩
  · intro ⟨htop, hinside⟩ names node hat
    cases hat with
    | top => exact htop
    | inside hmem hrest => exact hinside _ hmem _ _ hrest

/-- At the top there is the tree itself. -/
theorem at_nil_iff : At tree [] node ↔ node = tree := by
  constructor
  · intro hat
    cases hat
    rfl
  · intro hnode
    subst hnode
    exact .top _

theorem forall_at_file_iff {bytes : ByteArray} {P : List String → Node → Prop} :
    (∀ names node, At (.file bytes) names node → P names node) ↔ P [] (.file bytes) := by
  constructor
  · exact fun hall => hall _ _ (.top _)
  · intro htop names node hat
    cases hat
    exact htop

/-- Nothing stands in a file but the file itself. -/
theorem at_file_iff {bytes : ByteArray} : At (.file bytes) names node ↔ names = [] ∧ node = .file bytes := by
  constructor
  · intro hat
    cases hat
    exact ⟨rfl, rfl⟩
  · intro ⟨hnames, hnode⟩
    subst hnames hnode
    exact .top _

/-! ## Walks -/

/-- A list of the nodes in a tree with their positions, that of the tree itself apart: each node stands in
    front of what is below it, and no position comes twice. -/
structure IsWalk (tree : Node) (places : List (List String × Node)) : Prop where
  mem_iff : ∀ names node, (names, node) ∈ places ↔ names ≠ [] ∧ At tree names node
  ordered : places.Pairwise fun p q => ¬q.1 <+: p.1

section

variable {order : List (String × Node)} {places : List (List String × Node)}

theorem isWalk_file (bytes : ByteArray) : IsWalk (.file bytes) [] where
  mem_iff names node := by
    rw [at_file_iff]
    simp +contextual
  ordered := .nil

/-- The nodes of an entry of a directory, seen from the directory. -/
def placesOf (child : String × Node) (below : List (List String × Node)) :
    List (List String × Node) :=
  ([child.1], child.2) :: below.map fun p => (child.1 :: p.1, p.2)

theorem mem_placesOf_iff {child : String × Node} (h : IsWalk child.2 places) :
    (names, node) ∈ placesOf child places ↔ ∃ rest, names = child.1 :: rest ∧ At child.2 rest node := by
  unfold placesOf
  rw [List.mem_cons, List.mem_map]
  constructor
  · intro hmem
    obtain hself | ⟨p, hp, hbelow⟩ := hmem
    · cases hself
      exact ⟨[], rfl, .top _⟩
    · cases hbelow
      exact ⟨p.1, rfl, ((h.mem_iff p.1 p.2).mp hp).2⟩
  · intro ⟨rest, hnames, hat⟩
    subst hnames
    by_cases hrest : rest = []
    · subst hrest
      rw [at_nil_iff] at hat
      exact .inl (by rw [hat])
    · exact .inr ⟨(rest, node), (h.mem_iff rest node).mpr ⟨hrest, hat⟩, rfl⟩

theorem pairwise_placesOf {child : String × Node} (h : IsWalk child.2 places) :
    (placesOf child places).Pairwise fun p q => ¬q.1 <+: p.1 := by
  unfold placesOf
  rw [List.pairwise_cons, List.pairwise_map]
  constructor
  · intro q hq
    obtain ⟨p, hp, rfl⟩ := List.mem_map.mp hq
    have hne := ((h.mem_iff p.1 p.2).mp hp).1
    simpa using hne
  · refine h.ordered.imp fun hpq => ?_
    simpa using hpq

/-- The walks of its entries make up the walk of a directory, in any order of the entries. -/
theorem isWalk_dir (hdir : WellNamed (.dir children)) (horder : order.Perm children)
    {below : String × Node → List (List String × Node)}
    (hbelow : ∀ child ∈ children, IsWalk child.2 (below child)) :
    IsWalk (.dir children) (order.flatMap fun child => placesOf child (below child)) where
  mem_iff names node := by
    rw [List.mem_flatMap]
    constructor
    · intro ⟨child, hchild, hmem⟩
      have hchild := horder.mem_iff.mp hchild
      obtain ⟨rest, rfl, hat⟩ := (mem_placesOf_iff (hbelow child hchild)).mp hmem
      exact ⟨by simp, .inside hchild hat⟩
    · intro ⟨hne, hat⟩
      obtain ⟨name, child, rest, hnames, hmem, hrest⟩ := (at_dir_iff hne).mp hat
      refine ⟨(name, child), horder.mem_iff.mpr hmem, ?_⟩
      exact (mem_placesOf_iff (hbelow _ hmem)).mpr ⟨rest, hnames, hrest⟩
  ordered := by
    rw [List.pairwise_flatMap]
    constructor
    · intro child hchild
      exact pairwise_placesOf (hbelow child (horder.mem_iff.mp hchild))
    · -- positions in different entries start with different names
      have hdistinct : (order.map (·.1)).Nodup := (horder.map _).nodup_iff.mpr hdir.distinct
      rw [List.Nodup, List.pairwise_map] at hdistinct
      refine hdistinct.imp_of_mem fun {child child'} hchild hchild' hne => ?_
      intro p hp q hq
      obtain ⟨rest, hrest, -⟩ := (mem_placesOf_iff (hbelow child (horder.mem_iff.mp hchild))).mp hp
      obtain ⟨rest', hrest', -⟩ := (mem_placesOf_iff (hbelow child' (horder.mem_iff.mp hchild'))).mp hq
      rw [hrest, hrest', List.cons_prefix_cons]
      intro ⟨heq, _⟩
      exact hne heq.symm

/-- No position comes twice in a walk. -/
theorem IsWalk.nodup (h : IsWalk tree places) : (places.map (·.1)).Nodup := by
  rw [List.Nodup, List.pairwise_map]
  apply h.ordered.imp
  intro p q hprefix heq
  exact hprefix (heq ▸ List.prefix_refl p.1)

end

/-! ## Following names -/

section

variable {path segment : String} {above : List Node}

/-- A segment that names nothing leads on from where one is. -/
theorem follow_here (hplain : segment = "" ∨ segment = ".") (rest : List String) :
    follow path above (.dir children) (segment :: rest) = follow path above (.dir children) rest := by
  have htest : (decide (segment = "") || decide (segment = ".")) = true := by simpa using hplain
  show (if (decide (segment = "") || decide (segment = ".")) = true then _ else _) = _
  rw [if_pos htest]

/-- Any other segment is the name of an entry. -/
theorem follow_entry (hplain : ¬(segment = "" ∨ segment = ".")) (hdots : segment ≠ "..")
    (hsize : segment.utf8ByteSize ≤ maxNameSize) (hchild : children.lookup segment = some child)
    (rest : List String) :
    follow path above (.dir children) (segment :: rest) =
      follow path (.dir children :: above) child rest := by
  have htest : ¬(decide (segment = "") || decide (segment = ".")) = true := by simpa using hplain
  show (if (decide (segment = "") || decide (segment = ".")) = true then _ else
    if segment = ".." then _ else if segment.utf8ByteSize > maxNameSize then _ else _) = _
  rw [if_neg htest, if_neg hdots, if_neg (by omega), hchild]

end

/-- Where some segments lead, further ones are followed from there. -/
theorem exists_follow_append {path : String} {above : List Node} {segments : List String}
    (hfollow : follow path above tree segments = .ok node) :
    ∃ above', ∀ path' rest,
      follow path' above tree (segments ++ rest) = follow path' above' node rest := by
  fun_induction follow path above tree segments with
  | case1 above tree =>
    cases hfollow
    exact ⟨above, fun _ _ => rfl⟩
  | case2 => cases hfollow
  | case3 above children segment segments hplain ih =>
    obtain ⟨above', hrest⟩ := ih hfollow
    refine ⟨above', fun path' rest => ?_⟩
    rw [List.cons_append, follow_here (by simpa using hplain), hrest]
  | case4 children segments hplain ih =>
    obtain ⟨above', hrest⟩ := ih hfollow
    exact ⟨above', hrest⟩
  | case5 children segments parent above hplain ih =>
    obtain ⟨above', hrest⟩ := ih hfollow
    exact ⟨above', hrest⟩
  | case6 => cases hfollow
  | case7 => cases hfollow
  | case8 above children segment segments hplain hdots hsize child hchild ih =>
    obtain ⟨above', hrest⟩ := ih hfollow
    refine ⟨above', fun path' rest => ?_⟩
    rw [List.cons_append, follow_entry (by simpa using hplain) hdots (by omega) hchild, hrest]

/-- What is reached in a tree with allowed names has allowed names. -/
theorem WellNamed.of_follow {path : String} {above : List Node} {segments : List String}
    (hfollow : follow path above tree segments = .ok node) (h : WellNamed tree)
    (habove : ∀ other ∈ above, WellNamed other) : WellNamed node := by
  fun_induction follow path above tree segments with
  | case1 above tree =>
    cases hfollow
    exact h
  | case2 => cases hfollow
  | case3 above children segment segments hplain ih => exact ih hfollow h habove
  | case4 children segments hplain ih => exact ih hfollow h habove
  | case5 children segments parent above hplain ih =>
    rw [List.forall_mem_cons] at habove
    exact ih hfollow habove.1 habove.2
  | case6 => cases hfollow
  | case7 => cases hfollow
  | case8 above children segment segments hplain hdots hsize child hchild ih =>
    obtain ⟨before, after, hsplit, -⟩ := List.lookup_eq_some_iff.mp hchild
    have hmem : (segment, child) ∈ children := by simp [hsplit]
    refine ih hfollow (h.of_mem hmem) ?_
    rw [List.forall_mem_cons]
    exact ⟨h, habove⟩

/-- An empty segment in front of a name is passed over. -/
theorem follow_skip_empty {path segment : String} (segments rest : List String) (above : List Node) :
    follow path above tree (segments ++ "" :: segment :: rest) =
      follow path above tree (segments ++ segment :: rest) := by
  induction segments generalizing tree above with
  | nil =>
    cases tree with
    | file bytes => rfl
    | dir children => exact follow_here (.inl rfl) _
  | cons first segments ih =>
    cases tree with
    | file bytes => rfl
    | dir children =>
      simp only [List.cons_append, follow]
      split
      · exact ih above
      · split
        · split <;> exact ih _
        · split
          · rfl
          · split
            · rfl
            · exact ih _

end Node

/-! ## Paths of names in directories -/

section

variable {directory name : String} {names : List String}

theorem fits_iff {path : String} : fits path = true ↔ path.utf8ByteSize < pathLimit :=
  decide_eq_true_iff

theorem segmentsOf_append_slash (front back : String) :
    segmentsOf (front ++ "/" ++ back) = segmentsOf front ++ segmentsOf back := by
  have hchars : (front ++ "/" ++ back).toList = front.toList ++ '/' :: back.toList := by simp
  rw [segmentsOf, hchars, Text.splitOn_append, List.map_append]
  rfl

theorem segmentsOf_eq_singleton (h : '/' ∉ name.toList) : segmentsOf name = [name] := by
  simp [segmentsOf, Text.splitOn_eq_singleton h]

theorem segmentsOf_intercalate (hne : names ≠ []) (hnames : ∀ name ∈ names, '/' ∉ name.toList) :
    segmentsOf ("/".intercalate names) = names := by
  induction names with
  | nil => exact absurd rfl hne
  | cons name names ih =>
    rw [List.forall_mem_cons] at hnames
    cases names with
    | nil => simpa using segmentsOf_eq_singleton hnames.1
    | cons next names =>
      rw [String.intercalate_cons_cons, segmentsOf_append_slash, ih (by simp) hnames.2,
        segmentsOf_eq_singleton hnames.1]
      rfl

theorem isAbsolute_eq_false (hname : '/' ∉ name.toList) : isAbsolute name = false := by
  cases hchars : name.toList with
  | nil => simp [isAbsolute, hchars]
  | cons c cs =>
    rw [hchars, List.mem_cons, not_or] at hname
    simp [isAbsolute, hchars, Ne.symm hname.1]

/-- There is a slash between a directory and a name in it, its own if the directory ends with one. -/
theorem exists_join_eq (hne : directory ≠ "") (hname : '/' ∉ name.toList) :
    ∃ front, join directory name = front ++ "/" ++ name ∧
      (directory = front ∨ directory = front ++ "/") := by
  have hrelative := isAbsolute_eq_false hname
  by_cases hslash : directory.toList.getLast? = some '/'
  · obtain ⟨front, hfront⟩ := List.getLast?_eq_some_iff.mp hslash
    have hdirectory : directory = String.ofList front ++ "/" := by
      apply String.toList_inj.mp
      simpa using hfront
    refine ⟨String.ofList front, ?_, .inr hdirectory⟩
    rw [← hdirectory]
    simp [join, hrelative, hslash]
  · exact ⟨directory, by simp [join, hrelative, hslash, hne], .inl rfl⟩

/-- A path in a directory is as long as the directory and the name, and perhaps a slash. -/
theorem size_join_bounds (directory : String) (hname : '/' ∉ name.toList) :
    directory.utf8ByteSize + name.utf8ByteSize ≤ (join directory name).utf8ByteSize ∧
      (join directory name).utf8ByteSize ≤ directory.utf8ByteSize + name.utf8ByteSize + 1 := by
  have hslash : "/".utf8ByteSize = 1 := rfl
  by_cases hne : directory = ""
  · have hjoin : join directory name = directory ++ name := by
      have hrelative := isAbsolute_eq_false hname
      simp [join, hrelative, hne]
    rw [hjoin, String.utf8ByteSize_append]
    omega
  · obtain ⟨front, hjoin, hdirectory⟩ := exists_join_eq hne hname
    rw [hjoin, String.utf8ByteSize_append, String.utf8ByteSize_append]
    obtain rfl | rfl := hdirectory
    · omega
    · rw [String.utf8ByteSize_append]
      omega

theorem size_foldl_join_bounds (directory : String) (hnames : ∀ name ∈ names, '/' ∉ name.toList) :
    directory.utf8ByteSize + (names.map String.utf8ByteSize).sum ≤
        (names.foldl join directory).utf8ByteSize ∧
      (names.foldl join directory).utf8ByteSize ≤
        directory.utf8ByteSize + (names.map String.utf8ByteSize).sum + names.length := by
  induction names generalizing directory with
  | nil => simp
  | cons name names ih =>
    rw [List.forall_mem_cons] at hnames
    have hfirst := size_join_bounds directory hnames.1
    have hrest := ih (join directory name) hnames.2
    simp only [List.foldl_cons, List.map_cons, List.sum_cons, List.length_cons]
    omega

/-- The directory of a path that is not too long has a path that is not. -/
theorem fits_of_fits_foldl_join (hnames : ∀ name ∈ names, '/' ∉ name.toList)
    (h : fits (names.foldl join directory) = true) : fits directory = true := by
  have hsize := size_foldl_join_bounds directory hnames
  rw [fits_iff] at h ⊢
  omega

end

namespace Volume

open Node (At WellNamed)

variable {v : Volume} {root directory path name : String} {tree node : Node} {names : List String}

theorem lookup_eq_ok_iff :
    v.lookup path = .ok node ↔ path ≠ "" ∧ '\x00' ∉ path.toList ∧ fits path = true ∧
      Node.follow path [] v.root ((if isAbsolute path then [] else v.workingDirectory) ++ segmentsOf path) =
        .ok node := by
  unfold lookup
  split
  · simp_all
  · split
    · simp_all
    · split <;> simp_all

theorem readFile_eq_ok_iff {bytes : ByteArray} :
    v.readFile path = .ok bytes ↔ v.lookup path = .ok (.file bytes) := by
  rw [readFile, bind_eq_ok]
  constructor
  · intro ⟨node, hnode, hfile⟩
    cases node with
    | file other =>
      obtain rfl : other = bytes := pure_eq_ok.mp hfile
      exact hnode
    | dir children => exact nomatch hfile
  · intro h
    exact ⟨_, h, rfl⟩

theorem children_eq_ok_iff {children : List (String × Node)} :
    v.children path = .ok children ↔ v.lookup path = .ok (.dir children) := by
  rw [Volume.children, bind_eq_ok]
  constructor
  · intro ⟨node, hnode, hchildren⟩
    cases node with
    | file bytes => exact nomatch hchildren
    | dir other =>
      obtain rfl : other = children := pure_eq_ok.mp hchildren
      exact hnode
  · intro h
    exact ⟨_, h, rfl⟩

/-- What a path leads to in a tree with allowed names has allowed names. -/
theorem wellNamed_of_lookup (hv : v.root.WellNamed) (h : v.lookup path = .ok node) :
    node.WellNamed := by
  obtain ⟨-, -, -, hfollow⟩ := lookup_eq_ok_iff.mp h
  exact hv.of_follow hfollow (by simp)

/-- A name in a directory leads to the entry of the directory, as long as the path is not too long. -/
theorem lookup_join {children : List (String × Node)} (hname : IsName name)
    (hdirectory : v.lookup directory = .ok (.dir children))
    (hchild : children.lookup name = some node) (hfits : fits (join directory name) = true) :
    v.lookup (join directory name) = .ok node := by
  rw [lookup_eq_ok_iff] at hdirectory ⊢
  obtain ⟨hempty, hnull, -, hfollow⟩ := hdirectory
  obtain ⟨front, hjoin, hfront⟩ := exists_join_eq hempty hname.no_slash
  rw [hjoin] at hfits ⊢
  have hplain : ¬(name = "" ∨ name = ".") := fun hno => hno.elim hname.ne_empty hname.ne_dot
  -- the segments of the directory come first, and lead to it
  obtain ⟨above, hrest⟩ := Node.exists_follow_append hfollow
  have hfound (path' : String) : Node.follow path' above (.dir children) [name] = .ok node := by
    rw [Node.follow_entry hplain hname.ne_dots hname.size_le hchild, Node.follow]
  have habsolute : isAbsolute (front ++ "/" ++ name) = isAbsolute directory := by
    obtain rfl | rfl := hfront
    · obtain ⟨c, cs, hchars⟩ := List.exists_cons_of_ne_nil (mt String.toList_eq_nil_iff.mp hempty)
      simp [isAbsolute, hchars]
    · simp [isAbsolute, List.head?_append]
  refine ⟨by simp, ?_, hfits, ?_⟩
  · obtain rfl | rfl := hfront
    · simpa [hname.no_null] using hnull
    · simpa [hname.no_null] using hnull
  · rw [habsolute, segmentsOf_append_slash, segmentsOf_eq_singleton hname.no_slash, ← List.append_assoc]
    obtain rfl | rfl := hfront
    · rw [hrest, hfound]
    · -- the slash at the end of the directory makes an empty segment
      have hsegments : segmentsOf (front ++ "/") = segmentsOf front ++ [""] := by
        have happend := segmentsOf_append_slash front ""
        rwa [String.append_empty] at happend
      rw [← Node.follow_skip_empty]
      rw [hsegments, ← List.append_assoc] at hrest
      have hsame := hrest (front ++ "/" ++ name) [name]
      rw [List.append_assoc] at hsame
      rw [List.singleton_append] at hsame
      rw [hsame, hfound]

/-- Behind the path of a tree, the names on the way to a node lead to the node, as long as the path is
    not too long. -/
theorem lookup_foldl_join (hroot : v.lookup root = .ok tree) (htree : tree.WellNamed)
    (hat : At tree names node) (hfits : fits (names.foldl join root) = true) :
    v.lookup (names.foldl join root) = .ok node := by
  induction hat generalizing root with
  | top tree => exact hroot
  | inside hmem hrest ih =>
    have hname := htree.isName hmem
    have hslash := fun name hmem' => ((hrest.isName (htree.of_mem hmem)) name hmem').no_slash
    have hchild := lookup_join hname hroot (htree.lookup_eq_some hmem) (fits_of_fits_foldl_join hslash hfits)
    exact ih hchild (htree.of_mem hmem) hfits

end Volume

end ReleaseSeal.Files
