import ReleaseSeal.Proofs.Files.Tree
import ReleaseSeal.Proofs.Text.Listing
import ReleaseSeal.Seal.Asset

/-!
# The files of several directories

Of the files with one name the one in the first directory counts, whatever stands under that name in
other directories. A list of the files that count is known by two properties: its order, that of the
directories and then of the names, and its members.

## Key results

- `mem_copiesFrom_iff`: which files are collected
- `isStaging_copiesFrom`: the two properties
- `IsStaging.nodup_names`, `IsStaging.mem_names_iff`: each name once, and every name that there is
-/

namespace ReleaseSeal.Seal

open Files (Node Volume)

/-- A directory has a file of a name, and the path of the file is not too long. -/
structure HasFile (v : Volume) (directory name : String) (bytes : ByteArray) : Prop where
  listed : ∃ children, v.children directory = .ok children ∧ (name, .file bytes) ∈ children
  fits : Files.fits (Files.join directory name) = true

/-- A file in one of several directories, which is known by its place among them. -/
structure Copy where
  place : Nat
  name : String
  bytes : ByteArray

/-- The file stands in its directory, and no directory in front of that one has a file of its name. -/
structure Copy.IsFirst (v : Volume) (directories : List String) (c : Copy) : Prop where
  found : ∃ directory, directories[c.place]? = some directory ∧ HasFile v directory c.name c.bytes
  first : ∀ earlier ∈ directories.take c.place, ∀ other, ¬HasFile v earlier c.name other

/-- The files of some directories, each name once, in the order of the directories and then of the
    names. -/
structure IsStaging (v : Volume) (directories : List String) (copies : List Copy) : Prop where
  ordered : copies.Pairwise fun c c' => c.place < c'.place ∨ c.place = c'.place ∧ c.name < c'.name
  mem_iff : ∀ c, c ∈ copies ↔ c.IsFirst v directories

variable {v : Volume} {directory name : String} {directories : List String}
  {files rest : List (String × ByteArray)} {seen : List String}

/-! ## The files of a directory -/

theorem mem_filesOf_iff {children : List (String × Node)} {bytes : ByteArray} :
    (name, bytes) ∈ filesOf children ↔ (name, .file bytes) ∈ children := by
  simp only [filesOf, List.mem_mergeSort, List.mem_filterMap]
  constructor
  · intro ⟨child, hmem, hchild⟩
    split at hchild
    · cases hchild
      exact hmem
    · cases hchild
  · intro hmem
    exact ⟨_, hmem, rfl⟩

/-- The files of a directory in order, but those under too long paths; none if it cannot be listed. -/
def filesIn (v : Volume) (directory : String) : List (String × ByteArray) :=
  match v.children directory with
  | .ok children => (filesOf children).filter fun file => Files.fits (Files.join directory file.1)
  | .error _ => []

theorem mem_filesIn_iff {bytes : ByteArray} :
    (name, bytes) ∈ filesIn v directory ↔ HasFile v directory name bytes := by
  have hiff : HasFile v directory name bytes ↔
      (∃ children, v.children directory = .ok children ∧ (name, .file bytes) ∈ children) ∧
        Files.fits (Files.join directory name) = true :=
    ⟨fun h => ⟨h.listed, h.fits⟩, fun h => ⟨h.1, h.2⟩⟩
  unfold filesIn
  rw [hiff]
  cases v.children directory with
  | ok children => simp [mem_filesOf_iff]
  | error e => simp

theorem not_mem_filesIn_iff :
    name ∉ (filesIn v directory).map (·.1) ↔ ∀ bytes, ¬HasFile v directory name bytes := by
  simp [mem_filesIn_iff]

/-- The names of the entries of a directory are distinct. -/
theorem distinct_children (hv : v.root.WellNamed) {children : List (String × Node)}
    (h : v.children directory = .ok children) : (children.map (·.1)).Nodup :=
  (Volume.wellNamed_of_lookup hv (Volume.children_eq_ok_iff.mp h)).distinct

/-- A directory has its files in ascending order, each name once. -/
theorem pairwise_filesIn (hv : v.root.WellNamed) (directory : String) :
    (filesIn v directory).Pairwise fun a b => a.1 < b.1 := by
  unfold filesIn
  cases h : v.children directory with
  | ok children =>
    apply List.Pairwise.filter
    apply Text.pairwise_name_lt_mergeSort
    apply Text.nodup_names_filterMap _ (distinct_children hv h)
    intro child file hfile
    split at hfile
    · cases hfile
      rfl
    · cases hfile
  | error e => exact .nil

theorem nodup_filesIn (hv : v.root.WellNamed) (directory : String) :
    ((filesIn v directory).map (·.1)).Nodup := by
  rw [List.Nodup, List.pairwise_map]
  exact (pairwise_filesIn hv directory).imp fun hlt => ne_of_lt hlt

/-! ## The first file of each name -/

/-- Which names are seen counts, not in which order. -/
theorem firstOfEach_congr {seen' : List String} (h : ∀ name, name ∈ seen ↔ name ∈ seen') :
    firstOfEach seen files = firstOfEach seen' files := by
  induction files generalizing seen seen' with
  | nil => rfl
  | cons file files ih =>
    have hcontains : seen.contains file.1 = seen'.contains file.1 := by
      rw [Bool.eq_iff_iff, List.contains_iff_mem, List.contains_iff_mem]
      exact h file.1
    have hcons : ∀ name, name ∈ file.1 :: seen ↔ name ∈ file.1 :: seen' := by
      intro name
      rw [List.mem_cons, List.mem_cons, h name]
    rw [firstOfEach, firstOfEach, hcontains, ih h, ih hcons]

/-- Of files with distinct names those count whose names are not seen yet. -/
theorem firstOfEach_append (hdistinct : (files.map (·.1)).Nodup) :
    firstOfEach seen (files ++ rest) =
      (files.filter fun file => !seen.contains file.1) ++ firstOfEach (seen ++ files.map (·.1)) rest := by
  induction files generalizing seen with
  | nil => simp
  | cons file files ih =>
    rw [List.map_cons, List.nodup_cons] at hdistinct
    rw [List.cons_append, firstOfEach]
    split
    · rename_i hseen
      -- the name is seen already, so it makes no difference behind it
      have hsame : ∀ name, name ∈ seen ++ files.map (·.1) ↔
          name ∈ seen ++ (file :: files).map (·.1) := by
        have hmem := List.contains_iff_mem.mp hseen
        intro name
        simp only [List.mem_append, List.map_cons, List.mem_cons]
        constructor
        · intro h
          exact h.imp_right .inr
        · intro h
          obtain h | h | h := h
          · exact .inl h
          · exact .inl (h ▸ hmem)
          · exact .inr h
      rw [ih hdistinct.2, firstOfEach_congr hsame, List.filter_cons_of_neg (by simpa using hseen)]
    · rename_i hnew
      have hsame : ∀ name, name ∈ (file.1 :: seen) ++ files.map (·.1) ↔
          name ∈ seen ++ (file :: files).map (·.1) := by
        intro name
        simp only [List.cons_append, List.mem_cons, List.mem_append, List.map_cons]
        tauto
      -- no file behind it has its name
      have hfilter : (files.filter fun other => !(file.1 :: seen).contains other.1) =
          files.filter fun other => !seen.contains other.1 := by
        apply List.filter_congr
        intro other hother
        have hne : other.1 ≠ file.1 := fun heq => hdistinct.1 (heq ▸ List.mem_map_of_mem hother)
        simp [hne]
      rw [ih hdistinct.2, firstOfEach_congr hsame, hfilter, List.filter_cons_of_pos (by simpa using hnew),
        List.cons_append]

theorem firstOfEach_map {change : String × ByteArray → String × ByteArray}
    (hname : ∀ file, (change file).1 = file.1) :
    firstOfEach seen (files.map change) = (firstOfEach seen files).map change := by
  induction files generalizing seen with
  | nil => rfl
  | cons file files ih =>
    rw [List.map_cons, firstOfEach, firstOfEach, hname]
    split
    · exact ih
    · rw [ih, List.map_cons]

/-! ## The files of several directories -/

/-- The files of some directories whose names are not seen yet; the first directory has the given
    place. -/
def copiesFrom (v : Volume) : (place : Nat) → (seen : List String) → List String → List Copy
  | _, _, [] => []
  | place, seen, directory :: rest =>
    (((filesIn v directory).filter fun file => !seen.contains file.1).map fun file =>
      { place, name := file.1, bytes := file.2 }) ++
      copiesFrom v (place + 1) (seen ++ (filesIn v directory).map (·.1)) rest

theorem firstOfEach_flatMap (hv : v.root.WellNamed) (place : Nat) :
    firstOfEach seen (directories.flatMap (filesIn v)) =
      (copiesFrom v place seen directories).map fun c => (c.name, c.bytes) := by
  induction directories generalizing place seen with
  | nil => rfl
  | cons directory directories ih =>
    have hpairs : ((fun c : Copy => (c.name, c.bytes)) ∘ fun file : String × ByteArray =>
        { place, name := file.1, bytes := file.2 }) = id := rfl
    rw [List.flatMap_cons, firstOfEach_append (nodup_filesIn hv directory), copiesFrom, List.map_append,
      List.map_map, hpairs, List.map_id, ih (place + 1)]

/-- A file is the first one in the first directory if it stands there. -/
theorem isFirst_zero_iff {bytes : ByteArray} :
    Copy.IsFirst v (directory :: directories) { place := 0, name, bytes } ↔
      HasFile v directory name bytes := by
  constructor
  · intro h
    obtain ⟨found, hfound, hfile⟩ := h.found
    cases hfound
    exact hfile
  · intro h
    exact { found := ⟨directory, rfl, h⟩, first := by simp }

/-- A file is the first one in a later directory if the first directory has none of its name. -/
theorem isFirst_succ_iff {place : Nat} {bytes : ByteArray} :
    Copy.IsFirst v (directory :: directories) { place := place + 1, name, bytes } ↔
      (∀ other, ¬HasFile v directory name other) ∧
        Copy.IsFirst v directories { place, name, bytes } := by
  constructor
  · intro h
    have hfirst := h.first
    simp only [List.take_succ_cons, List.forall_mem_cons] at hfirst
    exact ⟨hfirst.1, { found := by simpa using h.found, first := hfirst.2 }⟩
  · intro ⟨hnone, h⟩
    have hfirst := h.first
    exact { found := by simpa using h.found
            first := by
              simp only [List.take_succ_cons, List.forall_mem_cons]
              exact ⟨hnone, hfirst⟩ }

/-- Of each name that is not seen yet the first file is collected. -/
theorem mem_copiesFrom_iff {place : Nat} {c : Copy} :
    c ∈ copiesFrom v place seen directories ↔ c.name ∉ seen ∧ ∃ k, c.place = place + k ∧
      Copy.IsFirst v directories { place := k, name := c.name, bytes := c.bytes } := by
  induction directories generalizing place seen with
  | nil =>
    simp only [copiesFrom, List.not_mem_nil, false_iff, not_and, not_exists]
    intro _ k _ h
    obtain ⟨found, hfound, -⟩ := h.found
    simp at hfound
  | cons directory directories ih =>
    have hhere : c ∈ ((filesIn v directory).filter fun file => !seen.contains file.1).map (fun file =>
        ({ place, name := file.1, bytes := file.2 } : Copy)) ↔
        c.name ∉ seen ∧ c.place = place ∧ HasFile v directory c.name c.bytes := by
      rw [← mem_filesIn_iff]
      simp only [List.mem_map, List.mem_filter, Bool.not_eq_true', List.contains_eq_mem,
        decide_eq_false_iff_not]
      constructor
      · intro ⟨file, ⟨hmem, hnew⟩, hc⟩
        subst hc
        exact ⟨hnew, rfl, hmem⟩
      · intro ⟨hnew, hplace, hmem⟩
        exact ⟨(c.name, c.bytes), ⟨hmem, hnew⟩, by rw [← hplace]⟩
    -- what comes from later directories has a name that this one does not have
    rw [copiesFrom, List.mem_append, hhere, ih, List.mem_append, not_or, not_mem_filesIn_iff]
    constructor
    · intro h
      obtain ⟨hnew, hplace, hfile⟩ | ⟨⟨hnew, hnone⟩, k, hplace, hfirst⟩ := h
      · exact ⟨hnew, 0, hplace, isFirst_zero_iff.mpr hfile⟩
      · exact ⟨hnew, k + 1, by omega, isFirst_succ_iff.mpr ⟨hnone, hfirst⟩⟩
    · intro ⟨hnew, k, hplace, hfirst⟩
      cases k with
      | zero => exact .inl ⟨hnew, hplace, isFirst_zero_iff.mp hfirst⟩
      | succ k =>
        obtain ⟨hnone, hfirst⟩ := isFirst_succ_iff.mp hfirst
        exact .inr ⟨⟨hnew, hnone⟩, k, by omega, hfirst⟩

theorem pairwise_copiesFrom (hv : v.root.WellNamed) (place : Nat) (seen : List String) :
    (copiesFrom v place seen directories).Pairwise fun c c' =>
      c.place < c'.place ∨ c.place = c'.place ∧ c.name < c'.name := by
  induction directories generalizing place seen with
  | nil => exact .nil
  | cons directory directories ih =>
    rw [copiesFrom, List.pairwise_append]
    refine ⟨?_, ih _ _, ?_⟩
    · rw [List.pairwise_map]
      exact ((pairwise_filesIn hv directory).filter _).imp fun hlt => .inr ⟨rfl, hlt⟩
    · -- what follows comes from later directories
      intro c hc c' hc'
      obtain ⟨file, -, rfl⟩ := List.mem_map.mp hc
      obtain ⟨-, k, hplace, -⟩ := mem_copiesFrom_iff.mp hc'
      left
      show place < c'.place
      omega

/-- The files of some directories can be collected. -/
theorem isStaging_copiesFrom (hv : v.root.WellNamed) :
    IsStaging v directories (copiesFrom v 0 [] directories) where
  ordered := pairwise_copiesFrom hv 0 []
  mem_iff c := by
    rw [mem_copiesFrom_iff]
    simp only [List.not_mem_nil, not_false_eq_true, true_and, Nat.zero_add]
    constructor
    · intro ⟨k, hplace, hfirst⟩
      subst hplace
      exact hfirst
    · intro hfirst
      exact ⟨c.place, rfl, hfirst⟩

/-- Each name is collected once. -/
theorem IsStaging.nodup_names {copies : List Copy} (h : IsStaging v directories copies) :
    (copies.map Copy.name).Nodup := by
  rw [List.Nodup, List.pairwise_map]
  -- of two files with one name neither comes from a later directory
  have hplace {c c' : Copy} (hc : c ∈ copies) (hc' : c' ∈ copies) (hname : c.name = c'.name) :
      ¬c.place < c'.place := by
    intro hlt
    obtain ⟨directory, hdirectory, hfile⟩ := ((h.mem_iff c).mp hc).found
    have hmem : directory ∈ directories.take c'.place := by
      rw [List.mem_take_iff_getElem]
      obtain ⟨hbound, hget⟩ := List.getElem?_eq_some_iff.mp hdirectory
      exact ⟨c.place, by omega, hget⟩
    exact ((h.mem_iff c').mp hc').first directory hmem c.bytes (hname ▸ hfile)
  refine h.ordered.imp_of_mem ?_
  intro c c' hc hc' horder hname
  obtain hlt | ⟨-, hlt⟩ := horder
  · exact hplace hc hc' hname hlt
  · exact absurd hlt (hname ▸ lt_irrefl _)

/-- Each name is collected under which some directory has a file. -/
theorem IsStaging.mem_names_iff {copies : List Copy} (h : IsStaging v directories copies) :
    name ∈ copies.map Copy.name ↔ ∃ directory ∈ directories, ∃ bytes, HasFile v directory name bytes := by
  classical
  constructor
  · intro hmem
    obtain ⟨c, hc, rfl⟩ := List.mem_map.mp hmem
    obtain ⟨directory, hget, hfile⟩ := ((h.mem_iff c).mp hc).found
    exact ⟨directory, List.mem_of_getElem? hget, c.bytes, hfile⟩
  · intro ⟨directory, hmem, bytes, hfile⟩
    have hexists : ∃ place : Nat, ∃ directory, directories[place]? = some directory ∧
        ∃ bytes, HasFile v directory name bytes := by
      obtain ⟨place, hget⟩ := List.getElem?_of_mem hmem
      exact ⟨place, directory, hget, bytes, hfile⟩
    -- the file in the first of the directories that have one
    obtain ⟨directory, hget, bytes, hfile⟩ := Nat.find_spec hexists
    have hfirst : Copy.IsFirst v directories { place := Nat.find hexists, name, bytes } := by
      refine { found := ⟨directory, hget, hfile⟩, first := ?_ }
      intro earlier hearlier other hother
      obtain ⟨place, hplace, hget⟩ := List.mem_take_iff_getElem.mp hearlier
      have hplace : place < Nat.find hexists := (lt_min_iff.mp hplace).1
      exact Nat.find_min hexists hplace
        ⟨earlier, List.getElem?_eq_some_iff.mpr ⟨_, hget⟩, other, hother⟩
    exact List.mem_map_of_mem ((h.mem_iff _).mpr hfirst)

/-- The name of a collected file is one that a file system allows. -/
theorem IsStaging.isName {copies : List Copy} (h : IsStaging v directories copies)
    (hv : v.root.WellNamed) {c : Copy} (hc : c ∈ copies) : Files.IsName c.name := by
  obtain ⟨directory, -, hfile⟩ := ((h.mem_iff c).mp hc).found
  obtain ⟨children, hchildren, hmem⟩ := hfile.listed
  exact (Volume.wellNamed_of_lookup hv (Volume.children_eq_ok_iff.mp hchildren)).isName hmem

theorem IsStaging.no_slash {copies : List Copy} (h : IsStaging v directories copies)
    (hv : v.root.WellNamed) : ∀ c ∈ copies, '/' ∉ c.name.toList :=
  fun _ hc => (h.isName hv hc).no_slash

end ReleaseSeal.Seal
