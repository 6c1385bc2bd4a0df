import ReleaseSeal.Proofs.Seal.Collected

/-!
# The files beside an artifact

The artifact takes the place of the collected file that has its name, or stands in front if there is
none. Its URL is made again from its parts if it was collected and passed through if it was not; the two
agree but for URLs whose only slash is the one they start with.

## Key results

- `stage_eq`: what is published for the files of some directories
- `stage_describes_files`: each name once, in order, and described from the right file
- `stage_sits_beside_iff`: when the URLs are those beside the artifact's
-/

namespace ReleaseSeal.Seal

open Files (Node Volume)

variable {v : Volume} {name url path : String} {directories : List String} {artifact : ByteArray}

/-! ## What is published -/

@[simp]
theorem Asset.ofBytes_url (url : String) (bytes : ByteArray) : (Asset.ofBytes url bytes).url = url :=
  rfl

/-- The file that is published for a collected one: the artifact if it has its name. -/
def standIn (name : String) (artifact : ByteArray) (file : String × ByteArray) : String × ByteArray :=
  if file.1 = name then (file.1, artifact) else file

theorem standIn_name (file : String × ByteArray) : (standIn name artifact file).1 = file.1 := by
  unfold standIn
  split <;> rfl

/-- The files of directories that can be listed are collected. -/
theorem collect_eq (hdirs : ∀ directory ∈ directories, ∃ children, v.children directory = .ok children) :
    collect v name (.ok artifact) directories =
      .ok ((directories.flatMap (filesIn v)).map (standIn name artifact)) := by
  induction directories with
  | nil => rfl
  | cons directory directories ih =>
    rw [List.forall_mem_cons] at hdirs
    obtain ⟨⟨children, hchildren⟩, hrest⟩ := hdirs
    -- the artifact was read, so that putting it in place of a copy does not fail
    have hfiles (files : List (String × ByteArray)) : files.mapM (fun file =>
        if file.1 = name then (Except.ok artifact : Except Failure ByteArray).map (file.1, ·) else .ok file) =
          .ok (files.map (standIn name artifact)) := by
      rw [mapM_eq_ok, List.forall₂_map_right_iff, List.forall₂_same]
      intro file _
      unfold standIn
      split <;> rfl
    have hhere : filesIn v directory =
        (filesOf children).filter fun file => Files.fits (Files.join directory file.1) := by
      rw [filesIn, hchildren]
    rw [collect, List.flatMap_cons, List.map_append, hhere]
    exact bind_eq_ok.mpr ⟨children, mapError_eq_ok.mpr hchildren,
      bind_eq_ok.mpr ⟨_, hfiles _, bind_eq_ok.mpr ⟨_, ih hrest, rfl⟩⟩⟩

/-- The assets for collected files, and for the artifact. -/
def assetsOf (url : String) (artifact : ByteArray) (copies : List Copy) : List Asset :=
  (if copies.any fun c => c.name = urlName url then [] else [Asset.ofBytes url artifact]) ++
    copies.map fun c => Asset.ofBytes (siblingUrl url c.name)
      (if c.name = urlName url then artifact else c.bytes)

/-- What is published if the directories can be listed and the artifact can be read. -/
theorem stage_eq (hv : v.root.WellNamed)
    (hdirs : ∀ directory ∈ directories, ∃ children, v.children directory = .ok children)
    (hartifact : v.readFile path = .ok artifact) :
    stage v url directories path = .ok (assetsOf url artifact (copiesFrom v 0 [] directories)) := by
  have hread : (v.readFile path).mapError Failure.file = .ok artifact := mapError_eq_ok.mpr hartifact
  have hcollect := @collect_eq v (urlName url) directories artifact hdirs
  -- replacing the artifact and picking the first of each name do not get in each other's way
  have hfirst : firstOfEach [] ((directories.flatMap (filesIn v)).map (standIn (urlName url) artifact)) =
      (copiesFrom v 0 [] directories).map fun c => standIn (urlName url) artifact (c.name, c.bytes) := by
    rw [firstOfEach_map standIn_name, firstOfEach_flatMap hv 0, List.map_map, Function.comp_def]
  have hasset : ∀ c : Copy,
      Asset.ofBytes (siblingUrl url (standIn (urlName url) artifact (c.name, c.bytes)).1)
        (standIn (urlName url) artifact (c.name, c.bytes)).2 =
        Asset.ofBytes (siblingUrl url c.name) (if c.name = urlName url then artifact else c.bytes) := by
    intro c
    rw [standIn_name, standIn]
    split <;> rfl
  have hany : ((copiesFrom v 0 [] directories).map fun c =>
      standIn (urlName url) artifact (c.name, c.bytes)).any (fun file => file.1 == urlName url) =
        (copiesFrom v 0 [] directories).any fun c => c.name = urlName url := by
    have htest : ((fun file : String × ByteArray => file.1 == urlName url) ∘ fun c : Copy =>
        standIn (urlName url) artifact (c.name, c.bytes)) = fun c => decide (c.name = urlName url) := by
      funext c
      rw [Function.comp_apply, standIn_name, beq_eq_decide]
    rw [List.any_map, htest]
  unfold stage assetsOf
  rw [hread]
  refine bind_eq_ok.mpr ⟨_, hcollect, ?_⟩
  simp only [hfirst, hany, List.map_map]
  split
  · exact congrArg Except.ok (List.map_congr_left fun c _ => hasset c)
  · exact congrArg (fun assets => Except.ok (Asset.ofBytes url artifact :: assets))
      (List.map_congr_left fun c _ => hasset c)

/-! ## URLs -/

/-- The only slash of a URL is the one that it starts with. -/
def IsRooted (url : String) : Prop :=
  ∃ last, '/' ∉ last.toList ∧ url = "/" ++ last

/-- A URL has no slash, or its last slash is its first character, or there is something in front of it. -/
theorem url_cases (url : String) :
    '/' ∉ url.toList ∨ IsRooted url ∨
      ∃ front last, front ≠ "" ∧ '/' ∉ last.toList ∧ url = front ++ "/" ++ last := by
  by_cases hslash : '/' ∈ url.toList
  · obtain ⟨front, last, hsplit, hlast⟩ := Text.exists_last hslash
    have hurl : url = String.ofList front ++ "/" ++ String.ofList last := by
      rw [← String.toList_inj, hsplit]
      simp
    cases front with
    | nil => exact .inr (.inl ⟨String.ofList last, by simpa using hlast, by simpa using hurl⟩)
    | cons c front =>
      have hfront : String.ofList (c :: front) ≠ "" := by simp
      exact .inr (.inr ⟨_, String.ofList last, hfront, by simpa using hlast, hurl⟩)
  · exact .inl hslash

section

variable {front last : String}

theorem urlName_of_no_slash (h : '/' ∉ url.toList) : urlName url = url := by
  rw [urlName, Text.afterLast_of_not_mem h, String.ofList_toList]

theorem siblingUrl_of_no_slash (h : '/' ∉ url.toList) : siblingUrl url name = name := by
  simp [siblingUrl, Text.beforeLast_of_not_mem h]

theorem urlName_append (h : '/' ∉ last.toList) : urlName (front ++ "/" ++ last) = last := by
  have hchars : (front ++ "/" ++ last).toList = front.toList ++ '/' :: last.toList := by simp
  rw [urlName, hchars, Text.afterLast_append h, String.ofList_toList]

theorem siblingUrl_append (h : '/' ∉ last.toList) (hne : front ≠ "") :
    siblingUrl (front ++ "/" ++ last) name = front ++ "/" ++ name := by
  have hchars : (front ++ "/" ++ last).toList = front.toList ++ '/' :: last.toList := by simp
  rw [siblingUrl, hchars, Text.beforeLast_append h, String.ofList_toList]
  exact if_neg hne

/-- In front of a slash at the start there is nothing, and what is beside such a URL loses the slash. -/
theorem siblingUrl_rooted (h : '/' ∉ last.toList) : siblingUrl ("/" ++ last) name = name := by
  have hchars : ("/" ++ last).toList = [] ++ '/' :: last.toList := by simp
  have hbefore : Text.beforeLast '/' ("/" ++ last).toList = [] := by
    rw [hchars]
    exact Text.beforeLast_append h
  rw [siblingUrl, hbefore]
  exact if_pos rfl

end

theorem siblingUrl_injective (url : String) : Function.Injective (siblingUrl url) := by
  intro name name' h
  unfold siblingUrl at h
  dsimp only at h
  split at h
  · exact h
  · exact (String.append_right_inj _).mp h

/-- The URL beside another leads to the file whose name it was made with. -/
theorem urlName_siblingUrl (hname : '/' ∉ name.toList) : urlName (siblingUrl url name) = name := by
  obtain h | ⟨last, hlast, rfl⟩ | ⟨front, last, hne, hlast, rfl⟩ := url_cases url
  · rw [siblingUrl_of_no_slash h, urlName_of_no_slash hname]
  · rw [siblingUrl_rooted hlast, urlName_of_no_slash hname]
  · rw [siblingUrl_append hlast hne, urlName_append hname]

/-- The URL beside another is the other one only for the name that the other one leads to. -/
theorem eq_urlName_of_siblingUrl_eq (hname : '/' ∉ name.toList) (h : siblingUrl url name = url) :
    name = urlName url := by
  rw [← h, urlName_siblingUrl hname]

/-- For that name it is the other one, unless the slash at the start is lost. -/
theorem siblingUrl_urlName (h : ¬IsRooted url) : siblingUrl url (urlName url) = url := by
  obtain hplain | hrooted | ⟨front, last, hne, hlast, rfl⟩ := url_cases url
  · rw [siblingUrl_of_no_slash hplain, urlName_of_no_slash hplain]
  · exact absurd hrooted h
  · rw [urlName_append hlast, siblingUrl_append hlast hne]

/-! ## The assets -/

/-- An asset describes a file with a name: its URL leads to the name, and it has the size of the file and
    the digest of its bytes. -/
structure Asset.Describes (a : Asset) (file : String × ByteArray) : Prop where
  name_eq : urlName a.url = file.1
  size_eq : a.size = file.2.size
  digest_eq : a.digest = Sha256.hexDigest file.2

theorem Asset.describes_ofBytes {bytes : ByteArray} (h : urlName url = name) :
    (Asset.ofBytes url bytes).Describes (name, bytes) where
  name_eq := h
  size_eq := rfl
  digest_eq := rfl

/-- What is to be published for collected files: the artifact under its name, whatever the collected file
    of that name holds, and in front if there is none. -/
def published (name : String) (artifact : ByteArray) (copies : List Copy) :
    List (String × ByteArray) :=
  (if copies.any fun c => c.name = name then [] else [(name, artifact)]) ++
    copies.map fun c => (c.name, if c.name = name then artifact else c.bytes)

section

variable {copies : List Copy}

theorem describes_assetsOf (hslash : ∀ c ∈ copies, '/' ∉ c.name.toList) :
    List.Forall₂ Asset.Describes (assetsOf url artifact copies)
      (published (urlName url) artifact copies) := by
  unfold assetsOf published
  apply List.rel_append
  · split
    · exact .nil
    · exact .cons (Asset.describes_ofBytes rfl) .nil
  · rw [List.forall₂_map_left_iff, List.forall₂_map_right_iff, List.forall₂_same]
    intro c hc
    apply Asset.describes_ofBytes
    exact urlName_siblingUrl (hslash c hc)

theorem url_assetsOf :
    (assetsOf url artifact copies).map Asset.url =
      (if copies.any fun c => c.name = urlName url then [] else [url]) ++
        copies.map fun c => siblingUrl url c.name := by
  unfold assetsOf
  rw [List.map_append, List.map_map]
  split <;> simp only [Function.comp_def, Asset.ofBytes_url, List.map_cons, List.map_nil]

/-- No URL is given twice. -/
theorem nodup_url_assetsOf (hnames : (copies.map Copy.name).Nodup)
    (hslash : ∀ c ∈ copies, '/' ∉ c.name.toList) :
    ((assetsOf url artifact copies).map Asset.url).Nodup := by
  have hsiblings : (copies.map fun c => siblingUrl url c.name).Nodup := by
    have hmap := hnames.map (siblingUrl_injective url)
    simpa only [List.map_map, Function.comp_def] using hmap
  rw [url_assetsOf]
  split
  · exact hsiblings
  · rename_i hnone
    rw [List.singleton_append, List.nodup_cons]
    refine ⟨fun hmem => hnone ?_, hsiblings⟩
    -- a file with the URL of the artifact would have its name
    obtain ⟨c, hc, hurl⟩ := List.mem_map.mp hmem
    exact List.any_eq_true.mpr ⟨c, hc, decide_eq_true (eq_urlName_of_siblingUrl_eq (hslash c hc) hurl)⟩

end

/-- Files that are published beside an artifact. If the directories can be listed and the artifact can be
    read, there is one asset for each name under which some directory has a file, and one for the artifact
    if no directory has its name; the first file of a name counts, but for the artifact. They stand in the
    order of the directories and then of the names, an artifact that was not collected in front, and no
    URL is given twice. -/
theorem stage_describes_files (hv : v.root.WellNamed)
    (hdirs : ∀ directory ∈ directories, ∃ children, v.children directory = .ok children)
    (hartifact : v.readFile path = .ok artifact) :
    ∃ copies assets, IsStaging v directories copies ∧ (copies.map Copy.name).Nodup ∧
      (∀ name, name ∈ copies.map Copy.name ↔
        ∃ directory ∈ directories, ∃ bytes, HasFile v directory name bytes) ∧
      stage v url directories path = .ok assets ∧
      List.Forall₂ Asset.Describes assets (published (urlName url) artifact copies) ∧
      (assets.map Asset.url).Nodup := by
  have hstaging : IsStaging v directories _ := isStaging_copiesFrom hv
  have hslash := hstaging.no_slash hv
  exact ⟨_, _, hstaging, hstaging.nodup_names, fun _ => hstaging.mem_names_iff,
    stage_eq hv hdirs hartifact, describes_assetsOf hslash,
    nodup_url_assetsOf hstaging.nodup_names hslash⟩

/-- A volume with an artifact and two directories. Both have a file with one name, and what is a file in
    the second is a directory in the first. -/
def shelf : Volume where
  root := .dir [("app.zip", .file ⟨#[1]⟩),
    ("first", .dir [("A.zip", .file ⟨#[2]⟩), ("notes", .dir [])]),
    ("second", .dir [("A.zip", .file ⟨#[3]⟩), ("notes", .file ⟨#[4]⟩)])]
  workingDirectory := []

theorem wellNamed_shelf : shelf.root.WellNamed := by
  have hfirst : Node.WellNamed (.dir [("A.zip", .file ⟨#[2]⟩), ("notes", .dir [])]) := by
    refine .dir (by decide +kernel) (by decide) ?_
    simp only [List.forall_mem_cons]
    exact ⟨.file _, .dir (by simp) (by simp) (by simp), by simp⟩
  have hsecond : Node.WellNamed (.dir [("A.zip", .file ⟨#[3]⟩), ("notes", .file ⟨#[4]⟩)]) := by
    refine .dir (by decide +kernel) (by decide) ?_
    simp only [List.forall_mem_cons]
    exact ⟨.file _, .file _, by simp⟩
  refine .dir (by decide +kernel) (by decide) ?_
  simp only [List.forall_mem_cons]
  exact ⟨.file _, hfirst, hsecond, by simp⟩

theorem listed_shelf :
    ∀ directory ∈ ["first", "second"], ∃ children, shelf.children directory = .ok children := by
  simp only [List.forall_mem_cons]
  exact ⟨⟨_, rfl⟩, ⟨_, rfl⟩, by simp⟩

theorem filesIn_first : filesIn shelf "first" = [("A.zip", ⟨#[2]⟩)] := by
  have hchildren : shelf.children "first" = .ok [("A.zip", .file ⟨#[2]⟩), ("notes", .dir [])] := rfl
  rw [filesIn, hchildren]
  dsimp only
  rw [filesOf, List.mergeSort_of_pairwise (by decide)]
  rfl

theorem filesIn_second : filesIn shelf "second" = [("A.zip", ⟨#[3]⟩), ("notes", ⟨#[4]⟩)] := by
  have hchildren : shelf.children "second" =
      .ok [("A.zip", .file ⟨#[3]⟩), ("notes", .file ⟨#[4]⟩)] := rfl
  rw [filesIn, hchildren]
  dsimp only
  rw [filesOf, List.mergeSort_of_pairwise (by decide)]
  rfl

theorem stage_describes_files_shelf :
    shelf.readFile "app.zip" = .ok ⟨#[1]⟩ ∧
      ∃ copies assets, IsStaging shelf ["first", "second"] copies ∧ (copies.map Copy.name).Nodup ∧
        (∀ name, name ∈ copies.map Copy.name ↔
          ∃ directory ∈ ["first", "second"], ∃ bytes, HasFile shelf directory name bytes) ∧
        stage shelf "https://x/A.zip" ["first", "second"] "app.zip" = .ok assets ∧
        List.Forall₂ Asset.Describes assets (published "A.zip" ⟨#[1]⟩ copies) ∧
        (assets.map Asset.url).Nodup ∧
        assets = [
          { url := "https://x/A.zip", size := 1,
            digest := "4bf5122f344554c53bde2ebb8cd2b7e3d1600ad631c385a5d7cce23c7785459a" },
          { url := "https://x/notes", size := 1,
            digest := "e52d9c508c502347344d8c07ad91cbd6068afc75ff6292f062a09ca381c89e71" }] := by
  have hname : urlName "https://x/A.zip" = "A.zip" := by decide +kernel
  have hartifact : shelf.readFile "app.zip" = .ok ⟨#[1]⟩ := rfl
  obtain ⟨copies, assets, hstaging, hnames, hmem, hstage, hdescribe, hurls⟩ :=
    @stage_describes_files shelf "https://x/A.zip" "app.zip" ["first", "second"] _
      wellNamed_shelf listed_shelf hartifact
  rw [hname] at hdescribe
  have hassets : assetsOf "https://x/A.zip" ⟨#[1]⟩ (copiesFrom shelf 0 [] ["first", "second"]) = [
      { url := "https://x/A.zip", size := 1,
        digest := "4bf5122f344554c53bde2ebb8cd2b7e3d1600ad631c385a5d7cce23c7785459a" },
      { url := "https://x/notes", size := 1,
        digest := "e52d9c508c502347344d8c07ad91cbd6068afc75ff6292f062a09ca381c89e71" }] := by
    -- the first directory has the archive, the second both
    rw [copiesFrom, copiesFrom, copiesFrom, filesIn_first, filesIn_second]
    decide +kernel
  have hstages := @stage_eq shelf "https://x/A.zip" _ _ _ wellNamed_shelf listed_shelf hartifact
  rw [hassets, hstage] at hstages
  exact ⟨hartifact, copies, assets, hstaging, hnames, hmem, hstage, hdescribe, hurls,
    Except.ok.inj hstages⟩

/-- A directory behind this many steps that lead nowhere. -/
def detour (directory : String) : (steps : Nat) → String
  | 0 => directory
  | steps + 1 => "." ++ "/" ++ detour directory steps

theorem size_detour (directory : String) (steps : Nat) :
    (detour directory steps).utf8ByteSize = 2 * steps + directory.utf8ByteSize := by
  induction steps with
  | zero => simp [detour]
  | succ steps ih =>
    have hdot : ".".utf8ByteSize = 1 := rfl
    have hslash : "/".utf8ByteSize = 1 := rfl
    rw [detour, String.utf8ByteSize_append, String.utf8ByteSize_append, ih, hdot, hslash]
    omega

theorem toList_detour (directory : String) (steps : Nat) :
    (detour directory steps).toList = (List.replicate steps ['.', '/']).flatten ++ directory.toList := by
  induction steps with
  | zero => rfl
  | succ steps ih =>
    rw [detour, String.toList_append, String.toList_append, ih]
    rfl

theorem segmentsOf_detour {directory : String} (hslash : '/' ∉ directory.toList) (steps : Nat) :
    Files.segmentsOf (detour directory steps) = List.replicate steps "." ++ [directory] := by
  induction steps with
  | zero => exact Files.segmentsOf_eq_singleton hslash
  | succ steps ih =>
    rw [detour, Files.segmentsOf_append_slash, ih, Files.segmentsOf_eq_singleton (by decide)]
    rfl

/-- A detour from the root leads to where the way without it does. -/
theorem lookup_detour {children : List (String × Node)} {directory : String} {node : Node} {steps : Nat}
    (hname : Files.IsName directory) (hmem : children.lookup directory = some node)
    (hfits : Files.fits (detour directory steps) = true) :
    (Volume.mk (.dir children) []).lookup (detour directory steps) = .ok node := by
  have hplain : ¬(directory = "" ∨ directory = ".") := fun hno => hno.elim hname.ne_empty hname.ne_dot
  have hfollow (path : String) : Node.follow path [] (.dir children)
      (List.replicate steps "." ++ [directory]) = .ok node := by
    clear hfits
    induction steps with
    | zero => rw [List.replicate_zero, List.nil_append, Node.follow_entry hplain hname.ne_dots hname.size_le
        hmem, Node.follow]
    | succ steps ih => rw [List.replicate_succ, List.cons_append, Node.follow_here (.inr rfl), ih]
  have hchars := toList_detour directory steps
  have hrelative : Files.isAbsolute (detour directory steps) = false := by
    rw [Files.isAbsolute, hchars]
    cases steps with
    | zero => simpa [Files.isAbsolute] using Files.isAbsolute_eq_false hname.no_slash
    | succ steps => rfl
  rw [Volume.lookup_eq_ok_iff, hrelative, segmentsOf_detour hname.no_slash]
  refine ⟨?_, ?_, hfits, hfollow _⟩
  · intro hempty
    have hsize := size_detour directory steps
    rw [hempty] at hsize
    have hzero : directory.utf8ByteSize = 0 := by simpa using (Nat.eq_zero_of_add_eq_zero_left hsize.symm)
    exact hname.ne_empty (String.utf8ByteSize_eq_zero_iff.mp hzero)
  · rw [hchars]
    simp [hname.no_null]

/-- A directory with a file, beside an artifact. -/
def rack : Volume where
  root := .dir [("app.zip", .file ⟨#[1]⟩), ("x", .dir [("notes", .file ⟨#[4]⟩)])]
  workingDirectory := []

theorem wellNamed_rack : rack.root.WellNamed := by
  refine .dir (by decide +kernel) (by decide) ?_
  simp only [List.forall_mem_cons]
  refine ⟨.file _, .dir (by decide +kernel) (by decide) ?_, by simp⟩
  simp only [List.forall_mem_cons]
  exact ⟨.file _, by simp⟩

/-- By a path that is almost too long a directory is listed, but its file is not published. -/
theorem stage_skips_file :
    (∃ children, rack.children (detour "x" 2046) = .ok children ∧ ("notes", .file ⟨#[4]⟩) ∈ children) ∧
      rack.readFile "app.zip" = .ok ⟨#[1]⟩ ∧
      ∃ assets, stage rack "A.zip" [detour "x" 2046] "app.zip" = .ok assets ∧
        ¬∃ a ∈ assets, urlName a.url = "notes" := by
  have hsize := size_detour "x" 2046
  have hlookup : rack.lookup (detour "x" 2046) = .ok (.dir [("notes", .file ⟨#[4]⟩)]) :=
    lookup_detour (by decide +kernel) rfl (Files.fits_iff.mpr (by rw [hsize]; decide))
  have hchildren := Volume.children_eq_ok_iff.mpr hlookup
  have hartifact : rack.readFile "app.zip" = .ok ⟨#[1]⟩ := rfl
  -- the path of the file has three bytes too many
  have hlong : Files.fits (Files.join (detour "x" 2046) "notes") = false := by
    have hjoin := (Files.size_join_bounds (detour "x" 2046) (by decide : '/' ∉ "notes".toList)).1
    rw [hsize] at hjoin
    rw [← Bool.not_eq_true, Files.fits_iff]
    exact Nat.not_lt.mpr (Nat.le_trans (by decide) hjoin)
  have hnone : filesIn rack (detour "x" 2046) = [] := by
    rw [filesIn, hchildren]
    dsimp only
    rw [filesOf, List.mergeSort_of_pairwise (by decide)]
    simp [hlong]
  have hstage := @stage_eq rack "A.zip" "app.zip" [detour "x" 2046] _ wellNamed_rack (by simp [hchildren])
    hartifact
  rw [copiesFrom, copiesFrom, hnone] at hstage
  exact ⟨⟨_, hchildren, List.mem_cons_self⟩, hartifact, _, hstage, by decide +kernel⟩

/-! ## Beside the artifact -/

/-- A URL with everything behind its last slash replaced by a name, or all of it if it has no slash. -/
inductive IsBeside (name : String) : (url beside : String) → Prop
  | plain {url : String} (no_slash : '/' ∉ url.toList) : IsBeside name url name
  | slash {front last : String} (no_slash : '/' ∉ last.toList) :
      IsBeside name (front ++ "/" ++ last) (front ++ "/" ++ name)

/-- One asset has the URL of the artifact and describes it; the others describe the collected files of
    other names, each at the URL beside that of the artifact. -/
structure SitsBeside (url : String) (artifact : ByteArray) (copies : List Copy) (assets : List Asset) :
    Prop where
  artifact_once : (assets.filter fun a => a.url = url) = [Asset.ofBytes url artifact]
  others : List.Forall₂ (fun a c => IsBeside c.name url a.url ∧ a = Asset.ofBytes a.url c.bytes)
    (assets.filter fun a => a.url ≠ url) (copies.filter fun c => c.name ≠ urlName url)

/-- What is beside a URL with a slash has a slash. -/
theorem IsBeside.slash_mem {beside : String} (h : IsBeside name url beside) (hurl : '/' ∈ url.toList) :
    '/' ∈ beside.toList := by
  cases h with
  | plain hplain => exact absurd hurl hplain
  | slash _ => simp

theorem isBeside_siblingUrl (h : ¬IsRooted url) : IsBeside name url (siblingUrl url name) := by
  obtain hplain | hrooted | ⟨front, last, hne, hlast, rfl⟩ := url_cases url
  · rw [siblingUrl_of_no_slash hplain]
    exact .plain hplain
  · exact absurd hrooted h
  · rw [siblingUrl_append hlast hne]
    exact .slash hlast

section

variable {copies : List Copy}

/-- Of files with distinct names one has the name of any of them. -/
theorem filter_name_eq_singleton {c : Copy} (hnames : (copies.map Copy.name).Nodup) (hc : c ∈ copies) :
    (copies.filter fun other => other.name = c.name) = [c] := by
  obtain ⟨before, after, rfl⟩ := List.append_of_mem hc
  rw [List.map_append, List.map_cons, List.nodup_middle, List.nodup_cons] at hnames
  have hothers : ∀ other ∈ before ++ after, other.name ≠ c.name := by
    intro other hother heq
    apply hnames.1
    rw [← List.map_append, ← heq]
    exact List.mem_map_of_mem hother
  have hbefore : (before.filter fun other => other.name = c.name) = [] := by
    simpa using fun other hother => hothers other (List.mem_append_left _ hother)
  have hafter : (after.filter fun other => other.name = c.name) = [] := by
    simpa using fun other hother => hothers other (List.mem_append_right _ hother)
  simp [hbefore, hafter]

variable (hurl : ∀ c ∈ copies, siblingUrl url c.name = url ↔ c.name = urlName url)

include hurl

/-- If only the artifact's name leads back to the artifact's URL, one asset has it. -/
theorem filter_artifact_assetsOf (hnames : (copies.map Copy.name).Nodup) :
    ((assetsOf url artifact copies).filter fun a => a.url = url) = [Asset.ofBytes url artifact] := by
  have hcopies : ((copies.map fun c => Asset.ofBytes (siblingUrl url c.name)
      (if c.name = urlName url then artifact else c.bytes)).filter fun a => a.url = url) =
        (copies.filter fun c => c.name = urlName url).map fun _ => Asset.ofBytes url artifact := by
    rw [List.filter_map]
    have hfilter : (copies.filter ((fun a : Asset => decide (a.url = url)) ∘ fun c =>
        Asset.ofBytes (siblingUrl url c.name) (if c.name = urlName url then artifact else c.bytes))) =
          copies.filter fun c => c.name = urlName url :=
      List.filter_congr fun c hc => by simpa [Asset.ofBytes] using hurl c hc
    rw [hfilter]
    apply List.map_congr_left
    intro c hc
    have hname : c.name = urlName url := by simpa using (List.mem_filter.mp hc).2
    have hsibling := (hurl c (List.mem_of_mem_filter hc)).mpr hname
    rw [hsibling, if_pos hname]
  unfold assetsOf
  rw [List.filter_append, hcopies]
  split
  · -- it was collected, as the one file with its name
    rename_i hany
    obtain ⟨c, hc, hname⟩ := List.any_eq_true.mp hany
    rw [← of_decide_eq_true hname, filter_name_eq_singleton hnames hc]
    rfl
  · -- it was not, and stands in front
    rename_i hnone
    have hempty : (copies.filter fun c => c.name = urlName url) = [] := by
      simpa using hnone
    rw [hempty]
    simp [Asset.ofBytes]

/-- The others are those of the collected files of other names. -/
theorem filter_others_assetsOf :
    ((assetsOf url artifact copies).filter fun a => a.url ≠ url) =
      (copies.filter fun c => c.name ≠ urlName url).map fun c =>
        Asset.ofBytes (siblingUrl url c.name) c.bytes := by
  -- what stands in front is the artifact, if anything
  have hfront : ((if copies.any fun c => c.name = urlName url then []
      else [Asset.ofBytes url artifact]).filter fun a => a.url ≠ url) = [] := by
    split
    · rfl
    · simp [Asset.ofBytes]
  have hfilter : (copies.filter ((fun a : Asset => decide (a.url ≠ url)) ∘ fun c =>
      Asset.ofBytes (siblingUrl url c.name) (if c.name = urlName url then artifact else c.bytes))) =
        copies.filter fun c => c.name ≠ urlName url :=
    List.filter_congr fun c hc => by simpa [Asset.ofBytes] using hurl c hc
  unfold assetsOf
  rw [List.filter_append, hfront, List.nil_append, List.filter_map, hfilter]
  apply List.map_congr_left
  intro c hc
  have hname : c.name ≠ urlName url := by simpa using (List.mem_filter.mp hc).2
  rw [if_neg hname]

end

/-- If the slash at the start is not lost, the assets sit beside the artifact. -/
theorem sitsBeside_assetsOf {copies : List Copy} (hnames : (copies.map Copy.name).Nodup)
    (hslash : ∀ c ∈ copies, '/' ∉ c.name.toList) (h : IsRooted url → copies = []) :
    SitsBeside url artifact copies (assetsOf url artifact copies) := by
  have hrooted {c : Copy} (hc : c ∈ copies) : ¬IsRooted url := fun hrooted => by simp [h hrooted] at hc
  have hurl : ∀ c ∈ copies, siblingUrl url c.name = url ↔ c.name = urlName url := by
    intro c hc
    constructor
    · intro heq
      exact eq_urlName_of_siblingUrl_eq (hslash c hc) heq
    · intro heq
      rw [heq, siblingUrl_urlName (hrooted hc)]
  refine { artifact_once := filter_artifact_assetsOf hurl hnames, others := ?_ }
  rw [filter_others_assetsOf hurl, List.forall₂_map_left_iff, List.forall₂_same]
  intro c hc
  rw [Asset.ofBytes_url]
  exact ⟨isBeside_siblingUrl (hrooted (List.mem_of_mem_filter hc)), rfl⟩

/-- A slash at the start is lost beside a URL that has no other, so that the URLs are the bare names. -/
theorem url_assetsOf_rooted {copies : List Copy} (h : IsRooted url) :
    (assetsOf url artifact copies).map Asset.url =
      (if copies.any fun c => c.name = urlName url then [] else [url]) ++ copies.map Copy.name := by
  have hnames : (copies.map fun c => siblingUrl url c.name) = copies.map Copy.name := by
    obtain ⟨last, hlast, rfl⟩ := h
    exact List.map_congr_left fun c _ => siblingUrl_rooted hlast
  rw [url_assetsOf, hnames]

/-- The assets do not sit beside such a URL if any file was collected. -/
theorem not_sitsBeside_of_rooted {copies : List Copy} (hrooted : IsRooted url)
    (hslash : ∀ c ∈ copies, '/' ∉ c.name.toList) (hne : copies ≠ []) :
    ¬SitsBeside url artifact copies (assetsOf url artifact copies) := by
  intro hsits
  have hslashed : '/' ∈ url.toList := by
    obtain ⟨last, -, rfl⟩ := hrooted
    simp
  have hurls := @url_assetsOf_rooted url artifact copies hrooted
  by_cases hothers : (copies.filter fun c => c.name ≠ urlName url) = []
  · -- every file has the artifact's name, so that its URL is the bare name, and no asset has the URL
    have hnamed : ∀ c ∈ copies, c.name = urlName url := by simpa using hothers
    obtain ⟨c, hc⟩ := List.exists_mem_of_ne_nil copies hne
    have hany : (copies.any fun c => c.name = urlName url) = true :=
      List.any_eq_true.mpr ⟨c, hc, decide_eq_true (hnamed c hc)⟩
    have hmem : Asset.ofBytes url artifact ∈ (assetsOf url artifact copies).filter fun a => a.url = url := by
      rw [hsits.artifact_once]
      exact List.mem_singleton_self _
    have hmem_urls := List.mem_map_of_mem (f := Asset.url) (List.mem_of_mem_filter hmem)
    rw [hurls, if_pos hany, List.nil_append] at hmem_urls
    obtain ⟨other, hother, hname⟩ := List.mem_map.mp hmem_urls
    exact hslash other hother (hname ▸ hslashed)
  · -- a file of another name has its bare name for a URL, which has no slash
    obtain ⟨c, rest, hcons⟩ := List.exists_cons_of_ne_nil hothers
    have hpairs := hsits.others
    rw [hcons, List.forall₂_cons_right_iff] at hpairs
    obtain ⟨a, others, ⟨hbeside, -⟩, -, hassets⟩ := hpairs
    have hmem : a ∈ (assetsOf url artifact copies).filter fun a => a.url ≠ url := by
      rw [hassets]
      exact List.mem_cons_self
    rw [List.mem_filter] at hmem
    have hmem_urls := List.mem_map_of_mem (f := Asset.url) hmem.1
    rw [hurls, List.mem_append] at hmem_urls
    obtain hfront | hname := hmem_urls
    · have hurl : a.url = url := by
        split at hfront <;> simp_all
      simp [hurl] at hmem
    · obtain ⟨other, hother, hname⟩ := List.mem_map.mp hname
      exact hslash other hother (hname ▸ hbeside.slash_mem hslashed)

/-- When the assets sit beside the artifact. If the directories can be listed and the artifact can be read,
    then one asset has the URL of the artifact and describes it, and every other one describes a collected
    file at the URL beside it, exactly if nothing was collected or the only slash of the URL is not its
    first character. If it is, the URLs of the collected files are their bare names. -/
theorem stage_sits_beside_iff (hv : v.root.WellNamed)
    (hdirs : ∀ directory ∈ directories, ∃ children, v.children directory = .ok children)
    (hartifact : v.readFile path = .ok artifact) :
    ∃ copies assets, IsStaging v directories copies ∧ stage v url directories path = .ok assets ∧
      (SitsBeside url artifact copies assets ↔ (IsRooted url → copies = [])) ∧
      (IsRooted url → assets.map Asset.url =
        (if copies.any fun c => c.name = urlName url then [] else [url]) ++ copies.map Copy.name) := by
  have hstaging : IsStaging v directories _ := isStaging_copiesFrom hv
  have hslash := hstaging.no_slash hv
  refine ⟨_, _, hstaging, stage_eq hv hdirs hartifact, ⟨?_, ?_⟩, url_assetsOf_rooted⟩
  · intro hsits hrooted
    by_contra hne
    exact not_sitsBeside_of_rooted hrooted hslash hne hsits
  · exact sitsBeside_assetsOf hstaging.nodup_names hslash

theorem stage_sits_beside_shelf :
    ∃ copies assets, IsStaging shelf ["first", "second"] copies ∧
      stage shelf "https://x/A.zip" ["first", "second"] "app.zip" = .ok assets ∧
      SitsBeside "https://x/A.zip" ⟨#[1]⟩ copies assets := by
  have hartifact : shelf.readFile "app.zip" = .ok ⟨#[1]⟩ := rfl
  have hrooted : ¬IsRooted "https://x/A.zip" := by
    intro ⟨last, _, hurl⟩
    have hhead := congrArg (fun url : String => url.toList.head?) hurl
    simp at hhead
  obtain ⟨copies, assets, hstaging, hstage, hiff, -⟩ :=
    @stage_sits_beside_iff shelf "https://x/A.zip" "app.zip" ["first", "second"] _
      wellNamed_shelf listed_shelf hartifact
  exact ⟨copies, assets, hstaging, hstage, hiff.mpr fun h => absurd h hrooted⟩

/-- The slash at the start of a URL is lost: a collected artifact has no asset with its own URL, and beside
    one that was not collected the other files have their bare names. -/
theorem stage_loses_leading_slash :
    (stage shelf "/A.zip" ["first"] "app.zip").toOption.map (·.map Asset.url) = some ["A.zip"] ∧
      "/A.zip" ∉ ["A.zip"] ∧
      (stage shelf "/B.zip" ["first"] "app.zip").toOption.map (·.map Asset.url) =
        some ["/B.zip", "A.zip"] ∧
      ¬IsBeside "A.zip" "/B.zip" "A.zip" := by
  refine ⟨by decide +kernel, by decide, by decide +kernel, ?_⟩
  intro h
  exact absurd (h.slash_mem (by decide)) (by decide)

end ReleaseSeal.Seal
