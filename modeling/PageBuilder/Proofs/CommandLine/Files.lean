import PageBuilder.CommandLine.Files
import PageBuilder.Proofs.Maps
import PageBuilder.Proofs.Text.Tidy

/-!
# Files that are written as a whole

A write is atomic if it either fails and changes nothing or succeeds and changes one file, which its
path then leads to (`FileAccess.Atomic`).  The file system that is a value has such writes.  What
has to be shown for it is that a path leads to the file just written: a new file makes no folder out
of what was none, and it stands in the way of no other name, since paths to different places are
different texts (`join_injective`).
-/

namespace PageBuilder.CommandLine

/-! ## Atomic writes -/

/-- Reading changes nothing, and writing changes one file or fails.  Files are told apart by their
places. -/
structure FileAccess.Atomic {σ Place : Type} (access : FileAccess (StateM σ))
    (content : σ → Place → Option (List UInt8)) : Prop where
  read_keeps : ∀ path state, (access.read path state).2 = state
  write_fails : ∀ {path octets state fault},
    (access.write path octets state).1 = .error fault → (access.write path octets state).2 = state
  write_holds : ∀ {text octets state},
    (access.write (Path.ofText text) octets state).1 = .ok () →
      let after := (access.write (Path.ofText text) octets state).2
      (access.read (Path.ofText text) after).1 = .ok octets ∧
        ∃ place, content after place = some octets ∧
          ∀ other, other ≠ place → content after other = content state other

theorem FileAccess.Atomic.read_eq {σ Place : Type} {access : FileAccess (StateM σ)}
    {content : σ → Place → Option (List UInt8)} (h : access.Atomic content) (path : Path)
    (state : σ) : access.read path state = ((access.read path state).1, state) :=
  Prod.ext rfl (h.read_keeps path state)

/-! ## Names in a path -/

theorem Path.not_mem_of_mem_split {cs : List Char} : ∀ part ∈ Path.split cs, '/' ∉ part := by
  induction cs with
  | nil => simp [Path.split]
  | cons c rest ih =>
    rw [Path.split]
    split
    case isTrue => exact List.forall_mem_cons.2 ⟨by simp, ih⟩
    case isFalse hc =>
      split
      case h_1 => simpa using Ne.symm hc
      case h_2 part parts hparts =>
        rw [hparts] at ih
        obtain ⟨hpart, hrest⟩ := List.forall_mem_cons.1 ih
        exact List.forall_mem_cons.2 ⟨by simp [Ne.symm hc, hpart], hrest⟩

/-- Names are free of slashes. -/
def Unslashed (names : List String) : Prop :=
  ∀ name ∈ names, '/' ∉ name.toList

theorem Path.unslashed_ofText (text : String) : Unslashed (Path.ofText text).names := by
  intro name hm
  obtain ⟨part, hpart, rfl⟩ := List.mem_map.1 hm
  rw [String.toList_ofList]
  exact Path.not_mem_of_mem_split part (List.mem_filter.1 hpart).1

/-- Different lists of names make different paths. -/
theorem join_injective {names others : List String} (hnames : Unslashed names)
    (hothers : Unslashed others) (hne : names ≠ []) (hne' : others ≠ [])
    (h : Text.join "/" names = Text.join "/" others) : names = others := by
  have heq : (Text.join "/" names).toList.splitOn '/' = names.map String.toList :=
    Text.splitOn_join rfl hne hnames
  rw [h, Text.splitOn_join rfl hne' hothers] at heq
  exact (List.map_injective_iff.2 fun _ _ => String.toList_inj.1) heq.symm

namespace Files

variable {files : Files} {folder names : List String} {key : String} {octets : List UInt8}

/-! ## Following names -/

theorem contains_insert (key name : String) :
    OrderedMap.contains (OrderedMap.insert files key octets) name =
      (decide (name = key) || OrderedMap.contains files name) := by
  rw [OrderedMap.contains, OrderedMap.get?_insert, OrderedMap.contains]
  by_cases h : name = key <;> simp [h]

theorem isFolder_insert (h : files.isFolder names = true) :
    Files.isFolder (files.insert key octets) names = true := by
  obtain ⟨name, hname, hprefix⟩ := List.any_eq_true.1 h
  refine List.any_eq_true.2 ⟨name, ?_, hprefix⟩
  rw [OrderedMap.keys_insert]
  split
  · exact hname
  · exact List.mem_append_left _ hname

theorem unslashed_above (h : Unslashed folder) : Unslashed (above folder) := by
  unfold above
  split
  · exact List.forall_mem_append.2 ⟨h, by decide⟩
  · exact fun name hm => h name (List.dropLast_subset folder hm)

/-- The text of the path of a place, unless it is a folder. -/
def Place.key? : Place → Option String
  | .folder => none
  | .file key => some key
  | .vacant key => some key

/-- A folder stands where no walk ends at a file or at a place for one. -/
theorem ne_of_follow {place : Place} {here : List String}
    (hfollow : files.follow folder names = .ok place) (hkey : place.key? = some key)
    (hfolder : Unslashed folder) (hnames : Unslashed names) (hhere : Unslashed here)
    (hne : here ≠ []) (his : files.isFolder here = true)
    (hnot : files.contains (Text.join "/" here) = false) : Text.join "/" here ≠ key := by
  fun_induction follow files folder names with
  | case1 folder =>
    cases hfollow
    cases hkey
  | case2 folder rest ih =>
    exact ih hfollow (unslashed_above hfolder) (List.forall_mem_cons.1 hnames).2
  | case3 folder name rest hname htoo => cases hfollow
  | case4 folder name rest hname there path htoo hcontains hend =>
    cases hfollow
    have hpath : path = key := Option.some.inj hkey
    intro heq
    rw [heq, ← hpath, hcontains] at hnot
    cases hnot
  | case5 folder name rest hname there path htoo hcontains hend => cases hfollow
  | case6 folder name rest hname there path htoo hcontains hthere ih =>
    obtain ⟨hone, hrest⟩ := List.forall_mem_cons.1 hnames
    exact ih hfollow (List.forall_mem_append.2 ⟨hfolder, List.forall_mem_singleton.2 hone⟩) hrest
  | case7 folder name rest hname there path htoo hcontains hthere hend =>
    cases hfollow
    have hpath : path = key := Option.some.inj hkey
    have hone := (List.forall_mem_cons.1 hnames).1
    have hunslashed : Unslashed there :=
      List.forall_mem_append.2 ⟨hfolder, List.forall_mem_singleton.2 hone⟩
    intro heq
    -- A path is told by its text, as none of its names holds a slash.
    rw [join_injective hhere hunslashed hne (by simp [there]) (heq.trans hpath.symm)] at his
    exact hthere his
  | case8 folder name rest hname there path htoo hcontains hthere hend => cases hfollow

/-- Once a file stands at the place that a walk ends at, it leads there. -/
theorem follow_insert {place : Place} (hfollow : files.follow folder names = .ok place)
    (hkey : place.key? = some key) (hfolder : Unslashed folder) (hnames : Unslashed names) :
    Files.follow (files.insert key octets) folder names = .ok (.file key) := by
  fun_induction follow files folder names with
  | case1 folder =>
    cases hfollow
    cases hkey
  | case2 folder rest ih =>
    rw [follow]
    exact ih hfollow (unslashed_above hfolder) (List.forall_mem_cons.1 hnames).2
  | case3 folder name rest hname htoo => cases hfollow
  | case4 folder name rest hname there path htoo hcontains hend =>
    cases hfollow
    have hpath : path = key := Option.some.inj hkey
    have hnow : OrderedMap.contains (OrderedMap.insert files key octets) path = true := by
      simp [contains_insert, hpath]
    rw [follow]
    · rw [if_neg htoo, if_pos hnow, if_pos hend, ← hpath]
    · exact hname
  | case5 folder name rest hname there path htoo hcontains hend => cases hfollow
  | case6 folder name rest hname there path htoo hcontains hthere ih =>
    obtain ⟨hone, hrest⟩ := List.forall_mem_cons.1 hnames
    have hunslashed : Unslashed there :=
      List.forall_mem_append.2 ⟨hfolder, List.forall_mem_singleton.2 hone⟩
    -- The walk goes on through a folder, so the file is not put in its place.
    have hne : path ≠ key := ne_of_follow hfollow hkey hunslashed hrest hunslashed
      (by simp [there]) hthere (by simpa using hcontains)
    have hnot : OrderedMap.contains (OrderedMap.insert files key octets) path = false := by
      simpa [contains_insert, hne] using hcontains
    rw [follow]
    · rw [if_neg htoo, if_neg (by rw [hnot]; simp), if_pos (isFolder_insert hthere)]
      exact ih hfollow hunslashed hrest
    · exact hname
  | case7 folder name rest hname there path htoo hcontains hthere hend =>
    cases hfollow
    have hpath : path = key := Option.some.inj hkey
    have hnow : OrderedMap.contains (OrderedMap.insert files key octets) path = true := by
      simp [contains_insert, hpath]
    rw [follow]
    · rw [if_neg htoo, if_pos hnow, if_pos hend, ← hpath]
    · exact hname
  | case8 folder name rest hname there path htoo hcontains hthere hend => cases hfollow

/-! ## Reading what was written -/

theorem locate_insert {text : String} {place : Place}
    (h : files.locate (Path.ofText text) = .ok place) (hkey : place.key? = some key) :
    Files.locate (files.insert key octets) (Path.ofText text) = .ok (.file key) := by
  unfold locate at h ⊢
  split at h
  · cases h
  rename_i hnull
  split at h
  · cases h
  rename_i hlong
  rw [if_neg hnull, if_neg hlong]
  split at h
  · rename_i htop
    rw [if_pos htop]
    exact follow_insert h hkey (by rintro name ⟨⟩) (Path.unslashed_ofText text)
  · -- There are no files from the topmost folder on.
    unfold followFromTop at h
    split at h
    · cases h
      cases hkey
    · cases h

theorem write_eq_ok_iff {path : Path} {after : Files} :
    files.write path octets = .ok after ↔
      ∃ place key, files.locate path = .ok place ∧ place.key? = some key ∧
        after = files.insert key octets := by
  unfold write
  cases files.locate path with
  | error fault => simp
  | ok place => cases place <;> simp [Place.key?, eq_comm]

theorem read_insert {text : String} {place : Place}
    (h : files.locate (Path.ofText text) = .ok place) (hkey : place.key? = some key) :
    Files.read (files.insert key octets) (Path.ofText text) = .ok octets := by
  rw [read, locate_insert h hkey]
  simp only [OrderedMap.get?_insert, if_true]

/-- Files that are a value are written as a whole. -/
theorem atomic_access : access.Atomic fun files key => OrderedMap.get? files key where
  read_keeps _ _ := rfl
  write_fails {path octets files fault} h := by
    simp only [access] at h ⊢
    cases hwrite : files.write path octets with
    | error => rfl
    | ok after =>
      rw [hwrite] at h
      cases h
  write_holds {text octets files} h := by
    simp only [access] at h ⊢
    cases hwrite : files.write (Path.ofText text) octets with
    | error =>
      rw [hwrite] at h
      cases h
    | ok after =>
      obtain ⟨place, key, hlocate, hkey, rfl⟩ := write_eq_ok_iff.1 hwrite
      refine ⟨read_insert hlocate hkey, key, ?_, fun other hne => ?_⟩
      · rw [OrderedMap.get?_insert, if_pos rfl]
      · rw [OrderedMap.get?_insert, if_neg hne]

end Files

end PageBuilder.CommandLine
