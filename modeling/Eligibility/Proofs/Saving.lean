import Eligibility.Configuration.Storage
import Eligibility.FileTree
import Eligibility.Proofs.TomlConfigurations
import Eligibility.Proofs.YamlConfigurations

/-!
# Saved configurations load back

A configuration that is saved to a path is the one that is loaded from there
(`Configuration.load_save`). Each format reads what it writes, and a file tree reads at a path what
was written there: a new file does not stand in the way of the path to it.
-/

namespace Eligibility

namespace FileTree

variable {t : FileTree} {l m : Location} {e : Entry}

theorem find?_put_self (t : FileTree) (hl : l.names ≠ []) (e : Entry) :
    (t.put l e).find? l = some e := by
  simp [find?, put, hl]

theorem find?_put_of_ne (t : FileTree) (h : m ≠ l) (e : Entry) :
    (t.put l e).find? m = t.find? m := by
  have hlookup : ((l, e) :: t.entries).lookup m = t.entries.lookup m := by
    rw [List.lookup_cons, beq_false_of_ne h]
  simp only [find?, put, hlookup]

/-- What is no directory has a name. -/
theorem names_ne_nil (h : t.find? l ≠ some .directory) : l.names ≠ [] := by
  intro hnames
  exact h (by simp [find?, hnames])

theorem find?_put_directory (h : t.find? l ≠ some .directory) (hm : t.find? m = some .directory)
    (e : Entry) : (t.put l e).find? m = some .directory := by
  have hne : m ≠ l := by
    rintro rfl
    exact h hm
  rw [find?_put_of_ne t hne, hm]

theorem isSome_find?_put (h : t.find? l ≠ some .directory) (hm : (t.find? m).isSome = true)
    (e : Entry) : ((t.put l e).find? m).isSome = true := by
  by_cases hne : m = l
  · rw [hne, find?_put_self t (names_ne_nil h)]
    rfl
  · rw [find?_put_of_ne t hne]
    exact hm

/-! ## Paths -/

/-- Where a part of a path leads. -/
def follow (l : Location) (part : String) : Location :=
  if Path.isHere part then l else if part = ".." then l.parent else l.child part

/-- Whether a part of a path leads somewhere: a name must be there. -/
def Exists (t : FileTree) (l : Location) (part : String) : Prop :=
  Path.isHere part = true ∨ part = ".." ∨ (t.find? (l.child part)).isSome = true

theorem walk_cons_eq_ok {start : Location} {part : String} {parts : List String} :
    t.walk start (part :: parts) = .ok m ↔
      t.find? start = some .directory ∧ t.Exists start part ∧
        t.walk (follow start part) parts = .ok m := by
  rw [walk]
  unfold Exists follow
  cases t.find? start with
  | none => simp
  | some entry =>
    cases entry with
    | file text => simp
    | directory =>
      by_cases hhere : Path.isHere part = true
      · simp [hhere]
      · by_cases hup : part = ".."
        · subst hup
          simp [Path.isHere]
        · cases t.find? (start.child part) <;> simp [hhere, hup]

theorem walk_append_eq_ok {start : Location} {before after : List String} :
    t.walk start (before ++ after) = .ok m ↔
      ∃ l, t.walk start before = .ok l ∧ t.walk l after = .ok m := by
  induction before generalizing start with
  | nil => simp [walk]
  | cons part before ih => simp [walk_cons_eq_ok, ih, and_assoc]

/-- A path leads where it led before, when a place that is no directory gets an entry. -/
theorem walk_put {start : Location} {parts : List String} (h : t.find? l ≠ some .directory)
    (e : Entry) (hwalk : t.walk start parts = .ok m) : (t.put l e).walk start parts = .ok m := by
  induction parts generalizing start with
  | nil => exact hwalk
  | cons part parts ih =>
    obtain ⟨hstart, hpart, hrest⟩ := walk_cons_eq_ok.1 hwalk
    refine walk_cons_eq_ok.2 ⟨find?_put_directory h hstart e, ?_, ih hrest⟩
    exact hpart.imp_right (Or.imp_right fun hsome => isSome_find?_put h hsome e)

theorem locate_eq_ok {path : String} :
    t.locate path = .ok l ↔
      path ≠ "" ∧ t.walk (Location.start path) (Path.parts path) = .ok l := by
  unfold locate
  by_cases hpath : path = ""
  · simp [hpath]
  · simp [hpath]

/-- Where a new file comes: its directory is there, and its name is a name. -/
theorem locateNew_eq_ok {path : String} (h : t.locateNew path = .ok l) :
    ∃ before name directory, Path.parts path = before ++ [name] ∧ Path.isHere name = false ∧
      name ≠ ".." ∧ t.walk (Location.start path) before = .ok directory ∧
        t.find? directory = some .directory ∧ l = directory.child name := by
  unfold locateNew at h
  split at h
  · cases h
  · rename_i name before hparts
    split at h
    · split at h <;> cases h
    · split at h
      · cases h
      · rename_i hname
        split at h
        · rename_i directory hwalk
          split at h
          · rename_i hdirectory
            cases h
            have hpath : Path.parts path = before.reverse ++ [name] := by
              rw [← List.reverse_reverse (Path.parts path), hparts, List.reverse_cons]
            simp only [Bool.or_eq_true, decide_eq_true_eq, not_or] at hname
            exact ⟨_, _, _, hpath, by simpa using hname.1, hname.2, hwalk, hdirectory, rfl⟩
          · cases h
        · cases h

/-- A name at the end of a path leads to a place that is there. -/
theorem locate_child {path name : String} {before : List String} {directory : Location}
    (hparts : Path.parts path = before ++ [name]) (hhere : Path.isHere name = false)
    (hup : name ≠ "..") (hwalk : t.walk (Location.start path) before = .ok directory)
    (hdirectory : t.find? directory = some .directory)
    (hsome : (t.find? (directory.child name)).isSome = true) :
    t.locate path = .ok (directory.child name) := by
  have hpath : path ≠ "" := by
    rintro rfl
    have hname : [""] = before ++ [name] := hparts
    cases before with
    | nil =>
      cases hname
      cases hhere
    | cons part before => simp at hname
  have hfollow : follow directory name = directory.child name := by simp [follow, hhere, hup]
  refine locate_eq_ok.2 ⟨hpath, ?_⟩
  rw [hparts]
  refine walk_append_eq_ok.2 ⟨directory, hwalk, walk_cons_eq_ok.2 ⟨hdirectory, ?_, ?_⟩⟩
  · exact .inr (.inr hsome)
  · rw [hfollow]
    rfl

/-! ## Writing and reading -/

theorem read_eq_ok {path text : String} (h : t.locate path = .ok l)
    (hl : t.find? l = some (.file (some text))) : t.read path = .ok text := by
  simp [read, h, hl]

/-- What is written at a path is read there. -/
theorem read_write {path text : String} {t' : FileTree} (h : t.write path text = .ok t') :
    t'.read path = .ok text := by
  unfold write at h
  split at h
  · -- something is there already
    rename_i l hlocate
    split at h
    · cases h
    · rename_i hl
      cases h
      obtain ⟨hpath, hwalk⟩ := locate_eq_ok.1 hlocate
      exact read_eq_ok (locate_eq_ok.2 ⟨hpath, walk_put hl _ hwalk⟩)
        (find?_put_self t (names_ne_nil hl) _)
  · -- the file is new
    rename_i hlocate
    split at h
    · rename_i l hnew
      cases h
      obtain ⟨before, name, directory, hparts, hhere, hup, hwalk, hdirectory, rfl⟩ :=
        locateNew_eq_ok hnew
      have hl : t.find? (directory.child name) ≠ some .directory := by
        intro hfind
        have hsome : (t.find? (directory.child name)).isSome = true := by rw [hfind]; rfl
        rw [locate_child hparts hhere hup hwalk hdirectory hsome] at hlocate
        cases hlocate
      have hself := find?_put_self t (names_ne_nil hl) (.file (some text))
      refine read_eq_ok (locate_child hparts hhere hup (walk_put hl _ hwalk)
        (find?_put_directory hl hdirectory _) ?_) hself
      rw [hself]
      rfl
    · cases h
  · cases h

end FileTree

namespace Configuration

theorem read_write (format : Format) (c : Configuration) :
    format.read (format.write c) = some c := by
  cases format with
  | toml => exact c.readToml_writeToml
  | yaml => exact c.readYaml_writeYaml
  | json => exact c.readJson_writeJson

theorem formatOf_eq_ok {path : String}
    (h : Path.extension path ∈ ["toml", "yml", "yaml", "json"]) :
    ∃ format, formatOf path = .ok format := by
  have hformats : ∀ extension ∈ ["toml", "yml", "yaml", "json"],
      ∃ format, Format.ofExtension? extension = some format := by
    simp [Format.ofExtension?]
  obtain ⟨format, hformat⟩ := hformats _ h
  exact ⟨format, by simp [formatOf, hformat]⟩

theorem ofText_of_toText {path text : String} {c : Configuration} (h : toText path c = .ok text) :
    ofText path text = .ok c := by
  unfold toText at h
  unfold ofText
  cases hformat : formatOf path with
  | error e =>
    rw [hformat] at h
    cases h
  | ok format =>
    rw [hformat] at h
    cases h
    simp only [read_write]

/-- Saving fails only where the text of the configuration cannot be written. -/
theorem run_save {path text : String} {c : Configuration} (h : toText path c = .ok text)
    (t : FileTree) :
    (save FileTree.access path c).run.run t =
      match t.write path text with
      | .ok t' => (.ok (), t')
      | .error e => (.error (.writing path e), t) := by
  have hsave : save FileTree.access path c =
      writeFile FileTree.access (.writing path) path text := by
    rw [save, h]
    rfl
  have haccess : (FileTree.access.write path text) t =
      match t.write path text with
      | .ok t' => (.ok (), t')
      | .error e => (.error e, t) := rfl
  rw [hsave, writeFile]
  simp only [liftM, monadLift, MonadLift.monadLift, Bind.bind, ExceptT.bind, ExceptT.lift,
    ExceptT.mk, StateT.bind, ExceptT.run, StateT.run, Functor.map, StateT.map, haccess]
  cases t.write path text <;> rfl

theorem run_load {path text : String} {t : FileTree} (h : t.read path = .ok text) (base : String) :
    (load FileTree.access base (some path)).run.run t = (ofText path text, t) := by
  have hload : load FileTree.access base (some path) = loadFile FileTree.access path := rfl
  have haccess : (FileTree.access.read path) t = (.ok text, t) := by
    rw [← h]
    rfl
  rw [hload, loadFile]
  simp only [liftM, monadLift, MonadLift.monadLift, Bind.bind, ExceptT.bind, ExceptT.lift,
    ExceptT.mk, StateT.bind, ExceptT.run, StateT.run, Functor.map, StateT.map, haccess]
  rfl

/-- A configuration that is saved to a path is the one that is loaded from there. -/
theorem load_save (c : Configuration) {path : String}
    (h : Path.extension path ∈ ["toml", "yml", "yaml", "json"]) (t : FileTree) (base : String) :
    ∃ text, toText path c = .ok text ∧ ofText path text = .ok c ∧
      match t.write path text with
      | .ok t' =>
        (save FileTree.access path c).run.run t = (.ok (), t') ∧
          (load FileTree.access base (some path)).run.run t' = (.ok c, t')
      | .error e => (save FileTree.access path c).run.run t = (.error (.writing path e), t) := by
  obtain ⟨format, hformat⟩ := formatOf_eq_ok h
  have htext : toText path c = .ok (format.write c) := by simp [toText, hformat]
  have hof := ofText_of_toText htext
  refine ⟨format.write c, htext, hof, ?_⟩
  have hsave := run_save htext t
  cases hwrite : t.write path (format.write c) with
  | error e =>
    rw [hwrite] at hsave
    exact hsave
  | ok t' =>
    rw [hwrite] at hsave
    have hload := run_load (FileTree.read_write hwrite) base
    rw [hof] at hload
    exact ⟨hsave, hload⟩

/-- Names and ids that look like numbers or like nothing, with edge blanks, breaks and quotes. -/
theorem load_save_unusual : ∃ t',
    (save FileTree.access "criteria.yml" (ofPairs [("", "1e3"), (" edge ", "'\"\\"), ("null", "a: b"),
      ("line\nbreak\n\n", "\u0085\ufeff")])).run.run FileTree.empty = (.ok (), t') ∧
      (load FileTree.access "." (some "criteria.yml")).run.run t' =
        (.ok (ofPairs [("", "1e3"), (" edge ", "'\"\\"), ("null", "a: b"),
          ("line\nbreak\n\n", "\u0085\ufeff")]), t') := by
  have hpath : Path.extension "criteria.yml" ∈ ["toml", "yml", "yaml", "json"] := by decide
  obtain ⟨text, -, -, hload⟩ := load_save (ofPairs [("", "1e3"), (" edge ", "'\"\\"),
    ("null", "a: b"), ("line\nbreak\n\n", "\u0085\ufeff")]) hpath FileTree.empty "."
  exact ⟨_, hload⟩

end Configuration

end Eligibility
