import Lift6502.Files
import Lift6502.Proofs.General

/-! Files that are written. A file is read back as it was written, and all else
in the tree stays as it is: to write a file does not change where paths lead,
since no directory is replaced by one. -/

namespace Lift6502

/-- What a text can be written to: a file, which need not be there yet, or a
device that takes texts. -/
def Node.takesText : Option Node → Bool
  | none | some (.file _) | some (.device .null) | some (.device (.stream _)) => true
  | some .directory | some (.device .full) | some (.device .absent) => false

namespace Files

variable {files files' : Files} {text : String} {location place : Location}
  {contents : Array Byte}

/-! Where paths lead -/

/-- The path is one of a file at the place, if there is a file. -/
inductive Names (files : Files) (text : String) (location : Location) : Prop
  | intro {path : Path} {parent : Location} {name : String}
      (hpath : Path.ofText text = .ok path) (hparent : files.parent path = .ok parent)
      (hname : path.names.getLast? = some name) (hopen : path.closed = false)
      (hchild : parent.child name = .ok location)

theorem Names.unique (hnames : files.Names text location) (hnames' : files.Names text place) :
    location = place := by
  obtain ⟨hpath, hparent, hname, _, hchild⟩ := hnames
  obtain ⟨hpath', hparent', hname', _, hchild'⟩ := hnames'
  cases hpath.symm.trans hpath'
  cases hparent.symm.trans hparent'
  cases hname.symm.trans hname'
  cases hchild.symm.trans hchild'
  rfl

/-- Something can be written to the path. -/
def Accepts (files : Files) (text : String) : Prop :=
  ∃ location, files.Names text location ∧ Node.takesText (files.node? location) = true

theorem descend_eq_ok_iff {directory : Location} {name : String} :
    files.descend directory name = .ok place ↔
      directory.child name = .ok place ∧ files.node? place = some .directory := by
  unfold descend
  cases hchild : directory.child name with
  | error error => simp [bind, Except.bind]
  | ok found =>
      simp only [bind, Except.bind, Except.ok.injEq]
      constructor
      · intro hfound
        cases hnode : files.node? found with
        | none =>
            rw [hnode] at hfound
            cases hfound
        | some node =>
            rw [hnode] at hfound
            cases node with
            | directory =>
                cases hfound
                exact ⟨rfl, hnode⟩
            | file | device => cases hfound
      · rintro ⟨rfl, hnode⟩
        rw [hnode]
        rfl

theorem Names.read_eq (hnames : files.Names text location) :
    files.read text =
      match files.node? location with
      | none => .error .notFound
      | some .directory => .error .isDirectory
      | some (.file contents) => .ok contents
      | some (.device device) => device.read := by
  obtain ⟨hpath, hparent, hname, hopen, hchild⟩ := hnames
  simp only [read, hpath, bind, Except.bind, hparent, hname, hchild, hopen]
  rcases files.node? location with _ | _ | _ | _ <;> rfl

theorem Names.read_file (hnames : files.Names text location)
    (hfile : files.node? location = some (.file contents)) : files.read text = .ok contents := by
  rw [hnames.read_eq, hfile]

theorem Names.write_eq (hnames : files.Names text location) (contents : Array Byte) :
    files.write text contents =
      match files.node? location with
      | some .directory => .error .isDirectory
      | some (.device device) => device.write
      | some (.file _) | none => .ok (.stored (files.put location contents)) := by
  obtain ⟨hpath, hparent, hname, hopen, hchild⟩ := hnames
  simp only [write, hpath, bind, Except.bind, hparent, hname, hchild, hopen]
  rcases files.node? location with _ | _ | _ | _ <;> rfl

theorem exists_names_of_write {delivery : Delivery}
    (hwrite : files.write text contents = .ok delivery) :
    ∃ location, files.Names text location := by
  obtain ⟨path, hpath, hwrite⟩ := Except.exists_of_bind hwrite
  obtain ⟨parent, hparent, hwrite⟩ := Except.exists_of_bind hwrite
  cases hname : path.names.getLast? with
  | none =>
      rw [hname] at hwrite
      cases hwrite
  | some name =>
      rw [hname] at hwrite
      cases hopen : path.closed with
      | true =>
          rw [hopen] at hwrite
          cases hwrite
      | false =>
          rw [hopen] at hwrite
          obtain ⟨location, hchild, _⟩ := Except.exists_of_bind hwrite
          exact ⟨location, hpath, hparent, hname, hopen, hchild⟩

/-! Files that are written -/

/-- There is a new file at the place, and nothing else has changed. -/
structure Updates (files files' : Files) (location : Location) (contents : Array Byte) : Prop where
  working : files'.working = files.working
  written : files'.node? location = some (.file contents)
  others : ∀ other, other ≠ location → files'.node? other = files.node? other

theorem updates_put (hfile : files.node? location ≠ some .directory) :
    files.Updates (files.put location contents) location contents := by
  have hplace : location ≠ [] := by
    rintro rfl
    exact hfile rfl
  refine ⟨rfl, ?_, fun other hother => ?_⟩
  · rw [node?, if_neg hplace, put, List.lookup_cons_self]
  · rw [node?, node?, put, List.lookup_cons, beq_eq_false_iff_ne.mpr hother,
      List.lookup_filter_of_keep]
    exact fun _ => decide_eq_true hother

namespace Updates

theorem names (hupdates : files.Updates files' location contents)
    (hfile : files.node? location ≠ some .directory) (hnames : files.Names text place) :
    files'.Names text place := by
  obtain ⟨hpath, hparent, hname, hopen, hchild⟩ := hnames
  refine ⟨hpath, ?_, hname, hopen, hchild⟩
  unfold parent at hparent ⊢
  rw [hupdates.working]
  refine List.foldlM_eq_ok (fun directory name found hfound => ?_) hparent
  obtain ⟨hchild, hnode⟩ := descend_eq_ok_iff.mp hfound
  have hother : found ≠ location := by
    rintro rfl
    exact hfile hnode
  exact descend_eq_ok_iff.mpr ⟨hchild, (hupdates.others found hother).trans hnode⟩

theorem read_written (hupdates : files.Updates files' location contents)
    (hfile : files.node? location ≠ some .directory) (hnames : files.Names text location) :
    files'.read text = .ok contents :=
  (hupdates.names hfile hnames).read_file hupdates.written

theorem read_other (hupdates : files.Updates files' location contents)
    (hfile : files.node? location ≠ some .directory) (hnames : files.Names text place)
    (hother : place ≠ location) : files'.read text = files.read text := by
  rw [(hupdates.names hfile hnames).read_eq, hnames.read_eq, hupdates.others place hother]

end Updates

/-- A file that has been stored is read back as it was written, and nothing
else has changed. -/
theorem updates_of_write (hwrite : files.write text contents = .ok (.stored files')) :
    ∃ location, files.Names text location ∧ files.Updates files' location contents ∧
      files'.read text = .ok contents := by
  obtain ⟨location, hnames⟩ := exists_names_of_write hwrite
  rw [hnames.write_eq] at hwrite
  have hstored : files.node? location ≠ some .directory ∧
      files' = files.put location contents := by
    cases hnode : files.node? location with
    | none =>
        rw [hnode] at hwrite
        cases hwrite
        exact ⟨nofun, rfl⟩
    | some node =>
        rw [hnode] at hwrite
        cases node with
        | directory => cases hwrite
        | file =>
            cases hwrite
            exact ⟨nofun, rfl⟩
        | device device => cases device <;> cases hwrite
  obtain ⟨hfile, rfl⟩ := hstored
  exact ⟨location, hnames, updates_put hfile, (updates_put hfile).read_written hfile hnames⟩

end Files

end Lift6502
