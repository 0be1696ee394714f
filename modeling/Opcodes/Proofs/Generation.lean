import Opcodes.Avc2
import Opcodes.Proofs.Acceptance

/-!
# The generator writes all or nothing

In a folder that holds nothing but an empty folder, a run of the generator
either delivers the whole text, to its output or to the file it is asked for,
or it leaves neither output nor a file. Which of the two it is depends on the
command line alone: on whether it makes an order, and whether the order names
a folder.
-/

namespace Opcodes.Proofs.Generation

open CommandLine Generate OrderLines Acceptance

/-! ## Files -/

/-- The working folder holds nothing but an empty folder. -/
structure Bare (tree : FileTree) : Prop where
  folder (name : String) :
    tree.folders.contains (tree.workingFolder ++ [name]) = true ↔ name = "adir"
  empty : tree.here = []

/-- A path that is a single name, and not too long for one. -/
structure IsFileName (path : String) : Prop where
  unsplit : '/' ∉ path.toList
  unterminated : '\x00' ∉ path.toList
  short : path.utf8ByteSize ≤ 255

/-- The path leads from a bare folder to a folder. -/
def NamesFolder (path : String) : Prop :=
  path = "adir" ∨ path = "." ∨ path = ".."

instance (path : String) : Decidable (NamesFolder path) :=
  inferInstanceAs (Decidable (path = "adir" ∨ path = "." ∨ path = ".."))

theorem split_of_not_mem {characters : List Char} (unsplit : '/' ∉ characters) :
    FileTree.split characters = [characters] := by
  induction characters with
  | nil => rfl
  | cons character rest ih =>
      rw [List.mem_cons, not_or] at unsplit
      rw [FileTree.split, if_neg (Ne.symm unsplit.1), ih unsplit.2]

theorem folderNames_singleton (name : String) : FileTree.folderNames [name] = [] := by
  unfold FileTree.folderNames
  by_cases empty : name = "" <;> simp [empty]

theorem lastName_singleton (name : String) : FileTree.lastName [name] = name := by
  unfold FileTree.lastName
  by_cases empty : name = "" <;> simp [empty]

theorem origin_of_not_mem (tree : FileTree) {characters : List Char} (unsplit : '/' ∉ characters) :
    tree.origin characters = tree.workingFolder := by
  unfold FileTree.origin
  split
  case h_1 => simp at unsplit
  case h_2 => rfl

/-- A single name leads to a file, unless it names a folder. -/
theorem locate_fileName {tree : FileTree} (bare : Bare tree) {path : String}
    (name : IsFileName path) (given : path ≠ "") :
    tree.locate path =
      if NamesFolder path then .error .isFolder else .ok (tree.workingFolder ++ [path]) := by
  have fits : ¬FileTree.pathLimit ≤ path.utf8ByteSize := by
    have short := name.short
    unfold FileTree.pathLimit
    omega
  have short : ¬FileTree.nameLimit < path.utf8ByteSize := Nat.not_lt.mpr name.short
  have dots : FileTree.namesFolder [path] = true ↔ path = "." ∨ path = ".." := by
    simp [FileTree.namesFolder, lastName_singleton, given]
  unfold FileTree.locate
  rw [split_of_not_mem name.unsplit, List.map_singleton, String.ofList_toList, if_neg fits,
    folderNames_singleton, origin_of_not_mem tree name.unsplit]
  simp only [FileTree.follow, lastName_singleton, short, if_false, dots, bare.folder]
  by_cases folder : path = "adir" <;> by_cases dotted : path = "." ∨ path = ".." <;>
    simp [NamesFolder, folder, dotted]

/-- The tree after a file has been put into the working folder. -/
def put (tree : FileTree) (name content : String) : FileTree :=
  { tree with
    files := (tree.workingFolder ++ [name], content) ::
      tree.files.filter fun file => file.1 != tree.workingFolder ++ [name] }

theorem create_of_locate {tree : FileTree} {path : String} (content : String)
    (located : tree.locate path = .ok (tree.workingFolder ++ [path])) :
    tree.create path content = .ok (put tree path content) := by
  rw [FileTree.create, located, put]

/-- A file put into an empty folder is the only one there. -/
theorem here_put {tree : FileTree} (empty : tree.here = []) (name content : String) :
    (put tree name content).here = [(name, content)] := by
  have away := List.filterMap_eq_nil_iff.mp empty
  unfold FileTree.here put
  rw [List.filterMap_cons_some (b := (name, content)) (by simp)]
  congr 1
  exact List.filterMap_eq_nil_iff.mpr fun file member => away file (List.mem_filter.mp member).1

/-! ## Orders -/

theorem given_of_line {words : List String} {settings : List Setting} {called : Bool}
    (line : Line words settings called) {file : String} (member : Setting.path file ∈ settings) :
    file ≠ "" := by
  induction line with
  | done | dashes | call => cases member
  | setting spells rest ih =>
      rcases List.mem_cons.mp member with rfl | later
      · cases spells <;> assumption
      · exact ih later

theorem mem_of_path_foldl {settings : List Setting} {order : Order} {file : String}
    (named : (settings.foldl Setting.apply order).path = some file) :
    order.path = some file ∨ Setting.path file ∈ settings := by
  induction settings generalizing order with
  | nil => exact .inl named
  | cons setting rest ih =>
      rcases ih named with before | behind
      · cases setting with
        | emission wanted => exact .inl before
        | path other =>
            obtain rfl := Option.some.inj before
            exact .inr (List.mem_cons_self ..)
      · exact .inr (List.mem_cons_of_mem setting behind)

/-- An ordered file has a name. -/
theorem path_ne_empty_of_orders {arguments : List String} {order : Order} {file : String}
    (orders : Orders arguments order) (named : order.path = some file) : file ≠ "" := by
  obtain ⟨settings, line, _, rfl⟩ := orders
  rcases mem_of_path_foldl named with standard | member
  · cases standard
  · exact given_of_line line member

/-! ## Runs -/

/-- The declarations of the table. -/
def declarations (emission : Emission) : String :=
  Source.text Avc2.table emission

/-- The whole text goes where it is ordered to, and nothing goes elsewhere. -/
def Delivers (order : Order) (run : Run) (later : FileTree) : Prop :=
  match order.path with
  | none => run.output = declarations order.emission ∧ run.errors = "" ∧ later.here = []
  | some file =>
      run.output = "" ∧ later.here = [(file, declarations order.emission)] ∧
        run.errors = "Wrote " ++ order.emission.label ++ " table to " ++ file ++ "\n"

/-- The order is for a file with the name of a folder. -/
def ForFolder (order : Order) : Prop :=
  ∃ file, order.path = some file ∧ NamesFolder file

variable {tree : FileTree} {arguments : List String} {order : Order}

theorem run_of_error {stop : Stop} (stopped : readOrder arguments = .error stop) :
    run tree arguments = (.ofStop stop, tree) := by
  simp only [run, plan, stopped]

theorem run_of_unnamed (read : readOrder arguments = .ok order) (unnamed : order.path = none) :
    run tree arguments = (.success (declarations order.emission) "", tree) := by
  obtain ⟨emission, path⟩ := order
  cases unnamed
  simp only [run, plan, read]
  rfl

theorem run_of_created {file : String} {grown : FileTree} (read : readOrder arguments = .ok order)
    (named : order.path = some file)
    (growth : tree.create file (declarations order.emission) = .ok grown) :
    run tree arguments = (created file order.emission, grown) := by
  obtain ⟨emission, path⟩ := order
  cases named
  rw [declarations, ← text] at growth
  simp only [run, plan, read, growth]

theorem run_of_uncreated {file : String} {error : CreateError}
    (read : readOrder arguments = .ok order) (named : order.path = some file)
    (failure : tree.create file (declarations order.emission) = .error error) :
    run tree arguments = (notCreated file error.message, tree) := by
  obtain ⟨emission, path⟩ := order
  cases named
  rw [declarations, ← text] at failure
  simp only [run, plan, read, failure]

/-- A run that fails has no output and leaves every file as it was. -/
theorem unchanged_of_failure (tree : FileTree) (arguments : List String)
    (failed : (run tree arguments).1.status ≠ 0) :
    (run tree arguments).1.output = "" ∧ (run tree arguments).2 = tree := by
  cases read : readOrder arguments with
  | error stop =>
      rw [run_of_error read] at failed ⊢
      cases stop with
      | refused error => exact ⟨rfl, rfl⟩
      | informed text => exact absurd rfl failed
  | ok order =>
      cases named : order.path with
      | none =>
          rw [run_of_unnamed read named] at failed
          exact absurd rfl failed
      | some file =>
          cases outcome : tree.create file (declarations order.emission) with
          | error error =>
              rw [run_of_uncreated read named outcome]
              exact ⟨rfl, rfl⟩
          | ok grown =>
              rw [run_of_created read named outcome] at failed
              exact absurd rfl failed

theorem status_of_refused (unasked : ¬Asks arguments)
    (unordered : ∀ order, ¬Orders arguments order) : (run tree arguments).1.status = 2 := by
  cases read : readOrder arguments with
  | ok order => exact absurd (readOrder_eq_ok_iff.mp read) (unordered order)
  | error stop =>
      rw [run_of_error read]
      cases stop with
      | refused error => rfl
      | informed text => exact absurd (readOrder_informs_iff.mp ⟨text, read⟩) unasked

theorem status_of_folder (bare : Bare tree) (orders : Orders arguments order)
    (proper : ∀ file, order.path = some file → IsFileName file) (folder : ForFolder order) :
    (run tree arguments).1.status = 1 := by
  obtain ⟨file, named, folder⟩ := folder
  have located := locate_fileName bare (proper file named) (path_ne_empty_of_orders orders named)
  rw [if_pos folder] at located
  have failure : tree.create file (declarations order.emission) = .error .isFolder := by
    rw [FileTree.create, located]
  rw [run_of_uncreated (readOrder_eq_ok_iff.mpr orders) named failure]
  rfl

theorem delivers_of_file (bare : Bare tree) (orders : Orders arguments order)
    (proper : ∀ file, order.path = some file → IsFileName file) (unfolder : ¬ForFolder order) :
    (run tree arguments).1.status = 0 ∧
      Delivers order (run tree arguments).1 (run tree arguments).2 := by
  have read := readOrder_eq_ok_iff.mpr orders
  cases named : order.path with
  | none =>
      rw [run_of_unnamed read named, Delivers, named]
      exact ⟨rfl, rfl, rfl, bare.empty⟩
  | some file =>
      have located :=
        locate_fileName bare (proper file named) (path_ne_empty_of_orders orders named)
      rw [if_neg fun folder => unfolder ⟨file, named, folder⟩] at located
      have growth := create_of_locate (declarations order.emission) located
      rw [run_of_created read named growth, Delivers, named]
      exact ⟨rfl, rfl, here_put bare.empty file _, rfl⟩

/-- The three ways in which a run in a bare folder ends. -/
theorem outcome (bare : Bare tree) (unasked : ¬Asks arguments)
    (proper : ∀ order file, Orders arguments order → order.path = some file → IsFileName file) :
    (∃ order, Orders arguments order ∧ (run tree arguments).1.status = 0 ∧
        Delivers order (run tree arguments).1 (run tree arguments).2) ∨
      (∃ order, Orders arguments order ∧ ForFolder order ∧ (run tree arguments).1.status = 1) ∨
      (∀ order, ¬Orders arguments order) ∧ (run tree arguments).1.status = 2 := by
  by_cases ordered : ∃ order, Orders arguments order
  · obtain ⟨order, orders⟩ := ordered
    have named (file : String) := proper order file orders
    by_cases folder : ForFolder order
    · exact .inr (.inl ⟨order, orders, folder, status_of_folder bare orders named folder⟩)
    · exact .inl ⟨order, orders, delivers_of_file bare orders named folder⟩
  · have unordered (order : Order) (orders : Orders arguments order) : False :=
      ordered ⟨order, orders⟩
    exact .inr (.inr ⟨unordered, status_of_refused unasked unordered⟩)

/-- In a bare folder, a run that is not asked about the program writes all or nothing. It
succeeds only if it delivers what is ordered. It fails with status one exactly if the order is
for a folder, and with status two exactly if there is no order, and then there is neither output
nor a file. -/
theorem generation_all_or_nothing (tree : FileTree) (bare : Bare tree) (arguments : List String)
    (unasked : ¬Asks arguments)
    (proper : ∀ order file, Orders arguments order → order.path = some file → IsFileName file) :
    ((run tree arguments).1.status = 0 →
        ∃ order, Orders arguments order ∧
          Delivers order (run tree arguments).1 (run tree arguments).2) ∧
      ((run tree arguments).1.status = 1 ↔ ∃ order, Orders arguments order ∧ ForFolder order) ∧
      ((run tree arguments).1.status = 2 ↔ ∀ order, ¬Orders arguments order) ∧
      ((run tree arguments).1.status ≠ 0 →
        ((run tree arguments).1.status = 1 ∨ (run tree arguments).1.status = 2) ∧
          (run tree arguments).1.output = "" ∧ (run tree arguments).2.here = []) := by
  have ends := outcome bare unasked proper
  refine ⟨fun success => ?_, ⟨fun failure => ?_, fun ⟨order, orders, folder⟩ => ?_⟩,
    ⟨fun refusal => ?_, status_of_refused unasked⟩, fun failed => ⟨?_, ?_, ?_⟩⟩
  · rcases ends with ⟨order, orders, _, delivers⟩ | ⟨_, _, _, one⟩ | ⟨_, two⟩
    · exact ⟨order, orders, delivers⟩
    · simp [one] at success
    · simp [two] at success
  · rcases ends with ⟨_, _, zero, _⟩ | ⟨order, orders, folder, _⟩ | ⟨_, two⟩
    · simp [zero] at failure
    · exact ⟨order, orders, folder⟩
    · simp [two] at failure
  · exact status_of_folder bare orders (proper order · orders) folder
  · rcases ends with ⟨_, _, zero, _⟩ | ⟨_, _, _, one⟩ | ⟨unordered, _⟩
    · simp [zero] at refusal
    · simp [one] at refusal
    · exact unordered
  · rcases ends with ⟨_, _, zero, _⟩ | ⟨_, _, _, one⟩ | ⟨_, two⟩
    · exact absurd zero failed
    · exact .inl one
    · exact .inr two
  · exact (unchanged_of_failure tree arguments failed).1
  · rw [(unchanged_of_failure tree arguments failed).2]
    exact bare.empty

/-- A folder with nothing but an empty folder in it. -/
def start : FileTree where
  workingFolder := ["tmp", "work"]
  folders := [[], ["tmp"], ["tmp", "work"], ["tmp", "work", "adir"]]
  files := []

theorem bare_start : Bare start where
  folder name := by simp [start]
  empty := rfl

theorem start_generation :
    Bare start ∧ ¬Asks ["--emit=consts", "-o", "table.rs"] ∧ IsFileName "table.rs" ∧
      (run start ["--emit=consts", "-o", "table.rs"]).1.status = 0 ∧
      (run start ["--emit=consts", "-o", "table.rs"]).1.output = "" ∧
      (run start ["--emit=consts", "-o", "table.rs"]).2.here =
        [("table.rs", declarations .consts)] := by
  have orders : Orders ["--emit=consts", "-o", "table.rs"] ⟨.consts, some "table.rs"⟩ :=
    readOrder_eq_ok_iff.mp rfl
  have unasked := not_asks_of_orders orders
  have name : IsFileName "table.rs" := ⟨by decide, by decide, by decide⟩
  have proper (order : Order) (file : String)
      (ordered : Orders ["--emit=consts", "-o", "table.rs"] order)
      (named : order.path = some file) : IsFileName file := by
    obtain rfl := orders_unique orders ordered
    obtain rfl := Option.some.inj named
    exact name
  obtain ⟨delivered, folder, refused, failed⟩ :=
    generation_all_or_nothing start bare_start _ unasked proper
  have succeeded : (run start ["--emit=consts", "-o", "table.rs"]).1.status = 0 := by
    refine Decidable.byContradiction fun failure => ?_
    rcases (failed failure).1 with one | two
    · obtain ⟨order, ordered, file, named, folder⟩ := folder.mp one
      obtain rfl := orders_unique orders ordered
      obtain rfl := Option.some.inj named
      revert folder
      decide
    · exact refused.mp two _ orders
  obtain ⟨order, ordered, delivers⟩ := delivered succeeded
  obtain rfl := orders_unique orders ordered
  exact ⟨bare_start, unasked, name, succeeded, delivers.1, delivers.2.1⟩

end Opcodes.Proofs.Generation
