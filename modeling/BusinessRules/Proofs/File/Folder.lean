import BusinessRules.Document.Yaml
import BusinessRules.File.Rules
import BusinessRules.Proofs.Document.Draft
import BusinessRules.Proofs.Document.Taxonomy

/-!
# The rules of a folder

The rule files of a folder are read one after the other, in the order of their names.  What a file
holds depends on no other file; only the new identifiers are handed out in a row.  A file that
cannot be read is passed over with a warning, unless its fault is of another class: then nothing is
loaded at all.  Such a file is a blank text, or a document that leads to one of the faults that the
reader of documents does not foresee.

## Main definitions

* `RuleFiles.ruleNames`: the names of the rule files of a folder, in order
* `RuleFiles.held`, `RuleFiles.warning?`: what is kept of a file, and the warning that it leads to

## Main statements

* `FileTree.at?_child`: what the path of something in a folder leads to
* `RuleFiles.exists_contents`: what files hold, whatever the new identifiers are
* `RuleFiles.readAll_of_passedOver`, `RuleFiles.readAll_of_error`: reading file by file
-/

namespace BusinessRules

namespace FileTree

/-! ## Paths -/

/-- Steps behind other steps go on from where these lead. -/
theorem walk_append {above : List FileTree} {here found : FileTree} {names : List String}
    (h : walk above here names = some found) (later : List String) :
    ∃ around, walk above here (names ++ later) = walk around found later := by
  induction names generalizing above here with
  | nil =>
    obtain rfl := Option.some.inj h
    exact ⟨above, rfl⟩
  | cons name names ih =>
    rw [List.cons_append]
    rw [walk.eq_def] at h ⊢
    dsimp only at h ⊢
    split at h
    · cases h
    · next hfolder =>
      rw [if_neg hfolder]
      split at h
      · next hback =>
        rw [if_pos hback]
        split at h
        · exact ih h
        · exact ih h
      · next hback =>
        rw [if_neg hback]
        split at h
        · cases h
        · exact ih h

/-- What the path of something in a folder leads to: the entry of its name. -/
theorem at?_child {tree : FileTree} {p : Path} {entries : List (String × FileTree)} {name : String}
    (h : tree.at? p = some (.folder entries)) (hname : name ≠ "..") :
    tree.at? (p.child name) = entries.lookup name := by
  rw [at?] at h ⊢
  split at h
  · cases h
  · next habsolute =>
    obtain ⟨around, hwalk⟩ := walk_append h [name]
    rw [Path.child, if_neg habsolute, hwalk, walk.eq_def]
    dsimp only
    rw [FileTree.isFolder, if_neg (by decide), if_neg hname]
    cases hfound : entries.lookup name <;> simp [FileTree.entries, hfound, walk]

end FileTree

namespace RuleFiles

variable {host : Host} {env : Environment} {files : FileTree} {default given : Option String}
  {p : Path} {entries : List (String × FileTree)} {contents : String → Outcome (List Draft)}

/-! ## Files -/

/-- The names of the rule files of a folder, in order. -/
def ruleNames (entries : List (String × FileTree)) : List String :=
  (FileTree.folder entries).names.filter isRuleFile

/-- The warnings among what is reported. -/
def warnings (log : List LogEntry) : List LogEntry := log.filter fun e => e.level = .warning

theorem warnings_append (log log' : List LogEntry) :
    warnings (log ++ log') = warnings log ++ warnings log' :=
  List.filter_append ..

theorem ruleNames_sorted (entries : List (String × FileTree)) :
    (ruleNames entries).Pairwise (· ≤ ·) := by
  refine List.Pairwise.filter isRuleFile ?_
  refine (List.pairwise_mergeSort ?_ ?_ _).imp ?_
  · intro a b c hab hbc
    simp only [Bool.not_eq_true', decide_eq_false_iff_not, String.not_lt] at hab hbc ⊢
    exact String.le_trans hab hbc
  · intro a b
    simp only [Bool.or_eq_true, Bool.not_eq_true', decide_eq_false_iff_not, String.not_lt]
    exact String.le_total a b
  · intro a b hab
    simpa only [Bool.not_eq_true', decide_eq_false_iff_not, String.not_lt] using hab

theorem ruleNames_perm (entries : List (String × FileTree)) :
    (ruleNames entries).Perm ((entries.map Prod.fst).filter isRuleFile) :=
  (List.mergeSort_perm ..).filter isRuleFile

/-- A step back is no rule file. -/
theorem ne_back_of_isRuleFile {name : String} (h : isRuleFile name = true) : name ≠ ".." := by
  rintro rfl
  revert h
  decide +kernel

/-- What a file holds, whatever the new identifiers are. -/
theorem exists_contents (host : Host) (files : FileTree) (p : Path) :
    ∃ o : Outcome (List Draft), ∀ newId,
      (read host files newId p).1 = o.map (Draft.completeFrom newId 0) := by
  simp only [read]
  split
  · next content _ =>
    cases decode? content with
    | none => exact ⟨.error (.undecodableFile p.text), fun _ => rfl⟩
    | some s =>
      obtain ⟨o, ho⟩ := RuleSet.exists_drafts host (formatOf p) (.text s)
      simp only [ho]
      cases o with
      | error f => exact ⟨.error f, fun _ => rfl⟩
      | ok found => exact ⟨.ok found.1, fun _ => rfl⟩
  · exact ⟨.error (.missingFile p.text), fun _ => rfl⟩

/-- Reading a document leads to no warning. -/
theorem warnings_load {newId : Nat → String} {format : DocumentFormat} {document : Datum}
    {ds : List RuleDefinition} {log : List LogEntry}
    (h : RuleSet.load host newId format document = .ok (ds, log)) : warnings log = [] := by
  rw [RuleSet.load] at h
  split at h
  · cases h
  · split at h
    · cases h
    · cases h
      rfl
    · next items _ =>
      cases hread : RuleSet.readRules host.showing newId items with
      | error f =>
        rw [hread] at h
        cases h
      | ok found =>
        rw [hread] at h
        cases h
        rfl

/-- Reading a file leads to no warning. -/
theorem warnings_read (host : Host) (files : FileTree) (newId : Nat → String) (p : Path) :
    warnings (read host files newId p).2 = [] := by
  rw [read]
  split
  · split
    · rfl
    · split
      · rfl
      · next hload =>
        rw [warnings_append, warnings_load hload]
        rfl
  · rfl

/-- What goes wrong with a file for which a folder is not loaded: it is blank, or holds a document
that leads to a fault of another class. -/
theorem read_error {newId : Nat → String} {f : Fault}
    (h : (read host files newId p).1 = .error f) (hf : isPassedOver f = false) :
    ∃ content s, files.at? p = some (.file content) ∧ decode? content = some s ∧
      (f = .absent "document" ∧ Text.isBlankText s = true ∨
        RuleSet.Stray host (formatOf p) (.text s) f) := by
  rw [read] at h
  split at h
  · next content hcontent =>
    split at h
    · cases h
      cases hf
    · next s hs =>
      refine ⟨content, s, hcontent, hs, ?_⟩
      split at h
      · next hload =>
        cases h
        rcases RuleSet.load_error hload with ⟨hnull | ⟨t, ht, hblank⟩, rfl⟩ | hparse | hstray
        · cases hnull
        · obtain rfl : s = t := Option.some.inj ht
          exact .inl ⟨rfl, hblank⟩
        · simp [isPassedOver, hparse] at hf
        · exact .inr hstray
      · cases h
  · cases h
    cases hf

/-! ## File by file -/

/-- What is kept of a file: nothing if it cannot be read. -/
def held (contents : String → Outcome (List Draft)) (name : String) : List Draft :=
  (contents name).toOption.getD []

/-- The warning that a file of a folder leads to, if it cannot be read. -/
def warning? (folder : Path) (contents : String → Outcome (List Draft)) (name : String) :
    Option LogEntry :=
  match contents name with
  | .ok _ => none
  | .error f => some (.fileFailed (folder.child name).text f.message)

/-- What the files of a folder hold, each of them under the name that it has there. -/
def Holds (host : Host) (files : FileTree) (folder : Path)
    (contents : String → Outcome (List Draft)) : Prop :=
  ∀ newId name, (read host files newId (folder.child name)).1 =
    (contents name).map (Draft.completeFrom newId 0)

theorem exists_holds (host : Host) (files : FileTree) (folder : Path) :
    ∃ contents, Holds host files folder contents := by
  choose contents hcontents using fun name => exists_contents host files (folder.child name)
  exact ⟨contents, fun newId name => hcontents name newId⟩

variable {folder : Path} {name : String} {names : List String}

/-- Reading a file leads to what it holds, without a warning. -/
theorem Holds.read_eq (hholds : Holds host files folder contents) (newId : Nat → String)
    (name : String) : ∃ log, read host files newId (folder.child name) =
      ((contents name).map (Draft.completeFrom newId 0), log) ∧ warnings log = [] :=
  ⟨_, Prod.ext (hholds newId name) rfl, warnings_read host files newId (folder.child name)⟩

/-- A file that can be read comes before what the later files hold. -/
theorem readAll_cons_ok (hholds : Holds host files folder contents) {ts : List Draft}
    (hname : contents name = .ok ts) (names : List String) (newId : Nat → String) (count : Nat) :
    (readAll host files newId folder count (name :: names)).1 =
        (readAll host files newId folder (count + ts.length) names).1.map
          (Draft.completeFrom newId count ts ++ ·) ∧
      warnings (readAll host files newId folder count (name :: names)).2 =
        warnings (readAll host files newId folder (count + ts.length) names).2 := by
  obtain ⟨log, hread, hlog⟩ := hholds.read_eq (fun i => newId (count + i)) name
  rw [hname, Except.map] at hread
  rw [readAll]
  dsimp only
  rw [hread]
  dsimp only
  rw [Draft.length_completeFrom, Draft.completeFrom_shift, warnings_append, hlog]
  exact ⟨rfl, rfl⟩

/-- A file that is passed over adds nothing but its warning. -/
theorem readAll_cons_passedOver (hholds : Holds host files folder contents) {f : Fault}
    (hname : contents name = .error f) (hf : isPassedOver f = true) (names : List String)
    (newId : Nat → String) (count : Nat) :
    (readAll host files newId folder count (name :: names)).1 =
        (readAll host files newId folder count names).1 ∧
      warnings (readAll host files newId folder count (name :: names)).2 =
        .fileFailed (folder.child name).text f.message ::
          warnings (readAll host files newId folder count names).2 := by
  obtain ⟨log, hread, hlog⟩ := hholds.read_eq (fun i => newId (count + i)) name
  rw [hname, Except.map] at hread
  rw [readAll]
  dsimp only
  rw [hread]
  dsimp only
  rw [if_pos hf]
  dsimp only
  rw [warnings_append, hlog]
  exact ⟨rfl, rfl⟩

/-- A file whose fault is of another class ends the reading. -/
theorem readAll_cons_error (hholds : Holds host files folder contents) {f : Fault}
    (hname : contents name = .error f) (hf : isPassedOver f = false) (names : List String)
    (newId : Nat → String) (count : Nat) :
    (readAll host files newId folder count (name :: names)).1 = .error f := by
  obtain ⟨log, hread, -⟩ := hholds.read_eq (fun i => newId (count + i)) name
  rw [hname, Except.map] at hread
  rw [readAll]
  dsimp only
  rw [hread]
  dsimp only
  rw [hf]
  rfl

/-- **Files that can be read or are passed over**: what they hold, in order, with one warning for
each that is passed over. -/
theorem readAll_of_passedOver (hholds : Holds host files folder contents)
    (hpassed : ∀ name ∈ names, ∀ f, contents name = .error f → isPassedOver f = true)
    (newId : Nat → String) (count : Nat) :
    (readAll host files newId folder count names).1 =
        .ok (Draft.completeFrom newId count (names.flatMap (held contents))) ∧
      warnings (readAll host files newId folder count names).2 =
        names.filterMap (warning? folder contents) := by
  induction names generalizing count with
  | nil => exact ⟨rfl, rfl⟩
  | cons name names ih =>
    rw [List.forall_mem_cons] at hpassed
    rw [List.flatMap_cons, List.filterMap_cons, held, warning?]
    cases hname : contents name with
    | ok ts =>
      obtain ⟨hrules, hwarnings⟩ := readAll_cons_ok hholds hname names newId count
      obtain ⟨hlater, hlaterWarnings⟩ := ih hpassed.2 (count + ts.length)
      rw [hrules, hwarnings, hlater, hlaterWarnings]
      refine ⟨?_, rfl⟩
      rw [Except.toOption, Option.getD_some, Draft.completeFrom_append]
      rfl
    | error f =>
      obtain ⟨hrules, hwarnings⟩ := readAll_cons_passedOver hholds hname
        (hpassed.1 f hname) names newId count
      obtain ⟨hlater, hlaterWarnings⟩ := ih hpassed.2 count
      rw [hrules, hwarnings, hlater, hlaterWarnings]
      exact ⟨rfl, rfl⟩

/-- **Files are read up to the first one whose fault is of another class.** -/
theorem readAll_of_error (hholds : Holds host files folder contents) {before : List String} {f : Fault}
    (hpassed : ∀ other ∈ before, ∀ g, contents other = .error g → isPassedOver g = true)
    (hname : contents name = .error f) (hf : isPassedOver f = false) (after : List String)
    (newId : Nat → String) (count : Nat) :
    (readAll host files newId folder count (before ++ name :: after)).1 = .error f := by
  induction before generalizing count with
  | nil => exact readAll_cons_error hholds hname hf after newId count
  | cons other before ih =>
    rw [List.forall_mem_cons] at hpassed
    rw [List.cons_append]
    cases hother : contents other with
    | ok ts => rw [(readAll_cons_ok hholds hother _ newId count).1, ih hpassed.2]; rfl
    | error g =>
      rw [(readAll_cons_passedOver hholds hother (hpassed.1 g hother) _ newId count).1,
        ih hpassed.2]

/-! ## Folders -/

/-- Whether a file cannot be read and is not passed over either. -/
def isRefused (contents : String → Outcome (List Draft)) (name : String) : Bool :=
  match contents name with
  | .ok _ => false
  | .error f => !isPassedOver f

theorem isPassedOver_of_not_isRefused (h : isRefused contents name = false) {f : Fault}
    (hname : contents name = .error f) : isPassedOver f = true := by
  rwa [isRefused, hname, Bool.not_eq_false'] at h

theorem exists_error_of_isRefused (h : isRefused contents name = true) :
    ∃ f, contents name = .error f ∧ isPassedOver f = false := by
  rw [isRefused] at h
  cases hname : contents name with
  | ok ts =>
    rw [hname] at h
    cases h
  | error f =>
    rw [hname, Bool.not_eq_true'] at h
    exact ⟨f, rfl, h⟩

/-- What loading a folder leads to, given what its files hold. -/
inductive Settles (host : Host) (folder : Path) (entries : List (String × FileTree))
    (contents : String → Outcome (List Draft)) (load : (Nat → String) → Loaded) : Prop
  /-- Each rule file can be read or is passed over.  The rules are what the files hold, in order,
  and each file that is passed over leads to one warning. -/
  | loaded
      (hpassed : ∀ name ∈ ruleNames entries, ∀ f, contents name = .error f → isPassedOver f = true)
      (hrules : ∀ newId, (load newId).1 =
        .ok (Draft.completeFrom newId 0 ((ruleNames entries).flatMap (held contents))))
      (hwarnings : ∀ newId, warnings (load newId).2 =
        (ruleNames entries).filterMap (warning? folder contents))
  /-- A rule file is blank, or holds a document that leads to a fault of another class.  The fault
  of the first such file is all that the folder leads to. -/
  | refused {before after : List String} {name : String} {f : Fault} {content : List UInt8}
      {s : String} (hnames : ruleNames entries = before ++ name :: after)
      (hpassed : ∀ other ∈ before, ∀ g, contents other = .error g → isPassedOver g = true)
      (hcontents : contents name = .error f) (hrefused : isPassedOver f = false)
      (hfile : entries.lookup name = some (.file content)) (htext : decode? content = some s)
      (hfault : f = .absent "document" ∧ Text.isBlankText s = true ∨
        RuleSet.Stray host (formatOf (folder.child name)) (.text s) f)
      (hload : ∀ newId, (load newId).1 = .error f)

/-- **What becomes of a folder.** Its rule files are read in the order of their names, and the rules
of the folder are what these hold, except that a single file with a fault of another class is
enough for the folder not to be loaded. -/
theorem loadFolder_settles (host : Host) (hpath : folderPath env default given = .ok p)
    (hfolder : files.at? p = some (.folder entries)) :
    (ruleNames entries).Pairwise (· ≤ ·) ∧
      (ruleNames entries).Perm ((entries.map Prod.fst).filter isRuleFile) ∧
      ∃ contents, Holds host files p contents ∧
        Settles host p entries contents
          fun newId => loadFolder host env files newId default given := by
  obtain ⟨contents, hholds⟩ := exists_holds host files p
  refine ⟨ruleNames_sorted entries, ruleNames_perm entries, contents, hholds, ?_⟩
  have hload : ∀ newId, loadFolder host env files newId default given =
      readAll host files newId p 0 (ruleNames entries) := fun newId => by
    rw [loadFolder, hpath]
    dsimp only
    rw [hfolder]
    rfl
  cases hfind : (ruleNames entries).find? (isRefused contents) with
  | none =>
    rw [List.find?_eq_none] at hfind
    have hpassed : ∀ name ∈ ruleNames entries, ∀ f, contents name = .error f →
        isPassedOver f = true := fun name hname f hf =>
      isPassedOver_of_not_isRefused (Bool.eq_false_iff.2 (hfind name hname)) hf
    have hread := fun newId => readAll_of_passedOver hholds hpassed newId 0
    refine .loaded hpassed (fun newId => ?_) fun newId => ?_
    · rw [hload]
      exact (hread newId).1
    · rw [hload]
      exact (hread newId).2
  | some name =>
    obtain ⟨hrefused, before, after, hnames, hbefore⟩ := List.find?_eq_some_iff_append.1 hfind
    obtain ⟨f, hname, hf⟩ := exists_error_of_isRefused hrefused
    have hmem : name ∈ ruleNames entries := List.mem_of_find?_eq_some hfind
    have hback : name ≠ ".." := ne_back_of_isRuleFile (List.of_mem_filter hmem)
    have hread : (read host files (fun _ => "") (p.child name)).1 = .error f := by
      rw [hholds, hname]
      rfl
    obtain ⟨content, s, hcontent, hs, hfault⟩ := read_error hread hf
    rw [FileTree.at?_child hfolder hback] at hcontent
    have hpassed : ∀ other ∈ before, ∀ g, contents other = .error g → isPassedOver g = true :=
      fun other hother g hg =>
        isPassedOver_of_not_isRefused (by simpa using hbefore other hother) hg
    refine .refused hnames hpassed hname hf hcontent hs hfault fun newId => ?_
    rw [hload, hnames]
    exact readAll_of_error hholds hpassed hname hf after newId 0

/-- A folder with a folder, with bytes that are no text, and with a file that holds no rules. -/
def mixedEntries : List (String × FileTree) :=
  [("sub.yml", .folder []), ("notes.txt", .file [0x20]), ("bytes.JSON", .file [0xFF])]

/-- A folder of which each rule file is passed over. -/
theorem loadFolder_settles_mixed :
    let files : FileTree := .folder [("rules", .folder mixedEntries)]
    folderPath [] none (some "rules") = .ok ⟨false, ["rules"]⟩ ∧
      files.at? ⟨false, ["rules"]⟩ = some (.folder mixedEntries) ∧
      (ruleNames mixedEntries).Perm ["sub.yml", "bytes.JSON"] ∧
      ∃ contents, Holds .standard files ⟨false, ["rules"]⟩ contents ∧
        Settles .standard ⟨false, ["rules"]⟩ mixedEntries contents fun newId =>
          loadFolder .standard [] files newId none (some "rules") := by
  intro files
  have hpath : folderPath [] none (some "rules") = .ok ⟨false, ["rules"]⟩ := rfl
  have hfolder : files.at? ⟨false, ["rules"]⟩ = some (.folder mixedEntries) := rfl
  have hnames : (mixedEntries.map Prod.fst).filter isRuleFile = ["sub.yml", "bytes.JSON"] := by
    decide +kernel
  obtain ⟨-, hperm, hsettles⟩ := loadFolder_settles .standard hpath hfolder
  exact ⟨hpath, hfolder, hnames ▸ hperm, hsettles⟩

/-- A folder with one file, which is blank. -/
def blankEntries : List (String × FileTree) := [("blank.json", .file [0x20, 0x0A])]

/-- **A blank file is not passed over**: a folder that holds one is not loaded. -/
theorem loadFolder_blank :
    (loadFolder .standard [] (.folder [("rules", .folder blankEntries)]) (fun _ => "new") none
      (some "rules")).1 = .error (.absent "document") := by
  have hpath : folderPath [] none (some "rules") = .ok ⟨false, ["rules"]⟩ := rfl
  have hfolder : (FileTree.folder [("rules", .folder blankEntries)]).at? ⟨false, ["rules"]⟩ =
      some (.folder blankEntries) := rfl
  have hnames : (FileTree.folder blankEntries).names.filter isRuleFile = ["blank.json"] := by
    decide +kernel
  have hfile : (FileTree.folder [("rules", .folder blankEntries)]).at?
      (Path.child ⟨false, ["rules"]⟩ "blank.json") = some (.file [0x20, 0x0A]) := rfl
  have htext : decode? [0x20, 0x0A] = some " \n" := by decide +kernel
  have hblank : Text.isBlankText " \n" = true := by decide +kernel
  rw [loadFolder, hpath]
  dsimp only
  rw [hfolder]
  dsimp only
  rw [hnames, readAll]
  dsimp only
  rw [read, hfile]
  dsimp only
  rw [htext]
  dsimp only
  rw [RuleSet.load, RuleSet.readDocument, RuleSet.readText.eq_def, if_pos hblank]
  rfl

end RuleFiles

end BusinessRules
