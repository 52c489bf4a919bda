import BusinessRules.Document.RuleSet
import BusinessRules.File.Tree
import BusinessRules.Settings
import BusinessRules.Text.LineEnd

/-!
# Rule files

Rule documents are kept in files, one document a file; the ending of its name tells the notation.
The rules of a folder are those of its files in the order of their names.  A file of a folder that
is no rule document is passed over and reported.  If no file or folder is given, the settings say
which one is meant.

## Main definitions

* `RuleFiles.read`: the rules of a file
* `RuleFiles.loadFile`: the same for a given file or the one of the settings
* `RuleFiles.loadFolder`: the rules of a folder
-/

namespace BusinessRules.RuleFiles

/-- The rules that were loaded, or why they were not, and what was reported until then. -/
abbrev Loaded := Outcome (List RuleDefinition) × List LogEntry

/-- Nothing was loaded. -/
def failed (f : Fault) : Loaded := (.error f, [])

/-! ## Notations -/

/-- The endings of files with indentation. -/
def yamlSuffixes : List String := [".yaml", ".yml"]

/-- The endings of rule files. -/
def suffixes : List String := ".json" :: yamlSuffixes

/-- The notation of a file. -/
def formatOf (p : Path) : DocumentFormat :=
  if yamlSuffixes.contains p.suffix.toLower then .yaml else .json

/-- Whether the name of a file is that of a rule file. -/
def isRuleFile (name : String) : Bool := suffixes.contains (Path.suffixOfName name).toLower

/-! ## Files -/

/-- The text of a file, its line ends unified. -/
def decode? (content : List UInt8) : Option String :=
  (Text.ofUtf8? content).map fun s => String.ofList (Text.unifyLineEnds s.toList)

/-- The rules of a file. -/
def read (host : Host) (files : FileTree) (newId : Nat → String) (p : Path) : Loaded :=
  match files.at? p with
  | some (.file content) =>
    match decode? content with
    | none => failed (.undecodableFile p.text)
    | some s =>
      match RuleSet.load host newId (formatOf p) (.text s) with
      | .error f => failed f
      | .ok (rules, log) => (.ok rules, log ++ [.fileLoaded rules.length p.text])
  | _ => failed (.missingFile p.text)

/-- The file that is meant: the given one, or that of the settings if none or a blank is given. -/
def filePath (env : Environment) (given : Option String) : Outcome Path :=
  match given.filter fun s => !Text.isBlankText s with
  | some s => .ok (.ofText s)
  | none =>
    match Settings.ofEnvironment env with
    | .error f => .error f
    | .ok settings =>
      match settings.rulesFile.filter (· ≠ "") with
      | some s => .ok (.ofText s)
      | none => .error (.absent "path")

/-- The rules of the file that is meant. -/
def loadFile (host : Host) (env : Environment) (files : FileTree) (newId : Nat → String)
    (given : Option String) : Loaded :=
  match filePath env given with
  | .error f => failed f
  | .ok p => read host files newId p

/-! ## Folders -/

/-- The folder that is meant: the given one, a default, or that of the settings. -/
def folderPath (env : Environment) (default given : Option String) : Outcome Path :=
  match (given.filter (· ≠ "")).or (default.filter (· ≠ "")) with
  | some s => .ok (.ofText s)
  | none =>
    match Settings.ofEnvironment env with
    | .error f => .error f
    | .ok settings =>
      match settings.rulesDir.filter (· ≠ "") with
      | some s => .ok (.ofText s)
      | none => .error (.absent "path")

/-- Whether a file of a folder is passed over for a fault: it holds no rule document, or it is no
file at all. -/
def isPassedOver (f : Fault) : Bool :=
  f.kind = .parse || f.kind = .expressionParse || f.kind = .fileNotFound

/-- The rules of files of a folder, in the order of their names. -/
def readAll (host : Host) (files : FileTree) (newId : Nat → String) (folder : Path)
    (count : Nat) : List String → Loaded
  | [] => (.ok [], [])
  | name :: names =>
    let p := folder.child name
    match read host files (fun i => newId (count + i)) p with
    | (.ok rules, log) =>
      let (rest, log') := readAll host files newId folder (count + rules.length) names
      (rest.map (rules ++ ·), log ++ log')
    | (.error f, log) =>
      if isPassedOver f then
        let (rest, log') := readAll host files newId folder count names
        (rest, log ++ .fileFailed p.text f.message :: log')
      else (.error f, log)

/-- The rules of the folder that is meant. -/
def loadFolder (host : Host) (env : Environment) (files : FileTree) (newId : Nat → String)
    (default given : Option String) : Loaded :=
  match folderPath env default given with
  | .error f => failed f
  | .ok p =>
    match files.at? p with
    | some (.folder entries) =>
      readAll host files newId p 0 ((FileTree.folder entries).names.filter isRuleFile)
    | _ => failed (.missingDirectory p.text)

end BusinessRules.RuleFiles
