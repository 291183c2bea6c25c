import Mathlib.Data.List.Sort
import Freepod.Values.Text

/-!
# The project archive

Which files of a project directory the client packs (`freepod/archive.py`).  Hard excludes,
built-in defaults, the `.gitignore` of each directory and the `.freepodignore` of the root judge a
path, the last match wins, and the walk does not descend into a directory it prunes.

`pathspec` is a parameter: `fromLines patterns candidate` is `check_file(candidate).include` of the
`GitIgnoreSpec` made of these patterns.

* `rewrite` and `negationBodies`: an ignore file's lines below the project root.
* `Ignores`: the layers of ignore files, and what the last match says.
* `Packer.members`: the walk.
-/

namespace Freepod.Cli

/-! ## Paths -/

/-- the name of a directory entry -/
structure Name where
  text : String
  legal : text ≠ "" ∧ '/' ∉ text.toList
  deriving DecidableEq

/-- the names from the project root down; the root itself has none -/
abbrev Path := List Name

/-- the path as `f"{base}/{name}"` builds it -/
def Path.text (p : Path) : String := "/".intercalate (p.map Name.text)

/-- what a spec is asked: a directory with a slash at its end -/
def candidate (relative : String) (isDir : Bool) : String :=
  if isDir = true ∧ relative.toList.getLast? ≠ some '/' then relative ++ "/" else relative

/-! ## Ignore files -/

/-- `pathspec`: patterns, a candidate, and what the last matching pattern says, if one matches -/
abbrev Pathspec := List String → String → Option Bool

/-- `HARD_EXCLUDES` -/
def hardExcludes : List String := [".git/"]

/-- `DEFAULT_EXCLUDES` -/
def defaultExcludes : List String :=
  ["node_modules/", ".venv/", "venv/", "__pycache__/", "*.pyc", ".pytest_cache/", "target/",
    "dist/", "build/", ".DS_Store", "*.swp", ".env.local", ".env.*.local"]

/-- `PROJECT_FILE` -/
def projectFile : String := ".freepod.json"

/-- `lstrip("/")` -/
def lstripSlashes (s : String) : String := String.ofList (s.toList.dropWhile (· = '/'))

/-- `rstrip("/")` -/
def rstripSlashes (s : String) : String := String.ofList (s.toList.rdropWhile (· = '/'))

/-- `rstrip("\n")` -/
def rstripNewlines (s : String) : String := String.ofList (s.toList.rdropWhile (· = '\n'))

def startsWith (s start : String) : Bool := start.toList.isPrefixOf s.toList

/-- `s[1:]` -/
def afterFirst (s : String) : String := String.ofList (s.toList.drop 1)

/-- the path a layer's `!` pattern could re-include, when the line has one -/
def negationBody (base : String) (raw : String) : Option String :=
  let stripped := strip raw
  if startsWith stripped "!" = false then none
  else
    let body := lstripSlashes (afterFirst stripped)
    if body = "" then none else some (if base = "" then body else base ++ "/" ++ body)

/-- `_negation_bodies` -/
def negationBodies (patterns : List String) (base : String) : List String :=
  patterns.filterMap (negationBody base)

/-- one line of an ignore file in the directory `base`, onto the project root -/
def rewriteLine (base : String) (raw : String) : List String :=
  let line := rstripNewlines raw
  let stripped := strip line
  if stripped = "" ∨ startsWith stripped "#" = true then [line]
  else
    let negated := startsWith stripped "!"
    let body := if negated then afterFirst stripped else stripped
    -- a separator that is not at the end anchors the pattern
    let anchored := decide ('/' ∈ (rstripSlashes body).toList)
    let body := if startsWith body "/" then lstripSlashes body else body
    let bang := if negated then "!" else ""
    let start := base ++ "/"
    if anchored then [bang ++ (start ++ body)]
    else [bang ++ (start ++ body), bang ++ (start ++ "**/" ++ body)]

/-- `_rewrite` -/
def rewrite (patterns : List String) (base : String) : List String :=
  if base = "" then patterns else patterns.flatMap (rewriteLine base)

/-- one ignore file's patterns, rewritten relative to the project root -/
structure Layer where
  spec : String → Option Bool
  negations : List String

/-- a stack of layers -/
structure Ignores where
  layers : List Layer

namespace Ignores

/-- the last match of the layers decides; nothing matches, nothing is excluded -/
def excluded (ignores : Ignores) (relative : String) (isDir : Bool) : Bool :=
  ignores.layers.foldl (fun verdict layer => (layer.spec (candidate relative isDir)).getD verdict)
    false

/-- whether any layer negates a path beneath `directory` -/
def negatesUnder (ignores : Ignores) (directory : String) : Bool :=
  ignores.layers.any fun layer => layer.negations.any fun body =>
    startsWith body (rstripSlashes directory ++ "/")

def extend (ignores : Ignores) (layer : Option Layer) : Ignores :=
  ⟨ignores.layers ++ layer.toList⟩

end Ignores

/-- `_read_ignore_file`, of the lines read; nothing when the file cannot be read or is empty -/
def readIgnoreFile (fromLines : Pathspec) (lines : Option (List String)) (base : String) :
    Option Layer :=
  match lines with
  | none => none
  | some lines =>
    let patterns := rewrite lines base
    if patterns = [] then none else some ⟨fromLines patterns, negationBodies lines base⟩

/-! ## The walk -/

/-- what stands at a path: a directory has the lines of its `.gitignore`, when that is a file that
can be read, and its entries in the order of their names -/
inductive Node where
  | dir (gitignore : Option (List String)) (entries : List (Name × Node))
  | unreadable (reason : String)
  | file
  | link (inside : Bool)
  | special (description : String)
  | unstatable (reason : String)

/-- `entry.is_dir(follow_symlinks=False)` -/
def Node.isDir : Node → Bool
  | .dir .. => true
  | .unreadable _ => true
  | _ => false

/-- `Packer`, with what the walk does not change -/
structure Packer where
  fromLines : Pathspec
  honorGitignore : Bool
  freepodignore : Option Layer

/-- what a walk has found and skipped so far -/
structure Walked where
  found : List Path
  skipped : List (String × String)

def Walked.skip (w : Walked) (relative reason : String) : Walked :=
  { w with skipped := w.skipped ++ [(relative, reason)] }

def Walked.add (w : Walked) (p : Path) : Walked := { w with found := w.found ++ [p] }

namespace Packer

variable (packer : Packer)

/-- `_matches` -/
def isMatch (patterns : List String) (relative : String) (isDir : Bool) : Bool :=
  (packer.fromLines patterns (candidate relative isDir)).getD false

/-- `_stack` -/
def stack (ignores : Ignores) : Ignores := ignores.extend packer.freepodignore

/-- `_excluded`: whether a file is excluded, last match wins -/
def excluded (ignores : Ignores) (relative : String) (isDir : Bool) : Bool :=
  if relative = projectFile then false
  else if packer.isMatch hardExcludes relative isDir then true
  else
    (packer.stack ignores).layers.foldl
      (fun verdict layer => (layer.spec (candidate relative isDir)).getD verdict)
      (packer.isMatch defaultExcludes relative isDir)

/-- `_prunes`: whether not to descend into a directory -/
def prunes (ignores : Ignores) (relative : String) : Bool :=
  if packer.isMatch hardExcludes relative true then true
  else if (packer.stack ignores).excluded relative true then true
  else if packer.isMatch defaultExcludes relative true then
    !(packer.stack ignores).negatesUnder relative
  else false

/-- `_layer_for` -/
def layerFor (gitignore : Option (List String)) (base : Path) : Option Layer :=
  if packer.honorGitignore then readIgnoreFile packer.fromLines gitignore base.text else none

/-- an entry that is no directory -/
def leaf (relative : Path) (ignores : Ignores) (w : Walked) (node : Node) : Walked :=
  match node with
  | .unstatable reason => w.skip relative.text ("cannot stat: " ++ reason)
  | .file => if packer.excluded ignores relative.text false then w else w.add relative
  | .link inside =>
    if packer.excluded ignores relative.text false then w
    else if inside then w.add relative
    else w.skip relative.text "symlink resolves outside the project"
  | .special description =>
    if packer.excluded ignores relative.text false then w
    else w.skip relative.text description
  | _ => w

mutual
/-- `_walk` -/
def walk (base : Path) (ignores : Ignores) (w : Walked) : Node → Walked
  | .dir gitignore entries =>
    walkEntries base (ignores.extend (packer.layerFor gitignore base)) w entries
  | .unreadable reason =>
    w.skip (if base = [] then "." else base.text) ("cannot read directory: " ++ reason)
  | .file => w
  | .link _ => w
  | .special _ => w
  | .unstatable _ => w

def walkEntries (base : Path) (ignores : Ignores) (w : Walked) : List (Name × Node) → Walked
  | [] => w
  | entry :: entries => walkEntries base ignores (walkEntry base ignores w entry) entries

def walkEntry (base : Path) (ignores : Ignores) (w : Walked) : Name × Node → Walked
  | (name, node) =>
    let relative := base ++ [name]
    if node.isDir then
      if packer.prunes ignores relative.text then w else walk relative ignores w node
    else packer.leaf relative ignores w node
end

end Packer

/-- `Packer(root, honor_gitignore=..)`, with the lines of the root's `.freepodignore` -/
def Packer.new (fromLines : Pathspec) (honorGitignore : Bool)
    (freepodignore : Option (List String)) : Packer :=
  ⟨fromLines, honorGitignore, readIgnoreFile fromLines freepodignore ""⟩

end Freepod.Cli
