/-
  Opcore.Sense.Resolver.Index

  What a view offers to imports: the aliases of its Node and Python files, the
  module trees of its Rust files, and the packages of its Go modules; and the
  resolution of one reference against them.
-/
import Opcore.Sense.Model
import Opcore.Source.Snapshot
import Opcore.Source.Languages
import Opcore.Library.Loop

namespace Opcore.Resolver

open Text Collections

/-! ## Candidates -/

inductive Candidate where
  | unique (path : RepoPath)
  | ambiguous
  deriving DecidableEq

inductive Resolution where
  | resolved (path : RepoPath)
  | sameFile
  | nodeBuiltin
  | external
  | ambiguous
  | unresolved
  deriving DecidableEq

def addCandidate (aliases : BTreeMap Str Candidate) (name : Str) (target : RepoPath) :
    BTreeMap Str Candidate :=
  match aliases.get? name with
  | none => aliases.insert name (.unique target)
  | some (.unique existing) =>
    if existing = target then aliases else aliases.insert name .ambiguous
  | some .ambiguous => aliases

def aliasResolution : Option Candidate → Resolution
  | some (.unique path) => .resolved path
  | some .ambiguous => .ambiguous
  | none => .unresolved

/-- The names a file can be imported by: its stem, and its directory for an index file. -/
def addSourceAliases (aliases : BTreeMap Str Candidate) (path : Str) (file : SourceFile)
    (packageSuffix : Str) : BTreeMap Str Candidate :=
  match stripLanguageSuffix path file.language with
  | none => aliases
  | some stem =>
    let aliases := addCandidate aliases stem file.path
    match stripSuffix packageSuffix stem with
    | some directory => addCandidate aliases directory file.path
    | none => aliases

/-- `path` up to its last separator, and the empty directory where there is none. -/
def parent (path : Str) : Str := ((rsplitOnce (byte '/') path).map Prod.fst).getD []

/-! ## Rust -/

namespace Rust

structure Index where
  modules : BTreeMap Str Candidate := ∅
  roots : BTreeSet Str := ∅
  fileModules : BTreeMap RepoPath Str := ∅
  rootFiles : BTreeSet RepoPath := ∅
  confirmedFiles : BTreeSet RepoPath := ∅
  deriving DecidableEq

/-- `src/lib.rs`, `src/main.rs` or `src/bin/<name>/main.rs` of some package. -/
def isConventionalRoot (path : Str) : Bool :=
  let parts := (path.splitOn (byte '/')).reverse
  ((parts[0]? = some (ascii "lib.rs") ∨ parts[0]? = some (ascii "main.rs"))
      ∧ parts[1]? = some (ascii "src"))
    ∨ (parts[0]? = some (ascii "main.rs") ∧ parts[2]? = some (ascii "bin")
      ∧ parts[3]? = some (ascii "src"))

def moduleKey (path : Str) (isRoot : Bool) : Option Str :=
  (stripSuffix (ascii ".rs") path).map fun stem =>
    let (parent, name) := (rsplitOnce (byte '/') stem).getD ([], stem)
    if isRoot || name = ascii "mod" then parent else stem

def parentModuleKey (module : Str) : Option Str := (rsplitOnce (byte '/') module).map Prod.fst

def Index.addFile (index : Index) (file : SourceFile) (path : Str) : Index :=
  let isRoot := isConventionalRoot path
  match moduleKey path isRoot with
  | none => index
  | some module =>
    let index :=
      { index with
        modules := addCandidate index.modules module file.path
        fileModules := index.fileModules.insert file.path module }
    if isRoot then
      { index with
        roots := index.roots.insert module
        rootFiles := index.rootFiles.insert file.path }
    else index

/-- The loop of `resolve_segments`; `none` where a segment is no module name. -/
def followSegments (index : Index) : Str → Option Candidate → List Str → Option (Option Candidate)
  | _, best, [] => some best
  | key, best, segment :: segments =>
    if segment = [] ∨ segment = ascii "." ∨ segment = ascii ".." then none
    else
      let key := if key = [] then segment else key ++ [byte '/'] ++ segment
      followSegments index key (index.modules.get? key <|> best) segments

/-- The module that the longest prefix of the segments leads to. -/
def resolveSegments (importer : RepoPath) (base : Str) (segments : List Str) (index : Index)
    (allowBase : Bool) : Resolution :=
  match followSegments index base (if allowBase then index.modules.get? base else none) segments with
  | none => .unresolved
  | some best => if best = some (.unique importer) then .sameFile else aliasResolution best

def resolveModuleUnchecked (importer : RepoPath) (specifier : Str) (index : Index) : Resolution :=
  match index.fileModules.get? importer with
  | none => .unresolved
  | some base => resolveSegments importer base (splitText (ascii "::") specifier) index false

def requireConfirmedTarget (resolution : Resolution) (index : Index) : Resolution :=
  match resolution with
  | .resolved path => if path ∈ index.confirmedFiles then .resolved path else .unresolved
  | resolution => resolution

/-- The target of `mod name;`, which only a declared file can have. -/
def resolveModule (importer : RepoPath) (specifier : Str) (index : Index) : Resolution :=
  if importer ∈ index.confirmedFiles then
    requireConfirmedTarget (resolveModuleUnchecked importer specifier index) index
  else .unresolved

/-- The module or the closest enclosing one that is a root.  Every step drops a
    byte, so the length of the module is enough steps. -/
def crateRootFrom (index : Index) : Nat → Str → Option Str
  | 0, module => if module ∈ index.roots then some module else none
  | n + 1, module =>
    if module ∈ index.roots then some module
    else (parentModuleKey module).bind (crateRootFrom index n)

def crateRoot (module : Str) (index : Index) : Option Str :=
  crateRootFrom index module.length module

def superBase : Str → List Str → Option (Str × List Str)
  | base, [] => some (base, [])
  | base, segment :: segments =>
    if segment = ascii "super" then (parentModuleKey base).bind (superBase · segments)
    else some (base, segment :: segments)

/-- The module a path starts from, what is left of the path, and whether a
    keyword anchored it. -/
def resolveAnchor (current : Str) (segments : List Str) (index : Index) :
    Option (Str × List Str × Bool) :=
  match segments with
  | [] => some (current, [], false)
  | first :: rest =>
    if first = ascii "crate" then (crateRoot current index).map fun root => (root, rest, true)
    else if first = ascii "self" then some (current, rest, true)
    else if first = ascii "super" then
      (superBase current segments).map fun (base, rest) => (base, rest, true)
    else some (current, segments, false)

/-- The target of a `use` path, from the anchor it starts with. -/
def resolveUse (importer : RepoPath) (specifier : Str) (index : Index) : Resolution :=
  if importer ∉ index.confirmedFiles then .unresolved
  else
    match index.fileModules.get? importer with
    | none => .unresolved
    | some current =>
      match resolveAnchor current (splitText (ascii "::") specifier) index with
      | none => .unresolved
      | some (base, segments, anchored) =>
        let resolution := requireConfirmedTarget
          (resolveSegments importer base segments index anchored) index
        if !anchored && resolution = .unresolved then .external else resolution

section

variable [Sha256]

/-- The files that the `mod` declarations of a file lead to. -/
def moduleTargets (index : Index) (snapshot : SourceSnapshot) (fileFacts : FactMap)
    (parserOptions : Str) (path : RepoPath) : List RepoPath :=
  match snapshot.read path with
  | none => []
  | some file =>
    match fileFacts.get? (factKey file parserOptions) with
    | none => []
    | some facts =>
      (facts.dependencies.references.filter (·.kind = .rustModule)).filterMap fun reference =>
        match resolveModuleUnchecked file.path reference.specifier index with
        | .resolved target => some target
        | _ => none

structure TreeState where
  pending : List RepoPath
  confirmed : BTreeSet RepoPath

def treeStep (targets : RepoPath → List RepoPath) (s : TreeState) : Option TreeState :=
  match s.pending with
  | [] => none
  | path :: pending =>
    if path ∈ s.confirmed then some { s with pending := pending }
    else some { pending := pending ++ targets path, confirmed := s.confirmed.insert path }

/-- Follow the module declarations from the root files.  A path is taken from
    the queue once as a root and once for each declaration that leads to it. -/
def Index.confirmModuleTrees (index : Index) (snapshot : SourceSnapshot) (fileFacts : FactMap)
    (parserOptions : Str) : Index :=
  let targets := moduleTargets index snapshot fileFacts parserOptions
  let bound := index.rootFiles.size + (snapshot.paths.map fun path => (targets path).length).sum
  { index with
    confirmedFiles :=
      (Loop.iterate (treeStep targets) bound
        { pending := index.rootFiles.elems, confirmed := index.confirmedFiles }).confirmed }

end

/-- The content of the changed Rust files is the same in both views. -/
def indexIsStable [Sha256] (before after : SourceSnapshot) (changedPaths : BTreeSet RepoPath) :
    Bool :=
  changedPaths.elems.all fun path =>
    let beforeFile := before.read path
    let afterFile := after.read path
    let rustChanged := beforeFile.any (·.language = .rust) || afterFile.any (·.language = .rust)
    !rustChanged || beforeFile.map SourceFile.contentId = afterFile.map SourceFile.contentId

end Rust

/-! ## Go -/

namespace Go

structure ModuleRecord where
  directory : Str
  modulePath : Option Str
  deriving DecidableEq

structure Index where
  aliases : BTreeMap Str Candidate := ∅
  representatives : BTreeMap RepoPath RepoPath := ∅
  modulePaths : BTreeSet Str := ∅
  configurationErrors : Nat := 0
  hasGo : Bool := false
  deriving DecidableEq

/-- A line outside block comments, without its comments, and whether it leaves a
    block comment open. -/
def stripLineComments (line : Str) : Str × Bool :=
  let line := ((splitOnceText (ascii "//") line).map Prod.fst).getD line
  match splitOnceText (ascii "/*") line with
  | some (before, _) => (before, !containsText (ascii "*/") line)
  | none => (line, false)

def stripComments (line : Str) (blockComment : Bool) : Str × Bool :=
  if blockComment then
    match splitOnceText (ascii "*/") line with
    | some (_, remainder) => stripLineComments remainder
    | none => ([], true)
  else stripLineComments line

/-- The text of a quoted string; only backslashes and quotes may be escaped. -/
def unescape : Str → Option Str
  | [] => some []
  | [92] => none
  | 92 :: c :: s => if c = 92 ∨ c = 34 then (unescape s).map (c :: ·) else none
  | b :: s => (unescape s).map (b :: ·)

def unquoteModulePath (value : Str) : Option Str :=
  match (stripPrefix [96] value).bind (stripSuffix [96]) with
  | some raw => if raw.any fun b => b = 13 || b = 10 || b = 96 then none else some raw
  | none =>
    match (stripPrefix [34] value).bind (stripSuffix [34]) with
    | some quoted => unescape quoted
    | none => some value

def validModulePath (path : Str) : Bool :=
  path ≠ [] && !(ascii "/").isPrefixOf path && !(ascii "/").isSuffixOf path
    && !containsText (ascii "//") path
    && (path.all fun b => isAsciiGraphic b && b ≠ 92 && b ≠ 34 && b ≠ 39)
    && (path.splitOn (byte '/')).all fun segment =>
      segment ≠ [] && segment ≠ ascii "." && segment ≠ ascii ".."

structure ModuleScan where
  modulePath : Option Str := none
  blockComment : Bool := false

/-- One line of a `go.mod`: a second or a malformed directive ends the scan. -/
def ModuleScan.step (s : ModuleScan) (line : Str) : Option ModuleScan :=
  let (cleaned, blockComment) := stripComments line s.blockComment
  let s := { s with blockComment := blockComment }
  match splitAsciiWhitespace cleaned with
  | [] => some s
  | field :: fields =>
    if field ≠ ascii "module" then some s
    else
      match fields with
      | [candidate] =>
        (unquoteModulePath candidate).bind fun candidate =>
          if s.modulePath.isSome || !validModulePath candidate then none
          else some { s with modulePath := some candidate }
      | _ => none

def parseModulePath (bytes : Str) : Option Str :=
  if utf8Valid bytes then
    ((lines bytes).foldlM ModuleScan.step {}).bind fun s =>
      if s.blockComment then none else s.modulePath
  else none

def directoryContains (parent child : Str) : Bool :=
  parent = [] || parent = child
    || (stripPrefix parent child).any fun suffix => (ascii "/").isPrefixOf suffix

def packageFiles (snapshot : SourceSnapshot) : BTreeMap Str (List SourceFile) :=
  BTreeMap.group ((snapshot.fileList.filter (·.language = .go)).filterMap fun file =>
    file.path.asUtf8.map fun path => (parent path, file))

/-- The module files that some package lies under, in path order. -/
def modules (files : BTreeMap RepoPath Str) (packageDirectories : List Str) : List ModuleRecord :=
  files.entries.filterMap fun (path, bytes) =>
    let directory := (path.asUtf8.map parent).getD []
    if packageDirectories.any (directoryContains directory) then
      some ⟨directory, parseModulePath bytes⟩
    else none

/-- The deepest module a directory lies in; of two in one directory the last. -/
def enclosingModule (directory : Str) (modules : List ModuleRecord) : Option ModuleRecord :=
  (modules.filter fun module => directoryContains module.directory directory).foldl
    (fun best module =>
      match best with
      | some deepest =>
        if deepest.directory.length ≤ module.directory.length then some module else some deepest
      | none => some module)
    none

def packageImportPath (module : ModuleRecord) (modulePath directory : Str) : Str :=
  let relative :=
    if module.directory = [] then directory
    else ((stripPrefix module.directory directory).bind (stripPrefix (ascii "/"))).getD []
  if relative = [] then modulePath else modulePath ++ ascii "/" ++ relative

def isTestFile (file : SourceFile) : Bool := (ascii "go:test:").isPrefixOf file.languageMode

/-- The file that stands for a package: its first production file. -/
def production (files : List SourceFile) : Option RepoPath :=
  (files.find? fun file => !isTestFile file).map SourceFile.path

/-- A package of a directory: its files stand for one path, which its import path leads to. -/
def Index.addPackage (records : List ModuleRecord) (index : Index)
    (package : Str × List SourceFile) : Index :=
  let representative (file : SourceFile) : RepoPath :=
    if isTestFile file then file.path else (production package.2).getD file.path
  let index :=
    { index with
      representatives := package.2.foldl
        (fun representatives file => representatives.insert file.path (representative file))
        index.representatives }
  match production package.2, enclosingModule package.1 records with
  | some target, some ⟨directory, some modulePath⟩ =>
    { index with
      aliases := addCandidate index.aliases
        (packageImportPath ⟨directory, some modulePath⟩ modulePath package.1) target }
  | _, _ => index

def Index.build (snapshot : SourceSnapshot) (moduleFiles : BTreeMap RepoPath Str) : Index :=
  let packages := packageFiles snapshot
  let records := modules moduleFiles packages.keys
  packages.entries.foldl (Index.addPackage records)
    { configurationErrors := records.countP fun record => record.modulePath.isNone
      modulePaths := BTreeSet.ofList (records.filterMap ModuleRecord.modulePath)
      hasGo := !packages.isEmpty }

def Index.logicalPathFor (index : Index) (path : RepoPath) : RepoPath :=
  (index.representatives.get? path).getD path

def Index.logicalPath (index : Index) (file : SourceFile) : RepoPath :=
  index.logicalPathFor file.path

def Index.logicalPaths (index : Index) : List RepoPath := index.representatives.values

/-- The target of an import path, or a gap inside a module of the repository. -/
def Index.resolve (index : Index) (importer : RepoPath) (specifier : Str) : Resolution :=
  match aliasResolution (index.aliases.get? specifier) with
  | .unresolved =>
    if index.modulePaths.elems.any fun module =>
        specifier = module
          || (stripPrefix module specifier).any fun suffix => (ascii "/").isPrefixOf suffix then
      .unresolved
    else .external
  | .resolved target =>
    if target = index.logicalPathFor importer then .sameFile else .resolved target
  | resolution => resolution

end Go

/-! ## The index of a view -/

structure ResolutionIndex where
  languages : BTreeMap RepoPath Language := ∅
  nodeAliases : BTreeMap Str Candidate := ∅
  pythonAliases : BTreeMap Str Candidate := ∅
  rust : Rust.Index := {}
  go : Go.Index := {}
  deriving DecidableEq

namespace ResolutionIndex

/-- One file, entered under the names of its language. -/
def addFile (index : ResolutionIndex) (file : SourceFile) : ResolutionIndex :=
  match file.path.asUtf8 with
  | none => index
  | some path =>
    match file.language with
    | .javaScript | .typeScript =>
      { index with nodeAliases := addSourceAliases index.nodeAliases path file (ascii "/index") }
    | .python =>
      { index with
        pythonAliases := addSourceAliases index.pythonAliases path file (ascii "/__init__") }
    | .rust => { index with rust := index.rust.addFile file path }
    | .go | .hcl | .shell | .protobuf => index

def new [Sha256] (snapshot : SourceSnapshot) (fileFacts : FactMap) (parserOptions : Str)
    (goModules : BTreeMap RepoPath Str) : ResolutionIndex :=
  let index := snapshot.fileList.foldl addFile
    { languages := BTreeMap.ofList (snapshot.fileList.map fun file => (file.path, file.language))
      go := Go.Index.build snapshot goModules }
  { index with rust := index.rust.confirmModuleTrees snapshot fileFacts parserOptions }

end ResolutionIndex

/-! ## Relative paths -/

def appendNormalized : List Str → List Str → Option (List Str)
  | parts, [] => some parts
  | parts, part :: additions =>
    if part = [] then none
    else if part = ascii "." then appendNormalized parts additions
    else if part = ascii ".." then
      if parts = [] then none else appendNormalized parts.dropLast additions
    else appendNormalized (parts ++ [part]) additions

/-- `specifier` as seen from the directory `extraParent` levels above the importer's. -/
def normalizedRelative (importer : RepoPath) (specifier : Str) (extraParent : Nat) : Option Str := do
  let text ← importer.asUtf8
  let parts := text.splitOn (byte '/')
  if parts.length < extraParent + 1 then none
  else
    let parts ← appendNormalized (parts.take (parts.length - (extraParent + 1)))
      (specifier.splitOn (byte '/'))
    pure (joinBytes (byte '/') parts)

def isRelativeSpecifier (specifier : Str) : Bool :=
  specifier = ascii "." || specifier = ascii ".." || (ascii "./").isPrefixOf specifier
    || (ascii "../").isPrefixOf specifier

/-! ## Node and Python -/

/-- Public built-in modules of the pinned Node version. -/
def nodeBuiltins : List String :=
  ["assert", "assert/strict", "async_hooks", "buffer", "child_process", "cluster", "console",
    "constants", "crypto", "dgram", "diagnostics_channel", "dns", "dns/promises", "domain",
    "events", "fs", "fs/promises", "http", "http2", "https", "inspector", "inspector/promises",
    "module", "net", "os", "path", "path/posix", "path/win32", "perf_hooks", "process", "punycode",
    "querystring", "readline", "readline/promises", "repl", "sea", "sqlite", "stream",
    "stream/consumers", "stream/promises", "stream/web", "string_decoder", "sys", "test",
    "test/reporters", "timers", "timers/promises", "tls", "trace_events", "tty", "url", "util",
    "util/types", "v8", "vm", "wasi", "worker_threads", "zlib"]

def isPinnedBuiltin (specifier : Str) : Bool :=
  (stripPrefix (ascii "node:") specifier).any fun module =>
    nodeBuiltins.any fun name => ascii name = module

def exactResolution (path : Str) (index : ResolutionIndex) (family : Str) : Resolution :=
  match RepoPath.fromProtocol path with
  | .error _ => .unresolved
  | .ok path =>
    match index.languages.get? path with
    | some language => if language.family = family then .resolved path else .unresolved
    | none => .unresolved

/-- The target of a relative specifier; the others are builtins or external. -/
def resolveNode (importer : RepoPath) (specifier : Str) (index : ResolutionIndex) : Resolution :=
  if isPinnedBuiltin specifier then .nodeBuiltin
  else if !isRelativeSpecifier specifier then .external
  else if specifier.any fun b => b = byte '?' || b = byte '#' || b = byte '\\' then .unresolved
  else
    match normalizedRelative importer specifier 0 with
    | none => .unresolved
    | some base =>
      if (stripLanguageSuffix base .typeScript).isSome
          || (stripLanguageSuffix base .javaScript).isSome then
        exactResolution base index Language.javaScript.family
      else aliasResolution (index.nodeAliases.get? base)

namespace Python

def normalized (importer : RepoPath) (module : Str) (level : Nat) : Option Str :=
  if module = [] ∨ module.any fun b => b = byte '/' || b = byte '\\' then none
  else if level = 0 then
    if module.contains (byte '.') then none else normalizedRelative importer module 0
  else
    normalizedRelative importer
      (module.map fun b => if b = byte '.' then byte '/' else b) (level - 1)

def resolve (importer : RepoPath) (reference : DependencyReference) (index : ResolutionIndex) :
    Resolution :=
  let absolute : Bool := reference.kind = .pythonAbsolute
  match normalized importer reference.specifier reference.level with
  | none => if absolute then .ambiguous else .unresolved
  | some base =>
    let resolution := aliasResolution (index.pythonAliases.get? base)
    if absolute && resolution = .unresolved then .ambiguous else resolution

end Python

/-! ## References -/

/-- The target of a reference, by the rules of its language. -/
def resolveEdgeReference (index : ResolutionIndex) (file : SourceFile)
    (reference : DependencyReference) : Resolution :=
  match reference.kind with
  | .nodeRuntime | .nodeType => resolveNode file.path reference.specifier index
  | .pythonRelative | .pythonAbsolute => Python.resolve file.path reference index
  | .rustModule => Rust.resolveModule file.path reference.specifier index.rust
  | .rustUse => Rust.resolveUse file.path reference.specifier index.rust
  | .goImport => index.go.resolve file.path reference.specifier
  | _ => .unresolved

end Opcore.Resolver
