/-
  Opcore.Protocol.Native.Scopes

  The enclosing items of a compiler diagnostic.  A flat walk over the tokens of
  a Rust source remembers the identifiers since the last brace or semicolon and
  reads the name of an item off them when a brace opens or a statement ends;
  the smallest recorded range around a byte offset names the scope of the
  diagnostic.  The lexer comes from outside the repository: its tokens, with
  the text each of them covers, are a parameter.
-/
import Mathlib.Data.List.MinMax
import Opcore.Model

namespace Opcore.Native

open Text Collections

def maxScopesPerFile : Nat := 4096
def maxScopesPerRequest : Nat := 65536
def maxHeaderIdentifiers : Nat := 256

/-! ## Tokens -/

/-- The kinds of tokens the walk tells apart; `other` is every other kind. -/
inductive TokenKind where
  | ident
  | rawIdent
  | openBrace
  | closeBrace
  | semi
  | other
  deriving DecidableEq, Repr

def TokenKind.isIdentifier : TokenKind → Bool
  | .ident | .rawIdent => true
  | _ => false

structure Token where
  kind : TokenKind
  text : Str
  deriving DecidableEq, Repr

/-- A lexer of Rust: its tokens cover the source without a gap, none of them is
    empty, and no identifier holds a slash. -/
structure RustLexer where
  tokenize : Str → List Token
  covers : ∀ source, (tokenize source).flatMap Token.text = source
  text_ne_nil : ∀ source, ∀ token ∈ tokenize source, token.text ≠ []
  identifier_no_slash : ∀ source, ∀ token ∈ tokenize source,
    token.kind.isIdentifier = true → byte '/' ∉ token.text

/-! ## The name a header declares -/

/-- Identifiers with the byte offsets they start at. -/
abbrev Header := List (Str × Nat)

/-- The keywords that are followed by the name of an item. -/
def declarationKeywords : List Str :=
  ["fn", "mod", "trait", "struct", "enum", "union", "type", "const", "static"].map ascii

/-- `trim_start_matches("r#")`. -/
def trimRaw : Str → Str
  | 114 :: 35 :: rest => trimRaw rest
  | text => text

/-- The scan of a header from its end: `none` goes on to the identifier before,
    `some none` is the early return without a name. -/
def scanDeclaration : Header → Option (Option (Str × Nat))
  | [] => none
  | (keyword, start) :: rest =>
    match scanDeclaration rest with
    | some found => some found
    | none =>
      if keyword ∈ declarationKeywords then
        some (rest.head?.map fun name => (keyword ++ ascii ":" ++ trimRaw name.1, start))
      else if keyword = ascii "impl" then
        let signature := joinBytes (byte ':') (rest.map Prod.fst)
        if signature.isEmpty then none else some (some (ascii "impl:" ++ signature, start))
      else none

/-- `scope_declaration`: the last declaration keyword of a header decides. -/
def scopeDeclaration (header : Header) : Option (Str × Nat) := (scanDeclaration header).join

/-! ## The walk -/

structure ScopeRange where
  start : Nat
  stop : Nat
  key : Str
  deriving DecidableEq, Repr

structure OpenScope where
  named : Bool
  start : Nat
  key : Str

/-- The collector; the innermost open scope comes first. -/
structure ScopeCollector where
  ranges : List ScopeRange
  scopes : List OpenScope
  names : List Str
  header : Header
  offset : Nat

namespace ScopeCollector

def new : ScopeCollector := ⟨[], [], [], [], 0⟩

def pushScope (c : ScopeCollector) (scope : ScopeRange) : Except Unit ScopeCollector :=
  if maxScopesPerFile ≤ c.ranges.length then .error ()
  else .ok { c with ranges := c.ranges ++ [scope] }

/-- `finish_scope`, at the current offset. -/
def finishScope (c : ScopeCollector) (scope : OpenScope) : Except Unit ScopeCollector :=
  if scope.named then
    if c.names.isEmpty then .error ()
    else { c with names := c.names.dropLast }.pushScope ⟨scope.start, c.offset, scope.key⟩
  else .ok c

def acceptIdentifier (c : ScopeCollector) (identifier : Str) (start : Nat) : ScopeCollector :=
  if maxHeaderIdentifiers ≤ c.header.length then c
  else { c with header := c.header ++ [(identifier, start)] }

def openScope (c : ScopeCollector) (start : Nat) : Except Unit ScopeCollector :=
  if maxStructuralDepth ≤ c.scopes.length then .error ()
  else
    match scopeDeclaration c.header with
    | some (component, declarationStart) =>
      let names := c.names ++ [component]
      .ok { c with
        names := names
        scopes := ⟨true, declarationStart, joinBytes (byte '/') names⟩ :: c.scopes
        header := [] }
    | none => .ok { c with scopes := ⟨false, start, []⟩ :: c.scopes, header := [] }

def closeScope (c : ScopeCollector) : Except Unit ScopeCollector :=
  match c.scopes with
  | [] => .error ()
  | scope :: scopes => do
    let c ← { c with scopes := scopes }.finishScope scope
    .ok { c with header := [] }

def finishStatement (c : ScopeCollector) : Except Unit ScopeCollector :=
  match scopeDeclaration c.header with
  | some (component, start) => do
    let key := joinBytes (byte '/') c.names
    let key := if key.isEmpty then key else key ++ ascii "/"
    let c ← c.pushScope ⟨start, c.offset, key ++ component⟩
    .ok { c with header := [] }
  | none => .ok { c with header := [] }

def accept (c : ScopeCollector) (token : Token) : Except Unit ScopeCollector :=
  let start := c.offset
  let c := { c with offset := c.offset + token.text.length }
  match token.kind with
  | .ident | .rawIdent => .ok (c.acceptIdentifier token.text start)
  | .openBrace => c.openScope start
  | .closeBrace => c.closeScope
  | .semi => c.finishStatement
  | .other => .ok c

/-- Close what is still open at the end of the source. -/
def finishAll (c : ScopeCollector) : List OpenScope → Except Unit (List ScopeRange)
  | [] => .ok c.ranges
  | scope :: scopes => do
    let c ← c.finishScope scope
    c.finishAll scopes

def finish (c : ScopeCollector) : Except Unit (List ScopeRange) := c.finishAll c.scopes

end ScopeCollector

variable (lexer : RustLexer)

/-- `scope_ranges`. -/
def scopeRanges (bytes : Str) : Except Unit (List ScopeRange) :=
  if maxSourceBytes < bytes.length then .error ()
  else if utf8Valid bytes then do
    let c ← (lexer.tokenize bytes).foldlM ScopeCollector.accept .new
    c.finish
  else .error ()

/-! ## The scope of an offset -/

/-- Does a range hold an offset?  Both ends count. -/
def Touches (start stop offset : Nat) : Prop := start ≤ offset ∧ offset ≤ stop

instance (start stop offset : Nat) : Decidable (Touches start stop offset) :=
  inferInstanceAs (Decidable (_ ∧ _))

/-- The first of the smallest ranges around an offset. -/
def enclosingScope (ranges : List ScopeRange) (offset : Nat) : Option ScopeRange :=
  (ranges.filter fun scope => Touches scope.start scope.stop offset).argmin
    fun scope => scope.stop - scope.start

/-- The extension of the last component of a path with `/` between its components. -/
def extension (path : Str) : Option Str :=
  let name := ((rsplitOnce (byte '/') path).map Prod.snd).getD path
  if name = ascii ".." then none
  else (rsplitOnce (byte '.') name).bind fun (stem, ext) => if stem.isEmpty then none else some ext

/-- The files of the materialized workspace. -/
abbrev SourceFiles := BTreeMap RepoPath Str

/-- The ranges read so far, by path. -/
structure SemanticScopes where
  files : BTreeMap Str (List ScopeRange)
  totalScopes : Nat

namespace SemanticScopes

def new : SemanticScopes := ⟨∅, 0⟩

/-- The ranges of a file; none when it is missing or not accepted. -/
def rangesOf (sourceFiles : SourceFiles) (path : Str) : List ScopeRange :=
  (((RepoPath.fromProtocol path).toOption.bind sourceFiles.get?).bind fun bytes =>
    (scopeRanges lexer bytes).toOption).getD []

/-- Read a file that was not read before. -/
def load (sourceFiles : SourceFiles) (scopes : SemanticScopes) (path : Str) :
    Except Unit SemanticScopes :=
  if scopes.files.contains path then .ok scopes
  else
    let ranges := rangesOf lexer sourceFiles path
    let total := scopes.totalScopes + ranges.length
    if maxScopesPerRequest < total then .error ()
    else .ok ⟨scopes.files.insert path ranges, total⟩

/-- `SemanticScopes::key`, with the ranges read afterwards. -/
def key (sourceFiles : SourceFiles) (scopes : SemanticScopes) (path : Str)
    (byteStart : Option Nat) : Except Unit (Str × SemanticScopes) :=
  match byteStart with
  | none => .ok (ascii "path:" ++ path, scopes)
  | some byteStart =>
    if extension path ≠ some (ascii "rs") then .ok (ascii "path:" ++ path, scopes)
    else do
      let scopes ← scopes.load lexer sourceFiles path
      let scope := ((scopes.files.get? path).bind fun ranges =>
        enclosingScope ranges byteStart).elim (ascii "file") ScopeRange.key
      .ok (ascii "path:" ++ path ++ ascii "/scope:" ++ scope, scopes)

end SemanticScopes

end Opcore.Native
