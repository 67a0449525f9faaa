/-
  Opcore.Protocol.Native.ToldApart

  When the enclosing items of two diagnostics tell their functions apart.  The
  key of an offset in the body of a function lists the names read off the
  headers around it, so two functions are confused exactly when those lists
  coincide.  A header that reads as its own function keeps it apart from every
  other name; a parameter of an array type, whose `;` ends the header early, or
  a later keyword in the signature does not read as the function.
-/
import Opcore.Protocol.Native.Enclosing
import Opcore.Protocol.Native.Output
import Opcore.Protocol.PathText

namespace Opcore.Native

open Text Collections

/-! ## The names of a source -/

/-- The shape of every name read off a header. -/
structure Component (name : Str) : Prop where
  colon : byte ':' ∈ name
  no_slash : byte '/' ∉ name

structure Spelled (outline : Outline) : Prop where
  found : ∀ stretch ∈ outline.found, stretch.names ≠ [] ∧ ∀ name ∈ stretch.names, Component name
  opened : ∀ name ∈ namesOf outline.opened, Component name
  header : ∀ entry ∈ outline.header, byte '/' ∉ entry.1

theorem spelled_new : Spelled .new := ⟨nofun, nofun, nofun⟩

theorem component_of_scopeDeclaration {header : Header} {component : Str} {start : Nat}
    (hheader : ∀ entry ∈ header, byte '/' ∉ entry.1)
    (h : scopeDeclaration header = some (component, start)) : Component component :=
  have hdeclares := declares_of_scopeDeclaration h
  ⟨hdeclares.colon, hdeclares.no_slash hheader⟩

theorem spelled_closing {declared : Option (Str × Nat)} {outer : List (Option (Str × Nat))}
    {stop : Nat} (h : ∀ name ∈ namesOf (declared :: outer), Component name) :
    ∀ stretch ∈ Outline.closing declared outer stop,
      stretch.names ≠ [] ∧ ∀ name ∈ stretch.names, Component name := by
  intro stretch hmem
  obtain ⟨component, start, rfl, rfl⟩ := mem_closing hmem
  rw [namesOf_some] at h
  exact ⟨by simp, h⟩

variable {outline : Outline}

theorem Spelled.names_declared (h : Spelled outline) :
    ∀ name ∈ namesOf (scopeDeclaration outline.header :: outline.opened), Component name := by
  cases hdeclared : scopeDeclaration outline.header with
  | none => exact h.opened
  | some declared =>
    obtain ⟨component, start⟩ := declared
    rw [namesOf_some]
    intro name hname
    rcases List.mem_append.mp hname with hname | hname
    · exact h.opened name hname
    · rw [List.mem_singleton.mp hname]
      exact component_of_scopeDeclaration h.header hdeclared

theorem names_tail {declared : Option (Str × Nat)} {outer : List (Option (Str × Nat))}
    (h : ∀ name ∈ namesOf (declared :: outer), Component name) :
    ∀ name ∈ namesOf outer, Component name := by
  cases declared with
  | none => exact h
  | some declared =>
    rw [namesOf_some] at h
    exact fun name hname => h name (List.mem_append_left _ hname)

theorem Spelled.step {outline : Outline} {token : Token} (h : Spelled outline)
    (htoken : token.kind.isIdentifier = true → byte '/' ∉ token.text) :
    Spelled (outline.step token) := by
  unfold Outline.step
  cases hkind : token.kind with
  | ident | rawIdent =>
    simp only [Outline.readIdentifier]
    split_ifs
    · exact ⟨h.found, h.opened, h.header⟩
    · refine ⟨h.found, h.opened, fun entry hmem => ?_⟩
      rcases List.mem_append.mp hmem with hmem | hmem
      · exact h.header entry hmem
      · rw [List.mem_singleton.mp hmem]
        exact htoken (by rw [hkind]; rfl)
  | openBrace => exact ⟨h.found, h.names_declared, List.forall_mem_nil _⟩
  | closeBrace =>
    have hopened := h.opened
    simp only [Outline.closeBrace]
    cases hopen : outline.opened with
    | nil => exact ⟨h.found, List.forall_mem_nil _, List.forall_mem_nil _⟩
    | cons declared outer =>
      rw [hopen] at hopened
      refine ⟨fun stretch hmem => ?_, names_tail hopened, List.forall_mem_nil _⟩
      rcases List.mem_append.mp hmem with hmem | hmem
      · exact h.found stretch hmem
      · exact spelled_closing hopened stretch hmem
  | semi =>
    refine ⟨fun stretch hmem => ?_, h.opened, List.forall_mem_nil _⟩
    rcases List.mem_append.mp hmem with hmem | hmem
    · exact h.found stretch hmem
    · exact spelled_closing h.names_declared stretch hmem
  | other => exact ⟨h.found, h.opened, h.header⟩

variable {tokens : List Token}

theorem Spelled.foldl (h : Spelled outline)
    (htokens : ∀ token ∈ tokens, token.kind.isIdentifier = true → byte '/' ∉ token.text) :
    Spelled (tokens.foldl Outline.step outline) := by
  induction tokens generalizing outline with
  | nil => exact h
  | cons token tokens ih =>
    exact ih (h.step (htokens token (List.mem_cons_self ..)))
      fun token' hmem => htokens token' (List.mem_cons_of_mem _ hmem)

theorem Spelled.finish (h : Spelled outline) :
    ∀ stretch ∈ outline.finish, stretch.names ≠ [] ∧ ∀ name ∈ stretch.names, Component name := by
  have hclosing : ∀ opened, (∀ name ∈ namesOf opened, Component name) →
      ∀ stretch ∈ Outline.closingAll outline.offset opened,
        stretch.names ≠ [] ∧ ∀ name ∈ stretch.names, Component name := by
    intro opened hopened
    induction opened with
    | nil => nofun
    | cons declared outer ih =>
      intro stretch hmem
      rcases List.mem_append.mp hmem with hmem | hmem
      · exact spelled_closing hopened stretch hmem
      · exact ih (names_tail hopened) stretch hmem
  intro stretch hmem
  rcases List.mem_append.mp hmem with hmem | hmem
  · exact h.found stretch hmem
  · exact hclosing _ h.opened stretch hmem

/-! ## The text of a key -/

/-- The scope part of a key: `file` outside every item. -/
def scopeText (names : List Str) : Str :=
  if names = [] then ascii "file" else joinBytes (byte '/') names

def scopeKey (path : Str) (names : List Str) : Str :=
  ascii "path:" ++ path ++ ascii "/scope:" ++ scopeText names

theorem colon_mem_joinBytes {names : List Str} (hne : names ≠ [])
    (h : ∀ name ∈ names, Component name) : byte ':' ∈ joinBytes (byte '/') names := by
  cases names with
  | nil => exact absurd rfl hne
  | cons first rest =>
    have hfirst := (h first (List.mem_cons_self ..)).colon
    cases rest with
    | nil => simpa [joinBytes] using hfirst
    | cons second rest => simp [joinBytes, hfirst]

theorem scopeText_inj {names names' : List Str} (h : ∀ name ∈ names, Component name)
    (h' : ∀ name ∈ names', Component name) (heq : scopeText names = scopeText names') :
    names = names' := by
  have hfile : byte ':' ∉ ascii "file" := by decide
  unfold scopeText at heq
  split_ifs at heq with hnil hnil' hnil'
  · rw [hnil, hnil']
  · exact absurd (heq ▸ colon_mem_joinBytes hnil' h') hfile
  · exact absurd (heq ▸ colon_mem_joinBytes hnil h) hfile
  · have hsplit := congrArg (List.splitOn (byte '/')) heq
    rw [joinBytes, joinBytes,
      List.splitOn_intercalate _ (fun name hname => (h name hname).no_slash) hnil,
      List.splitOn_intercalate _ (fun name hname => (h' name hname).no_slash) hnil'] at hsplit
    exact hsplit

theorem scopeKey_inj {path : Str} {names names' : List Str} (h : ∀ name ∈ names, Component name)
    (h' : ∀ name ∈ names', Component name) (heq : scopeKey path names = scopeKey path names') :
    names = names' :=
  scopeText_inj h h' (List.append_cancel_left heq)

/-! ## The key of an offset -/

/-- The scopes a request has read, from any sequence of keys asked for. -/
inductive SemanticScopes.Reached (lexer : RustLexer) (sourceFiles : SourceFiles) :
    SemanticScopes → Prop where
  | new : Reached lexer sourceFiles .new
  | key {scopes scopes' : SemanticScopes} {path key : Str} {byteStart : Option Nat}
      (h : Reached lexer sourceFiles scopes)
      (hkey : scopes.key lexer sourceFiles path byteStart = .ok (key, scopes')) :
      Reached lexer sourceFiles scopes'

/-- What was read stands for the files as they are. -/
def SemanticScopes.Reads (lexer : RustLexer) (sourceFiles : SourceFiles)
    (scopes : SemanticScopes) : Prop :=
  ∀ path ranges, scopes.files.get? path = some ranges → ranges = rangesOf lexer sourceFiles path

section Key

variable {lexer : RustLexer} {sourceFiles : SourceFiles} {scopes scopes' : SemanticScopes}
  {path text : Str} {byteStart : Option Nat}

theorem SemanticScopes.Reads.load (h : scopes.Reads lexer sourceFiles)
    (hload : scopes.load lexer sourceFiles path = .ok scopes') :
    scopes'.Reads lexer sourceFiles
      ∧ scopes'.files.get? path = some (SemanticScopes.rangesOf lexer sourceFiles path) := by
  unfold SemanticScopes.load at hload
  dsimp only at hload
  split_ifs at hload with hcontains hlimit
  · cases hload
    obtain ⟨ranges, hranges⟩ := Option.isSome_iff_exists.mp hcontains
    exact ⟨h, by rw [hranges, h path ranges hranges]⟩
  · cases hload
    refine ⟨fun path' ranges hget => ?_, BTreeMap.get?_insert_self⟩
    dsimp only at hget
    rw [BTreeMap.get?_insert] at hget
    split_ifs at hget with heq
    · rw [heq, ← Option.some.inj hget]
    · exact h path' ranges hget

theorem SemanticScopes.Reads.key (h : scopes.Reads lexer sourceFiles)
    (hkey : scopes.key lexer sourceFiles path byteStart = .ok (text, scopes')) :
    scopes'.Reads lexer sourceFiles := by
  unfold SemanticScopes.key at hkey
  cases byteStart with
  | none =>
    cases hkey
    exact h
  | some offset =>
    dsimp only at hkey
    split_ifs at hkey
    · cases hkey
      exact h
    · obtain ⟨loaded, hload, hresult⟩ := Except.bind_eq_ok_iff.mp hkey
      cases hresult
      exact (h.load hload).1

theorem SemanticScopes.Reached.reads (h : scopes.Reached lexer sourceFiles) :
    scopes.Reads lexer sourceFiles := by
  induction h with
  | new => exact nofun
  | key _ hkey ih => exact ih.key hkey

/-- The key of an offset in a Rust file depends on the file alone. -/
theorem key_eq_ok {offset : Nat} (h : scopes.Reached lexer sourceFiles)
    (hrust : extension path = some (ascii "rs"))
    (hkey : scopes.key lexer sourceFiles path (some offset) = .ok (text, scopes')) :
    text = ascii "path:" ++ path ++ ascii "/scope:"
      ++ (enclosingScope (SemanticScopes.rangesOf lexer sourceFiles path) offset).elim
          (ascii "file") ScopeRange.key := by
  unfold SemanticScopes.key at hkey
  dsimp only at hkey
  rw [if_neg (not_not_intro hrust)] at hkey
  obtain ⟨loaded, hload, hresult⟩ := Except.bind_eq_ok_iff.mp hkey
  rw [(h.reads.load hload).2] at hresult
  cases hresult
  rfl

end Key

/-- A Rust file of the workspace whose source is accepted. -/
structure Accepted (lexer : RustLexer) (sourceFiles : SourceFiles) (path bytes : Str) : Prop where
  rust : extension path = some (ascii "rs")
  file : ∃ repoPath, RepoPath.fromProtocol path = .ok repoPath
    ∧ sourceFiles.get? repoPath = some bytes
  ranges : ∃ ranges, scopeRanges lexer bytes = .ok ranges

theorem enclosingScope_render (stretches : List Stretch) (offset : Nat) :
    enclosingScope (stretches.map Stretch.render) offset
      = (innermost stretches offset).map Stretch.render := by
  unfold enclosingScope innermost
  rw [List.filter_map, argmin_map]
  rfl

variable {sourceFiles : SourceFiles} {lexer : RustLexer}

theorem Accepted.rangesOf {path bytes : Str} (h : Accepted lexer sourceFiles path bytes) :
    SemanticScopes.rangesOf lexer sourceFiles path
      = (outlineOf (lexer.tokenize bytes)).finish.map Stretch.render := by
  obtain ⟨repoPath, hpath, hfile⟩ := h.file
  obtain ⟨ranges, hranges⟩ := h.ranges
  simp only [SemanticScopes.rangesOf, hpath, Except.toOption, Option.bind_some, hfile, hranges,
    Option.getD_some]
  exact scopeRanges_eq_ok hranges

/-! ## Functions -/

/-- A function of a source: `fn`, a signature that begins with the name, and the
    body between a pair of braces. -/
structure FunctionIn (tokens : List Token) extends Block tokens where
  preceding : List Token
  signature : List Token
  nameToken : Token
  declared : before = preceding ++ ⟨.ident, ascii "fn"⟩ :: signature
  signature_balanced : Balanced signature
  named : signature.find? (fun token => token.kind.isIdentifier) = some nameToken

namespace FunctionIn

variable {tokens : List Token} (function : FunctionIn tokens)

/-- The name, without the mark of a raw identifier. -/
def name : Str := trimRaw function.nameToken.text

/-- The header in front of the body is read as the function itself. -/
def ReadsAsItself : Prop :=
  (scopeDeclaration function.reached.header).map Prod.fst = some (ascii "fn:" ++ function.name)

/-- A function that is read as itself closes the list of names with its own. -/
theorem enclosing_of_readsAsItself (h : function.ReadsAsItself) :
    function.enclosing = namesOf function.reached.opened ++ [ascii "fn:" ++ function.name] := by
  obtain ⟨declared, hdeclared, hname⟩ := Option.map_eq_some_iff.mp h
  have hopened : function.entered.opened = some declared :: function.reached.opened := by
    simp [Block.entered, Outline.step, function.opens, Outline.openBrace, hdeclared]
  obtain ⟨component, start⟩ := declared
  rw [Block.enclosing, hopened, namesOf_some, ← hname]

end FunctionIn

/-! ## Headers that read as their function -/

/-- Braces and semicolons, behind which a new header begins. -/
def TokenKind.endsHeader : TokenKind → Bool
  | .openBrace | .closeBrace | .semi => true
  | _ => false

/-- The words since the last brace or semicolon, after one more token. -/
def nextWords (words : List Str) (token : Token) : List Str :=
  if token.kind.endsHeader then []
  else if token.kind.isIdentifier then words ++ [token.text]
  else words

/-- The identifiers since the last brace or semicolon of a text. -/
def headerWords (tokens : List Token) : List Str := tokens.foldl nextWords []

/-- The identifiers of a text. -/
def identifiers (tokens : List Token) : List Str :=
  (tokens.filter fun token => token.kind.isIdentifier).map Token.text

theorem header_step {token : Token} {words : List Str}
    (h : outline.header.map Prod.fst = words.take maxHeaderIdentifiers) :
    (outline.step token).header.map Prod.fst
      = (nextWords words token).take maxHeaderIdentifiers := by
  have hlength := congrArg List.length h
  rw [List.length_map, List.length_take] at hlength
  unfold Outline.step
  cases hkind : token.kind with
  | ident | rawIdent =>
    have hnext : nextWords words token = words ++ [token.text] := by
      simp [nextWords, hkind, TokenKind.endsHeader, TokenKind.isIdentifier]
    simp only [hnext, Outline.readIdentifier]
    by_cases hfull : maxHeaderIdentifiers ≤ outline.header.length
    · -- the header is full, and so are the first 256 words
      rw [if_pos hfull, List.take_append_of_le_length (by omega)]
      exact h
    · have hshort : words.length < maxHeaderIdentifiers := by omega
      rw [List.take_of_length_le hshort.le] at h
      rw [if_neg hfull, List.take_of_length_le (by simp; omega), List.map_append, h]
      rfl
  | openBrace | semi =>
    rw [nextWords, hkind]
    rfl
  | closeBrace =>
    rw [nextWords, hkind]
    simp only [Outline.closeBrace]
    cases outline.opened <;> rfl
  | other =>
    rw [nextWords, hkind]
    exact h

/-- The header keeps the first 256 identifiers since the last brace or semicolon. -/
theorem header_outlineOf (tokens : List Token) :
    (outlineOf tokens).header.map Prod.fst
      = (headerWords tokens).take maxHeaderIdentifiers := by
  induction tokens using List.reverseRecOn with
  | nil => rfl
  | append_singleton tokens token ih =>
    rw [outlineOf, headerWords, List.foldl_concat, List.foldl_concat]
    exact header_step ih

theorem foldl_nextWords {words : List Str} (h : ∀ token ∈ tokens, token.kind.endsHeader = false) :
    tokens.foldl nextWords words = words ++ identifiers tokens := by
  induction tokens generalizing words with
  | nil => exact (List.append_nil words).symm
  | cons token tokens ih =>
    obtain ⟨hfirst, hrest⟩ := List.forall_mem_cons.mp h
    rw [List.foldl_cons, ih hrest, nextWords, hfirst, identifiers, identifiers, List.filter_cons]
    split_ifs <;> simp_all

/-- The words of a signature that still have room in the header. -/
def FunctionIn.keptWords {tokens : List Token} (function : FunctionIn tokens) : List Str :=
  (identifiers function.signature).take
    (maxHeaderIdentifiers - ((headerWords function.preceding).length + 1))

/-- A plain function: no brace and no semicolon in its signature, room for its name in the
    header, and no further keyword of a declaration among the words kept. -/
structure FunctionIn.Plain {tokens : List Token} (function : FunctionIn tokens) : Prop where
  signature : ∀ token ∈ function.signature, token.kind.endsHeader = false
  room : (headerWords function.preceding).length + 2 ≤ maxHeaderIdentifiers
  keywords : ∀ word ∈ function.keptWords, word ∉ declarationKeywords
  impl : ascii "impl" ∉ function.keptWords.dropLast

theorem scanDeclaration_append {header rest : Header} {found : Option (Str × Nat)}
    (h : scanDeclaration rest = some found) : scanDeclaration (header ++ rest) = some found := by
  induction header with
  | nil => exact h
  | cons entry header ih => simp only [List.cons_append, scanDeclaration, ih]

/-- A header without a keyword, but perhaps for an `impl` at its end, declares nothing. -/
theorem scanDeclaration_eq_none {header : Header}
    (hkeywords : ∀ word ∈ header.map Prod.fst, word ∉ declarationKeywords)
    (himpl : ascii "impl" ∉ (header.map Prod.fst).dropLast) : scanDeclaration header = none := by
  induction header with
  | nil => rfl
  | cons entry rest ih =>
    obtain ⟨hkeyword, hrest⟩ := List.forall_mem_cons.mp hkeywords
    cases rest with
    | nil => simp [scanDeclaration, hkeyword, joinBytes]
    | cons second rest =>
      rw [List.map_cons, List.map_cons, List.dropLast_cons_cons, List.mem_cons, not_or] at himpl
      rw [scanDeclaration, ih hrest himpl.2]
      simp only [if_neg hkeyword, if_neg (Ne.symm himpl.1)]

/-- A plain function is read as itself. -/
theorem FunctionIn.Plain.readsAsItself {function : FunctionIn tokens}
    (h : function.Plain) : function.ReadsAsItself := by
  have hroom := h.room
  have hwords : headerWords function.before
      = headerWords function.preceding ++ ascii "fn" :: identifiers function.signature := by
    rw [function.declared, headerWords, List.foldl_append, List.foldl_cons,
      foldl_nextWords h.signature, headerWords]
    simp [nextWords, TokenKind.endsHeader, TokenKind.isIdentifier]
  have hheader : function.reached.header.map Prod.fst
      = headerWords function.preceding ++ ascii "fn" :: function.keptWords := by
    obtain ⟨n, hn⟩ := Nat.exists_eq_add_of_le hroom
    have hkept : maxHeaderIdentifiers - (headerWords function.preceding).length
        = maxHeaderIdentifiers - ((headerWords function.preceding).length + 1) + 1 := by omega
    rw [Block.reached, header_outlineOf, hwords, List.take_append,
      List.take_of_length_le (by omega), hkept, List.take_succ_cons, keptWords]
  obtain ⟨earlier, rest, hsplit, -, hrest⟩ := List.map_eq_append_iff.mp hheader
  obtain ⟨⟨keyword, start⟩, kept, rfl, hkeyword, hkept⟩ := List.map_eq_cons_iff.mp hrest
  obtain rfl : keyword = ascii "fn" := hkeyword
  -- the name is the first word kept
  have hhead : kept.head?.map Prod.fst = some function.nameToken.text := by
    rw [← List.head?_map, hkept, keptWords, List.head?_take, if_neg (by omega), identifiers,
      List.head?_map, List.head?_filter, function.named]
    rfl
  obtain ⟨entry, hentry, hname⟩ := Option.map_eq_some_iff.mp hhead
  have hnone : scanDeclaration kept = none :=
    scanDeclaration_eq_none (hkept ▸ h.keywords) (hkept ▸ h.impl)
  have hmem : ascii "fn" ∈ declarationKeywords := by decide
  have hscan : scanDeclaration function.reached.header
      = some (some (ascii "fn:" ++ function.name, start)) := by
    rw [hsplit]
    refine scanDeclaration_append ?_
    simp only [scanDeclaration, hnone, if_pos hmem, hentry, Option.map_some, hname]
    rfl
  rw [FunctionIn.ReadsAsItself, scopeDeclaration, hscan]
  rfl

/-- Functions of different names that are read as themselves are kept apart. -/
theorem reading_ne_of_readsAsItself {tokens tokens' : List Token} {f : FunctionIn tokens}
    {g : FunctionIn tokens'} (hnames : f.name ≠ g.name) {offset offset' : Nat}
    (hf : f.ReadsAsItself) (hg : g.ReadsAsItself) (hnested : f.nested offset = [])
    (hnested' : g.nested offset' = []) : f.reading offset ≠ g.reading offset' := by
  intro heq
  rw [Block.reading, Block.reading, hnested, hnested', List.append_nil, List.append_nil,
    f.enclosing_of_readsAsItself hf, g.enclosing_of_readsAsItself hg] at heq
  have hlast := (List.append_inj' heq rfl).2
  exact hnames (List.append_cancel_left (List.singleton_inj.mp hlast))

/-- The key of an offset in the body of a function is that of the names read around it. -/
theorem key_eq_scopeKey {path bytes key : Str} {scopes scopes' : SemanticScopes} {offset : Nat}
    (hsource : Accepted lexer sourceFiles path bytes) (block : Block (lexer.tokenize bytes))
    (hinside : block.Inside offset) (hscopes : scopes.Reached lexer sourceFiles)
    (hkey : scopes.key lexer sourceFiles path (some offset) = .ok (key, scopes')) :
    key = scopeKey path (block.reading offset)
      ∧ ∀ name ∈ block.reading offset, Component name := by
  have hspelled := (spelled_new.foldl (lexer.identifier_no_slash bytes)).finish
  have hnames := block.innermost_names (lexer.text_ne_nil bytes) hinside
  rw [key_eq_ok hscopes hsource.rust hkey, hsource.rangesOf, enclosingScope_render, ← hnames]
  cases hinnermost : innermost (outlineOf (lexer.tokenize bytes)).finish offset with
  | none => exact ⟨rfl, nofun⟩
  | some stretch =>
    obtain ⟨hne, hcomponents⟩ := hspelled stretch
      (List.mem_filter.mp (List.argmin_mem hinnermost)).1
    refine ⟨?_, hcomponents⟩
    simp [scopeKey, scopeText, hne, Stretch.render]

/-! ## Fingerprints -/

/-- The digest does not confuse two texts. -/
def TellsApart [Sha256] (text text' : Str) : Prop :=
  Sha256.digest text = Sha256.digest text' → text = text'

section Fingerprint

variable {severity : NativeSeverity} {rustcCode : Option Str} {text context key key' : Str}

theorem fingerprintEncoding_inj
    (h : fingerprintEncoding severity rustcCode text context key
      = fingerprintEncoding severity rustcCode text context key') : key = key' := by
  simp only [fingerprintEncoding, List.flatMap_cons, List.flatMap_nil, List.append_nil,
    List.append_assoc, List.append_cancel_left_eq] at h
  exact (List.append_inj h (by simp [be64])).2

theorem fingerprint_eq_iff [Sha256]
    (hdigest : TellsApart (fingerprintEncoding severity rustcCode text context key)
      (fingerprintEncoding severity rustcCode text context key')) :
    fingerprint severity rustcCode text context key
        = fingerprint severity rustcCode text context key' ↔ key = key' := by
  constructor
  · intro h
    exact fingerprintEncoding_inj (hdigest (hexEncode_injective (List.append_cancel_left h)))
  · rintro rfl
    rfl

end Fingerprint

/-- Two messages report the same error: all that enters a fingerprint but the scope. -/
structure SameError (message message' : CompilerMessage) : Prop where
  severity : message.severity = message'.severity
  rustcCode : message.rustcCode = message'.rustcCode
  normalized : message.normalized = message'.normalized
  context : message.context = message'.context

theorem SameError.text {message message' : CompilerMessage} (h : SameError message message') :
    message.text = message'.text := by
  rw [CompilerMessage.text, CompilerMessage.text, h.rustcCode, h.normalized]

/-- The bytes digested for a message under a scope. -/
def CompilerMessage.encoding (message : CompilerMessage) (key : Str) : Str :=
  fingerprintEncoding (message.severity.getD .error) message.rustcCode message.text message.context
    key

theorem compilerDiagnostic_eq_ok [Sha256]
    {scopes scopes' : SemanticScopes} {message : CompilerMessage} {diagnostic : NativeDiagnostic}
    (h : compilerDiagnostic lexer sourceFiles scopes message = .ok (some diagnostic, scopes')) :
    ∃ severity key, message.severity = some severity
      ∧ scopes.key lexer sourceFiles message.path message.byteStart = .ok (key, scopes')
      ∧ diagnostic.fingerprint
        = fingerprint severity message.rustcCode message.text message.context key := by
  unfold compilerDiagnostic at h
  cases hseverity : message.severity with
  | none => simp [hseverity] at h
  | some severity =>
    simp only [hseverity] at h
    obtain ⟨⟨key, scopes₁⟩, hkey, hresult⟩ := Except.bind_eq_ok_iff.mp h
    cases hresult
    exact ⟨severity, key, rfl, hkey, rfl⟩

/-! ## The baseline -/

def NativeCheckResult.without (baseline : NativeCheckResult) (known : NativeDiagnostic) :
    NativeCheckResult :=
  { baseline with diagnostics := baseline.diagnostics.filter (· ≠ known) }

theorem mem_subtractBaseline {candidate baseline : NativeCheckResult} {diagnostic : NativeDiagnostic}
    (hfindings : candidate.status = .findings) (hexhaustive : baseline.exhaustive = true) :
    diagnostic ∈ (subtractBaseline candidate (some baseline) .introduced).1.diagnostics
      ↔ diagnostic ∈ candidate.diagnostics
        ∧ ∀ known ∈ baseline.diagnostics, diagnostic.fingerprint ≠ known.fingerprint := by
  have happlicable : baseline.status ≠ .notApplicable := by
    intro h
    simp [NativeCheckResult.exhaustive, h] at hexhaustive
  simp only [subtractBaseline, hfindings, ne_eq, not_true_eq_false, or_self, if_false,
    if_neg happlicable, hexhaustive, if_true, List.mem_filter, List.mem_map, decide_eq_true_eq,
    not_exists, not_and]
  refine and_congr_right fun _ => forall₂_congr fun known _ => ?_
  exact ne_comm

/-- A known diagnostic takes another one away exactly under its fingerprint. -/
theorem mem_subtractBaseline_iff_without {candidate baseline : NativeCheckResult}
    {diagnostic known : NativeDiagnostic} (hfindings : candidate.status = .findings)
    (hexhaustive : baseline.exhaustive = true) (hknown : known ∈ baseline.diagnostics) :
    diagnostic ∈ (subtractBaseline candidate (some baseline) .introduced).1.diagnostics
      ↔ diagnostic ∈ (subtractBaseline candidate (some (baseline.without known))
            .introduced).1.diagnostics
        ∧ diagnostic.fingerprint ≠ known.fingerprint := by
  rw [mem_subtractBaseline hfindings hexhaustive,
    @mem_subtractBaseline _ (baseline.without known) _ hfindings hexhaustive, and_assoc]
  refine and_congr_right fun _ => ⟨fun h => ⟨fun other hother => ?_, h known hknown⟩,
    fun ⟨h, hne⟩ other hother => ?_⟩
  · exact h other (List.mem_filter.mp hother).1
  · by_cases heq : other = known
    · rw [heq]
      exact hne
    · exact h other (List.mem_filter.mpr ⟨hother, decide_eq_true heq⟩)

/-! ## Sources of words and marks -/

/-- The bytes of identifiers and numbers. -/
def isWordByte (b : UInt8) : Bool := isAsciiAlphanumeric b || b = byte '_'

/-- A word: an identifier unless it begins with a digit. -/
def word (text : Str) : Token :=
  ⟨if text.head?.any fun b => byte '0' ≤ b ∧ b ≤ byte '9' then .other else .ident, text⟩

def punctuation (b : UInt8) : Token :=
  ⟨if b = byte '\x7b' then .openBrace else if b = byte '\x7d' then .closeBrace
    else if b = byte ';' then .semi else .other, [b]⟩

/-- The tokens of a source without comments, texts and raw identifiers. -/
def wordTokens : Str → List Token
  | [] => []
  | b :: rest =>
    if isWordByte b then
      match wordTokens rest with
      | [] => [word [b]]
      | token :: tokens =>
        if token.text.all isWordByte then word (b :: token.text) :: tokens
        else word [b] :: token :: tokens
    else punctuation b :: wordTokens rest

theorem wordTokens_covers (source : Str) : (wordTokens source).flatMap Token.text = source := by
  induction source with
  | nil => rfl
  | cons b rest ih =>
    rw [wordTokens]
    split_ifs
    · split
      · next hrest =>
        rw [hrest] at ih
        simp [word, ← ih]
      · next token tokens hrest =>
        rw [hrest] at ih
        split_ifs <;> simp [word, ← ih]
    · simp [punctuation, ih]

theorem wordTokens_spec (source : Str) : ∀ token ∈ wordTokens source, token.text ≠ []
    ∧ (token.kind.isIdentifier = true → token.text.all isWordByte = true) := by
  induction source with
  | nil => nofun
  | cons b rest ih =>
    have hpunctuation : (punctuation b).kind.isIdentifier = false := by
      unfold punctuation
      dsimp only
      split_ifs <;> rfl
    rw [wordTokens]
    split_ifs with hb
    · split
      · intro token hmem
        rw [List.mem_singleton.mp hmem]
        exact ⟨List.cons_ne_nil _ _, fun _ => by simp [word, hb]⟩
      · next first tokens hrest =>
        rw [hrest] at ih
        split_ifs with hall
        · intro token hmem
          rcases List.mem_cons.mp hmem with rfl | hmem
          · exact ⟨List.cons_ne_nil _ _, fun _ => by simpa [word, hb] using hall⟩
          · exact ih token (List.mem_cons_of_mem _ hmem)
        · intro token hmem
          rcases List.mem_cons.mp hmem with rfl | hmem
          · exact ⟨List.cons_ne_nil _ _, fun _ => by simp [word, hb]⟩
          · exact ih token hmem
    · intro token hmem
      rcases List.mem_cons.mp hmem with rfl | hmem
      · exact ⟨List.cons_ne_nil _ _, fun h => by rw [hpunctuation] at h; cases h⟩
      · exact ih token hmem

/-- The lexer of sources of words and marks. -/
def wordLexer : RustLexer where
  tokenize := wordTokens
  covers := wordTokens_covers
  text_ne_nil source token hmem := (wordTokens_spec source token hmem).1
  identifier_no_slash source token hmem hidentifier hslash := by
    have hall := List.all_eq_true.mp ((wordTokens_spec source token hmem).2 hidentifier) _ hslash
    exact absurd hall (by decide)

/-- The function whose `fn`, opening and closing brace stand at three places. -/
def functionAt (tokens : List Token) (start opening closing : Nat) (nameToken : Token)
    (hsplits : tokens = (tokens.take start ++ ⟨.ident, ascii "fn"⟩
        :: (tokens.take opening).drop (start + 1)) ++ ⟨.openBrace, [byte '\x7b']⟩
        :: (tokens.take closing).drop (opening + 1) ++ ⟨.closeBrace, [byte '\x7d']⟩
        :: tokens.drop (closing + 1))
    (hsignature : Balanced ((tokens.take opening).drop (start + 1)))
    (hbody : Balanced ((tokens.take closing).drop (opening + 1)))
    (hname : ((tokens.take opening).drop (start + 1)).find?
      (fun token => token.kind.isIdentifier) = some nameToken) : FunctionIn tokens where
  before := tokens.take start ++ ⟨.ident, ascii "fn"⟩ :: (tokens.take opening).drop (start + 1)
  opening := ⟨.openBrace, [byte '\x7b']⟩
  body := (tokens.take closing).drop (opening + 1)
  closing := ⟨.closeBrace, [byte '\x7d']⟩
  after := tokens.drop (closing + 1)
  splits := hsplits
  opens := rfl
  closes := rfl
  balanced := hbody
  preceding := tokens.take start
  signature := (tokens.take opening).drop (start + 1)
  nameToken := nameToken
  declared := rfl
  signature_balanced := hsignature
  named := hname

/-- Two functions without parameters. -/
def plain : Str := ascii "fn alpha() \x7b broken \x7d\nfn beta() \x7b broken \x7d\n"

def plainAlpha : FunctionIn (wordLexer.tokenize plain) :=
  functionAt (wordTokens plain) 0 6 10 ⟨.ident, ascii "alpha"⟩ (by decide +kernel)
    (by decide +kernel) (by decide +kernel) (by decide +kernel)

def plainBeta : FunctionIn (wordLexer.tokenize plain) :=
  functionAt (wordTokens plain) 12 18 22 ⟨.ident, ascii "beta"⟩ (by decide +kernel)
    (by decide +kernel) (by decide +kernel) (by decide +kernel)

/-- Two functions with a parameter of an array type. -/
def arrays : Str :=
  ascii "fn alpha(value: [u8; 4]) \x7b broken \x7d\nfn beta(value: [u8; 4]) \x7b broken \x7d\n"

def arraysAlpha : FunctionIn (wordLexer.tokenize arrays) :=
  functionAt (wordTokens arrays) 0 15 19 ⟨.ident, ascii "alpha"⟩ (by decide +kernel)
    (by decide +kernel) (by decide +kernel) (by decide +kernel)

def arraysBeta : FunctionIn (wordLexer.tokenize arrays) :=
  functionAt (wordTokens arrays) 21 36 40 ⟨.ident, ascii "beta"⟩ (by decide +kernel)
    (by decide +kernel) (by decide +kernel) (by decide +kernel)

def libPath : RepoPath := samplePath "src/lib.rs"

def filesOf (bytes : Str) : SourceFiles := (∅ : SourceFiles).insert libPath bytes

theorem exists_of_isSome {ε α : Type} {x : Except ε α} (h : x.toOption.isSome = true) :
    ∃ a, x = .ok a := by
  cases x with
  | error e => cases h
  | ok a => exact ⟨a, rfl⟩

theorem accepted_filesOf {bytes : Str} (h : (scopeRanges wordLexer bytes).toOption.isSome = true) :
    Accepted wordLexer (filesOf bytes) (ascii "src/lib.rs") bytes where
  rust := by decide
  file := by
    have hseparators : (ascii "src/lib.rs").contains (byte '\\') = false := by decide
    refine ⟨libPath, ?_, BTreeMap.get?_insert_self⟩
    rw [RepoPath.fromProtocol, hseparators, if_neg Bool.false_ne_true]
    exact Except.toOption_eq_some_iff.mp (Asp.toOption_new_bytes libPath)
  ranges := exists_of_isSome h

/-! ## Functions told apart -/

section ToldApart

variable {lexer : RustLexer} {files files' : SourceFiles} {path bytes bytes' : Str}
  {offset offset' : Nat} {scopes scopes' after after' : SemanticScopes}

/-- Two offsets in the bodies of functions have one key exactly when the same names
    are read around them. -/
theorem key_ne_iff (hsource : Accepted lexer files path bytes)
    (hsource' : Accepted lexer files' path bytes') (block : Block (lexer.tokenize bytes))
    (block' : Block (lexer.tokenize bytes')) (hinside : block.Inside offset)
    (hinside' : block'.Inside offset') (hscopes : scopes.Reached lexer files)
    (hscopes' : scopes'.Reached lexer files') {key key' : Str}
    (hkey : scopes.key lexer files path (some offset) = .ok (key, after))
    (hkey' : scopes'.key lexer files' path (some offset') = .ok (key', after')) :
    key ≠ key' ↔ block.reading offset ≠ block'.reading offset' := by
  obtain ⟨heq, hcomponents⟩ := key_eq_scopeKey hsource block hinside hscopes hkey
  obtain ⟨heq', hcomponents'⟩ := key_eq_scopeKey hsource' block' hinside' hscopes' hkey'
  refine not_congr ⟨fun h => ?_, fun h => by rw [heq, heq', h]⟩
  rw [heq, heq'] at h
  exact scopeKey_inj hcomponents hcomponents' h

/-- The same error at two offsets gets one fingerprint exactly when the keys agree. -/
theorem diagnostic_fingerprint_ne_iff [Sha256] {m n : CompilerMessage} {d e : NativeDiagnostic}
    (hsame : SameError m n) (hpath : m.path = path) (hpath' : n.path = path)
    (hoffset : m.byteStart = some offset) (hoffset' : n.byteStart = some offset')
    (hsource : Accepted lexer files path bytes)
    (hsource' : Accepted lexer files' path bytes') (block : Block (lexer.tokenize bytes))
    (block' : Block (lexer.tokenize bytes')) (hinside : block.Inside offset)
    (hinside' : block'.Inside offset') (hscopes : scopes.Reached lexer files)
    (hscopes' : scopes'.Reached lexer files')
    (hd : compilerDiagnostic lexer files scopes m = .ok (some d, after))
    (he : compilerDiagnostic lexer files' scopes' n = .ok (some e, after'))
    (hdigest : TellsApart (m.encoding (scopeKey path (block.reading offset)))
      (n.encoding (scopeKey path (block'.reading offset')))) :
    d.fingerprint ≠ e.fingerprint ↔ block.reading offset ≠ block'.reading offset' := by
  obtain ⟨severity, key, hseverity, hkey, hfingerprint⟩ := compilerDiagnostic_eq_ok hd
  obtain ⟨severity', key', hseverity', hkey', hfingerprint'⟩ := compilerDiagnostic_eq_ok he
  rw [hpath, hoffset] at hkey
  rw [hpath', hoffset'] at hkey'
  have hseverities : severity = severity' :=
    Option.some.inj (hseverity.symm.trans (hsame.severity.trans hseverity'))
  subst hseverities
  rw [← key_ne_iff hsource hsource' block block' hinside hinside' hscopes hscopes' hkey hkey']
  rw [← (key_eq_scopeKey hsource block hinside hscopes hkey).1,
    ← (key_eq_scopeKey hsource' block' hinside' hscopes' hkey').1] at hdigest
  simp only [CompilerMessage.encoding, hseverity, hseverity', Option.getD_some, ← hsame.rustcCode,
    ← hsame.text, ← hsame.context] at hdigest
  rw [hfingerprint, hfingerprint', ← hsame.rustcCode, ← hsame.text, ← hsame.context]
  exact not_congr (fingerprint_eq_iff hdigest)

/-- The code tells two functions apart at two offsets exactly under a condition: by the
    keys of the offsets, by the fingerprints of the same error at both, and in the
    subtraction of a baseline that has the one. -/
structure ToldApartIff [Sha256] (files files' : SourceFiles) (path : Str)
    (scopes scopes' : SemanticScopes) (f : FunctionIn (lexer.tokenize bytes))
    (g : FunctionIn (lexer.tokenize bytes')) (offset offset' : Nat) (condition : Prop) : Prop where
  keys : ∀ key key' after after',
    scopes.key lexer files path (some offset) = .ok (key, after) →
    scopes'.key lexer files' path (some offset') = .ok (key', after') →
    (key ≠ key' ↔ condition)
  errors : ∀ m n d e after after', SameError m n → m.path = path → n.path = path →
    m.byteStart = some offset → n.byteStart = some offset' →
    compilerDiagnostic lexer files scopes m = .ok (some d, after) →
    compilerDiagnostic lexer files' scopes' n = .ok (some e, after') →
    TellsApart (m.encoding (scopeKey path (f.reading offset)))
      (n.encoding (scopeKey path (g.reading offset'))) →
    (d.fingerprint ≠ e.fingerprint ↔ condition)
    ∧ ∀ candidate baseline, candidate.status = .findings → baseline.exhaustive = true →
      e ∈ baseline.diagnostics →
      (d ∈ (subtractBaseline candidate (some baseline) .introduced).1.diagnostics
        ↔ d ∈ (subtractBaseline candidate (some (baseline.without e)) .introduced).1.diagnostics
          ∧ condition)

/-- Enclosing items tell two plain functions apart, at offsets in their bodies where nothing
    is recorded inside; and any two functions exactly when the names read off the headers
    around the two offsets differ. -/
theorem functions_told_apart_iff [Sha256] (hsource : Accepted lexer files path bytes)
    (hsource' : Accepted lexer files' path bytes') (f : FunctionIn (lexer.tokenize bytes))
    (g : FunctionIn (lexer.tokenize bytes')) (hnames : f.name ≠ g.name)
    (hinside : f.Inside offset) (hinside' : g.Inside offset')
    (hscopes : scopes.Reached lexer files) (hscopes' : scopes'.Reached lexer files') :
    (f.Plain → g.Plain → f.nested offset = [] → g.nested offset' = [] →
      ToldApartIff files files' path scopes scopes' f g offset offset' True)
    ∧ ToldApartIff files files' path scopes scopes' f g offset offset'
        (f.reading offset ≠ g.reading offset') := by
  have hiff : ToldApartIff files files' path scopes scopes' f g offset offset'
      (f.reading offset ≠ g.reading offset') := by
    refine ⟨fun key key' after after' hkey hkey' =>
        key_ne_iff hsource hsource' _ _ hinside hinside' hscopes hscopes' hkey hkey',
      fun m n d e after after' hsame hpath hpath' hoffset hoffset' hd he hdigest => ?_⟩
    have hfingerprint := diagnostic_fingerprint_ne_iff hsame hpath hpath' hoffset hoffset' hsource
      hsource' _ _ hinside hinside' hscopes hscopes' hd he hdigest
    refine ⟨hfingerprint, fun candidate baseline hfindings hexhaustive hknown => ?_⟩
    rw [mem_subtractBaseline_iff_without hfindings hexhaustive hknown, hfingerprint]
  refine ⟨fun hf hg hnested hnested' => ?_, hiff⟩
  have hne := reading_ne_of_readsAsItself hnames hf.readsAsItself hg.readsAsItself hnested hnested'
  rwa [eq_true hne] at hiff

end ToldApart

/-- The functions of the repository's own test are told apart. -/
theorem functions_told_apart_plain : ∃ key after key' after',
    SemanticScopes.new.key wordLexer (filesOf plain) (ascii "src/lib.rs") (some 13)
        = .ok (key, after)
      ∧ SemanticScopes.new.key wordLexer (filesOf plain) (ascii "src/lib.rs") (some 34)
        = .ok (key', after')
      ∧ key ≠ key' := by
  have hsource := @accepted_filesOf plain (by decide +kernel)
  obtain ⟨⟨key, after⟩, hkey⟩ := @exists_of_isSome _ _ (SemanticScopes.new.key wordLexer
    (filesOf plain) (ascii "src/lib.rs") (some 13)) (by decide +kernel)
  obtain ⟨⟨key', after'⟩, hkey'⟩ := @exists_of_isSome _ _ (SemanticScopes.new.key wordLexer
    (filesOf plain) (ascii "src/lib.rs") (some 34)) (by decide +kernel)
  refine ⟨key, after, key', after', hkey, hkey', ?_⟩
  have htold := @functions_told_apart_iff wordLexer _ _ _ _ _ 13 34 _ _ identityDigest hsource
    hsource plainAlpha plainBeta (by decide +kernel) (by decide +kernel) (by decide +kernel)
    .new .new
  have hplain : plainAlpha.Plain ∧ plainBeta.Plain :=
    ⟨⟨by decide +kernel, by decide +kernel, by decide +kernel, by decide +kernel⟩,
      ⟨by decide +kernel, by decide +kernel, by decide +kernel, by decide +kernel⟩⟩
  obtain ⟨hkeys, -⟩ := htold.1 hplain.1 hplain.2 (by decide +kernel) (by decide +kernel)
  exact (hkeys key key' after after' hkey hkey').mpr trivial

/-- The `;` of an array type ends the header of a function, whose body then has no
    name: the two functions share the key of the file. -/
theorem not_forall_functions_told_apart : ¬ ∀ (lexer : RustLexer) (files : SourceFiles)
    (path bytes : Str), Accepted lexer files path bytes →
    ∀ f g : FunctionIn (lexer.tokenize bytes), f.name ≠ g.name →
    f.bodyStop < g.bodyStart ∨ g.bodyStop < f.bodyStart →
    ∀ offset offset', f.Inside offset → g.Inside offset' →
    f.nested offset = [] → g.nested offset' = [] →
    ∀ key key' after after',
      SemanticScopes.new.key lexer files path (some offset) = .ok (key, after) →
      SemanticScopes.new.key lexer files path (some offset') = .ok (key', after') →
      key ≠ key' := by
  intro hall
  have hsource := @accepted_filesOf arrays (by decide +kernel)
  obtain ⟨⟨key, after⟩, hkey⟩ := @exists_of_isSome _ _ (SemanticScopes.new.key wordLexer
    (filesOf arrays) (ascii "src/lib.rs") (some 27)) (by decide +kernel)
  obtain ⟨⟨key', after'⟩, hkey'⟩ := @exists_of_isSome _ _ (SemanticScopes.new.key wordLexer
    (filesOf arrays) (ascii "src/lib.rs") (some 62)) (by decide +kernel)
  have halpha : arraysAlpha.Inside 27 := by decide +kernel
  have hbeta : arraysBeta.Inside 62 := by decide +kernel
  have hreading : arraysAlpha.reading 27 = arraysBeta.reading 62 := by decide +kernel
  refine hall _ _ _ _ hsource arraysAlpha arraysBeta (by decide +kernel) (by decide +kernel)
    27 62 halpha hbeta (by decide +kernel) (by decide +kernel) key key' after after' hkey hkey' ?_
  rw [(key_eq_scopeKey hsource _ halpha .new hkey).1, (key_eq_scopeKey hsource _ hbeta .new hkey').1,
    hreading]

end Opcore.Native
