/-
  Opcore.Analysis.Go.FileNames

  The constraint in a Go file name against Go's own rule.  Go looks only behind
  the first underscore of the stem; the analyzer reads the last words of the
  whole stem, so it also takes the first word for an operating system or an
  architecture.
-/
import Opcore.Analysis.Go.Input
import Opcore.Source.Languages

namespace Opcore.Go

open Text

/-! ## Go's rule -/

/-- The file name without `.go` and `_test`. -/
def goStem (filename : Str) : Option Str :=
  (stripSuffix (ascii ".go") filename).map fun stem => (stripSuffix (ascii "_test") stem).getD stem

/-- A trailing word names another operating system or architecture. -/
def wordRejects (target : GoTarget) (word : Str) : Bool :=
  knownGoOs word && word ≠ target.os || knownGoArch word && word ≠ target.arch

/-- The last words decide, an operating system before an architecture with it;
    they are given in reverse. -/
def wordsReject (target : GoTarget) : List Str → Bool
  | [] => false
  | [last] => wordRejects target last
  | last :: os :: _ =>
    if knownGoOs os && knownGoArch last then ¬ (os = target.os ∧ last = target.arch)
    else wordRejects target last

/-- Does Go leave the file out?  What comes before the first underscore is ignored. -/
def goRejects (filename : Str) (target : GoTarget) : Bool :=
  match (goStem filename).bind (splitOnce (byte '_')) with
  | none => false
  | some (_, words) => wordsReject target (words.splitOn (byte '_')).reverse

/-- The first word of the stem is taken for a constraint: it is the whole stem, or
    an operating system in front of the architecture of the target. -/
def TakesFirstWord (filename : Str) (target : GoTarget) : Prop :=
  ∃ stem, goStem filename = some stem
    ∧ (byte '_' ∉ stem ∧ wordRejects target stem = true
      ∨ ∃ os, byte '_' ∉ os ∧ byte '_' ∉ target.arch ∧ stem = os ++ byte '_' :: target.arch
        ∧ knownGoOs os = true ∧ os ≠ target.os ∧ knownGoArch target.arch = true)

/-! ## The names of files -/

/-- The last component of a path. -/
def fileName (path : RepoPath) : Str := ((path.bytes.splitOn (byte '/')).getLast?).getD []

theorem getLast?_splitOn (path : RepoPath) :
    (path.bytes.splitOn (byte '/')).getLast? = some (fileName path) := by
  obtain ⟨name, hname⟩ := Option.ne_none_iff_exists'.mp
    (mt List.getLast?_eq_none_iff.mp (List.splitOn_ne_nil (byte '/') path.bytes))
  rw [fileName, hname]
  rfl

/-- No name is both an operating system and an architecture. -/
theorem not_knownGoArch_of_knownGoOs {word : Str} (h : knownGoOs word = true) :
    knownGoArch word = false := by
  obtain ⟨name, hmem, hname⟩ := List.any_eq_true.mp h
  have hnames : ∀ name ∈ ["aix", "android", "darwin", "dragonfly", "freebsd", "hurd", "illumos",
      "ios", "js", "linux", "netbsd", "openbsd", "plan9", "solaris", "wasip1", "windows"],
      knownGoArch (ascii name) = false := by decide +kernel
  rw [← of_decide_eq_true hname]
  exact hnames name hmem

/-- An extension is one of the path in any case of its letters. -/
theorem hasExtension_iff {text extension : Str} : hasExtension text extension = true
    ↔ extension.map toAsciiLower <:+ text.map toAsciiLower := by
  simp only [hasExtension, eqIgnoreAsciiCase, Bool.and_eq_true, decide_eq_true_eq]
  constructor
  · rintro ⟨hle, heq⟩
    refine ⟨(text.take (text.length - extension.length)).map toAsciiLower, ?_⟩
    rw [← heq, ← List.map_append, List.take_append_drop]
  · intro h
    have hle := h.length_le
    rw [List.length_map, List.length_map] at hle
    refine ⟨hle, ?_⟩
    obtain ⟨rest, hrest⟩ := h
    have hlength := congrArg List.length hrest
    rw [List.length_append, List.length_map, List.length_map] at hlength
    rw [List.map_drop, ← hrest, List.drop_left']
    omega

/-- A suffix without a separator lies in the last component. -/
theorem suffix_of_suffix_append {separator : UInt8} {suffix pre name : Str}
    (hseparator : separator ∉ suffix) (h : suffix <:+ pre ++ separator :: name) :
    suffix <:+ name := by
  rcases Nat.lt_or_ge name.length suffix.length with hlt | hle
  · have hname : separator :: name <:+ suffix :=
      List.suffix_of_suffix_length_le (List.suffix_append pre _) h hlt
    exact absurd (hname.subset (List.mem_cons_self ..)) hseparator
  · exact List.suffix_of_suffix_length_le h
      ((List.suffix_cons separator name).trans (List.suffix_append pre _)) hle

/-- A path is its name, behind the last separator if it has one. -/
theorem path_cases (path : RepoPath) : byte '/' ∉ path.bytes ∧ fileName path = path.bytes
    ∨ ∃ pre, path.bytes = pre ++ byte '/' :: fileName path := by
  by_cases hmem : byte '/' ∈ path.bytes
  · obtain ⟨name, pre, hreverse, hname⟩ :=
      List.eq_append_cons_of_mem (List.mem_reverse.mpr hmem)
    have hpath : path.bytes = pre.reverse ++ byte '/' :: name.reverse := by
      rw [← List.reverse_reverse path.bytes, hreverse]
      simp
    have hlast : fileName path = name.reverse := by
      rw [fileName, hpath, List.splitOn_append_cons_self,
        List.splitOn_eq_singleton (mt List.mem_reverse.mp hname)]
      simp
    exact .inr ⟨pre.reverse, by rw [hlast, hpath]⟩
  · refine .inl ⟨hmem, ?_⟩
    rw [fileName, List.splitOn_eq_singleton hmem]
    rfl

theorem hasExtension_fileName (path : RepoPath) {extension : Str}
    (h : byte '/' ∉ extension.map toAsciiLower) :
    hasExtension (fileName path) extension = hasExtension path.bytes extension := by
  have hslash : toAsciiLower (byte '/') = byte '/' := by decide
  rw [Bool.eq_iff_iff, hasExtension_iff, hasExtension_iff]
  rcases path_cases path with ⟨-, hname⟩ | ⟨pre, hpath⟩
  · rw [hname]
  · conv_rhs => rw [hpath, List.map_append, List.map_cons, hslash]
    refine ⟨fun hsuffix => ?_, suffix_of_suffix_append h⟩
    exact hsuffix.trans ((List.suffix_cons _ _).trans (List.suffix_append _ _))

/-! ## The words of a stem -/

/-- A stem without an underscore is one word; otherwise its first word ends at the
    first underscore. -/
theorem splitOnce_cases (stem : Str) :
    (byte '_' ∉ stem ∧ splitOnce (byte '_') stem = none ∧ stem.splitOn (byte '_') = [stem])
    ∨ ∃ first tail, stem = first ++ byte '_' :: tail ∧ byte '_' ∉ first
        ∧ splitOnce (byte '_') stem = some (first, tail)
        ∧ stem.splitOn (byte '_') = first :: tail.splitOn (byte '_') := by
  have hspan : ∀ {text : Str}, byte '_' ∉ text →
      ∀ b ∈ text, decide (b ≠ byte '_') = true := by
    intro text h b hb
    refine decide_eq_true ?_
    rintro rfl
    exact h hb
  by_cases hmem : byte '_' ∈ stem
  · obtain ⟨first, tail, rfl, hfirst⟩ := List.eq_append_cons_of_mem hmem
    refine .inr ⟨first, tail, rfl, hfirst, ?_, List.splitOn_append_cons_self_of_not_mem hfirst tail⟩
    rw [splitOnce, List.span_eq_takeWhile_dropWhile, List.takeWhile_append_of_pos (hspan hfirst),
      List.dropWhile_append_of_pos (hspan hfirst)]
    simp
  · refine .inl ⟨hmem, ?_, List.splitOn_eq_singleton hmem⟩
    rw [splitOnce, List.span_eq_takeWhile_dropWhile, List.dropWhile_eq_nil_iff.mpr (hspan hmem)]

/-- What the analyzer makes of the words of a stem, the last one first. -/
def wordsConstraint (target : GoTarget) (last : Str) (before : Option Str) : Bool :=
  if knownGoArch last then
    match before.filter knownGoOs with
    | some os => os = target.os ∧ last = target.arch
    | none => last = target.arch
  else if knownGoOs last then last = target.os
  else true

/-- Both rules read the last word and the one before it. -/
theorem not_wordsConstraint (target : GoTarget) (last : Str) :
    ∀ before : Option Str, wordsConstraint target last before
      = !wordsReject target (last :: before.toList) := by
  intro before
  cases harch : knownGoArch last with
  | true =>
    have hos : knownGoOs last = false := by
      by_contra h
      rw [not_knownGoArch_of_knownGoOs (Bool.eq_true_of_not_eq_false h)] at harch
      cases harch
    cases before with
    | none => simp [wordsConstraint, wordsReject, wordRejects, harch, hos]
    | some os =>
      cases hknown : knownGoOs os <;>
        simp [wordsConstraint, wordsReject, wordRejects, harch, hos, hknown, Option.filter]
  | false =>
    cases hos : knownGoOs last with
    | true =>
      cases before <;> simp [wordsConstraint, wordsReject, wordRejects, harch, hos]
    | false =>
      cases before <;> simp [wordsConstraint, wordsReject, wordRejects, harch, hos]

theorem wordsReject_cons (target : GoTarget) (last : Str) (words : List Str) :
    wordsReject target (last :: words) = wordsReject target (last :: words.head?.toList) := by
  cases words <;> rfl

/-! ## The two rules -/

/-- The stem the analyzer reads the words of. -/
def analyzedStem (filename : Str) (test : Bool) : Option Str :=
  (stripSuffix (ascii ".go") filename).bind fun stem =>
    if test then stripSuffix (ascii "_test") stem else some stem

theorem constraint_eq_false_iff (target : GoTarget) (last : Str) (before : List Str) :
    (if knownGoArch last then some (architectureConstraint (last :: before) target last)
      else if knownGoOs last then some (decide (last = target.os)) else none) = some false
      ↔ wordsConstraint target last before.head? = false := by
  have hsecond : (last :: before)[1]? = before.head? := by
    cases before <;> rfl
  unfold wordsConstraint architectureConstraint
  rw [hsecond]
  split_ifs
  · exact Option.some_inj
  · exact Option.some_inj
  · simp

/-- The analyzer applies the rule to all words of the stem. -/
theorem excludedByName_eq (path : RepoPath) (target : GoTarget)
    (hutf8 : utf8Valid path.bytes = true) :
    excludedByName path target
      = (analyzedStem (fileName path) target.test).any fun stem =>
          wordsReject target (stem.splitOn (byte '_')).reverse := by
  have hpath : path.asUtf8 = some path.bytes := by
    rw [RepoPath.asUtf8, if_pos hutf8]
  have hstem : filenameConstraint path target = (analyzedStem (fileName path) target.test).bind
      fun stem => ((stem.splitOn (byte '_')).reverse.take 3).head?.bind fun first =>
        if knownGoArch first then some (architectureConstraint
          ((stem.splitOn (byte '_')).reverse.take 3) target first)
        else if knownGoOs first then some (decide (first = target.os)) else none := by
    simp only [filenameConstraint, hpath, getLast?_splitOn, analyzedStem, Option.bind_eq_bind,
      Option.bind_some, Option.bind_assoc]
    refine Option.bind_congr fun stem _ => ?_
    cases target.test <;> rfl
  rw [excludedByName, hstem]
  cases analyzedStem (fileName path) target.test with
  | none => rfl
  | some stem =>
    rw [Option.bind_some, Option.any_some]
    cases hreverse : (stem.splitOn (byte '_')).reverse with
    | nil => exact absurd (List.reverse_eq_nil_iff.mp hreverse) (List.splitOn_ne_nil _ _)
    | cons last words =>
      have hhead : (words.take 2).head? = words.head? := by
        cases words <;> rfl
      rw [List.take_succ_cons, List.head?_cons, Option.bind_some, wordsReject_cons, ← hhead,
        Bool.eq_iff_iff, decide_eq_true_eq, constraint_eq_false_iff, not_wordsConstraint,
        Bool.not_eq_false']

theorem goRejects_eq (filename : Str) (target : GoTarget) :
    goRejects filename target = ((goStem filename).bind (splitOnce (byte '_'))).any fun words =>
      wordsReject target (words.2.splitOn (byte '_')).reverse := by
  unfold goRejects
  cases (goStem filename).bind (splitOnce (byte '_')) <;> rfl

/-- No word that reads `test` in some case of its letters constrains a file. -/
theorem unknown_of_test {word : Str} (h : word.map toAsciiLower = ascii "test") :
    knownGoOs word = false ∧ knownGoArch word = false := by
  have hnames : ∀ name ∈ ["aix", "android", "darwin", "dragonfly", "freebsd", "hurd", "illumos",
      "ios", "js", "linux", "netbsd", "openbsd", "plan9", "solaris", "wasip1", "windows", "386",
      "amd64", "arm", "arm64", "loong64", "mips", "mips64", "mips64le", "mipsle", "ppc64",
      "ppc64le", "riscv64", "s390x", "wasm"], (ascii name).map toAsciiLower ≠ ascii "test" := by
    decide +kernel
  rw [knownGoOs, knownGoArch, List.any_eq_false, List.any_eq_false]
  refine ⟨fun name hmem hname => ?_, fun name hmem hname => ?_⟩
  · refine hnames name (List.mem_append_left ["386", "amd64", "arm", "arm64", "loong64", "mips",
      "mips64", "mips64le", "mipsle", "ppc64", "ppc64le", "riscv64", "s390x", "wasm"] hmem) ?_
    rw [of_decide_eq_true hname, h]
  · refine hnames name (List.mem_append_right ["aix", "android", "darwin", "dragonfly", "freebsd",
      "hurd", "illumos", "ios", "js", "linux", "netbsd", "openbsd", "plan9", "solaris", "wasip1",
      "windows"] hmem) ?_
    rw [of_decide_eq_true hname, h]

/-- Only an underscore reads as one in lower case. -/
theorem eq_underscore_of_toAsciiLower {b : UInt8} (h : toAsciiLower b = byte '_') :
    b = byte '_' := by
  have hall : ∀ n < 256, toAsciiLower (UInt8.ofNat n) = byte '_' → UInt8.ofNat n = byte '_' := by
    decide +kernel
  have := hall b.toNat b.toNat_lt
  rw [UInt8.ofNat_toNat] at this
  exact this h

/-- A stem the analyzer expects `_test` at the end of, and that ends so in another case. -/
theorem words_of_test {stem : Str} (h : (ascii "_test").map toAsciiLower <:+ stem.map toAsciiLower) :
    ∃ first word, stem = first ++ byte '_' :: word ∧ word.map toAsciiLower = ascii "test" := by
  obtain ⟨first, hfirst⟩ := h
  obtain ⟨first', rest, rfl, -, hrest⟩ := List.map_eq_append_iff.mp hfirst.symm
  obtain ⟨underscore, word, rfl, hunderscore, hword⟩ := List.map_eq_cons_iff.mp
    (show rest.map toAsciiLower = byte '_' :: ascii "test" from hrest)
  exact ⟨first', word, by rw [eq_underscore_of_toAsciiLower hunderscore], hword⟩

/-- With one word behind the first, the rules differ where the two words name a
    platform of the target's architecture only. -/
theorem wordsReject_pair (target : GoTarget) (os last : Str) :
    wordsReject target [last, os] = wordsReject target [last]
      ↔ ¬ (knownGoOs os = true ∧ os ≠ target.os ∧ knownGoArch last = true ∧ last = target.arch) := by
  cases hknown : knownGoOs os with
  | false => simp [wordsReject, hknown]
  | true =>
    cases harch : knownGoArch last with
    | false => simp [wordsReject, hknown, harch]
    | true =>
      have hos : knownGoOs last = false := by
        by_contra h
        rw [not_knownGoArch_of_knownGoOs (Bool.eq_true_of_not_eq_false h)] at harch
        cases harch
      have hleft : wordsReject target [last, os] = true
          ↔ ¬ (os = target.os ∧ last = target.arch) := by
        rw [wordsReject, hknown, harch, Bool.and_self, if_pos rfl, decide_eq_true_eq]
      have hright : wordsReject target [last] = true ↔ last ≠ target.arch := by
        simp [wordsReject, wordRejects, harch, hos]
      rw [Bool.eq_iff_iff, hleft, hright]
      by_cases hlast : last = target.arch <;> by_cases hsame : os = target.os <;>
        simp [hlast, hsame]

/-- With two words or more behind it, neither rule reads the first. -/
theorem wordsReject_append (target : GoTarget) {words : List Str} (second first : Str)
    (hwords : words ≠ []) :
    wordsReject target (words ++ [second] ++ [first]) = wordsReject target (words ++ [second]) := by
  cases words with
  | nil => exact absurd rfl hwords
  | cons last others =>
    rw [List.cons_append, List.cons_append, wordsReject_cons, wordsReject_cons _ _ (others ++ _)]
    cases others <;> rfl

variable {path : RepoPath} {target : GoTarget}

/-- A stem the analyzer reads and Go strips the same. -/
theorem excludedByName_of_stem {stem : Str} (hutf8 : utf8Valid path.bytes = true)
    (hstem : analyzedStem (fileName path) target.test = some stem)
    (hgo : goStem (fileName path) = some stem) :
    excludedByName path target = goRejects (fileName path) target
      ↔ ¬ TakesFirstWord (fileName path) target := by
  rw [excludedByName_eq path target hutf8, hstem, goRejects_eq, hgo, Option.any_some,
    Option.bind_some]
  have htakes : TakesFirstWord (fileName path) target
      ↔ byte '_' ∉ stem ∧ wordRejects target stem = true
        ∨ ∃ os, byte '_' ∉ os ∧ byte '_' ∉ target.arch ∧ stem = os ++ byte '_' :: target.arch
          ∧ knownGoOs os = true ∧ os ≠ target.os ∧ knownGoArch target.arch = true := by
    simp only [TakesFirstWord, hgo, Option.some.injEq, exists_eq_left']
  rw [htakes]
  rcases splitOnce_cases stem with ⟨hmem, honce, hsplit⟩ | ⟨first, tail, heq, hfirst, honce, hsplit⟩
  · -- One word: Go never reads it.
    rw [honce, hsplit]
    have hpair : ¬ ∃ os, byte '_' ∉ os ∧ byte '_' ∉ target.arch
        ∧ stem = os ++ byte '_' :: target.arch
        ∧ knownGoOs os = true ∧ os ≠ target.os ∧ knownGoArch target.arch = true := by
      rintro ⟨os, -, -, rfl, -⟩
      exact hmem (List.mem_append_right _ (List.mem_cons_self ..))
    simp only [List.reverse_singleton, wordsReject, Option.any_none, hmem, hpair, not_false_eq_true,
      true_and, or_false, Bool.not_eq_true]
  · rw [honce, hsplit, Option.any_some, List.reverse_cons]
    have hsingle : ¬ (byte '_' ∉ stem ∧ wordRejects target stem = true) := by
      rintro ⟨hmem, -⟩
      exact hmem (heq ▸ List.mem_append_right _ (List.mem_cons_self ..))
    rw [or_iff_right hsingle]
    -- Behind the first word there is one word or more; only with one does the
    -- analyzer read the first word too.
    rcases splitOnce_cases tail with ⟨htail, -, hwords⟩ | ⟨second, rest, htail, -, -, hwords⟩
    · rw [hwords]
      have htwo : (∃ os, byte '_' ∉ os ∧ byte '_' ∉ target.arch ∧ stem = os ++ byte '_' :: target.arch
          ∧ knownGoOs os = true ∧ os ≠ target.os ∧ knownGoArch target.arch = true)
          ↔ knownGoOs first = true ∧ first ≠ target.os ∧ knownGoArch tail = true
            ∧ tail = target.arch := by
        constructor
        · rintro ⟨os, hos, harch, hpair, hknown, hne, hknownArch⟩
          obtain ⟨rfl, -, rfl⟩ :=
            (List.append_cons_inj_of_notMem hfirst htail).mp (heq.symm.trans hpair)
          exact ⟨hknown, hne, hknownArch, rfl⟩
        · rintro ⟨hknown, hne, hknownArch, harch⟩
          rw [harch] at htail hknownArch
          exact ⟨first, hfirst, htail, harch ▸ heq, hknown, hne, hknownArch⟩
      rw [htwo]
      exact wordsReject_pair target first tail
    · rw [hwords, List.reverse_cons]
      have hnone : ¬ ∃ os, byte '_' ∉ os ∧ byte '_' ∉ target.arch
          ∧ stem = os ++ byte '_' :: target.arch
          ∧ knownGoOs os = true ∧ os ≠ target.os ∧ knownGoArch target.arch = true := by
        rintro ⟨os, hos, harch, hpair, -⟩
        obtain ⟨rfl, -, rfl⟩ :=
          (List.append_cons_inj_of_notMem hos harch).mp (hpair.symm.trans heq)
        exact harch (htail ▸ List.mem_append_right _ (List.mem_cons_self ..))
      refine iff_of_true (wordsReject_append target second first ?_) hnone
      exact mt List.reverse_eq_nil_iff.mp (List.splitOn_ne_nil _ _)

/-! ## The mode of a Go file -/

/-- The rule that makes a path a Go file tells a test by its suffix. -/
theorem goRule_cases {path : Str} {rule : Str × Language × Str}
    (h : languageModeRules.find? (fun rule => hasExtension path rule.1) = some rule)
    (hgo : rule.2.1 = .go) :
    rule.2.2 = ascii "go:test" ∧ hasExtension path (ascii "_test.go") = true
      ∨ rule.2.2 = ascii "go:source" ∧ hasExtension path (ascii "_test.go") = false := by
  have hrules : ∀ rule ∈ languageModeRules, rule.2.1 = .go →
      rule = (ascii "_test.go", .go, ascii "go:test")
      ∨ rule = (ascii ".go", .go, ascii "go:source") := by decide +kernel
  have hbefore : ∀ rule ∈ languageModeRules.take 12, rule.2.1 ≠ .go := by decide +kernel
  have hsplit : languageModeRules = languageModeRules.take 12
      ++ (ascii "_test.go", .go, ascii "go:test") :: languageModeRules.drop 13 := by decide +kernel
  rcases hrules rule (List.mem_of_find?_eq_some h) hgo with rfl | rfl
  · have htest := List.find?_some h
    exact .inl ⟨rfl, htest⟩
  · refine .inr ⟨rfl, Bool.eq_false_iff.mpr fun htest => ?_⟩
    -- The rule for tests comes first.
    rw [hsplit, List.find?_append] at h
    cases hfirst : (languageModeRules.take 12).find? fun rule => hasExtension path rule.1 with
    | some first =>
      rw [hfirst, Option.some_or] at h
      exact hbefore first (List.mem_of_find?_eq_some hfirst) (Option.some.inj h ▸ rfl)
    | none =>
      rw [hfirst, Option.none_or, List.find?_cons, htest] at h
      exact absurd (Option.some.inj h) (by decide)

/-- The second component of a mode says whether it is a test's. -/
theorem modeTarget_kind {kind text : Str} {target : GoTarget} (hkind : byte ':' ∉ kind)
    (h : modeTarget (ascii "go" ++ byte ':' :: (kind ++ byte ':' :: text)) = some target) :
    target.test = decide (kind = ascii "test") := by
  have hgo : byte ':' ∉ ascii "go" := by decide
  rw [modeTarget, List.splitOn_append_cons_self_of_not_mem hgo,
    List.splitOn_append_cons_self_of_not_mem hkind] at h
  split at h
  · rename_i go kind' os arch hwords
    obtain ⟨-, hkind', -⟩ : _ ∧ kind = kind' ∧ _ := by simpa using hwords
    split_ifs at h
    rw [← Option.some.inj h, hkind']
  · cases h

/-- The target of a Go file's mode is a test's when the path ends as a test's. -/
theorem modeTarget_test [Platform] {mode : Str}
    (h : detectLanguage path = some (.go, mode)) (htarget : modeTarget mode = some target) :
    target.test = hasExtension path.bytes (ascii "_test.go") := by
  simp only [detectLanguage, Option.bind_eq_bind, Option.bind_eq_some_iff] at h
  obtain ⟨-, -, ⟨language, kind⟩, hrule, hmode⟩ := h
  have hlanguage : language = .go ∧ ∃ text, mode = kind ++ byte ':' :: text := by
    cases language <;> simp only [Option.some.injEq, Prod.mk.injEq, reduceCtorEq, false_and] at hmode
    refine ⟨rfl, goTargetOs Platform.os ++ ascii ":" ++ goTargetArch Platform.arch, ?_⟩
    have hcolon : ascii ":" = [byte ':'] := by decide
    simp [← hmode.2, hcolon]
  obtain ⟨rfl, text, rfl⟩ := hlanguage
  have hkind : kind = ascii "go:test" ∧ hasExtension path.bytes (ascii "_test.go") = true
      ∨ kind = ascii "go:source" ∧ hasExtension path.bytes (ascii "_test.go") = false := by
    unfold languageRule at hrule
    dsimp only at hrule
    split_ifs at hrule
    · cases hrule
    · split at hrule <;> cases hrule
    · split at hrule <;> cases hrule
    · split at hrule
      · cases hrule
      obtain ⟨rule, hfind, hrule⟩ := Option.map_eq_some_iff.mp hrule
      obtain ⟨hgo, rfl⟩ := Prod.mk.inj hrule
      exact goRule_cases hfind hgo
  rcases hkind with ⟨rfl, htest⟩ | ⟨rfl, htest⟩ <;> rw [htest]
  · exact @modeTarget_kind (ascii "test") text target (by decide) htarget
  · exact @modeTarget_kind (ascii "source") text target (by decide) htarget

/-- A last word that names no platform constrains nothing. -/
theorem wordsReject_of_unknown (target : GoTarget) {stem first word : Str} {words : Str × Str}
    (hstem : stem = first ++ byte '_' :: word) (hword : byte '_' ∉ word)
    (hos : knownGoOs word = false) (harch : knownGoArch word = false)
    (honce : splitOnce (byte '_') stem = some words) :
    wordsReject target (words.2.splitOn (byte '_')).reverse = false := by
  rcases splitOnce_cases stem with ⟨-, hnone, -⟩ | ⟨head, tail, -, -, hsome, hsplit⟩
  · rw [hnone] at honce
    cases honce
  · obtain rfl := Option.some.inj (hsome.symm.trans honce)
    -- The last word of the stem is the last word behind the first.
    have hall : head :: tail.splitOn (byte '_') = first.splitOn (byte '_') ++ [word] := by
      rw [← hsplit, hstem, List.splitOn_append_cons_self, List.splitOn_eq_singleton hword]
    cases hreverse : (tail.splitOn (byte '_')).reverse with
    | nil => exact absurd (List.reverse_eq_nil_iff.mp hreverse) (List.splitOn_ne_nil _ _)
    | cons last others =>
      have hlast := congrArg List.reverse hall
      rw [List.reverse_cons, hreverse, List.reverse_append, List.reverse_singleton,
        List.cons_append, List.singleton_append] at hlast
      rw [(List.cons.inj hlast).1]
      cases others <;> simp [wordsReject, wordRejects, hos, harch]

/-! ## The failing file names -/

/-- Decided as Go decides, under a target that is a test's as the path's end says. -/
theorem excludedByName_iff (hutf8 : utf8Valid path.bytes = true)
    (htest : target.test = hasExtension path.bytes (ascii "_test.go")) :
    excludedByName path target = goRejects (fileName path) target
      ↔ ¬ TakesFirstWord (fileName path) target := by
  cases hgo : stripSuffix (ascii ".go") (fileName path) with
  | none =>
    -- A name without `.go` is constrained by neither rule.
    have hstem : goStem (fileName path) = none := by rw [goStem, hgo, Option.map_none]
    refine iff_of_true ?_ ?_
    · rw [excludedByName_eq path target hutf8, goRejects_eq, hstem, analyzedStem, hgo]
      rfl
    · rintro ⟨stem, h, -⟩
      rw [hstem] at h
      cases h
  | some name =>
    have hname := eq_append_of_stripSuffix hgo
    have hsuffix : target.test = true
        ↔ (ascii "_test").map toAsciiLower <:+ name.map toAsciiLower := by
      have hsplit : (ascii "_test.go").map toAsciiLower
          = (ascii "_test").map toAsciiLower ++ (ascii ".go").map toAsciiLower := by decide
      rw [htest, ← hasExtension_fileName path (by decide), hasExtension_iff, hname, hsplit,
        List.map_append]
      exact List.suffix_append_self_iff
    cases hstrip : stripSuffix (ascii "_test") name with
    | some stem =>
      -- A test file: both rules read the same stem.
      have hmode : target.test = true := by
        rw [hsuffix, eq_append_of_stripSuffix hstrip, List.map_append]
        exact List.suffix_append _ _
      have hread : analyzedStem (fileName path) target.test = some stem := by
        rw [analyzedStem, hgo, Option.bind_some, hmode, if_pos rfl, hstrip]
      have hstem : goStem (fileName path) = some stem := by
        rw [goStem, hgo, Option.map_some, hstrip, Option.getD_some]
      exact excludedByName_of_stem hutf8 hread hstem
    | none =>
      have hstem : goStem (fileName path) = some name := by
        rw [goStem, hgo, Option.map_some, hstrip, Option.getD_none]
      cases hmode : target.test with
      | false =>
        have hread : analyzedStem (fileName path) target.test = some name := by
          rw [analyzedStem, hgo, Option.bind_some, hmode, if_neg Bool.false_ne_true]
        exact excludedByName_of_stem hutf8 hread hstem
      | true =>
        -- `_test` in another case of its letters: the mode is a test's, the analyzer
        -- gives up, and for Go the last word names no platform.
        obtain ⟨first, word, hwords, hword⟩ := words_of_test (hsuffix.mp hmode)
        obtain ⟨hos, harch⟩ := unknown_of_test hword
        have hunderscore : byte '_' ∉ word := by
          intro hmem
          have := List.mem_map_of_mem (f := toAsciiLower) hmem
          rw [hword] at this
          exact absurd this (by decide)
        refine iff_of_true ?_ ?_
        · rw [excludedByName_eq path target hutf8, goRejects_eq, hstem, analyzedStem, hgo,
            Option.bind_some, hmode, if_pos rfl, hstrip, Option.any_none, Option.bind_some]
          refine Eq.symm (Bool.eq_false_iff.mpr fun hany => ?_)
          obtain ⟨words, honce, hreject⟩ := (Option.any_eq_true _ _).mp hany
          rw [wordsReject_of_unknown target hwords hunderscore hos harch honce] at hreject
          cases hreject
        · rintro ⟨stem, h, hcase⟩
          obtain rfl := Option.some.inj (hstem.symm.trans h)
          rcases hcase with ⟨hmem, -⟩ | ⟨os, hfirst, hlast, hpair, -, -, hknown⟩
          · exact hmem (hwords ▸ List.mem_append_right _ (List.mem_cons_self ..))
          · obtain ⟨-, -, rfl⟩ :=
              (List.append_cons_inj_of_notMem hfirst hlast).mp (hpair.symm.trans hwords)
            rw [harch] at hknown
            cases hknown

/-- The analyzer leaves out the files Go leaves out, but for the names whose first
    word it takes for a constraint; so it does under the mode of every Go file. -/
theorem excluded_as_go_iff (path : RepoPath) :
    (∀ target : GoTarget, utf8Valid path.bytes = true →
        target.test = hasExtension path.bytes (ascii "_test.go") →
        (excludedByName path target = goRejects (fileName path) target
          ↔ ¬ TakesFirstWord (fileName path) target))
      ∧ ∀ [Platform] (mode : Str) (target : GoTarget),
        detectLanguage path = some (.go, mode) → modeTarget mode = some target →
        (excludedByName path target = goRejects (fileName path) target
          ↔ ¬ TakesFirstWord (fileName path) target) := by
  refine ⟨fun target hutf8 htest => excludedByName_iff hutf8 htest, ?_⟩
  intro _ mode target hmode htarget
  have hutf8 : utf8Valid path.bytes = true := by
    by_contra hinvalid
    rw [detectLanguage, RepoPath.asUtf8, if_neg hinvalid] at hmode
    cases hmode
  exact excludedByName_iff hutf8 (modeTarget_test hmode htarget)

theorem excluded_as_go_linux_file :
    (excludedByName ⟨ascii "cmd/tool_linux.go", by decide⟩ ⟨ascii "windows", ascii "amd64", false⟩
        = goRejects (fileName ⟨ascii "cmd/tool_linux.go", by decide⟩)
            ⟨ascii "windows", ascii "amd64", false⟩
      ↔ ¬ TakesFirstWord (fileName ⟨ascii "cmd/tool_linux.go", by decide⟩)
            ⟨ascii "windows", ascii "amd64", false⟩) :=
  (excluded_as_go_iff _).1 _ (by decide +kernel) (by decide +kernel)

/-- `linux.go` has no word behind an underscore, and is left out on Windows. -/
theorem not_forall_excluded_as_go : ¬ ∀ (path : RepoPath) (target : GoTarget),
    utf8Valid path.bytes = true →
    target.test = hasExtension path.bytes (ascii "_test.go") →
    excludedByName path target = goRejects (fileName path) target := by
  intro h
  have := h ⟨ascii "linux.go", by decide⟩ ⟨ascii "windows", ascii "amd64", false⟩
    (by decide +kernel) (by decide +kernel)
  exact absurd this (by decide +kernel)

end Opcore.Go
