/-
  Opcore.Identity

  Content identities.  SHA-256 comes from outside the repository, so it is a
  parameter of the development: everything below holds for every digest
  function, and the few results that need digests to tell inputs apart say so.
-/
import Opcore.Library.Text

namespace Opcore

open Text

/-- The digest function behind `hash_domain`. -/
class Sha256 where
  digest : Str → Str

/-- The digest that returns its input, for evaluating the development. -/
abbrev identityDigest : Sha256 := ⟨id⟩

variable [Sha256]

/-- The bytes `hash_domain` feeds to the digest. -/
def domainEncoding (domain : Str) (parts : List Str) : Str :=
  ascii "opcore" ++ [0] ++ be64 domain.length ++ domain
    ++ parts.flatMap fun part => be64 part.length ++ part

def hashDomain (domain : Str) (parts : List Str) : Str :=
  Sha256.digest (domainEncoding domain parts)

abbrev ContentId := Str

abbrev FileFactKey := Str

abbrev ContentViewId := Str

def ContentId.of (bytes : Str) : ContentId := hashDomain (ascii "content/v1") [bytes]

def FileFactKey.new (content : ContentId) (mode parserOptions abi : Str) : FileFactKey :=
  hashDomain (ascii "file-fact/v1") [content, mode, parserOptions, abi]

end Opcore
