/-
  Opcore.Path

  Repository-relative paths: byte strings that passed `validate`.
-/
import Opcore.Library.Text

namespace Opcore

open Text

def maxRepositoryPathBytes : Nat := 4096

inductive PathError where
  | empty
  | absolute
  | invalidComponent
  | nul
  | tooLong
  deriving DecidableEq

def validate (bytes : Str) : Except PathError Unit :=
  if bytes.isEmpty then .error .empty
  else if maxRepositoryPathBytes < bytes.length then .error .tooLong
  else if bytes.contains 0 then .error .nul
  else if bytes.head? = some (byte '/') ∨ bytes.head? = some (byte '\\') then .error .absolute
  else if bytes[1]? = some (byte ':') ∧ (bytes.head?.any isAsciiAlphabetic) then .error .absolute
  else if (bytes.splitOnP fun b => b = byte '/' ∨ b = byte '\\').any
      fun part => part.isEmpty || part = ascii "." || part = ascii ".." then
    .error .invalidComponent
  else .ok ()

instance : DecidableEq (Except PathError Unit)
  | .ok (), .ok () => isTrue rfl
  | .error a, .error b => decidable_of_iff (a = b) (by simp)
  | .ok (), .error _ => isFalse (by simp)
  | .error _, .ok () => isFalse (by simp)

/-- A validated repository path. -/
structure RepoPath where
  bytes : Str
  valid : validate bytes = .ok ()

namespace RepoPath

theorem bytes_injective : Function.Injective RepoPath.bytes := by
  rintro ⟨b₁, _⟩ ⟨b₂, _⟩ h
  cases h
  rfl

instance : LinearOrder RepoPath := LinearOrder.lift' RepoPath.bytes bytes_injective

instance : LawfulBEq RepoPath := inferInstance

/-- `RepoPath::new`. -/
def new (bytes : Str) : Except PathError RepoPath :=
  match h : validate bytes with
  | .ok () => .ok ⟨bytes, h⟩
  | .error e => .error e

def fromProtocol (value : Str) : Except PathError RepoPath :=
  if value.contains (byte '\\') then .error .invalidComponent else new value

def asUtf8 (path : RepoPath) : Option Str :=
  if utf8Valid path.bytes then some path.bytes else none

/-- The path as text: printable ASCII as it is, a backslash doubled, and every
    other byte in hexadecimal. -/
def displayLossless (path : RepoPath) : Str :=
  path.bytes.flatMap fun b =>
    if b = byte '\\' then ascii "\\\\"
    else if byte ' ' ≤ b ∧ b ≤ byte '~' then [b]
    else ascii "\\x" ++ hexEncode [b]

/-- The pseudo-path of gaps that concern the request as a whole. -/
def requestMarker : RepoPath := ⟨ascii "_request", by decide⟩

end RepoPath

/-- The path of a sample; a name that is no path gives the pseudo-path. -/
def samplePath (name : String) : RepoPath :=
  match RepoPath.new (ascii name) with
  | .ok path => path
  | .error _ => RepoPath.requestMarker

end Opcore
