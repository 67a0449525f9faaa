/-
  Opcore.Sense.Documentation

  What obliges a changed module to be documented.  A trigger is computed from
  the observation of an important node; it says that the module has become
  important, that its public surface changed, or that it was renamed or deleted.
-/
import Opcore.Sense.Metrics.Interfaces

namespace Opcore.Documentation

open Text Collections Metrics

structure DocumentationPolicy where
  importantFanIn : Nat
  importantExports : Nat

/-- The thresholds of documentation are those of the interface policy. -/
def DocumentationPolicy.ofInterfaces (policy : InterfacePolicy) : DocumentationPolicy :=
  ⟨policy.importantFanIn, policy.moduleExportsLimit⟩

inductive DocumentationReason where
  | newlyImportant
  | publicSurfaceChanged
  | renamed
  | deleted
  deriving DecidableEq

structure Trigger where
  newlyImportant : Bool
  surfaceChanged : Bool
  renamed : Bool
  deleted : Bool
  deriving DecidableEq

def Trigger.reasons (trigger : Trigger) : List DocumentationReason :=
  (if trigger.newlyImportant then [.newlyImportant] else [])
    ++ (if trigger.surfaceChanged then [.publicSurfaceChanged] else [])
    ++ (if trigger.renamed then [.renamed] else [])
    ++ (if trigger.deleted then [.deleted] else [])

def Trigger.actionable (trigger : Trigger) : Bool :=
  trigger.newlyImportant || trigger.surfaceChanged || trigger.renamed || trigger.deleted

def important (dependencyFanIn : Nat) (surfaceAuthoritative : Bool) (explicitExports : Nat)
    (policy : DocumentationPolicy) : Bool :=
  policy.importantFanIn ≤ dependencyFanIn
    || (surfaceAuthoritative && policy.importantExports < explicitExports)

def newlyImportant (node : ImportantNodeObservation) (afterImportant : Bool) : Bool :=
  node.newlyImportant && afterImportant && !node.deleted

def surfaceChanged (node : ImportantNodeObservation) (beforeImportant : Bool) : Bool :=
  beforeImportant && !node.deleted && node.publicSurfaceChanged

/-- The trigger of an observation before it is asked whether it is actionable. -/
def triggerOf (node : ImportantNodeObservation) (policy : DocumentationPolicy) : Trigger :=
  let beforeImportant := important node.beforeConfirmedDependencyFanIn
    node.beforePublicSurfaceAuthoritative node.beforeExplicitExports policy
  let afterImportant := important node.afterConfirmedDependencyFanIn
    node.afterPublicSurfaceAuthoritative node.afterExplicitExports policy
  let pathChanged := node.beforePath.any fun before => before ≠ node.path
  { newlyImportant := newlyImportant node afterImportant
    surfaceChanged := surfaceChanged node beforeImportant
    renamed := pathChanged && (beforeImportant || afterImportant)
    deleted := node.deleted && beforeImportant }

def trigger (node : ImportantNodeObservation) (policy : DocumentationPolicy) : Option Trigger :=
  let trigger := triggerOf node policy
  if trigger.actionable then some trigger else none

/-- A trigger that is not actionable gives no reason. -/
theorem any_trigger (node : ImportantNodeObservation) (policy : DocumentationPolicy) :
    (trigger node policy).any Trigger.newlyImportant = (triggerOf node policy).newlyImportant := by
  rw [trigger]
  cases h : (triggerOf node policy).newlyImportant with
  | true => simp [Trigger.actionable, h]
  | false => split_ifs <;> simp [h]

end Opcore.Documentation
