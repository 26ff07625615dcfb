import Noleax.Lib.Bytes
import Noleax.Trace.Event

/-!
# Modules and stacks (`trace/module.hpp`, `trace/stack.hpp`)

A `std::string` is its bytes: the format does not ask a path to be valid UTF-8.
-/

namespace Noleax.Trace

open Lib

/-! ## Modules -/

structure PeImageIdentity where
  timestamp : ℕ := 0
  checksum : ℕ := 0
  imageSize : ℕ := 0
deriving DecidableEq, Repr

structure PdbIdentity where
  guid : Bytes
  age : ℕ := 0
deriving DecidableEq, Repr

/-- `ModuleLoadFlag::kPathTruncated` -/
def pathTruncatedFlag : ℕ := 1

/-- `kKnownModuleLoadFlags`: a truncated path, a truncated PDB path. -/
def knownModuleLoadFlags : ℕ := 3

structure ModuleLoad where
  moduleId : ℕ
  monotonicTicks : ℕ := 0
  baseAddress : ℕ := 0
  imageSize : ℕ := 0
  imagePath : Bytes := []
  imageIdentity : Option PeImageIdentity := none
  pdbIdentity : Option PdbIdentity := none
  pdbPath : Bytes := []
  flags : ℕ := 0
deriving DecidableEq, Repr

structure ModuleUnload where
  moduleId : ℕ
  monotonicTicks : ℕ := 0
deriving DecidableEq, Repr

inductive ModuleRecord where
  | load (load : ModuleLoad)
  | unload (unload : ModuleUnload)
deriving DecidableEq, Repr

def ModuleRecord.monotonicTicks : ModuleRecord → ℕ
  | load l => l.monotonicTicks
  | unload u => u.monotonicTicks

def validateModuleString (value : Bytes) (field : String) (required : Bool) :
    Except Error Unit := do
  failIf (required = true ∧ value = []) (.moduleValidation (field ++ " must not be empty"))
  failIf (0 ∈ value) (.moduleValidation (field ++ " must not contain NUL"))

def validateModuleLoad (load : ModuleLoad) : Except Error Unit := do
  failIf (load.moduleId = 0) (.moduleValidation "module load requires a nonzero module_id")
  failIf (load.baseAddress = 0 ∨ load.imageSize = 0 ∨ maxU64 - load.baseAddress < load.imageSize)
    (.moduleValidation "module load address range is invalid")
  validateModuleString load.imagePath "module image path" true
  validateModuleString load.pdbPath "module PDB path" false
  failIf (knownModuleLoadFlags < load.flags)
    (.moduleValidation "module load flags are not supported in V1")
  failIf (∃ identity ∈ load.imageIdentity, identity.imageSize ≠ load.imageSize)
    (.moduleValidation "module PE identity size does not match the image range")
  failIf (load.pdbIdentity = none ∧ load.pdbPath ≠ [])
    (.moduleValidation "module PDB path requires a PDB identity")

def validateModuleUnload (unload : ModuleUnload) : Except Error Unit :=
  failIf (unload.moduleId = 0) (.moduleValidation "module unload requires a nonzero module_id")

def validateModuleRecord : ModuleRecord → Except Error Unit
  | .load l => validateModuleLoad l
  | .unload u => validateModuleUnload u

/-! ## Stacks -/

inductive StackStatus where
  | complete | truncatedByDepth | unwindFailed | unavailable
deriving DecidableEq, Repr

structure StackFrame where
  moduleId : ℕ := 0
  moduleOffset : ℕ := 0
  absoluteAddress : ℕ := 0
  flags : ℕ := 0
deriving DecidableEq, Repr

structure StackDefinition where
  stackId : ℕ
  status : StackStatus := .unavailable
  frames : List StackFrame := []
deriving DecidableEq, Repr

def validateStackFrame (frame : StackFrame) : Except Error Unit := do
  failIf (frame.absoluteAddress = 0)
    (.stackValidation "stack frame requires a nonzero absolute address")
  failIf (frame.moduleId = 0 ∧ frame.moduleOffset ≠ 0)
    (.stackValidation "stack frame without a module must have a zero module offset")
  failIf (frame.flags ≠ 0) (.stackValidation "stack frame flags are not supported in V1")

abbrev StackStatus.Successful (status : StackStatus) : Prop :=
  status = .complete ∨ status = .truncatedByDepth

def validateStackDefinition (definition : StackDefinition) : Except Error Unit := do
  failIf (definition.stackId = 0)
    (.stackValidation "stack definition requires a nonzero stack_id")
  failIf (¬ (definition.status.Successful ↔ definition.frames ≠ []))
    (.stackValidation "successful stack definition must contain frames")
  definition.frames.forM validateStackFrame

end Noleax.Trace
