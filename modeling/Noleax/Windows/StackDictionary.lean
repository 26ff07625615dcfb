import Noleax.Lib.Chains
import Noleax.Lib.Stateful
import Noleax.Trace.Module

/-!
# The stack dictionary (`src/agent/windows/stack_dictionary.cpp`)

Entries are kept in an arena of fixed size and chained through hash buckets by their
indices; when the arena is full all of them are forgotten, and their numbers are not used
again. Nothing is assumed of the hash values.
-/

namespace Noleax.Interning

open Lib Trace

/-! ## Stacks -/

/-- `kMaximumCapturedStackDepth` -/
def maximumCapturedStackDepth : ℕ := 64

structure NormalizedStack where
  frames : Vector StackFrame maximumCapturedStackDepth
  frameCount : ℕ := 0
  status : StackStatus := .unavailable

/-- The frames that are in use. -/
def NormalizedStack.used (stack : NormalizedStack) : List StackFrame :=
  stack.frames.toList.take stack.frameCount

inductive DictionaryError where
  | invalidArgument (what : String)
  | overflow (what : String)
  | outOfRange
  | endless
deriving DecidableEq, Repr

def validateInternedStack (stack : NormalizedStack) : Except DictionaryError Unit := do
  failIf (¬stack.status.Successful ∨ stack.frameCount = 0 ∨
      maximumCapturedStackDepth < stack.frameCount)
    (.invalidArgument "normalized stack dictionary requires a successful stack")
  failIf (∃ frame ∈ stack.used, frame.absoluteAddress = 0 ∨
      (frame.moduleId = 0 ∧ frame.moduleOffset ≠ 0) ∨ frame.flags ≠ 0)
    (.invalidArgument "normalized stack dictionary frame is invalid")

/-- `same_stack` compares the frames in use of the first with as many of the second. -/
def sameStack (left right : NormalizedStack) : Bool :=
  left.status = right.status && left.frameCount = right.frameCount &&
    left.used == right.frames.toList.take left.frameCount

/-! ## The dictionary -/

/-- `kEmptyIndex` -/
def emptyIndex : ℕ := 2 ^ 32 - 1

/-- `bucket_count_for`, with the 64-bit `std::size_t` of the agent. -/
def bucketCountFor (maximumEntries : ℕ) : Except DictionaryError ℕ := do
  failIf (maximumEntries = 0 ∨ 2 ^ 32 - 1 < maximumEntries ∨ 2 ^ 63 / 2 < maximumEntries)
    (.invalidArgument "stack dictionary capacity is out of range")
  return (maximumEntries * 2).nextPowerOfTwo

structure DictionaryEntry where
  stack : NormalizedStack
  stackId : ℕ := 0
  hash : ℕ := 0
  nextIndex : ℕ := 0

structure NormalizedStackDictionary where
  entries : List DictionaryEntry
  buckets : List ℕ
  entryCount : ℕ := 0
  nextStackId : ℕ := 1
  segmentCount : ℕ := 1

structure RawStackInternResult where
  stackId : ℕ
  inserted : Bool := false
  segmentReset : Bool := false
deriving DecidableEq, Repr

/-- `NormalizedStack` without a stack in it. -/
def blankStack : NormalizedStack where
  frames := .replicate maximumCapturedStackDepth {}

def NormalizedStackDictionary.create (maximumEntries : ℕ) :
    Except DictionaryError NormalizedStackDictionary := do
  let count ← bucketCountFor maximumEntries
  return {
    entries := .replicate maximumEntries { stack := blankStack }
    buckets := .replicate count emptyIndex }

namespace NormalizedStackDictionary

abbrev DictionaryM := EStateM DictionaryError NormalizedStackDictionary

/-- The size of the arena. -/
def capacity (dictionary : NormalizedStackDictionary) : ℕ := dictionary.entries.length

/-- `precomputed_hash & (buckets_.size() - 1)` -/
def bucketOf (dictionary : NormalizedStackDictionary) (hash : ℕ) : ℕ :=
  hash &&& (dictionary.buckets.length - 1)

/-- An entry of the same hash and the same stack. -/
def sameEntry (stack : NormalizedStack) (hash : ℕ) (entry : DictionaryEntry) : Bool :=
  entry.hash = hash && sameStack entry.stack stack

/-- The loop over the chain of a bucket; a chain has no more entries than the arena. -/
def lookup (dictionary : NormalizedStackDictionary) (stack : NormalizedStack) (hash : ℕ) :
    Except DictionaryError (Option DictionaryEntry) :=
  match dictionary.buckets[dictionary.bucketOf hash]? with
  | none => .error .outOfRange
  | some head =>
      match walk DictionaryEntry.nextIndex emptyIndex dictionary.entries
        (sameEntry stack hash) (dictionary.capacity + 1) head with
      | .found entry => .ok (some entry)
      | .missing => .ok none
      | .astray => .error .outOfRange
      | .unfinished => .error .endless

def resetSegment (dictionary : NormalizedStackDictionary) : NormalizedStackDictionary :=
  { dictionary with
    buckets := .replicate dictionary.buckets.length emptyIndex
    entryCount := 0
    segmentCount := if dictionary.segmentCount ≠ maxU64 then dictionary.segmentCount + 1
      else dictionary.segmentCount }

/-- The entry that the next stack is kept in. -/
def newEntry (dictionary : NormalizedStackDictionary) (stack : NormalizedStack) (hash head : ℕ) :
    DictionaryEntry where
  stack := stack
  stackId := dictionary.nextStackId
  hash := hash
  nextIndex := head

/-- The end of `intern`: a new entry at the head of its bucket. -/
def insert (stack : NormalizedStack) (hash : ℕ) (segmentReset : Bool) :
    DictionaryM RawStackInternResult := do
  let dictionary ← get
  check (failIf (dictionary.nextStackId = maxU64) (.overflow "stack ID space is exhausted"))
  match dictionary.buckets[dictionary.bucketOf hash]? with
  | none => throw .outOfRange
  | some head =>
      check (failIf (dictionary.capacity ≤ dictionary.entryCount) .outOfRange)
      set { dictionary with
        entries := dictionary.entries.set dictionary.entryCount
          (dictionary.newEntry stack hash head)
        buckets := dictionary.buckets.set (dictionary.bucketOf hash) dictionary.entryCount
        entryCount := dictionary.entryCount + 1
        nextStackId := dictionary.nextStackId + 1 }
      return ⟨dictionary.nextStackId, true, segmentReset⟩

def intern (stack : NormalizedStack) (precomputedHash : ℕ) : DictionaryM RawStackInternResult := do
  check (validateInternedStack stack)
  let dictionary ← get
  match ← check (dictionary.lookup stack precomputedHash) with
  | some entry => return ⟨entry.stackId, false, false⟩
  | none =>
      if dictionary.entryCount = dictionary.capacity then do
        set dictionary.resetSegment
        insert stack precomputedHash true
      else insert stack precomputedHash false

end NormalizedStackDictionary

end Noleax.Interning
