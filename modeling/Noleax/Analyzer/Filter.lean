import Mathlib.Data.List.DropRight
import Noleax.Analyzer.ModuleGlob
import Noleax.Lib.Checked
import Noleax.Trace.Event

/-!
# Event filters (`src/analyzer/filter.cpp`)

The criteria of a filter, and which events meet them. A criterion that names nothing lets
every event through.
-/

namespace Noleax.Analyzer

open Lib Trace

/-! ## Criteria and metadata -/

/-- A `std::string`. -/
abbrev Text := List Byte

structure AnalysisFilterError where
  what : String
deriving DecidableEq, Repr

structure AnalysisFilterCriteria where
  minimumSize : Option ℕ := none
  maximumSize : Option ℕ := none
  operations : List EventOperation := []
  threadIds : List ℕ := []
  apiNames : List Text := []
  modulePatterns : List Text := []
  stackModulePatterns : List Text := []
  allocationIds : List ℕ := []
  statuses : List EventStatus := []

/-- What a resolver knows of an event. -/
structure EventMetadata where
  apiName : Option Text := none
  apiModule : Option Text := none
  stackModules : List Text := []

abbrev EventMetadataResolver := Event → EventMetadata

/-! ## Names and modules -/

/-- `module_basename`: what stands after the last separator. -/
def moduleBasename (module : Text) : Text := module.rtakeWhile fun c => ¬IsSeparator c

def patternMatchesModule (pattern module : Text) : Bool :=
  moduleGlobMatches pattern
    (if ∃ c ∈ pattern, IsSeparator c then module else moduleBasename module)

def anyPatternMatches (patterns : List Text) (module : Text) : Bool :=
  patterns.any fun pattern => patternMatchesModule pattern module

namespace AnalysisFilterCriteria

variable (criteria : AnalysisFilterCriteria)

/-- `metadata_matches` -/
def metadataMatches (metadata : EventMetadata) : Bool :=
  (criteria.apiNames = [] || metadata.apiName.any fun name => name ∈ criteria.apiNames) &&
  (criteria.modulePatterns = [] ||
    metadata.apiModule.any (anyPatternMatches criteria.modulePatterns)) &&
  (criteria.stackModulePatterns = [] ||
    metadata.stackModules.any (anyPatternMatches criteria.stackModulePatterns))

/-! ## The fields of an event -/

/-- `size_matches`: an event without a size meets no bound. -/
def sizeMatches (size : Option ℕ) : Bool :=
  if criteria.minimumSize = none ∧ criteria.maximumSize = none then true
  else match size with
    | none => false
    | some size => (∀ least ∈ criteria.minimumSize, least ≤ size) ∧
        ∀ greatest ∈ criteria.maximumSize, size ≤ greatest

end AnalysisFilterCriteria

def eventSize (event : Event) : Option ℕ :=
  match event.payload with
  | .allocation payload => some payload.requestedSize
  | .reallocation payload => some payload.requestedSize
  | .vmAllocate payload =>
      some (if callSucceeded event.header.status then payload.resultSize
        else payload.requestedSize)
  | .vmFree payload => some payload.regionSize
  | .map payload => some payload.viewSize
  | _ => none

/-- An id that names an allocation, and is one of those asked for. -/
abbrev Asked (ids : List ℕ) (id : ℕ) : Prop := id ≠ 0 ∧ id ∈ ids

def allocationIdMatches (ids : List ℕ) (event : Event) : Bool :=
  if ids = [] then true
  else match event.payload with
    | .allocation payload => Asked ids payload.allocationId
    | .free payload => Asked ids payload.allocationId
    | .reallocation payload => Asked ids payload.oldAllocationId ∨ Asked ids payload.newAllocationId
    | _ => false

namespace AnalysisFilterCriteria

variable (criteria : AnalysisFilterCriteria)

def commonEventFieldsMatch (event : Event) : Bool :=
  (criteria.operations = [] || eventOperation event.payload ∈ criteria.operations) &&
  (criteria.threadIds = [] || event.header.threadId ∈ criteria.threadIds) &&
  (criteria.statuses = [] || event.header.status ∈ criteria.statuses)

/-- The checks of the constructor of a filter. -/
def validate : Except AnalysisFilterError Unit := do
  failIf (∃ least ∈ criteria.minimumSize, ∃ greatest ∈ criteria.maximumSize, greatest < least)
    ⟨"minimum size must not exceed maximum size"⟩
  failIf ([] ∈ criteria.apiNames) ⟨"API names must not contain an empty value"⟩
  failIf ([] ∈ criteria.modulePatterns) ⟨"module patterns must not contain an empty value"⟩
  failIf ([] ∈ criteria.stackModulePatterns)
    ⟨"stack module patterns must not contain an empty value"⟩

end AnalysisFilterCriteria

/-! ## Filters -/

structure AnalysisFilter where
  criteria : AnalysisFilterCriteria := {}
  valid : criteria.validate = .ok () := by rfl

namespace AnalysisFilter

/-- The constructor. -/
def create (criteria : AnalysisFilterCriteria) : Except AnalysisFilterError AnalysisFilter :=
  match hvalid : criteria.validate with
  | .ok () => .ok ⟨criteria, hvalid⟩
  | .error e => .error e

variable (filter : AnalysisFilter)

abbrev RequiresMetadata : Prop :=
  filter.criteria.apiNames ≠ [] ∨ filter.criteria.modulePatterns ≠ [] ∨
    filter.criteria.stackModulePatterns ≠ []

/-- The tests that look at the event alone. -/
def matchesFields (event : Event) : Bool :=
  filter.criteria.commonEventFieldsMatch event && filter.criteria.sizeMatches (eventSize event) &&
    allocationIdMatches filter.criteria.allocationIds event

/-- `matches_event` with the metadata of the event. -/
def matchesEvent (event : Event) (metadata : EventMetadata) : Bool :=
  filter.matchesFields event && filter.criteria.metadataMatches metadata

/-- What a filter without a resolver that needs one throws. -/
def resolverMissing : AnalysisFilterError :=
  ⟨"API and module filters require an event metadata resolver"⟩

/-- `matches_event` with a resolver, which is asked only where it matters. -/
def matchesResolved (event : Event) (resolver : Option EventMetadataResolver) :
    Except AnalysisFilterError Bool :=
  if filter.matchesFields event = false then return false
  else if ¬filter.RequiresMetadata then return true
  else match resolver with
    | none => throw resolverMissing
    | some resolver => return filter.criteria.metadataMatches (resolver event)

/-- What is known of an event where there may be no resolver. -/
def metadataOf (resolver : Option EventMetadataResolver) (event : Event) : EventMetadata :=
  match resolver with
  | none => {}
  | some resolver => resolver event

theorem metadataMatches_of_not_required (h : ¬filter.RequiresMetadata) (metadata : EventMetadata) :
    filter.criteria.metadataMatches metadata = true := by
  have hnames : filter.criteria.apiNames = [] := by
    by_contra hne
    exact h (.inl hne)
  have hmodules : filter.criteria.modulePatterns = [] := by
    by_contra hne
    exact h (.inr (.inl hne))
  have hstacks : filter.criteria.stackModulePatterns = [] := by
    by_contra hne
    exact h (.inr (.inr hne))
  simp [AnalysisFilterCriteria.metadataMatches, hnames, hmodules, hstacks]

/-- The two overloads agree, where the resolver that is needed is there. -/
theorem matchesResolved_eq (event : Event) {resolver : Option EventMetadataResolver}
    (hresolver : filter.RequiresMetadata → resolver ≠ none) :
    filter.matchesResolved event resolver =
      .ok (filter.matchesEvent event (metadataOf resolver event)) := by
  unfold matchesResolved matchesEvent
  cases filter.matchesFields event with
  | false => rfl
  | true =>
      rw [if_neg (by simp), Bool.true_and]
      by_cases hrequired : filter.RequiresMetadata
      · rw [if_neg (not_not.mpr hrequired)]
        cases resolver with
        | none => exact absurd rfl (hresolver hrequired)
        | some resolver => rfl
      · rw [if_pos hrequired, filter.metadataMatches_of_not_required hrequired]
        rfl

end AnalysisFilter

end Noleax.Analyzer
