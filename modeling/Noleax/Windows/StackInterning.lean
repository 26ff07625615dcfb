import Mathlib.Data.List.Basic
import Noleax.Windows.StackDictionary

/-!
# Interning is faithful (`src/agent/windows/stack_dictionary.cpp`)

Every chain of a bucket holds exactly the entries in use whose hash belongs to the bucket,
and leads down; so a lookup ends, and finds a stack if and only if it is there.
-/

namespace Noleax.Interning

open Lib Trace

/-! ## Stacks that are the same -/

/-- What two stacks are compared by. -/
def NormalizedStack.key (stack : NormalizedStack) : StackStatus × ℕ × List StackFrame :=
  (stack.status, stack.frameCount, stack.used)

theorem sameStack_iff {left right : NormalizedStack} :
    sameStack left right = true ↔ left.key = right.key := by
  unfold sameStack NormalizedStack.key NormalizedStack.used
  simp only [Bool.and_eq_true, decide_eq_true_eq, beq_iff_eq, Prod.mk.injEq]
  constructor
  · rintro ⟨⟨hstatus, hcount⟩, hframes⟩
    refine ⟨hstatus, hcount, ?_⟩
    rw [hframes, hcount]
  · rintro ⟨hstatus, hcount, hframes⟩
    refine ⟨⟨hstatus, hcount⟩, ?_⟩
    rw [hframes, hcount]

theorem validateInternedStack_of_key {left right : NormalizedStack} (h : left.key = right.key) :
    validateInternedStack left = validateInternedStack right := by
  obtain ⟨hstatus, hcount, hframes⟩ : left.status = right.status ∧
      left.frameCount = right.frameCount ∧ left.used = right.used := by
    simpa [NormalizedStack.key] using h
  unfold validateInternedStack
  simp only [hstatus, hcount, hframes]

/-- What an entry is looked up by. -/
def DictionaryEntry.key (entry : DictionaryEntry) : ℕ × StackStatus × ℕ × List StackFrame :=
  (entry.hash, entry.stack.key)

/-! ## The invariant -/

namespace NormalizedStackDictionary

theorem sameEntry_iff {stack : NormalizedStack} {hash : ℕ} {entry : DictionaryEntry} :
    sameEntry stack hash entry = true ↔ entry.key = (hash, stack.key) := by
  unfold sameEntry DictionaryEntry.key
  rw [Bool.and_eq_true, decide_eq_true_eq, sameStack_iff]
  exact Prod.mk_inj.symm

/-- The entries in use. -/
def live (dictionary : NormalizedStackDictionary) : List DictionaryEntry :=
  dictionary.entries.take dictionary.entryCount

/-- The entries on the way from a head. -/
abbrev ChainFrom (dictionary : NormalizedStackDictionary) (head : ℕ)
    (chain : List DictionaryEntry) : Prop :=
  Chain DictionaryEntry.nextIndex emptyIndex dictionary.entries dictionary.entryCount head chain

/-- A bucket whose chain holds exactly the entries in use that belong to it. -/
structure Bucket (dictionary : NormalizedStackDictionary) (bucket head : ℕ)
    (chain : List DictionaryEntry) : Prop where
  read : dictionary.buckets[bucket]? = some head
  starts : head = emptyIndex ∨ head < dictionary.entryCount
  follows : dictionary.ChainFrom head chain
  holds : ∀ entry, entry ∈ chain ↔
    entry ∈ dictionary.live ∧ dictionary.bucketOf entry.hash = bucket

/-- What holds of a dictionary between two calls. -/
structure Valid (dictionary : NormalizedStackDictionary) : Prop where
  nonempty : 0 < dictionary.capacity
  small : dictionary.capacity ≤ emptyIndex
  bucketed : 0 < dictionary.buckets.length
  count : dictionary.entryCount ≤ dictionary.capacity
  linked : Linked DictionaryEntry.nextIndex emptyIndex dictionary.entries dictionary.entryCount
  buckets : ∀ bucket < dictionary.buckets.length, ∃ head chain, dictionary.Bucket bucket head chain
  distinct : dictionary.live.Pairwise fun first second => first.key ≠ second.key
  ascending : dictionary.live.Pairwise fun first second => first.stackId < second.stackId
  fresh : ∀ entry ∈ dictionary.live, entry.stackId < dictionary.nextStackId
  ids : dictionary.nextStackId ≤ maxU64
  segments : dictionary.segmentCount ≤ dictionary.nextStackId
  used : 0 < dictionary.entryCount → dictionary.segmentCount < dictionary.nextStackId

variable {dictionary : NormalizedStackDictionary} {stack : NormalizedStack} {hash : ℕ}

theorem bucketOf_lt (hash : ℕ) (hbuckets : 0 < dictionary.buckets.length) :
    dictionary.bucketOf hash < dictionary.buckets.length := by
  have hle : hash &&& (dictionary.buckets.length - 1) ≤ dictionary.buckets.length - 1 :=
    Nat.and_le_right
  unfold bucketOf
  omega

/-- Chains are no longer than the arena. -/
theorem Valid.chain_length (h : dictionary.Valid) {bucket head : ℕ}
    {chain : List DictionaryEntry} (hbucket : dictionary.Bucket bucket head chain) :
    chain.length ≤ dictionary.capacity := by
  have hcount := h.count
  have hempty := Nat.le_trans h.count h.small
  rcases hbucket.starts with hhead | hhead
  · have hchain := hbucket.follows
    rw [hhead] at hchain
    have hnil := hchain.unique hempty .done
    rw [hnil]
    exact Nat.zero_le _
  · obtain ⟨chain', hchain, hlength⟩ := h.linked.exists_chain hhead
    rw [hbucket.follows.unique hempty hchain]
    omega

/-- A walk along a bucket ends, and it does not leave the arena. -/
theorem Valid.walk_eq (h : dictionary.Valid) {bucket head : ℕ} {chain : List DictionaryEntry}
    (hbucket : dictionary.Bucket bucket head chain) (accepts : DictionaryEntry → Bool) :
    walk DictionaryEntry.nextIndex emptyIndex dictionary.entries accepts
        (dictionary.capacity + 1) head = .ofOption (chain.find? accepts) :=
  hbucket.follows.walk_eq (Nat.le_trans h.count h.small) accepts
    (Nat.lt_succ_of_le (h.chain_length hbucket))

/-- A lookup finds an entry in use with the hash and the stack, if there is one. -/
theorem Valid.lookup (h : dictionary.Valid) (stack : NormalizedStack) (hash : ℕ) :
    (∃ entry ∈ dictionary.live, entry.key = (hash, stack.key) ∧
      dictionary.lookup stack hash = .ok (some entry)) ∨
    (dictionary.lookup stack hash = .ok none ∧
      ∀ entry ∈ dictionary.live, entry.key ≠ (hash, stack.key)) := by
  obtain ⟨head, chain, hbucket⟩ := h.buckets _ (bucketOf_lt hash h.bucketed)
  unfold NormalizedStackDictionary.lookup
  rw [hbucket.read]
  dsimp only
  rw [h.walk_eq hbucket]
  cases hfind : chain.find? (sameEntry stack hash) with
  | some entry =>
      have hsame := List.find?_some hfind
      have hlive := ((hbucket.holds entry).mp (List.mem_of_find?_eq_some hfind)).1
      exact .inl ⟨entry, hlive, sameEntry_iff.mp hsame, rfl⟩
  | none =>
      refine .inr ⟨rfl, ?_⟩
      intro entry hlive hkey
      have hhash : entry.hash = hash := congrArg Prod.fst hkey
      have hchain : entry ∈ chain := (hbucket.holds entry).mpr ⟨hlive, by rw [hhash]⟩
      exact List.find?_eq_none.mp hfind entry hchain (sameEntry_iff.mpr hkey)

/-! ## A new segment -/

theorem Valid.resetSegment (h : dictionary.Valid) (hused : 0 < dictionary.entryCount) :
    dictionary.resetSegment.Valid ∧
      dictionary.resetSegment.segmentCount = dictionary.segmentCount + 1 := by
  have hsegments := h.used hused
  have hids := h.ids
  have hcount : dictionary.resetSegment.segmentCount = dictionary.segmentCount + 1 := by
    unfold NormalizedStackDictionary.resetSegment
    dsimp only
    rw [if_pos (by omega)]
  refine ⟨?_, hcount⟩
  have hlive : dictionary.resetSegment.live = [] := rfl
  refine ⟨h.nonempty, h.small, ?_, Nat.zero_le _, ?_, ?_, ?_, ?_, ?_, h.ids, ?_, ?_⟩
  · show 0 < (List.replicate dictionary.buckets.length emptyIndex).length
    rw [List.length_replicate]
    exact h.bucketed
  · intro index hindex
    exact absurd hindex (Nat.not_lt_zero _)
  · intro bucket hbucket
    refine ⟨emptyIndex, [], ?_, .inl rfl, .done, ?_⟩
    · exact List.getElem?_replicate_of_lt (by simpa [NormalizedStackDictionary.resetSegment] using hbucket)
    · intro entry
      rw [hlive]
      simp
  · rw [hlive]
    exact .nil
  · rw [hlive]
    exact .nil
  · rw [hlive]
    intro entry hentry
    cases hentry
  · rw [hcount]
    exact hsegments
  · intro hpos
    exact absurd hpos (Nat.lt_irrefl 0)

theorem create_valid {maximumEntries : ℕ} (h : create maximumEntries = .ok dictionary) :
    dictionary.Valid ∧ dictionary.capacity = maximumEntries ∧ dictionary.entryCount = 0 := by
  obtain ⟨count, hcount, h⟩ := bind_eq_ok.mp h
  unfold bucketCountFor at hcount
  rw [failIf_bind_eq_ok] at hcount
  obtain ⟨hrange, hcount⟩ := hcount
  cases hcount
  cases h
  have hpower := Nat.pos_of_isPowerOfTwo (Nat.isPowerOfTwo_nextPowerOfTwo (maximumEntries * 2))
  have hcapacity : (List.replicate maximumEntries
      ({ stack := blankStack } : DictionaryEntry)).length = maximumEntries := List.length_replicate
  refine ⟨⟨?_, ?_, ?_, Nat.zero_le _, ?_, ?_, .nil, .nil, ?_, ?_, Nat.le_refl _, ?_⟩, hcapacity, rfl⟩
  · show 0 < (List.replicate maximumEntries ({ stack := blankStack } : DictionaryEntry)).length
    omega
  · show (List.replicate maximumEntries ({ stack := blankStack } : DictionaryEntry)).length ≤ _
    unfold emptyIndex
    omega
  · show 0 < (List.replicate _ emptyIndex).length
    rw [List.length_replicate]
    exact hpower
  · intro index hindex
    exact absurd hindex (Nat.not_lt_zero _)
  · intro bucket hbucket
    refine ⟨emptyIndex, [], ?_, .inl rfl, .done, ?_⟩
    · have hlt : bucket < (maximumEntries * 2).nextPowerOfTwo := by
        simpa using hbucket
      exact List.getElem?_replicate_of_lt hlt
    · intro entry
      simp [live]
  · intro entry hentry
    cases hentry
  · show 1 ≤ maxU64
    decide
  · intro hpos
    exact absurd hpos (Nat.lt_irrefl 0)

/-! ## A new entry -/

/-- The dictionary with a new entry, at the head of the bucket of its hash. -/
def pushed (dictionary : NormalizedStackDictionary) (stack : NormalizedStack) (hash head : ℕ) :
    NormalizedStackDictionary :=
  { dictionary with
    entries := dictionary.entries.set dictionary.entryCount (dictionary.newEntry stack hash head)
    buckets := dictionary.buckets.set (dictionary.bucketOf hash) dictionary.entryCount
    entryCount := dictionary.entryCount + 1
    nextStackId := dictionary.nextStackId + 1 }

section Pushed

variable {head : ℕ}

theorem entries_pushed {index : ℕ} (hindex : index < dictionary.entryCount) :
    dictionary.entries[index]? = (dictionary.pushed stack hash head).entries[index]? := by
  show _ = (dictionary.entries.set _ _)[index]?
  rw [List.getElem?_set_ne (Nat.ne_of_gt hindex)]

theorem entry_pushed (hroom : dictionary.entryCount < dictionary.capacity) :
    (dictionary.pushed stack hash head).entries[dictionary.entryCount]? =
      some (dictionary.newEntry stack hash head) :=
  List.getElem?_set_self hroom

theorem live_pushed (hroom : dictionary.entryCount < dictionary.capacity) :
    (dictionary.pushed stack hash head).live =
      dictionary.live ++ [dictionary.newEntry stack hash head] := by
  show (dictionary.entries.set _ _).take (dictionary.entryCount + 1) = _
  rw [List.take_add_one, List.take_set_of_le (Nat.le_refl _), List.getElem?_set_self hroom]
  rfl

theorem bucketOf_pushed (other : ℕ) :
    (dictionary.pushed stack hash head).bucketOf other = dictionary.bucketOf other := by
  show other &&& ((dictionary.buckets.set _ _).length - 1) = _
  rw [List.length_set]
  rfl

/-- The bucket of the hash has the new entry in front, the others stay as they were. -/
theorem Bucket.pushed {bucket other : ℕ} {chain chain' : List DictionaryEntry}
    (hroom : dictionary.entryCount < dictionary.capacity)
    (hhead : dictionary.Bucket (dictionary.bucketOf hash) head chain)
    (h : dictionary.Bucket bucket other chain') :
    ∃ head' chain'', (dictionary.pushed stack hash head).Bucket bucket head' chain'' := by
  have hlength : (dictionary.pushed stack hash head).buckets.length = dictionary.buckets.length :=
    List.length_set
  by_cases hbucket : bucket = dictionary.bucketOf hash
  · subst hbucket
    obtain ⟨hlt, -⟩ := List.getElem?_eq_some_iff.mp hhead.read
    refine ⟨dictionary.entryCount, dictionary.newEntry stack hash head :: chain, ?_, ?_, ?_, ?_⟩
    · exact List.getElem?_set_self hlt
    · exact .inr (Nat.lt_succ_self _)
    · exact hhead.follows.push (fun i hi => entries_pushed hi) (entry_pushed hroom)
    · intro entry
      rw [live_pushed hroom, bucketOf_pushed, List.mem_cons, List.mem_append, List.mem_singleton,
        hhead.holds]
      constructor
      · rintro (rfl | ⟨hlive, hbucket⟩)
        · exact ⟨.inr rfl, rfl⟩
        · exact ⟨.inl hlive, hbucket⟩
      · rintro ⟨hlive | rfl, hbucket⟩
        · exact .inr ⟨hlive, hbucket⟩
        · exact .inl rfl
  · refine ⟨other, chain', ?_, ?_, ?_, ?_⟩
    · show (dictionary.buckets.set _ _)[bucket]? = _
      rw [List.getElem?_set_ne (Ne.symm hbucket)]
      exact h.read
    · exact h.starts.imp id fun hlt => Nat.lt_succ_of_lt hlt
    · exact h.follows.mono (Nat.le_succ _) fun i hi => entries_pushed hi
    · intro entry
      rw [live_pushed hroom, bucketOf_pushed, List.mem_append, List.mem_singleton, h.holds]
      constructor
      · rintro ⟨hlive, hentry⟩
        exact ⟨.inl hlive, hentry⟩
      · rintro ⟨hlive | rfl, hentry⟩
        · exact ⟨hlive, hentry⟩
        · exact absurd hentry.symm hbucket

/-- A stack that is not there may be put in. -/
theorem Valid.pushed (h : dictionary.Valid) {chain : List DictionaryEntry}
    (hroom : dictionary.entryCount < dictionary.capacity)
    (hhead : dictionary.Bucket (dictionary.bucketOf hash) head chain)
    (hnew : ∀ entry ∈ dictionary.live, entry.key ≠ (hash, stack.key))
    (hids : dictionary.nextStackId ≠ maxU64) :
    (dictionary.pushed stack hash head).Valid := by
  have hcapacity : (dictionary.pushed stack hash head).capacity = dictionary.capacity :=
    List.length_set
  have hlength : (dictionary.pushed stack hash head).buckets.length = dictionary.buckets.length :=
    List.length_set
  have hnext := h.ids
  have hsegments := h.segments
  refine ⟨?_, ?_, ?_, ?_, ?_, ?_, ?_, ?_, ?_, ?_, ?_, ?_⟩
  · rw [hcapacity]
    exact h.nonempty
  · rw [hcapacity]
    exact h.small
  · rw [hlength]
    exact h.bucketed
  · rw [hcapacity]
    exact hroom
  · exact h.linked.push hhead.starts (fun i hi => entries_pushed hi) (entry_pushed hroom)
  · intro bucket hbucket
    rw [hlength] at hbucket
    obtain ⟨other, chain', hother⟩ := h.buckets bucket hbucket
    exact Bucket.pushed hroom hhead hother
  · rw [live_pushed hroom, List.pairwise_append]
    refine ⟨h.distinct, List.pairwise_singleton _ _, ?_⟩
    intro first hfirst second hsecond
    rw [List.mem_singleton.mp hsecond]
    exact hnew first hfirst
  · rw [live_pushed hroom, List.pairwise_append]
    refine ⟨h.ascending, List.pairwise_singleton _ _, ?_⟩
    intro first hfirst second hsecond
    rw [List.mem_singleton.mp hsecond]
    exact h.fresh first hfirst
  · rw [live_pushed hroom]
    intro entry hentry
    rcases List.mem_append.mp hentry with hold | hlast
    · exact Nat.lt_succ_of_lt (h.fresh entry hold)
    · rw [List.mem_singleton.mp hlast]
      exact Nat.lt_succ_self _
  · show dictionary.nextStackId + 1 ≤ maxU64
    omega
  · exact Nat.le_succ_of_le hsegments
  · intro _
    exact Nat.lt_succ_of_le hsegments

end Pushed

/-! ## One call -/

/-- The dictionary an entry is put into: a full one is emptied before. -/
inductive Base (dictionary : NormalizedStackDictionary) : NormalizedStackDictionary → Bool → Prop
  | roomy (hroom : dictionary.entryCount < dictionary.capacity) : Base dictionary dictionary false
  | full (hfull : dictionary.entryCount = dictionary.capacity) :
      Base dictionary dictionary.resetSegment true

/-- What a call does. -/
inductive Interned (dictionary : NormalizedStackDictionary) (stack : NormalizedStack) (hash : ℕ) :
    EStateM.Result DictionaryError NormalizedStackDictionary RawStackInternResult → Prop
  | invalid {e : DictionaryError} (hinvalid : validateInternedStack stack = .error e) :
      Interned dictionary stack hash (.error e dictionary)
  | found {entry : DictionaryEntry} (hvalidate : validateInternedStack stack = .ok ())
      (hlive : entry ∈ dictionary.live) (hkey : entry.key = (hash, stack.key)) :
      Interned dictionary stack hash (.ok ⟨entry.stackId, false, false⟩ dictionary)
  | exhausted {base : NormalizedStackDictionary} {reset : Bool} {e : DictionaryError}
      (hbase : Base dictionary base reset) : Interned dictionary stack hash (.error e base)
  | inserted {base : NormalizedStackDictionary} {reset : Bool} {head : ℕ}
      (hvalidate : validateInternedStack stack = .ok ()) (hbase : Base dictionary base reset)
      (hroom : base.entryCount < base.capacity)
      (hvalid : (base.pushed stack hash head).Valid) :
      Interned dictionary stack hash
        (.ok ⟨dictionary.nextStackId, true, reset⟩ (base.pushed stack hash head))

theorem Base.valid {base : NormalizedStackDictionary} {reset : Bool}
    (hbase : Base dictionary base reset) (h : dictionary.Valid) :
    base.Valid ∧ base.entryCount < base.capacity ∧ base.nextStackId = dictionary.nextStackId ∧
      ∀ entry ∈ base.live, entry ∈ dictionary.live := by
  cases hbase with
  | roomy hroom => exact ⟨h, hroom, rfl, fun _ hentry => hentry⟩
  | full hfull =>
      have hpositive := h.nonempty
      refine ⟨(h.resetSegment (by omega)).1, hpositive, rfl, ?_⟩
      intro entry hentry
      cases hentry

theorem Valid.insert {base : NormalizedStackDictionary} (h : base.Valid)
    (hroom : base.entryCount < base.capacity) (stack : NormalizedStack) (hash : ℕ) (reset : Bool)
    (hnew : ∀ entry ∈ base.live, entry.key ≠ (hash, stack.key)) :
    (∃ e, NormalizedStackDictionary.insert stack hash reset base = .error e base) ∨
      ∃ head, NormalizedStackDictionary.insert stack hash reset base =
          .ok ⟨base.nextStackId, true, reset⟩ (base.pushed stack hash head) ∧
        (base.pushed stack hash head).Valid := by
  obtain ⟨head, chain, hbucket⟩ := h.buckets _ (bucketOf_lt hash h.bucketed)
  by_cases hids : base.nextStackId = maxU64
  · refine .inl ⟨.overflow "stack ID space is exhausted", ?_⟩
    unfold NormalizedStackDictionary.insert
    rw [run_bind]
    show EStateM.bind (check (failIf (base.nextStackId = maxU64) _)) _ base = _
    unfold failIf
    rw [if_pos hids]
    rfl
  · refine .inr ⟨head, ?_, h.pushed hroom hbucket hnew hids⟩
    unfold NormalizedStackDictionary.insert
    rw [run_bind]
    show EStateM.bind (check (failIf (base.nextStackId = maxU64) _)) _ base = _
    unfold failIf
    rw [if_neg hids]
    rw [← pure_eq_ok, show check (pure ()) = (pure () : DictionaryM Unit) from rfl]
    dsimp only [EStateM.bind, pure, EStateM.pure]
    rw [hbucket.read]
    show EStateM.bind (check (if base.capacity ≤ base.entryCount then _ else _)) _ base = _
    rw [if_neg (Nat.not_le.mpr hroom)]
    rfl

/-- What is left of `intern` when the stack is valid. -/
theorem intern_of_valid (hvalidate : validateInternedStack stack = .ok ()) :
    intern stack hash dictionary =
      match dictionary.lookup stack hash with
      | .error e => .error e dictionary
      | .ok (some entry) => .ok ⟨entry.stackId, false, false⟩ dictionary
      | .ok none =>
          if dictionary.entryCount = dictionary.capacity then
            NormalizedStackDictionary.insert stack hash true dictionary.resetSegment
          else NormalizedStackDictionary.insert stack hash false dictionary := by
  unfold intern
  rw [hvalidate, run_bind, run_check_ok]
  dsimp only
  rw [run_bind, run_get]
  dsimp only
  rw [run_bind]
  cases dictionary.lookup stack hash with
  | error e => rfl
  | ok found =>
      rw [run_check_ok]
      cases found with
      | some entry => rfl
      | none =>
          dsimp only
          rw [run_ite]
          split <;> rfl

/-- Every call is one of these. -/
theorem Valid.intern (h : dictionary.Valid) (stack : NormalizedStack) (hash : ℕ) :
    Interned dictionary stack hash (intern stack hash dictionary) := by
  cases hvalidate : validateInternedStack stack with
  | error e =>
      have hthrows : NormalizedStackDictionary.intern stack hash dictionary =
          .error e dictionary := by
        unfold NormalizedStackDictionary.intern
        rw [hvalidate, run_bind, run_check_error]
      rw [hthrows]
      exact .invalid hvalidate
  | ok _ =>
      have hinsert : ∀ base reset, Base dictionary base reset →
          (∀ entry ∈ dictionary.live, entry.key ≠ (hash, stack.key)) →
          Interned dictionary stack hash
            (NormalizedStackDictionary.insert stack hash reset base) := by
        intro base reset hbase hnew
        obtain ⟨hvalid, hroom, hnext, hlive⟩ := hbase.valid h
        rcases hvalid.insert hroom stack hash reset
          (fun entry hentry => hnew entry (hlive entry hentry)) with
          ⟨e, hthrows⟩ | ⟨head, hreturns, hpushed⟩
        · rw [hthrows]
          exact .exhausted hbase
        · rw [hreturns, hnext]
          exact .inserted hvalidate hbase hroom hpushed
      rw [intern_of_valid hvalidate]
      rcases h.lookup stack hash with ⟨entry, hlive, hkey, hlookup⟩ | ⟨hlookup, hnew⟩
      · rw [hlookup]
        exact .found hvalidate hlive hkey
      · rw [hlookup]
        dsimp only
        split
        · rename_i hfull
          exact hinsert _ _ (.full hfull) hnew
        · rename_i hroom
          exact hinsert _ _ (.roomy (Nat.lt_of_le_of_ne h.count hroom)) hnew

/-- The calls that reset the segment. -/
def Resets (dictionary : NormalizedStackDictionary) (stack : NormalizedStack) (hash : ℕ) : Prop :=
  validateInternedStack stack = .ok () ∧ dictionary.entryCount = dictionary.capacity ∧
    ∀ entry ∈ dictionary.live, entry.key ≠ (hash, stack.key)

theorem Valid.segment_insert {base : NormalizedStackDictionary} (h : base.Valid)
    (hroom : base.entryCount < base.capacity) (reset : Bool)
    (hnew : ∀ entry ∈ base.live, entry.key ≠ (hash, stack.key)) :
    (exitState (NormalizedStackDictionary.insert stack hash reset) base).segmentCount =
      base.segmentCount := by
  rcases h.insert hroom stack hash reset hnew with ⟨e, hthrows⟩ | ⟨head, hreturns, -⟩
  · rw [exitState_of_error hthrows]
  · rw [exitState_of_ok hreturns]
    rfl

/-- A segment ends with a call that resets it, and with no other. -/
theorem Valid.segment_intern (h : dictionary.Valid) (stack : NormalizedStack) (hash : ℕ) :
    (dictionary.Resets stack hash →
      (exitState (NormalizedStackDictionary.intern stack hash) dictionary).segmentCount =
        dictionary.segmentCount + 1) ∧
    (¬dictionary.Resets stack hash →
      (exitState (NormalizedStackDictionary.intern stack hash) dictionary).segmentCount =
        dictionary.segmentCount) := by
  cases hvalidate : validateInternedStack stack with
  | error e =>
      have hthrows : NormalizedStackDictionary.intern stack hash dictionary =
          .error e dictionary := by
        unfold NormalizedStackDictionary.intern
        rw [hvalidate, run_bind, run_check_error]
      rw [exitState_of_error hthrows]
      refine ⟨?_, fun _ => rfl⟩
      intro hresets
      rw [hresets.1] at hvalidate
      cases hvalidate
  | ok _ =>
      have hintern := @intern_of_valid dictionary stack hash hvalidate
      rcases h.lookup stack hash with ⟨entry, hlive, hkey, hlookup⟩ | ⟨hlookup, hnew⟩
      · rw [hlookup] at hintern
        rw [exitState_of_ok hintern]
        refine ⟨?_, fun _ => rfl⟩
        intro hresets
        exact absurd hkey (hresets.2.2 entry hlive)
      · rw [hlookup] at hintern
        dsimp only at hintern
        by_cases hfull : dictionary.entryCount = dictionary.capacity
        · have hpositive := h.nonempty
          obtain ⟨hvalid, hsegment⟩ := h.resetSegment (by omega)
          have hinsert : (exitState (NormalizedStackDictionary.insert stack hash true)
              dictionary.resetSegment).segmentCount = dictionary.resetSegment.segmentCount := by
            refine hvalid.segment_insert hpositive true ?_
            intro entry hentry
            cases hentry
          rw [if_pos hfull] at hintern
          have hexit : exitState (NormalizedStackDictionary.intern stack hash) dictionary =
              exitState (NormalizedStackDictionary.insert stack hash true)
                dictionary.resetSegment := by
            unfold exitState
            rw [hintern]
          rw [hexit, hinsert, hsegment]
          exact ⟨fun _ => rfl, fun hresets => absurd ⟨hvalidate, hfull, hnew⟩ hresets⟩
        · have hroom := Nat.lt_of_le_of_ne h.count hfull
          rw [if_neg hfull] at hintern
          have hexit : exitState (NormalizedStackDictionary.intern stack hash) dictionary =
              exitState (NormalizedStackDictionary.insert stack hash false) dictionary := by
            unfold exitState
            rw [hintern]
          rw [hexit, h.segment_insert hroom false hnew]
          exact ⟨fun hresets => absurd hresets.2.1 hfull, fun _ => rfl⟩

theorem Valid.capacity_intern (h : dictionary.Valid) (stack : NormalizedStack) (hash : ℕ) :
    (exitState (NormalizedStackDictionary.intern stack hash) dictionary).capacity =
      dictionary.capacity := by
  have hbase : ∀ {base reset}, Base dictionary base reset →
      base.capacity = dictionary.capacity := by
    intro base reset hbase
    cases hbase <;> rfl
  have hintern := h.intern stack hash
  unfold exitState
  revert hintern
  generalize NormalizedStackDictionary.intern stack hash dictionary = result
  intro hintern
  cases hintern with
  | invalid hinvalid => rfl
  | found hvalidate hlive hkey => rfl
  | exhausted h => exact hbase h
  | inserted hvalidate h hroom hvalid => exact List.length_set.trans (hbase h)

end NormalizedStackDictionary

/-- Numbers belong to one entry. -/
theorem NormalizedStackDictionary.Valid.entry_unique {dictionary : NormalizedStackDictionary}
    (h : dictionary.Valid) {first second : DictionaryEntry} (hfirst : first ∈ dictionary.live)
    (hsecond : second ∈ dictionary.live) (hids : first.stackId = second.stackId) :
    first = second := by
  have hnodup : (dictionary.live.map DictionaryEntry.stackId).Nodup := by
    rw [List.Nodup, List.pairwise_map]
    exact h.ascending.imp Nat.ne_of_lt
  exact List.inj_on_of_nodup_map hnodup hfirst hsecond hids

theorem NormalizedStackDictionary.Valid.key_unique {dictionary : NormalizedStackDictionary}
    (h : dictionary.Valid) {first second : DictionaryEntry} (hfirst : first ∈ dictionary.live)
    (hsecond : second ∈ dictionary.live) (hkeys : first.key = second.key) : first = second := by
  have hnodup : (dictionary.live.map DictionaryEntry.key).Nodup := by
    rw [List.Nodup, List.pairwise_map]
    exact h.distinct
  exact List.inj_on_of_nodup_map hnodup hfirst hsecond hkeys

/-! ## Runs -/

/-- A call that returned: its arguments, its result, and the segment it left. -/
structure Served where
  stack : NormalizedStack
  hash : ℕ
  result : RawStackInternResult
  segment : ℕ

structure DictionaryRun where
  dictionary : NormalizedStackDictionary
  served : List Served := []

namespace DictionaryRun

open NormalizedStackDictionary

def serve (run : DictionaryRun) (call : NormalizedStack × ℕ) : DictionaryRun :=
  match intern call.1 call.2 run.dictionary with
  | .ok result dictionary =>
      ⟨dictionary, run.served ++ [⟨call.1, call.2, result, dictionary.segmentCount⟩]⟩
  | .error _ dictionary => { run with dictionary := dictionary }

def calls (created : NormalizedStackDictionary) (calls : List (NormalizedStack × ℕ)) :
    DictionaryRun :=
  calls.foldl serve ⟨created, []⟩

/-- What the calls that returned say of the entries in use. -/
structure Recorded (run : DictionaryRun) : Prop where
  valid : run.dictionary.Valid
  validated : ∀ served ∈ run.served, validateInternedStack served.stack = .ok ()
  issued : ∀ served ∈ run.served, served.result.stackId < run.dictionary.nextStackId
  segments : ∀ served ∈ run.served, served.segment ≤ run.dictionary.segmentCount
  agrees : ∀ served ∈ run.served, ∀ entry ∈ run.dictionary.live,
    entry.stackId = served.result.stackId → entry.stack.key = served.stack.key
  injective : ∀ first ∈ run.served, ∀ second ∈ run.served,
    first.result.stackId = second.result.stackId → first.stack.key = second.stack.key
  present : ∀ served ∈ run.served, served.segment = run.dictionary.segmentCount →
    ∃ entry ∈ run.dictionary.live, entry.stackId = served.result.stackId ∧
      entry.key = (served.hash, served.stack.key)
  ascending : (run.served.filter (·.result.inserted)).Pairwise fun first second =>
    first.result.stackId < second.result.stackId

variable {run : DictionaryRun} {base : NormalizedStackDictionary} {reset : Bool}
  {stack : NormalizedStack} {hash : ℕ}

theorem Recorded.start {created : NormalizedStackDictionary} (h : created.Valid) :
    Recorded ⟨created, []⟩ := by
  refine ⟨h, ?_, ?_, ?_, ?_, ?_, ?_, .nil⟩
  all_goals
    intro served hserved
    cases hserved

/-- A reset forgets the entries, and no call of the new segment has returned yet. -/
theorem Recorded.onBase (h : Recorded run) (hbase : Base run.dictionary base reset) :
    Recorded { run with dictionary := base } := by
  cases hbase with
  | roomy hroom => exact h
  | full hfull =>
      have hpositive := h.valid.nonempty
      obtain ⟨hvalid, hsegment⟩ := h.valid.resetSegment (by omega)
      refine ⟨hvalid, h.validated, h.issued, ?_, ?_, h.injective, ?_, h.ascending⟩
      · intro served hserved
        rw [hsegment]
        exact Nat.le_succ_of_le (h.segments served hserved)
      · intro served hserved entry hentry
        cases hentry
      · intro served hserved heq
        have hle := h.segments served hserved
        change served.segment = run.dictionary.resetSegment.segmentCount at heq
        omega

/-- A call that returned the number of an entry in use with its hash and its stack. -/
theorem Recorded.snoc (h : Recorded run) {new : Served} {entry : DictionaryEntry}
    (hvalidate : validateInternedStack new.stack = .ok ())
    (hlive : entry ∈ run.dictionary.live) (hid : entry.stackId = new.result.stackId)
    (hkey : entry.key = (new.hash, new.stack.key))
    (hsegment : new.segment = run.dictionary.segmentCount)
    (hlast : new.result.inserted = true → ∀ old ∈ run.served,
      old.result.stackId < new.result.stackId) :
    Recorded { run with served := run.served ++ [new] } := by
  have hstack : entry.stack.key = new.stack.key := (Prod.mk.inj hkey).2
  have hfresh := h.valid.fresh entry hlive
  refine ⟨h.valid, ?_, ?_, ?_, ?_, ?_, ?_, ?_⟩
  · intro served hserved
    rcases List.mem_append.mp hserved with hold | hnew
    · exact h.validated served hold
    · rw [List.mem_singleton.mp hnew]
      exact hvalidate
  · intro served hserved
    rcases List.mem_append.mp hserved with hold | hnew
    · exact h.issued served hold
    · rw [List.mem_singleton.mp hnew, ← hid]
      exact hfresh
  · intro served hserved
    rcases List.mem_append.mp hserved with hold | hnew
    · exact h.segments served hold
    · rw [List.mem_singleton.mp hnew]
      exact Nat.le_of_eq hsegment
  · intro served hserved other hother hids
    rcases List.mem_append.mp hserved with hold | hnew
    · exact h.agrees served hold other hother hids
    · rw [List.mem_singleton.mp hnew] at hids ⊢
      rw [h.valid.entry_unique hother hlive (hids.trans hid.symm)]
      exact hstack
  · intro first hfirst second hsecond hids
    rcases List.mem_append.mp hfirst with hfirst | hfirst
    · rcases List.mem_append.mp hsecond with hsecond | hsecond
      · exact h.injective first hfirst second hsecond hids
      · rw [List.mem_singleton.mp hsecond] at hids ⊢
        rw [← hstack, h.agrees first hfirst entry hlive (hid.trans hids.symm)]
    · rw [List.mem_singleton.mp hfirst] at hids ⊢
      rcases List.mem_append.mp hsecond with hsecond | hsecond
      · rw [← hstack, h.agrees second hsecond entry hlive (hid.trans hids)]
      · rw [List.mem_singleton.mp hsecond]
  · intro served hserved hsame
    rcases List.mem_append.mp hserved with hold | hnew
    · exact h.present served hold hsame
    · rw [List.mem_singleton.mp hnew]
      exact ⟨entry, hlive, hid, hkey⟩
  · rw [List.filter_append, List.pairwise_append]
    refine ⟨h.ascending, ?_, ?_⟩
    · rw [List.filter_singleton]
      cases new.result.inserted with
      | true => exact List.pairwise_singleton _ _
      | false => exact .nil
    · intro first hfirst second hsecond
      obtain ⟨hmem, hinserted⟩ := List.mem_filter.mp hsecond
      rw [List.mem_singleton.mp hmem] at hinserted ⊢
      exact hlast hinserted first (List.mem_filter.mp hfirst).1

/-- A new entry has a number that was not used. -/
theorem Recorded.pushed (h : Recorded run) {head : ℕ}
    (hroom : run.dictionary.entryCount < run.dictionary.capacity)
    (hvalid : (run.dictionary.pushed stack hash head).Valid) :
    Recorded { run with dictionary := run.dictionary.pushed stack hash head } := by
  refine ⟨hvalid, h.validated, ?_, h.segments, ?_, h.injective, ?_, h.ascending⟩
  · intro served hserved
    exact Nat.lt_succ_of_lt (h.issued served hserved)
  · intro served hserved entry hentry hids
    rw [live_pushed hroom] at hentry
    rcases List.mem_append.mp hentry with hold | hnew
    · exact h.agrees served hserved entry hold hids
    · rw [List.mem_singleton.mp hnew] at hids
      have hissued := h.issued served hserved
      exact absurd hids (Nat.ne_of_gt hissued)
  · intro served hserved hsegment
    obtain ⟨entry, hlive, hentry⟩ := h.present served hserved hsegment
    refine ⟨entry, ?_, hentry⟩
    rw [live_pushed hroom]
    exact List.mem_append_left _ hlive

theorem Recorded.serve (h : Recorded run) (call : NormalizedStack × ℕ) :
    Recorded (run.serve call) := by
  have hcall := h.valid.intern call.1 call.2
  unfold DictionaryRun.serve
  revert hcall
  generalize intern call.1 call.2 run.dictionary = result
  intro hcall
  cases hcall with
  | invalid hinvalid => exact h
  | found hvalidate hlive hkey =>
      exact h.snoc hvalidate hlive rfl hkey rfl fun hinserted => by cases hinserted
  | exhausted hbase => exact h.onBase hbase
  | @inserted base reset head hvalidate hbase hroom hvalid =>
      have hpushed := (h.onBase hbase).pushed hroom hvalid
      have hnext := (hbase.valid h.valid).2.2.1
      refine @Recorded.snoc _ hpushed _ (base.newEntry call.1 call.2 head) hvalidate ?_ hnext rfl
        rfl ?_
      · show _ ∈ (base.pushed call.1 call.2 head).live
        rw [live_pushed hroom]
        exact List.mem_append_right _ (List.mem_singleton_self _)
      · intro _ old hold
        exact h.issued old hold

theorem serve_dictionary (run : DictionaryRun) (call : NormalizedStack × ℕ) :
    (run.serve call).dictionary = exitState (intern call.1 call.2) run.dictionary := by
  unfold DictionaryRun.serve exitState
  cases intern call.1 call.2 run.dictionary <;> rfl

theorem Recorded.calls {created : NormalizedStackDictionary} (h : created.Valid)
    (calls : List (NormalizedStack × ℕ)) : Recorded (DictionaryRun.calls created calls) ∧
      (DictionaryRun.calls created calls).dictionary.capacity = created.capacity := by
  have hfold : ∀ run, Recorded run → Recorded (calls.foldl DictionaryRun.serve run) ∧
      (calls.foldl DictionaryRun.serve run).dictionary.capacity = run.dictionary.capacity := by
    induction calls with
    | nil => exact fun _ h => ⟨h, rfl⟩
    | cons call calls ih =>
        intro run h
        obtain ⟨hrecorded, hcapacity⟩ := ih _ (h.serve call)
        rw [serve_dictionary, h.valid.capacity_intern] at hcapacity
        exact ⟨hrecorded, hcapacity⟩
  exact hfold _ (.start h)

end DictionaryRun

/-! ## Faithfulness -/

open NormalizedStackDictionary

/-- What is said of a run of calls and the dictionary it leaves. -/
structure Faithful (maximumEntries : ℕ) (run : DictionaryRun) : Prop where
  /-- A number stands for one stack. -/
  injective : ∀ first ∈ run.served, ∀ second ∈ run.served,
    first.result.stackId = second.result.stackId →
      first.stack.status = second.stack.status ∧
      first.stack.frameCount = second.stack.frameCount ∧ first.stack.used = second.stack.used
  /-- In its segment a stack keeps its number. -/
  stable : ∀ served ∈ run.served, served.segment = run.dictionary.segmentCount →
    ∀ stack, stack.key = served.stack.key → intern stack served.hash run.dictionary =
      .ok ⟨served.result.stackId, false, false⟩ run.dictionary
  /-- A segment ends with a call that resets it, and with no other. -/
  segments : ∀ stack hash,
    (run.dictionary.Resets stack hash →
      (exitState (intern stack hash) run.dictionary).segmentCount =
        run.dictionary.segmentCount + 1) ∧
    (¬run.dictionary.Resets stack hash →
      (exitState (intern stack hash) run.dictionary).segmentCount = run.dictionary.segmentCount)
  /-- The numbers of new entries ascend, across segments. -/
  ascending : (run.served.filter (·.result.inserted)).Pairwise fun first second =>
    first.result.stackId < second.result.stackId
  capacity : run.dictionary.capacity = maximumEntries
  count : run.dictionary.entryCount ≤ maximumEntries
  /-- The indices of buckets and chains are those of entries in use. -/
  heads : ∀ head ∈ run.dictionary.buckets, head = emptyIndex ∨ head < run.dictionary.entryCount
  links : ∀ entry ∈ run.dictionary.live,
    entry.nextIndex = emptyIndex ∨ entry.nextIndex < run.dictionary.entryCount
  /-- A walk along a bucket, for whatever entry, ends within the arena. -/
  walks : ∀ head ∈ run.dictionary.buckets, ∀ accepts,
    ∃ found, walk DictionaryEntry.nextIndex emptyIndex run.dictionary.entries accepts
      (run.dictionary.capacity + 1) head = .ofOption found

theorem NormalizedStackDictionary.Valid.bucket_of_mem {dictionary : NormalizedStackDictionary}
    (h : dictionary.Valid) {head : ℕ} (hhead : head ∈ dictionary.buckets) :
    ∃ bucket chain, dictionary.Bucket bucket head chain := by
  obtain ⟨bucket, hbucket, hread⟩ := List.getElem_of_mem hhead
  obtain ⟨other, chain, hother⟩ := h.buckets bucket hbucket
  have hsame : some head = some other := by
    rw [← hother.read, List.getElem?_eq_getElem hbucket, hread]
  cases hsame
  exact ⟨bucket, chain, hother⟩

/-- Interning is faithful, for every capacity, every sequence of calls and every hash. -/
theorem intern_faithful {maximumEntries : ℕ} {created : NormalizedStackDictionary}
    (hcreate : create maximumEntries = .ok created) (calls : List (NormalizedStack × ℕ)) :
    Faithful maximumEntries (DictionaryRun.calls created calls) := by
  obtain ⟨hvalid, hcapacity, -⟩ := create_valid hcreate
  obtain ⟨h, hsame⟩ := DictionaryRun.Recorded.calls hvalid calls
  have hcapacity := hsame.trans hcapacity
  refine ⟨?_, ?_, h.valid.segment_intern, h.ascending, hcapacity, ?_, ?_, ?_, ?_⟩
  · intro first hfirst second hsecond hids
    obtain ⟨hstatus, hrest⟩ := Prod.mk.inj (h.injective first hfirst second hsecond hids)
    exact ⟨hstatus, (Prod.mk.inj hrest).1, (Prod.mk.inj hrest).2⟩
  · intro served hserved hsegment stack hstack
    obtain ⟨entry, hlive, hid, hkey⟩ := h.present served hserved hsegment
    have hvalidate := (validateInternedStack_of_key hstack).trans (h.validated served hserved)
    rw [← hstack] at hkey
    rw [intern_of_valid hvalidate]
    rcases h.valid.lookup stack served.hash with ⟨other, hother, hsame, hlookup⟩ | ⟨-, hnew⟩
    · rw [hlookup, h.valid.key_unique hother hlive (hsame.trans hkey.symm), ← hid]
    · exact absurd hkey (hnew entry hlive)
  · rw [← hcapacity]
    exact h.valid.count
  · intro head hhead
    obtain ⟨bucket, chain, hbucket⟩ := h.valid.bucket_of_mem hhead
    exact hbucket.starts
  · intro entry hentry
    obtain ⟨index, hindex, hread⟩ := List.getElem_of_mem hentry
    have hlt : index < (DictionaryRun.calls created calls).dictionary.entryCount :=
      Nat.lt_of_lt_of_le hindex (List.length_take_le _ _)
    obtain ⟨other, hother, hdown⟩ := h.valid.linked index hlt
    have hsame : entry = other := by
      have hget : (DictionaryRun.calls created calls).dictionary.live[index]? = some other :=
        (List.getElem?_take_of_lt hlt).trans hother
      rw [List.getElem?_eq_getElem hindex, hread] at hget
      exact Option.some.inj hget
    rw [hsame]
    exact hdown.imp id fun hdown => Nat.lt_trans hdown hlt
  · intro head hhead accepts
    obtain ⟨bucket, chain, hbucket⟩ := h.valid.bucket_of_mem hhead
    exact ⟨_, h.valid.walk_eq hbucket accepts⟩

/-- A stack of one frame. -/
def oneFrame (address : ℕ) : NormalizedStack where
  frames := (Vector.replicate maximumCapturedStackDepth {}).set 0
    { absoluteAddress := address } (by decide)
  frameCount := 1
  status := .complete

/-- Two stacks that collide, in an arena for one. -/
theorem intern_faithful_collision : ∃ created, create 1 = .ok created ∧
    Faithful 1 (DictionaryRun.calls created [(oneFrame 16, 7), (oneFrame 32, 7),
      (oneFrame 32, 7), (oneFrame 16, 7)]) := by
  have hcreate : ∃ created, create 1 = .ok created := ⟨_, rfl⟩
  obtain ⟨created, hcreate⟩ := hcreate
  exact ⟨created, hcreate, intern_faithful hcreate _⟩

end Noleax.Interning
