import Noleax.Trace.Event
import Noleax.Trace.IntervalSet

/-!
# `IntervalSet` as a partial map

Whatever was inserted and subtracted, the entries hold the partial map from addresses to
values that overwriting and erasing the same ranges builds. Entries are never merged: each
lies inside the range of one insert, and its ends stay until the byte beside them is removed.
-/

namespace Noleax.Trace

open Lib Lib.Fragment

variable {α : Type*}

/-! ## The abstract map -/

/-- A partial map from addresses to values. -/
abbrev AddressMap (α : Type*) := ℕ → Option α

namespace AddressMap

def overwrite (m : AddressMap α) (b e : ℕ) (v : α) : AddressMap α := fun a =>
  if b ≤ a ∧ a < e then some v else m a

def erase (m : AddressMap α) (b e : ℕ) : AddressMap α := fun a =>
  if b ≤ a ∧ a < e then none else m a

end AddressMap

/-! ## Runs of the two mutations -/

/-- A call of `insert` or `subtract`. -/
inductive IntervalCall (α : Type*) where
  | insert (b e : ℕ) (v : α)
  | subtract (b e : ℕ)

namespace IntervalCall

def start : IntervalCall α → ℕ
  | insert b _ _ | subtract b _ => b

def stop : IntervalCall α → ℕ
  | insert _ e _ | subtract _ e => e

/-- The entry the call adds. -/
def added : IntervalCall α → Option (Fragment α)
  | insert b e v => some ⟨b, e, v⟩
  | subtract _ _ => none

/-- `begin < end`, two 64-bit addresses. -/
abbrev Proper (call : IntervalCall α) : Prop := call.start < call.stop ∧ call.stop ≤ maxU64

/-- The byte is in the range of the call. -/
abbrev Covers (call : IntervalCall α) (a : ℕ) : Prop := call.start ≤ a ∧ a < call.stop

/-- The set after the call, and the pieces it returns. -/
def apply (s : IntervalSet α) : IntervalCall α → IntervalSet α × List (Fragment α)
  | insert b e v => s.insert b e v
  | subtract b e => s.subtract b e

/-- What the call means. -/
def denote (m : AddressMap α) : IntervalCall α → AddressMap α
  | insert b e v => m.overwrite b e v
  | subtract b e => m.erase b e

end IntervalCall

open IntervalCall

/-- The set after a sequence of calls. -/
def runCalls (calls : List (IntervalCall α)) : IntervalSet α :=
  calls.foldl (fun s call => (call.apply s).1) .empty

/-- The map the same calls build. -/
def denoteCalls (calls : List (IntervalCall α)) : AddressMap α :=
  calls.foldl denote fun _ => none

theorem runCalls_append (calls : List (IntervalCall α)) (call : IntervalCall α) :
    runCalls (calls ++ [call]) = (call.apply (runCalls calls)).1 := by
  unfold runCalls
  rw [List.foldl_append]
  rfl

theorem denoteCalls_append (calls : List (IntervalCall α)) (call : IntervalCall α) :
    denoteCalls (calls ++ [call]) = call.denote (denoteCalls calls) := by
  unfold denoteCalls
  rw [List.foldl_append]
  rfl

/-! ## The number of bytes -/

/-- The loop of `total_bytes`, in 64 bits. -/
def IntervalSet.totalBytesLoop (s : IntervalSet α) : ℕ :=
  s.frags.foldl (fun total f => (total + (f.stop - f.start)) % 2 ^ 64) 0

/-- The accumulator does not wrap. -/
theorem foldl_totalBytes {fs : List (Fragment α)} {total : ℕ}
    (h : total + totalBytes fs < 2 ^ 64) :
    fs.foldl (fun total f => (total + (f.stop - f.start)) % 2 ^ 64) total =
      total + totalBytes fs := by
  induction fs generalizing total with
  | nil => rfl
  | cons f fs ih =>
      rw [totalBytes_cons] at h ⊢
      have hsize : f.size = f.stop - f.start := rfl
      have hstep : (total + (f.stop - f.start)) % 2 ^ 64 = total + f.size := by
        rw [← hsize]
        exact Nat.mod_eq_of_lt (by omega)
      rw [List.foldl_cons, hstep, ih (by omega), Nat.add_assoc]

theorem totalBytesLoop_eq {s : IntervalSet α} (h : ∀ f ∈ s.frags, f.stop ≤ maxU64) :
    s.totalBytesLoop = totalBytes s.frags := by
  have hle := Layout.totalBytes_le s.layout (fun f _ => Nat.zero_le f.start) h (Nat.zero_le _)
  unfold IntervalSet.totalBytesLoop
  rw [foldl_totalBytes]
  · exact Nat.zero_add _
  · unfold maxU64 at hle
    omega

/-! ## One call -/

section Call

variable {s : IntervalSet α} {call : IntervalCall α}

/-- The entries of the set that a call leaves, cut to what is outside its range. -/
theorem mem_apply (hproper : call.Proper) {g : Fragment α} :
    g ∈ (call.apply s).1.frags ↔
      call.added = some g ∨ ∃ f ∈ s.frags, g ∈ f.cut call.start call.stop := by
  cases call with
  | insert b e v =>
      have hbe : b < e := hproper.1
      show g ∈ (s.insert b e v).1.frags ↔ some ⟨b, e, v⟩ = some g ∨ _
      rw [IntervalSet.insert_frags s hbe, mem_place, mem_cutAll, Option.some.injEq]
      exact or_congr_left eq_comm
  | subtract b e =>
      show g ∈ (s.subtract b e).1.frags ↔ none = some g ∨ _
      rw [IntervalSet.subtract_frags, mem_cutAll]
      exact (or_iff_right nofun).symm

/-- The pieces a call returns are the old entries, clipped to its range. -/
theorem apply_removed (s : IntervalSet α) (call : IntervalCall α) :
    (call.apply s).2 = clipAll call.start call.stop s.frags := by
  cases call with
  | insert b e v =>
      show (s.insert b e v).2 = _
      unfold IntervalSet.insert
      dsimp only
      split
      · exact s.subtract_removed b e
      · exact s.subtract_removed b e
  | subtract b e => exact s.subtract_removed b e

/-- A call acts on every address as its meaning does. -/
theorem ownerAt_apply (hproper : call.Proper) {m : AddressMap α}
    (h : ∀ a, ownerAt s.frags a = m a) (a : ℕ) :
    ownerAt (call.apply s).1.frags a = call.denote m a := by
  cases call with
  | insert b e v =>
      have hbe : b < e := hproper.1
      have hplaced := (s.insert b e v).1.layout
      show ownerAt (s.insert b e v).1.frags a = m.overwrite b e v a
      rw [IntervalSet.insert_frags s hbe] at hplaced ⊢
      rw [ownerAt_place hplaced (s.layout.cutAll b e), ownerAt_cutAll s.layout, h]
      unfold AddressMap.overwrite Contains
      by_cases hin : b ≤ a ∧ a < e
      · rw [if_pos hin, if_pos hin]
      · rw [if_neg hin, if_neg hin, if_neg hin]
  | subtract b e =>
      show ownerAt (s.subtract b e).1.frags a = m.erase b e a
      rw [IntervalSet.subtract_frags, ownerAt_cutAll s.layout, h]
      rfl

/-- An entry stays inside the entry it is cut from. -/
theorem stop_apply (hproper : call.Proper) (h : ∀ f ∈ s.frags, f.stop ≤ maxU64) :
    ∀ g ∈ (call.apply s).1.frags, g.stop ≤ maxU64 := by
  intro g hg
  rcases (mem_apply hproper).mp hg with hadded | ⟨f, hf, hcut⟩
  · cases call with
    | insert b e v =>
        cases hadded
        exact hproper.2
    | subtract b e => cases hadded
  · have hstop := (mem_cut (s.layout.nonempty f hf) hcut).2.1
    have hbound := h f hf
    omega

/-- The first byte of an entry was not removed: an entry with its value starts there. -/
theorem start_survives (hproper : call.Proper) {f : Fragment α} (hf : f ∈ s.frags)
    (hfree : ¬ call.Covers f.start) :
    ∃ g ∈ (call.apply s).1.frags, g.start = f.start ∧ g.stop ≤ f.stop ∧ g.value = f.value := by
  by_cases hmeets : f.Meets call.start call.stop
  · -- the range begins inside the entry, whose prefix is kept
    have hafter : f.start < call.start := by
      unfold Meets at hmeets
      omega
    refine ⟨⟨f.start, call.start, f.value⟩, (mem_apply hproper).mpr (.inr ⟨f, hf, ?_⟩), rfl, ?_, rfl⟩
    · unfold cut
      rw [if_pos hmeets, if_pos hafter]
      exact List.mem_append_left _ (List.mem_singleton_self _)
    · exact Nat.le_of_lt hmeets.2.1
  · refine ⟨f, (mem_apply hproper).mpr (.inr ⟨f, hf, ?_⟩), rfl, le_rfl, rfl⟩
    rw [cut_of_not_meets hmeets]
    exact List.mem_singleton_self f

/-- The last byte of an entry was not removed: an entry with its value stops there. -/
theorem stop_survives (hproper : call.Proper) {f : Fragment α} (hf : f ∈ s.frags)
    (hfree : ¬ call.Covers (f.stop - 1)) :
    ∃ g ∈ (call.apply s).1.frags, g.stop = f.stop ∧ f.start ≤ g.start ∧ g.value = f.value := by
  have hne := s.layout.nonempty f hf
  by_cases hmeets : f.Meets call.start call.stop
  · -- the range ends inside the entry, whose suffix is kept
    have hbefore : call.stop < f.stop := by
      unfold Meets at hmeets
      omega
    refine ⟨⟨call.stop, f.stop, f.value⟩, (mem_apply hproper).mpr (.inr ⟨f, hf, ?_⟩), rfl, ?_, rfl⟩
    · unfold cut
      rw [if_pos hmeets, if_pos hbefore]
      exact List.mem_append_right _ (List.mem_singleton_self _)
    · exact Nat.le_of_lt hmeets.1
  · refine ⟨f, (mem_apply hproper).mpr (.inr ⟨f, hf, ?_⟩), rfl, le_rfl, rfl⟩
    rw [cut_of_not_meets hmeets]
    exact List.mem_singleton_self f

end Call

/-! ## Every sequence of calls -/

/-- The set is the partial map `m`, and every query and every returned list says so. -/
structure Implements (s : IntervalSet α) (m : AddressMap α) : Prop where
  sorted : s.frags.Pairwise fun f g => f.stop ≤ g.start
  nonempty : ∀ f ∈ s.frags, f.start < f.stop
  bounded : ∀ f ∈ s.frags, f.stop ≤ maxU64
  value : ∀ a, (s.find a).map Fragment.value = m a
  find : ∀ a f, s.find a = some f ↔ f ∈ s.frags ∧ f.Contains a
  removed : ∀ call : IntervalCall α, (call.apply s).2 = clipAll call.start call.stop s.frags
  intersections : ∀ b e, s.intersections b e = clipAll b e s.frags
  clipped : ∀ b e, (clipAll b e s.frags).Pairwise fun f g => f.stop ≤ g.start
  totalBytes : s.totalBytesLoop = (s.frags.map Fragment.size).sum

/-- What stays of an entry `f` while no call removes the byte at one of its ends. -/
structure Survives (calls : List (IntervalCall α)) (s : IntervalSet α) (f : Fragment α) : Prop where
  start : (∀ call ∈ calls, ¬ call.Covers f.start) →
    ∃ g ∈ s.frags, g.start = f.start ∧ g.stop ≤ f.stop ∧ g.value = f.value
  stop : (∀ call ∈ calls, ¬ call.Covers (f.stop - 1)) →
    ∃ g ∈ s.frags, g.stop = f.stop ∧ f.start ≤ g.start ∧ g.value = f.value

variable {calls : List (IntervalCall α)}

theorem implements_of {s : IntervalSet α} {m : AddressMap α}
    (hvalue : ∀ a, ownerAt s.frags a = m a) (hbounded : ∀ f ∈ s.frags, f.stop ≤ maxU64) :
    Implements s m where
  sorted := s.layout.ordered
  nonempty := s.layout.nonempty
  bounded := hbounded
  value := by
    intro a
    rw [IntervalSet.find_eq]
    exact hvalue a
  find := fun _ _ => IntervalSet.find_eq_some
  removed := apply_removed s
  intersections := s.intersections_eq
  clipped := fun b e => (s.layout.clipAll b e).ordered
  totalBytes := totalBytesLoop_eq hbounded

/-- By induction on the calls, from the last one: each acts on the map as its meaning. -/
theorem runCalls_implements (hproper : ∀ call ∈ calls, call.Proper) :
    Implements (runCalls calls) (denoteCalls calls) := by
  have hboth : (∀ a, ownerAt (runCalls calls).frags a = denoteCalls calls a) ∧
      ∀ f ∈ (runCalls calls).frags, f.stop ≤ maxU64 := by
    induction calls using List.reverseRecOn with
    | nil => exact ⟨fun _ => rfl, nofun⟩
    | append_singleton calls call ih =>
        have hlast := hproper call (List.mem_append_right _ (List.mem_singleton_self _))
        obtain ⟨hvalue, hbounded⟩ := ih fun c hc => hproper c (List.mem_append_left _ hc)
        rw [runCalls_append, denoteCalls_append]
        exact ⟨ownerAt_apply hlast hvalue, stop_apply hlast hbounded⟩
  exact implements_of hboth.1 hboth.2

/-- Both ends of an entry outlive the calls that leave the bytes beside them. -/
theorem runCalls_survives {before after : List (IntervalCall α)}
    (hproper : ∀ call ∈ after, call.Proper) {f : Fragment α} (hf : f ∈ (runCalls before).frags) :
    Survives after (runCalls (before ++ after)) f := by
  induction after using List.reverseRecOn with
  | nil =>
      rw [List.append_nil]
      exact ⟨fun _ => ⟨f, hf, rfl, le_rfl, rfl⟩, fun _ => ⟨f, hf, rfl, le_rfl, rfl⟩⟩
  | append_singleton after call ih =>
      have hlast := hproper call (List.mem_append_right _ (List.mem_singleton_self _))
      have hsurvives := ih fun c hc => hproper c (List.mem_append_left _ hc)
      rw [← List.append_assoc, runCalls_append]
      constructor
      · intro hfree
        obtain ⟨g, hg, hstart, hstop, hvalue⟩ := hsurvives.start fun c hc =>
          hfree c (List.mem_append_left _ hc)
        have hcall := hfree call (List.mem_append_right _ (List.mem_singleton_self _))
        rw [← hstart] at hcall
        obtain ⟨k, hk, hkstart, hkstop, hkvalue⟩ := start_survives hlast hg hcall
        exact ⟨k, hk, hkstart.trans hstart, hkstop.trans hstop, hkvalue.trans hvalue⟩
      · intro hfree
        obtain ⟨g, hg, hstop, hstart, hvalue⟩ := hsurvives.stop fun c hc =>
          hfree c (List.mem_append_left _ hc)
        have hcall := hfree call (List.mem_append_right _ (List.mem_singleton_self _))
        rw [← hstop] at hcall
        obtain ⟨k, hk, hkstop, hkstart, hkvalue⟩ := stop_survives hlast hg hcall
        exact ⟨k, hk, hkstop.trans hstop, hstart.trans hkstart, hkvalue.trans hvalue⟩

/-- After a call an entry is the one it added, or lies inside one that was there. -/
theorem apply_unmerged (s : IntervalSet α) {call : IntervalCall α} (hproper : call.Proper) :
    ∀ g ∈ (call.apply s).1.frags, call.added = some g ∨
      ∃ f ∈ s.frags, f.start ≤ g.start ∧ g.stop ≤ f.stop ∧ g.value = f.value := by
  intro g hg
  rcases (mem_apply hproper).mp hg with hadded | ⟨f, hf, hcut⟩
  · exact .inl hadded
  · obtain ⟨hstart, hstop, -, hvalue, -⟩ := mem_cut (s.layout.nonempty f hf) hcut
    exact .inr ⟨f, hf, hstart, hstop, hvalue⟩

/-- For every sequence of calls with `begin < end` the set is the map they build; a call
leaves entries that lie inside old ones or are its own, which is there; and the ends of an
entry stay until a call removes the byte beside them. -/
theorem intervalSet_partial_map (calls : List (IntervalCall α))
    (hproper : ∀ call ∈ calls, call.Proper) :
    Implements (runCalls calls) (denoteCalls calls) ∧
      ∀ before after, calls = before ++ after →
        (∀ f ∈ (runCalls before).frags, Survives after (runCalls calls) f) ∧
          ∀ call rest, after = call :: rest →
            (∀ f, call.added = some f → f ∈ (call.apply (runCalls before)).1.frags) ∧
              ∀ g ∈ (call.apply (runCalls before)).1.frags, call.added = some g ∨
                ∃ f ∈ (runCalls before).frags,
                  f.start ≤ g.start ∧ g.stop ≤ f.stop ∧ g.value = f.value := by
  refine ⟨runCalls_implements hproper, ?_⟩
  intro before after hsplit
  subst hsplit
  have hafter : ∀ call ∈ after, call.Proper := fun c hc => hproper c (List.mem_append_right _ hc)
  refine ⟨fun f hf => runCalls_survives hafter hf, ?_⟩
  intro call rest hrest
  subst hrest
  have hcall := hafter call List.mem_cons_self
  exact ⟨fun f hf => (mem_apply hcall).mpr (.inl hf), apply_unmerged _ hcall⟩

/-- An insert into the middle of an entry, and a removal that touches it. -/
theorem intervalSet_partial_map_split :
    Implements (runCalls [.insert 0 16 'a', .insert 4 8 'b', .subtract 8 12])
      (denoteCalls [.insert 0 16 'a', .insert 4 8 'b', .subtract 8 12]) :=
  (intervalSet_partial_map [.insert 0 16 'a', .insert 4 8 'b', .subtract 8 12]
    (by decide)).1

example : (runCalls [.insert 0 16 'a', .insert 4 8 'b', .subtract 8 12]).frags =
    [⟨0, 4, 'a'⟩, ⟨4, 8, 'b'⟩, ⟨12, 16, 'a'⟩] := by
  decide

end Noleax.Trace
