import Mathlib.Data.List.Forall2

/-!
# Requests and answers over two queues

A client asks, a server takes one request after the other and answers it, and the client
hears the answers. Both queues keep their order, so the answers are heard in the order
of the requests, and a client that has heard as many answers as it has asked requests
has nothing on its way.
-/

namespace Noleax.Lib

variable {Q R : Type}

structure Exchange (Q R : Type) where
  /-- on their way to the server -/
  requests : List Q := []
  /-- the request the server works on -/
  serving : Option Q := none
  /-- on their way to the client -/
  replies : List R := []
  asked : List Q := []
  heard : List R := []
deriving DecidableEq

namespace Exchange

def ask (x : Exchange Q R) (q : Q) : Exchange Q R :=
  { x with requests := x.requests ++ [q], asked := x.asked ++ [q] }

def take (x : Exchange Q R) : Option (Q × Exchange Q R) :=
  match x.serving, x.requests with
  | none, q :: rest => some (q, { x with requests := rest, serving := some q })
  | _, _ => none

def reply (x : Exchange Q R) (r : R) : Exchange Q R :=
  { x with serving := none, replies := x.replies ++ [r] }

def hear (x : Exchange Q R) : Option (R × Exchange Q R) :=
  match x.replies with
  | r :: rest => some (r, { x with replies := rest, heard := x.heard ++ [r] })
  | [] => none

variable {A : Q → R → Prop} {x y : Exchange Q R} {q : Q} {r : R} {earlier : List Q}

theorem take_eq_some : x.take = some (q, y) ↔ x.serving = none ∧
    ∃ rest, x.requests = q :: rest ∧ y = { x with requests := rest, serving := some q } := by
  unfold take
  constructor
  · intro h
    split at h
    · rename_i first rest hserving hrequests
      cases h
      exact ⟨hserving, rest, hrequests, rfl⟩
    · cases h
  · rintro ⟨hserving, rest, hrequests, rfl⟩
    rw [hserving, hrequests]

theorem hear_eq_some : x.hear = some (r, y) ↔
    ∃ rest, x.replies = r :: rest ∧ y = { x with replies := rest, heard := x.heard ++ [r] } := by
  unfold hear
  constructor
  · intro h
    split at h
    · rename_i first rest hreplies
      cases h
      exact ⟨rest, hreplies, rfl⟩
    · cases h
  · rintro ⟨rest, hreplies, rfl⟩
    rw [hreplies]

/-! ## Order -/

/-- The answers given so far answer the first requests, in their order. -/
def InOrder (A : Q → R → Prop) (x : Exchange Q R) : Prop :=
  ∃ answered, List.Forall₂ A answered (x.heard ++ x.replies) ∧
    x.asked = answered ++ (x.serving.toList ++ x.requests)

theorem inOrder_start : InOrder A ({} : Exchange Q R) := ⟨[], .nil, rfl⟩

theorem InOrder.ask (h : x.InOrder A) (q : Q) : (x.ask q).InOrder A := by
  obtain ⟨answered, hanswered, hasked⟩ := h
  refine ⟨answered, hanswered, ?_⟩
  show x.asked ++ [q] = answered ++ (x.serving.toList ++ (x.requests ++ [q]))
  rw [hasked]
  simp only [List.append_assoc]

theorem InOrder.take (h : x.InOrder A) (htake : x.take = some (q, y)) : y.InOrder A := by
  obtain ⟨answered, hanswered, hasked⟩ := h
  obtain ⟨hserving, rest, hrequests, rfl⟩ := take_eq_some.mp htake
  refine ⟨answered, hanswered, ?_⟩
  show x.asked = answered ++ ([q] ++ rest)
  rw [hasked, hserving, hrequests]
  rfl

theorem InOrder.reply (h : x.InOrder A) (hserving : x.serving = some q) (hanswers : A q r) :
    (x.reply r).InOrder A := by
  obtain ⟨answered, hanswered, hasked⟩ := h
  refine ⟨answered ++ [q], ?_, ?_⟩
  · show List.Forall₂ A _ (x.heard ++ (x.replies ++ [r]))
    rw [← List.append_assoc]
    exact List.rel_append hanswered (.cons hanswers .nil)
  · show x.asked = answered ++ [q] ++ x.requests
    rw [hasked, hserving]
    exact (List.append_assoc answered [q] x.requests).symm

theorem InOrder.hear (h : x.InOrder A) (hhear : x.hear = some (r, y)) : y.InOrder A := by
  obtain ⟨answered, hanswered, hasked⟩ := h
  obtain ⟨rest, hreplies, rfl⟩ := hear_eq_some.mp hhear
  refine ⟨answered, ?_, hasked⟩
  show List.Forall₂ A answered (x.heard ++ [r] ++ rest)
  rw [List.append_assoc]
  rw [hreplies] at hanswered
  exact hanswered

/-- As many messages are under way as answers are missing. -/
theorem InOrder.asked_length (h : x.InOrder A) : x.asked.length =
    x.heard.length + x.replies.length + x.serving.toList.length + x.requests.length := by
  obtain ⟨answered, hanswered, hasked⟩ := h
  have hlength := hanswered.length_eq
  rw [List.length_append] at hlength
  rw [hasked, List.length_append, List.length_append]
  omega

theorem InOrder.quiet (h : x.InOrder A) (hheard : x.heard.length = x.asked.length) :
    x.requests = [] ∧ x.serving = none ∧ x.replies = [] := by
  have hlength := h.asked_length
  refine ⟨List.length_eq_zero_iff.mp (by omega), ?_, List.length_eq_zero_iff.mp (by omega)⟩
  cases hserving : x.serving with
  | none => rfl
  | some q =>
      rw [hserving] at hlength
      simp at hlength
      omega

/-- The one answer that is missing answers the last request. -/
theorem InOrder.answers_last (h : x.InOrder A) (hasked : x.asked = earlier ++ [q])
    (hheard : x.heard.length = earlier.length) (hreply : r ∈ x.replies) : A q r := by
  have hlength := h.asked_length
  rw [hasked, List.length_append, List.length_singleton] at hlength
  have hreplies : 0 < x.replies.length := List.length_pos_of_mem hreply
  obtain ⟨answered, hanswered, hsplit⟩ := h
  have hone : x.replies = [r] := by
    obtain ⟨other, hother⟩ := List.length_eq_one_iff.mp (show x.replies.length = 1 by omega)
    rw [hother] at hreply ⊢
    rw [List.mem_singleton.mp hreply]
  have hrest : x.serving.toList ++ x.requests = [] := by
    rw [← List.length_eq_zero_iff, List.length_append]
    omega
  rw [hrest, List.append_nil, hasked] at hsplit
  rw [← hsplit, hone] at hanswered
  have hdrop := List.forall₂_drop_append _ _ _ hanswered
  rw [hheard, List.drop_left] at hdrop
  cases hdrop with
  | cons hanswers _ => exact hanswers

end Exchange

end Noleax.Lib
