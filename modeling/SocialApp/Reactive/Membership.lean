import Mathlib.Data.Finset.Card

/-! # A counted set seen from afar

A server keeps a set.  A client shows the size of the set and whether one element
is in it, asks for the element to be put in or taken out, and changes what it
shows by one when the request is answered.  What it shows is right whenever no
request is on its way, provided that it never has two. -/

namespace SocialApp
namespace Reactive

universe u

/-- A request: to put the element in (`put`) or to take it out, not yet or already
`served`. -/
structure Request where
  put : Bool
  served : Bool
deriving DecidableEq

/-- What the server does with a request for `a`. -/
def Request.serve {α : Type u} [DecidableEq α] (put : Bool) (a : α) (members : Finset α) :
    Finset α :=
  if put then insert a members else members.erase a

/-- The size shown, and whether `a` is shown as a member, for the requests on
their way.  Until a request is answered the client shows the set without its
effect. -/
def Agrees {α : Type u} [DecidableEq α] (a : α) (count : Option Int) (mine : Option Bool)
    (members : Finset α) : List Request → Prop
  | [] => count = some (members.card : Int) ∧ mine = some (decide (a ∈ members))
  | [r] => mine = some (!r.put) ∧ (a ∈ members ↔ (r.put ↔ r.served)) ∧
      count = some ((Request.serve (!r.put) a members).card : Int)
  | _ => False

namespace Agrees

variable {α : Type u} [DecidableEq α] {a : α} {count : Option Int} {mine : Option Bool}
  {members : Finset α}

/-- A client has at most one request on its way. -/
theorem length_le_one {rs : List Request} (h : Agrees a count mine members rs) :
    rs.length ≤ 1 := by
  match rs, h with
  | [], _ => exact Nat.zero_le 1
  | [_], _ => exact Nat.le_refl 1

/-- The request that a client sends asks for the opposite of what it shows. -/
theorem ask {b : Bool} (h : Agrees a count mine members []) (hb : mine = some b) :
    Agrees a count mine members [{ put := !b, served := false }] := by
  obtain ⟨hcount, hmine⟩ := h
  rw [hmine, Option.some.injEq] at hb
  by_cases ha : a ∈ members
  · have hb : b = true := by rw [← hb]; exact decide_eq_true ha
    subst hb
    refine ⟨by rw [hmine, decide_eq_true ha]; rfl, by simp [ha], ?_⟩
    rw [hcount]
    show _ = some (((insert a members).card : Nat) : Int)
    rw [Finset.insert_eq_self.mpr ha]
  · have hb : b = false := by rw [← hb]; exact decide_eq_false ha
    subst hb
    refine ⟨by rw [hmine, decide_eq_false ha]; rfl, by simp [ha], ?_⟩
    rw [hcount]
    show _ = some (((members.erase a).card : Nat) : Int)
    rw [Finset.erase_eq_self.mpr ha]

/-- The server carries the request out, and the client does not notice. -/
theorem served {put : Bool} (h : Agrees a count mine members [{ put, served := false }]) :
    Agrees a count mine (Request.serve put a members) [{ put, served := true }] := by
  obtain ⟨hmine, hmem, hcount⟩ := h
  refine ⟨hmine, ?_, ?_⟩
  · cases put <;> simp [Request.serve]
  · rw [hcount]
    cases put with
    | false =>
      show some (((insert a members).card : Nat) : Int) =
        some (((insert a (members.erase a)).card : Nat) : Int)
      rw [Finset.insert_erase (by simpa using hmem)]
      rw [Finset.insert_eq_self.mpr (by simpa using hmem)]
    | true =>
      show some (((members.erase a).card : Nat) : Int) =
        some ((((insert a members).erase a).card : Nat) : Int)
      rw [Finset.erase_insert_eq_erase]

/-- The answer to a served request makes what is shown right again. -/
theorem answered {put : Bool} (h : Agrees a count mine members [{ put, served := true }]) :
    ∃ n, count = some n ∧
      Agrees a (some (if put then n + 1 else n - 1)) (some put) members [] := by
  obtain ⟨hmine, hmem, hcount⟩ := h
  refine ⟨_, hcount, ?_, ?_⟩
  · cases put with
    | false =>
      have ha : a ∉ members := by simpa using hmem
      show some ((((insert a members).card : Nat) : Int) - 1) = _
      rw [Finset.card_insert_of_notMem ha]
      simp
    | true =>
      have ha : a ∈ members := by simpa using hmem
      show some ((((members.erase a).card : Nat) : Int) + 1) = _
      have := Finset.card_erase_add_one ha
      rw [Option.some.injEq]
      omega
  · cases put <;> simpa using hmem

end Agrees

end Reactive
end SocialApp
