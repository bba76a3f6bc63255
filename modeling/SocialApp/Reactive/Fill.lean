import SocialApp.Reactive.Machine
import Mathlib.Data.Multiset.AddSub
import Mathlib.Data.Multiset.Filter
import Mathlib.Data.List.Perm.Basic
import Mathlib.Data.List.Sort
import Mathlib.Data.List.Nodup
import Mathlib.Algebra.Order.Group.Multiset

/-! # A list filled by tasks that finish in any order

A batch of `n` tasks is delivered, and each task that finishes with a value
appends it to one shared list.  A new batch empties the list, but the tasks of
the old batches stay pending and append to the list of the new one.  What is
wanted is the values of the last batch in the order of its indices, without the
tasks that failed; `out_eq_kept_iff` says when that is what the list holds. -/

namespace SocialApp
namespace Reactive

universe u v

/-- A task that has finished: its batch, its place there, and its value, or
`none` when it failed. -/
structure Completion (β : Type u) where
  batch : Nat
  index : Nat
  result : Option β

/-- The last batch delivered, the tasks not finished, and the shared list. -/
structure Fill (β : Type u) where
  batch : Nat
  pending : Multiset (Nat × Nat)
  out : List β

inductive FillEvent (β : Type u)
  | deliver (n : Nat)
  | finish (c : Completion β)

namespace Fill

variable {β : Type u} {γ : Type v}

def start : Fill β := { batch := 0, pending := 0, out := [] }

/-- The tasks of one batch. -/
def tasks (b n : Nat) : Multiset (Nat × Nat) := ((List.range n).map fun i => (b, i) : List _)

def machine : Machine (Fill β) (FillEvent β) (Completion β) where
  step s
    | .deliver n =>
      some ({ batch := s.batch + 1, pending := s.pending + tasks (s.batch + 1) n, out := [] }, [])
    | .finish c =>
      if (c.batch, c.index) ∈ s.pending then
        some ({ s with pending := s.pending.erase (c.batch, c.index),
                       out := s.out ++ c.result.toList }, [c])
      else none

/-! ## What the completions since a delivery say -/

/-- The completions that have a value. -/
def successes (done : List (Completion β)) : List (Completion β) :=
  done.filter fun c => c.result.isSome

/-- The completions of one batch. -/
def ofBatch (b : Nat) (done : List (Completion β)) : List (Completion β) :=
  done.filter fun c => c.batch == b

def failed (b : Nat) (done : List (Completion β)) (i : Nat) : Bool :=
  done.any fun c => c.batch == b && c.index == i && c.result.isNone

/-- The places of a batch of `n` that did not fail, in order. -/
def kept (b n : Nat) (done : List (Completion β)) : List Nat :=
  (List.range n).filter fun i => !failed b done i

/-- The completions with a value are all of batch `b`, and in index order. -/
def InOrder (b : Nat) (done : List (Completion β)) : Prop :=
  (∀ c ∈ successes done, c.batch = b) ∧
    ((successes done).map Completion.index).Pairwise (· < ·)

/-- The state after batch `b` of `n` tasks was delivered and `done` finished. -/
structure Filled (b n : Nat) (s : Fill β) (done : List (Completion β)) : Prop where
  batch : s.batch = b
  out : s.out = done.filterMap Completion.result
  /-- Each task of the batch is pending or has finished, once. -/
  once : ((s.pending.filter fun t => t.1 = b).map Prod.snd) +
    ((ofBatch b done).map Completion.index : List Nat) = (List.range n : Multiset Nat)

/-- No pending task is of a batch still to come. -/
def Fresh (s : Fill β) : Prop := ∀ t ∈ s.pending, t.1 ≤ s.batch

/-- A delivery leaves exactly the tasks of its own batch to be done. -/
theorem deliver_filled {s s' : Fill β} {n : Nat} {o : List (Completion β)}
    (hs : Fresh s) (h : machine.step s (.deliver n) = some (s', o)) :
    Filled (s.batch + 1) n s' [] := by
  simp only [machine, Option.some.injEq, Prod.mk.injEq] at h
  obtain ⟨rfl, rfl⟩ := h
  refine { batch := rfl, out := rfl, once := ?_ }
  have hold : s.pending.filter (fun t => t.1 = s.batch + 1) = 0 := by
    rw [Multiset.filter_eq_nil]
    intro t ht heq
    have := hs t ht
    omega
  have hnew : (tasks (s.batch + 1) n).filter (fun t => t.1 = s.batch + 1) =
      tasks (s.batch + 1) n := by
    rw [Multiset.filter_eq_self]
    intro t ht
    simp only [tasks, Multiset.mem_coe, List.mem_map] at ht
    obtain ⟨i, _, rfl⟩ := ht
    rfl
  rw [Multiset.filter_add, hold, hnew, Multiset.zero_add]
  simp [tasks, ofBatch, Function.comp_def]

theorem finish_filled {b n : Nat} {s s' : Fill β} {c : Completion β}
    {done o : List (Completion β)} (hs : Filled b n s done)
    (h : machine.step s (.finish c) = some (s', o)) : Filled b n s' (done ++ o) := by
  simp only [machine, Option.ite_none_right_eq_some, Option.some.injEq,
    Prod.mk.injEq] at h
  obtain ⟨hmem, rfl, rfl⟩ := h
  obtain ⟨p, hp⟩ := Multiset.exists_cons_of_mem hmem
  refine { batch := hs.batch, out := ?_, once := ?_ }
  · rw [hs.out, List.filterMap_append]
    cases hr : c.result <;> simp [hr]
  · have honce := hs.once
    rw [hp, Multiset.filter_cons] at honce
    rw [← honce]
    simp only [hp, Multiset.erase_cons_head, ofBatch, List.filter_append, List.map_append]
    by_cases hb : c.batch = b
    · have hc : [c].filter (fun c => c.batch == b) = [c] := by simp [hb]
      rw [hc, if_pos hb, ← Multiset.coe_add, ← Multiset.add_assoc,
        Multiset.add_comm _ (_ : Multiset Nat), Multiset.map_add, Multiset.add_assoc]
      rfl
    · simp [hb]

/-- Runs that deliver nothing keep the account of the last batch. -/
theorem run_filled {b n : Nat} {s s' : Fill β} {es : List (FillEvent β)}
    {o : List (Completion β)} (hs : Filled b n s [])
    (hes : ∀ e ∈ es, ∃ c, e = .finish c) (hrun : machine.run s es = some (s', o)) :
    Filled b n s' o := by
  refine Machine.run_invariant (M := machine) (I := fun s o => Filled b n s o)
    (Q := fun _ e _ _ => ∃ c, e = .finish c) (a := []) ?_ hs
    (Machine.every_of_forall (fun _ _ _ _ h => h) hes s) hrun
  rintro s _ s' o acc hs hstep ⟨c, rfl⟩
  exact finish_filled hs hstep

/-! ## When the list is in order -/

section Order

variable {b n : Nat} {done : List (Completion β)}

theorem successes_length :
    (done.filterMap Completion.result).length = (successes done).length := by
  induction done with
  | nil => rfl
  | cons c rest ih =>
    cases hc : c.result with
    | none => simp [successes, hc] at ih ⊢; exact ih
    | some x => simp [successes, hc] at ih ⊢; exact ih

theorem successes_ofBatch :
    successes (ofBatch b done) = (successes done).filter fun c => c.batch == b := by
  simp only [successes, ofBatch, List.filter_filter]
  exact List.filter_congr fun c _ => Bool.and_comm _ _

/-- The values read through `key` are those of the places of the completions. -/
theorem map_key {key : β → γ} {place : Nat → γ}
    (hkey : ∀ c ∈ done, ∀ x, c.result = some x → key x = place c.index) :
    (done.filterMap Completion.result).map key =
      ((successes done).map Completion.index).map place := by
  induction done with
  | nil => rfl
  | cons c rest ih =>
    have hrest := ih fun d hd => hkey d (List.mem_cons_of_mem c hd)
    cases hc : c.result with
    | none => simpa [successes, hc] using hrest
    | some x =>
      have hx := hkey c List.mem_cons_self x hc
      simpa [successes, hc, hx] using hrest

/-- Each value in the list is that of a completion, at its place. -/
theorem forall₂_successes :
    List.Forall₂ (fun i x => ∃ c ∈ done, c.index = i ∧ c.result = some x)
      ((successes done).map Completion.index) (done.filterMap Completion.result) := by
  induction done with
  | nil => exact List.Forall₂.nil
  | cons c rest ih =>
    have hrest := ih.imp fun i x ⟨d, hd, hi, hx⟩ =>
      (⟨d, List.mem_cons_of_mem c hd, hi, hx⟩ :
        ∃ d ∈ c :: rest, d.index = i ∧ d.result = some x)
    cases hc : c.result with
    | none => simpa [successes, hc] using hrest
    | some x =>
      have hhead : ∃ d ∈ c :: rest, d.index = c.index ∧ d.result = some x :=
        ⟨c, List.mem_cons_self, rfl, hc⟩
      simpa [successes, hc] using List.Forall₂.cons hhead hrest

theorem kept_nodup : (kept b n done).Nodup := List.nodup_range.filter _

/-- Every place of the batch is finished once, so the places with a value are
those that did not fail. -/
theorem successes_perm_kept
    (hdone : ((ofBatch b done).map Completion.index).Perm (List.range n)) :
    ((successes (ofBatch b done)).map Completion.index).Perm (kept b n done) := by
  have hnodup : ((ofBatch b done).map Completion.index).Nodup :=
    hdone.nodup_iff.mpr List.nodup_range
  have hinj := List.inj_on_of_nodup_map hnodup
  have hmem : ∀ c, c ∈ ofBatch b done ↔ c ∈ done ∧ c.batch = b := by
    intro c
    simp [ofBatch]
  have hsub : ((successes (ofBatch b done)).map Completion.index).Nodup :=
    hnodup.sublist (List.filter_sublist.map _)
  rw [List.perm_ext_iff_of_nodup hsub kept_nodup]
  intro i
  simp only [kept, failed, successes, List.mem_map, List.mem_filter, List.mem_range,
    Bool.not_eq_true', List.any_eq_false, Bool.and_eq_true, beq_iff_eq]
  constructor
  · rintro ⟨c, ⟨hc, hsome⟩, rfl⟩
    refine ⟨List.mem_range.mp (hdone.mem_iff.mp (List.mem_map_of_mem hc)), ?_⟩
    rintro d hd ⟨⟨hdb, hdi⟩, hnone⟩
    have : d = c := hinj ((hmem d).mpr ⟨hd, hdb⟩) hc hdi
    subst this
    rw [Option.isNone_iff_eq_none] at hnone
    rw [hnone] at hsome
    exact absurd hsome (by simp)
  · rintro ⟨hi, hfail⟩
    obtain ⟨c, hc, rfl⟩ := List.mem_map.mp (hdone.mem_iff.mpr (List.mem_range.mpr hi))
    have hcd := (hmem c).mp hc
    refine ⟨c, ⟨hc, ?_⟩, rfl⟩
    cases hr : c.result with
    | none => exact absurd ⟨⟨hcd.2, rfl⟩, by simp [hr]⟩ (hfail c hcd.1)
    | some x => rfl

/-- Two lists of places with the same image under a map that tells the places of
the batch apart. -/
theorem eq_of_map_place {place : Nat → γ}
    (hplace : ∀ i j, i < n → j < n → place i = place j → i = j) :
    ∀ {is js : List Nat}, (∀ i ∈ is, i < n) → (∀ j ∈ js, j < n) →
      is.map place = js.map place → is = js := by
  intro is
  induction is with
  | nil =>
    intro js _ _ h
    exact (List.map_eq_nil_iff.mp h.symm).symm
  | cons i is ih =>
    intro js hi hj h
    cases js with
    | nil => exact absurd h (by simp)
    | cons j js =>
      simp only [List.map_cons, List.cons.injEq] at h
      rw [hplace i j (hi i List.mem_cons_self) (hj j List.mem_cons_self) h.1,
        ih (fun k hk => hi k (List.mem_cons_of_mem i hk))
          (fun k hk => hj k (List.mem_cons_of_mem j hk)) h.2]

theorem successes_concat (done : List (Completion β)) (c : Completion β) :
    successes (done ++ [c]) = successes done ++ if c.result.isSome then [c] else [] := by
  cases hc : c.result <;> simp [successes, hc]

theorem failed_concat {i : Nat} {c : Completion β} :
    failed b (done ++ [c]) i = true ↔
      failed b done i = true ∨ (c.batch = b ∧ c.index = i ∧ c.result.isSome = false) := by
  cases hc : c.result <;> simp [failed, hc]

/-- One more completion leaves the completions in order when it fails, or when it is
of batch `b` and comes after all those with a value. -/
theorem inOrder_concat_iff {c : Completion β} (h : InOrder b done) :
    InOrder b (done ++ [c]) ↔
      (c.result.isSome = true → c.batch = b ∧ ∀ d ∈ successes done, d.index < c.index) := by
  unfold InOrder
  rw [successes_concat]
  by_cases hc : c.result.isSome = true
  · rw [if_pos hc, List.map_append, List.pairwise_append]
    constructor
    · intro hnew _
      refine ⟨hnew.1 c (List.mem_append_right _ List.mem_cons_self), fun d hd => ?_⟩
      exact hnew.2.2.2 d.index (List.mem_map_of_mem hd) c.index List.mem_cons_self
    · intro hcond
      obtain ⟨hb, hlt⟩ := hcond hc
      refine ⟨fun d hd => ?_, h.2, List.pairwise_singleton _ _, ?_⟩
      · rcases List.mem_append.mp hd with hd | hd
        · exact h.1 d hd
        · rw [List.mem_singleton.mp hd]
          exact hb
      · intro i hi j hj
        obtain ⟨d, hd, rfl⟩ := List.mem_map.mp hi
        rw [List.map_singleton, List.mem_singleton] at hj
        rw [hj]
        exact hlt d hd
  · rw [if_neg hc, List.append_nil]
    exact ⟨fun _ hsome => absurd hsome hc, fun _ => h⟩

/-- Completions that are in order were in order before the last of them. -/
theorem InOrder.of_append {done' : List (Completion β)} (h : InOrder b (done ++ done')) :
    InOrder b done := by
  have hsub : (successes done).Sublist (successes (done ++ done')) :=
    (List.sublist_append_left done done').filter _
  exact ⟨fun c hc => h.1 c (hsub.subset hc), h.2.sublist (hsub.map _)⟩

theorem kept_lt {i : Nat} (hi : i ∈ kept b n done) : i < n :=
  List.mem_range.mp (List.mem_filter.mp hi).1

/-- Completions in order leave the places that did not fail in order. -/
theorem InOrder.index_eq_kept
    (hdone : ((ofBatch b done).map Completion.index).Perm (List.range n))
    (h : InOrder b done) : (successes done).map Completion.index = kept b n done := by
  have hall : successes (ofBatch b done) = successes done := by
    rw [successes_ofBatch, List.filter_eq_self]
    intro c hc
    simp [h.1 c hc]
  have hperm := successes_perm_kept hdone
  rw [hall] at hperm
  exact hperm.eq_of_pairwise' h.2 (List.pairwise_lt_range.filter _)

/-- The last completion in order is that of the last place, unless that place failed. -/
theorem InOrder.last_index_iff
    (hdone : ((ofBatch b done).map Completion.index).Perm (List.range n))
    (h : InOrder b done) {cs : List (Completion β)} {c : Completion β}
    (hlast : successes done = cs ++ [c]) :
    c.index + 1 = n ↔ failed b done (n - 1) = false := by
  have hkept := h.index_eq_kept hdone
  have hsorted := h.2
  rw [hlast, List.map_append] at hkept hsorted
  have hc : c.index ∈ kept b n done := hkept ▸ List.mem_append_right _ List.mem_cons_self
  have hlt := kept_lt hc
  constructor
  · intro hindex
    have heq : n - 1 = c.index := by omega
    rw [heq]
    simpa using (List.mem_filter.mp hc).2
  · intro hfail
    -- the last place is kept, and no place that is kept is after that of `c`
    have hmem : n - 1 ∈ kept b n done := by
      refine List.mem_filter.mpr ⟨List.mem_range.mpr (by omega), ?_⟩
      rw [hfail]
      rfl
    rw [← hkept] at hmem
    rcases List.mem_append.mp hmem with hcs | hself
    · have := (List.pairwise_append.mp hsorted).2.2 _ hcs c.index List.mem_cons_self
      omega
    · have := List.mem_singleton.mp hself
      omega

/-- Once every task of the batch has finished, the list is the batch without the
failures and in its order exactly when the completions came in that order and
none of an older batch appended to it. -/
theorem out_eq_kept_iff (key : β → γ) (place : Nat → γ)
    (hdone : ((ofBatch b done).map Completion.index).Perm (List.range n))
    (hkey : ∀ c ∈ done, c.batch = b → ∀ x, c.result = some x → key x = place c.index)
    (hplace : ∀ i j, i < n → j < n → place i = place j → i = j) :
    (done.filterMap Completion.result).map key = (kept b n done).map place ↔
      InOrder b done := by
  have hperm := successes_perm_kept hdone
  have hkey' : (∀ c ∈ successes done, c.batch = b) →
      (done.filterMap Completion.result).map key =
        ((successes done).map Completion.index).map place := by
    intro hb
    refine map_key fun c hc x hx => hkey c hc (hb c ?_) x hx
    exact List.mem_filter.mpr ⟨hc, by simp [hx]⟩
  constructor
  · intro heq
    have hlen : ((successes done).filter fun c => c.batch == b).length =
        (successes done).length := by
      have h₁ := congrArg List.length heq
      have h₂ := hperm.length_eq
      rw [List.length_map, List.length_map, successes_length] at h₁
      rw [List.length_map, successes_ofBatch] at h₂
      omega
    have hb : ∀ c ∈ successes done, c.batch = b := by
      intro c hc
      have := List.length_filter_eq_length_iff.mp hlen c hc
      simpa using this
    have hall : successes (ofBatch b done) = successes done := by
      rw [successes_ofBatch]
      exact List.filter_eq_self.mpr fun c hc => by simp [hb c hc]
    rw [hall] at hperm
    rw [hkey' hb] at heq
    have hidx : (successes done).map Completion.index = kept b n done :=
      eq_of_map_place hplace (fun i hi => kept_lt (hperm.mem_iff.mp hi))
        (fun i hi => kept_lt hi) heq
    refine ⟨hb, ?_⟩
    rw [hidx]
    exact List.pairwise_lt_range.filter _
  · intro h
    rw [hkey' h.1, h.index_eq_kept hdone]

end Order

end Fill

end Reactive
end SocialApp
