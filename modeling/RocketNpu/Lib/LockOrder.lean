import Mathlib.Data.Set.Defs
import Mathlib.Logic.Function.Basic
import Mathlib.Logic.Relation
import Mathlib.Order.Basic
import RocketNpu.Lib.Runs

namespace RocketNpu.LockOrder
open Runs

variable {R T : Type*}

inductive Op (R : Type*) where
  | acquire (r : R)
  | release (r : R)

/-- What code does to a set of resources, with its branches and loop exits left open. -/
inductive Code (R : Type*) where
  | skip
  | op (o : Op R)
  | seq (p q : Code R)
  | alt (p q : Code R)
  | any (p : ℕ → Code R)
  | loop (p : Code R)

/-- `p` with `r` held. -/
def Code.locked (r : R) (p : Code R) : Code R :=
  .seq (.op (.acquire r)) (.seq p (.op (.release r)))

/-- The sequences of operations that a piece of code can go through. -/
inductive Path : Code R → List (Op R) → Prop where
  | skip : Path .skip []
  | op (o : Op R) : Path (.op o) [o]
  | seq {p q : Code R} {l m : List (Op R)} : Path p l → Path q m → Path (.seq p q) (l ++ m)
  | left {p q : Code R} {l : List (Op R)} : Path p l → Path (.alt p q) l
  | right {p q : Code R} {l : List (Op R)} : Path q l → Path (.alt p q) l
  | any {p : ℕ → Code R} {l : List (Op R)} (i : ℕ) : Path (p i) l → Path (.any p) l
  | done {p : Code R} : Path (.loop p) []
  | again {p : Code R} {l m : List (Op R)} :
      Path p l → Path (.loop p) m → Path (.loop p) (l ++ m)

structure Thread (R : Type*) where
  held : List R
  /-- What is left of the call it is in. -/
  todo : List (Op R)

/-- Threads make calls one after the other. A resource is free when no thread holds it. -/
inductive Step [DecidableEq R] [DecidableEq T] (codes : Set (Code R)) :
    (T → Thread R) → T → (T → Thread R) → Prop where
  | call {s : T → Thread R} {t : T} {p : Code R} {l : List (Op R)} :
      (s t).todo = [] → p ∈ codes → Path p l →
      Step codes s t (Function.update s t { s t with todo := l })
  | acquire {s : T → Thread R} {t : T} {r : R} {l : List (Op R)} :
      (s t).todo = .acquire r :: l → (∀ u, r ∉ (s u).held) →
      Step codes s t (Function.update s t ⟨r :: (s t).held, l⟩)
  | release {s : T → Thread R} {t : T} {r : R} {l : List (Op R)} :
      (s t).todo = .release r :: l →
      Step codes s t (Function.update s t ⟨(s t).held.erase r, l⟩)

def Start (s : T → Thread R) : Prop := s = fun _ => ⟨[], []⟩

/-- `t` is about to acquire a resource that `u` holds. -/
def Waits (s : T → Thread R) (t u : T) : Prop :=
  ∃ r l, (s t).todo = .acquire r :: l ∧ r ∈ (s u).held

variable {α : Type*} [Preorder α] {rank : R → α}

/-- From `held` on, each resource is acquired above those held, and nothing is left held. -/
def Ordered [DecidableEq R] (rank : R → α) : List R → List (Op R) → Prop
  | held, [] => held = []
  | held, .acquire r :: l => (∀ h ∈ held, rank h < rank r) ∧ Ordered rank (r :: held) l
  | held, .release r :: l => Ordered rank (held.erase r) l

section rules

variable [DecidableEq R]

/-- Code that runs in order while `held` is held, and gives back what it takes. -/
def Keeps (rank : R → α) (held : List R) (p : Code R) : Prop :=
  ∀ l m, Path p l → Ordered rank held m → Ordered rank held (l ++ m)

variable {held : List R} {p q : Code R} {r : R}

theorem Keeps.skip : Keeps rank held .skip := by
  intro l m hl hm
  cases hl
  exact hm

theorem Keeps.seq (hp : Keeps rank held p) (hq : Keeps rank held q) :
    Keeps rank held (.seq p q) := by
  intro l m hl hm
  cases hl with
  | seq hl₁ hl₂ =>
    rw [List.append_assoc]
    exact hp _ _ hl₁ (hq _ _ hl₂ hm)

theorem Keeps.alt (hp : Keeps rank held p) (hq : Keeps rank held q) :
    Keeps rank held (.alt p q) := by
  intro l m hl hm
  cases hl with
  | left hl => exact hp _ _ hl hm
  | right hl => exact hq _ _ hl hm

/-- A branch that is taken or not. -/
theorem Keeps.opt (hp : Keeps rank held p) : Keeps rank held (.alt .skip p) := Keeps.skip.alt hp

theorem Keeps.any {p : ℕ → Code R} (hp : ∀ i, Keeps rank held (p i)) :
    Keeps rank held (.any p) := by
  intro l m hl hm
  cases hl with
  | any i hl => exact hp i _ _ hl hm

theorem Keeps.loop (hp : Keeps rank held p) : Keeps rank held (.loop p) := by
  intro l m hl hm
  generalize hq : Code.loop p = q at hl
  induction hl with
  | done => exact hm
  | again hl₁ _ _ ih =>
    obtain rfl := Code.loop.inj hq
    rw [List.append_assoc]
    exact hp _ _ hl₁ (ih rfl)
  | _ => cases hq

theorem Keeps.locked (hr : ∀ h ∈ held, rank h < rank r) (hp : Keeps rank (r :: held) p) :
    Keeps rank held (.locked r p) := by
  intro l m hl hm
  cases hl with
  | seq hacq hl =>
    cases hacq
    cases hl with
    | seq hl hrel =>
      cases hrel
      refine ⟨hr, ?_⟩
      show Ordered rank (r :: held) (_ ++ [Op.release r] ++ m)
      rw [List.append_assoc]
      apply hp _ _ hl
      show Ordered rank ((r :: held).erase r) m
      rw [List.erase_cons_head]
      exact hm

theorem Keeps.ordered (hp : Keeps rank [] p) {l : List (Op R)} (hl : Path p l) :
    Ordered rank [] l := by
  have h := hp l [] hl rfl
  rwa [List.append_nil] at h

end rules

variable {s : T → Thread R}

/-- Along a chain of waiting threads the resources they wait for rise. -/
theorem exists_held_of_transGen [DecidableEq R] (ho : ∀ t, Ordered rank (s t).held (s t).todo)
    {t u : T} (h : Relation.TransGen (Waits s) t u) {r : R} {l : List (Op R)}
    (ht : (s t).todo = .acquire r :: l) : ∃ k ∈ (s u).held, rank r ≤ rank k := by
  induction h with
  | single hw =>
    obtain ⟨r', l', ht', hr'⟩ := hw
    obtain ⟨rfl, -⟩ : r' = r ∧ l' = l := by simpa [ht] using ht'.symm
    exact ⟨r', hr', le_refl _⟩
  | @tail v w _ hw ih =>
    obtain ⟨k, hk, hle⟩ := ih
    obtain ⟨r', l', hv, hr'⟩ := hw
    have hrise := ho v
    rw [hv] at hrise
    exact ⟨r', hr', hle.trans (hrise.1 k hk).le⟩

theorem ordered_update [DecidableEq R] [DecidableEq T]
    (ho : ∀ t, Ordered rank (s t).held (s t).todo) {t : T} {x : Thread R}
    (hx : Ordered rank x.held x.todo) (u : T) :
    Ordered rank (Function.update s t x u).held (Function.update s t x u).todo := by
  by_cases hu : u = t
  · subst hu
    rwa [Function.update_self]
  · rw [Function.update_of_ne hu]
    exact ho u

variable [DecidableEq R] [DecidableEq T] {codes : Set (Code R)}

theorem ordered_step (hc : ∀ p ∈ codes, Keeps rank [] p) {s' : T → Thread R} {t : T}
    (ho : ∀ t, Ordered rank (s t).held (s t).todo) (hs : Step codes s t s') (u : T) :
    Ordered rank (s' u).held (s' u).todo := by
  have hot := ho t
  cases hs with
  | call hidle hp hl =>
    rw [hidle] at hot
    have hnone : (s t).held = [] := hot
    apply ordered_update ho
    show Ordered rank (s t).held _
    rw [hnone]
    exact (hc _ hp).ordered hl
  | acquire ht hfree =>
    rw [ht] at hot
    exact ordered_update ho hot.2 u
  | release ht =>
    rw [ht] at hot
    exact ordered_update ho hot u

/-- Threads whose code acquires in order never wait for each other in a circle. -/
theorem not_transGen_waits (hc : ∀ p ∈ codes, Keeps rank [] p)
    (h : Reachable Start (Step codes) s) (t : T) : ¬ Relation.TransGen (Waits s) t t := by
  have ho : ∀ t, Ordered rank (s t).held (s t).todo := by
    apply h.invariant (I := fun s : T → Thread R => ∀ t, Ordered rank (s t).held (s t).todo)
    · rintro _ rfl t
      rfl
    · exact fun _ _ _ ho hs => ordered_step hc ho hs
  intro hcycle
  obtain ⟨u, ⟨r, l, ht, -⟩, -⟩ := Relation.TransGen.head'_iff.mp hcycle
  obtain ⟨k, hk, hle⟩ := exists_held_of_transGen ho hcycle ht
  have hot := ho t
  rw [ht] at hot
  exact absurd hle (hot.1 k hk).not_ge

end RocketNpu.LockOrder
