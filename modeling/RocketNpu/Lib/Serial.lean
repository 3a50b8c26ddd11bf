import Mathlib.Data.Set.Basic
import Mathlib.Data.List.Nodup
import Mathlib.Logic.Function.Iterate

namespace RocketNpu.Serial

section InTurn

variable {ι σ : Type*} {f : ι → σ → σ} {m n : ι → ℕ} {order : List ι} {i : ι}

/-- The parties one after another, the last of the list first, each for its number of steps. -/
def inTurn (f : ι → σ → σ) (n : ι → ℕ) (order : List ι) (s : σ) : σ :=
  order.foldr (fun i s => (f i)^[n i] s) s

theorem inTurn_cons (k : ι) (s : σ) :
    inTurn f n (k :: order) s = (f k)^[n k] (inTurn f n order s) := rfl

theorem inTurn_congr (h : ∀ k ∈ order, m k = n k) (s : σ) :
    inTurn f m order s = inTurn f n order s := by
  induction order with
  | nil => rfl
  | cons k order ih =>
    rw [inTurn_cons, inTurn_cons, h k List.mem_cons_self,
      ih fun j hj => h j (List.mem_cons_of_mem k hj)]

/-- A step taken now might as well have been taken in turn, when it commutes with the steps of
the parties whose turn is later. -/
theorem inTurn_step [DecidableEq ι] (hnodup : order.Nodup) (hi : i ∈ order)
    (hlater : order.Pairwise fun k j => j = i → n k ≠ 0 → Function.Commute (f k) (f i))
    (s : σ) : inTurn f (Function.update n i (n i + 1)) order s = f i (inTurn f n order s) := by
  induction order with
  | nil => simp at hi
  | cons k order ih =>
    obtain ⟨hk, hnodup⟩ := List.nodup_cons.mp hnodup
    obtain ⟨hfirst, hlater⟩ := List.pairwise_cons.mp hlater
    rw [inTurn_cons, inTurn_cons]
    by_cases hki : k = i
    · subst hki
      have hrest : inTurn f (Function.update n k (n k + 1)) order s = inTurn f n order s := by
        refine inTurn_congr (fun j hj => Function.update_of_ne ?_ _ _) s
        rintro rfl
        exact hk hj
      rw [hrest, Function.update_self, Function.iterate_succ_apply']
    · have hmem := (List.mem_cons.mp hi).resolve_left (Ne.symm hki)
      rw [ih hnodup hmem hlater, Function.update_of_ne hki]
      by_cases hidle : n k = 0
      · simp [hidle]
      · exact ((hfirst i hmem rfl hidle).iterate_left (n k)) _

end InTurn

/-- What a party does to shared cells, a step at a time: it changes none but those it writes,
and what it does depends on none but those it reads. -/
structure Work (κ L V : Type*) where
  reads : Set κ
  writes : Set κ
  next : L → (κ → V) → L × (κ → V)
  frame : ∀ l v c, c ∉ writes → (next l v).2 c = v c
  sees : ∀ l v w, (∀ c ∈ reads, v c = w c) →
    (next l v).1 = (next l w).1 ∧ ∀ c ∈ writes, (next l v).2 c = (next l w).2 c

/-- Neither writes what the other reads or writes. -/
structure Apart {κ L V : Type*} (a b : Work κ L V) : Prop where
  reads : ∀ c ∈ a.writes, c ∉ b.reads
  writes : ∀ c ∈ a.writes, c ∉ b.writes
  read : ∀ c ∈ b.writes, c ∉ a.reads

variable {ι κ L V : Type*}

/-- What every party keeps to itself, and what they share. -/
@[ext] structure Cells (ι κ L V : Type*) where
  loc : ι → L
  mem : κ → V

def act [DecidableEq ι] (w : ι → Work κ L V) (i : ι) (s : Cells ι κ L V) : Cells ι κ L V where
  loc := Function.update s.loc i ((w i).next (s.loc i) s.mem).1
  mem := ((w i).next (s.loc i) s.mem).2

theorem Apart.symm {a b : Work κ L V} (h : Apart a b) : Apart b a where
  reads := h.read
  writes c hb ha := h.writes c ha hb
  read := h.reads

/-- A step does not see a step of work apart from it. -/
theorem Apart.unseen {a b : Work κ L V} (h : Apart a b) (l l' : L) (v : κ → V) :
    (b.next l' (a.next l v).2).1 = (b.next l' v).1 ∧
      ∀ c ∈ b.writes, (b.next l' (a.next l v).2).2 c = (b.next l' v).2 c := by
  refine b.sees l' _ _ fun c hc => a.frame l v c fun ha => ?_
  exact h.reads c ha hc

theorem Apart.mem_comm {a b : Work κ L V} (h : Apart a b) (l l' : L) (v : κ → V) (c : κ) :
    (b.next l' (a.next l v).2).2 c = (a.next l (b.next l' v).2).2 c := by
  by_cases hb : c ∈ b.writes
  · rw [(h.unseen l l' v).2 c hb, a.frame _ _ c fun ha => h.writes c ha hb]
  · rw [b.frame _ _ c hb]
    by_cases ha : c ∈ a.writes
    · exact ((h.symm.unseen l' l v).2 c ha).symm
    · rw [a.frame _ _ c ha, a.frame _ _ c ha, b.frame _ _ c hb]

/-- Steps of work apart may change places. -/
theorem act_comm [DecidableEq ι] {w : ι → Work κ L V} {i k : ι} (hik : i ≠ k)
    (h : Apart (w i) (w k)) : Function.Commute (act w i) (act w k) := by
  intro s
  ext c
  · simp only [act, Function.update_of_ne hik, Function.update_of_ne hik.symm]
    rw [(h.unseen (s.loc i) (s.loc k) s.mem).1, (h.symm.unseen (s.loc k) (s.loc i) s.mem).1,
      Function.update_comm hik]
  · simp only [act, Function.update_of_ne hik, Function.update_of_ne hik.symm]
    exact h.symm.mem_comm _ _ _ c

end RocketNpu.Serial
