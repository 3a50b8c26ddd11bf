import Mathlib.Tactic.TypeStar

namespace RocketNpu.Calls

/-- How a call ends: with a value, with an error code, or not at all, because it died on
the way. -/
inductive Outcome (ε δ α : Type) where
  | ok (a : α)
  | error (e : ε)
  | died (d : δ)
deriving DecidableEq, Repr

/-- A call that moves a state. The state keeps what was done to it before an error or a
death: nothing is rolled back. -/
def Call (σ ε δ α : Type) := σ → Outcome ε δ α × σ

variable {σ ε δ α β : Type}

namespace Call

def fail (e : ε) : Call σ ε δ α := fun s => (.error e, s)

def die (d : δ) : Call σ ε δ α := fun s => (.died d, s)

def modify (f : σ → σ) : Call σ ε δ PUnit := fun s => (.ok ⟨⟩, f s)

def read (f : σ → α) : Call σ ε δ α := fun s => (.ok (f s), s)

/-- The error code as a value; a call that dies is dead. -/
def attempt (x : Call σ ε δ α) : Call σ ε δ (Except ε α) := fun s =>
  match x s with
  | (.ok a, s) => (.ok (.ok a), s)
  | (.error e, s) => (.ok (.error e), s)
  | (.died d, s) => (.died d, s)

/-- Ends with the error when there is one. -/
def orFail : Option ε → Call σ ε δ PUnit
  | none => fun s => (.ok ⟨⟩, s)
  | some e => fail e

def ofExcept : Except ε α → Call σ ε δ α
  | .ok a => fun s => (.ok a, s)
  | .error e => fail e

end Call

instance : Monad (Call σ ε δ) where
  pure a := fun s => (.ok a, s)
  bind x k := fun s =>
    match x s with
    | (.ok a, s) => k a s
    | (.error e, s) => (.error e, s)
    | (.died d, s) => (.died d, s)

namespace Call

/-- A caller that undoes what it did when the callee fails, and hands the error up. -/
def onError (x : Call σ ε δ α) (undo : Call σ ε δ PUnit) : Call σ ε δ α := do
  match ← attempt x with
  | .ok a => pure a
  | .error e =>
    undo
    fail e

@[simp] theorem pure_apply (a : α) (s : σ) : (pure a : Call σ ε δ α) s = (.ok a, s) := rfl

@[simp] theorem modify_apply (f : σ → σ) (s : σ) :
    (modify f : Call σ ε δ PUnit) s = (.ok ⟨⟩, f s) := rfl

@[simp] theorem read_apply (f : σ → α) (s : σ) : (read f : Call σ ε δ α) s = (.ok (f s), s) :=
  rfl

@[simp] theorem fail_apply (e : ε) (s : σ) : (fail e : Call σ ε δ α) s = (.error e, s) := rfl

@[simp] theorem die_apply (d : δ) (s : σ) : (die d : Call σ ε δ α) s = (.died d, s) := rfl

@[simp] theorem orFail_none (s : σ) : (orFail none : Call σ ε δ PUnit) s = (.ok ⟨⟩, s) := rfl

@[simp] theorem orFail_some (e : ε) (s : σ) :
    (orFail (some e) : Call σ ε δ PUnit) s = (.error e, s) := rfl

@[simp] theorem ofExcept_ok (a : α) (s : σ) :
    (ofExcept (.ok a) : Call σ ε δ α) s = (.ok a, s) := rfl

@[simp] theorem ofExcept_error (e : ε) (s : σ) :
    (ofExcept (.error e) : Call σ ε δ α) s = (.error e, s) := rfl

theorem bind_apply (x : Call σ ε δ α) (k : α → Call σ ε δ β) (s : σ) :
    (x >>= k) s = match x s with
      | (.ok a, t) => k a t
      | (.error e, t) => (.error e, t)
      | (.died d, t) => (.died d, t) := rfl

variable {x : Call σ ε δ α} {k : α → Call σ ε δ β} {s t u : σ}

theorem bind_ok {a : α} (h : x s = (.ok a, t)) : (x >>= k) s = k a t := by
  rw [bind_apply, h]

theorem bind_error {e : ε} (h : x s = (.error e, t)) : (x >>= k) s = (.error e, t) := by
  rw [bind_apply, h]

theorem bind_died {d : δ} (h : x s = (.died d, t)) : (x >>= k) s = (.died d, t) := by
  rw [bind_apply, h]

theorem attempt_ok {a : α} (h : x s = (.ok a, t)) : attempt x s = (.ok (.ok a), t) := by
  rw [attempt, h]

theorem attempt_error {e : ε} (h : x s = (.error e, t)) :
    attempt x s = (.ok (.error e), t) := by
  rw [attempt, h]

theorem attempt_died {d : δ} (h : x s = (.died d, t)) : attempt x s = (.died d, t) := by
  rw [attempt, h]

variable {undo : Call σ ε δ PUnit}

/-- A call for each element, in order. -/
def each (f : α → Call σ ε δ PUnit) : List α → Call σ ε δ PUnit
  | [] => Pure.pure ⟨⟩
  | a :: as => f a >>= fun _ => each f as

theorem each_cons_ok {f : α → Call σ ε δ PUnit} {a : α} (as : List α)
    (h : f a s = (.ok ⟨⟩, t)) : each f (a :: as) s = each f as t :=
  bind_ok h

theorem each_append_ok {f : α → Call σ ε δ PUnit} {as : List α} (bs : List α)
    (h : each f as s = (.ok ⟨⟩, t)) : each f (as ++ bs) s = each f bs t := by
  induction as generalizing s with
  | nil => cases h; rfl
  | cons a as ih =>
    simp only [each, List.cons_append] at h ⊢
    rcases hr : f a s with ⟨r | e | d, u⟩
    · rw [bind_ok hr] at h ⊢
      exact ih h
    · rw [bind_error hr] at h
      cases h
    · rw [bind_died hr] at h
      cases h

end Call

end RocketNpu.Calls
