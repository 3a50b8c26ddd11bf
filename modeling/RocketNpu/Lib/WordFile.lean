import Mathlib.Data.List.Basic
import Mathlib.Logic.Function.Basic

namespace RocketNpu.WordFile

variable {ι β : Type*} [DecidableEq ι]

/-- A file of words after some writes, the first one first. -/
def writes (file : ι → β) (ws : List (ι × β)) : ι → β :=
  ws.foldl (fun f w => Function.update f w.1 w.2) file

/-- The last word written to a place. -/
def lastAt (i : ι) : List (ι × β) → Option β
  | [] => none
  | w :: ws => (lastAt i ws).or (if i = w.1 then some w.2 else none)

variable {file : ι → β} {ws us : List (ι × β)} {shared : ι → Prop} {i : ι}

theorem lastAt_append (i : ι) (ws us : List (ι × β)) :
    lastAt i (ws ++ us) = (lastAt i us).or (lastAt i ws) := by
  induction ws with
  | nil => simp [lastAt]
  | cons w ws ih => simp [lastAt, ih, Option.or_assoc]

theorem lastAt_eq_none (h : ∀ w ∈ ws, w.1 ≠ i) : lastAt i ws = none := by
  induction ws with
  | nil => rfl
  | cons w ws ih =>
    have hw : w.1 ≠ i := h w List.mem_cons_self
    simp [lastAt, ih fun u hu => h u (List.mem_cons_of_mem w hu), Ne.symm hw]

/-- A place holds the last word written to it. -/
theorem writes_apply (file : ι → β) (ws : List (ι × β)) (i : ι) :
    writes file ws i = (lastAt i ws).getD (file i) := by
  induction ws generalizing file with
  | nil => rfl
  | cons w ws ih =>
    show writes (Function.update file w.1 w.2) ws i = _
    rw [ih, lastAt, Function.update_apply]
    cases lastAt i ws with
    | some b => rfl
    | none => split_ifs <;> rfl

/-- The places that are not shared hold what these writes put there. -/
def Holds (shared : ι → Prop) (ws : List (ι × β)) (file : ι → β) : Prop :=
  ∀ i, ¬ shared i → ∀ b, lastAt i ws = some b → file i = b

theorem Holds.nil : Holds shared [] file := fun _ _ _ h => by cases h

theorem Holds.append (h : Holds shared ws file) (us : List (ι × β)) :
    Holds shared (ws ++ us) (writes file us) := by
  intro i hi b hb
  rw [lastAt_append] at hb
  rw [writes_apply]
  cases hu : lastAt i us with
  | some c =>
    rw [hu] at hb
    exact Option.some.inj hb
  | none =>
    rw [hu] at hb
    exact h i hi b hb

/-- Writes to other places, or to shared ones, change nothing of it. -/
theorem Holds.writes (h : Holds shared ws file)
    (hus : ∀ u ∈ us, shared u.1 ∨ lastAt u.1 ws = none) :
    Holds shared ws (writes file us) := by
  intro i hi b hb
  have hnone : lastAt i us = none := by
    apply lastAt_eq_none
    rintro u hu rfl
    rcases hus u hu with hs | hl
    · exact hi hs
    · rw [hl] at hb
      cases hb
  rw [writes_apply, hnone]
  exact h i hi b hb

end RocketNpu.WordFile
