import Mathlib.Data.Finset.Image
import Mathlib.Data.Fintype.EquivFin
import Mathlib.Order.WellFounded
import RocketNpu.Lib.LockOrder

namespace RocketNpu.WaitDie
open LockOrder Runs

variable {R S T α : Type*}

/-- Resources of a rank each, and which of them are locked in no particular order among
themselves, by tickets: these are all of one rank. -/
structure Discipline (R α : Type*) where
  rank : R → α
  ww : R → Bool
  ww_rank : ∀ a b, ww a = true → ww b = true → rank a = rank b

variable [Preorder α] (o : Discipline R α)

/-- `r` may be acquired while `h` is held. Ticketed locks nest only in a call with a ticket. -/
def Discipline.Below (ticketed : Bool) (h r : R) : Prop :=
  o.rank h < o.rank r ∨ ticketed = true ∧ h ≠ r ∧ o.ww h = true ∧ o.ww r = true

variable {o} {ticketed : Bool}

theorem Discipline.Below.rank_le {h r : R} (hb : o.Below ticketed h r) : o.rank h ≤ o.rank r := by
  rcases hb with hlt | ⟨-, -, hh, hr⟩
  · exact hlt.le
  · exact (o.ww_rank h r hh hr).le

theorem Discipline.Below.ne {h r : R} (hb : o.Below ticketed h r) : h ≠ r := by
  rintro rfl
  rcases hb with hlt | ⟨-, hne, -⟩
  · exact lt_irrefl _ hlt
  · exact hne rfl

theorem Discipline.Below.lt_of_not_ww {h r : R} (hb : o.Below ticketed h r)
    (hh : o.ww h = false) : o.rank h < o.rank r := by
  rcases hb with hlt | ⟨-, -, hw, -⟩
  · exact hlt
  · simp [hh] at hw

theorem Discipline.not_lt_of_ww {h r : R} (hh : o.ww h = true) (hr : o.ww r = true) :
    ¬ o.rank h < o.rank r := by
  rw [o.ww_rank h r hh hr]
  exact lt_irrefl _

/-- The operations one after the other. -/
def straight (l : List (Op R)) : Code R := l.foldr (fun e => .seq (.op e)) .skip

theorem path_straight {l m : List (Op R)} (hm : Path (straight l) m) : m = l := by
  induction l generalizing m with
  | nil =>
    cases hm
    rfl
  | cons e l ih =>
    cases hm with
    | seq hop hm =>
      cases hop
      rw [ih hm]
      rfl

variable [DecidableEq R]

/-- What is held after the operations. -/
def after : Finset R → List (Op R) → Finset R
  | held, [] => held
  | held, .acquire r :: l => after (insert r held) l
  | held, .release r :: l => after (held.erase r) l

/-- Every resource is acquired above those held by then. -/
def InOrder (o : Discipline R α) (ticketed : Bool) : Finset R → List (Op R) → Prop
  | _, [] => True
  | held, .acquire r :: l =>
    (∀ h ∈ held, o.Below ticketed h r) ∧ InOrder o ticketed (insert r held) l
  | held, .release r :: l => InOrder o ticketed (held.erase r) l

theorem after_append (held : Finset R) (l m : List (Op R)) :
    after held (l ++ m) = after (after held l) m := by
  induction l generalizing held with
  | nil => rfl
  | cons e l ih =>
    cases e with
    | acquire r => exact ih _
    | release r => exact ih _

theorem inOrder_append {held : Finset R} {l m : List (Op R)} :
    InOrder o ticketed held (l ++ m) ↔
      InOrder o ticketed held l ∧ InOrder o ticketed (after held l) m := by
  induction l generalizing held with
  | nil => simp [InOrder, after]
  | cons e l ih =>
    cases e with
    | acquire r => simp [InOrder, after, ih, and_assoc]
    | release r => simp [InOrder, after, ih]

theorem after_acquires (held : Finset R) (m : List R) :
    after held (m.map .acquire) = held ∪ m.toFinset := by
  induction m generalizing held with
  | nil => simp [after]
  | cons r m ih => simp [after, ih]

theorem after_releases (held : Finset R) (m : List R) :
    after held (m.map .release) = held \ m.toFinset := by
  induction m generalizing held with
  | nil => simp [after]
  | cons r m ih =>
    simp only [List.map_cons, after, ih, List.toFinset_cons]
    ext x
    simp only [Finset.mem_sdiff, Finset.mem_erase, Finset.mem_insert]
    tauto

theorem inOrder_releases (held : Finset R) (m : List R) :
    InOrder o ticketed held (m.map .release) := by
  induction m generalizing held with
  | nil => trivial
  | cons r m ih => exact ih _

/-- Distinct resources, each above those held at first and above each other. -/
theorem inOrder_acquires {held : Finset R} {m : List R} (hm : m.Nodup)
    (hheld : ∀ r ∈ m, ∀ h ∈ held, o.Below ticketed h r)
    (hpair : ∀ a ∈ m, ∀ b ∈ m, a ≠ b → o.Below ticketed a b) :
    InOrder o ticketed held (m.map .acquire) := by
  induction m generalizing held with
  | nil => trivial
  | cons r m ih =>
    obtain ⟨hr, hm⟩ := List.nodup_cons.mp hm
    refine ⟨hheld r List.mem_cons_self, ih hm ?_ ?_⟩
    · intro x hx h hh
      rcases Finset.mem_insert.mp hh with rfl | hh
      · exact hpair h List.mem_cons_self x (List.mem_cons_of_mem h hx) fun e => hr (e ▸ hx)
      · exact hheld x (List.mem_cons_of_mem r hx) h hh
    · exact fun a ha b hb => hpair a (List.mem_cons_of_mem r ha) b (List.mem_cons_of_mem r hb)

theorem ne_of_inOrder_acquires {held : Finset R} {m : List R}
    (hm : InOrder o ticketed held (m.map .acquire)) : ∀ r ∈ m, r ∉ held := by
  induction m generalizing held with
  | nil => simp
  | cons x m ih =>
    intro r hr hmem
    rcases List.mem_cons.mp hr with rfl | hr
    · exact (hm.1 r hmem).ne rfl
    · exact ih hm.2 r hr (Finset.mem_insert_of_mem hmem)

section rules

/-- Code that runs in order while `held` is held, and gives back what it takes. -/
def Keeps (o : Discipline R α) (ticketed : Bool) (held : Finset R) (p : Code R) : Prop :=
  ∀ l, Path p l → InOrder o ticketed held l ∧ after held l = held

variable {held : Finset R} {p q : Code R} {r : R}

theorem Keeps.skip : Keeps o ticketed held .skip := by
  intro l hl
  cases hl
  exact ⟨trivial, rfl⟩

theorem Keeps.seq (hp : Keeps o ticketed held p) (hq : Keeps o ticketed held q) :
    Keeps o ticketed held (.seq p q) := by
  intro l hl
  cases hl with
  | seq hl hm =>
    obtain ⟨hpo, hpa⟩ := hp _ hl
    rw [inOrder_append, after_append, hpa]
    exact ⟨⟨hpo, (hq _ hm).1⟩, (hq _ hm).2⟩

theorem Keeps.alt (hp : Keeps o ticketed held p) (hq : Keeps o ticketed held q) :
    Keeps o ticketed held (.alt p q) := by
  intro l hl
  cases hl with
  | left hl => exact hp _ hl
  | right hl => exact hq _ hl

/-- A branch that is taken or not. -/
theorem Keeps.opt (hp : Keeps o ticketed held p) : Keeps o ticketed held (.alt .skip p) :=
  Keeps.skip.alt hp

theorem Keeps.any {p : ℕ → Code R} (hp : ∀ i, Keeps o ticketed held (p i)) :
    Keeps o ticketed held (.any p) := by
  intro l hl
  cases hl with
  | any i hl => exact hp i _ hl

theorem Keeps.loop (hp : Keeps o ticketed held p) : Keeps o ticketed held (.loop p) := by
  intro l hl
  generalize hq : Code.loop p = q at hl
  induction hl with
  | done => exact ⟨trivial, rfl⟩
  | again hl _ _ ih =>
    obtain rfl := Code.loop.inj hq
    obtain ⟨hpo, hpa⟩ := hp _ hl
    rw [inOrder_append, after_append, hpa]
    exact ⟨⟨hpo, (ih rfl).1⟩, (ih rfl).2⟩
  | _ => cases hq

theorem Keeps.locked (hr : ∀ h ∈ held, o.Below ticketed h r)
    (hp : Keeps o ticketed (insert r held) p) : Keeps o ticketed held (.locked r p) := by
  intro l hl
  cases hl with
  | seq hacq hl =>
    cases hacq
    cases hl with
    | seq hl hrel =>
      cases hrel
      obtain ⟨hpo, hpa⟩ := hp _ hl
      have hfresh : r ∉ held := fun hmem => (hr r hmem).ne rfl
      refine ⟨⟨hr, ?_⟩, ?_⟩
      · show InOrder o ticketed (insert r held) (_ ++ [Op.release r])
        exact inOrder_append.mpr ⟨hpo, trivial⟩
      · show after (insert r held) (_ ++ [Op.release r]) = held
        rw [after_append, hpa]
        exact Finset.erase_insert hfresh

/-- Ticketed locks, taken in any order. -/
theorem Keeps.lockedAll {rs : List R} (hrs : rs.Nodup) (hww : ∀ r ∈ rs, o.ww r = true)
    (hr : ∀ r ∈ rs, ∀ h ∈ held, o.Below true h r)
    (hp : Keeps o true (held ∪ rs.toFinset) p) :
    Keeps o true held
      (.seq (straight (rs.map .acquire)) (.seq p (straight (rs.map .release)))) := by
  intro l hl
  cases hl with
  | seq hacq hl =>
    obtain rfl := path_straight hacq
    cases hl with
    | seq hl hrel =>
      obtain rfl := path_straight hrel
      obtain ⟨hpo, hpa⟩ := hp _ hl
      have hacquires : InOrder o true held (rs.map .acquire) :=
        inOrder_acquires hrs hr fun a ha b hb hne => .inr ⟨rfl, hne, hww a ha, hww b hb⟩
      have hfresh := ne_of_inOrder_acquires hacquires
      constructor
      · rw [inOrder_append, inOrder_append, after_acquires, hpa]
        exact ⟨hacquires, hpo, inOrder_releases _ _⟩
      · rw [after_append, after_append, after_acquires, hpa, after_releases]
        ext x
        simp only [Finset.mem_sdiff, Finset.mem_union, List.mem_toFinset]
        have := hfresh x
        tauto

end rules

section embed

variable {β : Type*} [Preorder β] {rank : S → β} {f : S → R}

def opMap (f : S → R) : Op S → Op R
  | .acquire r => .acquire (f r)
  | .release r => .release (f r)

/-- The code with its resources renamed. -/
def embed (f : S → R) : Code S → Code R
  | .skip => .skip
  | .op e => .op (opMap f e)
  | .seq p q => .seq (embed f p) (embed f q)
  | .alt p q => .alt (embed f p) (embed f q)
  | .any p => .any fun i => embed f (p i)
  | .loop p => .loop (embed f p)

omit [DecidableEq R] in
theorem path_embed {p : Code S} {l : List (Op R)} (hl : Path (embed f p) l) :
    ∃ m, Path p m ∧ l = m.map (opMap f) := by
  induction p generalizing l with
  | skip =>
    cases hl
    exact ⟨[], .skip, rfl⟩
  | op e =>
    cases hl
    exact ⟨[e], .op e, rfl⟩
  | seq p q ihp ihq =>
    cases hl with
    | seq hp hq =>
      obtain ⟨m, hm, rfl⟩ := ihp hp
      obtain ⟨k, hk, rfl⟩ := ihq hq
      exact ⟨m ++ k, .seq hm hk, by simp⟩
  | alt p q ihp ihq =>
    cases hl with
    | left hp =>
      obtain ⟨m, hm, rfl⟩ := ihp hp
      exact ⟨m, .left hm, rfl⟩
    | right hq =>
      obtain ⟨m, hm, rfl⟩ := ihq hq
      exact ⟨m, .right hm, rfl⟩
  | any p ih =>
    cases hl with
    | any i hp =>
      obtain ⟨m, hm, rfl⟩ := ih i hp
      exact ⟨m, .any i hm, rfl⟩
  | loop p ih =>
    generalize hq : embed f (.loop p) = q at hl
    induction hl with
    | done => exact ⟨[], .done, rfl⟩
    | again hp _ _ ihl =>
      obtain rfl := Code.loop.inj hq
      obtain ⟨m, hm, rfl⟩ := ih hp
      obtain ⟨k, hk, rfl⟩ := ihl rfl
      exact ⟨m ++ k, .again hm hk, by simp⟩
    | _ => cases hq

variable [DecidableEq S] {base : Finset R}

/-- Operations ordered by themselves are in order above a base of lower ranks. -/
theorem inOrder_of_ordered (hf : Function.Injective f)
    (hmono : ∀ a b, rank a < rank b → o.rank (f a) < o.rank (f b))
    (hbase : ∀ h ∈ base, ∀ r, o.rank h < o.rank (f r)) {held : List S} {l : List (Op S)}
    (hnd : held.Nodup) (hl : Ordered rank held l) :
    InOrder o ticketed (base ∪ (held.map f).toFinset) (l.map (opMap f)) ∧
      after (base ∪ (held.map f).toFinset) (l.map (opMap f)) = base := by
  induction l generalizing held with
  | nil =>
    obtain rfl : held = [] := hl
    exact ⟨trivial, by simp [after]⟩
  | cons e l ih =>
    cases e with
    | acquire r =>
      obtain ⟨hr, hl⟩ := hl
      have hbelow : ∀ h ∈ base ∪ (held.map f).toFinset, o.Below ticketed h (f r) := by
        intro h hh
        rcases Finset.mem_union.mp hh with hh | hh
        · exact .inl (hbase h hh r)
        · obtain ⟨a, ha, rfl⟩ := List.mem_map.mp (List.mem_toFinset.mp hh)
          exact .inl (hmono a r (hr a ha))
      have hfresh : r ∉ held := fun hmem => lt_irrefl _ (hr r hmem)
      have hstep : insert (f r) (base ∪ (held.map f).toFinset) =
          base ∪ ((r :: held).map f).toFinset := by simp
      have hnd' : (r :: held).Nodup := List.nodup_cons.mpr ⟨hfresh, hnd⟩
      obtain ⟨hin, hafter⟩ := ih hnd' hl
      rw [← hstep] at hin hafter
      exact ⟨⟨hbelow, hin⟩, hafter⟩
    | release r =>
      have hout : f r ∉ base := fun hmem => lt_irrefl _ (hbase (f r) hmem r)
      have hstep : (base ∪ (held.map f).toFinset).erase (f r) =
          base ∪ ((held.erase r).map f).toFinset := by
        rw [List.map_erase hf]
        ext x
        simp only [Finset.mem_erase, Finset.mem_union, List.mem_toFinset,
          (hnd.map hf).mem_erase_iff]
        have hbase_ne : x ∈ base → x ≠ f r := fun hx e => hout (e ▸ hx)
        tauto
      obtain ⟨hin, hafter⟩ := ih (hnd.erase r) hl
      rw [← hstep] at hin hafter
      exact ⟨hin, hafter⟩

/-- Code that keeps an order of its own keeps it above a base of lower ranks. -/
theorem Keeps.embed {p : Code S} (hp : LockOrder.Keeps rank [] p) (hf : Function.Injective f)
    (hmono : ∀ a b, rank a < rank b → o.rank (f a) < o.rank (f b))
    (hbase : ∀ h ∈ base, ∀ r, o.rank h < o.rank (f r)) :
    Keeps o ticketed base (embed f p) := by
  intro l hl
  obtain ⟨m, hm, rfl⟩ := path_embed hl
  have h : InOrder o ticketed _ _ ∧ _ :=
    inOrder_of_ordered hf hmono hbase List.nodup_nil (hp.ordered hm)
  simpa using h

end embed

structure Thread (R : Type*) where
  held : Finset R
  /-- What is left of the call it is in. -/
  todo : List (Op R)
  /-- The ticket of the call, if it takes one. -/
  ticket : Option ℕ

/-- A holder without a ticket is older than nobody. -/
def Older (t u : Thread R) : Prop := ∀ k, u.ticket = some k → ∃ j, t.ticket = some j ∧ j < k

def HoldsTicketed (o : Discipline R α) (t : Thread R) : Prop := ∃ h ∈ t.held, o.ww h = true

/-- `t` is about to acquire a resource that `u` holds. With ticketed locks in hand it only waits
for another when it is the older. -/
def Waits (o : Discipline R α) (s : T → Thread R) (t u : T) : Prop :=
  ∃ r l, (s t).todo = .acquire r :: l ∧ r ∈ (s u).held ∧
    (o.ww r = true → HoldsTicketed o (s t) → Older (s t) (s u))

/-- Threads make calls one after the other, each with a ticket of its own or without one. A
younger thread that meets an older one gives its ticketed locks back, takes the lock it could
not have, and then the others again together with those that were to follow. -/
inductive Step [DecidableEq T] (o : Discipline R α) (calls : Set (Bool × Code R)) :
    (T → Thread R) → T → (T → Thread R) → Prop where
  | call {s : T → Thread R} {t : T} {c : Bool × Code R} {l : List (Op R)} {k : Option ℕ} :
      (s t).todo = [] → c ∈ calls → Path c.2 l → k.isSome = c.1 →
      (∀ u i, k = some i → (s u).ticket ≠ some i) →
      Step o calls s t (Function.update s t ⟨(s t).held, l, k⟩)
  | acquire {s : T → Thread R} {t : T} {r : R} {l : List (Op R)} :
      (s t).todo = .acquire r :: l → (∀ u, r ∉ (s u).held) →
      Step o calls s t (Function.update s t ⟨insert r (s t).held, l, (s t).ticket⟩)
  | release {s : T → Thread R} {t : T} {r : R} {l : List (Op R)} :
      (s t).todo = .release r :: l →
      Step o calls s t (Function.update s t ⟨(s t).held.erase r, l, (s t).ticket⟩)
  | die {s : T → Thread R} {t u : T} {r : R} {m n : List R} {l : List (Op R)} :
      (s t).todo = .acquire r :: (m.map .acquire ++ l) → r ∈ (s u).held → o.ww r = true →
      HoldsTicketed o (s t) → ¬ Older (s t) (s u) → (∀ x ∈ m, o.ww x = true) → n.Nodup →
      n.toFinset = (s t).held.filter (fun x => o.ww x = true) ∪ m.toFinset →
      Step o calls s t (Function.update s t
        ⟨(s t).held.filter (fun x => o.ww x = false), .acquire r :: (n.map .acquire ++ l),
          (s t).ticket⟩)

def Start (s : T → Thread R) : Prop := s = fun _ => ⟨∅, [], none⟩

/-- What holds of a thread in the middle of a call. -/
def Thread.Ok (o : Discipline R α) (t : Thread R) : Prop :=
  InOrder o t.ticket.isSome t.held t.todo ∧ after t.held t.todo = ∅

variable {s : T → Thread R}

omit [Preorder α] in
/-- Giving the ticketed locks back and taking them again leads to the same place. -/
theorem restore_held {held : Finset R} {r : R} {m n : List R}
    (hset : n.toFinset = held.filter (fun x => o.ww x = true) ∪ m.toFinset) :
    after (insert r (held.filter (fun x => o.ww x = false))) (n.map .acquire) =
      after (insert r held) (m.map .acquire) := by
  rw [after_acquires, after_acquires, hset]
  ext x
  simp only [Finset.mem_union, Finset.mem_insert, Finset.mem_filter, List.mem_toFinset]
  rcases h : o.ww x with _ | _
  · simp
  · simp
    tauto

theorem Thread.Ok.died {t : Thread R} {r : R} {m n : List R} {l : List (Op R)} (h : t.Ok o)
    (htodo : t.todo = .acquire r :: (m.map .acquire ++ l)) (hr : o.ww r = true)
    (hholds : HoldsTicketed o t) (hm : ∀ x ∈ m, o.ww x = true) (hnd : n.Nodup)
    (hset : n.toFinset = t.held.filter (fun x => o.ww x = true) ∪ m.toFinset) :
    Thread.Ok o ⟨t.held.filter (fun x => o.ww x = false), .acquire r :: (n.map .acquire ++ l),
      t.ticket⟩ := by
  obtain ⟨hin, hafter⟩ := h
  rw [htodo] at hin hafter
  obtain ⟨hbelow, hin⟩ := hin
  obtain ⟨hacq, hrest⟩ := inOrder_append.mp hin
  have hticket : t.ticket.isSome = true := by
    obtain ⟨h, hh, hw⟩ := hholds
    rcases hbelow h hh with hlt | ⟨ht, -⟩
    · exact absurd hlt (o.not_lt_of_ww hw hr)
    · exact ht
  have hmem : ∀ x ∈ n, o.ww x = true ∧ r ≠ x := by
    intro x hx
    have hx : x ∈ t.held.filter (fun x => o.ww x = true) ∪ m.toFinset :=
      hset ▸ List.mem_toFinset.mpr hx
    rcases Finset.mem_union.mp hx with hx | hx
    · obtain ⟨hx, hw⟩ := Finset.mem_filter.mp hx
      exact ⟨hw, (hbelow x hx).ne.symm⟩
    · have hx := List.mem_toFinset.mp hx
      have hout := ne_of_inOrder_acquires hacq x hx
      exact ⟨hm x hx, fun e => hout (e ▸ Finset.mem_insert_self r t.held)⟩
  have hplain : ∀ h ∈ t.held.filter (fun x => o.ww x = false),
      o.Below t.ticket.isSome h r ∧ o.rank h < o.rank r := by
    intro h hh
    obtain ⟨hh, hw⟩ := Finset.mem_filter.mp hh
    exact ⟨hbelow h hh, (hbelow h hh).lt_of_not_ww hw⟩
  refine ⟨⟨fun h hh => (hplain h hh).1, inOrder_append.mpr ⟨?_, ?_⟩⟩, ?_⟩
  · apply inOrder_acquires hnd
    · intro x hx h hh
      obtain ⟨hw, hne⟩ := hmem x hx
      rcases Finset.mem_insert.mp hh with rfl | hh
      · exact .inr ⟨hticket, hne, hr, hw⟩
      · exact .inl (o.ww_rank r x hr hw ▸ (hplain h hh).2)
    · exact fun a ha b hb hne => .inr ⟨hticket, hne, (hmem a ha).1, (hmem b hb).1⟩
  · rw [restore_held hset]
    exact hrest
  · show after (insert r _) (_ ++ l) = ∅
    rw [after_append, restore_held hset, ← after_append]
    exact hafter

section threads

variable [DecidableEq T] {calls : Set (Bool × Code R)}

theorem ok_step (hc : ∀ c ∈ calls, Keeps o c.1 ∅ c.2) {s' : T → Thread R} {t : T}
    (ho : ∀ t, (s t).Ok o) (hs : Step o calls s t s') : ∀ u, (s' u).Ok o := by
  have hupdate : ∀ x : Thread R, x.Ok o → ∀ u, (Function.update s t x u).Ok o := by
    intro x hx u
    by_cases hu : u = t
    · subst hu
      rwa [Function.update_self]
    · rw [Function.update_of_ne hu]
      exact ho u
  obtain ⟨hin, hafter⟩ := ho t
  cases hs with
  | call hidle hmem hpath hticket hnew =>
    apply hupdate
    rw [hidle] at hafter
    have hnone : (s t).held = ∅ := hafter
    obtain ⟨hi, ha⟩ := hc _ hmem _ hpath
    rw [hnone]
    exact ⟨by rwa [hticket], ha⟩
  | acquire ht hfree =>
    rw [ht] at hin hafter
    exact hupdate _ ⟨hin.2, hafter⟩
  | release ht =>
    rw [ht] at hin hafter
    exact hupdate _ ⟨hin, hafter⟩
  | die ht _ hr hholds _ hm hnd hset =>
    exact hupdate _ ((ho t).died ht hr hholds hm hnd hset)

theorem ok_of_reachable (hc : ∀ c ∈ calls, Keeps o c.1 ∅ c.2)
    (h : Reachable Start (Step o calls) s) (t : T) : (s t).Ok o := by
  refine h.invariant (I := fun s : T → Thread R => ∀ t, (s t).Ok o) ?_
    (fun _ _ _ ho hs => ok_step hc ho hs) t
  rintro _ rfl t
  exact ⟨trivial, rfl⟩

end threads

omit [DecidableEq R] in
theorem Older.trans {t u v : Thread R} (h : Older t u) (h' : Older u v) : Older t v := by
  intro k hk
  obtain ⟨j, hj, hlt⟩ := h' k hk
  obtain ⟨i, hi, hlt'⟩ := h j hj
  exact ⟨i, hi, hlt'.trans hlt⟩

/-- Along a chain of waiting threads the resources they wait for rise, or they are ticketed locks
and the threads get younger. -/
theorem exists_held_of_transGen (ho : ∀ t, (s t).Ok o) {t u : T}
    (h : Relation.TransGen (Waits o s) t u) {r : R} {l : List (Op R)}
    (ht : (s t).todo = .acquire r :: l) :
    ∃ k ∈ (s u).held, o.rank r < o.rank k ∨
      o.rank r = o.rank k ∧
        (o.ww r = true → o.ww k = true → HoldsTicketed o (s t) → Older (s t) (s u)) := by
  induction h with
  | single hw =>
    obtain ⟨r', l', ht', hr, holder⟩ := hw
    obtain ⟨rfl, -⟩ : r' = r ∧ l' = l := by simpa [ht] using ht'.symm
    exact ⟨r', hr, .inr ⟨rfl, fun hww _ => holder hww⟩⟩
  | @tail v w _ hw ih =>
    obtain ⟨k, hk, hchain⟩ := ih
    obtain ⟨r', l', hv, hr', holder⟩ := hw
    have hin := (ho v).1
    rw [hv] at hin
    refine ⟨r', hr', ?_⟩
    rcases hin.1 k hk with hlt | ⟨-, -, hkw, hrw⟩
    · rcases hchain with hrk | ⟨hrk, -⟩
      · exact .inl (hrk.trans hlt)
      · exact .inl (hrk ▸ hlt)
    · have heq : o.rank k = o.rank r' := o.ww_rank k r' hkw hrw
      rcases hchain with hrk | ⟨hrk, hold⟩
      · exact .inl (heq ▸ hrk)
      · refine .inr ⟨hrk.trans heq, fun hww _ hholds => ?_⟩
        exact (hold hww hkw hholds).trans (holder hrw ⟨k, hk, hkw⟩)

/-- No thread waits for itself through a chain of threads. -/
theorem not_transGen_waits (ho : ∀ t, (s t).Ok o) (t : T) :
    ¬ Relation.TransGen (Waits o s) t t := by
  intro hcycle
  obtain ⟨u, ⟨r, l, ht, -⟩, -⟩ := Relation.TransGen.head'_iff.mp hcycle
  obtain ⟨k, hk, hchain⟩ := exists_held_of_transGen ho hcycle ht
  have hin := (ho t).1
  rw [ht] at hin
  have hbelow := hin.1 k hk
  rcases hchain with hlt | ⟨heq, holder⟩
  · exact absurd hbelow.rank_le hlt.not_ge
  · rcases hbelow with hlt | ⟨hticket, -, hkw, hrw⟩
    · exact absurd heq hlt.ne'
    · obtain ⟨j, hj⟩ := Option.isSome_iff_exists.mp hticket
      obtain ⟨i, hi, hlt⟩ := holder hrw hkw ⟨k, hk, hkw⟩ j hj
      rw [hj] at hi
      cases hi
      exact lt_irrefl _ hlt

section progress

variable [DecidableEq T] {calls : Set (Bool × Code R)}

omit [Preorder α] in
/-- A call that waits for nobody goes on. -/
theorem exists_step {t : T} (ht : (s t).todo ≠ []) (hfree : ∀ u, ¬ Waits o s t u) :
    ∃ s', Step o calls s t s' := by
  obtain ⟨e, l, hl⟩ := List.exists_cons_of_ne_nil ht
  cases e with
  | release r => exact ⟨_, .release hl⟩
  | acquire r =>
    by_cases hheld : ∃ u, r ∈ (s u).held
    · obtain ⟨u, hu⟩ := hheld
      have hdie : o.ww r = true ∧ HoldsTicketed o (s t) ∧ ¬ Older (s t) (s u) := by
        have := hfree u
        simp only [Waits, not_exists, not_and] at this
        simpa using this r l hl hu
      obtain ⟨hr, hholds, hyoung⟩ := hdie
      exact ⟨_, .die (m := []) (n := ((s t).held.filter fun x => o.ww x = true).toList) hl hu hr
        hholds hyoung (by simp) (Finset.nodup_toList _) (by simp)⟩
    · exact ⟨_, .acquire hl fun u hu => hheld ⟨u, hu⟩⟩

/-- Every unfinished call waits, through some chain of threads, for one that can go on. -/
theorem exists_unblocked [Finite T] (hc : ∀ c ∈ calls, Keeps o c.1 ∅ c.2)
    (h : Reachable Start (Step o calls) s) {t : T} (ht : (s t).todo ≠ []) :
    ∃ u s', Relation.ReflTransGen (Waits o s) t u ∧ (s u).todo ≠ [] ∧ Step o calls s u s' := by
  have ho := ok_of_reachable hc h
  have hwf : WellFounded fun a b : T => Relation.TransGen (Waits o s) b a := by
    have : IsTrans T fun a b => Relation.TransGen (Waits o s) b a := ⟨fun _ _ _ h h' => h'.trans h⟩
    have : Std.Irrefl fun a b : T => Relation.TransGen (Waits o s) b a :=
      ⟨fun a => not_transGen_waits ho a⟩
    exact Finite.wellFounded_of_trans_of_irrefl _
  induction t using hwf.induction with
  | _ t ih =>
    by_cases hw : ∃ u, Waits o s t u
    · obtain ⟨u, hu⟩ := hw
      have hu_todo : (s u).todo ≠ [] := by
        obtain ⟨r, l, -, hr, -⟩ := hu
        intro hnil
        have hafter := (ho u).2
        rw [hnil] at hafter
        have hnone : (s u).held = ∅ := hafter
        rw [hnone] at hr
        exact Finset.notMem_empty r hr
      obtain ⟨v, s', hv, hrest⟩ := ih u (.single hu) hu_todo
      exact ⟨v, s', hv.head hu, hrest⟩
    · obtain ⟨s', hs⟩ : ∃ s', Step o calls s t s' := exists_step ht fun u hu => hw ⟨u, hu⟩
      exact ⟨t, s', .refl, ht, hs⟩

end progress

end RocketNpu.WaitDie
